import PestiGguf.Proof.Emission
import PestiGguf.Proof.ReadBack
import PestiGguf.Proof.DataSection

/-!
# Where the writer and the parser put the data section

Both round up a computed size of the header: the writer to its `alignment`,
256 unless set, the parser to the `general.alignment` of the KV pairs, or 32.
The writer does not add that pair, and in version 1 the parser does not count
the tensors. So they agree exactly where the two roundings do
(`write_parse_dataStart_iff`), which they do not for the default writer.
-/

namespace PestiGguf

open Codec Codec.Reader Codec.Emit Spec

theorem headerSize_le (f : GgufWireFormat) (kvs : List GgufKvPair) (ts : List GgufTensorInfo) :
    headerSize f kvs [] ≤ headerSize f kvs ts := by
  rw [headerSize, headerSize, List.map_nil, List.sum_nil]
  omega

/-- Where the parser takes the data section to start. -/
theorem toNat_headerOf_dataSectionStart {v : GgufVersion} {kvs : List GgufKvPair} {ts : List GgufTensorInfo}
    (ha : AlignmentOk kvs) (h : headerSize v.wireFormat kvs ts < 2 ^ 63) :
    (headerOf v kvs ts).dataSectionStart.toNat =
      roundUp (alignmentOf kvs) (headerSize v.wireFormat kvs ts) := by
  obtain ⟨hpos, hle⟩ := ha.bounds
  have hlen := length_preamble v 0 0
  rw [headerSize, ← hlen] at h ⊢
  exact toNat_computeDataSectionStart (sum_toNat _ _) (sum_toNat _ _) hpos (by omega)

/-- Where the writer starts it. -/
theorem toNat_dataStart_headerSize {w : GgufWriter}
    (h : headerSize w.wireFormat w.kvPairs w.tensors < 2 ^ 63) :
    w.dataStart.toNat = roundUp w.alignment.toNat (headerSize w.wireFormat w.kvPairs w.tensors) :=
  toNat_dataStart_of_sum (sum_toNat _ _) (sum_toNat _ _) h

theorem version_exists {n : UInt32} (h : n = 1 ∨ n = 2 ∨ n = 3) : ∃ v, n = versionNumber v := by
  rcases h with rfl | rfl | rfl
  · exact ⟨.v1, rfl⟩
  · exact ⟨.v2, rfl⟩
  · exact ⟨.v3, rfl⟩

/-- The writer and the parser agree on where the data section starts exactly
where they round the header's size to the same number. -/
theorem write_parse_dataStart_iff (w : GgufWriter)
    (hver : w.version = 1 ∨ w.version = 2 ∨ w.version = 3) (hf : Faithful w) (path : String)
    (fs fs' : FileSystem) (hok : w.write path fs = (.ok (), fs')) (h : GgufHeader)
    (hp : parseGguf fs' path = .ok h) :
    h.dataSectionStart = w.dataStart ↔
      roundUp (alignmentOf w.kvPairs)
          (headerSize w.wireFormat w.kvPairs (if w.version = 1 then [] else w.tensors)) =
        roundUp w.alignment.toNat (headerSize w.wireFormat w.kvPairs w.tensors) := by
  obtain ⟨v, hv⟩ := version_exists hver
  obtain ⟨file, hfile, rfl⟩ := write_eq_ok.mp hok
  obtain ⟨hd, hhd, -, rfl⟩ := emits_emit_iff.mp hfile
  rw [parseGguf_eq (if_pos rfl)] at hp
  obtain ⟨c, hc, hword⟩ := (recognises_parseGgufReader _ _ _).mp ⟨hp, rfl⟩
  obtain ⟨rfl, ha⟩ := header_of_append hv hf.kvCount hf.kv (fun _ => ⟨hf.tensorCount, hf.tensor⟩) hhd hword hc
  have hsize := hf.size
  have hread : headerSize v.wireFormat w.kvPairs (if v = .v1 then [] else w.tensors) < 2 ^ 63 := by
    rw [wireFormat_of_version hv] at hsize
    split
    · exact Nat.lt_of_le_of_lt (headerSize_le ..) hsize
    · exact hsize
  rw [← UInt64.toNat_inj, toNat_headerOf_dataSectionStart ha hread, toNat_dataStart_headerSize hsize,
    wireFormat_of_version hv]
  simp only [hv, versionNumber_eq_one]

theorem sampleWriter_faithful : Faithful sampleWriter where
  kvCount := by decide
  tensorCount := by decide
  kv kv hm := by
    rcases List.mem_cons.mp hm with rfl | hm
    · refine ⟨by decide, rfl, by decide, .bool, fun v hv => ?_⟩
      rcases List.mem_cons.mp hv with rfl | hv
      · exact ⟨rfl, nofun⟩
      · rw [List.mem_singleton.mp hv]
        exact ⟨rfl, nofun⟩
    · rw [List.mem_singleton.mp hm]
      exact ⟨by decide, rfl, trivial⟩
  tensor t hm := by
    rw [List.mem_singleton.mp hm]
    exact ⟨by decide, by decide⟩
  size := by
    show (121 : Nat) < 2 ^ 63
    decide

theorem write_parse_dataStart_iff_sample : ∃ h,
    parseGguf (sampleWriter.write "out.gguf" fun _ => none).2 "out.gguf" = .ok h ∧
      h.dataSectionStart = sampleWriter.dataStart := by
  have hok := write_of_emit sampleWriter_emits "out.gguf" fun _ => none
  obtain ⟨file, hfs, hp⟩ := sampleWriter_withinLimits.parse (v := .v3) (by decide) rfl hok
  rw [← parseGguf_eq hfs] at hp
  exact ⟨_, hp, (write_parse_dataStart_iff sampleWriter (.inr (.inr rfl)) sampleWriter_faithful _ _ _ hok _
    hp).mpr (by decide +kernel)⟩

/-- The default writer pads to 256, and the parser reads from 32 on. -/
theorem write_parse_dataStart_default : ¬ ∀ (w : GgufWriter) (path : String) (fs fs' : FileSystem)
    (h : GgufHeader), w.version = 1 ∨ w.version = 2 ∨ w.version = 3 →
      w.write path fs = (.ok (), fs') → parseGguf fs' path = .ok h →
      h.dataSectionStart = w.dataStart := by
  intro hall
  have hw : WithinLimits GgufWriter.new := ⟨by decide, by decide, nofun, nofun, nofun⟩
  have hok := write_of_emit (w := GgufWriter.new) (by decide +kernel) "out.gguf" fun _ => none
  obtain ⟨file, hfs, hp⟩ := hw.parse (v := .v3) (by decide) rfl hok
  rw [← parseGguf_eq hfs] at hp
  exact absurd (hall _ _ _ _ _ (.inr (.inr rfl)) hok hp) (by decide +kernel)

end PestiGguf
