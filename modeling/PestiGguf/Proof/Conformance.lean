import PestiGguf.Proof.DataSection

/-!
# The conformance law

The suite accepts a file with tensors and data by an equation between its length
and the padded sizes of its tensors (`checkFile_ok`). A file that is a header, padding
and padded tensors meets it (`conformance_law`). What the writer writes meets
it exactly when the last tensor needs no padding, since the writer pads before
each tensor and not after the last one (`write_conforms_iff`).
-/

namespace PestiGguf

open Codec Codec.Reader Codec.Emit Spec
open CorpusConformance (paddedSum checkAlign checkFile)

/-! ## The sum of the suite -/

theorem toNat_alignUp_suite {v a : UInt64} (h : v.toNat + a.toNat < 2 ^ 64) :
    (CorpusConformance.alignUp v a).toNat = roundUp a.toNat v.toNat := by
  rw [CorpusConformance.alignUp]
  by_cases h0 : a = 0
  · rw [if_pos h0, h0]
    rfl
  · rw [if_neg h0]
    have hpos : a.toNat ≠ 0 := fun e => h0 (UInt64.toNat_inj.mp e)
    have hsub : (v + a - 1).toNat = v.toNat + (a.toNat - 1) := by
      have hadd : (v + a).toNat = v.toNat + a.toNat := by rw [UInt64.toNat_add, Nat.mod_eq_of_lt h]
      rw [UInt64.toNat_sub_of_le, hadd]
      · show v.toNat + a.toNat - 1 = _
        omega
      · rw [UInt64.le_iff_toNat_le, hadd]
        show 1 ≤ _
        omega
    have hle := Nat.div_mul_le_self (v.toNat + (a.toNat - 1)) a.toNat
    rw [UInt64.toNat_mul, UInt64.toNat_div, hsub, Nat.mod_eq_of_lt (by omega), roundUp, if_neg hpos]

theorem checkAlign_eq {h : GgufHeader} {a : UInt64} (ha : h.dataAlignment = some a) (hpos : 0 < a.toNat) :
    checkAlign h = a := by
  rw [checkAlign, ha, Option.getD_some]
  show (if a ≤ 1 then 1 else a) = a
  by_cases hle : a ≤ 1
  · rw [if_pos hle]
    rw [UInt64.le_iff_toNat_le] at hle
    exact UInt64.toNat_inj.mp (Nat.le_antisymm hpos hle)
  · rw [if_neg hle]

/-- The sum, where every tensor has a stored size and nothing overflows. -/
theorem paddedSum_eq {a : UInt64} (ts : List GgufTensorInfo) (sum : UInt64)
    (hok : ∀ t ∈ ts, ∃ size, t.storedSize = .ok size)
    (hbound : sum.toNat + paddedOffset a.toNat ts ts.length + a.toNat < 2 ^ 64) :
    ∃ total, paddedSum a ts sum = .ok total ∧
      total.toNat = sum.toNat + paddedOffset a.toNat ts ts.length := by
  induction ts generalizing sum with
  | nil => exact ⟨sum, rfl, rfl⟩
  | cons t ts ih =>
    obtain ⟨size, hs⟩ := hok t List.mem_cons_self
    have hsplit : paddedOffset a.toNat (t :: ts) (t :: ts).length =
        roundUp a.toNat size.toNat + paddedOffset a.toNat ts ts.length := by
      rw [paddedOffset, List.length_cons, List.take_succ_cons, List.map_cons, List.sum_cons,
        storedBytes_of_ok hs]
      rfl
    rw [hsplit] at hbound ⊢
    have hle := le_roundUp a.toNat size.toNat
    have halign := toNat_alignUp_suite (v := size) (a := a) (by omega)
    have hadd : (sum + CorpusConformance.alignUp size a).toNat = sum.toNat + roundUp a.toNat size.toNat := by
      rw [UInt64.toNat_add, halign, Nat.mod_eq_of_lt (by omega)]
    obtain ⟨total, htotal, heq⟩ := ih (sum + CorpusConformance.alignUp size a)
      (fun t ht => hok t (List.mem_cons_of_mem _ ht)) (by rw [hadd]; omega)
    refine ⟨total, ?_, by rw [heq, hadd]; omega⟩
    rw [paddedSum, hs]
    simp only [checkedAdd, halign]
    rw [if_pos (by omega)]
    exact htotal

/-- The suite's verdict on a file that is parsed. -/
theorem checkFile_ok {fs : FileSystem} {path : String} {file : List UInt8} {h : GgufHeader} (hfs : fs path = some file)
    (hp : parseGguf fs path = .ok h) : (∃ r, checkFile fs path = .ok r) ↔
      h.tensors ≠ [] ∧ h.dataSectionStart < UInt64.ofNat file.length ∧
        paddedSum (checkAlign h) h.tensors 0 = .ok (UInt64.ofNat file.length - h.dataSectionStart) := by
  simp only [checkFile, hp, hfs, List.isEmpty_iff]
  by_cases hnil : h.tensors = []
  · rw [if_pos hnil]
    exact iff_of_false nofun fun hr => hr.1 hnil
  rw [if_neg hnil, and_iff_right hnil]
  by_cases hshort : UInt64.ofNat file.length ≤ h.dataSectionStart
  · rw [if_pos hshort]
    exact iff_of_false nofun fun hr => absurd hr.1 (UInt64.not_lt.mpr hshort)
  rw [if_neg hshort, and_iff_right (UInt64.not_le.mp hshort)]
  cases hsum : paddedSum (checkAlign h) h.tensors 0 with
  | error e => exact iff_of_false nofun nofun
  | ok sum =>
    by_cases heq : sum = UInt64.ofNat file.length - h.dataSectionStart
    · simp [heq]
    · simp [heq]

/-! ## Files made of a header and padded tensors -/

theorem not_bfloat16Array_of_standardTags {v : GgufKvValue} (h : standardTags v = true) :
    bfloat16Array v = false := by
  cases v with
  | array arr =>
    rw [standardTags, Bool.and_eq_true, List.all_eq_true] at h
    apply List.any_eq_false.mpr
    intro u hu
    have hu := h.2 u hu
    rw [beq_iff_eq]
    intro e
    rw [e] at hu
    revert hu
    decide
  | _ => rfl

/-- A tensor of a file and the bytes for it: its data, then its padding. -/
def TensorBlock (a : Nat) (t : GgufTensorInfo) (b : List UInt8 × List UInt8) : Prop :=
  t.storedSize = .ok (UInt64.ofNat b.1.length) ∧ b.1.length < 2 ^ 64 ∧
    (b.1 ++ b.2).length = roundUp a b.1.length

theorem length_tensorBlocks {a : Nat} {ts : List GgufTensorInfo} {bs : List (List UInt8 × List UInt8)}
    (h : List.Forall₂ (TensorBlock a) ts bs) :
    bs.map (fun b => (b.1 ++ b.2).length) = ts.map fun t => roundUp a (storedBytes t) := by
  induction h with
  | nil => rfl
  | cons hR _ ih =>
    obtain ⟨hs, hl, hlen⟩ := hR
    rw [List.map_cons, List.map_cons, ih, hlen, storedBytes_of_ok hs, UInt64.toNat_ofNat_of_lt' hl]

/-- The law of the conformance suite. -/
theorem conformance_law (F H pad : List UInt8) (h : GgufHeader) (a : UInt64)
    (blocks : List (List UInt8 × List UInt8)) (hlen : F.length < 2 ^ 63)
    (hH : (parseGgufReader H).result = .ok h) (hall : parseGgufReader.consumed H = H.length)
    (hver : h.version = 2 ∨ h.version = 3) (hstd : ∀ kv ∈ h.kvPairs, standardTags kv.value = true)
    (ha : h.dataAlignment = some a) (hpad : (H ++ pad).length = roundUp a.toNat H.length)
    (hblocks : List.Forall₂ (TensorBlock a.toNat) h.tensors blocks)
    (hF : F = H ++ pad ++ blocks.flatMap fun b => b.1 ++ b.2) :
    (parseGgufReader F).result = .ok h ∧ h.dataSectionStart.toNat = roundUp a.toNat H.length ∧
      (∃ sum, paddedSum (checkAlign h) h.tensors 0 = .ok sum ∧
        F.length = h.dataSectionStart.toNat + sum.toNat) ∧
      ((∀ (i : Nat) (t : GgufTensorInfo), h.tensors[i]? = some t →
          t.offset.toNat = paddedOffset a.toNat h.tensors i) →
        ∀ (i : Nat) (t : GgufTensorInfo) (b : List UInt8 × List UInt8), h.tensors[i]? = some t →
          blocks[i]? = some b → (F.drop (h.dataSectionStart.toNat + t.offset.toNat)).take b.1.length = b.1) := by
  obtain ⟨hword, -⟩ := recognises_parseGgufReader.word hH
  rw [hall, List.take_length] at hword
  obtain ⟨v, k, t, hv, hh, hc, -, -, hal, hk, ht⟩ := headerWord_content hword hver
  have hparts : HeaderParts v h.kvPairs h.tensors H :=
    ⟨hv, fun kv hm => not_bfloat16Array_of_standardTags (hstd kv hm), hal, k, t, hc, hk, ht⟩
  have halign : alignmentOf h.kvPairs = a.toNat := by
    have e : h.dataAlignment = some (UInt64.ofNat (alignmentOf h.kvPairs)) := by rw [hh]; rfl
    rw [ha, Option.some.injEq] at e
    rw [e, UInt64.toNat_ofNat_of_lt' (Nat.lt_of_le_of_lt hal.bounds.2 (by decide))]
  have hFlen : F.length = roundUp a.toNat H.length + paddedOffset a.toNat h.tensors h.tensors.length := by
    rw [hF, List.length_append, hpad, List.length_flatMap, length_tensorBlocks hblocks, paddedOffset,
      List.take_length]
  have hHlen : H.length < 2 ^ 63 := by
    have := le_roundUp a.toNat H.length
    omega
  have hdss : h.dataSectionStart.toNat = roundUp a.toNat H.length := by
    rw [hh, hparts.toNat_dataSectionStart hHlen, halign]
  refine ⟨?_, hdss, ?_, fun hoff i t b ht hb => ?_⟩
  · rw [hF, List.append_assoc]
    exact (recognises_parseGgufReader.returns_append hword _).1
  · have hcheck := checkAlign_eq ha (halign ▸ hal.bounds.1)
    obtain ⟨sum, hsum, heq⟩ := paddedSum_eq (a := a) h.tensors 0
      (fun t ht => by
        obtain ⟨b, -, hs, -⟩ := exists_of_forall₂ hblocks ht
        exact ⟨_, hs⟩)
      (by
        have := hal.bounds.2
        rw [UInt64.toNat_zero]
        omega)
    rw [UInt64.toNat_zero, Nat.zero_add] at heq
    exact ⟨sum, by rw [hcheck]; exact hsum, by rw [hdss, heq, hFlen]⟩
  · obtain ⟨hi, rfl⟩ := List.getElem?_eq_some_iff.mp hb
    have hslice := slice_flatMap blocks (H ++ pad) hi
    rw [← hF, hpad, List.map_take, length_tensorBlocks hblocks, ← List.map_take] at hslice
    rw [hdss, hoff i t ht]
    exact hslice

theorem conformance_law_sample : ∃ F : List UInt8,
    (parseGgufReader F).result = .ok (pairHeader 32) ∧ (pairHeader 32).dataSectionStart.toNat = 96 ∧
      F.length = 96 + 64 ∧ (F.drop (96 + 32)).take 2 = [3, 4] := by
  have hword : (parseGgufReader (pairWord 32)).result = .ok (pairHeader 32) := by
    rw [← List.append_nil (pairWord 32)]
    exact pairWord_parse 32 []
  obtain ⟨hparse, hstart, ⟨sum, hsum, hlen⟩, hdata⟩ := conformance_law _ (pairWord 32) (List.replicate 6 0)
    (pairHeader 32) 32 [([1, 2], List.replicate 30 0), ([3, 4], List.replicate 30 0)] (by decide +kernel) hword
    (by decide +kernel) (.inr rfl) (by decide) rfl (by decide +kernel)
    (.cons ⟨rfl, by decide, rfl⟩ (.cons ⟨rfl, by decide, rfl⟩ .nil)) rfl
  have hstart' : (pairHeader 32).dataSectionStart.toNat = 96 := hstart.trans (by decide +kernel)
  obtain rfl : (64 : UInt64) = sum := Except.ok.inj (Eq.trans (by decide +kernel) hsum)
  have hb := hdata (fun i t ht => by
    obtain ⟨rfl, rfl⟩ | ⟨rfl, rfl⟩ := pairHeader_tensors ht <;> rfl) 1 ⟨"b", [2], 32, 24⟩ ([3, 4], List.replicate 30 0) rfl rfl
  rw [hstart'] at hlen hb
  exact ⟨_, hparse, hstart', hlen, hb⟩

/-! ## Files the writer writes -/

/-- The equation `check_file` checks of the file a writer writes. -/
def WritesConforming (w : GgufWriter) (path : String) (fs : FileSystem) : Prop :=
  ∃ fs' file h sum, w.write path fs = (.ok (), fs') ∧ fs' path = some file ∧ parseGguf fs' path = .ok h ∧
    paddedSum (checkAlign h) h.tensors 0 = .ok sum ∧ file.length = h.dataSectionStart.toNat + sum.toNat

/-- The equation for a file, its header and its sum. -/
theorem writesConforming_iff {w : GgufWriter} {file : List UInt8} {h : GgufHeader} {sum : UInt64} {path : String}
    {fs : FileSystem} (hfile : w.emit.Emits 0 () file) (hp : (parseGgufReader file).result = .ok h)
    (hsum : paddedSum (checkAlign h) h.tensors 0 = .ok sum) :
    WritesConforming w path fs ↔ file.length = h.dataSectionStart.toNat + sum.toNat := by
  constructor
  · rintro ⟨fs', file', h', sum', hwrite, hfs, hp', hsum', hlaw⟩
    obtain ⟨file'', hfile', rfl⟩ := write_eq_ok.mp hwrite
    obtain ⟨-, rfl⟩ := hfile'.unique hfile
    obtain rfl := Option.some.inj ((if_pos rfl).symm.trans hfs)
    rw [parseGguf_eq (if_pos rfl)] at hp'
    obtain rfl := Except.ok.inj (hp.symm.trans hp')
    obtain rfl := Except.ok.inj (hsum.symm.trans hsum')
    exact hlaw
  · intro hlaw
    exact ⟨_, file, h, sum, write_eq_ok.mpr ⟨file, hfile, rfl⟩, if_pos rfl,
      (parseGguf_eq (if_pos rfl)).trans hp, hsum, hlaw⟩

theorem paddedOffset_last {a : Nat} {ts : List GgufTensorInfo} {i : Nat} {t : GgufTensorInfo}
    (ht : ts[i]? = some t) (hi : i + 1 = ts.length) :
    paddedOffset a ts ts.length = paddedOffset a ts i + roundUp a (storedBytes t) := by
  obtain ⟨hlt, rfl⟩ := List.getElem?_eq_some_iff.mp ht
  rw [paddedOffset, ← hi, List.take_add_one, List.getElem?_eq_getElem hlt, List.map_append, List.sum_append]
  simp [paddedOffset]

/-- The writer meets the law exactly when the last tensor is already a
multiple of the alignment (and tensors of one name have one size, without
which it writes nothing). -/
theorem write_conforms_iff (w : GgufWriter) (hver : w.version = 2 ∨ w.version = 3) (hne : w.tensors ≠ [])
    (hw : WithinLimits w) (hdecl : declaredAlignment w.kvPairs = some (w.alignment.toNat : Int))
    (hdata : DataInOrder w) (path : String) (fs : FileSystem) (hlen : (w.emit 0).2.length < 2 ^ 63) :
    WritesConforming w path fs ↔
      storedBytes (w.tensors.getLast hne) % w.alignment.toNat = 0 ∧
        ∀ t ∈ w.tensors, ∀ t' ∈ w.tensors, t.name = t'.name → storedBytes t = storedBytes t' := by
  obtain ⟨v, hv, hver⟩ := version_cases hver
  obtain ⟨c, hc, hwrites⟩ := hw.writes hv hver
  have hparts := HeaderWord.parts hv hc fun kv hm => (hw.kv kv hm).value.not_bfloat16Array
  have hal : alignmentOf w.kvPairs = w.alignment.toNat := by
    rw [alignmentOf, hdecl]
    rfl
  have hpos : 0 < w.alignment.toNat := hal ▸ hw.alignment.bounds.1
  have hle : w.alignment.toNat ≤ 65536 := hal ▸ hw.alignment.bounds.2
  rw [← hdata.entryOk_iff]
  by_cases hok : ∀ e ∈ w.tensorData, EntryOk w e
  · obtain ⟨file, hfile⟩ : ∃ file, w.emit.Emits 0 () file :=
      ⟨_, emits_emit_iff.mpr ⟨c, hwrites 0, hok, rfl⟩⟩
    rw [show (w.emit 0).2 = file from congrArg Prod.snd hfile] at hlen
    have hlast : w.tensors[w.tensors.length - 1]? = some (w.tensors.getLast hne) := by
      rw [← List.getLast?_eq_getElem?, List.getLast?_eq_some_getLast hne]
    have hn : w.tensors.length - 1 + 1 = w.tensors.length :=
      Nat.sub_add_cancel (List.length_pos_iff.mpr hne)
    have hfl := length_file_eq hparts hver hwrites hdata hfile hlen hlast hn
    have hoff := paddedOffset_last (a := w.alignment.toNat) hlast hn
    have hlt := roundUp_lt hpos (storedBytes (w.tensors.getLast hne))
    have hdss := hparts.toNat_dataSectionStart (header_length_lt hwrites hfile hlen)
    rw [hal] at hdss
    have halign : (headerOf v w.kvPairs w.tensors).dataAlignment = some w.alignment := by
      show some (UInt64.ofNat (alignmentOf w.kvPairs)) = _
      rw [hal, UInt64.ofNat_toNat]
    obtain ⟨total, htotal, heq⟩ := paddedSum_eq (a := w.alignment) w.tensors 0
      (fun t ht => by
        obtain ⟨e, -, -, hs, -⟩ := hdata.entry ht
        exact ⟨_, hs⟩)
      (by
        rw [UInt64.toNat_zero]
        omega)
    rw [UInt64.toNat_zero, Nat.zero_add] at heq
    rw [← checkAlign_eq halign hpos] at htotal
    rw [← roundUp_eq_self_iff hpos, writesConforming_iff hfile (parse_written hc hwrites hfile) htotal, hdss,
      heq]
    constructor
    · intro hlaw
      exact ⟨by omega, hok⟩
    · intro hround
      have := hround.1
      omega
  · refine iff_of_false ?_ (fun h => hok h.2)
    rintro ⟨fs', file, h, sum, hwrite, -⟩
    obtain ⟨file', hfile', -⟩ := write_eq_ok.mp hwrite
    obtain ⟨-, -, hok', -⟩ := emits_emit_iff.mp hfile'
    exact hok hok'

/-- The last of two tensors fills its block. -/
theorem write_conforms_iff_sample : WritesConforming layoutWriter "out.gguf" fun _ => none :=
  (write_conforms_iff layoutWriter (.inr rfl) (by decide) layoutWriter_withinLimits rfl layoutWriter_dataInOrder
    "out.gguf" (fun _ => none) (by decide +kernel)).mpr ⟨by decide, by decide⟩

/-- Two bytes of data and an alignment of 8: the file is 6 bytes too short. -/
theorem write_not_conforming : ¬ ∀ w : GgufWriter, (w.version = 2 ∨ w.version = 3) → w.tensors ≠ [] →
    WithinLimits w → declaredAlignment w.kvPairs = some (w.alignment.toNat : Int) → DataInOrder w →
    (w.emit 0).2.length < 2 ^ 63 → ∀ path fs, WritesConforming w path fs := by
  intro h
  obtain ⟨c, hc, hwrites⟩ := sampleWriter_withinLimits.writes (v := .v3) (by decide) rfl
  obtain ⟨file, hfile, -⟩ := write_eq_ok.mp (write_of_emit sampleWriter_emits "out.gguf" fun _ => none)
  have hlen : file.length = 130 := by
    rw [← show (sampleWriter.emit 0).2 = file from congrArg Prod.snd hfile]
    decide +kernel
  have hlaw := h sampleWriter (.inr rfl) (by decide) sampleWriter_withinLimits rfl sampleWriter_dataInOrder
    (by decide +kernel) "out.gguf" fun _ => none
  have hsum : paddedSum (checkAlign (headerOf .v3 sampleWriter.kvPairs sampleWriter.tensors))
      sampleWriter.tensors 0 = .ok 8 := by
    decide +kernel
  rw [writesConforming_iff hfile (parse_written hc hwrites hfile) hsum, hlen] at hlaw
  exact absurd hlaw (by decide +kernel)

end PestiGguf
