import PestiGguf.Impl.CorpusConformance
import PestiGguf.Proof.Emission
import PestiGguf.Proof.RoundTrip
import Mathlib.Data.List.Nodup

/-!
# The data section

For a header of version 2 or 3 (`HeaderParts`), the parser and the writer
take the data section to start at the header's length, rounded up. Where the
data of every tensor are added in table order (`DataInOrder`), a tensor's
data are at the sum of the padded sizes before it (`tensor_in_file`), so the
parsed header and the sizes are enough to extract them
(`write_parse_extract`).
-/

namespace PestiGguf

open Codec Codec.Reader Codec.Emit Spec

/-! ## Where it starts -/

theorem sum_arraySlack {f : GgufWireFormat} (hf : f.arrayCountWidth = .u64) (kvs : List GgufKvPair) :
    (kvs.map fun kv => arraySlack f kv.value).sum = 0 := by
  have h0 (v : GgufKvValue) : arraySlack f v = 0 := by
    cases v <;> simp [arraySlack, hf, IntWidth.bytes]
  simp [h0]

/-- A header of version 2 or 3 and its records. -/
structure HeaderParts (v : GgufVersion) (kvs : List GgufKvPair) (ts : List GgufTensorInfo) (c : List UInt8) :
    Prop where
  version : v ≠ .v1
  sized : ∀ kv ∈ kvs, bfloat16Array kv.value = false
  alignment : AlignmentOk kvs
  records : ∃ k t, c = preamble v ts.length kvs.length ++ (k ++ t) ∧ Many (KvRecord v.wireFormat) kvs k ∧
    Many (TensorRecord v.wireFormat) ts t

/-- The parser takes the data section to start at the length of the header,
rounded up. -/
theorem HeaderParts.toNat_dataSectionStart {v : GgufVersion} {kvs : List GgufKvPair}
    {ts : List GgufTensorInfo} {c : List UInt8} (h : HeaderParts v kvs ts c) (hlen : c.length < 2 ^ 63) :
    (headerOf v kvs ts).dataSectionStart.toNat = roundUp (alignmentOf kvs) c.length := by
  obtain ⟨k, t, rfl, hk, ht⟩ := h.records
  have hsum := sum_rawByteSize_kvRecords hk h.sized
  rw [sum_arraySlack (arrayCountWidth_of_ne_v1 h.version), Nat.add_zero] at hsum
  obtain ⟨hpos, hle⟩ := h.alignment.bounds
  simp only [List.length_append, ← Nat.add_assoc] at hlen ⊢
  exact toNat_computeDataSectionStart hsum (sum_rawByteSize_tensorRecords ht) hpos (by omega)

/-- So does the writer. -/
theorem HeaderParts.toNat_dataStart {w : GgufWriter} {v : GgufVersion} {c : List UInt8}
    (h : HeaderParts v w.kvPairs w.tensors c) (hver : w.version = versionNumber v)
    (hlen : c.length < 2 ^ 63) : w.dataStart.toNat = roundUp w.alignment.toNat c.length := by
  obtain ⟨k, t, rfl, hk, ht⟩ := h.records
  have hwire := wireFormat_of_version hver
  have hkvs : w.calculateKvSectionSize = UInt64.ofNat k.length := by
    rw [GgufWriter.calculateKvSectionSize, hwire, sum_rawByteSize_kvRecords hk h.sized,
      sum_arraySlack (arrayCountWidth_of_ne_v1 h.version), Nat.add_zero]
  have hts : w.calculateTensorSectionSize = UInt64.ofNat t.length := by
    rw [GgufWriter.calculateTensorSectionSize, hwire, sum_rawByteSize_tensorRecords ht]
  simp only [List.length_append, ← Nat.add_assoc, length_preamble] at hlen ⊢
  rw [← hwire] at hlen ⊢
  exact toNat_dataStart_of_sum hkvs hts hlen

theorem dataOrigin_eq {w : GgufWriter} {v : GgufVersion} {c : List UInt8}
    (h : HeaderParts v w.kvPairs w.tensors c) (hver : w.version = versionNumber v)
    (hlen : c.length < 2 ^ 63) : dataOrigin w c = roundUp w.alignment.toNat c.length := by
  rw [dataOrigin, paddingLength_eq (Nat.lt_trans hlen (by decide)), h.toNat_dataStart hver hlen]
  exact Nat.add_sub_cancel' (le_roundUp _ _)

theorem padBefore_eq {w : GgufWriter} {p : Nat} (hp : p < 2 ^ 63) :
    padBefore w p = padding w.alignment.toNat p := by
  have hN : (UInt64.ofNat p).toNat = p := UInt64.toNat_ofNat_of_lt' (Nat.lt_trans hp (by decide))
  rw [padBefore, paddingLength_eq (Nat.lt_trans hp (by decide)), toNat_alignUp (by rw [hN]; exact hp), hN,
    padding]

/-! ## The data of every tensor -/

theorem storedBytes_of_ok {t : GgufTensorInfo} {s : UInt64} (h : t.storedSize = .ok s) :
    storedBytes t = s.toNat := by
  rw [storedBytes, h]

theorem find?_name {ts : List GgufTensorInfo} {t : GgufTensorInfo} (ht : t ∈ ts) :
    ∃ t', ts.find? (·.name == t.name) = some t' ∧ t' ∈ ts ∧ t'.name = t.name := by
  obtain ⟨t', h⟩ : ∃ t', ts.find? (·.name == t.name) = some t' := by
    rw [← Option.isSome_iff_exists, List.find?_isSome]
    exact ⟨t, ht, beq_self_eq_true _⟩
  have hname := List.find?_some h
  exact ⟨t', h, List.mem_of_find?_eq_some h, eq_of_beq hname⟩

theorem exists_of_forall₂ {α β : Type} {R : α → β → Prop} {as : List α} {bs : List β}
    (h : List.Forall₂ R as bs) {a : α} (ha : a ∈ as) : ∃ b ∈ bs, R a b := by
  induction h with
  | nil => cases ha
  | cons hR _ ih =>
    rcases List.mem_cons.mp ha with rfl | ha
    · exact ⟨_, List.mem_cons_self, hR⟩
    · obtain ⟨b, hb, hR⟩ := ih ha
      exact ⟨b, List.mem_cons_of_mem _ hb, hR⟩

section
variable {w : GgufWriter} (hd : DataInOrder w)
include hd

theorem Spec.DataInOrder.entry {t : GgufTensorInfo} (ht : t ∈ w.tensors) :
    ∃ e ∈ w.tensorData, e.1 = t.name ∧ t.storedSize = .ok (UInt64.ofNat e.2.length) ∧
      storedBytes t = e.2.length := by
  obtain ⟨e, he, hname, hs, hl⟩ := exists_of_forall₂ hd ht
  exact ⟨e, he, hname, hs, (storedBytes_of_ok hs).trans (UInt64.toNat_ofNat_of_lt' hl)⟩

theorem Spec.DataInOrder.tensor {e : String × List UInt8} (he : e ∈ w.tensorData) :
    ∃ t ∈ w.tensors, e.1 = t.name ∧ storedBytes t = e.2.length := by
  obtain ⟨t, ht, hname, hs, hl⟩ := exists_of_forall₂ (List.Forall₂.flip hd) he
  exact ⟨t, ht, hname, (storedBytes_of_ok hs).trans (UInt64.toNat_ofNat_of_lt' hl)⟩

theorem Spec.DataInOrder.lengths : (w.tensorData.map (·.2)).map List.length = w.tensors.map storedBytes := by
  unfold DataInOrder at hd
  generalize w.tensors = ts, w.tensorData = entries at hd
  induction hd with
  | nil => rfl
  | cons hR _ ih =>
    obtain ⟨-, hs, hl⟩ := hR
    rw [List.map_cons, List.map_cons, List.map_cons, ih, storedBytes_of_ok hs,
      UInt64.toNat_ofNat_of_lt' hl]

theorem Spec.DataInOrder.stored {i : Nat} {t : GgufTensorInfo} {e : String × List UInt8}
    (ht : w.tensors[i]? = some t) (he : w.tensorData[i]? = some e) : e.2.length = storedBytes t := by
  have := congrArg (·[i]?) hd.lengths
  simpa [ht, he] using this

/-- The writer accepts the data of every tensor exactly when tensors of one
name have one stored size. -/
theorem Spec.DataInOrder.entryOk_iff : (∀ e ∈ w.tensorData, EntryOk w e) ↔
    ∀ t ∈ w.tensors, ∀ t' ∈ w.tensors, t.name = t'.name → storedBytes t = storedBytes t' := by
  constructor
  · intro h t ht t' ht' hname
    obtain ⟨e, he, hn, -, hl⟩ := hd.entry ht
    obtain ⟨e', he', hn', -, hl'⟩ := hd.entry ht'
    obtain ⟨u, s, hu, hs, hsl⟩ := h e he
    obtain ⟨u', s', hu', hs', hsl'⟩ := h e' he'
    rw [hn, hname, ← hn'] at hu
    obtain rfl := Option.some.inj (hu.symm.trans hu')
    obtain rfl := Except.ok.inj (hs.symm.trans hs')
    rw [hl, hl', hsl, hsl']
  · intro h e he
    obtain ⟨t, ht, hn, hl⟩ := hd.tensor he
    obtain ⟨t', hfind, ht', hname⟩ := find?_name ht
    obtain ⟨e', -, -, hs, hl'⟩ := hd.entry ht'
    refine ⟨t', _, hn ▸ hfind, hs, ?_⟩
    rw [← storedBytes_of_ok hs, h t' ht' t ht hname, hl]

end

/-! ## The file -/

/-- The paddings of a file that is not too long are to the alignment. -/
theorem place_padBefore {w : GgufWriter} {ls : List Nat} {p i : Nat}
    (hlen : place (padBefore w) p ls ls.length < 2 ^ 63) (hi : i < ls.length) :
    place (padBefore w) p ls i =
      roundUp w.alignment.toNat p + ((ls.take i).map (roundUp w.alignment.toNat)).sum := by
  rw [place_congr ls p fun q hq => padBefore_eq (Nat.lt_of_le_of_lt hq hlen)]
  exact place_padding ls p hi

theorem header_length_lt {w : GgufWriter} {c file : List UInt8} (hc : w.emitHeader.Writes c)
    (hfile : w.emit.Emits 0 () file) (hlen : file.length < 2 ^ 63) : c.length < 2 ^ 63 := by
  obtain ⟨r, rfl⟩ := emit_header hc hfile
  rw [List.length_append] at hlen
  omega

section
variable {w : GgufWriter} {v : GgufVersion} {c file : List UInt8} (h : HeaderParts v w.kvPairs w.tensors c)
  (hver : w.version = versionNumber v) (hc : w.emitHeader.Writes c) (hd : DataInOrder w)
  (hfile : w.emit.Emits 0 () file) (hlen : file.length < 2 ^ 63)
include h hver hc hd hfile hlen

/-- The place of a tensor's data. -/
theorem entryPlace_eq {i : Nat} (hi : i < w.tensors.length) : entryPlace w i =
    roundUp w.alignment.toNat c.length + paddedOffset w.alignment.toNat w.tensors i := by
  have hn : ((w.tensorData.map (·.2)).map List.length).length = w.tensors.length := by
    rw [hd.lengths, List.length_map]
  have hend : place (padBefore w) (dataOrigin w (w.emitHeader 0).2) ((w.tensorData.map (·.2)).map List.length)
      ((w.tensorData.map (·.2)).map List.length).length < 2 ^ 63 := by
    rw [length_file hfile, entryPlace] at hlen
    simpa using hlen
  rw [entryPlace, place_padBefore hend (hn ▸ hi), show (w.emitHeader 0).2 = c from congrArg Prod.snd (hc 0),
    dataOrigin_eq h hver (header_length_lt hc hfile hlen), roundUp_roundUp, hd.lengths,
    ← List.map_take, List.map_map]
  rfl

/-- A tensor's data are in the file. -/
theorem tensor_in_file {i : Nat} {t : GgufTensorInfo} {e : String × List UInt8} (ht : w.tensors[i]? = some t)
    (he : w.tensorData[i]? = some e) :
    roundUp w.alignment.toNat c.length + paddedOffset w.alignment.toNat w.tensors i + e.2.length ≤
        file.length ∧
      (file.drop (roundUp w.alignment.toNat c.length + paddedOffset w.alignment.toNat w.tensors i)).take
        e.2.length = e.2 := by
  obtain ⟨hi, -⟩ := List.getElem?_eq_some_iff.mp ht
  rw [← entryPlace_eq h hver hc hd hfile hlen hi]
  exact entry_in_file hfile he

/-- What follows the header and is in no tensor is zero. -/
theorem gap_in_file_eq {q : Nat} (hq : c.length ≤ q) (hq' : q < file.length) :
    (∃ i t, w.tensors[i]? = some t ∧
      roundUp w.alignment.toNat c.length + paddedOffset w.alignment.toNat w.tensors i ≤ q ∧
      q < roundUp w.alignment.toNat c.length + paddedOffset w.alignment.toNat w.tensors i +
        storedBytes t) ∨ file[q]? = some 0 := by
  rw [← show (w.emitHeader 0).2 = c from congrArg Prod.snd (hc 0)] at hq
  rcases gap_in_file hfile hq hq' with ⟨i, e, he, h₁, h₂⟩ | h₀
  · have hi : i < w.tensors.length := by
      rw [List.Forall₂.length_eq hd]
      exact (List.getElem?_eq_some_iff.mp he).1
    have ht := List.getElem?_eq_getElem hi
    rw [entryPlace_eq h hver hc hd hfile hlen hi] at h₁ h₂
    exact .inl ⟨i, _, ht, h₁, hd.stored ht he ▸ h₂⟩
  · exact .inr h₀

/-- The file ends with the last tensor. -/
theorem length_file_eq {i : Nat} {t : GgufTensorInfo} (ht : w.tensors[i]? = some t)
    (hi : i + 1 = w.tensors.length) : file.length = roundUp w.alignment.toNat c.length +
      paddedOffset w.alignment.toNat w.tensors i + storedBytes t := by
  obtain ⟨hlt, -⟩ := List.getElem?_eq_some_iff.mp ht
  have hn : w.tensorData.length = w.tensors.length := (List.Forall₂.length_eq hd).symm
  have he := List.getElem?_eq_getElem (hn ▸ hlt)
  rw [length_file_last hfile he (hi.trans hn.symm), entryPlace_eq h hver hc hd hfile hlen hlt,
    hd.stored ht he]

end

/-! ## Write, parse and extract -/

theorem Spec.ValueOk.not_bfloat16Array {v : GgufKvValue} (hv : ValueOk v) : bfloat16Array v = false := by
  cases v with
  | array arr =>
    obtain ⟨-, t, ht, h⟩ := hv
    apply List.any_eq_false.mpr
    intro u hu
    rw [(h u hu).1, beq_iff_eq]
    rintro rfl
    revert ht
    decide
  | _ => rfl

theorem HeaderWord.parts {v : GgufVersion} (hv : v ≠ .v1) {kvs : List GgufKvPair} {ts : List GgufTensorInfo}
    {c : List UInt8} (hc : HeaderWord (headerOf v kvs ts) c)
    (hb : ∀ kv ∈ kvs, bfloat16Array kv.value = false) : HeaderParts v kvs ts c := by
  have hver : versionNumber v = 2 ∨ versionNumber v = 3 := by
    cases v with
    | v1 => exact absurd rfl hv
    | v2 => exact .inl rfl
    | v3 => exact .inr rfl
  obtain ⟨v', k, t, -, hh, rfl, -, -, ha, hk, ht⟩ := headerWord_content hc hver
  obtain rfl : v = v' := versionNumber_inj (congrArg GgufHeader.version hh)
  exact ⟨hv, hb, ha, k, t, rfl, hk, ht⟩

theorem consumed_append {h : GgufHeader} {c : List UInt8} (hc : HeaderWord h c) (r : List UInt8) :
    parseGgufReader.consumed (c ++ r) = c.length := by
  have hr := (recognises_parseGgufReader.returns_append hc r).2
  rw [consumed, hr, List.length_append, Nat.add_sub_cancel]

/-- The bytes of a file at an offset, where it has them. -/
theorem extract_eq {fs : FileSystem} {path : String} {file : List UInt8} (hfs : fs path = some file)
    {offset size : UInt64} (h : offset.toNat + size.toNat ≤ file.length) (hlen : file.length < 2 ^ 63) :
    extractTensorBytesFromPath fs path offset size =
      .ok ((file.drop offset.toNat).take size.toNat) := by
  simp only [extractTensorBytesFromPath, hfs]
  rw [seek, if_pos (by omega)]
  simp only [List.length_drop]
  rw [if_pos (by omega)]

/-- Every tensor's data is extracted from where the parsed header says that
the data section starts, and what is not data is zero. -/
theorem write_parse_extract (w : GgufWriter) (hver : w.version = 2 ∨ w.version = 3) (hw : WithinLimits w)
    (halign : readAlignmentFromKv w.kvPairs = .ok w.alignment) (hnames : (w.tensors.map (·.name)).Nodup)
    (hdata : DataInOrder w) (path : String) (fs : FileSystem) (hlen : (w.emit 0).2.length < 2 ^ 63) :
    ∃ fs' file h, w.write path fs = (.ok (), fs') ∧ fs' path = some file ∧ parseGguf fs' path = .ok h ∧
      (∀ i t e size, w.tensors[i]? = some t → w.tensorData[i]? = some e → t.storedSize = .ok size →
        extractTensorBytesFromPath fs' path (h.dataSectionStart +
          UInt64.ofNat (paddedOffset w.alignment.toNat w.tensors i)) size = .ok e.2) ∧
      ∀ q, parseGgufReader.consumed file ≤ q → q < file.length →
        (∃ i t, w.tensors[i]? = some t ∧
          h.dataSectionStart.toNat + paddedOffset w.alignment.toNat w.tensors i ≤ q ∧
          q < h.dataSectionStart.toNat + paddedOffset w.alignment.toNat w.tensors i + storedBytes t) ∨
          file[q]? = some 0 := by
  obtain ⟨v, hv, hver⟩ := version_cases hver
  obtain ⟨c, hc, hwrites⟩ := hw.writes hv hver
  have hparts := HeaderWord.parts hv hc fun kv hm => (hw.kv kv hm).value.not_bfloat16Array
  have hok : ∀ e ∈ w.tensorData, EntryOk w e := hdata.entryOk_iff.mpr fun t ht t' ht' hname => by
    rw [List.inj_on_of_nodup_map hnames ht ht' hname]
  obtain ⟨file, hfile⟩ : ∃ file, w.emit.Emits 0 () file :=
    ⟨_, emits_emit_iff.mpr ⟨c, hwrites 0, hok, rfl⟩⟩
  rw [show (w.emit 0).2 = file from congrArg Prod.snd hfile] at hlen
  obtain ⟨r, hr⟩ := emit_header hwrites hfile
  have hal : alignmentOf w.kvPairs = w.alignment.toNat := by
    obtain ⟨ha, heq⟩ := readAlignmentFromKv_eq_ok.mp halign
    rw [heq, UInt64.toNat_ofNat_of_lt' (Nat.lt_of_le_of_lt ha.bounds.2 (by decide))]
  have hdss := hparts.toNat_dataSectionStart (header_length_lt hwrites hfile hlen)
  rw [hal] at hdss
  have hparse := parse_written hc hwrites hfile
  refine ⟨_, file, headerOf v w.kvPairs w.tensors, write_eq_ok.mpr ⟨file, hfile, rfl⟩, if_pos rfl,
    (parseGguf_eq (if_pos rfl)).trans hparse, fun i t e size ht he hs => ?_, ?_⟩
  · obtain ⟨hle, hbytes⟩ := tensor_in_file hparts hver hwrites hdata hfile hlen ht he
    rw [hdata.stored ht he, storedBytes_of_ok hs] at hle hbytes
    have hoff : ((headerOf v w.kvPairs w.tensors).dataSectionStart +
        UInt64.ofNat (paddedOffset w.alignment.toNat w.tensors i)).toNat =
          roundUp w.alignment.toNat c.length + paddedOffset w.alignment.toNat w.tensors i := by
      rw [UInt64.toNat_add, hdss, UInt64.toNat_ofNat', Nat.add_mod_mod, Nat.mod_eq_of_lt]
      omega
    rw [extract_eq (if_pos rfl) (by rw [hoff]; exact hle) hlen, hoff, hbytes]
  · rw [hdss, hr, consumed_append hc, ← hr]
    exact fun q => gap_in_file_eq hparts hver hwrites hdata hfile hlen

theorem sampleWriter_dataInOrder : DataInOrder sampleWriter :=
  .cons ⟨rfl, rfl, by decide⟩ .nil

/-- Two tensors, the first of which is padded. -/
def layoutWriter : GgufWriter :=
  { sampleWriter with
    tensors := [⟨"a", [2], 0, 24⟩, ⟨"b", [8], 8, 24⟩]
    tensorData := [("a", [1, 2]), ("b", [3, 4, 5, 6, 7, 8, 9, 10])] }

theorem layoutWriter_withinLimits : WithinLimits layoutWriter where
  kvCount := sampleWriter_withinLimits.kvCount
  tensorCount := by decide
  kv := sampleWriter_withinLimits.kv
  tensor t hm := by
    rcases List.mem_pair.mp hm with rfl | rfl <;> exact ⟨by decide, by decide⟩
  alignment := sampleWriter_withinLimits.alignment

theorem layoutWriter_dataInOrder : DataInOrder layoutWriter :=
  .cons ⟨rfl, rfl, by decide⟩ (.cons ⟨rfl, rfl, by decide⟩ .nil)

theorem layoutWriter_emits : (layoutWriter.emit 0).1 = .ok () := by
  decide +kernel

theorem write_parse_extract_sample : ∃ fs' file h,
    layoutWriter.write "out.gguf" (fun _ => none) = (.ok (), fs') ∧ fs' "out.gguf" = some file ∧
      parseGguf fs' "out.gguf" = .ok h ∧
      extractTensorBytesFromPath fs' "out.gguf" (h.dataSectionStart + UInt64.ofNat 0) 2 = .ok [1, 2] ∧
      extractTensorBytesFromPath fs' "out.gguf" (h.dataSectionStart + UInt64.ofNat 8) 8 =
        .ok [3, 4, 5, 6, 7, 8, 9, 10] := by
  obtain ⟨fs', file, h, hwrite, hfile, hparse, hextract, -⟩ :=
    write_parse_extract layoutWriter (.inr rfl) layoutWriter_withinLimits rfl (by decide)
      layoutWriter_dataInOrder "out.gguf" (fun _ => none) (by decide +kernel)
  exact ⟨fs', file, h, hwrite, hfile, hparse, hextract 0 _ _ 2 rfl rfl rfl, hextract 1 _ _ 8 rfl rfl rfl⟩

end PestiGguf
