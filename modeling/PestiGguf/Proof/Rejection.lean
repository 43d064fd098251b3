import PestiGguf.Proof.Conversion

/-!
# Files the parser rejects

The writer checks the types it has an encoding for, and the sizes of the
tensors' data. It checks none of what the parser does: the version, the
counts, the alignment, the types and the depth of arrays, the number of
dimensions. Where it reports success, the parser accepts the file exactly
where the content passes those checks (`write_accepted_iff`).
-/

namespace PestiGguf

open Codec Codec.Reader Codec.Emit Spec

namespace Spec

/-- Pairs of the declared types at every depth, and strings, keys and names of
1 byte to 1 MiB. -/
structure Consistent (w : GgufWriter) : Prop where
  key : ∀ kv ∈ w.kvPairs, TextOk kv.key
  pair : ∀ kv ∈ w.kvPairs, TypeConsistent kv
  strings : ∀ kv ∈ w.kvPairs, Everywhere StringOk kv.value
  name : ∀ t ∈ w.tensors, TextOk t.name

/-- A file that was written is parsed. -/
def Accepted (w : GgufWriter) : Prop :=
  ∀ path fs fs', w.write path fs = (.ok (), fs') → ∃ h, parseGguf fs' path = .ok h

/-- The writer reports no error. -/
def Writable (w : GgufWriter) : Prop :=
  (∀ kv ∈ w.kvPairs, writable kv.valueType kv.value = true) ∧ ∀ e ∈ w.tensorData, EntryOk w e

/-- What the parser checks of a file of version `v`: the counts, the alignment
and the arrays, and in version 2 and 3 the tensors. -/
structure Readable (v : GgufVersion) (w : GgufWriter) : Prop where
  version : w.version = versionNumber v
  kvCount : w.kvPairs.length ≤ 10000000
  alignment : AlignmentOk w.kvPairs
  counts : ∀ kv ∈ w.kvPairs, CountFits v.wireFormat kv.value
  arrays : ∀ kv ∈ w.kvPairs, ∀ arr, kv.value = .array arr → arr ≠ [] →
    elementTag arr ≠ .float64 ∧ elementTag arr ≠ .array
  tensors : v ≠ .v1 → w.tensors.length ≤ 10000000 ∧ ∀ t ∈ w.tensors, t.shape.length ≤ 8

/-- Every count fits its field. Those of the tensors do not matter in version 1,
which does not read them. -/
structure CountsFit (w : GgufWriter) : Prop where
  kvCount : w.kvPairs.length < limit w.wireFormat.headerCountWidth
  arrays : ∀ kv ∈ w.kvPairs, CountFits w.wireFormat kv.value
  tensors : w.version ≠ 1 → w.tensors.length < limit w.wireFormat.headerCountWidth ∧
    ∀ t ∈ w.tensors, t.shape.length < 2 ^ 32

end Spec

/-! ## What is accepted -/

/-- The types of elements that the writer has an encoding for and the parser
reads. -/
theorem mem_elementTypes {v : GgufKvValue} (hw : writable v.valueType v = true) (hf : v.valueType ≠ .float64)
    (ha : v.valueType ≠ .array) : v.valueType ∈ elementTypes := by
  rw [writable_of_ne_array ha] at hw
  generalize v.valueType = t at hw hf ha
  cases t with
  | float64 => exact absurd rfl hf
  | array => exact absurd rfl ha
  | bfloat16 | float16 | int8Array | uint8Array => cases hw
  | _ => decide

/-- A value the writer has an encoding for, with an array the parser reads. -/
theorem valueOk_of_writable {kv : GgufKvPair} (hc : TypeConsistent kv) (hs : Everywhere StringOk kv.value)
    (hw : writable kv.valueType kv.value = true) (hn : ∀ arr, kv.value = .array arr → arr.length < 2 ^ 64)
    (ha : ∀ arr, kv.value = .array arr → arr ≠ [] → elementTag arr ≠ .float64 ∧ elementTag arr ≠ .array) :
    ValueOk kv.value := by
  obtain ⟨htype, hone⟩ := hc
  rw [htype] at hw
  generalize kv.value = v at *
  cases v with
  | array arr =>
    refine ⟨hn arr rfl, ?_⟩
    cases arr with
    | nil => exact ⟨.uint8, by decide, nofun⟩
    | cons u us =>
      obtain ⟨hf, harr⟩ := ha _ rfl (by simp)
      have hu : writable u.valueType u = true := (Bool.and_eq_true_iff.mp hw).1
      refine ⟨u.valueType, mem_elementTypes hu hf harr, fun u' hu' => ⟨hone.here u' hu', ?_⟩⟩
      rintro s rfl
      exact (hs.elements _ hu').here
  | string s => exact hs.here
  | int8Array | uint8Array | bfloat16 | float16 => cases hw
  | _ => trivial

/-- What passes the parser's checks is accepted, if it is written. -/
theorem Spec.Readable.accepted {w : GgufWriter} {v : GgufVersion} (h : Readable v w) (hc : Consistent w) :
    Accepted w := by
  intro path fs fs' hok
  have htypes := fun kv hm => (hc.pair kv hm).valueType
  have hhalf := not_halfFloats_of_write hok htypes
  obtain ⟨file, hfile, rfl⟩ := write_eq_ok.mp hok
  have hwr := (emit_ok_iff.mp ⟨file, hfile⟩).1
  have hrecord : ∀ kv ∈ w.kvPairs, ∃ c, KvRecord v.wireFormat kv c := by
    intro kv hm
    have hcount := h.counts kv hm
    have hn : ∀ arr, kv.value = .array arr → arr.length < 2 ^ 64 := fun arr hv =>
      Nat.lt_of_lt_of_le (hcount arr hv) (limit_le _)
    have hval := valueOk_of_writable (hc.pair kv hm) (hc.strings kv hm) (hwr kv hm) hn (h.arrays kv hm)
    exact KvOk.record ⟨hc.key kv hm, htypes kv hm, hval⟩ hcount
  obtain ⟨k, hM⟩ := Many.exists hrecord
  have htensors : v ≠ .v1 → w.tensors.length ≤ 10000000 ∧ ∀ t ∈ w.tensors, TensorOk t := by
    intro hv
    obtain ⟨hnt, hdims⟩ := h.tensors hv
    exact ⟨hnt, fun t ht => ⟨hc.name t ht, hdims t ht⟩⟩
  obtain ⟨c, r, hword, hwrites⟩ := writes_headerWord h.version h.kvCount h.alignment hM hhalf htensors
  exact ⟨_, (parseGguf_eq (if_pos rfl)).trans (parse_written_append hword hwrites hfile)⟩

/-! ## What is rejected -/

theorem Spec.CountsFit.kvFits {w : GgufWriter} (h : CountsFit w) (hc : Consistent w) :
    ∀ kv ∈ w.kvPairs, KvFits w.wireFormat kv := by
  intro kv hm
  refine ⟨(hc.key kv hm).lt_limit _, (hc.pair kv hm).valueType, ?_⟩
  have hone := (hc.pair kv hm).oneType
  have hstr := hc.strings kv hm
  have hcount := h.arrays kv hm
  generalize kv.value = v at *
  cases v with
  | string s => exact Spec.TextOk.lt_limit hstr.here _
  | array arr =>
    refine ⟨hcount arr rfl, elementTag arr, fun v hv => ⟨hone.here v hv, ?_⟩⟩
    rintro s rfl
    exact Spec.TextOk.lt_limit (hstr.elements _ hv).here _
  | _ => trivial

/-- An array that was read holds neither `Float64` nor arrays. -/
theorem Spec.Payload.elementTag {f : GgufWireFormat} {t : GgufValueType} {arr : List GgufKvValue} {p : List UInt8}
    (h : Payload f t (.array arr) p) (hne : arr ≠ []) : elementTag arr ≠ .float64 ∧ elementTag arr ≠ .array := by
  cases h with
  | scalar h => cases h
  | array tag _ h =>
    cases h with
    | nil => exact absurd rfl hne
    | @cons u us c cs hu hus =>
      show u.valueType ≠ .float64 ∧ u.valueType ≠ .array
      cases hu with
      | scalar hf hs =>
        rw [hs.valueType]
        refine ⟨hf, ?_⟩
        rintro rfl
        cases hs
      | string _ => exact ⟨nofun, nofun⟩

/-- What is accepted passes the parser's checks, where its counts fit their
fields: the parser reads the content that was written. -/
theorem readable_of_parse {w : GgufWriter} (hc : Consistent w) (hfit : CountsFit w) {path : String}
    {fs fs' : FileSystem} (hok : w.write path fs = (.ok (), fs')) {h : GgufHeader} (hp : parseGguf fs' path = .ok h) :
    ∃ v, Readable v w := by
  have hversion := version_of_parse hok hp
  obtain ⟨file, hfile, rfl⟩ := write_eq_ok.mp hok
  obtain ⟨hd, hhd, -, rfl⟩ := emits_emit_iff.mp hfile
  obtain ⟨file, hfs, hparse⟩ := parseGguf_eq_ok.mp hp
  obtain rfl := Option.some.inj ((if_pos rfl).symm.trans hfs)
  obtain ⟨c, hb, hword⟩ := (recognises_parseGgufReader _ _ _).mp ⟨hparse, rfl⟩
  obtain ⟨v, hv⟩ : ∃ v, h.version = versionNumber v := by
    cases hword with
    | v1 => exact ⟨.v1, rfl⟩
    | @v23 v => exact ⟨v, rfl⟩
  rw [hv] at hversion
  have ht : v ≠ .v1 → w.tensors.length < limit w.wireFormat.headerCountWidth ∧
      ∀ t ∈ w.tensors, TensorFits w.wireFormat t := by
    intro hv1
    obtain ⟨hnt, hdims⟩ := hfit.tensors (by rw [← hversion, ne_eq, versionNumber_eq_one]; exact hv1)
    exact ⟨hnt, fun t hm => ⟨(hc.name t hm).lt_limit _, hdims t hm⟩⟩
  obtain ⟨rfl, ha⟩ := header_of_append hversion.symm hfit.kvCount (hfit.kvFits hc) ht hhd hword hb
  obtain ⟨hk, -, ⟨k, hM⟩, -, htensors⟩ := parse_content hp hv
  refine ⟨v, hversion.symm, hk, ha, countFits_of_records hM, ?_, ?_⟩
  · intro kv hm arr harr hne
    obtain ⟨_, _, p, _, hpay, _⟩ := hM.exists_of_mem hm
    rw [harr] at hpay
    exact hpay.elementTag hne
  · intro hv1
    simp only [headerOf, if_neg hv1] at htensors
    exact ⟨htensors.1, fun t hm => (htensors.2 t hm).dims⟩

/-- A file that the writer reports as written is accepted where its content
passes the parser's checks, and, where the counts fit their fields, nowhere
else. -/
theorem write_accepted_iff (w : GgufWriter) (hc : Consistent w) :
    ((∃ v, Readable v w) ∨ ¬ Writable w → Accepted w) ∧
      (CountsFit w → (Accepted w ↔ (∃ v, Readable v w) ∨ ¬ Writable w)) := by
  have henough : (∃ v, Readable v w) ∨ ¬ Writable w → Accepted w := by
    rintro (⟨v, h⟩ | hno)
    · exact h.accepted hc
    · intro path fs fs' hok
      obtain ⟨file, hfile, -⟩ := write_eq_ok.mp hok
      exact absurd (emit_ok_iff.mp ⟨file, hfile⟩) hno
  refine ⟨henough, fun hfit => ⟨fun h => ?_, henough⟩⟩
  by_contra hno
  rw [not_or, not_not] at hno
  obtain ⟨file, hfile⟩ := emit_ok_iff.mpr hno.2
  have hok : w.write "" (fun _ => none) = (.ok (), _) := write_eq_ok.mpr ⟨file, hfile, rfl⟩
  obtain ⟨hd, hp⟩ := h "" _ _ hok
  exact hno.1 (readable_of_parse hc hfit hok hp)

theorem write_accepted_sample : Accepted sampleWriter := by
  have hlimits := sampleWriter_withinLimits
  have hc : Consistent sampleWriter := ⟨fun kv hm => (hlimits.kv kv hm).key, sampleWriter_consistent,
    sampleWriter_everywhere ⟨trivial, trivial, trivial, trivial⟩, fun t hm => (hlimits.tensor t hm).name⟩
  have hv : (GgufVersion.v3).wireFormat.arrayCountWidth = .u64 := rfl
  refine (write_accepted_iff sampleWriter hc).1 (.inl ⟨.v3, rfl, hlimits.kvCount, hlimits.alignment,
    fun kv hm => (hlimits.kv kv hm).value.countFits hv, ?_,
    fun _ => ⟨hlimits.tensorCount, fun t hm => (hlimits.tensor t hm).dims⟩⟩)
  intro kv hm arr harr _
  rcases List.mem_cons.mp hm with rfl | hm
  · cases harr
    exact ⟨by decide, by decide⟩
  · rw [List.mem_singleton.mp hm] at harr
    cases harr

/-- An array of one `Float64`. -/
def floatsWriter : GgufWriter := GgufWriter.new.addKv ⟨"k", .array, .array [.float64 0]⟩

/-- It is written, and not parsed. -/
theorem write_rejected : ¬ ∀ w : GgufWriter, Consistent w → Accepted w := by
  intro hall
  have only {kv : GgufKvPair} (hm : kv ∈ floatsWriter.kvPairs) : kv = ⟨"k", .array, .array [.float64 0]⟩ :=
    List.mem_singleton.mp hm
  have everywhere {P : GgufKvValue → Prop} (ha : P (.array [.float64 0])) (hf : P (.float64 0)) :
      Everywhere P (.array [.float64 0]) := by
    refine .array ha fun v hv => ?_
    rw [List.mem_singleton.mp hv]
    exact .leaf nofun hf
  have hc : Consistent floatsWriter :=
    { key := fun kv hm => by rw [only hm]; decide
      pair := fun kv hm => by
        rw [only hm]
        exact ⟨rfl, everywhere (by show ∀ v ∈ _, _; decide) trivial⟩
      strings := fun kv hm => by
        rw [only hm]
        exact everywhere trivial trivial
      name := by simp [floatsWriter, GgufWriter.new, GgufWriter.addKv] }
  have hfit : CountsFit floatsWriter :=
    { kvCount := by decide
      arrays := fun kv hm => by
        rw [only hm]
        rintro arr h
        cases h
        decide
      tensors := fun _ => ⟨by decide, by simp [floatsWriter, GgufWriter.new, GgufWriter.addKv]⟩ }
  have hok := write_of_emit (w := floatsWriter) (by decide +kernel) "out.gguf" fun _ => none
  obtain ⟨h, hp⟩ := hall floatsWriter hc _ _ _ hok
  obtain ⟨v, hv⟩ := readable_of_parse hc hfit hok hp
  exact (hv.arrays _ List.mem_cons_self _ rfl (by decide)).1 rfl

end PestiGguf
