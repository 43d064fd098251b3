import PestiGguf.Proof.Agreement
import PestiGguf.Proof.Placement

/-!
# Converting between versions

A pair that denotes a value in one version denotes it in another whose counts
hold its array (`Spec.KvRecord.convert`): the grammar differs in widths only.
The parser does not: of a version 1 file it reads no tensors, so that content
with a tensor survives no conversion from or to version 1
(`write_parse_convert_iff`).
-/

namespace PestiGguf

open Codec Codec.Reader Codec.Emit Spec

namespace Spec

/-- The writer of some content, without tensor data. -/
def contentWriter (v : GgufVersion) (alignment : UInt64) (kvs : List GgufKvPair) (ts : List GgufTensorInfo) :
    GgufWriter :=
  ts.foldl .addTensor (kvs.foldl .addKv ((GgufWriter.new.withVersion (versionNumber v)).withAlignment alignment))

/-- Content written at `path` as version `v`, parsed, written at `path'` as
version `v'` and parsed again is the same. -/
def Converts (fs : FileSystem) (path path' : String) (a a' : UInt64) (v v' : GgufVersion)
    (kvs : List GgufKvPair) (ts : List GgufTensorInfo) : Prop :=
  ∃ fs₁ h fs₂ h', (contentWriter v a kvs ts).write path fs = (.ok (), fs₁) ∧ parseGguf fs₁ path = .ok h ∧
    (contentWriter v' a' h.kvPairs h.tensors).write path' fs₁ = (.ok (), fs₂) ∧ parseGguf fs₂ path' = .ok h' ∧
    h'.kvPairs = kvs ∧ h'.tensors = ts

end Spec

theorem contentWriter_eq (v : GgufVersion) (a : UInt64) (kvs : List GgufKvPair) (ts : List GgufTensorInfo) :
    contentWriter v a kvs ts =
      { version := versionNumber v, kvPairs := kvs, tensors := ts, tensorData := [], alignment := a } := by
  rw [contentWriter, foldl_addTensor, foldl_addKv]
  rfl

/-! ## Records of another version -/

theorem Spec.Payload.valueType {f : GgufWireFormat} {t : GgufValueType} {v : GgufKvValue} {p : List UInt8}
    (h : Payload f t v p) : v.valueType = t := by
  cases h with
  | scalar h => exact h.valueType
  | string _ => rfl
  | array _ _ _ => rfl

theorem Spec.Payload.countFits {f : GgufWireFormat} {t : GgufValueType} {v : GgufKvValue} {p : List UInt8}
    (h : Payload f t v p) : CountFits f v := by
  rintro arr rfl
  cases h with
  | scalar h => cases h
  | array _ hn _ => exact hn

theorem Spec.Element.convert {w : IntWidth} {t : GgufValueType} {v : GgufKvValue} {c : List UInt8}
    (h : Element w t v c) (w' : IntWidth) : ∃ c', Element w' t v c' := by
  cases h with
  | scalar ht h => exact ⟨_, .scalar ht h⟩
  | string h => exact ⟨_, .string ⟨h.1, rfl⟩⟩

theorem Spec.Payload.convert {f : GgufWireFormat} {t : GgufValueType} {v : GgufKvValue} {p : List UInt8}
    (h : Payload f t v p) {f' : GgufWireFormat} (hn : CountFits f' v) : ∃ p', Payload f' t v p' := by
  cases h with
  | scalar h => exact ⟨_, .scalar h⟩
  | string h => exact ⟨_, .string ⟨h.1, rfl⟩⟩
  | array tag _ h =>
    obtain ⟨c, hc⟩ := Many.exists fun v hv => (h.exists_of_mem hv).elim fun _ he => he.convert f'.stringWidth
    exact ⟨_, .array tag (hn _ rfl) hc⟩

/-- The versions differ in the widths of their fields only. -/
theorem Spec.KvRecord.convert {f : GgufWireFormat} {kv : GgufKvPair} {c : List UInt8} (h : KvRecord f kv c)
    {f' : GgufWireFormat} (hn : CountFits f' kv.value) : ∃ c', KvRecord f' kv c' := by
  obtain ⟨k, p, hk, hp, -⟩ := h
  obtain ⟨p', hp'⟩ := hp.convert hn
  exact ⟨_, _, p', ⟨hk.1, rfl⟩, hp', rfl⟩

theorem countFits_of_records {f : GgufWireFormat} {kvs : List GgufKvPair} {k : List UInt8}
    (h : Many (KvRecord f) kvs k) : ∀ kv ∈ kvs, CountFits f kv.value := by
  intro kv hm
  obtain ⟨_, _, _, _, hp, _⟩ := h.exists_of_mem hm
  exact hp.countFits

/-- What fits in version 1 fits in every version. -/
theorem Spec.CountFits.of_v1 {u : GgufKvValue} (h : CountFits .v1 u) (v : GgufVersion) :
    CountFits v.wireFormat u := by
  intro arr hu
  have hlt := h arr hu
  cases v with
  | v1 => exact hlt
  | v2 | v3 => exact Nat.lt_trans hlt (show 2 ^ 32 < 2 ^ 64 by decide)

/-! ## Half-precision floats -/

theorem Spec.ValueReadable.valueOk {v : GgufKvValue} (h : ValueReadable v) (hv : halfFloats v = false) :
    ValueOk v := by
  cases v with
  | array arr =>
    obtain ⟨hn, t, ht, hmem⟩ := h
    rcases List.mem_append.mp ht with ht | ht
    · exact ⟨hn, t, ht, hmem⟩
    · cases arr with
      | nil => exact ⟨hn, .uint8, by decide, nofun⟩
      | cons u us =>
        -- all of the elements are half-precision
        have hhalf : ∀ u' ∈ u :: us, isHalfFloat u' = true := by
          intro u' hu'
          obtain ⟨rfl, -⟩ := hmem u' hu'
          cases u' with
          | bfloat16 | float16 => rfl
          | _ => simp [GgufKvValue.valueType] at ht
        rw [halfFloats, List.all_eq_true.mpr hhalf] at hv
        cases hv
  | int8Array | uint8Array => exact h.elim
  | bfloat16 | float16 => cases hv
  | string s => exact h
  | _ => trivial

/-- A pair of such content has a record in each version that counts its array. -/
theorem Spec.ContentReadable.record {kvs : List GgufKvPair} {ts : List GgufTensorInfo} (hc : ContentReadable kvs ts)
    {kv : GgufKvPair} (hm : kv ∈ kvs) (hv : halfFloats kv.value = false) {v : GgufVersion}
    (h1 : v = .v1 → CountFits .v1 kv.value) : ∃ c, KvRecord v.wireFormat kv c := by
  have hok := (hc.value kv hm).valueOk hv
  refine KvOk.record ⟨hc.key kv hm, hc.valueType kv hm, hok⟩ ?_
  by_cases hv1 : v = .v1
  · exact (h1 hv1).of_v1 v
  · exact hok.countFits (arrayCountWidth_of_ne_v1 hv1)

theorem writable_half {v : GgufKvValue} (h : isHalfFloat v = true) : writable v.valueType v = false := by
  cases v with
  | bfloat16 | float16 => rfl
  | _ => cases h

/-- The writer refuses half-precision floats. -/
theorem writable_halfFloats {v : GgufKvValue} (h : halfFloats v = true) : writable v.valueType v = false := by
  cases v with
  | array arr =>
    cases arr with
    | nil => cases h
    | cons u us =>
      rw [halfFloats, Bool.and_eq_true, List.all_eq_true] at h
      have hu := writable_half (h.2 u List.mem_cons_self)
      show (writable u.valueType u && writableElements u.valueType us) = false
      rw [hu, Bool.false_and]
  | bfloat16 | float16 => rfl
  | _ => cases h

/-- Content that was written has none of them. -/
theorem not_halfFloats_of_write {w : GgufWriter} {path : String} {fs fs' : FileSystem}
    (hw : w.write path fs = (.ok (), fs')) (ht : ∀ kv ∈ w.kvPairs, kv.valueType = kv.value.valueType) :
    ∀ kv ∈ w.kvPairs, halfFloats kv.value = false := by
  obtain ⟨file, hfile, -⟩ := write_eq_ok.mp hw
  obtain ⟨hd, hhd, -⟩ := emits_emit_iff.mp hfile
  have hall := List.all_eq_true.mp (((gated_emitHeader w).emits_iff 0).mp ⟨hd, hhd⟩)
  intro kv hm
  by_contra hv
  have hwr := hall kv hm
  rw [ht kv hm, writable_halfFloats (Bool.eq_true_of_not_eq_false hv)] at hwr
  cases hwr

/-! ## Files -/

/-- The version read back is the version written. -/
theorem version_of_parse {w : GgufWriter} {path : String} {fs fs' : FileSystem}
    (hw : w.write path fs = (.ok (), fs')) {h : GgufHeader} (hp : parseGguf fs' path = .ok h) :
    h.version = w.version := by
  obtain ⟨file, hfile, rfl⟩ := write_eq_ok.mp hw
  obtain ⟨hd, hhd, -, rfl⟩ := emits_emit_iff.mp hfile
  obtain ⟨_, _, k, t, -, -, rfl⟩ := emits_header hhd
  rw [parseGguf_eq (if_pos rfl)] at hp
  obtain ⟨c, hc, hword⟩ := (recognises_parseGgufReader _ _ _).mp ⟨hp, rfl⟩
  obtain ⟨v, c', rfl, hr⟩ := headerWord_iff.mp hword
  rw [fixedFields] at hc
  simp only [List.append_assoc] at hc
  obtain ⟨hv, -⟩ := leU32.enc_append_inj.mp (List.append_cancel_left hc)
  rw [hv]
  cases hr <;> rfl

/-- What is known of content that was read. -/
theorem parse_content {fs : FileSystem} {path : String} {h : GgufHeader} {v : GgufVersion}
    (hp : parseGguf fs path = .ok h) (hv : h.version = versionNumber v) :
    h.kvPairs.length ≤ 10000000 ∧ AlignmentOk h.kvPairs ∧ (∃ k, Many (KvRecord v.wireFormat) h.kvPairs k) ∧
      (v = .v1 → h.tensors = []) ∧ (h.tensors.length ≤ 10000000 ∧ ∀ t ∈ h.tensors, TensorOk t) := by
  obtain ⟨file, -, hparse⟩ := parseGguf_eq_ok.mp hp
  obtain ⟨c, -, hword⟩ := (recognises_parseGgufReader _ _ _).mp ⟨hparse, rfl⟩
  cases hword with
  | v1 n hk ha hM =>
    obtain rfl := versionNumber_inj (v := .v1) hv
    exact ⟨hk, ha, ⟨_, hM⟩, fun _ => rfl, Nat.zero_le _, by simp [headerOf]⟩
  | v23 hv1 hnt hk ha hM hM' =>
    obtain rfl := versionNumber_inj hv
    refine ⟨hk, ha, ⟨_, hM⟩, fun h => absurd h hv1, hnt, fun t ht => ?_⟩
    obtain ⟨_, _, hname, hdims, _⟩ := hM'.exists_of_mem ht
    exact ⟨hname.1, hdims⟩

/-- Content with records is written and read back, in version 1 without its
tensors. -/
theorem write_parse_content {v : GgufVersion} {kvs : List GgufKvPair} {ts : List GgufTensorInfo} {k : List UInt8}
    (hk : kvs.length ≤ 10000000) (ha : AlignmentOk kvs) (hM : Many (KvRecord v.wireFormat) kvs k)
    (hv : ∀ kv ∈ kvs, halfFloats kv.value = false)
    (ht : v ≠ .v1 → ts.length ≤ 10000000 ∧ ∀ t ∈ ts, TensorOk t) (a : UInt64) (path : String) (fs : FileSystem) :
    ∃ fs', (contentWriter v a kvs ts).write path fs = (.ok (), fs') ∧
      parseGguf fs' path = .ok (headerOf v kvs (if v = .v1 then [] else ts)) := by
  rw [contentWriter_eq]
  obtain ⟨c, r, hc, hw⟩ := writes_headerWord (w := ⟨versionNumber v, kvs, ts, [], a⟩) rfl hk ha hM hv ht
  have hfile := emits_header_only hw rfl
  exact ⟨_, write_eq_ok.mpr ⟨_, hfile, rfl⟩, (parseGguf_eq (if_pos rfl)).trans (parse_written_append hc hw hfile)⟩

/-- What was read without tensors is what is read again, where it was written
again. -/
theorem parse_write_parse {v : GgufVersion} {path path' : String} {fs₁ fs₂ : FileSystem} {h h' : GgufHeader}
    (hp : parseGguf fs₁ path = .ok h) (hv : h.version = versionNumber v) (ht : h.tensors = []) {v' : GgufVersion}
    (hn : ∀ kv ∈ h.kvPairs, CountFits v'.wireFormat kv.value) {a : UInt64}
    (hw : (contentWriter v' a h.kvPairs h.tensors).write path' fs₁ = (.ok (), fs₂))
    (hp' : parseGguf fs₂ path' = .ok h') : h'.kvPairs = h.kvPairs ∧ h'.tensors = [] := by
  obtain ⟨hk, ha, ⟨k, hM⟩, -, htensors⟩ := parse_content hp hv
  have htype : ∀ kv ∈ h.kvPairs, kv.valueType = kv.value.valueType := by
    intro kv hm
    obtain ⟨_, _, _, _, hp, _⟩ := hM.exists_of_mem hm
    exact hp.valueType.symm
  have hhalf : ∀ kv ∈ h.kvPairs, halfFloats kv.value = false := by
    rw [contentWriter_eq] at hw
    exact not_halfFloats_of_write hw htype
  obtain ⟨k', hM'⟩ := Many.exists fun kv hm => (hM.exists_of_mem hm).elim fun _ hr => hr.convert (hn kv hm)
  obtain ⟨fs₃, hw₃, hp₃⟩ := write_parse_content hk ha hM' hhalf (fun _ => htensors) a path' fs₁
  obtain rfl : fs₂ = fs₃ := congrArg Prod.snd (hw.symm.trans hw₃)
  obtain rfl := Except.ok.inj (hp'.symm.trans hp₃)
  refine ⟨rfl, ?_⟩
  simp [headerOf, ht]

/-- Content of every kind the parser reads is converted exactly where the writer
has an encoding of it and, from or to version 1, it has no tensors and no array
that version 1 cannot count. -/
theorem write_parse_convert_iff (fs : FileSystem) (path path' : String) (a a' : UInt64) (v v' : GgufVersion)
    (kvs : List GgufKvPair) (ts : List GgufTensorInfo) (hc : ContentReadable kvs ts) :
    Converts fs path path' a a' v v' kvs ts ↔
      (∀ kv ∈ kvs, halfFloats kv.value = false) ∧
        (v = .v1 ∨ v' = .v1 → ts = [] ∧ ∀ kv ∈ kvs, CountFits .v1 kv.value) := by
  constructor
  · rintro ⟨fs₁, h, fs₂, h', hw, hp, hw', hp', rfl, rfl⟩
    have hver : h.version = versionNumber v := by rw [version_of_parse hw hp, contentWriter_eq]
    have hver' : h'.version = versionNumber v' := by rw [version_of_parse hw' hp', contentWriter_eq]
    obtain ⟨-, -, ⟨k', hM'⟩, ht', -⟩ := parse_content hp' hver'
    rw [contentWriter_eq] at hw
    refine ⟨not_halfFloats_of_write hw hc.valueType, ?_⟩
    rintro (rfl | rfl)
    · obtain ⟨-, -, ⟨k, hM⟩, ht, -⟩ := parse_content hp hver
      have hfits := countFits_of_records hM
      obtain ⟨hkvs, hts⟩ := parse_write_parse hp hver (ht rfl) (fun kv hm => (hfits kv hm).of_v1 v') hw' hp'
      exact ⟨hts, hkvs ▸ hfits⟩
    · exact ⟨ht' rfl, countFits_of_records hM'⟩
  · intro ⟨hv, h1⟩
    have one (v₀ : GgufVersion) (hv₀ : v₀ = .v1 → ts = [] ∧ ∀ kv ∈ kvs, CountFits .v1 kv.value) (a : UInt64)
        (path : String) (fs : FileSystem) :
        ∃ fs', (contentWriter v₀ a kvs ts).write path fs = (.ok (), fs') ∧
          parseGguf fs' path = .ok (headerOf v₀ kvs ts) := by
      obtain ⟨k, hM⟩ := Many.exists fun kv hm => hc.record hm (hv kv hm) fun h => (hv₀ h).2 kv hm
      have hts : (if v₀ = .v1 then [] else ts) = ts := by
        split
        · rename_i h
          exact (hv₀ h).1.symm
        · rfl
      have hwp := write_parse_content hc.kvCount hc.alignment hM hv (fun _ => ⟨hc.tensorCount, hc.tensor⟩) a path fs
      rwa [hts] at hwp
    obtain ⟨fs₁, hw, hp⟩ := one v (fun h => h1 (.inl h)) a path fs
    obtain ⟨fs₂, hw', hp'⟩ := one v' (fun h => h1 (.inr h)) a' path' fs₁
    exact ⟨fs₁, _, fs₂, _, hw, hp, hw', hp', rfl, rfl⟩

theorem sampleContent_readable {ts : List GgufTensorInfo} (hnt : ts.length ≤ 10000000) (ht : ∀ t ∈ ts, TensorOk t) :
    ContentReadable sampleWriter.kvPairs ts where
  kvCount := by decide
  tensorCount := hnt
  key kv hm := (sampleWriter_withinLimits.kv kv hm).key
  valueType kv hm := (sampleWriter_withinLimits.kv kv hm).valueType
  value kv hm := by
    rcases List.mem_cons.mp hm with rfl | hm
    · exact ⟨by decide, .bool, by decide, by simp [GgufKvValue.valueType]⟩
    · rw [List.mem_singleton.mp hm]
      trivial
  tensor := ht
  alignment := sampleWriter_withinLimits.alignment

/-- From version 2 to version 3, and without the tensor from version 1. -/
theorem write_parse_convert_sample :
    Converts (fun _ => none) "a.gguf" "b.gguf" 256 8 .v2 .v3 sampleWriter.kvPairs sampleWriter.tensors ∧
      Converts (fun _ => none) "a.gguf" "a.gguf" 256 8 .v1 .v3 sampleWriter.kvPairs [] := by
  refine ⟨(write_parse_convert_iff _ _ _ _ _ _ _ _ _ (sampleContent_readable sampleWriter_withinLimits.tensorCount
      sampleWriter_withinLimits.tensor)).mpr ⟨by decide, by simp⟩,
    (write_parse_convert_iff _ _ _ _ _ _ _ _ _ (sampleContent_readable (Nat.zero_le _) (by simp))).mpr
      ⟨by decide, fun _ => ⟨rfl, ?_⟩⟩⟩
  intro kv hm arr hv
  rcases List.mem_cons.mp hm with rfl | hm
  · cases hv
    decide
  · rw [List.mem_singleton.mp hm] at hv
    cases hv

/-- A tensor written as version 1 is not read. -/
theorem write_parse_not_converting : ¬ ∀ (fs : FileSystem) (path path' : String) (a a' : UInt64) (v v' : GgufVersion)
    (kvs : List GgufKvPair) (ts : List GgufTensorInfo), ContentReadable kvs ts →
      Converts fs path path' a a' v v' kvs ts := by
  intro hall
  obtain ⟨fs₁, h, fs₂, h', -, -, hw, hp, -, ht⟩ := hall (fun _ => none) "a.gguf" "b.gguf" 256 256 .v3 .v1
    sampleWriter.kvPairs sampleWriter.tensors
    (sampleContent_readable sampleWriter_withinLimits.tensorCount sampleWriter_withinLimits.tensor)
  have hver : h'.version = versionNumber .v1 := by rw [version_of_parse hw hp, contentWriter_eq]
  obtain ⟨-, -, -, hnil, -⟩ := parse_content hp hver
  cases ht.symm.trans (hnil rfl)

end PestiGguf
