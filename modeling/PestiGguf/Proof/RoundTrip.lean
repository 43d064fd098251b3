import PestiGguf.Proof.Acceptance
import PestiGguf.Proof.Writer

/-!
# Round trips of a header

A writer's content within the parser's limits is read back from what the
writer wrote (`write_parse_header`), and writing a parsed header again only
normalises its payloads (`parse_write_normalises`). Pairs of strings are read
back where none is empty (`writeKvPair_strings_iff`).
-/

namespace PestiGguf

open Codec Codec.Reader Codec.Emit Spec

/-! ## Words for the content of a writer -/

/-- A scalar has a payload; a `Bfloat16` may not. -/
theorem scalar_exists (v : GgufKvValue) : (∃ c, Scalar v.valueType v c) ∨
    v.valueType ∈ [GgufValueType.string, .array, .int8Array, .uint8Array, .bfloat16] := by
  cases v with
  | uint8 v => exact .inl ⟨_, .uint8 v⟩
  | int8 v => exact .inl ⟨_, .int8 v⟩
  | uint16 v => exact .inl ⟨_, .uint16 v⟩
  | int16 v => exact .inl ⟨_, .int16 v⟩
  | uint32 v => exact .inl ⟨_, .uint32 v⟩
  | int32 v => exact .inl ⟨_, .int32 v⟩
  | float32 v => exact .inl ⟨_, .float32 v⟩
  | uint64 v => exact .inl ⟨_, .uint64 v⟩
  | int64 v => exact .inl ⟨_, .int64 v⟩
  | bool v => cases v with
    | false => exact .inl ⟨_, .bool 0⟩
    | true => exact .inl ⟨_, .bool 1⟩
  | float64 v => exact .inl ⟨_, .float64 v⟩
  | float16 v => exact .inl ⟨_, .float16 v⟩
  | string | array | int8Array | uint8Array | bfloat16 => exact .inr (by simp [GgufKvValue.valueType])

theorem element_exists {v : GgufKvValue} (ht : v.valueType ∈ elementTypes)
    (hs : ∀ s, v = .string s → TextOk s) (w : IntWidth) : ∃ c, Element w v.valueType v c := by
  rcases scalar_exists v with ⟨c, h⟩ | h
  · exact ⟨c, .scalar (fun e => by rw [e] at ht; revert ht; decide) h⟩
  · cases v with
    | string s => exact ⟨_, .string ⟨hs s rfl, rfl⟩⟩
    | _ => simp [elementTypes, GgufKvValue.valueType] at ht h

theorem Spec.ValueOk.payload {v : GgufKvValue} (hv : ValueOk v) {f : GgufWireFormat} (hn : CountFits f v) :
    ∃ p, Payload f v.valueType v p := by
  rcases scalar_exists v with ⟨c, h⟩ | h
  · exact ⟨c, .scalar h⟩
  · cases v with
    | string s => exact ⟨_, .string ⟨hv, rfl⟩⟩
    | array arr =>
      obtain ⟨-, t, ht, hmem⟩ := hv
      have helem : ∀ u ∈ arr, ∃ c, Element f.stringWidth t u c := fun u hu => by
        obtain ⟨rfl, hs⟩ := hmem u hu
        exact element_exists ht hs _
      obtain ⟨c, hc⟩ := Many.exists helem
      exact ⟨_, .array t (hn arr rfl) hc⟩
    | int8Array | uint8Array | bfloat16 => exact hv.elim
    | _ => simp [GgufKvValue.valueType] at h

/-- The counts of versions 2 and 3 hold the length of any `Vec`. -/
theorem Spec.ValueOk.countFits {v : GgufKvValue} (hv : ValueOk v) {f : GgufWireFormat}
    (hf : f.arrayCountWidth = .u64) : CountFits f v := by
  rintro arr rfl
  rw [hf]
  exact hv.1

theorem not_isHalfFloat {v : GgufKvValue} (ht : v.valueType ∈ elementTypes) : isHalfFloat v = false := by
  cases v with
  | bfloat16 | float16 => simp [elementTypes, GgufKvValue.valueType] at ht
  | _ => rfl

theorem Spec.ValueOk.not_halfFloats {v : GgufKvValue} (hv : ValueOk v) : halfFloats v = false := by
  cases v with
  | array arr =>
    obtain ⟨-, t, ht, hmem⟩ := hv
    cases arr with
    | nil => rfl
    | cons u us =>
      obtain ⟨rfl, -⟩ := hmem u List.mem_cons_self
      rw [halfFloats, List.all_cons, not_isHalfFloat ht, Bool.false_and, Bool.and_false]
  | bfloat16 | float16 => exact hv.elim
  | _ => rfl

theorem Spec.KvOk.record {kv : GgufKvPair} (h : KvOk kv) {f : GgufWireFormat} (hn : CountFits f kv.value) :
    ∃ c, KvRecord f kv c := by
  obtain ⟨p, hp⟩ := h.value.payload hn
  rw [← h.valueType] at hp
  exact ⟨_, _, p, ⟨h.key, rfl⟩, hp, rfl⟩

theorem Spec.TensorOk.record {t : GgufTensorInfo} (h : TensorOk t) (f : GgufWireFormat) :
    ∃ c, TensorRecord f t c :=
  ⟨_, _, ⟨h.name, rfl⟩, h.dims, rfl⟩

theorem arrayCountWidth_of_ne_v1 {v : GgufVersion} (hv : v ≠ .v1) : v.wireFormat.arrayCountWidth = .u64 := by
  cases v <;> first | rfl | exact absurd rfl hv

theorem version_cases {n : UInt32} (h : n = 2 ∨ n = 3) : ∃ v, v ≠ GgufVersion.v1 ∧ n = versionNumber v := by
  rcases h with rfl | rfl
  · exact ⟨.v2, by decide, rfl⟩
  · exact ⟨.v3, by decide, rfl⟩

section
variable {w : GgufWriter} {v : GgufVersion} {k : List UInt8} (hver : w.version = versionNumber v)
  (hnk : w.kvPairs.length ≤ 10000000) (ha : AlignmentOk w.kvPairs) (hk : Many (KvRecord v.wireFormat) w.kvPairs k)
  (hv : ∀ kv ∈ w.kvPairs, halfFloats kv.value = false)
include hver hnk ha hk hv

/-- From version 2 on, the writer emits a word for its content. -/
theorem writes_word (hv1 : v ≠ .v1) (hnt : w.tensors.length ≤ 10000000) (ht : ∀ t ∈ w.tensors, TensorOk t) :
    ∃ c, HeaderWord (headerOf v w.kvPairs w.tensors) c ∧ w.emitHeader.Writes c := by
  obtain ⟨k', hn⟩ := normalised_exists hk
  obtain ⟨t, hM⟩ := Many.exists fun t hm => (ht t hm).record v.wireFormat
  exact ⟨_, .v23 hv1 hnt hnk ha hn.right hM, writes_emitHeader hver hn hv hM⟩

/-- In version 1, the tensors follow a word for the pairs. -/
theorem writes_headerWord (ht : v ≠ .v1 → w.tensors.length ≤ 10000000 ∧ ∀ t ∈ w.tensors, TensorOk t) :
    ∃ c r, HeaderWord (headerOf v w.kvPairs (if v = .v1 then [] else w.tensors)) c ∧
      w.emitHeader.Writes (c ++ r) := by
  by_cases h1 : v = .v1
  · subst h1
    obtain ⟨k', hn⟩ := normalised_exists hk
    obtain ⟨t, hts⟩ : ∃ t, (forM w.tensors (writeTensorInfo · w.wireFormat)).Writes t :=
      ⟨_, writes_forM fun t _ => writes_writeTensorInfo _ t⟩
    refine ⟨_, t, .v1 (UInt32.ofNat w.tensors.length) hnk ha hn.right, ?_⟩
    have hcount : preamble .v1 (UInt32.ofNat w.tensors.length).toNat w.kvPairs.length = fixedFields w := by
      rw [fixedFields_eq hver]
      simp only [preamble, GgufVersion.wireFormat, GgufWireFormat.v1, lenField, UInt32.ofNat_toNat]
    rw [hcount, List.append_assoc]
    have hkv := writes_kvPairs hn hv
    rw [← wireFormat_of_version hver] at hkv
    exact writes_header hkv hts
  · obtain ⟨hnt, hok⟩ := ht h1
    obtain ⟨c, hc, hwrites⟩ := writes_word hver hnk ha hk hv h1 hnt hok
    rw [if_neg h1]
    exact ⟨c, [], hc, by rwa [List.append_nil]⟩

end

/-- The writer emits a word for its content, where this is within the limits. -/
theorem Spec.WithinLimits.writes {w : GgufWriter} (hw : WithinLimits w) {v : GgufVersion} (hv : v ≠ .v1)
    (hver : w.version = versionNumber v) :
    ∃ c, HeaderWord (headerOf v w.kvPairs w.tensors) c ∧ w.emitHeader.Writes c := by
  have hf := arrayCountWidth_of_ne_v1 hv
  obtain ⟨k, hk⟩ := Many.exists fun kv hm => (hw.kv kv hm).record ((hw.kv kv hm).value.countFits hf)
  exact writes_word hver hw.kvCount hw.alignment hk (fun kv hm => (hw.kv kv hm).value.not_halfFloats) hv
    hw.tensorCount hw.tensor

/-! ## Files -/

theorem write_eq_ok {w : GgufWriter} {path : String} {fs fs' : FileSystem} :
    w.write path fs = (.ok (), fs') ↔
      ∃ file, w.emit.Emits 0 () file ∧ fs' = fun p => if p = path then some file else fs p := by
  simp only [GgufWriter.write, Emits, Prod.mk.injEq]
  constructor
  · rintro ⟨h, rfl⟩
    exact ⟨_, Prod.ext h rfl, rfl⟩
  · rintro ⟨file, h, rfl⟩
    rw [h]
    exact ⟨rfl, rfl⟩

theorem parseGguf_eq {fs : FileSystem} {path : String} {file : List UInt8} (h : fs path = some file) :
    parseGguf fs path = (parseGgufReader file).result := by
  rw [parseGguf, h]

theorem parseGguf_eq_ok {fs : FileSystem} {path : String} {h : GgufHeader} : parseGguf fs path = .ok h ↔
    ∃ file, fs path = some file ∧ (parseGgufReader file).result = .ok h := by
  rw [parseGguf]
  cases fs path with
  | none => simp
  | some file => simp

theorem write_of_emit {w : GgufWriter} (h : (w.emit 0).1 = .ok ()) (path : String) (fs : FileSystem) :
    w.write path fs = (.ok (), (w.write path fs).2) :=
  Prod.ext h rfl

theorem write_file (w : GgufWriter) (path : String) (fs : FileSystem) :
    (w.write path fs).2 path = some (w.emit 0).2 :=
  if_pos rfl

/-- What is written starts with the header. -/
theorem emit_header {w : GgufWriter} {c file : List UInt8} (hc : w.emitHeader.Writes c)
    (h : w.emit.Emits 0 () file) : ∃ r, file = c ++ r := by
  obtain ⟨_, o, r, ho, -, rfl⟩ := emits_bind.mp h
  exact ⟨r, by rw [hc.unique ho]⟩

/-- The header at the start of a written file is read back, whatever follows it. -/
theorem parse_written_append {w : GgufWriter} {h : GgufHeader} {c r file : List UInt8} (hc : HeaderWord h c)
    (hwrites : w.emitHeader.Writes (c ++ r)) (hfile : w.emit.Emits 0 () file) :
    (parseGgufReader file).result = .ok h := by
  obtain ⟨s, rfl⟩ := emit_header hwrites hfile
  rw [List.append_assoc]
  exact (recognises_parseGgufReader.returns_append hc _).1

theorem parse_written {w : GgufWriter} {h : GgufHeader} {c file : List UInt8} (hc : HeaderWord h c)
    (hwrites : w.emitHeader.Writes c) (hfile : w.emit.Emits 0 () file) :
    (parseGgufReader file).result = .ok h := by
  rw [← List.append_nil c] at hwrites
  exact parse_written_append hc hwrites hfile

/-- A header within the limits is read back. -/
theorem Spec.WithinLimits.parse {w : GgufWriter} (hw : WithinLimits w) {v : GgufVersion} (hv : v ≠ .v1)
    (hver : w.version = versionNumber v) {path : String} {fs fs' : FileSystem}
    (hok : w.write path fs = (.ok (), fs')) : ∃ file, fs' path = some file ∧
      (parseGgufReader file).result = .ok (headerOf v w.kvPairs w.tensors) := by
  obtain ⟨file, hfile, rfl⟩ := write_eq_ok.mp hok
  obtain ⟨c, hc, hemit⟩ := hw.writes hv hver
  exact ⟨_, if_pos rfl, parse_written hc hemit hfile⟩

/-- The header of a written file is read back. -/
theorem write_parse_header (w : GgufWriter) (hver : w.version = 2 ∨ w.version = 3) (hw : WithinLimits w)
    (path : String) (fs fs' : FileSystem) (hok : w.write path fs = (.ok (), fs')) :
    ∃ file h, fs' path = some file ∧ (parseGgufReader file).result = .ok h ∧ h.version = w.version ∧
      h.kvPairs = w.kvPairs ∧ h.tensors = w.tensors := by
  obtain ⟨v, hv, hver⟩ := version_cases hver
  obtain ⟨file, hfs, hparse⟩ := hw.parse hv hver hok
  exact ⟨file, _, hfs, hparse, hver.symm, rfl, rfl⟩

/-- A writer with an array of `Bool`, the alignment of its data and a tensor
of two bytes. -/
def sampleWriter : GgufWriter where
  version := 3
  kvPairs := [⟨"flags", .array, .array [.bool true, .bool false]⟩, ⟨"general.alignment", .uint32, .uint32 8⟩]
  tensors := [⟨"t", [2], 0, 24⟩]
  tensorData := [("t", [1, 2])]
  alignment := 8

theorem sampleWriter_withinLimits : WithinLimits sampleWriter where
  kvCount := by decide
  tensorCount := by decide
  kv kv hm := by
    rcases List.mem_cons.mp hm with rfl | hm
    · refine ⟨by decide, rfl, by decide, .bool, by decide, fun v hv => ?_⟩
      rcases List.mem_cons.mp hv with rfl | hv
      · exact ⟨rfl, nofun⟩
      · rw [List.mem_singleton.mp hv]
        exact ⟨rfl, nofun⟩
    · rw [List.mem_singleton.mp hm]
      exact ⟨by decide, rfl, trivial⟩
  tensor t hm := by
    rw [List.mem_singleton.mp hm]
    exact ⟨by decide, by decide⟩
  alignment z hz := by
    obtain rfl : 8 = z := Option.some.inj hz
    exact ⟨3, by decide, rfl⟩

theorem sampleWriter_everywhere {P : GgufKvValue → Prop}
    (h : P (.array [.bool true, .bool false]) ∧ P (.bool true) ∧ P (.bool false) ∧ P (.uint32 8)) :
    ∀ kv ∈ sampleWriter.kvPairs, Everywhere P kv.value := by
  intro kv hm
  rcases List.mem_cons.mp hm with rfl | hm
  · refine .array h.1 ?_
    rw [List.forall_mem_cons, List.forall_mem_singleton]
    exact ⟨.leaf nofun h.2.1, .leaf nofun h.2.2.1⟩
  · rw [List.mem_singleton.mp hm]
    exact .leaf nofun h.2.2.2

theorem sampleWriter_consistent (kv : GgufKvPair) (hm : kv ∈ sampleWriter.kvPairs) : TypeConsistent kv where
  valueType := (sampleWriter_withinLimits.kv kv hm).valueType
  oneType := sampleWriter_everywhere ⟨by show ∀ v ∈ _, _; decide, trivial, trivial, trivial⟩ kv hm

theorem sampleWriter_emits : (sampleWriter.emit 0).1 = .ok () := by
  decide +kernel

theorem write_parse_header_sample : ∃ file h,
    (sampleWriter.write "out.gguf" fun _ => none).2 "out.gguf" = some file ∧
      (parseGgufReader file).result = .ok h ∧ h.version = 3 ∧
      h.kvPairs = sampleWriter.kvPairs ∧ h.tensors = sampleWriter.tensors :=
  write_parse_header sampleWriter (.inr rfl) sampleWriter_withinLimits "out.gguf" (fun _ => none) _
    (write_of_emit sampleWriter_emits _ _)

/-! ## Writing a parsed header -/

theorem foldl_addKv (w : GgufWriter) (kvs : List GgufKvPair) :
    kvs.foldl .addKv w = { w with kvPairs := w.kvPairs ++ kvs } := by
  induction kvs generalizing w with
  | nil => rw [List.foldl_nil, List.append_nil]
  | cons kv kvs ih =>
    rw [List.foldl_cons, ih, GgufWriter.addKv]
    simp

theorem foldl_addTensor (w : GgufWriter) (ts : List GgufTensorInfo) :
    ts.foldl .addTensor w = { w with tensors := w.tensors ++ ts } := by
  induction ts generalizing w with
  | nil => rw [List.foldl_nil, List.append_nil]
  | cons t ts ih =>
    rw [List.foldl_cons, ih, GgufWriter.addTensor]
    simp

theorem writerOf_eq (h : GgufHeader) : writerOf h =
    { version := h.version, kvPairs := h.kvPairs, tensors := h.tensors, tensorData := [],
      alignment := h.dataAlignment.getD 256 } := by
  rw [writerOf, foldl_addTensor, foldl_addKv]
  rfl

/-- Without tensor data, the header and its padding are all that is written. -/
theorem emits_header_only {w : GgufWriter} {c : List UInt8} (hc : w.emitHeader.Writes c)
    (hd : w.tensorData = []) :
    w.emit.Emits 0 () (c ++ List.replicate (paddingLength w.dataStart c.length) 0) := by
  have h : w.emit.Emits 0 () (c ++ (List.replicate (paddingLength w.dataStart c.length) 0 ++ [])) := by
    rw [GgufWriter.emit, hd, ← Nat.zero_add c.length]
    exact (hc 0).bind ((emits_padTo _ _).bind ((writes_forM_nil _).bind (writes_forM_nil _)))
  rwa [List.append_nil] at h

/-- The content of an accepted header of version 2 or 3. -/
theorem headerWord_content {h : GgufHeader} {c : List UInt8} (hc : HeaderWord h c)
    (hver : h.version = 2 ∨ h.version = 3) : ∃ v k t, v ≠ .v1 ∧ h = headerOf v h.kvPairs h.tensors ∧
      c = preamble v h.tensors.length h.kvPairs.length ++ (k ++ t) ∧
      h.tensors.length ≤ 10000000 ∧ h.kvPairs.length ≤ 10000000 ∧ AlignmentOk h.kvPairs ∧
      Many (KvRecord v.wireFormat) h.kvPairs k ∧ Many (TensorRecord v.wireFormat) h.tensors t := by
  cases hc with
  | v1 => rcases hver with hver | hver <;> cases hver
  | v23 hv ht hk ha hM hM' => exact ⟨_, _, _, hv, rfl, rfl, ht, hk, ha, hM, hM'⟩

/-- Without half-precision floats, the writer writes a parsed header back,
each payload in its normal form. -/
theorem writes_writerOf {h : GgufHeader} {c : List UInt8} (hc : HeaderWord h c)
    (hver : h.version = 2 ∨ h.version = 3) (hv : ∀ kv ∈ h.kvPairs, halfFloats kv.value = false) :
    ∃ v k k' t, h.version = versionNumber v ∧
      c = preamble v h.tensors.length h.kvPairs.length ++ (k ++ t) ∧
      Normalised v.wireFormat h.kvPairs k k' ∧ Many (TensorRecord v.wireFormat) h.tensors t ∧
      (writerOf h).emitHeader.Writes (preamble v h.tensors.length h.kvPairs.length ++ (k' ++ t)) ∧
      HeaderWord h (preamble v h.tensors.length h.kvPairs.length ++ (k' ++ t)) := by
  obtain ⟨v, k, t, hv1, hh, hb, ht, hk, ha, hM, hM'⟩ := headerWord_content hc hver
  obtain ⟨k', hn⟩ := normalised_exists hM
  have hver : h.version = versionNumber v := by rw [hh]; rfl
  have hemit := writes_emitHeader (w := { writerOf h with
    version := h.version, kvPairs := h.kvPairs, tensors := h.tensors }) hver hn hv hM'
  refine ⟨v, k, k', t, hver, hb, hn, hM', ?_, hh.symm ▸ HeaderWord.v23 hv1 ht hk ha hn.right hM'⟩
  rw [writerOf_eq] at hemit ⊢
  exact hemit

theorem writerOf_fails {h : GgufHeader} {c : List UInt8} (hc : HeaderWord h c)
    (hver : h.version = 2 ∨ h.version = 3) {kv : GgufKvPair} (hm : kv ∈ h.kvPairs)
    (hv : halfFloats kv.value = true) : (writerOf h).emit.Fails 0 := by
  obtain ⟨v, k, t, -, hh, -, -, -, -, hM, -⟩ := headerWord_content hc hver
  have hver : h.version = versionNumber v := by rw [hh]; rfl
  have hfail := emitHeader_fails (w := { writerOf h with version := h.version, kvPairs := h.kvPairs }) hver hM
    hm hv 0
  rw [writerOf_eq] at hfail ⊢
  exact hfail.bind

/-- Writing a parsed header fails on half-precision floats, and otherwise
gives the header back, each payload in its normal form. -/
theorem parse_write_normalises (b : List UInt8) (h : GgufHeader)
    (hok : (parseGgufReader b).result = .ok h) (hver : h.version = 2 ∨ h.version = 3) (path : String)
    (fs : FileSystem) :
    ((∃ e, ((writerOf h).write path fs).1 = .error e) ↔ ∃ kv ∈ h.kvPairs, halfFloats kv.value = true) ∧
      ∀ fs', (writerOf h).write path fs = (.ok (), fs') → ∃ out v k k' t, fs' path = some out ∧
        h.version = versionNumber v ∧
        b.take (parseGgufReader.consumed b) =
          preamble v h.tensors.length h.kvPairs.length ++ (k ++ t) ∧
        out.take (parseGgufReader.consumed b) =
          preamble v h.tensors.length h.kvPairs.length ++ (k' ++ t) ∧
        Normalised v.wireFormat h.kvPairs k k' ∧ Many (TensorRecord v.wireFormat) h.tensors t ∧
        (parseGgufReader out).result = .ok h := by
  obtain ⟨hword, hle⟩ := recognises_parseGgufReader.word hok
  by_cases hhalf : ∃ kv ∈ h.kvPairs, halfFloats kv.value = true
  · obtain ⟨kv, hm, hv⟩ := id hhalf
    obtain ⟨e, o, he⟩ := writerOf_fails hword hver hm hv
    have hwrite : ((writerOf h).write path fs).1 = .error e := by rw [GgufWriter.write, he]
    refine ⟨iff_of_true ⟨e, hwrite⟩ hhalf, fun fs' hok => ?_⟩
    rw [hok] at hwrite
    cases hwrite
  · have hhalf' : ∀ kv ∈ h.kvPairs, halfFloats kv.value = false := fun kv hm =>
      Bool.eq_false_iff.mpr fun hv => hhalf ⟨kv, hm, hv⟩
    obtain ⟨v, k, k', t, hver, hb, hn, hM', hc, hword'⟩ := writes_writerOf hword hver hhalf'
    have hemit := emits_header_only hc (by rw [writerOf_eq])
    refine ⟨iff_of_false ?_ hhalf, fun fs' hok => ?_⟩
    · intro ⟨e, he⟩
      rw [GgufWriter.write, hemit] at he
      cases he
    · obtain ⟨out, hout, rfl⟩ := write_eq_ok.mp hok
      obtain ⟨-, rfl⟩ := hout.unique hemit
      refine ⟨_, v, k, k', t, if_pos rfl, hver, hb, ?_, hn, hM',
        (recognises_parseGgufReader.returns_append hword' _).1⟩
      have hlen := congrArg List.length hb
      rw [List.length_take_of_le hle] at hlen
      rw [List.take_append_of_le_length (by simp [hlen, hn.length]), List.take_of_length_le]
      simp [hlen, hn.length]

theorem parse_write_normalises_sample : ∃ out,
    ((writerOf sampleHeader).write "out.gguf" fun _ => none).2 "out.gguf" = some out ∧
      (parseGgufReader out).result = .ok sampleHeader := by
  obtain ⟨out, _, _, _, _, hout, _, _, _, _, _, hparse⟩ :=
    (parse_write_normalises sampleFile sampleHeader rfl (.inr rfl) "out.gguf" fun _ => none).2 _
      (write_of_emit (by decide +kernel) _ _)
  exact ⟨out, hout, hparse⟩

/-! ## Strings -/

theorem textOk_iff_ne_empty {s : String} (h : s.utf8ByteSize ≤ 2 ^ 20) : TextOk s ↔ s ≠ "" := by
  rw [TextOk, ne_eq, ← String.utf8ByteSize_eq_zero_iff]
  omega

/-- The encodings of strings, one after another. -/
theorem writes_strings (f : GgufWireFormat) (strs : List String) :
    (writeKvElements .string (strs.map .string) f).Writes
      (strs.flatMap fun s => lenField f.stringWidth s.utf8ByteSize ++ asBytes s) := by
  induction strs with
  | nil =>
    rw [List.map_nil, writeKvElements]
    exact writes_pure
  | cons s strs ih =>
    rw [List.map_cons, writeKvElements, writeKvValue, List.flatMap_cons]
    exact writes_text.bind ih

theorem elements_of_strings {w : IntWidth} {strs : List String} (h : ∀ s ∈ strs, TextOk s) :
    Many (Element w .string) (strs.map .string)
      (strs.flatMap fun s => lenField w s.utf8ByteSize ++ asBytes s) := by
  induction strs with
  | nil => exact .nil
  | cons s strs ih =>
    rw [List.forall_mem_cons] at h
    exact .cons (.string ⟨h.1, rfl⟩) (ih h.2)

theorem textOk_of_elements {w : IntWidth} {t : GgufValueType} {strs : List String} {c : List UInt8}
    (h : Many (Element w t) (strs.map .string) c) : ∀ s ∈ strs, TextOk s := by
  intro s hs
  obtain ⟨_, hel⟩ := h.exists_of_mem (List.mem_map_of_mem hs)
  cases hel with
  | scalar _ h => cases h
  | string h => exact h.1

/-- What is read of a pair that was written, where `q` says that it has a record. -/
theorem returns_written_iff {f : GgufWireFormat} {kv : GgufKvPair} {c : List UInt8} {q : Prop}
    (hc : q → KvRecord f kv c) (hq : ∀ c', KvRecord f kv c' → q) (r : List UInt8) :
    (readKvPair f).Returns (c ++ r) kv r ↔ q := by
  constructor
  · intro h
    obtain ⟨c', -, hc'⟩ := (recognises_readKvPair f _ _ _).mp h
    exact hq c' hc'
  · exact fun h => (recognises_readKvPair f).returns_append (hc h) r

theorem writeKvPair_string_iff (f : GgufWireFormat) (key : String) {s : String}
    (hs : s.utf8ByteSize ≤ 2 ^ 20) : ∃ c, (writeKvPair ⟨key, .string, .string s⟩ f).Writes c ∧
      ∀ r, (readKvPair f).Returns (c ++ r) ⟨key, .string, .string s⟩ r ↔ TextOk key ∧ s ≠ "" := by
  have hw : (writeKvValue .string (.string s) f).Writes
      (lenField f.stringWidth s.utf8ByteSize ++ asBytes s) := by
    rw [writeKvValue]
    exact writes_text
  refine ⟨_, writes_writeKvPair hw, returns_written_iff ?_ ?_⟩
  · rintro ⟨hkey, hne⟩
    exact ⟨_, _, ⟨hkey, rfl⟩, .string ⟨(textOk_iff_ne_empty hs).mpr hne, rfl⟩, rfl⟩
  · rintro c' ⟨_, _, hkey, hp, _⟩
    cases hp with
    | scalar h => cases h
    | string h => exact ⟨hkey.1, (textOk_iff_ne_empty hs).mp h.1⟩

theorem writeKvPair_strings_array_iff (f : GgufWireFormat) (key : String) {strs : List String}
    (hn : strs.length < 2 ^ 32) (hs : ∀ s ∈ strs, s.utf8ByteSize ≤ 2 ^ 20) :
    ∃ c, (writeKvPair ⟨key, .array, .array (strs.map .string)⟩ f).Writes c ∧
      ∀ r, (readKvPair f).Returns (c ++ r) ⟨key, .array, .array (strs.map .string)⟩ r ↔
        TextOk key ∧ "" ∉ strs := by
  have hlimit : (strs.map GgufKvValue.string).length < limit f.arrayCountWidth := by
    rw [List.length_map]
    cases f.arrayCountWidth <;> simp only [limit] <;> omega
  have hok : (∀ s ∈ strs, TextOk s) ↔ "" ∉ strs := by
    constructor
    · intro h hm
      exact (textOk_iff_ne_empty (hs "" hm)).mp (h "" hm) rfl
    · exact fun h s hm => (textOk_iff_ne_empty (hs s hm)).mpr fun e => h (e ▸ hm)
  have helems : (writeKvElements (elementTag (strs.map .string)) (strs.map .string) f).Writes
      (strs.flatMap fun s => lenField f.stringWidth s.utf8ByteSize ++ asBytes s) := by
    cases strs with
    | nil => exact writes_pure
    | cons s strs => exact writes_strings f (s :: strs)
  refine ⟨_, writes_writeKvPair (writes_array helems), returns_written_iff ?_ ?_⟩
  · rintro ⟨hkey, hne⟩
    refine ⟨_, _, ⟨hkey, rfl⟩, .array _ hlimit ?_, rfl⟩
    cases strs with
    | nil => exact .nil
    | cons s strs => exact elements_of_strings (hok.mpr hne)
  · rintro c' ⟨_, _, hkey, hp, _⟩
    cases hp with
    | scalar h => cases h
    | array _ _ h => exact ⟨hkey.1, hok.mp (textOk_of_elements h)⟩

/-- A string, or an array of strings, is written whatever the lengths, and read
back exactly where neither the key nor a string is empty. -/
theorem writeKvPair_strings_iff (f : GgufWireFormat) (key : String) :
    (∀ s : String, s.utf8ByteSize ≤ 2 ^ 20 → ∃ c, (writeKvPair ⟨key, .string, .string s⟩ f).Writes c ∧
        ∀ r, (readKvPair f).Returns (c ++ r) ⟨key, .string, .string s⟩ r ↔ TextOk key ∧ s ≠ "") ∧
      ∀ strs : List String, strs.length < 2 ^ 32 → (∀ s ∈ strs, s.utf8ByteSize ≤ 2 ^ 20) → ∃ c,
        (writeKvPair ⟨key, .array, .array (strs.map .string)⟩ f).Writes c ∧
        ∀ r, (readKvPair f).Returns (c ++ r) ⟨key, .array, .array (strs.map .string)⟩ r ↔
          TextOk key ∧ "" ∉ strs :=
  ⟨fun _ hs => writeKvPair_string_iff f key hs, fun _ hn hs => writeKvPair_strings_array_iff f key hn hs⟩

theorem writeKvPair_strings_sample :
    (∃ c, (writeKvPair ⟨"k", .string, .string "x"⟩ .v2).Writes c ∧
        ∀ r, (readKvPair .v2).Returns (c ++ r) ⟨"k", .string, .string "x"⟩ r) ∧
      ∃ c, (writeKvPair ⟨"k", .array, .array [.string "x", .string "yz"]⟩ .v2).Writes c ∧
        ∀ r, (readKvPair .v2).Returns (c ++ r) ⟨"k", .array, .array [.string "x", .string "yz"]⟩ r := by
  have h := writeKvPair_strings_iff .v2 "k"
  obtain ⟨c, hw, hr⟩ := h.1 "x" (by decide)
  obtain ⟨c', hw', hr'⟩ := h.2 ["x", "yz"] (by decide) (by decide)
  exact ⟨⟨c, hw, fun r => (hr r).mpr (by decide)⟩, c', hw', fun r => (hr' r).mpr (by decide)⟩

/-- An empty string is written, and not read. -/
theorem writeKvPair_empty_string : ¬ ∀ (f : GgufWireFormat) (key s : String) (p : Nat) (c r : List UInt8),
    key ≠ "" → s.utf8ByteSize ≤ 2 ^ 20 → (writeKvPair ⟨key, .string, .string s⟩ f).Emits p () c →
      (readKvPair f).Returns (c ++ r) ⟨key, .string, .string s⟩ r := by
  intro hall
  obtain ⟨c, hw, hr⟩ := writeKvPair_string_iff .v3 "k" (s := "") (by decide)
  have hback := hall .v3 "k" "" 0 c [] (by decide) (by decide) (hw 0)
  exact ((hr []).mp hback).2 rfl

end PestiGguf
