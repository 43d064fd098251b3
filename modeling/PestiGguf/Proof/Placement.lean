import PestiGguf.Proof.DataSection

/-!
# Where the writer puts the data

A write succeeds exactly on values the writer has an encoding for and data
of the right sizes; the data added stand in the file one after another, and a
tensor whose offset is the place of its data is described by the table
(`write_places_data`). The writer checks no offset, and not that every tensor
has data (`write_offsets_unchecked`).
-/

namespace PestiGguf

open Codec Codec.Reader Codec.Emit Spec

/-! ## When a header is written -/

/-- The types the writer has an encoding for, arrays apart. -/
theorem writable_of_ne_array {t : GgufValueType} (ha : t ≠ .array) (v : GgufKvValue) :
    writable t v = !([.bfloat16, .float16, .int8Array, .uint8Array].contains t) := by
  cases t <;> first | exact absurd rfl ha | simp [writable]

theorem gated_writeKvValueScalar {t : GgufValueType} (hs : t ≠ .string) (ha : t ≠ .array)
    (v : GgufKvValue) : Gated (writable t v) (writeKvValueScalar t v) := by
  rw [writable_of_ne_array ha]
  cases t with
  | string => exact absurd rfl hs
  | array => exact absurd rfl ha
  | bfloat16 | float16 | int8Array | uint8Array => exact ⟨nofun, fun _ p => ⟨_, _, rfl⟩⟩
  | _ => cases v <;> exact Writes.gated fun _ => rfl

/-- A value of another type than a string or an array is skipped where one is
declared. -/
theorem gated_writeKvValue_other {v : GgufKvValue} (hs : ∀ s, v ≠ .string s) (ha : ∀ arr, v ≠ .array arr)
    (f : GgufWireFormat) (t : GgufValueType) : Gated (writable t v) (writeKvValue t v f) := by
  cases t with
  | string =>
    rw [writable_of_ne_array (by decide), writeKvValue]
    · exact writes_pure.gated
    · exact hs
  | array =>
    rw [writable, writeKvValue]
    · exact writes_pure.gated
    · exact ha
    · exact ha
  | _ =>
    rw [writeKvValue_scalar (by decide) (by decide)]
    exact gated_writeKvValueScalar (by decide) (by decide) _

mutual

theorem gated_writeKvValue (f : GgufWireFormat) (t : GgufValueType) : ∀ v : GgufKvValue,
    Gated (writable t v) (writeKvValue t v f)
  | .array arr => by
    cases t with
    | string =>
      rw [writable_of_ne_array (by decide), writeKvValue]
      · exact writes_pure.gated
      · simp
    | array =>
      rw [writable, writeKvValue]
      exact (writes_writeU32Le _).gated.bind ((writes_writeInt _ _).gated.bind
        (gated_writeKvElements f _ arr))
    | _ =>
      rw [writeKvValue_scalar (by decide) (by decide)]
      exact gated_writeKvValueScalar (by decide) (by decide) _
  | .string s => by
    cases t with
    | string =>
      rw [writable_of_ne_array (by decide), writeKvValue]
      exact writes_text.gated
    | array =>
      rw [writable, writeKvValue]
      · exact writes_pure.gated
      · simp
      · simp
    | _ =>
      rw [writeKvValue_scalar (by decide) (by decide)]
      exact gated_writeKvValueScalar (by decide) (by decide) _
  | .uint8 _ | .int8 _ | .uint16 _ | .int16 _ | .uint32 _ | .int32 _ | .float32 _ | .uint64 _
  | .int64 _ | .bool _ | .int8Array _ | .uint8Array _ | .float64 _ | .bfloat16 _ | .float16 _ =>
    gated_writeKvValue_other (by simp) (by simp) f t

theorem gated_writeKvElements (f : GgufWireFormat) (t : GgufValueType) : ∀ arr : List GgufKvValue,
    Gated (writableElements t arr) (writeKvElements t arr f)
  | [] => by
    rw [writableElements, writeKvElements]
    exact writes_pure.gated
  | v :: vs => by
    rw [writableElements, writeKvElements]
    exact (gated_writeKvValue f t v).bind (gated_writeKvElements f t vs)

end

theorem gated_writeKvPair (f : GgufWireFormat) (kv : GgufKvPair) :
    Gated (writable kv.valueType kv.value) (writeKvPair kv f) :=
  (writes_writeInt _ _).gated.bind ((writes_writeAll _).gated.bind ((writes_writeU32Le _).gated.bind
    (gated_writeKvValue f kv.valueType kv.value)))

/-- A header is written exactly where the values are writable. -/
theorem gated_emitHeader (w : GgufWriter) :
    Gated (w.kvPairs.all fun kv => writable kv.valueType kv.value) w.emitHeader := by
  have magic : (.writeAll ggufMagic : Output Unit).Writes ggufMagic := writes_writeAll ggufMagic
  have h := magic.gated.bind ((writes_writeU32Le w.version).gated.bind
    ((writes_writeInt w.tensors.length w.wireFormat.headerCountWidth).gated.bind
      ((writes_writeInt w.kvPairs.length w.wireFormat.headerCountWidth).gated.bind
        ((gated_forM (gated_writeKvPair w.wireFormat) w.kvPairs).bind
          (writes_forM fun t (_ : t ∈ w.tensors) => writes_writeTensorInfo w.wireFormat t).gated))))
  rw [Bool.true_and, Bool.true_and, Bool.true_and, Bool.true_and, Bool.and_true] at h
  exact h

/-- A write succeeds exactly where its values are writable and its data are
those of its tensors. -/
theorem emit_ok_iff {w : GgufWriter} : (∃ file, w.emit.Emits 0 () file) ↔
    (∀ kv ∈ w.kvPairs, writable kv.valueType kv.value = true) ∧ ∀ e ∈ w.tensorData, EntryOk w e := by
  rw [← List.all_eq_true, ← (gated_emitHeader w).emits_iff 0]
  constructor
  · intro ⟨file, hfile⟩
    obtain ⟨hd, hhd, hok, -⟩ := emits_emit_iff.mp hfile
    exact ⟨⟨hd, hhd⟩, hok⟩
  · intro ⟨⟨hd, hhd⟩, hok⟩
    exact ⟨_, emits_emit_iff.mpr ⟨hd, hhd, hok, rfl⟩⟩

/-! ## What the table says -/

/-- Two tensors with one name are the same where each is the first of it. -/
theorem Spec.Placed.inj {w : GgufWriter} {t t' : GgufTensorInfo} {k : Nat} (h : Placed w t k)
    (h' : Placed w t' k) : t = t' := by
  obtain ⟨e, he, hn⟩ := h.entry
  obtain ⟨e', he', hn'⟩ := h'.entry
  obtain rfl := Option.some.inj (he.symm.trans he')
  have hfirst := h.first
  rw [← hn, hn', h'.first] at hfirst
  exact (Option.some.inj hfirst).symm

/-- What the writer checks, and what follows of a file it wrote. -/
theorem write_places_data (w : GgufWriter) (path : String) (fs : FileSystem) :
    ((w.write path fs).1 = .ok () ↔
        (∀ kv ∈ w.kvPairs, writable kv.valueType kv.value = true) ∧ ∀ e ∈ w.tensorData, EntryOk w e) ∧
      ∀ fs', w.write path fs = (.ok (), fs') → ∃ file, fs' path = some file ∧
        (∀ k e, w.tensorData[k]? = some e → entryPlace w k + e.2.length ≤ file.length ∧
          (file.drop (entryPlace w k)).take e.2.length = e.2) ∧
        (∀ k l e, k < l → w.tensorData[k]? = some e → entryPlace w k + e.2.length ≤ entryPlace w l) ∧
        (∀ t k, Placed w t k → ∃ e size, w.tensorData[k]? = some e ∧ e.1 = t.name ∧
          t.storedSize = .ok size ∧
          w.dataStart.toNat + t.offset.toNat + size.toNat ≤ file.length ∧
          (file.drop (w.dataStart.toNat + t.offset.toNat)).take size.toNat = e.2) ∧
        ∀ t t' k k', Placed w t k → Placed w t' k' → t ≠ t' →
          t.offset.toNat + storedBytes t ≤ t'.offset.toNat ∨ t'.offset.toNat + storedBytes t' ≤ t.offset.toNat := by
  refine ⟨?_, fun fs' hwrite => ?_⟩
  · rw [← emit_ok_iff]
    constructor
    · exact fun h => ⟨(w.emit 0).2, Prod.ext h rfl⟩
    · intro ⟨file, hfile⟩
      rw [write_eq_ok.mpr ⟨file, hfile, rfl⟩]
  · obtain ⟨file, hfile, rfl⟩ := write_eq_ok.mp hwrite
    have hentries := (emit_ok_iff.mp ⟨file, hfile⟩).2
    -- a placed tensor has the size of its entry
    have hsize {t : GgufTensorInfo} {k : Nat} (h : Placed w t k) : ∃ e size, w.tensorData[k]? = some e ∧
        e.1 = t.name ∧ t.storedSize = .ok size ∧ e.2.length = size.toNat := by
      obtain ⟨e, he, hn⟩ := h.entry
      obtain ⟨t', size, ht', hs, hl⟩ := hentries e (List.mem_of_getElem? he)
      rw [hn, h.first, Option.some.injEq] at ht'
      exact ⟨e, size, he, hn, ht' ▸ hs, hl⟩
    refine ⟨file, if_pos rfl, fun k e he => entry_in_file hfile he,
      fun k l e h he => entryPlace_disjoint h he, fun t k h => ?_, fun t t' k k' h h' hne => ?_⟩
    · obtain ⟨e, size, he, hn, hs, hl⟩ := hsize h
      have hin := entry_in_file hfile he
      rw [← h.offset, hl] at hin
      exact ⟨e, size, he, hn, hs, hin⟩
    · obtain ⟨e, size, he, -, hs, hl⟩ := hsize h
      obtain ⟨e', size', he', -, hs', hl'⟩ := hsize h'
      rw [storedBytes_of_ok hs, storedBytes_of_ok hs']
      have ho := h.offset
      have ho' := h'.offset
      rcases Nat.lt_trichotomy k k' with hlt | rfl | hlt
      · have := entryPlace_disjoint hlt he
        omega
      · exact absurd (h.inj h') hne
      · have := entryPlace_disjoint hlt he'
        omega

/-- The padding between them is not in the way. -/
theorem write_places_data_sample : ∃ file, (layoutWriter.write "out.gguf" fun _ => none).2 "out.gguf" = some file ∧
    (file.drop (layoutWriter.dataStart.toNat + 0)).take 2 = [1, 2] ∧
    (file.drop (layoutWriter.dataStart.toNat + 8)).take 8 = [3, 4, 5, 6, 7, 8, 9, 10] := by
  obtain ⟨file, hfile, -, -, hplaced, -⟩ :=
    (write_places_data layoutWriter "out.gguf" fun _ => none).2 _ (write_of_emit layoutWriter_emits _ _)
  obtain ⟨e, size, he, -, hs, -, hslice⟩ := hplaced ⟨"a", [2], 0, 24⟩ 0
    ⟨rfl, ⟨("a", [1, 2]), rfl, rfl⟩, by decide +kernel⟩
  obtain rfl := Option.some.inj he
  obtain rfl := Except.ok.inj hs
  obtain ⟨e', size', he', -, hs', -, hslice'⟩ := hplaced ⟨"b", [8], 8, 24⟩ 1
    ⟨rfl, ⟨("b", [3, 4, 5, 6, 7, 8, 9, 10]), rfl, rfl⟩, by decide +kernel⟩
  obtain rfl := Option.some.inj he'
  obtain rfl := Except.ok.inj hs'
  exact ⟨file, hfile, hslice, hslice'⟩

/-- Three tensors with offset 0, as the tests give theirs, the last without data. -/
def zeroOffsets : GgufWriter :=
  (((((GgufWriter.new.addTensor ⟨"a", [2], 0, 24⟩).addTensor ⟨"b", [2], 0, 24⟩).addTensor
    ⟨"c", [2], 0, 24⟩).addTensorData "a" [1, 2]).addTensorData "b" [3, 4])

/-- A tensor of the table may have no data, and the data of one that has are not
where the table says. -/
theorem write_offsets_unchecked :
    (¬ ∀ (w : GgufWriter) (path : String) (fs fs' : FileSystem), w.write path fs = (.ok (), fs') →
      ∀ t ∈ w.tensors, ∃ e ∈ w.tensorData, e.1 = t.name) ∧
    ¬ ∀ (w : GgufWriter) (path : String) (fs fs' : FileSystem), w.write path fs = (.ok (), fs') →
      ∃ file, fs' path = some file ∧ ∀ t ∈ w.tensors, ∀ e ∈ w.tensorData, e.1 = t.name →
        (file.drop (w.dataStart.toNat + t.offset.toNat)).take (storedBytes t) = e.2 := by
  have hok := write_of_emit (w := zeroOffsets) (by decide +kernel) "out.gguf" fun _ => none
  constructor
  · intro h
    obtain ⟨e, he, hname⟩ := h zeroOffsets "out.gguf" (fun _ => none) _ hok ⟨"c", [2], 0, 24⟩ (by decide)
    rcases List.mem_pair.mp he with rfl | rfl <;> exact absurd hname (by decide)
  · intro h
    obtain ⟨file, hfile, hall⟩ := h zeroOffsets "out.gguf" (fun _ => none) _ hok
    have hslice := hall ⟨"b", [2], 0, 24⟩ (by decide) ("b", [3, 4]) (by decide) rfl
    rw [write_file, Option.some.injEq] at hfile
    subst hfile
    have hwindow : ((zeroOffsets.emit 0).2.drop (zeroOffsets.dataStart.toNat + 0)).take 2 = [1, 2] := by
      decide +kernel
    exact absurd (hwindow.symm.trans hslice) (by decide)

end PestiGguf
