import PestiGguf.Proof.Placement
import PestiGguf.Proof.Rewrite

/-!
# What a failed write leaves

The writer creates its file before it has looked at what it is to write, and
writes nothing back on an error. So a failed write loses what the path held,
and leaves what was written before the error (`Spec.PartialFile`); rewriting
a file fails before its write without a trace, and in it, for a file without
tensors, as a write of its header does (`failed_write_iff`).
-/

namespace PestiGguf

open Codec Codec.Reader Codec.Emit Spec

namespace Spec

/-- Why the writer refuses a value declared with a type. -/
def refusal : GgufValueType → Option String
  | .bfloat16 => some "Bfloat16 array element type not yet supported in writer"
  | .float16 => some "Float16 array element type not yet supported in writer"
  | .int8Array | .uint8Array => some "Int8Array/Uint8Array not yet supported in writer"
  | _ => none

/-- What is written of a value before the writer refuses it: of an array, its
tag, its count, the elements before the refused one, and what is written of
that. -/
inductive PartialValue (f : GgufWireFormat) : GgufError → GgufValueType → GgufKvValue → List UInt8 → Prop
  | refused {t : GgufValueType} {v : GgufKvValue} {text : String} (h : refusal t = some text) :
      PartialValue f (.quantizationNotSupported text) t v []
  | array {arr us us' : List GgufKvValue} {u : GgufKvValue} {e : GgufError} {c d : List UInt8}
      (harr : arr = us ++ u :: us') (hc : (forM us (writeKvValue (elementTag arr) · f)).Writes c)
      (hd : PartialValue f e (elementTag arr) u d) :
      PartialValue f e .array (.array arr)
        (leU32.enc (elementTag arr).toU32 ++ (lenField f.arrayCountWidth arr.length ++ (c ++ d)))

/-- The same of a pair: its key and its tag are written. -/
def PartialRecord (f : GgufWireFormat) (e : GgufError) (kv : GgufKvPair) (c : List UInt8) : Prop :=
  ∃ d, PartialValue f e kv.valueType kv.value d ∧
    c = lenField f.keyWidth kv.key.utf8ByteSize ++ asBytes kv.key ++ (leU32.enc kv.valueType.toU32 ++ d)

/-- Why the data of a tensor are refused. -/
def EntryError (w : GgufWriter) (entry : String × List UInt8) (e : GgufError) : Prop :=
  ∃ t, w.tensors.find? (·.name == entry.1) = some t ∧ (t.storedSize = .error e ∨
    ∃ s, t.storedSize = .ok s ∧ entry.2.length ≠ s.toNat ∧
      e = .io s!"tensor '{entry.1}' data size mismatch: expected {s}, got {entry.2.length}")

/-- A header, and the zeros after it. -/
def PaddedHeader (w : GgufWriter) (c : List UInt8) : Prop :=
  ∃ hd, w.emitHeader.Writes hd ∧ c = hd ++ List.replicate (paddingLength w.dataStart hd.length) 0

/-- What a write that fails leaves: the records before a refused pair, the
header before data without a tensor, or the entries before one whose size is
not that of its tensor. -/
inductive PartialFile (w : GgufWriter) : GgufError → List UInt8 → Prop
  | pair {kvs kvs' : List GgufKvPair} {kv : GgufKvPair} {e : GgufError} {k d : List UInt8}
      (hkvs : w.kvPairs = kvs ++ kv :: kvs') (hk : (forM kvs (writeKvPair · w.wireFormat)).Writes k)
      (hd : PartialRecord w.wireFormat e kv d) : PartialFile w e (fixedFields w ++ (k ++ d))
  | name {es es' : List (String × List UInt8)} {entry : String × List UInt8} {c : List UInt8}
      (hc : PaddedHeader w c) (hes : w.tensorData = es ++ entry :: es')
      (hnames : ∀ e ∈ es, w.tensors.any (·.name == e.1) = true)
      (hentry : w.tensors.any (·.name == entry.1) = false) :
      PartialFile w (.io s!"tensor data '{entry.1}' has no matching tensor metadata") c
  | data {es es' : List (String × List UInt8)} {entry : String × List UInt8} {e : GgufError} {c d : List UInt8}
      (hc : PaddedHeader w c) (hnames : ∀ e ∈ w.tensorData, w.tensors.any (·.name == e.1) = true)
      (hes : w.tensorData = es ++ entry :: es') (hok : ∀ e ∈ es, EntryOk w e)
      (hd : d = pack (padBefore w) 0 c.length (es.map (·.2))) (he : EntryError w entry e) :
      PartialFile w e (c ++ (d ++ List.replicate (padBefore w (c.length + d.length)) 0))

/-- A file system after `file` was created at `path`. -/
def replaced (fs : FileSystem) (path : String) (file : List UInt8) : FileSystem :=
  fun p => if p = path then some file else fs p

end Spec

/-! ## Pairs -/

theorem failsWith_writeKvValueScalar {t : GgufValueType} (hs : t ≠ .string) (ha : t ≠ .array) {v : GgufKvValue}
    {p : Nat} {e : GgufError} {d : List UInt8} : (writeKvValueScalar t v).FailsWith p e d ↔
      ∃ text, refusal t = some text ∧ e = .quantizationNotSupported text ∧ d = [] := by
  cases t with
  | string => exact absurd rfl hs
  | array => exact absurd rfl ha
  | bfloat16 | float16 | int8Array | uint8Array =>
    rw [writeKvValueScalar]
    simp [refusal]
  | _ =>
    have h := gated_writeKvValueScalar hs ha v
    rw [writable_of_ne_array ha] at h
    obtain ⟨c, hc⟩ := h.1 rfl
    simp [refusal, hc.not_failsWith]

/-- An array fails in an element. -/
theorem failsWith_array {f : GgufWireFormat} {arr : List GgufKvValue} {p : Nat} {e : GgufError} {d : List UInt8} :
    (writeKvValue .array (.array arr) f).FailsWith p e d ↔ ∃ us u us' c d' q, arr = us ++ u :: us' ∧
      (forM us (writeKvValue (elementTag arr) · f)).Writes c ∧
      (writeKvValue (elementTag arr) u f).FailsWith q e d' ∧ q = p + 4 + f.arrayCountWidth.bytes.toNat + c.length ∧
      d = leU32.enc (elementTag arr).toU32 ++ (lenField f.arrayCountWidth arr.length ++ (c ++ d')) := by
  have htag : (arr.head?.map (·.valueType)).getD .uint32 = elementTag arr := rfl
  rw [writeKvValue, (writes_writeU32Le _ p).failsWith_bind]
  simp only [(writes_writeInt _ _ _).failsWith_bind, writeKvElements_eq, failsWith_forM, htag, leU32.length_enc,
    length_lenField]
  constructor
  · rintro ⟨_, ⟨_, ⟨us, u, us', c, d', harr, hc, hd, rfl⟩, rfl⟩, rfl⟩
    have hg := gated_writeKvElements f (elementTag arr) us
    rw [writeKvElements_eq] at hg
    exact ⟨us, u, us', c, d', _, harr, hg.writes_of_emits hc, hd, rfl, rfl⟩
  · rintro ⟨us, u, us', c, d', _, harr, hc, hd, rfl, rfl⟩
    exact ⟨_, ⟨_, ⟨us, u, us', c, d', harr, hc _, hd, rfl⟩, rfl⟩, rfl⟩

theorem failsWith_of_partialValue {f : GgufWireFormat} {e : GgufError} {t : GgufValueType} {v : GgufKvValue}
    {d : List UInt8} (h : PartialValue f e t v d) (p : Nat) : (writeKvValue t v f).FailsWith p e d := by
  induction h generalizing p with
  | @refused t v text h =>
    have hs : t ≠ .string := by
      rintro rfl
      cases h
    have ha : t ≠ .array := by
      rintro rfl
      cases h
    rw [writeKvValue_scalar hs ha, failsWith_writeKvValueScalar hs ha]
    exact ⟨text, h, rfl, rfl⟩
  | array harr hc _ ih => exact failsWith_array.mpr ⟨_, _, _, _, _, _, harr, hc, ih _, rfl, rfl⟩

theorem partialValue_of_failsWith {f : GgufWireFormat} {e : GgufError} {t : GgufValueType} {v : GgufKvValue}
    {d : List UInt8} {p : Nat} (h : (writeKvValue t v f).FailsWith p e d) : PartialValue f e t v d := by
  have hg := gated_writeKvValue f t v
  by_cases ha : t = .array
  · subst ha
    cases hv : v with
    | array arr =>
      subst hv
      obtain ⟨us, u, us', c, d', q, harr, hc, hd, -, rfl⟩ := failsWith_array.mp h
      have hmem : u ∈ arr := by simp [harr]
      exact .array harr hc (partialValue_of_failsWith hd)
    | _ =>
      subst hv
      exact absurd h (hg.not_failsWith (by simp [writable]))
  · by_cases hs : t = .string
    · subst hs
      rw [writable_of_ne_array ha] at hg
      exact absurd h (hg.not_failsWith rfl)
    · rw [writeKvValue_scalar hs ha, failsWith_writeKvValueScalar hs ha] at h
      obtain ⟨text, ht, rfl, rfl⟩ := h
      exact .refused ht
termination_by sizeOf v
decreasing_by
  have := List.sizeOf_lt_of_mem hmem
  subst hv
  simp only [GgufKvValue.array.sizeOf_spec]
  omega

/-- A pair fails in its value. -/
theorem failsWith_writeKvPair {f : GgufWireFormat} {kv : GgufKvPair} {p : Nat} {e : GgufError} {d : List UInt8} :
    (writeKvPair kv f).FailsWith p e d ↔ PartialRecord f e kv d := by
  rw [writeKvPair]
  simp only [(writes_writeInt _ _ _).failsWith_bind, (writes_writeAll _ _).failsWith_bind,
    (writes_writeU32Le _ _).failsWith_bind]
  constructor
  · rintro ⟨_, ⟨_, ⟨d, hd, rfl⟩, rfl⟩, rfl⟩
    exact ⟨d, partialValue_of_failsWith hd, by simp only [List.append_assoc, length_asBytes]⟩
  · rintro ⟨d, hd, rfl⟩
    exact ⟨_, ⟨_, ⟨d, failsWith_of_partialValue hd _, rfl⟩, rfl⟩, by simp only [List.append_assoc, length_asBytes]⟩

/-- A header fails in a pair: the fields before the pairs, and what describes
the tensors, cannot fail. -/
theorem failsWith_emitHeader {w : GgufWriter} {p : Nat} {e : GgufError} {o : List UInt8} :
    w.emitHeader.FailsWith p e o ↔ ∃ kvs kv kvs' k d, w.kvPairs = kvs ++ kv :: kvs' ∧
      (forM kvs (writeKvPair · w.wireFormat)).Writes k ∧ PartialRecord w.wireFormat e kv d ∧
      o = fixedFields w ++ (k ++ d) := by
  have tensors (q : Nat) (o : List UInt8) : ¬ (forM w.tensors (writeTensorInfo · w.wireFormat)).FailsWith q e o :=
    (writes_forM fun t _ => writes_writeTensorInfo w.wireFormat t).not_failsWith
  rw [GgufWriter.emitHeader]
  simp only [(writes_writeAll _ _).failsWith_bind, (writes_writeU32Le _ _).failsWith_bind,
    (writes_writeInt _ _ _).failsWith_bind, failsWith_bind_left fun _ => tensors, failsWith_forM,
    failsWith_writeKvPair]
  constructor
  · rintro ⟨_, ⟨_, ⟨_, ⟨_, ⟨kvs, kv, kvs', k, d, hkvs, hk, hd, rfl⟩, rfl⟩, rfl⟩, rfl⟩, rfl⟩
    exact ⟨kvs, kv, kvs', k, d, hkvs, (gated_forM (gated_writeKvPair _) kvs).writes_of_emits hk, hd,
      by simp only [fixedFields, List.append_assoc]⟩
  · rintro ⟨kvs, kv, kvs', k, d, hkvs, hk, hd, rfl⟩
    exact ⟨_, ⟨_, ⟨_, ⟨_, ⟨kvs, kv, kvs', k, d, hkvs, hk _, hd, rfl⟩, rfl⟩, rfl⟩, rfl⟩,
      by simp only [fixedFields, List.append_assoc]⟩

/-! ## Tensor data -/

theorem failsWith_checkName {w : GgufWriter} {entry : String × List UInt8} {p : Nat} {e : GgufError}
    {o : List UInt8} : (w.checkName entry).FailsWith p e o ↔ w.tensors.any (·.name == entry.1) = false ∧
      e = .io s!"tensor data '{entry.1}' has no matching tensor metadata" ∧ o = [] := by
  rw [GgufWriter.checkName]
  by_cases h : w.tensors.any (·.name == entry.1) = true
  · rw [if_pos h]
    simp [h]
  · rw [if_neg h]
    simp [h]

/-- The check of an entry's size. -/
theorem failsWith_sizeCheck {w : GgufWriter} {entry : String × List UInt8} {t : GgufTensorInfo}
    (ht : w.tensors.find? (·.name == entry.1) = some t) {p : Nat} {e : GgufError} {o : List UInt8} : (do
      let expectedSize ← .ofExcept t.storedSize
      if entry.2.length ≠ expectedSize.toNat then
        .fail (.io s!"tensor '{entry.1}' data size mismatch: expected {expectedSize}, got {entry.2.length}")
      else
        .writeAll entry.2 : Output Unit).FailsWith p e o ↔ EntryError w entry e ∧ o = [] := by
  have only {P : GgufTensorInfo → Prop} : (∃ t', w.tensors.find? (·.name == entry.1) = some t' ∧ P t') ↔ P t := by
    simp [ht]
  rw [EntryError, only, failsWith_bind]
  simp only [failsWith_ofExcept, emits_ofExcept]
  constructor
  · rintro (⟨hs, rfl⟩ | ⟨s, _, _, ⟨hs, rfl⟩, h, rfl⟩)
    · exact ⟨.inl hs, rfl⟩
    · by_cases hl : entry.2.length = s.toNat
      · rw [if_neg (not_not.mpr hl)] at h
        exact absurd h (writes_writeAll _).not_failsWith
      · rw [if_pos hl, failsWith_fail] at h
        obtain ⟨rfl, rfl⟩ := h
        exact ⟨.inr ⟨s, hs, hl, rfl⟩, rfl⟩
  · rintro ⟨hs | ⟨s, hs, hl, rfl⟩, rfl⟩
    · exact .inl ⟨hs, rfl⟩
    · refine .inr ⟨s, [], [], ⟨hs, rfl⟩, ?_, rfl⟩
      rw [if_pos hl, failsWith_fail]
      exact ⟨rfl, rfl⟩

theorem failsWith_writeTensorData {w : GgufWriter} {entry : String × List UInt8}
    (hname : w.tensors.any (·.name == entry.1) = true) {p : Nat} {e : GgufError} {o : List UInt8} :
    (w.writeTensorData entry).FailsWith p e o ↔
      EntryError w entry e ∧ o = List.replicate (padBefore w p) 0 := by
  obtain ⟨t, ht⟩ : ∃ t, w.tensors.find? (·.name == entry.1) = some t := by
    rwa [← Option.isSome_iff_exists, List.find?_isSome, ← List.any_eq_true]
  have hpad := emits_padTo (GgufWriter.alignUp (UInt64.ofNat p) w.alignment) p
  rw [GgufWriter.writeTensorData, (emits_streamPosition p).failsWith_bind, List.length_nil, Nat.add_zero]
  simp only [hpad.failsWith_bind, ht, failsWith_sizeCheck ht]
  constructor
  · rintro ⟨_, ⟨_, ⟨he, rfl⟩, rfl⟩, rfl⟩
    exact ⟨he, List.append_nil _⟩
  · rintro ⟨he, rfl⟩
    exact ⟨_, ⟨[], ⟨he, rfl⟩, rfl⟩, (List.append_nil _).symm⟩

theorem failsWith_checkNames {w : GgufWriter} {entries : List (String × List UInt8)} {p : Nat} {e : GgufError}
    {o : List UInt8} : (forM entries w.checkName).FailsWith p e o ↔ ∃ es entry es', entries = es ++ entry :: es' ∧
      (∀ e ∈ es, w.tensors.any (·.name == e.1) = true) ∧ w.tensors.any (·.name == entry.1) = false ∧
      e = .io s!"tensor data '{entry.1}' has no matching tensor metadata" ∧ o = [] := by
  simp only [failsWith_forM, emits_checkNames_iff, failsWith_checkName]
  constructor
  · rintro ⟨es, entry, es', _, _, hes, ⟨hn, rfl⟩, ⟨hentry, he, rfl⟩, rfl⟩
    exact ⟨es, entry, es', hes, hn, hentry, he, rfl⟩
  · rintro ⟨es, entry, es', hes, hn, hentry, he, rfl⟩
    exact ⟨es, entry, es', [], [], hes, ⟨hn, rfl⟩, ⟨hentry, he, rfl⟩, rfl⟩

theorem failsWith_tensorData {w : GgufWriter} {entries : List (String × List UInt8)}
    (hname : ∀ e ∈ entries, w.tensors.any (·.name == e.1) = true) {p : Nat} {e : GgufError} {o : List UInt8} :
    (forM entries w.writeTensorData).FailsWith p e o ↔ ∃ es entry es' d, entries = es ++ entry :: es' ∧
      (∀ e ∈ es, EntryOk w e) ∧ d = pack (padBefore w) 0 p (es.map (·.2)) ∧ EntryError w entry e ∧
      o = d ++ List.replicate (padBefore w (p + d.length)) 0 := by
  rw [failsWith_forM]
  constructor
  · rintro ⟨es, entry, es', d, _, rfl, hd, hentry, rfl⟩
    obtain ⟨hok, rfl⟩ := (emits_tensorData_iff fun e he => hname e (List.mem_append_left _ he)).mp hd
    obtain ⟨he, rfl⟩ := (failsWith_writeTensorData (hname entry (by simp))).mp hentry
    exact ⟨es, entry, es', _, rfl, hok, rfl, he, rfl⟩
  · rintro ⟨es, entry, es', d, rfl, hok, rfl, he, rfl⟩
    exact ⟨es, entry, es', _, _, rfl,
      (emits_tensorData_iff fun e he => hname e (List.mem_append_left _ he)).mpr ⟨hok, rfl⟩,
      (failsWith_writeTensorData (hname entry (by simp))).mpr ⟨he, rfl⟩, rfl⟩

/-! ## Files -/

/-- After a padded header, the data fail. -/
theorem failsWith_data {w : GgufWriter} {p : Nat} {e : GgufError} {o : List UInt8} : (do
      forM w.tensorData w.checkName
      forM w.tensorData w.writeTensorData : Output Unit).FailsWith p e o ↔
    (forM w.tensorData w.checkName).FailsWith p e o ∨
      (∀ e ∈ w.tensorData, w.tensors.any (·.name == e.1) = true) ∧
        (forM w.tensorData w.writeTensorData).FailsWith p e o := by
  rw [failsWith_bind]
  constructor
  · rintro (h | ⟨_, _, o, hchecks, h, rfl⟩)
    · exact .inl h
    · obtain ⟨hn, rfl⟩ := emits_checkNames_iff.mp hchecks
      exact .inr ⟨hn, h⟩
  · rintro (h | ⟨hn, h⟩)
    · exact .inl h
    · exact .inr ⟨(), [], o, emits_checkNames_iff.mpr ⟨hn, rfl⟩, h, rfl⟩

/-- A write fails in its header, or after it and its padding. -/
theorem failsWith_emit {w : GgufWriter} {e : GgufError} {file : List UInt8} : w.emit.FailsWith 0 e file ↔
    w.emitHeader.FailsWith 0 e file ∨ ∃ c r, PaddedHeader w c ∧ (do
      forM w.tensorData w.checkName
      forM w.tensorData w.writeTensorData : Output Unit).FailsWith c.length e r ∧ file = c ++ r := by
  rw [GgufWriter.emit, failsWith_bind]
  constructor
  · rintro (h | ⟨_, hd, _, hhd, h, rfl⟩)
    · exact .inl h
    · rw [Nat.zero_add, (emits_padTo _ _).failsWith_bind, ← List.length_append] at h
      obtain ⟨r, h, rfl⟩ := h
      exact .inr ⟨_, r, ⟨hd, (gated_emitHeader w).writes_of_emits hhd, rfl⟩, h, (List.append_assoc ..).symm⟩
  · rintro (h | ⟨_, r, ⟨hd, hhd, rfl⟩, h, rfl⟩)
    · exact .inl h
    · refine .inr ⟨(), hd, _, hhd 0, ?_, List.append_assoc ..⟩
      rw [Nat.zero_add, (emits_padTo _ _).failsWith_bind, ← List.length_append]
      exact ⟨r, h, rfl⟩

/-- A write fails with an error exactly where it leaves such a file. -/
theorem failsWith_iff_partialFile {w : GgufWriter} {e : GgufError} {file : List UInt8} :
    w.emit.FailsWith 0 e file ↔ PartialFile w e file := by
  rw [failsWith_emit, failsWith_emitHeader]
  constructor
  · rintro (⟨kvs, kv, kvs', k, d, hkvs, hk, hd, rfl⟩ | ⟨c, r, hc, h, rfl⟩)
    · exact .pair hkvs hk hd
    · rcases failsWith_data.mp h with h | ⟨hn, h⟩
      · obtain ⟨es, entry, es', hes, hn, hentry, rfl, rfl⟩ := failsWith_checkNames.mp h
        rw [List.append_nil]
        exact .name hc hes hn hentry
      · obtain ⟨es, entry, es', d, hes, hok, hpack, he, rfl⟩ := (failsWith_tensorData hn).mp h
        exact .data hc hn hes hok hpack he
  · intro h
    cases h with
    | pair hkvs hk hd => exact .inl ⟨_, _, _, _, _, hkvs, hk, hd, rfl⟩
    | name hc hes hn hentry =>
      exact .inr ⟨_, [], hc, failsWith_data.mpr (.inl (failsWith_checkNames.mpr
        ⟨_, _, _, hes, hn, hentry, rfl, rfl⟩)), (List.append_nil _).symm⟩
    | data hc hn hes hok hpack he =>
      exact .inr ⟨_, _, hc, failsWith_data.mpr (.inr ⟨hn, (failsWith_tensorData hn).mpr
        ⟨_, _, _, _, hes, hok, hpack, he, rfl⟩⟩), rfl⟩

theorem write_eq_error {w : GgufWriter} {path : String} {fs fs' : FileSystem} {e : GgufError} :
    w.write path fs = (.error e, fs') ↔ ∃ file, PartialFile w e file ∧ fs' = replaced fs path file := by
  simp only [← failsWith_iff_partialFile, FailsWith, GgufWriter.write, Prod.mk.injEq]
  constructor
  · rintro ⟨h, rfl⟩
    exact ⟨_, Prod.ext h rfl, rfl⟩
  · rintro ⟨file, h, rfl⟩
    rw [h]
    exact ⟨rfl, rfl⟩

/-! ## Rewriting -/

/-- Rewriting changes at most its output. -/
theorem parseAndRewrite_frame {fs fs' : FileSystem} {inputPath path p : String} {e : GgufError}
    (h : parseAndRewrite inputPath path fs = (.error e, fs')) (hp : p ≠ path) : fs' p = fs p := by
  rcases rewrite_cases fs inputPath with ⟨e', hs⟩ | ⟨hd, data, hw⟩
  · rw [parseAndRewrite_stops hs, Prod.mk.injEq] at h
    rw [h.2]
  · rw [parseAndRewrite_writes hw, write_eq_error] at h
    obtain ⟨file, -, rfl⟩ := h
    exact if_neg hp

/-- A file without tensors fails to be rewritten as its header fails to be written. -/
theorem parseAndRewrite_eq_error {fs fs' : FileSystem} {inputPath path : String} {e : GgufError} {h : GgufHeader}
    (hp : parseGguf fs inputPath = .ok h) (hnil : h.tensors = []) :
    parseAndRewrite inputPath path fs = (.error e, fs') ↔ RewriteStops fs inputPath e ∧ fs' = fs ∨
      h.dataSectionStart.toNat < 2 ^ 63 ∧ ∃ file, PartialFile (writerOf h) e file ∧
        fs' = replaced fs path file := by
  constructor
  · intro herr
    rcases rewrite_cases fs inputPath with ⟨e', hs⟩ | ⟨h', data, hw⟩
    · rw [parseAndRewrite_stops hs, Prod.mk.injEq, Except.error.injEq] at herr
      obtain ⟨rfl, rfl⟩ := herr
      exact .inl ⟨hs, rfl⟩
    · obtain ⟨_, hp', -, hstart, -⟩ := hw
      obtain rfl := Except.ok.inj (hp.symm.trans hp')
      rw [parseAndRewrite_eq hp hnil hstart, write_eq_error] at herr
      exact .inr ⟨hstart, herr⟩
  · rintro (⟨hs, rfl⟩ | ⟨hstart, hf⟩)
    · exact parseAndRewrite_stops hs path
    · rw [parseAndRewrite_eq hp hnil hstart]
      exact write_eq_error.mpr hf

/-- A write that fails has replaced its file by what was written before the
error, and changed no other. Rewriting that stops before its write changes
nothing, and no rewriting changes a path that is not its output; of a file
without tensors it fails as a write of the header does. -/
theorem failed_write_iff (fs fs' : FileSystem) (path : String) (e : GgufError) :
    (∀ w : GgufWriter, w.write path fs = (.error e, fs') ↔
        ∃ file, PartialFile w e file ∧ fs' = replaced fs path file) ∧
      (∀ inputPath, RewriteStops fs inputPath e → parseAndRewrite inputPath path fs = (.error e, fs)) ∧
      (∀ inputPath, parseAndRewrite inputPath path fs = (.error e, fs') → ∀ p ≠ path, fs' p = fs p) ∧
      ∀ inputPath h, parseGguf fs inputPath = .ok h → h.tensors = [] →
        (parseAndRewrite inputPath path fs = (.error e, fs') ↔ RewriteStops fs inputPath e ∧ fs' = fs ∨
          h.dataSectionStart.toNat < 2 ^ 63 ∧ ∃ file, PartialFile (writerOf h) e file ∧
            fs' = replaced fs path file) :=
  ⟨fun _ => write_eq_error, fun _ hs => parseAndRewrite_stops hs path,
    fun _ h _ hp => parseAndRewrite_frame h hp, fun _ _ hp hnil => parseAndRewrite_eq_error hp hnil⟩

/-- A file with a `Float16` pair, which the writer refuses, and no tensor. -/
def halfFile : List UInt8 := preamble .v3 0 1 ++ (leU64.enc 1 ++ [0x6B] ++ (leU32.enc 16 ++ [0x00, 0x3C]))

/-- Its header. -/
def halfHeader : GgufHeader := headerOf .v3 [⟨"k", .float16, .float16 0x3C00⟩] []

theorem halfFile_parse : parseGguf (singleFile "in.gguf" halfFile) "in.gguf" = .ok halfHeader := rfl

/-- Rewritten in place, the file ends before the value. -/
theorem failed_write_sample : parseAndRewrite "in.gguf" "in.gguf" (singleFile "in.gguf" halfFile) =
    (.error (.quantizationNotSupported "Float16 array element type not yet supported in writer"),
      replaced (singleFile "in.gguf" halfFile) "in.gguf" (halfFile.take 37)) := by
  refine ((failed_write_iff _ _ "in.gguf" _).2.2.2 "in.gguf" halfHeader halfFile_parse rfl).mpr
    (.inr ⟨by decide +kernel, _, ?_, rfl⟩)
  have hkvs : (writerOf halfHeader).kvPairs = [] ++ ⟨"k", .float16, .float16 0x3C00⟩ :: [] := rfl
  have hpair : PartialRecord .v3 (.quantizationNotSupported "Float16 array element type not yet supported in writer")
      ⟨"k", .float16, .float16 0x3C00⟩ (leU64.enc 1 ++ [0x6B] ++ (leU32.enc 16 ++ [])) :=
    ⟨[], .refused rfl, rfl⟩
  exact .pair hkvs (fun _ => rfl) hpair

/-- Data without a tensor leave a file where there was none, and a file with a
`Float16` pair, rewritten in place, is destroyed. -/
theorem failed_write_destroys :
    (¬ ∀ (w : GgufWriter) (path : String) (fs fs' : FileSystem) (e : GgufError),
        w.write path fs = (.error e, fs') → fs' path = fs path) ∧
      ¬ ∀ (inputPath path : String) (fs fs' : FileSystem) (e : GgufError),
        parseAndRewrite inputPath path fs = (.error e, fs') → fs' path = fs path := by
  constructor
  · intro h
    have hkept := h { GgufWriter.new with tensorData := [("t", [1, 2])] } "out.gguf" (fun _ => none) _ _ rfl
    cases hkept
  · intro h
    have hrun : parseAndRewrite "in.gguf" "in.gguf" (singleFile "in.gguf" halfFile) =
        (writerOf halfHeader).write "in.gguf" (singleFile "in.gguf" halfFile) :=
      parseAndRewrite_eq halfFile_parse rfl (by decide +kernel)
    have hlost := h "in.gguf" "in.gguf" (singleFile "in.gguf" halfFile) _ _ hrun
    revert hlost
    decide +kernel

end PestiGguf
