import PestiGguf.Proof.Placement

/-!
# What `write_kv_pair` leaves out

The writer dispatches on the declared type of a value, and on the type of an
array's first element, and writes nothing for a value of another type. So what
it emits is a complete encoding exactly where the types agree at every depth
and the lengths and counts fit their fields, or where it meets a type it
refuses (`writeKvPair_complete_iff`).
-/

namespace PestiGguf

open Codec Codec.Reader Codec.Emit Spec

namespace Spec

/-- A pair whose types agree at every depth, and whose lengths and counts fit
their fields. -/
structure WellFormed (f : GgufWireFormat) (kv : GgufKvPair) : Prop where
  key : kv.key.utf8ByteSize < limit f.keyWidth
  consistent : TypeConsistent kv
  fits : Everywhere (Fits f) kv.value

/-- A key after its length, the tag of the value, and a complete encoding of
it. -/
def KvEncoding (f : GgufWireFormat) (kv : GgufKvPair) (c : List UInt8) : Prop :=
  kv.key.utf8ByteSize < limit f.keyWidth ∧ ∃ p, Encoding f kv.valueType kv.value p ∧
    c = lenField f.keyWidth kv.key.utf8ByteSize ++ asBytes kv.key ++ (leU32.enc kv.valueType.toU32 ++ p)

/-- Whatever the writer emits for a pair encodes it, and it refuses one that has
no encoding. -/
def NeverDrops (f : GgufWireFormat) (kv : GgufKvPair) : Prop :=
  (∀ p c, (writeKvPair kv f).Emits p () c → KvEncoding f kv c) ∧
    (¬ WellFormed f kv → ∀ p, (writeKvPair kv f).Fails p)

end Spec

/-! ## Values of one type at every depth -/

/-- What is written for a value that is no array: a scalar's payload, or a
string after its length. -/
theorem emits_leaf {f : GgufWireFormat} {v : GgufKvValue} (hv : ∀ arr, v ≠ .array arr) {p : Nat}
    {c : List UInt8} (hw : (writeKvValue v.valueType v f).Emits p () c) :
    Scalar v.valueType v c ∨
      ∃ s, v = .string s ∧ c = lenField f.stringWidth s.utf8ByteSize ++ asBytes s := by
  rcases scalar_exists v with ⟨d, hd⟩ | ht
  · left
    rw [writeKvValue_scalar (by intro e; rw [e] at hd; cases hd) (by intro e; rw [e] at hd; cases hd)] at hw
    cases hh : isHalfFloat v with
    | true => exact absurd (writeKvValueScalar_fails hd hh p) hw.not_fails
    | false => exact (writes_kvValueScalar hd hh).unique hw ▸ hd.normal
  · cases v with
    | string s =>
      rw [GgufKvValue.valueType, writeKvValue] at hw
      exact .inr ⟨s, rfl, writes_text.unique hw⟩
    | array arr => exact absurd rfl (hv arr)
    | int8Array | uint8Array | bfloat16 => exact absurd hw emits_fail
    | _ => simp [GgufKvValue.valueType] at ht

theorem encodings_of_emits {f : GgufWireFormat} {t : GgufValueType} {vs : List GgufKvValue}
    (h : ∀ v ∈ vs, ∀ {p c}, (writeKvValue t v f).Emits p () c → Encoding f t v c) {p : Nat} {c : List UInt8}
    (hw : (forM vs (writeKvValue t · f)).Emits p () c) : Encodings f t vs c := by
  induction vs generalizing p c with
  | nil =>
    obtain rfl := emits_forM_nil.mp hw
    exact .nil
  | cons v vs ih =>
    obtain ⟨e, es, he, hes, rfl⟩ := emits_forM_cons.mp hw
    exact .cons (h v List.mem_cons_self he) (ih (fun u hu => h u (List.mem_cons_of_mem _ hu)) hes)

/-- Of a value of one type at every depth, everything is written. -/
theorem encoding_of_emits {f : GgufWireFormat} {v : GgufKvValue} (h1 : Everywhere OneType v)
    (hf : Everywhere (Fits f) v) {p : Nat} {c : List UInt8}
    (hw : (writeKvValue v.valueType v f).Emits p () c) : Encoding f v.valueType v c := by
  induction h1 generalizing p c with
  | leaf hv _ =>
    rcases emits_leaf hv hw with hS | ⟨s, rfl, rfl⟩
    · exact .scalar hS
    · exact .string hf.here
  | @array arr h1 _ ih =>
    obtain ⟨q, e, he, rfl⟩ := emits_array hw
    refine .array hf.here (encodings_of_emits (fun v hv _ _ hw => ?_) he)
    -- the elements have the type of the first
    rw [← h1 v hv] at hw ⊢
    exact ih v hv (hf.elements v hv) hw

/-! ## Pairs -/

theorem kvEncoding_of_emits {f : GgufWireFormat} {kv : GgufKvPair} (h : WellFormed f kv) {p : Nat}
    {c : List UInt8} (hw : (writeKvPair kv f).Emits p () c) : KvEncoding f kv c := by
  obtain ⟨q, e, he, rfl⟩ := emits_kvPair hw
  rw [h.consistent.valueType] at he
  refine ⟨h.key, e, ?_, rfl⟩
  rw [h.consistent.valueType]
  exact encoding_of_emits h.consistent.oneType h.fits he

/-- Nothing is dropped of a well-formed pair, nor of one the writer refuses
because of a type it has no encoding for; every other pair is written with Ok,
and incompletely. -/
theorem writeKvPair_complete_iff (f : GgufWireFormat) (kv : GgufKvPair) :
    NeverDrops f kv ↔ WellFormed f kv ∨ writable kv.valueType kv.value = false := by
  have hgated := gated_writeKvPair f kv
  constructor
  · intro h
    by_cases hwf : WellFormed f kv
    · exact .inl hwf
    · right
      by_contra hwr
      obtain ⟨c, hc⟩ := hgated.1 (Bool.not_eq_false _ ▸ hwr)
      exact (hc 0).not_fails (h.2 hwf 0)
  · rintro (hwf | hwr)
    · exact ⟨fun p c hw => kvEncoding_of_emits hwf hw, fun h => absurd hwf h⟩
    · exact ⟨fun p c hw => absurd (hgated.2 hwr p) hw.not_fails, fun _ => hgated.2 hwr⟩

/-- A `Uint32` declared as a string: the tag is written, and no payload. -/
theorem writeKvPair_drops : ¬ ∀ f kv, NeverDrops f kv := by
  intro h
  have hw : (writeKvPair ⟨"k", .string, .uint32 7⟩ .v3).Writes _ :=
    writes_writeKvPair (p := []) writes_pure
  have hne : ¬ WellFormed .v3 ⟨"k", .string, .uint32 7⟩ := fun hwf => nomatch hwf.consistent.valueType
  exact (hw 0).not_fails ((h .v3 ⟨"k", .string, .uint32 7⟩).2 hne 0)

end PestiGguf
