import PestiGguf.Proof.ReadBack
import PestiGguf.Proof.Size

/-!
# Scalars and elements of arrays

The parser decodes the scalar types in two places: as a KV pair's value, and as
an element of an array. The two agree on every type but `Float64`, which is
read as a value and refused as an element (`readKvArrayElement_agrees_iff`).
-/

namespace PestiGguf

open Codec Codec.Reader Spec

/-- Strings apart, an element's payload is a scalar's, if it is not a
`Float64`. -/
theorem element_iff_scalar {w : IntWidth} {t : GgufValueType} (hs : t ≠ .string) {v : GgufKvValue}
    {c : List UInt8} : Element w t v c ↔ t ≠ .float64 ∧ Scalar t v c := by
  constructor
  · intro h
    cases h with
    | scalar ht h => exact ⟨ht, h⟩
    | string _ => exact absurd rfl hs
  · exact fun h => .scalar h.1 h.2

theorem many_element_iff {w : IntWidth} {t : GgufValueType} (hs : t ≠ .string) {vs : List GgufKvValue}
    {c : List UInt8} : Many (Element w t) vs c ↔ (t = .float64 → vs = []) ∧ Many (Scalar t) vs c := by
  constructor
  · intro h
    induction h with
    | nil => exact ⟨fun _ => rfl, .nil⟩
    | cons hR _ ih =>
      obtain ⟨ht, hS⟩ := (element_iff_scalar hs).mp hR
      exact ⟨fun e => absurd e ht, .cons hS ih.2⟩
  · intro ⟨ht, h⟩
    induction h with
    | nil => exact .nil
    | cons hS _ ih =>
      have ht' : t ≠ .float64 := fun e => by cases ht e
      exact .cons ((element_iff_scalar hs).mpr ⟨ht', hS⟩) (ih fun e => absurd e ht')

/-! ## Payloads of `Float64` -/

theorem length_scalars {t : GgufValueType} {vs : List GgufKvValue} {c : List UInt8}
    (h : Many (Scalar t) vs c) : c.length = vs.length * scalarWidth t := by
  induction h with
  | nil => rw [List.length_nil, List.length_nil, Nat.zero_mul]
  | cons hS _ ih => rw [List.length_append, ih, length_scalar hS, List.length_cons, Nat.succ_mul, Nat.add_comm]

/-- Any 8 bytes are a `Float64`. -/
theorem float64_exists (b : List UInt8) :
    (∃ v c r, b = c ++ r ∧ Scalar .float64 v c) ↔ 8 ≤ b.length := by
  constructor
  · rintro ⟨v, c, r, rfl, h⟩
    rw [List.length_append, length_scalar h]
    exact Nat.le_add_right ..
  · intro h
    have hS := Scalar.float64 (leU64.dec (b.take 8))
    have he : leU64.enc (leU64.dec (b.take 8)) = b.take 8 := leU64.enc_dec _ (List.length_take_of_le h)
    rw [he] at hS
    exact ⟨_, _, b.drop 8, (List.take_append_drop 8 b).symm, hS⟩

theorem float64s_exist (n : Nat) (b : List UInt8) :
    (∃ vs c r, b = c ++ r ∧ vs.length = n ∧ Many (Scalar .float64) vs c) ↔ 8 * n ≤ b.length := by
  constructor
  · rintro ⟨vs, c, r, rfl, rfl, h⟩
    have hc : c.length = vs.length * 8 := length_scalars h
    rw [List.length_append]
    omega
  · intro h
    induction n generalizing b with
    | zero => exact ⟨[], [], b, rfl, rfl, .nil⟩
    | succ n ih =>
      obtain ⟨v, c, r, rfl, hS⟩ := (float64_exists b).mpr (by omega)
      rw [List.length_append, length_scalar hS, scalarWidth] at h
      obtain ⟨vs, cs, r', rfl, rfl, hM⟩ := ih r (by omega)
      exact ⟨v :: vs, c ++ cs, r', (List.append_assoc ..).symm, rfl, .cons hS hM⟩

/-! ## Agreement -/

/-- An array, read after its tag and count. -/
theorem returns_array {t : GgufValueType} {sw cw : IntWidth} {n : Nat} (hn : n < limit cw) {b r : List UInt8}
    {vs : List GgufKvValue} :
    (readKvValueGeneric .array sw cw).Returns (leU32.enc t.toU32 ++ (lenField cw n ++ b)) (.array vs) r ↔
      ∃ c, b = c ++ r ∧ vs.length = n ∧ Many (Element sw t) vs c := by
  -- the format of these widths
  rw [recognises_readKvValueGeneric .array ⟨.u32, .u32, sw, cw, .u32⟩]
  constructor
  · rintro ⟨p, hp, h⟩
    cases h with
    | scalar h => cases h
    | @array tag arr c hl h =>
      simp only [List.append_assoc] at hp
      obtain ⟨htag, hcount⟩ := leU32.enc_append_inj.mp hp
      obtain rfl := toU32_inj htag
      obtain ⟨rfl, rfl⟩ := lenField_append_inj hn hl hcount
      exact ⟨c, rfl, rfl, h⟩
  · rintro ⟨c, rfl, rfl, h⟩
    exact ⟨_, by simp only [List.append_assoc], .array t hn h⟩

/-- A decoder that returns only some of what another does agrees with it on an
input where the other returns no more. -/
theorem agrees_iff {α : Type} {P : α → List UInt8 → Prop} {Q : α → Prop} {b : List UInt8} :
    (∀ a r, (∃ c, b = c ++ r ∧ Q a ∧ P a c) ↔ ∃ c, b = c ++ r ∧ P a c) ↔
      ∀ a, (∃ c r, b = c ++ r ∧ P a c) → Q a := by
  constructor
  · rintro h a ⟨c, r, hb, hP⟩
    obtain ⟨_, _, hQ, _⟩ := (h a r).mpr ⟨c, hb, hP⟩
    exact hQ
  · intro h a r
    constructor
    · exact fun ⟨c, hb, _, hP⟩ => ⟨c, hb, hP⟩
    · exact fun ⟨c, hb, hP⟩ => ⟨c, hb, h a ⟨c, r, hb, hP⟩, hP⟩

/-- The two decoders return the same, and leave the same input, but for a
`Float64`: an element of this type is refused where 8 bytes are left. So is an
array of them, if it is not empty and all are there. -/
theorem readKvArrayElement_agrees_iff (t : GgufValueType) (hs : t ≠ .string) :
    (∀ raw w b, (∀ v r, (readKvArrayElement t raw w).Returns b v r ↔ (readKvScalar t).Returns b v r) ↔
        (t = .float64 → b.length < 8)) ∧
      ∀ sw cw n b, n < limit cw → ((∀ vs r,
          (readKvValueGeneric .array sw cw).Returns (leU32.enc t.toU32 ++ (lenField cw n ++ b)) (.array vs) r ↔
            ((readKvScalar t).many n).Returns b vs r) ↔
        (t = .float64 → n = 0 ∨ b.length < 8 * n)) := by
  refine ⟨fun raw w b => ?_, fun sw cw n b hn => ?_⟩
  · simp only [recognises_readKvArrayElement t raw w b, recognises_readKvScalar t b, element_iff_scalar hs,
      agrees_iff]
    constructor
    · rintro h rfl
      by_contra hb
      obtain ⟨v, c, r, hb, hS⟩ := (float64_exists b).mpr (Nat.le_of_not_lt hb)
      exact h v ⟨c, r, hb, hS⟩ rfl
    · rintro h v hv rfl
      exact Nat.not_le_of_lt (h rfl) ((float64_exists b).mp ⟨v, hv⟩)
  · have elements {vs : List GgufKvValue} {c : List UInt8} : vs.length = n ∧ Many (Element sw t) vs c ↔
        (t = .float64 → n = 0) ∧ vs.length = n ∧ Many (Scalar t) vs c := by
      rw [many_element_iff hs, ← List.length_eq_zero_iff, and_left_comm]
      exact ⟨fun ⟨ht, hl, h⟩ => ⟨hl ▸ ht, hl, h⟩, fun ⟨ht, hl, h⟩ => ⟨hl ▸ ht, hl, h⟩⟩
    simp only [returns_array hn, (recognises_readKvScalar t).many n b, elements, agrees_iff]
    constructor
    · rintro h rfl
      by_contra! hb
      obtain ⟨vs, c, r, hvs⟩ := (float64s_exist n b).mpr hb.2
      exact hb.1 (h vs ⟨c, r, hvs⟩ rfl)
    · rintro h vs hvs rfl
      rcases h rfl with h0 | hlt
      · exact h0
      · exact absurd ((float64s_exist n b).mp ⟨vs, hvs⟩) (Nat.not_le_of_lt hlt)

theorem readKvArrayElement_agrees_uint16 :
    (∀ v r, (readKvArrayElement .uint16 2 .u64).Returns [1, 2, 3] v r ↔ (readKvScalar .uint16).Returns [1, 2, 3] v r) ∧
      ∀ vs r, (readKvValueGeneric .array .u64 .u32).Returns
          (leU32.enc GgufValueType.uint16.toU32 ++ (lenField .u32 1 ++ [1, 2, 3])) (.array vs) r ↔
        ((readKvScalar .uint16).many 1).Returns [1, 2, 3] vs r := by
  have h := readKvArrayElement_agrees_iff .uint16 (by decide)
  exact ⟨(h.1 2 .u64 [1, 2, 3]).mpr nofun, (h.2 .u64 .u32 1 [1, 2, 3] (by decide)).mpr nofun⟩

/-- A `Float64` is no element. -/
theorem readKvArrayElement_float64 : ¬ ∀ (t : GgufValueType) (raw : UInt32) (w : IntWidth) (b : List UInt8),
    t ≠ .string → t ≠ .array →
      ∀ v r, (readKvArrayElement t raw w).Returns b v r ↔ (readKvScalar t).Returns b v r := by
  intro h
  have hread : (readKvScalar .float64).Returns (leU64.enc 0) (.float64 0) [] :=
    (recognises_readKvScalar .float64 _ _ _).mpr ⟨_, (List.append_nil _).symm, .float64 0⟩
  exact returns_fail ((h .float64 12 .u64 _ (by decide) (by decide) _ _).mpr hread)

end PestiGguf
