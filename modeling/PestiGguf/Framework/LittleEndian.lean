import Mathlib.Algebra.Order.Ring.Nat
import Mathlib.Tactic.Ring

/-!
# Fixed-width encodings

A `FixedWidth σ α` encodes every value of `α` in the same number of symbols,
and every string of that many symbols is the encoding of one value. The
little-endian encodings of the machine integers are instances (`leU16`,
`leU32`, `leU64`), from the encoding of a natural number in `w` bytes
(`toLE`, `ofLE`).
-/

namespace Codec

/-- An encoding in exactly `width` symbols, onto all strings of that length. -/
structure FixedWidth (σ α : Type) where
  width : Nat
  enc : α → List σ
  dec : List σ → α
  length_enc (a : α) : (enc a).length = width
  dec_enc (a : α) : dec (enc a) = a
  enc_dec (bs : List σ) : bs.length = width → enc (dec bs) = bs

namespace FixedWidth

variable {σ α : Type}

attribute [simp] length_enc dec_enc

theorem enc_inj (F : FixedWidth σ α) {a b : α} : F.enc a = F.enc b ↔ a = b :=
  ⟨fun h => by rw [← F.dec_enc a, h, F.dec_enc], fun h => h ▸ rfl⟩

/-- Two encodings followed by anything: the values agree, and so does what
follows. -/
theorem enc_append_inj (F : FixedWidth σ α) {a b : α} {s t : List σ} :
    F.enc a ++ s = F.enc b ++ t ↔ a = b ∧ s = t := by
  refine ⟨fun h => ?_, fun h => by rw [h.1, h.2]⟩
  obtain ⟨h₁, h₂⟩ := List.append_inj h (by simp)
  exact ⟨F.enc_inj.mp h₁, h₂⟩

end FixedWidth

/-! ## Little-endian numbers -/

/-- The `w` little-endian bytes of `n`; higher bytes are dropped. -/
def toLE : Nat → Nat → List UInt8
  | 0, _ => []
  | w + 1, n => UInt8.ofNat n :: toLE w (n / 256)

/-- The number whose little-endian bytes are given. -/
def ofLE : List UInt8 → Nat
  | [] => 0
  | b :: bs => ofLE bs * 256 + b.toNat

@[simp] theorem length_toLE (w n : Nat) : (toLE w n).length = w := by
  induction w generalizing n with
  | zero => rfl
  | succ w ih => rw [toLE, List.length_cons, ih]

theorem ofLE_lt : ∀ bs : List UInt8, ofLE bs < 256 ^ bs.length
  | [] => Nat.one_pos
  | b :: bs => by
    have hb : b.toNat < 256 := b.toNat_lt
    have ih := ofLE_lt bs
    rw [ofLE, List.length_cons, Nat.pow_succ]
    omega

theorem ofLE_toLE {w n : Nat} (h : n < 256 ^ w) : ofLE (toLE w n) = n := by
  induction w generalizing n with
  | zero => rw [Nat.pow_zero] at h; rw [toLE, ofLE]; omega
  | succ w ih =>
    rw [Nat.pow_succ, Nat.mul_comm] at h
    rw [toLE, ofLE, ih (Nat.div_lt_of_lt_mul h), UInt8.toNat_ofNat']
    exact Nat.div_add_mod' n 256

theorem toLE_ofLE : ∀ bs : List UInt8, toLE bs.length (ofLE bs) = bs
  | [] => rfl
  | b :: bs => by
    have hb : b.toNat < 256 := b.toNat_lt
    rw [List.length_cons, toLE, ofLE, show (ofLE bs * 256 + b.toNat) / 256 = ofLE bs by omega,
      toLE_ofLE bs]
    congr 1
    apply UInt8.toNat_inj.mp
    rw [UInt8.toNat_ofNat']
    omega

/-! ## Machine integers -/

/-- A `u8`. -/
def byte : FixedWidth UInt8 UInt8 where
  width := 1
  enc v := [v]
  dec bs := bs.headD 0
  length_enc _ := rfl
  dec_enc _ := rfl
  enc_dec bs h := by
    obtain ⟨b, rfl⟩ := List.length_eq_one_iff.mp h
    rfl

/-- A little-endian `u16`. -/
def leU16 : FixedWidth UInt8 UInt16 where
  width := 2
  enc v := toLE 2 v.toNat
  dec bs := UInt16.ofNat (ofLE bs)
  length_enc _ := length_toLE ..
  dec_enc v := by rw [ofLE_toLE v.toNat_lt, UInt16.ofNat_toNat]
  enc_dec bs h := by
    have hb : ofLE bs < 2 ^ 16 := by simpa [h] using ofLE_lt bs
    rw [UInt16.toNat_ofNat_of_lt' hb, ← h, toLE_ofLE]

/-- A little-endian `u32`. -/
def leU32 : FixedWidth UInt8 UInt32 where
  width := 4
  enc v := toLE 4 v.toNat
  dec bs := UInt32.ofNat (ofLE bs)
  length_enc _ := length_toLE ..
  dec_enc v := by rw [ofLE_toLE v.toNat_lt, UInt32.ofNat_toNat]
  enc_dec bs h := by
    have hb : ofLE bs < 2 ^ 32 := by simpa [h] using ofLE_lt bs
    rw [UInt32.toNat_ofNat_of_lt' hb, ← h, toLE_ofLE]

/-- A little-endian `u64`. -/
def leU64 : FixedWidth UInt8 UInt64 where
  width := 8
  enc v := toLE 8 v.toNat
  dec bs := UInt64.ofNat (ofLE bs)
  length_enc _ := length_toLE ..
  dec_enc v := by rw [ofLE_toLE v.toNat_lt, UInt64.ofNat_toNat]
  enc_dec bs h := by
    have hb : ofLE bs < 2 ^ 64 := by simpa [h] using ofLE_lt bs
    rw [UInt64.toNat_ofNat_of_lt' hb, ← h, toLE_ofLE]

end Codec
