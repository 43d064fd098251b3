import Mathlib.Algebra.Order.Group.Unbundled.Int
import Mathlib.Algebra.Order.Ring.Int
import Mathlib.Tactic.Linarith

/-!
# Wrapped distances

Signed integers of `2 * h` values compute a distance up to a multiple of `2 * h`,
and that of the least of them, which has no negation, is negative
(`wrappedAbs`). It is the distance below `h` (`wrappedAbs_of_lt`), and it is small
exactly where the distance is, up to a multiple of `2 * h`, or where it is
negative (`mul_wrappedAbs_lt_iff`).
-/

namespace Codec

/-- The absolute value of `x` in signed integers of `2 * h` values. -/
def wrappedAbs (h : Nat) (x : Int) : Int :=
  if x.bmod (2 * h) = -h then -h else |x.bmod (2 * h)|

/-- Some multiple of `2 * h` is less than a `c`th of `e` from `x`, or one is `h`
from it. -/
def NearMultiple (h c e : Nat) (x : Int) : Prop :=
  (∃ k : Int, c * |x - 2 * h * k| < e) ∨ (2 * h : Int) ∣ x - h

section
variable {h : Nat} {x : Int}

theorem bmod_of_sub_mul_eq {k r : Int} (hx : x - 2 * h * k = r) (hl : -h ≤ r) (hu : r < h) :
    x.bmod (2 * h) = r := by
  have hmod : x.bmod (2 * h) = r.bmod (2 * h) := by
    rw [← hx, ← Int.sub_mul_bmod_self_left x (2 * h) k]
    norm_cast
  rw [hmod]
  apply Int.bmod_eq_of_le <;> omega

theorem bmod_of_lt (hl : -h ≤ x) (hu : x < h) : x.bmod (2 * h) = x :=
  bmod_of_sub_mul_eq (k := 0) (by omega) hl hu

theorem wrappedAbs_bmod (h : Nat) (x : Int) : wrappedAbs h (x.bmod (2 * h)) = wrappedAbs h x := by
  rw [wrappedAbs, Int.bmod_bmod, ← wrappedAbs]

theorem wrappedAbs_of_lt (hx : |x| < h) : wrappedAbs h x = |x| := by
  obtain ⟨hl, hu⟩ := abs_lt.mp hx
  rw [wrappedAbs, bmod_of_lt (by omega) hu, if_neg (by omega)]

theorem exists_bmod_eq (h : Nat) (x : Int) : ∃ k : Int, x - 2 * h * k = x.bmod (2 * h) := by
  obtain ⟨k, hk⟩ := Int.dvd_self_sub_bmod (x := x) (m := 2 * h)
  refine ⟨k, ?_⟩
  have : x - x.bmod (2 * h) = 2 * h * k := by exact_mod_cast hk
  omega

variable (hh : 0 < h)
include hh

theorem bmod_eq_neg_iff : x.bmod (2 * h) = -h ↔ (2 * h : Int) ∣ x - h := by
  constructor
  · intro hx
    obtain ⟨k, hk⟩ := exists_bmod_eq h x
    exact ⟨k - 1, by linarith⟩
  · rintro ⟨k, hk⟩
    exact bmod_of_sub_mul_eq (k := k + 1) (by linarith) (le_refl _) (by omega)

theorem abs_bmod_le_half (x : Int) : |x.bmod (2 * h)| ≤ h := by
  have hl := Int.le_bmod (x := x) (m := 2 * h) (by omega)
  have hu := Int.bmod_lt (x := x) (m := 2 * h) (by omega)
  apply abs_le.mpr
  omega

/-- No other remainder is smaller. -/
theorem abs_bmod_le (k : Int) : |x.bmod (2 * h)| ≤ |x - 2 * h * k| := by
  rcases lt_or_ge |x - 2 * h * k| h with hlt | hge
  · obtain ⟨hl, hu⟩ := abs_lt.mp hlt
    rw [bmod_of_sub_mul_eq (k := k) rfl (by omega) hu]
  · exact le_trans (abs_bmod_le_half hh x) hge

theorem wrappedAbs_lt (x : Int) : wrappedAbs h x < h := by
  rw [wrappedAbs]
  split
  · omega
  · have hle := abs_bmod_le_half hh x
    have hu := Int.bmod_lt (x := x) (m := 2 * h) (by omega)
    rename_i hne
    rcases le_total 0 (x.bmod (2 * h)) with h0 | h0
    · rw [abs_of_nonneg h0]
      omega
    · rw [abs_of_nonpos h0] at hle ⊢
      omega

theorem mul_wrappedAbs_lt_iff {c e : Nat} (hc : 0 < c) (he : 0 < e) :
    c * wrappedAbs h x < e ↔ NearMultiple h c e x := by
  rw [wrappedAbs]
  split
  · rename_i hx
    refine iff_of_true ?_ (.inr ((bmod_eq_neg_iff hh).mp hx))
    have hpos : (0 : Int) < c * h := by exact_mod_cast Nat.mul_pos hc hh
    rw [Int.mul_neg]
    omega
  · rename_i hx
    constructor
    · intro hlt
      obtain ⟨k, hk⟩ := exists_bmod_eq h x
      exact .inl ⟨k, hk ▸ hlt⟩
    · rintro (⟨k, hk⟩ | hdvd)
      · exact lt_of_le_of_lt (Int.mul_le_mul_of_nonneg_left (abs_bmod_le hh k) (by omega)) hk
      · exact absurd ((bmod_eq_neg_iff hh).mpr hdvd) hx

/-- Far away, the distance is not the one computed. -/
theorem wrappedAbs_ne (hx : h ≤ |x|) : wrappedAbs h x ≠ |x| :=
  ne_of_lt (lt_of_lt_of_le (wrappedAbs_lt hh x) hx)

end

end Codec
