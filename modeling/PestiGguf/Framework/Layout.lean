import Mathlib.Algebra.BigOperators.Group.List.Basic
import Mathlib.Algebra.Order.Ring.Nat

/-!
# Padded blocks

Blocks laid out one after another from a position, each after a padding that
depends on where it would start (`pack`, `place`). A block is found at its
place (`slice_pack`), blocks do not overlap (`place_disjoint`), and what is
in no block is padding (`pack_gap`). Where the padding is to a multiple of
`a`, the place of a block is the sum of the padded lengths before it
(`place_padding`).
-/

namespace Codec

/-! ## Rounding up -/

/-- The least multiple of `a` from `n` on; `n` itself where `a` is 0. -/
def roundUp (a n : Nat) : Nat := if a = 0 then n else (n + (a - 1)) / a * a

theorem le_roundUp (a n : Nat) : n ≤ roundUp a n := by
  rw [roundUp]
  by_cases ha : a = 0
  · rw [if_pos ha]
  · rw [if_neg ha]
    have := Nat.div_add_mod' (n + (a - 1)) a
    have := Nat.mod_lt (n + (a - 1)) (Nat.pos_of_ne_zero ha)
    omega

theorem dvd_roundUp {a : Nat} (ha : 0 < a) (n : Nat) : a ∣ roundUp a n := by
  rw [roundUp, if_neg (Nat.ne_of_gt ha)]
  exact Nat.dvd_mul_left a _

theorem roundUp_lt {a : Nat} (ha : 0 < a) (n : Nat) : roundUp a n < n + a := by
  rw [roundUp, if_neg (Nat.ne_of_gt ha)]
  have := Nat.div_mul_le_self (n + (a - 1)) a
  omega

/-- A multiple of `a` from `n` on is one from `roundUp a n` on. -/
theorem roundUp_le {a n m : Nat} (hm : a ∣ m) (h : n ≤ m) : roundUp a n ≤ m := by
  rcases Nat.eq_zero_or_pos a with rfl | ha
  · rwa [roundUp, if_pos rfl]
  · obtain ⟨k, rfl⟩ := hm
    obtain ⟨j, hj⟩ := dvd_roundUp ha n
    have hlt := roundUp_lt ha n
    rw [hj] at hlt ⊢
    refine Nat.mul_le_mul_left a (Nat.le_of_lt_succ (Nat.lt_of_mul_lt_mul_left (a := a) ?_))
    rw [Nat.mul_succ]
    omega

theorem roundUp_eq_self {a n : Nat} (h : a ∣ n) : roundUp a n = n :=
  Nat.le_antisymm (roundUp_le h (Nat.le_refl n)) (le_roundUp a n)

/-- Rounding up from the remainder. -/
theorem roundUp_eq_add {a n : Nat} (h : n % a ≠ 0) (ha : 0 < a) : roundUp a n = n + (a - n % a) := by
  have hm := Nat.div_add_mod n a
  have hlt := Nat.mod_lt n ha
  have hd : a ∣ n + (a - n % a) := ⟨n / a + 1, by rw [Nat.mul_succ]; omega⟩
  apply Nat.le_antisymm (roundUp_le hd (by omega))
  obtain ⟨k, hk⟩ := dvd_roundUp ha n
  have hle := le_roundUp a n
  rw [hk] at hle ⊢
  have hk' : n / a < k := by
    apply Nat.lt_of_mul_lt_mul_left (a := a)
    omega
  have := Nat.mul_le_mul_left a (Nat.succ_le_of_lt hk')
  rw [Nat.mul_succ] at this
  omega

theorem roundUp_eq_self_iff {a n : Nat} (ha : 0 < a) : roundUp a n = n ↔ n % a = 0 :=
  ⟨fun h => Nat.mod_eq_zero_of_dvd (h ▸ dvd_roundUp ha n), fun h => roundUp_eq_self (Nat.dvd_of_mod_eq_zero h)⟩

/-- Rounding up a multiple of `a` and a number is rounding up the number. -/
theorem roundUp_add {a m : Nat} (hm : a ∣ m) (n : Nat) : roundUp a (m + n) = m + roundUp a n := by
  rcases Nat.eq_zero_or_pos a with rfl | ha
  · rw [roundUp, roundUp, if_pos rfl, if_pos rfl]
  · obtain ⟨k, rfl⟩ := hm
    rw [roundUp, roundUp, if_neg (Nat.ne_of_gt ha), if_neg (Nat.ne_of_gt ha), Nat.add_assoc,
      Nat.mul_add_div ha, Nat.add_mul, Nat.mul_comm k a]

/-! ## Blocks -/

section
variable {σ : Type} (pad : Nat → Nat) (fill : σ)

/-- Blocks from position `p` on, each after its padding. -/
def pack : Nat → List (List σ) → List σ
  | _, [] => []
  | p, d :: ds => List.replicate (pad p) fill ++ (d ++ pack (p + pad p + d.length) ds)

/-- Where block `i` starts, of blocks of these lengths; for as many blocks as
there are, where they end. -/
def place : Nat → List Nat → Nat → Nat
  | p, [], _ => p
  | p, _ :: _, 0 => p + pad p
  | p, l :: ls, i + 1 => place (p + pad p + l) ls i

variable {pad fill}

theorem le_place : ∀ (ls : List Nat) (p i : Nat), p ≤ place pad p ls i
  | [], _, _ => by rw [place]
  | _ :: _, _, 0 => Nat.le_add_right ..
  | l :: ls, p, i + 1 => by
    have := le_place ls (p + pad p + l) i
    rw [place]
    omega

variable (pad fill) in
theorem length_pack : ∀ (ds : List (List σ)) (p : Nat),
    p + (pack pad fill p ds).length = place pad p (ds.map List.length) ds.length
  | [], _ => rfl
  | d :: ds, p => by
    rw [List.map_cons, List.length_cons, place, ← length_pack ds, pack]
    simp only [List.length_append, List.length_replicate]
    omega

variable (pad) in
/-- A block ends before any later one starts. -/
theorem place_disjoint : ∀ (ls : List Nat) (p : Nat) {i j : Nat}, i < j → (hi : i < ls.length) →
    place pad p ls i + ls[i] ≤ place pad p ls j
  | _ :: ls, _, 0, j + 1, _, _ => le_place ls _ j
  | _ :: ls, _, _ + 1, _ + 1, h, hi =>
    place_disjoint ls _ (Nat.lt_of_succ_lt_succ h) (Nat.lt_of_succ_lt_succ hi)

variable (pad fill) in
/-- A block is found at its place. -/
theorem slice_pack : ∀ (ds : List (List σ)) (pre : List σ) {i : Nat} (hi : i < ds.length),
    ((pre ++ pack pad fill pre.length ds).drop
      (place pad pre.length (ds.map List.length) i)).take ds[i].length = ds[i]
  | d :: ds, pre, 0, _ => by
    rw [List.map_cons, place, pack, ← List.append_assoc, List.getElem_cons_zero,
      show pre.length + pad pre.length = (pre ++ List.replicate (pad pre.length) fill).length by simp,
      List.drop_left, List.take_left]
  | d :: ds, pre, i + 1, hi => by
    have ih := slice_pack ds (pre ++ (List.replicate (pad pre.length) fill ++ d)) (i := i)
      (Nat.lt_of_succ_lt_succ hi)
    have hl : (pre ++ (List.replicate (pad pre.length) fill ++ d)).length =
        pre.length + pad pre.length + d.length := by
      simp only [List.length_append, List.length_replicate]
      omega
    rw [hl, List.append_assoc, List.append_assoc] at ih
    exact ih

/-- What is in no block is padding. -/
theorem pack_gap : ∀ (ds : List (List σ)) (p : Nat) {q : Nat}, q < (pack pad fill p ds).length →
    (∃ (i : Nat) (hi : i < ds.length), place pad p (ds.map List.length) i ≤ p + q ∧
      p + q < place pad p (ds.map List.length) i + ds[i].length) ∨ (pack pad fill p ds)[q]? = some fill
  | d :: ds, p, q, hq => by
    rcases Nat.lt_or_ge q (pad p) with h | h
    · right
      rw [pack, List.getElem?_append_left (by simpa using h), List.getElem?_replicate, if_pos h]
    rcases Nat.lt_or_ge q (pad p + d.length) with h' | h'
    · refine .inl ⟨0, Nat.succ_pos _, ?_⟩
      rw [List.map_cons, place, List.getElem_cons_zero]
      omega
    · have hpack : ∀ j, (pack pad fill p (d :: ds))[pad p + d.length + j]? =
          (pack pad fill (p + pad p + d.length) ds)[j]? := fun j => by
        rw [pack, ← List.append_assoc, List.getElem?_append_right (by simp)]
        congr 1
        simp only [List.length_append, List.length_replicate]
        omega
      obtain ⟨j, rfl⟩ := Nat.exists_eq_add_of_le h'
      rw [hpack]
      rw [pack] at hq
      simp only [List.length_append, List.length_replicate] at hq
      rcases pack_gap ds (p + pad p + d.length) (q := j) (by omega) with ⟨i, hi, h₁, h₂⟩ | h₀
      · refine .inl ⟨i + 1, Nat.succ_lt_succ hi, ?_⟩
        rw [List.map_cons, place, List.getElem_cons_succ]
        omega
      · exact .inr h₀

/-- The places are the same for paddings that agree up to where the blocks end. -/
theorem place_congr {pad' : Nat → Nat} : ∀ (ls : List Nat) (p : Nat),
    (∀ q ≤ place pad p ls ls.length, pad q = pad' q) → ∀ i, place pad p ls i = place pad' p ls i
  | [], _, _, _ => by rw [place, place]
  | l :: ls, p, h, 0 => by
    rw [place, place, h p (le_place _ _ _)]
  | l :: ls, p, h, i + 1 => by
    rw [place, place, place_congr ls _ (fun q hq => h q hq), h p (le_place _ _ _)]

end

/-! ## Aligned blocks -/

/-- The padding to a multiple of `a`. -/
def padding (a p : Nat) : Nat := roundUp a p - p

theorem add_padding (a p : Nat) : p + padding a p = roundUp a p :=
  Nat.add_sub_cancel' (le_roundUp a p)

theorem roundUp_add_roundUp (a p n : Nat) : roundUp a (roundUp a p + n) = roundUp a p + roundUp a n := by
  rcases Nat.eq_zero_or_pos a with rfl | ha
  · rw [roundUp, roundUp, roundUp, if_pos rfl, if_pos rfl, if_pos rfl]
  · exact roundUp_add (dvd_roundUp ha p) n

theorem roundUp_roundUp (a n : Nat) : roundUp a (roundUp a n) = roundUp a n := by
  have := roundUp_add_roundUp a n 0
  rwa [Nat.add_zero, roundUp_eq_self (Nat.dvd_zero a), Nat.add_zero] at this

/-- The place of a block is the sum of the padded lengths before it. -/
theorem place_padding {a : Nat} : ∀ (ls : List Nat) (p : Nat) {i : Nat}, i < ls.length →
    place (padding a) p ls i = roundUp a p + ((ls.take i).map (roundUp a)).sum
  | _ :: _, p, 0, _ => by rw [place, add_padding, List.take_zero, List.map_nil, List.sum_nil, Nat.add_zero]
  | l :: ls, p, i + 1, hi => by
    rw [place, add_padding, place_padding ls _ (Nat.lt_of_succ_lt_succ hi), roundUp_add_roundUp,
      List.take_succ_cons, List.map_cons, List.sum_cons, Nat.add_assoc]

/-- The blocks end where the last one does. -/
theorem place_last (pad : Nat → Nat) : ∀ (ls : List Nat) (p : Nat) {i : Nat} (hi : i + 1 = ls.length),
    place pad p ls ls.length = place pad p ls i + ls[i]
  | [l], p, 0, _ => by
    show place pad (p + pad p + l) [] 0 = p + pad p + l
    rw [place]
  | _ :: l :: ls, p, i + 1, hi => place_last pad (l :: ls) _ (Nat.succ.inj hi)

/-! ## Blocks with the padding after them -/

/-- A block with a tail after it is found after the blocks before it and
their tails. -/
theorem slice_flatMap {σ : Type} : ∀ (bs : List (List σ × List σ)) (pre : List σ) {i : Nat}
    (hi : i < bs.length), ((pre ++ bs.flatMap fun b => b.1 ++ b.2).drop
      (pre.length + ((bs.take i).map fun b => (b.1 ++ b.2).length).sum)).take bs[i].1.length = bs[i].1
  | b :: bs, pre, 0, _ => by
    rw [List.flatMap_cons, List.take_zero, List.map_nil, List.sum_nil, Nat.add_zero, List.drop_left,
      List.append_assoc]
    exact List.take_left
  | b :: bs, pre, i + 1, hi => by
    have ih := slice_flatMap bs (pre ++ (b.1 ++ b.2)) (Nat.lt_of_succ_lt_succ hi)
    rw [List.length_append, List.append_assoc, Nat.add_assoc] at ih
    rw [List.flatMap_cons, List.take_succ_cons, List.map_cons, List.sum_cons]
    exact ih

end Codec
