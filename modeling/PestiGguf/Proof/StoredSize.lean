import PestiGguf.Impl.Types
import Mathlib.Algebra.BigOperators.Group.List.Basic

/-!
# The stored size of a tensor

`stored_size` checks its last multiplication and not the product of the
dimensions, which wraps. Every block size divides 2^64, so the wrapped product
is a multiple of the block exactly where the product is; but from 2^64 on, the
size is that of another tensor, or it is refused because that one's overflows
(`storedSize_exact_iff`).
-/

namespace PestiGguf

namespace Spec

/-- The number of elements, unbounded. -/
def elements (t : GgufTensorInfo) : Nat := (t.shape.map UInt64.toNat).prod

/-- The size of `n` elements in blocks of `B`, of `S` bytes each: of whole
blocks, and less than 2^64. -/
def sizeInBlocks (B S : UInt64) (n : Nat) : Option Nat :=
  if B.toNat ∣ n ∧ n / B.toNat * S.toNat < 2 ^ 64 then some (n / B.toNat * S.toNat) else none

/-- The size of a tensor on disk. -/
def exactSize (t : GgufTensorInfo) : Option Nat :=
  match (GgufDtype.fromU32 t.dtype).blockSize, (GgufDtype.fromU32 t.dtype).bytesPerBlock with
  | some B, some S => sizeInBlocks B S (elements t)
  | _, _ => none

/-- `stored_size` returns the exact size, and an error where there is none. -/
def StoredSizeExact (t : GgufTensorInfo) : Prop :=
  match exactSize t with
  | some n => ∃ size, t.storedSize = .ok size ∧ size.toNat = n
  | none => ∃ e, t.storedSize = .error e

end Spec

open Spec

/-! ## The wrapped count -/

/-- The machine's element count is the product, wrapped. -/
theorem toNat_elementCount (t : GgufTensorInfo) : t.elementCount.toNat = elements t % 2 ^ 64 := by
  have fold (l : List UInt64) (a : UInt64) :
      (l.foldl (· * ·) a).toNat = a.toNat * (l.map UInt64.toNat).prod % 2 ^ 64 := by
    induction l generalizing a with
    | nil => rw [List.foldl_nil, List.map_nil, List.prod_nil, Nat.mul_one, Nat.mod_eq_of_lt a.toNat_lt]
    | cons d ds ih =>
      rw [List.foldl_cons, ih, UInt64.toNat_mul, List.map_cons, List.prod_cons, ← Nat.mul_assoc, Nat.mod_mul_mod]
  rw [GgufTensorInfo.elementCount, fold, UInt64.toNat_one, Nat.one_mul, elements]

/-- The block sizes are powers of two. -/
theorem blockSize_dvd {d : GgufDtype} {B : UInt64} (h : d.blockSize = some B) : B.toNat ∣ 2 ^ 64 := by
  cases d <;> simp only [GgufDtype.blockSize, Option.some.injEq, reduceCtorEq] at h <;> subst h <;> decide

theorem bytesPerBlock_pos {d : GgufDtype} {S : UInt64} (h : d.bytesPerBlock = some S) : 0 < S.toNat := by
  cases d <;> simp only [GgufDtype.bytesPerBlock, Option.some.injEq, reduceCtorEq] at h <;> subst h <;> decide

/-- Wrapping leaves blocks out. -/
theorem wrapped_blocks_lt {P B : Nat} (hB : B ∣ 2 ^ 64) (h : 2 ^ 64 ≤ P) : P % 2 ^ 64 / B < P / B := by
  have hpos : 0 < B := Nat.pos_of_dvd_of_pos hB (by decide)
  have hblocks : 0 < 2 ^ 64 / B := Nat.div_pos (Nat.le_of_dvd (by decide) hB) hpos
  have hq : 0 < P / 2 ^ 64 := Nat.div_pos h (by decide)
  calc P % 2 ^ 64 / B < 2 ^ 64 / B * (P / 2 ^ 64) + P % 2 ^ 64 / B :=
        Nat.lt_add_of_pos_left (Nat.mul_pos hblocks hq)
    _ = (2 ^ 64 * (P / 2 ^ 64) + P % 2 ^ 64) / B := by
        rw [Nat.add_div_of_dvd_right (hB.mul_right _), Nat.mul_comm (2 ^ 64 / B), Nat.mul_comm (2 ^ 64),
          Nat.mul_div_assoc _ hB]
    _ = P / B := by rw [Nat.div_add_mod]

/-- The sizes of a count and of the wrapped count are the same exactly where
nothing is wrapped, or both have none. -/
theorem sizeInBlocks_wrapped {B S : UInt64} {P : Nat} (hB : B.toNat ∣ 2 ^ 64) (hS : 0 < S.toNat) :
    sizeInBlocks B S (P % 2 ^ 64) = sizeInBlocks B S P ↔
      (B.toNat ∣ P → P < 2 ^ 64 ∨ 2 ^ 64 ≤ P % 2 ^ 64 / B.toNat * S.toNat) := by
  simp only [sizeInBlocks, Nat.dvd_mod_iff hB]
  by_cases hd : B.toNat ∣ P
  · rcases Nat.lt_or_ge P (2 ^ 64) with hP | hP
    · rw [Nat.mod_eq_of_lt hP]
      exact iff_of_true rfl fun _ => .inl hP
    · have hlt := Nat.mul_lt_mul_of_pos_right (wrapped_blocks_lt hB hP) hS
      generalize P % 2 ^ 64 / B.toNat * S.toNat = n at hlt ⊢
      generalize P / B.toNat * S.toNat = m at hlt ⊢
      by_cases hn : n < 2 ^ 64
      · rw [if_pos ⟨hd, hn⟩]
        refine iff_of_false (fun h => ?_) fun h => by have := h hd; omega
        split at h
        · have := Option.some.inj h
          omega
        · cases h
      · rw [if_neg fun h => hn h.2, if_neg fun h => hn (Nat.lt_trans hlt h.2)]
        exact iff_of_true rfl fun _ => .inr (Nat.le_of_not_lt hn)
  · rw [if_neg fun h => hd h.1, if_neg fun h => hd h.1]
    exact iff_of_true rfl fun h => absurd h hd

/-! ## The size -/

/-- `stored_size` is the size of the wrapped count. -/
theorem storedSize_known {t : GgufTensorInfo} {B S : UInt64}
    (hB : (GgufDtype.fromU32 t.dtype).blockSize = some B)
    (hS : (GgufDtype.fromU32 t.dtype).bytesPerBlock = some S) :
    t.storedSize.toOption.map UInt64.toNat = sizeInBlocks B S (elements t % 2 ^ 64) := by
  have hdvd : t.elementCount % B = 0 ↔ B.toNat ∣ elements t % 2 ^ 64 := by
    rw [← UInt64.toNat_inj, UInt64.toNat_mod, UInt64.toNat_zero, toNat_elementCount, ← Nat.dvd_iff_mod_eq_zero]
  have hdiv : (t.elementCount / B).toNat = elements t % 2 ^ 64 / B.toNat := by
    rw [UInt64.toNat_div, toNat_elementCount]
  simp only [GgufTensorInfo.storedSize, hB, hS, ne_eq, hdvd, checkedMul, hdiv, sizeInBlocks]
  by_cases h : B.toNat ∣ elements t % 2 ^ 64
  · rw [if_neg (not_not.mpr h)]
    by_cases hlt : elements t % 2 ^ 64 / B.toNat * S.toNat < 2 ^ 64
    · rw [if_pos hlt, if_pos ⟨h, hlt⟩]
      show some (t.elementCount / B * S).toNat = _
      rw [UInt64.toNat_mul, hdiv, Nat.mod_eq_of_lt hlt]
    · rw [if_neg hlt, if_neg fun h' => hlt h'.2]
      rfl
  · rw [if_pos h, if_neg fun h' => h h'.1]
    rfl

/-- The size of a tensor that has one, by its blocks. -/
theorem storedSize_blocks {t : GgufTensorInfo} {size : UInt64} (h : t.storedSize = .ok size) :
    ∃ B S, (GgufDtype.fromU32 t.dtype).blockSize = some B ∧ (GgufDtype.fromU32 t.dtype).bytesPerBlock = some S ∧
      ∃ q, t.elementCount.toNat = B.toNat * q ∧ size.toNat = q * S.toNat := by
  cases hB : (GgufDtype.fromU32 t.dtype).blockSize with
  | none => simp [GgufTensorInfo.storedSize, hB] at h
  | some B =>
    cases hS : (GgufDtype.fromU32 t.dtype).bytesPerBlock with
    | none => simp [GgufTensorInfo.storedSize, hB, hS] at h
    | some S =>
      have hsize := storedSize_known hB hS
      rw [h, ← toNat_elementCount, sizeInBlocks] at hsize
      split at hsize
      · rename_i hd
        obtain ⟨q, hq⟩ := hd.1
        refine ⟨B, S, rfl, rfl, q, hq, (Option.some.inj hsize).trans ?_⟩
        rw [hq, Nat.mul_div_cancel_left q (Nat.pos_of_dvd_of_pos (blockSize_dvd hB) (by decide))]
      · cases hsize

/-- A dtype without blocks has no size. -/
theorem storedSize_unknown {t : GgufTensorInfo}
    (h : (GgufDtype.fromU32 t.dtype).blockSize = none ∨ (GgufDtype.fromU32 t.dtype).bytesPerBlock = none) :
    t.storedSize.toOption.map UInt64.toNat = none ∧ exactSize t = none := by
  rw [exactSize, GgufTensorInfo.storedSize]
  cases hB : (GgufDtype.fromU32 t.dtype).blockSize with
  | none => exact ⟨rfl, rfl⟩
  | some B =>
    cases hS : (GgufDtype.fromU32 t.dtype).bytesPerBlock with
    | none => exact ⟨rfl, rfl⟩
    | some S => simp [hB, hS] at h

theorem storedSizeExact_iff_eq (t : GgufTensorInfo) :
    StoredSizeExact t ↔ t.storedSize.toOption.map UInt64.toNat = exactSize t := by
  rw [StoredSizeExact]
  cases exactSize t <;> cases t.storedSize <;> simp [Except.toOption]

/-- The stored size is exact for fewer than 2^64 elements. From there on it is
exact where the tensor does not have whole blocks, which the wrapped count
shows too, and where the wrapped count's size overflows. -/
theorem storedSize_exact_iff (t : GgufTensorInfo) :
    StoredSizeExact t ↔ ∀ B S, (GgufDtype.fromU32 t.dtype).blockSize = some B →
      (GgufDtype.fromU32 t.dtype).bytesPerBlock = some S → B.toNat ∣ elements t →
        elements t < 2 ^ 64 ∨ 2 ^ 64 ≤ elements t % 2 ^ 64 / B.toNat * S.toNat := by
  rw [storedSizeExact_iff_eq]
  cases hB : (GgufDtype.fromU32 t.dtype).blockSize with
  | none =>
    obtain ⟨hs, he⟩ := storedSize_unknown (.inl hB)
    exact iff_of_true (hs.trans he.symm) nofun
  | some B =>
    cases hS : (GgufDtype.fromU32 t.dtype).bytesPerBlock with
    | none =>
      obtain ⟨hs, he⟩ := storedSize_unknown (.inr hS)
      exact iff_of_true (hs.trans he.symm) nofun
    | some S =>
      rw [storedSize_known hB hS, exactSize, hB, hS, sizeInBlocks_wrapped (blockSize_dvd hB) (bytesPerBlock_pos hS)]
      constructor
      · rintro h _ _ ⟨⟩ ⟨⟩
        exact h
      · exact fun h => h B S rfl rfl

/-- 2^64 elements are counted as none. -/
theorem storedSize_wraps : ¬ ∀ t, StoredSizeExact t := by
  intro h
  have hsize := (storedSizeExact_iff_eq _).mp (h ⟨"t", [2 ^ 32, 2 ^ 32], 0, 0⟩)
  exact absurd hsize (by decide)

end PestiGguf
