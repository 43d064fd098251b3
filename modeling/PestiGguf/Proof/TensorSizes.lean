import PestiGguf.Proof.DataSection
import PestiGguf.Proof.StoredSize
import Mathlib.Algebra.BigOperators.Ring.List

/-!
# Counts and sizes of tensors

What the checked element count says of the wrapped one and of the stored size
(`elementCountChecked_spec`), that the stored size of a dtype without blocks is
that of its scalars (`storedSize_scalars`), and what the estimate of four bytes for
each element is worth (`totalTensorBytesF32_spec`).
-/

namespace PestiGguf

open Spec

/-! ## The checked count -/

theorem checkedMul_eq_some {a b c : UInt64} :
    checkedMul a b = some c ↔ a.toNat * b.toNat < 2 ^ 64 ∧ c.toNat = a.toNat * b.toNat := by
  rw [checkedMul]
  split
  · rename_i h
    rw [Option.some.injEq, ← UInt64.toNat_inj, UInt64.toNat_mul, Nat.mod_eq_of_lt h]
    exact ⟨fun e => ⟨h, e.symm⟩, fun e => e.2.symm⟩
  · rename_i h
    exact iff_of_false (fun e => by cases e) fun e => h e.1

/-- The products of the first dimensions, each less than 2^64. -/
def Spec.PrefixesFit (a : Nat) (dims : List UInt64) : Prop :=
  ∀ k, a * ((dims.take k).map UInt64.toNat).prod < 2 ^ 64

theorem prefixesFit_cons {a : Nat} {d : UInt64} {dims : List UInt64} :
    PrefixesFit a (d :: dims) ↔ a < 2 ^ 64 ∧ PrefixesFit (a * d.toNat) dims := by
  constructor
  · intro h
    refine ⟨by simpa using h 0, fun k => ?_⟩
    have := h (k + 1)
    rwa [List.take_succ_cons, List.map_cons, List.prod_cons, ← Nat.mul_assoc] at this
  · rintro ⟨ha, h⟩ k
    cases k with
    | zero => simpa using ha
    | succ k =>
      rw [List.take_succ_cons, List.map_cons, List.prod_cons, ← Nat.mul_assoc]
      exact h k

theorem foldlM_checkedMul (dims : List UInt64) (a n : UInt64) : dims.foldlM checkedMul a = some n ↔
    PrefixesFit a.toNat dims ∧ n.toNat = a.toNat * (dims.map UInt64.toNat).prod := by
  induction dims generalizing a with
  | nil =>
    have ha : PrefixesFit a.toNat [] := fun k => by simpa using a.toNat_lt
    rw [List.foldlM_nil, List.map_nil, List.prod_nil, Nat.mul_one]
    exact ⟨fun h => ⟨ha, by rw [Option.some.inj h]⟩, fun h => congrArg some (UInt64.toNat_inj.mp h.2.symm)⟩
  | cons d dims ih =>
    rw [List.foldlM_cons, Option.bind_eq_bind, Option.bind_eq_some_iff, prefixesFit_cons, List.map_cons,
      List.prod_cons, ← Nat.mul_assoc]
    constructor
    · rintro ⟨c, hc, h⟩
      obtain ⟨-, hc⟩ := checkedMul_eq_some.mp hc
      obtain ⟨hfit, hn⟩ := (ih c).mp h
      rw [hc] at hfit hn
      exact ⟨⟨a.toNat_lt, hfit⟩, hn⟩
    · rintro ⟨⟨-, hfit⟩, hn⟩
      have hlt : a.toNat * d.toNat < 2 ^ 64 := by simpa using hfit 0
      have hc : (a * d).toNat = a.toNat * d.toNat := by rw [UInt64.toNat_mul, Nat.mod_eq_of_lt hlt]
      exact ⟨a * d, checkedMul_eq_some.mpr ⟨hlt, hc⟩, (ih _).mpr (by rw [hc]; exact ⟨hfit, hn⟩)⟩

/-- Without a zero, a product is at least that of the first factors. -/
theorem prefixesFit_of_prod {dims : List UInt64} (h0 : (0 : UInt64) ∉ dims)
    (h : (dims.map UInt64.toNat).prod < 2 ^ 64) : PrefixesFit 1 dims := by
  intro k
  rw [Nat.one_mul, List.map_take]
  refine Nat.lt_of_le_of_lt (Nat.le_of_dvd ?_ ⟨_, (List.prod_take_mul_prod_drop _ k).symm⟩) h
  refine Nat.pos_of_ne_zero fun e => h0 ?_
  obtain ⟨d, hd, he⟩ := List.mem_map.mp (List.prod_eq_zero_iff.mp e)
  rwa [← UInt64.toNat_inj.mp (he.trans UInt64.toNat_zero.symm)]

/-- Fewer than 2^64 elements have the exact size. -/
theorem storedSizeExact_of_lt {t : GgufTensorInfo} (h : elements t < 2 ^ 64) : StoredSizeExact t := by
  rw [storedSizeExact_iff_eq]
  cases hB : (GgufDtype.fromU32 t.dtype).blockSize with
  | none =>
    obtain ⟨hs, he⟩ := storedSize_unknown (.inl hB)
    exact hs.trans he.symm
  | some B =>
    cases hS : (GgufDtype.fromU32 t.dtype).bytesPerBlock with
    | none =>
      obtain ⟨hs, he⟩ := storedSize_unknown (.inr hS)
      exact hs.trans he.symm
    | some S => rw [storedSize_known hB hS, exactSize, hB, hS, Nat.mod_eq_of_lt h]

theorem elementCountChecked_eq_some {t : GgufTensorInfo} {n : UInt64} :
    t.elementCountChecked = some n ↔ PrefixesFit 1 t.shape ∧ n.toNat = elements t := by
  have := foldlM_checkedMul t.shape 1 n
  rwa [UInt64.toNat_one, Nat.one_mul] at this

theorem elementCount_of_checked {t : GgufTensorInfo} {n : UInt64} (h : t.elementCountChecked = some n) :
    n = t.elementCount := by
  have hn := (elementCountChecked_eq_some.mp h).2
  rw [← UInt64.toNat_inj, hn, toNat_elementCount, Nat.mod_eq_of_lt (hn ▸ n.toNat_lt)]

/-- The checked count is there where no product on the way reaches 2^64: it is then
the number of elements, the wrapped count is the same, and the stored size is exact.
Without a zero among the dimensions, only the number of elements matters. -/
theorem elementCountChecked_spec (t : GgufTensorInfo) :
    (∀ n, t.elementCountChecked = some n ↔ PrefixesFit 1 t.shape ∧ n.toNat = elements t) ∧
    (∀ n, t.elementCountChecked = some n → n = t.elementCount ∧ StoredSizeExact t) ∧
    ((0 : UInt64) ∉ t.shape → (t.elementCountChecked = none ↔ 2 ^ 64 ≤ elements t)) := by
  refine ⟨fun n => elementCountChecked_eq_some, fun n h => ⟨elementCount_of_checked h, ?_⟩, fun h0 => ?_⟩
  · exact storedSizeExact_of_lt ((elementCountChecked_eq_some.mp h).2 ▸ n.toNat_lt)
  · constructor
    · intro h
      by_contra hlt
      have hlt : elements t < 2 ^ 64 := Nat.lt_of_not_le hlt
      have hsome := elementCountChecked_eq_some.mpr
        ⟨prefixesFit_of_prod h0 hlt, UInt64.toNat_ofNat_of_lt' hlt⟩
      rw [h] at hsome
      cases hsome
    · intro h
      rw [Option.eq_none_iff_forall_ne_some]
      intro n hn
      have := (elementCountChecked_eq_some.mp hn).2
      have := n.toNat_lt
      omega

/-! ## The tables of the dtypes -/

/-- The dtypes with a size by the element are those that are not quantized, in
blocks of one. -/
theorem bytesPerElement_eq_some {d : GgufDtype} {k : UInt64} : d.bytesPerElement = some k ↔
    d.isQuantized = false ∧ d.blockSize = some 1 ∧ d.bytesPerBlock = some k := by
  cases d <;> simp [GgufDtype.bytesPerElement, GgufDtype.isQuantized, GgufDtype.blockSize, GgufDtype.bytesPerBlock]

/-- The quantized dtypes are those in blocks of 32 elements or more. -/
theorem isQuantized_iff {d : GgufDtype} : d.isQuantized = true ↔ ∃ B ∈ d.blockSize, 32 ≤ B := by
  cases d <;> simp [GgufDtype.isQuantized, GgufDtype.blockSize]

/-- A dtype that is neither has no sizes at all. -/
theorem blockSize_eq_none {d : GgufDtype} (h : d.bytesPerElement = none) (hq : d.isQuantized = false) :
    d.blockSize = none := by
  cases d with
  | unknown _ => rfl
  | F32 | F16 | BF16 | I8 | I16 | I32 | I64 | F64 => cases h
  | _ => cases hq

theorem toU32_fromU32 (raw : UInt32) : (GgufDtype.fromU32 raw).toU32 = raw := by
  unfold GgufDtype.fromU32
  split <;> rfl

/-- The stored size in blocks of one element. -/
theorem storedSize_blocks_of_one {t : GgufTensorInfo} {k : UInt64}
    (hB : (GgufDtype.fromU32 t.dtype).blockSize = some 1) (hS : (GgufDtype.fromU32 t.dtype).bytesPerBlock = some k) :
    t.storedSize.toOption = checkedMul t.elementCount k := by
  have hdiv : t.elementCount / 1 = t.elementCount := by
    rw [← UInt64.toNat_inj, UInt64.toNat_div]
    exact Nat.div_one _
  have hmod : t.elementCount % 1 = 0 := by
    rw [← UInt64.toNat_inj, UInt64.toNat_mod]
    exact Nat.mod_one _
  simp only [GgufTensorInfo.storedSize, hB, hS, hmod, hdiv, ne_eq, not_true, if_false]
  cases checkedMul t.elementCount k <;> rfl

/-- Of a dtype with a size by the element, the stored size is that of its elements,
and checking the product of the dimensions as well changes nothing but overflows.
Any other dtype is quantized, with blocks of at least 32 elements, or its tensors have no
size. No id is lost in the table. -/
theorem storedSize_scalars (t : GgufTensorInfo) : (GgufDtype.fromU32 t.dtype).toU32 = t.dtype ∧
    match (GgufDtype.fromU32 t.dtype).bytesPerElement with
    | some k => (GgufDtype.fromU32 t.dtype).isQuantized = false ∧
        t.storedSize.toOption = checkedMul t.elementCount k ∧
        ∀ n, t.elementCountChecked = some n → t.storedSize.toOption = checkedMul n k
    | none => (∃ B ∈ (GgufDtype.fromU32 t.dtype).blockSize, 32 ≤ B ∧
          (GgufDtype.fromU32 t.dtype).isQuantized = true) ∨ ∃ e, t.storedSize = .error e := by
  refine ⟨toU32_fromU32 _, ?_⟩
  split
  · rename_i k hk
    obtain ⟨hq, hB, hS⟩ := bytesPerElement_eq_some.mp hk
    have hsize := storedSize_blocks_of_one hB hS
    refine ⟨hq, hsize, fun n hn => ?_⟩
    rw [hsize, elementCount_of_checked hn]
  · rename_i hk
    cases hq : (GgufDtype.fromU32 t.dtype).isQuantized with
    | true =>
      obtain ⟨B, hB, h32⟩ := isQuantized_iff.mp hq
      exact .inl ⟨B, hB, h32, rfl⟩
    | false =>
      have hnone := (storedSize_unknown (.inl (blockSize_eq_none hk hq))).1
      cases hs : t.storedSize with
      | error e => exact .inr ⟨e, rfl⟩
      | ok size =>
        rw [hs] at hnone
        cases hnone

/-! ## Four bytes for each element -/

/-- The estimate, wrapped. -/
theorem toNat_totalTensorBytesF32 (h : GgufHeader) :
    h.totalTensorBytesF32.toNat = (h.tensors.map fun t => 4 * elements t).sum % 2 ^ 64 := by
  rw [GgufHeader.totalTensorBytesF32, toNat_sum]
  induction h.tensors with
  | nil => rfl
  | cons t ts ih =>
    have ht : (t.elementCount * 4).toNat = 4 * elements t % 2 ^ 64 := by
      rw [UInt64.toNat_mul, toNat_elementCount, Nat.mod_mul_mod, Nat.mul_comm]
      rfl
    rw [List.map_cons, List.sum_cons, List.map_cons, List.sum_cons, ht, Nat.mod_add_mod, Nat.add_mod, ih,
      ← Nat.add_mod]

/-- A dtype of more than four bytes an element, or of four. -/
theorem bytesPerBlock_le {d : GgufDtype} {B S : UInt64} (hB : d.blockSize = some B) (hS : d.bytesPerBlock = some S)
    (h64 : d ≠ .I64 ∧ d ≠ .F64) :
    S.toNat ≤ 4 * B.toNat ∧ (S.toNat = 4 * B.toNat ↔ d = .F32 ∨ d = .I32) := by
  cases d <;> cases hB <;> cases hS <;> simp at h64 ⊢

theorem storedBytes_le {t : GgufTensorInfo} (hlt : elements t < 2 ^ 64) {size : UInt64} (hs : t.storedSize = .ok size)
    (h64 : GgufDtype.fromU32 t.dtype ≠ .I64 ∧ GgufDtype.fromU32 t.dtype ≠ .F64) :
    storedBytes t ≤ 4 * elements t ∧ (storedBytes t = 4 * elements t ↔
      GgufDtype.fromU32 t.dtype = .F32 ∨ GgufDtype.fromU32 t.dtype = .I32 ∨ elements t = 0) := by
  obtain ⟨B, S, hB, hS, q, hq, hsize⟩ := storedSize_blocks hs
  obtain ⟨hle, heq⟩ := bytesPerBlock_le hB hS h64
  have hpos : 0 < B.toNat := Nat.pos_of_dvd_of_pos (blockSize_dvd hB) (by decide)
  rw [toNat_elementCount, Nat.mod_eq_of_lt hlt] at hq
  rw [storedBytes_of_ok hs, hsize, hq, ← or_assoc, ← heq, ← Nat.mul_assoc, Nat.mul_comm q]
  refine ⟨Nat.mul_le_mul_right q hle, ?_⟩
  rcases Nat.eq_zero_or_pos q with rfl | hq0
  · exact iff_of_true rfl (.inr rfl)
  · rw [Nat.mul_left_inj hq0.ne', or_iff_left (Nat.mul_pos hpos hq0).ne']

/-- The estimate of tensors that have a size, none of them of a dtype of 8-byte
elements, where it does not wrap: it is at least what the tensors take, and just that
exactly where each tensor with an element is of a 4-byte dtype. -/
theorem totalTensorBytesF32_spec (h : GgufHeader) (hsize : ∀ t ∈ h.tensors, ∃ size, t.storedSize = .ok size)
    (h64 : ∀ t ∈ h.tensors, GgufDtype.fromU32 t.dtype ≠ .I64 ∧ GgufDtype.fromU32 t.dtype ≠ .F64)
    (hfit : (h.tensors.map fun t => 4 * elements t).sum < 2 ^ 64) :
    (h.tensors.map storedBytes).sum ≤ h.totalTensorBytesF32.toNat ∧
      ((h.tensors.map storedBytes).sum = h.totalTensorBytesF32.toNat ↔ ∀ t ∈ h.tensors,
        GgufDtype.fromU32 t.dtype = .F32 ∨ GgufDtype.fromU32 t.dtype = .I32 ∨ elements t = 0) := by
  rw [toNat_totalTensorBytesF32, Nat.mod_eq_of_lt hfit]
  generalize h.tensors = tensors at hsize h64 hfit ⊢
  induction tensors with
  | nil => exact ⟨Nat.le_refl _, iff_of_true rfl nofun⟩
  | cons t ts ih =>
    rw [List.forall_mem_cons] at hsize h64
    simp only [List.map_cons, List.sum_cons, List.forall_mem_cons] at hfit ⊢
    obtain ⟨⟨size, hs⟩, hsize⟩ := hsize
    obtain ⟨hle, heq⟩ := storedBytes_le (by omega) hs h64.1
    obtain ⟨hles, heqs⟩ := ih hsize h64.2 (by omega)
    rw [← heq, ← heqs]
    omega

/-- An F32 and a Q4_0 tensor. -/
def mixedHeader : GgufHeader := ⟨3, [], [⟨"a", [3, 5], 0, 0⟩, ⟨"b", [64], 64, 2⟩], some 32, 96⟩

theorem totalTensorBytesF32_sample :
    (mixedHeader.tensors.map storedBytes).sum ≤ mixedHeader.totalTensorBytesF32.toNat :=
  (totalTensorBytesF32_spec mixedHeader
    (List.forall_mem_cons.mpr ⟨⟨60, by decide⟩, List.forall_mem_singleton.mpr ⟨36, by decide⟩⟩)
    (by decide) (by decide)).1

end PestiGguf
