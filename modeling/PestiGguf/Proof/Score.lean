import PestiGguf.Framework.Wrap
import PestiGguf.Impl.FormatInference
import Mathlib.Algebra.Order.Floor.Div
import Mathlib.Tactic.Linarith
import Mathlib.Tactic.NormNum

/-!
# The score of a format

The score compares sizes of 64 bits in 32: it knows their distance up to a
multiple of 2^32 (`sizeConfidence_eq`), so that a format passes a threshold
where some size that far off would (`lt_sizeConfidence_iff`). It is the
documented score of a candidate exactly where the sizes are less than 2^31
apart, and of all candidates where no other format is taken for one
(`inferTensorFormat_faithful_iff`).
-/

namespace PestiGguf

open Codec

namespace Spec

/-- The size of `n` elements in blocks of `e` elements and `b` bytes. -/
def expectedBytes (n : Nat) (e b : UInt64) : Nat := (n ⌈/⌉ e.toNat) * b.toNat

/-- A candidate's score for `n` elements in `dataSize` bytes: one less the
relative error of the size, and above a half. -/
structure FaithfulScore (n dataSize : Nat) (c : InferredFormat) : Prop where
  half_lt : 1 / 2 < c.confidence
  le_one : c.confidence ≤ 1
  eq_one_iff : c.confidence = 1 ↔ dataSize = expectedBytes n c.elementsPerBlock c.bytesPerBlock
  eq_of_ne : dataSize ≠ expectedBytes n c.elementsPerBlock c.bytesPerBlock →
    c.confidence = 1 - |(dataSize : ℚ) - expectedBytes n c.elementsPerBlock c.bytesPerBlock| /
      expectedBytes n c.elementsPerBlock c.bytesPerBlock

end Spec

open Spec

/-! ## Sizes -/

/-- One more than the quotient, if something remains. -/
theorem ceilDiv_eq_ite (n : Nat) {e : Nat} (he : 0 < e) : n ⌈/⌉ e = if 0 < n % e then n / e + 1 else n / e := by
  have hpred : (e - 1) / e = 0 := Nat.div_eq_of_lt (by omega)
  have hmod : (e - 1) % e = e - 1 := Nat.mod_eq_of_lt (by omega)
  rw [Nat.ceilDiv_eq_add_pred_div, Nat.add_sub_assoc he, Nat.add_div he, hpred, hmod, Nat.add_zero]
  split
  · rw [if_pos (by omega)]
  · rw [if_neg (by omega), Nat.add_zero]

theorem toNat_divCeil (a : UInt64) {b : UInt64} (hb : 0 < b.toNat) : (divCeil a b).toNat = a.toNat ⌈/⌉ b.toNat := by
  rw [ceilDiv_eq_ite _ hb, divCeil]
  simp only [UInt64.lt_iff_toNat_lt, UInt64.toNat_mod, UInt64.toNat_zero]
  split
  · -- a remainder is left by no divisor below 2, so the quotient has room for one more
    have hlt := a.toNat_lt
    have hmod := Nat.mod_lt a.toNat hb
    have hle : a.toNat / b.toNat ≤ a.toNat / 2 := Nat.div_le_div_left (by omega) (by decide)
    rw [UInt64.toNat_add, UInt64.toNat_div, UInt64.toNat_one, Nat.mod_eq_of_lt (by omega)]
  · rw [UInt64.toNat_div]

theorem elementsPerBlock_pos : ∀ spec ∈ formatSpecs, 0 < spec.elementsPerBlock.toNat := by decide

theorem bytesPerBlock_spec_pos : ∀ spec ∈ formatSpecs, 0 < spec.bytesPerBlock.toNat := by decide

theorem ceilDiv_pos {n e : Nat} (hn : 0 < n) (he : 0 < e) : 0 < n ⌈/⌉ e := by
  rw [Nat.ceilDiv_eq_add_pred_div]
  exact Nat.div_pos (by omega) he

theorem expectedBytes_pos {n : Nat} (hn : 0 < n) {spec : FormatSpec} (hspec : spec ∈ formatSpecs) :
    0 < expectedBytes n spec.elementsPerBlock spec.bytesPerBlock :=
  Nat.mul_pos (ceilDiv_pos hn (elementsPerBlock_pos spec hspec)) (bytesPerBlock_spec_pos spec hspec)

theorem toNat_expectedSize (n : UInt64) {spec : FormatSpec} (hspec : spec ∈ formatSpecs) :
    (expectedSize n spec).toNat =
      expectedBytes n.toNat spec.elementsPerBlock spec.bytesPerBlock % 2 ^ 64 := by
  rw [expectedSize, UInt64.toNat_mul, toNat_divCeil n (elementsPerBlock_pos spec hspec), expectedBytes]

theorem toNat_expectedSize_of_lt {n : UInt64} {spec : FormatSpec} (hspec : spec ∈ formatSpecs)
    (hfits : expectedBytes n.toNat spec.elementsPerBlock spec.bytesPerBlock < 2 ^ 64) :
    (expectedSize n spec).toNat = expectedBytes n.toNat spec.elementsPerBlock spec.bytesPerBlock := by
  rw [toNat_expectedSize n hspec, Nat.mod_eq_of_lt hfits]

/-! ## Distances -/

theorem toInt_asI32 (a : UInt64) : (asI32 a).toInt = (a.toNat : Int).bmod (2 ^ 32) := by
  show (a.toUInt32.toBitVec).toInt = _
  rw [BitVec.toInt_eq_toNat_bmod, UInt32.toNat_toBitVec, UInt64.toNat_toUInt32]
  exact Int.emod_bmod a.toNat (2 ^ 32)

theorem toInt_abs (x : Int32) : x.abs.toInt = wrappedAbs (2 ^ 31) x.toInt := by
  have hmin : x.toBitVec = BitVec.intMin 32 ↔ x.toInt = -(2 ^ 31 : Nat) := BitVec.toInt_inj.symm
  have hmod : x.toInt.bmod (2 * 2 ^ 31) = x.toInt := x.toBitVec.toInt_bmod_cancel
  show x.toBitVec.abs.toInt = _
  rw [BitVec.toInt_abs_eq_natAbs, wrappedAbs, hmod]
  by_cases h : x.toInt = -(2 ^ 31 : Nat)
  · rw [if_pos (hmin.mpr h), if_pos h]
    rfl
  · rw [if_neg (mt hmin.mp h), if_neg h]
    exact Int.natCast_natAbs _

/-- The difference as the code computes it. -/
theorem toInt_abs_asI32_sub (a b : UInt64) :
    (asI32 a - asI32 b).abs.toInt = wrappedAbs (2 ^ 31) (a.toNat - b.toNat) := by
  rw [toInt_abs, Int32.toInt_sub, toInt_asI32, toInt_asI32, Int.sub_bmod_bmod, Int.bmod_sub_bmod]
  exact wrappedAbs_bmod (2 ^ 31) _

/-! ## The score -/

theorem sizeConfidence_eq (dataSize : UInt64) {expected : UInt64} (he : 0 < expected.toNat) :
    sizeConfidence dataSize expected =
      if wrappedAbs (2 ^ 31) (dataSize.toNat - expected.toNat) = 0 then 1
      else max (1 - wrappedAbs (2 ^ 31) (dataSize.toNat - expected.toNat) / (expected.toNat : ℚ)) 0 := by
  have hne : expected ≠ 0 := by
    rintro rfl
    exact Nat.lt_irrefl 0 he
  rw [sizeConfidence, toInt_abs_asI32_sub]
  simp only [Int.cast_eq_zero, hne, if_false]

/-- The sizes that pass a threshold. -/
theorem lt_sizeConfidence_iff {c : Nat} (hc : 0 < c) (dataSize : UInt64) {expected : UInt64}
    (he : 0 < expected.toNat) : 1 - 1 / (c : ℚ) < sizeConfidence dataSize expected ↔
      NearMultiple (2 ^ 31) c expected.toNat (dataSize.toNat - expected.toNat) := by
  rw [← mul_wrappedAbs_lt_iff (by decide) hc he, sizeConfidence_eq dataSize he]
  generalize wrappedAbs (2 ^ 31) _ = a
  have hcq : (0 : ℚ) < c := Nat.cast_pos.mpr hc
  have heq : (0 : ℚ) < expected.toNat := Nat.cast_pos.mpr he
  split
  · rename_i ha
    rw [ha, Int.mul_zero]
    exact iff_of_true (sub_lt_self 1 (one_div_pos.mpr hcq)) (Int.natCast_pos.mpr he)
  · have hneg : ¬ 1 - 1 / (c : ℚ) < 0 := by
      have : 1 / (c : ℚ) ≤ 1 := (div_le_one₀ hcq).mpr (Nat.one_le_cast.mpr hc)
      linarith
    rw [lt_max_iff, or_iff_left hneg, sub_lt_sub_iff_left, div_lt_div_iff₀ heq hcq, one_mul, mul_comm]
    exact_mod_cast Iff.rfl

theorem sizeConfidence_of_pos {dataSize expected : UInt64} (he : 0 < expected.toNat)
    (h : 0 < sizeConfidence dataSize expected) : sizeConfidence dataSize expected =
      1 - wrappedAbs (2 ^ 31) (dataSize.toNat - expected.toNat) / (expected.toNat : ℚ) := by
  rw [sizeConfidence_eq dataSize he] at h ⊢
  split at h
  · rename_i ha
    rw [if_pos ha, ha, Int.cast_zero, zero_div, sub_zero]
  · rename_i ha
    rw [if_neg ha]
    exact max_eq_left (le_of_lt ((lt_max_iff.mp h).resolve_right (lt_irrefl 0)))

/-! ## Candidates -/

theorem isQuantized_spec : ∀ spec ∈ formatSpecs, spec.dtype.isQuantized = true := by decide

theorem candidate_eq_some_iff {n dataSize : UInt64} {spec : FormatSpec} (hspec : spec ∈ formatSpecs)
    {c : InferredFormat} : candidate n dataSize spec = some c ↔
      1 / 2 < sizeConfidence dataSize (expectedSize n spec) ∧
        c = ⟨spec.dtype, dataSize.toNat / n.toNat, spec.elementsPerBlock, spec.bytesPerBlock,
          sizeConfidence dataSize (expectedSize n spec)⟩ := by
  have hhalf : (0.5 : ℚ) = 1 / 2 := by norm_num
  rw [candidate, isQuantized_spec spec hspec, hhalf, if_neg (by decide)]
  show (if _ then _ else _) = _ ↔ _
  split
  · rename_i h
    rw [Option.some.injEq, eq_comm]
    exact (and_iff_right h).symm
  · rename_i h
    exact iff_of_false nofun fun h' => h h'.1

theorem inferTensorFormat_cons (claimed : GgufDtype) (n : UInt64) {rawData : List UInt8} (h : rawData ≠ []) :
    inferTensorFormat claimed n rawData =
      .ok ((formatSpecs.filterMap (candidate n (UInt64.ofNat rawData.length))).mergeSort fun a b =>
        decide (b.confidence ≤ a.confidence)) := by
  rw [inferTensorFormat, if_neg (by rwa [List.isEmpty_iff])]

/-- What is inferred, in some order. -/
theorem exists_inferTensorFormat (claimed : GgufDtype) (n : UInt64) (rawData : List UInt8) :
    ∃ candidates, inferTensorFormat claimed n rawData = .ok candidates ∧ ∀ c, c ∈ candidates ↔
      rawData ≠ [] ∧ ∃ spec ∈ formatSpecs, candidate n (UInt64.ofNat rawData.length) spec = some c := by
  by_cases h : rawData = []
  · subst h
    exact ⟨[], rfl, fun c => iff_of_false List.not_mem_nil fun h => h.1 rfl⟩
  · refine ⟨_, inferTensorFormat_cons claimed n h, fun c => ?_⟩
    rw [List.mem_mergeSort, List.mem_filterMap, and_iff_right h]

/-- A candidate's score, from the wrapped distance. -/
theorem confidence_of_candidate {n dataSize : UInt64} {spec : FormatSpec} (hspec : spec ∈ formatSpecs)
    (hn : 0 < n.toNat) (hfits : expectedBytes n.toNat spec.elementsPerBlock spec.bytesPerBlock < 2 ^ 64)
    {c : InferredFormat}
    (hc : candidate n dataSize spec = some c) :
    1 / 2 < c.confidence ∧ expectedBytes n.toNat c.elementsPerBlock c.bytesPerBlock =
        expectedBytes n.toNat spec.elementsPerBlock spec.bytesPerBlock ∧
      c.confidence = 1 - wrappedAbs (2 ^ 31) (dataSize.toNat -
          expectedBytes n.toNat spec.elementsPerBlock spec.bytesPerBlock) /
        (expectedBytes n.toNat spec.elementsPerBlock spec.bytesPerBlock : ℚ) := by
  obtain ⟨hhalf, rfl⟩ := (candidate_eq_some_iff hspec).mp hc
  have hexp := toNat_expectedSize_of_lt hspec hfits
  have hconf := sizeConfidence_of_pos (hexp ▸ expectedBytes_pos hn hspec) (lt_trans (by norm_num) hhalf)
  rw [hexp] at hconf
  exact ⟨hhalf, rfl, hconf⟩

/-- The score is the documented one where the difference fits. -/
theorem faithfulScore_iff {n dataSize : UInt64} {spec : FormatSpec} (hspec : spec ∈ formatSpecs) (hn : 0 < n.toNat)
    (hfits : expectedBytes n.toNat spec.elementsPerBlock spec.bytesPerBlock < 2 ^ 64) {c : InferredFormat}
    (hc : candidate n dataSize spec = some c) : FaithfulScore n.toNat dataSize.toNat c ↔
      |(dataSize.toNat : Int) - expectedBytes n.toNat spec.elementsPerBlock spec.bytesPerBlock| < (2 ^ 31 : Nat) := by
  obtain ⟨hhalf, hblocks, hconf⟩ := confidence_of_candidate hspec hn hfits hc
  have hpos := expectedBytes_pos hn hspec
  rw [← hblocks] at hpos hconf ⊢
  generalize hE : expectedBytes n.toNat c.elementsPerBlock c.bytesPerBlock = E at hpos hconf ⊢
  have hposq : (0 : ℚ) < E := Nat.cast_pos.mpr hpos
  constructor
  · intro h
    by_contra hge
    have hfar := not_lt.mp hge
    have hne : dataSize.toNat ≠ E := by
      intro heq
      rw [heq, sub_self, abs_zero] at hfar
      exact absurd hfar (by decide)
    have heq := hconf.symm.trans (hE ▸ h.eq_of_ne (hE ▸ hne))
    rw [sub_right_inj, div_left_inj' hposq.ne'] at heq
    refine wrappedAbs_ne (by decide) hfar ?_
    exact_mod_cast heq
  · intro h
    rw [wrappedAbs_of_lt h, Int.cast_abs, Int.cast_sub, Int.cast_natCast, Int.cast_natCast] at hconf
    have heq_one : c.confidence = 1 ↔ dataSize.toNat = E := by
      rw [hconf, sub_eq_self, div_eq_zero_iff, or_iff_left hposq.ne', abs_eq_zero, sub_eq_zero, Nat.cast_inj]
    have hle_one : c.confidence ≤ 1 := by
      rw [hconf]
      exact sub_le_self 1 (div_nonneg (abs_nonneg _) hposq.le)
    subst hE
    exact { half_lt := hhalf, le_one := hle_one, eq_one_iff := heq_one, eq_of_ne := fun _ => hconf }

/-- The candidates, by the sizes. -/
theorem exists_candidate_iff {n dataSize : UInt64} {spec : FormatSpec} (hspec : spec ∈ formatSpecs) (hn : 0 < n.toNat)
    (hfits : expectedBytes n.toNat spec.elementsPerBlock spec.bytesPerBlock < 2 ^ 64) :
    (∃ c, candidate n dataSize spec = some c) ↔
      NearMultiple (2 ^ 31) 2 (expectedBytes n.toNat spec.elementsPerBlock spec.bytesPerBlock)
        (dataSize.toNat - expectedBytes n.toNat spec.elementsPerBlock spec.bytesPerBlock) := by
  have hexp := toNat_expectedSize_of_lt hspec hfits
  have hhalf : (1 / 2 : ℚ) = 1 - 1 / (2 : Nat) := by norm_num
  have hpos := expectedBytes_pos hn hspec
  rw [← hexp] at hpos ⊢
  simp only [candidate_eq_some_iff hspec, exists_and_left, exists_eq, and_true]
  rw [hhalf, lt_sizeConfidence_iff (by decide) dataSize hpos]

/-- The candidates' scores are the documented ones if and only if every format
whose expected size is, up to a multiple of 2^32, less than half of it from the
data's (or 2^31 from it) is less than 2^31 from it. -/
theorem inferTensorFormat_faithful_iff (claimed : GgufDtype) (n : UInt64) (rawData : List UInt8) (hn : 0 < n.toNat)
    (hlen : rawData.length < 2 ^ 64)
    (hfits : ∀ spec ∈ formatSpecs, expectedBytes n.toNat spec.elementsPerBlock spec.bytesPerBlock < 2 ^ 64) :
    (∃ candidates, inferTensorFormat claimed n rawData = .ok candidates ∧
      ∀ c ∈ candidates, FaithfulScore n.toNat rawData.length c) ↔
    (rawData ≠ [] → ∀ spec ∈ formatSpecs,
      NearMultiple (2 ^ 31) 2 (expectedBytes n.toNat spec.elementsPerBlock spec.bytesPerBlock)
        (rawData.length - expectedBytes n.toNat spec.elementsPerBlock spec.bytesPerBlock) →
      |(rawData.length : Int) - expectedBytes n.toNat spec.elementsPerBlock spec.bytesPerBlock| < (2 ^ 31 : Nat)) := by
  obtain ⟨candidates, hok, hmem⟩ := exists_inferTensorFormat claimed n rawData
  have hsize : (UInt64.ofNat rawData.length).toNat = rawData.length := UInt64.toNat_ofNat_of_lt' hlen
  constructor
  · rintro ⟨candidates', hok', hall⟩ hne spec hspec hnear
    cases hok.symm.trans hok'
    rw [← hsize] at hnear
    obtain ⟨c, hc⟩ := (exists_candidate_iff hspec hn (hfits spec hspec)).mpr hnear
    have hfaithful := hall c ((hmem c).mpr ⟨hne, spec, hspec, hc⟩)
    rw [← hsize] at hfaithful ⊢
    exact (faithfulScore_iff hspec hn (hfits spec hspec) hc).mp hfaithful
  · intro h
    refine ⟨candidates, hok, fun c hc => ?_⟩
    obtain ⟨hne, spec, hspec, hcand⟩ := (hmem c).mp hc
    have hnear := (exists_candidate_iff hspec hn (hfits spec hspec)).mp ⟨c, hcand⟩
    have hlt := h hne spec hspec (by rwa [hsize] at hnear)
    rw [← hsize] at hlt ⊢
    exact (faithfulScore_iff hspec hn (hfits spec hspec) hcand).mpr hlt

theorem inferTensorFormat_faithful_sample :
    ∃ candidates, inferTensorFormat .Q4_0 32 (List.replicate 18 0) = .ok candidates ∧
      ∀ c ∈ candidates, FaithfulScore 32 18 c := by
  have hdist : ∀ spec ∈ formatSpecs,
      |((18 : Nat) : Int) - expectedBytes 32 spec.elementsPerBlock spec.bytesPerBlock| < (2 ^ 31 : Nat) := by decide
  exact (inferTensorFormat_faithful_iff .Q4_0 32 (List.replicate 18 0) (by decide) (by decide) (by decide)).mpr
    fun _ spec hspec _ => hdist spec hspec

/-- 2^33 elements of Q4_0 take 2^32 bytes less than those of Q8_0, which is then
inferred with confidence 1. -/
theorem inferTensorFormat_unfaithful :
    ¬ ∀ (claimed : GgufDtype) (n : UInt64) (rawData : List UInt8), 0 < n.toNat → rawData.length < 2 ^ 64 →
      (∀ spec ∈ formatSpecs, expectedBytes n.toNat spec.elementsPerBlock spec.bytesPerBlock < 2 ^ 64) →
      ∃ candidates, inferTensorFormat claimed n rawData = .ok candidates ∧
        ∀ c ∈ candidates, FaithfulScore n.toNat rawData.length c := by
  intro h
  have hlen : (List.replicate 4831838208 (0 : UInt8)).length = 4831838208 := List.length_replicate
  generalize List.replicate 4831838208 (0 : UInt8) = rawData at hlen
  obtain ⟨candidates, hok, hall⟩ := h .Q4_0 (2 ^ 33) rawData (by decide) (by rw [hlen]; decide) (by decide)
  obtain ⟨candidates', hok', hmem⟩ := exists_inferTensorFormat .Q4_0 (2 ^ 33) rawData
  cases hok.symm.trans hok'
  rw [hlen] at hall hmem
  have hspec : ⟨.Q8_0, 1.0625, 32, 34⟩ ∈ formatSpecs := by simp [formatSpecs]
  have hcand : ∃ c, candidate (2 ^ 33) (UInt64.ofNat 4831838208) ⟨.Q8_0, 1.0625, 32, 34⟩ = some c :=
    (exists_candidate_iff hspec (by decide) (by decide)).mpr (.inl ⟨-1, by decide⟩)
  obtain ⟨c, hc⟩ := hcand
  have hne : rawData ≠ [] := by
    rintro rfl
    exact absurd hlen (by decide)
  have hfaithful := hall c ((hmem c).mpr ⟨hne, _, hspec, hc⟩)
  exact absurd ((faithfulScore_iff hspec (by decide) (by decide) hc).mp hfaithful) (by decide)

end PestiGguf
