import PestiGguf.Framework.Ranking
import PestiGguf.Proof.Score
import PestiGguf.Proof.StoredSize
import Mathlib.Algebra.Order.Ring.Abs

/-!
# What is inferred of a tensor

The table's rows are the blocks of `stored_size`, so that data of a tensor's
stored size is a candidate of score 1 in its own format
(`candidate_of_expectedSize`), and the candidates are ranked by score and then as
the table is (`inferTensorFormat_complete`). The data may have a high score in
other formats too, and each of these is warned of as a mismatch
(`validateTensorMetadata_silent_iff`): in all formats but Q8_0, superblocks are
(`superblocks_warned`).
-/

namespace PestiGguf

open Codec

namespace Spec

/-- Where a dtype is in the table. -/
def tableIndex (d : GgufDtype) : Nat := formatSpecs.findIdx (·.dtype == d)

/-- By confidence, from the highest, and then as in the table. -/
def RankedBefore (a b : InferredFormat) : Prop :=
  b.confidence < a.confidence ∨ b.confidence = a.confidence ∧ tableIndex a.dtype < tableIndex b.dtype

/-- The candidates for `n` elements in `dataSize` bytes: formats of the table, each
once, ranked, and with confidence 1 those whose stored size it is. -/
structure Inferred (n : UInt64) (dataSize : Nat) (candidates : List InferredFormat) : Prop where
  listed : ∀ c ∈ candidates, ∃ spec ∈ formatSpecs, c.dtype = spec.dtype
  once : (candidates.map (·.dtype)).Nodup
  ranked : candidates.Pairwise RankedBefore
  complete : ∀ spec ∈ formatSpecs, ∀ (t : GgufTensorInfo) (size : UInt64),
    GgufDtype.fromU32 t.dtype = spec.dtype → t.elementCount = n → t.storedSize = .ok size →
      size.toNat = dataSize → ∃ c ∈ candidates, c.dtype = spec.dtype ∧ c.confidence = 1

/-- The size that is expected of `n` elements, in 64 bits. -/
def wrappedBytes (n : Nat) (spec : FormatSpec) : Nat :=
  expectedBytes n spec.elementsPerBlock spec.bytesPerBlock % 2 ^ 64

def isMismatch : Warning → Bool
  | .dtypeMismatch .. => true
  | .suspiciousEmbeddingFormat .. => false

end Spec

open Spec

/-! ## The table -/

theorem blocks_spec : ∀ spec ∈ formatSpecs, spec.dtype.blockSize = some spec.elementsPerBlock ∧
    spec.dtype.bytesPerBlock = some spec.bytesPerBlock := by decide

theorem pairwise_tableIndex : formatSpecs.Pairwise fun a b => tableIndex a.dtype < tableIndex b.dtype := by
  decide

theorem bytesPerBlock_spec_le : ∀ spec ∈ formatSpecs,
    32 * spec.bytesPerBlock.toNat ≤ 34 * spec.elementsPerBlock.toNat ∧ spec.elementsPerBlock.toNat ≤ 256 := by decide

theorem bytesPerBlock_spec_not_dvd : ∀ spec ∈ formatSpecs, ¬ spec.bytesPerBlock.toNat ∣ 2 ^ 64 := by decide

/-- No more bytes than in blocks of Q8_0. -/
theorem expectedBytes_le (n : Nat) {spec : FormatSpec} (hspec : spec ∈ formatSpecs) :
    32 * expectedBytes n spec.elementsPerBlock spec.bytesPerBlock ≤ 34 * (n + 255) := by
  obtain ⟨hratio, hblock⟩ := bytesPerBlock_spec_le spec hspec
  have hdiv := Nat.div_mul_le_self (n + spec.elementsPerBlock.toNat - 1) spec.elementsPerBlock.toNat
  rw [expectedBytes, Nat.ceilDiv_eq_add_pred_div]
  generalize (n + spec.elementsPerBlock.toNat - 1) / spec.elementsPerBlock.toNat = q at hdiv ⊢
  calc 32 * (q * spec.bytesPerBlock.toNat) = q * (32 * spec.bytesPerBlock.toNat) := Nat.mul_left_comm _ _ _
    _ ≤ q * (34 * spec.elementsPerBlock.toNat) := Nat.mul_le_mul_left q hratio
    _ = 34 * (q * spec.elementsPerBlock.toNat) := Nat.mul_left_comm _ _ _
    _ ≤ 34 * (n + 255) := Nat.mul_le_mul_left 34 (by omega)

/-- No expected size overflows for 2^63 elements and fewer. -/
theorem expectedBytes_lt {n : Nat} (hn : n ≤ 2 ^ 63) {spec : FormatSpec} (hspec : spec ∈ formatSpecs) :
    expectedBytes n spec.elementsPerBlock spec.bytesPerBlock < 2 ^ 64 := by
  have := expectedBytes_le n hspec
  omega

/-- One that does is not a multiple of 2^64: it is less than twice that, and no
block divides 2^64. -/
theorem expectedBytes_mod_pos {n : Nat} (hpos : 0 < n) (hn : n < 2 ^ 64) {spec : FormatSpec}
    (hspec : spec ∈ formatSpecs) : 0 < expectedBytes n spec.elementsPerBlock spec.bytesPerBlock % 2 ^ 64 := by
  have hle := expectedBytes_le n hspec
  have hE := expectedBytes_pos hpos hspec
  have hdvd : spec.bytesPerBlock.toNat ∣ expectedBytes n spec.elementsPerBlock spec.bytesPerBlock :=
    Nat.dvd_mul_left _ _
  have hne : expectedBytes n spec.elementsPerBlock spec.bytesPerBlock ≠ 2 ^ 64 := by
    intro h
    exact bytesPerBlock_spec_not_dvd spec hspec (h ▸ hdvd)
  omega

/-! ## The stored size -/

/-- The stored size in a format of the table is the one expected of it. -/
theorem expectedSize_of_storedSize {t : GgufTensorInfo} {size : UInt64} (hsize : t.storedSize = .ok size)
    {spec : FormatSpec} (hspec : spec ∈ formatSpecs) (hd : GgufDtype.fromU32 t.dtype = spec.dtype) :
    expectedSize t.elementCount spec = size := by
  obtain ⟨hB, hS⟩ := blocks_spec spec hspec
  obtain ⟨B, S, hB', hS', q, hq, hbytes⟩ := storedSize_blocks hsize
  rw [hd] at hB' hS'
  cases hB.symm.trans hB'
  cases hS.symm.trans hS'
  have hceil : t.elementCount.toNat ⌈/⌉ spec.elementsPerBlock.toNat = q := by
    rw [hq, ← smul_eq_mul, smul_ceilDiv (elementsPerBlock_pos spec hspec)]
  rw [← UInt64.toNat_inj, toNat_expectedSize _ hspec, expectedBytes, hceil, ← hbytes,
    Nat.mod_eq_of_lt size.toNat_lt]

theorem sizeConfidence_self (size : UInt64) : sizeConfidence size size = 1 := by
  rw [sizeConfidence, toInt_abs_asI32_sub, sub_self]
  exact if_pos rfl

/-- A row whose score is 1. -/
theorem candidate_of_expectedSize {n size : UInt64} {spec : FormatSpec} (hspec : spec ∈ formatSpecs)
    (h : expectedSize n spec = size) :
    ∃ c, candidate n size spec = some c ∧ c.dtype = spec.dtype ∧ c.confidence = 1 := by
  have hone : sizeConfidence size (expectedSize n spec) = 1 := by rw [h, sizeConfidence_self]
  refine ⟨_, (candidate_eq_some_iff hspec).mpr ⟨?_, rfl⟩, rfl, hone⟩
  rw [hone]
  norm_num

/-! ## The ranking -/

theorem dtype_of_candidate {n size : UInt64} {spec : FormatSpec} (hspec : spec ∈ formatSpecs) {c : InferredFormat}
    (h : candidate n size spec = some c) : c.dtype = spec.dtype := by
  rw [((candidate_eq_some_iff hspec).mp h).2]

/-- The candidates stand in the order of the table before they are sorted. -/
theorem pairwise_candidates (n size : UInt64) :
    (formatSpecs.filterMap (candidate n size)).Pairwise fun a b => tableIndex a.dtype < tableIndex b.dtype := by
  rw [List.pairwise_filterMap]
  refine List.Pairwise.imp_of_mem ?_ pairwise_tableIndex
  intro spec spec' hspec hspec' hlt c hc c' hc'
  rw [dtype_of_candidate hspec hc, dtype_of_candidate hspec' hc']
  exact hlt

theorem ranked_mergeSort {l : List InferredFormat} (h : l.Pairwise fun a b => tableIndex a.dtype < tableIndex b.dtype) :
    (l.mergeSort fun a b => decide (b.confidence ≤ a.confidence)).Pairwise RankedBefore := by
  have hnodup : l.Nodup := h.imp fun hlt heq => absurd hlt (by rw [heq]; exact lt_irrefl _)
  refine (pairwise_mergeSort_stable ?_ ?_ h hnodup).imp ?_
  · intro a b c hab hbc
    simp only [decide_eq_true_eq] at hab hbc ⊢
    exact le_trans hbc hab
  · intro a b
    simp only [Bool.or_eq_true, decide_eq_true_eq]
    exact le_total _ _
  · intro a b hab
    simp only [decide_eq_true_eq] at hab
    obtain ⟨hle, hback⟩ := hab
    rcases lt_or_eq_of_le hle with hlt | heq
    · exact .inl hlt
    · exact .inr ⟨heq, hback heq.ge⟩

theorem nodup_dtypes {l : List InferredFormat} (h : l.Pairwise fun a b => tableIndex a.dtype < tableIndex b.dtype) :
    (l.map (·.dtype)).Nodup :=
  List.pairwise_map.mpr (h.imp fun hlt heq => absurd hlt (by rw [heq]; exact lt_irrefl _))

theorem inferred_mergeSort (n : UInt64) (rawData : List UInt8) :
    Inferred n rawData.length ((formatSpecs.filterMap (candidate n (UInt64.ofNat rawData.length))).mergeSort
      fun a b => decide (b.confidence ≤ a.confidence)) where
  listed := by
    intro c hc
    obtain ⟨spec, hspec, hcand⟩ := List.mem_filterMap.mp (List.mem_mergeSort.mp hc)
    exact ⟨spec, hspec, dtype_of_candidate hspec hcand⟩
  once := ((List.mergeSort_perm _ _).map _).nodup_iff.mpr (nodup_dtypes (pairwise_candidates n _))
  ranked := ranked_mergeSort (pairwise_candidates n _)
  complete := by
    intro spec hspec t size hd hcount hsize hlen
    have hexp := expectedSize_of_storedSize hsize hspec hd
    rw [hcount, ← UInt64.ofNat_toNat (x := size), hlen] at hexp
    obtain ⟨c, hc, hdtype, hone⟩ := candidate_of_expectedSize hspec hexp
    exact ⟨c, List.mem_mergeSort.mpr (List.mem_filterMap.mpr ⟨spec, hspec, hc⟩), hdtype, hone⟩

/-- Inference finds the format of a tensor, and no expected size of up to 2^63
elements overflows or is 0. -/
theorem inferTensorFormat_complete (claimed : GgufDtype) (n : UInt64) (rawData : List UInt8) (hpos : 0 < n.toNat)
    (hn : n.toNat ≤ 2 ^ 63) (hdata : 0 < rawData.length) :
    (∃ candidates, inferTensorFormat claimed n rawData = .ok candidates ∧ Inferred n rawData.length candidates) ∧
      ∀ spec ∈ formatSpecs, (expectedSize n spec).toNat =
        expectedBytes n.toNat spec.elementsPerBlock spec.bytesPerBlock ∧ 0 < (expectedSize n spec).toNat := by
  constructor
  · exact ⟨_, inferTensorFormat_cons claimed n (List.ne_nil_of_length_pos hdata), inferred_mergeSort n rawData⟩
  · intro spec hspec
    rw [toNat_expectedSize_of_lt hspec (expectedBytes_lt hn hspec)]
    exact ⟨rfl, expectedBytes_pos hpos hspec⟩

/-- A superblock of Q4_K, in Q4_0 too. -/
theorem inferTensorFormat_complete_sample :
    ∃ candidates, inferTensorFormat .Q4_K 256 (List.replicate 144 0) = .ok candidates ∧
      ∃ c ∈ candidates, c.dtype = .Q4_K ∧ c.confidence = 1 := by
  have hlen : (List.replicate 144 (0 : UInt8)).length = 144 := List.length_replicate
  obtain ⟨⟨candidates, hok, h⟩, _⟩ :=
    inferTensorFormat_complete .Q4_K 256 (List.replicate 144 0) (by decide) (by decide) (by rw [hlen]; decide)
  exact ⟨candidates, hok, h.complete ⟨.Q4_K, 0.5625, 256, 144⟩ (by simp [formatSpecs]) ⟨"t", [256], 0, 12⟩ 144 rfl
    (by decide) rfl (by rw [hlen]; decide)⟩

/-! ## Mismatches -/

theorem not_mismatch_suspicious {name : String} {p q : Prop} [Decidable p] [Decidable q]
    {w : Warning} {suggested suggested' : GgufDtype}
    (h : w ∈ if isSuspiciousLayer name then
        (if p then [Warning.suspiciousEmbeddingFormat name suggested] else []) ++
        (if q then [Warning.suspiciousEmbeddingFormat name suggested'] else [])
      else []) : ¬ isMismatch w := by
  split at h
  · rcases List.mem_append.mp h with h | h <;>
    · split at h
      · rw [List.mem_singleton.mp h]
        exact Bool.false_ne_true
      · cases h
  · cases h

/-- The mismatches are the candidates of other dtypes whose score is above 0.8. -/
theorem exists_validateTensorMetadata (name : String) (dtype : GgufDtype) {shape : List UInt64} {rawData : List UInt8}
    (hdata : rawData ≠ []) (hcount : shape.foldl (· * ·) 1 ≠ 0) {candidates : List InferredFormat}
    (hok : inferTensorFormat dtype (shape.foldl (· * ·) 1) rawData = .ok candidates) :
    ∃ warnings, validateTensorMetadata name dtype shape rawData = .ok warnings ∧
      ((∃ w ∈ warnings, isMismatch w) ↔ ∃ c ∈ candidates, c.dtype ≠ dtype ∧ 0.8 < c.confidence) := by
  have hrun : ¬ (rawData.isEmpty ∨ shape.foldl (· * ·) 1 = 0) := by
    rw [List.isEmpty_iff]
    exact not_or.mpr ⟨hdata, hcount⟩
  simp only [validateTensorMetadata, if_neg hrun, hok]
  refine ⟨_, rfl, ?_, ?_⟩
  · rintro ⟨w, hw, hmis⟩
    rcases List.mem_append.mp hw with hw | hw
    · obtain ⟨c, hc, hif⟩ := List.mem_filterMap.mp hw
      split at hif
      · rename_i h
        exact ⟨c, hc, h⟩
      · cases hif
    · exact absurd hmis (not_mismatch_suspicious hw)
  · rintro ⟨c, hc, h⟩
    exact ⟨_, List.mem_append_left _ (List.mem_filterMap.mpr ⟨c, hc, if_pos h⟩), rfl⟩

/-- The sizes whose score for a format is above 0.8. -/
theorem exists_high_candidate_iff {n size : UInt64} (hn : 0 < n.toNat) {spec : FormatSpec} (hspec : spec ∈ formatSpecs) :
    (∃ c, candidate n size spec = some c ∧ 0.8 < c.confidence) ↔
      NearMultiple (2 ^ 31) 5 (wrappedBytes n.toNat spec) (size.toNat - wrappedBytes n.toNat spec) := by
  have hhigh : (0.8 : ℚ) = 1 - 1 / (5 : Nat) := by norm_num
  have hexp : (expectedSize n spec).toNat = wrappedBytes n.toNat spec := toNat_expectedSize n hspec
  have hpos : 0 < (expectedSize n spec).toNat := by
    rw [hexp]
    exact expectedBytes_mod_pos hn n.toNat_lt hspec
  rw [← hexp, ← lt_sizeConfidence_iff (by decide) size hpos, ← hhigh]
  constructor
  · rintro ⟨c, hc, h⟩
    rwa [((candidate_eq_some_iff hspec).mp hc).2] at h
  · intro h
    exact ⟨_, (candidate_eq_some_iff hspec).mpr ⟨lt_trans (by norm_num) h, rfl⟩, h⟩

/-- A tensor with elements has bytes. -/
theorem storedSize_pos {t : GgufTensorInfo} (hpos : 0 < t.elementCount.toNat) {size : UInt64}
    (hsize : t.storedSize = .ok size) : 0 < size.toNat := by
  obtain ⟨B, S, _, hS, q, hq, hbytes⟩ := storedSize_blocks hsize
  rw [hbytes]
  rw [hq] at hpos
  exact Nat.mul_pos (Nat.pos_of_mul_pos_left hpos) (bytesPerBlock_pos hS)

/-- The mismatches of a tensor and its data, by the sizes. -/
theorem exists_mismatch_iff (name : String) {t : GgufTensorInfo} {rawData : List UInt8} {size : UInt64}
    (hpos : 0 < elements t) (hlt : elements t < 2 ^ 64) (hsize : t.storedSize = .ok size)
    (hlen : rawData.length = size.toNat) :
    ∃ warnings, validateTensorMetadata name (GgufDtype.fromU32 t.dtype) t.shape rawData = .ok warnings ∧
      ((∃ w ∈ warnings, isMismatch w) ↔ ∃ spec ∈ formatSpecs, spec.dtype ≠ GgufDtype.fromU32 t.dtype ∧
        NearMultiple (2 ^ 31) 5 (wrappedBytes (elements t) spec) (size.toNat - wrappedBytes (elements t) spec)) := by
  have hcount := toNat_elementCount t
  rw [Nat.mod_eq_of_lt hlt] at hcount
  rw [← hcount] at hpos ⊢
  have hdata : rawData ≠ [] := List.ne_nil_of_length_pos (hlen ▸ storedSize_pos hpos hsize)
  have hne : t.elementCount ≠ 0 := by
    intro h
    rw [h] at hpos
    exact absurd hpos (by decide)
  obtain ⟨candidates, hok, hmem⟩ := exists_inferTensorFormat (GgufDtype.fromU32 t.dtype) t.elementCount rawData
  obtain ⟨warnings, hrun, hwarn⟩ := exists_validateTensorMetadata name (GgufDtype.fromU32 t.dtype) hdata hne hok
  rw [hlen, UInt64.ofNat_toNat] at hmem
  refine ⟨warnings, hrun, hwarn.trans ?_⟩
  constructor
  · rintro ⟨c, hc, hd, hhigh⟩
    obtain ⟨_, spec, hspec, hcand⟩ := (hmem c).mp hc
    rw [dtype_of_candidate hspec hcand] at hd
    exact ⟨spec, hspec, hd, (exists_high_candidate_iff hpos hspec).mp ⟨c, hcand, hhigh⟩⟩
  · rintro ⟨spec, hspec, hd, hnear⟩
    obtain ⟨c, hc, hhigh⟩ := (exists_high_candidate_iff hpos hspec).mpr hnear
    exact ⟨c, (hmem c).mpr ⟨hdata, spec, hspec, hc⟩, by rwa [dtype_of_candidate hspec hc], hhigh⟩

/-- Data of a tensor's stored size raises no mismatch if and only if that size
is, up to any multiple of 2^32, a fifth or more from the one expected in each
other format (and not 2^31 off it). -/
theorem validateTensorMetadata_silent_iff (name : String) (t : GgufTensorInfo) (rawData : List UInt8) (size : UInt64)
    (hpos : 0 < elements t) (hlt : elements t < 2 ^ 64) (hsize : t.storedSize = .ok size)
    (hlen : rawData.length = size.toNat) :
    (∃ warnings, validateTensorMetadata name (GgufDtype.fromU32 t.dtype) t.shape rawData = .ok warnings ∧
      ∀ w ∈ warnings, ¬ isMismatch w) ↔
    ∀ spec ∈ formatSpecs, spec.dtype ≠ GgufDtype.fromU32 t.dtype →
      ¬ NearMultiple (2 ^ 31) 5 (wrappedBytes (elements t) spec) (size.toNat - wrappedBytes (elements t) spec) := by
  obtain ⟨warnings, hrun, hmis⟩ := exists_mismatch_iff name hpos hlt hsize hlen
  constructor
  · rintro ⟨warnings', hrun', hsilent⟩ spec hspec hd hnear
    cases hrun.symm.trans hrun'
    obtain ⟨w, hw, h⟩ := hmis.mpr ⟨spec, hspec, hd, hnear⟩
    exact hsilent w hw h
  · intro h
    refine ⟨warnings, hrun, fun w hw hw' => ?_⟩
    obtain ⟨spec, hspec, hd, hnear⟩ := hmis.mp ⟨w, hw, hw'⟩
    exact h spec hspec hd hnear

/-- 256 elements of F32. -/
theorem validateTensorMetadata_silent_sample :
    ∃ warnings, validateTensorMetadata "t" .F32 [256] (List.replicate 1024 0) = .ok warnings ∧
      ∀ w ∈ warnings, ¬ isMismatch w := by
  have hfar : ∀ spec ∈ formatSpecs,
      ¬ 5 * wrappedAbs (2 ^ 31) (1024 - wrappedBytes 256 spec) < wrappedBytes 256 spec := by decide
  refine (validateTensorMetadata_silent_iff "t" ⟨"t", [256], 0, 0⟩ (List.replicate 1024 0) 1024 (by decide) (by decide)
    (by decide) List.length_replicate).mpr fun spec hspec _ => ?_
  exact mt (mul_wrappedAbs_lt_iff (by decide) (by decide) (expectedBytes_mod_pos (by decide) (by decide) hspec)).mpr
    (hfar spec hspec)

/-- A superblock of Q4_K has the size of its elements in Q4_0. -/
theorem validateTensorMetadata_not_silent :
    ¬ ∀ (name : String) (t : GgufTensorInfo) (rawData : List UInt8) (size : UInt64), 0 < elements t →
      elements t < 2 ^ 64 → t.storedSize = .ok size → rawData.length = size.toNat →
      ∃ warnings, validateTensorMetadata name (GgufDtype.fromU32 t.dtype) t.shape rawData = .ok warnings ∧
        ∀ w ∈ warnings, ¬ isMismatch w := by
  intro h
  have hpos : 0 < elements ⟨"t", [256], 0, 12⟩ := by decide
  have hlt : elements ⟨"t", [256], 0, 12⟩ < 2 ^ 64 := by decide
  have hsize : GgufTensorInfo.storedSize ⟨"t", [256], 0, 12⟩ = .ok 144 := rfl
  have hlen : (List.replicate 144 (0 : UInt8)).length = UInt64.toNat 144 := List.length_replicate
  obtain ⟨warnings, hrun, hmis⟩ := exists_mismatch_iff "t" hpos hlt hsize hlen
  obtain ⟨warnings', hrun', hsilent⟩ := h "t" ⟨"t", [256], 0, 12⟩ (List.replicate 144 0) 144 hpos hlt hsize hlen
  cases hrun.symm.trans hrun'
  obtain ⟨w, hw, hw'⟩ := hmis.mpr ⟨⟨.Q4_0, 0.5625, 32, 18⟩, by simp [formatSpecs], by decide, .inl ⟨0, by decide⟩⟩
  exact hsilent w hw hw'

/-! ## Superblocks -/

/-- The bytes of 256 elements. -/
def superblockBytes (spec : FormatSpec) : Nat := 256 / spec.elementsPerBlock.toNat * spec.bytesPerBlock.toNat

theorem superblock_spec : ∀ spec ∈ formatSpecs, spec.dtype ≠ .Q8_0 →
    spec.elementsPerBlock.toNat * (256 / spec.elementsPerBlock.toNat) = 256 ∧ superblockBytes spec ≤ 256 := by decide

/-- Every format but Q8_0 has another less than a fifth from it. -/
theorem exists_close_spec : ∀ spec ∈ formatSpecs, spec.dtype ≠ .Q8_0 → ∃ close ∈ formatSpecs,
    close.dtype ≠ .Q8_0 ∧ close.dtype ≠ spec.dtype ∧
      5 * |(superblockBytes spec : Int) - superblockBytes close| < superblockBytes close := by decide

theorem wrappedBytes_superblocks {q : Nat} (hq : 256 * q < 2 ^ 64) {spec : FormatSpec} (hspec : spec ∈ formatSpecs)
    (hd : spec.dtype ≠ .Q8_0) : wrappedBytes (256 * q) spec = superblockBytes spec * q := by
  obtain ⟨hblocks, hle⟩ := superblock_spec spec hspec hd
  have hceil : (256 * q) ⌈/⌉ spec.elementsPerBlock.toNat = 256 / spec.elementsPerBlock.toNat * q := by
    conv => lhs; rw [← hblocks, Nat.mul_assoc, ← smul_eq_mul, smul_ceilDiv (elementsPerBlock_pos spec hspec)]
  have hlt : superblockBytes spec * q < 2 ^ 64 := lt_of_le_of_lt (Nat.mul_le_mul_right q hle) hq
  rw [wrappedBytes, expectedBytes, hceil, Nat.mul_right_comm, ← superblockBytes, Nat.mod_eq_of_lt hlt]

/-- A tensor of whole superblocks in a format of the table is warned of, whatever
its size, but for Q8_0. -/
theorem superblocks_warned (name : String) {t : GgufTensorInfo} {rawData : List UInt8} {size : UInt64}
    (hpos : 0 < elements t) (hlt : elements t < 2 ^ 64) (hsize : t.storedSize = .ok size)
    (hlen : rawData.length = size.toNat) (hblocks : 256 ∣ elements t) {spec : FormatSpec} (hspec : spec ∈ formatSpecs)
    (hd : GgufDtype.fromU32 t.dtype = spec.dtype) (hne : spec.dtype ≠ .Q8_0) :
    ∃ warnings, validateTensorMetadata name spec.dtype t.shape rawData = .ok warnings ∧ ∃ w ∈ warnings, isMismatch w := by
  obtain ⟨warnings, hrun, hmis⟩ := exists_mismatch_iff name hpos hlt hsize hlen
  obtain ⟨q, hq⟩ := hblocks
  obtain ⟨close, hclose, hclose', hdtype, hfifth⟩ := exists_close_spec spec hspec hne
  rw [hq] at hpos hlt
  have hown : size.toNat = superblockBytes spec * q := by
    have hcount := toNat_elementCount t
    rw [hq, Nat.mod_eq_of_lt hlt] at hcount
    rw [← expectedSize_of_storedSize hsize hspec hd, toNat_expectedSize _ hspec, hcount]
    exact wrappedBytes_superblocks hlt hspec hne
  rw [hd] at hrun hmis
  refine ⟨warnings, hrun, hmis.mpr ⟨close, hclose, hdtype, .inl ⟨0, ?_⟩⟩⟩
  have hqpos : (0 : Int) < q := by omega
  rw [hq, wrappedBytes_superblocks hlt hclose hclose', hown, Int.mul_zero, sub_zero, Nat.cast_mul, Nat.cast_mul, ← sub_mul,
    abs_mul, abs_of_pos hqpos, ← mul_assoc]
  exact Int.mul_lt_mul_of_pos_right hfifth hqpos

/-- Two superblocks of Q6_K. -/
theorem superblocks_warned_sample :
    ∃ warnings, validateTensorMetadata "t" .Q6_K [2, 256] (List.replicate 420 0) = .ok warnings ∧
      ∃ w ∈ warnings, isMismatch w := by
  have hsize : GgufTensorInfo.storedSize ⟨"t", [2, 256], 0, 14⟩ = .ok 420 := by decide
  have hspec : (⟨.Q6_K, 0.8203125, 256, 210⟩ : FormatSpec) ∈ formatSpecs := by simp [formatSpecs]
  exact superblocks_warned "t" (by decide) (by decide) hsize List.length_replicate (by decide) hspec rfl (by decide)

/-- The row of smaller blocks, above in the table, that a format of superblocks has
the size of. -/
theorem exists_twin : ∀ spec ∈ formatSpecs, spec.dtype = .Q4_K ∨ spec.dtype = .Q5_K → ∃ twin ∈ formatSpecs,
    superblockBytes twin = superblockBytes spec ∧ tableIndex twin.dtype < tableIndex spec.dtype ∧
      (spec.dtype = .Q4_K → twin.dtype = .Q4_0) ∧ (spec.dtype = .Q5_K → twin.dtype = .Q5_0) ∧
      twin.dtype ≠ .Q8_0 ∧ spec.dtype ≠ .Q8_0 := by decide

/-- Of whole superblocks, rows of one size have one score. -/
theorem candidate_twin {n dataSize : UInt64} (h256 : 256 ∣ n.toNat) {spec twin : FormatSpec}
    (hspec : spec ∈ formatSpecs) (htwin : twin ∈ formatSpecs) (hd : spec.dtype ≠ .Q8_0) (hd' : twin.dtype ≠ .Q8_0)
    (heq : superblockBytes twin = superblockBytes spec) {c : InferredFormat} (hc : candidate n dataSize spec = some c) :
    ∃ c', candidate n dataSize twin = some c' ∧ c'.dtype = twin.dtype ∧ c'.confidence = c.confidence := by
  obtain ⟨q, hq⟩ := h256
  have hlt : 256 * q < 2 ^ 64 := hq ▸ n.toNat_lt
  have hsize : expectedSize n twin = expectedSize n spec := by
    have hbytes (row : FormatSpec) (hrow : row ∈ formatSpecs) (h8 : row.dtype ≠ .Q8_0) :
        (expectedSize n row).toNat = superblockBytes row * q := by
      rw [toNat_expectedSize n hrow, hq]
      exact wrappedBytes_superblocks hlt hrow h8
    rw [← UInt64.toNat_inj, hbytes twin htwin hd', hbytes spec hspec hd, heq]
  obtain ⟨hhalf, rfl⟩ := (candidate_eq_some_iff hspec).mp hc
  rw [← hsize] at hhalf
  exact ⟨_, (candidate_eq_some_iff htwin).mpr ⟨hhalf, rfl⟩, rfl, by rw [hsize]⟩

/-- Of two candidates with one score, the one above in the table is ranked first. -/
theorem index_lt_of_ranked {l : List InferredFormat} (h : l.Pairwise RankedBefore) {a b : InferredFormat} {i : Nat}
    (ha : l[i]? = some a) (hb : b ∈ l) (hconf : b.confidence = a.confidence)
    (hlt : tableIndex b.dtype < tableIndex a.dtype) : ∃ j < i, l[j]? = some b := by
  obtain ⟨j, hj⟩ := List.getElem?_of_mem hb
  refine ⟨j, ?_, hj⟩
  obtain ⟨hi', rfl⟩ := List.getElem?_eq_some_iff.mp ha
  obtain ⟨hj', rfl⟩ := List.getElem?_eq_some_iff.mp hj
  by_contra hle
  rcases Nat.lt_or_eq_of_le (Nat.le_of_not_lt hle) with hij | rfl
  · rcases List.pairwise_iff_getElem.mp h i j hi' hj' hij with hless | ⟨-, hindex⟩
    · exact absurd hconf hless.ne
    · exact absurd hlt (Nat.lt_asymm hindex)
  · exact lt_irrefl _ hlt

/-- Of a whole number of superblocks, whatever the data, Q4_K and Q5_K are never
the first that is inferred: Q4_0 and Q5_0 are, with the same score, ranked before
them. -/
theorem superblocks_never_first (claimed : GgufDtype) (n : UInt64) (h256 : 256 ∣ n.toNat) (rawData : List UInt8)
    (candidates : List InferredFormat) (hok : inferTensorFormat claimed n rawData = .ok candidates) (i : Nat)
    (c : InferredFormat) (hc : candidates[i]? = some c) (hd : c.dtype = .Q4_K ∨ c.dtype = .Q5_K) :
    ∃ j c', j < i ∧ candidates[j]? = some c' ∧ c'.confidence = c.confidence ∧
      (c.dtype = .Q4_K → c'.dtype = .Q4_0) ∧ (c.dtype = .Q5_K → c'.dtype = .Q5_0) := by
  obtain ⟨candidates', hok', hmem⟩ := exists_inferTensorFormat claimed n rawData
  obtain rfl := Except.ok.inj (hok.symm.trans hok')
  obtain ⟨hdata, spec, hspec, hcand⟩ := (hmem c).mp (List.mem_of_getElem? hc)
  rw [dtype_of_candidate hspec hcand] at hd ⊢
  obtain ⟨twin, htwin, heq, hindex, h4, h5, h8', h8⟩ := exists_twin spec hspec hd
  obtain ⟨c', hcand', hdtype, hconf⟩ := candidate_twin h256 hspec htwin h8 h8' heq hcand
  have hranked : candidates.Pairwise RankedBefore := by
    rw [inferTensorFormat_cons claimed n hdata] at hok
    rw [← Except.ok.inj hok]
    exact (inferred_mergeSort n rawData).ranked
  rw [← dtype_of_candidate hspec hcand, ← hdtype] at hindex
  have hmem' : c' ∈ candidates := (hmem c').mpr ⟨hdata, twin, htwin, hcand'⟩
  obtain ⟨j, hj, hget⟩ := index_lt_of_ranked hranked hc hmem' hconf hindex
  exact ⟨j, c', hj, hget, hconf, fun h => hdtype.trans (h4 h), fun h => hdtype.trans (h5 h)⟩

/-- A superblock of Q4_K is taken for Q4_0 first. -/
theorem superblocks_never_first_sample :
    ∃ candidates, inferTensorFormat .Q4_K 256 (List.replicate 144 0) = .ok candidates ∧
      ∃ (j : Nat) (c : InferredFormat), candidates[j]? = some c ∧ c.dtype = .Q4_0 := by
  have hspec : (⟨.Q4_K, 0.5625, 256, 144⟩ : FormatSpec) ∈ formatSpecs := by simp [formatSpecs]
  have hsize : expectedSize 256 ⟨.Q4_K, 0.5625, 256, 144⟩ = UInt64.ofNat (List.replicate 144 (0 : UInt8)).length := by
    rw [List.length_replicate]
    decide
  obtain ⟨c, hcand, hd, -⟩ := candidate_of_expectedSize hspec hsize
  obtain ⟨candidates, hok, hmem⟩ := exists_inferTensorFormat .Q4_K 256 (List.replicate 144 0)
  obtain ⟨i, hi⟩ := List.getElem?_of_mem ((hmem c).mpr ⟨List.cons_ne_nil _ _, _, hspec, hcand⟩)
  obtain ⟨j, c', -, hj, -, h4, -⟩ := superblocks_never_first .Q4_K 256 (by decide) _ candidates hok i c hi (.inl hd)
  exact ⟨candidates, hok, j, c', hj, h4 hd⟩

end PestiGguf
