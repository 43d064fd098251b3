import PestiGguf.Impl.DtypeProof
import PestiGguf.Proof.Conformance
import PestiGguf.Proof.TensorSizes

/-!
# The check of dtypes and sizes

The table of sums by dtype has one row for each dtype of the file, in order, with
the sums of its tensors, and nothing is lost between the tensors and the totals
(`byDtype_table`). The check passes where the conformance suite does; what it
leaves out, a file without tensors or data, sizes that are errors and sums that
wrap, is all that the suite refuses beyond it (`checkFile_iff_pass`).
-/

namespace PestiGguf

open Codec Spec DtypeProof
open CorpusConformance (paddedSum checkAlign checkFile)

/-- The sums over some tensors. -/
def Spec.totals (align : UInt64) (ts : List GgufTensorInfo) : Totals where
  tensors := UInt32.ofNat ts.length
  raw := (ts.map sizeOrZero).sum
  elems := (ts.map (·.elementCount)).sum
  padded := (ts.map fun t => DtypeProof.alignUp (sizeOrZero t) align).sum

/-- Sums that have begun. -/
theorem foldl_addTensor_totals (align : UInt64) (ts : List GgufTensorInfo) (entry : Totals) :
    ts.foldl (fun v t => some (addTensor align t (v.getD ⟨0, 0, 0, 0⟩))) (some entry) = some
      { tensors := entry.tensors + (totals align ts).tensors
        raw := entry.raw + (totals align ts).raw
        elems := entry.elems + (totals align ts).elems
        padded := entry.padded + (totals align ts).padded } := by
  induction ts generalizing entry with
  | nil => simp [totals]
  | cons t ts ih =>
    rw [List.foldl_cons, ih]
    simp only [addTensor, totals, Option.getD_some, List.length_cons, List.map_cons, List.sum_cons, add_assoc]
    rw [Nat.add_comm, UInt32.ofNat_add]
    rfl

/-- The sums of all of a group. -/
theorem foldl_totals (align : UInt64) {ts : List GgufTensorInfo} (hne : ts ≠ []) :
    ts.foldl (fun v t => some (addTensor align t (v.getD ⟨0, 0, 0, 0⟩))) none = some (totals align ts) := by
  cases ts with
  | nil => exact absurd rfl hne
  | cons t ts =>
    rw [List.foldl_cons, foldl_addTensor_totals]
    simp only [addTensor, totals, Option.getD_none, List.length_cons, List.map_cons, List.sum_cons, zero_add]
    rw [Nat.add_comm, UInt32.ofNat_add]
    rfl

/-- The rows add up to the tensors. -/
theorem sum_byDtype (align : UInt64) (ts : List GgufTensorInfo) :
    ((byDtype align ts).map (·.2.raw)).sum = (totals align ts).raw ∧
    ((byDtype align ts).map (·.2.elems)).sum = (totals align ts).elems ∧
    ((byDtype align ts).map (·.2.padded)).sum = (totals align ts).padded := by
  exact ⟨sum_gather (m := Totals.raw) (fun t v => rfl) rfl ts, sum_gather (m := Totals.elems) (fun t v => rfl) rfl ts,
    sum_gather (m := Totals.padded) (fun t v => rfl) rfl ts⟩

/-- The rows of the table are those of the dtypes there are, each once and in
order, with the sums over the tensors of the dtype; and the rows add up to the
tensors. -/
theorem byDtype_table (align : UInt64) (ts : List GgufTensorInfo) :
    Sorted (byDtype align ts) ∧
    (∀ key row, (key, row) ∈ byDtype align ts ↔
      (∃ t ∈ ts, dtypeKey t = key) ∧ row = totals align (ts.filter (dtypeKey · = key))) ∧
    ((byDtype align ts).map (·.2.raw)).sum = (totals align ts).raw ∧
    ((byDtype align ts).map (·.2.elems)).sum = (totals align ts).elems ∧
    ((byDtype align ts).map (·.2.padded)).sum = (totals align ts).padded := by
  refine ⟨gather_sorted ts, fun key row => ?_, sum_byDtype align ts⟩
  rw [byDtype, (gather_sorted ts).mem_iff, lookup_gather]
  by_cases hne : ts.filter (dtypeKey · = key) = []
  · rw [hne, List.foldl_nil]
    refine iff_of_false nofun ?_
    rintro ⟨⟨t, ht, hk⟩, -⟩
    exact List.filter_eq_nil_iff.mp hne t ht (decide_eq_true hk)
  · have hex : ∃ t ∈ ts, dtypeKey t = key := by
      obtain ⟨t, ht⟩ := List.exists_mem_of_ne_nil _ hne
      exact ⟨t, (List.mem_filter.mp ht).1, of_decide_eq_true (List.mem_filter.mp ht).2⟩
    rw [foldl_totals align hne, Option.some.injEq, eq_comm, and_iff_right hex]

/-! ## The two checks -/

theorem foldl_add (es : List (String × Totals)) (f : Totals → UInt64) :
    es.foldl (fun sum e => sum + f e.2) 0 = (es.map (f ·.2)).sum := by
  have from_any (a : UInt64) : es.foldl (fun sum e => sum + f e.2) a = a + (es.map (f ·.2)).sum := by
    induction es generalizing a with
    | nil => simp
    | cons e es ih => rw [List.foldl_cons, ih, List.map_cons, List.sum_cons, add_assoc]
  rw [from_any, zero_add]

/-- The sizes of the tensors, padded, as numbers. -/
def Spec.paddedTotal (align : UInt64) (ts : List GgufTensorInfo) : Nat :=
  (ts.map fun t => (CorpusConformance.alignUp (sizeOrZero t) align).toNat).sum

/-- The loop of the suite: no size is an error, and no sum on the way wraps. -/
theorem paddedSum_eq_ok {align : UInt64} {ts : List GgufTensorInfo} {sum total : UInt64} :
    paddedSum align ts sum = .ok total ↔ (∀ t ∈ ts, ∃ size, t.storedSize = .ok size) ∧
      sum.toNat + paddedTotal align ts < 2 ^ 64 ∧ total.toNat = sum.toNat + paddedTotal align ts := by
  induction ts generalizing sum with
  | nil =>
    rw [paddedSum, Except.ok.injEq, ← UInt64.toNat_inj, eq_comm]
    exact ⟨fun h => ⟨fun _ ht => (List.not_mem_nil ht).elim, sum.toNat_lt, h⟩, fun h => h.2.2⟩
  | cons t ts ih =>
    rw [paddedSum, List.forall_mem_cons]
    cases hs : t.storedSize with
    | error e =>
      refine iff_of_false (fun h => by cases h) fun h => ?_
      obtain ⟨⟨_, hsize⟩, -⟩ := h.1
      cases hsize
    | ok size =>
      have hsize : sizeOrZero t = size := by rw [sizeOrZero, hs]
      have htotal : paddedTotal align (t :: ts) =
          (CorpusConformance.alignUp size align).toNat + paddedTotal align ts := by
        rw [paddedTotal, List.map_cons, List.sum_cons, hsize]
        rfl
      rw [htotal]
      simp only [checkedAdd]
      by_cases hlt : sum.toNat + (CorpusConformance.alignUp size align).toNat < 2 ^ 64
      · have hadd : (sum + CorpusConformance.alignUp size align).toNat =
            sum.toNat + (CorpusConformance.alignUp size align).toNat := by
          rw [UInt64.toNat_add, Nat.mod_eq_of_lt hlt]
        rw [if_pos hlt]
        simp only [ih, hadd, Nat.add_assoc]
        exact and_congr_left' ⟨fun h => ⟨⟨size, rfl⟩, h⟩, fun h => h.2⟩
      · rw [if_neg hlt]
        refine iff_of_false (fun h => by cases h) fun h => ?_
        omega

theorem toNat_padded {align : UInt64} {ts : List GgufTensorInfo} (h : paddedTotal align ts < 2 ^ 64) :
    (totals align ts).padded.toNat = paddedTotal align ts :=
  (toNat_sum _ ts).trans (Nat.mod_eq_of_lt h)

/-- What `main` computes of a file. -/
theorem main_eq {fs : FileSystem} {path : String} {file : List UInt8} {h : GgufHeader} (hfs : fs path = some file)
    (hp : parseGguf fs path = .ok h) : ∃ report, DtypeProof.main fs path = some report ∧
      report.byDtype = byDtype (checkAlign h) h.tensors ∧ report.fsize = UInt64.ofNat file.length ∧
      (report.pass = true ↔
        UInt64.ofNat file.length - h.dataSectionStart = (totals (checkAlign h) h.tensors).padded) := by
  refine ⟨_, by simp only [DtypeProof.main, hp, hfs]; rfl, rfl, rfl, ?_⟩
  obtain ⟨-, -, hpadded⟩ := sum_byDtype (checkAlign h) h.tensors
  simp only [Report.pass, decide_eq_true_eq]
  rw [← hpadded, ← foldl_add (byDtype (checkAlign h) h.tensors) Totals.padded, ← UInt64.toNat_inj, sub_eq_zero,
    Nat.cast_inj]
  rfl

/-- The suite accepts a file exactly where the check passes and the file has
tensors, all with a size, more bytes than its header, and a sum that does not
wrap. -/
theorem checkFile_iff_pass (fs : FileSystem) (path : String) : (∃ r, checkFile fs path = .ok r) ↔
    ∃ h report, parseGguf fs path = .ok h ∧ DtypeProof.main fs path = some report ∧ report.pass = true ∧
      h.tensors ≠ [] ∧ (∀ t ∈ h.tensors, ∃ size, t.storedSize = .ok size) ∧ h.dataSectionStart < report.fsize ∧
      paddedTotal (checkAlign h) h.tensors < 2 ^ 64 := by
  constructor
  · rintro ⟨r, hr⟩
    obtain ⟨h, hp⟩ : ∃ h, parseGguf fs path = .ok h := by
      cases hp : parseGguf fs path with
      | ok h => exact ⟨h, rfl⟩
      | error e => simp [checkFile, hp] at hr
    obtain ⟨file, hfs, -⟩ := parseGguf_eq_ok.mp hp
    obtain ⟨hne, hlt, hsum⟩ := (checkFile_ok hfs hp).mp ⟨r, hr⟩
    obtain ⟨hsizes, hfit, htotal⟩ := paddedSum_eq_ok.mp hsum
    rw [UInt64.toNat_zero, Nat.zero_add] at hfit htotal
    obtain ⟨report, hmain, -, hfsize, hpass⟩ := main_eq hfs hp
    refine ⟨h, report, hp, hmain, hpass.mpr ?_, hne, hsizes, hfsize ▸ hlt, hfit⟩
    exact UInt64.toNat_inj.mp (htotal.trans (toNat_padded hfit).symm)
  · rintro ⟨h, report, hp, hmain, hpass, hne, hsizes, hlt, hfit⟩
    obtain ⟨file, hfs, -⟩ := parseGguf_eq_ok.mp hp
    obtain ⟨report', hmain', -, hfsize, hpass'⟩ := main_eq hfs hp
    obtain rfl := Option.some.inj (hmain.symm.trans hmain')
    refine (checkFile_ok hfs hp).mpr ⟨hne, hfsize ▸ hlt, ?_⟩
    rw [hpass'.mp hpass]
    refine paddedSum_eq_ok.mpr ⟨hsizes, ?_, ?_⟩
    · rwa [UInt64.toNat_zero, Nat.zero_add]
    · rw [toNat_padded hfit, UInt64.toNat_zero, Nat.zero_add]

end PestiGguf
