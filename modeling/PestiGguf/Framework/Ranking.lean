import Mathlib.Data.List.Nodup
import Mathlib.Data.List.Pairwise

/-!
# Stable ranking

A stable sort of a list without repetitions orders by what is sorted by and, among
elements that are equal in it, as the list does (`pairwise_mergeSort_stable`).
-/

namespace Codec

open scoped List

variable {α : Type}

/-- Of two elements of a list without repetitions, one is first. -/
theorem not_sublist_swap {l : List α} (hl : l.Nodup) {a b : α} (h : [a, b] <+ l) : ¬ [b, a] <+ l := by
  induction l with
  | nil => cases h
  | cons x l ih =>
    obtain ⟨hx, hl⟩ := List.nodup_cons.mp hl
    intro h'
    cases h with
    | cons _ h =>
      cases h' with
      | cons _ h' => exact ih hl h h'
      | cons_cons _ _ => exact hx (h.subset (List.mem_cons_of_mem _ List.mem_cons_self))
    | cons_cons _ h =>
      cases h' with
      | cons _ h' => exact hx (h'.subset (List.mem_cons_of_mem _ List.mem_cons_self))
      | cons_cons _ _ => exact hx (h.subset List.mem_cons_self)

/-- Two elements of a list stand in it one after the other. -/
theorem pair_sublist {l : List α} {a b : α} (ha : a ∈ l) (hb : b ∈ l) (hne : a ≠ b) : [a, b] <+ l ∨ [b, a] <+ l := by
  induction l with
  | nil => cases ha
  | cons x l ih =>
    rcases List.mem_cons.mp ha with rfl | ha'
    · exact .inl ((List.singleton_sublist.mpr ((List.mem_cons.mp hb).resolve_left hne.symm)).cons_cons _)
    · rcases List.mem_cons.mp hb with rfl | hb'
      · exact .inr ((List.singleton_sublist.mpr ha').cons_cons _)
      · exact (ih ha' hb').imp (·.cons _) (·.cons _)

section
variable {le : α → α → Bool} (trans : ∀ a b c, le a b → le b c → le a c) (total : ∀ a b, le a b || le b a)
include trans total

theorem pairwise_mergeSort_stable {R : α → α → Prop} {l : List α} (hR : l.Pairwise R) (hl : l.Nodup) :
    (l.mergeSort le).Pairwise fun a b => le a b ∧ (le b a → R a b) := by
  have hsorted := List.pairwise_mergeSort trans total l
  have hnodup : (l.mergeSort le).Nodup := (List.mergeSort_perm l le).nodup_iff.mpr hl
  rw [List.pairwise_iff_forall_sublist] at hsorted hR ⊢
  intro a b hab
  refine ⟨hsorted hab, fun hba => hR ?_⟩
  have hmem {c : α} (hc : c ∈ [a, b]) : c ∈ l := List.mem_mergeSort.mp (hab.subset hc)
  have hne : a ≠ b := by
    rintro rfl
    exact not_sublist_swap hnodup hab hab
  rcases pair_sublist (hmem List.mem_cons_self) (hmem (List.mem_cons_of_mem _ List.mem_cons_self)) hne with h | h
  · exact h
  · exact absurd (List.pair_sublist_mergeSort trans total hba h) (not_sublist_swap hnodup hab)

end

end Codec
