import Mathlib.Algebra.BigOperators.Group.List.Basic
import Mathlib.Order.Lattice

/-!
# Grouping

An ordered map is held as its entries in the order of their keys, and `upsert`
changes the entry of a key, or starts one. Items gathered under their keys leave
one entry for each key, in order (`gather_sorted`), made of the items of this key
in their order (`lookup_gather`), and what is added up in the entries is what the
items add up to (`sum_gather`).
-/

namespace Codec

variable {κ ν ι M : Type} [LinearOrder κ]

/-- The entry of `k`, or else `init`, changed by `f`. -/
def upsert (k : κ) (init : ν) (f : ν → ν) : List (κ × ν) → List (κ × ν)
  | [] => [(k, f init)]
  | e :: es =>
    if k < e.1 then (k, f init) :: e :: es
    else if k = e.1 then (k, f e.2) :: es
    else e :: upsert k init f es

/-- The items, one after another, under their keys. -/
def gather (key : ι → κ) (init : ν) (f : ι → ν → ν) (items : List ι) : List (κ × ν) :=
  items.foldl (fun es i => upsert (key i) init (f i) es) []

/-- Entries in the order of their keys. -/
def Sorted (es : List (κ × ν)) : Prop := es.Pairwise fun e e' => e.1 < e'.1

section
variable {k : κ} {init : ν} {f : ν → ν} {es : List (κ × ν)}

theorem key_of_mem_upsert {e : κ × ν} (h : e ∈ upsert k init f es) : e.1 = k ∨ ∃ e' ∈ es, e'.1 = e.1 := by
  induction es with
  | nil => exact .inl (congrArg Prod.fst (List.mem_singleton.mp h))
  | cons d es ih =>
    rw [upsert] at h
    split at h
    · exact (List.mem_cons.mp h).imp (congrArg Prod.fst) fun h => ⟨e, h, rfl⟩
    · split at h
      · exact (List.mem_cons.mp h).imp (congrArg Prod.fst) fun h => ⟨e, List.mem_cons_of_mem _ h, rfl⟩
      · rcases List.mem_cons.mp h with rfl | h
        · exact .inr ⟨e, List.mem_cons_self, rfl⟩
        · exact (ih h).imp_right fun ⟨e', he', hk⟩ => ⟨e', List.mem_cons_of_mem _ he', hk⟩

theorem Sorted.upsert (h : Sorted es) : Sorted (upsert k init f es) := by
  induction es with
  | nil => exact List.pairwise_singleton _ _
  | cons d es ih =>
    obtain ⟨hd, hes⟩ := List.pairwise_cons.mp h
    rw [Codec.upsert]
    split
    · rename_i hlt
      refine List.pairwise_cons.mpr ⟨fun e he => ?_, h⟩
      rcases List.mem_cons.mp he with rfl | he
      · exact hlt
      · exact lt_trans hlt (hd e he)
    · split
      · rename_i _ heq
        exact List.pairwise_cons.mpr ⟨fun e he => heq ▸ hd e he, hes⟩
      · rename_i hlt hne
        refine List.pairwise_cons.mpr ⟨fun e he => ?_, ih hes⟩
        rcases key_of_mem_upsert he with hk | ⟨e', he', hk⟩
        · exact hk ▸ lt_of_le_of_ne (not_lt.mp hlt) (Ne.symm hne)
        · exact hk ▸ hd e' he'

/-- The entries of a map are what is looked up in it. -/
theorem Sorted.mem_iff (h : Sorted es) {v : ν} : (k, v) ∈ es ↔ es.lookup k = some v := by
  induction es with
  | nil => simp
  | cons d es ih =>
    obtain ⟨hd, hes⟩ := List.pairwise_cons.mp h
    rw [List.mem_cons, List.lookup_cons]
    by_cases hk : k = d.1
    · have hbeq : (k == d.1) = true := by simpa using hk
      have hnot : (k, v) ∉ es := fun hm => absurd hk (hd _ hm).ne'
      rw [hbeq, Option.some.injEq, or_iff_left hnot, Prod.ext_iff]
      exact ⟨fun e => e.2.symm, fun e => ⟨hk, e.symm⟩⟩
    · have hbeq : (k == d.1) = false := by simpa using hk
      rw [hbeq, ← ih hes, or_iff_right fun e => hk (congrArg Prod.fst e)]

theorem lookup_eq_none_of_lt (h : ∀ e ∈ es, k < e.1) : es.lookup k = none := by
  rw [List.lookup_eq_none_iff]
  exact fun e he => by simpa using (h e he).ne

theorem lookup_upsert_self (h : Sorted es) :
    (upsert k init f es).lookup k = some (f ((es.lookup k).getD init)) := by
  induction es with
  | nil => simp [upsert]
  | cons d es ih =>
    obtain ⟨hd, hes⟩ := List.pairwise_cons.mp h
    rw [upsert]
    split
    · rename_i hlt
      have hnone : (d :: es).lookup k = none := lookup_eq_none_of_lt fun e he => by
        rcases List.mem_cons.mp he with rfl | he
        · exact hlt
        · exact lt_trans hlt (hd e he)
      rw [hnone, List.lookup_cons_self]
      rfl
    · split
      · rename_i _ heq
        subst heq
        rw [List.lookup_cons_self, show (d :: es).lookup d.1 = some d.2 from List.lookup_cons_self]
        rfl
      · rename_i hne
        have hbeq : (k == d.1) = false := by simpa using hne
        rw [List.lookup_cons, List.lookup_cons, hbeq]
        exact ih hes

theorem lookup_upsert_of_ne {k' : κ} (hne : k' ≠ k) : (upsert k init f es).lookup k' = es.lookup k' := by
  have hbeq : (k' == k) = false := by simpa using hne
  induction es with
  | nil => rw [upsert, List.lookup_cons, hbeq]
  | cons d es ih =>
    rw [upsert]
    split
    · rw [List.lookup_cons, hbeq]
    · split
      · rename_i _ heq
        rw [List.lookup_cons, List.lookup_cons, ← heq, hbeq]
      · rw [List.lookup_cons, List.lookup_cons, ih]

theorem sum_upsert [AddCommMonoid M] {m : ν → M} {d : M} (hf : ∀ v, m (f v) = m v + d) (h0 : m init = 0) :
    ((upsert k init f es).map (m ·.2)).sum = (es.map (m ·.2)).sum + d := by
  induction es with
  | nil => simp [upsert, hf, h0]
  | cons e es ih =>
    rw [upsert]
    split
    · simp [hf, h0, add_comm d]
    · split
      · simp [hf, add_right_comm]
      · simp [ih, add_assoc]

end

section
variable {key : ι → κ} {init : ν} {f : ι → ν → ν}

theorem gather_sorted (items : List ι) : Sorted (gather key init f items) := by
  have from_sorted : ∀ es : List (κ × ν), Sorted es →
      Sorted (items.foldl (fun es i => upsert (key i) init (f i) es) es) := by
    induction items with
    | nil => exact fun _ h => h
    | cons i items ih => exact fun es h => ih _ h.upsert
  exact from_sorted [] List.Pairwise.nil

/-- The entry of a key is made of its items, if there are any. -/
theorem lookup_gather (items : List ι) (k : κ) : (gather key init f items).lookup k =
    (items.filter (key · = k)).foldl (fun v i => some (f i (v.getD init))) none := by
  have from_sorted : ∀ es : List (κ × ν), Sorted es →
      (items.foldl (fun es i => upsert (key i) init (f i) es) es).lookup k =
        (items.filter (key · = k)).foldl (fun v i => some (f i (v.getD init))) (es.lookup k) := by
    induction items with
    | nil => exact fun _ _ => rfl
    | cons i items ih =>
      intro es h
      rw [List.foldl_cons, ih _ h.upsert, List.filter_cons]
      by_cases hk : key i = k
      · rw [if_pos (decide_eq_true hk), List.foldl_cons, ← hk, lookup_upsert_self h]
      · rw [if_neg (by simpa using hk), lookup_upsert_of_ne (Ne.symm hk)]
  exact from_sorted [] List.Pairwise.nil

theorem sum_gather [AddCommMonoid M] {m : ν → M} {d : ι → M} (hf : ∀ i v, m (f i v) = m v + d i)
    (h0 : m init = 0) (items : List ι) : ((gather key init f items).map (m ·.2)).sum = (items.map d).sum := by
  have from_any : ∀ es : List (κ × ν),
      ((items.foldl (fun es i => upsert (key i) init (f i) es) es).map (m ·.2)).sum =
        (es.map (m ·.2)).sum + (items.map d).sum := by
    induction items with
    | nil => exact fun es => (add_zero _).symm
    | cons i items ih =>
      intro es
      rw [List.foldl_cons, ih, sum_upsert (hf i) h0, List.map_cons, List.sum_cons, add_assoc]
  exact (from_any []).trans (zero_add _)

end

end Codec
