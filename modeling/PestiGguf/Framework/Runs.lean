import Mathlib.Data.List.Forall2

/-!
# Runs of commands

A machine does commands one after another on a state, and each has an outcome
(`runAll`). What a step preserves, a run does (`run_invariant`), and where each
step of one machine is matched by one of another, so are their runs, outcome by
outcome (`run_simulates`).
-/

namespace Codec

variable {ι ο ο' σ σ' : Type}

/-- The outcomes of some commands, and the state after them. -/
def runAll (step : ι → σ → ο × σ) : List ι → σ → List ο × σ
  | [], s => ([], s)
  | i :: is, s =>
    let next := step i s
    let rest := runAll step is next.2
    (next.1 :: rest.1, rest.2)

variable {step : ι → σ → ο × σ} {step' : ι → σ' → ο' × σ'}

/-- What every step preserves holds after a run. -/
theorem run_invariant {P : σ → Prop} {is : List ι} (h : ∀ i ∈ is, ∀ s, P s → P (step i s).2) {s : σ} (hs : P s) :
    P (runAll step is s).2 := by
  induction is generalizing s with
  | nil => exact hs
  | cons i is ih =>
    rw [List.forall_mem_cons] at h
    exact ih h.2 (h.1 s hs)

/-- Where each step is matched by one from related states, with related outcomes,
a run is matched by one. -/
theorem run_simulates {R : σ → σ' → Prop} {O : ο → ο' → Prop} {is : List ι}
    (h : ∀ i ∈ is, ∀ s t, R s t → O (step i s).1 (step' i t).1 ∧ R (step i s).2 (step' i t).2) {s : σ} {t : σ'}
    (hst : R s t) : List.Forall₂ O (runAll step is s).1 (runAll step' is t).1 ∧
      R (runAll step is s).2 (runAll step' is t).2 := by
  induction is generalizing s t with
  | nil => exact ⟨.nil, hst⟩
  | cons i is ih =>
    rw [List.forall_mem_cons] at h
    obtain ⟨ho, hnext⟩ := h.1 s t hst
    obtain ⟨hos, hend⟩ := ih h.2 hnext
    exact ⟨.cons ho hos, hend⟩

end Codec
