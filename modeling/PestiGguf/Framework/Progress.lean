import PestiGguf.Framework.Events
import Mathlib.Algebra.BigOperators.Group.List.Basic

/-!
# Progress of a reader

`p.Tallies P k n w` says that a run of `p` raises no more events of `P` than it
takes symbols, with `k` symbols to spare if it succeeds, and that with `n`
events before, a run that returns `a` has raised `w a` of them. An event that is
raised once a record is read is paid for by one symbol of the record
(`Tallies.recorded`), so a loop over records raises no more than it reads,
whatever its count (`Tallies.many`).
-/

namespace Codec.Reader

variable {ε τ σ α β : Type}

/-- The account of one run, on an input of `m` symbols. -/
def Account (P : τ → Bool) (k n : Nat) (w : α → Nat) (m : Nat) : Run ε τ σ α → Prop
  | ⟨.ok a, r, t⟩ => n + t.countP P = w a ∧ t.countP P + r.length + k ≤ m
  | ⟨.error _, r, t⟩ => t.countP P + r.length ≤ m

def Tallies (p : Reader ε τ σ α) (P : τ → Bool) (k n : Nat) (w : α → Nat) : Prop :=
  ∀ b, Account P k n w b.length (p b)

namespace Tallies

variable {p : Reader ε τ σ α} {P : τ → Bool} {k l n : Nat} {v w : α → Nat}

/-- A run raises no more events than its input has symbols. -/
theorem le_length (h : p.Tallies P k n w) (b : List σ) : (p b).trace.countP P ≤ b.length := by
  have hb := h b
  generalize p b = run at hb ⊢
  rcases run with ⟨_ | a, r, t⟩
  · exact Nat.le_trans (Nat.le_add_right _ _) hb
  · exact Nat.le_trans (Nat.le_add_right _ (r.length + k)) (Nat.add_assoc _ _ _ ▸ hb.2)

/-- What a run that succeeds has raised. -/
theorem eq_of_ok (h : p.Tallies P k 0 w) {b : List σ} {a : α} (hok : (p b).result = .ok a) :
    (p b).trace.countP P = w a := by
  have hb := h b
  generalize p b = run at hb hok ⊢
  rcases run with ⟨x, r, t⟩
  obtain rfl : x = .ok a := hok
  exact (Nat.zero_add _).symm.trans hb.1

theorem mono (h : p.Tallies P k n w) (hl : l ≤ k) : p.Tallies P l n w := by
  intro b
  have hb := h b
  generalize p b = run at hb ⊢
  rcases run with ⟨_ | a, r, t⟩
  · exact hb
  · exact ⟨hb.1, Nat.le_trans (Nat.add_le_add_left hl _) hb.2⟩

theorem pure {a : α} (h : n = w a) : (Pure.pure a : Reader ε τ σ α).Tallies P 0 n w :=
  fun b => ⟨h, by show 0 + b.length + 0 ≤ b.length; omega⟩

theorem fail (e : ε) : (Reader.fail e : Reader ε τ σ α).Tallies P k n w :=
  fun b => by show 0 + b.length ≤ b.length; omega

theorem ofExcept (x : Except ε α) : (Reader.ofExcept x : Reader ε τ σ α).Tallies P 0 0 fun _ => 0 := by
  cases x with
  | ok a => exact pure rfl
  | error e => exact fail e

theorem exact (m : Nat) (e : ε) :
    (Reader.exact m e : Reader ε τ σ (List σ)).Tallies P m 0 fun _ => 0 := by
  intro b
  rw [Reader.exact]
  by_cases h : m ≤ b.length
  · rw [if_pos h]
    refine ⟨rfl, ?_⟩
    show 0 + (b.drop m).length + m ≤ b.length
    rw [List.length_drop]
    omega
  · rw [if_neg h]
    exact Nat.zero_le _

/-- An event that is not counted. -/
theorem event {t : τ} (h : P t = false) : (Reader.event t : Reader ε τ σ Unit).Tallies P 0 0 fun _ => 0 := by
  intro b
  show 0 + [t].countP P = 0 ∧ [t].countP P + b.length + 0 ≤ b.length
  rw [List.countP_singleton, h]
  exact ⟨rfl, by simp⟩

/-- What the first part has to spare is there whatever follows. -/
theorem bind {f : α → Reader ε τ σ β} {w : β → Nat} (hp : p.Tallies P k 0 v)
    (hf : ∀ a, (f a).Tallies P 0 (n + v a) w) : (p >>= f).Tallies P k n w := by
  intro b
  have hb := hp b
  show Account P k n w b.length (p.bind f b)
  unfold Reader.bind
  generalize p b = run at hb ⊢
  rcases run with ⟨_ | a, r, t⟩
  · exact hb
  · obtain ⟨hv, hle⟩ := hb
    have hr := hf a r
    show Account P k n w b.length ⟨(f a r).result, (f a r).rest, t ++ (f a r).trace⟩
    generalize f a r = run at hr ⊢
    rcases run with ⟨_ | y, r', t'⟩
    · simp only [Account, List.countP_append] at hr ⊢
      omega
    · simp only [Account, List.countP_append] at hr ⊢
      omega

theorem map {f : α → β} {w : β → Nat} (hp : p.Tallies P k 0 v) (hw : ∀ a, w (f a) = v a) :
    (p >>= fun a => Pure.pure (f a)).Tallies P k 0 w :=
  hp.bind fun a => pure ((Nat.zero_add _).trans (hw a).symm)

theorem fixed (F : FixedWidth σ α) (e : ε) :
    (Reader.fixed F e : Reader ε τ σ α).Tallies P F.width 0 fun _ => 0 :=
  map (exact F.width e) fun _ => rfl

theorem guard {q : Prop} [Decidable q] {e : ε} (h : ¬ q → p.Tallies P k n w) :
    (if q then Reader.fail e else p).Tallies P k n w := by
  by_cases hq : q
  · rw [if_pos hq]
    exact fail e
  · rw [if_neg hq]
    exact h hq

/-- A record, and the event that it was read. -/
theorem recorded {t : τ} (ht : P t = true) (hp : p.Tallies P (k + 1) 0 w) :
    (p >>= fun a => Reader.event t >>= fun _ => Pure.pure a).Tallies P k 0 fun a => w a + 1 := by
  intro b
  have hb := hp b
  show Account P k 0 (fun a => w a + 1) b.length (p.bind (fun a => Reader.event t >>= fun _ => Pure.pure a) b)
  unfold Reader.bind
  generalize p b = run at hb ⊢
  rcases run with ⟨_ | a, r, u⟩
  · exact hb
  · obtain ⟨hw, hle⟩ := hb
    show 0 + (u ++ [t]).countP P = w a + 1 ∧ (u ++ [t]).countP P + r.length + k ≤ b.length
    rw [List.countP_append, List.countP_singleton, if_pos ht]
    omega

/-- The records of a loop. -/
theorem many (hp : p.Tallies P k 0 w) (m : Nat) : (p.many m).Tallies P 0 0 fun as => (as.map w).sum := by
  induction m with
  | zero => exact pure rfl
  | succ m ih =>
    refine (hp.mono (Nat.zero_le k)).bind fun a => ih.bind fun as => pure ?_
    rw [List.map_cons, List.sum_cons, Nat.zero_add]

end Tallies

end Codec.Reader
