import PestiGguf.Framework.Reader

/-!
# Events of a reader

`p.Exceeds P L` says that a run of `p` raises an event outside `P` exactly on
the inputs that start with a word of `L`: what was read by then. Such readers
compose along the languages they recognise (`Exceeds.bind`, `Exceeds.many`). A
reader that exceeds nowhere is `Quiet`.
-/

namespace Codec.Reader

variable {ε τ σ α β : Type}

/-- A run of `p` raises an event outside `P` exactly after a word of `L`. -/
def Exceeds (p : Reader ε τ σ α) (P : τ → Prop) (L : List σ → Prop) : Prop :=
  ∀ b, (∃ t ∈ (p b).trace, ¬ P t) ↔ ∃ c r, b = c ++ r ∧ L c

/-- Every event of every run is in `P`. -/
def Quiet (p : Reader ε τ σ α) (P : τ → Prop) : Prop := ∀ b, ∀ t ∈ (p b).trace, P t

theorem trace_bind {p : Reader ε τ σ α} {f : α → Reader ε τ σ β} {b : List σ} {t : τ} :
    t ∈ ((p >>= f) b).trace ↔ t ∈ (p b).trace ∨ ∃ a r, p.Returns b a r ∧ t ∈ (f a r).trace := by
  show t ∈ (p.bind f b).trace ↔ _
  unfold Reader.bind Returns
  rcases p b with ⟨_ | a, r, u⟩
  · simp
  · simp only [List.mem_append, Except.ok.injEq]
    constructor
    · rintro (h | h)
      · exact .inl h
      · exact .inr ⟨a, r, ⟨rfl, rfl⟩, h⟩
    · rintro (h | ⟨_, _, ⟨rfl, rfl⟩, h⟩)
      · exact .inl h
      · exact .inr h

/-! ## Readers that raise nothing else -/

namespace Quiet

variable {p : Reader ε τ σ α} {P : τ → Prop}

theorem pure (a : α) : (Pure.pure a : Reader ε τ σ α).Quiet P := fun _ _ h => nomatch h

theorem fail (e : ε) : (Reader.fail e : Reader ε τ σ α).Quiet P := fun _ _ h => nomatch h

theorem ofExcept (x : Except ε α) : (Reader.ofExcept x : Reader ε τ σ α).Quiet P := by
  cases x with
  | ok a => exact pure a
  | error e => exact fail e

theorem exact (n : Nat) (e : ε) : (Reader.exact n e : Reader ε τ σ (List σ)).Quiet P := by
  intro b t h
  rw [Reader.exact] at h
  split at h <;> cases h

theorem event {t : τ} (h : P t) : (Reader.event t : Reader ε τ σ Unit).Quiet P :=
  fun _ _ h' => List.mem_singleton.mp h' ▸ h

/-- The rest is run on what is returned only. -/
theorem bind {f : α → Reader ε τ σ β} {R : α → List σ → Prop} (hp : p.Quiet P) (hR : p.Recognises R)
    (hf : ∀ a c, R a c → (f a).Quiet P) : (p >>= f).Quiet P := by
  intro b t h
  rcases trace_bind.mp h with h | ⟨a, r, ha, h⟩
  · exact hp b t h
  · obtain ⟨c, -, hc⟩ := (hR b a r).mp ha
    exact hf a c hc r t h

theorem map {f : α → β} (hp : p.Quiet P) : (p >>= fun a => Pure.pure (f a)).Quiet P := by
  intro b t h
  rcases trace_bind.mp h with h | ⟨_, _, _, h⟩
  · exact hp b t h
  · cases h

theorem fixed (F : FixedWidth σ α) (e : ε) : (Reader.fixed F e : Reader ε τ σ α).Quiet P :=
  map (exact F.width e)

theorem guard {q : Prop} [Decidable q] {e : ε} (h : ¬ q → p.Quiet P) :
    (if q then Reader.fail e else p).Quiet P := by
  by_cases hq : q
  · rw [if_pos hq]
    exact fail e
  · rw [if_neg hq]
    exact h hq

theorem many {R : α → List σ → Prop} (hp : p.Quiet P) (hR : p.Recognises R) :
    ∀ n, (p.many n).Quiet P
  | 0 => pure []
  | n + 1 => hp.bind hR fun _ _ _ => (many hp hR n).map

end Quiet

/-! ## Where an event is raised -/

namespace Exceeds

variable {p : Reader ε τ σ α} {P : τ → Prop} {L L' : List σ → Prop}

theorem congr (h : p.Exceeds P L) (e : ∀ c, L c ↔ L' c) : p.Exceeds P L' := fun b => by
  simp only [h b, e]

/-- A run raises nothing outside `P` exactly where the input starts with no word
of `L`. -/
theorem forall_iff (h : p.Exceeds P L) (b : List σ) :
    (∀ t ∈ (p b).trace, P t) ↔ ¬ ∃ c r, b = c ++ r ∧ L c := by
  rw [← h b]
  push Not
  rfl

theorem of_quiet (h : p.Quiet P) : p.Exceeds P fun _ => False := fun b =>
  iff_of_false (fun ⟨t, ht, hn⟩ => hn (h b t ht)) fun ⟨_, _, _, h⟩ => h

theorem event (t : τ) : (Reader.event t : Reader ε τ σ Unit).Exceeds P fun c => c = [] ∧ ¬ P t := by
  intro b
  show (∃ t' ∈ [t], ¬ P t') ↔ _
  simp

theorem guard {q : Prop} [Decidable q] {e : ε} (h : ¬ q → p.Exceeds P L) :
    (if q then Reader.fail e else p).Exceeds P fun c => ¬ q ∧ L c := by
  by_cases hq : q
  · rw [if_pos hq]
    exact (of_quiet (.fail e)).congr fun _ => by simp [hq]
  · rw [if_neg hq]
    exact (h hq).congr fun _ => by simp [hq]

/-- The first part exceeds, or what follows a word of it does. -/
theorem bind {f : α → Reader ε τ σ β} {R : α → List σ → Prop} {M : α → List σ → Prop} (hp : p.Exceeds P L)
    (hR : p.Recognises R) (hf : ∀ a c, R a c → (f a).Exceeds P (M a)) :
    (p >>= f).Exceeds P fun c => L c ∨ ∃ a c₁ c₂, c = c₁ ++ c₂ ∧ R a c₁ ∧ M a c₂ := by
  intro b
  constructor
  · rintro ⟨t, ht, hn⟩
    rcases trace_bind.mp ht with hfirst | ⟨a, r, ha, hrest⟩
    · obtain ⟨c, r, hb, hc⟩ := (hp b).mp ⟨t, hfirst, hn⟩
      exact ⟨c, r, hb, .inl hc⟩
    · obtain ⟨c₁, rfl, hc₁⟩ := (hR b a r).mp ha
      obtain ⟨c₂, r', rfl, hc₂⟩ := (hf a c₁ hc₁ r).mp ⟨t, hrest, hn⟩
      exact ⟨c₁ ++ c₂, r', (List.append_assoc ..).symm, .inr ⟨a, c₁, c₂, rfl, hc₁, hc₂⟩⟩
  · rintro ⟨c, r, rfl, hc | ⟨a, c₁, c₂, rfl, hc₁, hc₂⟩⟩
    · obtain ⟨t, ht, hn⟩ := (hp (c ++ r)).mpr ⟨c, r, rfl, hc⟩
      exact ⟨t, trace_bind.mpr (.inl ht), hn⟩
    · obtain ⟨t, ht, hn⟩ := (hf a c₁ hc₁ (c₂ ++ r)).mpr ⟨c₂, r, rfl, hc₂⟩
      rw [List.append_assoc]
      exact ⟨t, trace_bind.mpr (.inr ⟨a, _, hR.returns_append hc₁ _, ht⟩), hn⟩

/-- A quiet first part. -/
theorem after {f : α → Reader ε τ σ β} {R : α → List σ → Prop} {M : α → List σ → Prop} (hp : p.Quiet P)
    (hR : p.Recognises R) (hf : ∀ a c, R a c → (f a).Exceeds P (M a)) :
    (p >>= f).Exceeds P fun c => ∃ a c₁ c₂, c = c₁ ++ c₂ ∧ R a c₁ ∧ M a c₂ :=
  ((of_quiet hp).bind hR hf).congr fun _ => by rw [false_or]

/-- A quiet rest. -/
theorem before {f : α → Reader ε τ σ β} {R : α → List σ → Prop} (hp : p.Exceeds P L) (hR : p.Recognises R)
    (hf : ∀ a c, R a c → (f a).Quiet P) : (p >>= f).Exceeds P L :=
  (hp.bind hR fun a c hc => of_quiet (hf a c hc)).congr fun _ => by simp

/-- One of the words before the last exceeds. -/
theorem many {R : α → List σ → Prop} (hp : p.Exceeds P L) (hR : p.Recognises R) (n : Nat) :
    (p.many n).Exceeds P fun c => ∃ as cs d, c = cs ++ d ∧ as.length < n ∧ Many R as cs ∧ L d := by
  induction n with
  | zero =>
    refine (of_quiet (.pure [])).congr fun c => ⟨False.elim, ?_⟩
    rintro ⟨as, cs, d, -, hl, -⟩
    exact Nat.not_lt_zero _ hl
  | succ n ih =>
    exact (hp.bind hR fun a _ _ => ih.before (hR.many n) fun as _ _ => .pure (a :: as)).congr fun c => Many.before_succ.symm

end Exceeds

end Codec.Reader
