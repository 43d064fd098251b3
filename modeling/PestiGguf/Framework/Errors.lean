import PestiGguf.Framework.Reader

/-!
# Errors of a reader

`p.Raises E L` says of each error of `E` that a run of `p` ends in it exactly on
the inputs that start with a word of `L` for it: what was read by then. Such
readers compose along the languages they recognise (`Raises.bind`,
`Raises.many`), as those that raise an event do. A reader that ends in no such
error `Spares` them.
-/

namespace Codec.Reader

variable {ε τ σ α β : Type}

/-- A run of `p` ends in an error `e` of `E` exactly after a word of `L e`. -/
def Raises (p : Reader ε τ σ α) (E : ε → Prop) (L : ε → List σ → Prop) : Prop :=
  ∀ b e, E e → ((p b).result = .error e ↔ ∃ c r, b = c ++ r ∧ L e c)

/-- No run ends in an error of `E`. -/
def Spares (p : Reader ε τ σ α) (E : ε → Prop) : Prop := ∀ b e, E e → (p b).result ≠ .error e

theorem bind_eq_error {p : Reader ε τ σ α} {f : α → Reader ε τ σ β} {b : List σ} {e : ε} :
    ((p >>= f) b).result = .error e ↔
      (p b).result = .error e ∨ ∃ a r, p.Returns b a r ∧ (f a r).result = .error e := by
  show (p.bind f b).result = .error e ↔ _
  unfold Reader.bind Returns
  rcases p b with ⟨_ | a, r, t⟩
  · simp
  · simp only [reduceCtorEq, false_or, Except.ok.injEq]
    constructor
    · exact fun h => ⟨a, r, ⟨rfl, rfl⟩, h⟩
    · rintro ⟨_, _, ⟨rfl, rfl⟩, h⟩
      exact h

/-! ## Readers that end in none of the errors -/

namespace Spares

variable {p : Reader ε τ σ α} {E : ε → Prop}

theorem pure (a : α) : (Pure.pure a : Reader ε τ σ α).Spares E := fun _ _ _ h => by cases h

theorem fail {e : ε} (he : ¬ E e) : (Reader.fail e : Reader ε τ σ α).Spares E :=
  fun _ _ hE h => he (Except.error.inj h ▸ hE)

theorem ofExcept {x : Except ε α} (h : ∀ e, x = .error e → ¬ E e) :
    (Reader.ofExcept x : Reader ε τ σ α).Spares E := by
  cases x with
  | ok a => exact pure a
  | error e => exact fail (h e rfl)

theorem event (t : τ) : (Reader.event t : Reader ε τ σ Unit).Spares E := fun _ _ _ h => by cases h

theorem exact (n : Nat) {e : ε} (he : ¬ E e) : (Reader.exact n e : Reader ε τ σ (List σ)).Spares E := by
  intro b e' hE h
  rw [Reader.exact] at h
  split at h
  · cases h
  · exact he (Except.error.inj h ▸ hE)

theorem bind {f : α → Reader ε τ σ β} (hp : p.Spares E) (hf : ∀ a, (f a).Spares E) : (p >>= f).Spares E := by
  intro b e hE h
  rcases bind_eq_error.mp h with h | ⟨a, r, -, h⟩
  · exact hp b e hE h
  · exact hf a r e hE h

theorem map {f : α → β} (hp : p.Spares E) : (p >>= fun a => Pure.pure (f a)).Spares E :=
  hp.bind fun a => pure (f a)

theorem fixed (F : FixedWidth σ α) {e : ε} (he : ¬ E e) : (Reader.fixed F e : Reader ε τ σ α).Spares E :=
  map (exact F.width he)

theorem guard {q : Prop} [Decidable q] {e : ε} (he : ¬ E e) (h : p.Spares E) :
    (if q then Reader.fail e else p).Spares E := by
  by_cases hq : q
  · rw [if_pos hq]
    exact fail he
  · rw [if_neg hq]
    exact h

theorem many (hp : p.Spares E) (n : Nat) : (p.many n).Spares E := by
  induction n with
  | zero => exact pure []
  | succ n ih => exact hp.bind fun _ => ih.map

end Spares

/-! ## Where an error is raised -/

namespace Raises

variable {p : Reader ε τ σ α} {E : ε → Prop} {L L' : ε → List σ → Prop}

theorem congr (h : p.Raises E L) (e : ∀ e c, E e → (L e c ↔ L' e c)) : p.Raises E L' := by
  intro b x hx
  rw [h b x hx]
  simp only [e x _ hx]

theorem of_spares (h : p.Spares E) : p.Raises E fun _ _ => False := fun b e he =>
  iff_of_false (h b e he) fun ⟨_, _, _, h⟩ => h

theorem fail (e : ε) : (Reader.fail e : Reader ε τ σ α).Raises E fun x c => c = [] ∧ x = e := by
  intro b x _
  show Except.error e = Except.error x ↔ _
  simp [eq_comm]

theorem guard {q : Prop} [Decidable q] {e : ε} (he : ¬ E e) (h : ¬ q → p.Raises E L) :
    (if q then Reader.fail e else p).Raises E fun x c => ¬ q ∧ L x c := by
  by_cases hq : q
  · rw [if_pos hq]
    exact (of_spares (.fail he)).congr fun _ _ _ => by simp [hq]
  · rw [if_neg hq]
    exact (h hq).congr fun _ _ _ => by simp [hq]

/-- The first part ends in the error, or what follows a word of it does. -/
theorem bind {f : α → Reader ε τ σ β} {R : α → List σ → Prop} {M : α → ε → List σ → Prop} (hp : p.Raises E L)
    (hR : p.Recognises R) (hf : ∀ a, (f a).Raises E (M a)) :
    (p >>= f).Raises E fun e c => L e c ∨ ∃ a c₁ c₂, c = c₁ ++ c₂ ∧ R a c₁ ∧ M a e c₂ := by
  intro b e he
  rw [bind_eq_error]
  constructor
  · rintro (hfirst | ⟨a, r, ha, hrest⟩)
    · obtain ⟨c, r, hb, hc⟩ := (hp b e he).mp hfirst
      exact ⟨c, r, hb, .inl hc⟩
    · obtain ⟨c₁, rfl, hc₁⟩ := (hR b a r).mp ha
      obtain ⟨c₂, r', rfl, hc₂⟩ := (hf a r e he).mp hrest
      exact ⟨c₁ ++ c₂, r', (List.append_assoc ..).symm, .inr ⟨a, c₁, c₂, rfl, hc₁, hc₂⟩⟩
  · rintro ⟨c, r, rfl, hc | ⟨a, c₁, c₂, rfl, hc₁, hc₂⟩⟩
    · exact .inl ((hp (c ++ r) e he).mpr ⟨c, r, rfl, hc⟩)
    · rw [List.append_assoc]
      exact .inr ⟨a, _, hR.returns_append hc₁ _, (hf a (c₂ ++ r) e he).mpr ⟨c₂, r, rfl, hc₂⟩⟩

/-- A first part that ends in none of the errors. -/
theorem after {f : α → Reader ε τ σ β} {R : α → List σ → Prop} {M : α → ε → List σ → Prop} (hp : p.Spares E)
    (hR : p.Recognises R) (hf : ∀ a, (f a).Raises E (M a)) :
    (p >>= f).Raises E fun e c => ∃ a c₁ c₂, c = c₁ ++ c₂ ∧ R a c₁ ∧ M a e c₂ :=
  ((of_spares hp).bind hR hf).congr fun _ _ _ => by rw [false_or]

/-- A rest that ends in none of them. -/
theorem before {f : α → Reader ε τ σ β} {R : α → List σ → Prop} (hp : p.Raises E L) (hR : p.Recognises R)
    (hf : ∀ a, (f a).Spares E) : (p >>= f).Raises E L :=
  (hp.bind hR fun a => of_spares (hf a)).congr fun _ _ _ => by simp

/-- The record after some of the words ends in the error. -/
theorem many {R : α → List σ → Prop} (hp : p.Raises E L) (hR : p.Recognises R) (n : Nat) :
    (p.many n).Raises E fun e c => ∃ as cs d, c = cs ++ d ∧ as.length < n ∧ Many R as cs ∧ L e d := by
  induction n with
  | zero =>
    refine (of_spares (.pure [])).congr fun e c _ => ⟨False.elim, ?_⟩
    rintro ⟨as, cs, d, -, hl, -⟩
    exact Nat.not_lt_zero _ hl
  | succ n ih =>
    exact (hp.bind hR fun a => ih.before (hR.many n) fun as => .pure (a :: as)).congr fun e c _ => Many.before_succ.symm

/-- An input on which a run ends in two ways ends in one. -/
theorem unique {b : List σ} {e e' : ε} (h : p.Raises E L) (he : E e) (he' : E e') {c c' r r' : List σ}
    (hb : b = c ++ r) (hc : L e c) (hb' : b = c' ++ r') (hc' : L e' c') : e = e' :=
  Except.error.inj (((h b e he).mpr ⟨c, r, hb, hc⟩).symm.trans ((h b e' he').mpr ⟨c', r', hb', hc'⟩))

end Raises

end Codec.Reader
