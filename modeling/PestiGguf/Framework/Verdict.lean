import PestiGguf.Framework.Errors
import PestiGguf.Framework.Streaming

/-!
# What a reader decides

`p.Refuses E L` says that a run that ends in an error `e` of `E` took a word of
`L e`, and that every such word, whatever follows it, is refused so. With the words
that it returns for, those of `Recognises`, these are the verdicts of a reader
(`Verdict`). Where all other errors say that the input ended, the words of the
verdicts are a complete prefix code: each input starts with one of them, and then
with no other, or it is a strict prefix of one, and it is starved
(`Decides.starved_iff`, `Decides.unique`).
-/

namespace Codec.Reader

variable {ε τ σ α β : Type}

/-- A run of `p` ends in an error `e` of `E`, leaving `r`, exactly where it took a
word of `L e`. -/
def Refuses (p : Reader ε τ σ α) (E : ε → Prop) (L : ε → List σ → Prop) : Prop :=
  ∀ b e r, E e → ((p b).result = .error e ∧ (p b).rest = r ↔ ∃ c, b = c ++ r ∧ L e c)

theorem bind_ends_error {p : Reader ε τ σ α} {f : α → Reader ε τ σ β} {b r : List σ} {e : ε} :
    ((p >>= f) b).result = .error e ∧ ((p >>= f) b).rest = r ↔
      ((p b).result = .error e ∧ (p b).rest = r) ∨
        ∃ a r', p.Returns b a r' ∧ (f a r').result = .error e ∧ (f a r').rest = r := by
  show (p.bind f b).result = .error e ∧ (p.bind f b).rest = r ↔ _
  unfold Reader.bind Returns
  rcases p b with ⟨_ | a, r', t⟩
  · simp
  · simp only [reduceCtorEq, false_and, false_or, Except.ok.injEq]
    constructor
    · exact fun h => ⟨a, r', ⟨rfl, rfl⟩, h⟩
    · rintro ⟨_, _, ⟨rfl, rfl⟩, h⟩
      exact h

namespace Refuses

variable {p : Reader ε τ σ α} {E : ε → Prop} {L L' : ε → List σ → Prop}

theorem congr (h : p.Refuses E L) (e : ∀ e c, E e → (L e c ↔ L' e c)) : p.Refuses E L' := by
  intro b x r hx
  rw [h b x r hx]
  simp only [e x _ hx]

theorem of_spares (h : p.Spares E) : p.Refuses E fun _ _ => False := fun b e _ he =>
  iff_of_false (fun hr => h b e he hr.1) fun ⟨_, _, h⟩ => h

theorem fail (e : ε) : (Reader.fail e : Reader ε τ σ α).Refuses E fun x c => c = [] ∧ x = e := by
  intro b x r _
  show Except.error e = Except.error x ∧ b = r ↔ _
  rw [Except.error.injEq]
  constructor
  · rintro ⟨rfl, rfl⟩
    exact ⟨[], rfl, rfl, rfl⟩
  · rintro ⟨c, rfl, rfl, rfl⟩
    exact ⟨rfl, rfl⟩

theorem ofExcept (x : Except ε α) : (Reader.ofExcept x : Reader ε τ σ α).Refuses E fun e c => c = [] ∧ x = .error e := by
  cases x with
  | ok a => exact (of_spares (.pure a)).congr fun e c _ => by simp
  | error e => exact (fail e).congr fun x c _ => by simp [eq_comm]

/-- A check before the rest of a reader. -/
theorem guard {q : Prop} [Decidable q] {e : ε} (h : ¬ q → p.Refuses E L) :
    (if q then Reader.fail e else p).Refuses E fun x c => q ∧ c = [] ∧ x = e ∨ ¬ q ∧ L x c := by
  by_cases hq : q
  · rw [if_pos hq]
    exact (fail e).congr fun _ _ _ => by simp [hq]
  · rw [if_neg hq]
    exact (h hq).congr fun _ _ _ => by simp [hq]

/-- The first part refuses a word, or what follows a word of it does. -/
theorem bind {f : α → Reader ε τ σ β} {R : α → List σ → Prop} {M : α → ε → List σ → Prop} (hp : p.Refuses E L)
    (hR : p.Recognises R) (hf : ∀ a, (f a).Refuses E (M a)) :
    (p >>= f).Refuses E fun e c => L e c ∨ ∃ a c₁ c₂, c = c₁ ++ c₂ ∧ R a c₁ ∧ M a e c₂ := by
  intro b e r he
  rw [bind_ends_error]
  constructor
  · rintro (hfirst | ⟨a, r', ha, hrest⟩)
    · obtain ⟨c, rfl, hc⟩ := (hp b e r he).mp hfirst
      exact ⟨c, rfl, .inl hc⟩
    · obtain ⟨c₁, rfl, hc₁⟩ := (hR b a r').mp ha
      obtain ⟨c₂, rfl, hc₂⟩ := (hf a r' e r he).mp hrest
      exact ⟨c₁ ++ c₂, (List.append_assoc ..).symm, .inr ⟨a, c₁, c₂, rfl, hc₁, hc₂⟩⟩
  · rintro ⟨c, rfl, hc | ⟨a, c₁, c₂, rfl, hc₁, hc₂⟩⟩
    · exact .inl ((hp (c ++ r) e r he).mpr ⟨c, rfl, hc⟩)
    · rw [List.append_assoc]
      exact .inr ⟨a, _, hR.returns_append hc₁ _, (hf a (c₂ ++ r) e r he).mpr ⟨c₂, rfl, hc₂⟩⟩

/-- A first part that ends in none of the errors. -/
theorem after {f : α → Reader ε τ σ β} {R : α → List σ → Prop} {M : α → ε → List σ → Prop} (hp : p.Spares E)
    (hR : p.Recognises R) (hf : ∀ a, (f a).Refuses E (M a)) :
    (p >>= f).Refuses E fun e c => ∃ a c₁ c₂, c = c₁ ++ c₂ ∧ R a c₁ ∧ M a e c₂ :=
  ((of_spares hp).bind hR hf).congr fun _ _ _ => by rw [false_or]

/-- A rest that ends in none of them. -/
theorem before {f : α → Reader ε τ σ β} {R : α → List σ → Prop} (hp : p.Refuses E L) (hR : p.Recognises R)
    (hf : ∀ a, (f a).Spares E) : (p >>= f).Refuses E L :=
  (hp.bind hR fun a => of_spares (hf a)).congr fun _ _ _ => by simp

theorem map {f : α → β} {R : α → List σ → Prop} (hp : p.Refuses E L) (hR : p.Recognises R) :
    (p >>= fun a => Pure.pure (f a)).Refuses E L :=
  hp.before hR fun a => .pure (f a)

/-- The record after some of the words is refused. -/
theorem many {R : α → List σ → Prop} (hp : p.Refuses E L) (hR : p.Recognises R) (n : Nat) :
    (p.many n).Refuses E fun e c => ∃ as cs d, c = cs ++ d ∧ as.length < n ∧ Many R as cs ∧ L e d := by
  induction n with
  | zero =>
    refine (of_spares (.pure [])).congr fun e c _ => ⟨False.elim, ?_⟩
    rintro ⟨as, cs, d, -, hl, -⟩
    exact Nat.not_lt_zero _ hl
  | succ n ih => exact (hp.bind hR fun a => ih.map (hR.many n)).congr fun e c _ => Many.before_succ.symm

end Refuses

/-! ## Verdicts -/

/-- The word `c` denotes the result `x`: a value, or an error. -/
def Verdict (R : α → List σ → Prop) (L : ε → List σ → Prop) : Except ε α → List σ → Prop
  | .ok a, c => R a c
  | .error e, c => L e c

/-- The words of `p`, and that it ends within `n` symbols; an error of `E` says that
its input ended. -/
structure Decides (p : Reader ε τ σ α) (E : ε → Prop) (R : α → List σ → Prop) (L : ε → List σ → Prop) (n : Nat) :
    Prop where
  recognises : p.Recognises R
  refuses : p.Refuses (fun e => ¬ E e) L
  streams : p.Streams E n
  sound : ∀ e c, L e c → ¬ E e

namespace Decides

variable {p : Reader ε τ σ α} {E : ε → Prop} {R : α → List σ → Prop} {L : ε → List σ → Prop} {n : Nat}
  (h : p.Decides E R L n)
include h

theorem ends_iff {b r : List σ} {x : Except ε α} : (p b).result = x ∧ (p b).rest = r ∧ ¬ Starved E x ↔
    ∃ c, b = c ++ r ∧ Verdict R L x c := by
  cases x with
  | ok a => exact (and_congr_right fun _ => and_iff_left id).trans (h.recognises b a r)
  | error e =>
    constructor
    · rintro ⟨hx, hr, he⟩
      exact (h.refuses b e r he).mp ⟨hx, hr⟩
    · rintro ⟨c, hb, hc⟩
      obtain ⟨hx, hr⟩ := (h.refuses b e r (h.sound e c hc)).mpr ⟨c, hb, hc⟩
      exact ⟨hx, hr, h.sound e c hc⟩

theorem result_append {c : List σ} {x : Except ε α} (hc : Verdict R L x c) (r : List σ) : (p (c ++ r)).result = x :=
  (h.ends_iff.mpr ⟨c, rfl, hc⟩).1

/-- Two words in front of the same input are the same. -/
theorem unique {c c' r r' : List σ} {x x' : Except ε α} (hc : Verdict R L x c) (hc' : Verdict R L x' c')
    (e : c ++ r = c' ++ r') : x = x' ∧ c = c' := by
  obtain ⟨hx, hr, -⟩ := h.ends_iff.mpr ⟨c, rfl, hc⟩
  obtain ⟨hx', hr', -⟩ := h.ends_iff.mpr ⟨c', e, hc'⟩
  exact ⟨hx.symm.trans hx', List.append_cancel_right (e.trans (hr.symm.trans hr' ▸ rfl))⟩

/-- An input that wants more is what some word starts with. -/
theorem starved_iff [Inhabited σ] {b : List σ} :
    Starved E (p b).result ↔ ∃ s x, s ≠ [] ∧ Verdict R L x (b ++ s) := by
  constructor
  · intro hb
    -- enough of any input behind it is an input that decides
    have hend := h.streams.enough (b ++ List.replicate n default) (by simp)
    obtain ⟨c, hbc, hc⟩ := h.ends_iff.mp ⟨rfl, rfl, hend⟩
    rcases List.append_eq_append_iff.mp hbc with ⟨s, rfl, -⟩ | ⟨s, rfl, -⟩
    · refine ⟨s, _, ?_, hc⟩
      rintro rfl
      rw [List.append_nil] at hc
      rw [← List.append_nil b, h.result_append hc []] at hb
      exact hend hb
    · rw [h.result_append hc s] at hb
      exact absurd hb hend
  · rintro ⟨s, x, hs, hc⟩
    by_contra hb
    obtain ⟨c', hbc, hc'⟩ := h.ends_iff.mp ⟨rfl, rfl, hb⟩
    have hword : b ++ s ++ [] = c' ++ ((p b).rest ++ s) := by
      rw [List.append_nil, ← List.append_assoc, ← hbc]
    obtain ⟨-, hsame⟩ := h.unique hc hc' hword
    have hlen := congrArg List.length hsame
    have hlen' := congrArg List.length hbc
    simp only [List.length_append] at hlen hlen'
    exact hs (List.eq_nil_of_length_eq_zero (by omega))

end Decides

end Codec.Reader
