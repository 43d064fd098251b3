import PestiGguf.Framework.LittleEndian
import Mathlib.Data.List.Basic

/-!
# Readers and the languages they recognise

A `Reader` takes symbols off the front of its input. A run (`Run`) gives the
result, the input it leaves and the events it raised, on failure too.

`Recognises p R` says that `p` is a decoder of the language `R`: it returns
`a`, leaving `r`, exactly on the inputs `c ++ r` with `R a c`. Such readers
compose (`Recognises.bind`, `Recognises.many`), and since a reader is a
function of its input, what one recognises is prefix-free: no word of it is
a strict prefix of another (`Recognises.error_of_prefix`), and what follows
a word does not matter (`Recognises.returns_append`).
-/

namespace Codec

/-- What a run of a reader gives. -/
structure Run (ε τ σ α : Type) where
  result : Except ε α
  rest : List σ
  trace : List τ

/-- A decoder of `α` from symbols `σ`, with errors `ε` and events `τ`. -/
def Reader (ε τ σ α : Type) : Type := List σ → Run ε τ σ α

namespace Reader

variable {ε τ σ α β γ : Type}

protected def pure (a : α) : Reader ε τ σ α := fun b => ⟨.ok a, b, []⟩

protected def bind (p : Reader ε τ σ α) (f : α → Reader ε τ σ β) : Reader ε τ σ β := fun b =>
  match p b with
  | ⟨.error e, r, t⟩ => ⟨.error e, r, t⟩
  | ⟨.ok a, r, t⟩ =>
    match f a r with
    | ⟨x, r', t'⟩ => ⟨x, r', t ++ t'⟩

instance : Monad (Reader ε τ σ) where
  pure := Reader.pure
  bind := Reader.bind

def fail (e : ε) : Reader ε τ σ α := fun b => ⟨.error e, b, []⟩

def ofExcept : Except ε α → Reader ε τ σ α
  | .ok a => Reader.pure a
  | .error e => fail e

def event (t : τ) : Reader ε τ σ Unit := fun b => ⟨.ok (), b, [t]⟩

/-- The next `n` symbols; an input with fewer is used up, and the error is
`e`. -/
def exact (n : Nat) (e : ε) : Reader ε τ σ (List σ) := fun b =>
  if n ≤ b.length then ⟨.ok (b.take n), b.drop n, []⟩ else ⟨.error e, [], []⟩

/-- A value of fixed width. -/
def fixed (F : FixedWidth σ α) (e : ε) : Reader ε τ σ α := do
  let bs ← exact F.width e
  pure (F.dec bs)

/-- `p`, `n` times. -/
def many (p : Reader ε τ σ α) : Nat → Reader ε τ σ (List α)
  | 0 => pure []
  | n + 1 => do
    let a ← p
    let as ← many p n
    pure (a :: as)

/-! ## Successful runs -/

/-- On input `b`, `p` returns `a` and leaves `r`. -/
def Returns (p : Reader ε τ σ α) (b : List σ) (a : α) (r : List σ) : Prop :=
  (p b).result = .ok a ∧ (p b).rest = r

theorem Returns.unique {p : Reader ε τ σ α} {b r r' : List σ} {a a' : α} (h : p.Returns b a r)
    (h' : p.Returns b a' r') : a = a' ∧ r = r' :=
  ⟨Except.ok.inj (h.1.symm.trans h'.1), h.2.symm.trans h'.2⟩

/-- How many symbols of `b` a run of `p` takes. -/
def consumed (p : Reader ε τ σ α) (b : List σ) : Nat := b.length - (p b).rest.length

/-- A run that returns nothing is an error. -/
theorem isError_of_not_returns {p : Reader ε τ σ α} {b : List σ} (h : ∀ a r, ¬ p.Returns b a r) :
    ∃ e, (p b).result = .error e := by
  cases hr : (p b).result with
  | error e => exact ⟨e, rfl⟩
  | ok a => exact absurd ⟨hr, rfl⟩ (h a _)

@[simp] theorem returns_pure {a a' : α} {b r : List σ} :
    (pure a : Reader ε τ σ α).Returns b a' r ↔ a' = a ∧ r = b := by
  show Except.ok a = Except.ok a' ∧ b = r ↔ _
  rw [Except.ok.injEq, eq_comm, eq_comm (a := b)]

@[simp] theorem returns_fail {e : ε} {a : α} {b r : List σ} :
    ¬ (fail e : Reader ε τ σ α).Returns b a r :=
  fun h => by cases h.1

@[simp] theorem returns_event {t : τ} {b r : List σ} {u : Unit} :
    (event t : Reader ε τ σ Unit).Returns b u r ↔ r = b := by
  show Except.ok () = Except.ok u ∧ b = r ↔ _
  simp [eq_comm]

@[simp] theorem returns_ofExcept {x : Except ε α} {a : α} {b r : List σ} :
    (ofExcept x : Reader ε τ σ α).Returns b a r ↔ x = .ok a ∧ r = b := by
  cases x with
  | error e => simp [ofExcept]
  | ok a' =>
    show (pure a' : Reader ε τ σ α).Returns b a r ↔ _
    rw [returns_pure, Except.ok.injEq, eq_comm (a := a)]

theorem returns_bind {p : Reader ε τ σ α} {f : α → Reader ε τ σ β} {b r : List σ} {y : β} :
    (p >>= f).Returns b y r ↔ ∃ a r', p.Returns b a r' ∧ (f a).Returns r' y r := by
  show (p.bind f).Returns b y r ↔ _
  unfold Returns Reader.bind
  constructor
  · intro h
    split at h
    · exact absurd h.1 (by simp)
    · rename_i a r' t hp
      exact ⟨a, r', by rw [hp]; exact ⟨rfl, rfl⟩, h⟩
  · intro ⟨a, r', ⟨h₁, h₂⟩, h⟩
    split
    · rename_i hp
      rw [hp] at h₁
      cases h₁
    · rename_i a' r'' t hp
      rw [hp] at h₁ h₂
      cases h₁
      cases h₂
      exact h

theorem returns_exact {n : Nat} {e : ε} {b r bs : List σ} :
    (exact n e : Reader ε τ σ (List σ)).Returns b bs r ↔ b = bs ++ r ∧ bs.length = n := by
  by_cases h : n ≤ b.length
  · simp only [Returns, exact, h, ite_true, Except.ok.injEq]
    constructor
    · rintro ⟨rfl, rfl⟩
      exact ⟨(List.take_append_drop n b).symm, List.length_take_of_le h⟩
    · rintro ⟨rfl, rfl⟩
      exact ⟨List.take_left, List.drop_left⟩
  · simp only [Returns, exact, h, ite_false, reduceCtorEq, false_and, false_iff, not_and]
    rintro rfl hn
    exact h (by rw [List.length_append]; omega)

theorem returns_fixed {F : FixedWidth σ α} {e : ε} {b r : List σ} {a : α} :
    (fixed F e : Reader ε τ σ α).Returns b a r ↔ b = F.enc a ++ r := by
  simp only [fixed, returns_bind, returns_exact, returns_pure]
  constructor
  · rintro ⟨bs, r', ⟨rfl, hl⟩, rfl, rfl⟩
    rw [F.enc_dec bs hl]
  · rintro rfl
    exact ⟨F.enc a, r, ⟨rfl, by simp⟩, by simp⟩

/-! ## Languages -/

/-- `p` decodes the language `R`: `R a c` says that the word `c` denotes
`a`. -/
def Recognises (p : Reader ε τ σ α) (R : α → List σ → Prop) : Prop :=
  ∀ b a r, p.Returns b a r ↔ ∃ c, b = c ++ r ∧ R a c

/-- A word of `R`, then one of `S`, which may depend on what the first
denotes. -/
def Seq (R : α → List σ → Prop) (S : α → β → List σ → Prop) (y : β) (c : List σ) : Prop :=
  ∃ a c₁ c₂, c = c₁ ++ c₂ ∧ R a c₁ ∧ S a y c₂

/-- Words of `R` one after another. -/
inductive Many (R : α → List σ → Prop) : List α → List σ → Prop
  | nil : Many R [] []
  | cons {a : α} {as : List α} {c cs : List σ} : R a c → Many R as cs → Many R (a :: as) (c ++ cs)

namespace Recognises

variable {p : Reader ε τ σ α} {R R' : α → List σ → Prop}

theorem congr (h : p.Recognises R) (e : ∀ a c, R a c ↔ R' a c) : p.Recognises R' := fun b a r => by
  simp only [h b a r, e]

theorem pure (a : α) : (Pure.pure a : Reader ε τ σ α).Recognises fun a' c => a' = a ∧ c = [] := by
  intro b a' r
  rw [returns_pure]
  constructor
  · rintro ⟨rfl, rfl⟩
    exact ⟨[], rfl, rfl, rfl⟩
  · rintro ⟨c, rfl, rfl, rfl⟩
    exact ⟨rfl, rfl⟩

theorem fail (e : ε) : (Reader.fail e : Reader ε τ σ α).Recognises fun _ _ => False := by
  intro b a r
  simp

theorem event (t : τ) : (Reader.event t : Reader ε τ σ Unit).Recognises fun _ c => c = [] := by
  intro b a r
  simp [eq_comm]

theorem ofExcept (x : Except ε α) :
    (Reader.ofExcept x : Reader ε τ σ α).Recognises fun a c => x = .ok a ∧ c = [] := by
  intro b a r
  rw [returns_ofExcept]
  constructor
  · rintro ⟨h, rfl⟩
    exact ⟨[], rfl, h, rfl⟩
  · rintro ⟨c, rfl, h, rfl⟩
    exact ⟨h, rfl⟩

theorem exact (n : Nat) (e : ε) :
    (Reader.exact n e : Reader ε τ σ (List σ)).Recognises fun bs c => c = bs ∧ bs.length = n := by
  intro b bs r
  rw [returns_exact]
  constructor
  · intro ⟨h, hn⟩
    exact ⟨bs, h, rfl, hn⟩
  · rintro ⟨c, h, rfl, hn⟩
    exact ⟨h, hn⟩

theorem fixed (F : FixedWidth σ α) (e : ε) :
    (Reader.fixed F e : Reader ε τ σ α).Recognises fun a c => c = F.enc a := by
  intro b a r
  simp [returns_fixed]

theorem bind {f : α → Reader ε τ σ β} {S : α → β → List σ → Prop} (hp : p.Recognises R)
    (hf : ∀ a, (f a).Recognises (S a)) : (p >>= f).Recognises (Seq R S) := by
  intro b y r
  rw [returns_bind]
  constructor
  · intro ⟨a, r', h₁, h₂⟩
    obtain ⟨c₁, rfl, hR⟩ := (hp _ _ _).mp h₁
    obtain ⟨c₂, rfl, hS⟩ := (hf a _ _ _).mp h₂
    exact ⟨c₁ ++ c₂, (List.append_assoc ..).symm, a, c₁, c₂, rfl, hR, hS⟩
  · rintro ⟨c, rfl, a, c₁, c₂, rfl, hR, hS⟩
    rw [List.append_assoc]
    exact ⟨a, c₂ ++ r, (hp _ _ _).mpr ⟨c₁, rfl, hR⟩, (hf a _ _ _).mpr ⟨c₂, rfl, hS⟩⟩

theorem map {f : α → β} (hp : p.Recognises R) :
    (p >>= fun a => Pure.pure (f a)).Recognises fun y c => ∃ a, y = f a ∧ R a c := by
  refine (hp.bind fun a => Recognises.pure (f a)).congr fun y c => ⟨?_, ?_⟩
  · rintro ⟨a, c₁, _, rfl, hR, rfl, rfl⟩
    exact ⟨a, rfl, by rwa [List.append_nil]⟩
  · rintro ⟨a, rfl, hR⟩
    exact ⟨a, c, [], by simp, hR, rfl, rfl⟩

/-- A check before the rest of a reader. -/
theorem guard {q : Prop} [Decidable q] {e : ε} (h : ¬ q → p.Recognises R) :
    (if q then Reader.fail e else p).Recognises fun a c => ¬ q ∧ R a c := by
  by_cases hq : q
  · rw [if_pos hq]
    exact (Recognises.fail e).congr fun _ _ => by simp [hq]
  · rw [if_neg hq]
    exact (h hq).congr fun _ _ => by simp [hq]

theorem many (hp : p.Recognises R) (n : Nat) :
    (p.many n).Recognises fun as c => as.length = n ∧ Many R as c := by
  induction n with
  | zero =>
    refine (Recognises.pure []).congr fun as c => ⟨?_, ?_⟩
    · rintro ⟨rfl, rfl⟩
      exact ⟨rfl, .nil⟩
    · intro ⟨hl, h⟩
      cases h with
      | nil => exact ⟨rfl, rfl⟩
      | cons _ _ => simp at hl
  | succ n ih =>
    refine (hp.bind fun a => ih.bind fun as => Recognises.pure (a :: as)).congr fun as c => ⟨?_, ?_⟩
    · rintro ⟨a, c₁, _, rfl, hR, as, c₂, _, rfl, ⟨hl, hM⟩, rfl, rfl⟩
      rw [List.append_nil]
      exact ⟨by rw [List.length_cons, hl], .cons hR hM⟩
    · intro ⟨hl, h⟩
      cases h with
      | nil => simp at hl
      | @cons a as c cs hR hM =>
        exact ⟨a, c, cs, rfl, hR, as, cs, [], by simp, ⟨by simpa using hl, hM⟩, rfl, rfl⟩

/-! ## Consequences -/

variable (h : p.Recognises R)
include h

/-- A word is read whatever follows it. -/
theorem returns_append {a : α} {c : List σ} (hc : R a c) (r : List σ) : p.Returns (c ++ r) a r :=
  (h _ _ _).mpr ⟨c, rfl, hc⟩

/-- What was consumed is a word that denotes the result. -/
theorem word {b : List σ} {a : α} (hp : (p b).result = .ok a) :
    R a (b.take (p.consumed b)) ∧ p.consumed b ≤ b.length := by
  obtain ⟨c, hb, hc⟩ := (h _ _ _).mp ⟨hp, rfl⟩
  have hl : p.consumed b = c.length := by
    rw [consumed, congrArg List.length hb, List.length_append, Nat.add_sub_cancel]
  rw [hl]
  exact ⟨by rw [hb, List.take_left]; exact hc, Nat.sub_le _ _ |>.trans_eq' hl⟩

/-- Two words in front of the same input are the same. -/
theorem unique {a a' : α} {c c' r r' : List σ} (hc : R a c) (hc' : R a' c')
    (e : c ++ r = c' ++ r') : a = a' ∧ c = c' := by
  have h' := h.returns_append hc' r'
  rw [← e] at h'
  obtain ⟨ha, hr⟩ := (h.returns_append hc r).unique h'
  exact ⟨ha, List.append_cancel_right (hr ▸ e)⟩

/-- A reader fails on every strict prefix of a word. -/
theorem error_of_prefix {a : α} {c c' : List σ} (hc : R a c) (hp : c' <+: c) (hn : c' ≠ c) :
    ∃ e, (p c').result = .error e := by
  apply isError_of_not_returns
  intro a' r' hr
  apply hn
  obtain ⟨t, rfl⟩ := hp
  obtain ⟨d, rfl, hd⟩ := (h _ _ _).mp hr
  -- the word `d` in `c'` is read in front of `c` too, so it is all of `c`
  obtain ⟨-, e⟩ := h.unique hc hd (show d ++ r' ++ t ++ [] = d ++ (r' ++ t) by simp)
  have hl := congrArg List.length e
  simp only [List.length_append] at hl
  rw [List.eq_nil_of_length_eq_zero (show t.length = 0 by omega), List.append_nil]

end Recognises

theorem many_enc {enc : α → List σ} {as : List α} {c : List σ} :
    Many (fun a c => c = enc a) as c ↔ c = as.flatMap enc := by
  constructor
  · intro h
    induction h with
    | nil => rfl
    | cons h _ ih => rw [List.flatMap_cons, h, ih]
  · rintro rfl
    induction as with
    | nil => exact .nil
    | cons a as ih => exact List.flatMap_cons ▸ .cons rfl ih

theorem Many.exists {R : α → List σ → Prop} : ∀ {as : List α}, (∀ a ∈ as, ∃ c, R a c) → ∃ c, Many R as c
  | [], _ => ⟨[], .nil⟩
  | a :: as, h => by
    obtain ⟨c, hc⟩ := h a List.mem_cons_self
    obtain ⟨cs, hcs⟩ := Many.exists fun b hb => h b (List.mem_cons_of_mem a hb)
    exact ⟨c ++ cs, .cons hc hcs⟩

/-- Where all strings of one length are words, those of its multiples are words one
after another. -/
theorem Many.of_length {R : α → List σ → Prop} {k : Nat} (h : ∀ c : List σ, c.length = k → ∃ a, R a c) (n : Nat)
    {c : List σ} (hc : c.length = n * k) : ∃ as, as.length = n ∧ Many R as c := by
  induction n generalizing c with
  | zero =>
    rw [Nat.zero_mul] at hc
    rw [List.eq_nil_of_length_eq_zero hc]
    exact ⟨[], rfl, .nil⟩
  | succ n ih =>
    rw [Nat.succ_mul] at hc
    obtain ⟨a, ha⟩ := h (c.take k) (List.length_take_of_le (by omega))
    obtain ⟨as, rfl, has⟩ := ih (show (c.drop k).length = n * k by rw [List.length_drop]; omega)
    rw [← List.take_append_drop k c]
    exact ⟨a :: as, rfl, .cons ha has⟩

theorem Many.exists_of_mem {R : α → List σ → Prop} {as : List α} {c : List σ} (h : Many R as c) {a : α}
    (ha : a ∈ as) : ∃ c, R a c := by
  induction h with
  | nil => cases ha
  | cons hR _ ih =>
    rcases List.mem_cons.mp ha with rfl | ha
    · exact ⟨_, hR⟩
    · exact ih ha

theorem many_append {R : α → List σ → Prop} {as bs : List α} {c : List σ} :
    Many R (as ++ bs) c ↔ ∃ c₁ c₂, c = c₁ ++ c₂ ∧ Many R as c₁ ∧ Many R bs c₂ := by
  induction as generalizing c with
  | nil =>
    constructor
    · intro h
      exact ⟨[], c, rfl, .nil, h⟩
    · rintro ⟨_, c, rfl, h₁, h₂⟩
      cases h₁
      exact h₂
  | cons a as ih =>
    constructor
    · intro h
      cases h with
      | cons ha h =>
        obtain ⟨c₁, c₂, rfl, h₁, h₂⟩ := ih.mp h
        exact ⟨_, c₂, (List.append_assoc ..).symm, .cons ha h₁, h₂⟩
    · rintro ⟨_, c₂, rfl, h₁, h₂⟩
      cases h₁ with
      | cons ha h₁ =>
        rw [List.append_assoc]
        exact .cons ha (ih.mpr ⟨_, c₂, rfl, h₁, h₂⟩)

/-- The words around one of them. -/
theorem Many.split {R : α → List σ → Prop} {as : List α} {c : List σ} (h : Many R as c) {a : α} (ha : a ∈ as) :
    ∃ as₁ as₂ c₁ d c₂, as = as₁ ++ a :: as₂ ∧ c = c₁ ++ (d ++ c₂) ∧ Many R as₁ c₁ ∧ R a d := by
  induction h with
  | nil => cases ha
  | @cons b bs d ds hR _ ih =>
    rcases List.mem_cons.mp ha with rfl | ha
    · exact ⟨[], bs, [], d, ds, rfl, rfl, .nil, hR⟩
    · obtain ⟨as₁, as₂, c₁, e, c₂, rfl, rfl, h₁, h₂⟩ := ih ha
      exact ⟨b :: as₁, as₂, d ++ c₁, e, c₂, rfl, (List.append_assoc ..).symm, .cons hR h₁, h₂⟩

/-- A word after fewer than `n + 1` others: it is the first, or it is after one and
fewer than `n` others. -/
theorem Many.before_succ {R : α → List σ → Prop} {L : List σ → Prop} {n : Nat} {c : List σ} :
    (∃ as cs d, c = cs ++ d ∧ as.length < n + 1 ∧ Many R as cs ∧ L d) ↔
      L c ∨ ∃ a c₁ c₂, c = c₁ ++ c₂ ∧ R a c₁ ∧
        ∃ as cs d, c₂ = cs ++ d ∧ as.length < n ∧ Many R as cs ∧ L d := by
  constructor
  · rintro ⟨as, cs, d, rfl, hl, hM, hd⟩
    cases hM with
    | nil => exact .inl hd
    | @cons a as c cs ha hM =>
      exact .inr ⟨a, c, cs ++ d, List.append_assoc .., ha, as, cs, d, rfl, Nat.lt_of_succ_lt_succ hl, hM, hd⟩
  · rintro (h | ⟨a, c₁, _, rfl, ha, as, cs, d, rfl, hl, hM, hd⟩)
    · exact ⟨[], [], c, rfl, Nat.succ_pos n, .nil, h⟩
    · exact ⟨a :: as, c₁ ++ cs, d, (List.append_assoc ..).symm, Nat.succ_lt_succ hl, .cons ha hM, hd⟩

end Reader

end Codec
