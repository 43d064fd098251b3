import PestiGguf.Framework.Reader

/-!
# Writers to an append-only sink

An `Emit` is started at a position of its sink and gives a result and the
symbols it appended, also when it fails: what was written before an error
stays written. It can ask for the position (`Emit.position`), and can change
nothing before it.
-/

namespace Codec

/-- A writer of symbols `σ`, with errors `ε`. -/
def Emit (ε σ α : Type) : Type := Nat → Except ε α × List σ

namespace Emit

variable {ε σ α β : Type}

protected def pure (a : α) : Emit ε σ α := fun _ => (.ok a, [])

protected def bind (x : Emit ε σ α) (f : α → Emit ε σ β) : Emit ε σ β := fun p =>
  match x p with
  | (.error e, o) => (.error e, o)
  | (.ok a, o) =>
    match f a (p + o.length) with
    | (r, o') => (r, o ++ o')

instance : Monad (Emit ε σ) where
  pure := Emit.pure
  bind := Emit.bind

def fail (e : ε) : Emit ε σ α := fun _ => (.error e, [])

def ofExcept (x : Except ε α) : Emit ε σ α := fun _ => (x, [])

/-- Append `bs`. -/
def writeAll (bs : List σ) : Emit ε σ Unit := fun _ => (.ok (), bs)

/-- The position in the sink. -/
def position : Emit ε σ Nat := fun p => (.ok p, [])

/-- Started at `p`, `x` succeeds with `a` and appends `o`. -/
def Emits (x : Emit ε σ α) (p : Nat) (a : α) (o : List σ) : Prop := x p = (.ok a, o)

/-- Started at `p`, `x` fails. -/
def Fails (x : Emit ε σ α) (p : Nat) : Prop := ∃ e o, x p = (.error e, o)

theorem Emits.unique {x : Emit ε σ α} {p : Nat} {a a' : α} {o o' : List σ} (h : x.Emits p a o)
    (h' : x.Emits p a' o') : a = a' ∧ o = o' := by
  have := h.symm.trans h'
  simpa using this

theorem emits_or_fails (x : Emit ε σ α) (p : Nat) : (∃ a o, x.Emits p a o) ∨ x.Fails p := by
  rcases h : x p with ⟨_ | a, o⟩
  · exact .inr ⟨_, o, h⟩
  · exact .inl ⟨a, o, h⟩

theorem Emits.not_fails {x : Emit ε σ α} {p : Nat} {a : α} {o : List σ} (h : x.Emits p a o) :
    ¬ x.Fails p := by
  intro ⟨e, o', h'⟩
  cases h.symm.trans h'

@[simp] theorem emits_pure {a a' : α} {p : Nat} {o : List σ} :
    (pure a : Emit ε σ α).Emits p a' o ↔ a' = a ∧ o = [] := by
  show (Except.ok a, []) = (Except.ok a', o) ↔ _
  simp [eq_comm]

@[simp] theorem emits_writeAll {bs o : List σ} {p : Nat} {u : Unit} :
    (writeAll bs : Emit ε σ Unit).Emits p u o ↔ o = bs := by
  show (Except.ok (), bs) = (Except.ok u, o) ↔ _
  simp [eq_comm]

@[simp] theorem emits_position {p q : Nat} {o : List σ} :
    (position : Emit ε σ Nat).Emits p q o ↔ q = p ∧ o = [] := by
  show (Except.ok p, []) = (Except.ok q, o) ↔ _
  simp [eq_comm]

@[simp] theorem emits_fail {e : ε} {p : Nat} {a : α} {o : List σ} :
    ¬ (fail e : Emit ε σ α).Emits p a o :=
  fun h => by cases h

@[simp] theorem emits_ofExcept {x : Except ε α} {p : Nat} {a : α} {o : List σ} :
    (ofExcept x : Emit ε σ α).Emits p a o ↔ x = .ok a ∧ o = [] := by
  show (x, []) = (Except.ok a, o) ↔ _
  simp [eq_comm]

theorem emits_bind {x : Emit ε σ α} {f : α → Emit ε σ β} {p : Nat} {b : β} {o : List σ} :
    (x >>= f).Emits p b o ↔
      ∃ a o₁ o₂, x.Emits p a o₁ ∧ (f a).Emits (p + o₁.length) b o₂ ∧ o = o₁ ++ o₂ := by
  show (x.bind f).Emits p b o ↔ _
  unfold Emits Emit.bind
  constructor
  · intro h
    split at h
    · cases h
    · rename_i a o₁ hx
      simp only [Prod.mk.injEq] at h
      exact ⟨a, o₁, _, hx, Prod.ext h.1 rfl, h.2.symm⟩
  · rintro ⟨a, o₁, o₂, hx, hf, rfl⟩
    rw [hx]
    simp only [hf]

/-- A bind fails where its first part does. -/
theorem Fails.bind {x : Emit ε σ α} {f : α → Emit ε σ β} {p : Nat} (h : x.Fails p) : (x >>= f).Fails p := by
  obtain ⟨e, o, h⟩ := h
  refine ⟨e, o, ?_⟩
  show x.bind f p = _
  rw [Emit.bind, h]

/-- A bind fails where its second part does. -/
theorem Emits.bind_fails {x : Emit ε σ α} {f : α → Emit ε σ β} {p : Nat} {a : α} {o : List σ}
    (h : x.Emits p a o) (hf : (f a).Fails (p + o.length)) : (x >>= f).Fails p := by
  obtain ⟨e, o', hf⟩ := hf
  refine ⟨e, o ++ o', ?_⟩
  show x.bind f p = _
  rw [Emit.bind, show x p = _ from h]
  simp only [hf]

theorem Emits.bind {x : Emit ε σ α} {f : α → Emit ε σ β} {p : Nat} {a : α} {b : β} {o o' : List σ}
    (h : x.Emits p a o) (hf : (f a).Emits (p + o.length) b o') : (x >>= f).Emits p b (o ++ o') :=
  emits_bind.mpr ⟨a, o, o', h, hf, rfl⟩

/-- A bind whose first part succeeds. -/
theorem Emits.bind_iff {x : Emit ε σ α} {f : α → Emit ε σ β} {p : Nat} {a : α} {b : β} {o o' : List σ}
    (h : x.Emits p a o) :
    (x >>= f).Emits p b o' ↔ ∃ r, (f a).Emits (p + o.length) b r ∧ o' = o ++ r := by
  rw [emits_bind]
  constructor
  · rintro ⟨a', o₁, r, hx, hf, rfl⟩
    obtain ⟨rfl, rfl⟩ := h.unique hx
    exact ⟨r, hf, rfl⟩
  · rintro ⟨r, hf, rfl⟩
    exact ⟨a, o, r, h, hf, rfl⟩

/-! ## Writers that do not ask for the position -/

/-- Wherever it is started, `x` succeeds and appends `c`. -/
def Writes (x : Emit ε σ Unit) (c : List σ) : Prop := ∀ p, x.Emits p () c

theorem Writes.unique {x : Emit ε σ Unit} {c : List σ} (h : x.Writes c) {p : Nat} {u : Unit} {o : List σ}
    (h' : x.Emits p u o) : o = c :=
  (h'.unique (h p)).2

theorem writes_pure : (pure () : Emit ε σ Unit).Writes [] := fun _ => emits_pure.mpr ⟨rfl, rfl⟩

theorem writes_writeAll (bs : List σ) : (writeAll bs : Emit ε σ Unit).Writes bs :=
  fun _ => emits_writeAll.mpr rfl

theorem Writes.bind {x y : Emit ε σ Unit} {c d : List σ} (hx : x.Writes c) (hy : y.Writes d) :
    (do x; y : Emit ε σ Unit).Writes (c ++ d) :=
  fun p => (hx p).bind (hy _)

/-- What follows a writer fails wherever it is started. -/
theorem Writes.bind_fails {x y : Emit ε σ Unit} {c : List σ} (hx : x.Writes c) (hy : ∀ p, y.Fails p)
    (p : Nat) : (do x; y : Emit ε σ Unit).Fails p :=
  (hx p).bind_fails (hy _)

/-! ## What a failed writer leaves -/

/-- Started at `p`, `x` fails with `e`, after it appended `o`. -/
def FailsWith (x : Emit ε σ α) (p : Nat) (e : ε) (o : List σ) : Prop := x p = (.error e, o)

@[simp] theorem failsWith_pure {a : α} {p : Nat} {e : ε} {o : List σ} :
    ¬ (pure a : Emit ε σ α).FailsWith p e o :=
  fun h => by cases h

@[simp] theorem failsWith_fail {e e' : ε} {p : Nat} {o : List σ} :
    (fail e : Emit ε σ α).FailsWith p e' o ↔ e' = e ∧ o = [] := by
  show (Except.error e, []) = (Except.error e', o) ↔ _
  simp [eq_comm]

@[simp] theorem failsWith_ofExcept {x : Except ε α} {p : Nat} {e : ε} {o : List σ} :
    (ofExcept x : Emit ε σ α).FailsWith p e o ↔ x = .error e ∧ o = [] := by
  show (x, []) = (Except.error e, o) ↔ _
  simp [eq_comm]

theorem Emits.not_failsWith {x : Emit ε σ α} {p : Nat} {a : α} {o o' : List σ} {e : ε} (h : x.Emits p a o) :
    ¬ x.FailsWith p e o' :=
  fun h' => h.not_fails ⟨e, o', h'⟩

theorem Writes.not_failsWith {x : Emit ε σ Unit} {c o : List σ} {p : Nat} {e : ε} (h : x.Writes c) :
    ¬ x.FailsWith p e o :=
  (h p).not_failsWith

/-- A bind fails in its first part, or in its second after the first. -/
theorem failsWith_bind {x : Emit ε σ α} {f : α → Emit ε σ β} {p : Nat} {e : ε} {o : List σ} :
    (x >>= f).FailsWith p e o ↔ x.FailsWith p e o ∨
      ∃ a o₁ o₂, x.Emits p a o₁ ∧ (f a).FailsWith (p + o₁.length) e o₂ ∧ o = o₁ ++ o₂ := by
  show (x.bind f).FailsWith p e o ↔ _
  unfold FailsWith Emits Emit.bind
  rcases x p with ⟨_ | a, o₁⟩
  · simp
  · simp only [Prod.mk.injEq, reduceCtorEq, false_and, false_or, Except.ok.injEq]
    constructor
    · rintro ⟨he, rfl⟩
      exact ⟨a, o₁, _, ⟨rfl, rfl⟩, Prod.ext he rfl, rfl⟩
    · rintro ⟨_, _, o₂, ⟨rfl, rfl⟩, hf, rfl⟩
      rw [hf]
      exact ⟨rfl, rfl⟩

/-- A bind whose first part succeeds. -/
theorem Emits.failsWith_bind {x : Emit ε σ α} {f : α → Emit ε σ β} {p : Nat} {a : α} {c : List σ}
    (h : x.Emits p a c) {e : ε} {o : List σ} :
    (x >>= f).FailsWith p e o ↔ ∃ r, (f a).FailsWith (p + c.length) e r ∧ o = c ++ r := by
  rw [Emit.failsWith_bind]
  constructor
  · rintro (hx | ⟨a', o₁, r, hx, hf, rfl⟩)
    · exact absurd hx h.not_failsWith
    · obtain ⟨rfl, rfl⟩ := h.unique hx
      exact ⟨r, hf, rfl⟩
  · rintro ⟨r, hf, rfl⟩
    exact .inr ⟨a, c, r, h, hf, rfl⟩

/-- A bind whose second part cannot fail. -/
theorem failsWith_bind_left {x : Emit ε σ α} {f : α → Emit ε σ β} {p : Nat} {e : ε} {o : List σ}
    (hf : ∀ a q o', ¬ (f a).FailsWith q e o') : (x >>= f).FailsWith p e o ↔ x.FailsWith p e o := by
  rw [failsWith_bind, or_iff_left]
  rintro ⟨a, _, _, -, h, -⟩
  exact hf a _ _ h

/-! ## Writers that succeed or fail by their input -/

/-- `x` writes something, the same wherever it is started, where `b` holds,
and fails wherever it is started where not. -/
def Gated (b : Bool) (x : Emit ε σ Unit) : Prop :=
  (b = true → ∃ c, x.Writes c) ∧ (b = false → ∀ p, x.Fails p)

theorem Writes.gated {x : Emit ε σ Unit} {c : List σ} (h : x.Writes c) : Gated true x :=
  ⟨fun _ => ⟨c, h⟩, nofun⟩

theorem Gated.bind {x y : Emit ε σ Unit} {b b' : Bool} (hx : Gated b x) (hy : Gated b' y) :
    Gated (b && b') (do x; y) := by
  cases b with
  | false => exact ⟨nofun, fun _ p => (hx.2 rfl p).bind⟩
  | true =>
    obtain ⟨c, hc⟩ := hx.1 rfl
    refine ⟨fun h => ?_, fun h p => hc.bind_fails (hy.2 h) p⟩
    obtain ⟨d, hd⟩ := hy.1 h
    exact ⟨c ++ d, hc.bind hd⟩

theorem Gated.emits_iff {x : Emit ε σ Unit} {b : Bool} (h : Gated b x) (p : Nat) :
    (∃ o, x.Emits p () o) ↔ b = true := by
  constructor
  · intro ⟨o, ho⟩
    cases b with
    | true => rfl
    | false => exact absurd (h.2 rfl p) ho.not_fails
  · intro hb
    obtain ⟨c, hc⟩ := h.1 hb
    exact ⟨c, hc p⟩

theorem Gated.writes_of_emits {x : Emit ε σ Unit} {b : Bool} (h : Gated b x) {p : Nat} {c : List σ}
    (he : x.Emits p () c) : x.Writes c := by
  obtain ⟨d, hd⟩ := h.1 ((h.emits_iff p).mp ⟨c, he⟩)
  rwa [hd.unique he]

theorem Gated.not_failsWith {x : Emit ε σ Unit} {b : Bool} (h : Gated b x) (hb : b = true) {p : Nat} {e : ε}
    {o : List σ} : ¬ x.FailsWith p e o := by
  obtain ⟨c, hc⟩ := h.1 hb
  exact hc.not_failsWith

/-! ## Loops -/

theorem emits_forM_nil {f : α → Emit ε σ Unit} {p : Nat} {u : Unit} {o : List σ} :
    (forM ([] : List α) f).Emits p u o ↔ o = [] := by
  rw [List.forM_nil]
  simp

theorem emits_forM_cons {f : α → Emit ε σ Unit} {a : α} {as : List α} {p : Nat} {u : Unit}
    {o : List σ} :
    (forM (a :: as) f).Emits p u o ↔
      ∃ o₁ o₂, (f a).Emits p () o₁ ∧ (forM as f).Emits (p + o₁.length) u o₂ ∧ o = o₁ ++ o₂ := by
  rw [List.forM_cons, emits_bind]
  exact ⟨fun ⟨_, h⟩ => h, fun h => ⟨(), h⟩⟩

theorem writes_forM_nil {f : α → Emit ε σ Unit} : (forM ([] : List α) f).Writes [] :=
  fun _ => emits_forM_nil.mpr rfl

theorem writes_forM_cons {f : α → Emit ε σ Unit} {a : α} {as : List α} {c d : List σ}
    (ha : (f a).Writes c) (h : (forM as f).Writes d) : (forM (a :: as) f).Writes (c ++ d) :=
  fun p => emits_forM_cons.mpr ⟨c, d, ha p, h _, rfl⟩

/-- A loop over steps that do not ask for the position. -/
theorem writes_forM {f : α → Emit ε σ Unit} {enc : α → List σ} :
    ∀ {as : List α}, (∀ a ∈ as, (f a).Writes (enc a)) → (forM as f).Writes (as.flatMap enc)
  | [], _ => writes_forM_nil
  | a :: as, h => by
    rw [List.flatMap_cons]
    exact writes_forM_cons (h a List.mem_cons_self)
      (writes_forM fun b hb => h b (List.mem_cons_of_mem _ hb))

theorem gated_forM {f : α → Emit ε σ Unit} {b : α → Bool} (h : ∀ a, Gated (b a) (f a)) :
    ∀ as : List α, Gated (as.all b) (forM as f)
  | [] => writes_forM_nil.gated
  | a :: as => by
    rw [List.forM_cons, List.all_cons]
    exact (h a).bind (gated_forM h as)

/-- A loop fails where a step of it fails wherever it starts. -/
theorem fails_forM {f : α → Emit ε σ Unit} {as : List α} {a : α} (ha : a ∈ as)
    (hf : ∀ p, (f a).Fails p) (p : Nat) : (forM as f).Fails p := by
  rcases emits_or_fails (forM as f) p with ⟨⟨⟩, o, h⟩ | h
  · induction as generalizing p o with
    | nil => cases ha
    | cons b bs ih =>
      obtain ⟨o₁, o₂, h₁, h₂, -⟩ := emits_forM_cons.mp h
      rcases List.mem_cons.mp ha with rfl | ha
      · exact absurd (hf p) h₁.not_fails
      · exact absurd (ih ha _ _ h₂) h₂.not_fails
  · exact h

/-- A loop fails in a step, after the steps before it. -/
theorem failsWith_forM {f : α → Emit ε σ Unit} {as : List α} {p : Nat} {e : ε} {o : List σ} :
    (forM as f).FailsWith p e o ↔ ∃ as₁ a as₂ o₁ o₂, as = as₁ ++ a :: as₂ ∧ (forM as₁ f).Emits p () o₁ ∧
      (f a).FailsWith (p + o₁.length) e o₂ ∧ o = o₁ ++ o₂ := by
  induction as generalizing p o with
  | nil =>
    rw [List.forM_nil]
    simp
  | cons b bs ih =>
    rw [List.forM_cons, failsWith_bind]
    constructor
    · rintro (h | ⟨_, o₁, _, h₁, h, rfl⟩)
      · exact ⟨[], b, bs, [], o, rfl, emits_forM_nil.mpr rfl, h, rfl⟩
      · obtain ⟨as₁, a, as₂, o₂, o₃, rfl, h₂, h₃, rfl⟩ := ih.mp h
        refine ⟨b :: as₁, a, as₂, o₁ ++ o₂, o₃, rfl, emits_forM_cons.mpr ⟨o₁, o₂, h₁, h₂, rfl⟩, ?_,
          (List.append_assoc ..).symm⟩
        rwa [List.length_append, ← Nat.add_assoc]
    · rintro ⟨as₁, a, as₂, o₁, o₂, has, h₁, h₂, rfl⟩
      cases as₁ with
      | nil =>
        obtain ⟨rfl, rfl⟩ := List.cons.inj has
        rw [emits_forM_nil.mp h₁] at h₂ ⊢
        exact .inl h₂
      | cons c cs =>
        obtain ⟨rfl, rfl⟩ := List.cons.inj has
        obtain ⟨o₃, o₄, h₃, h₄, rfl⟩ := emits_forM_cons.mp h₁
        rw [List.length_append, ← Nat.add_assoc] at h₂
        exact .inr ⟨(), o₃, o₄ ++ o₂, h₃, ih.mpr ⟨cs, a, as₂, o₄, o₂, rfl, h₄, h₂, rfl⟩, List.append_assoc ..⟩

/-- What a loop writes is as long as what its steps write. -/
theorem length_forM {f : α → Emit ε σ Unit} {n : α → Nat} {as : List α}
    (h : ∀ a ∈ as, ∀ {p c}, (f a).Emits p () c → c.length = n a) {p : Nat} {c : List σ}
    (hw : (forM as f).Emits p () c) : c.length = (as.map n).sum := by
  induction as generalizing p c with
  | nil =>
    rw [emits_forM_nil.mp hw]
    rfl
  | cons a as ih =>
    obtain ⟨d, ds, hd, hds, rfl⟩ := emits_forM_cons.mp hw
    rw [List.length_append, h a List.mem_cons_self hd, ih (fun b hb => h b (List.mem_cons_of_mem _ hb)) hds,
      List.map_cons, List.sum_cons]

/-- Where records are read of what a loop wrote, and each step writes a word
where one is read, the loop wrote as many words. -/
theorem many_of_append {ε' τ : Type} {p : Reader ε' τ σ α} {R : α → List σ → Prop} (hp : p.Recognises R)
    {f : α → Emit ε σ Unit} {as as' : List α} {q : Nat} {c c' r r' : List σ}
    (hf : ∀ a ∈ as, ∀ {q c c' r r' a'}, (f a).Emits q () c → c ++ r = c' ++ r' → R a' c' → R a c)
    (hw : (forM as f).Emits q () c) (h : c ++ r = c' ++ r') (hc : Reader.Many R as' c')
    (hl : as.length = as'.length) : Reader.Many R as c := by
  induction as generalizing as' q c c' with
  | nil =>
    obtain rfl := emits_forM_nil.mp hw
    exact .nil
  | cons a as ih =>
    cases hc with
    | nil => cases hl
    | cons he' hcs' =>
      obtain ⟨e, cs, he, hcs, rfl⟩ := emits_forM_cons.mp hw
      rw [List.append_assoc, List.append_assoc] at h
      have ha := hf a List.mem_cons_self he h he'
      obtain ⟨-, rfl⟩ := hp.unique ha he' h
      exact .cons ha (ih (fun b hb => hf b (List.mem_cons_of_mem _ hb)) hcs (List.append_cancel_left h)
        hcs' (Nat.succ.inj hl))

end Emit

end Codec
