import PestiGguf.Framework.Reader

/-!
# Readers of an input that grows

Some errors of a reader say that its input ended (`Starved`). `p.Streams E n`
says that a run that ends otherwise is the same whatever input follows its own,
and that on `n` symbols a run does end otherwise. Such readers compose
(`Streams.bind`, `Streams.many`), and an endless input decides what they give at
one length (`Streams.exists_decisive_stream`).
-/

namespace Codec

variable {ε τ σ α β : Type}

/-- A run with more input behind what it left. -/
def Run.followedBy (run : Run ε τ σ α) (s : List σ) : Run ε τ σ α := { run with rest := run.rest ++ s }

namespace Reader

/-- The result is an error of `E`: more input is wanted. -/
def Starved (E : ε → Prop) : Except ε α → Prop
  | .error e => E e
  | .ok _ => False

/-- The first `m` symbols of an endless input. -/
def upTo (stream : Nat → σ) (m : Nat) : List σ := (List.range m).map stream

@[simp] theorem length_upTo (stream : Nat → σ) (m : Nat) : (upTo stream m).length = m := by
  rw [upTo, List.length_map, List.length_range]

theorem upTo_prefix (stream : Nat → σ) {k m : Nat} (h : k ≤ m) : ∃ s, upTo stream m = upTo stream k ++ s := by
  obtain ⟨d, rfl⟩ := Nat.exists_eq_add_of_le h
  exact ⟨_, by rw [upTo, List.range_add, List.map_append]; rfl⟩

theorem take_upTo (stream : Nat → σ) {k m : Nat} (h : k ≤ m) : (upTo stream m).take k = upTo stream k := by
  obtain ⟨s, hs⟩ := upTo_prefix stream h
  rw [hs, List.take_append_of_le_length (length_upTo stream k).ge, List.take_of_length_le (length_upTo stream k).le]

/-- Without an error of `E` a run is the same in front of any input, and on `n`
symbols it is without. -/
structure Streams (p : Reader ε τ σ α) (E : ε → Prop) (n : Nat) : Prop where
  settled : ∀ b s, ¬ Starved E (p b).result → p (b ++ s) = (p b).followedBy s
  enough : ∀ b, n ≤ b.length → ¬ Starved E (p b).result

namespace Streams

variable {p : Reader ε τ σ α} {E : ε → Prop} {n m : Nat}

theorem mono (h : p.Streams E n) (hm : n ≤ m) : p.Streams E m :=
  ⟨h.settled, fun b hb => h.enough b (Nat.le_trans hm hb)⟩

/-- A run on at least `n` symbols takes at most `n`. -/
theorem length_le (h : p.Streams E n) {b : List σ} (hb : n ≤ b.length) : b.length ≤ n + (p b).rest.length := by
  have hrun := h.settled (b.take n) (b.drop n) (h.enough _ (List.length_take_of_le hb).ge)
  rw [List.take_append_drop] at hrun
  rw [hrun, Run.followedBy, List.length_append, List.length_drop]
  omega

theorem pure (a : α) : (Pure.pure a : Reader ε τ σ α).Streams E 0 :=
  ⟨fun _ _ _ => rfl, fun _ _ => id⟩

theorem fail {e : ε} (he : ¬ E e) : (Reader.fail e : Reader ε τ σ α).Streams E 0 :=
  ⟨fun _ _ _ => rfl, fun _ _ => he⟩

theorem ofExcept {x : Except ε α} (h : ∀ e, x = .error e → ¬ E e) : (Reader.ofExcept x : Reader ε τ σ α).Streams E 0 := by
  cases x with
  | ok a => exact pure a
  | error e => exact fail (h e rfl)

theorem event (t : τ) : (Reader.event t : Reader ε τ σ Unit).Streams E 0 :=
  ⟨fun _ _ _ => rfl, fun _ _ => id⟩

theorem exact (n : Nat) {e : ε} (he : E e) : (Reader.exact n e : Reader ε τ σ (List σ)).Streams E n where
  settled b s hb := by
    rw [Reader.exact] at hb ⊢
    by_cases hn : n ≤ b.length
    · rw [if_pos (by rw [List.length_append]; omega), Reader.exact, if_pos hn, Run.followedBy,
        List.take_append_of_le_length hn, List.drop_append_of_le_length hn]
    · rw [if_neg hn] at hb
      exact absurd he hb
  enough b hb := by
    rw [Reader.exact, if_pos hb]
    exact id

theorem bind {f : α → Reader ε τ σ β} (hp : p.Streams E n) (hf : ∀ a, (f a).Streams E m) :
    (p >>= f).Streams E (n + m) where
  settled b s hb := by
    show p.bind f (b ++ s) = (p.bind f b).followedBy s
    replace hb : ¬ Starved E (p.bind f b).result := hb
    have hrun := hp.settled b s
    unfold Reader.bind at hb ⊢
    rcases hpb : p b with ⟨_ | a, r, t⟩
    · rw [hpb] at hb hrun
      rw [hrun hb]
      rfl
    · rw [hpb] at hb hrun
      rw [hrun id]
      dsimp only [Run.followedBy]
      rw [(hf a).settled r s hb]
      rfl
  enough b hb := by
    show ¬ Starved E (p.bind f b).result
    have hfirst := hp.enough b (by omega)
    have hrest := hp.length_le (b := b) (by omega)
    unfold Reader.bind
    rcases hpb : p b with ⟨_ | a, r, t⟩
    · rw [hpb] at hfirst
      exact hfirst
    · rw [hpb] at hrest
      exact (hf a).enough r (by simp only at hrest; omega)

theorem map {f : α → β} (hp : p.Streams E n) : (p >>= fun a => Pure.pure (f a)).Streams E n :=
  hp.bind fun a => pure (f a)

theorem fixed (F : FixedWidth σ α) {e : ε} (he : E e) : (Reader.fixed F e : Reader ε τ σ α).Streams E F.width :=
  (exact F.width he).map

theorem guard {q : Prop} [Decidable q] {e : ε} (he : ¬ E e) (h : p.Streams E n) :
    (if q then Reader.fail e else p).Streams E n := by
  by_cases hq : q
  · rw [if_pos hq]
    exact (fail he).mono (Nat.zero_le n)
  · rw [if_neg hq]
    exact h

theorem many (hp : p.Streams E n) (k : Nat) : (p.many k).Streams E (k * n) := by
  induction k with
  | zero => exact (pure []).mono (Nat.zero_le _)
  | succ k ih => exact (hp.bind fun _ => ih.map).mono (by rw [Nat.succ_mul, Nat.add_comm])

/-! ## Where an input decides -/

/-- An endless input decides at one length. -/
theorem exists_decisive_stream (h : p.Streams E n) (stream : Nat → σ) :
    ∃! k, (∀ m < k, Starved E (p (upTo stream m)).result) ∧ ¬ Starved E (p (upTo stream k)).result ∧
      ∀ m ≥ k, (p (upTo stream m)).result = (p (upTo stream k)).result := by
  classical
  have hex : ∃ k, ¬ Starved E (p (upTo stream k)).result := ⟨n, h.enough _ (length_upTo stream n).ge⟩
  refine ⟨Nat.find hex, ⟨fun m hm => not_not.mp (Nat.find_min hex hm), Nat.find_spec hex, fun m hm => ?_⟩, ?_⟩
  · obtain ⟨s, hs⟩ := upTo_prefix stream hm
    rw [hs, h.settled _ s (Nat.find_spec hex)]
    rfl
  · rintro k ⟨hbelow, hk, -⟩
    rcases Nat.lt_trichotomy k (Nat.find hex) with hlt | heq | hgt
    · exact absurd hk (Nat.find_min hex hlt)
    · exact heq
    · exact absurd (hbelow _ hgt) (Nat.find_spec hex)

end Streams

end Reader

end Codec
