import PestiGguf.Framework.Emit
import PestiGguf.Framework.Layout

/-!
# Two writers side by side

`Twins p D x y` says that `x` and `y`, started at `p`, end alike and append as many
symbols, and that two symbols at one place are equal or related by `D` there. Two
loops over padded blocks of the same lengths are twins whose symbols differ only
inside the blocks (`Twins.blocks`), also where they fail.
-/

namespace Codec

/-- At `q` are `a` and `b`, of two lists laid out from `p` on. -/
def Aligned {σ : Type} (p : Nat) (ds es : List σ) (q : Nat) (a b : σ) : Prop :=
  ∃ j, q = p + j ∧ ds[j]? = some a ∧ es[j]? = some b

/-- At `q` are `a` and `b`, of two blocks at the same place. -/
def InBlock {σ : Type} (pad : Nat → Nat) (p : Nat) (ds es : List (List σ)) (q : Nat) (a b : σ) : Prop :=
  ∃ k d e, ds[k]? = some d ∧ es[k]? = some e ∧ Aligned (place pad p (ds.map List.length) k) d e q a b

section
variable {σ : Type} {pad : Nat → Nat} {p q : Nat} {d e : List σ} {ds es : List (List σ)} {a b : σ}

theorem InBlock.head (h : Aligned (p + pad p) d e q a b) : InBlock pad p (d :: ds) (e :: es) q a b :=
  ⟨0, d, e, rfl, rfl, h⟩

theorem InBlock.tail (h : InBlock pad (p + pad p + d.length) ds es q a b) : InBlock pad p (d :: ds) (e :: es) q a b := by
  obtain ⟨k, d', e', hd, he, hq⟩ := h
  exact ⟨k + 1, d', e', hd, he, hq⟩

end

namespace Emit

variable {ε σ α β : Type}

/-- `x` and `y`, started at `p`, have the same result and append as many symbols,
which are equal or related at each place. -/
structure Twins (p : Nat) (D : Nat → σ → σ → Prop) (x y : Emit ε σ α) : Prop where
  result : (x p).1 = (y p).1
  length : (x p).2.length = (y p).2.length
  symbols : ∀ j a b, (x p).2[j]? = some a → (y p).2[j]? = some b → a = b ∨ D (p + j) a b

namespace Twins

variable {p : Nat} {D D' : Nat → σ → σ → Prop} {x y : Emit ε σ α}

theorem refl (p : Nat) (D : Nat → σ → σ → Prop) (x : Emit ε σ α) : Twins p D x x where
  result := rfl
  length := rfl
  symbols _ _ _ ha hb := .inl (Option.some.inj (ha.symm.trans hb))

theorem mono (h : Twins p D x y) (hD : ∀ q a b, D q a b → D' q a b) : Twins p D' x y :=
  ⟨h.result, h.length, fun j a b ha hb => (h.symbols j a b ha hb).imp_right (hD _ a b)⟩

theorem writeAll {ds es : List σ} (h : ds.length = es.length) :
    Twins p (Aligned p ds es) (writeAll ds : Emit ε σ Unit) (writeAll es) where
  result := rfl
  length := h
  symbols j _ _ ha hb := .inr ⟨j, rfl, ha, hb⟩

theorem bind {f g : α → Emit ε σ β} (h : Twins p D x y)
    (hf : ∀ a o, x.Emits p a o → Twins (p + o.length) D (f a) (g a)) : Twins p D (x >>= f) (y >>= g) := by
  obtain ⟨hr, hl, hs⟩ := h
  show Twins p D (x.bind f) (y.bind g)
  rcases hx : x p with ⟨r, o⟩
  rcases hy : y p with ⟨r', o'⟩
  rw [hx, hy] at hr hl hs
  obtain rfl : r = r' := hr
  replace hl : o.length = o'.length := hl
  replace hs : ∀ j a b, o[j]? = some a → o'[j]? = some b → a = b ∨ D (p + j) a b := hs
  cases r with
  | error e =>
    have hbx : x.bind f p = (.error e, o) := by rw [Emit.bind, hx]
    have hby : y.bind g p = (.error e, o') := by rw [Emit.bind, hy]
    exact ⟨by rw [hbx, hby], by rw [hbx, hby]; exact hl, by rw [hbx, hby]; exact hs⟩
  | ok a =>
    obtain ⟨hr', hl', hs'⟩ := hf a o hx
    have hbx : x.bind f p = ((f a (p + o.length)).1, o ++ (f a (p + o.length)).2) := by rw [Emit.bind, hx]
    have hby : y.bind g p = ((g a (p + o.length)).1, o' ++ (g a (p + o.length)).2) := by rw [Emit.bind, hy, hl]
    refine ⟨by rw [hbx, hby]; exact hr', ?_, ?_⟩
    · rw [hbx, hby, List.length_append, List.length_append, hl', hl]
    · rw [hbx, hby]
      intro j c d hc hd
      rcases Nat.lt_or_ge j o.length with hj | hj
      · rw [List.getElem?_append_left hj] at hc
        rw [List.getElem?_append_left (hl ▸ hj)] at hd
        exact hs j c d hc hd
      · rw [List.getElem?_append_right hj] at hc
        rw [List.getElem?_append_right (hl ▸ hj), ← hl] at hd
        have := hs' _ c d hc hd
        rwa [Nat.add_assoc, Nat.add_sub_cancel' hj] at this

/-- Two loops whose steps write a padding and a block, of the same lengths for equal
keys. -/
theorem blocks {κ : Type} {f : α → Emit ε σ Unit} {key : α → κ} {pad : Nat → Nat} {block : α → List σ}
    (hstep : ∀ a b, key a = key b → ∀ p, Twins p (Aligned (p + pad p) (block a) (block b)) (f a) (f b)) :
    ∀ {as bs : List α} (p : Nat), as.map key = bs.map key →
      (∀ a ∈ as, ∀ p o, (f a).Emits p () o → o.length = pad p + (block a).length) →
      Twins p (InBlock pad p (as.map block) (bs.map block)) (forM as f) (forM bs f)
  | [], [], p, _, _ => refl p _ _
  | a :: as, b :: bs, p, h, hlen => by
    obtain ⟨hab, has⟩ := List.cons.inj h
    rw [List.forM_cons, List.forM_cons, List.map_cons, List.map_cons]
    refine ((hstep a b hab p).mono fun _ _ _ => InBlock.head).bind fun _ o ho => ?_
    rw [hlen a List.mem_cons_self p o ho, ← Nat.add_assoc]
    exact (blocks hstep _ has fun c hc => hlen c (List.mem_cons_of_mem _ hc)).mono fun _ _ _ => InBlock.tail

end Twins

end Emit

end Codec
