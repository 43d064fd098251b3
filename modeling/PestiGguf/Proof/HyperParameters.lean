import PestiGguf.Spec.Grammar
import Mathlib.Data.List.Basic

/-!
# Hyper-parameters

`context_length`, `embedding_length` and `block_count` look a number up under
three keys, and cast what they find to a `u32`. What they return is the value
they take modulo 2^32 (`findSome_getKvU32`), so it is a number of the header
exactly where that value is one of a `u32` (`accessors_faithful_iff`).
-/

namespace PestiGguf

open Spec

namespace Spec

/-- The value of an integer other than an `Int64`, for which `as_u32` has no
case. -/
def narrowValue : GgufKvValue → Option Int
  | .int64 _ => none
  | v => integerValue v

/-- The keys a hyper-parameter is looked up under, in this order. -/
def consultedKeys (h : GgufHeader) (llamaKey shortKey archSuffix : String) : List String :=
  [llamaKey, shortKey] ++ h.architecture.toList.map (· ++ archSuffix)

/-- The value of the first of these keys whose first pair has one. -/
def takenValue (h : GgufHeader) (keys : List String) : Option Int :=
  keys.findSome? fun key => (h.kvPairs.find? (·.key == key)).bind (narrowValue ·.value)

/-- A number that is returned is in the header, under one of the keys, and the
value that was taken is not returned as another number. -/
structure FaithfulNumber (h : GgufHeader) (keys : List String) (returned : Option UInt32) : Prop where
  present : ∀ n, returned = some n →
    ∃ kv ∈ h.kvPairs, kv.key ∈ keys ∧ integerValue kv.value = some (n.toNat : Int)
  unaltered : ∀ z, takenValue h keys = some z → z < 0 ∨ 2 ^ 32 ≤ z → ∀ n, returned = some n → (n.toNat : Int) = z

/-- If a value is taken, it is one of a `u32`. -/
def TakesU32 (h : GgufHeader) (keys : List String) : Prop :=
  ∀ z, takenValue h keys = some z → 0 ≤ z ∧ z < 2 ^ 32

end Spec

/-! ## Casts -/

theorem toNat_toUInt32_mod (x : Int32) : (x.toUInt32.toNat : Int) = x.toInt % 2 ^ 32 := by
  have h : x.toInt = if 2 * x.toUInt32.toNat < 2 ^ 32 then (x.toUInt32.toNat : Int)
      else x.toUInt32.toNat - 2 ^ 32 := BitVec.toInt_eq_toNat_cond _
  have hx := x.toUInt32.toNat_lt
  split at h <;> omega

/-- `as_u32` returns the value modulo 2^32. -/
theorem asU32_eq (v : GgufKvValue) : (narrowValue v = none ∧ v.asU32 = none) ∨
    ∃ z n, narrowValue v = some z ∧ v.asU32 = some n ∧ (n.toNat : Int) = z % 2 ^ 32 := by
  have unsigned (n : Nat) (h : n < 2 ^ 32) : (n : Int) = (n : Int) % 2 ^ 32 := by omega
  cases v with
  | uint8 v => exact .inr ⟨_, _, rfl, rfl, by simpa using unsigned v.toNat (by have := v.toNat_lt; omega)⟩
  | uint16 v => exact .inr ⟨_, _, rfl, rfl, by simpa using unsigned v.toNat (by have := v.toNat_lt; omega)⟩
  | uint32 v => exact .inr ⟨_, _, rfl, rfl, unsigned v.toNat v.toNat_lt⟩
  | uint64 v => exact .inr ⟨_, _, rfl, rfl, by rw [UInt64.toNat_toUInt32]; rfl⟩
  | int8 v => exact .inr ⟨_, _, rfl, rfl, Int8.toInt_toInt32 v ▸ toNat_toUInt32_mod v.toInt32⟩
  | int16 v => exact .inr ⟨_, _, rfl, rfl, Int16.toInt_toInt32 v ▸ toNat_toUInt32_mod v.toInt32⟩
  | int32 v => exact .inr ⟨_, _, rfl, rfl, toNat_toUInt32_mod v⟩
  | _ => exact .inl ⟨rfl, rfl⟩

theorem integerValue_of_narrowValue {v : GgufKvValue} {z : Int} (h : narrowValue v = some z) :
    integerValue v = some z := by
  cases v <;> first | exact h | cases h

/-! ## Lookups -/

theorem findSome_eq_or {α β : Type} (f : α → Option β) (a b : α) (o : Option α) :
    ([a, b] ++ o.toList).findSome? f = (f a).or ((f b).or (o.bind f)) := by
  cases ha : f a <;> cases hb : f b <;> cases o <;> simp [ha, hb]

theorem hyperParameter_eq_findSome (h : GgufHeader) (llamaKey shortKey archSuffix : String) :
    h.hyperParameter llamaKey shortKey archSuffix =
      (consultedKeys h llamaKey shortKey archSuffix).findSome? h.getKvU32 := by
  rw [consultedKeys, ← Option.toList_map, findSome_eq_or, GgufHeader.hyperParameter, Option.bind_map]
  rfl

/-- A lookup of a list of keys returns the value it takes, modulo 2^32. -/
theorem findSome_getKvU32 (h : GgufHeader) (keys : List String) :
    (takenValue h keys = none ∧ keys.findSome? h.getKvU32 = none) ∨
      ∃ z n, takenValue h keys = some z ∧ keys.findSome? h.getKvU32 = some n ∧ (n.toNat : Int) = z % 2 ^ 32 := by
  induction keys with
  | nil => exact .inl ⟨rfl, rfl⟩
  | cons key keys ih =>
    simp only [takenValue, List.findSome?_cons, GgufHeader.getKvU32] at ih ⊢
    cases h.kvPairs.find? (·.key == key) with
    | none => exact ih
    | some kv =>
      rcases asU32_eq kv.value with ⟨hz, hn⟩ | ⟨z, n, hz, hn, he⟩
      · simp only [Option.bind_some, hz, hn]
        exact ih
      · simp only [Option.bind_some, hz, hn]
        exact .inr ⟨z, n, rfl, rfl, he⟩

/-- The value that is taken is one of the header, under one of the keys. -/
theorem takenValue_mem {h : GgufHeader} {keys : List String} {z : Int} (hz : takenValue h keys = some z) :
    ∃ kv ∈ h.kvPairs, kv.key ∈ keys ∧ integerValue kv.value = some z := by
  obtain ⟨key, hkey, hfind⟩ := List.exists_of_findSome?_eq_some hz
  obtain ⟨kv, hkv, hv⟩ := Option.bind_eq_some_iff.mp hfind
  have he : kv.key = key := by simpa using List.find?_some hkv
  exact ⟨kv, List.mem_of_find?_eq_some hkv, he ▸ hkey, integerValue_of_narrowValue hv⟩

/-! ## Accessors -/

theorem faithful_iff (h : GgufHeader) (keys : List String) :
    FaithfulNumber h keys (keys.findSome? h.getKvU32) ↔ TakesU32 h keys := by
  rcases findSome_getKvU32 h keys with ⟨hz, hn⟩ | ⟨z, n, hz, hn, he⟩
  · rw [hn]
    refine iff_of_true ⟨nofun, nofun⟩ fun z h => ?_
    rw [hz] at h
    cases h
  · have hlt := n.toNat_lt
    rw [hn]
    constructor
    · intro hf w hw
      rw [hz] at hw
      obtain rfl := Option.some.inj hw
      by_contra hr
      have := hf.unaltered z hz (by omega) n rfl
      omega
    · intro hr
      obtain ⟨h0, h32⟩ := hr z hz
      have hzn : (n.toNat : Int) = z := by omega
      refine ⟨?_, fun w hw hout => ?_⟩
      · rintro _ ⟨⟩
        rw [hzn]
        exact takenValue_mem hz
      · rw [hz] at hw
        obtain rfl := Option.some.inj hw
        omega

/-- The accessors return the numbers of a header exactly where the values they
take are those of a `u32`: a negative value, and a `Uint64` from 2^32 on, is
returned as another number. -/
theorem accessors_faithful_iff (h : GgufHeader) :
    (FaithfulNumber h (consultedKeys h "llama.context_length" "n_ctx" ".context_length") h.contextLength ↔
        TakesU32 h (consultedKeys h "llama.context_length" "n_ctx" ".context_length")) ∧
      (FaithfulNumber h (consultedKeys h "llama.embedding_length" "n_embd" ".embedding_length") h.embeddingLength ↔
        TakesU32 h (consultedKeys h "llama.embedding_length" "n_embd" ".embedding_length")) ∧
      (FaithfulNumber h (consultedKeys h "llama.block_count" "n_layer" ".block_count") h.blockCount ↔
        TakesU32 h (consultedKeys h "llama.block_count" "n_layer" ".block_count")) := by
  simp only [GgufHeader.contextLength, GgufHeader.embeddingLength, GgufHeader.blockCount,
    hyperParameter_eq_findSome]
  exact ⟨faithful_iff h _, faithful_iff h _, faithful_iff h _⟩

/-- A `Uint64` of 2^32 + 7 is returned as 7. -/
theorem contextLength_truncates : ¬ ∀ h : GgufHeader,
    FaithfulNumber h (consultedKeys h "llama.context_length" "n_ctx" ".context_length") h.contextLength := by
  intro h
  obtain ⟨kv, hkv, -, hv⟩ :=
    (h ⟨3, [⟨"llama.context_length", .uint64, .uint64 4294967303⟩], [], some 32, 128⟩).present 7 (by decide)
  obtain rfl := List.mem_singleton.mp hkv
  exact absurd hv (by decide)

end PestiGguf
