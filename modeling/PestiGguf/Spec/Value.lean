import PestiGguf.Spec.Grammar

/-!
# Values at any depth

An array may hold arrays, which the grammar has no payload for. What a pair is
whose value has the declared type at every depth (`TypeConsistent`), and which
bytes are a complete encoding of such a value (`Encoding`).
-/

namespace PestiGguf.Spec

open Codec Codec.Reader

/-- The tag of an array: the type of its first element, and `Uint32` for none. -/
def elementTag (arr : List GgufKvValue) : GgufValueType :=
  (arr.head?.map (·.valueType)).getD .uint32

theorem elementTag_of_mem {arr : List GgufKvValue} {t : GgufValueType} (h : ∀ v ∈ arr, v.valueType = t)
    {v : GgufKvValue} (hv : v ∈ arr) : elementTag arr = t := by
  cases arr with
  | nil => cases hv
  | cons u us => exact h u List.mem_cons_self

/-- `P` holds of a value and, if it is an array, of every value in it, at any
depth. -/
inductive Everywhere (P : GgufKvValue → Prop) : GgufKvValue → Prop
  | leaf {v : GgufKvValue} (hv : ∀ arr, v ≠ .array arr) (h : P v) : Everywhere P v
  | array {arr : List GgufKvValue} (h : P (.array arr)) (helem : ∀ v ∈ arr, Everywhere P v) :
      Everywhere P (.array arr)

theorem Everywhere.here {P : GgufKvValue → Prop} {v : GgufKvValue} (h : Everywhere P v) : P v := by
  cases h with
  | leaf _ h => exact h
  | array h _ => exact h

theorem Everywhere.elements {P : GgufKvValue → Prop} {arr : List GgufKvValue} (h : Everywhere P (.array arr)) :
    ∀ v ∈ arr, Everywhere P v := by
  cases h with
  | leaf hv _ => exact absurd rfl (hv arr)
  | array _ helem => exact helem

/-- An array whose elements have the type of the first. -/
def OneType : GgufKvValue → Prop
  | .array arr => ∀ v ∈ arr, v.valueType = elementTag arr
  | _ => True

/-- A string of 1 byte to 1 MiB. -/
def StringOk : GgufKvValue → Prop
  | .string s => TextOk s
  | _ => True

/-- A length or count that fits its field. -/
def Fits (f : GgufWireFormat) : GgufKvValue → Prop
  | .string s => s.utf8ByteSize < limit f.stringWidth
  | .array arr => arr.length < limit f.arrayCountWidth
  | _ => True

/-- A pair of the type it is declared with, whose arrays hold one type each. -/
structure TypeConsistent (kv : GgufKvPair) : Prop where
  valueType : kv.valueType = kv.value.valueType
  oneType : Everywhere OneType kv.value

mutual

/-- The complete encodings of a value under a tag: one payload for a scalar or
a string, and for an array as many as its count field says, each under the tag
of the elements. -/
inductive Encoding (f : GgufWireFormat) : GgufValueType → GgufKvValue → List UInt8 → Prop
  | scalar {t : GgufValueType} {v : GgufKvValue} {c : List UInt8} (h : Scalar t v c) : Encoding f t v c
  | string {s : String} (hn : s.utf8ByteSize < limit f.stringWidth) :
      Encoding f .string (.string s) (lenField f.stringWidth s.utf8ByteSize ++ asBytes s)
  | array {tag : GgufValueType} {arr : List GgufKvValue} {c : List UInt8}
      (hn : arr.length < limit f.arrayCountWidth) (h : Encodings f tag arr c) :
      Encoding f .array (.array arr) (leU32.enc tag.toU32 ++ (lenField f.arrayCountWidth arr.length ++ c))

inductive Encodings (f : GgufWireFormat) : GgufValueType → List GgufKvValue → List UInt8 → Prop
  | nil {t : GgufValueType} : Encodings f t [] []
  | cons {t : GgufValueType} {v : GgufKvValue} {vs : List GgufKvValue} {c cs : List UInt8}
      (h : Encoding f t v c) (hs : Encodings f t vs cs) : Encodings f t (v :: vs) (c ++ cs)

end

end PestiGguf.Spec
