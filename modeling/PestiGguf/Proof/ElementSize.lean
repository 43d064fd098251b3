import PestiGguf.Proof.Elements
import PestiGguf.Proof.TypeErrors

/-!
# The table of element sizes

A type of the table `elementSize` is decoded from exactly that many bytes,
whatever they are (`scalar_of_length`). So an array of such a type is read
exactly where as many bytes are left as its elements have by the table, if the
type is one of an element at all, and the computed size of what is read is that
of the table, but for a `Bfloat16` (`typedArray_iff`).
-/

namespace PestiGguf

open Codec Codec.Reader Spec

/-- Where every value of a field is a scalar, any bytes of the field's width are. -/
theorem scalar_of_fixed {t : GgufValueType} {α : Type} {F : FixedWidth UInt8 α} {f : α → GgufKvValue}
    (h : ∀ a, Scalar t (f a) (F.enc a)) {c : List UInt8} (hc : c.length = F.width) : ∃ v, Scalar t v c := by
  have hs := h (F.dec c)
  rw [F.enc_dec c hc] at hs
  exact ⟨_, hs⟩

variable {t : GgufValueType} {size : UInt64} (ht : t.elementSize = some size)
include ht

theorem ne_string_of_elementSize : t ≠ .string := by
  rintro rfl
  cases ht

/-- The table is that of the grammar, but for the typed arrays. -/
theorem toNat_elementSize (h : noElement t = false) : size.toNat = scalarWidth t := by
  cases t with
  | string | array => cases ht
  | float64 | int8Array | uint8Array => cases h
  | _ => cases ht; rfl

/-- Any bytes of its size are an element. -/
theorem scalar_of_length (h : noElement t = false) {c : List UInt8} (hc : c.length = size.toNat) :
    ∃ v, Scalar t v c := by
  rw [toNat_elementSize ht h] at hc
  cases t with
  | uint8 => exact scalar_of_fixed Scalar.uint8 hc
  | int8 => exact scalar_of_fixed (F := byte) (fun v : UInt8 => Scalar.int8 v.toInt8) hc
  | bool => exact scalar_of_fixed Scalar.bool hc
  | uint16 => exact scalar_of_fixed Scalar.uint16 hc
  | int16 => exact scalar_of_fixed (F := leU16) (fun v : UInt16 => Scalar.int16 v.toInt16) hc
  | bfloat16 => exact scalar_of_fixed Scalar.bfloat16 hc
  | float16 => exact scalar_of_fixed Scalar.float16 hc
  | uint32 => exact scalar_of_fixed Scalar.uint32 hc
  | int32 => exact scalar_of_fixed (F := leU32) (fun v : UInt32 => Scalar.int32 v.toInt32) hc
  | float32 => exact scalar_of_fixed Scalar.float32 hc
  | uint64 => exact scalar_of_fixed Scalar.uint64 hc
  | int64 => exact scalar_of_fixed (F := leU64) (fun v : UInt64 => Scalar.int64 v.toInt64) hc
  | float64 | int8Array | uint8Array => cases h
  | string | array => cases ht

/-- The elements of an array, in any bytes of their size. -/
theorem elements_of_length (h : noElement t = false) (w : IntWidth) (n : Nat) {c : List UInt8}
    (hc : c.length = n * size.toNat) : ∃ arr, arr.length = n ∧ Many (Element w t) arr c := by
  refine Many.of_length (fun d hd => ?_) n hc
  obtain ⟨v, hv⟩ := scalar_of_length ht h hd
  refine ⟨v, (element_iff_scalar (ne_string_of_elementSize ht)).mpr ⟨?_, hv⟩⟩
  rintro rfl
  cases h

omit ht in
theorem array_of_returns {sw cw : IntWidth} {b r : List UInt8} {v : GgufKvValue}
    (h : (readKvValueGeneric .array sw cw).Returns b v r) : ∃ arr, v = .array arr := by
  -- the format of these widths
  obtain ⟨_, -, hp⟩ := (recognises_readKvValueGeneric .array ⟨.u32, .u32, sw, cw, .u32⟩ _ _ _).mp h
  cases hp with
  | scalar h => cases h
  | array _ _ _ => exact ⟨_, rfl⟩

/-- The elements of an array have their size by the table, and are none of a type
without a decoder. -/
theorem length_typedArray {w : IntWidth} {arr : List GgufKvValue} {c : List UInt8} (h : Many (Element w t) arr c) :
    (arr.length = 0 ∨ noElement t = false) ∧ c.length = arr.length * size.toNat := by
  cases hn : noElement t with
  | true =>
    obtain ⟨rfl, rfl⟩ := many_noElement hn h
    exact ⟨.inl rfl, (Nat.zero_mul _).symm⟩
  | false =>
    rw [length_elements h (ne_string_of_elementSize ht), toNat_elementSize ht hn]
    exact ⟨.inr rfl, rfl⟩

/-- An array of a type of the table, after its tag and count `n`. It is read where
its bytes by the table are left, and they are what is taken of the input. -/
theorem typedArray_iff (sw cw : IntWidth) (n : Nat) (hn : n < limit cw) (b : List UInt8) :
    ((∃ v r, (readKvValueGeneric .array sw cw).Returns (leU32.enc t.toU32 ++ (lenField cw n ++ b)) v r) ↔
      (n = 0 ∨ noElement t = false) ∧ n * size.toNat ≤ b.length) ∧
    ∀ v r, (readKvValueGeneric .array sw cw).Returns (leU32.enc t.toU32 ++ (lenField cw n ++ b)) v r →
      r = b.drop (n * size.toNat) ∧ (∃ arr, v = .array arr ∧ arr.length = n ∧ ∀ u ∈ arr, u.valueType = t) ∧
        v.rawByteSizeWithStrWidth sw.bytes =
          UInt64.ofNat (12 + n * (size.toNat + if t = .bfloat16 then 2 else 0)) := by
  constructor
  · constructor
    · rintro ⟨v, r, h⟩
      obtain ⟨arr, rfl⟩ := array_of_returns h
      obtain ⟨c, rfl, rfl, hM⟩ := (returns_array hn).mp h
      obtain ⟨helem, hl⟩ := length_typedArray ht hM
      exact ⟨helem, by rw [← hl, List.length_append]; exact Nat.le_add_right ..⟩
    · rintro ⟨helem, hle⟩
      have hc : (b.take (n * size.toNat)).length = n * size.toNat := List.length_take_of_le hle
      obtain ⟨arr, hl, hM⟩ : ∃ arr, arr.length = n ∧ Many (Element sw t) arr (b.take (n * size.toNat)) := by
        rcases helem with rfl | helem
        · rw [Nat.zero_mul, List.take_zero]
          exact ⟨[], rfl, .nil⟩
        · exact elements_of_length ht helem sw n hc
      exact ⟨_, _, (returns_array hn).mpr ⟨_, (List.take_append_drop _ b).symm, hl, hM⟩⟩
  · intro v r h
    obtain ⟨arr, rfl⟩ := array_of_returns h
    obtain ⟨c, rfl, rfl, hM⟩ := (returns_array hn).mp h
    have hl := (length_typedArray ht hM).2
    refine ⟨by rw [← hl, List.drop_left], ⟨arr, rfl, rfl, valueType_of_elements hM⟩, ?_⟩
    rw [rawByteSize_elements hM, bfloat16Count_elements hM, hl, Nat.mul_add]
    congr 1
    split <;> omega

omit ht in
/-- Three `Int16` of seven bytes. -/
theorem typedArray_sample : ∃ arr, (readKvValueGeneric .array .u64 .u64).Returns
    (leU32.enc (GgufValueType.toU32 .int16) ++ (lenField .u64 3 ++ [1, 2, 3, 4, 5, 6, 7])) (.array arr) [7] := by
  have hsize : GgufValueType.elementSize .int16 = some 2 := rfl
  have h := typedArray_iff hsize .u64 .u64 3 (by decide) [1, 2, 3, 4, 5, 6, 7]
  obtain ⟨v, r, hr⟩ := h.1.mpr ⟨.inr rfl, by decide⟩
  obtain ⟨rfl, ⟨arr, rfl, -⟩, -⟩ := h.2 v r hr
  exact ⟨arr, hr⟩

end PestiGguf
