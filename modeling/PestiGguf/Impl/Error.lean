import Mathlib.Data.List.Basic

/-!
# Strings and errors (`error.rs`)

Strings are Lean's, valid UTF-8 byte strings as Rust's are. `asBytes` and
`fromUtf8` are `str::as_bytes` and `String::from_utf8`; `fromUtf8Lossy` is
`String::from_utf8_lossy`, which an error message uses.
-/

namespace PestiGguf

/-- `s.as_bytes()`. -/
def asBytes (s : String) : List UInt8 := s.toByteArray.data.toList

/-- `String::from_utf8(bytes)`. -/
def fromUtf8 (bytes : List UInt8) : Option String := String.fromUTF8? ⟨bytes.toArray⟩

/-- The length of the character that starts with `b`, or 0. -/
def utf8CharWidth (b : UInt8) : Nat :=
  if b < 0x80 then 1
  else if 0xC2 ≤ b ∧ b ≤ 0xDF then 2
  else if 0xE0 ≤ b ∧ b ≤ 0xEF then 3
  else if 0xF0 ≤ b ∧ b ≤ 0xF4 then 4
  else 0

/-- Whether `b₁` may follow the first byte `b₀` of a character. -/
def utf8SecondByte (b₀ b₁ : UInt8) : Bool :=
  if b₀ = 0xE0 then 0xA0 ≤ b₁ ∧ b₁ ≤ 0xBF
  else if b₀ = 0xED then 0x80 ≤ b₁ ∧ b₁ ≤ 0x9F
  else if b₀ = 0xF0 then 0x90 ≤ b₁ ∧ b₁ ≤ 0xBF
  else if b₀ = 0xF4 then 0x80 ≤ b₁ ∧ b₁ ≤ 0x8F
  else 0x80 ≤ b₁ ∧ b₁ ≤ 0xBF

/-- The length of the longest start of a character at the front, at least
1. -/
def utf8Chunk : List UInt8 → Nat
  | b₀ :: b₁ :: bs =>
    if 2 ≤ utf8CharWidth b₀ ∧ utf8SecondByte b₀ b₁ then
      2 + ((bs.take (utf8CharWidth b₀ - 2)).takeWhile fun b => 0x80 ≤ b ∧ b ≤ 0xBF).length
    else 1
  | _ => 1

/-- `String::from_utf8_lossy`, for at most `n` bytes: every start of a
character that is not completed is replaced by U+FFFD. -/
def fromUtf8Lossy : Nat → List UInt8 → String
  | 0, _ => ""
  | _, [] => ""
  | n + 1, bs =>
    (fromUtf8 (bs.take (utf8Chunk bs))).getD "\uFFFD" ++ fromUtf8Lossy n (bs.drop (utf8Chunk bs))

example : fromUtf8Lossy 4 [0x47, 0xC3, 0xA9, 0xFF] = "Gé\uFFFD" := by decide

/-- The I/O errors that do not come from the device: a read past the end, and
a seek to an offset above `i64::MAX`. -/
inductive IoError where
  | unexpectedEof
  | invalidInput
  deriving DecidableEq, Repr

/-- `GgufError`, less the variants nothing raises. `utf8` holds the bytes of
the `FromUtf8Error`. -/
inductive GgufError where
  | io (message : String)
  | invalidMagic (magic : String)
  | unsupportedVersion (version : UInt32)
  | invalidValueType (raw : UInt32)
  | utf8 (bytes : List UInt8)
  | binary (error : IoError)
  | unexpectedEof (expected actual : UInt64)
  | tensorNameLengthOutOfRange (len : UInt64)
  | invalidTensor (message : String)
  | quantizationNotSupported (message : String)
  | alignmentOutOfRange (alignment : UInt32)
  | unsupportedArrayElementType (raw : UInt32)
  | invalidMetadata (message : String)
  deriving DecidableEq, Repr

/-! ## Bytes of strings -/

@[simp] theorem length_asBytes (s : String) : (asBytes s).length = s.utf8ByteSize := rfl

theorem asBytes_inj {s t : String} : asBytes s = asBytes t ↔ s = t := by
  refine ⟨fun h => String.toByteArray_inj.mp (ByteArray.ext (Array.toList_inj.mp h)), fun h => h ▸ rfl⟩

@[simp] theorem fromUtf8_asBytes (s : String) : fromUtf8 (asBytes s) = some s := by
  have h : (⟨s.toByteArray.data⟩ : ByteArray).IsValidUTF8 := s.isValidUTF8
  simp only [fromUtf8, asBytes, Array.toArray_toList, String.fromUTF8?]
  exact dif_pos h

theorem fromUtf8_eq_some {bs : List UInt8} {s : String} : fromUtf8 bs = some s ↔ bs = asBytes s := by
  refine ⟨fun h => ?_, fun h => h ▸ fromUtf8_asBytes s⟩
  simp only [fromUtf8, String.fromUTF8?] at h
  split at h
  · cases h
    rfl
  · cases h

end PestiGguf
