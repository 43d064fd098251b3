import PestiGguf.Impl.Parser

/-!
# The grammar of a GGUF header

What each field and record of a header is made of, as relations between
values and the byte strings that denote them: `Text` (length-prefixed
strings), `Scalar`, `Element` and `Payload` (KV values), `KvRecord`,
`TensorRecord`, and `HeaderWord`, a whole header. The widths of the integer
fields are those of a wire format.
-/

namespace PestiGguf.Spec

open Codec Codec.Reader

/-- One more than the greatest number a field of this width holds. -/
def limit : IntWidth → Nat
  | .u32 => 2 ^ 32
  | .u64 => 2 ^ 64

/-- A count or length field. -/
def lenField (w : IntWidth) (n : Nat) : List UInt8 :=
  match w with
  | .u32 => leU32.enc (UInt32.ofNat n)
  | .u64 => leU64.enc (UInt64.ofNat n)

/-- A string of 1 byte to 1 MiB. -/
def TextOk (s : String) : Prop := 1 ≤ s.utf8ByteSize ∧ s.utf8ByteSize ≤ 2 ^ 20

instance (s : String) : Decidable (TextOk s) := inferInstanceAs (Decidable (_ ∧ _))

/-- Such a string, after its length. -/
def Text (w : IntWidth) (s : String) (c : List UInt8) : Prop :=
  TextOk s ∧ c = lenField w s.utf8ByteSize ++ asBytes s

/-- The payloads of the scalar types. Any byte is a `Bool`, and a `Bfloat16`
is the high half of the bits of an `f32`. -/
inductive Scalar : GgufValueType → GgufKvValue → List UInt8 → Prop
  | uint8 (v : UInt8) : Scalar .uint8 (.uint8 v) (byte.enc v)
  | int8 (v : Int8) : Scalar .int8 (.int8 v) (byte.enc v.toUInt8)
  | uint16 (v : UInt16) : Scalar .uint16 (.uint16 v) (leU16.enc v)
  | int16 (v : Int16) : Scalar .int16 (.int16 v) (leU16.enc v.toUInt16)
  | uint32 (v : UInt32) : Scalar .uint32 (.uint32 v) (leU32.enc v)
  | int32 (v : Int32) : Scalar .int32 (.int32 v) (leU32.enc v.toUInt32)
  | float32 (bits : UInt32) : Scalar .float32 (.float32 bits) (leU32.enc bits)
  | uint64 (v : UInt64) : Scalar .uint64 (.uint64 v) (leU64.enc v)
  | int64 (v : Int64) : Scalar .int64 (.int64 v) (leU64.enc v.toUInt64)
  | bool (b : UInt8) : Scalar .bool (.bool (b != 0)) (byte.enc b)
  | float64 (bits : UInt64) : Scalar .float64 (.float64 bits) (leU64.enc bits)
  | bfloat16 (v : UInt16) : Scalar .bfloat16 (.bfloat16 (v.toUInt32 <<< 16)) (leU16.enc v)
  | float16 (bits : UInt16) : Scalar .float16 (.float16 bits) (leU16.enc bits)

/-- The payloads of the elements of an array: scalars other than `Float64`,
and strings. -/
inductive Element (w : IntWidth) : GgufValueType → GgufKvValue → List UInt8 → Prop
  | scalar {t : GgufValueType} {v : GgufKvValue} {c : List UInt8} (ht : t ≠ .float64)
      (h : Scalar t v c) : Element w t v c
  | string {s : String} {c : List UInt8} (h : Text w s c) : Element w .string (.string s) c

/-- The payloads of a KV pair. An array is the tag of its elements, their
count and their payloads; any tag will do for none. -/
inductive Payload (f : GgufWireFormat) : GgufValueType → GgufKvValue → List UInt8 → Prop
  | scalar {t : GgufValueType} {v : GgufKvValue} {c : List UInt8} (h : Scalar t v c) : Payload f t v c
  | string {s : String} {c : List UInt8} (h : Text f.stringWidth s c) :
      Payload f .string (.string s) c
  | array (tag : GgufValueType) {arr : List GgufKvValue} {c : List UInt8}
      (hn : arr.length < limit f.arrayCountWidth) (h : Many (Element f.stringWidth tag) arr c) :
      Payload f .array (.array arr)
        (leU32.enc tag.toU32 ++ (lenField f.arrayCountWidth arr.length ++ c))

/-- The count of an array fits its field. -/
def CountFits (f : GgufWireFormat) (v : GgufKvValue) : Prop :=
  ∀ arr, v = .array arr → arr.length < limit f.arrayCountWidth

/-- A key, the tag of the value's type, and its payload. -/
def KvRecord (f : GgufWireFormat) (kv : GgufKvPair) (c : List UInt8) : Prop :=
  ∃ k p, Text f.keyWidth kv.key k ∧ Payload f kv.valueType kv.value p ∧
    c = k ++ (leU32.enc kv.valueType.toU32 ++ p)

/-- A name, at most 8 dimensions after their number, the dtype and the
offset. -/
def TensorRecord (f : GgufWireFormat) (t : GgufTensorInfo) (c : List UInt8) : Prop :=
  ∃ n, Text f.tensorNameWidth t.name n ∧ t.shape.length ≤ 8 ∧
    c = n ++ (leU32.enc t.ndims ++
      (t.shape.flatMap leU64.enc ++ (leU32.enc t.dtype ++ leU64.enc t.offset)))

/-! ## The alignment a header declares -/

/-- The mathematical value of an integer. -/
def integerValue : GgufKvValue → Option Int
  | .uint8 v => some v.toNat
  | .int8 v => some v.toInt
  | .uint16 v => some v.toNat
  | .int16 v => some v.toInt
  | .uint32 v => some v.toNat
  | .int32 v => some v.toInt
  | .uint64 v => some v.toNat
  | .int64 v => some v.toInt
  | _ => none

/-- The first `general.alignment`, if it is an integer. -/
def declaredAlignment (kvs : List GgufKvPair) : Option Int :=
  (kvs.find? (·.key == "general.alignment")).bind fun kv => integerValue kv.value

/-- A declared alignment is a power of two from 1 to 65536. -/
def AlignmentOk (kvs : List GgufKvPair) : Prop :=
  ∀ z ∈ declaredAlignment kvs, ∃ k ≤ 16, z = 2 ^ k

/-- The alignment of the data section: the declared one, or 32. -/
def alignmentOf (kvs : List GgufKvPair) : Nat := ((declaredAlignment kvs).map Int.toNat).getD 32

/-! ## Headers -/

/-- The number of a version. -/
def versionNumber : GgufVersion → UInt32
  | .v1 => 1
  | .v2 => 2
  | .v3 => 3

/-- The header with this content. -/
def headerOf (v : GgufVersion) (kvs : List GgufKvPair) (ts : List GgufTensorInfo) : GgufHeader where
  version := versionNumber v
  kvPairs := kvs
  tensors := ts
  dataAlignment := some (UInt64.ofNat (alignmentOf kvs))
  dataSectionStart := computeDataSectionStart v.wireFormat kvs ts (some (UInt64.ofNat (alignmentOf kvs)))

/-- The fixed fields of a header, before its records. -/
def preamble (v : GgufVersion) (tensorCount kvCount : Nat) : List UInt8 :=
  ggufMagic ++ (leU32.enc (versionNumber v) ++
    (lenField v.wireFormat.headerCountWidth tensorCount ++
      lenField v.wireFormat.headerCountWidth kvCount))

/-- The header with content `kvs` and `ts` is denoted by `c`. A version 1
header counts its tensors, and none is read. -/
inductive HeaderWord : GgufHeader → List UInt8 → Prop
  | v1 (n : UInt32) {kvs : List GgufKvPair} {k : List UInt8} (hk : kvs.length ≤ 10000000)
      (ha : AlignmentOk kvs) (h : Many (KvRecord .v1) kvs k) :
      HeaderWord (headerOf .v1 kvs []) (preamble .v1 n.toNat kvs.length ++ k)
  | v23 {v : GgufVersion} (hv : v ≠ .v1) {kvs : List GgufKvPair} {ts : List GgufTensorInfo}
      {k t : List UInt8} (ht : ts.length ≤ 10000000) (hk : kvs.length ≤ 10000000)
      (ha : AlignmentOk kvs) (h : Many (KvRecord v.wireFormat) kvs k)
      (h' : Many (TensorRecord v.wireFormat) ts t) :
      HeaderWord (headerOf v kvs ts) (preamble v ts.length kvs.length ++ (k ++ t))

end PestiGguf.Spec
