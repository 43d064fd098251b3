import PestiGguf.Impl.Error
import Mathlib.Data.List.Basic
import Mathlib.Data.UInt

/-!
# The data model (`types.rs`)

Versions and their wire formats, KV values and their types, tensor dtypes
and tensor infos, and the sizes computed of them.

`usize` is 64 bits wide, and `UInt64` arithmetic wraps, as that of a release
build does. An `f32` or `f64` is its bit pattern.
-/

namespace PestiGguf

/-! ## Versions and wire formats -/

inductive IntWidth where
  | u32
  | u64
  deriving DecidableEq, Repr

/-- The widths of the integer fields of a version. -/
structure GgufWireFormat where
  headerCountWidth : IntWidth
  keyWidth : IntWidth
  stringWidth : IntWidth
  arrayCountWidth : IntWidth
  tensorNameWidth : IntWidth
  deriving DecidableEq, Repr

namespace GgufWireFormat

def v1 : GgufWireFormat := ⟨.u32, .u32, .u32, .u32, .u32⟩
def v2 : GgufWireFormat := ⟨.u64, .u32, .u32, .u64, .u32⟩
def v3 : GgufWireFormat := ⟨.u64, .u64, .u64, .u64, .u64⟩

end GgufWireFormat

inductive GgufVersion where
  | v1
  | v2
  | v3
  deriving DecidableEq, Repr

namespace GgufVersion

def fromU32 (v : UInt32) : Option GgufVersion :=
  match v with
  | 1 => some v1
  | 2 => some v2
  | 3 => some v3
  | _ => none

def toU32 : GgufVersion → UInt32
  | v1 => 1
  | v2 => 2
  | v3 => 3

def wireFormat : GgufVersion → GgufWireFormat
  | v1 => .v1
  | v2 => .v2
  | v3 => .v3

end GgufVersion

/-! ## KV values -/

inductive GgufValueType where
  | uint8
  | int8
  | uint16
  | int16
  | uint32
  | int32
  | float32
  | uint64
  | int64
  | bool
  | string
  | array
  | int8Array
  | uint8Array
  | float64
  | bfloat16
  | float16
  deriving DecidableEq, Repr

namespace GgufValueType

def fromU32 (v : UInt32) : Option GgufValueType :=
  match v with
  | 0 => some uint8
  | 1 => some int8
  | 2 => some uint16
  | 3 => some int16
  | 4 => some uint32
  | 5 => some int32
  | 6 => some float32
  | 7 => some bool
  | 8 => some string
  | 9 => some array
  | 10 => some uint64
  | 11 => some int64
  | 12 => some float64
  | 13 => some int8Array
  | 14 => some uint8Array
  | 15 => some bfloat16
  | 16 => some float16
  | _ => none

def toU32 : GgufValueType → UInt32
  | uint8 => 0
  | int8 => 1
  | uint16 => 2
  | int16 => 3
  | uint32 => 4
  | int32 => 5
  | float32 => 6
  | bool => 7
  | string => 8
  | array => 9
  | uint64 => 10
  | int64 => 11
  | float64 => 12
  | int8Array => 13
  | uint8Array => 14
  | bfloat16 => 15
  | float16 => 16

/-- `value_type as u32`: the place of the variant in the enum, which is not
its wire id (`toU32`). -/
def discriminant : GgufValueType → UInt32
  | uint8 => 0
  | int8 => 1
  | uint16 => 2
  | int16 => 3
  | uint32 => 4
  | int32 => 5
  | float32 => 6
  | uint64 => 7
  | int64 => 8
  | bool => 9
  | string => 10
  | array => 11
  | int8Array => 12
  | uint8Array => 13
  | float64 => 14
  | bfloat16 => 15
  | float16 => 16

/-- Bytes per element of a typed array. -/
def elementSize : GgufValueType → Option UInt64
  | uint8 | int8 | bool | int8Array | uint8Array => some 1
  | uint16 | int16 | bfloat16 | float16 => some 2
  | uint32 | int32 | float32 => some 4
  | uint64 | int64 | float64 => some 8
  | string | array => none

end GgufValueType

inductive GgufKvValue where
  | uint8 (v : UInt8)
  | int8 (v : Int8)
  | uint16 (v : UInt16)
  | int16 (v : Int16)
  | uint32 (v : UInt32)
  | int32 (v : Int32)
  | float32 (bits : UInt32)
  | uint64 (v : UInt64)
  | int64 (v : Int64)
  | bool (v : Bool)
  | string (s : String)
  | array (arr : List GgufKvValue)
  | int8Array (arr : List Int8)
  | uint8Array (arr : List UInt8)
  | float64 (bits : UInt64)
  | bfloat16 (bits : UInt32)
  | float16 (bits : UInt16)
  deriving Repr

namespace GgufKvValue

def valueType : GgufKvValue → GgufValueType
  | uint8 _ => .uint8
  | int8 _ => .int8
  | uint16 _ => .uint16
  | int16 _ => .int16
  | uint32 _ => .uint32
  | int32 _ => .int32
  | float32 _ => .float32
  | uint64 _ => .uint64
  | int64 _ => .int64
  | bool _ => .bool
  | string _ => .string
  | array _ => .array
  | int8Array _ => .int8Array
  | uint8Array _ => .uint8Array
  | float64 _ => .float64
  | bfloat16 _ => .bfloat16
  | float16 _ => .float16

/-- The serialized size of a value, with string lengths of `strLenBytes`
bytes. -/
def rawByteSizeWithStrWidth (self : GgufKvValue) (strLenBytes : UInt64) : UInt64 :=
  match self with
  | uint8 _ | int8 _ | bool _ => 1
  | uint16 _ | int16 _ | bfloat16 _ | float16 _ => 2
  | uint32 _ | int32 _ | float32 _ => 4
  | uint64 _ | int64 _ | float64 _ => 8
  | string s => strLenBytes + UInt64.ofNat s.utf8ByteSize
  | int8Array arr => 8 + UInt64.ofNat arr.length
  | uint8Array arr => 8 + UInt64.ofNat arr.length
  | array arr =>
    match arr.head?.map valueType with
    | some .uint8 | some .int8 | some .bool | some .int8Array | some .uint8Array =>
      4 + 8 + UInt64.ofNat arr.length * 1
    | some .uint16 | some .int16 | some .float16 => 4 + 8 + UInt64.ofNat arr.length * 2
    | some .uint32 | some .int32 | some .float32 => 4 + 8 + UInt64.ofNat arr.length * 4
    | some .uint64 | some .int64 => 4 + 8 + UInt64.ofNat arr.length * 8
    | some .string =>
      (arr.map fun v =>
        match v with
        | string s => strLenBytes + UInt64.ofNat s.utf8ByteSize
        | _ => 0).sum + 4 + 8
    | _ => 4 + 8 + UInt64.ofNat arr.length * 4

def asStr : GgufKvValue → Option String
  | string s => some s
  | _ => none

/-- `as_u32`: signed values are sign-extended or truncated, and a `Uint64` is
truncated. -/
def asU32 : GgufKvValue → Option UInt32
  | uint8 v => some v.toUInt32
  | int8 v => some v.toInt32.toUInt32
  | uint16 v => some v.toUInt32
  | int16 v => some v.toInt32.toUInt32
  | uint32 v => some v
  | int32 v => some v.toUInt32
  | uint64 v => some v.toUInt32
  | _ => none

/-- `as_u64`: signed values are sign-extended, so that a negative one becomes
a large one. -/
def asU64 : GgufKvValue → Option UInt64
  | uint8 v => some v.toUInt64
  | int8 v => some v.toInt64.toUInt64
  | uint16 v => some v.toUInt64
  | int16 v => some v.toInt64.toUInt64
  | uint32 v => some v.toUInt64
  | int32 v => some v.toInt64.toUInt64
  | uint64 v => some v
  | int64 v => some v.toUInt64
  | _ => none

end GgufKvValue

structure GgufKvPair where
  key : String
  valueType : GgufValueType
  value : GgufKvValue
  deriving Repr

/-- The bytes of an integer field. -/
def IntWidth.bytes : IntWidth → UInt64
  | .u32 => 4
  | .u64 => 8

def GgufKvPair.rawByteSizeForFormat (self : GgufKvPair) (format : GgufWireFormat) : UInt64 :=
  let keyBytes := UInt64.ofNat self.key.utf8ByteSize
  let keyLenBytes := format.keyWidth.bytes
  let strLenBytes := format.stringWidth.bytes
  let valueBytes := self.value.rawByteSizeWithStrWidth strLenBytes
  keyLenBytes + keyBytes + 4 + valueBytes

/-! ## Tensors -/

inductive GgufDtype where
  | F32 | F16 | Q4_0 | Q4_1 | Q5_0 | Q5_1 | Q8_0 | Q8_1 | Q2_K | Q3_K | Q4_K | Q5_K | Q6_K | Q8_K
  | IQ2_XXS | IQ2_XS | IQ3_XXS | IQ1_S | IQ4_NL | IQ3_S | IQ2_S | IQ4_XS
  | I8 | I16 | I32 | I64 | F64 | IQ1_M | BF16 | TQ1_0 | TQ2_0 | MXFP4 | NVFP4 | Q1_0 | Q2_0
  | unknown (v : UInt32)
  deriving DecidableEq, Repr

namespace GgufDtype

def fromU32 (v : UInt32) : GgufDtype :=
  match v with
  | 0 => F32
  | 1 => F16
  | 2 => Q4_0
  | 3 => Q4_1
  | 6 => Q5_0
  | 7 => Q5_1
  | 8 => Q8_0
  | 9 => Q8_1
  | 10 => Q2_K
  | 11 => Q3_K
  | 12 => Q4_K
  | 13 => Q5_K
  | 14 => Q6_K
  | 15 => Q8_K
  | 16 => IQ2_XXS
  | 17 => IQ2_XS
  | 18 => IQ3_XXS
  | 19 => IQ1_S
  | 20 => IQ4_NL
  | 21 => IQ3_S
  | 22 => IQ2_S
  | 23 => IQ4_XS
  | 24 => I8
  | 25 => I16
  | 26 => I32
  | 27 => I64
  | 28 => F64
  | 29 => IQ1_M
  | 30 => BF16
  | 34 => TQ1_0
  | 35 => TQ2_0
  | 39 => MXFP4
  | 40 => NVFP4
  | 41 => Q1_0
  | 42 => Q2_0
  | v => unknown v

def toU32 : GgufDtype → UInt32
  | F32 => 0
  | F16 => 1
  | Q4_0 => 2
  | Q4_1 => 3
  | Q5_0 => 6
  | Q5_1 => 7
  | Q8_0 => 8
  | Q8_1 => 9
  | Q2_K => 10
  | Q3_K => 11
  | Q4_K => 12
  | Q5_K => 13
  | Q6_K => 14
  | Q8_K => 15
  | IQ2_XXS => 16
  | IQ2_XS => 17
  | IQ3_XXS => 18
  | IQ1_S => 19
  | IQ4_NL => 20
  | IQ3_S => 21
  | IQ2_S => 22
  | IQ4_XS => 23
  | I8 => 24
  | I16 => 25
  | I32 => 26
  | I64 => 27
  | F64 => 28
  | IQ1_M => 29
  | BF16 => 30
  | TQ1_0 => 34
  | TQ2_0 => 35
  | MXFP4 => 39
  | NVFP4 => 40
  | Q1_0 => 41
  | Q2_0 => 42
  | unknown v => v

def isQuantized : GgufDtype → Bool
  | Q4_0 | Q4_1 | Q5_0 | Q5_1 | Q8_0 | Q8_1 | Q2_K | Q3_K | Q4_K | Q5_K | Q6_K | Q8_K | IQ2_XXS | IQ2_XS
  | IQ3_XXS | IQ1_S | IQ4_NL | IQ3_S | IQ2_S | IQ4_XS | IQ1_M | TQ1_0 | TQ2_0 | MXFP4 | NVFP4 | Q1_0
  | Q2_0 => true
  | _ => false

/-- Elements per block. -/
def blockSize : GgufDtype → Option UInt64
  | F32 | F16 | BF16 | I8 | I16 | I32 | I64 | F64 => some 1
  | Q4_0 | Q4_1 | Q5_0 | Q5_1 | Q8_0 | Q8_1 | IQ4_NL | MXFP4 | Q1_0 => some 32
  | NVFP4 => some 64
  | Q2_0 => some 64
  | Q2_K | Q3_K | Q4_K | Q5_K | Q6_K | Q8_K | IQ2_XXS | IQ2_XS | IQ3_XXS | IQ1_S | IQ3_S | IQ2_S
  | IQ4_XS | IQ1_M | TQ1_0 | TQ2_0 => some 256
  | unknown _ => none

def bytesPerBlock : GgufDtype → Option UInt64
  | F32 => some 4
  | F16 | BF16 | I16 => some 2
  | I8 => some 1
  | I32 => some 4
  | F64 => some 8
  | I64 => some 8
  | Q4_0 => some 18
  | Q4_1 => some 20
  | Q5_0 => some 22
  | Q5_1 => some 24
  | Q8_0 => some 34
  | Q8_1 => some 36
  | Q2_K => some 84
  | Q3_K => some 110
  | Q4_K => some 144
  | Q5_K => some 176
  | Q6_K => some 210
  | Q8_K => some 292
  | IQ2_XXS => some 66
  | IQ2_XS => some 74
  | IQ3_XXS => some 98
  | IQ1_S => some 50
  | IQ4_NL => some 18
  | IQ3_S => some 110
  | IQ2_S => some 82
  | IQ4_XS => some 136
  | IQ1_M => some 56
  | TQ1_0 => some 54
  | TQ2_0 => some 66
  | MXFP4 => some 17
  | NVFP4 => some 36
  | Q1_0 => some 18
  | Q2_0 => some 18
  | unknown _ => none

/-- Bytes per scalar, for the dtypes that are not quantized. -/
def bytesPerElement : GgufDtype → Option UInt64
  | F32 => some 4
  | F16 | BF16 | I16 => some 2
  | I8 => some 1
  | I32 => some 4
  | F64 => some 8
  | I64 => some 8
  | _ => none

def name : GgufDtype → String
  | F32 => "F32"
  | F16 => "F16"
  | Q4_0 => "Q4_0"
  | Q4_1 => "Q4_1"
  | Q5_0 => "Q5_0"
  | Q5_1 => "Q5_1"
  | Q8_0 => "Q8_0"
  | Q8_1 => "Q8_1"
  | Q2_K => "Q2_K"
  | Q3_K => "Q3_K"
  | Q4_K => "Q4_K"
  | Q5_K => "Q5_K"
  | Q6_K => "Q6_K"
  | Q8_K => "Q8_K"
  | IQ2_XXS => "IQ2_XXS"
  | IQ2_XS => "IQ2_XS"
  | IQ3_XXS => "IQ3_XXS"
  | IQ1_S => "IQ1_S"
  | IQ4_NL => "IQ4_NL"
  | IQ3_S => "IQ3_S"
  | IQ2_S => "IQ2_S"
  | IQ4_XS => "IQ4_XS"
  | I8 => "I8"
  | I16 => "I16"
  | I32 => "I32"
  | I64 => "I64"
  | F64 => "F64"
  | IQ1_M => "IQ1_M"
  | BF16 => "BF16"
  | TQ1_0 => "TQ1_0"
  | TQ2_0 => "TQ2_0"
  | MXFP4 => "MXFP4"
  | NVFP4 => "NVFP4"
  | Q1_0 => "Q1_0"
  | Q2_0 => "Q2_0"
  | unknown _ => "unknown"

end GgufDtype

structure GgufTensorInfo where
  name : String
  shape : List UInt64
  offset : UInt64
  dtype : UInt32
  deriving DecidableEq, Repr

/-- `checked_mul`. -/
def checkedMul (a b : UInt64) : Option UInt64 :=
  if a.toNat * b.toNat < 2 ^ 64 then some (a * b) else none

/-- `checked_add`. -/
def checkedAdd (a b : UInt64) : Option UInt64 :=
  if a.toNat + b.toNat < 2 ^ 64 then some (a + b) else none

/-- `saturating_add`. -/
def saturatingAdd (a b : UInt64) : UInt64 := (checkedAdd a b).getD (UInt64.ofNat (2 ^ 64 - 1))

namespace GgufTensorInfo

/-- The product of the dimensions, wrapped. -/
def elementCount (self : GgufTensorInfo) : UInt64 := self.shape.foldl (· * ·) 1

/-- The product of the dimensions, unless a product on the way overflows. -/
def elementCountChecked (self : GgufTensorInfo) : Option UInt64 := self.shape.foldlM checkedMul 1

def ndims (self : GgufTensorInfo) : UInt32 := UInt32.ofNat self.shape.length

/-- The size of the tensor's data on disk. -/
def storedSize (self : GgufTensorInfo) : Except GgufError UInt64 :=
  let n := self.elementCount
  let dtype := GgufDtype.fromU32 self.dtype
  match dtype.blockSize, dtype.bytesPerBlock with
  | some blockElems, some blockBytes =>
    if n % blockElems ≠ 0 then
      .error (.invalidTensor
        s!"tensor '{self.name}' has {n} elements, not a multiple of the {blockElems}-element block for dtype {self.dtype} ({dtype.name})")
    else
      let blocks := n / blockElems
      match checkedMul blocks blockBytes with
      | some size => .ok size
      | none => .error (.invalidTensor s!"tensor '{self.name}' stored size overflow")
  | _, _ => .error (.invalidTensor s!"dtype {self.dtype} ({dtype.name}) has no known block size")

def rawByteSizeForFormat (self : GgufTensorInfo) (format : GgufWireFormat) : UInt64 :=
  let nameLenBytes := format.tensorNameWidth.bytes
  nameLenBytes + UInt64.ofNat self.name.utf8ByteSize + 4 + UInt64.ofNat self.shape.length * 8 + 4 + 8

end GgufTensorInfo

structure GgufHeader where
  version : UInt32
  kvPairs : List GgufKvPair
  tensors : List GgufTensorInfo
  dataAlignment : Option UInt64
  dataSectionStart : UInt64
  deriving Repr

namespace GgufHeader

def getKvStr (self : GgufHeader) (key : String) : Option String :=
  (self.kvPairs.find? (·.key == key)).bind (·.value.asStr)

def getKvU32 (self : GgufHeader) (key : String) : Option UInt32 :=
  (self.kvPairs.find? (·.key == key)).bind (·.value.asU32)

def architecture (self : GgufHeader) : Option String :=
  (self.getKvStr "general.architecture").or (self.getKvStr "arch")

/-- The lookups the source repeats for each hyper-parameter: the key of
llama.cpp, the short one, then the one of the architecture. -/
def hyperParameter (self : GgufHeader) (llamaKey shortKey archSuffix : String) : Option UInt32 :=
  (self.getKvU32 llamaKey).or ((self.getKvU32 shortKey).or
    (self.architecture.bind fun arch => self.getKvU32 (arch ++ archSuffix)))

def contextLength (self : GgufHeader) : Option UInt32 :=
  self.hyperParameter "llama.context_length" "n_ctx" ".context_length"

def embeddingLength (self : GgufHeader) : Option UInt32 :=
  self.hyperParameter "llama.embedding_length" "n_embd" ".embedding_length"

def blockCount (self : GgufHeader) : Option UInt32 :=
  self.hyperParameter "llama.block_count" "n_layer" ".block_count"

def hasTensor (self : GgufHeader) (name : String) : Bool := self.tensors.any (·.name == name)

/-- Four bytes for each element of each tensor, whatever its dtype; products and
sum wrap. -/
def totalTensorBytesF32 (self : GgufHeader) : UInt64 := (self.tensors.map (·.elementCount * 4)).sum

end GgufHeader

end PestiGguf
