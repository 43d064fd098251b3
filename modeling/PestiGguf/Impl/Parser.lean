import PestiGguf.Framework.Reader
import PestiGguf.Impl.Types

/-!
# The parser (`parser.rs`)

The readers of the parser, under the source's names. Allocations succeed; a
run's trace records what it asks for (`Vec::with_capacity`, `vec![0u8; len]`)
and each record it completes. In the source, an array count of 2^58 or more and a
buffer of 2^63 bytes or more panic, where the run here goes on.

A file system is what each path holds, and no two paths are names of one file.
Reads fail only at the end of a file.
-/

namespace PestiGguf

open Codec

/-- The records the parser's loops decode. -/
inductive Record where
  | kvPair
  | arrayElement
  | tensorInfo
  | dimension
  deriving DecidableEq, Repr

inductive Event where
  | withCapacity (count : UInt64)
  | zeroed (len : UInt64)
  | decoded (record : Record)
  deriving DecidableEq, Repr

abbrev Input : Type → Type := Reader GgufError Event UInt8

abbrev FileSystem : Type := String → Option (List UInt8)

/-! ## Little-endian reads -/

def readU8 : Input UInt8 := .fixed byte (.binary .unexpectedEof)

def readU16Le : Input UInt16 := .fixed leU16 (.binary .unexpectedEof)

def readU32Le : Input UInt32 := .fixed leU32 (.binary .unexpectedEof)

def readU64Le : Input UInt64 := .fixed leU64 (.binary .unexpectedEof)

def readF32Le : Input UInt32 := do
  let bits ← readU32Le
  pure bits

def readF64Le : Input UInt64 := do
  let bits ← readU64Le
  pure bits

def readI8 : Input Int8 := do
  let b ← readU8
  pure b.toInt8

def readI16Le : Input Int16 := do
  let bytes ← readU16Le
  pure bytes.toInt16

def readI32Le : Input Int32 := do
  let bytes ← readU32Le
  pure bytes.toInt32

def readI64Le : Input Int64 := do
  let bytes ← readU64Le
  pure bytes.toInt64

/-! ## Fields -/

def ggufMagic : List UInt8 := [0x47, 0x47, 0x55, 0x46]

def ggufDefaultAlignment : UInt32 := 32

def ggufMaxKeyLength : UInt64 := 1024 * 1024

def ggufMaxTensorNameLength : UInt64 := 1024 * 1024

def ggufMaxCount : UInt64 := 10000000

def maxAlignment : UInt64 := 65536

def readInt (width : IntWidth) : Input UInt64 :=
  match width with
  | .u32 => do
    let v ← readU32Le
    pure v.toUInt64
  | .u64 => readU64Le

/-- A length; every `u64` is a `usize`. -/
def readLength (width : IntWidth) : Input UInt64 := do
  let val ← readInt width
  if val = 0 ∨ ggufMaxKeyLength < val then
    .fail (.invalidMetadata s!"length {val} is invalid (must be > 0 and ≤ {ggufMaxKeyLength})")
  else
    pure val

def readBytes (len : UInt64) : Input (List UInt8) := do
  .event (.zeroed len)
  .exact len.toNat (.unexpectedEof len 0)

/-- A length, that many bytes, and the string they are: the lines the source
repeats for keys, string values and string elements. -/
def readString (width : IntWidth) : Input String := do
  let len ← readLength width
  let bytes ← readBytes len
  match fromUtf8 bytes with
  | none => .fail (.utf8 bytes)
  | some s => pure s

/-! ## KV pairs -/

def readKvScalar (valueType : GgufValueType) : Input GgufKvValue :=
  match valueType with
  | .int8 => do pure (.int8 (← readI8))
  | .uint16 => do pure (.uint16 (← readU16Le))
  | .int16 => do pure (.int16 (← readI16Le))
  | .uint32 => do pure (.uint32 (← readU32Le))
  | .int32 => do pure (.int32 (← readI32Le))
  | .uint64 => do pure (.uint64 (← readU64Le))
  | .int64 => do pure (.int64 (← readI64Le))
  | .float32 => do pure (.float32 (← readF32Le))
  | .float64 => do pure (.float64 (← readF64Le))
  | .bool => do pure (.bool ((← readU8) != 0))
  | .bfloat16 => do
    let val ← readU16Le
    pure (.bfloat16 (val.toUInt32 <<< 16))
  | .float16 => do pure (.float16 (← readU16Le))
  | .uint8 => do pure (.uint8 (← readU8))
  | _ => .fail (.invalidValueType valueType.discriminant)

def readKvArrayElement (elemType : GgufValueType) (elemTypeRaw : UInt32) (stringWidth : IntWidth) :
    Input GgufKvValue :=
  match elemType with
  | .string => do pure (.string (← readString stringWidth))
  | .uint32 => do pure (.uint32 (← readU32Le))
  | .int8 => do pure (.int8 (← readI8))
  | .uint16 => do pure (.uint16 (← readU16Le))
  | .int16 => do pure (.int16 (← readI16Le))
  | .int32 => do pure (.int32 (← readI32Le))
  | .uint64 => do pure (.uint64 (← readU64Le))
  | .int64 => do pure (.int64 (← readI64Le))
  | .float32 => do pure (.float32 (← readF32Le))
  | .bool => do pure (.bool ((← readU8) != 0))
  | .bfloat16 => do
    let val ← readU16Le
    pure (.bfloat16 (val.toUInt32 <<< 16))
  | .float16 => do pure (.float16 (← readU16Le))
  | .uint8 => do pure (.uint8 (← readU8))
  | .int8Array | .uint8Array => .fail (.unsupportedArrayElementType elemTypeRaw)
  | _ => .fail (.unsupportedArrayElementType elemTypeRaw)

/-- A step of a loop that pushes what `p` reads. -/
def pushed {α : Type} (record : Record) (p : Input α) : Input α := do
  let a ← p
  .event (.decoded record)
  pure a

def readKvValueGeneric (valueType : GgufValueType) (stringWidth arrayCountWidth : IntWidth) :
    Input GgufKvValue :=
  match valueType with
  | .string => do pure (.string (← readString stringWidth))
  | .array => do
    let elemTypeRaw ← readU32Le
    match GgufValueType.fromU32 elemTypeRaw with
    | none => .fail (.invalidValueType elemTypeRaw)
    | some elemType => do
      let elemCount ← readInt arrayCountWidth
      .event (.withCapacity elemCount)
      let elements ←
        (pushed .arrayElement (readKvArrayElement elemType elemTypeRaw stringWidth)).many elemCount.toNat
      pure (.array elements)
  | _ => readKvScalar valueType

def readKvPair (format : GgufWireFormat) : Input GgufKvPair := do
  let key ← readString format.keyWidth
  let valueTypeRaw ← readU32Le
  match GgufValueType.fromU32 valueTypeRaw with
  | none => .fail (.invalidValueType valueTypeRaw)
  | some valueType => do
    let value ← readKvValueGeneric valueType format.stringWidth format.arrayCountWidth
    pure { key, valueType, value }

/-! ## Tensor infos -/

def readTensorInfo (format : GgufWireFormat) : Input GgufTensorInfo := do
  let nameLen ← readLength format.tensorNameWidth
  if ggufMaxTensorNameLength < nameLen then
    .fail (.tensorNameLengthOutOfRange nameLen)
  else do
    let nameBytes ← readBytes nameLen
    match fromUtf8 nameBytes with
    | none => .fail (.utf8 nameBytes)
    | some name => do
      let nDims ← readU32Le
      if 8 < nDims then
        .fail (.invalidTensor "Too many tensor dimensions (max 8)")
      else do
        let shape ← (pushed .dimension readU64Le).many nDims.toNat
        let dtype ← readU32Le
        let offset ← readU64Le
        pure { name, shape, offset, dtype }

/-! ## The header -/

def readAlignmentFromKv (kvPairs : List GgufKvPair) : Except GgufError UInt64 :=
  let alignment := ((kvPairs.find? (·.key == "general.alignment")).bind (·.value.asU64)).getD
    ggufDefaultAlignment.toUInt64
  if alignment = 0 then
    .error (.alignmentOutOfRange 0)
  else if alignment &&& (alignment - 1) ≠ 0 then
    .error (.alignmentOutOfRange alignment.toUInt32)
  else if maxAlignment < alignment then
    .error (.alignmentOutOfRange alignment.toUInt32)
  else
    .ok alignment

def computeDataSectionStart (format : GgufWireFormat) (kvPairs : List GgufKvPair)
    (tensors : List GgufTensorInfo) (dataAlignment : Option UInt64) : UInt64 :=
  let headerBase : UInt64 := 4 + 4 +
    match format.headerCountWidth with
    | .u32 => 8
    | .u64 => 16
  let kvSize := (kvPairs.map (·.rawByteSizeForFormat format)).sum
  let tensorSize := (tensors.map (·.rawByteSizeForFormat format)).sum
  let dataSection := ((checkedAdd headerBase kvSize).bind (checkedAdd · tensorSize)).getD
    (UInt64.ofNat (2 ^ 64 - 1))
  match dataAlignment with
  | none => dataSection
  | some alignment =>
    if 0 < alignment then
      let remainder := dataSection % alignment
      if remainder ≠ 0 then saturatingAdd dataSection (alignment - remainder) else dataSection
    else dataSection

/-- `parse_gguf_reader`; version 1 counts its tensors and reads none. -/
def parseGgufReader : Input GgufHeader := do
  let magicBytes ← .exact 4 (.binary .unexpectedEof)
  if magicBytes ≠ ggufMagic then
    .fail (.invalidMagic (fromUtf8Lossy 4 magicBytes))
  else do
    let version ← readU32Le
    match GgufVersion.fromU32 version with
    | none => .fail (.unsupportedVersion version)
    | some v =>
      let format := v.wireFormat
      if version = 1 then do
        let _tensorCount ← readU32Le
        let kvCount ← readInt format.headerCountWidth
        if ggufMaxCount < kvCount then
          .fail (.invalidMetadata s!"KV pair count {kvCount} exceeds maximum {ggufMaxCount}")
        else do
          .event (.withCapacity kvCount)
          let kvPairs ← (pushed .kvPair (readKvPair format)).many kvCount.toNat
          let alignment ← .ofExcept (readAlignmentFromKv kvPairs)
          let dataSectionStart := computeDataSectionStart format kvPairs [] (some alignment)
          pure { version := 1, kvPairs, tensors := [], dataAlignment := some alignment,
                 dataSectionStart }
      else do
        let tensorCount ← readInt format.headerCountWidth
        let kvCount ← readInt format.headerCountWidth
        if ggufMaxCount < kvCount ∨ ggufMaxCount < tensorCount then
          .fail (.invalidMetadata s!"Counts exceed maximum: kv={kvCount}, tensors={tensorCount}")
        else do
          .event (.withCapacity kvCount)
          let kvPairs ← (pushed .kvPair (readKvPair format)).many kvCount.toNat
          .event (.withCapacity tensorCount)
          let tensors ← (pushed .tensorInfo (readTensorInfo format)).many tensorCount.toNat
          let alignment ← .ofExcept (readAlignmentFromKv kvPairs)
          let dataSectionStart := computeDataSectionStart format kvPairs tensors (some alignment)
          pure { version, kvPairs, tensors, dataAlignment := some alignment, dataSectionStart }

/-! ## Tensor bytes from a reader -/

def tensorBytesForDtype (dtype : UInt32) (elementCount : UInt64) : UInt64 :=
  let info : GgufTensorInfo := { name := "", shape := [elementCount], offset := 0, dtype }
  match info.storedSize with
  | .ok size => size
  | .error _ => 0

def extractTensorBytes (dtype : UInt32) (elementCount _offset _dataSectionStart : UInt64) :
    Input (List UInt8) := do
  let size := tensorBytesForDtype dtype elementCount
  .event (.zeroed size)
  .exact size.toNat (.binary .unexpectedEof)

def extractTensorBytesFrom (dtype : UInt32) (elementCount _offset _dataSectionStart : UInt64) :
    Input (List UInt8) := do
  let size := tensorBytesForDtype dtype elementCount
  .event (.zeroed size)
  .exact size.toNat (.binary .unexpectedEof)

/-! ## Files -/

def parseGguf (fs : FileSystem) (path : String) : Except GgufError GgufHeader :=
  match fs path with
  | none => .error (.io s!"open {path}: No such file or directory (os error 2)")
  | some file => (parseGgufReader file).result

/-- `seek(SeekFrom::Start(offset))`, which takes offsets up to `i64::MAX`,
past the end too: the rest of the file. -/
def seek (file : List UInt8) (offset : UInt64) : Except IoError (List UInt8) :=
  if offset.toNat < 2 ^ 63 then .ok (file.drop offset.toNat) else .error .invalidInput

def extractTensorBytesFromPath (fs : FileSystem) (path : String) (fileOffset storedSize : UInt64) :
    Except GgufError (List UInt8) :=
  match fs path with
  | none => .error (.io "open gguf: No such file or directory (os error 2)")
  | some file =>
    match seek file fileOffset with
    | .error _ => .error (.io "seek: Invalid argument (os error 22)")
    | .ok rest =>
      if storedSize.toNat ≤ rest.length then .ok (rest.take storedSize.toNat)
      else .error (.io "read: failed to fill whole buffer")

end PestiGguf
