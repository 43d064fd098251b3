import PestiGguf.Framework.Emit
import PestiGguf.Impl.Parser

/-!
# The writer (`writer.rs`)

`GgufWriter.emit` is `GgufWriter::write` on the created file, and
`GgufWriter.write` runs it on a path: whatever `emit` wrote before an error
is what the file then holds. Writes to the device do not fail.
-/

namespace PestiGguf

open Codec

abbrev Output : Type → Type := Emit GgufError UInt8

/-! ## Little-endian writes -/

def writeU8 (val : UInt8) : Output Unit := .writeAll (byte.enc val)

def writeU16Le (val : UInt16) : Output Unit := .writeAll (leU16.enc val)

def writeU32Le (val : UInt32) : Output Unit := .writeAll (leU32.enc val)

def writeU64Le (val : UInt64) : Output Unit := .writeAll (leU64.enc val)

def writeF32Le (bits : UInt32) : Output Unit := .writeAll (leU32.enc bits)

def writeF64Le (bits : UInt64) : Output Unit := .writeAll (leU64.enc bits)

def writeI8 (val : Int8) : Output Unit := .writeAll (byte.enc val.toUInt8)

def writeI16Le (val : Int16) : Output Unit := .writeAll (leU16.enc val.toUInt16)

def writeI32Le (val : Int32) : Output Unit := .writeAll (leU32.enc val.toUInt32)

def writeI64Le (val : Int64) : Output Unit := .writeAll (leU64.enc val.toUInt64)

/-- `stream_position()`. -/
def streamPosition : Output UInt64 := do
  let pos ← Emit.position
  pure (UInt64.ofNat pos)

def writeInt (val : UInt64) (width : IntWidth) : Output Unit :=
  match width with
  | .u32 => writeU32Le val.toUInt32
  | .u64 => writeU64Le val

/-! ## KV pairs and tensor infos -/

/-- The scalar writer: a value of another type than declared is skipped. -/
def writeKvValueScalar (valueType : GgufValueType) (value : GgufKvValue) : Output Unit :=
  match valueType with
  | .int8 => match value with | .int8 v => writeI8 v | _ => pure ()
  | .uint16 => match value with | .uint16 v => writeU16Le v | _ => pure ()
  | .int16 => match value with | .int16 v => writeI16Le v | _ => pure ()
  | .uint32 => match value with | .uint32 v => writeU32Le v | _ => pure ()
  | .int32 => match value with | .int32 v => writeI32Le v | _ => pure ()
  | .uint64 => match value with | .uint64 v => writeU64Le v | _ => pure ()
  | .int64 => match value with | .int64 v => writeI64Le v | _ => pure ()
  | .float32 => match value with | .float32 v => writeF32Le v | _ => pure ()
  | .float64 => match value with | .float64 v => writeF64Le v | _ => pure ()
  | .bool => match value with | .bool v => writeU8 v.toUInt8 | _ => pure ()
  | .uint8 => match value with | .uint8 v => writeU8 v | _ => pure ()
  | .bfloat16 =>
    .fail (.quantizationNotSupported "Bfloat16 array element type not yet supported in writer")
  | .float16 =>
    .fail (.quantizationNotSupported "Float16 array element type not yet supported in writer")
  | .int8Array | .uint8Array =>
    .fail (.quantizationNotSupported "Int8Array/Uint8Array not yet supported in writer")
  | .string | .array =>
    .fail (.quantizationNotSupported
      "String/Array passed to scalar writer (should be handled by caller)")

mutual

def writeKvValue (valueType : GgufValueType) (value : GgufKvValue) (format : GgufWireFormat) :
    Output Unit :=
  match valueType with
  | .string =>
    match value with
    | .string s => do
      let bytes := asBytes s
      writeInt (UInt64.ofNat bytes.length) format.stringWidth
      .writeAll bytes
    | _ => pure ()
  | .array =>
    match value with
    | .array arr => do
      let elemType := (arr.head?.map (·.valueType)).getD .uint32
      writeU32Le elemType.toU32
      writeInt (UInt64.ofNat arr.length) format.arrayCountWidth
      writeKvElements elemType arr format
    | _ => pure ()
  | _ => writeKvValueScalar valueType value

/-- The loop over the elements of an array. -/
def writeKvElements (elemType : GgufValueType) (arr : List GgufKvValue) (format : GgufWireFormat) :
    Output Unit :=
  match arr with
  | [] => pure ()
  | elem :: arr => do
    writeKvValue elemType elem format
    writeKvElements elemType arr format

end

def writeKvPair (kv : GgufKvPair) (format : GgufWireFormat) : Output Unit := do
  let keyBytes := asBytes kv.key
  writeInt (UInt64.ofNat keyBytes.length) format.keyWidth
  .writeAll keyBytes
  writeU32Le kv.valueType.toU32
  writeKvValue kv.valueType kv.value format

def writeTensorInfo (tensor : GgufTensorInfo) (format : GgufWireFormat) : Output Unit := do
  let nameBytes := asBytes tensor.name
  writeInt (UInt64.ofNat nameBytes.length) format.tensorNameWidth
  .writeAll nameBytes
  writeU32Le tensor.ndims
  forM tensor.shape writeU64Le
  writeU32Le tensor.dtype
  writeU64Le tensor.offset

/-! ## The writer -/

structure GgufWriter where
  version : UInt32
  kvPairs : List GgufKvPair
  tensors : List GgufTensorInfo
  tensorData : List (String × List UInt8)
  alignment : UInt64

namespace GgufWriter

def new : GgufWriter :=
  { version := 3, kvPairs := [], tensors := [], tensorData := [], alignment := 256 }

def withVersion (self : GgufWriter) (version : UInt32) : GgufWriter := { self with version }

def withAlignment (self : GgufWriter) (alignment : UInt64) : GgufWriter := { self with alignment }

def addKv (self : GgufWriter) (kv : GgufKvPair) : GgufWriter :=
  { self with kvPairs := self.kvPairs ++ [kv] }

def addTensor (self : GgufWriter) (tensor : GgufTensorInfo) : GgufWriter :=
  { self with tensors := self.tensors ++ [tensor] }

def addTensorData (self : GgufWriter) (name : String) (data : List UInt8) : GgufWriter :=
  { self with tensorData := self.tensorData ++ [(name, data)] }

def wireFormat (self : GgufWriter) : GgufWireFormat :=
  match self.version with
  | 1 => .v1
  | 2 => .v2
  | _ => .v3

def calculateKvSectionSize (self : GgufWriter) : UInt64 :=
  (self.kvPairs.map (·.rawByteSizeForFormat self.wireFormat)).sum

def calculateTensorSectionSize (self : GgufWriter) : UInt64 :=
  (self.tensors.map (·.rawByteSizeForFormat self.wireFormat)).sum

/-- `align_up`. -/
def alignUp (pos alignment : UInt64) : UInt64 :=
  if alignment = 0 then pos
  else
    let remainder := pos % alignment
    if remainder = 0 then pos else pos + alignment - remainder

/-- `data_start`: the predicted size of the header, aligned. -/
def dataStart (self : GgufWriter) : UInt64 :=
  let countBytes := self.wireFormat.headerCountWidth.bytes
  let headerSize :=
    4 + 4 + countBytes + countBytes + self.calculateKvSectionSize + self.calculateTensorSectionSize
  alignUp headerSize self.alignment

/-- Zeros up to `target`, where the position is below it. -/
def padTo (target : UInt64) : Output Unit := do
  let currentPos ← streamPosition
  if currentPos < target then
    .writeAll (List.replicate (target - currentPos).toNat 0)
  else
    pure ()

/-- Parts 1 to 5 of `write`: magic, version, counts, KV pairs and tensor
metadata. -/
def emitHeader (self : GgufWriter) : Output Unit := do
  let format := self.wireFormat
  .writeAll ggufMagic
  writeU32Le self.version
  writeInt (UInt64.ofNat self.tensors.length) format.headerCountWidth
  writeInt (UInt64.ofNat self.kvPairs.length) format.headerCountWidth
  forM self.kvPairs (writeKvPair · format)
  forM self.tensors (writeTensorInfo · format)

/-- Part 7: data added under a name that is in no tensor. -/
def checkName (self : GgufWriter) (entry : String × List UInt8) : Output Unit :=
  if self.tensors.any (·.name == entry.1) then pure ()
  else .fail (.io s!"tensor data '{entry.1}' has no matching tensor metadata")

/-- A step of part 8: the padding before a tensor's data, then the data. -/
def writeTensorData (self : GgufWriter) (entry : String × List UInt8) : Output Unit := do
  let currentPos ← streamPosition
  padTo (alignUp currentPos self.alignment)
  match self.tensors.find? (·.name == entry.1) with
  | some tensor => do
    let expectedSize ← .ofExcept tensor.storedSize
    if entry.2.length ≠ expectedSize.toNat then
      .fail (.io s!"tensor '{entry.1}' data size mismatch: expected {expectedSize}, got {entry.2.length}")
    else
      .writeAll entry.2
  | none => .writeAll entry.2

/-- `write`, from the created file on. -/
def emit (self : GgufWriter) : Output Unit := do
  self.emitHeader
  padTo self.dataStart
  forM self.tensorData self.checkName
  forM self.tensorData self.writeTensorData

def write (self : GgufWriter) (path : String) (fs : FileSystem) : Except GgufError Unit × FileSystem :=
  match self.emit 0 with
  | (result, file) => (result, fun p => if p = path then some file else fs p)

end GgufWriter

/-! ## Rewriting a file -/

/-- The copy loop of `parse_and_rewrite`: the tensors' data, one after
another from where the reader stands. A buffer of 2^63 bytes or more, which panics,
is one that is not filled here. -/
def copyTensorData (writer : GgufWriter) : List GgufTensorInfo → List UInt8 →
    Except GgufError GgufWriter
  | [], _ => .ok writer
  | tensor :: tensors, rest =>
    match tensor.storedSize with
    | .error e => .error e
    | .ok dataSize =>
      if dataSize.toNat ≤ rest.length then
        copyTensorData (writer.addTensorData tensor.name (rest.take dataSize.toNat)) tensors
          (rest.drop dataSize.toNat)
      else .error (.binary .unexpectedEof)

def parseAndRewrite (inputPath outputPath : String) (fs : FileSystem) :
    Except GgufError Unit × FileSystem :=
  match parseGguf fs inputPath with
  | .error e => (.error e, fs)
  | .ok header =>
    let writer := (GgufWriter.new.withVersion header.version).withAlignment
      (header.dataAlignment.getD 256)
    let writer := header.kvPairs.foldl GgufWriter.addKv writer
    -- the path that was parsed, opened again
    let inputFile := (fs inputPath).getD []
    match seek inputFile header.dataSectionStart with
    | .error e => (.error (.binary e), fs)
    | .ok rest =>
      match copyTensorData writer header.tensors rest with
      | .error e => (.error e, fs)
      | .ok writer => writer.write outputPath fs

end PestiGguf
