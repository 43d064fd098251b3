import PestiGguf.Framework.Layout
import PestiGguf.Impl.Writer
import PestiGguf.Spec.Grammar

/-!
# The content of a writer

What the parser can read back of a writer's content (`WithinLimits`), which
values the writer refuses (`halfFloats`), and what writing a parsed payload
changes of it (`normalisePayload`).
-/

namespace PestiGguf.Spec

open Codec Codec.Reader

/-- The writer built with the content of a header, and no tensor data. -/
def writerOf (h : GgufHeader) : GgufWriter :=
  h.tensors.foldl .addTensor (h.kvPairs.foldl .addKv
    ((GgufWriter.new.withVersion h.version).withAlignment (h.dataAlignment.getD 256)))

/-- The fields before its records, as a writer of any version writes them. -/
def fixedFields (w : GgufWriter) : List UInt8 :=
  ggufMagic ++ (leU32.enc w.version ++ (lenField w.wireFormat.headerCountWidth w.tensors.length ++
    lenField w.wireFormat.headerCountWidth w.kvPairs.length))

/-! ## Limits -/

/-- The types of an array's elements. -/
def elementTypes : List GgufValueType :=
  [.uint8, .int8, .uint16, .int16, .uint32, .int32, .uint64, .int64, .float32, .bool, .string]

/-- A scalar of an element type or `Float64`, a string, or an array of one
element type. A `Vec` has fewer than 2^64 elements. -/
def ValueOk : GgufKvValue → Prop
  | .string s => TextOk s
  | .array arr => arr.length < 2 ^ 64 ∧
    ∃ t ∈ elementTypes, ∀ v ∈ arr, v.valueType = t ∧ ∀ s, v = .string s → TextOk s
  | .int8Array _ | .uint8Array _ | .bfloat16 _ | .float16 _ => False
  | _ => True

/-- A KV pair the parser can read back. -/
structure KvOk (kv : GgufKvPair) : Prop where
  key : TextOk kv.key
  valueType : kv.valueType = kv.value.valueType
  value : ValueOk kv.value

/-- A tensor info the parser can read back. -/
structure TensorOk (t : GgufTensorInfo) : Prop where
  name : TextOk t.name
  dims : t.shape.length ≤ 8

/-- The limits of the parser. -/
structure WithinLimits (w : GgufWriter) : Prop where
  kvCount : w.kvPairs.length ≤ 10 ^ 7
  tensorCount : w.tensors.length ≤ 10 ^ 7
  kv : ∀ kv ∈ w.kvPairs, KvOk kv
  tensor : ∀ t ∈ w.tensors, TensorOk t
  alignment : AlignmentOk w.kvPairs

/-- A value the parser has a payload for, half-precision floats included. -/
def ValueReadable : GgufKvValue → Prop
  | .string s => TextOk s
  | .array arr => arr.length < 2 ^ 64 ∧
    ∃ t ∈ elementTypes ++ [.bfloat16, .float16], ∀ v ∈ arr, v.valueType = t ∧ ∀ s, v = .string s → TextOk s
  | .int8Array _ | .uint8Array _ => False
  | _ => True

/-- KV pairs and tensors inside the parser's limits. -/
structure ContentReadable (kvs : List GgufKvPair) (ts : List GgufTensorInfo) : Prop where
  kvCount : kvs.length ≤ 10000000
  tensorCount : ts.length ≤ 10000000
  key : ∀ kv ∈ kvs, TextOk kv.key
  valueType : ∀ kv ∈ kvs, kv.valueType = kv.value.valueType
  value : ∀ kv ∈ kvs, ValueReadable kv.value
  tensor : ∀ t ∈ ts, TensorOk t
  alignment : AlignmentOk kvs

/-- Tensor data the writer accepts: it has the stored size of the first
tensor of its name. -/
def EntryOk (w : GgufWriter) (entry : String × List UInt8) : Prop :=
  ∃ t s, w.tensors.find? (·.name == entry.1) = some t ∧ t.storedSize = .ok s ∧ entry.2.length = s.toNat

/-! ## Content the fields can hold -/

/-- Strings and counts that fit their fields, and arrays of one type. -/
def ValueFits (f : GgufWireFormat) : GgufKvValue → Prop
  | .string s => s.utf8ByteSize < limit f.stringWidth
  | .array arr => arr.length < limit f.arrayCountWidth ∧
    ∃ t, ∀ v ∈ arr, v.valueType = t ∧ ∀ s, v = .string s → s.utf8ByteSize < limit f.stringWidth
  | _ => True

/-- A KV pair of the type it is declared with, that fits its fields. -/
structure KvFits (f : GgufWireFormat) (kv : GgufKvPair) : Prop where
  key : kv.key.utf8ByteSize < limit f.keyWidth
  valueType : kv.valueType = kv.value.valueType
  value : ValueFits f kv.value

/-- A tensor info that fits its fields. -/
structure TensorFits (f : GgufWireFormat) (t : GgufTensorInfo) : Prop where
  name : t.name.utf8ByteSize < limit f.tensorNameWidth
  dims : t.shape.length < 2 ^ 32

/-- The computed size of a header. -/
def headerSize (f : GgufWireFormat) (kvs : List GgufKvPair) (ts : List GgufTensorInfo) : Nat :=
  8 + 2 * f.headerCountWidth.bytes.toNat + (kvs.map fun kv => (kv.rawByteSizeForFormat f).toNat).sum +
    (ts.map fun t => (t.rawByteSizeForFormat f).toNat).sum

/-- A writer whose content is of the declared types and fits the fields. -/
structure Faithful (w : GgufWriter) : Prop where
  kvCount : w.kvPairs.length < limit w.wireFormat.headerCountWidth
  tensorCount : w.tensors.length < limit w.wireFormat.headerCountWidth
  kv : ∀ kv ∈ w.kvPairs, KvFits w.wireFormat kv
  tensor : ∀ t ∈ w.tensors, TensorFits w.wireFormat t
  size : headerSize w.wireFormat w.kvPairs w.tensors < 2 ^ 63

mutual

/-- Whether the writer has an encoding for a value declared with a type. A
value of another type than declared is skipped, so only the types count. -/
def writable (t : GgufValueType) (v : GgufKvValue) : Bool :=
  match t with
  | .array =>
    match v with
    | .array arr => writableElements ((arr.head?.map (·.valueType)).getD .uint32) arr
    | _ => true
  | .bfloat16 | .float16 | .int8Array | .uint8Array => false
  | _ => true

def writableElements (elemType : GgufValueType) (arr : List GgufKvValue) : Bool :=
  match arr with
  | [] => true
  | v :: arr => writable elemType v && writableElements elemType arr

end

/-- A value whose tag, and those of its elements, are in 0..=12. -/
def standardTags (v : GgufKvValue) : Bool :=
  decide (v.valueType.toU32 ≤ 12) &&
    match v with
    | .array arr => arr.all fun u => decide (u.valueType.toU32 ≤ 12)
    | _ => true

/-! ## The data section -/

/-- The stored size of a tensor; 0 if it has none. -/
def storedBytes (t : GgufTensorInfo) : Nat :=
  match t.storedSize with
  | .ok size => size.toNat
  | .error _ => 0

/-- The sum of the stored sizes before tensor `i`, each padded to `a`. -/
def paddedOffset (a : Nat) (ts : List GgufTensorInfo) (i : Nat) : Nat :=
  ((ts.take i).map fun t => roundUp a (storedBytes t)).sum

/-- How many zeros are written at `p` for a target. -/
def paddingLength (target : UInt64) (p : Nat) : Nat :=
  if UInt64.ofNat p < target then (target - UInt64.ofNat p).toNat else 0

/-- The padding before data that would start at `p`. -/
def padBefore (w : GgufWriter) (p : Nat) : Nat :=
  paddingLength (GgufWriter.alignUp (UInt64.ofNat p) w.alignment) p

/-- The position after a header and its padding. -/
def dataOrigin (w : GgufWriter) (header : List UInt8) : Nat :=
  header.length + paddingLength w.dataStart header.length

/-- The position the writer writes entry `k` of the tensor data at: the
entries come one after another, each after its padding. -/
def entryPlace (w : GgufWriter) (k : Nat) : Nat :=
  place (padBefore w) (dataOrigin w (w.emitHeader 0).2) ((w.tensorData.map (·.2)).map List.length) k

/-- A tensor of the table whose offset is the place of entry `k`, which was
added under its name. Of tensors of one name, the writer takes the first. -/
structure Placed (w : GgufWriter) (t : GgufTensorInfo) (k : Nat) : Prop where
  first : w.tensors.find? (·.name == t.name) = some t
  entry : ∃ e, w.tensorData[k]? = some e ∧ e.1 = t.name
  offset : w.dataStart.toNat + t.offset.toNat = entryPlace w k

/-- The data of every tensor, in table order, under its name. -/
def DataInOrder (w : GgufWriter) : Prop :=
  List.Forall₂ (fun t (entry : String × List UInt8) =>
    entry.1 = t.name ∧ t.storedSize = .ok (UInt64.ofNat entry.2.length) ∧ entry.2.length < 2 ^ 64)
    w.tensors w.tensorData

/-- A file with the data of every tensor of its header, in table order from
the data section on, each padded and at the offset of its tensor. -/
structure DataInFile (file : List UInt8) (h : GgufHeader) : Prop where
  names : (h.tensors.map (·.name)).Nodup
  stored : ∀ t ∈ h.tensors, ∃ size, t.storedSize = .ok size
  offsets : ∀ (i : Nat) (t : GgufTensorInfo), h.tensors[i]? = some t →
    t.offset.toNat = paddedOffset (alignmentOf h.kvPairs) h.tensors i
  present : h.dataSectionStart.toNat +
    paddedOffset (alignmentOf h.kvPairs) h.tensors h.tensors.length ≤ file.length

/-! ## Copied data -/

/-- The writer of `parse_and_rewrite`: with the pairs of a header and data, and
no tensors. -/
def rewriterOf (h : GgufHeader) (data : List (String × List UInt8)) : GgufWriter where
  version := h.version
  kvPairs := h.kvPairs
  tensors := []
  tensorData := data
  alignment := h.dataAlignment.getD 256

/-- The data `parse_and_rewrite` copies of a file, from its data section on. -/
def copiedData : List GgufTensorInfo → List UInt8 → List (String × List UInt8)
  | [], _ => []
  | t :: ts, rest => (t.name, rest.take (storedBytes t)) :: copiedData ts (rest.drop (storedBytes t))

/-- Every tensor has a stored size, and together they are in the file. -/
def Copyable (ts : List GgufTensorInfo) (rest : List UInt8) : Prop :=
  (∀ t ∈ ts, ∃ s, t.storedSize = .ok s) ∧ (ts.map storedBytes).sum ≤ rest.length

/-- Why copying stops: after some tensors, one has no stored size or is cut short. -/
def CopyStops (ts : List GgufTensorInfo) (rest : List UInt8) (e : GgufError) : Prop :=
  ∃ ts₁ t ts₂, ts = ts₁ ++ t :: ts₂ ∧ Copyable ts₁ rest ∧ (t.storedSize = .error e ∨
    ∃ s, t.storedSize = .ok s ∧ rest.length < (ts₁.map storedBytes).sum + s.toNat ∧
      e = .binary .unexpectedEof)

/-! ## Half-precision floats -/

def isHalfFloat : GgufKvValue → Bool
  | .float16 _ | .bfloat16 _ => true
  | _ => false

/-- A half-precision float, or an array of them, not empty. -/
def halfFloats : GgufKvValue → Bool
  | .array arr => !arr.isEmpty && arr.all isHalfFloat
  | v => isHalfFloat v

/-! ## Normal payloads -/

def normaliseBool (b : UInt8) : UInt8 := if b = 0 then 0 else 1

/-- The payload of an array, with a count of `n` bytes: the tag of an empty
one becomes `Uint32`, and each byte of an array of `Bool` 0 or 1. -/
def normaliseArray (n : Nat) (p : List UInt8) : List UInt8 :=
  let tag := p.take 4
  let count := (p.drop 4).take n
  let elements := p.drop (4 + n)
  if ofLE count = 0 then leU32.enc GgufValueType.uint32.toU32 ++ (count ++ elements)
  else if tag = leU32.enc GgufValueType.bool.toU32 then tag ++ (count ++ elements.map normaliseBool)
  else p

/-- A payload as the writer writes it. -/
def normalisePayload (f : GgufWireFormat) (t : GgufValueType) (p : List UInt8) : List UInt8 :=
  match t with
  | .bool => p.map normaliseBool
  | .array => normaliseArray f.arrayCountWidth.bytes.toNat p
  | _ => p

/-- The records of KV pairs, and the same with normal payloads. -/
inductive Normalised (f : GgufWireFormat) : List GgufKvPair → List UInt8 → List UInt8 → Prop
  | nil : Normalised f [] [] []
  | cons {kv : GgufKvPair} {kvs : List GgufKvPair} {k p c c' : List UInt8}
      (hk : Text f.keyWidth kv.key k) (hp : Payload f kv.valueType kv.value p)
      (h : Normalised f kvs c c') :
      Normalised f (kv :: kvs) (k ++ (leU32.enc kv.valueType.toU32 ++ p) ++ c)
        (k ++ (leU32.enc kv.valueType.toU32 ++ normalisePayload f kv.valueType p) ++ c')

end PestiGguf.Spec
