import PestiGguf.Framework.Progress
import PestiGguf.Proof.Parser

/-!
# The loops of the parser

Each record the parser's loops read takes at least a byte of its own: pairs,
array elements, tensor infos and dimensions. So a run reads no more of them than
its input has bytes, whatever counts it declares and wherever it stops, and one
that succeeds has read those of its header (`parseGgufReader_decodes_le`).
-/

namespace PestiGguf

open Codec Codec.Reader Spec

namespace Spec

def isDecoded : Event → Bool
  | .decoded _ => true
  | _ => false

/-- The elements of an array. -/
def elementCount : GgufKvValue → Nat
  | .array arr => arr.length
  | _ => 0

/-- A pair and the elements of its array. -/
def pairRecords (kv : GgufKvPair) : Nat := elementCount kv.value + 1

/-- A tensor info and its dimensions. -/
def tensorRecords (t : GgufTensorInfo) : Nat := t.shape.length + 1

/-- The pairs, array elements, tensor infos and dimensions of a header. -/
def recordCount (h : GgufHeader) : Nat := (h.kvPairs.map pairRecords).sum + (h.tensors.map tensorRecords).sum

/-- How many records a run decodes. -/
def decodedCount (b : List UInt8) : Nat := (parseGgufReader b).trace.countP isDecoded

end Spec

/-! ## Fields -/

theorem tallies_readU8 : readU8.Tallies isDecoded 1 0 fun _ => 0 := .fixed _ _

theorem tallies_readU16Le : readU16Le.Tallies isDecoded 1 0 fun _ => 0 := (Tallies.fixed _ _).mono (by decide)

theorem tallies_readU32Le : readU32Le.Tallies isDecoded 2 0 fun _ => 0 := (Tallies.fixed _ _).mono (by decide)

theorem tallies_readU64Le : readU64Le.Tallies isDecoded 2 0 fun _ => 0 := (Tallies.fixed _ _).mono (by decide)

/-- A value cast from what `p` reads. -/
theorem tallies_cast {α β : Type} {p : Input α} {k : Nat} (hp : p.Tallies isDecoded k 0 fun _ => 0) (f : α → β) :
    (do let a ← p; pure (f a) : Input β).Tallies isDecoded k 0 fun _ => 0 :=
  hp.map fun _ => rfl

theorem tallies_readInt (w : IntWidth) : (readInt w).Tallies isDecoded 2 0 fun _ => 0 := by
  cases w with
  | u32 => exact tallies_readU32Le.map fun _ => rfl
  | u64 => exact tallies_readU64Le

theorem tallies_readLength (w : IntWidth) : (readLength w).Tallies isDecoded 2 0 fun _ => 0 :=
  (tallies_readInt w).bind fun _ => .guard fun _ => .pure rfl

theorem tallies_readBytes (len : UInt64) : (readBytes len).Tallies isDecoded 0 0 fun _ => 0 :=
  (Tallies.event rfl).bind fun _ => (Tallies.exact _ _).mono (Nat.zero_le _)

theorem tallies_fromUtf8 {α : Type} {bytes : List UInt8} {p : String → Input α} {k n : Nat} {w : α → Nat}
    (hp : ∀ s, (p s).Tallies isDecoded k n w) :
    (match fromUtf8 bytes with
      | none => .fail (.utf8 bytes)
      | some s => p s : Input α).Tallies isDecoded k n w := by
  cases fromUtf8 bytes with
  | none => exact .fail _
  | some s => exact hp s

theorem tallies_readString (w : IntWidth) : (readString w).Tallies isDecoded 2 0 fun _ => 0 :=
  (tallies_readLength w).bind fun _ => (tallies_readBytes _).bind fun _ => tallies_fromUtf8 fun _ => .pure rfl

/-- A scalar weighs what a value without elements does. -/
theorem tallies_readKvScalar (t : GgufValueType) {w : GgufKvValue → Nat} (hw : ∀ v, elementCount v = 0 → w v = 0) :
    (readKvScalar t).Tallies isDecoded 1 0 w := by
  cases t with
  | string | array | int8Array | uint8Array => exact .fail _
  | uint8 | bool => exact tallies_readU8.map fun _ => hw _ rfl
  | int8 => exact (tallies_cast tallies_readU8 _).map fun _ => hw _ rfl
  | uint16 | bfloat16 | float16 => exact tallies_readU16Le.map fun _ => hw _ rfl
  | int16 => exact (tallies_cast tallies_readU16Le _).map fun _ => hw _ rfl
  | uint32 | float32 => exact (tallies_readU32Le.mono (by decide)).map fun _ => hw _ rfl
  | int32 => exact ((tallies_cast tallies_readU32Le _).mono (by decide)).map fun _ => hw _ rfl
  | uint64 | float64 => exact (tallies_readU64Le.mono (by decide)).map fun _ => hw _ rfl
  | int64 => exact ((tallies_cast tallies_readU64Le _).mono (by decide)).map fun _ => hw _ rfl

theorem tallies_readKvArrayElement (t : GgufValueType) (raw : UInt32) (w : IntWidth) :
    (readKvArrayElement t raw w).Tallies isDecoded 1 0 fun _ => 0 := by
  have scalar (t : GgufValueType) : (readKvScalar t).Tallies isDecoded 1 0 fun _ => 0 :=
    tallies_readKvScalar t fun _ _ => rfl
  cases t with
  | string => exact ((tallies_readString w).mono (by decide)).map fun _ => rfl
  | float64 | array | int8Array | uint8Array => exact .fail _
  | uint8 => exact scalar .uint8
  | int8 => exact scalar .int8
  | uint16 => exact scalar .uint16
  | int16 => exact scalar .int16
  | uint32 => exact scalar .uint32
  | int32 => exact scalar .int32
  | uint64 => exact scalar .uint64
  | int64 => exact scalar .int64
  | float32 => exact scalar .float32
  | bool => exact scalar .bool
  | bfloat16 => exact scalar .bfloat16
  | float16 => exact scalar .float16

/-! ## Records -/

theorem tallies_pushed {α : Type} {p : Input α} {k : Nat} {w : α → Nat} (hp : p.Tallies isDecoded (k + 1) 0 w)
    (record : Record) : (pushed record p).Tallies isDecoded k 0 fun a => w a + 1 :=
  .recorded rfl hp

theorem tallies_fromU32 {α : Type} {raw : UInt32} {p : GgufValueType → Input α} {k n : Nat} {w : α → Nat}
    (hp : ∀ t, (p t).Tallies isDecoded k n w) :
    (match GgufValueType.fromU32 raw with
      | none => .fail (.invalidValueType raw)
      | some t => p t : Input α).Tallies isDecoded k n w := by
  cases GgufValueType.fromU32 raw with
  | none => exact .fail _
  | some t => exact hp t

theorem tallies_readKvValueGeneric (t : GgufValueType) (sw cw : IntWidth) :
    (readKvValueGeneric t sw cw).Tallies isDecoded 0 0 elementCount := by
  have scalar (t : GgufValueType) (e : readKvValueGeneric t sw cw = readKvScalar t) :
      (readKvValueGeneric t sw cw).Tallies isDecoded 0 0 elementCount :=
    e ▸ (tallies_readKvScalar t fun _ h => h).mono (Nat.zero_le _)
  cases t with
  | string => exact ((tallies_readString sw).mono (Nat.zero_le _)).map fun _ => rfl
  | array =>
    refine (tallies_readU32Le.mono (Nat.zero_le _)).bind fun raw => tallies_fromU32 fun t =>
      ((tallies_readInt cw).mono (Nat.zero_le _)).bind fun n => (Tallies.event rfl).bind fun _ =>
      ((tallies_pushed (tallies_readKvArrayElement t raw sw) .arrayElement).many _).bind fun vs => .pure ?_
    simp [elementCount]
  | _ => exact scalar _ rfl

theorem tallies_readKvPair (f : GgufWireFormat) :
    (readKvPair f).Tallies isDecoded 1 0 fun kv => elementCount kv.value :=
  ((tallies_readString _).mono (by decide)).bind fun _ =>
    (tallies_readU32Le.mono (Nat.zero_le _)).bind fun _ => tallies_fromU32 fun t =>
    (tallies_readKvValueGeneric t _ _).bind fun _ => .pure (by simp only [Nat.zero_add])

theorem tallies_readTensorInfo (f : GgufWireFormat) :
    (readTensorInfo f).Tallies isDecoded 1 0 fun t => t.shape.length := by
  refine ((tallies_readLength _).mono (by decide)).bind fun _ => .guard fun _ =>
    (tallies_readBytes _).bind fun _ => tallies_fromUtf8 fun _ =>
    (tallies_readU32Le.mono (Nat.zero_le _)).bind fun nDims => .guard fun _ =>
    ((tallies_pushed (tallies_readU64Le) .dimension).many _).bind fun shape =>
    (tallies_readU32Le.mono (Nat.zero_le _)).bind fun _ =>
    (tallies_readU64Le.mono (Nat.zero_le _)).bind fun _ => .pure ?_
  simp

/-! ## Headers -/

theorem tallies_alignment {α : Type} (kvs : List GgufKvPair) (f : UInt64 → α) {n : Nat} {w : α → Nat}
    (hw : ∀ a, n = w (f a)) :
    (do
      let a ← .ofExcept (readAlignmentFromKv kvs)
      pure (f a) : Input α).Tallies isDecoded 0 n w :=
  (Tallies.ofExcept _).bind fun a => .pure (hw a)

theorem tallies_kvPairs (f : GgufWireFormat) (n : Nat) :
    ((pushed .kvPair (readKvPair f)).many n).Tallies isDecoded 0 0 fun kvs => (kvs.map pairRecords).sum :=
  (tallies_pushed (tallies_readKvPair f) .kvPair).many n

theorem tallies_tensors (f : GgufWireFormat) (n : Nat) :
    ((pushed .tensorInfo (readTensorInfo f)).many n).Tallies isDecoded 0 0 fun ts => (ts.map tensorRecords).sum :=
  (tallies_pushed (tallies_readTensorInfo f) .tensorInfo).many n

/-- A run counts the records of its header. -/
theorem tallies_parseGgufReader : parseGgufReader.Tallies isDecoded 0 0 recordCount := by
  unfold parseGgufReader
  refine ((Tallies.exact 4 _).mono (Nat.zero_le _)).bind fun magic => .guard fun _ =>
    (tallies_readU32Le.mono (Nat.zero_le _)).bind fun version => ?_
  cases GgufVersion.fromU32 version with
  | none => exact .fail _
  | some v =>
    by_cases h1 : version = 1
    · simp only [h1, if_true]
      exact (tallies_readU32Le.mono (Nat.zero_le _)).bind fun _ =>
        ((tallies_readInt _).mono (Nat.zero_le _)).bind fun kvCount => .guard fun _ =>
        (Tallies.event rfl).bind fun _ => (tallies_kvPairs _ _).bind fun kvs =>
        tallies_alignment kvs _ fun _ => by simp [recordCount]
    · simp only [h1, if_false]
      exact ((tallies_readInt _).mono (Nat.zero_le _)).bind fun tensorCount =>
        ((tallies_readInt _).mono (Nat.zero_le _)).bind fun kvCount => .guard fun _ =>
        (Tallies.event rfl).bind fun _ => (tallies_kvPairs _ _).bind fun kvs =>
        (Tallies.event rfl).bind fun _ => (tallies_tensors _ _).bind fun ts =>
        tallies_alignment kvs _ fun _ => by simp [recordCount]

/-- A run decodes at most as many records as its input has bytes, and a header it
returns has no more: as many as the run decoded. -/
theorem parseGgufReader_decodes_le (b : List UInt8) : decodedCount b ≤ b.length ∧
    ∀ h, (parseGgufReader b).result = .ok h → recordCount h = decodedCount b ∧ recordCount h ≤ b.length := by
  have hle := tallies_parseGgufReader.le_length b
  refine ⟨hle, fun h hok => ?_⟩
  have he := tallies_parseGgufReader.eq_of_ok hok
  exact ⟨he.symm, he ▸ hle⟩

end PestiGguf
