import PestiGguf.Framework.Streaming
import PestiGguf.Proof.Parser

/-!
# Parsing an input that grows

Where a run of the parser does not end at the end of its input, what follows
does not matter: not to a header, and not to an error (`streams_parseGgufReader`).
So a file that is still being written, or received, decides at one length
(`parseGgufReader_decides`).
-/

namespace PestiGguf

open Codec Codec.Reader Spec

namespace Spec

/-- The errors at the end of the input. -/
def EndOfInput : GgufError → Prop
  | .binary .unexpectedEof => True
  | .unexpectedEof _ _ => True
  | _ => False

/-- A run ended at the end of its input. -/
def Cut (b : List UInt8) : Prop := Starved EndOfInput (parseGgufReader b).result

end Spec

/-! ## Fields -/

theorem streams_readU8 : readU8.Streams EndOfInput 1 := .fixed byte trivial

theorem streams_readU16Le : readU16Le.Streams EndOfInput 2 := .fixed leU16 trivial

theorem streams_readU32Le : readU32Le.Streams EndOfInput 4 := .fixed leU32 trivial

theorem streams_readU64Le : readU64Le.Streams EndOfInput 8 := .fixed leU64 trivial

theorem streams_readInt (w : IntWidth) : (readInt w).Streams EndOfInput 8 := by
  cases w with
  | u32 => exact streams_readU32Le.map.mono (by decide)
  | u64 => exact streams_readU64Le

theorem streams_readLength (w : IntWidth) : (readLength w).Streams EndOfInput 8 :=
  (streams_readInt w).bind fun v => .guard id (.pure v)

theorem streams_readBytes (len : UInt64) : (readBytes len).Streams EndOfInput (2 ^ 64) :=
  ((Streams.event _).bind fun _ => (Streams.exact _ trivial).mono (Nat.le_of_lt len.toNat_lt)).mono
    (Nat.zero_add _).le

theorem streams_fromUtf8 {α : Type} {bytes : List UInt8} {p : String → Input α} {n : Nat}
    (hp : ∀ s, (p s).Streams EndOfInput n) :
    (match fromUtf8 bytes with
      | none => .fail (.utf8 bytes)
      | some s => p s : Input α).Streams EndOfInput n := by
  cases fromUtf8 bytes with
  | none => exact (Streams.fail id).mono (Nat.zero_le n)
  | some s => exact hp s

theorem streams_readString (w : IntWidth) : (readString w).Streams EndOfInput (8 + 2 ^ 64) :=
  (streams_readLength w).bind fun _ => (streams_readBytes _).bind fun _ => streams_fromUtf8 fun s => .pure s

theorem streams_readKvScalar (t : GgufValueType) : (readKvScalar t).Streams EndOfInput 8 := by
  cases t with
  | string | array | int8Array | uint8Array => exact (Streams.fail id).mono (by decide)
  | uint8 | bool => exact streams_readU8.map.mono (by decide)
  | int8 => exact streams_readU8.map.map.mono (by decide)
  | uint16 | bfloat16 | float16 => exact streams_readU16Le.map.mono (by decide)
  | int16 => exact streams_readU16Le.map.map.mono (by decide)
  | uint32 | float32 => exact streams_readU32Le.map.mono (by decide)
  | int32 => exact streams_readU32Le.map.map.mono (by decide)
  | uint64 | float64 => exact streams_readU64Le.map
  | int64 => exact streams_readU64Le.map.map

theorem streams_readKvArrayElement (t : GgufValueType) (raw : UInt32) (w : IntWidth) :
    (readKvArrayElement t raw w).Streams EndOfInput (8 + 2 ^ 64) := by
  have scalar (t : GgufValueType) (e : readKvArrayElement t raw w = readKvScalar t) :
      (readKvArrayElement t raw w).Streams EndOfInput (8 + 2 ^ 64) :=
    e ▸ (streams_readKvScalar t).mono (by decide)
  cases t with
  | string => exact (streams_readString w).map
  | float64 | array | int8Array | uint8Array => exact (Streams.fail id).mono (by decide)
  | uint8 | int8 | uint16 | int16 | uint32 | int32 | uint64 | int64 | float32 | bool | bfloat16 | float16 =>
    exact scalar _ rfl

/-! ## Records -/

theorem streams_pushed {α : Type} {p : Input α} {n : Nat} (hp : p.Streams EndOfInput n) (record : Record) :
    (pushed record p).Streams EndOfInput n :=
  hp.bind fun a => (Streams.event _).bind fun _ => .pure a

/-- A loop of a declared count. -/
theorem streams_many {α : Type} {p : Input α} {n : Nat} (hp : p.Streams EndOfInput n) (count : UInt64) :
    (p.many count.toNat).Streams EndOfInput (2 ^ 64 * n) :=
  (hp.many _).mono (Nat.mul_le_mul_right n (Nat.le_of_lt count.toNat_lt))

theorem streams_fromU32 {α : Type} {raw : UInt32} {p : GgufValueType → Input α} {n : Nat}
    (hp : ∀ t, (p t).Streams EndOfInput n) :
    (match GgufValueType.fromU32 raw with
      | none => .fail (.invalidValueType raw)
      | some t => p t : Input α).Streams EndOfInput n := by
  cases GgufValueType.fromU32 raw with
  | none => exact (Streams.fail id).mono (Nat.zero_le n)
  | some t => exact hp t

theorem streams_readKvValueGeneric (t : GgufValueType) (sw cw : IntWidth) :
    (readKvValueGeneric t sw cw).Streams EndOfInput (2 ^ 130) := by
  have scalar (t : GgufValueType) (e : readKvValueGeneric t sw cw = readKvScalar t) :
      (readKvValueGeneric t sw cw).Streams EndOfInput (2 ^ 130) :=
    e ▸ (streams_readKvScalar t).mono (by decide)
  cases t with
  | string => exact (streams_readString sw).map.mono (by decide)
  | array =>
    refine (streams_readU32Le.bind fun raw => streams_fromU32 fun t => (streams_readInt cw).bind fun n =>
      (Streams.event _).bind fun _ =>
      (streams_many (streams_pushed (streams_readKvArrayElement t raw sw) _) n).map).mono (by decide)
  | _ => exact scalar _ rfl

theorem streams_readKvPair (f : GgufWireFormat) : (readKvPair f).Streams EndOfInput (2 ^ 131) :=
  ((streams_readString _).bind fun _ => streams_readU32Le.bind fun _ => streams_fromU32 fun t =>
    (streams_readKvValueGeneric t _ _).map).mono (by decide)

theorem streams_readTensorInfo (f : GgufWireFormat) : (readTensorInfo f).Streams EndOfInput (2 ^ 131) := by
  refine Streams.mono ((streams_readLength _).bind fun _ => .guard id <| (streams_readBytes _).bind fun _ =>
    streams_fromUtf8 fun _ => streams_readU32Le.bind fun nDims => .guard id <|
    ((streams_pushed streams_readU64Le _).many nDims.toNat).mono
      (Nat.mul_le_mul_right 8 (Nat.le_of_lt nDims.toNat_lt)) |>.bind fun _ => streams_readU32Le.bind fun _ =>
    streams_readU64Le.map) (by decide)

/-! ## Headers -/

theorem streams_alignment {α : Type} (kvs : List GgufKvPair) (f : UInt64 → α) :
    (do
      let a ← .ofExcept (readAlignmentFromKv kvs)
      pure (f a) : Input α).Streams EndOfInput 0 := by
  refine (Streams.ofExcept fun e he hend => ?_).map
  unfold readAlignmentFromKv at he
  simp only at he
  split at he
  · cases he
    exact hend
  · split at he
    · cases he
      exact hend
    · split at he
      · cases he
        exact hend
      · cases he

/-- Enough for the records of a header. -/
theorem streams_parseGgufReader : ∃ n, parseGgufReader.Streams EndOfInput n := by
  refine ⟨_, (Streams.exact 4 trivial).bind (m := 4 + 2 ^ 200) fun magic => .guard id <|
    streams_readU32Le.bind fun version => ?_⟩
  cases GgufVersion.fromU32 version with
  | none => exact (Streams.fail id).mono (Nat.zero_le _)
  | some v =>
    by_cases h1 : version = 1
    · simp only [h1, if_true]
      exact (streams_readU32Le.bind fun _ => (streams_readInt _).bind fun kvCount => .guard id <|
        (Streams.event _).bind fun _ => (streams_many (streams_pushed (streams_readKvPair _) _) kvCount).bind fun kvs =>
        streams_alignment kvs _).mono (by decide)
    · simp only [h1, if_false]
      exact ((streams_readInt _).bind fun tensorCount => (streams_readInt _).bind fun kvCount => .guard id <|
        (Streams.event _).bind fun _ => (streams_many (streams_pushed (streams_readKvPair _) _) kvCount).bind fun kvs =>
        (Streams.event _).bind fun _ =>
        (streams_many (streams_pushed (streams_readTensorInfo _) _) tensorCount).bind fun ts =>
        streams_alignment kvs _).mono (by decide)

/-- What is read of a header is all that it takes to decide on it. -/
theorem consumed_of_cut {b : List UInt8} {h : GgufHeader} (hok : (parseGgufReader b).result = .ok h)
    (hcut : ∀ m < b.length, Cut (b.take m)) : parseGgufReader.consumed b = b.length := by
  obtain ⟨hword, hle⟩ := recognises_parseGgufReader.word hok
  refine Nat.le_antisymm hle (Nat.le_of_not_lt fun hlt => ?_)
  have hread := (recognises_parseGgufReader.returns_append hword []).1
  rw [List.append_nil] at hread
  have := hcut _ hlt
  rw [Cut, hread] at this
  exact this

/-- An endless input has one length at which the parser decides. It runs out of
any less, and with more it gives the same header, which is all of that length, or
the same error. Allocations are set aside: `Vec::with_capacity` of an array count of
2^58 or more panics, and is read past here. -/
theorem parseGgufReader_decides (stream : Nat → UInt8) :
    ∃! k, (∀ m < k, Cut (upTo stream m)) ∧ ¬ Cut (upTo stream k) ∧
      (∀ m ≥ k, (parseGgufReader (upTo stream m)).result = (parseGgufReader (upTo stream k)).result) ∧
      ∀ h, (parseGgufReader (upTo stream k)).result = .ok h → parseGgufReader.consumed (upTo stream k) = k := by
  obtain ⟨n, hn⟩ := streams_parseGgufReader
  obtain ⟨k, ⟨hbelow, hk, habove⟩, hunique⟩ := hn.exists_decisive_stream stream
  refine ⟨k, ⟨hbelow, hk, habove, fun h hok => ?_⟩, fun k' h' => hunique k' ⟨h'.1, h'.2.1, h'.2.2.1⟩⟩
  have hall := consumed_of_cut hok fun m hm => by
    rw [length_upTo] at hm
    rw [take_upTo stream (Nat.le_of_lt hm)]
    exact hbelow m hm
  rwa [length_upTo] at hall

end PestiGguf
