import PestiGguf.Proof.RoundTrip
import PestiGguf.Proof.Size

/-!
# Header lengths across versions

The length of a header is a function of its content and of the widths of its
integer fields (`length_headerWord`), whatever tag an empty array has and
whatever byte a `Bool` is. So the headers of one content differ between versions
by four bytes for each field that is wider in one of them (`consumed_versions`).
-/

namespace PestiGguf

open Codec Codec.Reader Spec

namespace Spec

/-- The bytes of a field beyond four. -/
def extraBytes : IntWidth → Nat
  | .u32 => 0
  | .u64 => 4

def isString : GgufKvValue → Bool
  | .string _ => true
  | _ => false

/-- The length fields of the strings in a value. -/
def stringFields : GgufKvValue → Nat
  | .string _ => 1
  | .array arr => arr.countP isString
  | _ => 0

/-- The count fields of the arrays in a value. -/
def countFields : GgufKvValue → Nat
  | .array _ => 1
  | _ => 0

/-- The bytes of an element, with a length field of four. -/
def elementLength : GgufKvValue → Nat
  | .string s => 4 + s.utf8ByteSize
  | v => scalarWidth v.valueType

/-- The bytes of a payload, with fields of four. -/
def payloadLength : GgufKvValue → Nat
  | .array arr => 8 + (arr.map elementLength).sum
  | v => elementLength v

def kvLength (kv : GgufKvPair) : Nat := 8 + kv.key.utf8ByteSize + payloadLength kv.value

def tensorLength (t : GgufTensorInfo) : Nat := 20 + t.name.utf8ByteSize + 8 * t.shape.length

/-- The bytes of a header, with fields of four. -/
def narrowLength (kvs : List GgufKvPair) (ts : List GgufTensorInfo) : Nat :=
  16 + (kvs.map kvLength).sum + (ts.map tensorLength).sum

/-- What the fields of a format that are wider than four bytes add to it. -/
def widening (f : GgufWireFormat) (kvs : List GgufKvPair) (ts : List GgufTensorInfo) : Nat :=
  2 * extraBytes f.headerCountWidth + extraBytes f.keyWidth * kvs.length +
    extraBytes f.stringWidth * (kvs.map (stringFields ·.value)).sum +
    extraBytes f.arrayCountWidth * (kvs.map (countFields ·.value)).sum +
    extraBytes f.tensorNameWidth * ts.length

end Spec

theorem toNat_bytes (w : IntWidth) : w.bytes.toNat = 4 + extraBytes w := by
  cases w <;> rfl

theorem length_element {w : IntWidth} {t : GgufValueType} {v : GgufKvValue} {c : List UInt8} (h : Element w t v c) :
    c.length = elementLength v + extraBytes w * (if isString v then 1 else 0) := by
  cases h with
  | scalar _ h =>
    rw [length_scalar h]
    cases h <;> rfl
  | string h =>
    rw [length_text h, toNat_bytes]
    simp only [elementLength, isString, if_true]
    omega

theorem length_arrayElements {w : IntWidth} {t : GgufValueType} {arr : List GgufKvValue} {c : List UInt8}
    (h : Many (Element w t) arr c) :
    c.length = (arr.map elementLength).sum + extraBytes w * arr.countP isString := by
  induction h with
  | nil => rfl
  | cons hR _ ih =>
    rw [List.length_append, length_element hR, ih, List.map_cons, List.sum_cons, List.countP_cons, Nat.mul_add]
    omega

theorem length_payload {f : GgufWireFormat} {t : GgufValueType} {v : GgufKvValue} {p : List UInt8}
    (h : Payload f t v p) : p.length = payloadLength v + extraBytes f.stringWidth * stringFields v +
      extraBytes f.arrayCountWidth * countFields v := by
  cases h with
  | scalar h =>
    rw [length_scalar h]
    cases h <;> rfl
  | string h =>
    rw [length_text h, toNat_bytes]
    simp only [payloadLength, elementLength, stringFields, countFields]
    omega
  | array tag _ h =>
    have h4 : (leU32.enc tag.toU32).length = 4 := leU32.length_enc _
    simp only [List.length_append, h4, length_lenField, toNat_bytes, length_arrayElements h, payloadLength,
      stringFields, countFields]
    omega

theorem length_kvRecord {f : GgufWireFormat} {kv : GgufKvPair} {c : List UInt8} (h : KvRecord f kv c) :
    c.length = kvLength kv + extraBytes f.keyWidth + extraBytes f.stringWidth * stringFields kv.value +
      extraBytes f.arrayCountWidth * countFields kv.value := by
  obtain ⟨k, p, hk, hp, rfl⟩ := h
  have h4 : (leU32.enc kv.valueType.toU32).length = 4 := leU32.length_enc _
  simp only [List.length_append, h4, length_text hk, toNat_bytes, length_payload hp, kvLength]
  omega

theorem length_tensorRecord {f : GgufWireFormat} {t : GgufTensorInfo} {c : List UInt8} (h : TensorRecord f t c) :
    c.length = tensorLength t + extraBytes f.tensorNameWidth := by
  obtain ⟨n, hn, -, rfl⟩ := h
  have h4 (v : UInt32) : (leU32.enc v).length = 4 := leU32.length_enc _
  have h8 : (leU64.enc t.offset).length = 8 := leU64.length_enc _
  simp only [List.length_append, h4, h8, length_text hn, toNat_bytes, length_dims, tensorLength]
  omega

theorem length_kvRecords {f : GgufWireFormat} {kvs : List GgufKvPair} {c : List UInt8} (h : Many (KvRecord f) kvs c) :
    c.length = (kvs.map kvLength).sum + extraBytes f.keyWidth * kvs.length +
      extraBytes f.stringWidth * (kvs.map (stringFields ·.value)).sum +
      extraBytes f.arrayCountWidth * (kvs.map (countFields ·.value)).sum := by
  induction h with
  | nil => rfl
  | cons hR _ ih =>
    simp only [List.length_append, length_kvRecord hR, ih, List.map_cons, List.sum_cons, List.length_cons,
      Nat.mul_add]
    omega

theorem length_tensorRecords {f : GgufWireFormat} {ts : List GgufTensorInfo} {c : List UInt8}
    (h : Many (TensorRecord f) ts c) :
    c.length = (ts.map tensorLength).sum + extraBytes f.tensorNameWidth * ts.length := by
  induction h with
  | nil => rfl
  | cons hR _ ih =>
    simp only [List.length_append, length_tensorRecord hR, ih, List.map_cons, List.sum_cons, List.length_cons,
      Nat.mul_add]
    omega

/-- The length of a header, of any version. -/
theorem length_headerWord {h : GgufHeader} {c : List UInt8} (hc : HeaderWord h c) : ∃ v,
    h.version = versionNumber v ∧
      c.length = narrowLength h.kvPairs h.tensors + widening v.wireFormat h.kvPairs h.tensors := by
  cases hc with
  | v1 n _ _ hM =>
    refine ⟨.v1, rfl, ?_⟩
    rw [List.length_append, length_preamble, length_kvRecords hM]
    simp only [headerOf, narrowLength, widening, toNat_bytes, GgufVersion.wireFormat, List.map_nil, List.sum_nil,
      List.length_nil]
    omega
  | @v23 v _ _ _ _ _ _ _ _ hM hM' =>
    refine ⟨v, rfl, ?_⟩
    rw [List.length_append, List.length_append, length_preamble, length_kvRecords hM, length_tensorRecords hM']
    simp only [headerOf, narrowLength, widening, toNat_bytes]
    omega

theorem consumed_eq {b : List UInt8} {h : GgufHeader} (hp : (parseGgufReader b).result = .ok h) {v : GgufVersion}
    (hv : h.version = versionNumber v) : parseGgufReader.consumed b =
      narrowLength h.kvPairs h.tensors + widening v.wireFormat h.kvPairs h.tensors := by
  obtain ⟨hword, hle⟩ := recognises_parseGgufReader.word hp
  obtain ⟨v', hv', hl⟩ := length_headerWord hword
  rwa [versionNumber_inj (hv.symm.trans hv'), ← List.length_take_of_le hle]

/-- Two inputs that are read to the same pairs and tensors. In one version their
headers have one length. From version 1 to 2 the two counts of the header and each
array's count grow by four bytes, and from version 2 to 3 each key, each tensor
name and each string, in an array or by itself, does. -/
theorem consumed_versions (b b' : List UInt8) (h h' : GgufHeader) (hp : (parseGgufReader b).result = .ok h)
    (hp' : (parseGgufReader b').result = .ok h') (hkv : h'.kvPairs = h.kvPairs) (hts : h'.tensors = h.tensors) :
    (h'.version = h.version → parseGgufReader.consumed b' = parseGgufReader.consumed b) ∧
    (h.version = 1 → h'.version = 2 → parseGgufReader.consumed b' =
      parseGgufReader.consumed b + 8 + 4 * (h.kvPairs.map (countFields ·.value)).sum) ∧
    (h.version = 2 → h'.version = 3 → parseGgufReader.consumed b' = parseGgufReader.consumed b +
      4 * (h.kvPairs.length + h.tensors.length + (h.kvPairs.map (stringFields ·.value)).sum)) := by
  obtain ⟨v, hv, -⟩ := length_headerWord (recognises_parseGgufReader.word hp).1
  obtain ⟨v', hv', -⟩ := length_headerWord (recognises_parseGgufReader.word hp').1
  have hlen := consumed_eq hp hv
  have hlen' := consumed_eq hp' hv'
  rw [hkv, hts] at hlen'
  refine ⟨fun e => ?_, fun h1 h2 => ?_, fun h2 h3 => ?_⟩
  · rw [hlen, hlen', versionNumber_inj (hv'.symm.trans (e.trans hv))]
  · obtain rfl : v = .v1 := versionNumber_inj (hv.symm.trans h1)
    obtain rfl : v' = .v2 := versionNumber_inj (hv'.symm.trans h2)
    rw [hlen, hlen']
    simp only [widening, GgufVersion.wireFormat, GgufWireFormat.v1, GgufWireFormat.v2, extraBytes]
    -- of a file of version 1 no tensors are read
    omega
  · obtain rfl : v = .v2 := versionNumber_inj (hv.symm.trans h2)
    obtain rfl : v' = .v3 := versionNumber_inj (hv'.symm.trans h3)
    rw [hlen, hlen']
    simp only [widening, GgufVersion.wireFormat, GgufWireFormat.v2, GgufWireFormat.v3, extraBytes]
    omega

theorem consumed_versions_sample : ∃ b b' h h', (parseGgufReader b).result = .ok h ∧
    (parseGgufReader b').result = .ok h' ∧ h.version = 2 ∧ h'.version = 3 ∧
    parseGgufReader.consumed b' = parseGgufReader.consumed b + 12 := by
  obtain ⟨b, hb, -⟩ := WithinLimits.writes (w := { sampleWriter with version := 2 })
    { sampleWriter_withinLimits with } (v := .v2) (by decide) rfl
  obtain ⟨b', hb', -⟩ := sampleWriter_withinLimits.writes (v := .v3) (by decide) rfl
  have hp := (recognises_parseGgufReader.returns_append hb []).1
  have hp' := (recognises_parseGgufReader.returns_append hb' []).1
  have h := (consumed_versions _ _ _ _ hp hp' rfl rfl).2.2 rfl rfl
  exact ⟨_, _, _, _, hp, hp', rfl, rfl, h⟩

end PestiGguf
