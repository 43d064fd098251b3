import PestiGguf.Proof.Acceptance
import PestiGguf.Proof.Size
import Mathlib.Algebra.Order.BigOperators.Group.List
import Mathlib.Order.Bounds.Defs

/-!
# The alignment of an accepted header

The sizes of `raw_byte_size_for_format` are those of unbounded integers modulo
2^64 (`rawByteSizeForFormat_kv`, `rawByteSizeForFormat_tensor`), and of a record
that was read the unbounded size is at most twice its length
(`unboundedKvSize_le`). So for an input shorter than 2^60 bytes nothing wraps:
the data section of an accepted header starts at the exact size of the header,
rounded up to its alignment (`parseGgufReader_alignment`).
-/

namespace PestiGguf

open Codec Codec.Reader Spec

namespace Spec

/-- The size `raw_byte_size_with_str_width` computes, in unbounded integers. -/
def unboundedValueSize (strLenBytes : Nat) : GgufKvValue → Nat
  | .uint8 _ | .int8 _ | .bool _ => 1
  | .uint16 _ | .int16 _ | .bfloat16 _ | .float16 _ => 2
  | .uint32 _ | .int32 _ | .float32 _ => 4
  | .uint64 _ | .int64 _ | .float64 _ => 8
  | .string s => strLenBytes + s.utf8ByteSize
  | .int8Array arr => 8 + arr.length
  | .uint8Array arr => 8 + arr.length
  | .array arr =>
    match arr.head?.map GgufKvValue.valueType with
    | some .uint8 | some .int8 | some .bool | some .int8Array | some .uint8Array => 4 + 8 + arr.length * 1
    | some .uint16 | some .int16 | some .float16 => 4 + 8 + arr.length * 2
    | some .uint32 | some .int32 | some .float32 => 4 + 8 + arr.length * 4
    | some .uint64 | some .int64 => 4 + 8 + arr.length * 8
    | some .string =>
      (arr.map fun v =>
        match v with
        | .string s => strLenBytes + s.utf8ByteSize
        | _ => 0).sum + 4 + 8
    | _ => 4 + 8 + arr.length * 4

def unboundedKvSize (f : GgufWireFormat) (kv : GgufKvPair) : Nat :=
  f.keyWidth.bytes.toNat + kv.key.utf8ByteSize + 4 + unboundedValueSize f.stringWidth.bytes.toNat kv.value

def unboundedTensorSize (f : GgufWireFormat) (t : GgufTensorInfo) : Nat :=
  f.tensorNameWidth.bytes.toNat + t.name.utf8ByteSize + 4 + t.shape.length * 8 + 4 + 8

/-- The magic and the version, the counts, and the sizes of all records. -/
def unboundedHeaderSize (f : GgufWireFormat) (h : GgufHeader) : Nat :=
  8 + 2 * f.headerCountWidth.bytes.toNat + (h.kvPairs.map (unboundedKvSize f)).sum +
    (h.tensors.map (unboundedTensorSize f)).sum

/-- The value of the first `general.alignment`, if `as_u64` gives one for it, and
32 otherwise. -/
def DeclaresAlignment (kvs : List GgufKvPair) (a : UInt64) : Prop :=
  match kvs.find? (·.key == "general.alignment") with
  | some kv => if kv.value.asU64.isSome then integerValue kv.value = some (a.toNat : Int) else a = 32
  | none => a = 32

/-- No sum of the computed sizes wraps. -/
structure SizesExact (f : GgufWireFormat) (h : GgufHeader) : Prop where
  kv : ∀ kv ∈ h.kvPairs, (kv.rawByteSizeForFormat f).toNat = unboundedKvSize f kv
  tensor : ∀ t ∈ h.tensors, (t.rawByteSizeForFormat f).toNat = unboundedTensorSize f t
  kvSection : UInt64.toNat (h.kvPairs.map (·.rawByteSizeForFormat f)).sum = (h.kvPairs.map (unboundedKvSize f)).sum
  tensorSection : UInt64.toNat (h.tensors.map (·.rawByteSizeForFormat f)).sum =
    (h.tensors.map (unboundedTensorSize f)).sum

end Spec

/-! ## Wrapped sizes -/

theorem ofNat_sum {α : Type} {m : α → UInt64} {n : α → Nat} {as : List α} (h : ∀ a ∈ as, m a = UInt64.ofNat (n a)) :
    (as.map m).sum = UInt64.ofNat (as.map n).sum := by
  induction as with
  | nil => rfl
  | cons a as ih =>
    rw [List.map_cons, List.sum_cons, List.map_cons, List.sum_cons, UInt64.ofNat_add, h a List.mem_cons_self,
      ih fun b hb => h b (List.mem_cons_of_mem a hb)]

theorem rawByteSizeWithStrWidth_eq (v : GgufKvValue) (w : UInt64) :
    v.rawByteSizeWithStrWidth w = UInt64.ofNat (unboundedValueSize w.toNat v) := by
  have add (n : Nat) : w + UInt64.ofNat n = UInt64.ofNat (w.toNat + n) := by
    rw [UInt64.ofNat_add, UInt64.ofNat_toNat]
  have mul (n : Nat) (k : UInt64) : 4 + 8 + UInt64.ofNat n * k = UInt64.ofNat (4 + 8 + n * k.toNat) := by
    rw [UInt64.ofNat_add, UInt64.ofNat_mul, UInt64.ofNat_toNat]
    rfl
  cases v with
  | string s => exact add _
  | int8Array arr => exact (UInt64.ofNat_add 8 arr.length).symm
  | uint8Array arr => exact (UInt64.ofNat_add 8 arr.length).symm
  | array arr =>
    have strings : (arr.map fun v =>
        match v with
        | .string s => w + UInt64.ofNat s.utf8ByteSize
        | _ => 0).sum + 4 + 8 = UInt64.ofNat ((arr.map fun v =>
        match v with
        | .string s => w.toNat + s.utf8ByteSize
        | _ => 0).sum + 4 + 8) := by
      rw [UInt64.ofNat_add, UInt64.ofNat_add, ofNat_sum (n := fun v =>
        match v with
        | .string s => w.toNat + s.utf8ByteSize
        | _ => 0) fun v _ => by cases v <;> first | exact add _ | rfl]
      rfl
    simp only [GgufKvValue.rawByteSizeWithStrWidth, unboundedValueSize]
    cases arr.head?.map GgufKvValue.valueType with
    | none => exact mul _ 4
    | some t =>
      cases t with
      | uint8 | int8 | bool | int8Array | uint8Array => exact mul _ 1
      | uint16 | int16 | float16 => exact mul _ 2
      | uint64 | int64 => exact mul _ 8
      | string => exact strings
      | uint32 | int32 | float32 | array | float64 | bfloat16 => exact mul _ 4
  | _ => rfl

theorem rawByteSizeForFormat_kv (f : GgufWireFormat) (kv : GgufKvPair) :
    kv.rawByteSizeForFormat f = UInt64.ofNat (unboundedKvSize f kv) := by
  simp only [GgufKvPair.rawByteSizeForFormat, unboundedKvSize, rawByteSizeWithStrWidth_eq, UInt64.ofNat_add,
    UInt64.ofNat_toNat]
  rfl

theorem rawByteSizeForFormat_tensor (f : GgufWireFormat) (t : GgufTensorInfo) :
    t.rawByteSizeForFormat f = UInt64.ofNat (unboundedTensorSize f t) := by
  simp only [GgufTensorInfo.rawByteSizeForFormat, unboundedTensorSize, UInt64.ofNat_add, UInt64.ofNat_mul,
    UInt64.ofNat_toNat]
  rfl

/-! ## Sizes of what was read -/

theorem sum_strings {w : IntWidth} {arr : List GgufKvValue} {c : List UInt8}
    (h : Many (Element w .string) arr c) :
    (arr.map fun v =>
        match v with
        | .string s => w.bytes.toNat + s.utf8ByteSize
        | _ => 0).sum = c.length := by
  induction h with
  | nil => rfl
  | cons hR _ ih =>
    cases hR with
    | scalar _ h => cases h
    | string h => rw [List.map_cons, List.sum_cons, ih, List.length_append, length_text h]

/-- The count of an array is taken to be 8 bytes, and a `Bfloat16` to be 4. -/
theorem unboundedValueSize_elements_le {w : IntWidth} {t : GgufValueType} {arr : List GgufKvValue}
    {c : List UInt8} (h : Many (Element w t) arr c) :
    unboundedValueSize w.bytes.toNat (.array arr) ≤ 12 + 2 * c.length := by
  cases arr with
  | nil => exact Nat.le_add_right ..
  | cons v arr =>
    have hhead : (v :: arr).head?.map GgufKvValue.valueType = some t :=
      congrArg some (valueType_of_elements h v List.mem_cons_self)
    rw [unboundedValueSize, hhead]
    cases t with
    | string =>
      show List.sum _ + 4 + 8 ≤ _
      rw [sum_strings h]
      omega
    | uint8 | int8 | uint16 | int16 | uint32 | int32 | float32 | uint64 | int64 | bool | float16 | bfloat16 =>
      have hc := length_elements h (by decide)
      simp only [scalarWidth] at hc ⊢
      omega
    | float64 | array | int8Array | uint8Array =>
      cases h with
      | cons hR _ =>
        cases hR with
        | scalar ht h => first | exact absurd rfl ht | cases h

theorem unboundedValueSize_le {f : GgufWireFormat} {t : GgufValueType} {v : GgufKvValue} {p : List UInt8}
    (h : Payload f t v p) : unboundedValueSize f.stringWidth.bytes.toNat v ≤ 2 * p.length := by
  cases h with
  | scalar h =>
    have hp := length_scalar h
    cases h <;> simp only [scalarWidth] at hp <;> simp only [unboundedValueSize] <;> omega
  | string h =>
    rw [unboundedValueSize, length_text h]
    omega
  | @array t arr c hn h =>
    have hle := unboundedValueSize_elements_le h
    have h4 : (leU32.enc t.toU32).length = 4 := leU32.length_enc _
    have hw : 4 ≤ f.arrayCountWidth.bytes.toNat := by cases f.arrayCountWidth <;> decide
    simp only [List.length_append, length_lenField, h4]
    omega

theorem unboundedKvSize_le {f : GgufWireFormat} {kv : GgufKvPair} {c : List UInt8} (h : KvRecord f kv c) :
    unboundedKvSize f kv ≤ 2 * c.length := by
  obtain ⟨k, p, hk, hp, rfl⟩ := h
  have hle := unboundedValueSize_le hp
  have h4 : (leU32.enc kv.valueType.toU32).length = 4 := leU32.length_enc _
  simp only [List.length_append, length_text hk, h4, unboundedKvSize]
  omega

theorem length_eq_unboundedTensorSize {f : GgufWireFormat} {t : GgufTensorInfo} {c : List UInt8}
    (h : TensorRecord f t c) : c.length = unboundedTensorSize f t := by
  obtain ⟨n, hn, -, rfl⟩ := h
  have h4 (v : UInt32) : (leU32.enc v).length = 4 := leU32.length_enc _
  have h8 : (leU64.enc t.offset).length = 8 := leU64.length_enc _
  simp only [List.length_append, length_text hn, length_dims, h4, h8, unboundedTensorSize]
  omega

theorem unboundedTensorSize_le {f : GgufWireFormat} {t : GgufTensorInfo} {c : List UInt8} (h : TensorRecord f t c) :
    unboundedTensorSize f t ≤ 2 * c.length := by
  rw [← length_eq_unboundedTensorSize h]
  omega

theorem sum_le_of_many {α : Type} {R : α → List UInt8 → Prop} {n : α → Nat} (hn : ∀ a c, R a c → n a ≤ 2 * c.length)
    {as : List α} {c : List UInt8} (h : Many R as c) : (as.map n).sum ≤ 2 * c.length := by
  induction h with
  | nil => exact Nat.zero_le _
  | cons hR _ ih =>
    have := hn _ _ hR
    rw [List.map_cons, List.sum_cons, List.length_append]
    omega

/-! ## Accepted headers -/

theorem roundUp_isLeast {a : Nat} (ha : 0 < a) (n : Nat) : IsLeast {m : Nat | a ∣ m ∧ n ≤ m} (roundUp a n) :=
  ⟨⟨dvd_roundUp ha n, le_roundUp a n⟩, fun _ hm => roundUp_le hm.1 hm.2⟩

theorem sizesExact {f : GgufWireFormat} {h : GgufHeader} (hlt : unboundedHeaderSize f h < 2 ^ 64) :
    SizesExact f h := by
  rw [unboundedHeaderSize] at hlt
  have hkv {kv : GgufKvPair} (hm : kv ∈ h.kvPairs) : unboundedKvSize f kv ≤ (h.kvPairs.map (unboundedKvSize f)).sum :=
    List.single_le_sum (fun _ _ => Nat.zero_le _) _ (List.mem_map_of_mem hm)
  have ht {t : GgufTensorInfo} (hm : t ∈ h.tensors) :
      unboundedTensorSize f t ≤ (h.tensors.map (unboundedTensorSize f)).sum :=
    List.single_le_sum (fun _ _ => Nat.zero_le _) _ (List.mem_map_of_mem hm)
  refine ⟨fun kv hm => ?_, fun t hm => ?_, ?_, ?_⟩
  · have := hkv hm
    rw [rawByteSizeForFormat_kv, UInt64.toNat_ofNat_of_lt' (by simp only [UInt64.size]; omega)]
  · have := ht hm
    rw [rawByteSizeForFormat_tensor, UInt64.toNat_ofNat_of_lt' (by simp only [UInt64.size]; omega)]
  · rw [ofNat_sum fun kv _ => rawByteSizeForFormat_kv f kv,
      UInt64.toNat_ofNat_of_lt' (by simp only [UInt64.size]; omega)]
  · rw [ofNat_sum fun t _ => rawByteSizeForFormat_tensor f t,
      UInt64.toNat_ofNat_of_lt' (by simp only [UInt64.size]; omega)]

/-- A header that was read is computed to be at most twice as long as it is. -/
theorem unboundedHeaderSize_le {h : GgufHeader} {c : List UInt8} (hw : HeaderWord h c) :
    ∃ v, h.version = versionNumber v ∧ h = headerOf v h.kvPairs h.tensors ∧ AlignmentOk h.kvPairs ∧
      unboundedHeaderSize v.wireFormat h ≤ 2 * c.length := by
  cases hw with
  | @v1 n kvs k _ ha hM =>
    refine ⟨.v1, rfl, rfl, ha, ?_⟩
    have hk := sum_le_of_many (n := unboundedKvSize _) (fun _ _ => unboundedKvSize_le) hM
    rw [List.length_append, length_preamble]
    simp only [unboundedHeaderSize, headerOf, List.map_nil, List.sum_nil, GgufVersion.wireFormat] at hk ⊢
    omega
  | @v23 v _ kvs ts k t _ _ ha hM hM' =>
    refine ⟨v, rfl, rfl, ha, ?_⟩
    have hk := sum_le_of_many (n := unboundedKvSize _) (fun _ _ => unboundedKvSize_le) hM
    have ht := sum_le_of_many (n := unboundedTensorSize _) (fun _ _ => unboundedTensorSize_le) hM'
    rw [List.length_append, length_preamble, List.length_append]
    simp only [unboundedHeaderSize, headerOf]
    omega

theorem toNat_alignmentOf {kvs : List GgufKvPair} (ha : AlignmentOk kvs) :
    (UInt64.ofNat (alignmentOf kvs)).toNat = alignmentOf kvs := by
  have := ha.bounds
  exact UInt64.toNat_ofNat_of_lt' (by simp only [UInt64.size]; omega)

theorem declaresAlignment {kvs : List GgufKvPair} (ha : AlignmentOk kvs) :
    DeclaresAlignment kvs (UInt64.ofNat (alignmentOf kvs)) := by
  have hnat := toNat_alignmentOf ha
  unfold DeclaresAlignment
  cases hkv : kvs.find? (·.key == "general.alignment") with
  | none =>
    rw [alignmentOf, declaredAlignment, hkv]
    rfl
  | some kv =>
    rcases asU64_eq kv.value with ⟨hz, hu⟩ | ⟨z, u, hz, hu, -⟩
    · simp [alignmentOf, declaredAlignment, hkv, hz, hu]
    · have hd : declaredAlignment kvs = some z := by rw [declaredAlignment, hkv, Option.bind_some, hz]
      obtain ⟨k, -, rfl⟩ := ha z hd
      have halign : alignmentOf kvs = 2 ^ k := by rw [alignmentOf, hd, Option.map_some, Option.getD_some, toNat_two_pow]
      have hval : ((UInt64.ofNat (alignmentOf kvs)).toNat : Int) = 2 ^ k := by
        rw [hnat, halign]
        exact Int.natCast_pow 2 k
      simp only [hu, Option.isSome_some, if_true, hz, hval]

/-- The data section starts at the unbounded size, rounded up. -/
theorem toNat_dataSectionStart {v : GgufVersion} {h : GgufHeader} (he : h = headerOf v h.kvPairs h.tensors)
    (ha : AlignmentOk h.kvPairs) (hlt : unboundedHeaderSize v.wireFormat h < 2 ^ 62) :
    h.dataSectionStart.toNat = roundUp (alignmentOf h.kvPairs) (unboundedHeaderSize v.wireFormat h) := by
  obtain ⟨hpos, hmax⟩ := ha.bounds
  rw [unboundedHeaderSize] at hlt ⊢
  rw [he]
  refine (toNat_computeDataSectionStart (n := 0) (m := 0)
    (ofNat_sum fun kv _ => rawByteSizeForFormat_kv v.wireFormat kv)
    (ofNat_sum fun t _ => rawByteSizeForFormat_tensor v.wireFormat t) hpos ?_).trans ?_
  · rw [length_preamble]
    omega
  · rw [length_preamble]
    rfl

/-- The alignment of an accepted header is a power of two up to 65536, the
declared one or 32, and its data section starts at the least multiple of it from
the end of the header on, as long as the header is computed to be in unbounded
integers. -/
theorem parseGgufReader_alignment (b : List UInt8) (h : GgufHeader) (hb : b.length < 2 ^ 60)
    (hok : (parseGgufReader b).result = .ok h) :
    ∃ v a, h.version = versionNumber v ∧ h.dataAlignment = some a ∧ (∃ k ≤ 16, a.toNat = 2 ^ k) ∧
      DeclaresAlignment h.kvPairs a ∧ SizesExact v.wireFormat h ∧
      IsLeast {m : Nat | a.toNat ∣ m ∧ unboundedHeaderSize v.wireFormat h ≤ m} h.dataSectionStart.toNat := by
  obtain ⟨hword, hle⟩ := recognises_parseGgufReader.word hok
  obtain ⟨v, hv, he, ha, hsize⟩ := unboundedHeaderSize_le hword
  rw [List.length_take_of_le hle] at hsize
  obtain ⟨k, hk, hpow⟩ := ha.pow
  have haN := toNat_alignmentOf ha
  refine ⟨v, UInt64.ofNat (alignmentOf h.kvPairs), hv, by rw [he]; rfl, ⟨k, hk, haN.trans hpow⟩,
    declaresAlignment ha, sizesExact (by omega), ?_⟩
  rw [toNat_dataSectionStart he ha (by omega), haN]
  exact roundUp_isLeast ha.bounds.1 _

theorem parseGgufReader_alignment_sample :
    ∃ v a, sampleHeader.version = versionNumber v ∧ sampleHeader.dataAlignment = some a ∧
      (∃ k ≤ 16, a.toNat = 2 ^ k) ∧ DeclaresAlignment sampleHeader.kvPairs a ∧
      SizesExact v.wireFormat sampleHeader ∧
      IsLeast {m : Nat | a.toNat ∣ m ∧ unboundedHeaderSize v.wireFormat sampleHeader ≤ m}
        sampleHeader.dataSectionStart.toNat :=
  parseGgufReader_alignment sampleFile sampleHeader (by decide) rfl

end PestiGguf
