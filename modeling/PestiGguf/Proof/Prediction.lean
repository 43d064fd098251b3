import PestiGguf.Proof.Encoding
import PestiGguf.Proof.Agreement

/-!
# Predicted sizes against streams

The parser's prediction for a pair it has read is what it read, but for arrays
of `Bfloat16` (`readKvPair_size_iff`). The writer's for a header is the
position it reaches, but for arrays whose count is not 8 bytes wide, and arrays
of `Float64` or of arrays, whose elements are taken to be 4 bytes
(`emitHeader_size_iff`).
-/

namespace PestiGguf

open Codec Codec.Reader Codec.Emit Spec

/-! ## Pairs that were read -/

theorem bfloat16Count_le {f : GgufWireFormat} {t : GgufValueType} {v : GgufKvValue} {p : List UInt8}
    (h : Payload f t v p) : 2 * bfloat16Count v ≤ p.length := by
  cases h with
  | scalar h => cases h <;> exact Nat.zero_le _
  | string h => exact Nat.zero_le _
  | array t _ h =>
    rw [bfloat16Count_elements h]
    split
    · rename_i e
      have hl := length_elements h (e ▸ by decide)
      rw [e, scalarWidth] at hl
      simp only [List.length_append]
      omega
    · exact Nat.zero_le _

/-- The size of a pair that was read is what was consumed, unless it is an array
of `Bfloat16` that is not empty. -/
theorem readKvPair_size_iff (f : GgufWireFormat) (hf : f = .v2 ∨ f = .v3) (b : List UInt8)
    (hb : b.length < 2 ^ 64) (kv : GgufKvPair) (hok : (readKvPair f b).result = .ok kv) :
    (kv.rawByteSizeForFormat f).toNat = (readKvPair f).consumed b ↔ bfloat16Array kv.value = false := by
  obtain ⟨hrec, hle⟩ := (recognises_readKvPair f).word hok
  have hlen : (b.take ((readKvPair f).consumed b)).length = (readKvPair f).consumed b :=
    List.length_take_of_le hle
  have hslack : arraySlack f kv.value = 0 := by
    rcases hf with rfl | rfl <;> cases kv.value <;> rfl
  have hcount : 2 * bfloat16Count kv.value ≤ (readKvPair f).consumed b := by
    obtain ⟨k, p, -, hp, hc⟩ := hrec
    have := bfloat16Count_le hp
    rw [← hlen, hc]
    simp only [List.length_append]
    omega
  rw [rawByteSize_kvRecord hrec, hlen, hslack, UInt64.toNat_ofNat', ← bfloat16Count_eq_zero]
  omega

/-- An array of two strings, before another byte. -/
theorem readKvPair_size_sample :
    ((⟨"k", .array, .array [.string "a", .string "bc"]⟩ : GgufKvPair).rawByteSizeForFormat .v2).toNat =
      (readKvPair .v2).consumed (leU32.enc 1 ++ [0x6B] ++ leU32.enc 9 ++ leU32.enc 8 ++ leU64.enc 2 ++
        leU32.enc 1 ++ [0x61] ++ leU32.enc 2 ++ [0x62, 0x63] ++ [8]) :=
  (readKvPair_size_iff .v2 (.inl rfl) _ (by decide) ⟨"k", .array, .array [.string "a", .string "bc"]⟩ rfl).mpr rfl

/-- An array of one `Bfloat16`. -/
def bfloat16Sample : List UInt8 :=
  leU64.enc 1 ++ [0x6B] ++ leU32.enc 9 ++ (leU32.enc 15 ++ leU64.enc 1 ++ [0x80, 0x3F])

/-- Its element is taken to be 4 bytes, and is 2. -/
theorem readKvPair_size_bfloat16 : ¬ ∀ (f : GgufWireFormat) (b : List UInt8) (kv : GgufKvPair),
    f = .v2 ∨ f = .v3 → (readKvPair f b).result = .ok kv →
      (kv.rawByteSizeForFormat f).toNat = (readKvPair f).consumed b := by
  intro h
  have hsize := h .v3 bfloat16Sample ⟨"k", .array, .array [.bfloat16 0x3F800000]⟩ (.inr rfl) rfl
  exact absurd hsize (by decide +kernel)

/-! ## Values that were written -/

namespace Spec

mutual

/-- The bytes the writer emits for a value of one type at every depth. -/
def encodedSize (f : GgufWireFormat) : GgufKvValue → Nat
  | .array arr => 4 + f.arrayCountWidth.bytes.toNat + encodedSizes f arr
  | .string s => f.stringWidth.bytes.toNat + s.utf8ByteSize
  | v => scalarWidth v.valueType

def encodedSizes (f : GgufWireFormat) : List GgufKvValue → Nat
  | [] => 0
  | v :: vs => encodedSize f v + encodedSizes f vs

end

/-- What an element is predicted too large by: a `Float64` and an array are
taken to be 4 bytes. -/
def elementMiscount (f : GgufWireFormat) : GgufKvValue → Int
  | .float64 _ => -4
  | .array arr => 4 - encodedSize f (.array arr)
  | _ => 0

/-- What a value is predicted too large by. The count of an array is taken to be
8 bytes. -/
def miscount (f : GgufWireFormat) : GgufKvValue → Int
  | .array arr => 8 - f.arrayCountWidth.bytes.toNat + (arr.map (elementMiscount f)).sum
  | _ => 0

end Spec

theorem encodedSizes_eq (f : GgufWireFormat) (vs : List GgufKvValue) :
    encodedSizes f vs = (vs.map (encodedSize f)).sum := by
  induction vs with
  | nil => rfl
  | cons v vs ih => rw [encodedSizes, ih, List.map_cons, List.sum_cons]

theorem encodedSize_scalar {f : GgufWireFormat} {t : GgufValueType} {v : GgufKvValue} {c : List UInt8}
    (h : Scalar t v c) : encodedSize f v = c.length := by
  rw [length_scalar h]
  cases h <;> rfl

theorem length_of_emits {f : GgufWireFormat} {v : GgufKvValue} (h : Everywhere OneType v) {p : Nat}
    {c : List UInt8} (hw : (writeKvValue v.valueType v f).Emits p () c) : c.length = encodedSize f v := by
  induction h generalizing p c with
  | leaf hv _ =>
    rcases emits_leaf hv hw with hS | ⟨s, rfl, rfl⟩
    · exact (encodedSize_scalar hS).symm
    · rw [List.length_append, length_lenField, length_asBytes, encodedSize]
  | @array arr h1 _ ih =>
    obtain ⟨q, e, he, rfl⟩ := emits_array hw
    have hlen : e.length = (arr.map (encodedSize f)).sum := by
      refine length_forM (fun v hv _ _ hw => ?_) he
      rw [← h1 v hv] at hw
      exact ih v hv hw
    have h4 : (leU32.enc (elementTag arr).toU32).length = 4 := leU32.length_enc _
    rw [List.length_append, List.length_append, length_lenField, hlen, h4, encodedSize, encodedSizes_eq,
      Nat.add_assoc]

/-! ## What is predicted for them -/

/-- What an element of this type is taken to be, strings apart. -/
def elementSize : GgufValueType → Nat
  | .uint8 | .int8 | .bool | .int8Array | .uint8Array => 1
  | .uint16 | .int16 | .float16 => 2
  | .uint64 | .int64 => 8
  | _ => 4

theorem elementSize_eq {f : GgufWireFormat} {v : GgufKvValue} (hs : v.valueType ≠ .string)
    (hb : v.valueType ∉ [GgufValueType.bfloat16, .int8Array, .uint8Array]) :
    (elementSize v.valueType : Int) = encodedSize f v + elementMiscount f v := by
  cases v with
  | string => exact absurd rfl hs
  | bfloat16 | int8Array | uint8Array => simp [GgufKvValue.valueType] at hb
  | array arr =>
    rw [elementMiscount]
    show (4 : Int) = _
    omega
  | _ => rfl

theorem rawByteSize_elementSize {arr : List GgufKvValue} (hs : elementTag arr ≠ .string) (n : UInt64) :
    (GgufKvValue.array arr).rawByteSizeWithStrWidth n =
      UInt64.ofNat (4 + 8 + arr.length * elementSize (elementTag arr)) := by
  have hsize (k : UInt64) (hk : k = UInt64.ofNat (elementSize (elementTag arr))) :
      4 + 8 + UInt64.ofNat arr.length * k =
        UInt64.ofNat (4 + 8 + arr.length * elementSize (elementTag arr)) := by
    rw [hk, UInt64.ofNat_add, UInt64.ofNat_mul]
    rfl
  cases arr with
  | nil => rfl
  | cons v arr =>
    have htag : elementTag (v :: arr) = v.valueType := rfl
    rw [htag] at hs hsize ⊢
    rw [GgufKvValue.rawByteSizeWithStrWidth]
    cases v with
    | string => exact absurd rfl hs
    | _ => exact hsize _ rfl

theorem rawByteSize_strings (f : GgufWireFormat) {arr : List GgufKvValue} (h : ∀ v ∈ arr, v.valueType = .string) :
    (arr.map fun v =>
        match v with
        | .string s => f.stringWidth.bytes + UInt64.ofNat s.utf8ByteSize
        | _ => 0).sum = UInt64.ofNat (arr.map (encodedSize f)).sum ∧
      (arr.map (elementMiscount f)).sum = 0 := by
  induction arr with
  | nil => exact ⟨rfl, rfl⟩
  | cons v vs ih =>
    rw [List.forall_mem_cons] at h
    obtain ⟨hsize, hmis⟩ := ih h.2
    cases v with
    | string s =>
      simp only [List.map_cons, List.sum_cons, hsize, hmis, encodedSize, UInt64.ofNat_add, UInt64.ofNat_toNat,
        true_and]
      rfl
    | _ => cases h.1

/-- An array of elements that are all of the predicted size, but for their
miscounts. -/
theorem rawByteSize_array {f : GgufWireFormat} {arr : List GgufKvValue} (h1 : OneType (.array arr))
    (hb : elementTag arr ∉ [GgufValueType.bfloat16, .int8Array, .uint8Array]) :
    ∃ m : Nat, (GgufKvValue.array arr).rawByteSizeWithStrWidth f.stringWidth.bytes = UInt64.ofNat m ∧
      (m : Int) = encodedSize f (.array arr) + miscount f (.array arr) := by
  rw [encodedSize, encodedSizes_eq, miscount]
  by_cases hs : elementTag arr = .string
  · rw [OneType, hs] at h1
    obtain ⟨hsize, hmis⟩ := rawByteSize_strings f h1
    refine ⟨(arr.map (encodedSize f)).sum + 4 + 8, ?_, by rw [hmis]; omega⟩
    rw [UInt64.ofNat_add, UInt64.ofNat_add, ← hsize]
    cases arr with
    | nil => cases hs
    | cons v arr =>
      cases v with
      | string => rfl
      | _ => cases hs
  · refine ⟨_, rawByteSize_elementSize hs _, ?_⟩
    have hsum (vs : List GgufKvValue) (hvs : ∀ v ∈ vs, v.valueType = elementTag arr) :
        (vs.length * elementSize (elementTag arr) : Int) =
          (vs.map (encodedSize f)).sum + (vs.map (elementMiscount f)).sum := by
      induction vs with
      | nil => simp
      | cons v vs ih =>
        rw [List.forall_mem_cons] at hvs
        have hv := elementSize_eq (f := f) (v := v) (hvs.1 ▸ hs) (hvs.1 ▸ hb)
        rw [hvs.1] at hv
        have := ih hvs.2
        simp only [List.length_cons, List.map_cons, List.sum_cons, Int.natCast_add, Int.natCast_one]
        rw [Int.add_mul, Int.one_mul, this, hv]
        omega
    have := hsum arr h1
    simp only [Int.natCast_add, Int.natCast_mul]
    omega

/-- A type that was written is none of those the writer refuses. -/
theorem not_refused_of_emits {f : GgufWireFormat} {t : GgufValueType} {v : GgufKvValue} {p : Nat}
    {c : List UInt8} (hw : (writeKvValue t v f).Emits p () c) :
    t ∉ [GgufValueType.bfloat16, .int8Array, .uint8Array] := by
  cases t with
  | bfloat16 | int8Array | uint8Array =>
    rw [writeKvValue_scalar (by decide) (by decide)] at hw
    exact absurd hw emits_fail
  | _ => simp

theorem rawByteSize_of_emits {f : GgufWireFormat} {v : GgufKvValue} (h : Everywhere OneType v) {p : Nat}
    {c : List UInt8} (hw : (writeKvValue v.valueType v f).Emits p () c) :
    ∃ m : Nat, v.rawByteSizeWithStrWidth f.stringWidth.bytes = UInt64.ofNat m ∧
      (m : Int) = c.length + miscount f v := by
  rw [length_of_emits h hw]
  cases v with
  | array arr =>
    refine rawByteSize_array h.here ?_
    obtain ⟨q, e, he, -⟩ := emits_array hw
    cases arr with
    | nil => decide
    | cons u us =>
      obtain ⟨d, _, hd, -⟩ := emits_forM_cons.mp he
      exact not_refused_of_emits hd
  | string s =>
    refine ⟨f.stringWidth.bytes.toNat + s.utf8ByteSize, ?_, (Int.add_zero _).symm⟩
    rw [UInt64.ofNat_add, UInt64.ofNat_toNat]
    rfl
  | int8Array | uint8Array | bfloat16 => exact absurd hw emits_fail
  | _ => exact ⟨_, rfl, rfl⟩

/-! ## Headers that were written -/

theorem miscount_le (f : GgufWireFormat) (v : GgufKvValue) : miscount f v ≤ 4 := by
  cases v with
  | array arr =>
    have helem (u : GgufKvValue) : elementMiscount f u ≤ 0 := by
      cases u with
      | array us =>
        rw [elementMiscount, encodedSize]
        omega
      | float64 => show (-4 : Int) ≤ 0; decide
      | _ => exact Int.le_refl 0
    have hsum : (arr.map (elementMiscount f)).sum ≤ 0 := by
      induction arr with
      | nil => exact Int.le_refl 0
      | cons u us ih =>
        rw [List.map_cons, List.sum_cons]
        exact Int.add_nonpos (helem u) ih
    have hw : 4 ≤ f.arrayCountWidth.bytes.toNat := by cases f.arrayCountWidth <;> decide
    rw [miscount]
    omega
  | _ => show (0 : Int) ≤ 4; decide

theorem rawByteSize_kvPair_of_emits {f : GgufWireFormat} {kv : GgufKvPair} (h : TypeConsistent kv) {p : Nat}
    {c : List UInt8} (hw : (writeKvPair kv f).Emits p () c) :
    ∃ m : Nat, kv.rawByteSizeForFormat f = UInt64.ofNat m ∧ (m : Int) = c.length + miscount f kv.value ∧
      m ≤ 2 * c.length := by
  obtain ⟨q, e, he, rfl⟩ := emits_kvPair hw
  rw [h.valueType] at he
  obtain ⟨m, hm, hsize⟩ := rawByteSize_of_emits h.oneType he
  have h4 : (leU32.enc kv.valueType.toU32).length = 4 := leU32.length_enc _
  have hmis := miscount_le f kv.value
  refine ⟨f.keyWidth.bytes.toNat + kv.key.utf8ByteSize + 4 + m, ?_, ?_, ?_⟩
  · rw [UInt64.ofNat_add, UInt64.ofNat_add, UInt64.ofNat_add, UInt64.ofNat_toNat, ← hm]
    rfl
  · simp only [List.length_append, length_lenField, length_asBytes, h4]
    push_cast
    omega
  · simp only [List.length_append, length_lenField, length_asBytes, h4]
    omega

theorem sum_rawByteSize_of_emits {f : GgufWireFormat} {kvs : List GgufKvPair} (h : ∀ kv ∈ kvs, TypeConsistent kv)
    {p : Nat} {c : List UInt8} (hw : (forM kvs (writeKvPair · f)).Emits p () c) :
    ∃ m : Nat, (kvs.map (·.rawByteSizeForFormat f)).sum = UInt64.ofNat m ∧
      (m : Int) = c.length + (kvs.map fun kv => miscount f kv.value).sum ∧ m ≤ 2 * c.length := by
  induction kvs generalizing p c with
  | nil =>
    obtain rfl := emits_forM_nil.mp hw
    exact ⟨0, rfl, rfl, Nat.le_refl 0⟩
  | cons kv kvs ih =>
    rw [List.forall_mem_cons] at h
    obtain ⟨d, ds, hd, hds, rfl⟩ := emits_forM_cons.mp hw
    obtain ⟨m, hm, hsize, hle⟩ := rawByteSize_kvPair_of_emits h.1 hd
    obtain ⟨n, hn, hsizes, hles⟩ := ih h.2 hds
    refine ⟨m + n, by rw [List.map_cons, List.sum_cons, hm, hn, UInt64.ofNat_add], ?_, ?_⟩
    · rw [List.map_cons, List.sum_cons, List.length_append]
      push_cast
      omega
    · rw [List.length_append]
      omega

namespace Spec

/-- The predicted size of a header is the position reached after it, and its
padding ends where that position, rounded up, is. -/
structure PredictsPosition (w : GgufWriter) (hd : List UInt8) : Prop where
  size : 4 + 4 + w.wireFormat.headerCountWidth.bytes + w.wireFormat.headerCountWidth.bytes +
    w.calculateKvSectionSize + w.calculateTensorSectionSize = UInt64.ofNat hd.length
  dataStart : w.dataStart = GgufWriter.alignUp (UInt64.ofNat hd.length) w.alignment
  padding : hd.length + paddingLength w.dataStart hd.length = w.dataStart.toNat

end Spec

/-- The writer predicts the position exactly where the miscounts of the arrays
sum to nothing. -/
theorem emitHeader_size_iff (w : GgufWriter) (hkv : ∀ kv ∈ w.kvPairs, TypeConsistent kv) (hd : List UInt8)
    (hw : w.emitHeader.Emits 0 () hd) (hlt : hd.length < 2 ^ 63) :
    PredictsPosition w hd ↔ (w.kvPairs.map fun kv => miscount w.wireFormat kv.value).sum = 0 := by
  obtain ⟨q₁, q₂, k, t, hk, ht, rfl⟩ := emits_header hw
  obtain ⟨m, hm, hsum, hle⟩ := sum_rawByteSize_of_emits hkv hk
  have hsize := headerSize_of_sum (w := w) hm (sum_rawByteSize_tensorInfos ht)
  have hlen : (fixedFields w ++ (k ++ t)).length =
      8 + 2 * w.wireFormat.headerCountWidth.bytes.toNat + k.length + t.length := by
    rw [List.length_append, List.length_append, length_fixedFields, Nat.add_assoc _ k.length]
  rw [hlen] at hlt
  -- neither the predicted size nor the position wraps
  have hm64 : 8 + 2 * w.wireFormat.headerCountWidth.bytes.toNat + m + t.length < 2 ^ 64 := by omega
  have hpos : (UInt64.ofNat (fixedFields w ++ (k ++ t)).length).toNat = (fixedFields w ++ (k ++ t)).length :=
    UInt64.toNat_ofNat_of_lt' (by rw [hlen]; exact Nat.lt_of_lt_of_le hlt (by decide))
  have hiff : 4 + 4 + w.wireFormat.headerCountWidth.bytes + w.wireFormat.headerCountWidth.bytes +
      w.calculateKvSectionSize + w.calculateTensorSectionSize = UInt64.ofNat (fixedFields w ++ (k ++ t)).length ↔
        (w.kvPairs.map fun kv => miscount w.wireFormat kv.value).sum = 0 := by
    rw [hsize, ← UInt64.toNat_inj, hpos, UInt64.toNat_ofNat_of_lt' hm64, hlen]
    omega
  constructor
  · exact fun h => hiff.mp h.size
  · intro h0
    have hs := hiff.mpr h0
    have hstart : w.dataStart = GgufWriter.alignUp (UInt64.ofNat (fixedFields w ++ (k ++ t)).length) w.alignment :=
      congrArg (GgufWriter.alignUp · w.alignment) hs
    refine ⟨hs, hstart, ?_⟩
    have hle := le_roundUp w.alignment.toNat (fixedFields w ++ (k ++ t)).length
    rw [paddingLength_eq (by omega), hstart, toNat_alignUp (by omega), hpos]
    omega

theorem emitHeader_size_sample : PredictsPosition sampleWriter (sampleWriter.emitHeader 0).2 := by
  have hw : sampleWriter.emitHeader.Emits 0 () (sampleWriter.emitHeader 0).2 :=
    Prod.ext (by decide +kernel) rfl
  exact (emitHeader_size_iff sampleWriter sampleWriter_consistent _ hw (by decide +kernel)).mpr rfl

/-- An array of one byte, in version 1. -/
def arrayV1 : GgufWriter :=
  (GgufWriter.new.withVersion 1).addKv ⟨"k", .array, .array [.uint8 1]⟩

/-- Its count has 4 bytes, and is taken to have 8. -/
theorem emitHeader_size_v1 : ¬ ∀ (w : GgufWriter) (hd : List UInt8), (∀ kv ∈ w.kvPairs, TypeConsistent kv) →
    w.emitHeader.Emits 0 () hd → PredictsPosition w hd := by
  intro h
  have hkv : ∀ kv ∈ arrayV1.kvPairs, TypeConsistent kv := by
    intro kv hm
    rw [List.mem_singleton.mp hm]
    refine ⟨rfl, .array (by show ∀ v ∈ _, _; decide) fun v hv => ?_⟩
    rw [List.mem_singleton.mp hv]
    exact .leaf nofun trivial
  have hw : arrayV1.emitHeader.Emits 0 () (arrayV1.emitHeader 0).2 := Prod.ext (by decide +kernel) rfl
  exact absurd (h arrayV1 _ hkv hw).size (by decide +kernel)

end PestiGguf
