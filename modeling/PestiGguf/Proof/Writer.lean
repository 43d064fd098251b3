import PestiGguf.Proof.Parser
import PestiGguf.Spec.Content
import PestiGguf.Spec.Value

/-!
# What the writer emits

On the values of the grammar, the writer fails exactly on half-precision
floats (`writeKvValue_fails`); it emits the normal form of the payload a
value was parsed from (`writes_kvValue`), which denotes the same value
(`Spec.Payload.normal`). So it emits a record of the grammar for each KV pair
and tensor info within the limits (`writes_kvPair`, `writes_tensorInfo`).
-/

namespace PestiGguf

open Codec Codec.Reader Codec.Emit Spec

/-! ## Fields -/

theorem writes_writeU32Le (v : UInt32) : (writeU32Le v).Writes (leU32.enc v) := writes_writeAll _

theorem writes_writeU64Le (v : UInt64) : (writeU64Le v).Writes (leU64.enc v) := writes_writeAll _

theorem writes_writeInt (n : Nat) (w : IntWidth) : (writeInt (UInt64.ofNat n) w).Writes (lenField w n) := by
  cases w with
  | u32 =>
    rw [writeInt, UInt64.toUInt32_ofNat']
    exact writes_writeU32Le _
  | u64 => exact writes_writeU64Le _

/-- A length and the bytes of a string. -/
theorem writes_text {w : IntWidth} {s : String} :
    (do
      writeInt (UInt64.ofNat (asBytes s).length) w
      .writeAll (asBytes s) : Output Unit).Writes (lenField w s.utf8ByteSize ++ asBytes s) :=
  (writes_writeInt _ w).bind (writes_writeAll _)

/-! ## Scalars -/

theorem Spec.Scalar.valueType {t : GgufValueType} {v : GgufKvValue} {c : List UInt8} (h : Scalar t v c) :
    v.valueType = t := by
  cases h <;> rfl

theorem toUInt8_bool (b : UInt8) : (b != 0).toUInt8 = normaliseBool b := by
  rw [normaliseBool]
  by_cases h : b = 0
  · subst h
    rfl
  · rw [if_neg h, bne_iff_ne.mpr h]
    rfl

theorem normaliseBool_ne_zero (b : UInt8) : (normaliseBool b != 0) = (b != 0) := by
  rw [normaliseBool]
  by_cases h : b = 0 <;> simp [h]

/-- The payload of a scalar as the writer writes it. -/
def normaliseScalar (t : GgufValueType) (c : List UInt8) : List UInt8 :=
  if t = .bool then c.map normaliseBool else c

theorem writes_kvValueScalar {t : GgufValueType} {v : GgufKvValue} {c : List UInt8} (h : Scalar t v c)
    (hv : isHalfFloat v = false) : (writeKvValueScalar t v).Writes (normaliseScalar t c) := by
  cases h with
  | bool b =>
    show (writeAll (byte.enc (b != 0).toUInt8) : Output Unit).Writes (byte.enc (normaliseBool b))
    rw [toUInt8_bool]
    exact writes_writeAll _
  | bfloat16 | float16 => cases hv
  | _ => exact writes_writeAll _

theorem writeKvValueScalar_fails {t : GgufValueType} {v : GgufKvValue} {c : List UInt8} (h : Scalar t v c)
    (hv : isHalfFloat v = true) (p : Nat) : (writeKvValueScalar t v).Fails p := by
  cases h with
  | bfloat16 | float16 => exact ⟨_, _, rfl⟩
  | _ => cases hv

theorem Spec.Scalar.normal {t : GgufValueType} {v : GgufKvValue} {c : List UInt8} (h : Scalar t v c) :
    Scalar t v (normaliseScalar t c) := by
  cases h with
  | bool b => exact normaliseBool_ne_zero b ▸ Scalar.bool (normaliseBool b)
  | uint8 v => exact .uint8 v
  | int8 v => exact .int8 v
  | uint16 v => exact .uint16 v
  | int16 v => exact .int16 v
  | uint32 v => exact .uint32 v
  | int32 v => exact .int32 v
  | float32 v => exact .float32 v
  | uint64 v => exact .uint64 v
  | int64 v => exact .int64 v
  | float64 v => exact .float64 v
  | bfloat16 v => exact .bfloat16 v
  | float16 v => exact .float16 v

theorem writeKvValue_scalar {t : GgufValueType} (hs : t ≠ .string) (ha : t ≠ .array) (v : GgufKvValue)
    (f : GgufWireFormat) : writeKvValue t v f = writeKvValueScalar t v := by
  rw [writeKvValue]
  · exact hs
  · exact ha

/-! ## Elements -/

theorem Spec.Element.valueType {w : IntWidth} {t : GgufValueType} {v : GgufKvValue} {c : List UInt8}
    (h : Element w t v c) : v.valueType = t := by
  cases h with
  | scalar _ h => exact h.valueType
  | string _ => rfl

theorem Spec.Element.isHalfFloat {w : IntWidth} {t : GgufValueType} {v : GgufKvValue} {c : List UInt8}
    (h : Element w t v c) : isHalfFloat v = (t == .bfloat16 || t == .float16) := by
  cases h with
  | scalar _ h => cases h <;> rfl
  | string _ => rfl

theorem writes_element {f : GgufWireFormat} {t : GgufValueType} {v : GgufKvValue} {c : List UInt8}
    (h : Element f.stringWidth t v c) (hv : isHalfFloat v = false) :
    (writeKvValue t v f).Writes (normaliseScalar t c) := by
  cases h with
  | scalar ht h =>
    rw [writeKvValue_scalar (by rintro rfl; cases h) (by rintro rfl; cases h)]
    exact writes_kvValueScalar h hv
  | string h =>
    rw [writeKvValue, h.2]
    exact writes_text

theorem writeElement_fails {f : GgufWireFormat} {t : GgufValueType} {v : GgufKvValue} {c : List UInt8}
    (h : Element f.stringWidth t v c) (hv : isHalfFloat v = true) (p : Nat) :
    (writeKvValue t v f).Fails p := by
  cases h with
  | scalar ht h =>
    rw [writeKvValue_scalar (by rintro rfl; cases h) (by rintro rfl; cases h)]
    exact writeKvValueScalar_fails h hv p
  | string h => cases hv

theorem Spec.Element.normal {w : IntWidth} {t : GgufValueType} {v : GgufKvValue} {c : List UInt8}
    (h : Element w t v c) : Element w t v (normaliseScalar t c) := by
  cases h with
  | scalar ht h => exact .scalar ht h.normal
  | string h => exact .string h

theorem normaliseScalar_append (t : GgufValueType) (c d : List UInt8) :
    normaliseScalar t (c ++ d) = normaliseScalar t c ++ normaliseScalar t d := by
  rw [normaliseScalar, normaliseScalar, normaliseScalar]
  split
  · exact List.map_append
  · rfl

theorem writes_elements {f : GgufWireFormat} {t : GgufValueType} {arr : List GgufKvValue} {c : List UInt8}
    (h : Many (Element f.stringWidth t) arr c) (hv : ∀ v ∈ arr, isHalfFloat v = false) :
    (writeKvElements t arr f).Writes (normaliseScalar t c) := by
  induction h with
  | nil =>
    rw [writeKvElements, normaliseScalar, List.map_nil, ite_self]
    exact writes_pure
  | cons hR _ ih =>
    rw [writeKvElements, normaliseScalar_append]
    exact (writes_element hR (hv _ List.mem_cons_self)).bind
      (ih fun v hm => hv v (List.mem_cons_of_mem _ hm))

theorem normal_elements {w : IntWidth} {t : GgufValueType} {arr : List GgufKvValue} {c : List UInt8}
    (h : Many (Element w t) arr c) : Many (Element w t) arr (normaliseScalar t c) := by
  induction h with
  | nil =>
    rw [normaliseScalar, List.map_nil, ite_self]
    exact .nil
  | cons hR _ ih =>
    rw [normaliseScalar_append]
    exact .cons hR.normal ih

/-! ## Payloads -/

/-- The tag of an array, its count, and whatever the elements write. -/
theorem writes_array {f : GgufWireFormat} {arr : List GgufKvValue} {c : List UInt8}
    (h : (writeKvElements (elementTag arr) arr f).Writes c) :
    (writeKvValue .array (.array arr) f).Writes
      (leU32.enc (elementTag arr).toU32 ++ (lenField f.arrayCountWidth arr.length ++ c)) := by
  rw [writeKvValue]
  exact (writes_writeU32Le _).bind ((writes_writeInt _ _).bind h)

theorem writeKvElements_eq (t : GgufValueType) (f : GgufWireFormat) (arr : List GgufKvValue) :
    writeKvElements t arr f = forM arr (writeKvValue t · f) := by
  induction arr with
  | nil => rw [writeKvElements, List.forM_nil]
  | cons v arr ih => rw [writeKvElements, List.forM_cons, ih]

/-- What an array writes, where it does. -/
theorem emits_array {f : GgufWireFormat} {arr : List GgufKvValue} {p : Nat} {c : List UInt8}
    (hw : (writeKvValue .array (.array arr) f).Emits p () c) :
    ∃ q e, (forM arr (writeKvValue (elementTag arr) · f)).Emits q () e ∧
      c = leU32.enc (elementTag arr).toU32 ++ (lenField f.arrayCountWidth arr.length ++ e) := by
  rw [writeKvValue, (writes_writeU32Le _ p).bind_iff] at hw
  obtain ⟨_, hw, rfl⟩ := hw
  rw [(writes_writeInt _ _ _).bind_iff, writeKvElements_eq] at hw
  obtain ⟨e, he, rfl⟩ := hw
  exact ⟨_, e, he, rfl⟩

theorem length_lenField (w : IntWidth) (n : Nat) : (lenField w n).length = w.bytes.toNat := by
  cases w with
  | u32 => exact leU32.length_enc _
  | u64 => exact leU64.length_enc _

theorem ofLE_lenField {w : IntWidth} {n : Nat} (h : n < limit w) : ofLE (lenField w n) = n := by
  cases w with
  | u32 =>
    show ofLE (toLE 4 (UInt32.ofNat n).toNat) = n
    rw [UInt32.toNat_ofNat_of_lt' h]
    exact ofLE_toLE h
  | u64 =>
    show ofLE (toLE 8 (UInt64.ofNat n).toNat) = n
    rw [UInt64.toNat_ofNat_of_lt' h]
    exact ofLE_toLE h

theorem toU32_inj {t t' : GgufValueType} (h : t.toU32 = t'.toU32) : t = t' := by
  have := fromU32_toU32 t
  rw [h, fromU32_toU32] at this
  exact (Option.some.inj this).symm

/-- The normal form of an array's payload, from its parts. -/
theorem normaliseArray_word {w : IntWidth} {t : GgufValueType} {n : Nat} {c : List UInt8} (hn : n < limit w) :
    normaliseArray w.bytes.toNat (leU32.enc t.toU32 ++ (lenField w n ++ c)) =
      if n = 0 then leU32.enc GgufValueType.uint32.toU32 ++ (lenField w n ++ c)
      else leU32.enc t.toU32 ++ (lenField w n ++ normaliseScalar t c) := by
  have h4 : (leU32.enc t.toU32).length = 4 := leU32.length_enc _
  have hw := length_lenField w n
  have htag : (leU32.enc t.toU32 ++ (lenField w n ++ c)).take 4 = leU32.enc t.toU32 := by
    rw [← h4, List.take_left]
  have hdrop : (leU32.enc t.toU32 ++ (lenField w n ++ c)).drop 4 = lenField w n ++ c := by
    rw [← h4, List.drop_left]
  simp only [normaliseArray, ← List.drop_drop, htag, hdrop, ← hw, List.take_left, List.drop_left,
    ofLE_lenField hn, leU32.enc_inj]
  split
  · rfl
  · rw [normaliseScalar]
    by_cases ht : t = .bool
    · simp [ht]
    · rw [if_neg ht, if_neg fun e => ht (toU32_inj e)]

theorem normalisePayload_scalar {f : GgufWireFormat} {t : GgufValueType} {v : GgufKvValue} {c : List UInt8}
    (h : Scalar t v c) : normalisePayload f t c = normaliseScalar t c := by
  cases h <;> rfl

/-- The type the writer declares for the elements of an array. -/
theorem elementTag_of_elements {w : IntWidth} {t : GgufValueType} {v : GgufKvValue} {arr : List GgufKvValue}
    {c : List UInt8} (h : Many (Element w t) (v :: arr) c) : elementTag (v :: arr) = t := by
  cases h with
  | cons hR _ => exact hR.valueType

theorem halfFloats_elements {w : IntWidth} {t : GgufValueType} {arr : List GgufKvValue} {c : List UInt8}
    (h : Many (Element w t) arr c) (v : GgufKvValue) (hv : v ∈ arr) :
    isHalfFloat v = (t == .bfloat16 || t == .float16) := by
  induction h with
  | nil => cases hv
  | cons hR _ ih =>
    rcases List.mem_cons.mp hv with rfl | hv
    · exact hR.isHalfFloat
    · exact ih hv

/-- The writer emits the normal form of a payload. -/
theorem writes_kvValue {f : GgufWireFormat} {t : GgufValueType} {v : GgufKvValue} {p : List UInt8}
    (h : Payload f t v p) (hv : halfFloats v = false) :
    (writeKvValue t v f).Writes (normalisePayload f t p) := by
  cases h with
  | scalar h =>
    rw [writeKvValue_scalar (by rintro rfl; cases h) (by rintro rfl; cases h), normalisePayload_scalar h]
    apply writes_kvValueScalar h
    cases h <;> exact hv
  | string h =>
    rw [writeKvValue, h.2]
    exact writes_text
  | @array t arr c hn h =>
    rw [normalisePayload, normaliseArray_word hn]
    cases arr with
    | nil =>
      cases h
      exact writes_array (writes_elements .nil nofun)
    | cons v arr =>
      rw [if_neg (by simp)]
      have htag := elementTag_of_elements h
      rw [← htag] at h ⊢
      refine writes_array (writes_elements h fun u hu => ?_)
      -- the elements are all of one type, so one that is half-precision is not alone
      rw [halfFloats_elements h u hu]
      by_contra ht
      rw [Bool.not_eq_false] at ht
      refine Bool.false_ne_true (hv.symm.trans ?_)
      rw [halfFloats, Bool.and_eq_true, List.all_eq_true]
      exact ⟨rfl, fun u hu => (halfFloats_elements h u hu).trans ht⟩

/-- The writer fails on half-precision floats. -/
theorem writeKvValue_fails {f : GgufWireFormat} {t : GgufValueType} {v : GgufKvValue} {p : List UInt8}
    (h : Payload f t v p) (hv : halfFloats v = true) (q : Nat) : (writeKvValue t v f).Fails q := by
  cases h with
  | scalar h =>
    rw [writeKvValue_scalar (by rintro rfl; cases h) (by rintro rfl; cases h)]
    refine writeKvValueScalar_fails h ?_ q
    cases h <;> exact hv
  | string h => cases hv
  | @array t arr c hn h =>
    rw [halfFloats, Bool.and_eq_true, List.all_eq_true] at hv
    cases arr with
    | nil => cases hv.1
    | cons v arr =>
      have htag := elementTag_of_elements h
      rw [writeKvValue]
      refine (writes_writeU32Le _).bind_fails (fun q => (writes_writeInt _ _).bind_fails (fun q => ?_) q) q
      show (writeKvElements (elementTag (v :: arr)) (v :: arr) f).Fails q
      rw [htag, writeKvElements]
      cases h with
      | cons hR _ => exact (writeElement_fails hR (hv.2 _ List.mem_cons_self) q).bind

/-- The normal form of a payload denotes the same value. -/
theorem Spec.Payload.normal {f : GgufWireFormat} {t : GgufValueType} {v : GgufKvValue} {p : List UInt8}
    (h : Payload f t v p) : Payload f t v (normalisePayload f t p) := by
  cases h with
  | scalar h =>
    rw [normalisePayload_scalar h]
    exact .scalar h.normal
  | string h => exact .string h
  | @array t arr c hn h =>
    rw [normalisePayload, normaliseArray_word hn]
    by_cases hz : arr.length = 0
    · rw [if_pos hz]
      obtain rfl := List.eq_nil_of_length_eq_zero hz
      cases h
      exact .array .uint32 hn .nil
    · rw [if_neg hz]
      exact .array t hn (normal_elements h)

/-! ## Records -/

theorem length_normaliseScalar (t : GgufValueType) (c : List UInt8) :
    (normaliseScalar t c).length = c.length := by
  rw [normaliseScalar]
  split
  · exact List.length_map _
  · rfl

theorem length_normalisePayload {f : GgufWireFormat} {t : GgufValueType} {v : GgufKvValue} {p : List UInt8}
    (h : Payload f t v p) : (normalisePayload f t p).length = p.length := by
  cases h with
  | scalar h => rw [normalisePayload_scalar h, length_normaliseScalar]
  | string h => rfl
  | array t hn h =>
    rw [normalisePayload, normaliseArray_word hn]
    split <;> simp [length_normaliseScalar, leU32]

/-- A key, the tag of the declared type, and whatever the value writes. -/
theorem writes_writeKvPair {f : GgufWireFormat} {kv : GgufKvPair} {p : List UInt8}
    (hp : (writeKvValue kv.valueType kv.value f).Writes p) :
    (writeKvPair kv f).Writes (lenField f.keyWidth kv.key.utf8ByteSize ++ asBytes kv.key ++
      (leU32.enc kv.valueType.toU32 ++ p)) := by
  rw [List.append_assoc]
  exact (writes_writeInt _ _).bind ((writes_writeAll _).bind ((writes_writeU32Le _).bind hp))

/-- What a pair writes, where it does. -/
theorem emits_kvPair {f : GgufWireFormat} {kv : GgufKvPair} {p : Nat} {c : List UInt8}
    (hw : (writeKvPair kv f).Emits p () c) : ∃ q e, (writeKvValue kv.valueType kv.value f).Emits q () e ∧
      c = lenField f.keyWidth kv.key.utf8ByteSize ++ asBytes kv.key ++ (leU32.enc kv.valueType.toU32 ++ e) := by
  rw [writeKvPair, (writes_writeInt _ _ p).bind_iff] at hw
  obtain ⟨_, hw, rfl⟩ := hw
  rw [(writes_writeAll _ _).bind_iff] at hw
  obtain ⟨_, hw, rfl⟩ := hw
  rw [(writes_writeU32Le _ _).bind_iff] at hw
  obtain ⟨e, he, rfl⟩ := hw
  exact ⟨_, e, he, by simp only [List.append_assoc, length_asBytes]⟩

theorem writes_kvPair {f : GgufWireFormat} {kv : GgufKvPair} {k p : List UInt8}
    (hk : Text f.keyWidth kv.key k) (hp : Payload f kv.valueType kv.value p)
    (hv : halfFloats kv.value = false) :
    (writeKvPair kv f).Writes (k ++ (leU32.enc kv.valueType.toU32 ++ normalisePayload f kv.valueType p)) := by
  rw [hk.2]
  exact writes_writeKvPair (writes_kvValue hp hv)

theorem writeKvPair_fails {f : GgufWireFormat} {kv : GgufKvPair} {p : List UInt8}
    (hp : Payload f kv.valueType kv.value p) (hv : halfFloats kv.value = true) (q : Nat) :
    (writeKvPair kv f).Fails q :=
  (writes_writeInt _ _).bind_fails (fun q => (writes_writeAll _).bind_fails (fun q =>
    (writes_writeU32Le _).bind_fails (writeKvValue_fails hp hv) q) q) q

theorem writes_writeTensorInfo (f : GgufWireFormat) (t : GgufTensorInfo) :
    (writeTensorInfo t f).Writes (lenField f.tensorNameWidth t.name.utf8ByteSize ++ asBytes t.name ++
      (leU32.enc t.ndims ++ (t.shape.flatMap leU64.enc ++ (leU32.enc t.dtype ++ leU64.enc t.offset)))) := by
  rw [List.append_assoc]
  exact (writes_writeInt _ _).bind ((writes_writeAll _).bind ((writes_writeU32Le _).bind
    ((writes_forM fun _ _ => writes_writeU64Le _).bind ((writes_writeU32Le _).bind
      (writes_writeU64Le _)))))

theorem writes_tensorInfo {f : GgufWireFormat} {t : GgufTensorInfo} {c : List UInt8}
    (h : TensorRecord f t c) : (writeTensorInfo t f).Writes c := by
  obtain ⟨n, hn, -, rfl⟩ := h
  rw [hn.2]
  exact writes_writeTensorInfo f t

/-! ## Lists of records -/

theorem normalised_exists {f : GgufWireFormat} {kvs : List GgufKvPair} {c : List UInt8}
    (h : Many (KvRecord f) kvs c) : ∃ c', Normalised f kvs c c' := by
  induction h with
  | nil => exact ⟨[], .nil⟩
  | cons hR _ ih =>
    obtain ⟨k, p, hk, hp, rfl⟩ := hR
    obtain ⟨c', ih⟩ := ih
    exact ⟨_, .cons hk hp ih⟩

/-- The normal records denote the same KV pairs. -/
theorem Spec.Normalised.right {f : GgufWireFormat} {kvs : List GgufKvPair} {c c' : List UInt8}
    (h : Normalised f kvs c c') : Many (KvRecord f) kvs c' := by
  induction h with
  | nil => exact .nil
  | cons hk hp _ ih => exact .cons ⟨_, _, hk, hp.normal, rfl⟩ ih

theorem Spec.Normalised.length {f : GgufWireFormat} {kvs : List GgufKvPair} {c c' : List UInt8}
    (h : Normalised f kvs c c') : c'.length = c.length := by
  induction h with
  | nil => rfl
  | cons hk hp _ ih => simp [length_normalisePayload hp, ih]

theorem writes_kvPairs {f : GgufWireFormat} {kvs : List GgufKvPair} {c c' : List UInt8}
    (h : Normalised f kvs c c') (hv : ∀ kv ∈ kvs, halfFloats kv.value = false) :
    (forM kvs (writeKvPair · f)).Writes c' := by
  induction h with
  | nil => exact writes_forM_nil
  | cons hk hp _ ih =>
    exact writes_forM_cons (writes_kvPair hk hp (hv _ List.mem_cons_self))
      (ih fun kv hm => hv kv (List.mem_cons_of_mem _ hm))

theorem writeKvPairs_fails {f : GgufWireFormat} {kvs : List GgufKvPair} {c : List UInt8}
    (h : Many (KvRecord f) kvs c) {kv : GgufKvPair} (hm : kv ∈ kvs) (hv : halfFloats kv.value = true)
    (q : Nat) : (forM kvs (writeKvPair · f)).Fails q := by
  refine fails_forM hm (fun q => ?_) q
  obtain ⟨c, _, p, -, hp, -⟩ := h.exists_of_mem hm
  exact writeKvPair_fails hp hv q

theorem writes_tensorInfos {f : GgufWireFormat} {ts : List GgufTensorInfo} {c : List UInt8}
    (h : Many (TensorRecord f) ts c) : (forM ts (writeTensorInfo · f)).Writes c := by
  induction h with
  | nil => exact writes_forM_nil
  | cons hR _ ih => exact writes_forM_cons (writes_tensorInfo hR) ih

/-! ## Headers -/

theorem wireFormat_of_version {w : GgufWriter} {v : GgufVersion} (h : w.version = versionNumber v) :
    w.wireFormat = v.wireFormat := by
  rw [GgufWriter.wireFormat, h]
  cases v <;> rfl

theorem fixedFields_eq {w : GgufWriter} {v : GgufVersion} (h : w.version = versionNumber v) :
    fixedFields w = preamble v w.tensors.length w.kvPairs.length := by
  rw [fixedFields, wireFormat_of_version h, h, preamble]

/-- What is emitted for a header, where it is. -/
theorem emits_header {w : GgufWriter} {q : Nat} {hd : List UInt8} (hw : w.emitHeader.Emits q () hd) :
    ∃ q₁ q₂ k t, (forM w.kvPairs (writeKvPair · w.wireFormat)).Emits q₁ () k ∧
      (forM w.tensors (writeTensorInfo · w.wireFormat)).Emits q₂ () t ∧ hd = fixedFields w ++ (k ++ t) := by
  rw [GgufWriter.emitHeader] at hw
  rw [(writes_writeAll _ q).bind_iff] at hw
  obtain ⟨_, hw, rfl⟩ := hw
  rw [(writes_writeU32Le _ _).bind_iff] at hw
  obtain ⟨_, hw, rfl⟩ := hw
  rw [(writes_writeInt _ _ _).bind_iff] at hw
  obtain ⟨_, hw, rfl⟩ := hw
  rw [(writes_writeInt _ _ _).bind_iff] at hw
  obtain ⟨_, hw, rfl⟩ := hw
  obtain ⟨_, k, t, hk, ht, rfl⟩ := emits_bind.mp hw
  exact ⟨_, _, k, t, hk, ht, by simp only [fixedFields, List.append_assoc]⟩

/-- The fixed fields, then whatever the pairs and the tensors write. -/
theorem writes_header {w : GgufWriter} {k t : List UInt8} (hk : (forM w.kvPairs (writeKvPair · w.wireFormat)).Writes k)
    (ht : (forM w.tensors (writeTensorInfo · w.wireFormat)).Writes t) :
    w.emitHeader.Writes (fixedFields w ++ (k ++ t)) := by
  simp only [GgufWriter.emitHeader, fixedFields, List.append_assoc]
  exact (writes_writeAll _).bind ((writes_writeU32Le _).bind ((writes_writeInt _ _).bind
    ((writes_writeInt _ _).bind (hk.bind ht))))

/-- The writer emits a header of the grammar. -/
theorem writes_emitHeader {w : GgufWriter} {v : GgufVersion} {k k' t : List UInt8}
    (hver : w.version = versionNumber v) (hk : Normalised v.wireFormat w.kvPairs k k')
    (hv : ∀ kv ∈ w.kvPairs, halfFloats kv.value = false)
    (ht : Many (TensorRecord v.wireFormat) w.tensors t) :
    w.emitHeader.Writes (preamble v w.tensors.length w.kvPairs.length ++ (k' ++ t)) := by
  rw [← fixedFields_eq hver]
  rw [← wireFormat_of_version hver] at hk ht
  exact writes_header (writes_kvPairs hk hv) (writes_tensorInfos ht)

theorem emitHeader_fails {w : GgufWriter} {v : GgufVersion} {k : List UInt8}
    (hver : w.version = versionNumber v) (hk : Many (KvRecord v.wireFormat) w.kvPairs k)
    {kv : GgufKvPair} (hm : kv ∈ w.kvPairs) (hv : halfFloats kv.value = true) (q : Nat) :
    w.emitHeader.Fails q := by
  simp only [GgufWriter.emitHeader, wireFormat_of_version hver]
  refine (writes_writeAll _).bind_fails (fun q => (writes_writeU32Le _).bind_fails (fun q =>
    (writes_writeInt _ _).bind_fails (fun q => (writes_writeInt _ _).bind_fails (fun q => ?_) q) q) q) q
  exact (writeKvPairs_fails hk hm hv q).bind

/-! ## Padding -/

theorem emits_streamPosition (p : Nat) : streamPosition.Emits p (UInt64.ofNat p) [] :=
  emits_bind.mpr ⟨p, [], [], emits_position.mpr ⟨rfl, rfl⟩, emits_pure.mpr ⟨rfl, rfl⟩, rfl⟩

theorem emits_padTo (target : UInt64) (p : Nat) :
    (GgufWriter.padTo target).Emits p () (List.replicate (paddingLength target p) 0) := by
  refine emits_bind.mpr ⟨UInt64.ofNat p, [], _, emits_streamPosition p, ?_, rfl⟩
  rw [paddingLength]
  split
  · exact emits_writeAll.mpr rfl
  · exact emits_pure.mpr ⟨rfl, rfl⟩

theorem paddingLength_eq {target : UInt64} {p : Nat} (h : p < 2 ^ 64) :
    paddingLength target p = target.toNat - p := by
  have hp : (UInt64.ofNat p).toNat = p := UInt64.toNat_ofNat_of_lt' h
  rw [paddingLength]
  by_cases hlt : UInt64.ofNat p < target
  · rw [if_pos hlt, UInt64.toNat_sub_of_le _ _ (UInt64.le_of_lt hlt), hp]
  · rw [if_neg hlt]
    rw [UInt64.not_lt, UInt64.le_iff_toNat_le, hp] at hlt
    omega

end PestiGguf
