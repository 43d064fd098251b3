import PestiGguf.Framework.Layout
import PestiGguf.Proof.Writer

/-!
# Predicted sizes

The parser and the writer both compute the size of a header from its content
(`raw_byte_size_for_format`), and neither looks at the stream. The computed
size of a record is its length (`rawByteSize_kvRecord`,
`rawByteSize_tensorInfo`) but for two cases: an array of `Bfloat16`, and in
version 1 any array, whose count is taken to be 8 bytes wide (`arraySlack`).
So the data section starts at the length of the header, rounded up
(`toNat_computeDataSectionStart`, `toNat_dataStart_of_sum`).
-/

namespace PestiGguf

open Codec Codec.Reader Codec.Emit Spec

/-- A wrapping sum is that of the numbers. -/
theorem sum_toNat {α : Type} (f : α → UInt64) (l : List α) :
    (l.map f).sum = UInt64.ofNat (l.map fun a => (f a).toNat).sum := by
  induction l with
  | nil => rfl
  | cons a l ih =>
    rw [List.map_cons, List.map_cons, List.sum_cons, List.sum_cons, ih, UInt64.ofNat_add, UInt64.ofNat_toNat]

theorem toNat_sum {α : Type} (f : α → UInt64) (l : List α) :
    (l.map f).sum.toNat = (l.map fun a => (f a).toNat).sum % 2 ^ 64 := by
  rw [sum_toNat, UInt64.toNat_ofNat']

/-! ## Values -/

/-- The bytes of a scalar. -/
def scalarWidth : GgufValueType → Nat
  | .uint8 | .int8 | .bool => 1
  | .uint16 | .int16 | .bfloat16 | .float16 => 2
  | .uint32 | .int32 | .float32 => 4
  | .uint64 | .int64 | .float64 => 8
  | _ => 0

theorem length_scalar {t : GgufValueType} {v : GgufKvValue} {c : List UInt8} (h : Scalar t v c) :
    c.length = scalarWidth t := by
  cases h <;> exact FixedWidth.length_enc _ _

theorem rawByteSize_scalar {t : GgufValueType} {v : GgufKvValue} {c : List UInt8} (h : Scalar t v c)
    (n : UInt64) : v.rawByteSizeWithStrWidth n = UInt64.ofNat c.length := by
  rw [length_scalar h]
  cases h <;> rfl

theorem length_text {w : IntWidth} {s : String} {c : List UInt8} (h : Text w s c) :
    c.length = w.bytes.toNat + s.utf8ByteSize := by
  rw [h.2, List.length_append, length_lenField, length_asBytes]

theorem ofNat_length_text {w : IntWidth} {s : String} {c : List UInt8} (h : Text w s c) :
    UInt64.ofNat c.length = w.bytes + UInt64.ofNat s.utf8ByteSize := by
  rw [length_text h, UInt64.ofNat_add, UInt64.ofNat_toNat]

/-- The elements of an array of scalars. -/
theorem length_elements {w : IntWidth} {t : GgufValueType} {arr : List GgufKvValue} {c : List UInt8}
    (h : Many (Element w t) arr c) (ht : t ≠ .string) : c.length = arr.length * scalarWidth t := by
  induction h with
  | nil => rw [List.length_nil, List.length_nil, Nat.zero_mul]
  | cons hR _ ih =>
    cases hR with
    | scalar _ h => rw [List.length_append, ih, length_scalar h, List.length_cons, Nat.succ_mul, Nat.add_comm]
    | string _ => exact absurd rfl ht

/-- The elements of an array of strings. -/
theorem ofNat_length_strings {w : IntWidth} {arr : List GgufKvValue} {c : List UInt8}
    (h : Many (Element w .string) arr c) : UInt64.ofNat c.length =
      (arr.map fun v =>
        match v with
        | .string s => w.bytes + UInt64.ofNat s.utf8ByteSize
        | _ => 0).sum := by
  induction h with
  | nil => rfl
  | cons hR _ ih =>
    cases hR with
    | scalar _ h => cases h
    | string h =>
      rw [List.length_append, UInt64.ofNat_add, ih, ofNat_length_text h, List.map_cons, List.sum_cons]

/-- An array that holds a `Bfloat16`. -/
def bfloat16Array : GgufKvValue → Bool
  | .array arr => arr.any (·.valueType == .bfloat16)
  | _ => false

/-- How many it holds. -/
def bfloat16Count : GgufKvValue → Nat
  | .array arr => arr.countP (·.valueType == .bfloat16)
  | _ => 0

theorem bfloat16Count_eq_zero {v : GgufKvValue} : bfloat16Count v = 0 ↔ bfloat16Array v = false := by
  cases v with
  | array arr => simp [bfloat16Count, bfloat16Array, List.countP_eq_zero]
  | _ => exact iff_of_true rfl rfl

theorem valueType_of_elements {w : IntWidth} {t : GgufValueType} {arr : List GgufKvValue} {c : List UInt8}
    (h : Many (Element w t) arr c) : ∀ v ∈ arr, v.valueType = t := by
  intro v hv
  obtain ⟨_, he⟩ := h.exists_of_mem hv
  exact he.valueType

theorem bfloat16Count_elements {w : IntWidth} {t : GgufValueType} {arr : List GgufKvValue} {c : List UInt8}
    (h : Many (Element w t) arr c) :
    bfloat16Count (.array arr) = if t = .bfloat16 then arr.length else 0 := by
  have ht := valueType_of_elements h
  rw [bfloat16Count]
  split
  · rename_i e
    exact List.countP_eq_length.mpr fun v hv => by rw [ht v hv, e]; rfl
  · rename_i hne
    exact List.countP_eq_zero.mpr fun v hv => by rw [ht v hv]; simpa using hne

/-- The elements of an array: its count is taken to be 8 bytes, and a `Bfloat16`
to be 4. -/
theorem rawByteSize_elements {w : IntWidth} {t : GgufValueType} {arr : List GgufKvValue} {c : List UInt8}
    (h : Many (Element w t) arr c) : (GgufKvValue.array arr).rawByteSizeWithStrWidth w.bytes =
      UInt64.ofNat (4 + 8 + (c.length + 2 * bfloat16Count (.array arr))) := by
  rw [bfloat16Count_elements h]
  cases arr with
  | nil =>
    cases h
    split <;> rfl
  | cons v arr =>
    have hhead : (v :: arr).head?.map GgufKvValue.valueType = some t :=
      congrArg some (valueType_of_elements h v List.mem_cons_self)
    have fixed {m : Nat} {k : UInt64} (hm : (v :: arr).length * k.toNat = m) :
        4 + 8 + UInt64.ofNat (v :: arr).length * k = UInt64.ofNat (4 + 8 + m) := by
      rw [← hm, UInt64.ofNat_add, UInt64.ofNat_mul, UInt64.ofNat_toNat]
      rfl
    rw [GgufKvValue.rawByteSizeWithStrWidth, hhead]
    cases t with
    | string =>
      rw [if_neg (by decide)]
      show _ = UInt64.ofNat (4 + 8 + c.length)
      rw [UInt64.ofNat_add, ofNat_length_strings h, UInt64.add_comm (UInt64.ofNat (4 + 8))]
      exact UInt64.add_assoc _ 4 8
    | bfloat16 =>
      refine fixed ?_
      rw [if_pos rfl, length_elements h (by decide), scalarWidth, Nat.mul_comm 2, ← Nat.mul_add]
      rfl
    | uint8 | int8 | uint16 | int16 | uint32 | int32 | float32 | uint64 | int64 | bool | float16 =>
      refine fixed ?_
      rw [if_neg (by decide), length_elements h (by decide)]
      rfl
    | float64 | array | int8Array | uint8Array =>
      cases h with
      | cons hR _ =>
        cases hR with
        | scalar ht h => first | exact absurd rfl ht | cases h

/-- What the computed size of a value is too large by: the bytes an array's
count does not have. -/
def arraySlack (f : GgufWireFormat) : GgufKvValue → Nat
  | .array _ => 8 - f.arrayCountWidth.bytes.toNat
  | _ => 0

theorem rawByteSize_payload {f : GgufWireFormat} {t : GgufValueType} {v : GgufKvValue} {p : List UInt8}
    (h : Payload f t v p) : v.rawByteSizeWithStrWidth f.stringWidth.bytes =
      UInt64.ofNat (p.length + (arraySlack f v + 2 * bfloat16Count v)) := by
  cases h with
  | scalar h =>
    rw [rawByteSize_scalar h]
    cases h <;> rfl
  | string h =>
    show _ = UInt64.ofNat (p.length + 0)
    rw [Nat.add_zero, ofNat_length_text h]
    rfl
  | @array t arr c hn h =>
    rw [rawByteSize_elements h, arraySlack]
    congr 1
    simp only [List.length_append, length_lenField]
    have h4 : (leU32.enc t.toU32).length = 4 := leU32.length_enc _
    have hw : f.arrayCountWidth.bytes.toNat ≤ 8 := by cases f.arrayCountWidth <;> decide
    omega

/-! ## Records -/

theorem rawByteSize_kvRecord {f : GgufWireFormat} {kv : GgufKvPair} {c : List UInt8} (h : KvRecord f kv c) :
    kv.rawByteSizeForFormat f =
      UInt64.ofNat (c.length + (arraySlack f kv.value + 2 * bfloat16Count kv.value)) := by
  obtain ⟨k, p, hk, hp, rfl⟩ := h
  have h4 : (leU32.enc kv.valueType.toU32).length = 4 := leU32.length_enc _
  simp only [GgufKvPair.rawByteSizeForFormat]
  rw [rawByteSize_payload hp, ← ofNat_length_text hk, show (4 : UInt64) = UInt64.ofNat 4 from rfl,
    ← UInt64.ofNat_add, ← UInt64.ofNat_add]
  congr 1
  simp only [List.length_append]
  omega

theorem length_dims (ds : List UInt64) : (ds.flatMap leU64.enc).length = ds.length * 8 := by
  induction ds with
  | nil => rfl
  | cons d ds ih =>
    rw [List.flatMap_cons, List.length_append, ih, leU64.length_enc, List.length_cons, Nat.succ_mul,
      Nat.add_comm]
    rfl

/-- The computed size of a tensor info is that of its bytes. -/
theorem rawByteSize_tensorInfo (f : GgufWireFormat) (t : GgufTensorInfo) :
    t.rawByteSizeForFormat f = UInt64.ofNat (lenField f.tensorNameWidth t.name.utf8ByteSize ++ asBytes t.name ++
      (leU32.enc t.ndims ++
        (t.shape.flatMap leU64.enc ++ (leU32.enc t.dtype ++ leU64.enc t.offset)))).length := by
  have h4 (v : UInt32) : (leU32.enc v).length = 4 := leU32.length_enc _
  have h8 : (leU64.enc t.offset).length = 8 := leU64.length_enc _
  simp only [GgufTensorInfo.rawByteSizeForFormat]
  rw [← UInt64.ofNat_toNat (x := f.tensorNameWidth.bytes), show (4 : UInt64) = UInt64.ofNat 4 from rfl,
    show (8 : UInt64) = UInt64.ofNat 8 from rfl, ← UInt64.ofNat_mul, ← UInt64.ofNat_add,
    ← UInt64.ofNat_add, ← UInt64.ofNat_add, ← UInt64.ofNat_add, ← UInt64.ofNat_add]
  congr 1
  simp only [List.length_append, length_lenField, length_asBytes, length_dims, h4, h8]
  omega

theorem sum_rawByteSize_kvRecords {f : GgufWireFormat} {kvs : List GgufKvPair} {c : List UInt8}
    (h : Many (KvRecord f) kvs c) (hb : ∀ kv ∈ kvs, bfloat16Array kv.value = false) :
    (kvs.map (·.rawByteSizeForFormat f)).sum =
      UInt64.ofNat (c.length + (kvs.map fun kv => arraySlack f kv.value).sum) := by
  induction h with
  | nil => rfl
  | cons hR _ ih =>
    rw [List.map_cons, List.sum_cons, rawByteSize_kvRecord hR,
      bfloat16Count_eq_zero.mpr (hb _ List.mem_cons_self), ih fun kv hm => hb kv (List.mem_cons_of_mem _ hm),
      ← UInt64.ofNat_add, List.map_cons, List.sum_cons, List.length_append]
    congr 1
    omega

theorem sum_rawByteSize_tensorInfos {f : GgufWireFormat} {ts : List GgufTensorInfo} {p : Nat} {c : List UInt8}
    (hw : (forM ts (writeTensorInfo · f)).Emits p () c) :
    (ts.map (·.rawByteSizeForFormat f)).sum = UInt64.ofNat c.length := by
  induction ts generalizing p c with
  | nil =>
    obtain rfl := emits_forM_nil.mp hw
    rfl
  | cons t ts ih =>
    obtain ⟨d, ds, hd, hds, rfl⟩ := emits_forM_cons.mp hw
    obtain rfl := (writes_writeTensorInfo f t).unique hd
    rw [List.map_cons, List.sum_cons, rawByteSize_tensorInfo, ih hds, ← UInt64.ofNat_add, ← List.length_append]

theorem sum_rawByteSize_tensorRecords {f : GgufWireFormat} {ts : List GgufTensorInfo} {c : List UInt8}
    (h : Many (TensorRecord f) ts c) :
    (ts.map (·.rawByteSizeForFormat f)).sum = UInt64.ofNat c.length :=
  sum_rawByteSize_tensorInfos (writes_tensorInfos h 0)

/-! ## Where the data section starts -/

theorem length_preamble (v : GgufVersion) (n m : Nat) :
    (preamble v n m).length = 8 + 2 * v.wireFormat.headerCountWidth.bytes.toNat := by
  have hm : ggufMagic.length = 4 := rfl
  have h4 (v : UInt32) : (leU32.enc v).length = 4 := leU32.length_enc _
  simp only [preamble, List.length_append, length_lenField, hm, h4]
  omega

theorem length_fixedFields (w : GgufWriter) :
    (fixedFields w).length = 8 + 2 * w.wireFormat.headerCountWidth.bytes.toNat := by
  have hm : ggufMagic.length = 4 := rfl
  have h4 : (leU32.enc w.version).length = 4 := leU32.length_enc _
  simp only [fixedFields, List.length_append, length_lenField, hm, h4]
  omega

theorem checkedAdd_ofNat {a b : Nat} (h : a + b < 2 ^ 64) :
    checkedAdd (UInt64.ofNat a) (UInt64.ofNat b) = some (UInt64.ofNat (a + b)) := by
  have ha : (UInt64.ofNat a).toNat = a := UInt64.toNat_ofNat_of_lt' (by simp only [UInt64.size]; omega)
  have hb : (UInt64.ofNat b).toNat = b := UInt64.toNat_ofNat_of_lt' (by simp only [UInt64.size]; omega)
  rw [checkedAdd, ha, hb, if_pos h, UInt64.ofNat_add]

/-- The writer's rounding. -/
theorem toNat_alignUp {pos a : UInt64} (h : pos.toNat < 2 ^ 63) :
    (GgufWriter.alignUp pos a).toNat = roundUp a.toNat pos.toNat := by
  have ha := a.toNat_lt
  rw [GgufWriter.alignUp]
  by_cases h0 : a = 0
  · rw [if_pos h0, h0]
    rfl
  · rw [if_neg h0]
    have hpos : 0 < a.toNat := Nat.pos_of_ne_zero fun e => h0 (UInt64.toNat_inj.mp e)
    have hlt := Nat.mod_lt pos.toNat hpos
    simp only [← UInt64.toNat_inj, UInt64.toNat_mod, UInt64.toNat_zero]
    by_cases hr : pos.toNat % a.toNat = 0
    · rw [if_pos hr, roundUp_eq_self (Nat.dvd_of_mod_eq_zero hr)]
    · rw [if_neg hr]
      have hle := Nat.mod_le pos.toNat a.toNat
      -- past the last multiple only a position below the alignment is far from the next
      have hbound : pos.toNat + (a.toNat - pos.toNat % a.toNat) < 2 ^ 64 := by
        rcases Nat.lt_or_ge pos.toNat a.toNat with hlt' | hge
        · rw [Nat.mod_eq_of_lt hlt']
          omega
        · omega
      rw [roundUp_eq_add hr hpos, UInt64.toNat_sub, UInt64.toNat_add, UInt64.toNat_mod]
      omega

theorem computeDataSectionStart_eq (f : GgufWireFormat) (kvs : List GgufKvPair) (ts : List GgufTensorInfo)
    (a : UInt64) : computeDataSectionStart f kvs ts (some a) =
      let size := ((checkedAdd (UInt64.ofNat (8 + 2 * f.headerCountWidth.bytes.toNat))
        (kvs.map (·.rawByteSizeForFormat f)).sum).bind
        (checkedAdd · (ts.map (·.rawByteSizeForFormat f)).sum)).getD (UInt64.ofNat (2 ^ 64 - 1))
      if 0 < a then
        if size % a ≠ 0 then saturatingAdd size (a - size % a) else size
      else size := by
  rw [computeDataSectionStart]
  cases f.headerCountWidth <;> rfl

/-- The parser's rounding of a computed size. -/
theorem toNat_computeDataSectionStart {v : GgufVersion} {kvs : List GgufKvPair} {ts : List GgufTensorInfo}
    {nk nt a n m : Nat} (hk : (kvs.map (·.rawByteSizeForFormat v.wireFormat)).sum = UInt64.ofNat nk)
    (ht : (ts.map (·.rawByteSizeForFormat v.wireFormat)).sum = UInt64.ofNat nt) (ha : 0 < a)
    (h : (preamble v n m).length + nk + nt + a < 2 ^ 64) :
    (computeDataSectionStart v.wireFormat kvs ts (some (UInt64.ofNat a))).toNat =
      roundUp a ((preamble v n m).length + nk + nt) := by
  rw [length_preamble] at h ⊢
  rw [computeDataSectionStart_eq, hk, ht, checkedAdd_ofNat (by omega), Option.bind_some,
    checkedAdd_ofNat (by omega), Option.getD_some]
  have hsize : 8 + 2 * v.wireFormat.headerCountWidth.bytes.toNat + nk + nt < 2 ^ 64 := by omega
  generalize 8 + 2 * v.wireFormat.headerCountWidth.bytes.toNat + nk + nt = size at h hsize ⊢
  have hN : (UInt64.ofNat size).toNat = size := UInt64.toNat_ofNat_of_lt' hsize
  have haN : (UInt64.ofNat a).toNat = a := UInt64.toNat_ofNat_of_lt' (by simp only [UInt64.size]; omega)
  have hlt := Nat.mod_lt size ha
  simp only [ne_eq, ← UInt64.toNat_inj, UInt64.lt_iff_toNat_lt, UInt64.toNat_mod, hN, haN,
    UInt64.toNat_zero, ha, if_true]
  by_cases hr : size % a = 0
  · rw [if_neg (not_not.mpr hr), hN, roundUp_eq_self (Nat.dvd_of_mod_eq_zero hr)]
  · rw [if_pos hr]
    have hsub : (UInt64.ofNat a - UInt64.ofNat size % UInt64.ofNat a).toNat = a - size % a := by
      rw [UInt64.toNat_sub_of_le, UInt64.toNat_mod, haN, hN]
      rw [UInt64.le_iff_toNat_le, UInt64.toNat_mod, haN, hN]
      exact Nat.le_of_lt hlt
    rw [saturatingAdd, checkedAdd, hsub, hN, if_pos (by omega), Option.getD_some, UInt64.toNat_add, hsub, hN,
      roundUp_eq_add hr ha, Nat.mod_eq_of_lt (by omega)]

/-- The writer's size of a header, from those of its sections. -/
theorem headerSize_of_sum {w : GgufWriter} {nk nt : Nat} (hk : w.calculateKvSectionSize = UInt64.ofNat nk)
    (ht : w.calculateTensorSectionSize = UInt64.ofNat nt) :
    4 + 4 + w.wireFormat.headerCountWidth.bytes + w.wireFormat.headerCountWidth.bytes +
        w.calculateKvSectionSize + w.calculateTensorSectionSize =
      UInt64.ofNat (8 + 2 * w.wireFormat.headerCountWidth.bytes.toNat + nk + nt) := by
  rw [hk, ht, UInt64.ofNat_add, UInt64.ofNat_add]
  cases w.wireFormat.headerCountWidth <;> rfl

/-- The writer's rounding of a computed size. -/
theorem toNat_dataStart_of_sum {w : GgufWriter} {nk nt : Nat} (hk : w.calculateKvSectionSize = UInt64.ofNat nk)
    (ht : w.calculateTensorSectionSize = UInt64.ofNat nt)
    (h : 8 + 2 * w.wireFormat.headerCountWidth.bytes.toNat + nk + nt < 2 ^ 63) :
    w.dataStart.toNat =
      roundUp w.alignment.toNat (8 + 2 * w.wireFormat.headerCountWidth.bytes.toNat + nk + nt) := by
  have hN : (UInt64.ofNat (8 + 2 * w.wireFormat.headerCountWidth.bytes.toNat + nk + nt)).toNat = _ :=
    UInt64.toNat_ofNat_of_lt' (Nat.lt_of_lt_of_le h (by decide))
  simp only [GgufWriter.dataStart, headerSize_of_sum hk ht]
  rw [toNat_alignUp (by rw [hN]; exact h), hN]

end PestiGguf
