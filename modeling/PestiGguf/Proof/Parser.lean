import PestiGguf.Spec.Grammar

/-!
# The parser recognises the grammar

Each reader of the parser recognises the relation the grammar gives for what
it reads (`recognises_readString`, `recognises_readKvPair`, ...), from the
little-endian reads up to a whole header (`recognises_parseGgufReader`). The
checks of a header's alignment are those of `AlignmentOk`.
-/

namespace PestiGguf

open Codec Codec.Reader Spec

/-! ## Integer fields -/

theorem recognises_readU8 : readU8.Recognises fun v c => c = byte.enc v := .fixed _ _

theorem recognises_readU16Le : readU16Le.Recognises fun v c => c = leU16.enc v := .fixed _ _

theorem recognises_readU32Le : readU32Le.Recognises fun v c => c = leU32.enc v := .fixed _ _

theorem recognises_readU64Le : readU64Le.Recognises fun v c => c = leU64.enc v := .fixed _ _

/-- A value read through a bijection is encoded through its inverse. -/
theorem recognises_map {α β : Type} {p : Input α} {enc : α → List UInt8}
    (hp : p.Recognises fun a c => c = enc a) {f : α → β} {g : β → α} (hfg : ∀ b, f (g b) = b)
    (hgf : ∀ a, g (f a) = a) :
    (do let a ← p; pure (f a) : Input β).Recognises fun b c => c = enc (g b) := by
  refine hp.map.congr fun b c => ⟨?_, ?_⟩
  · rintro ⟨a, rfl, rfl⟩
    rw [hgf]
  · rintro rfl
    exact ⟨g b, (hfg b).symm, rfl⟩

theorem recognises_readI8 : readI8.Recognises fun v c => c = byte.enc v.toUInt8 :=
  recognises_map recognises_readU8 (fun _ => rfl) (fun _ => rfl)

theorem recognises_readI16Le : readI16Le.Recognises fun v c => c = leU16.enc v.toUInt16 :=
  recognises_map recognises_readU16Le (fun _ => rfl) (fun _ => rfl)

theorem recognises_readI32Le : readI32Le.Recognises fun v c => c = leU32.enc v.toUInt32 :=
  recognises_map recognises_readU32Le (fun _ => rfl) (fun _ => rfl)

theorem recognises_readI64Le : readI64Le.Recognises fun v c => c = leU64.enc v.toUInt64 :=
  recognises_map recognises_readU64Le (fun _ => rfl) (fun _ => rfl)

theorem recognises_readF32Le : readF32Le.Recognises fun v c => c = leU32.enc v :=
  recognises_readU32Le

theorem recognises_readF64Le : readF64Le.Recognises fun v c => c = leU64.enc v :=
  recognises_readU64Le

theorem recognises_readInt (w : IntWidth) :
    (readInt w).Recognises fun v c => v.toNat < limit w ∧ c = lenField w v.toNat := by
  cases w with
  | u32 =>
    refine recognises_readU32Le.map.congr fun v c => ⟨?_, ?_⟩
    · rintro ⟨a, rfl, rfl⟩
      simp only [lenField, limit, UInt32.toNat_toUInt64, UInt32.ofNat_toNat, and_true]
      exact a.toNat_lt
    · rintro ⟨hv, rfl⟩
      refine ⟨UInt32.ofNat v.toNat, UInt64.toNat_inj.mp ?_, rfl⟩
      rw [UInt32.toNat_toUInt64, UInt32.toNat_ofNat_of_lt' hv]
  | u64 =>
    refine recognises_readU64Le.congr fun v c => ?_
    simp only [lenField, limit, UInt64.ofNat_toNat, iff_and_self]
    exact fun _ => v.toNat_lt

/-! ## Strings -/

theorem recognises_readLength (w : IntWidth) :
    (readLength w).Recognises fun v c =>
      (1 ≤ v.toNat ∧ v.toNat ≤ 2 ^ 20) ∧ c = lenField w v.toNat := by
  refine ((recognises_readInt w).bind fun v => .guard fun _ => .pure v).congr fun v c => ⟨?_, ?_⟩
  · rintro ⟨a, c₁, _, rfl, ⟨-, rfl⟩, hn, rfl, rfl⟩
    rw [List.append_nil, not_or, UInt64.not_lt, UInt64.le_iff_toNat_le] at *
    exact ⟨⟨Nat.pos_of_ne_zero fun h => hn.1 (UInt64.toNat_inj.mp h), hn.2⟩, rfl⟩
  · rintro ⟨⟨h₁, h₂⟩, rfl⟩
    refine ⟨v, _, [], by simp, ⟨?_, rfl⟩, ?_, rfl, rfl⟩
    · cases w <;> simp only [limit] <;> omega
    · rw [not_or, UInt64.not_lt, UInt64.le_iff_toNat_le]
      exact ⟨fun h => by simp [h] at h₁, h₂⟩

theorem recognises_readBytes (len : UInt64) :
    (readBytes len).Recognises fun bs c => c = bs ∧ bs.length = len.toNat := by
  refine ((Recognises.event _).bind fun _ => .exact _ _).congr fun bs c => ⟨?_, ?_⟩
  · rintro ⟨_, _, _, rfl, rfl, rfl, h⟩
    exact ⟨rfl, h⟩
  · rintro ⟨rfl, h⟩
    exact ⟨(), [], _, rfl, rfl, rfl, h⟩

/-- The bytes a string was read from, then what the string selects. -/
theorem recognises_fromUtf8 {α : Type} {bytes : List UInt8} {p : String → Input α}
    {R : String → α → List UInt8 → Prop} (hp : ∀ s, (p s).Recognises (R s)) :
    (match fromUtf8 bytes with
      | none => .fail (.utf8 bytes)
      | some s => p s : Input α).Recognises
      fun a c => ∃ s, bytes = asBytes s ∧ R s a c := by
  cases h : fromUtf8 bytes with
  | some s =>
    rw [fromUtf8_eq_some] at h
    subst h
    refine (hp s).congr fun a c => ⟨fun hR => ⟨s, rfl, hR⟩, ?_⟩
    intro ⟨s', h, hR⟩
    rwa [asBytes_inj.mp h]
  | none =>
    refine (Recognises.fail _).congr fun a c => ⟨False.elim, ?_⟩
    rintro ⟨s, rfl, -⟩
    simp at h

theorem Spec.TextOk.toNat_length {s : String} (h : TextOk s) :
    (UInt64.ofNat s.utf8ByteSize).toNat = s.utf8ByteSize :=
  UInt64.toNat_ofNat_of_lt' (Nat.lt_of_le_of_lt h.2 (by decide))

theorem recognises_readString (w : IntWidth) : (readString w).Recognises (Text w) := by
  refine ((recognises_readLength w).bind fun len => (recognises_readBytes len).bind fun bytes =>
    recognises_fromUtf8 fun s => Recognises.pure s).congr fun s c => ⟨?_, ?_⟩
  · rintro ⟨len, c₁, _, rfl, ⟨hlen, rfl⟩, bytes, c₂, _, rfl, ⟨rfl, hl⟩, s, rfl, rfl, rfl⟩
    rw [length_asBytes] at hl
    rw [← hl] at hlen ⊢
    exact ⟨hlen, by simp⟩
  · rintro ⟨hs, rfl⟩
    have hn := hs.toNat_length
    exact ⟨UInt64.ofNat s.utf8ByteSize, lenField w s.utf8ByteSize, asBytes s, rfl,
      ⟨by rw [hn]; exact hs, by rw [hn]⟩, asBytes s, asBytes s, [], by simp, ⟨rfl, hn.symm⟩, s, rfl,
      rfl, rfl⟩

/-! ## KV values -/

/-- The payloads of a type that wraps what `p` reads. -/
theorem recognises_wrap {α : Type} {p : Input α} {R : α → List UInt8 → Prop}
    {S : GgufKvValue → List UInt8 → Prop} (f : α → GgufKvValue) (hp : p.Recognises R)
    (intro : ∀ a c, R a c → S (f a) c) (elim : ∀ v c, S v c → ∃ a, v = f a ∧ R a c) :
    (do let a ← p; pure (f a) : Input GgufKvValue).Recognises S := by
  refine hp.map.congr fun v c => ⟨?_, elim v c⟩
  rintro ⟨a, rfl, h⟩
  exact intro a c h

theorem recognises_scalar {α : Type} {p : Input α} {enc : α → List UInt8} {t : GgufValueType}
    (f : α → GgufKvValue) (hp : p.Recognises fun a c => c = enc a)
    (intro : ∀ a, Scalar t (f a) (enc a)) (elim : ∀ v c, Scalar t v c → ∃ a, v = f a ∧ c = enc a) :
    (do let a ← p; pure (f a) : Input GgufKvValue).Recognises (Scalar t) :=
  recognises_wrap f hp (fun a _ h => h ▸ intro a) elim

theorem recognises_readKvScalar (t : GgufValueType) : (readKvScalar t).Recognises (Scalar t) := by
  cases t with
  | uint8 =>
    exact recognises_scalar .uint8 recognises_readU8 .uint8 fun _ _ h => by cases h; exact ⟨_, rfl, rfl⟩
  | int8 =>
    exact recognises_scalar .int8 recognises_readI8 .int8 fun _ _ h => by cases h; exact ⟨_, rfl, rfl⟩
  | uint16 =>
    exact recognises_scalar .uint16 recognises_readU16Le .uint16 fun _ _ h => by cases h; exact ⟨_, rfl, rfl⟩
  | int16 =>
    exact recognises_scalar .int16 recognises_readI16Le .int16 fun _ _ h => by cases h; exact ⟨_, rfl, rfl⟩
  | uint32 =>
    exact recognises_scalar .uint32 recognises_readU32Le .uint32 fun _ _ h => by cases h; exact ⟨_, rfl, rfl⟩
  | int32 =>
    exact recognises_scalar .int32 recognises_readI32Le .int32 fun _ _ h => by cases h; exact ⟨_, rfl, rfl⟩
  | float32 =>
    exact recognises_scalar .float32 recognises_readF32Le .float32 fun _ _ h => by cases h; exact ⟨_, rfl, rfl⟩
  | uint64 =>
    exact recognises_scalar .uint64 recognises_readU64Le .uint64 fun _ _ h => by cases h; exact ⟨_, rfl, rfl⟩
  | int64 =>
    exact recognises_scalar .int64 recognises_readI64Le .int64 fun _ _ h => by cases h; exact ⟨_, rfl, rfl⟩
  | bool =>
    exact recognises_scalar (fun b => .bool (b != 0)) recognises_readU8 .bool fun _ _ h => by cases h; exact ⟨_, rfl, rfl⟩
  | float64 =>
    exact recognises_scalar .float64 recognises_readF64Le .float64 fun _ _ h => by cases h; exact ⟨_, rfl, rfl⟩
  | bfloat16 =>
    exact recognises_scalar (fun v : UInt16 => .bfloat16 (v.toUInt32 <<< 16)) recognises_readU16Le .bfloat16
      fun _ _ h => by cases h; exact ⟨_, rfl, rfl⟩
  | float16 =>
    exact recognises_scalar .float16 recognises_readU16Le .float16 fun _ _ h => by cases h; exact ⟨_, rfl, rfl⟩
  | string | array | int8Array | uint8Array =>
    exact (Recognises.fail _).congr fun _ _ => ⟨False.elim, fun h => by cases h⟩

/-- Of the types other than strings and arrays, an array's elements are read as
a KV pair's scalars are, a `Float64` apart. -/
theorem recognises_readKvArrayElement (t : GgufValueType) (raw : UInt32) (w : IntWidth) :
    (readKvArrayElement t raw w).Recognises (Element w t) := by
  have scalar (t : GgufValueType) (hf : t ≠ .float64) (hs : t ≠ .string)
      (e : readKvArrayElement t raw w = readKvScalar t) :
      (readKvArrayElement t raw w).Recognises (Element w t) := by
    refine (e ▸ recognises_readKvScalar t).congr fun v c => ⟨.scalar hf, fun h => ?_⟩
    cases h with
    | scalar _ h => exact h
    | string _ => exact absurd rfl hs
  cases t with
  | string =>
    refine recognises_wrap .string (recognises_readString w) (fun _ _ => Element.string) fun _ _ h => ?_
    cases h with
    | scalar _ h => cases h
    | string h => exact ⟨_, rfl, h⟩
  | uint8 | int8 | uint16 | int16 | uint32 | int32 | float32 | uint64 | int64 | bool | bfloat16
  | float16 => exact scalar _ (by decide) (by decide) rfl
  | float64 | array | int8Array | uint8Array =>
    exact (Recognises.fail _).congr fun _ _ => ⟨False.elim, fun h => by
      cases h with
      | scalar ht h => first | exact absurd rfl ht | cases h⟩

theorem recognises_pushed {α : Type} {p : Input α} {R : α → List UInt8 → Prop} (hp : p.Recognises R)
    (record : Record) : (pushed record p).Recognises R := by
  refine (hp.bind fun a => (Recognises.event _).bind fun _ => .pure a).congr fun a c => ⟨?_, ?_⟩
  · rintro ⟨a, c₁, _, rfl, hR, _, _, _, rfl, rfl, rfl, rfl⟩
    rwa [List.append_nil, List.append_nil]
  · intro hR
    exact ⟨a, c, [], by simp, hR, (), [], [], rfl, rfl, rfl, rfl⟩

@[simp] theorem fromU32_toU32 (t : GgufValueType) : GgufValueType.fromU32 t.toU32 = some t := by
  cases t <;> rfl

theorem fromU32_eq_some {raw : UInt32} {t : GgufValueType} :
    GgufValueType.fromU32 raw = some t ↔ raw = t.toU32 := by
  refine ⟨fun h => ?_, fun h => h ▸ fromU32_toU32 t⟩
  unfold GgufValueType.fromU32 at h
  split at h <;> cases h <;> rfl

/-- A tag, then what its type selects. -/
theorem recognises_tag {α : Type} {p : UInt32 → GgufValueType → Input α}
    {R : GgufValueType → α → List UInt8 → Prop} (hp : ∀ raw t, (p raw t).Recognises (R t)) :
    (do
      let raw ← readU32Le
      match GgufValueType.fromU32 raw with
      | none => .fail (.invalidValueType raw)
      | some t => p raw t : Input α).Recognises
      fun a c => ∃ t c', c = leU32.enc t.toU32 ++ c' ∧ R t a c' := by
  have rest (raw : UInt32) :
      (match GgufValueType.fromU32 raw with
        | none => .fail (.invalidValueType raw)
        | some t => p raw t : Input α).Recognises fun a c => ∃ t, raw = t.toU32 ∧ R t a c := by
    cases h : GgufValueType.fromU32 raw with
    | none =>
      refine (Recognises.fail _).congr fun a c => ⟨False.elim, ?_⟩
      rintro ⟨t, rfl, -⟩
      simp at h
    | some t =>
      refine (hp raw t).congr fun a c => ⟨fun hR => ⟨t, fromU32_eq_some.mp h, hR⟩, ?_⟩
      rintro ⟨t', rfl, hR⟩
      rw [fromU32_toU32, Option.some.injEq] at h
      exact h ▸ hR
  refine (recognises_readU32Le.bind rest).congr fun a c => ⟨?_, ?_⟩
  · rintro ⟨raw, _, c', rfl, rfl, t, rfl, hR⟩
    exact ⟨t, c', rfl, hR⟩
  · rintro ⟨t, c', rfl, hR⟩
    exact ⟨t.toU32, _, c', rfl, rfl, t, rfl, hR⟩

theorem limit_le (w : IntWidth) : limit w ≤ 2 ^ 64 := by
  cases w <;> simp [limit]

/-- The count, the hint to the allocator and the loop over the records. -/
theorem recognises_counted {α : Type} {p : Input α} {R : α → List UInt8 → Prop}
    (hp : p.Recognises R) (w : IntWidth) (f : List α → GgufKvValue) :
    (do
      let n ← readInt w
      .event (.withCapacity n)
      let as ← p.many n.toNat
      pure (f as) : Input GgufKvValue).Recognises
      fun v c => ∃ as c', v = f as ∧ as.length < limit w ∧ Many R as c' ∧
        c = lenField w as.length ++ c' := by
  refine ((recognises_readInt w).bind fun n => (Recognises.event _).bind fun _ =>
    (hp.many n.toNat).map).congr fun v c => ⟨?_, ?_⟩
  · rintro ⟨n, _, _, rfl, ⟨hn, rfl⟩, _, _, c', rfl, rfl, as, rfl, hl, h⟩
    exact ⟨as, c', rfl, hl ▸ hn, h, by rw [hl]; rfl⟩
  · rintro ⟨as, c', rfl, hn, h, rfl⟩
    have hn' : (UInt64.ofNat as.length).toNat = as.length :=
      UInt64.toNat_ofNat_of_lt' (Nat.lt_of_lt_of_le hn (limit_le w))
    exact ⟨UInt64.ofNat as.length, _, c', rfl, ⟨by rwa [hn'], by rw [hn']⟩, (), [], c', rfl, rfl, as,
      rfl, hn'.symm, h⟩

theorem recognises_readKvValueGeneric (t : GgufValueType) (f : GgufWireFormat) :
    (readKvValueGeneric t f.stringWidth f.arrayCountWidth).Recognises (Payload f t) := by
  have scalar (t : GgufValueType) (hs : t ≠ .string) (ha : t ≠ .array)
      (e : readKvValueGeneric t f.stringWidth f.arrayCountWidth = readKvScalar t) :
      (readKvValueGeneric t f.stringWidth f.arrayCountWidth).Recognises (Payload f t) := by
    refine (e ▸ recognises_readKvScalar t).congr fun v c => ⟨.scalar, fun h => ?_⟩
    cases h with
    | scalar h => exact h
    | string _ => exact absurd rfl hs
    | array _ _ _ => exact absurd rfl ha
  cases t with
  | string =>
    refine recognises_wrap .string (recognises_readString _) (fun _ _ => Payload.string) fun _ _ h => ?_
    cases h with
    | scalar h => cases h
    | string h => exact ⟨_, rfl, h⟩
  | array =>
    refine (recognises_tag fun raw t => recognises_counted
      (recognises_pushed (recognises_readKvArrayElement t raw _) _) _ _).congr fun v c => ⟨?_, fun h => ?_⟩
    · rintro ⟨t, _, rfl, as, c', rfl, hn, h, rfl⟩
      exact .array t hn h
    · cases h with
      | scalar h => cases h
      | array t hn h => exact ⟨t, _, rfl, _, _, rfl, hn, h, rfl⟩
  | uint8 | int8 | uint16 | int16 | uint32 | int32 | float32 | uint64 | int64 | bool | float64
  | bfloat16 | float16 | int8Array | uint8Array => exact scalar _ (by decide) (by decide) rfl

/-! ## Records -/

theorem recognises_readKvPair (f : GgufWireFormat) : (readKvPair f).Recognises (KvRecord f) := by
  refine ((recognises_readString _).bind fun key => recognises_tag fun _ t =>
    (recognises_readKvValueGeneric t f).map).congr fun kv c => ⟨?_, ?_⟩
  · rintro ⟨key, k, _, rfl, hk, t, p, rfl, v, rfl, hp⟩
    exact ⟨k, p, hk, hp, rfl⟩
  · rintro ⟨k, p, hk, hp, rfl⟩
    exact ⟨kv.key, k, _, rfl, hk, kv.valueType, p, rfl, kv.value, rfl, hp⟩

theorem recognises_readTensorInfo (f : GgufWireFormat) :
    (readTensorInfo f).Recognises (TensorRecord f) := by
  refine ((recognises_readLength _).bind fun len => .guard fun _ => (recognises_readBytes len).bind
    fun bytes => recognises_fromUtf8 fun name => recognises_readU32Le.bind fun nDims =>
    .guard fun _ => ((recognises_pushed recognises_readU64Le _).many nDims.toNat).bind fun shape =>
    recognises_readU32Le.bind fun dtype => recognises_readU64Le.map).congr fun t c => ⟨?_, ?_⟩
  · rintro ⟨len, _, _, rfl, ⟨hlen, rfl⟩, -, bytes, _, _, rfl, ⟨rfl, hl⟩, name, rfl, nDims, _, _, rfl,
      rfl, hn, shape, _, _, rfl, ⟨hs, hM⟩, dtype, _, _, rfl, rfl, offset, rfl, rfl⟩
    rw [length_asBytes] at hl
    rw [← hl] at hlen ⊢
    rw [many_enc] at hM
    rw [UInt32.not_lt, UInt32.le_iff_toNat_le, ← hs] at hn
    refine ⟨_, ⟨hlen, rfl⟩, hn, ?_⟩
    simp [GgufTensorInfo.ndims, hs, hM]
  · rintro ⟨_, ⟨hname, rfl⟩, hd, rfl⟩
    have hl := hname.toNat_length
    have hn : t.ndims.toNat = t.shape.length :=
      UInt32.toNat_ofNat_of_lt' (by simp only [UInt32.size]; omega)
    refine ⟨UInt64.ofNat t.name.utf8ByteSize, lenField _ t.name.utf8ByteSize, _, List.append_assoc ..,
      ⟨by rwa [hl], by rw [hl]⟩, ?_, asBytes t.name, asBytes t.name, _, rfl, ⟨rfl, hl.symm⟩, t.name,
      rfl, t.ndims, _, _, rfl, rfl, ?_, t.shape, _, _, rfl, ⟨hn.symm, many_enc.mpr rfl⟩, t.dtype, _, _,
      rfl, rfl, t.offset, rfl, rfl⟩
    · rw [UInt64.not_lt, UInt64.le_iff_toNat_le, hl]
      exact hname.2
    · rw [UInt32.not_lt, UInt32.le_iff_toNat_le, hn]
      exact hd

/-! ## The alignment -/

/-- An integer value, cast to a `u64`. -/
theorem asU64_eq (v : GgufKvValue) :
    (integerValue v = none ∧ v.asU64 = none) ∨
      ∃ z a, integerValue v = some z ∧ v.asU64 = some a ∧ (a.toNat : Int) = z % 2 ^ 64 ∧
        -2 ^ 63 ≤ z ∧ z < 2 ^ 64 := by
  have signed (x : Int64) : (x.toUInt64.toNat : Int) = x.toInt % 2 ^ 64 ∧ -2 ^ 63 ≤ x.toInt ∧
      x.toInt < 2 ^ 64 := by
    have h : x.toInt = if 2 * x.toUInt64.toNat < 2 ^ 64 then (x.toUInt64.toNat : Int)
        else x.toUInt64.toNat - 2 ^ 64 := BitVec.toInt_eq_toNat_cond _
    have hx := x.toUInt64.toNat_lt
    split at h <;> omega
  have unsigned (n : Nat) (h : n < 2 ^ 64) : (n : Int) = (n : Int) % 2 ^ 64 ∧ -2 ^ 63 ≤ (n : Int) ∧
      (n : Int) < 2 ^ 64 := by
    omega
  cases v with
  | uint8 v => exact .inr ⟨_, _, rfl, rfl, by simpa using unsigned v.toNat (by have := v.toNat_lt; omega)⟩
  | uint16 v => exact .inr ⟨_, _, rfl, rfl, by simpa using unsigned v.toNat (by have := v.toNat_lt; omega)⟩
  | uint32 v => exact .inr ⟨_, _, rfl, rfl, by simpa using unsigned v.toNat (by have := v.toNat_lt; omega)⟩
  | uint64 v => exact .inr ⟨_, _, rfl, rfl, unsigned v.toNat v.toNat_lt⟩
  | int8 v => exact .inr ⟨_, _, rfl, rfl, Int8.toInt_toInt64 v ▸ signed v.toInt64⟩
  | int16 v => exact .inr ⟨_, _, rfl, rfl, Int16.toInt_toInt64 v ▸ signed v.toInt64⟩
  | int32 v => exact .inr ⟨_, _, rfl, rfl, Int32.toInt_toInt64 v ▸ signed v.toInt64⟩
  | int64 v => exact .inr ⟨_, _, rfl, rfl, signed v⟩
  | _ => exact .inl ⟨rfl, rfl⟩

/-- The three checks of an alignment. -/
theorem alignment_checks (a : UInt64) :
    (a ≠ 0 ∧ a &&& (a - 1) = 0 ∧ ¬ maxAlignment < a) ↔ ∃ k ≤ 16, a.toNat = 2 ^ k := by
  have h0 : a ≠ 0 ↔ a.toNat ≠ 0 := by rw [ne_eq, ← UInt64.toNat_inj]; rfl
  have hmax : ¬ maxAlignment < a ↔ a.toNat ≤ 2 ^ 16 := by
    rw [UInt64.not_lt, UInt64.le_iff_toNat_le]
    rfl
  have hand (h : a.toNat ≠ 0) : a &&& (a - 1) = 0 ↔ a.toNat &&& (a.toNat - 1) = 0 := by
    rw [← UInt64.toNat_inj, UInt64.toNat_and, UInt64.toNat_sub_of_le]
    · rfl
    · exact UInt64.le_iff_toNat_le.mpr (Nat.one_le_iff_ne_zero.mpr h)
  rw [h0, hmax]
  constructor
  · intro ⟨h, hp, hm⟩
    obtain ⟨k, hk⟩ := Nat.ne_zero_and_sub_one_eq_zero_iff_isPowerOfTwo.mp ⟨h, (hand h).mp hp⟩
    exact ⟨k, (Nat.pow_le_pow_iff_right (by omega)).mp (hk ▸ hm), hk⟩
  · intro ⟨k, hk, h⟩
    obtain ⟨hn, hp⟩ := Nat.ne_zero_and_sub_one_eq_zero_iff_isPowerOfTwo.mpr ⟨k, h⟩
    exact ⟨hn, (hand hn).mpr hp, h ▸ Nat.pow_le_pow_right (by omega) hk⟩

theorem alignment_ite {a b : UInt64} :
    (if a = 0 then (.error (.alignmentOutOfRange 0) : Except GgufError UInt64)
      else if a &&& (a - 1) ≠ 0 then .error (.alignmentOutOfRange a.toUInt32)
      else if maxAlignment < a then .error (.alignmentOutOfRange a.toUInt32)
      else .ok a) = .ok b ↔ (∃ k ≤ 16, a.toNat = 2 ^ k) ∧ b = a := by
  rw [← alignment_checks]
  split_ifs with h₁ h₂ h₃
  · simp [h₁]
  · simp [h₂]
  · simp [h₃]
  · rw [not_not] at h₂
    simp [h₁, h₂, h₃, eq_comm]

theorem readAlignmentFromKv_eq_ok {kvs : List GgufKvPair} {a : UInt64} :
    readAlignmentFromKv kvs = .ok a ↔ AlignmentOk kvs ∧ a = UInt64.ofNat (alignmentOf kvs) := by
  rw [readAlignmentFromKv, alignment_ite, AlignmentOk, alignmentOf, declaredAlignment]
  have default : ∃ k ≤ 16, ggufDefaultAlignment.toUInt64.toNat = 2 ^ k := ⟨5, by decide, rfl⟩
  cases kvs.find? (·.key == "general.alignment") with
  | none => exact ⟨fun h => ⟨nofun, h.2⟩, fun h => ⟨default, h.2⟩⟩
  | some kv =>
    rcases asU64_eq kv.value with ⟨hz, ha⟩ | ⟨z, u, hz, ha, hu, hlo, hhi⟩
    · simp only [Option.bind_some, hz, ha]
      exact ⟨fun h => ⟨nofun, h.2⟩, fun h => ⟨default, h.2⟩⟩
    · simp only [Option.bind_some, hz, ha, Option.getD_some, Option.map_some, Option.mem_def,
        Option.some.injEq, forall_eq']
      -- a negative alignment is cast to a number that is too large
      have hpow (k : Nat) (hk : k ≤ 16) : u.toNat = 2 ^ k ↔ z = 2 ^ k := by
        have hle := Nat.pow_le_pow_right (n := 2) (by omega) hk
        have e : (2 : Int) ^ k = ((2 ^ k : Nat) : Int) := by push_cast; rfl
        rw [e]
        generalize 2 ^ k = n at hle ⊢
        omega
      have hu' (h : 0 ≤ z) : u = UInt64.ofNat z.toNat := by
        rw [← UInt64.toNat_inj, UInt64.toNat_ofNat']
        omega
      have hnonneg (k : Nat) (h : z = 2 ^ k) : 0 ≤ z := h ▸ Int.pow_nonneg (by omega)
      constructor
      · rintro ⟨⟨k, hk, h⟩, rfl⟩
        have hz := (hpow k hk).mp h
        exact ⟨⟨k, hk, hz⟩, hu' (hnonneg k hz)⟩
      · intro ⟨⟨k, hk, h⟩, ha'⟩
        exact ⟨⟨k, hk, (hpow k hk).mpr h⟩, by rw [hu' (hnonneg k h), ha']⟩

theorem toNat_two_pow (k : Nat) : ((2 : Int) ^ k).toNat = 2 ^ k := by
  rw [show (2 : Int) ^ k = ((2 ^ k : Nat) : Int) from (Int.natCast_pow 2 k).symm, Int.toNat_natCast]

theorem Spec.AlignmentOk.pow {kvs : List GgufKvPair} (h : AlignmentOk kvs) :
    ∃ k ≤ 16, alignmentOf kvs = 2 ^ k := by
  rw [alignmentOf]
  cases hd : declaredAlignment kvs with
  | none => exact ⟨5, by decide, rfl⟩
  | some z =>
    obtain ⟨k, hk, rfl⟩ := h z hd
    exact ⟨k, hk, by rw [Option.map_some, Option.getD_some, toNat_two_pow]⟩

theorem Spec.AlignmentOk.bounds {kvs : List GgufKvPair} (h : AlignmentOk kvs) :
    0 < alignmentOf kvs ∧ alignmentOf kvs ≤ 65536 := by
  obtain ⟨k, hk, hpow⟩ := h.pow
  rw [hpow]
  exact ⟨Nat.two_pow_pos k, Nat.pow_le_pow_right (by decide) hk⟩

/-! ## Headers -/

theorem recognises_alignment {α : Type} (kvs : List GgufKvPair) (f : UInt64 → α) :
    (do
      let a ← .ofExcept (readAlignmentFromKv kvs)
      pure (f a) : Input α).Recognises fun h c =>
      AlignmentOk kvs ∧ h = f (UInt64.ofNat (alignmentOf kvs)) ∧ c = [] := by
  refine (Recognises.ofExcept _).map.congr fun h c => ⟨?_, ?_⟩
  · rintro ⟨a, rfl, ha, rfl⟩
    obtain ⟨hok, rfl⟩ := readAlignmentFromKv_eq_ok.mp ha
    exact ⟨hok, rfl, rfl⟩
  · rintro ⟨hok, rfl, rfl⟩
    exact ⟨_, rfl, readAlignmentFromKv_eq_ok.mpr ⟨hok, rfl⟩, rfl⟩

/-- `n` records, their count announced and each one recorded. -/
theorem recognises_records {α : Type} {p : Input α} {R : α → List UInt8 → Prop} (hp : p.Recognises R)
    (record : Record) (n : UInt64) {β : Type} {q : List α → Input β} {S : List α → β → List UInt8 → Prop}
    (hq : ∀ as, (q as).Recognises (S as)) :
    (do
      .event (.withCapacity n)
      let as ← (pushed record p).many n.toNat
      q as : Input β).Recognises fun b c =>
      ∃ as c₁ c₂, c = c₁ ++ c₂ ∧ as.length = n.toNat ∧ Many R as c₁ ∧ S as b c₂ := by
  refine ((Recognises.event _).bind fun _ => ((recognises_pushed hp record).many n.toNat).bind
    hq).congr fun b c => ⟨?_, ?_⟩
  · rintro ⟨_, _, _, rfl, rfl, as, c₁, c₂, rfl, ⟨hl, h⟩, hS⟩
    exact ⟨as, c₁, c₂, rfl, hl, h, hS⟩
  · rintro ⟨as, c₁, c₂, rfl, hl, h, hS⟩
    exact ⟨(), [], _, rfl, rfl, as, c₁, c₂, rfl, ⟨hl, h⟩, hS⟩

theorem versionNumber_eq {v : GgufVersion} {n : UInt32} :
    GgufVersion.fromU32 n = some v ↔ n = versionNumber v := by
  constructor
  · intro h
    unfold GgufVersion.fromU32 at h
    split at h <;> cases h <;> rfl
  · rintro rfl
    cases v <;> rfl

theorem versionNumber_inj {v v' : GgufVersion} (h : versionNumber v = versionNumber v') : v = v' := by
  cases v <;> cases v' <;> first | rfl | cases h

theorem ne_versionNumber {n : UInt32} (h : GgufVersion.fromU32 n = none) (v : GgufVersion) : n ≠ versionNumber v := by
  intro hv
  rw [versionNumber_eq.mpr hv] at h
  cases h

/-- What holds of the version with a number. -/
theorem exists_version_iff {P : GgufVersion → Prop} {v : GgufVersion} :
    (∃ v', versionNumber v = versionNumber v' ∧ P v') ↔ P v := by
  constructor
  · rintro ⟨v', h, hP⟩
    exact versionNumber_inj h ▸ hP
  · intro hP
    exact ⟨v, rfl, hP⟩

/-- What follows the version of a header. -/
inductive HeaderRest : GgufVersion → GgufHeader → List UInt8 → Prop
  | v1 (n : UInt32) {kvs : List GgufKvPair} {k : List UInt8} (hk : kvs.length ≤ 10000000)
      (ha : AlignmentOk kvs) (h : Many (KvRecord .v1) kvs k) :
      HeaderRest .v1 (headerOf .v1 kvs []) (lenField .u32 n.toNat ++ (lenField .u32 kvs.length ++ k))
  | v23 {v : GgufVersion} (hv : v ≠ .v1) {kvs : List GgufKvPair} {ts : List GgufTensorInfo}
      {k t : List UInt8} (ht : ts.length ≤ 10000000) (hk : kvs.length ≤ 10000000)
      (ha : AlignmentOk kvs) (h : Many (KvRecord v.wireFormat) kvs k)
      (h' : Many (TensorRecord v.wireFormat) ts t) :
      HeaderRest v (headerOf v kvs ts) (lenField v.wireFormat.headerCountWidth ts.length ++
        (lenField v.wireFormat.headerCountWidth kvs.length ++ (k ++ t)))

theorem headerWord_iff {h : GgufHeader} {c : List UInt8} : HeaderWord h c ↔
    ∃ v c', c = ggufMagic ++ (leU32.enc (versionNumber v) ++ c') ∧ HeaderRest v h c' := by
  constructor
  · intro hw
    cases hw with
    | v1 n hk ha h => exact ⟨.v1, _, by simp [preamble, GgufVersion.wireFormat, GgufWireFormat.v1], .v1 n hk ha h⟩
    | @v23 v hv _ _ _ _ ht hk ha h h' => exact ⟨v, _, by simp [preamble], .v23 hv ht hk ha h h'⟩
  · rintro ⟨v, c', rfl, hr⟩
    cases hr with
    | v1 n hk ha h =>
      have := HeaderWord.v1 n hk ha h
      simpa [preamble, GgufVersion.wireFormat, GgufWireFormat.v1] using this
    | v23 hv ht hk ha h h' =>
      have := HeaderWord.v23 hv ht hk ha h h'
      simpa [preamble] using this

theorem le_maxCount {n : UInt64} : ¬ ggufMaxCount < n ↔ n.toNat ≤ 10000000 := by
  rw [UInt64.not_lt, UInt64.le_iff_toNat_le]
  rfl

theorem count_lt_limit (w : IntWidth) : 10000000 < limit w := by
  cases w <;> simp [limit]

theorem toNat_ofNat_length {n : Nat} (h : n ≤ 10000000) : (UInt64.ofNat n).toNat = n :=
  UInt64.toNat_ofNat_of_lt' (by simp only [UInt64.size]; omega)

/-- The counts after a version 1 and what `M` says of the rest, as they are read and
as they are in the input. -/
theorem countsV1_iff {M : Nat → List UInt8 → Prop} {c : List UInt8} :
    (∃ (n : UInt32) (c₁ c₂ : List UInt8), c = c₁ ++ c₂ ∧ c₁ = leU32.enc n ∧
      ∃ (kvCount : UInt64) (c₁ d : List UInt8), c₂ = c₁ ++ d ∧
        (kvCount.toNat < limit .u32 ∧ c₁ = lenField .u32 kvCount.toNat) ∧ ¬ ggufMaxCount < kvCount ∧
          M kvCount.toNat d) ↔
      ∃ nt nk d, (GgufVersion.v1 ≠ .v1 → nt ≤ 10000000) ∧ nk ≤ 10000000 ∧ M nk d ∧
        c = lenField .u32 nt ++ (lenField .u32 nk ++ d) := by
  constructor
  · rintro ⟨n, _, _, rfl, rfl, kvCount, _, d, rfl, ⟨-, rfl⟩, hn, hd⟩
    exact ⟨n.toNat, kvCount.toNat, d, fun h => absurd rfl h, le_maxCount.mp hn, hd, by simp [lenField]⟩
  · rintro ⟨nt, nk, d, -, hnk, hd, rfl⟩
    have hk := toNat_ofNat_length hnk
    refine ⟨UInt32.ofNat nt, _, _, rfl, rfl, UInt64.ofNat nk, _, d, rfl, ⟨?_, by rw [hk]⟩, ?_, by rwa [hk]⟩
    · rw [hk, limit]
      omega
    · rwa [le_maxCount, hk]

theorem countsV23_iff {v : GgufVersion} (hv : v ≠ .v1) {w : IntWidth} {M : Nat → List UInt8 → Prop}
    {c : List UInt8} :
    (∃ (tensorCount : UInt64) (c₁ c₂ : List UInt8), c = c₁ ++ c₂ ∧
      (tensorCount.toNat < limit w ∧ c₁ = lenField w tensorCount.toNat) ∧
        ∃ (kvCount : UInt64) (c₁ d : List UInt8), c₂ = c₁ ++ d ∧
          (kvCount.toNat < limit w ∧ c₁ = lenField w kvCount.toNat) ∧
            ¬ (ggufMaxCount < kvCount ∨ ggufMaxCount < tensorCount) ∧ M kvCount.toNat d) ↔
      ∃ nt nk d, (v ≠ .v1 → nt ≤ 10000000) ∧ nk ≤ 10000000 ∧ M nk d ∧
        c = lenField w nt ++ (lenField w nk ++ d) := by
  constructor
  · rintro ⟨nt, _, _, rfl, ⟨-, rfl⟩, nk, _, d, rfl, ⟨-, rfl⟩, hn, hd⟩
    rw [not_or, le_maxCount, le_maxCount] at hn
    exact ⟨nt.toNat, nk.toNat, d, fun _ => hn.2, hn.1, hd, rfl⟩
  · rintro ⟨nt, nk, d, hnt, hnk, hd, rfl⟩
    have ht := toNat_ofNat_length (hnt hv)
    have hk := toNat_ofNat_length hnk
    refine ⟨UInt64.ofNat nt, _, _, rfl, ⟨?_, by rw [ht]⟩, UInt64.ofNat nk, _, d, rfl, ⟨?_, by rw [hk]⟩, ?_,
      by rwa [hk]⟩
    · rw [ht]
      exact Nat.lt_of_le_of_lt (hnt hv) (count_lt_limit _)
    · rw [hk]
      exact Nat.lt_of_le_of_lt hnk (count_lt_limit _)
    · rw [not_or, le_maxCount, le_maxCount, ht, hk]
      exact ⟨hnk, hnt hv⟩

/-- What the parser reads after a version 1, with the error for too many pairs. -/
def restV1 (e : UInt64 → GgufError) : Input GgufHeader := do
  let _tensorCount ← readU32Le
  let kvCount ← readInt .u32
  if ggufMaxCount < kvCount then
    .fail (e kvCount)
  else do
    .event (.withCapacity kvCount)
    let kvPairs ← (pushed .kvPair (readKvPair .v1)).many kvCount.toNat
    let alignment ← .ofExcept (readAlignmentFromKv kvPairs)
    pure { version := 1, kvPairs, tensors := [], dataAlignment := some alignment,
           dataSectionStart := computeDataSectionStart .v1 kvPairs [] (some alignment) }

/-- What it reads after a version 2 or 3. -/
def restV23 (v : GgufVersion) (e : UInt64 → UInt64 → GgufError) : Input GgufHeader := do
  let tensorCount ← readInt v.wireFormat.headerCountWidth
  let kvCount ← readInt v.wireFormat.headerCountWidth
  if ggufMaxCount < kvCount ∨ ggufMaxCount < tensorCount then
    .fail (e kvCount tensorCount)
  else do
    .event (.withCapacity kvCount)
    let kvPairs ← (pushed .kvPair (readKvPair v.wireFormat)).many kvCount.toNat
    .event (.withCapacity tensorCount)
    let tensors ← (pushed .tensorInfo (readTensorInfo v.wireFormat)).many tensorCount.toNat
    let alignment ← .ofExcept (readAlignmentFromKv kvPairs)
    pure { version := versionNumber v, kvPairs, tensors, dataAlignment := some alignment,
           dataSectionStart := computeDataSectionStart v.wireFormat kvPairs tensors (some alignment) }

/-- Version 1: its counts, and its KV pairs. -/
theorem recognises_restV1 {e : UInt64 → GgufError} : (restV1 e).Recognises (HeaderRest .v1) := by
  refine (recognises_readU32Le.bind fun n => (recognises_readInt .u32).bind fun kvCount =>
    .guard fun _ => recognises_records (recognises_readKvPair .v1) _ kvCount fun kvs =>
    recognises_alignment kvs _).congr fun h c => ⟨?_, ?_⟩
  · rintro ⟨n, _, _, rfl, rfl, kvCount, _, _, rfl, ⟨-, rfl⟩, hm, kvs, k, _, rfl, hl, hM, ha, rfl, rfl⟩
    rw [le_maxCount, ← hl] at hm
    rw [← hl, List.append_nil]
    have := HeaderRest.v1 n hm ha hM
    rwa [lenField, UInt32.ofNat_toNat] at this
  · intro hr
    cases hr with
    | @v1 n kvs k hk ha hM =>
      have hk' : (UInt64.ofNat kvs.length).toNat = kvs.length := toNat_ofNat_length hk
      refine ⟨n, _, _, by rw [lenField, UInt32.ofNat_toNat], rfl, UInt64.ofNat kvs.length, _, _, rfl,
        ⟨?_, by rw [hk']⟩, ?_, kvs, k, [], by simp, hk'.symm, hM, ha, rfl, rfl⟩
      · rw [hk', limit]
        omega
      · rwa [le_maxCount, hk']
    | v23 hv => exact absurd rfl hv

/-- Versions 2 and 3: their counts, KV pairs and tensor infos. -/
theorem recognises_restV23 {v : GgufVersion} (hv : v ≠ .v1) {e : UInt64 → UInt64 → GgufError} :
    (restV23 v e).Recognises (HeaderRest v) := by
  refine ((recognises_readInt _).bind fun tensorCount => (recognises_readInt _).bind fun kvCount =>
    .guard fun _ => recognises_records (recognises_readKvPair _) _ kvCount fun kvs =>
    recognises_records (recognises_readTensorInfo _) _ tensorCount fun ts =>
    recognises_alignment kvs _).congr fun h c => ⟨?_, ?_⟩
  · rintro ⟨nt, _, _, rfl, ⟨-, rfl⟩, nk, _, _, rfl, ⟨-, rfl⟩, hm, kvs, k, _, rfl, hk, hM, ts, t, _,
      rfl, ht, hM', ha, rfl, rfl⟩
    rw [not_or, le_maxCount, le_maxCount, ← hk, ← ht] at hm
    rw [← hk, ← ht, List.append_nil]
    exact .v23 hv hm.2 hm.1 ha hM hM'
  · intro hr
    cases hr with
    | v1 => exact absurd rfl hv
    | @v23 _ _ kvs ts k t ht hk ha hM hM' =>
      have hk' : (UInt64.ofNat kvs.length).toNat = kvs.length := toNat_ofNat_length hk
      have ht' : (UInt64.ofNat ts.length).toNat = ts.length := toNat_ofNat_length ht
      refine ⟨UInt64.ofNat ts.length, _, _, rfl, ⟨?_, by rw [ht']⟩, UInt64.ofNat kvs.length, _, _,
        rfl, ⟨?_, by rw [hk']⟩, ?_, kvs, k, t, rfl, hk'.symm, hM, ts, t, [], by simp, ht'.symm, hM',
        ha, rfl, rfl⟩
      · rw [ht']
        exact Nat.lt_of_le_of_lt ht (count_lt_limit _)
      · rw [hk']
        exact Nat.lt_of_le_of_lt hk (count_lt_limit _)
      · rw [not_or, le_maxCount, le_maxCount, hk', ht']
        exact ⟨hk, ht⟩

theorem versionNumber_eq_one {v : GgufVersion} : versionNumber v = 1 ↔ v = .v1 := by
  cases v <;> decide

/-- The parser decodes the language of headers. -/
theorem recognises_parseGgufReader : parseGgufReader.Recognises HeaderWord := by
  refine ((Recognises.exact 4 _).bind fun magic => .guard fun _ => recognises_readU32Le.bind
    (S := fun n h c => ∃ v, n = versionNumber v ∧ HeaderRest v h c) fun version => ?_).congr
    fun h c => ?_
  · cases hv : GgufVersion.fromU32 version with
    | none =>
      exact (Recognises.fail _).congr fun h c => iff_of_false id fun ⟨v, hv', _⟩ => ne_versionNumber hv v hv'
    | some v =>
      obtain rfl := versionNumber_eq.mp hv
      refine Recognises.congr ?_ fun _ _ => exists_version_iff.symm
      by_cases h1 : v = .v1
      · subst h1
        exact recognises_restV1
      · simp only [versionNumber_eq_one, h1, if_false]
        exact recognises_restV23 h1
  · rw [headerWord_iff]
    constructor
    · rintro ⟨_, _, _, rfl, ⟨rfl, -⟩, hm, version, _, c', rfl, rfl, v, rfl, hr⟩
      rw [not_not] at hm
      exact ⟨v, c', by rw [hm], hr⟩
    · rintro ⟨v, c', rfl, hr⟩
      exact ⟨_, _, _, rfl, ⟨rfl, rfl⟩, not_not.mpr rfl, _, _, c', rfl, rfl, v, rfl, hr⟩

end PestiGguf
