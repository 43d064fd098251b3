import PestiGguf.Framework.Verdict
import PestiGguf.Proof.Streaming
import PestiGguf.Proof.TypeErrors

/-!
# What the parser refuses

A grammar of refusals beside that of headers: for each error but those at the end of
the input, the words after which a run of the parser ends in it (`Spec.Refusal`), from
bad strings (`Spec.BadText`) to records and whole headers. Each reader refuses what the
grammar says and nothing else (`refuses_readString`, ..., `refuses_parseGgufReader`).
So headers and refusals together are a complete prefix code: an input starts with one
word of it, which is what the parser answers, or it is cut short
(`parseGgufReader_verdict`).
-/

namespace PestiGguf

open Codec Codec.Reader Spec

namespace Spec

/-- An error that is not of the end of the input. -/
def Decisive (e : GgufError) : Prop := ¬ EndOfInput e

/-- A length out of range, or bytes that are no string. -/
inductive BadText (w : IntWidth) : GgufError → List UInt8 → Prop
  | length {n : Nat} (hn : n < limit w) (h : n = 0 ∨ 2 ^ 20 < n) :
      BadText w (.invalidMetadata s!"length {n} is invalid (must be > 0 and ≤ {ggufMaxKeyLength})") (lenField w n)
  | utf8 {bytes : List UInt8} (h₁ : 1 ≤ bytes.length) (h₂ : bytes.length ≤ 2 ^ 20) (h : fromUtf8 bytes = none) :
      BadText w (.utf8 bytes) (lenField w bytes.length ++ bytes)

/-- An element that is a bad string, or of a type without a decoder. -/
inductive BadElement (w : IntWidth) : GgufValueType → GgufError → List UInt8 → Prop
  | text {e : GgufError} {c : List UInt8} (h : BadText w e c) : BadElement w .string e c
  | noDecoder {t : GgufValueType} (h : noElement t) : BadElement w t (.unsupportedArrayElementType t.toU32) []

/-- What of a payload is refused: a string, a typed array, the tag of an array's
elements, or one of them. -/
inductive BadPayload (f : GgufWireFormat) : GgufValueType → GgufError → List UInt8 → Prop
  | text {e : GgufError} {c : List UInt8} (h : BadText f.stringWidth e c) : BadPayload f .string e c
  | typedArray {t : GgufValueType} (h : typedArray t) : BadPayload f t (.invalidValueType t.discriminant) []
  | tag {raw : UInt32} (h : GgufValueType.fromU32 raw = none) :
      BadPayload f .array (.invalidValueType raw) (leU32.enc raw)
  | element {t : GgufValueType} {n : Nat} {arr : List GgufKvValue} {e : GgufError} {c d : List UInt8}
      (hn : n < limit f.arrayCountWidth) (hl : arr.length < n) (h : Many (Element f.stringWidth t) arr c)
      (hd : BadElement f.stringWidth t e d) :
      BadPayload f .array e (leU32.enc t.toU32 ++ (lenField f.arrayCountWidth n ++ (c ++ d)))

/-- A key, a tag or a payload. -/
inductive BadKvRecord (f : GgufWireFormat) : GgufError → List UInt8 → Prop
  | key {e : GgufError} {c : List UInt8} (h : BadText f.keyWidth e c) : BadKvRecord f e c
  | tag {key : String} {s : List UInt8} {raw : UInt32} (hs : Text f.keyWidth key s)
      (h : GgufValueType.fromU32 raw = none) : BadKvRecord f (.invalidValueType raw) (s ++ leU32.enc raw)
  | payload {key : String} {s d : List UInt8} {t : GgufValueType} {e : GgufError} (hs : Text f.keyWidth key s)
      (h : BadPayload f t e d) : BadKvRecord f e (s ++ (leU32.enc t.toU32 ++ d))

/-- A name, or a number of dimensions. -/
inductive BadTensorRecord (f : GgufWireFormat) : GgufError → List UInt8 → Prop
  | name {e : GgufError} {c : List UInt8} (h : BadText f.tensorNameWidth e c) : BadTensorRecord f e c
  | dims {name : String} {s : List UInt8} {n : UInt32} (hs : Text f.tensorNameWidth name s) (h : 8 < n.toNat) :
      BadTensorRecord f (.invalidTensor "Too many tensor dimensions (max 8)") (s ++ leU32.enc n)

/-- An alignment that is no power of two up to 65536 is reported in 32 bits. -/
def BadAlignment (kvs : List GgufKvPair) (e : GgufError) : Prop :=
  ∃ z, declaredAlignment kvs = some z ∧ (¬ ∃ k ≤ 16, z = 2 ^ k) ∧ e = .alignmentOutOfRange (UInt32.ofInt z)

/-- What follows a version, up to where it is refused. -/
inductive BadRest : GgufVersion → GgufError → List UInt8 → Prop
  | countV1 {nt nk : Nat} (hk : nk < 2 ^ 32) (h : 10000000 < nk) :
      BadRest .v1 (.invalidMetadata s!"KV pair count {nk} exceeds maximum {ggufMaxCount}") (lenField .u32 nt ++ lenField .u32 nk)
  | counts {v : GgufVersion} (hv : v ≠ .v1) {nt nk : Nat} (ht : nt < 2 ^ 64) (hk : nk < 2 ^ 64)
      (h : 10000000 < nk ∨ 10000000 < nt) :
      BadRest v (.invalidMetadata s!"Counts exceed maximum: kv={nk}, tensors={nt}") (lenField .u64 nt ++ lenField .u64 nk)
  | kvPair {v : GgufVersion} {nt nk : Nat} {kvs : List GgufKvPair} {e : GgufError} {k d : List UInt8}
      (ht : v ≠ .v1 → nt ≤ 10000000) (hk : nk ≤ 10000000) (hl : kvs.length < nk)
      (h : Many (KvRecord v.wireFormat) kvs k) (hd : BadKvRecord v.wireFormat e d) :
      BadRest v e (lenField v.wireFormat.headerCountWidth nt ++ (lenField v.wireFormat.headerCountWidth nk ++ (k ++ d)))
  | tensor {v : GgufVersion} (hv : v ≠ .v1) {nt : Nat} {kvs : List GgufKvPair} {ts : List GgufTensorInfo}
      {e : GgufError} {k t d : List UInt8} (ht : nt ≤ 10000000) (hk : kvs.length ≤ 10000000) (hl : ts.length < nt)
      (h : Many (KvRecord v.wireFormat) kvs k) (h' : Many (TensorRecord v.wireFormat) ts t)
      (hd : BadTensorRecord v.wireFormat e d) :
      BadRest v e (lenField v.wireFormat.headerCountWidth nt ++
        (lenField v.wireFormat.headerCountWidth kvs.length ++ (k ++ (t ++ d))))
  | alignmentV1 {nt : Nat} {kvs : List GgufKvPair} {e : GgufError} {k : List UInt8} (hk : kvs.length ≤ 10000000)
      (h : Many (KvRecord .v1) kvs k) (ha : BadAlignment kvs e) :
      BadRest .v1 e (lenField .u32 nt ++ (lenField .u32 kvs.length ++ k))
  | alignment {v : GgufVersion} (hv : v ≠ .v1) {kvs : List GgufKvPair} {ts : List GgufTensorInfo} {e : GgufError}
      {k t : List UInt8} (ht : ts.length ≤ 10000000) (hk : kvs.length ≤ 10000000)
      (h : Many (KvRecord v.wireFormat) kvs k) (h' : Many (TensorRecord v.wireFormat) ts t) (ha : BadAlignment kvs e) :
      BadRest v e (lenField v.wireFormat.headerCountWidth ts.length ++
        (lenField v.wireFormat.headerCountWidth kvs.length ++ (k ++ t)))

/-- An input up to where the parser refuses it. -/
inductive Refusal : GgufError → List UInt8 → Prop
  | magic {m : List UInt8} (hl : m.length = 4) (h : m ≠ ggufMagic) : Refusal (.invalidMagic (fromUtf8Lossy 4 m)) m
  | version {n : UInt32} (h : ∀ v, n ≠ versionNumber v) : Refusal (.unsupportedVersion n) (ggufMagic ++ leU32.enc n)
  | rest {v : GgufVersion} {e : GgufError} {c : List UInt8} (h : BadRest v e c) :
      Refusal e (ggufMagic ++ (leU32.enc (versionNumber v) ++ c))

end Spec

/-! ## Strings -/

theorem not_decisive_binary : ¬ Decisive (.binary .unexpectedEof) := fun h => h trivial

theorem starves_readU8 : readU8.Spares Decisive := .fixed _ not_decisive_binary

theorem starves_readU16Le : readU16Le.Spares Decisive := .fixed _ not_decisive_binary

theorem starves_readU32Le : readU32Le.Spares Decisive := .fixed _ not_decisive_binary

theorem starves_readU64Le : readU64Le.Spares Decisive := .fixed _ not_decisive_binary

theorem starves_readInt (w : IntWidth) : (readInt w).Spares Decisive := by
  cases w with
  | u32 => exact starves_readU32Le.map
  | u64 => exact starves_readU64Le

theorem starves_readBytes (len : UInt64) : (readBytes len).Spares Decisive :=
  (Spares.event _).bind fun _ => .exact _ fun h => h trivial

/-- A number read from its field. -/
theorem toNat_ofNat_field {w : IntWidth} {n : Nat} (h : n < limit w) : (UInt64.ofNat n).toNat = n :=
  UInt64.toNat_ofNat_of_lt' (Nat.lt_of_lt_of_le h (limit_le w))

theorem toString_ofNat {n : Nat} (h : n < 2 ^ 64) : toString (UInt64.ofNat n) = toString n :=
  congrArg Nat.repr (UInt64.toNat_ofNat_of_lt' h)

theorem length_check {v : UInt64} : (v = 0 ∨ ggufMaxKeyLength < v) ↔ v.toNat = 0 ∨ 2 ^ 20 < v.toNat := by
  rw [← UInt64.toNat_inj, UInt64.lt_iff_toNat_lt]
  rfl

theorem refuses_readLength (w : IntWidth) : (readLength w).Refuses Decisive fun e c => ∃ n, n < limit w ∧
    (n = 0 ∨ 2 ^ 20 < n) ∧ e = .invalidMetadata s!"length {n} is invalid (must be > 0 and ≤ {ggufMaxKeyLength})" ∧
    c = lenField w n := by
  refine (Refuses.after (starves_readInt w) (recognises_readInt w) fun v =>
    .guard fun _ => .of_spares (.pure v)).congr fun e c _ => ⟨?_, ?_⟩
  · rintro ⟨v, _, _, rfl, ⟨hv, rfl⟩, ⟨hq, rfl, rfl⟩ | ⟨-, h⟩⟩
    · exact ⟨v.toNat, hv, length_check.mp hq, rfl, List.append_nil _⟩
    · exact h.elim
  · rintro ⟨n, hn, hq, rfl, rfl⟩
    have h := toNat_ofNat_field hn
    refine ⟨UInt64.ofNat n, _, [], (List.append_nil _).symm, ⟨by rwa [h], by rw [h]⟩, .inl ⟨?_, rfl, ?_⟩⟩
    · rwa [length_check, h]
    · rw [toString_ofNat (Nat.lt_of_lt_of_le hn (limit_le w))]

/-- The bytes of a string, then what it selects. -/
theorem refuses_fromUtf8 {α : Type} {bytes : List UInt8} {p : String → Input α}
    {M : String → GgufError → List UInt8 → Prop} (hp : ∀ s, (p s).Refuses Decisive (M s)) :
    (match fromUtf8 bytes with
      | none => .fail (.utf8 bytes)
      | some s => p s : Input α).Refuses Decisive fun e c =>
        fromUtf8 bytes = none ∧ c = [] ∧ e = .utf8 bytes ∨ ∃ s, bytes = asBytes s ∧ M s e c := by
  cases h : fromUtf8 bytes with
  | none =>
    refine (Refuses.fail _).congr fun e c _ => ⟨fun hc => .inl ⟨rfl, hc⟩, ?_⟩
    rintro (⟨-, hc⟩ | ⟨s, rfl, -⟩)
    · exact hc
    · simp at h
  | some s =>
    obtain rfl := fromUtf8_eq_some.mp h
    refine (hp s).congr fun e c _ => ⟨fun hc => .inr ⟨s, rfl, hc⟩, ?_⟩
    rintro (⟨hnone, -⟩ | ⟨s', hs, hc⟩)
    · cases hnone
    · rwa [asBytes_inj.mp hs]

/-- A length, its bytes and their string, then what is selected: as it is read, and by
the grammar. -/
theorem badText_iff {w : IntWidth} {M : String → GgufError → List UInt8 → Prop} {e : GgufError} {c : List UInt8} :
    ((∃ n, n < limit w ∧ (n = 0 ∨ 2 ^ 20 < n) ∧
        e = .invalidMetadata s!"length {n} is invalid (must be > 0 and ≤ {ggufMaxKeyLength})" ∧ c = lenField w n) ∨
      ∃ (len : UInt64) (c₁ c₂ : List UInt8), c = c₁ ++ c₂ ∧
        ((1 ≤ len.toNat ∧ len.toNat ≤ 2 ^ 20) ∧ c₁ = lenField w len.toNat) ∧
        ∃ (bytes c₁ d : List UInt8), c₂ = c₁ ++ d ∧ (c₁ = bytes ∧ bytes.length = len.toNat) ∧
          (fromUtf8 bytes = none ∧ d = [] ∧ e = .utf8 bytes ∨ ∃ s, bytes = asBytes s ∧ M s e d)) ↔
      BadText w e c ∨ ∃ s c₁ d, c = c₁ ++ d ∧ Text w s c₁ ∧ M s e d := by
  constructor
  · rintro (⟨n, hn, hq, rfl, rfl⟩ | ⟨len, _, _, rfl, ⟨hlen, rfl⟩, bytes, _, d, rfl, ⟨rfl, hl⟩, ⟨h, rfl, rfl⟩ | ⟨s, rfl, hd⟩⟩)
    · exact .inl (.length hn hq)
    · rw [← hl] at hlen ⊢
      rw [List.append_nil]
      exact .inl (.utf8 hlen.1 hlen.2 h)
    · rw [length_asBytes] at hl
      rw [← hl] at hlen ⊢
      exact .inr ⟨s, _, d, (List.append_assoc ..).symm, ⟨hlen, rfl⟩, hd⟩
  · have hsize {n : Nat} (h : n ≤ 2 ^ 20) : (UInt64.ofNat n).toNat = n :=
      UInt64.toNat_ofNat_of_lt' (Nat.lt_of_le_of_lt h (by decide))
    rintro (hbad | ⟨s, _, d, rfl, ⟨hs, rfl⟩, hd⟩)
    · cases hbad with
      | length hn hq => exact .inl ⟨_, hn, hq, rfl, rfl⟩
      | @utf8 bytes h₁ h₂ h =>
        have hn := hsize h₂
        exact .inr ⟨UInt64.ofNat bytes.length, _, _, rfl, ⟨by rw [hn]; exact ⟨h₁, h₂⟩, by rw [hn]⟩, bytes, bytes, [],
          (List.append_nil _).symm, ⟨rfl, hn.symm⟩, .inl ⟨h, rfl, rfl⟩⟩
    · have hn := hsize hs.2
      exact .inr ⟨UInt64.ofNat s.utf8ByteSize, _, _, List.append_assoc .., ⟨by rw [hn]; exact hs, by rw [hn]⟩,
        asBytes s, asBytes s, d, rfl, ⟨rfl, by rw [hn, length_asBytes]⟩, .inr ⟨s, rfl, hd⟩⟩

theorem refuses_readString (w : IntWidth) : (readString w).Refuses Decisive (BadText w) := by
  refine ((refuses_readLength w).bind (recognises_readLength w) fun len => Refuses.after (starves_readBytes len)
    (recognises_readBytes len) fun bytes => refuses_fromUtf8 fun s => .of_spares (.pure s)).congr fun e c _ => ?_
  exact (badText_iff (M := fun _ _ _ => False)).trans (by simp)

/-! ## KV values -/

theorem starves_readKvScalar {t : GgufValueType} (hs : t ≠ .string) (ha : t ≠ .array) (ht : typedArray t = false) :
    (readKvScalar t).Spares Decisive := by
  cases t with
  | string => exact absurd rfl hs
  | array => exact absurd rfl ha
  | int8Array | uint8Array => cases ht
  | uint8 | bool => exact starves_readU8.map
  | int8 => exact starves_readU8.map.map
  | uint16 | bfloat16 | float16 => exact starves_readU16Le.map
  | int16 => exact starves_readU16Le.map.map
  | uint32 | float32 => exact starves_readU32Le.map
  | int32 => exact starves_readU32Le.map.map
  | uint64 | float64 => exact starves_readU64Le.map
  | int64 => exact starves_readU64Le.map.map

theorem refuses_readKvArrayElement (t : GgufValueType) (w : IntWidth) :
    (readKvArrayElement t t.toU32 w).Refuses Decisive (BadElement w t) := by
  cases hno : noElement t with
  | true =>
    have hfail : readKvArrayElement t t.toU32 w = .fail (.unsupportedArrayElementType t.toU32) := by
      cases t <;> first | rfl | cases hno
    rw [hfail]
    refine (Refuses.fail _).congr fun e c _ => ⟨?_, fun h => ?_⟩
    · rintro ⟨rfl, rfl⟩
      exact .noDecoder hno
    · cases h with
      | text h => cases hno
      | noDecoder h => exact ⟨rfl, rfl⟩
  | false =>
    have scalar (hs : t ≠ .string) (ha : t ≠ .array) (ht : typedArray t = false)
        (heq : readKvArrayElement t t.toU32 w = readKvScalar t) :
        (readKvArrayElement t t.toU32 w).Refuses Decisive (BadElement w t) := by
      refine (Refuses.of_spares (heq ▸ starves_readKvScalar hs ha ht)).congr fun e c _ => ⟨False.elim, fun h => ?_⟩
      cases h with
      | text h => exact hs rfl
      | noDecoder h => exact Bool.false_ne_true (hno.symm.trans h)
    cases t with
    | string =>
      refine ((refuses_readString w).map (recognises_readString w)).congr fun e c _ => ⟨.text, fun h => ?_⟩
      cases h with
      | text h => exact h
      | noDecoder h => cases h
    | float64 | array | int8Array | uint8Array => cases hno
    | _ => exact scalar (by decide) (by decide) rfl rfl

/-- A tag, then what its type selects. -/
theorem refuses_tag {α : Type} {p : UInt32 → GgufValueType → Input α}
    {M : GgufValueType → GgufError → List UInt8 → Prop} (hp : ∀ t, (p t.toU32 t).Refuses Decisive (M t)) :
    (do
      let raw ← readU32Le
      match GgufValueType.fromU32 raw with
      | none => .fail (.invalidValueType raw)
      | some t => p raw t : Input α).Refuses Decisive fun e c =>
        (∃ raw, GgufValueType.fromU32 raw = none ∧ c = leU32.enc raw ∧ e = .invalidValueType raw) ∨
          ∃ t d, c = leU32.enc t.toU32 ++ d ∧ M t e d := by
  refine (Refuses.after starves_readU32Le recognises_readU32Le (M := fun raw e d =>
    GgufValueType.fromU32 raw = none ∧ d = [] ∧ e = .invalidValueType raw ∨
      ∃ t, raw = t.toU32 ∧ M t e d) fun raw => ?_).congr fun e c _ => ⟨?_, ?_⟩
  · cases h : GgufValueType.fromU32 raw with
    | none =>
      refine (Refuses.fail _).congr fun e c _ => ⟨fun hc => .inl ⟨rfl, hc⟩, ?_⟩
      rintro (⟨-, hc⟩ | ⟨t, rfl, -⟩)
      · exact hc
      · simp at h
    | some t =>
      obtain rfl := fromU32_eq_some.mp h
      refine (hp t).congr fun e c _ => ⟨fun hc => .inr ⟨t, rfl, hc⟩, ?_⟩
      rintro (⟨hnone, -⟩ | ⟨t', ht, hc⟩)
      · cases hnone
      · obtain rfl : t = t' := Option.some.inj ((fromU32_toU32 t).symm.trans (ht ▸ fromU32_toU32 t'))
        exact hc
  · rintro ⟨raw, _, d, rfl, rfl, ⟨h, rfl, rfl⟩ | ⟨t, rfl, hd⟩⟩
    · exact .inl ⟨raw, h, List.append_nil _, rfl⟩
    · exact .inr ⟨t, d, rfl, hd⟩
  · rintro (⟨raw, h, rfl, rfl⟩ | ⟨t, d, rfl, hd⟩)
    · exact ⟨raw, _, [], (List.append_nil _).symm, rfl, .inl ⟨h, rfl, rfl⟩⟩
    · exact ⟨_, _, d, rfl, rfl, .inr ⟨t, rfl, hd⟩⟩

/-- `n` records, their count announced, and the rest. -/
theorem refuses_records {α β : Type} {p : Input α} {R : α → List UInt8 → Prop} {L : GgufError → List UInt8 → Prop}
    (hp : p.Refuses Decisive L) (hR : p.Recognises R) (record : Record) (n : UInt64) {q : List α → Input β}
    {M : List α → GgufError → List UInt8 → Prop} (hq : ∀ as, (q as).Refuses Decisive (M as)) :
    (do
      .event (.withCapacity n)
      let as ← (pushed record p).many n.toNat
      q as : Input β).Refuses Decisive fun e c =>
        (∃ as cs d, c = cs ++ d ∧ as.length < n.toNat ∧ Many R as cs ∧ L e d) ∨
          ∃ as cs d, c = cs ++ d ∧ as.length = n.toNat ∧ Many R as cs ∧ M as e d := by
  have hpushed : (pushed record p).Refuses Decisive L := hp.before hR fun a => (Spares.event _).bind fun _ => .pure a
  have hRp := recognises_pushed hR record
  refine (Refuses.after (.event _) (.event _) fun _ => (hpushed.many hRp n.toNat).bind (hRp.many n.toNat) hq).congr
    fun e c _ => ⟨?_, ?_⟩
  · rintro ⟨_, _, _, rfl, rfl, h | ⟨as, cs, d, rfl, ⟨hl, hM⟩, hd⟩⟩
    · exact .inl h
    · exact .inr ⟨as, cs, d, rfl, hl, hM, hd⟩
  · rintro (h | ⟨as, cs, d, rfl, hl, hM, hd⟩)
    · exact ⟨(), [], _, rfl, rfl, .inl h⟩
    · exact ⟨(), [], _, rfl, rfl, .inr ⟨as, cs, d, rfl, ⟨hl, hM⟩, hd⟩⟩

theorem refuses_readKvValueGeneric (t : GgufValueType) (f : GgufWireFormat) :
    (readKvValueGeneric t f.stringWidth f.arrayCountWidth).Refuses Decisive (BadPayload f t) := by
  cases ht : typedArray t with
  | true =>
    have hfail : readKvValueGeneric t f.stringWidth f.arrayCountWidth = .fail (.invalidValueType t.discriminant) := by
      cases t <;> first | rfl | cases ht
    rw [hfail]
    refine (Refuses.fail _).congr fun e c _ => ⟨?_, fun h => ?_⟩
    · rintro ⟨rfl, rfl⟩
      exact .typedArray ht
    · cases h with
      | typedArray h => exact ⟨rfl, rfl⟩
      | text | tag | element => cases ht
  | false =>
    have scalar (hs : t ≠ .string) (ha : t ≠ .array)
        (heq : readKvValueGeneric t f.stringWidth f.arrayCountWidth = readKvScalar t) :
        (readKvValueGeneric t f.stringWidth f.arrayCountWidth).Refuses Decisive (BadPayload f t) := by
      refine (Refuses.of_spares (heq ▸ starves_readKvScalar hs ha ht)).congr fun e c _ => ⟨False.elim, fun h => ?_⟩
      cases h with
      | text h => exact hs rfl
      | typedArray h => exact Bool.false_ne_true (ht.symm.trans h)
      | tag _ | element _ _ _ _ => exact ha rfl
    cases t with
    | string =>
      refine ((refuses_readString _).map (recognises_readString _)).congr fun e c _ => ⟨.text, fun h => ?_⟩
      cases h with
      | text h => exact h
      | typedArray h => cases h
    | array =>
      refine (refuses_tag fun t => Refuses.after (starves_readInt _) (recognises_readInt _) fun n =>
        refuses_records (refuses_readKvArrayElement t _) (recognises_readKvArrayElement t _ _) _ n fun as =>
        .of_spares (.pure _)).congr fun e c _ => ⟨?_, fun h => ?_⟩
      · rintro (⟨raw, h, rfl, rfl⟩ | ⟨t, _, rfl, n, _, _, rfl, ⟨hn, rfl⟩, ⟨arr, cs, d, rfl, hl, hM, hd⟩ | ⟨_, _, _, _, _, _, h⟩⟩)
        · exact .tag h
        · exact .element hn hl hM hd
        · exact h.elim
      · cases h with
        | typedArray h => cases h
        | tag h => exact .inl ⟨_, h, rfl, rfl⟩
        | @element t n arr _ cs d hn hl hM hd =>
          have hcount := toNat_ofNat_field hn
          exact .inr ⟨t, _, rfl, UInt64.ofNat n, _, _, rfl, ⟨by rwa [hcount], by rw [hcount]⟩,
            .inl ⟨arr, cs, d, rfl, by rwa [hcount], hM, hd⟩⟩
    | int8Array | uint8Array => cases ht
    | _ => exact scalar (by decide) (by decide) rfl

/-! ## Records -/

theorem refuses_readKvPair (f : GgufWireFormat) : (readKvPair f).Refuses Decisive (BadKvRecord f) := by
  refine ((refuses_readString _).bind (recognises_readString _) fun key => refuses_tag fun t =>
    (refuses_readKvValueGeneric t f).map (recognises_readKvValueGeneric t f)).congr fun e c _ => ⟨?_, fun h => ?_⟩
  · rintro (h | ⟨key, s, _, rfl, hs, ⟨raw, h, rfl, rfl⟩ | ⟨t, d, rfl, h⟩⟩)
    · exact .key h
    · exact .tag hs h
    · exact .payload hs h
  · cases h with
    | key h => exact .inl h
    | tag hs h => exact .inr ⟨_, _, _, rfl, hs, .inl ⟨_, h, rfl, rfl⟩⟩
    | payload hs h => exact .inr ⟨_, _, _, rfl, hs, .inr ⟨_, _, rfl, h⟩⟩

theorem starves_tensorFields (n : Nat) (name : String) : (do
    let shape ← (pushed .dimension readU64Le).many n
    let dtype ← readU32Le
    let offset ← readU64Le
    pure { name, shape, offset, dtype } : Input GgufTensorInfo).Spares Decisive :=
  ((starves_readU64Le.bind fun _ => (Spares.event _).bind fun _ => .pure _).many n).bind fun _ =>
    starves_readU32Le.bind fun _ => starves_readU64Le.map

theorem refuses_readTensorInfo (f : GgufWireFormat) : (readTensorInfo f).Refuses Decisive (BadTensorRecord f) := by
  refine ((refuses_readLength _).bind (recognises_readLength _) fun len => .guard fun _ =>
    Refuses.after (starves_readBytes len) (recognises_readBytes len) fun bytes => refuses_fromUtf8 fun name =>
    Refuses.after starves_readU32Le recognises_readU32Le fun nDims => .guard fun _ =>
    .of_spares (starves_tensorFields nDims.toNat name)).congr fun e c _ => ?_
  -- the bound on names is that on all lengths
  have hmax (len : UInt64) (h : len.toNat ≤ 2 ^ 20) : ¬ ggufMaxTensorNameLength < len := by
    rw [UInt64.not_lt, UInt64.le_iff_toNat_le]
    exact h
  refine Iff.trans ?_ ((badText_iff (w := f.tensorNameWidth) (e := e) (c := c) (M := fun _ e d => ∃ n : UInt32,
    8 < n.toNat ∧ d = leU32.enc n ∧ e = .invalidTensor "Too many tensor dimensions (max 8)")).trans ⟨?_, fun h => ?_⟩)
  · refine or_congr_right (exists_congr fun len => exists_congr fun c₁ => exists_congr fun c₂ =>
      and_congr_right fun _ => and_congr_right fun hlen => ?_)
    simp only [hmax len hlen.1.2, false_and, false_or, not_false_eq_true, true_and]
    refine exists_congr fun bytes => exists_congr fun c₁ => exists_congr fun d => and_congr_right fun _ =>
      and_congr_right fun _ => or_congr_right (exists_congr fun s => and_congr_right fun _ => ⟨?_, ?_⟩)
    · rintro ⟨n, _, _, rfl, rfl, ⟨hn, rfl, rfl⟩ | ⟨-, h⟩⟩
      · exact ⟨n, UInt32.lt_iff_toNat_lt.mp hn, List.append_nil _, rfl⟩
      · exact h.elim
    · rintro ⟨n, hn, rfl, rfl⟩
      exact ⟨n, _, [], (List.append_nil _).symm, rfl, .inl ⟨UInt32.lt_iff_toNat_lt.mpr hn, rfl, rfl⟩⟩
  · rintro (h | ⟨name, s, _, rfl, hs, n, hn, rfl, rfl⟩)
    · exact .name h
    · exact .dims hs hn
  · cases h with
    | name h => exact .inl h
    | dims hs hn => exact .inr ⟨_, _, _, rfl, hs, _, hn, rfl, rfl⟩

/-! ## Headers -/

theorem alignment_ite_error {a : UInt64} {e : GgufError} :
    (if a = 0 then (.error (.alignmentOutOfRange 0) : Except GgufError UInt64)
      else if a &&& (a - 1) ≠ 0 then .error (.alignmentOutOfRange a.toUInt32)
      else if maxAlignment < a then .error (.alignmentOutOfRange a.toUInt32)
      else .ok a) = .error e ↔ (¬ ∃ k ≤ 16, a.toNat = 2 ^ k) ∧ e = .alignmentOutOfRange a.toUInt32 := by
  rw [← alignment_checks]
  split_ifs with h₁ h₂ h₃
  · simp [h₁, eq_comm]
  · simp [h₂, eq_comm]
  · simp [h₃, eq_comm]
  · rw [not_not] at h₂
    simp [h₁, h₂, h₃]

theorem readAlignmentFromKv_eq_error {kvs : List GgufKvPair} {e : GgufError} :
    readAlignmentFromKv kvs = .error e ↔ BadAlignment kvs e := by
  rw [readAlignmentFromKv, alignment_ite_error, BadAlignment, declaredAlignment]
  have default : ∃ k ≤ 16, ggufDefaultAlignment.toUInt64.toNat = 2 ^ k := ⟨5, by decide, rfl⟩
  cases kvs.find? (·.key == "general.alignment") with
  | none =>
    refine iff_of_false (fun h => h.1 default) ?_
    rintro ⟨_, h, -⟩
    cases h
  | some kv =>
    rcases asU64_eq kv.value with ⟨hz, ha⟩ | ⟨z, u, hz, ha, hu, hlo, hhi⟩
    · simp only [Option.bind_some, hz, ha, Option.getD_none, reduceCtorEq, false_and, exists_false, iff_false]
      exact fun h => h.1 default
    · simp only [Option.bind_some, hz, ha, Option.getD_some, Option.some.injEq, exists_eq_left']
      have hpow (k : Nat) (hk : k ≤ 16) : u.toNat = 2 ^ k ↔ z = 2 ^ k := by
        have hle := Nat.pow_le_pow_right (n := 2) (by omega) hk
        have e : (2 : Int) ^ k = ((2 ^ k : Nat) : Int) := by push_cast; rfl
        rw [e]
        generalize 2 ^ k = n at hle ⊢
        omega
      have hcast : u.toUInt32 = UInt32.ofInt z := by
        rw [← UInt32.toNat_inj, UInt64.toNat_toUInt32, UInt32.ofInt, UInt32.toNat_ofNat']
        omega
      rw [hcast]
      refine and_congr_left' (not_congr (exists_congr fun k => and_congr_right fun hk => hpow k hk))

theorem refuses_alignment {α : Type} (kvs : List GgufKvPair) (f : UInt64 → α) :
    (do
      let a ← .ofExcept (readAlignmentFromKv kvs)
      pure (f a) : Input α).Refuses Decisive fun e c => c = [] ∧ BadAlignment kvs e :=
  ((Refuses.ofExcept _).map (.ofExcept _)).congr fun e c _ => by rw [readAlignmentFromKv_eq_error]

theorem count_check {n : UInt64} : ggufMaxCount < n ↔ 10000000 < n.toNat := by
  rw [UInt64.lt_iff_toNat_lt]
  rfl

theorem refuses_restV1 {e : UInt64 → GgufError}
    (he : ∀ n, e n = .invalidMetadata s!"KV pair count {n} exceeds maximum {ggufMaxCount}") :
    (restV1 e).Refuses Decisive (BadRest .v1) := by
  refine (Refuses.after starves_readU32Le recognises_readU32Le fun n => Refuses.after (starves_readInt _)
    (recognises_readInt _) fun kvCount => .guard fun _ => refuses_records (refuses_readKvPair .v1)
    (recognises_readKvPair .v1) _ kvCount fun kvs => refuses_alignment kvs _).congr fun x c _ => ⟨?_, fun h => ?_⟩
  · rintro ⟨nt, _, _, rfl, rfl, nk, _, _, rfl, ⟨hk, rfl⟩, ⟨hq, rfl, rfl⟩ |
      ⟨hq, ⟨kvs, k, d, rfl, hl, hM, hd⟩ | ⟨kvs, k, _, rfl, hl, hM, rfl, ha⟩⟩⟩
    · rw [he, List.append_nil, ← UInt32.ofNat_toNat (x := nt)]
      exact .countV1 hk (count_check.mp hq)
    · rw [← UInt32.ofNat_toNat (x := nt)]
      exact .kvPair (v := .v1) (fun h => absurd rfl h) (le_maxCount.mp hq) hl hM hd
    · rw [← UInt32.ofNat_toNat (x := nt), ← hl, List.append_nil]
      exact .alignmentV1 (hl ▸ le_maxCount.mp hq) hM ha
  · cases h with
    | @countV1 nt nk hk h =>
      have hcount := toNat_ofNat_field (w := .u32) hk
      refine ⟨UInt32.ofNat nt, _, _, rfl, rfl, UInt64.ofNat nk, _, [], (List.append_nil _).symm,
        ⟨by rwa [hcount], by rw [hcount]⟩, .inl ⟨by rwa [count_check, hcount], rfl, ?_⟩⟩
      rw [he, toString_ofNat (Nat.lt_of_lt_of_le hk (limit_le .u32))]
    | @kvPair _ nt nk kvs _ k d ht hk hl hM hd =>
      have hcount := toNat_ofNat_length hk
      exact ⟨UInt32.ofNat nt, _, _, rfl, rfl, UInt64.ofNat nk, _, _, rfl,
        ⟨by rw [hcount]; exact Nat.lt_of_le_of_lt hk (count_lt_limit _), by rw [hcount]; rfl⟩,
        .inr ⟨by rwa [le_maxCount, hcount], .inl ⟨kvs, k, d, rfl, by rwa [hcount], hM, hd⟩⟩⟩
    | @alignmentV1 nt kvs _ k hk hM ha =>
      have hcount := toNat_ofNat_length hk
      exact ⟨UInt32.ofNat nt, _, _, rfl, rfl, UInt64.ofNat kvs.length, _, _, rfl,
        ⟨by rw [hcount]; exact Nat.lt_of_le_of_lt hk (count_lt_limit _), by rw [hcount]⟩,
        .inr ⟨by rwa [le_maxCount, hcount], .inr ⟨kvs, k, [], (List.append_nil _).symm, hcount.symm, hM, rfl, ha⟩⟩⟩
    | counts hv | tensor hv | alignment hv => exact absurd rfl hv

/-- The errors for counts that are too large. -/
theorem refuses_restV23 {v : GgufVersion} (hv : v ≠ .v1) {e : UInt64 → UInt64 → GgufError}
    (he : ∀ nk nt, e nk nt = .invalidMetadata s!"Counts exceed maximum: kv={nk}, tensors={nt}") :
    (restV23 v e).Refuses Decisive (BadRest v) := by
  have hwidth : v.wireFormat.headerCountWidth = .u64 := by
    cases v with
    | v1 => exact absurd rfl hv
    | v2 | v3 => rfl
  refine (Refuses.after (starves_readInt _) (recognises_readInt _) fun tensorCount => Refuses.after (starves_readInt _)
    (recognises_readInt _) fun kvCount => .guard fun _ => refuses_records (refuses_readKvPair _)
    (recognises_readKvPair _) _ kvCount fun kvs => refuses_records (refuses_readTensorInfo _)
    (recognises_readTensorInfo _) _ tensorCount fun ts => refuses_alignment kvs _).congr fun x c _ => ⟨?_, fun h => ?_⟩
  · rintro ⟨nt, _, _, rfl, ⟨ht, rfl⟩, nk, _, _, rfl, ⟨hk, rfl⟩, ⟨hq, rfl, rfl⟩ |
      ⟨hq, ⟨kvs, k, d, rfl, hl, hM, hd⟩ | ⟨kvs, k, _, rfl, hl, hM, ⟨ts, t, d, rfl, hl', hM', hd⟩ |
        ⟨ts, t, _, rfl, hl', hM', rfl, ha⟩⟩⟩⟩
    · rw [he, List.append_nil, hwidth]
      rw [hwidth] at ht hk
      rw [count_check, count_check] at hq
      exact .counts hv ht hk hq
    · rw [not_or, le_maxCount, le_maxCount] at hq
      exact .kvPair (fun _ => hq.2) hq.1 hl hM hd
    · rw [not_or, le_maxCount, le_maxCount, ← hl] at hq
      rw [← hl]
      exact .tensor hv hq.2 hq.1 hl' hM hM' hd
    · rw [not_or, le_maxCount, le_maxCount, ← hl, ← hl'] at hq
      rw [← hl, ← hl', List.append_nil]
      exact .alignment hv hq.2 hq.1 hM hM' ha
  · have field {n : Nat} (h : n ≤ 10000000) : (UInt64.ofNat n).toNat < limit v.wireFormat.headerCountWidth ∧
        lenField v.wireFormat.headerCountWidth n = lenField v.wireFormat.headerCountWidth (UInt64.ofNat n).toNat := by
      rw [toNat_ofNat_length h]
      exact ⟨Nat.lt_of_le_of_lt h (count_lt_limit _), rfl⟩
    have inRange {nk nt : Nat} (hk : nk ≤ 10000000) (ht : nt ≤ 10000000) :
        ¬ (ggufMaxCount < UInt64.ofNat nk ∨ ggufMaxCount < UInt64.ofNat nt) := by
      rw [not_or, le_maxCount, le_maxCount, toNat_ofNat_length hk, toNat_ofNat_length ht]
      exact ⟨hk, ht⟩
    cases h with
    | countV1 | alignmentV1 => exact absurd rfl hv
    | @counts _ _ nt nk ht hk hq =>
      have hnt := toNat_ofNat_field (w := .u64) ht
      have hnk := toNat_ofNat_field (w := .u64) hk
      rw [hwidth]
      refine ⟨UInt64.ofNat nt, _, _, rfl, ⟨by rwa [hnt], by rw [hnt]⟩, UInt64.ofNat nk, _, [],
        (List.append_nil _).symm, ⟨by rwa [hnk], by rw [hnk]⟩, .inl ⟨by rwa [count_check, count_check, hnt, hnk], rfl, ?_⟩⟩
      rw [he, toString_ofNat hk, toString_ofNat ht]
    | @kvPair _ nt nk kvs _ k d ht hk hl hM hd =>
      exact ⟨UInt64.ofNat nt, _, _, rfl, field (ht hv), UInt64.ofNat nk, _, _, rfl, field hk,
        .inr ⟨inRange hk (ht hv), .inl ⟨kvs, k, d, rfl, by rwa [toNat_ofNat_length hk], hM, hd⟩⟩⟩
    | @tensor _ _ nt kvs ts _ k t d ht hk hl hM hM' hd =>
      exact ⟨UInt64.ofNat nt, _, _, rfl, field ht, UInt64.ofNat kvs.length, _, _, rfl, field hk,
        .inr ⟨inRange hk ht, .inr ⟨kvs, k, _, rfl, (toNat_ofNat_length hk).symm, hM,
          .inl ⟨ts, t, d, rfl, by rwa [toNat_ofNat_length ht], hM', hd⟩⟩⟩⟩
    | @alignment _ _ kvs ts _ k t ht hk hM hM' ha =>
      exact ⟨UInt64.ofNat ts.length, _, _, rfl, field ht, UInt64.ofNat kvs.length, _, _, rfl, field hk,
        .inr ⟨inRange hk ht, .inr ⟨kvs, k, t, rfl, (toNat_ofNat_length hk).symm, hM,
          .inr ⟨ts, t, [], (List.append_nil _).symm, (toNat_ofNat_length ht).symm, hM', rfl, ha⟩⟩⟩⟩

/-- The parser refuses the words of the grammar and no other. -/
theorem refuses_parseGgufReader : parseGgufReader.Refuses Decisive Refusal := by
  refine (Refuses.after (Spares.exact 4 not_decisive_binary) (Recognises.exact 4 _) fun magic => .guard fun _ =>
    Refuses.after starves_readU32Le recognises_readU32Le (M := fun n e c =>
      ((∀ v, n ≠ versionNumber v) ∧ c = [] ∧ e = .unsupportedVersion n) ∨ ∃ v, n = versionNumber v ∧ BadRest v e c)
      fun version => ?_).congr fun e c _ => ?_
  · cases hv : GgufVersion.fromU32 version with
    | none =>
      refine (Refuses.fail _).congr fun e c _ => ⟨fun h => .inl ⟨ne_versionNumber hv, h⟩, ?_⟩
      rintro (⟨-, h⟩ | ⟨v, hv', -⟩)
      · exact h
      · exact absurd hv' (ne_versionNumber hv v)
    | some v =>
      obtain rfl := versionNumber_eq.mp hv
      refine Refuses.congr (L := BadRest v) ?_ fun e c _ => ?_
      · by_cases h1 : v = .v1
        · subst h1
          exact refuses_restV1 fun _ => rfl
        · simp only [versionNumber_eq_one, h1, if_false]
          exact refuses_restV23 h1 fun _ _ => rfl
      · rw [exists_version_iff, or_iff_right fun h => h.1 v rfl]
  · constructor
    · rintro ⟨m, _, _, rfl, ⟨rfl, hl⟩, ⟨hm, rfl, rfl⟩ | ⟨hm, version, _, _, rfl, rfl, ⟨hv, rfl, rfl⟩ | ⟨v, rfl, h⟩⟩⟩
      · rw [List.append_nil]
        exact .magic hl hm
      · rw [not_not] at hm
        rw [hm, List.append_nil]
        exact .version hv
      · rw [not_not] at hm
        rw [hm]
        exact .rest h
    · intro h
      cases h with
      | magic hl hm => exact ⟨_, _, [], (List.append_nil _).symm, ⟨rfl, hl⟩, .inl ⟨hm, rfl, rfl⟩⟩
      | version hv =>
        exact ⟨_, _, _, rfl, ⟨rfl, rfl⟩, .inr ⟨not_not.mpr rfl, _, _, [], (List.append_nil _).symm, rfl,
          .inl ⟨hv, rfl, rfl⟩⟩⟩
      | rest h => exact ⟨_, _, _, rfl, ⟨rfl, rfl⟩, .inr ⟨not_not.mpr rfl, _, _, _, rfl, rfl, .inr ⟨_, rfl, h⟩⟩⟩

/-! ## Verdicts -/

theorem Spec.BadText.decisive {w : IntWidth} {e : GgufError} {c : List UInt8} (h : BadText w e c) : Decisive e := by
  cases h <;> exact id

theorem Spec.BadElement.decisive {w : IntWidth} {t : GgufValueType} {e : GgufError} {c : List UInt8}
    (h : BadElement w t e c) : Decisive e := by
  cases h with
  | text h => exact h.decisive
  | noDecoder _ => exact id

theorem Spec.BadKvRecord.decisive {f : GgufWireFormat} {e : GgufError} {c : List UInt8} (h : BadKvRecord f e c) :
    Decisive e := by
  cases h with
  | key h => exact h.decisive
  | tag _ _ => exact id
  | payload _ h =>
    cases h with
    | text h => exact h.decisive
    | element _ _ _ h => exact h.decisive
    | typedArray _ | tag _ => exact id

theorem Spec.BadTensorRecord.decisive {f : GgufWireFormat} {e : GgufError} {c : List UInt8}
    (h : BadTensorRecord f e c) : Decisive e := by
  cases h with
  | name h => exact h.decisive
  | dims _ _ => exact id

theorem Spec.BadAlignment.decisive {kvs : List GgufKvPair} {e : GgufError} (h : BadAlignment kvs e) : Decisive e := by
  obtain ⟨z, -, -, rfl⟩ := h
  exact id

theorem Spec.Refusal.decisive {e : GgufError} {c : List UInt8} (h : Refusal e c) : Decisive e := by
  cases h with
  | magic _ _ | version _ => exact id
  | rest h =>
    cases h with
    | countV1 _ _ | counts _ _ _ _ => exact id
    | kvPair _ _ _ _ hd => exact hd.decisive
    | tensor _ _ _ _ _ _ hd => exact hd.decisive
    | alignmentV1 _ _ ha | alignment _ _ _ _ _ ha => exact ha.decisive

theorem decides_parseGgufReader : ∃ n, parseGgufReader.Decides EndOfInput HeaderWord Refusal n := by
  obtain ⟨n, hn⟩ := streams_parseGgufReader
  exact ⟨n, recognises_parseGgufReader, refuses_parseGgufReader, hn, fun _ _ h => h.decisive⟩

/-- Headers and refusals are a complete prefix code, and the parser is its decoder. A
run that does not end at the end of the input takes a word of it and answers what the
word denotes, a header or an error; no input starts with two words; and an input is
cut short exactly where some words are longer and start with it. Allocations are set
aside: `Vec::with_capacity` of an array count of 2^58 or more panics, and is read past
here. -/
theorem parseGgufReader_verdict (b : List UInt8) :
    (∀ x r, (parseGgufReader b).result = x ∧ (parseGgufReader b).rest = r ∧ ¬ Starved EndOfInput x ↔
      ∃ c, b = c ++ r ∧ Verdict HeaderWord Refusal x c) ∧
    (∀ x x' c c', c <+: b → c' <+: b → Verdict HeaderWord Refusal x c → Verdict HeaderWord Refusal x' c' →
      x = x' ∧ c = c') ∧
    (Cut b ↔ ∃ s x, s ≠ [] ∧ Verdict HeaderWord Refusal x (b ++ s)) := by
  obtain ⟨n, hn⟩ := decides_parseGgufReader
  refine ⟨fun x r => hn.ends_iff, ?_, hn.starved_iff⟩
  rintro x x' c c' ⟨r, rfl⟩ ⟨r', hr⟩ hc hc'
  exact hn.unique hc hc' hr.symm

end PestiGguf
