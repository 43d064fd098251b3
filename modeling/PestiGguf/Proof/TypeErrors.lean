import PestiGguf.Framework.Errors
import PestiGguf.Proof.Acceptance

/-!
# Type errors

Decoding stops at the tag of a value or of an array's elements that is unknown,
or whose type has no decoder (`StopsAt`). The error is built of the tag as it was
read, but for the two typed arrays: a pair of one of these is answered with the
place of its type in an enum, which is another number than its tag
(`raises_parseGgufReader`). So the errors name the tag at which decoding stopped
exactly on the inputs where it does not stop at such a pair
(`typeError_names_tag_iff`).
-/

namespace PestiGguf

open Codec Codec.Reader Spec

namespace Spec

def TypeError (e : GgufError) : Prop := ∃ n, e = .invalidValueType n ∨ e = .unsupportedArrayElementType n

/-- The two places of a tag. -/
inductive TagPlace where
  | value
  | element
  deriving DecidableEq

/-- The types without a decoder for a value: those of typed arrays. -/
def typedArray (t : GgufValueType) : Bool := t == .int8Array || t == .uint8Array

/-- The types without a decoder for an element. -/
def noElement (t : GgufValueType) : Bool := t == .float64 || t == .array || typedArray t

/-- What follows a key, up to a tag that cannot be decoded. An element's type is
refused at the first element, after the count. -/
inductive BadTag (f : GgufWireFormat) : TagPlace → UInt32 → List UInt8 → Prop
  | value {raw : UInt32} (h : ∀ t, GgufValueType.fromU32 raw = some t → typedArray t) :
      BadTag f .value raw (leU32.enc raw)
  | unknownElement {raw : UInt32} (h : GgufValueType.fromU32 raw = none) :
      BadTag f .element raw (leU32.enc GgufValueType.array.toU32 ++ leU32.enc raw)
  | element {t : GgufValueType} (h : noElement t) {n : Nat} (h0 : 0 < n) (hn : n < limit f.arrayCountWidth) :
      BadTag f .element t.toU32 (leU32.enc GgufValueType.array.toU32 ++
        (leU32.enc t.toU32 ++ lenField f.arrayCountWidth n))

/-- A header up to such a tag: its counts, the pairs before, and the key. -/
def StopsAt (place : TagPlace) (raw : UInt32) (c : List UInt8) : Prop :=
  ∃ v nt nk kvs k key s d, (v ≠ .v1 → nt ≤ 10000000) ∧ nk ≤ 10000000 ∧ kvs.length < nk ∧
    Many (KvRecord v.wireFormat) kvs k ∧ Text v.wireFormat.keyWidth key s ∧
    BadTag v.wireFormat place raw d ∧ c = preamble v nt nk ++ (k ++ (s ++ d))

/-- The error the parser answers a tag with. -/
def reportedError (place : TagPlace) (raw : UInt32) : GgufError :=
  match place, GgufValueType.fromU32 raw with
  | .value, some t => .invalidValueType t.discriminant
  | .element, some _ => .unsupportedArrayElementType raw
  | _, none => .invalidValueType raw

/-- If a run ends in a type error, the error has the number of a tag at which
decoding of the input stops. -/
def NamesTag (b : List UInt8) : Prop :=
  ∀ n, ((parseGgufReader b).result = .error (.invalidValueType n) ∨
      (parseGgufReader b).result = .error (.unsupportedArrayElementType n)) →
    ∃ place c r, b = c ++ r ∧ StopsAt place n c

/-- Decoding stops at a pair of a typed array. -/
def StopsAtTypedArray (b : List UInt8) : Prop :=
  ∃ t c r, typedArray t ∧ b = c ++ r ∧ StopsAt .value t.toU32 c

end Spec

theorem typeError_reported (place : TagPlace) (raw : UInt32) : TypeError (reportedError place raw) := by
  unfold reportedError
  split
  · exact ⟨_, .inl rfl⟩
  · exact ⟨_, .inr rfl⟩
  · exact ⟨_, .inl rfl⟩

/-! ## Readers without type errors -/

theorem not_typeError {e : GgufError} (hv : ∀ n, e ≠ .invalidValueType n)
    (hu : ∀ n, e ≠ .unsupportedArrayElementType n) : ¬ TypeError e := by
  rintro ⟨n, h | h⟩
  · exact hv n h
  · exact hu n h

theorem not_typeError_binary {e : IoError} : ¬ TypeError (.binary e) := not_typeError nofun nofun

theorem spares_readU8 : readU8.Spares TypeError := .fixed _ not_typeError_binary

theorem spares_readU16Le : readU16Le.Spares TypeError := .fixed _ not_typeError_binary

theorem spares_readU32Le : readU32Le.Spares TypeError := .fixed _ not_typeError_binary

theorem spares_readU64Le : readU64Le.Spares TypeError := .fixed _ not_typeError_binary

theorem spares_readInt (w : IntWidth) : (readInt w).Spares TypeError := by
  cases w with
  | u32 => exact spares_readU32Le.map
  | u64 => exact spares_readU64Le

theorem spares_readLength (w : IntWidth) : (readLength w).Spares TypeError :=
  (spares_readInt w).bind fun _ => .guard (not_typeError nofun nofun) (.pure _)

theorem spares_readBytes (len : UInt64) : (readBytes len).Spares TypeError :=
  (Spares.event _).bind fun _ => .exact _ (not_typeError nofun nofun)

theorem spares_fromUtf8 {α : Type} {bytes : List UInt8} {p : String → Input α} (hp : ∀ s, (p s).Spares TypeError) :
    (match fromUtf8 bytes with
      | none => .fail (.utf8 bytes)
      | some s => p s : Input α).Spares TypeError := by
  cases fromUtf8 bytes with
  | none => exact .fail (not_typeError nofun nofun)
  | some s => exact hp s

theorem spares_readString (w : IntWidth) : (readString w).Spares TypeError :=
  (spares_readLength w).bind fun _ => (spares_readBytes _).bind fun _ => spares_fromUtf8 fun s => .pure s

/-- The types with a decoder. -/
theorem spares_readKvScalar {t : GgufValueType} (hs : t ≠ .string) (ha : t ≠ .array) (ht : typedArray t = false) :
    (readKvScalar t).Spares TypeError := by
  cases t with
  | string => exact absurd rfl hs
  | array => exact absurd rfl ha
  | int8Array | uint8Array => cases ht
  | uint8 | bool => exact spares_readU8.map
  | int8 => exact spares_readU8.map.map
  | uint16 | bfloat16 | float16 => exact spares_readU16Le.map
  | int16 => exact spares_readU16Le.map.map
  | uint32 | float32 => exact spares_readU32Le.map
  | int32 => exact spares_readU32Le.map.map
  | uint64 | float64 => exact spares_readU64Le.map
  | int64 => exact spares_readU64Le.map.map

theorem spares_readKvArrayElement {t : GgufValueType} (ht : noElement t = false) (raw : UInt32) (w : IntWidth) :
    (readKvArrayElement t raw w).Spares TypeError := by
  have scalar (t : GgufValueType) (hs : t ≠ .string) (ha : t ≠ .array) (ht : typedArray t = false)
      (e : readKvArrayElement t raw w = readKvScalar t) : (readKvArrayElement t raw w).Spares TypeError :=
    e ▸ spares_readKvScalar hs ha ht
  cases t with
  | string => exact (spares_readString w).map
  | float64 | array | int8Array | uint8Array => cases ht
  | _ => exact scalar _ (by decide) (by decide) rfl rfl

/-! ## Tags -/

/-- A tag, then what its type selects. -/
theorem raises_tag {α : Type} {p : UInt32 → GgufValueType → Input α}
    {L : UInt32 → GgufValueType → GgufError → List UInt8 → Prop} (hp : ∀ raw t, (p raw t).Raises TypeError (L raw t)) :
    (do
      let raw ← readU32Le
      match GgufValueType.fromU32 raw with
      | none => .fail (.invalidValueType raw)
      | some t => p raw t : Input α).Raises TypeError fun e c => ∃ raw d, c = leU32.enc raw ++ d ∧
        (GgufValueType.fromU32 raw = none ∧ d = [] ∧ e = .invalidValueType raw ∨
          ∃ t, GgufValueType.fromU32 raw = some t ∧ L raw t e d) := by
  refine (Raises.after spares_readU32Le recognises_readU32Le (M := fun raw e d =>
    GgufValueType.fromU32 raw = none ∧ d = [] ∧ e = .invalidValueType raw ∨
      ∃ t, GgufValueType.fromU32 raw = some t ∧ L raw t e d) fun raw => ?_).congr fun e c _ => ⟨?_, ?_⟩
  · cases h : GgufValueType.fromU32 raw with
    | none => exact (Raises.fail _).congr fun e c _ => by simp
    | some t => exact (hp raw t).congr fun e c _ => by simp
  · rintro ⟨raw, _, d, rfl, rfl, h⟩
    exact ⟨raw, d, rfl, h⟩
  · rintro ⟨raw, d, rfl, h⟩
    exact ⟨raw, _, d, rfl, rfl, h⟩

theorem raises_pushed {α : Type} {p : Input α} {R : α → List UInt8 → Prop} {L : GgufError → List UInt8 → Prop}
    (hp : p.Raises TypeError L) (hR : p.Recognises R) (record : Record) : (pushed record p).Raises TypeError L :=
  hp.before hR fun a => (Spares.event _).bind fun _ => .pure a

theorem raises_readKvArrayElement (t : GgufValueType) (raw : UInt32) (w : IntWidth) :
    (readKvArrayElement t raw w).Raises TypeError fun e c =>
      c = [] ∧ noElement t ∧ e = .unsupportedArrayElementType raw := by
  cases ht : noElement t with
  | false => exact (Raises.of_spares (spares_readKvArrayElement ht raw w)).congr fun e c _ => by simp
  | true =>
    have hfail : readKvArrayElement t raw w = .fail (.unsupportedArrayElementType raw) := by
      cases t <;> first | rfl | cases ht
    rw [hfail]
    exact (Raises.fail _).congr fun e c _ => by simp

theorem many_noElement {w : IntWidth} {t : GgufValueType} (ht : noElement t) {vs : List GgufKvValue}
    {c : List UInt8} (h : Many (Element w t) vs c) : vs = [] ∧ c = [] := by
  cases h with
  | nil => exact ⟨rfl, rfl⟩
  | cons hR _ =>
    cases hR with
    | scalar hf h => cases h <;> first | exact absurd rfl hf | cases ht
    | string _ => cases ht

/-- The elements of an array, of a type that is refused at the first. -/
theorem raises_elements (t : GgufValueType) (raw : UInt32) (sw cw : IntWidth) :
    (do
      let n ← readInt cw
      .event (.withCapacity n)
      let as ← (pushed .arrayElement (readKvArrayElement t raw sw)).many n.toNat
      pure (.array as) : Input GgufKvValue).Raises TypeError fun e c =>
        noElement t ∧ ∃ n, 0 < n ∧ n < limit cw ∧ c = lenField cw n ∧ e = .unsupportedArrayElementType raw := by
  have hR := recognises_pushed (recognises_readKvArrayElement t raw sw) .arrayElement
  refine (Raises.after (spares_readInt cw) (recognises_readInt cw) fun n => Raises.after (.event _) (.event _)
    fun _ => ((raises_pushed (raises_readKvArrayElement t raw sw) (recognises_readKvArrayElement t raw sw)
      .arrayElement).many hR n.toNat).before (hR.many n.toNat) fun as => .pure _).congr fun e c _ => ⟨?_, ?_⟩
  · rintro ⟨n, _, _, rfl, ⟨hn, rfl⟩, _, _, _, rfl, rfl, as, cs, _, rfl, hl, hM, rfl, ht, rfl⟩
    obtain ⟨rfl, rfl⟩ := many_noElement ht hM
    exact ⟨ht, n.toNat, hl, hn, by simp, rfl⟩
  · rintro ⟨ht, n, h0, hn, rfl, rfl⟩
    have h : (UInt64.ofNat n).toNat = n := UInt64.toNat_ofNat_of_lt' (Nat.lt_of_lt_of_le hn (limit_le cw))
    exact ⟨UInt64.ofNat n, _, [], (List.append_nil _).symm, ⟨by rwa [h], by rw [h]⟩, (), [], [], rfl, rfl, [], [],
      [], rfl, by rwa [h], .nil, rfl, ht, rfl⟩

/-- What follows the tag of an array, up to a tag that cannot be decoded. -/
def BadElementTag (f : GgufWireFormat) (raw : UInt32) (c : List UInt8) : Prop :=
  GgufValueType.fromU32 raw = none ∧ c = leU32.enc raw ∨
    ∃ t n, raw = t.toU32 ∧ noElement t ∧ 0 < n ∧ n < limit f.arrayCountWidth ∧
      c = leU32.enc raw ++ lenField f.arrayCountWidth n

theorem badTag_iff {f : GgufWireFormat} {place : TagPlace} {raw : UInt32} {c : List UInt8} :
    BadTag f place raw c ↔
      place = .value ∧ (∀ t, GgufValueType.fromU32 raw = some t → typedArray t) ∧ c = leU32.enc raw ∨
        place = .element ∧ ∃ d, c = leU32.enc GgufValueType.array.toU32 ++ d ∧ BadElementTag f raw d := by
  constructor
  · intro h
    cases h with
    | value h => exact .inl ⟨rfl, h, rfl⟩
    | unknownElement h => exact .inr ⟨rfl, _, rfl, .inl ⟨h, rfl⟩⟩
    | element h h0 hn => exact .inr ⟨rfl, _, rfl, .inr ⟨_, _, rfl, h, h0, hn, rfl⟩⟩
  · rintro (⟨rfl, h, rfl⟩ | ⟨rfl, _, rfl, ⟨h, rfl⟩ | ⟨t, n, rfl, h, h0, hn, rfl⟩⟩)
    · exact .value h
    · exact .unknownElement h
    · exact .element h h0 hn

theorem reportedError_none {place : TagPlace} {raw : UInt32} (h : GgufValueType.fromU32 raw = none) :
    reportedError place raw = .invalidValueType raw := by
  cases place <;> simp [reportedError, h]

theorem reportedError_value (t : GgufValueType) : reportedError .value t.toU32 = .invalidValueType t.discriminant := by
  simp only [reportedError, fromU32_toU32]

theorem reportedError_element (t : GgufValueType) :
    reportedError .element t.toU32 = .unsupportedArrayElementType t.toU32 := by
  simp only [reportedError, fromU32_toU32]

theorem raises_readKvValueGeneric (t : GgufValueType) (f : GgufWireFormat) :
    (readKvValueGeneric t f.stringWidth f.arrayCountWidth).Raises TypeError fun e c =>
      typedArray t ∧ c = [] ∧ e = .invalidValueType t.discriminant ∨
        t = .array ∧ ∃ raw, BadElementTag f raw c ∧ e = reportedError .element raw := by
  cases ht : typedArray t with
  | true =>
    have hfail : readKvValueGeneric t f.stringWidth f.arrayCountWidth = .fail (.invalidValueType t.discriminant) := by
      cases t <;> first | rfl | cases ht
    have hne : t ≠ .array := by rintro rfl; cases ht
    rw [hfail]
    exact (Raises.fail _).congr fun e c _ => by simp [hne]
  | false =>
    have scalar (hs : t ≠ .string) (ha : t ≠ .array)
        (e : readKvValueGeneric t f.stringWidth f.arrayCountWidth = readKvScalar t) :
        (readKvValueGeneric t f.stringWidth f.arrayCountWidth).Raises TypeError fun e c =>
          false = true ∧ c = [] ∧ e = .invalidValueType t.discriminant ∨
            t = .array ∧ ∃ raw, BadElementTag f raw c ∧ e = reportedError .element raw :=
      (Raises.of_spares (e ▸ spares_readKvScalar hs ha ht)).congr fun _ _ _ => by simp [ha]
    cases t with
    | string => exact (Raises.of_spares (spares_readString _).map).congr fun _ _ _ => by simp
    | array =>
      refine (raises_tag fun raw t => raises_elements t raw _ _).congr fun e c _ => ⟨?_, ?_⟩
      · rintro ⟨raw, d, rfl, ⟨h, rfl, rfl⟩ | ⟨t, h, ht, n, h0, hn, rfl, rfl⟩⟩
        · exact .inr ⟨rfl, raw, .inl ⟨h, List.append_nil _⟩, (reportedError_none h).symm⟩
        · obtain rfl := fromU32_eq_some.mp h
          exact .inr ⟨rfl, _, .inr ⟨t, n, rfl, ht, h0, hn, rfl⟩, (reportedError_element t).symm⟩
      · rintro (⟨h, -⟩ | ⟨-, raw, ⟨h, rfl⟩ | ⟨t, n, rfl, ht, h0, hn, rfl⟩, rfl⟩)
        · cases h
        · exact ⟨raw, [], (List.append_nil _).symm, .inl ⟨h, rfl, reportedError_none h⟩⟩
        · exact ⟨_, _, rfl, .inr ⟨t, fromU32_toU32 t, ht, n, h0, hn, rfl, reportedError_element t⟩⟩
    | int8Array | uint8Array => cases ht
    | _ => exact scalar (by decide) (by decide) rfl

/-! ## Pairs -/

theorem raises_readKvPair (f : GgufWireFormat) : (readKvPair f).Raises TypeError fun e c =>
    ∃ place raw key s d, Text f.keyWidth key s ∧ BadTag f place raw d ∧ c = s ++ d ∧ e = reportedError place raw := by
  refine (Raises.after (spares_readString _) (recognises_readString _) fun key =>
    raises_tag fun raw t => (raises_readKvValueGeneric t f).before (recognises_readKvValueGeneric t f)
      fun _ => .pure _).congr fun e c _ => ⟨?_, ?_⟩
  · rintro ⟨key, s, _, rfl, hs, raw, d, rfl, ⟨h, rfl, rfl⟩ | ⟨t, h, ⟨ht, rfl, rfl⟩ | ⟨rfl, raw', hbad, rfl⟩⟩⟩
    · exact ⟨.value, raw, key, s, _, hs, .value (by simp [h]), by simp, (reportedError_none h).symm⟩
    · obtain rfl := fromU32_eq_some.mp h
      refine ⟨.value, _, key, s, _, hs, .value ?_, by simp, (reportedError_value t).symm⟩
      simpa using ht
    · obtain rfl := fromU32_eq_some.mp h
      exact ⟨.element, raw', key, s, _, hs, badTag_iff.mpr (.inr ⟨rfl, d, rfl, hbad⟩), rfl, rfl⟩
  · rintro ⟨place, raw, key, s, d, hs, hbad, rfl, rfl⟩
    rcases badTag_iff.mp hbad with ⟨rfl, ht, rfl⟩ | ⟨rfl, d, rfl, hd⟩
    · refine ⟨key, s, _, rfl, hs, raw, [], (List.append_nil _).symm, ?_⟩
      cases h : GgufValueType.fromU32 raw with
      | none => exact .inl ⟨rfl, rfl, reportedError_none h⟩
      | some t =>
        obtain rfl := fromU32_eq_some.mp h
        exact .inr ⟨t, rfl, .inl ⟨ht t h, rfl, reportedError_value t⟩⟩
    · exact ⟨key, s, _, rfl, hs, _, d, rfl, .inr ⟨.array, rfl, .inr ⟨rfl, raw, hd, rfl⟩⟩⟩

/-! ## Headers -/

theorem spares_readTensorInfo (f : GgufWireFormat) : (readTensorInfo f).Spares TypeError :=
  (spares_readLength _).bind fun _ => .guard (not_typeError nofun nofun) <|
    (spares_readBytes _).bind fun _ => spares_fromUtf8 fun _ => spares_readU32Le.bind fun _ =>
    .guard (not_typeError nofun nofun) <|
    ((spares_readU64Le.bind fun _ => (Spares.event _).bind fun _ => .pure _).many _).bind fun _ =>
    spares_readU32Le.bind fun _ => spares_readU64Le.map

theorem spares_alignment {α : Type} (kvs : List GgufKvPair) (f : UInt64 → α) :
    (do
      let a ← .ofExcept (readAlignmentFromKv kvs)
      pure (f a) : Input α).Spares TypeError := by
  refine (Spares.ofExcept fun e he => ?_).map
  rintro ⟨n, rfl | rfl⟩ <;>
  · simp only [readAlignmentFromKv] at he
    split_ifs at he <;> cases he

/-- Pairs whose count was checked, one of which has a tag that cannot be decoded. -/
def StopsInPairs (f : GgufWireFormat) (nk : Nat) (e : GgufError) (c : List UInt8) : Prop :=
  ∃ kvs k place raw key s d, kvs.length < nk ∧ Many (KvRecord f) kvs k ∧ Text f.keyWidth key s ∧
    BadTag f place raw d ∧ c = k ++ (s ++ d) ∧ e = reportedError place raw

theorem raises_kvPairs (f : GgufWireFormat) {β : Type} (n : UInt64) {q : List GgufKvPair → Input β}
    (hq : ∀ kvs, (q kvs).Spares TypeError) :
    (do
      .event (.withCapacity n)
      let kvPairs ← (pushed .kvPair (readKvPair f)).many n.toNat
      q kvPairs : Input β).Raises TypeError (StopsInPairs f n.toNat) := by
  have hR := recognises_pushed (recognises_readKvPair f) .kvPair
  refine (Raises.after (.event _) (.event _) fun _ => ((raises_pushed (raises_readKvPair f)
    (recognises_readKvPair f) .kvPair).many hR n.toNat).before (hR.many n.toNat) hq).congr fun e c _ => ⟨?_, ?_⟩
  · rintro ⟨_, _, _, rfl, rfl, kvs, k, _, rfl, hl, hM, place, raw, key, s, d, hs, hbad, rfl, rfl⟩
    exact ⟨kvs, k, place, raw, key, s, d, hl, hM, hs, hbad, rfl, rfl⟩
  · rintro ⟨kvs, k, place, raw, key, s, d, hl, hM, hs, hbad, rfl, rfl⟩
    exact ⟨(), [], _, rfl, rfl, kvs, k, _, rfl, hl, hM, place, raw, key, s, d, hs, hbad, rfl, rfl⟩

/-- What follows the version of such a header. -/
def StopsInRest (v : GgufVersion) (e : GgufError) (c : List UInt8) : Prop :=
  ∃ nt nk d, (v ≠ .v1 → nt ≤ 10000000) ∧ nk ≤ 10000000 ∧ StopsInPairs v.wireFormat nk e d ∧
    c = lenField v.wireFormat.headerCountWidth nt ++ (lenField v.wireFormat.headerCountWidth nk ++ d)

theorem raises_restV1 {e : UInt64 → GgufError} (he : ∀ n, ¬ TypeError (e n)) : (restV1 e).Raises TypeError (StopsInRest .v1) := by
  exact (Raises.after spares_readU32Le recognises_readU32Le fun n => Raises.after (spares_readInt _)
    (recognises_readInt _) fun kvCount => .guard (he kvCount) fun _ =>
      raises_kvPairs .v1 kvCount fun kvs => spares_alignment kvs _).congr fun x c _ =>
        countsV1_iff (M := fun nk => StopsInPairs .v1 nk x)

theorem raises_restV23 {v : GgufVersion} (hv : v ≠ .v1) {e : UInt64 → UInt64 → GgufError}
    (he : ∀ n m, ¬ TypeError (e n m)) : (restV23 v e).Raises TypeError (StopsInRest v) := by
  have tensors (n : UInt64) (kvs : List GgufKvPair) : (do
      .event (.withCapacity n)
      let tensors ← (pushed .tensorInfo (readTensorInfo v.wireFormat)).many n.toNat
      let alignment ← .ofExcept (readAlignmentFromKv kvs)
      pure { version := versionNumber v, kvPairs := kvs, tensors, dataAlignment := some alignment,
             dataSectionStart := computeDataSectionStart v.wireFormat kvs tensors (some alignment) } :
      Input GgufHeader).Spares TypeError :=
    (Spares.event _).bind fun _ => ((spares_readTensorInfo _).bind fun _ => (Spares.event _).bind fun _ =>
      .pure _).many _ |>.bind fun _ => spares_alignment kvs _
  exact (Raises.after (spares_readInt _) (recognises_readInt _) fun tensorCount => Raises.after (spares_readInt _)
    (recognises_readInt _) fun kvCount => .guard (he kvCount tensorCount) fun _ =>
      raises_kvPairs _ kvCount fun kvs => tensors tensorCount kvs).congr fun x c _ =>
        countsV23_iff hv (M := fun nk => StopsInPairs _ nk x)

/-- The parser ends in a type error exactly where decoding stops at a tag, and
this is the error it reports. -/
theorem raises_parseGgufReader : parseGgufReader.Raises TypeError fun e c =>
    ∃ place raw, StopsAt place raw c ∧ e = reportedError place raw := by
  refine (Raises.after (Spares.exact 4 not_typeError_binary) (Recognises.exact 4 _) fun magic =>
    .guard (by exact not_typeError nofun nofun) fun _ => Raises.after spares_readU32Le recognises_readU32Le
      (M := fun n e c => ∃ v, n = versionNumber v ∧ StopsInRest v e c) fun version => ?_).congr fun e c _ => ?_
  · cases hv : GgufVersion.fromU32 version with
    | none =>
      exact (Raises.of_spares (.fail (by exact not_typeError nofun nofun))).congr fun e c _ =>
        iff_of_false id fun ⟨v, hv', _⟩ => ne_versionNumber hv v hv'
    | some v =>
      obtain rfl := versionNumber_eq.mp hv
      refine Raises.congr ?_ fun _ _ _ => exists_version_iff.symm
      by_cases h1 : v = .v1
      · subst h1
        exact raises_restV1 fun n => not_typeError nofun nofun
      · simp only [versionNumber_eq_one, h1, if_false]
        exact raises_restV23 h1 fun n m => not_typeError nofun nofun
  · constructor
    · rintro ⟨_, _, _, rfl, ⟨rfl, -⟩, hm, version, _, _, rfl, rfl, v, rfl, nt, nk, _, hnt, hnk,
        ⟨kvs, k, place, raw, key, s, d, hl, hM, hs, hbad, rfl, rfl⟩, rfl⟩
      rw [not_not] at hm
      exact ⟨place, raw, ⟨v, nt, nk, kvs, k, key, s, d, hnt, hnk, hl, hM, hs, hbad,
        by simp only [preamble, hm, List.append_assoc]⟩, rfl⟩
    · rintro ⟨place, raw, ⟨v, nt, nk, kvs, k, key, s, d, hnt, hnk, hl, hM, hs, hbad, rfl⟩, rfl⟩
      refine ⟨ggufMagic, ggufMagic, _, ?_, ⟨rfl, rfl⟩, not_not.mpr rfl, _, _, _, rfl, rfl, v, rfl, nt, nk, _,
        hnt, hnk, ⟨kvs, k, place, raw, key, s, d, hl, hM, hs, hbad, rfl, rfl⟩, rfl⟩
      simp only [preamble, List.append_assoc]

/-! ## What the errors name -/

/-- Where decoding stops at a tag, the parser reports it. -/
theorem result_of_stopsAt {b c r : List UInt8} {place : TagPlace} {raw : UInt32} (hb : b = c ++ r)
    (h : StopsAt place raw c) : (parseGgufReader b).result = .error (reportedError place raw) :=
  (raises_parseGgufReader b _ (typeError_reported place raw)).mpr ⟨c, r, hb, place, raw, h, rfl⟩

/-- A tag of a value at which decoding stops is unknown or that of a typed array. -/
theorem typedArray_of_stopsAt {t : GgufValueType} {c : List UInt8} (h : StopsAt .value t.toU32 c) :
    typedArray t := by
  obtain ⟨v, nt, nk, kvs, k, key, s, d, -, -, -, -, -, hbad, -⟩ := h
  rcases badTag_iff.mp hbad with ⟨-, ht, -⟩ | ⟨hplace, -⟩
  · exact ht t (fromU32_toU32 t)
  · cases hplace

/-- An error reported of a tag names it, but for those of typed arrays. -/
theorem names_reported {place : TagPlace} {raw n : UInt32} (h : ∀ t, raw = GgufValueType.toU32 t → place ≠ .value)
    (he : reportedError place raw = .invalidValueType n ∨ reportedError place raw = .unsupportedArrayElementType n) :
    n = raw := by
  cases hr : GgufValueType.fromU32 raw with
  | none =>
    rw [reportedError_none hr] at he
    rcases he with he | he <;> cases he
    rfl
  | some t =>
    obtain rfl := fromU32_eq_some.mp hr
    cases place with
    | value => exact absurd rfl (h t rfl)
    | element =>
      rw [reportedError_element] at he
      rcases he with he | he <;> cases he
      rfl

/-- The number reported of a typed array is the tag of no place at which
decoding stops with this error. -/
theorem reportedError_ne_typedArray {t : GgufValueType} (ht : typedArray t) {place : TagPlace} {c : List UInt8}
    (h : StopsAt place t.discriminant c) : reportedError place t.discriminant ≠ reportedError .value t.toU32 := by
  intro he
  cases place with
  | value =>
    -- 12 is the tag of a `Float64`, which has a decoder, and 13 is reported as 12
    cases t with
    | int8Array => cases typedArray_of_stopsAt (t := .float64) h
    | uint8Array => cases he
    | _ => cases ht
  | element =>
    cases t with
    | int8Array | uint8Array => cases he
    | _ => cases ht

/-- A pair of a typed array is answered with the number before its tag. -/
theorem not_namesTag {b : List UInt8} (h : StopsAtTypedArray b) : ¬ NamesTag b := by
  intro hnames
  obtain ⟨t, c, r, ht, hb, hstop⟩ := h
  have herr := result_of_stopsAt hb hstop
  obtain ⟨place, c', r', hb', hstop'⟩ :=
    hnames t.discriminant (.inl (herr.trans (congrArg _ (reportedError_value t))))
  exact reportedError_ne_typedArray ht hstop' (Except.error.inj ((result_of_stopsAt hb' hstop').symm.trans herr))

/-- The type errors name the tag at which decoding stopped exactly on the inputs
where it does not stop at a pair of a typed array. -/
theorem typeError_names_tag_iff (b : List UInt8) : NamesTag b ↔ ¬ StopsAtTypedArray b := by
  constructor
  · exact fun hnames h => not_namesTag h hnames
  · intro h n hn
    obtain ⟨e, he, hres⟩ : ∃ e, (e = .invalidValueType n ∨ e = .unsupportedArrayElementType n) ∧
        (parseGgufReader b).result = .error e := by
      rcases hn with hn | hn
      · exact ⟨_, .inl rfl, hn⟩
      · exact ⟨_, .inr rfl, hn⟩
    obtain ⟨c, r, hb, place, raw, hstop, rfl⟩ := (raises_parseGgufReader b e ⟨n, he⟩).mp hres
    have hname : n = raw := by
      refine names_reported ?_ he
      rintro t rfl rfl
      exact h ⟨t, c, r, typedArray_of_stopsAt hstop, hb, hstop⟩
    exact ⟨place, c, r, hb, hname ▸ hstop⟩

/-- A pair with key `k` that is declared an `Int8Array`. -/
def typedArrayFile : List UInt8 := preamble .v3 0 1 ++ ([] ++ ((leU64.enc 1 ++ [0x6B]) ++ leU32.enc 13))

theorem typedArrayFile_stops : StopsAtTypedArray typedArrayFile := by
  refine ⟨.int8Array, typedArrayFile, [], rfl, (List.append_nil _).symm, .v3, 0, 1, [], [], "k", _, _,
    fun _ => by decide, by decide, by decide, .nil, ⟨by decide, ?_⟩, .value ?_, rfl⟩
  · decide
  · intro t h
    cases h
    rfl

/-- The tag 13 is reported as 12. -/
theorem typeError_not_naming : ¬ ∀ b, NamesTag b := fun h => not_namesTag typedArrayFile_stops (h typedArrayFile)

end PestiGguf
