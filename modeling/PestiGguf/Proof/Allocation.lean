import PestiGguf.Framework.Events
import PestiGguf.Proof.ReadBack
import PestiGguf.Proof.Refusal

/-!
# What the parser allocates

The counts of a header are checked before anything is allocated for them, and
so are the lengths of strings. The count of an array is not: whatever it says
is what `Vec::with_capacity` is called with. Nor is the tensor count of version 1,
which allocates nothing and is accepted whatever it says
(`parseGgufReader_allocates_iff`).
-/

namespace PestiGguf

open Codec Codec.Reader Spec

namespace Spec

/-- A request for at most 10,000,000 records, or for a buffer of at most 1 MiB. -/
def Within : Event → Prop
  | .withCapacity n => n.toNat ≤ 10000000
  | .zeroed len => len.toNat ≤ 2 ^ 20
  | .decoded _ => True

/-- A pair up to the count of its array, which is more than 10,000,000. -/
def OversizedArray (f : GgufWireFormat) (c : List UInt8) : Prop :=
  ∃ key k tag n, Text f.keyWidth key k ∧ 10000000 < n ∧ n < limit f.arrayCountWidth ∧
    c = k ++ (leU32.enc GgufValueType.array.toU32 ++
      (leU32.enc (GgufValueType.toU32 tag) ++ lenField f.arrayCountWidth n))

/-- A header up to such a pair: its counts, and the pairs before it. -/
def DeclaresOversized (c : List UInt8) : Prop :=
  ∃ v nt nk kvs k d, (v ≠ .v1 → nt ≤ 10000000) ∧ nk ≤ 10000000 ∧ kvs.length < nk ∧
    Many (KvRecord v.wireFormat) kvs k ∧ OversizedArray v.wireFormat d ∧ c = preamble v nt nk ++ (k ++ d)

/-- The length of a string, which is more than 1 MiB. -/
def LongText (w : IntWidth) (c : List UInt8) : Prop := ∃ n, 2 ^ 20 < n ∧ n < limit w ∧ c = lenField w n

/-- A pair up to such a length: of its key, of its value, or of an element. -/
inductive LongInPair (f : GgufWireFormat) : List UInt8 → Prop
  | key {c : List UInt8} (h : LongText f.keyWidth c) : LongInPair f c
  | value {key : String} {s d : List UInt8} (hs : Text f.keyWidth key s) (h : LongText f.stringWidth d) :
      LongInPair f (s ++ (leU32.enc GgufValueType.string.toU32 ++ d))
  | element {key : String} {s c d : List UInt8} {n : Nat} {arr : List GgufKvValue} (hs : Text f.keyWidth key s)
      (hn : n < limit f.arrayCountWidth) (hl : arr.length < n) (h : Many (Element f.stringWidth .string) arr c)
      (hd : LongText f.stringWidth d) :
      LongInPair f (s ++ (leU32.enc GgufValueType.array.toU32 ++
        (leU32.enc GgufValueType.string.toU32 ++ (lenField f.arrayCountWidth n ++ (c ++ d)))))

/-- An input up to where it declares more than the limits: a count of tensors, of
pairs or of the elements of an array, or the length of a string or a name. -/
inductive DeclaresMore : List UInt8 → Prop
  | tensorCount {v : GgufVersion} {nt : Nat} (hlt : 10000000 < nt) (hn : nt < limit v.wireFormat.headerCountWidth) :
      DeclaresMore (ggufMagic ++ (leU32.enc (versionNumber v) ++ lenField v.wireFormat.headerCountWidth nt))
  | kvCount {v : GgufVersion} {nt nk : Nat} (hlt : 10000000 < nk) (hn : nk < limit v.wireFormat.headerCountWidth) :
      DeclaresMore (preamble v nt nk)
  | array {c : List UInt8} (h : DeclaresOversized c) : DeclaresMore c
  | text {v : GgufVersion} {nt nk : Nat} {kvs : List GgufKvPair} {k d : List UInt8} (ht : v ≠ .v1 → nt ≤ 10000000)
      (hk : nk ≤ 10000000) (hl : kvs.length < nk) (h : Many (KvRecord v.wireFormat) kvs k)
      (hd : LongInPair v.wireFormat d) : DeclaresMore (preamble v nt nk ++ (k ++ d))
  | name {v : GgufVersion} (hv : v ≠ .v1) {nt : Nat} {kvs : List GgufKvPair} {ts : List GgufTensorInfo}
      {k t d : List UInt8} (ht : nt ≤ 10000000) (hk : kvs.length ≤ 10000000) (hl : ts.length < nt)
      (h : Many (KvRecord v.wireFormat) kvs k) (h' : Many (TensorRecord v.wireFormat) ts t)
      (hd : LongText v.wireFormat.tensorNameWidth d) : DeclaresMore (preamble v nt kvs.length ++ (k ++ (t ++ d)))

/-- A header of version 1 whose tensor count is more than 10,000,000: it is read, and
nothing else is done with it. -/
def IgnoredCount (c : List UInt8) : Prop :=
  ∃ nt kvs k, 10000000 < nt ∧ nt < 2 ^ 32 ∧ kvs.length ≤ 10000000 ∧ AlignmentOk kvs ∧ Many (KvRecord .v1) kvs k ∧
    c = preamble .v1 nt kvs.length ++ k

/-- A run asks for no more, and an input that declares more is answered with an
error. -/
def AllocatesWithin (b : List UInt8) : Prop :=
  (∀ t ∈ (parseGgufReader b).trace, Within t) ∧
    ∀ c, c <+: b → DeclaresMore c → ∃ e, (parseGgufReader b).result = .error e

end Spec

/-! ## Strings and scalars -/

theorem quiet_readInt (w : IntWidth) : (readInt w).Quiet Within := by
  cases w with
  | u32 => exact (Quiet.fixed _ _).map
  | u64 => exact .fixed _ _

theorem quiet_readLength (w : IntWidth) : (readLength w).Quiet Within :=
  (quiet_readInt w).bind (recognises_readInt w) fun _ _ _ => .guard fun _ => .pure _

theorem quiet_fromUtf8 {α : Type} {bytes : List UInt8} {p : String → Input α} (hp : ∀ s, (p s).Quiet Within) :
    (match fromUtf8 bytes with
      | none => .fail (.utf8 bytes)
      | some s => p s : Input α).Quiet Within := by
  cases fromUtf8 bytes with
  | none => exact .fail _
  | some s => exact hp s

/-- The buffer of a length that was checked. -/
theorem quiet_readBytes {len : UInt64} (h : len.toNat ≤ 2 ^ 20) : (readBytes len).Quiet Within :=
  (Quiet.event (show Within (.zeroed len) from h)).bind (.event _) fun _ _ _ => .exact _ _

theorem quiet_readString (w : IntWidth) : (readString w).Quiet Within :=
  (quiet_readLength w).bind (recognises_readLength w) fun len _ h =>
    (quiet_readBytes h.1.2).bind (recognises_readBytes len) fun _ _ _ => quiet_fromUtf8 fun s => .pure s

theorem quiet_readKvScalar (t : GgufValueType) : (readKvScalar t).Quiet Within := by
  cases t with
  | string | array | int8Array | uint8Array => exact .fail _
  | int8 | int16 | int32 | int64 => exact (Quiet.fixed _ _).map.map
  | _ => exact (Quiet.fixed _ _).map

theorem quiet_readKvArrayElement (t : GgufValueType) (raw : UInt32) (w : IntWidth) :
    (readKvArrayElement t raw w).Quiet Within := by
  cases t with
  | string => exact (quiet_readString w).map
  | float64 | array | int8Array | uint8Array => exact .fail _
  | uint8 => exact quiet_readKvScalar .uint8
  | int8 => exact quiet_readKvScalar .int8
  | uint16 => exact quiet_readKvScalar .uint16
  | int16 => exact quiet_readKvScalar .int16
  | uint32 => exact quiet_readKvScalar .uint32
  | int32 => exact quiet_readKvScalar .int32
  | uint64 => exact quiet_readKvScalar .uint64
  | int64 => exact quiet_readKvScalar .int64
  | float32 => exact quiet_readKvScalar .float32
  | bool => exact quiet_readKvScalar .bool
  | bfloat16 => exact quiet_readKvScalar .bfloat16
  | float16 => exact quiet_readKvScalar .float16

theorem quiet_pushed {α : Type} {p : Input α} {R : α → List UInt8 → Prop} (hp : p.Quiet Within)
    (hR : p.Recognises R) (record : Record) : (pushed record p).Quiet Within :=
  hp.bind hR fun _ _ _ => (Quiet.event (show Within (.decoded record) from trivial)).bind (.event _)
    fun _ _ _ => .pure _

/-! ## Pairs -/

theorem exceeds_pushed {α : Type} {p : Input α} {R : α → List UInt8 → Prop} {L : List UInt8 → Prop}
    (hp : p.Exceeds Within L) (hR : p.Recognises R) (record : Record) : (pushed record p).Exceeds Within L :=
  hp.before hR fun _ _ _ => (Quiet.event (show Within (.decoded record) from trivial)).bind (.event _)
    fun _ _ _ => .pure _

/-- A tag, then what its type selects. -/
theorem exceeds_tag {α : Type} {p : UInt32 → GgufValueType → Input α} {L : GgufValueType → List UInt8 → Prop}
    (hp : ∀ raw t, (p raw t).Exceeds Within (L t)) :
    (do
      let raw ← readU32Le
      match GgufValueType.fromU32 raw with
      | none => .fail (.invalidValueType raw)
      | some t => p raw t : Input α).Exceeds Within fun c => ∃ t d, c = leU32.enc t.toU32 ++ d ∧ L t d := by
  refine (Exceeds.after (Quiet.fixed _ _) recognises_readU32Le
    (M := fun raw d => ∃ t : GgufValueType, raw = t.toU32 ∧ L t d) fun raw _ _ => ?_).congr fun c => ⟨?_, ?_⟩
  · cases h : GgufValueType.fromU32 raw with
    | none =>
      refine (Exceeds.of_quiet (.fail _)).congr fun c => ⟨False.elim, ?_⟩
      rintro ⟨t, rfl, -⟩
      simp at h
    | some t =>
      obtain rfl := fromU32_eq_some.mp h
      refine (hp _ t).congr fun c => ⟨fun hc => ⟨t, rfl, hc⟩, ?_⟩
      rintro ⟨t', e, hc⟩
      exact toU32_inj e ▸ hc
  · rintro ⟨_, _, d, rfl, rfl, t, rfl, hd⟩
    exact ⟨t, d, rfl, hd⟩
  · rintro ⟨t, d, rfl, hd⟩
    exact ⟨_, _, d, rfl, rfl, t, rfl, hd⟩

/-- A count that is allocated for, before records that allocate little. -/
theorem exceeds_counted {α β : Type} {p : Input α} {R : α → List UInt8 → Prop} (hp : p.Quiet Within)
    (hR : p.Recognises R) (w : IntWidth) (f : List α → β) :
    (do
      let n ← readInt w
      .event (.withCapacity n)
      let as ← p.many n.toNat
      pure (f as) : Input β).Exceeds Within fun c => ∃ n, 10000000 < n ∧ n < limit w ∧ c = lenField w n := by
  refine (Exceeds.after (quiet_readInt w) (recognises_readInt w) fun n _ _ =>
    (Exceeds.event (.withCapacity n)).before (.event _) fun _ _ _ => (hp.many hR _).map).congr fun c => ⟨?_, ?_⟩
  · rintro ⟨n, c₁, _, rfl, ⟨hn, rfl⟩, rfl, hlt⟩
    exact ⟨n.toNat, Nat.lt_of_not_le hlt, hn, List.append_nil _⟩
  · rintro ⟨n, hlt, hn, rfl⟩
    have h : (UInt64.ofNat n).toNat = n := UInt64.toNat_ofNat_of_lt' (Nat.lt_of_lt_of_le hn (limit_le w))
    refine ⟨UInt64.ofNat n, _, [], (List.append_nil _).symm, ⟨by rwa [h], by rw [h]⟩, rfl, ?_⟩
    rw [Within, h]
    exact Nat.not_le_of_lt hlt

/-- The tag of the elements and the count of an array, which is what the parser
allocates for. -/
theorem exceeds_readKvValueGeneric (t : GgufValueType) (sw cw : IntWidth) :
    (readKvValueGeneric t sw cw).Exceeds Within fun c => t = .array ∧ ∃ tag d,
      c = leU32.enc (GgufValueType.toU32 tag) ++ d ∧ ∃ n, 10000000 < n ∧ n < limit cw ∧ d = lenField cw n := by
  cases t with
  | string => exact (Exceeds.of_quiet (quiet_readString sw).map).congr fun _ => by simp
  | array =>
    refine (exceeds_tag fun raw tag => ?_).congr fun c => ⟨fun h => ⟨rfl, h⟩, fun h => h.2⟩
    have hR := recognises_readKvArrayElement tag raw sw
    exact exceeds_counted (quiet_pushed (quiet_readKvArrayElement tag raw sw) hR .arrayElement)
      (recognises_pushed hR _) cw GgufKvValue.array
  | _ => exact (Exceeds.of_quiet (quiet_readKvScalar _)).congr fun _ => by simp

theorem exceeds_readKvPair (f : GgufWireFormat) : (readKvPair f).Exceeds Within (OversizedArray f) := by
  refine (Exceeds.after (quiet_readString _) (recognises_readString _) fun key _ _ =>
    exceeds_tag fun _ t => (exceeds_readKvValueGeneric t _ _).before (recognises_readKvValueGeneric t f)
      fun _ _ _ => .pure _).congr fun c => ⟨?_, ?_⟩
  · rintro ⟨key, k, _, rfl, hk, _, _, rfl, rfl, tag, _, rfl, n, hlt, hn, rfl⟩
    exact ⟨key, k, tag, n, hk, hlt, hn, rfl⟩
  · rintro ⟨key, k, tag, n, hk, hlt, hn, rfl⟩
    exact ⟨key, k, _, rfl, hk, .array, _, rfl, rfl, tag, _, rfl, n, hlt, hn, rfl⟩

/-! ## Headers -/

theorem quiet_readTensorInfo (f : GgufWireFormat) : (readTensorInfo f).Quiet Within :=
  (quiet_readLength _).bind (recognises_readLength _) fun len _ h => .guard fun _ =>
    (quiet_readBytes h.1.2).bind (recognises_readBytes len) fun _ _ _ => quiet_fromUtf8 fun _ =>
    (Quiet.fixed _ _).bind recognises_readU32Le fun nDims _ _ => .guard fun _ =>
    ((quiet_pushed (Quiet.fixed _ _) recognises_readU64Le .dimension).many
      (recognises_pushed recognises_readU64Le _) nDims.toNat).bind
      ((recognises_pushed recognises_readU64Le _).many _) fun _ _ _ =>
    (Quiet.fixed _ _).bind recognises_readU32Le fun _ _ _ => (Quiet.fixed _ _).map

/-- Records whose count was checked: what one of them exceeds in. -/
theorem exceeds_records {α β : Type} {p : Input α} {R : α → List UInt8 → Prop} {L : List UInt8 → Prop}
    (hp : p.Exceeds Within L) (hR : p.Recognises R) (record : Record) {n : UInt64} (hn : n.toNat ≤ 10000000)
    {q : List α → Input β} (hq : ∀ as, (q as).Quiet Within) :
    (do
      .event (.withCapacity n)
      let as ← (pushed record p).many n.toNat
      q as : Input β).Exceeds Within fun c =>
        ∃ as cs d, c = cs ++ d ∧ as.length < n.toNat ∧ Many R as cs ∧ L d := by
  have hev : Within (.withCapacity n) := hn
  refine (Exceeds.after (Quiet.event hev) (.event _) fun _ _ _ => ((exceeds_pushed hp hR record).many
    (recognises_pushed hR record) n.toNat).before ((recognises_pushed hR record).many _) fun as _ _ =>
      hq as).congr fun c => ⟨?_, ?_⟩
  · rintro ⟨_, _, d, rfl, rfl, h⟩
    exact h
  · intro h
    exact ⟨(), [], c, rfl, rfl, h⟩

/-- Pairs whose count was checked, one of which declares too much. -/
def OversizedPairs (f : GgufWireFormat) (nk : Nat) (c : List UInt8) : Prop :=
  ∃ kvs k d, c = k ++ d ∧ kvs.length < nk ∧ Many (KvRecord f) kvs k ∧ OversizedArray f d

theorem exceeds_kvPairs (f : GgufWireFormat) {β : Type} {n : UInt64} (hn : n.toNat ≤ 10000000)
    {q : List GgufKvPair → Input β} (hq : ∀ kvs, (q kvs).Quiet Within) :
    (do
      .event (.withCapacity n)
      let kvPairs ← (pushed .kvPair (readKvPair f)).many n.toNat
      q kvPairs : Input β).Exceeds Within (OversizedPairs f n.toNat) :=
  exceeds_records (exceeds_readKvPair f) (recognises_readKvPair f) .kvPair hn hq

theorem quiet_alignment {α : Type} (kvs : List GgufKvPair) (f : UInt64 → α) :
    (do
      let a ← .ofExcept (readAlignmentFromKv kvs)
      pure (f a) : Input α).Quiet Within :=
  (Quiet.ofExcept _).map

/-- What follows the version of such a header. -/
def OversizedRest (v : GgufVersion) (c : List UInt8) : Prop :=
  ∃ nt nk d, (v ≠ .v1 → nt ≤ 10000000) ∧ nk ≤ 10000000 ∧ OversizedPairs v.wireFormat nk d ∧
    c = lenField v.wireFormat.headerCountWidth nt ++ (lenField v.wireFormat.headerCountWidth nk ++ d)

theorem exceeds_restV1 {e : UInt64 → GgufError} : (restV1 e).Exceeds Within (OversizedRest .v1) :=
  (Exceeds.after (Quiet.fixed _ _) recognises_readU32Le fun _ _ _ =>
    Exceeds.after (quiet_readInt _) (recognises_readInt _) fun _ _ _ => .guard fun hn =>
      exceeds_kvPairs .v1 (le_maxCount.mp hn) fun kvs => quiet_alignment kvs _).congr fun _ => countsV1_iff

theorem exceeds_restV23 {v : GgufVersion} (hv : v ≠ .v1) {e : UInt64 → UInt64 → GgufError} :
    (restV23 v e).Exceeds Within (OversizedRest v) := by
  have tensors {n : UInt64} (hn : n.toNat ≤ 10000000) (kvs : List GgufKvPair) : (do
      .event (.withCapacity n)
      let tensors ← (pushed .tensorInfo (readTensorInfo v.wireFormat)).many n.toNat
      let alignment ← .ofExcept (readAlignmentFromKv kvs)
      pure { version := versionNumber v, kvPairs := kvs, tensors, dataAlignment := some alignment,
             dataSectionStart := computeDataSectionStart v.wireFormat kvs tensors (some alignment) } :
      Input GgufHeader).Quiet Within :=
    (Quiet.event (show Within (.withCapacity n) from hn)).bind (.event _) fun _ _ _ =>
      ((quiet_pushed (quiet_readTensorInfo _) (recognises_readTensorInfo _) .tensorInfo).many
        (recognises_pushed (recognises_readTensorInfo _) _) _).bind
        ((recognises_pushed (recognises_readTensorInfo _) _).many _) fun _ _ _ => quiet_alignment kvs _
  exact (Exceeds.after (quiet_readInt _) (recognises_readInt _) fun tensorCount _ _ =>
    Exceeds.after (quiet_readInt _) (recognises_readInt _) fun kvCount _ _ => .guard fun hn =>
      exceeds_kvPairs _ (le_maxCount.mp (not_or.mp hn).1) fun kvs =>
        tensors (le_maxCount.mp (not_or.mp hn).2) kvs).congr fun c => countsV23_iff hv

/-- Where the parser asks for too much. -/
theorem exceeds_parseGgufReader : parseGgufReader.Exceeds Within DeclaresOversized := by
  refine (Exceeds.after (Quiet.exact 4 _) (Recognises.exact 4 _) fun magic _ _ => .guard fun _ =>
    Exceeds.after (Quiet.fixed _ _) recognises_readU32Le
      (M := fun n c => ∃ v, n = versionNumber v ∧ OversizedRest v c) fun version _ _ => ?_).congr fun c => ?_
  · cases hv : GgufVersion.fromU32 version with
    | none =>
      exact (Exceeds.of_quiet (.fail _)).congr fun c => iff_of_false id fun ⟨v, hv', _⟩ => ne_versionNumber hv v hv'
    | some v =>
      obtain rfl := versionNumber_eq.mp hv
      refine Exceeds.congr ?_ fun _ => exists_version_iff.symm
      by_cases h1 : v = .v1
      · subst h1
        exact exceeds_restV1
      · simp only [versionNumber_eq_one, h1, if_false]
        exact exceeds_restV23 h1
  · constructor
    · rintro ⟨_, _, _, rfl, ⟨rfl, -⟩, hm, version, _, _, rfl, rfl, v, rfl, nt, nk, _, hnt, hnk,
        ⟨kvs, k, d, rfl, hl, hM, hd⟩, rfl⟩
      rw [not_not] at hm
      exact ⟨v, nt, nk, kvs, k, d, hnt, hnk, hl, hM, hd, by simp only [preamble, hm, List.append_assoc]⟩
    · rintro ⟨v, nt, nk, kvs, k, d, hnt, hnk, hl, hM, hd, rfl⟩
      refine ⟨ggufMagic, ggufMagic, _, ?_, ⟨rfl, rfl⟩, not_not.mpr rfl, _, _, _, rfl, rfl, v, rfl, nt, nk, _,
        hnt, hnk, ⟨kvs, k, d, rfl, hl, hM, hd⟩, rfl⟩
      simp only [preamble, List.append_assoc]

/-! ## What declares more -/

theorem Spec.LongText.bad {w : IntWidth} {c : List UInt8} (h : LongText w c) : ∃ e, BadText w e c := by
  obtain ⟨n, hlt, hn, rfl⟩ := h
  exact ⟨_, .length hn (.inr hlt)⟩

theorem Spec.LongInPair.bad {f : GgufWireFormat} {c : List UInt8} (h : LongInPair f c) : ∃ e, BadKvRecord f e c := by
  cases h with
  | key h =>
    obtain ⟨e, he⟩ := h.bad
    exact ⟨e, .key he⟩
  | value hs h =>
    obtain ⟨e, he⟩ := h.bad
    exact ⟨e, .payload hs (.text he)⟩
  | element hs hn hl h hd =>
    obtain ⟨e, he⟩ := hd.bad
    exact ⟨e, .payload hs (.element hn hl h (.text he))⟩

/-- What a refusal starts is answered with its error. -/
theorem error_of_refusal {b c : List UInt8} {e : GgufError} (hb : c <+: b) (h : Refusal e c) :
    (parseGgufReader b).result = .error e := by
  obtain ⟨r, rfl⟩ := hb
  exact ((refuses_parseGgufReader (c ++ r) e r h.decisive).mpr ⟨c, rfl, h⟩).1

/-- The counts of an input that is accepted. -/
theorem counts_of_ok {b : List UInt8} {h : GgufHeader} (hok : (parseGgufReader b).result = .ok h) :
    ∃ v nt nk d, b = preamble v nt nk ++ d ∧ nt < limit v.wireFormat.headerCountWidth ∧ nk ≤ 10000000 ∧
      (10000000 < nt → ∃ c, c <+: b ∧ IgnoredCount c) := by
  obtain ⟨c, hc, hword⟩ := (recognises_parseGgufReader _ _ _).mp ⟨hok, rfl⟩
  generalize (parseGgufReader b).rest = r at hc
  cases hword with
  | @v1 n kvs k hk ha hM =>
    refine ⟨.v1, n.toNat, kvs.length, k ++ r, hc.trans (List.append_assoc ..), n.toNat_lt, hk, fun hlt => ?_⟩
    exact ⟨_, ⟨r, hc.symm⟩, n.toNat, kvs, k, hlt, n.toNat_lt, hk, ha, hM, rfl⟩
  | v23 _ ht hk =>
    exact ⟨_, _, _, _, hc.trans (List.append_assoc ..), Nat.lt_of_le_of_lt ht (count_lt_limit _), hk,
      fun hlt => absurd hlt (Nat.not_lt.mpr ht)⟩

/-- What declares more is answered with an error, but for a larger array and for the
tensors of version 1. -/
theorem error_of_declaresMore {b c : List UInt8} (hb : c <+: b) (hc : DeclaresMore c)
    (hno : ¬ ∃ c, c <+: b ∧ (DeclaresOversized c ∨ IgnoredCount c)) :
    ∃ e, (parseGgufReader b).result = .error e := by
  cases hres : (parseGgufReader b).result with
  | error e => exact ⟨e, rfl⟩
  | ok h =>
    exfalso
    have refused {e : GgufError} {c' : List UInt8} (heq : c = c') (h : Refusal e c') : False := by
      cases hres.symm.trans (error_of_refusal (heq ▸ hb) h)
    obtain ⟨v, nt, nk, d, hin, hnt, hnk, hignored⟩ := counts_of_ok hres
    cases hc with
    | tensorCount hlt hn =>
      obtain ⟨s, hs⟩ := hb
      rw [hin] at hs
      simp only [preamble, List.append_assoc] at hs
      obtain ⟨hv, hcounts⟩ := leU32.enc_append_inj.mp (List.append_cancel_left hs)
      obtain rfl := versionNumber_inj hv
      obtain ⟨rfl, -⟩ := lenField_append_inj hn hnt hcounts
      obtain ⟨c, hc, hi⟩ := hignored hlt
      exact hno ⟨c, hc, .inr hi⟩
    | kvCount hlt hn =>
      obtain ⟨s, hs⟩ := hb
      rw [hin] at hs
      obtain ⟨-, rfl, -⟩ := preamble_append_inj hn (Nat.lt_of_le_of_lt hnk (count_lt_limit _)) hs
      exact absurd hnk (Nat.not_le.mpr hlt)
    | array h => exact hno ⟨c, hb, .inl h⟩
    | text ht hk hl h hd =>
      obtain ⟨e, he⟩ := hd.bad
      exact refused (by simp only [preamble, List.append_assoc]) (.rest (.kvPair ht hk hl h he))
    | name hv ht hk hl h h' hd =>
      obtain ⟨e, he⟩ := hd.bad
      exact refused (by simp only [preamble, List.append_assoc]) (.rest (.tensor hv ht hk hl h h' (.name he)))

theorem declaresMore_of_ignoredCount {c : List UInt8} (h : IgnoredCount c) : ∃ c', c' <+: c ∧ DeclaresMore c' := by
  obtain ⟨nt, kvs, k, hlt, hn, -, -, -, rfl⟩ := h
  refine ⟨_, ⟨lenField .u32 kvs.length ++ k, ?_⟩, .tensorCount (v := .v1) hlt hn⟩
  simp only [preamble, List.append_assoc]
  rfl

/-- The parser asks for no more than the limits, and refuses what declares more,
exactly on the inputs in which no array is reached that declares more than
10,000,000 elements, and which are not of version 1 with as many tensors. -/
theorem parseGgufReader_allocates_iff (b : List UInt8) :
    AllocatesWithin b ↔ ¬ ∃ c, c <+: b ∧ (DeclaresOversized c ∨ IgnoredCount c) := by
  constructor
  · rintro ⟨htrace, hmore⟩ ⟨c, ⟨r, rfl⟩, hc | hc⟩
    · exact (exceeds_parseGgufReader.forall_iff _).mp htrace ⟨c, r, rfl, hc⟩
    · obtain ⟨c', hc', hd⟩ := declaresMore_of_ignoredCount hc
      obtain ⟨e, he⟩ := hmore c' (hc'.trans (List.prefix_append c r)) hd
      obtain ⟨nt, kvs, k, -, hn, hk, ha, hM, rfl⟩ := hc
      have hword := HeaderWord.v1 (UInt32.ofNat nt) hk ha hM
      rw [UInt32.toNat_ofNat_of_lt' hn] at hword
      have hok := (recognises_parseGgufReader.returns_append hword r).1
      cases hok.symm.trans he
  · intro hno
    refine ⟨(exceeds_parseGgufReader.forall_iff b).mpr ?_, fun c hb hc => error_of_declaresMore hb hc hno⟩
    rintro ⟨c, r, rfl, hc⟩
    exact hno ⟨c, List.prefix_append c r, .inl hc⟩

/-- An array of 10,000,001 bytes, declared and not written. -/
def oversizedFile : List UInt8 :=
  preamble .v3 0 1 ++ ((leU64.enc 1 ++ [0x6B]) ++
    (leU32.enc GgufValueType.array.toU32 ++ (leU32.enc GgufValueType.uint8.toU32 ++ lenField .u64 10000001)))

theorem oversizedFile_declares : DeclaresOversized oversizedFile := by
  refine ⟨.v3, 0, 1, [], [], _, fun _ => by decide, by decide, by decide, .nil,
    ⟨"k", leU64.enc 1 ++ [0x6B], .uint8, 10000001, ?_, by decide, by decide, rfl⟩, rfl⟩
  exact ⟨by decide, by decide⟩

/-- The parser calls `Vec::with_capacity(10_000_001)` for 49 bytes. -/
theorem parseGgufReader_unbounded : ¬ ∀ b, AllocatesWithin b := by
  intro h
  refine (exceeds_parseGgufReader.forall_iff oversizedFile).mp (h oversizedFile).1 ?_
  exact ⟨oversizedFile, [], (List.append_nil _).symm, oversizedFile_declares⟩

end PestiGguf
