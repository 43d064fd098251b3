import PestiGguf.Proof.Parser

/-!
# What the parser accepts

The parser accepts exactly the byte strings that start with a header of the
grammar (`parseGgufReader_accepts_iff`). A header cut short is refused, and
what follows a header does not matter (`parseGgufReader_truncated`).
-/

namespace PestiGguf

open Codec Codec.Reader Spec

/-- The version field of a header. -/
theorem versionNumber_of_field {v v' : GgufVersion} {c r : List UInt8}
    (h : ((ggufMagic ++ (leU32.enc (versionNumber v') ++ c) ++ r).drop 4).take 4 =
      leU32.enc (versionNumber v)) : v' = v := by
  refine versionNumber_inj (leU32.enc_inj.mp ?_)
  rw [← h, List.append_assoc, List.append_assoc]
  show leU32.enc (versionNumber v') = (leU32.enc (versionNumber v') ++ (c ++ r)).take 4
  exact List.take_left.symm

/-- The parser accepts exactly its grammar, and returns what the records
denote. -/
theorem parseGgufReader_accepts_iff (v : GgufVersion) (hv : v ≠ .v1) (b : List UInt8)
    (hb : (b.drop 4).take 4 = leU32.enc (versionNumber v)) (kvs : List GgufKvPair)
    (ts : List GgufTensorInfo) :
    (∃ h, (parseGgufReader b).result = .ok h ∧ h.kvPairs = kvs ∧ h.tensors = ts) ↔
      ∃ k t, ggufMagic ++ (leU32.enc (versionNumber v) ++ (leU64.enc (UInt64.ofNat ts.length) ++
          (leU64.enc (UInt64.ofNat kvs.length) ++ (k ++ t)))) <+: b ∧
        ts.length ≤ 10 ^ 7 ∧ kvs.length ≤ 10 ^ 7 ∧ Many (KvRecord v.wireFormat) kvs k ∧
        Many (TensorRecord v.wireFormat) ts t ∧ AlignmentOk kvs := by
  have hw : v.wireFormat.headerCountWidth = .u64 := by
    cases v <;> first | rfl | exact absurd rfl hv
  constructor
  · rintro ⟨h, hok, rfl, rfl⟩
    obtain ⟨c, hc, hword⟩ := (recognises_parseGgufReader _ _ _).mp ⟨hok, rfl⟩
    obtain ⟨v', c', rfl, hr⟩ := headerWord_iff.mp hword
    obtain rfl := versionNumber_of_field (hc ▸ hb)
    cases hr with
    | v1 => exact absurd rfl hv
    | @v23 _ _ kvs ts k t ht hk ha hM hM' =>
      rw [hw] at hc
      exact ⟨k, t, ⟨_, hc.symm⟩, ht, hk, hM, hM', ha⟩
  · rintro ⟨k, t, ⟨r, rfl⟩, ht, hk, hM, hM', ha⟩
    have hword : HeaderWord (headerOf v kvs ts) _ :=
      headerWord_iff.mpr ⟨v, _, rfl, .v23 hv ht hk ha hM hM'⟩
    rw [hw] at hword
    exact ⟨_, (recognises_parseGgufReader.returns_append hword r).1, rfl, rfl⟩

/-- A file with a KV pair, whose `Bool` is written as 7, a tensor and two
more bytes. -/
def sampleFile : List UInt8 :=
  ggufMagic ++ (leU32.enc 3 ++ (leU64.enc 1 ++ (leU64.enc 1 ++
    ((leU64.enc 1 ++ [0x6B] ++ (leU32.enc 7 ++ [7]) ++ []) ++
      (leU64.enc 1 ++ [0x74] ++ (leU32.enc 1 ++ (leU64.enc 2 ++ [] ++ (leU32.enc 24 ++ leU64.enc 0))) ++ [])))))
    ++ [1, 2]

def sampleHeader : GgufHeader := headerOf .v3 [⟨"k", .bool, .bool true⟩] [⟨"t", [2], 0, 24⟩]

theorem parseGgufReader_accepts_sample :
    ∃ h, (parseGgufReader sampleFile).result = .ok h ∧ h.kvPairs = [⟨"k", .bool, .bool true⟩] ∧
      h.tensors = [⟨"t", [2], 0, 24⟩] :=
  (parseGgufReader_accepts_iff .v3 (by decide) sampleFile rfl _ _).mpr
    ⟨_, _, ⟨[1, 2], rfl⟩, by decide, by decide,
      .cons ⟨_, _, ⟨by decide, rfl⟩, .scalar (.bool 7), rfl⟩ .nil,
      .cons ⟨_, ⟨by decide, rfl⟩, by decide, rfl⟩ .nil, fun _ h => by cases h⟩

/-- A header of two tensors of two bytes, the second at `offset`. -/
def pairHeader (offset : UInt64) : GgufHeader := headerOf .v3 [] [⟨"a", [2], 0, 24⟩, ⟨"b", [2], offset, 24⟩]

def pairWord (offset : UInt64) : List UInt8 :=
  preamble .v3 2 0 ++
    ((leU64.enc 1 ++ [0x61] ++ (leU32.enc 1 ++ (leU64.enc 2 ++ [] ++ (leU32.enc 24 ++ leU64.enc 0)))) ++
      (leU64.enc 1 ++ [0x62] ++ (leU32.enc 1 ++ (leU64.enc 2 ++ [] ++ (leU32.enc 24 ++ leU64.enc offset)))))

theorem pairWord_header (offset : UInt64) : HeaderWord (pairHeader offset) (pairWord offset) := by
  have hname : TextOk "a" ∧ TextOk "b" := ⟨by decide, by decide⟩
  have ha : TensorRecord .v3 ⟨"a", [2], 0, 24⟩
      (leU64.enc 1 ++ [0x61] ++ (leU32.enc 1 ++ (leU64.enc 2 ++ [] ++ (leU32.enc 24 ++ leU64.enc 0)))) :=
    ⟨_, ⟨hname.1, rfl⟩, Nat.le_of_ble_eq_true rfl, rfl⟩
  have hb : TensorRecord .v3 ⟨"b", [2], offset, 24⟩
      (leU64.enc 1 ++ [0x62] ++ (leU32.enc 1 ++ (leU64.enc 2 ++ [] ++ (leU32.enc 24 ++ leU64.enc offset)))) :=
    ⟨_, ⟨hname.2, rfl⟩, Nat.le_of_ble_eq_true rfl, rfl⟩
  have hword := HeaderWord.v23 (v := .v3) nofun (Nat.le_of_ble_eq_true rfl) (by decide) (fun _ h => by cases h) .nil
    (.cons ha (.cons hb .nil))
  rwa [List.append_nil, List.nil_append] at hword

/-- Its two places. -/
theorem pairHeader_tensors {offset : UInt64} {i : Nat} {t : GgufTensorInfo}
    (ht : (pairHeader offset).tensors[i]? = some t) :
    i = 0 ∧ t = ⟨"a", [2], 0, 24⟩ ∨ i = 1 ∧ t = ⟨"b", [2], offset, 24⟩ := by
  match i, ht with
  | 0, ht => exact .inl ⟨rfl, (Option.some.inj ht).symm⟩
  | 1, ht => exact .inr ⟨rfl, (Option.some.inj ht).symm⟩

theorem pairWord_parse (offset : UInt64) (r : List UInt8) :
    (parseGgufReader (pairWord offset ++ r)).result = .ok (pairHeader offset) :=
  (recognises_parseGgufReader.returns_append (pairWord_header offset) r).1

/-- No strict prefix of an accepted header is accepted, and any bytes may
follow it. -/
theorem parseGgufReader_truncated (b : List UInt8) (h : GgufHeader)
    (hok : (parseGgufReader b).result = .ok h) :
    (∀ m < parseGgufReader.consumed b, ∃ e, (parseGgufReader (b.take m)).result = .error e) ∧
      ∀ s, (parseGgufReader (b.take (parseGgufReader.consumed b) ++ s)).result = .ok h := by
  obtain ⟨hword, hle⟩ := recognises_parseGgufReader.word hok
  refine ⟨fun m hm => ?_, fun s => (recognises_parseGgufReader.returns_append hword s).1⟩
  refine recognises_parseGgufReader.error_of_prefix hword
    (List.take_prefix_take_left (Nat.le_of_lt hm)) fun e => ?_
  have := congrArg List.length e
  simp only [List.length_take] at this
  omega

theorem parseGgufReader_truncated_sample :
    (∀ m < parseGgufReader.consumed sampleFile,
        ∃ e, (parseGgufReader (sampleFile.take m)).result = .error e) ∧
      ∀ s, (parseGgufReader (sampleFile.take (parseGgufReader.consumed sampleFile) ++ s)).result =
        .ok sampleHeader :=
  parseGgufReader_truncated sampleFile _ rfl

end PestiGguf
