import PestiGguf.Proof.Alignment
import PestiGguf.Proof.Prediction
import PestiGguf.Proof.Rewrite

/-!
# The place a tensor is copied from

The copy loop of `parse_and_rewrite` seeks to the data section once, and reads
the tensors from there one after another: tensor `i` from the sum of the stored
sizes before it (`copiedData_getElem`), whatever its offset. So every tensor gets
its own bytes exactly where these two places hold the same bytes
(`copyTensorData_own_iff`). Whatever the data are, that is so exactly for the
headers whose tensors are packed (`copies_all_data_iff`).
-/

namespace PestiGguf

open Codec Codec.Reader Spec

namespace Spec

/-- The bytes of a tensor: as many as its stored size, at its offset. -/
def ownBytes (file : List UInt8) (h : GgufHeader) (t : GgufTensorInfo) : List UInt8 :=
  (file.drop (h.dataSectionStart.toNat + t.offset.toNat)).take (storedBytes t)

/-- The sum of the stored sizes before tensor `i`. -/
def packedOffset (ts : List GgufTensorInfo) (i : Nat) : Nat := ((ts.take i).map storedBytes).sum

/-- Every tensor has a size, and its range is in the file. -/
structure TensorsInFile (file : List UInt8) (h : GgufHeader) : Prop where
  stored : ∀ t ∈ h.tensors, ∃ s, t.storedSize = .ok s
  inFile : ∀ t ∈ h.tensors, h.dataSectionStart.toNat + t.offset.toNat + storedBytes t ≤ file.length

/-- The ranges are aligned, too. -/
structure RangesInFile (file : List UInt8) (h : GgufHeader) : Prop extends TensorsInFile file h where
  aligned : ∀ t ∈ h.tensors, ∀ a ∈ h.dataAlignment, a.toNat ∣ h.dataSectionStart.toNat + t.offset.toNat

/-- The copy loop, on what the seek leaves, adds the bytes of every tensor under
its name. -/
def CopiesOwn (file rest : List UInt8) (h : GgufHeader) : Prop :=
  ∃ w, copyTensorData (rewriterOf h []) h.tensors rest = .ok w ∧
    w.tensorData = h.tensors.map fun t => (t.name, ownBytes file h t)

/-- The bytes one after another from the data section on are those of the
tensors: the offset of each is the sum of the sizes before it, or the bytes at the
two places are the same. -/
def PackedBytes (file : List UInt8) (h : GgufHeader) : Prop :=
  ∀ i t, h.tensors[i]? = some t → t.offset.toNat = packedOffset h.tensors i ∨
    (file.drop (h.dataSectionStart.toNat + packedOffset h.tensors i)).take (storedBytes t) = ownBytes file h t

end Spec

theorem packedOffset_cons (t : GgufTensorInfo) (ts : List GgufTensorInfo) (i : Nat) :
    packedOffset (t :: ts) (i + 1) = storedBytes t + packedOffset ts i := by
  rw [packedOffset, List.take_succ_cons, List.map_cons, List.sum_cons, packedOffset]

/-- Tensor `i` is copied from after those before it. -/
theorem copiedData_getElem (ts : List GgufTensorInfo) (rest : List UInt8) (i : Nat) :
    (copiedData ts rest)[i]? =
      ts[i]?.map fun t => (t.name, (rest.drop (packedOffset ts i)).take (storedBytes t)) := by
  induction ts generalizing rest i with
  | nil => rfl
  | cons t ts ih =>
    cases i with
    | zero => rfl
    | succ i => rw [copiedData, List.getElem?_cons_succ, ih, packedOffset_cons, List.drop_drop, List.getElem?_cons_succ]

theorem packedOffset_succ {ts : List GgufTensorInfo} {i : Nat} {t : GgufTensorInfo} (ht : ts[i]? = some t) :
    packedOffset ts (i + 1) = packedOffset ts i + storedBytes t := by
  rw [packedOffset, List.take_add_one, ht, Option.toList_some, List.map_append, List.sum_append, packedOffset]
  rfl

/-- If each tensor is read in full, together they are in the input. -/
theorem packedOffset_le (ts : List GgufTensorInfo) (rest : List UInt8)
    (h : ∀ i t, ts[i]? = some t → ((rest.drop (packedOffset ts i)).take (storedBytes t)).length = storedBytes t)
    (i : Nat) : packedOffset ts i ≤ rest.length := by
  induction i with
  | zero => exact Nat.zero_le _
  | succ i ih =>
    cases ht : ts[i]? with
    | none =>
      rw [packedOffset, List.take_add_one, ht, Option.toList_none, List.append_nil]
      exact ih
    | some t =>
      have hl := h i t ht
      rw [List.length_take, List.length_drop] at hl
      rw [packedOffset_succ ht]
      omega

theorem length_ownBytes {file : List UInt8} {h : GgufHeader} (hr : TensorsInFile file h) {t : GgufTensorInfo}
    (ht : t ∈ h.tensors) : (ownBytes file h t).length = storedBytes t := by
  have := hr.inFile t ht
  rw [ownBytes, List.length_take, List.length_drop]
  omega

/-- What the loop copies is what the ranges hold. -/
theorem packedBytes_iff {file : List UInt8} {h : GgufHeader} : PackedBytes file h ↔
    ∀ i t, h.tensors[i]? = some t →
      (file.drop (h.dataSectionStart.toNat + packedOffset h.tensors i)).take (storedBytes t) = ownBytes file h t := by
  constructor
  · intro hp i t ht
    rcases hp i t ht with ho | he
    · rw [ownBytes, ho]
    · exact he
  · exact fun he i t ht => .inr (he i t ht)

/-- The loop copies every tensor's bytes where they lie packed, and otherwise
other bytes, or too few. -/
theorem copiesOwn_iff {file : List UInt8} {h : GgufHeader} (hr : TensorsInFile file h) :
    CopiesOwn file (file.drop h.dataSectionStart.toNat) h ↔ PackedBytes file h := by
  have hdata : copiedData h.tensors (file.drop h.dataSectionStart.toNat) =
      (h.tensors.map fun t => (t.name, ownBytes file h t)) ↔ PackedBytes file h := by
    rw [packedBytes_iff]
    constructor
    · intro heq i t ht
      have hi := congrArg (·[i]?) heq
      simp only [copiedData_getElem, List.getElem?_map, ht, Option.map_some, List.drop_drop] at hi
      exact (Prod.mk.inj (Option.some.inj hi)).2
    · intro hp
      refine List.ext_getElem? fun i => ?_
      rw [copiedData_getElem, List.getElem?_map]
      cases ht : h.tensors[i]? with
      | none => rfl
      | some t => rw [Option.map_some, Option.map_some, List.drop_drop, hp i t ht]
  rw [CopiesOwn, ← hdata]
  simp only [copyTensorData_eq_ok]
  constructor
  · rintro ⟨w, ⟨-, rfl⟩, hw⟩
    exact hw
  · intro heq
    refine ⟨_, ⟨⟨hr.stored, ?_⟩, rfl⟩, heq⟩
    have hp := packedBytes_iff.mp (hdata.mp heq)
    have hle := packedOffset_le h.tensors (file.drop h.dataSectionStart.toNat) (fun i t ht => by
      rw [List.drop_drop, hp i t ht]
      exact length_ownBytes hr (List.mem_of_getElem? ht)) h.tensors.length
    rwa [packedOffset, List.take_length] at hle

/-- With the ranges of its tensors inside the file, the copy loop hands every
tensor its own bytes exactly where the tensors are packed, or the file holds the
same bytes as if they were. -/
theorem copyTensorData_own_iff (file rest : List UInt8) (h : GgufHeader)
    (hseek : seek file h.dataSectionStart = .ok rest) (hr : RangesInFile file h) :
    CopiesOwn file rest h ↔ PackedBytes file h := by
  rw [seek] at hseek
  split at hseek
  · obtain rfl := Except.ok.inj hseek
    exact copiesOwn_iff hr.toTensorsInFile
  · cases hseek

def paddedHeader : GgufHeader := pairHeader 32

theorem paddedHeader_ranges {file : List UInt8} (hlen : 130 ≤ file.length) : RangesInFile file paddedHeader := by
  have hstart : paddedHeader.dataSectionStart.toNat = 96 := by decide +kernel
  refine ⟨⟨fun t ht => ?_, fun t ht => ?_⟩, fun t ht a ha => ?_⟩
  · rcases List.mem_pair.mp ht with rfl | rfl <;> exact ⟨2, rfl⟩
  · rw [hstart]
    rcases List.mem_pair.mp ht with rfl | rfl
    · exact Nat.le_trans (by decide) hlen
    · exact Nat.le_trans (by decide) hlen
  · obtain rfl := Option.some.inj ha
    rw [hstart]
    rcases List.mem_pair.mp ht with rfl | rfl <;> decide

/-- Two tensors of two zeros, each padded to 32. -/
def zerosFile : List UInt8 := pairWord 32 ++ List.replicate 40 0

/-- Zeros are copied for zeros. -/
theorem copyTensorData_own_sample :
    CopiesOwn zerosFile (zerosFile.drop paddedHeader.dataSectionStart.toNat) paddedHeader := by
  refine (copyTensorData_own_iff zerosFile (zerosFile.drop paddedHeader.dataSectionStart.toNat) paddedHeader
    (if_pos (by decide +kernel)) (paddedHeader_ranges (by decide +kernel))).mpr fun i t ht => ?_
  obtain ⟨rfl, rfl⟩ | ⟨rfl, rfl⟩ := pairHeader_tensors ht
  · exact .inl rfl
  · exact .inr (by decide +kernel)

/-- A file with two tensors of two bytes, each padded to 32. -/
def paddedFile : List UInt8 := pairWord 32 ++ (List.replicate 6 0 ++ ([1, 2] ++ (List.replicate 30 0 ++ [3, 4])))

/-- The second tensor gets two bytes of padding. -/
theorem copyTensorData_shifts : ¬ ∀ (fs : FileSystem) (inputPath : String) (file rest : List UInt8) (h : GgufHeader),
    fs inputPath = some file → parseGguf fs inputPath = .ok h → seek file h.dataSectionStart = .ok rest →
      RangesInFile file h → CopiesOwn file rest h := by
  intro hall
  have hr : RangesInFile paddedFile paddedHeader := paddedHeader_ranges (by decide +kernel)
  have hown := hall (singleFile "in.gguf" paddedFile) "in.gguf" paddedFile _ paddedHeader rfl (pairWord_parse 32 _)
    (if_pos (by decide +kernel)) hr
  have hsame := packedBytes_iff.mp ((copiesOwn_iff hr.toTensorsInFile).mp hown) 1 ⟨"b", [2], 32, 24⟩ rfl
  exact absurd hsame (by decide +kernel)

/-! ## All data -/

/-- The computed size of a record that was read is at least its length. -/
theorem length_le_unboundedKvSize {f : GgufWireFormat} {kv : GgufKvPair} {c : List UInt8} (h : KvRecord f kv c)
    (hc : c.length < 2 ^ 60) : c.length ≤ unboundedKvSize f kv := by
  have hle := unboundedKvSize_le h
  have heq := congrArg UInt64.toNat ((rawByteSizeForFormat_kv f kv).symm.trans (rawByteSize_kvRecord h))
  obtain ⟨_, p, _, hp, rfl⟩ := h
  have hbf := bfloat16Count_le hp
  have hs : arraySlack f kv.value ≤ 8 := by cases kv.value <;> simp [arraySlack]
  rw [UInt64.toNat_ofNat', UInt64.toNat_ofNat'] at heq
  simp only [List.length_append] at *
  omega

theorem length_le_sum {α : Type} {R : α → List UInt8 → Prop} {n : α → Nat} {m : Nat}
    (hn : ∀ a c, R a c → c.length < m → c.length ≤ n a) {as : List α} {c : List UInt8} (h : Many R as c)
    (hc : c.length < m) : c.length ≤ (as.map n).sum := by
  induction h with
  | nil => exact Nat.zero_le _
  | cons hR _ ih =>
    rw [List.length_append] at hc ⊢
    have h₁ := hn _ _ hR (by omega)
    have h₂ := ih (by omega)
    rw [List.map_cons, List.sum_cons]
    omega

/-- The data section is behind the header. -/
theorem consumed_le_dataSectionStart {b : List UInt8} {h : GgufHeader} (hb : b.length < 2 ^ 60)
    (hok : (parseGgufReader b).result = .ok h) : parseGgufReader.consumed b ≤ h.dataSectionStart.toNat := by
  obtain ⟨hword, hle⟩ := recognises_parseGgufReader.word hok
  have hlen := List.length_take_of_le hle
  generalize b.take (parseGgufReader.consumed b) = c at hword hlen
  rw [← hlen] at hle ⊢
  obtain ⟨v, hv, he, ha, hsize⟩ := unboundedHeaderSize_le hword
  rw [toNat_dataSectionStart he ha (by omega)]
  refine Nat.le_trans ?_ (le_roundUp _ _)
  cases hword with
  | @v1 n kvs k _ _ hM =>
    obtain rfl : v = .v1 := versionNumber_inj hv.symm
    rw [List.length_append, length_preamble] at *
    have hk := length_le_sum (n := unboundedKvSize _) (fun _ _ => length_le_unboundedKvSize) hM (by omega)
    simp only [unboundedHeaderSize, headerOf, List.map_nil, List.sum_nil, GgufVersion.wireFormat] at hk ⊢
    omega
  | @v23 v' _ kvs ts k t _ _ _ hM hM' =>
    obtain rfl : v' = v := versionNumber_inj hv
    rw [List.length_append, length_preamble, List.length_append] at *
    have hk := length_le_sum (n := unboundedKvSize _) (fun _ _ => length_le_unboundedKvSize) hM (by omega)
    have ht := length_le_sum (n := unboundedTensorSize _) (m := 2 ^ 60)
      (fun _ _ h _ => Nat.le_of_eq (length_eq_unboundedTensorSize h)) hM' (by omega)
    simp only [unboundedHeaderSize, headerOf]
    omega

/-- A byte behind the header can be another. -/
theorem parse_set {b : List UInt8} {h : GgufHeader} (hok : (parseGgufReader b).result = .ok h) {p : Nat}
    (hp : parseGgufReader.consumed b ≤ p) (x : UInt8) : (parseGgufReader (b.set p x)).result = .ok h := by
  obtain ⟨hword, hle⟩ := recognises_parseGgufReader.word hok
  have hlen := List.length_take_of_le hle
  have hset : b.set p x = b.take (parseGgufReader.consumed b) ++
      (b.drop (parseGgufReader.consumed b)).set (p - parseGgufReader.consumed b) x := by
    conv => lhs; rw [← List.take_append_drop (parseGgufReader.consumed b) b]
    rw [List.set_append_right _ _ (by omega), hlen]
  rw [hset]
  exact (recognises_parseGgufReader.returns_append hword _).1

theorem Spec.TensorsInFile.of_length {file file' : List UInt8} {h : GgufHeader} (hr : TensorsInFile file h)
    (hl : file'.length = file.length) : TensorsInFile file' h :=
  ⟨hr.stored, fun t ht => hl ▸ hr.inFile t ht⟩

/-- Whatever the bytes behind the header are, every tensor gets its own exactly
where each that is not empty has the sum of the sizes before it as its offset. -/
theorem copies_all_data_iff {file : List UInt8} {h : GgufHeader} (hlen : file.length < 2 ^ 60)
    (hok : (parseGgufReader file).result = .ok h) (hr : TensorsInFile file h) :
    (∀ file', file'.length = file.length → (parseGgufReader file').result = .ok h →
        CopiesOwn file' (file'.drop h.dataSectionStart.toNat) h) ↔
      ∀ i t, h.tensors[i]? = some t → storedBytes t ≠ 0 → t.offset.toNat = packedOffset h.tensors i := by
  constructor
  · intro hall i t ht hne
    by_contra hoff
    have hin := hr.inFile t (List.mem_of_getElem? ht)
    have hbehind := consumed_le_dataSectionStart hlen hok
    -- the first byte of the tensor, changed, is not the one that is copied
    obtain ⟨x, hx⟩ : ∃ x, file[h.dataSectionStart.toNat + t.offset.toNat]? = some x :=
      ⟨_, List.getElem?_eq_getElem (by omega)⟩
    have same (file' : List UInt8) (hl : file'.length = file.length) (hp : (parseGgufReader file').result = .ok h) :
        file'[h.dataSectionStart.toNat + packedOffset h.tensors i]? =
          file'[h.dataSectionStart.toNat + t.offset.toNat]? := by
      have hcopy := (copiesOwn_iff (hr.of_length hl)).mp (hall file' hl hp)
      have hi := congrArg (·[0]?) (packedBytes_iff.mp hcopy i t ht)
      simpa [ownBytes, List.getElem?_take, Nat.pos_of_ne_zero hne] using hi
    have hold := same file rfl hok
    have hnew := same (file.set (h.dataSectionStart.toNat + t.offset.toNat) (x + 1)) (List.length_set ..)
      (parse_set hok (by omega) _)
    rw [List.getElem?_set_ne (by omega), hold, List.getElem?_set_self (by omega), hx, Option.some.injEq] at hnew
    have hxn := congrArg UInt8.toNat hnew
    rw [UInt8.toNat_add] at hxn
    have : (1 : UInt8).toNat = 1 := rfl
    have := x.toNat_lt
    omega
  · intro hoff file' hl _
    refine (copiesOwn_iff (hr.of_length hl)).mpr fun i t ht => ?_
    by_cases h0 : storedBytes t = 0
    · exact .inr (by rw [ownBytes, h0, List.take_zero, List.take_zero])
    · exact .inl (hoff i t ht h0)

/-- Two tensors of two bytes, packed. -/
def packedFile : List UInt8 := pairWord 2 ++ (List.replicate 6 0 ++ [1, 2, 3, 4])

theorem copies_all_data_sample :
    CopiesOwn packedFile (packedFile.drop (pairHeader 2).dataSectionStart.toNat) (pairHeader 2) := by
  have hparse : (parseGgufReader packedFile).result = .ok (pairHeader 2) := pairWord_parse 2 _
  have hr : TensorsInFile packedFile (pairHeader 2) := by
    refine ⟨fun t ht => ?_, fun t ht => ?_⟩
    · rcases List.mem_pair.mp ht with rfl | rfl <;> exact ⟨2, rfl⟩
    · rcases List.mem_pair.mp ht with rfl | rfl <;> decide +kernel
  refine (copies_all_data_iff (by decide +kernel) hparse hr).mpr (fun i t ht _ => ?_) _ rfl hparse
  obtain ⟨rfl, rfl⟩ | ⟨rfl, rfl⟩ := pairHeader_tensors ht <;> rfl

end PestiGguf
