import PestiGguf.Framework.Errors
import PestiGguf.Proof.Complete
import PestiGguf.Proof.CopyLoop
import PestiGguf.Proof.Extraction

/-!
# Ways to read the tensors

The data of some tensors one after another are read by the copy loop of
`parse_and_rewrite`, by `extract_tensor_bytes` on one reader (`Spec.extractAll`), and
by `extract_tensor_bytes_from_path` at the sums of the sizes before each. All three
read the same (`ways_agree`), but that an unknown size stops the copy loop and is no
bytes for the others.
-/

namespace PestiGguf

open Codec Codec.Reader Spec

/-- The tensors one after another from where the reader stands. -/
def Spec.extractAll : List GgufTensorInfo → Input (List (List UInt8))
  | [] => pure []
  | t :: ts => do
    let data ← extractTensorBytes t.dtype t.elementCount t.offset 0
    let rest ← extractAll ts
    pure (data :: rest)

theorem toNat_tensorBytesForDtype (t : GgufTensorInfo) :
    (tensorBytesForDtype t.dtype t.elementCount).toNat = storedBytes t := by
  rw [tensorBytesForDtype_eq, storedBytes]
  cases t.storedSize <;> rfl

/-- The sum of all sizes. -/
theorem packedOffset_length (ts : List GgufTensorInfo) : packedOffset ts ts.length = (ts.map storedBytes).sum := by
  rw [packedOffset, List.take_length]

/-- A tensor ends before the sum of all sizes. -/
theorem packedOffset_add_le {ts : List GgufTensorInfo} {i : Nat} {t : GgufTensorInfo} (ht : ts[i]? = some t) :
    packedOffset ts i + storedBytes t ≤ (ts.map storedBytes).sum := by
  rw [← packedOffset_succ ht, packedOffset, List.map_take]
  exact (List.take_sublist _ _).sum_le_sum fun _ _ => Nat.zero_le _

theorem returns_extractAll {ts : List GgufTensorInfo} {b r : List UInt8} {data : List (List UInt8)} :
    (extractAll ts).Returns b data r ↔
      (ts.map storedBytes).sum ≤ b.length ∧ data = (copiedData ts b).map (·.2) ∧ r = b.drop (ts.map storedBytes).sum := by
  induction ts generalizing b r data with
  | nil => simp [extractAll, copiedData]
  | cons t ts ih =>
    rw [extractAll, returns_bind, copiedData, List.map_cons, List.map_cons, List.sum_cons]
    constructor
    · rintro ⟨d, b', hd, hrest⟩
      obtain ⟨_, rfl, rfl, hl⟩ := (recognises_extractTensorBytes _ _ _ _ _ _ _).mp hd
      obtain ⟨ds, r', hds, hpure⟩ := returns_bind.mp hrest
      obtain ⟨rfl, rfl⟩ := returns_pure.mp hpure
      obtain ⟨hle, rfl, rfl⟩ := ih.mp hds
      rw [toNat_tensorBytesForDtype] at hl
      rw [← hl, List.take_left, List.drop_left, ← List.drop_drop, List.drop_left, List.length_append]
      exact ⟨Nat.add_le_add_left hle _, rfl, rfl⟩
    · rintro ⟨hle, rfl, rfl⟩
      have hfirst : (extractTensorBytes t.dtype t.elementCount t.offset 0).Returns b (b.take (storedBytes t))
          (b.drop (storedBytes t)) := by
        refine (recognises_extractTensorBytes _ _ _ _ _ _ _).mpr ⟨_, (List.take_append_drop _ b).symm, rfl, ?_⟩
        rw [toNat_tensorBytesForDtype]
        exact List.length_take_of_le (by omega)
      have hrest := ih.mpr ⟨show (ts.map storedBytes).sum ≤ (b.drop (storedBytes t)).length by
        rw [List.length_drop]; omega, rfl, rfl⟩
      exact ⟨_, _, hfirst, returns_bind.mpr ⟨_, _, hrest, returns_pure.mpr ⟨rfl, (List.drop_drop ..).symm⟩⟩⟩

theorem length_copiedData (ts : List GgufTensorInfo) (b : List UInt8) : (copiedData ts b).length = ts.length := by
  have hnames := congrArg List.length (names_copiedData ts b)
  rwa [List.length_map, List.length_map] at hnames

/-- The names are those of the tensors. -/
theorem zip_copiedData (ts : List GgufTensorInfo) (b : List UInt8) :
    copiedData ts b = (ts.map (·.name)).zip ((copiedData ts b).map (·.2)) := by
  induction ts generalizing b with
  | nil => rfl
  | cons t ts ih => rw [copiedData, List.map_cons, List.map_cons, List.zip_cons_cons, ← ih]

section
variable {fs : FileSystem} {path : String} {file rest : List UInt8} {start : UInt64} (hfs : fs path = some file)
  (hlen : file.length < 2 ^ 63) (hseek : seek file start = .ok rest)
include hfs hlen hseek

/-- Reading the file at the place of a tensor is reading what the seek leaves. -/
theorem extract_packed {ts : List GgufTensorInfo} {i : Nat} (hi : packedOffset ts i ≤ rest.length) (size : UInt64) :
    extractTensorBytesFromPath fs path (start + UInt64.ofNat (packedOffset ts i)) size =
      if size.toNat ≤ rest.length - packedOffset ts i then .ok ((rest.drop (packedOffset ts i)).take size.toNat)
      else .error (.io "read: failed to fill whole buffer") := by
  rw [seek] at hseek
  split at hseek
  · rename_i hstart
    obtain rfl := Except.ok.inj hseek
    rw [List.length_drop] at hi ⊢
    have hoff : (start + UInt64.ofNat (packedOffset ts i)).toNat = start.toNat + packedOffset ts i := by
      rw [UInt64.toNat_add, UInt64.toNat_ofNat', Nat.add_mod_mod, Nat.mod_eq_of_lt]
      omega
    rw [extract_file hfs (by rw [hoff]; omega), hoff, List.drop_drop, Nat.sub_sub]
  · cases hseek

/-- Where each tensor can be read at its place, they are all in what the seek leaves. -/
theorem packed_of_extracts {ts : List GgufTensorInfo} (hall : ∀ i t, ts[i]? = some t → ∃ d, extractTensorBytesFromPath
    fs path (start + UInt64.ofNat (packedOffset ts i)) (tensorBytesForDtype t.dtype t.elementCount) = .ok d) {i : Nat}
    (hi : i ≤ ts.length) : packedOffset ts i ≤ rest.length := by
  induction i with
  | zero => exact Nat.zero_le _
  | succ i ih =>
    have hle := ih (by omega)
    have ht := List.getElem?_eq_getElem (show i < ts.length by omega)
    obtain ⟨d, hread⟩ := hall i _ ht
    rw [extract_packed hfs hlen hseek hle, toNat_tensorBytesForDtype] at hread
    split at hread
    · rw [packedOffset_succ ht]
      omega
    · cases hread

theorem extractAll_iff_path (ts : List GgufTensorInfo) (data : List (List UInt8)) :
    (∃ r, (extractAll ts).Returns rest data r) ↔ data.length = ts.length ∧
      ∀ i t d, ts[i]? = some t → data[i]? = some d → extractTensorBytesFromPath fs path
        (start + UInt64.ofNat (packedOffset ts i)) (tensorBytesForDtype t.dtype t.elementCount) = .ok d := by
  have read {i : Nat} (h : (ts.map storedBytes).sum ≤ rest.length) {t : GgufTensorInfo} (ht : ts[i]? = some t) :
      extractTensorBytesFromPath fs path (start + UInt64.ofNat (packedOffset ts i))
        (tensorBytesForDtype t.dtype t.elementCount) =
          .ok ((rest.drop (packedOffset ts i)).take (storedBytes t)) := by
    have := packedOffset_add_le ht
    rw [extract_packed hfs hlen hseek (by omega), toNat_tensorBytesForDtype, if_pos (by omega)]
  constructor
  · rintro ⟨r, h⟩
    obtain ⟨hle, rfl, -⟩ := returns_extractAll.mp h
    refine ⟨by rw [List.length_map, length_copiedData], fun i t d ht hd => ?_⟩
    rw [List.getElem?_map, copiedData_getElem, ht] at hd
    obtain rfl := Option.some.inj hd
    exact read hle ht
  · rintro ⟨hlength, hall⟩
    have hsum := packed_of_extracts hfs hlen hseek (fun i t ht => by
      have hlt := (List.getElem?_eq_some_iff.mp ht).1
      exact ⟨_, hall i t _ ht (List.getElem?_eq_getElem (show i < data.length by omega))⟩) (Nat.le_refl ts.length)
    rw [packedOffset_length] at hsum
    refine ⟨_, returns_extractAll.mpr ⟨hsum, ?_, rfl⟩⟩
    refine List.ext_getElem? fun i => ?_
    rw [List.getElem?_map, copiedData_getElem]
    cases ht : ts[i]? with
    | none =>
      rw [List.getElem?_eq_none_iff] at ht
      rw [List.getElem?_eq_none (by omega)]
      rfl
    | some t =>
      have hlt := (List.getElem?_eq_some_iff.mp ht).1
      have hd := List.getElem?_eq_getElem (show i < data.length by omega)
      rw [hd, ← Except.ok.inj ((read hsum ht).symm.trans (hall i t _ ht hd))]
      rfl

end

/-! ## The copy loop -/

theorem extractAll_eq_error {ts : List GgufTensorInfo} {b : List UInt8} {e : GgufError} :
    (extractAll ts b).result = .error e ↔ b.length < (ts.map storedBytes).sum ∧ e = .binary .unexpectedEof := by
  have honly : (extractAll ts).Spares (· ≠ .binary .unexpectedEof) := by
    induction ts with
    | nil => exact .pure []
    | cons t ts ih =>
      have hfirst : (extractTensorBytes t.dtype t.elementCount t.offset 0).Spares (· ≠ .binary .unexpectedEof) :=
        (Spares.event _).bind fun _ => .exact _ fun h => h rfl
      exact hfirst.bind fun _ => ih.map
  constructor
  · intro h
    refine ⟨Nat.lt_of_not_le fun hle => ?_, not_not.mp fun hne => honly b e hne h⟩
    have hok := (returns_extractAll.mpr ⟨hle, rfl, rfl⟩).1
    rw [h] at hok
    cases hok
  · rintro ⟨hlt, rfl⟩
    obtain ⟨e, he⟩ := isError_of_not_returns (p := extractAll ts) (b := b) fun data r h =>
      Nat.not_le_of_lt hlt (returns_extractAll.mp h).1
    rw [he, not_not.mp fun hne => honly b e hne he]

/-- Where all sizes are known, the copy loop stops at the end of the input only. -/
theorem eof_of_copyStops {ts : List GgufTensorInfo} {b : List UInt8} {e : GgufError}
    (hs : ∀ t ∈ ts, ∃ size, t.storedSize = .ok size) (h : CopyStops ts b e) : e = .binary .unexpectedEof := by
  obtain ⟨ts₁, t, ts₂, rfl, -, herr | ⟨s, -, -, he⟩⟩ := h
  · obtain ⟨size, hsize⟩ := hs t (by simp)
    rw [hsize] at herr
    cases herr
  · exact he

theorem copyTensorData_eq_error_iff {w : GgufWriter} {ts : List GgufTensorInfo} {b : List UInt8} {e : GgufError}
    (hs : ∀ t ∈ ts, ∃ size, t.storedSize = .ok size) : copyTensorData w ts b = .error e ↔
      b.length < (ts.map storedBytes).sum ∧ e = .binary .unexpectedEof := by
  constructor
  · intro h
    refine ⟨Nat.lt_of_not_le fun hle => ?_, eof_of_copyStops hs (copyTensorData_eq_error.mp h)⟩
    rw [copyTensorData_eq_ok.mpr ⟨⟨hs, hle⟩, rfl⟩] at h
    cases h
  · rintro ⟨hlt, rfl⟩
    cases hc : copyTensorData w ts b with
    | ok w' => exact absurd (copyTensorData_eq_ok.mp hc).1.2 (Nat.not_le_of_lt hlt)
    | error e => rw [eof_of_copyStops hs (copyTensorData_eq_error.mp hc)]

/-- The three ways to read the tensors of a file from `start` on: they return the
same data and, where all sizes are known, fail alike. A size that is not known is an
error of the copy loop alone. Allocations are set aside: a buffer of 2^63 bytes or more
panics in all three. -/
theorem ways_agree (w : GgufWriter) (ts : List GgufTensorInfo) (fs : FileSystem) (path : String) (file rest : List UInt8)
    (start : UInt64) (hfs : fs path = some file) (hlen : file.length < 2 ^ 63) (hseek : seek file start = .ok rest) :
    (∀ data, (∃ r, (extractAll ts).Returns rest data r) ↔ data.length = ts.length ∧
      ∀ i t d, ts[i]? = some t → data[i]? = some d → extractTensorBytesFromPath fs path
        (start + UInt64.ofNat (packedOffset ts i)) (tensorBytesForDtype t.dtype t.elementCount) = .ok d) ∧
    (∀ w', copyTensorData w ts rest = .ok w' ↔ (∀ t ∈ ts, ∃ size, t.storedSize = .ok size) ∧
      ∃ data r, (extractAll ts).Returns rest data r ∧
        w' = { w with tensorData := w.tensorData ++ (ts.map (·.name)).zip data }) ∧
    ((∀ t ∈ ts, ∃ size, t.storedSize = .ok size) → ∀ e,
      copyTensorData w ts rest = .error e ↔ (extractAll ts rest).result = .error e) := by
  refine ⟨extractAll_iff_path hfs hlen hseek ts, fun w' => ?_, fun hs e => ?_⟩
  · rw [copyTensorData_eq_ok, Copyable, and_assoc]
    refine and_congr_right fun _ => ⟨?_, ?_⟩
    · rintro ⟨hle, rfl⟩
      exact ⟨_, _, returns_extractAll.mpr ⟨hle, rfl, rfl⟩, by rw [← zip_copiedData]⟩
    · rintro ⟨data, r, h, rfl⟩
      obtain ⟨hle, rfl, -⟩ := returns_extractAll.mp h
      exact ⟨hle, by rw [← zip_copiedData]⟩
  · rw [copyTensorData_eq_error_iff hs, extractAll_eq_error]

/-- Two tensors of two bytes. -/
theorem ways_agree_sample : ∃ data r,
    (extractAll [⟨"a", [2], 0, 24⟩, ⟨"b", [2], 0, 24⟩]).Returns [1, 2, 3, 4] data r ∧ data = [[1, 2], [3, 4]] := by
  obtain ⟨-, data, r, hdata, hw⟩ := ((ways_agree .new [⟨"a", [2], 0, 24⟩, ⟨"b", [2], 0, 24⟩]
    (fun _ => some [1, 2, 3, 4]) "m" [1, 2, 3, 4] [1, 2, 3, 4] 0 rfl (by decide) rfl).2.1
      { GgufWriter.new with tensorData := [("a", [1, 2]), ("b", [3, 4])] }).mp rfl
  exact ⟨data, r, hdata, (returns_extractAll.mp hdata).2.1⟩

end PestiGguf
