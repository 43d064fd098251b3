import PestiGguf.Proof.Complete
import PestiGguf.Proof.Conformance
import PestiGguf.Proof.DtypeProof
import PestiGguf.Proof.Rewrite

/-!
# Files that pass the conformance suite

A file that the suite accepts is tiled by its tensors, each padded, from the data
section to the last byte, and each tensor's data are extracted from its place. The
suite's `align_up` wraps for sizes just below 2^64, and a file with such a tensor
may pass; those are the only exceptions (`checkFile_extracts_iff`).
-/

namespace PestiGguf

open Codec Codec.Reader Spec
open CorpusConformance (checkAlign checkFile)

/-- The place of a tensor and its padded size are before a later place. -/
theorem paddedOffset_add_le (a : Nat) {ts : List GgufTensorInfo} {i j : Nat} {t : GgufTensorInfo} (ht : ts[i]? = some t)
    (hij : i < j) : paddedOffset a ts i + roundUp a (storedBytes t) ≤ paddedOffset a ts j := by
  induction ts generalizing i j with
  | nil => cases ht
  | cons u ts ih =>
    obtain ⟨j, rfl⟩ := Nat.exists_eq_add_one_of_ne_zero (Nat.ne_of_gt (Nat.zero_lt_of_lt hij))
    have hcons (k : Nat) : paddedOffset a (u :: ts) (k + 1) = roundUp a (storedBytes u) + paddedOffset a ts k := by
      rw [paddedOffset, List.take_succ_cons, List.map_cons, List.sum_cons, paddedOffset]
    rw [hcons]
    cases i with
    | zero =>
      rw [show u = t from Option.some.inj ht]
      simp [paddedOffset]
    | succ i =>
      have := ih ht (Nat.lt_of_succ_lt_succ hij)
      rw [hcons]
      omega

/-- The alignment the suite sums with. -/
theorem checkAlign_of_parse {b : List UInt8} {h : GgufHeader} (hp : (parseGgufReader b).result = .ok h) :
    0 < (checkAlign h).toNat ∧ (checkAlign h).toNat ≤ 65536 := by
  obtain ⟨v, kvs, ts, hal, rfl⟩ : ∃ v kvs ts, AlignmentOk kvs ∧ h = headerOf v kvs ts := by
    obtain ⟨c, -, hc⟩ := (recognises_parseGgufReader _ _ _).mp ⟨hp, rfl⟩
    cases hc with
    | v1 _ _ ha _ => exact ⟨_, _, _, ha, rfl⟩
    | v23 _ _ _ ha _ _ => exact ⟨_, _, _, ha, rfl⟩
  have hlt : alignmentOf kvs < 2 ^ 64 := Nat.lt_of_le_of_lt hal.bounds.2 (by decide)
  have htoNat : (UInt64.ofNat (alignmentOf kvs)).toNat = alignmentOf kvs := UInt64.toNat_ofNat_of_lt' hlt
  rw [checkAlign_eq (h := headerOf v kvs ts) rfl (by rw [htoNat]; exact hal.bounds.1), htoNat]
  exact hal.bounds

/-- The tensors are where `check_file` sums them, and they are all that follows the
header and its padding. -/
def Spec.Tiles (fs : FileSystem) (path : String) (file : List UInt8) (h : GgufHeader) (a : Nat) : Prop :=
  h.dataSectionStart.toNat + paddedOffset a h.tensors h.tensors.length = file.length ∧
  ∀ i t size, h.tensors[i]? = some t → t.storedSize = .ok size →
    extractTensorBytesFromPath fs path (h.dataSectionStart + UInt64.ofNat (paddedOffset a h.tensors i)) size =
      .ok ((file.drop (h.dataSectionStart.toNat + paddedOffset a h.tensors i)).take size.toNat)

/-- Where no padded size wraps, the suite sums the padded sizes. -/
theorem paddedTotal_eq {a : UInt64} {ts : List GgufTensorInfo} (hfit : ∀ t ∈ ts, storedBytes t + a.toNat < 2 ^ 64) :
    paddedTotal a ts = paddedOffset a.toNat ts ts.length := by
  rw [paddedTotal, paddedOffset, List.take_length]
  congr 1
  refine List.map_congr_left fun t ht => ?_
  have hsize : (DtypeProof.sizeOrZero t).toNat = storedBytes t := by
    rw [DtypeProof.sizeOrZero, storedBytes]
    cases t.storedSize <;> rfl
  rw [toNat_alignUp_suite (by rw [hsize]; exact hfit t ht), hsize]

/-- Of a file that the suite accepts, every tensor is extracted from its padded
place, if the size of no tensor wraps where it is padded. -/
theorem checkFile_extracts_iff {fs : FileSystem} {path : String} {file : List UInt8} {h : GgufHeader}
    (hfs : fs path = some file) (hp : parseGguf fs path = .ok h) (hlen : file.length < 2 ^ 63)
    (hok : ∃ r, checkFile fs path = .ok r) :
    Tiles fs path file h (checkAlign h).toNat ↔
      ∀ t ∈ h.tensors, storedBytes t + (checkAlign h).toNat < 2 ^ 64 := by
  obtain ⟨-, hstart, hsum⟩ := (checkFile_ok hfs hp).mp hok
  obtain ⟨hsizes, -, htotal⟩ := paddedSum_eq_ok.mp hsum
  have hN : (UInt64.ofNat file.length).toNat = file.length := UInt64.toNat_ofNat_of_lt' (Nat.lt_trans hlen (by decide))
  rw [UInt64.lt_iff_toNat_lt, hN] at hstart
  constructor
  · intro htiles t ht
    obtain ⟨i, hi⟩ := List.getElem?_of_mem ht
    obtain ⟨size, hs⟩ := hsizes t ht
    have halign := (checkAlign_of_parse (parseGguf_eq hfs ▸ hp)).2
    -- what was extracted is in the file
    have hle := paddedOffset_add_le (checkAlign h).toNat hi (List.getElem?_eq_some_iff.mp hi).1
    have hround := le_roundUp (checkAlign h).toNat (storedBytes t)
    have htile := htiles.1
    omega
  · intro hfit
    rw [UInt64.toNat_sub_of_le _ _ (by rw [UInt64.le_iff_toNat_le, hN]; omega), hN, UInt64.toNat_zero,
      Nat.zero_add, paddedTotal_eq hfit] at htotal
    refine ⟨by omega, fun i t size hi hs => ?_⟩
    have hle := paddedOffset_add_le (checkAlign h).toNat hi (List.getElem?_eq_some_iff.mp hi).1
    have hround := le_roundUp (checkAlign h).toNat (storedBytes t)
    rw [storedBytes_of_ok hs] at hle hround
    have hplace : (h.dataSectionStart + UInt64.ofNat (paddedOffset (checkAlign h).toNat h.tensors i)).toNat =
        h.dataSectionStart.toNat + paddedOffset (checkAlign h).toNat h.tensors i := by
      rw [UInt64.toNat_add, UInt64.toNat_ofNat', Nat.add_mod_mod, Nat.mod_eq_of_lt (by omega)]
    rw [extract_eq hfs (by rw [hplace]; omega) hlen, hplace]

theorem checkFile_extracts_sample :
    Tiles (fun _ => some paddedSample) "in.gguf" paddedSample sampleHeader (checkAlign sampleHeader).toNat := by
  have hfs : (fun _ => some paddedSample : FileSystem) "in.gguf" = some paddedSample := rfl
  have hp : parseGguf (fun _ => some paddedSample) "in.gguf" = .ok sampleHeader := paddedSample_parse
  have hlen : paddedSample.length = 128 := by decide +kernel
  have hsum : CorpusConformance.paddedSum (checkAlign sampleHeader) sampleHeader.tensors 0 = .ok 32 := by decide +kernel
  refine (checkFile_extracts_iff hfs hp (by rw [hlen]; decide) ((checkFile_ok hfs hp).mpr ⟨nofun, ?_, ?_⟩)).mpr ?_
  · rw [hlen]
    decide +kernel
  · rw [hlen, hsum]
    decide +kernel
  · decide +kernel

end PestiGguf
