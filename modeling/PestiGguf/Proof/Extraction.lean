import PestiGguf.Proof.StoredSize
import PestiGguf.Proof.Parser

/-!
# Tensor bytes from a reader

`extract_tensor_bytes` and `extract_tensor_bytes_from` are one decoder: it
recognises the byte strings of the size `tensor_bytes_for_dtype` gives
(`recognises_extractTensorBytes`). That size is 0 where `stored_size` is an
error, and then they return no bytes instead of the error
(`extractTensorBytes_iff`).
-/

namespace PestiGguf

open Codec Codec.Reader Spec

namespace Spec

/-- Whole blocks of a dtype with blocks, of fewer than 2^64 bytes. -/
def WholeBlocks (dtype : UInt32) (count : UInt64) : Prop :=
  ∃ B S, (GgufDtype.fromU32 dtype).blockSize = some B ∧ (GgufDtype.fromU32 dtype).bytesPerBlock = some S ∧
    B.toNat ∣ count.toNat ∧ count.toNat / B.toNat * S.toNat < 2 ^ 64

/-- What is read of `b` is the next bytes, as many as the size, and nothing
where there are fewer or the size is an error. -/
def ExtractsSize (p : Input (List UInt8)) (size : Except GgufError UInt64) (b : List UInt8) : Prop :=
  ∀ buf, (p b).result = .ok buf ↔ ∃ n, size = .ok n ∧ n.toNat ≤ b.length ∧ buf = b.take n.toNat

end Spec

theorem extractTensorBytesFrom_eq : extractTensorBytesFrom = extractTensorBytes := rfl

theorem recognises_extractTensorBytes (dtype : UInt32) (count offset start : UInt64) :
    (extractTensorBytes dtype count offset start).Recognises
      fun buf c => c = buf ∧ buf.length = (tensorBytesForDtype dtype count).toNat := by
  refine ((Recognises.event _).bind fun _ => .exact _ _).congr fun buf c => ⟨?_, ?_⟩
  · rintro ⟨_, _, _, rfl, rfl, rfl, h⟩
    exact ⟨rfl, h⟩
  · rintro ⟨rfl, h⟩
    exact ⟨(), [], _, rfl, rfl, rfl, h⟩

theorem extractTensorBytes_eq_ok {dtype : UInt32} {count offset start : UInt64} {b buf : List UInt8} :
    (extractTensorBytes dtype count offset start b).result = .ok buf ↔
      (tensorBytesForDtype dtype count).toNat ≤ b.length ∧
        buf = b.take (tensorBytesForDtype dtype count).toNat := by
  have hreads : (extractTensorBytes dtype count offset start b).result = .ok buf ↔
      ∃ r, (extractTensorBytes dtype count offset start).Returns b buf r :=
    ⟨fun h => ⟨_, h, rfl⟩, fun ⟨_, h, _⟩ => h⟩
  rw [hreads]
  constructor
  · rintro ⟨r, h⟩
    obtain ⟨c, rfl, rfl, hl⟩ := (recognises_extractTensorBytes dtype count offset start b buf r).mp h
    rw [← hl]
    exact ⟨by simp, List.take_left.symm⟩
  · rintro ⟨hle, rfl⟩
    exact ⟨_, (recognises_extractTensorBytes dtype count offset start b _ _).mpr
      ⟨_, (List.take_append_drop _ b).symm, rfl, List.length_take_of_le hle⟩⟩

/-! ## The size -/

/-- `stored_size` reads the dtype and the number of elements only, its messages
apart. -/
theorem storedSize_congr {t u : GgufTensorInfo} (hd : t.dtype = u.dtype)
    (hn : t.elementCount = u.elementCount) : t.storedSize.toOption = u.storedSize.toOption := by
  simp only [GgufTensorInfo.storedSize, hd, hn]
  split
  · split
    · rfl
    · split <;> rfl
  · rfl

theorem tensorBytesForDtype_eq (t : GgufTensorInfo) :
    tensorBytesForDtype t.dtype t.elementCount = t.storedSize.toOption.getD 0 := by
  have hcount : GgufTensorInfo.elementCount ⟨"", [t.elementCount], 0, t.dtype⟩ = t.elementCount :=
    UInt64.one_mul _
  rw [storedSize_congr (t := t) (u := ⟨"", [t.elementCount], 0, t.dtype⟩) rfl hcount.symm, tensorBytesForDtype]
  cases GgufTensorInfo.storedSize ⟨"", [t.elementCount], 0, t.dtype⟩ <;> rfl

theorem storedSize_isOk_iff (t : GgufTensorInfo) :
    (∃ n, t.storedSize = .ok n) ↔ WholeBlocks t.dtype t.elementCount := by
  have hopt : (∃ n, t.storedSize = .ok n) ↔ t.storedSize.toOption.map UInt64.toNat ≠ none := by
    cases t.storedSize <;> simp [Except.toOption]
  rw [hopt]
  cases hB : (GgufDtype.fromU32 t.dtype).blockSize with
  | none => simp [storedSize_unknown (.inl hB), WholeBlocks, hB]
  | some B =>
    cases hS : (GgufDtype.fromU32 t.dtype).bytesPerBlock with
    | none => simp [storedSize_unknown (.inr hS), WholeBlocks, hS]
    | some S =>
      rw [storedSize_known hB hS, ← toNat_elementCount, sizeInBlocks]
      simp [WholeBlocks, hB, hS]

/-! ## Extraction -/

theorem extractTensorBytes_size_iff (t : GgufTensorInfo) (offset start : UInt64) (b : List UInt8) :
    ExtractsSize (extractTensorBytes t.dtype t.elementCount offset start) t.storedSize b ↔
      WholeBlocks t.dtype t.elementCount := by
  rw [← storedSize_isOk_iff]
  simp only [ExtractsSize, extractTensorBytes_eq_ok, tensorBytesForDtype_eq]
  cases t.storedSize with
  | ok n => simp [Except.toOption]
  | error e => simp [Except.toOption]

/-- The readers return the next `stored_size` bytes, and errors where there is no
size or too few are left, exactly for whole blocks. For anything else they
return no bytes. Allocations are set aside: a buffer of 2^63 bytes or more panics. -/
theorem extractTensorBytes_iff (t : GgufTensorInfo) (offset start : UInt64) (b : List UInt8) :
    (ExtractsSize (extractTensorBytes t.dtype t.elementCount offset start) t.storedSize b ↔
        WholeBlocks t.dtype t.elementCount) ∧
      (ExtractsSize (extractTensorBytesFrom t.dtype t.elementCount offset start) t.storedSize b ↔
        WholeBlocks t.dtype t.elementCount) :=
  ⟨extractTensorBytes_size_iff t offset start b,
    extractTensorBytesFrom_eq ▸ extractTensorBytes_size_iff t offset start b⟩

/-- A dtype that is not known is read as no bytes. -/
theorem extractTensorBytes_unknown : ¬ ∀ (t : GgufTensorInfo) (offset start : UInt64) (b : List UInt8),
    ExtractsSize (extractTensorBytes t.dtype t.elementCount offset start) t.storedSize b ∧
      ExtractsSize (extractTensorBytesFrom t.dtype t.elementCount offset start) t.storedSize b := by
  intro h
  obtain ⟨n, hn, -⟩ := ((h ⟨"t", [4], 0, 99⟩ 0 0 [1, 2]).1 []).mp rfl
  cases hn

end PestiGguf
