import PestiGguf.Framework.Grouping
import PestiGguf.Impl.CorpusConformance
import Mathlib.Data.String.Basic

/-!
# The check of dtypes and sizes (`examples/proof_dtype_misread.rs`)

`main` sums the sizes of a file's tensors by dtype, and compares the sum of the
sums with the length of the data section. It is modelled up to what it prints: its
`BTreeMap` is the list of its entries in key order, `main` returns what it computed,
and a panic is `none`.
-/

namespace PestiGguf.DtypeProof

open Codec

/-- An entry of `by_dtype`. -/
structure Totals where
  tensors : UInt32
  raw : UInt64
  elems : UInt64
  padded : UInt64
  deriving DecidableEq, Repr

/-- `align_up`, as that of the conformance suite. -/
def alignUp (v a : UInt64) : UInt64 := CorpusConformance.alignUp v a

/-- What names the dtype of a tensor, as it was read. -/
def dtypeKey (t : GgufTensorInfo) : String :=
  let dt := GgufDtype.fromU32 t.dtype
  s!"{dt.name} (raw id {t.dtype})"

/-- `stored_size().unwrap_or(0)`. -/
def sizeOrZero (t : GgufTensorInfo) : UInt64 :=
  match t.storedSize with
  | .ok sz => sz
  | .error _ => 0

/-- A step of the first loop, on the entry of the tensor's dtype. -/
def addTensor (align : UInt64) (t : GgufTensorInfo) (entry : Totals) : Totals :=
  let sz := sizeOrZero t
  let e := t.elementCount
  { tensors := entry.tensors + 1, raw := entry.raw + sz, elems := entry.elems + e,
    padded := entry.padded + alignUp sz align }

def byDtype (align : UInt64) (tensors : List GgufTensorInfo) : List (String × Totals) :=
  gather dtypeKey ⟨0, 0, 0, 0⟩ (addTensor align) tensors

/-- What `main` prints. -/
structure Report where
  byDtype : List (String × Totals)
  totalRaw : UInt64
  totalPadded : UInt64
  fsize : UInt64
  dataBytes : UInt64
  delta : Int
  deriving DecidableEq, Repr

/-- `PASS`, or else the exit code is 1. -/
def Report.pass (report : Report) : Bool := report.delta = 0

def main (fs : FileSystem) (path : String) : Option Report :=
  match parseGguf fs path with
  | .error _ => none
  | .ok header =>
    let align := max (header.dataAlignment.getD 1) 1
    let entries := byDtype align header.tensors
    let totalRaw := entries.foldl (fun sum entry => sum + entry.2.raw) 0
    let totalPadded := entries.foldl (fun sum entry => sum + entry.2.padded) 0
    match fs path with
    | none => none
    | some file =>
      let fsize := UInt64.ofNat file.length
      let dataBytes := fsize - header.dataSectionStart
      let delta : Int := dataBytes.toNat - totalPadded.toNat
      some { byDtype := entries, totalRaw, totalPadded, fsize, dataBytes, delta }

end PestiGguf.DtypeProof
