import PestiGguf.Impl.Parser

/-!
# The conformance law (`tests/corpus_conformance.rs`)

The equation the conformance suite checks of a file: the data section is
exactly the sizes of the tensors, each padded to the alignment. The texts of
the failures are constructors here.
-/

namespace PestiGguf.CorpusConformance

/-- The `Err`s of `check_file`. -/
inductive Failure where
  | parseFailed (e : GgufError)
  | noTensors
  | metadata
  | tooShort (fsize dataSectionStart : UInt64)
  | storedSize (name : String) (e : GgufError)
  | paddedSumOverflow (name : String)
  | delta (paddedSum actualData : UInt64)
  deriving DecidableEq, Repr

/-- `align_up`; the sum wraps. -/
def alignUp (v a : UInt64) : UInt64 :=
  if a = 0 then v else (v + a - 1) / a * a

/-- The loop that sums every tensor's size padded to the alignment, from
`sum`. -/
def paddedSum (align : UInt64) : List GgufTensorInfo → UInt64 → Except Failure UInt64
  | [], sum => .ok sum
  | t :: ts, sum =>
    match t.storedSize with
    | .error e => .error (.storedSize t.name e)
    | .ok sz =>
      match checkedAdd sum (alignUp sz align) with
      | none => .error (.paddedSumOverflow t.name)
      | some sum => paddedSum align ts sum

/-- The alignment `check_file` sums with. -/
def checkAlign (header : GgufHeader) : UInt64 := max (header.dataAlignment.getD 1) 1

def checkFile (fs : FileSystem) (path : String) : Except Failure (UInt64 × UInt64 × UInt64) :=
  match parseGguf fs path with
  | .error e => .error (.parseFailed e)
  | .ok header =>
    if header.tensors.isEmpty then
      .error .noTensors
    else
      let align := checkAlign header
      match fs path with
      | none => .error .metadata
      | some file =>
        let fsize := UInt64.ofNat file.length
        if fsize ≤ header.dataSectionStart then
          .error (.tooShort fsize header.dataSectionStart)
        else
          let actualData := fsize - header.dataSectionStart
          match paddedSum align header.tensors 0 with
          | .error e => .error e
          | .ok sum =>
            if sum ≠ actualData then .error (.delta sum actualData) else .ok (fsize, actualData, sum)

end PestiGguf.CorpusConformance
