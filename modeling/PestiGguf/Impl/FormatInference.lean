import PestiGguf.Impl.Types
import Mathlib.Algebra.Order.Field.Rat
import Mathlib.Data.List.Infix

/-!
# Format inference (`format_inference.rs`)

An `f32` is an exact rational here, without rounding. Infinities arise for no
elements only, where the expected sizes are 0: of them, that of `pct_error` is
followed to the score it gives, and that of `actual_bpe` is not. Casts to `i32` and
its arithmetic wrap, as those of a release build do.
-/

namespace PestiGguf

structure InferredFormat where
  dtype : GgufDtype
  bytesPerElement : ℚ
  elementsPerBlock : UInt64
  bytesPerBlock : UInt64
  confidence : ℚ
  deriving DecidableEq

inductive Warning where
  | dtypeMismatch (tensorName : String) (claimed inferred : GgufDtype) (confidence : ℚ)
  | suspiciousEmbeddingFormat (tensorName : String) (suggested : GgufDtype)
  deriving DecidableEq

/-- A row of the table: a dtype, bytes per element, elements per block and bytes
per block. -/
structure FormatSpec where
  dtype : GgufDtype
  bytesPerElement : ℚ
  elementsPerBlock : UInt64
  bytesPerBlock : UInt64
  deriving DecidableEq

def formatSpecs : List FormatSpec :=
  [⟨.Q4_0, 0.5625, 32, 18⟩,
   ⟨.Q4_K, 0.5625, 256, 144⟩,
   ⟨.Q5_0, 0.6875, 32, 22⟩,
   ⟨.Q5_K, 0.6875, 256, 176⟩,
   ⟨.Q6_K, 0.8203125, 256, 210⟩,
   ⟨.Q8_0, 1.0625, 32, 34⟩]

/-- `a.div_ceil(b)`. -/
def divCeil (a b : UInt64) : UInt64 := if 0 < a % b then a / b + 1 else a / b

/-- `a as i32`. -/
def asI32 (a : UInt64) : Int32 := a.toUInt32.toInt32

def expectedSize (claimedElements : UInt64) (spec : FormatSpec) : UInt64 :=
  divCeil claimedElements spec.elementsPerBlock * spec.bytesPerBlock

/-- The score of a data size against an expected one. -/
def sizeConfidence (dataSize expectedSize : UInt64) : ℚ :=
  let sizeDiff : ℚ := (asI32 dataSize - asI32 expectedSize).abs.toInt
  if sizeDiff = 0 then 1
  else if expectedSize = 0 then
    -- `1.0 - ∞` is raised to 0; `1.0 + ∞`, of a difference that wrapped, is 1 here
    if 0 < sizeDiff then 0 else 1
  else
    let pctError := sizeDiff / expectedSize.toNat
    max (1 - pctError) 0

/-- What the loop over the table pushes for a row. -/
def candidate (claimedElements dataSize : UInt64) (spec : FormatSpec) : Option InferredFormat :=
  if !spec.dtype.isQuantized then none
  else
    let confidence := sizeConfidence dataSize (expectedSize claimedElements spec)
    if 0.5 < confidence then
      some { dtype := spec.dtype
             bytesPerElement := dataSize.toNat / claimedElements.toNat
             elementsPerBlock := spec.elementsPerBlock
             bytesPerBlock := spec.bytesPerBlock
             confidence }
    else none

def inferTensorFormat (_claimedDtype : GgufDtype) (claimedElements : UInt64) (rawData : List UInt8) :
    Except GgufError (List InferredFormat) :=
  if rawData.isEmpty then .ok []
  else
    let candidates := formatSpecs.filterMap (candidate claimedElements (UInt64.ofNat rawData.length))
    .ok (candidates.mergeSort fun a b => decide (b.confidence ≤ a.confidence))

/-- `s.contains(pat)`. -/
def containsStr (s pat : String) : Bool := decide (pat.toList <:+: s.toList)

/-- `to_lowercase`, as far as a pattern of ASCII letters can tell: of the other
characters the Kelvin sign alone has a lower case among them, and a dotted `İ`
one that a combining dot follows. -/
def toLowercase (s : String) : String := s.map fun c => if c = '\u212A' then 'k' else c.toLower

def isSuspiciousLayer (name : String) : Bool :=
  let lower := toLowercase name
  containsStr lower "token_embd" || containsStr lower "embeddings" || containsStr lower "output" ||
    containsStr lower "lm_head"

def validateTensorMetadata (name : String) (dtype : GgufDtype) (shape : List UInt64) (rawData : List UInt8) :
    Except GgufError (List Warning) :=
  let claimedElements := shape.foldl (· * ·) 1
  if rawData.isEmpty ∨ claimedElements = 0 then .ok []
  else
    match inferTensorFormat dtype claimedElements rawData with
    | .error e => .error e
    | .ok inferred =>
      let mismatches := inferred.filterMap fun candidate =>
        if candidate.dtype ≠ dtype ∧ 0.8 < candidate.confidence then
          some (.dtypeMismatch name dtype candidate.dtype candidate.confidence)
        else none
      let suspicious :=
        if isSuspiciousLayer name then
          (if dtype.isQuantized ∧ ¬ (dtype = .Q4_0 ∨ dtype = .Q4_K) then
            [.suspiciousEmbeddingFormat name .F16] else []) ++
          (if containsStr name "output" ∧ dtype.isQuantized then
            [.suspiciousEmbeddingFormat name .F32] else [])
        else []
      .ok (mismatches ++ suspicious)

end PestiGguf
