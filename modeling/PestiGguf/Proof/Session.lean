import PestiGguf.Proof.Emission
import PestiGguf.Proof.RoundTrip

/-!
# Sessions with a writer

A writer is built by calls in any order. What it holds is what the calls of
each kind gave it, in their order (`session_eq`); so sessions that agree on each
kind of call write the same file. A session within the limits succeeds exactly
when each of its data fits the first tensor of that name, added before the data
or after, and the file is then read back to the calls (`session_written`).
-/

namespace PestiGguf

open Codec Codec.Emit Spec

namespace Spec

/-- A call on a writer. -/
inductive Call where
  | withVersion (version : UInt32)
  | withAlignment (alignment : UInt64)
  | addKv (kv : GgufKvPair)
  | addTensor (tensor : GgufTensorInfo)
  | addTensorData (name : String) (data : List UInt8)

namespace Call

def run (w : GgufWriter) : Call → GgufWriter
  | withVersion version => w.withVersion version
  | withAlignment alignment => w.withAlignment alignment
  | addKv kv => w.addKv kv
  | addTensor tensor => w.addTensor tensor
  | addTensorData name data => w.addTensorData name data

def version? : Call → Option UInt32
  | withVersion version => some version
  | _ => none

def alignment? : Call → Option UInt64
  | withAlignment alignment => some alignment
  | _ => none

def kv? : Call → Option GgufKvPair
  | addKv kv => some kv
  | _ => none

def tensor? : Call → Option GgufTensorInfo
  | addTensor tensor => some tensor
  | _ => none

def data? : Call → Option (String × List UInt8)
  | addTensorData name data => some (name, data)
  | _ => none

/-- A pair or a tensor the parser can read back. -/
def Ok : Call → Prop
  | addKv kv => KvOk kv
  | addTensor tensor => TensorOk tensor
  | _ => True

end Call

/-- The writer after some calls on a new one. -/
def session (calls : List Call) : GgufWriter := calls.foldl Call.run .new

/-- Calls on two writers that differ in nothing but how the kinds interleave, and
in versions and alignments that are set again. -/
structure SameByKind (calls calls' : List Call) : Prop where
  version : (calls.filterMap Call.version?).getLastD 3 = (calls'.filterMap Call.version?).getLastD 3
  alignment : (calls.filterMap Call.alignment?).getLastD 256 = (calls'.filterMap Call.alignment?).getLastD 256
  kv : calls.filterMap Call.kv? = calls'.filterMap Call.kv?
  tensor : calls.filterMap Call.tensor? = calls'.filterMap Call.tensor?
  data : calls.filterMap Call.data? = calls'.filterMap Call.data?

/-- The version that a session ends with is 2 or 3, and its pairs and tensors are within
the parser's limits. -/
structure SessionOk (calls : List Call) : Prop where
  version : ∃ v, v ≠ GgufVersion.v1 ∧ (calls.filterMap Call.version?).getLastD 3 = v.toU32
  each : ∀ c ∈ calls, c.Ok
  kvCount : (calls.filterMap Call.kv?).length ≤ 10 ^ 7
  tensorCount : (calls.filterMap Call.tensor?).length ≤ 10 ^ 7
  alignment : AlignmentOk (calls.filterMap Call.kv?)

end Spec

theorem toU32_version (v : GgufVersion) : v.toU32 = versionNumber v := by
  cases v <;> rfl

/-- Calls add to what a writer holds, kind by kind. -/
theorem foldl_run (calls : List Call) (w : GgufWriter) : calls.foldl Call.run w =
    { version := (calls.filterMap Call.version?).getLastD w.version
      kvPairs := w.kvPairs ++ calls.filterMap Call.kv?
      tensors := w.tensors ++ calls.filterMap Call.tensor?
      tensorData := w.tensorData ++ calls.filterMap Call.data?
      alignment := (calls.filterMap Call.alignment?).getLastD w.alignment } := by
  induction calls generalizing w with
  | nil => simp only [List.foldl_nil, List.filterMap_nil, List.append_nil, List.getLastD_nil]
  | cons call calls ih =>
    rw [List.foldl_cons, ih]
    cases call <;> simp only [Call.run, GgufWriter.withVersion, GgufWriter.withAlignment, GgufWriter.addKv,
      GgufWriter.addTensor, GgufWriter.addTensorData, List.filterMap_cons, Call.version?, Call.alignment?,
      Call.kv?, Call.tensor?, Call.data?, List.getLastD_cons, List.append_assoc, List.singleton_append]

theorem session_eq (calls : List Call) : session calls =
    { version := (calls.filterMap Call.version?).getLastD 3
      kvPairs := calls.filterMap Call.kv?
      tensors := calls.filterMap Call.tensor?
      tensorData := calls.filterMap Call.data?
      alignment := (calls.filterMap Call.alignment?).getLastD 256 } :=
  foldl_run calls .new

theorem Spec.SameByKind.session {calls calls' : List Call} (h : SameByKind calls calls') :
    session calls = session calls' := by
  rw [session_eq, session_eq, h.version, h.alignment, h.kv, h.tensor, h.data]

/-- What is given by one kind of call. -/
theorem mem_filterMap_calls {α : Type} {kind : Call → Option α} {a : α} {call : Call}
    (h : ∀ c, kind c = some a ↔ c = call) {calls : List Call} : a ∈ calls.filterMap kind ↔ call ∈ calls := by
  simp only [List.mem_filterMap, h, exists_eq_right]

theorem kv_mem_calls {calls : List Call} {kv : GgufKvPair} : kv ∈ calls.filterMap Call.kv? ↔ .addKv kv ∈ calls :=
  mem_filterMap_calls fun c => by cases c <;> simp [Call.kv?]

theorem tensor_mem_calls {calls : List Call} {t : GgufTensorInfo} :
    t ∈ calls.filterMap Call.tensor? ↔ .addTensor t ∈ calls :=
  mem_filterMap_calls fun c => by cases c <;> simp [Call.tensor?]

theorem data_mem_calls {calls : List Call} {e : String × List UInt8} :
    e ∈ calls.filterMap Call.data? ↔ .addTensorData e.1 e.2 ∈ calls :=
  mem_filterMap_calls fun c => by cases c <;> simp [Call.data?, Prod.ext_iff]

theorem Spec.SessionOk.withinLimits {calls : List Call} (h : SessionOk calls) : WithinLimits (session calls) := by
  rw [session_eq]
  exact ⟨h.kvCount, h.tensorCount, fun _ hm => h.each _ (kv_mem_calls.mp hm),
    fun _ hm => h.each _ (tensor_mem_calls.mp hm), h.alignment⟩

/-- Within the limits, the data alone decide whether the writer succeeds. -/
theorem Spec.WithinLimits.write_ok_iff {w : GgufWriter} (hw : WithinLimits w) {v : GgufVersion} (hv : v ≠ .v1)
    (hver : w.version = versionNumber v) (path : String) (fs : FileSystem) :
    (w.write path fs).1 = .ok () ↔ ∀ e ∈ w.tensorData, EntryOk w e := by
  obtain ⟨c, -, hwrites⟩ := hw.writes hv hver
  constructor
  · intro h
    obtain ⟨_, -, hok, -⟩ := emits_emit_iff.mp (show w.emit.Emits 0 () _ from Prod.ext h rfl)
    exact hok
  · intro hok
    exact congrArg Prod.fst (emits_emit_iff.mpr ⟨c, hwrites 0, hok, rfl⟩)

theorem hasTensor_iff {h : GgufHeader} {name : String} :
    h.hasTensor name = true ↔ ∃ t ∈ h.tensors, t.name = name := by
  simp [GgufHeader.hasTensor]

/-- A session of version 2 or 3 within the limits, in any order of its calls. It
succeeds exactly when each of its data has the size of the first tensor that the
session adds under that name. Its file is read back to what the calls gave, in their
order, and every session with the same calls of each kind does the same. -/
theorem session_written (calls : List Call) (hok : SessionOk calls) (path : String) (fs : FileSystem) :
    (((session calls).write path fs).1 = .ok () ↔ ∀ name data, .addTensorData name data ∈ calls →
      ∃ t size, (calls.filterMap Call.tensor?).find? (·.name == name) = some t ∧ t.storedSize = .ok size ∧
        data.length = size.toNat) ∧
    (((session calls).write path fs).1 = .ok () → ∃ h, parseGguf ((session calls).write path fs).2 path = .ok h ∧
      h.version = (calls.filterMap Call.version?).getLastD 3 ∧ h.kvPairs = calls.filterMap Call.kv? ∧
      h.tensors = calls.filterMap Call.tensor? ∧
      ∀ name, h.hasTensor name = true ↔ ∃ t, .addTensor t ∈ calls ∧ t.name = name) ∧
    ∀ calls', SameByKind calls calls' → (session calls').write path fs = (session calls).write path fs := by
  obtain ⟨v, hv, hver⟩ := hok.version
  rw [toU32_version] at hver
  have hsession : (session calls).version = versionNumber v := by rw [session_eq, ← hver]
  have hlimits := hok.withinLimits
  refine ⟨?_, fun hwrite => ?_, fun calls' hsame => by rw [hsame.session]⟩
  · rw [hlimits.write_ok_iff hv hsession]
    constructor
    · intro h name data hm
      have := h (name, data) (by rw [session_eq]; exact data_mem_calls.mpr hm)
      rwa [session_eq] at this
    · intro h e hm
      rw [session_eq] at hm ⊢
      exact h e.1 e.2 (data_mem_calls.mp hm)
  · obtain ⟨file, hfile, hparse⟩ := hlimits.parse hv hsession (Prod.ext hwrite rfl)
    refine ⟨_, (parseGguf_eq hfile).trans hparse, ?_, ?_, ?_, fun name => ?_⟩
    · exact hver.symm
    · rw [session_eq]
      rfl
    · rw [session_eq]
      rfl
    · rw [hasTensor_iff, session_eq]
      exact exists_congr fun t => and_congr_left' tensor_mem_calls

/-- Data before its tensor. -/
def sampleCalls : List Call :=
  [.addTensorData "t" [1, 2], .withVersion 1, .addTensor ⟨"t", [2], 0, 24⟩,
    .addKv ⟨"general.alignment", .uint32, .uint32 8⟩, .withVersion 2, .withAlignment 8]

theorem sampleCalls_ok : SessionOk sampleCalls where
  version := ⟨.v2, by decide, by decide⟩
  each c hc := by
    simp only [sampleCalls, List.mem_cons, List.not_mem_nil, or_false] at hc
    rcases hc with rfl | rfl | rfl | rfl | rfl | rfl
    · trivial
    · trivial
    · exact ⟨by decide, by decide⟩
    · exact ⟨by decide, rfl, trivial⟩
    · trivial
    · trivial
  kvCount := by decide
  tensorCount := by decide
  alignment z hz := by
    obtain rfl : 8 = z := Option.some.inj hz
    exact ⟨3, by decide, rfl⟩

theorem session_written_sample : ∃ h,
    parseGguf ((session sampleCalls).write "out.gguf" fun _ => none).2 "out.gguf" = .ok h ∧ h.version = 2 ∧
      h.hasTensor "t" = true := by
  obtain ⟨hiff, hread, -⟩ := session_written sampleCalls sampleCalls_ok "out.gguf" fun _ => none
  obtain ⟨h, hparse, hver, -, -, hname⟩ := hread (hiff.mpr fun name data hm => by
    simp only [sampleCalls, List.mem_cons, List.not_mem_nil, or_false, reduceCtorEq,
      Call.addTensorData.injEq] at hm
    obtain ⟨rfl, rfl⟩ := hm
    exact ⟨⟨"t", [2], 0, 24⟩, 2, by decide, by decide, by decide⟩)
  exact ⟨h, hparse, hver, (hname "t").mpr ⟨⟨"t", [2], 0, 24⟩, by simp [sampleCalls], rfl⟩⟩

end PestiGguf
