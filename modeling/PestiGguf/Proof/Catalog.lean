import PestiGguf.Proof.Complete
import PestiGguf.Proof.Rewriting
import Mathlib.Algebra.Order.BigOperators.Group.List
import Mathlib.Logic.Function.Basic

/-!
# A store of models

What writes of whole models and rewrites do to a file system, abstractly: a
catalogue holds a model at each path (`Spec.Catalog`), writing puts one there, and
rewriting puts there what it read without its tensors, an error if there were any.
The file system that holds the file of each model refines the catalogue over every
run, outcome by outcome (`runs_refine`), so after a run every model is read back
(`runs_read_back`).
-/

namespace PestiGguf

open Codec Codec.Reader Codec.Emit Spec

namespace Spec

/-- A model: a writer of a whole one. -/
abbrev Model : Type := { w : GgufWriter // Complete w }

/-- The file a model is written as. -/
def Model.file (model : Model) : List UInt8 := (model.1.emit 0).2

/-- Without its tensors. -/
def withoutTensors (w : GgufWriter) : GgufWriter := { w with tensors := [], tensorData := [] }

end Spec

/-! ## Models without tensors -/

theorem rewriterOf_headerOf {w : GgufWriter} {v : GgufVersion} (hver : w.version = versionNumber v)
    (halign : readAlignmentFromKv w.kvPairs = .ok w.alignment) :
    rewriterOf (headerOf v w.kvPairs w.tensors) [] = withoutTensors w := by
  obtain ⟨-, heq⟩ := readAlignmentFromKv_eq_ok.mp halign
  simp only [rewriterOf, headerOf, withoutTensors, Option.getD_some, hver, heq]

theorem roundUp_mono {a n m : Nat} (h : n ≤ m) : roundUp a n ≤ roundUp a m := by
  rcases Nat.eq_zero_or_pos a with rfl | ha
  · rwa [roundUp, roundUp, if_pos rfl, if_pos rfl]
  · exact roundUp_le (dvd_roundUp ha m) (Nat.le_trans h (le_roundUp a m))

section
variable {w : GgufWriter} {v : GgufVersion} {c file : List UInt8} (h : Written w v c file)
include h

/-- The data section starts in the file. -/
theorem Spec.Written.start_le : roundUp w.alignment.toNat c.length ≤ file.length := by
  obtain ⟨hd, hhd, -, hfile⟩ := emits_emit_iff.mp h.emits
  obtain rfl := h.header.unique hhd
  have horigin := dataOrigin_eq h.parts h.version (header_length_lt h.header h.emits h.size)
  rw [dataOrigin] at horigin
  have hlen := congrArg List.length hfile
  simp only [List.length_append, List.length_replicate] at hlen
  omega

end

theorem withoutTensors_limits {w : GgufWriter} (hw : WithinLimits w) : WithinLimits (withoutTensors w) where
  kvCount := hw.kvCount
  tensorCount := Nat.zero_le _
  kv := hw.kv
  tensor _ ht := by cases ht
  alignment := hw.alignment

/-- Its header is that of the model, less the tensor infos. -/
theorem withoutTensors_header {w : GgufWriter} {c : List UInt8} (hc : w.emitHeader.Writes c) :
    ∃ c', (withoutTensors w).emitHeader.Writes c' ∧ c'.length ≤ c.length := by
  obtain ⟨q, _, k, t, hk, -, rfl⟩ := emits_header (hc 0)
  have hwrites := (gated_forM (gated_writeKvPair w.wireFormat) w.kvPairs).writes_of_emits hk
  refine ⟨_, writes_header (w := withoutTensors w) hwrites writes_forM_nil, ?_⟩
  simp only [fixedFields, List.length_append, List.length_nil, length_lenField, leU32.length_enc]
  exact Nat.add_le_add_left (Nat.le_add_right k.length t.length) _

/-- Its file is no longer than that of the model. -/
theorem length_withoutTensors {w : GgufWriter} {v : GgufVersion} {c file : List UInt8} (h : Written w v c file)
    (hw : WithinLimits w) : ((withoutTensors w).emit 0).2.length ≤ file.length := by
  obtain ⟨c', hle, hc'⟩ : ∃ c', c'.length ≤ c.length ∧ HeaderWord (headerOf v w.kvPairs []) c' ∧
      (withoutTensors w).emitHeader.Writes c' := by
    obtain ⟨c₁, hc₁, hle⟩ := withoutTensors_header h.header
    obtain ⟨c₂, hword, hc₂⟩ := (withoutTensors_limits hw).writes h.notV1 h.version
    obtain rfl := hc₁.unique (hc₂ 0)
    exact ⟨c₂, hle, hword, hc₂⟩
  obtain ⟨hword, hwrites⟩ := hc'
  have hparts := HeaderWord.parts h.notV1 hword fun kv hm => (hw.kv kv hm).value.not_bfloat16Array
  have hlen : c'.length < 2 ^ 63 := Nat.lt_of_le_of_lt hle (header_length_lt h.header h.emits h.size)
  have horigin := dataOrigin_eq (w := withoutTensors w) hparts h.version hlen
  have hfile : ((withoutTensors w).emit 0).2 = _ := congrArg Prod.snd (emits_header_only hwrites rfl)
  rw [dataOrigin] at horigin
  rw [hfile, List.length_append, List.length_replicate, horigin]
  exact Nat.le_trans (roundUp_mono hle) h.start_le

theorem Spec.Complete.withoutTensors {w : GgufWriter} (hw : Complete w) : Complete (withoutTensors w) := by
  obtain ⟨v, c, h⟩ := hw.written
  exact ⟨hw.version, withoutTensors_limits hw.limits, hw.alignment, List.nodup_nil, .nil,
    Nat.lt_of_le_of_lt (length_withoutTensors h hw.limits) h.size⟩

/-! ## Rewriting a model -/

theorem sum_storedBytes_le (a : Nat) {ts : List GgufTensorInfo} {i : Nat} {t : GgufTensorInfo} (ht : ts[i]? = some t)
    (hi : i + 1 = ts.length) : (ts.map storedBytes).sum ≤ paddedOffset a ts i + storedBytes t := by
  have hsum : ((ts.take i).map storedBytes).sum ≤ paddedOffset a ts i :=
    List.sum_le_sum fun t _ => le_roundUp a (storedBytes t)
  obtain ⟨hlt, rfl⟩ := List.getElem?_eq_some_iff.mp ht
  have hts : ts = ts.take i ++ [ts[i]] := by
    rw [List.take_append_getElem, hi, List.take_length]
  rw [congrArg (fun ts => (List.map storedBytes ts).sum) hts]
  simp only [List.map_append, List.sum_append, List.map_cons, List.map_nil, List.sum_singleton]
  omega

/-- The data of every tensor can be copied from the data section on. -/
theorem Spec.Written.copyable {w : GgufWriter} {v : GgufVersion} {c file : List UInt8} (h : Written w v c file) :
    Copyable w.tensors (file.drop (roundUp w.alignment.toNat c.length)) := by
  refine ⟨fun t ht => ?_, ?_⟩
  · obtain ⟨e, -, -, hs, -⟩ := h.data.entry ht
    exact ⟨_, hs⟩
  · rw [List.length_drop]
    cases hn : w.tensors.length with
    | zero =>
      rw [List.eq_nil_of_length_eq_zero hn]
      exact Nat.zero_le _
    | succ i =>
      have hi : i < w.tensors.length := by omega
      have hdata : i < w.tensorData.length := List.Forall₂.length_eq h.data ▸ hi
      have ht := List.getElem?_eq_getElem hi
      have he := List.getElem?_eq_getElem hdata
      obtain ⟨hle, -⟩ := h.tensor ht he
      have hsum := sum_storedBytes_le w.alignment.toNat ht hn.symm
      rw [← h.data.stored ht he] at hsum
      rw [dataPlace] at hle
      omega

/-- Rewriting a model writes the file of it without its tensors, and ends well where
it had none. -/
theorem rewrite_model {fs : FileSystem} {inputPath : String} {model : Model} (hfs : fs inputPath = some model.file)
    (outputPath : String) :
    (parseAndRewrite inputPath outputPath fs).2 =
        replaced fs outputPath ((withoutTensors model.1).emit 0).2 ∧
      ((parseAndRewrite inputPath outputPath fs).1 = .ok () ↔ model.1.tensors = []) := by
  obtain ⟨w, hw⟩ := model
  obtain ⟨v, c, h⟩ := hw.written
  have hp : parseGguf fs inputPath = .ok (headerOf v w.kvPairs w.tensors) := (parseGguf_eq hfs).trans h.parse
  have hstart : (headerOf v w.kvPairs w.tensors).dataSectionStart.toNat < 2 ^ 63 := by
    rw [h.start]
    exact Nat.lt_of_le_of_lt h.start_le h.size
  have hwrites : RewriteWrites fs inputPath (headerOf v w.kvPairs w.tensors) _ :=
    ⟨_, hp, hfs, hstart, h.start ▸ h.copyable, rfl⟩
  have hv : ∀ kv ∈ w.kvPairs, halfFloats kv.value = false := fun kv hm => (hw.limits.kv kv hm).value.not_halfFloats
  rw [parseAndRewrite_writes hwrites]
  obtain ⟨hfile, hok⟩ := emit_rewriterOf h.word hv (copiedData w.tensors (((w.emit 0).2).drop
    (headerOf v w.kvPairs w.tensors).dataSectionStart.toNat))
  constructor
  · rw [← rewriterOf_headerOf h.version hw.alignment]
    exact congrArg (replaced fs outputPath) hfile
  · exact hok.trans names_eq_nil

/-! ## The catalogue -/

namespace Spec

/-- Which model each path holds. -/
abbrev Catalog : Type := String → Option Model

/-- A write of a model, or a rewriting. -/
inductive Command where
  | write (model : Model) (path : String)
  | rewrite (inputPath outputPath : String)

/-- What the code does. -/
def Command.run : Command → FileSystem → Except GgufError Unit × FileSystem
  | .write model path, fs => model.1.write path fs
  | .rewrite inputPath outputPath, fs => parseAndRewrite inputPath outputPath fs

def Model.withoutTensors (model : Model) : Model := ⟨Spec.withoutTensors model.1, model.2.withoutTensors⟩

/-- What it is for a catalogue, and whether it ends well. -/
def Command.effect : Command → Catalog → Bool × Catalog
  | .write model path, catalog => (true, Function.update catalog path (some model))
  | .rewrite inputPath outputPath, catalog =>
    match catalog inputPath with
    | none => (false, catalog)
    | some model => (model.1.tensors.isEmpty, Function.update catalog outputPath (some model.withoutTensors))

/-- Each path holds the file of its model, and no other is there. -/
def Represents (fs : FileSystem) (catalog : Catalog) : Prop := ∀ path, fs path = (catalog path).map Model.file

/-- An outcome of the code, and whether it is to end well. -/
def Agrees (result : Except GgufError Unit) (ok : Bool) : Prop := result = .ok () ↔ ok = true

end Spec

theorem represents_update {fs : FileSystem} {catalog : Catalog} (h : Represents fs catalog) (path : String)
    (model : Model) : Represents (replaced fs path model.file) (Function.update catalog path (some model)) := by
  intro path'
  by_cases heq : path' = path
  · subst heq
    rw [Function.update_self, replaced, if_pos rfl, Option.map_some]
  · rw [Function.update_of_ne heq, replaced, if_neg heq, h path']

/-- A command of the code does what it is for the catalogue. -/
theorem command_refines (command : Command) (fs : FileSystem) (catalog : Catalog) (h : Represents fs catalog) :
    Agrees (command.run fs).1 (command.effect catalog).1 ∧ Represents (command.run fs).2 (command.effect catalog).2 := by
  cases command with
  | write model path =>
    obtain ⟨v, c, hw⟩ := model.2.written
    rw [Command.run, hw.write path fs]
    exact ⟨iff_of_true rfl rfl, represents_update h path model⟩
  | rewrite inputPath outputPath =>
    have hfs := h inputPath
    rw [Command.run, Command.effect]
    cases hcat : catalog inputPath with
    | none =>
      rw [hcat, Option.map_none] at hfs
      rw [parseAndRewrite_stops (.parse (by rw [parseGguf, hfs]))]
      exact ⟨iff_of_false (fun hok => by cases hok) Bool.false_ne_true, h⟩
    | some model =>
      rw [hcat, Option.map_some] at hfs
      obtain ⟨hout, hok⟩ := rewrite_model hfs outputPath
      rw [hout]
      exact ⟨hok.trans List.isEmpty_iff.symm, represents_update h outputPath model.withoutTensors⟩

theorem represents_run {fs : FileSystem} {catalog : Catalog} (h : Represents fs catalog) (commands : List Command) :
    Represents (runAll Command.run commands fs).2 (runAll Command.effect commands catalog).2 :=
  (run_simulates (fun command _ fs catalog => command_refines command fs catalog) h).2

/-- Over any run of commands, the file system refines the catalogue, and each
command ends well exactly where it is to. -/
theorem runs_refine (commands : List Command) (fs : FileSystem) (catalog : Catalog) (h : Represents fs catalog) :
    List.Forall₂ Agrees (runAll Command.run commands fs).1 (runAll Command.effect commands catalog).1 ∧
      Represents (runAll Command.run commands fs).2 (runAll Command.effect commands catalog).2 :=
  run_simulates (fun command _ fs catalog => command_refines command fs catalog) h

/-- After any run of commands, each path holds the model that the catalogue has for
it, read back in full, and no other path holds anything. -/
theorem runs_read_back (commands : List Command) (fs : FileSystem) (catalog : Catalog) (h : Represents fs catalog)
    (path : String) : match (runAll Command.effect commands catalog).2 path with
      | none => (runAll Command.run commands fs).2 path = none
      | some model => ReadsBack (runAll Command.run commands fs).2 path model.1 := by
  have hfile := represents_run h commands path
  cases hcat : (runAll Command.effect commands catalog).2 path with
  | none => rw [hfile, hcat, Option.map_none]
  | some model =>
    rw [hcat, Option.map_some] at hfile
    obtain ⟨v, c, hw⟩ := model.2.written
    exact hw.readsBack hfile

def sampleModel : Model := ⟨layoutWriter, layoutWriter_complete⟩

/-- A model that is written, and then rewritten: an error, and a file without the
tensors. -/
def sampleCommands : List Command := [.write sampleModel "in.gguf", .rewrite "in.gguf" "out.gguf"]

theorem runs_refine_sample :
    List.Forall₂ Agrees (runAll Command.run sampleCommands fun _ => none).1 [true, false] ∧
      Represents (runAll Command.run sampleCommands fun _ => none).2
        (runAll Command.effect sampleCommands fun _ => none).2 :=
  runs_refine sampleCommands (fun _ => none) (fun _ => none) fun _ => rfl

theorem runs_read_back_sample :
    ReadsBack (runAll Command.run sampleCommands fun _ => none).2 "in.gguf" layoutWriter ∧
      ReadsBack (runAll Command.run sampleCommands fun _ => none).2 "out.gguf" (withoutTensors layoutWriter) :=
  ⟨runs_read_back sampleCommands (fun _ => none) (fun _ => none) (fun _ => rfl) "in.gguf",
    runs_read_back sampleCommands (fun _ => none) (fun _ => none) (fun _ => rfl) "out.gguf"⟩

end PestiGguf
