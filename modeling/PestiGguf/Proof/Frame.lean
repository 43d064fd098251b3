import PestiGguf.Framework.Twins
import PestiGguf.Proof.Emission

/-!
# What the data of a tensor can reach

Two writes whose data have the same names and lengths end alike, in an error or not,
and leave files of one length that differ only inside the entries: no byte of data is
written anywhere but at its place, and none has a say in anything else
(`write_frame`).
-/

namespace PestiGguf

open Codec Codec.Emit Spec

/-- The name and the length of an entry. -/
def Spec.entryShape (entry : String × List UInt8) : String × Nat := (entry.1, entry.2.length)

theorem shape_eq {e e' : String × List UInt8} : entryShape e = entryShape e' ↔ e.1 = e'.1 ∧ e.2.length = e'.2.length :=
  Prod.mk.injEq .. ▸ Iff.rfl

/-- A step of the data loop. -/
theorem twins_writeTensorData {w : GgufWriter} {e e' : String × List UInt8} (h : entryShape e = entryShape e') (p : Nat) :
    Twins p (Aligned (p + padBefore w p) e.2 e'.2) (w.writeTensorData e) (w.writeTensorData e') := by
  obtain ⟨hname, hlen⟩ := shape_eq.mp h
  rw [GgufWriter.writeTensorData, GgufWriter.writeTensorData, hname, hlen]
  refine (Twins.refl p _ _).bind fun pos o hpos => ?_
  obtain ⟨rfl, rfl⟩ := (emits_streamPosition p).unique hpos
  refine (Twins.refl _ _ _).bind fun _ o ho => ?_
  obtain ⟨-, rfl⟩ := (emits_padTo _ _).unique ho
  rw [List.length_nil, Nat.add_zero, List.length_replicate]
  have hdata := Twins.writeAll (ε := GgufError) (p := p + padBefore w p) hlen
  split
  · refine (Twins.refl _ _ _).bind fun size o hsize => ?_
    obtain ⟨-, rfl⟩ := emits_ofExcept.mp hsize
    split
    · exact .refl _ _ _
    · exact hdata
  · exact hdata

theorem checkNames_congr {w : GgufWriter} : ∀ {es es' : List (String × List UInt8)},
    es.map entryShape = es'.map entryShape → (forM es w.checkName) = forM es' w.checkName
  | [], [], _ => rfl
  | e :: es, e' :: es', h => by
    obtain ⟨he, hes⟩ := List.cons.inj h
    rw [List.forM_cons, List.forM_cons, checkNames_congr hes, GgufWriter.checkName, GgufWriter.checkName,
      (shape_eq.mp he).1]

theorem twins_emit {w : GgufWriter} {data : List (String × List UInt8)}
    (h : w.tensorData.map entryShape = data.map entryShape) :
    Twins 0 (InBlock (padBefore w) (dataOrigin w (w.emitHeader 0).2) (w.tensorData.map (·.2)) (data.map (·.2)))
      w.emit { w with tensorData := data }.emit := by
  show Twins 0 _ w.emit (do
    w.emitHeader
    GgufWriter.padTo w.dataStart
    forM data w.checkName
    forM data w.writeTensorData)
  rw [GgufWriter.emit, ← checkNames_congr h]
  refine (Twins.refl 0 _ _).bind fun _ hd hhd => ?_
  rw [Nat.zero_add, show (w.emitHeader 0).2 = hd from congrArg Prod.snd hhd]
  refine (Twins.refl _ _ _).bind fun _ o ho => ?_
  obtain ⟨-, rfl⟩ := (emits_padTo _ _).unique ho
  refine (Twins.refl _ _ _).bind fun _ o hnames => ?_
  obtain ⟨hn, rfl⟩ := emits_checkNames_iff.mp hnames
  rw [List.length_nil, Nat.add_zero, List.length_replicate]
  refine Twins.blocks (fun e e' he p => twins_writeTensorData he p) _ h fun e he p o ho => ?_
  obtain ⟨-, rfl⟩ := (emits_writeTensorData_iff (hn e he)).mp ho
  rw [List.length_append, List.length_replicate]

/-- The lengths are all that the places depend on. -/
theorem entryPlace_congr {w : GgufWriter} {data : List (String × List UInt8)}
    (h : w.tensorData.map entryShape = data.map entryShape) (k : Nat) :
    entryPlace { w with tensorData := data } k = entryPlace w k := by
  have hlen : (w.tensorData.map (·.2)).map List.length = (data.map (·.2)).map List.length := by
    have hsnd := congrArg (List.map Prod.snd) h
    rw [List.map_map, List.map_map] at hsnd
    rw [List.map_map, List.map_map]
    exact hsnd
  show place (padBefore w) (dataOrigin w (w.emitHeader 0).2) ((data.map (·.2)).map List.length) k = _
  rw [← hlen, entryPlace]

/-- Other data of the same names and lengths: the result is the same, the file is as
long and the same but inside the entries, also where the write failed, and holds the
other data there if it did not. -/
theorem write_frame (w : GgufWriter) (data : List (String × List UInt8)) (path : String) (fs : FileSystem)
    (h : w.tensorData.map entryShape = data.map entryShape) :
    ∃ result file file', w.write path fs = (result, fun p => if p = path then some file else fs p) ∧
      { w with tensorData := data }.write path fs = (result, fun p => if p = path then some file' else fs p) ∧
      file.length = file'.length ∧
      (∀ (q : Nat) (a b : UInt8), file[q]? = some a → file'[q]? = some b → a ≠ b →
        ∃ (k j : Nat) (e e' : String × List UInt8), w.tensorData[k]? = some e ∧ data[k]? = some e' ∧
          q = entryPlace w k + j ∧ e.2[j]? = some a ∧ e'.2[j]? = some b) ∧
      (result = .ok () → ∀ (k : Nat) (e' : String × List UInt8), data[k]? = some e' →
        (file'.drop (entryPlace w k)).take e'.2.length = e'.2) := by
  obtain ⟨hr, hl, hs⟩ := twins_emit h
  refine ⟨(w.emit 0).1, (w.emit 0).2, ({ w with tensorData := data }.emit 0).2, rfl, Prod.ext hr.symm rfl, hl, ?_, ?_⟩
  · intro q a b ha hb hne
    obtain ⟨k, d, d', hd, hd', j, hq, hj, hj'⟩ := (hs q a b ha hb).resolve_left hne
    rw [List.getElem?_map, Option.map_eq_some_iff] at hd hd'
    obtain ⟨e, he, rfl⟩ := hd
    obtain ⟨e', he', rfl⟩ := hd'
    exact ⟨k, j, e, e', he, he', (Nat.zero_add q).symm.trans hq, hj, hj'⟩
  · intro hok k e' he'
    rw [← entryPlace_congr h]
    exact (entry_in_file (Prod.ext (hr.symm.trans hok) rfl) he').2

/-- Two bytes of a tensor, and two others. -/
theorem write_frame_sample : ∃ (file file' : List UInt8) (p : Nat), file.length = file'.length ∧
    (file'.drop p).take 2 = [3, 2] := by
  let w : GgufWriter := ⟨3, [], [⟨"a", [2], 0, 24⟩], [("a", [1, 2])], 0⟩
  have hok : (w.write "m" fun _ => none).1 = .ok () := by rfl
  obtain ⟨result, file, file', hw, -, hlen, -, hdata⟩ := write_frame w [("a", [3, 2])] "m" (fun _ => none) rfl
  rw [hw] at hok
  exact ⟨file, file', entryPlace w 0, hlen, hdata hok 0 ("a", [3, 2]) rfl⟩

end PestiGguf
