import PestiGguf.Proof.Size

/-!
# What a whole write emits

A write succeeds exactly when its header does and every entry of tensor data
has the stored size of the tensor of its name (`EntryOk`); the file is then
the header, zeros up to the data section, and the data, packed
(`emits_emit_iff`). So each entry is in the file at its place
(`entry_in_file`), and what is in no entry is zero (`gap_in_file`).
-/

namespace PestiGguf

open Codec Codec.Emit Spec

theorem emits_checkName_iff {w : GgufWriter} {entry : String × List UInt8} {p : Nat} {u : Unit}
    {o : List UInt8} :
    (w.checkName entry).Emits p u o ↔ w.tensors.any (·.name == entry.1) = true ∧ o = [] := by
  rw [GgufWriter.checkName]
  by_cases h : w.tensors.any (·.name == entry.1) = true
  · rw [if_pos h]
    simp [h]
  · rw [if_neg h]
    simp [h]

theorem emits_writeTensorData_iff {w : GgufWriter} {entry : String × List UInt8}
    (hname : w.tensors.any (·.name == entry.1) = true) {p : Nat} {u : Unit} {o : List UInt8} :
    (w.writeTensorData entry).Emits p u o ↔
      EntryOk w entry ∧ o = List.replicate (padBefore w p) 0 ++ entry.2 := by
  obtain ⟨t, ht⟩ : ∃ t, w.tensors.find? (·.name == entry.1) = some t := by
    rwa [← Option.isSome_iff_exists, List.find?_isSome, ← List.any_eq_true]
  have hpad := emits_padTo (GgufWriter.alignUp (UInt64.ofNat p) w.alignment) p
  rw [GgufWriter.writeTensorData, (emits_streamPosition p).bind_iff, List.length_nil, Nat.add_zero]
  simp only [hpad.bind_iff, ht, emits_bind, emits_ofExcept]
  constructor
  · rintro ⟨_, ⟨r, ⟨s, _, o₂, ⟨hs, rfl⟩, ho, rfl⟩, rfl⟩, rfl⟩
    by_cases hl : entry.2.length = s.toNat
    · rw [if_neg (not_not.mpr hl)] at ho
      rw [emits_writeAll.mp ho]
      exact ⟨⟨t, s, ht, hs, hl⟩, by simp [padBefore]⟩
    · rw [if_pos hl] at ho
      exact absurd ho emits_fail
  · rintro ⟨⟨t', s, ht', hs, hl⟩, rfl⟩
    obtain rfl := Option.some.inj (ht.symm.trans ht')
    refine ⟨_, ⟨entry.2, ⟨s, [], entry.2, ⟨hs, rfl⟩, ?_, rfl⟩, rfl⟩, rfl⟩
    rw [if_neg (not_not.mpr hl)]
    exact emits_writeAll.mpr rfl

/-- Part 8: the data, packed. -/
theorem emits_tensorData_iff {w : GgufWriter} {entries : List (String × List UInt8)}
    (hname : ∀ e ∈ entries, w.tensors.any (·.name == e.1) = true) {p : Nat} {u : Unit} {o : List UInt8} :
    (forM entries w.writeTensorData).Emits p u o ↔
      (∀ e ∈ entries, EntryOk w e) ∧ o = pack (padBefore w) 0 p (entries.map (·.2)) := by
  induction entries generalizing p o with
  | nil =>
    rw [emits_forM_nil, List.map_nil, pack]
    simp
  | cons e es ih =>
    rw [List.forall_mem_cons] at hname
    simp only [emits_forM_cons, emits_writeTensorData_iff hname.1, ih hname.2, List.map_cons, pack,
      List.forall_mem_cons]
    constructor
    · rintro ⟨_, _, ⟨he, rfl⟩, ⟨hes, rfl⟩, rfl⟩
      refine ⟨⟨he, hes⟩, ?_⟩
      rw [List.length_append, List.length_replicate, List.append_assoc, Nat.add_assoc]
    · rintro ⟨⟨he, hes⟩, rfl⟩
      refine ⟨_, _, ⟨he, rfl⟩, ⟨hes, rfl⟩, ?_⟩
      rw [List.length_append, List.length_replicate, List.append_assoc, Nat.add_assoc]

/-- Part 7: every name is a tensor's. -/
theorem emits_checkNames_iff {w : GgufWriter} {entries : List (String × List UInt8)} {p : Nat} {u : Unit}
    {o : List UInt8} : (forM entries w.checkName).Emits p u o ↔
      (∀ e ∈ entries, w.tensors.any (·.name == e.1) = true) ∧ o = [] := by
  induction entries generalizing p o with
  | nil =>
    rw [emits_forM_nil]
    simp
  | cons e es ih =>
    simp only [emits_forM_cons, emits_checkName_iff, ih, List.forall_mem_cons]
    constructor
    · rintro ⟨_, _, ⟨he, rfl⟩, ⟨hes, rfl⟩, rfl⟩
      exact ⟨⟨he, hes⟩, rfl⟩
    · rintro ⟨⟨he, hes⟩, rfl⟩
      exact ⟨_, _, ⟨he, rfl⟩, ⟨hes, rfl⟩, rfl⟩

theorem Spec.EntryOk.name {w : GgufWriter} {e : String × List UInt8} (h : EntryOk w e) :
    w.tensors.any (·.name == e.1) = true := by
  obtain ⟨t, _, ht, -⟩ := h
  have hp := List.find?_some ht
  exact List.any_eq_true.mpr ⟨t, List.mem_of_find?_eq_some ht, hp⟩

/-- A whole write. -/
theorem emits_emit_iff {w : GgufWriter} {u : Unit} {out : List UInt8} : w.emit.Emits 0 u out ↔
    ∃ hd, w.emitHeader.Emits 0 () hd ∧ (∀ e ∈ w.tensorData, EntryOk w e) ∧
      out = hd ++ (List.replicate (paddingLength w.dataStart hd.length) 0 ++
        pack (padBefore w) 0 (dataOrigin w hd) (w.tensorData.map (·.2))) := by
  have data (hd : List UInt8) {o : List UInt8} : (do
      GgufWriter.padTo w.dataStart
      forM w.tensorData w.checkName
      forM w.tensorData w.writeTensorData : Output Unit).Emits hd.length u o ↔
        (∀ e ∈ w.tensorData, EntryOk w e) ∧
          o = List.replicate (paddingLength w.dataStart hd.length) 0 ++
            pack (padBefore w) 0 (dataOrigin w hd) (w.tensorData.map (·.2)) := by
    rw [(emits_padTo _ _).bind_iff, List.length_replicate]
    simp only [emits_bind, emits_checkNames_iff]
    constructor
    · rintro ⟨_, ⟨_, _, o₂, ⟨hn, rfl⟩, ho, rfl⟩, rfl⟩
      obtain ⟨hok, rfl⟩ := (emits_tensorData_iff hn).mp ho
      exact ⟨hok, rfl⟩
    · rintro ⟨hok, rfl⟩
      have hn := fun e he => (hok e he).name
      exact ⟨_, ⟨(), [], _, ⟨hn, rfl⟩, (emits_tensorData_iff hn).mpr ⟨hok, rfl⟩, rfl⟩, rfl⟩
  rw [GgufWriter.emit, emits_bind]
  constructor
  · rintro ⟨_, hd, o, hhd, ho, rfl⟩
    rw [Nat.zero_add, data] at ho
    obtain ⟨hok, rfl⟩ := ho
    exact ⟨hd, hhd, hok, rfl⟩
  · rintro ⟨hd, hhd, hok, rfl⟩
    refine ⟨(), hd, _, hhd, ?_, rfl⟩
    rw [Nat.zero_add]
    exact (data hd).mpr ⟨hok, rfl⟩

/-! ## Where the data are -/

/-- The lengths of the data. -/
theorem length_entry {w : GgufWriter} {k : Nat} {e : String × List UInt8} (he : w.tensorData[k]? = some e) :
    ∃ hk : k < ((w.tensorData.map (·.2)).map List.length).length,
      ((w.tensorData.map (·.2)).map List.length)[k] = e.2.length := by
  obtain ⟨hk, rfl⟩ := List.getElem?_eq_some_iff.mp he
  exact ⟨by simpa using hk, by simp⟩

/-- An entry ends before a later one starts. -/
theorem entryPlace_disjoint {w : GgufWriter} {k l : Nat} {e : String × List UInt8} (h : k < l)
    (he : w.tensorData[k]? = some e) : entryPlace w k + e.2.length ≤ entryPlace w l := by
  obtain ⟨hk, hl⟩ := length_entry he
  have := place_disjoint (padBefore w) _ (dataOrigin w (w.emitHeader 0).2) h hk
  rwa [hl] at this

section
variable {w : GgufWriter} {file : List UInt8} (h : w.emit.Emits 0 () file)
include h

/-- A file that was written, from the origin of its data on. -/
theorem file_eq_pack : ∃ pre, file = pre ++ pack (padBefore w) 0 pre.length (w.tensorData.map (·.2)) ∧
    pre.length = dataOrigin w (w.emitHeader 0).2 ∧
    ∀ q, (w.emitHeader 0).2.length ≤ q → q < pre.length → pre[q]? = some 0 := by
  obtain ⟨hd, hhd, -, rfl⟩ := emits_emit_iff.mp h
  rw [show (w.emitHeader 0).2 = hd from congrArg Prod.snd hhd]
  have hl : (hd ++ List.replicate (paddingLength w.dataStart hd.length) (0 : UInt8)).length =
      dataOrigin w hd := by
    simp [dataOrigin]
  refine ⟨hd ++ List.replicate (paddingLength w.dataStart hd.length) 0, by rw [hl, List.append_assoc], hl,
    fun q hq hq' => ?_⟩
  rw [List.length_append, List.length_replicate] at hq'
  rw [List.getElem?_append_right hq, List.getElem?_replicate, if_pos (by omega)]

/-- The file ends where the entries do. -/
theorem length_file : file.length = entryPlace w w.tensorData.length := by
  obtain ⟨pre, hfile, hpre, -⟩ := file_eq_pack h
  have hend := length_pack (padBefore w) 0 (w.tensorData.map (·.2)) pre.length
  rw [List.length_map] at hend
  rw [entryPlace, ← hpre, ← hend]
  exact (congrArg List.length hfile).trans List.length_append

/-- The file ends with the last entry. -/
theorem length_file_last {k : Nat} {e : String × List UInt8} (he : w.tensorData[k]? = some e)
    (hk : k + 1 = w.tensorData.length) : file.length = entryPlace w k + e.2.length := by
  obtain ⟨hlt, hl⟩ := length_entry he
  have hn : k + 1 = ((w.tensorData.map (·.2)).map List.length).length := by
    rw [List.length_map, List.length_map, hk]
  have hlast := place_last (padBefore w) _ (dataOrigin w (w.emitHeader 0).2) hn
  rw [hl, ← hn, hk] at hlast
  exact (length_file h).trans hlast

/-- An entry is in the file at its place. -/
theorem entry_in_file {k : Nat} {e : String × List UInt8} (he : w.tensorData[k]? = some e) :
    entryPlace w k + e.2.length ≤ file.length ∧ (file.drop (entryPlace w k)).take e.2.length = e.2 := by
  obtain ⟨pre, hfile, hpre, -⟩ := file_eq_pack h
  obtain ⟨hk, rfl⟩ := List.getElem?_eq_some_iff.mp he
  refine ⟨length_file h ▸ entryPlace_disjoint hk he, ?_⟩
  have hslice := slice_pack (padBefore w) 0 (w.tensorData.map (·.2)) pre (by rwa [List.length_map])
  rw [← hfile, hpre] at hslice
  simpa [entryPlace] using hslice

/-- What follows the header and is in no entry is zero. -/
theorem gap_in_file {q : Nat} (hq : (w.emitHeader 0).2.length ≤ q) (hq' : q < file.length) :
    (∃ k e, w.tensorData[k]? = some e ∧ entryPlace w k ≤ q ∧ q < entryPlace w k + e.2.length) ∨
      file[q]? = some 0 := by
  obtain ⟨pre, hfile, hpre, hzero⟩ := file_eq_pack h
  rcases Nat.lt_or_ge q pre.length with hlt | hge
  · exact .inr (by rw [hfile, List.getElem?_append_left hlt, hzero q hq hlt])
  · obtain ⟨j, rfl⟩ := Nat.exists_eq_add_of_le hge
    have hj : j < (pack (padBefore w) (0 : UInt8) pre.length (w.tensorData.map (·.2))).length := by
      have := (congrArg List.length hfile).trans List.length_append
      omega
    rcases pack_gap (w.tensorData.map (·.2)) _ hj with ⟨k, hk, h₁, h₂⟩ | h₀
    · have hk' : k < w.tensorData.length := by rwa [List.length_map] at hk
      rw [List.getElem_map] at h₂
      have hplace : entryPlace w k = place (padBefore w) pre.length ((w.tensorData.map (·.2)).map List.length) k := by
        rw [hpre, entryPlace]
      rw [← hplace] at h₁ h₂
      exact .inl ⟨k, w.tensorData[k], List.getElem?_eq_getElem hk', h₁, h₂⟩
    · right
      rw [hfile, List.getElem?_append_right hge, Nat.add_sub_cancel_left]
      exact h₀

end

end PestiGguf
