import PestiGguf.Proof.DataSection
import PestiGguf.Proof.Streaming

/-!
# Files of whole models

A writer of a whole model (`Spec.Complete`) writes a file whose header and data
are known to the byte (`Spec.Written`). What is left of such a file that was cut
short is never taken for something else (`torn_file`), the file of one such writer
starts with that of no other (`complete_prefix_iff`), and what is read of the file is
its writer and no other (`complete_reads_iff`).
-/

namespace PestiGguf

open Codec Codec.Reader Codec.Emit Spec

namespace Spec

/-- A writer of a whole model: version 2 or 3, content the parser can read, of the
alignment it declares, distinct names, the data of every tensor, in table order, and
a file below 2^63 bytes. -/
structure Complete (w : GgufWriter) : Prop where
  version : w.version = 2 ∨ w.version = 3
  limits : WithinLimits w
  alignment : readAlignmentFromKv w.kvPairs = .ok w.alignment
  names : (w.tensors.map (·.name)).Nodup
  data : DataInOrder w
  size : (w.emit 0).2.length < 2 ^ 63

/-- Where the data of tensor `i` are, behind a header of `n` bytes. -/
def dataPlace (w : GgufWriter) (n i : Nat) : Nat :=
  roundUp w.alignment.toNat n + paddedOffset w.alignment.toNat w.tensors i

/-- The file of such a writer, which starts with the header `c`. -/
structure Written (w : GgufWriter) (v : GgufVersion) (c file : List UInt8) : Prop where
  notV1 : v ≠ .v1
  version : w.version = versionNumber v
  word : HeaderWord (headerOf v w.kvPairs w.tensors) c
  parts : HeaderParts v w.kvPairs w.tensors c
  header : w.emitHeader.Writes c
  emits : w.emit.Emits 0 () file
  size : file.length < 2 ^ 63
  data : DataInOrder w
  start : (headerOf v w.kvPairs w.tensors).dataSectionStart.toNat = roundUp w.alignment.toNat c.length

theorem Complete.written {w : GgufWriter} (hw : Complete w) : ∃ v c, Written w v c (w.emit 0).2 := by
  obtain ⟨v, hv, hver⟩ := version_cases hw.version
  obtain ⟨c, hc, hwrites⟩ := hw.limits.writes hv hver
  have hparts := HeaderWord.parts hv hc fun kv hm => (hw.limits.kv kv hm).value.not_bfloat16Array
  have hok : ∀ e ∈ w.tensorData, EntryOk w e := hw.data.entryOk_iff.mpr fun t ht t' ht' hname => by
    rw [List.inj_on_of_nodup_map hw.names ht ht' hname]
  obtain ⟨file, hfile⟩ : ∃ file, w.emit.Emits 0 () file := ⟨_, emits_emit_iff.mpr ⟨c, hwrites 0, hok, rfl⟩⟩
  have hsize := hw.size
  rw [show (w.emit 0).2 = file from congrArg Prod.snd hfile] at hsize ⊢
  have hal : alignmentOf w.kvPairs = w.alignment.toNat := by
    obtain ⟨ha, heq⟩ := readAlignmentFromKv_eq_ok.mp hw.alignment
    rw [heq, UInt64.toNat_ofNat_of_lt' (Nat.lt_of_le_of_lt ha.bounds.2 (by decide))]
  have hstart := hparts.toNat_dataSectionStart (header_length_lt hwrites hfile hsize)
  rw [hal] at hstart
  exact ⟨v, c, hv, hver, hc, hparts, hwrites, hfile, hsize, hw.data, hstart⟩

namespace Written

variable {w : GgufWriter} {v : GgufVersion} {c file : List UInt8} (h : Written w v c file)
include h

theorem write (path : String) (fs : FileSystem) :
    w.write path fs = (.ok (), fun p => if p = path then some file else fs p) :=
  write_eq_ok.mpr ⟨file, h.emits, rfl⟩

theorem eq_append : ∃ r, file = c ++ r := emit_header h.header h.emits

theorem parse : (parseGgufReader file).result = .ok (headerOf v w.kvPairs w.tensors) :=
  parse_written h.word h.header h.emits

theorem consumed : parseGgufReader.consumed file = c.length := by
  obtain ⟨r, rfl⟩ := h.eq_append
  exact consumed_append h.word r

/-- The data of a tensor are in the file. -/
theorem tensor {i : Nat} {t : GgufTensorInfo} {e : String × List UInt8} (ht : w.tensors[i]? = some t)
    (he : w.tensorData[i]? = some e) : dataPlace w c.length i + e.2.length ≤ file.length ∧
      (file.drop (dataPlace w c.length i)).take e.2.length = e.2 :=
  tensor_in_file h.parts h.version h.header h.data h.emits h.size ht he

/-- The offset in the file that the parsed header gives a tensor. -/
theorem toNat_offset {i : Nat} {t : GgufTensorInfo} {e : String × List UInt8} (ht : w.tensors[i]? = some t)
    (he : w.tensorData[i]? = some e) : ((headerOf v w.kvPairs w.tensors).dataSectionStart +
      UInt64.ofNat (paddedOffset w.alignment.toNat w.tensors i)).toNat = dataPlace w c.length i := by
  have hle := (h.tensor ht he).1
  have hsize := h.size
  rw [dataPlace] at hle
  rw [UInt64.toNat_add, h.start, UInt64.toNat_ofNat', Nat.add_mod_mod, Nat.mod_eq_of_lt, dataPlace]
  omega

end Written

end Spec

/-! ## Reading back -/

/-- A model at a path is read back: its header, and the data of each tensor. -/
def Spec.ReadsBack (fs : FileSystem) (path : String) (w : GgufWriter) : Prop :=
  ∃ h, parseGguf fs path = .ok h ∧ h.version = w.version ∧ h.kvPairs = w.kvPairs ∧ h.tensors = w.tensors ∧
    ∀ i t e size, w.tensors[i]? = some t → w.tensorData[i]? = some e → t.storedSize = .ok size →
      extractTensorBytesFromPath fs path (h.dataSectionStart +
        UInt64.ofNat (paddedOffset w.alignment.toNat w.tensors i)) size = .ok e.2

theorem Spec.Written.readsBack {w : GgufWriter} {v : GgufVersion} {c file : List UInt8} (h : Written w v c file)
    {fs : FileSystem} {path : String} (hfs : fs path = some file) : ReadsBack fs path w := by
  refine ⟨_, (parseGguf_eq hfs).trans h.parse, h.version.symm, rfl, rfl, fun i t e size ht he hs => ?_⟩
  obtain ⟨hle, hbytes⟩ := h.tensor ht he
  have hoff := h.toNat_offset ht he
  have hsize : size.toNat = e.2.length := by rw [h.data.stored ht he, storedBytes_of_ok hs]
  rw [extract_eq hfs (by rw [hoff, hsize]; exact hle) h.size, hoff, hsize, hbytes]

/-! ## Files cut short -/

theorem extract_file {fs : FileSystem} {path : String} {file : List UInt8} (hfs : fs path = some file)
    {offset size : UInt64} (ho : offset.toNat < 2 ^ 63) : extractTensorBytesFromPath fs path offset size =
      if size.toNat ≤ file.length - offset.toNat then .ok ((file.drop offset.toNat).take size.toNat)
      else .error (.io "read: failed to fill whole buffer") := by
  simp only [extractTensorBytesFromPath, hfs]
  rw [seek, if_pos ho]
  simp only [List.length_drop]

/-- What a cut keeps of some bytes of a file. -/
theorem slice_take {file d : List UInt8} {k p : Nat} (h : (file.drop p).take d.length = d)
    (hk : p + d.length ≤ k ∨ d = []) : ((file.take k).drop p).take d.length = d := by
  rcases hk with hk | rfl
  · rw [List.drop_take, List.take_take, Nat.min_eq_left (by omega), h]
  · rfl

/-- A file of a whole model that was cut short at `k`. Up to the end of its header
the parser runs out of input; from there on it reads the header of the whole file.
The data of a tensor are extracted where all of them are left, and nothing is
otherwise. -/
theorem torn_file (w : GgufWriter) (hw : Complete w) : ∃ n h, n ≤ (w.emit 0).2.length ∧
    (parseGgufReader (w.emit 0).2).result = .ok h ∧
    ∀ (k : Nat) (fs : FileSystem) (path : String), fs path = some ((w.emit 0).2.take k) →
      (k < n → ∃ e, EndOfInput e ∧ parseGguf fs path = .error e) ∧
      (n ≤ k → parseGguf fs path = .ok h) ∧
      ∀ i t e size, w.tensors[i]? = some t → w.tensorData[i]? = some e → t.storedSize = .ok size →
        extractTensorBytesFromPath fs path (h.dataSectionStart +
            UInt64.ofNat (paddedOffset w.alignment.toNat w.tensors i)) size =
          if dataPlace w n i + e.2.length ≤ k ∨ e.2 = [] then .ok e.2
          else .error (.io "read: failed to fill whole buffer") := by
  obtain ⟨v, c, hwritten⟩ := hw.written
  generalize (w.emit 0).2 = file at hwritten ⊢
  obtain ⟨r, hr⟩ := hwritten.eq_append
  obtain ⟨m, hm⟩ := streams_parseGgufReader
  refine ⟨c.length, headerOf v w.kvPairs w.tensors, by simp [hr], hwritten.parse, fun k fs path hfs => ⟨fun hk => ?_,
    fun hk => ?_, fun i t e size ht he hs => ?_⟩⟩
  · -- an end that is not for want of input would be that of the whole file
    rw [parseGguf_eq hfs]
    by_cases hcut : Cut (file.take k)
    · cases hres : (parseGgufReader (file.take k)).result with
      | error e =>
        rw [Cut, hres] at hcut
        exact ⟨e, hcut, rfl⟩
      | ok h =>
        rw [Cut, hres] at hcut
        exact hcut.elim
    · have hrun := hm.settled (file.take k) (file.drop k) hcut
      rw [List.take_append_drop] at hrun
      have hrest := congrArg (·.rest.length) hrun
      have hcons := hwritten.consumed
      simp only [Run.followedBy, List.length_append, List.length_drop] at hrest
      rw [Reader.consumed] at hcons
      have : c.length ≤ file.length := by simp [hr]
      omega
  · rw [parseGguf_eq hfs, hr, List.take_append, List.take_of_length_le hk]
    exact (recognises_parseGgufReader.returns_append hwritten.word _).1
  · obtain ⟨hle, hbytes⟩ := hwritten.tensor ht he
    have hsize : size.toNat = e.2.length := by rw [hwritten.data.stored ht he, storedBytes_of_ok hs]
    have hoff := hwritten.toNat_offset ht he
    have hlt := hwritten.size
    rw [extract_file hfs (by omega), hoff, hsize, List.length_take]
    have hiff : e.2.length ≤ min k file.length - dataPlace w c.length i ↔
        dataPlace w c.length i + e.2.length ≤ k ∨ e.2 = [] := by
      rw [← List.length_eq_zero_iff]
      omega
    by_cases hk : dataPlace w c.length i + e.2.length ≤ k ∨ e.2 = []
    · rw [if_pos hk, if_pos (hiff.mpr hk), slice_take hbytes hk]
    · rw [if_neg hk, if_neg (mt hiff.mp hk)]

theorem sampleWriter_complete : Complete sampleWriter :=
  ⟨.inr rfl, sampleWriter_withinLimits, rfl, by decide, sampleWriter_dataInOrder, by decide +kernel⟩

theorem layoutWriter_complete : Complete layoutWriter :=
  ⟨.inr rfl, layoutWriter_withinLimits, rfl, by decide, layoutWriter_dataInOrder, by decide +kernel⟩

def tornFile (k : Nat) : FileSystem := fun _ => some ((layoutWriter.emit 0).2.take k)

/-- Cut between its two tensors, a file gives the data of the first. -/
theorem torn_file_sample : ∃ h, parseGguf (tornFile 168) "in.gguf" = .ok h ∧
    extractTensorBytesFromPath (tornFile 168) "in.gguf" (h.dataSectionStart + UInt64.ofNat 0) 2 = .ok [1, 2] ∧
    extractTensorBytesFromPath (tornFile 168) "in.gguf" (h.dataSectionStart + UInt64.ofNat 8) 8 =
      .error (.io "read: failed to fill whole buffer") := by
  obtain ⟨n, h, -, -, hcut⟩ := torn_file layoutWriter layoutWriter_complete
  have hlo : 152 < n := by
    by_contra hle
    have hok := (hcut 152 (tornFile 152) "in.gguf" rfl).2.1 (by omega)
    have hfail : (parseGguf (tornFile 152) "in.gguf").toOption.isSome = false := by decide +kernel
    rw [hok] at hfail
    cases hfail
  have hhi : n ≤ 160 := by
    by_contra hlt
    obtain ⟨e, -, herr⟩ := (hcut 160 (tornFile 160) "in.gguf" rfl).1 (by omega)
    have hok : (parseGguf (tornFile 160) "in.gguf").toOption.isSome = true := by decide +kernel
    rw [herr] at hok
    cases hok
  have hround : roundUp 8 n = 160 := by
    rw [roundUp, if_neg (by decide)]
    omega
  have hplace (i : Nat) : dataPlace layoutWriter n i = 160 + paddedOffset 8 layoutWriter.tensors i := by
    rw [← hround]
    rfl
  obtain ⟨-, hparse, hextract⟩ := hcut 168 (tornFile 168) "in.gguf" rfl
  have ha := hextract 0 _ _ 2 rfl rfl rfl
  have hb := hextract 1 _ _ 8 rfl rfl rfl
  rw [hplace, if_pos (by decide)] at ha
  rw [hplace, if_neg (by decide)] at hb
  exact ⟨h, hparse (by omega), ha, hb⟩

/-! ## Files and their writers -/

/-- Where the file of a model starts with that of another, both have the same
header. -/
theorem written_unique {w w' : GgufWriter} {v v' : GgufVersion} {c c' file file' : List UInt8}
    (h : Written w v c file) (h' : Written w' v' c' file') (hp : file <+: file') :
    w.version = w'.version ∧ w.kvPairs = w'.kvPairs ∧ w.tensors = w'.tensors ∧ c = c' := by
  obtain ⟨s, rfl⟩ := hp
  obtain ⟨r, rfl⟩ := h.eq_append
  obtain ⟨r', hr'⟩ := h'.eq_append
  rw [List.append_assoc] at hr'
  obtain ⟨hh, hcc⟩ := recognises_parseGgufReader.unique h.word h'.word hr'
  have hver := congrArg GgufHeader.version hh
  exact ⟨h.version.trans (hver.trans h'.version.symm), congrArg GgufHeader.kvPairs hh,
    congrArg GgufHeader.tensors hh, hcc⟩

/-- A slice of a file that starts with another. -/
theorem slice_append {file s d : List UInt8} {p : Nat} (hle : p + d.length ≤ file.length)
    (h : (file.drop p).take d.length = d) : ((file ++ s).drop p).take d.length = d := by
  rw [List.drop_append_of_le_length (by omega), List.take_append_of_le_length (by rw [List.length_drop]; omega), h]

theorem Spec.DataInOrder.name {w : GgufWriter} (h : DataInOrder w) {i : Nat} {t : GgufTensorInfo}
    {e : String × List UInt8} (ht : w.tensors[i]? = some t) (he : w.tensorData[i]? = some e) : e.1 = t.name := by
  obtain ⟨hi, rfl⟩ := List.getElem?_eq_some_iff.mp ht
  obtain ⟨hi', rfl⟩ := List.getElem?_eq_some_iff.mp he
  exact (List.Forall₂.get h hi hi').1

/-- Two models of one header, where the file of one starts with that of the other,
have the same data. -/
theorem data_unique {w w' : GgufWriter} {v v' : GgufVersion} {c file file' : List UInt8} (h : Written w v c file)
    (h' : Written w' v' c file') (hts : w.tensors = w'.tensors) (halign : w.alignment = w'.alignment)
    (hp : file <+: file') : w.tensorData = w'.tensorData := by
  have hl := List.Forall₂.length_eq h.data
  have hl' := List.Forall₂.length_eq h'.data
  rw [← hts] at hl'
  refine List.ext_getElem (hl.symm.trans hl') fun i hi hi' => ?_
  have ht : w.tensors[i]? = some w.tensors[i] := List.getElem?_eq_getElem (hl ▸ hi)
  have ht' : w'.tensors[i]? = some w.tensors[i] := hts ▸ ht
  have he := List.getElem?_eq_getElem hi
  have he' := List.getElem?_eq_getElem hi'
  obtain ⟨hle, hbytes⟩ := h.tensor ht he
  obtain ⟨-, hbytes'⟩ := h'.tensor ht' he'
  obtain ⟨s, rfl⟩ := hp
  -- the same place and the same size
  have hplace : dataPlace w' c.length i = dataPlace w c.length i := by rw [dataPlace, dataPlace, hts, halign]
  have hsize : w'.tensorData[i].2.length = w.tensorData[i].2.length :=
    (h'.data.stored ht' he').trans (h.data.stored ht he).symm
  rw [hplace, hsize, slice_append hle hbytes] at hbytes'
  exact Prod.ext ((h.data.name ht he).trans (h'.data.name ht' he').symm) hbytes'

/-- A writer is what its version, content, data and alignment are. -/
theorem writer_ext {w w' : GgufWriter} (hver : w.version = w'.version) (hkvs : w.kvPairs = w'.kvPairs)
    (hts : w.tensors = w'.tensors) (hdata : w.tensorData = w'.tensorData) (halign : w.alignment = w'.alignment) :
    w = w' := by
  cases w
  cases w'
  simp only at hver hkvs hts halign hdata
  rw [hver, hkvs, hts, halign, hdata]

/-- No file of a model starts with the file of another, and no two models have the
same file. -/
theorem complete_prefix_iff (w w' : GgufWriter) (hw : Complete w) (hw' : Complete w') :
    (w.emit 0).2 <+: (w'.emit 0).2 ↔ w = w' := by
  constructor
  · intro hp
    obtain ⟨v, c, h⟩ := hw.written
    obtain ⟨v', c', h'⟩ := hw'.written
    obtain ⟨hver, hkvs, hts, rfl⟩ := written_unique h h' hp
    have halign : w.alignment = w'.alignment := by
      have ha := hw.alignment
      rw [hkvs, hw'.alignment, Except.ok.injEq] at ha
      exact ha.symm
    exact writer_ext hver hkvs hts (data_unique h h' hts halign hp) halign
  · rintro rfl
    exact List.prefix_refl _

/-- The same model in version 2. -/
def sampleWriterV2 : GgufWriter := { sampleWriter with version := 2 }

theorem sampleWriterV2_complete : Complete sampleWriterV2 :=
  ⟨.inl rfl, ⟨by decide, by decide, sampleWriter_withinLimits.kv, sampleWriter_withinLimits.tensor,
    sampleWriter_withinLimits.alignment⟩, rfl, by decide, sampleWriter_dataInOrder, by decide +kernel⟩

theorem complete_prefix_sample : ¬ (sampleWriter.emit 0).2 <+: (sampleWriterV2.emit 0).2 := by
  rw [complete_prefix_iff sampleWriter sampleWriterV2 sampleWriter_complete sampleWriterV2_complete]
  intro h
  exact absurd (congrArg GgufWriter.version h) (by decide)

/-- A writer built from what is read of a file: the header, and the data of each
tensor under its name. -/
def Spec.Reads (fs : FileSystem) (path : String) (w : GgufWriter) : Prop :=
  ∃ h data, parseGguf fs path = .ok h ∧ w = { writerOf h with tensorData := data } ∧
    data.length = h.tensors.length ∧
    ∀ i t e, h.tensors[i]? = some t → data[i]? = some e → e.1 = t.name ∧ ∃ size, t.storedSize = .ok size ∧
      extractTensorBytesFromPath fs path (h.dataSectionStart +
        UInt64.ofNat (paddedOffset (writerOf h).alignment.toNat h.tensors i)) size = .ok e.2

/-- The writer of a parsed header, with the data of the model. -/
theorem writerOf_headerOf {w : GgufWriter} {v : GgufVersion} (hver : w.version = versionNumber v)
    (halign : readAlignmentFromKv w.kvPairs = .ok w.alignment) :
    { writerOf (headerOf v w.kvPairs w.tensors) with tensorData := w.tensorData } = w := by
  obtain ⟨-, heq⟩ := readAlignmentFromKv_eq_ok.mp halign
  rw [writerOf_eq]
  exact writer_ext hver.symm rfl rfl rfl heq.symm

/-- What is read of the file of a model is the model. -/
theorem complete_reads_iff (w w' : GgufWriter) (hw : Complete w) (path : String) (fs : FileSystem) :
    Reads (w.write path fs).2 path w' ↔ w' = w := by
  obtain ⟨v, c, h⟩ := hw.written
  have hback := h.readsBack (write_file w path fs)
  have hparse := (parseGguf_eq (write_file w path fs)).trans h.parse
  have hwriter := writerOf_headerOf h.version hw.alignment
  have halign : (writerOf (headerOf v w.kvPairs w.tensors)).alignment = w.alignment := by
    have := congrArg GgufWriter.alignment hwriter
    exact this
  obtain ⟨h₀, hparse₀, -, -, -, hextract⟩ := hback
  obtain rfl := Except.ok.inj (hparse.symm.trans hparse₀)
  have hl := List.Forall₂.length_eq hw.data
  constructor
  · rintro ⟨h', data, hp, rfl, hlen, hdata⟩
    obtain rfl := Except.ok.inj (hparse.symm.trans hp)
    suffices hsame : data = w.tensorData by rw [hsame, hwriter]
    refine List.ext_getElem (hlen.trans hl) fun i hi hi' => ?_
    have ht : w.tensors[i]? = some w.tensors[i] := List.getElem?_eq_getElem (hl ▸ hi')
    have he := List.getElem?_eq_getElem hi'
    obtain ⟨hname, size, hs, hread⟩ := hdata i _ _ ht (List.getElem?_eq_getElem hi)
    rw [halign] at hread
    exact Prod.ext (hname.trans (hw.data.name ht he).symm)
      (Except.ok.inj (hread.symm.trans (hextract i _ _ size ht he hs)))
  · rintro rfl
    refine ⟨_, w'.tensorData, hparse, hwriter.symm, hl.symm, fun i t e ht he => ?_⟩
    obtain ⟨_, -, -, hs, -⟩ := hw.data.entry (List.mem_of_getElem? ht)
    refine ⟨hw.data.name ht he, _, hs, ?_⟩
    rw [halign]
    exact hextract i t e _ ht he hs

theorem complete_reads_sample : Reads (sampleWriter.write "out.gguf" fun _ => none).2 "out.gguf" sampleWriter :=
  (complete_reads_iff sampleWriter sampleWriter sampleWriter_complete "out.gguf" fun _ => none).mpr rfl

end PestiGguf
