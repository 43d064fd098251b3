import PestiGguf.Proof.DataSection

/-!
# Rewriting a file

A run of `parse_and_rewrite` stops before it writes, or writes with the pairs
and the data of its input (`rewrite_cases`). It adds the data of every tensor
to its writer, and no tensor. So it refuses every file with a tensor
(`parseAndRewrite_fails`), and what it preserves are the files without
(`parseAndRewrite_preserves_iff`).
-/

namespace PestiGguf

open Codec Codec.Reader Codec.Emit Spec

/-! ## Copying -/

theorem copyable_nil (rest : List UInt8) : Copyable [] rest := ⟨by simp, Nat.zero_le _⟩

theorem copyable_cons {t : GgufTensorInfo} {ts : List GgufTensorInfo} {rest : List UInt8} :
    Copyable (t :: ts) rest ↔
      ∃ s, t.storedSize = .ok s ∧ s.toNat ≤ rest.length ∧ Copyable ts (rest.drop s.toNat) := by
  rw [Copyable, List.forall_mem_cons, List.map_cons, List.sum_cons, storedBytes]
  simp only [Copyable, List.length_drop]
  cases t.storedSize with
  | error e => simp
  | ok s =>
    simp only [Except.ok.injEq, exists_eq', true_and, exists_eq_left']
    constructor
    · rintro ⟨hall, hsum⟩
      exact ⟨by omega, hall, by omega⟩
    · rintro ⟨hle, hall, hsum⟩
      exact ⟨hall, by omega⟩

theorem copyStops_cons {t : GgufTensorInfo} {ts : List GgufTensorInfo} {rest : List UInt8} {e : GgufError} :
    CopyStops (t :: ts) rest e ↔ t.storedSize = .error e ∨ ∃ s, t.storedSize = .ok s ∧
      (rest.length < s.toNat ∧ e = .binary .unexpectedEof ∨
        s.toNat ≤ rest.length ∧ CopyStops ts (rest.drop s.toNat) e) := by
  constructor
  · rintro ⟨ts₁, u, ts₂, hts, hc, hu⟩
    cases ts₁ with
    | nil =>
      obtain ⟨rfl, rfl⟩ := List.cons.inj hts
      rcases hu with hu | ⟨s, hs, hlt, he⟩
      · exact .inl hu
      · exact .inr ⟨s, hs, .inl ⟨by simpa using hlt, he⟩⟩
    | cons t' ts₁ =>
      obtain ⟨rfl, rfl⟩ := List.cons.inj hts
      obtain ⟨s, hs, hle, hc⟩ := copyable_cons.mp hc
      refine .inr ⟨s, hs, .inr ⟨hle, ts₁, u, ts₂, rfl, hc, ?_⟩⟩
      rw [List.map_cons, List.sum_cons, storedBytes, hs] at hu
      rcases hu with hu | ⟨s', hs', hlt, he⟩
      · exact .inl hu
      · refine .inr ⟨s', hs', ?_, he⟩
        simp only [List.length_drop]
        simp only at hlt
        omega
  · rintro (ht | ⟨s, hs, ⟨hlt, he⟩ | ⟨hle, ts₁, u, ts₂, rfl, hc, hu⟩⟩)
    · exact ⟨[], t, ts, rfl, copyable_nil rest, .inl ht⟩
    · exact ⟨[], t, ts, rfl, copyable_nil rest, .inr ⟨s, hs, by simpa using hlt, he⟩⟩
    · refine ⟨t :: ts₁, u, ts₂, rfl, copyable_cons.mpr ⟨s, hs, hle, hc⟩, ?_⟩
      rw [List.map_cons, List.sum_cons, storedBytes, hs]
      rcases hu with hu | ⟨s', hs', hlt, he⟩
      · exact .inl hu
      · refine .inr ⟨s', hs', ?_, he⟩
        rw [List.length_drop] at hlt
        simp only
        omega

theorem not_copyStops_nil {rest : List UInt8} {e : GgufError} : ¬ CopyStops [] rest e := by
  rintro ⟨ts₁, t, ts₂, h, -⟩
  simp at h

/-- The copy loop adds the data of every tensor, and nothing else. -/
theorem copyTensorData_eq_ok {w w' : GgufWriter} {ts : List GgufTensorInfo} {rest : List UInt8} :
    copyTensorData w ts rest = .ok w' ↔
      Copyable ts rest ∧ w' = { w with tensorData := w.tensorData ++ copiedData ts rest } := by
  induction ts generalizing w rest with
  | nil =>
    rw [copyTensorData, copiedData, List.append_nil, Except.ok.injEq]
    exact ⟨fun h => ⟨copyable_nil rest, h.symm⟩, fun h => h.2.symm⟩
  | cons t ts ih =>
    rw [copyTensorData, copyable_cons, copiedData, storedBytes]
    cases t.storedSize with
    | error e => simp
    | ok s =>
      by_cases hle : s.toNat ≤ rest.length
      · simp only [hle, if_true, ih, GgufWriter.addTensorData, Except.ok.injEq, exists_eq_left', true_and,
          List.append_assoc, List.cons_append, List.nil_append]
      · simp [hle]

theorem copyTensorData_eq_error {w : GgufWriter} {ts : List GgufTensorInfo} {rest : List UInt8} {e : GgufError} :
    copyTensorData w ts rest = .error e ↔ CopyStops ts rest e := by
  induction ts generalizing w rest with
  | nil =>
    rw [copyTensorData]
    exact iff_of_false nofun not_copyStops_nil
  | cons t ts ih =>
    rw [copyTensorData, copyStops_cons]
    cases t.storedSize with
    | error e' => simp
    | ok s =>
      by_cases hle : s.toNat ≤ rest.length
      · simp [hle, ih]
      · simp [hle, eq_comm, Nat.lt_of_not_le hle]

theorem names_copiedData (ts : List GgufTensorInfo) (rest : List UInt8) :
    (copiedData ts rest).map (·.1) = ts.map (·.name) := by
  induction ts generalizing rest with
  | nil => rfl
  | cons t ts ih => rw [copiedData, List.map_cons, List.map_cons, ih]

/-! ## Runs -/

namespace Spec

/-- Why rewriting stops before it writes. -/
inductive RewriteStops (fs : FileSystem) (inputPath : String) : GgufError → Prop
  | parse {e : GgufError} (hp : parseGguf fs inputPath = .error e) : RewriteStops fs inputPath e
  | seek {h : GgufHeader} (hp : parseGguf fs inputPath = .ok h) (hs : 2 ^ 63 ≤ h.dataSectionStart.toNat) :
      RewriteStops fs inputPath (.binary .invalidInput)
  | copy {h : GgufHeader} {file : List UInt8} {e : GgufError} (hp : parseGguf fs inputPath = .ok h)
      (hfile : fs inputPath = some file) (hs : h.dataSectionStart.toNat < 2 ^ 63)
      (hc : CopyStops h.tensors (file.drop h.dataSectionStart.toNat) e) : RewriteStops fs inputPath e

/-- Rewriting comes to its write, of a header and the data of its tensors. -/
def RewriteWrites (fs : FileSystem) (inputPath : String) (h : GgufHeader) (data : List (String × List UInt8)) : Prop :=
  ∃ file, parseGguf fs inputPath = .ok h ∧ fs inputPath = some file ∧ h.dataSectionStart.toNat < 2 ^ 63 ∧
    Copyable h.tensors (file.drop h.dataSectionStart.toNat) ∧
    data = copiedData h.tensors (file.drop h.dataSectionStart.toNat)

end Spec

theorem foldl_addKv_rewriter (h : GgufHeader) : h.kvPairs.foldl .addKv
    ((GgufWriter.new.withVersion h.version).withAlignment (h.dataAlignment.getD 256)) = rewriterOf h [] := by
  rw [foldl_addKv]
  rfl

theorem parseAndRewrite_stops {fs : FileSystem} {inputPath : String} {e : GgufError}
    (h : RewriteStops fs inputPath e) (outputPath : String) :
    parseAndRewrite inputPath outputPath fs = (.error e, fs) := by
  rw [parseAndRewrite]
  cases h with
  | parse hp => rw [hp]
  | seek hp hs => simp only [hp, seek, Nat.not_lt.mpr hs, if_false]
  | copy hp hfile hs hc =>
    simp only [hp, seek, hs, if_true, hfile, Option.getD_some, copyTensorData_eq_error.mpr hc]

theorem parseAndRewrite_writes {fs : FileSystem} {inputPath : String} {h : GgufHeader}
    {data : List (String × List UInt8)} (hw : RewriteWrites fs inputPath h data) (outputPath : String) :
    parseAndRewrite inputPath outputPath fs = (rewriterOf h data).write outputPath fs := by
  obtain ⟨file, hp, hfile, hs, hc, rfl⟩ := hw
  have hcopy := copyTensorData_eq_ok (w := rewriterOf h []).mpr ⟨hc, rfl⟩
  simp only [parseAndRewrite, hp, seek, hs, if_true, hfile, Option.getD_some, foldl_addKv_rewriter, hcopy]
  rfl

/-- Rewriting stops or comes to its write. -/
theorem rewrite_cases (fs : FileSystem) (inputPath : String) :
    (∃ e, RewriteStops fs inputPath e) ∨ ∃ h data, RewriteWrites fs inputPath h data := by
  cases hp : parseGguf fs inputPath with
  | error e => exact .inl ⟨e, .parse hp⟩
  | ok h =>
    obtain ⟨file, hfile, -⟩ := parseGguf_eq_ok.mp hp
    by_cases hs : h.dataSectionStart.toNat < 2 ^ 63
    · cases hc : copyTensorData (rewriterOf h []) h.tensors (file.drop h.dataSectionStart.toNat) with
      | error e => exact .inl ⟨e, .copy hp hfile hs (copyTensorData_eq_error.mp hc)⟩
      | ok w => exact .inr ⟨h, _, file, hp, hfile, hs, (copyTensorData_eq_ok.mp hc).1, rfl⟩
    · exact .inl ⟨_, .seek hp (Nat.le_of_not_lt hs)⟩

/-- Data without a tensor of its name is not written. -/
theorem emit_fails_of_no_tensors {w : GgufWriter} (ht : w.tensors = []) (hd : w.tensorData ≠ []) {u : Unit}
    {file : List UInt8} : ¬ w.emit.Emits 0 u file := by
  intro h
  obtain ⟨_, -, hok, -⟩ := emits_emit_iff.mp h
  obtain ⟨e, he⟩ := List.exists_mem_of_ne_nil _ hd
  obtain ⟨t, _, hfind, -⟩ := hok e he
  rw [ht] at hfind
  cases hfind

/-! ## What is rewritten -/

/-- A file with a tensor is not rewritten. -/
theorem parseAndRewrite_fails {fs fs' : FileSystem} {inputPath outputPath : String} {h : GgufHeader}
    (hp : parseGguf fs inputPath = .ok h) (hne : h.tensors ≠ []) :
    parseAndRewrite inputPath outputPath fs ≠ (.ok (), fs') := by
  intro hok
  rcases rewrite_cases fs inputPath with ⟨e, hs⟩ | ⟨h', data, hw⟩
  · rw [parseAndRewrite_stops hs] at hok
    cases hok
  · rw [parseAndRewrite_writes hw] at hok
    obtain ⟨file, hfile, -⟩ := write_eq_ok.mp hok
    obtain ⟨input, hp', -, -, -, hdata⟩ := hw
    obtain rfl := Except.ok.inj (hp.symm.trans hp')
    refine emit_fails_of_no_tensors rfl ?_ hfile
    intro hnil
    have hnames := names_copiedData h.tensors (input.drop h.dataSectionStart.toNat)
    rw [← hdata, show data = [] from hnil] at hnames
    exact hne (List.map_eq_nil_iff.mp hnames.symm)

/-- Without tensors, the rewritten file is what the header's writer writes. -/
theorem parseAndRewrite_eq {fs : FileSystem} {inputPath outputPath : String} {h : GgufHeader}
    (hp : parseGguf fs inputPath = .ok h) (hnil : h.tensors = [])
    (hstart : h.dataSectionStart.toNat < 2 ^ 63) :
    parseAndRewrite inputPath outputPath fs = (writerOf h).write outputPath fs := by
  obtain ⟨file, hfile, -⟩ := parseGguf_eq_ok.mp hp
  have hw : RewriteWrites fs inputPath h [] :=
    ⟨file, hp, hfile, hstart, hnil ▸ copyable_nil _, by rw [hnil, copiedData]⟩
  rw [parseAndRewrite_writes hw, writerOf_eq, rewriterOf, hnil]

/-- What rewriting is to preserve of a file with header `h`: the output has
the same version, KV pairs and tensors, and the same bytes for each. -/
def RewritePreserves (fs : FileSystem) (inputPath outputPath : String) (h : GgufHeader) : Prop :=
  ∃ fs' h', parseAndRewrite inputPath outputPath fs = (.ok (), fs') ∧ parseGguf fs' outputPath = .ok h' ∧
    h'.version = h.version ∧ h'.kvPairs = h.kvPairs ∧ h'.tensors = h.tensors ∧
    ∀ t ∈ h.tensors, ∃ size data, t.storedSize = .ok size ∧
      extractTensorBytesFromPath fs inputPath (h.dataSectionStart + t.offset) size = .ok data ∧
      extractTensorBytesFromPath fs' outputPath (h'.dataSectionStart + t.offset) size = .ok data

/-- Rewriting preserves exactly the files without tensors. -/
theorem parseAndRewrite_preserves_iff (fs : FileSystem) (inputPath outputPath : String) (h : GgufHeader)
    (hp : parseGguf fs inputPath = .ok h) (hver : h.version = 2 ∨ h.version = 3)
    (hhalf : ∀ kv ∈ h.kvPairs, halfFloats kv.value = false)
    (hstart : h.dataSectionStart.toNat < 2 ^ 63) :
    RewritePreserves fs inputPath outputPath h ↔ h.tensors = [] := by
  constructor
  · rintro ⟨fs', h', hok, -⟩
    by_contra hne
    exact parseAndRewrite_fails hp hne hok
  · intro hnil
    obtain ⟨file, -, hparse⟩ := parseGguf_eq_ok.mp hp
    obtain ⟨hword, -⟩ := recognises_parseGgufReader.word hparse
    obtain ⟨v, k, k', t, -, -, -, -, hc, hword'⟩ := writes_writerOf hword hver hhalf
    have hemit := emits_header_only hc (by rw [writerOf_eq])
    refine ⟨_, h, (parseAndRewrite_eq hp hnil hstart).trans (write_eq_ok.mpr ⟨_, hemit, rfl⟩), ?_, rfl, rfl,
      rfl, fun t ht => ?_⟩
    · rw [parseGguf_eq (if_pos rfl)]
      exact (recognises_parseGgufReader.returns_append hword' _).1
    · rw [hnil] at ht
      cases ht

/-- A file system with one file. -/
def singleFile (path : String) (file : List UInt8) : FileSystem := fun p => if p = path then some file else none

/-- A file with a KV pair and no tensor. -/
def sampleMetadata : List UInt8 :=
  preamble .v3 0 1 ++ (leU64.enc 1 ++ [0x6B] ++ (leU32.enc 7 ++ [7]))

theorem parseAndRewrite_preserves_sample : RewritePreserves (singleFile "in.gguf" sampleMetadata) "in.gguf"
    "out.gguf" (headerOf .v3 [⟨"k", .bool, .bool true⟩] []) :=
  (parseAndRewrite_preserves_iff _ "in.gguf" "out.gguf" (headerOf .v3 [⟨"k", .bool, .bool true⟩] []) rfl
    (.inr rfl) (by decide) (by decide +kernel)).mpr rfl

/-- The sample file, padded to 32 bytes before its tensor and after it. -/
def paddedSample : List UInt8 :=
  sampleFile.take 71 ++ (List.replicate 25 0 ++ ([1, 2] ++ List.replicate 30 0))

theorem paddedSample_parse : (parseGgufReader paddedSample).result = .ok sampleHeader := by
  obtain ⟨hword, -⟩ := recognises_parseGgufReader.word (b := sampleFile.take 71) (a := sampleHeader) rfl
  exact (recognises_parseGgufReader.returns_append hword _).1

theorem paddedSample_dataInFile : DataInFile paddedSample sampleHeader where
  names := by decide
  stored t ht := by
    rw [List.mem_singleton.mp ht]
    exact ⟨2, rfl⟩
  offsets i t ht := by
    cases i with
    | zero =>
      obtain rfl := Option.some.inj ht
      rfl
    | succ i => cases ht
  present := by decide +kernel

/-- A file with one tensor is refused. -/
theorem parseAndRewrite_not_preserving : ¬ ∀ (fs : FileSystem) (inputPath outputPath : String)
    (file : List UInt8) (h : GgufHeader), fs inputPath = some file → parseGguf fs inputPath = .ok h →
      (h.version = 2 ∨ h.version = 3) → DataInFile file h →
      (∀ kv ∈ h.kvPairs, halfFloats kv.value = false) → RewritePreserves fs inputPath outputPath h := by
  intro hall
  have hp : parseGguf (singleFile "in.gguf" paddedSample) "in.gguf" = .ok sampleHeader :=
    paddedSample_parse
  obtain ⟨fs', h', hok, -⟩ := hall _ "in.gguf" "out.gguf" paddedSample sampleHeader rfl hp (.inr rfl)
    paddedSample_dataInFile (by decide)
  exact parseAndRewrite_fails hp (by decide) hok

end PestiGguf
