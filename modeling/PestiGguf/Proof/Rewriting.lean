import PestiGguf.Framework.Runs
import PestiGguf.Proof.Failure

/-!
# Runs of rewrites

Of every header without half-precision floats, `parse_and_rewrite` writes the same
file, which is that of the pairs alone, with no tensor (`Spec.normalFile`); it ends
well exactly where there was none (`parseAndRewrite_outcome`). So a file without
tensors can be rewritten along any paths and stays what it is
(`rewrites_of_one`), and no run of rewrites, whatever fails in it, leaves a file
that parses to anything but the pairs of a file that was there
(`rewrites_invent_nothing`).
-/

namespace PestiGguf

open Codec Codec.Reader Codec.Emit Spec

namespace Spec

/-- What rewriting writes of a header: its pairs, and no tensor. -/
def normalFile (h : GgufHeader) : List UInt8 := ((rewriterOf h []).emit 0).2

/-- Rewriting `command.1` to `command.2`. -/
def rewrite (command : String × String) (fs : FileSystem) : Except GgufError Unit × FileSystem :=
  parseAndRewrite command.1 command.2 fs

/-- Each command reads a path of `paths`, or one that was written before. -/
def Fed (paths : List String) : List (String × String) → Prop
  | [] => True
  | command :: commands => command.1 ∈ paths ∧ Fed (command.2 :: paths) commands

/-- A header that rewriting keeps. -/
structure Rewritable (h : GgufHeader) : Prop where
  tensors : h.tensors = []
  noHalf : ∀ kv ∈ h.kvPairs, halfFloats kv.value = false
  start : h.dataSectionStart.toNat < 2 ^ 63

/-- The pairs of a file that parses, under its version, and no tensor. -/
def PairsOf (fs : FileSystem) (h' : GgufHeader) : Prop :=
  ∃ path h, parseGguf fs path = .ok h ∧ h'.version = h.version ∧ h'.kvPairs = h.kvPairs ∧ h'.tensors = []

end Spec

/-! ## What is written of a header -/

/-- The content of an accepted header, of any version. -/
theorem headerWord_pairs {h : GgufHeader} {c : List UInt8} (hc : HeaderWord h c) : ∃ v k,
    h = headerOf v h.kvPairs h.tensors ∧ h.kvPairs.length ≤ 10000000 ∧ AlignmentOk h.kvPairs ∧
      Many (KvRecord v.wireFormat) h.kvPairs k := by
  cases hc with
  | v1 n hk ha hM => exact ⟨.v1, _, rfl, hk, ha, hM⟩
  | v23 hv ht hk ha hM hM' => exact ⟨_, _, rfl, hk, ha, hM⟩

/-- The header of the pairs alone. -/
theorem headerWord_of_pairs {v : GgufVersion} {kvs : List GgufKvPair} {k : List UInt8}
    (hk : kvs.length ≤ 10000000) (ha : AlignmentOk kvs) (hM : Many (KvRecord v.wireFormat) kvs k) :
    HeaderWord (headerOf v kvs []) (preamble v 0 kvs.length ++ k) := by
  by_cases hv : v = .v1
  · subst hv
    exact .v1 0 hk ha hM
  · have hword := HeaderWord.v23 hv (Nat.zero_le _) hk ha hM (.nil (R := TensorRecord v.wireFormat))
    rwa [List.append_nil] at hword

theorem fixedFields_rewriterOf {h : GgufHeader} {v : GgufVersion} (hver : h.version = versionNumber v)
    (data : List (String × List UInt8)) : fixedFields (rewriterOf h data) = preamble v 0 h.kvPairs.length :=
  fixedFields_eq (w := rewriterOf h data) hver

section
variable {h : GgufHeader} {c : List UInt8} (hc : HeaderWord h c)
include hc

/-- Without half-precision floats, the header of the pairs alone is written. -/
theorem writes_rewriterOf (hv : ∀ kv ∈ h.kvPairs, halfFloats kv.value = false) : ∃ v hd,
    h = headerOf v h.kvPairs h.tensors ∧ HeaderWord (headerOf v h.kvPairs []) hd ∧
      ∀ data, (rewriterOf h data).emitHeader.Writes hd := by
  obtain ⟨v, k, hh, hk, ha, hM⟩ := headerWord_pairs hc
  have hver : h.version = versionNumber v := by rw [hh]; rfl
  obtain ⟨k', hn⟩ := normalised_exists hM
  refine ⟨v, _, hh, headerWord_of_pairs hk ha hn.right, fun data => ?_⟩
  have hw := writes_emitHeader (w := rewriterOf h data) hver hn hv (.nil (R := TensorRecord v.wireFormat))
  rwa [List.append_nil] at hw

/-- And it is all of the file, with data or without. -/
theorem emit_rewriterOf (hv : ∀ kv ∈ h.kvPairs, halfFloats kv.value = false) (data : List (String × List UInt8)) :
    ((rewriterOf h data).emit 0).2 = normalFile h ∧ (((rewriterOf h data).emit 0).1 = .ok () ↔ data = []) := by
  obtain ⟨v, hd, -, -, hw⟩ := writes_rewriterOf hc hv
  have hnormal := emits_header_only (hw []) rfl
  have hfile : normalFile h = _ := congrArg Prod.snd hnormal
  cases data with
  | nil => exact ⟨rfl, iff_of_true (congrArg Prod.fst hnormal) rfl⟩
  | cons e es =>
    have hfails : (rewriterOf h (e :: es)).emit.FailsWith 0 _ _ := failsWith_iff_partialFile.mpr
      (.name ⟨hd, hw _, rfl⟩ (show _ = [] ++ e :: es from rfl) nofun rfl)
    have hresult : ((rewriterOf h (e :: es)).emit 0).1 = .error _ := congrArg Prod.fst hfails
    refine ⟨(congrArg Prod.snd hfails).trans hfile.symm, iff_of_false ?_ (List.cons_ne_nil _ _)⟩
    rw [hresult]
    exact nofun

theorem parse_normalFile (hv : ∀ kv ∈ h.kvPairs, halfFloats kv.value = false) : ∃ v,
    h = headerOf v h.kvPairs h.tensors ∧
      (parseGgufReader (normalFile h)).result = .ok (headerOf v h.kvPairs []) := by
  obtain ⟨v, hd, hh, hword, hw⟩ := writes_rewriterOf hc hv
  have hemits := emits_header_only (hw []) rfl
  have hfile : normalFile h = _ := congrArg Prod.snd hemits
  exact ⟨v, hh, hfile ▸ parse_written hword (hw []) hemits⟩

end

/-! ## Half-precision floats -/

theorem Spec.Scalar.ne_nil {t : GgufValueType} {v : GgufKvValue} {c : List UInt8} (h : Scalar t v c) : c ≠ [] := by
  rintro rfl
  cases h

theorem Spec.Element.ne_nil {w : IntWidth} {t : GgufValueType} {v : GgufKvValue} {c : List UInt8}
    (h : Element w t v c) : c ≠ [] := by
  cases h with
  | scalar _ h => exact h.ne_nil
  | string h =>
    have hlen := congrArg List.length h.2
    have hpos := h.1.1
    rw [List.length_append, length_asBytes] at hlen
    exact List.ne_nil_of_length_pos (by omega)

/-- What is written of a payload that is refused is not all of it. -/
theorem partialValue_prefix {f : GgufWireFormat} {e : GgufError} {t : GgufValueType} {v : GgufKvValue}
    {p d : List UInt8} (hp : Payload f t v p) (hd : PartialValue f e t v d) : ∃ s, s ≠ [] ∧ p = d ++ s := by
  cases hp with
  | scalar h =>
    cases hd with
    | refused _ =>
      exact ⟨p, h.ne_nil, rfl⟩
    | array _ _ _ => cases h
  | string h =>
    cases hd with
    | refused h => cases h
  | @array tag arr c hn h =>
    cases hd with
    | refused h => cases h
    | @array _ us us' u _ c' d' harr hc' hd' =>
      have hu : u ∈ arr := by simp [harr]
      have htag : elementTag arr = tag := elementTag_of_mem (fun w hw => by
        obtain ⟨_, hel⟩ := h.exists_of_mem hw
        exact hel.valueType) hu
      obtain ⟨cu, hel⟩ := h.exists_of_mem hu
      rw [htag] at hc' hd' ⊢
      -- an element is no array, so it is refused for its tag, as all of them are
      obtain ⟨text, hrefused, rfl⟩ : ∃ text, refusal tag = some text ∧ d' = [] := by
        cases hd' with
        | refused h => exact ⟨_, h, rfl⟩
        | array _ _ _ =>
          cases hel with
          | scalar _ h => cases h
      obtain rfl : us = [] := by
        cases us with
        | nil => rfl
        | cons a as =>
          obtain ⟨_, _, ha, -, -⟩ := emits_forM_cons.mp (hc' 0)
          exact absurd ha fun ha => ha.not_failsWith (failsWith_of_partialValue (.refused (v := a) hrefused) 0)
      obtain rfl := emits_forM_nil.mp (hc' 0)
      refine ⟨c, ?_, by simp⟩
      rw [harr] at h
      cases h with
      | cons hR _ => exact List.append_ne_nil_of_left_ne_nil hR.ne_nil _

theorem partialRecord_prefix {f : GgufWireFormat} {e : GgufError} {kv : GgufKvPair} {c d : List UInt8}
    (hc : KvRecord f kv c) (hd : PartialRecord f e kv d) : ∃ s, s ≠ [] ∧ c = d ++ s := by
  obtain ⟨k, p, hk, hp, rfl⟩ := hc
  obtain ⟨d, hd, rfl⟩ := hd
  obtain ⟨s, hs, rfl⟩ := partialValue_prefix hp hd
  exact ⟨s, hs, by rw [hk.2]; simp only [List.append_assoc]⟩

/-- What a loop writes of pairs that have records is a word for them. -/
theorem records_of_writes {f : GgufWireFormat} {kvs : List GgufKvPair} {k c : List UInt8}
    (hM : Many (KvRecord f) kvs k) (hw : (forM kvs (writeKvPair · f)).Writes c) : Many (KvRecord f) kvs c := by
  have hv : ∀ kv ∈ kvs, halfFloats kv.value = false := fun kv hm => by
    by_contra hhalf
    exact (hw 0).not_fails (writeKvPairs_fails hM hm (Bool.not_eq_false _ ▸ hhalf) 0)
  obtain ⟨c', hn⟩ := normalised_exists hM
  obtain rfl := (writes_kvPairs hn hv).unique (hw 0)
  exact hn.right

/-- With a half-precision float, what is written does not parse. -/
theorem error_of_halfFloats {h : GgufHeader} {c : List UInt8} (hc : HeaderWord h c)
    (hhalf : ∃ kv ∈ h.kvPairs, halfFloats kv.value = true) (data : List (String × List UInt8)) :
    (∃ e, ((rewriterOf h data).emit 0).1 = .error e) ∧
      ∃ e, (parseGgufReader ((rewriterOf h data).emit 0).2).result = .error e := by
  obtain ⟨v, k, hh, hlen, ha, hM⟩ := headerWord_pairs hc
  have hver : h.version = versionNumber v := by rw [hh]; rfl
  obtain ⟨kv, hm, hkv⟩ := hhalf
  have hfail : (rewriterOf h data).emitHeader.Fails 0 := emitHeader_fails (w := rewriterOf h data) hver hM hm hkv 0
  obtain ⟨e, file, hrun⟩ := hfail.bind (f := fun _ => do
    GgufWriter.padTo (rewriterOf h data).dataStart
    forM (rewriterOf h data).tensorData (rewriterOf h data).checkName
    forM (rewriterOf h data).tensorData (rewriterOf h data).writeTensorData)
  have hemit : (rewriterOf h data).emit 0 = (.error e, file) := hrun
  rw [hemit]
  refine ⟨⟨e, rfl⟩, ?_⟩
  show ∃ e, (parseGgufReader file).result = .error e
  -- the header fails in a pair, after a word for those before it
  cases failsWith_iff_partialFile.mp hemit with
  | name hpad =>
    obtain ⟨hd, hw, -⟩ := hpad
    exact absurd hfail (hw 0).not_fails
  | data hpad =>
    obtain ⟨hd, hw, -⟩ := hpad
    exact absurd hfail (hw 0).not_fails
  | @pair kvs kvs' kv' _ k₁ d hkvs hk₁ hd =>
    rw [fixedFields_rewriterOf hver]
    have hkvs : h.kvPairs = kvs ++ kv' :: kvs' := hkvs
    rw [wireFormat_of_version (w := rewriterOf h data) hver] at hk₁ hd
    rw [hkvs] at hM
    obtain ⟨_, _, -, hbefore, hrest⟩ := many_append.mp hM
    have hword := many_append.mpr ⟨_, _, rfl, records_of_writes hbefore hk₁, hrest⟩
    cases hrest with
    | @cons _ _ _ q hr _ =>
      obtain ⟨s, hs, rfl⟩ := partialRecord_prefix hr hd
      rw [← hkvs] at hword
      refine recognises_parseGgufReader.error_of_prefix (headerWord_of_pairs hlen ha hword) ?_ ?_
      · exact ⟨s ++ q, by simp only [List.append_assoc]⟩
      · intro heq
        have := congrArg List.length heq
        have := List.length_pos_iff.mpr hs
        simp only [List.length_append] at *
        omega

/-! ## Outcomes -/

theorem names_eq_nil {ts : List GgufTensorInfo} {rest : List UInt8} : copiedData ts rest = [] ↔ ts = [] := by
  rw [← List.map_eq_nil_iff (f := fun e : String × List UInt8 => e.1), names_copiedData, List.map_eq_nil_iff]

/-- What a rewriter with the data of its input writes. -/
theorem written_of_rewrite {fs : FileSystem} {inputPath : String} {h : GgufHeader} {data : List (String × List UInt8)}
    (hw : RewriteWrites fs inputPath h data) : parseGguf fs inputPath = .ok h ∧ h.dataSectionStart.toNat < 2 ^ 63 ∧
      (((rewriterOf h data).emit 0).1 = .ok () ↔ Rewritable h) ∧
      ((∀ kv ∈ h.kvPairs, halfFloats kv.value = false) → ((rewriterOf h data).emit 0).2 = normalFile h) ∧
      ((∃ kv ∈ h.kvPairs, halfFloats kv.value = true) →
        ∃ e, (parseGgufReader ((rewriterOf h data).emit 0).2).result = .error e) := by
  obtain ⟨input, hp, hfile, hstart, -, hdata⟩ := hw
  obtain ⟨_, hinput, hparse⟩ := parseGguf_eq_ok.mp hp
  obtain ⟨hword, -⟩ := recognises_parseGgufReader.word hparse
  refine ⟨hp, hstart, ?_, fun hv => (emit_rewriterOf hword hv data).1,
    fun hhalf => (error_of_halfFloats hword hhalf data).2⟩
  by_cases hv : ∀ kv ∈ h.kvPairs, halfFloats kv.value = false
  · rw [(emit_rewriterOf hword hv data).2, hdata, names_eq_nil]
    exact ⟨fun ht => ⟨ht, hv, hstart⟩, fun hr => hr.tensors⟩
  · push Not at hv
    obtain ⟨kv, hm, hkv⟩ := hv
    obtain ⟨⟨e, he⟩, -⟩ := error_of_halfFloats hword ⟨kv, hm, Bool.eq_true_of_not_eq_false hkv⟩ data
    rw [he]
    exact iff_of_false nofun fun hr => hkv (hr.noHalf kv hm)

/-- What rewriting does to a file system: nothing, or it creates its output. That
is the file of the pairs alone, whether the rewriting then ends well, as it does for
a header without tensors, or not; with a half-precision float, it is no file that
parses. Allocations are set aside: what panics in one leaves nothing written. -/
theorem parseAndRewrite_outcome (fs : FileSystem) (inputPath outputPath : String) :
    (∃ e, RewriteStops fs inputPath e ∧ parseAndRewrite inputPath outputPath fs = (.error e, fs)) ∨
      ∃ h file, parseGguf fs inputPath = .ok h ∧ h.dataSectionStart.toNat < 2 ^ 63 ∧
        (parseAndRewrite inputPath outputPath fs).2 = replaced fs outputPath file ∧
        (((parseAndRewrite inputPath outputPath fs).1 = .ok () ↔ Rewritable h) ∧
        ((∀ kv ∈ h.kvPairs, halfFloats kv.value = false) → file = normalFile h) ∧
        ((∃ kv ∈ h.kvPairs, halfFloats kv.value = true) → ∃ e, (parseGgufReader file).result = .error e)) := by
  rcases rewrite_cases fs inputPath with ⟨e, hs⟩ | ⟨h, data, hw⟩
  · exact .inl ⟨e, hs, parseAndRewrite_stops hs outputPath⟩
  · obtain ⟨hp, hstart, hwritten⟩ := written_of_rewrite hw
    right
    rw [parseAndRewrite_writes hw]
    exact ⟨h, ((rewriterOf h data).emit 0).2, hp, hstart, rfl, hwritten⟩

/-- A rewritable header is rewritten to a file of the same header. -/
theorem rewrite_of_rewritable {fs : FileSystem} {inputPath : String} {h : GgufHeader}
    (hp : parseGguf fs inputPath = .ok h) (hr : Rewritable h) (outputPath : String) :
    parseAndRewrite inputPath outputPath fs = (.ok (), replaced fs outputPath (normalFile h)) ∧
      (parseGgufReader (normalFile h)).result = .ok h := by
  obtain ⟨file, hfile, hparse⟩ := parseGguf_eq_ok.mp hp
  obtain ⟨hword, -⟩ := recognises_parseGgufReader.word hparse
  obtain ⟨v, hh, hnormal⟩ := parse_normalFile hword hr.noHalf
  constructor
  · have hw : RewriteWrites fs inputPath h [] :=
      ⟨file, hp, hfile, hr.start, hr.tensors ▸ copyable_nil _, by rw [hr.tensors, copiedData]⟩
    rw [parseAndRewrite_writes hw]
    exact Prod.ext ((emit_rewriterOf hword hr.noHalf []).2.mpr rfl) rfl
  · rw [hnormal, hh, hr.tensors]
    rfl

/-! ## Runs -/

/-- Rewriting a file without tensors, its copies and theirs, in any order and also in
place, gives the same file each time, and changes nothing else. -/
theorem rewrites_of_one (h : GgufHeader) (hr : Rewritable h) (commands : List (String × String)) (paths : List String)
    (hfed : Fed paths commands) (fs : FileSystem) (hp : ∀ path ∈ paths, parseGguf fs path = .ok h) :
    runAll rewrite commands fs = (commands.map fun _ => .ok (),
      fun path => if path ∈ commands.map (·.2) then some (normalFile h) else fs path) := by
  induction commands generalizing paths fs with
  | nil => simp [runAll]
  | cons command commands ih =>
    obtain ⟨hin, hfed⟩ := hfed
    obtain ⟨hrun, hnormal⟩ := rewrite_of_rewritable (hp _ hin) hr command.2
    have hnext : ∀ path ∈ command.2 :: paths, parseGguf (replaced fs command.2 (normalFile h)) path = .ok h := by
      intro path hm
      by_cases heq : path = command.2
      · rw [parseGguf_eq (if_pos heq), hnormal]
      · rw [parseGguf, replaced, if_neg heq]
        exact hp path (List.mem_of_ne_of_mem heq hm)
    rw [runAll, rewrite, hrun]
    simp only [ih _ hfed _ hnext, List.map_cons, List.mem_cons, replaced]
    refine Prod.ext rfl (funext fun path => ?_)
    by_cases hm : path ∈ commands.map (·.2)
    · simp [hm]
    · by_cases heq : path = command.2 <;> simp [hm, heq]

/-- The header of a file with a KV pair and no tensor. -/
def metadataHeader : GgufHeader := headerOf .v3 [⟨"k", .bool, .bool true⟩] []

theorem metadataHeader_rewritable : Rewritable metadataHeader := ⟨rfl, by decide, by decide +kernel⟩

/-- A file that is copied, and then overwritten by its copy. -/
theorem rewrites_of_one_sample :
    runAll rewrite [("in.gguf", "out.gguf"), ("out.gguf", "in.gguf")] (singleFile "in.gguf" sampleMetadata) =
      ([.ok (), .ok ()], fun path => if path ∈ ["out.gguf", "in.gguf"] then some (normalFile metadataHeader)
        else singleFile "in.gguf" sampleMetadata path) :=
  rewrites_of_one metadataHeader metadataHeader_rewritable [("in.gguf", "out.gguf"), ("out.gguf", "in.gguf")]
    ["in.gguf"] (by simp [Fed]) _ fun path hm => by
      rw [List.mem_singleton.mp hm]
      rfl

/-- What parses of the output of a rewriting are the pairs of its input. -/
theorem rewrite_pairs {fs : FileSystem} {command : String × String} {h' : GgufHeader} {path : String}
    (hp : parseGguf (rewrite command fs).2 path = .ok h') (hne : (rewrite command fs).2 path ≠ fs path) :
    PairsOf fs h' := by
  rcases rewrite_cases fs command.1 with ⟨e, hs⟩ | ⟨h, data, hw⟩
  · rw [rewrite, parseAndRewrite_stops hs] at hne
    exact absurd rfl hne
  · obtain ⟨hin, -, -, hnormal, hhalf⟩ := written_of_rewrite hw
    rw [rewrite, parseAndRewrite_writes hw] at hne hp
    have heq : path = command.2 := by
      by_contra heq
      exact hne (if_neg heq)
    rw [heq, parseGguf_eq (write_file _ _ _)] at hp
    by_cases hv : ∀ kv ∈ h.kvPairs, halfFloats kv.value = false
    · obtain ⟨_, -, hparse⟩ := parseGguf_eq_ok.mp hin
      obtain ⟨hword, -⟩ := recognises_parseGgufReader.word hparse
      obtain ⟨v, hh, hfile⟩ := parse_normalFile hword hv
      rw [hnormal hv, hfile, Except.ok.injEq] at hp
      subst hp
      exact ⟨command.1, h, hin, by rw [hh]; rfl, rfl, rfl⟩
    · push Not at hv
      obtain ⟨kv, hm, hkv⟩ := hv
      obtain ⟨e, he⟩ := hhalf ⟨kv, hm, Bool.eq_true_of_not_eq_false hkv⟩
      rw [he] at hp
      cases hp

/-- After any run of rewrites, whatever fails in it, a file that parses is one that
was there, or has the pairs of one that was there, and no tensor. -/
theorem rewrites_invent_nothing (fs : FileSystem) (commands : List (String × String)) (path : String)
    (h' : GgufHeader) (hp : parseGguf (runAll rewrite commands fs).2 path = .ok h') :
    (runAll rewrite commands fs).2 path = fs path ∨ PairsOf fs h' := by
  refine run_invariant (P := fun fs' => ∀ path h', parseGguf fs' path = .ok h' → fs' path = fs path ∨ PairsOf fs h')
    (fun command _ fs' ih path h' hp => ?_) (fun _ _ _ => .inl rfl) path h' hp
  by_cases hsame : (rewrite command fs').2 path = fs' path
  · rw [hsame]
    exact ih path h' (by rwa [parseGguf, hsame] at hp)
  · obtain ⟨q, h, hq, hver, hkv, hts⟩ := rewrite_pairs hp hsame
    right
    rcases ih q h hq with hold | ⟨q₀, h₀, hq₀, hver₀, hkv₀, -⟩
    · exact ⟨q, h, by rwa [parseGguf, hold] at hq, hver, hkv, hts⟩
    · exact ⟨q₀, h₀, hq₀, hver.trans hver₀, hkv.trans hkv₀, hts⟩

theorem rewrites_invent_nothing_sample :
    (runAll rewrite [("in.gguf", "out.gguf")] (singleFile "in.gguf" sampleMetadata)).2 "out.gguf" =
        singleFile "in.gguf" sampleMetadata "out.gguf" ∨
      PairsOf (singleFile "in.gguf" sampleMetadata) metadataHeader :=
  rewrites_invent_nothing _ _ _ metadataHeader (by
    have hparse : parseGguf (singleFile "in.gguf" sampleMetadata) "in.gguf" = .ok metadataHeader := rfl
    obtain ⟨hrun, hnormal⟩ := rewrite_of_rewritable hparse metadataHeader_rewritable "out.gguf"
    simp only [runAll, rewrite, hrun]
    rw [parseGguf_eq (if_pos rfl), hnormal])

end PestiGguf
