import PestiGguf.Proof.RoundTrip

/-!
# What is read back is what was written

Where the parser accepts what a writer wrote, it reads the writer's content,
for a writer whose content is of the declared types and fits the fields,
whether or not it is within the parser's limits: an accepted record has the
limits, and no record is a prefix of another (`header_of_append`).
-/

namespace PestiGguf

open Codec Codec.Reader Codec.Emit Spec

/-! ## Strings -/

theorem lenField_inj {w : IntWidth} {n m : Nat} (hn : n < limit w) (hm : m < limit w)
    (h : lenField w n = lenField w m) : n = m := by
  rw [← ofLE_lenField hn, h, ofLE_lenField hm]

theorem lenField_append_inj {w : IntWidth} {n m : Nat} (hn : n < limit w) (hm : m < limit w)
    {c d : List UInt8} (h : lenField w n ++ c = lenField w m ++ d) : n = m ∧ c = d := by
  obtain ⟨hl, hr⟩ := List.append_inj h (by rw [length_lenField, length_lenField])
  exact ⟨lenField_inj hn hm hl, hr⟩

theorem Spec.TextOk.lt_limit {s : String} (h : TextOk s) (w : IntWidth) : s.utf8ByteSize < limit w :=
  Nat.lt_of_le_of_lt h.2 (by cases w <;> simp [limit])

/-- A string in front of which a string is read has the limits. -/
theorem text_of_append {w : IntWidth} {s s' : String} {c' r r' : List UInt8} (hs : s.utf8ByteSize < limit w)
    (h : lenField w s.utf8ByteSize ++ asBytes s ++ r = c' ++ r') (hc : Text w s' c') :
    Text w s (lenField w s.utf8ByteSize ++ asBytes s) := by
  obtain ⟨hok, rfl⟩ := hc
  rw [List.append_assoc, List.append_assoc] at h
  obtain ⟨hl, -⟩ := lenField_append_inj hs (hok.lt_limit w) h
  exact ⟨by rw [TextOk, hl]; exact hok, rfl⟩

/-! ## Values -/

theorem element_of_append {f : GgufWireFormat} {v v' : GgufKvValue} {q : Nat} {e e' r r' : List UInt8}
    (hs : ∀ s, v = .string s → s.utf8ByteSize < limit f.stringWidth)
    (hw : (writeKvValue v.valueType v f).Emits q () e) (h : e ++ r = e' ++ r')
    (he : Element f.stringWidth v.valueType v' e') : Element f.stringWidth v.valueType v e := by
  rcases scalar_exists v with ⟨c, hc⟩ | ht
  · have hel : Element f.stringWidth v.valueType v c := by
      generalize v.valueType = t at hc he
      cases he with
      | scalar ht _ => exact .scalar ht hc
      | string _ => cases hc
    cases hv : isHalfFloat v with
    | true => exact absurd (writeElement_fails hel hv q) hw.not_fails
    | false => exact (writes_element hel hv).unique hw ▸ hel.normal
  · cases v with
    | string s =>
      rw [GgufKvValue.valueType] at hw he ⊢
      rw [writeKvValue] at hw
      obtain rfl := writes_text.unique hw
      cases he with
      | scalar _ h => cases h
      | string ht => exact .string (text_of_append (hs s rfl) h ht)
    | bfloat16 bits => exact absurd hw emits_fail
    | array | int8Array | uint8Array =>
      cases he with
      | scalar _ h => cases h
    | _ => simp [GgufKvValue.valueType] at ht

theorem payload_of_append {f : GgufWireFormat} {v v' : GgufKvValue} {q : Nat} {p p' r r' : List UInt8}
    (hfit : ValueFits f v) (hw : (writeKvValue v.valueType v f).Emits q () p) (h : p ++ r = p' ++ r')
    (hp : Payload f v.valueType v' p') : Payload f v.valueType v p := by
  rcases scalar_exists v with ⟨c, hc⟩ | ht
  · have hpay : Payload f v.valueType v c := .scalar hc
    cases hv : halfFloats v with
    | true => exact absurd (writeKvValue_fails hpay hv q) hw.not_fails
    | false => exact (writes_kvValue hpay hv).unique hw ▸ hpay.normal
  · cases v with
    | string s =>
      rw [GgufKvValue.valueType] at hw hp ⊢
      rw [writeKvValue] at hw
      obtain rfl := writes_text.unique hw
      cases hp with
      | scalar h => cases h
      | string ht => exact .string (text_of_append hfit h ht)
    | array arr =>
      obtain ⟨hn, t, hmem⟩ := hfit
      rw [GgufKvValue.valueType] at hw hp ⊢
      obtain ⟨_, c, hc, rfl⟩ := emits_array hw
      cases hp with
      | scalar h => cases h
      | @array tag arr' c' hn' h' =>
        simp only [List.append_assoc] at h
        obtain ⟨htag, hcount⟩ := leU32.enc_append_inj.mp h
        obtain ⟨hl, helems⟩ := lenField_append_inj hn hn' hcount
        obtain rfl := toU32_inj htag
        refine .array _ hn (many_of_append (recognises_readKvArrayElement _ 0 _) (fun v hv _ _ _ _ _ _ hw h he => ?_)
          hc helems h' hl)
        have hv' : v.valueType = elementTag arr :=
          (hmem v hv).1.trans (elementTag_of_mem (fun u hu => (hmem u hu).1) hv).symm
        rw [← hv'] at hw he ⊢
        exact element_of_append (hmem v hv).2 hw h he
    | bfloat16 bits => exact absurd hw emits_fail
    | int8Array | uint8Array =>
      cases hp with
      | scalar h => cases h
    | _ => simp [GgufKvValue.valueType] at ht

/-! ## Records -/

theorem kvRecord_of_append {f : GgufWireFormat} {kv kv' : GgufKvPair} {q : Nat} {c c' r r' : List UInt8}
    (hfit : KvFits f kv) (hw : (writeKvPair kv f).Emits q () c) (h : c ++ r = c' ++ r')
    (hc : KvRecord f kv' c') : KvRecord f kv c := by
  obtain ⟨k', p', hk', hp', rfl⟩ := hc
  obtain ⟨_, p, hp, rfl⟩ := emits_kvPair hw
  simp only [List.append_assoc] at h
  rw [← List.append_assoc] at h
  have hk := text_of_append hfit.key h hk'
  obtain ⟨-, rfl⟩ := (recognises_readString _).unique hk hk' h
  obtain ⟨htag, hval⟩ := leU32.enc_append_inj.mp (List.append_cancel_left h)
  rw [← toU32_inj htag, hfit.valueType] at hp'
  rw [hfit.valueType] at hp
  exact ⟨_, p, hk, hfit.valueType ▸ payload_of_append hfit.value hp hval hp', rfl⟩

theorem tensorRecord_of_append {f : GgufWireFormat} {t t' : GgufTensorInfo} {q : Nat}
    {c c' r r' : List UInt8} (hfit : TensorFits f t) (hw : (writeTensorInfo t f).Emits q () c)
    (h : c ++ r = c' ++ r') (hc : TensorRecord f t' c') : TensorRecord f t c := by
  obtain ⟨n', hn', hd', rfl⟩ := hc
  obtain rfl := (writes_writeTensorInfo f t).unique hw
  simp only [List.append_assoc] at h
  rw [← List.append_assoc] at h
  have hn := text_of_append hfit.name h hn'
  obtain ⟨-, rfl⟩ := (recognises_readString _).unique hn hn' h
  obtain ⟨hd, -⟩ := leU32.enc_append_inj.mp (List.append_cancel_left h)
  have hdims := congrArg UInt32.toNat hd
  rw [GgufTensorInfo.ndims, GgufTensorInfo.ndims, UInt32.toNat_ofNat_of_lt' hfit.dims,
    UInt32.toNat_ofNat_of_lt' (Nat.lt_of_le_of_lt hd' (by decide))] at hdims
  exact ⟨_, hn, hdims ▸ hd', rfl⟩

/-! ## Headers -/

/-- The count of the pairs is read back where it fits; that of the tensors may
be another with the same field. -/
theorem preamble_append_inj {v v' : GgufVersion} {nt nk nt' nk' : Nat} {c d : List UInt8}
    (hnk : nk < limit v.wireFormat.headerCountWidth) (hnk' : nk' < limit v'.wireFormat.headerCountWidth)
    (h : preamble v nt nk ++ c = preamble v' nt' nk' ++ d) : v = v' ∧ nk = nk' ∧
      lenField v.wireFormat.headerCountWidth nt = lenField v.wireFormat.headerCountWidth nt' ∧ c = d := by
  simp only [preamble, List.append_assoc] at h
  obtain ⟨hv, hcounts⟩ := leU32.enc_append_inj.mp (List.append_cancel_left h)
  obtain rfl := versionNumber_inj hv
  obtain ⟨hnt, hcount⟩ := List.append_inj hcounts (by rw [length_lenField, length_lenField])
  obtain ⟨rfl, rfl⟩ := lenField_append_inj hnk hnk' hcount
  exact ⟨rfl, rfl, hnt, rfl⟩

/-- Where a header is read of what a writer wrote whose content fits its
fields, it is that of the content. Version 1 does not read the tensors. -/
theorem header_of_append {w : GgufWriter} {v : GgufVersion} (hver : w.version = versionNumber v)
    (hnk : w.kvPairs.length < limit w.wireFormat.headerCountWidth) (hkv : ∀ kv ∈ w.kvPairs, KvFits w.wireFormat kv)
    (ht : v ≠ .v1 → w.tensors.length < limit w.wireFormat.headerCountWidth ∧
      ∀ t ∈ w.tensors, TensorFits w.wireFormat t)
    {hd c r r' : List UInt8} (hw : w.emitHeader.Emits 0 () hd) {h : GgufHeader} (hc : HeaderWord h c)
    (e : hd ++ r = c ++ r') :
    h = headerOf v w.kvPairs (if v = .v1 then [] else w.tensors) ∧ AlignmentOk w.kvPairs := by
  obtain ⟨q₁, q₂, k, t, hk, htensors, rfl⟩ := emits_header hw
  rw [fixedFields_eq hver] at e
  rw [wireFormat_of_version hver] at hk htensors hnk hkv ht
  -- the KV pairs read are those written
  have pairs {kvs : List GgufKvPair} {k' s s' : List UInt8} (hM : Many (KvRecord v.wireFormat) kvs k')
      (hl : w.kvPairs.length = kvs.length) (e : k ++ s = k' ++ s') : kvs = w.kvPairs ∧ k' = k := by
    have hM' := many_of_append (recognises_readKvPair _) (fun kv hm _ _ _ _ _ _ => kvRecord_of_append (hkv kv hm))
      hk e hM hl
    exact ((recognises_readKvPair _).many _).unique ⟨rfl, hM⟩ ⟨hl, hM'⟩ e.symm
  cases hc with
  | v1 n hl ha hM =>
    simp only [List.append_assoc] at e
    obtain ⟨rfl, hlk, -, erest⟩ := preamble_append_inj hnk (Nat.lt_of_le_of_lt hl (count_lt_limit _)) e
    obtain ⟨rfl, -⟩ := pairs hM hlk erest
    exact ⟨rfl, ha⟩
  | v23 hv hlt hl ha hM hM' =>
    simp only [List.append_assoc] at e
    obtain ⟨rfl, hlk, hfield, erest⟩ := preamble_append_inj hnk (Nat.lt_of_le_of_lt hl (count_lt_limit _)) e
    obtain ⟨hnt, hts⟩ := ht hv
    have hlts := lenField_inj hnt (Nat.lt_of_le_of_lt hlt (count_lt_limit _)) hfield
    obtain ⟨rfl, rfl⟩ := pairs hM hlk erest
    have etensors := List.append_cancel_left erest
    have hT := many_of_append (recognises_readTensorInfo _)
      (fun t hm _ _ _ _ _ _ => tensorRecord_of_append (hts t hm)) htensors etensors hM' hlts
    obtain ⟨rfl, -⟩ := ((recognises_readTensorInfo _).many _).unique ⟨rfl, hM'⟩ ⟨hlts, hT⟩ etensors.symm
    exact ⟨by rw [if_neg hv], ha⟩

end PestiGguf
