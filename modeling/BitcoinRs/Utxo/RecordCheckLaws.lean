import BitcoinRs.Utxo.RecordStore

namespace BitcoinRs.Utxo

open LittleEndian ByteTable Fallible KeyedList Nat
open List (append_nil append_assoc mem_cons_self range flatMap_singleton flatMap_cons)

variable {vout : UInt32} {index : ℕ}

section

lemma slice_sound {bytes mid : Bytes} {start stop : ℕ} (h : slice bytes start stop = some mid) :
    bytes.drop start = mid ++ bytes.drop stop ∧ stop = start + mid.length ∧ stop ≤ bytes.length := by
  unfold slice at h
  split_ifs at h with hbounds
  cases h
  have hlen : ((bytes.drop start).take (stop - start)).length = stop - start := by
    rw [List.length_take, List.length_drop]
    omega
  refine ⟨?_, by omega, hbounds.2⟩
  conv_lhs => rw [← List.take_append_drop (stop - start) (bytes.drop start)]
  rw [List.drop_drop, Nat.add_sub_cancel' hbounds.1]

lemma okOr_ok {α : Type} {e : UtxoError} {o : Option α} {a : α} (h : okOr e o = .ok a) : o = some a := by
  cases o with
  | none => cases h
  | some b =>
    cases h
    rfl

lemma lift_eq_ok {α : Type} {x : Except UtxoError α} {a : α} (h : lift x = .ok a) : x = .ok a := by
  cases x with
  | error e => cases h
  | ok b =>
    cases h
    rfl

lemma checkedAdd_eq_some {a b c : ℕ} (h : checkedAdd a b = some c) : c = a + b := by
  unfold checkedAdd at h
  split_ifs at h
  cases h
  rfl

lemma checkedMul_eq_some {a b c : ℕ} (h : checkedMul a b = some c) : c = a * b := by
  unfold checkedMul at h
  split_ifs at h
  cases h
  rfl

variable {bytes : Bytes} {layout : V5Layout}

lemma readWidth_sound {offset w value : ℕ} (h : readWidth bytes offset w = some value) :
    bytes.drop offset = encode w value ++ bytes.drop (offset + w) ∧ value < 256 ^ w := by
  obtain ⟨stop, hstop, h⟩ := Option.bind_eq_some_iff.mp h
  obtain ⟨mid, hmid, rfl⟩ := Option.map_eq_some_iff.mp h
  obtain rfl := checkedAdd_eq_some hstop
  obtain ⟨hdrop, hlen, -⟩ := slice_sound hmid
  obtain rfl : w = mid.length := by omega
  rw [encode_decode]
  exact ⟨hdrop, decode_lt mid⟩

lemma dirOffset_sound {index w dir offset : ℕ} (h : (checkedMul index w).bind (checkedAdd dir) = some offset) :
    offset = dir + index * w := by
  obtain ⟨span, hspan, hadd⟩ := Option.bind_eq_some_iff.mp h
  rw [checkedAdd_eq_some hadd, checkedMul_eq_some hspan]

lemma voutAt_sound (h : layout.voutAt bytes index = .ok vout) :
    bytes.drop (layout.voutDir + index * layout.voutWidth) =
        encode layout.voutWidth vout.toNat ++ bytes.drop (layout.voutDir + (index + 1) * layout.voutWidth) ∧
      vout.toNat < 256 ^ layout.voutWidth := by
  obtain ⟨offset, hoffset, h⟩ := bind_eq_ok h
  obtain ⟨raw, hraw, h⟩ := bind_eq_ok h
  obtain ⟨⟨⟩, hfits, h⟩ := bind_eq_ok h
  cases h
  obtain rfl := dirOffset_sound (okOr_ok hoffset)
  rw [UInt32.toNat_ofNat_of_lt' (ensure_ok hfits), add_mul, one_mul, ← add_assoc]
  exact readWidth_sound (okOr_ok hraw)

lemma payloadLenAt_sound {index len : ℕ} (h : layout.payloadLenAt bytes index = .ok len) :
    bytes.drop (layout.lenDir + index * layout.lenWidth) =
        encode layout.lenWidth len ++ bytes.drop (layout.lenDir + (index + 1) * layout.lenWidth) ∧
      len < 256 ^ layout.lenWidth := by
  obtain ⟨offset, hoffset, h⟩ := bind_eq_ok h
  obtain rfl := dirOffset_sound (okOr_ok hoffset)
  rw [add_mul, one_mul, ← add_assoc]
  exact readWidth_sound (okOr_ok h)

lemma decodeAmount_sound {body : Bytes} {value cursor : ℕ} (h : decodeAmount body = .ok (value, cursor)) :
    ∃ amount : UInt64, amount.toNat = value ∧
      body = varint (amountParts amount).1 ++ rawAmount amount ++ body.drop cursor := by
  obtain ⟨⟨code, stop⟩, hcode, h⟩ := bind_eq_ok h
  obtain ⟨-, hdrop, -⟩ := readVarint_sound (lift_eq_ok hcode)
  dsimp only at h
  split_ifs at h with hescape
  · obtain ⟨rawStop, hstop, h⟩ := bind_eq_ok h
    obtain ⟨raw, hraw, h⟩ := bind_eq_ok h
    obtain ⟨⟨⟩, hlarge, h⟩ := bind_eq_ok h
    cases h
    obtain rfl := checkedAdd_eq_some (okOr_ok hstop)
    obtain ⟨hbody, hlen, -⟩ := slice_sound (okOr_ok hraw)
    have hlt := decode_lt raw
    have hencode := encode_decode raw
    rw [show raw.length = 8 by omega] at hlt hencode
    have hvalue := UInt64.toNat_ofNat_of_lt' hlt
    refine ⟨UInt64.ofNat (decode raw), hvalue, ?_⟩
    have hparts : amountParts (UInt64.ofNat (decode raw)) = (amountEscape, true) := by
      unfold amountParts compressAmount
      rw [hvalue, if_pos (ensure_ok hlarge)]
    rw [rawAmount, hparts, hvalue, hencode]
    rw [hescape, hbody] at hdrop
    exact hdrop
  · obtain ⟨amount, hamount, h⟩ := bind_eq_ok h
    cases h
    have hcompress := compressAmount_of_decompressAmount (okOr_ok hamount)
    have hle := (decompressAmount_sound (okOr_ok hamount)).1
    have hvalue : (UInt64.ofNat value).toNat = value := UInt64.toNat_ofNat_of_lt' (lt_of_le_of_lt hle (by decide))
    refine ⟨UInt64.ofNat value, hvalue, ?_⟩
    have hparts : amountParts (UInt64.ofNat value) = (code, false) := by
      unfold amountParts
      rw [hvalue, hcompress]
    rw [rawAmount, hparts, if_neg Bool.false_ne_true, append_nil]
    exact hdrop

lemma packHeight_of_packed {packed : ℕ} (h : packed / 2 < 2 ^ 32) :
    packHeight (UInt32.ofNat (packed / 2)) (packed % 2 == 1) = packed := by
  rw [packHeight]
  rcases mod_two_eq_zero_or_one packed with hmod | hmod <;> rw [hmod] <;> simp <;> omega

lemma decodeOutputAt_sound {index start next : ℕ} {part : OutputParts}
    (h : decodeOutputAt bytes layout index start = .ok (part, next)) :
    layout.voutAt bytes index = .ok part.vout ∧ layout.payloadLenAt bytes index = .ok (payload part).length ∧
      bytes.drop start = payload part ++ bytes.drop next ∧ next = start + (payload part).length ∧
      next ≤ bytes.length ∧ part.script.length < 2 ^ 16 := by
  obtain ⟨vout, hvout, h⟩ := bind_eq_ok h
  obtain ⟨len, hlen, h⟩ := bind_eq_ok h
  obtain ⟨stop, hstop, h⟩ := bind_eq_ok h
  obtain ⟨body, hbody, h⟩ := bind_eq_ok h
  obtain ⟨⟨value, at₁⟩, hamount, h⟩ := bind_eq_ok h
  obtain ⟨⟨packed, at₂⟩, hpacked, h⟩ := bind_eq_ok h
  obtain ⟨⟨⟩, hheight, h⟩ := bind_eq_ok h
  obtain ⟨script, hscript, h⟩ := bind_eq_ok h
  obtain ⟨⟨⟩, hshort, h⟩ := bind_eq_ok h
  cases h
  obtain ⟨amount, hvalue, hfront⟩ := decodeAmount_sound hamount
  obtain ⟨-, hmiddle, -⟩ := readVarint_sound (lift_eq_ok hpacked)
  obtain ⟨hback, -, -⟩ := slice_sound (okOr_ok hscript)
  obtain ⟨hdrop, hlength, hfits⟩ := slice_sound (okOr_ok hbody)
  rw [List.drop_length, append_nil] at hback
  rw [hmiddle, hback] at hfront
  have hwhole : body = payload ⟨vout, UInt64.ofNat value, script, packed % 2 == 1, UInt32.ofNat (packed / 2)⟩ := by
    rw [payload, packHeight_of_packed (ensure_ok hheight), ← hvalue, UInt64.ofNat_toNat, append_assoc _ _ script]
    exact hfront
  rw [← hwhole]
  obtain rfl := checkedAdd_eq_some (okOr_ok hstop)
  obtain rfl : len = body.length := by omega
  exact ⟨hvout, hlen, hdrop, rfl, hfits, ensure_ok hshort⟩

end

variable {passed : List UInt32}

section

variable {bytes : Bytes} {layout : V5Layout}

def Tracks (bytes : Bytes) (layout : V5Layout) (seen : Option (List UInt32)) (passed : List UInt32) : Prop :=
  match seen with
  | some set => ∀ vout, vout ∈ set ↔ vout ∈ passed
  | none => ∀ index vout, passed[index]? = some vout → layout.voutAt bytes index = .ok vout

lemma rejectPrior_eq (vout : UInt32)
    (h : ∀ index vout, passed[index]? = some vout → layout.voutAt bytes index = .ok vout) (indices : List ℕ)
    (hindices : ∀ index ∈ indices, index < passed.length) :
    rejectPrior bytes layout vout indices =
      if ∃ index ∈ indices, passed[index]? = some vout then .error (.error .corruptRecord) else .ok () := by
  induction indices with
  | nil => simp [rejectPrior]
  | cons index rest ih =>
    have hlt := hindices index mem_cons_self
    have hrest := ih fun other hother => hindices other (List.mem_cons_of_mem _ hother)
    rw [rejectPrior, h index passed[index] (List.getElem?_eq_getElem hlt), ok_bind]
    by_cases hsame : passed[index] = vout
    · rw [ensure_of_not _ (not_not.mpr hsame), error_bind, if_pos]
      exact ⟨index, mem_cons_self, by rw [List.getElem?_eq_getElem hlt, hsame]⟩
    · rw [ensure_of _ hsame, hrest]
      simp [hlt, hsame]

lemma exists_range_getElem? : (∃ index ∈ range passed.length, passed[index]? = some vout) ↔ vout ∈ passed := by
  rw [List.mem_iff_getElem?]
  constructor
  · rintro ⟨index, -, h⟩
    exact ⟨index, h⟩
  · rintro ⟨index, h⟩
    exact ⟨index, List.mem_range.mpr (List.getElem?_eq_some_iff.mp h).1, h⟩

lemma rejectRepeated_cases {seen : Option (List UInt32)} (h : Tracks bytes layout seen passed)
    (hvout : layout.voutAt bytes passed.length = .ok vout) :
    (vout ∈ passed ∧ rejectRepeated bytes layout seen passed.length vout = .error (.error .corruptRecord)) ∨
      (vout ∉ passed ∧ ∃ seen', rejectRepeated bytes layout seen passed.length vout = .ok seen' ∧
        Tracks bytes layout seen' (passed ++ [vout])) := by
  cases seen with
  | some set =>
    have hset : ∀ vout, vout ∈ set ↔ vout ∈ passed := h
    by_cases hmem : vout ∈ passed
    · refine .inl ⟨hmem, ?_⟩
      rw [rejectRepeated, ensure_of_not _ (not_not.mpr ((hset vout).mpr hmem)), error_bind]
    · refine .inr ⟨hmem, some (vout :: set), ?_, fun other => ?_⟩
      · have hnew : vout ∉ set := fun hin => hmem ((hset vout).mp hin)
        rw [rejectRepeated, ensure_of _ hnew, ok_bind, pure_eq_ok]
      · rw [List.mem_cons, List.mem_append, List.mem_singleton, hset, or_comm]
  | none =>
    have hread : ∀ index vout, passed[index]? = some vout → layout.voutAt bytes index = .ok vout := h
    have hprior := rejectPrior_eq vout hread (range passed.length) (fun index hi => List.mem_range.mp hi)
    by_cases hmem : vout ∈ passed
    · refine .inl ⟨hmem, ?_⟩
      rw [rejectRepeated, hprior, if_pos (exists_range_getElem?.mpr hmem), error_bind]
    · refine .inr ⟨hmem, none, ?_, fun index other hother => ?_⟩
      · rw [rejectRepeated, hprior, if_neg (mt exists_range_getElem?.mp hmem), ok_bind, pure_eq_ok]
      · rcases lt_or_ge index passed.length with hlt | hge
        · rw [List.getElem?_append_left hlt] at hother
          exact hread index other hother
        · rw [List.getElem?_append_right hge, List.getElem?_singleton] at hother
          split_ifs at hother with hzero
          cases hother
          rw [show index = passed.length by omega]
          exact hvout

variable (bytes layout) in
lemma tracks_start : Tracks bytes layout (Scan.start layout).seen [] := by
  unfold Scan.start
  split_ifs
  · exact fun vout => Iff.rfl
  · intro index vout h
    cases h

end

section

variable {bytes : Bytes} {layout : V5Layout}

structure Scanned (bytes : Bytes) (layout : V5Layout) (index : ℕ) (scan scan' : Scan) (parts : List OutputParts) :
    Prop where
  vouts : bytes.drop (layout.voutDir + index * layout.voutWidth) =
    parts.flatMap (fun part => encode layout.voutWidth part.vout.toNat) ++
      bytes.drop (layout.voutDir + (index + parts.length) * layout.voutWidth)
  lens : bytes.drop (layout.lenDir + index * layout.lenWidth) =
    parts.flatMap (fun part => encode layout.lenWidth (payload part).length) ++
      bytes.drop (layout.lenDir + (index + parts.length) * layout.lenWidth)
  payloads : bytes.drop scan.cursor = parts.flatMap payload ++ bytes.drop scan'.cursor
  vout_lt : ∀ part ∈ parts, part.vout.toNat < 256 ^ layout.voutWidth
  len_lt : ∀ part ∈ parts, (payload part).length < 256 ^ layout.lenWidth
  script_lt : ∀ part ∈ parts, part.script.length < 2 ^ 16
  maxVout_eq : scan'.maxVout = max scan.maxVout (widest voutOf parts)
  maxLen_eq : scan'.maxLen = max scan.maxLen (widest lenOf parts)

lemma Scanned.nil (index : ℕ) (scan : Scan) : Scanned bytes layout index scan scan [] :=
  ⟨rfl, rfl, rfl, by simp, by simp, by simp, (max_zero _).symm, (max_zero _).symm⟩

lemma Scanned.cons {scan mid scan' : Scan} {part : OutputParts} {rest : List OutputParts}
    (h : Scanned bytes layout index scan mid [part]) (h' : Scanned bytes layout (index + 1) mid scan' rest) :
    Scanned bytes layout index scan scan' (part :: rest) := by
  have hindex : index + (part :: rest).length = index + 1 + rest.length := by
    rw [List.length_cons]
    omega
  refine ⟨?_, ?_, ?_, ?_, ?_, ?_, ?_, ?_⟩
  · rw [h.vouts, flatMap_singleton, List.length_singleton, h'.vouts, hindex, flatMap_cons, append_assoc]
  · rw [h.lens, flatMap_singleton, List.length_singleton, h'.lens, hindex, flatMap_cons, append_assoc]
  · rw [h.payloads, flatMap_singleton, h'.payloads, flatMap_cons, append_assoc]
  · exact List.forall_mem_cons.mpr ⟨h.vout_lt part mem_cons_self, h'.vout_lt⟩
  · exact List.forall_mem_cons.mpr ⟨h.len_lt part mem_cons_self, h'.len_lt⟩
  · exact List.forall_mem_cons.mpr ⟨h.script_lt part mem_cons_self, h'.script_lt⟩
  · rw [h'.maxVout_eq, h.maxVout_eq, widest, widest, widest, max_zero, max_assoc]
  · rw [h'.maxLen_eq, h.maxLen_eq, widest, widest, widest, max_zero, max_assoc]

variable {scan scan' : Scan} (htracks : Tracks bytes layout scan.seen passed)

include htracks

lemma validateOutput_sound (h : validateOutput bytes layout scan passed.length = .ok scan') :
    ∃ part, Scanned bytes layout passed.length scan scan' [part] ∧ part.vout ∉ passed ∧
      Tracks bytes layout scan'.seen (passed ++ [part.vout]) := by
  obtain ⟨vout, hvout, h⟩ := bind_eq_ok h
  obtain ⟨seen, hseen, h⟩ := bind_eq_ok h
  obtain ⟨len, hlen, h⟩ := bind_eq_ok h
  obtain ⟨⟨part, next⟩, hpart, h⟩ := bind_eq_ok h
  cases h
  obtain ⟨hvout', hlen', hpayload, -, -, hscript⟩ := decodeOutputAt_sound hpart
  rw [hvout] at hvout'
  rw [hlen] at hlen'
  cases hvout'
  cases hlen'
  obtain ⟨hvouts, hvoutLt⟩ := voutAt_sound hvout
  obtain ⟨hlens, hlenLt⟩ := payloadLenAt_sound hlen
  refine ⟨part, ⟨?_, ?_, ?_, by simpa using hvoutLt, by simpa using hlenLt, by simpa using hscript, ?_, ?_⟩, ?_⟩
  · rwa [flatMap_singleton]
  · rwa [flatMap_singleton]
  · rwa [flatMap_singleton]
  · rw [widest, widest, max_zero]
  · rw [widest, widest, max_zero]
  · rcases rejectRepeated_cases htracks hvout with ⟨-, hreject⟩ | ⟨hnew, seen', haccept, htracks'⟩
    · rw [hreject] at hseen
      cases hseen
    · rw [haccept] at hseen
      cases hseen
      exact ⟨hnew, htracks'⟩

lemma validateLoop_sound {remaining : ℕ}
    (hpassed : passed.Nodup) (h : validateLoop bytes layout remaining passed.length scan = .ok scan') :
    ∃ parts, parts.length = remaining ∧ Scanned bytes layout passed.length scan scan' parts ∧
      (passed ++ parts.map OutputParts.vout).Nodup := by
  induction remaining generalizing scan passed with
  | zero =>
    cases h
    exact ⟨[], rfl, Scanned.nil _ _, by simpa using hpassed⟩
  | succ remaining ih =>
    obtain ⟨mid, hmid, h⟩ := bind_eq_ok h
    obtain ⟨part, hscanned, hnew, htracks'⟩ := validateOutput_sound htracks hmid
    have hnodup : (passed ++ [part.vout]).Nodup :=
      List.nodup_append'.mpr ⟨hpassed, List.nodup_singleton _, by simpa using hnew⟩
    have hlen : (passed ++ [part.vout]).length = passed.length + 1 := by simp
    rw [← hlen] at h
    obtain ⟨rest, hrest, hscanned', hnodup'⟩ := ih htracks' hnodup h
    rw [hlen] at hscanned'
    refine ⟨part :: rest, by rw [List.length_cons, hrest], hscanned.cons hscanned', ?_⟩
    rwa [List.map_cons, List.append_cons]

end

section

variable {bytes : Bytes}

lemma drop_of_getElem? {byte : UInt8} (h : bytes[index]? = some byte) :
    bytes.drop index = byte :: bytes.drop (index + 1) := by
  obtain ⟨hlt, rfl⟩ := List.getElem?_eq_some_iff.mp h
  exact List.drop_eq_getElem_cons hlt

variable {header : RecordHeader}

lemma decodeHeader_sound (h : decodeHeader bytes = .ok header) :
    bytes = header.txid.bytes ++ (encode 4 header.outputCount ++ (UInt8.ofNat header.inlineLen :: bytes.drop 37)) ∧
      header.outputCount < 2 ^ 32 ∧ header.inlineLen ≤ inlineCapacity ∧ header.inlineLen ≤ header.outputCount := by
  obtain ⟨txid, htxid, h⟩ := bind_eq_ok h
  obtain ⟨count, hcount, h⟩ := bind_eq_ok h
  obtain ⟨inline, hinline, h⟩ := bind_eq_ok h
  obtain ⟨⟨⟩, hbounds, h⟩ := bind_eq_ok h
  cases h
  obtain ⟨front, hfront, htxid⟩ := Option.bind_eq_some_iff.mp (okOr_ok htxid)
  obtain ⟨hdrop, -, -⟩ := slice_sound hfront
  unfold hash256OfBytes at htxid
  split_ifs at htxid
  cases htxid
  obtain ⟨hcountDrop, hcountLt⟩ := readWidth_sound (okOr_ok hcount)
  have hinlineDrop := drop_of_getElem? (okOr_ok hinline)
  refine ⟨?_, hcountLt, ensure_ok hbounds⟩
  rw [List.drop_zero] at hdrop
  rw [UInt8.ofNat_toNat]
  conv_lhs => rw [hdrop]
  exact congrArg (front ++ ·) (hcountDrop.trans (congrArg (encode 4 count ++ ·) hinlineDrop))

variable {layout : V5Layout}

lemma layoutNew_sound {count voutWidth lenWidth : ℕ} (h : V5Layout.new count voutWidth lenWidth = .ok layout) :
    layout = ⟨count, voutWidth, lenWidth, 38, 38 + count * voutWidth,
      38 + count * voutWidth + count * lenWidth⟩ := by
  obtain ⟨lenDir, hlenDir, h⟩ := bind_eq_ok h
  obtain ⟨payloads, hpayloads, h⟩ := bind_eq_ok h
  cases h
  rw [dirOffset_sound (okOr_ok hpayloads), dirOffset_sound (okOr_ok hlenDir)]
  rfl

lemma layoutRead_sound {count : ℕ} (h : V5Layout.read bytes count = .ok layout) :
    bytes.drop 37 = packWidths layout.voutWidth layout.lenWidth :: bytes.drop 38 ∧
      (1 ≤ layout.voutWidth ∧ layout.voutWidth ≤ 4) ∧ (1 ≤ layout.lenWidth ∧ layout.lenWidth ≤ 4) ∧
      layout = ⟨count, layout.voutWidth, layout.lenWidth, 38, 38 + count * layout.voutWidth,
        38 + count * layout.voutWidth + count * layout.lenWidth⟩ := by
  obtain ⟨widths, hwidths, h⟩ := bind_eq_ok h
  obtain ⟨⟨⟩, hbounds, h⟩ := bind_eq_ok h
  have hdrop := drop_of_getElem? (okOr_ok hwidths)
  have hpack : packWidths (widths.toNat % 16) (widths.toNat / 16) = widths := by
    rw [packWidths, div_add_mod', UInt8.ofNat_toNat]
  obtain rfl := layoutNew_sound h
  exact ⟨hpack.symm ▸ hdrop, (ensure_ok hbounds).1, (ensure_ok hbounds).2, rfl⟩

lemma validateEncoded_sound (h : validateEncoded bytes = .ok header) :
    ∃ pk : Packing, pk.image = bytes ∧ pk.Tight ∧ Distinct OutputParts.vout pk.parts ∧ pk.txid = header.txid ∧
      pk.inlineLen = header.inlineLen := by
  obtain ⟨header', hheader, h⟩ := bind_eq_ok h
  obtain ⟨layout, hlayout, h⟩ := bind_eq_ok h
  obtain ⟨scan, hscan, h⟩ := bind_eq_ok h
  obtain ⟨⟨⟩, hwidths, h⟩ := bind_eq_ok h
  obtain ⟨⟨⟩, hend, h⟩ := bind_eq_ok h
  cases h
  obtain ⟨hhead, hcount, hcapacity, hinline⟩ := decodeHeader_sound hheader
  obtain ⟨hwidthByte, hvoutWidth, hlenWidth, hlayoutEq⟩ := layoutRead_sound hlayout
  obtain ⟨parts, hlength, hscanned, hdistinct⟩ := validateLoop_sound (tracks_start bytes layout) List.nodup_nil hscan
  have hparts : parts.length = header.outputCount := by rw [hlength, hlayoutEq]
  obtain ⟨hmaxVout, hmaxLen⟩ := ensure_ok hwidths
  rw [hscanned.maxVout_eq] at hmaxVout
  rw [hscanned.maxLen_eq] at hmaxLen
  let pk : Packing :=
    { txid := header.txid, inlineLen := header.inlineLen, voutWidth := layout.voutWidth, lenWidth := layout.lenWidth
      parts, inlineLen_le_capacity := hcapacity, inlineLen_le_length := hparts ▸ hinline
      length_lt := hparts ▸ hcount, script_lt := hscanned.script_lt
      voutWidth_pos := hvoutWidth.1, voutWidth_le := hvoutWidth.2
      lenWidth_pos := hlenWidth.1, lenWidth_le := hlenWidth.2
      vout_lt := hscanned.vout_lt, len_lt := hscanned.len_lt }
  refine ⟨pk, ?_, ⟨hmaxVout.symm, hmaxLen.symm⟩, hdistinct, rfl, rfl⟩
  have hvouts := hscanned.vouts
  have hlens := hscanned.lens
  have hpayloads := hscanned.payloads
  rw [ensure_ok hend, List.drop_length, append_nil] at hpayloads
  rw [hlayoutEq] at hvouts hlens hpayloads
  simp only [List.length_nil, zero_mul, add_zero, zero_add, hparts, Scan.start_cursor] at hvouts hlens hpayloads
  have himage := pk.image_eq
  simp only [pk, Packing.voutTable, Packing.lenTable, Packing.body] at himage
  rw [himage, hparts, ← hpayloads, ← hlens, ← hvouts, ← hwidthByte, ← hhead]

namespace Packing

variable (pk : Packing)

lemma validateOutput_image {scan : Scan} {i : ℕ} (hi : i < pk.parts.length)
    (htracks : Tracks pk.image pk.layout scan.seen ((pk.parts.take i).map OutputParts.vout))
    (hnew : pk.parts[i].vout ∉ (pk.parts.take i).map OutputParts.vout)
    (hcursor : scan.cursor = pk.layout.payloads + offset payload pk.parts i) :
    ∃ seen, validateOutput pk.image pk.layout scan i =
        .ok ⟨seen, max scan.maxVout pk.parts[i].vout.toNat, max scan.maxLen (payload pk.parts[i]).length,
          pk.layout.payloads + offset payload pk.parts (i + 1)⟩ ∧
      Tracks pk.image pk.layout seen ((pk.parts.take (i + 1)).map OutputParts.vout) := by
  have hlen : ((pk.parts.take i).map OutputParts.vout).length = i := by
    rw [List.length_map, List.length_take]
    omega
  have hvout := pk.layout_voutAt i hi
  have hcases := rejectRepeated_cases htracks (by rw [hlen]; exact hvout)
  rw [hlen] at hcases
  rcases hcases with ⟨hmem, -⟩ | ⟨-, seen, hseen, htracks'⟩
  · exact absurd hmem hnew
  · refine ⟨seen, ?_, ?_⟩
    · simp [validateOutput, hvout, ok_bind, hseen, pk.layout_payloadLenAt i hi, hcursor, pk.decodeOutputAt_image i hi]
    · rwa [List.take_succ_eq_append_getElem hi, List.map_append]

lemma validateLoop_image (hdistinct : Distinct OutputParts.vout pk.parts) {n i : ℕ} (hi : i + n = pk.parts.length)
    (scan : Scan) (htracks : Tracks pk.image pk.layout scan.seen ((pk.parts.take i).map OutputParts.vout))
    (hcursor : scan.cursor = pk.layout.payloads + offset payload pk.parts i) :
    ∃ seen, validateLoop pk.image pk.layout n i scan =
      .ok ⟨seen, max scan.maxVout (widest voutOf (pk.parts.drop i)), max scan.maxLen (widest lenOf (pk.parts.drop i)),
        pk.image.length⟩ := by
  induction n generalizing i scan with
  | zero =>
    have hoffset : offset payload pk.parts i = pk.body.length := by
      rw [offset, List.take_of_length_le (by omega), body]
    rw [List.drop_eq_nil_of_le (by omega), widest, widest, max_zero, max_zero, pk.length_image, ← hoffset, ← hcursor]
    exact ⟨scan.seen, rfl⟩
  | succ n ih =>
    have hlt : i < pk.parts.length := by omega
    have hnew : pk.parts[i].vout ∉ (pk.parts.take i).map OutputParts.vout := by
      have hnodup : (pk.parts.map OutputParts.vout).Nodup := hdistinct
      rw [← List.take_append_drop i pk.parts, List.map_append, List.drop_eq_getElem_cons hlt] at hnodup
      exact fun hmem => (List.nodup_append'.mp hnodup).2.2 hmem mem_cons_self
    obtain ⟨seen, hstep, htracks'⟩ := pk.validateOutput_image hlt htracks hnew hcursor
    obtain ⟨last, hloop⟩ := ih (by omega) ⟨seen, _, _, _⟩ htracks' rfl
    refine ⟨last, ?_⟩
    rw [validateLoop, hstep, ok_bind, hloop, List.drop_eq_getElem_cons hlt, widest, widest, max_assoc, max_assoc]

lemma validateEncoded_image (htight : pk.Tight) (hdistinct : Distinct OutputParts.vout pk.parts) :
    validateEncoded pk.image = .ok ⟨pk.txid, pk.parts.length, pk.inlineLen⟩ := by
  obtain ⟨seen, hloop⟩ := pk.validateLoop_image hdistinct (zero_add pk.parts.length) (Scan.start pk.layout)
    (tracks_start pk.image pk.layout) (by rw [offset_zero, add_zero, Scan.start_cursor])
  simp only [validateEncoded, pk.decodeHeader_image, ok_bind, pk.read_image]
  rw [show pk.layout.count = pk.parts.length from rfl, hloop, ok_bind,
    ensure_of _ ⟨htight.voutWidth_eq.symm, htight.lenWidth_eq.symm⟩, ok_bind, ensure_of _ rfl, ok_bind,
    pure_eq_ok]

end Packing

end

namespace UtxoRecord

lemma fromEncoded_image (pk : Packing) (htight : pk.Tight) (hdistinct : Distinct OutputParts.vout pk.parts) :
    fromEncoded pk.image = .ok pk.record := by
  rw [fromEncoded, pk.validateEncoded_image htight hdistinct]
  rfl

variable {record : UtxoRecord}

lemma fromEncoded_sound {buf : Bytes} (h : fromEncoded buf = .ok record) :
    ∃ pk : Packing, pk.record = record ∧ pk.image = buf ∧ pk.Tight ∧ Distinct OutputParts.vout pk.parts := by
  obtain ⟨header, hheader, hrecord⟩ := bind_eq_ok h
  cases hrecord
  obtain ⟨pk, himage, htight, hdistinct, -, -⟩ := validateEncoded_sound hheader
  exact ⟨pk, congrArg UtxoRecord.mk himage, himage, htight, hdistinct⟩

variable {outputs : List OutputParts}

lemma fromOwnedOutputs_ok (txid : Hash256)
    (hdistinct : Distinct OutputParts.vout outputs) (hscripts : ScriptsFit outputs)
    (hcount : outputs.length < 2 ^ 32) :
    ∃ pk : Packing, fromOwnedOutputs txid outputs = .ok pk.record ∧ pk.Tight ∧ pk.txid = txid ∧ pk.parts = outputs := by
  obtain ⟨pk, htight, htxid, -, hparts, hencode⟩ := encodeRecord_eq txid (min outputs.length inlineCapacity) outputs
    hscripts hcount ⟨Nat.min_le_right _ _, Nat.min_le_left _ _⟩
  refine ⟨pk, ?_, htight, htxid, hparts⟩
  rw [fromOwnedOutputs, hencode, ok_bind, fromEncoded_image pk htight (hparts ▸ hdistinct)]

lemma length_lt_of_fromOwnedOutputs {txid : Hash256}
    (h : fromOwnedOutputs txid outputs = .ok record) : outputs.length < 2 ^ 32 := by
  obtain ⟨buf, hbuf, -⟩ := bind_eq_ok h
  exact (encodeRecord_bounds hbuf).1

/-- Any list of outputs that a count can number comes back from its record in order, and what the check accepts is
the encoding of the outputs read from it. -/
theorem packed_record_bijective :
    (∀ (txid : Hash256) (outputs : List OutputParts), outputs ≠ [] → Distinct OutputParts.vout outputs →
      (∀ output ∈ outputs, output.script.length ≤ 65535) →
        ((∃ record, fromOwnedOutputs txid outputs = .ok record ∧ record.ownTxid = .ok txid ∧
          record.outputs = .ok outputs) ↔ outputs.length < 2 ^ 32)) ∧
      ∀ (buf : Bytes) (record : UtxoRecord), fromEncoded buf = .ok record →
        ∃ header outputs, record.header = .ok header ∧ record.outputs = .ok outputs ∧
          encodeRecord header.txid header.inlineLen outputs = .ok buf := by
  refine ⟨fun txid outputs _ hdistinct hscripts => ⟨?_, fun hcount => ?_⟩, fun buf record h => ?_⟩
  · rintro ⟨record, hrecord, -⟩
    exact length_lt_of_fromOwnedOutputs hrecord
  · obtain ⟨pk, hrecord, -, rfl, rfl⟩ := fromOwnedOutputs_ok txid hdistinct
      (fun output houtput => lt_succ_of_le (hscripts output houtput)) hcount
    exact ⟨pk.record, hrecord, pk.record_ownTxid, pk.record_outputs⟩
  · obtain ⟨pk, rfl, rfl, htight, -⟩ := fromEncoded_sound h
    exact ⟨_, _, pk.record_header, pk.record_outputs, htight.encodeRecord_image⟩

def sampleOutputs : List OutputParts :=
  [⟨0, 5000000000, [0x51], true, 1⟩, ⟨300, 18446744073709551615, [0x52, 0x53], false, 700000⟩]

theorem packed_record_bijective_sample :
    ∃ record, fromOwnedOutputs .zero sampleOutputs = .ok record ∧ record.ownTxid = .ok .zero ∧
      record.outputs = .ok sampleOutputs :=
  (packed_record_bijective.1 .zero sampleOutputs (by decide) (show List.Nodup _ by decide) (by decide)).mpr
    (by decide)

def outputRange (n : ℕ) : List OutputParts := (range n).map fun vout => ⟨UInt32.ofNat vout, 0, [], false, 0⟩

lemma length_outputRange (n : ℕ) : (outputRange n).length = n := by rw [outputRange, List.length_map, List.length_range]

lemma distinct_outputRange {n : ℕ} (hn : n ≤ 2 ^ 32) : Distinct OutputParts.vout (outputRange n) := by
  rw [Distinct, outputRange, List.map_map]
  exact nodup_vouts hn

/-- All the vouts there are make one output too many. -/
theorem full_record_refused :
    outputRange (2 ^ 32) ≠ [] ∧ Distinct OutputParts.vout (outputRange (2 ^ 32)) ∧
      (∀ output ∈ outputRange (2 ^ 32), output.script.length ≤ 65535) ∧
      ∀ record, fromOwnedOutputs .zero (outputRange (2 ^ 32)) ≠ .ok record := by
  refine ⟨fun hnil => ?_, distinct_outputRange le_rfl, fun output houtput => ?_, fun record h => ?_⟩
  · have hlen := length_outputRange (2 ^ 32)
    rw [hnil] at hlen
    exact absurd hlen (by decide)
  · obtain ⟨vout, -, rfl⟩ := List.mem_map.mp houtput
    exact Nat.zero_le _
  · have hlt := length_lt_of_fromOwnedOutputs h
    rw [length_outputRange] at hlt
    exact Nat.lt_irrefl _ hlt

end UtxoRecord

end BitcoinRs.Utxo
