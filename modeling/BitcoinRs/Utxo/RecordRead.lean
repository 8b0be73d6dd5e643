import BitcoinRs.Utxo.Record

namespace BitcoinRs.Utxo

open LittleEndian ByteTable Fallible List Nat UtxoRecord
open UInt8 (ofNat)
open Option (bind_some)

abbrev ScriptsFit (parts : List OutputParts) : Prop := ∀ part ∈ parts, part.script.length < 2 ^ 16

variable (value : UInt64)

lemma amountParts_spec :
    (∃ c, amountParts value = (c, false) ∧ c < amountEscape ∧ decompressAmount c = some value.toNat) ∨
      (amountParts value = (amountEscape, true) ∧ maxCompressibleAmount < value.toNat) := by
  by_cases hv : value.toNat ≤ maxCompressibleAmount
  · obtain ⟨c, hc, hlt, hd⟩ := compressAmount_spec value.toNat hv
    exact Or.inl ⟨c, by simp [amountParts, hc], by simpa [amountEscape] using hlt, hd⟩
  · have herr : compressAmount value.toNat = .error (.amountOutOfRange value.toNat) := by
      rw [compressAmount, if_pos (by omega)]
    exact Or.inr ⟨by simp [amountParts, herr], by omega⟩

lemma amountParts_lt : (amountParts value).1 < 2 ^ 64 := by
  rcases amountParts_spec value with ⟨c, hc, hlt, _⟩ | ⟨hc, _⟩
  · rw [hc]
    simp only [amountEscape] at hlt
    omega
  · rw [hc]
    decide

lemma packHeight_lt (height : UInt32) (coinbase : Bool) : packHeight height coinbase < 2 ^ 33 := by
  have := height.toNat_lt
  have hc : coinbase.toNat ≤ 1 := Bool.toNat_le coinbase
  rw [packHeight]
  omega

def rawAmount (value : UInt64) : Bytes :=
  if (amountParts value).2 then encode 8 value.toNat else []

def payload (part : OutputParts) : Bytes :=
  varint (amountParts part.value).1 ++ rawAmount part.value ++
    varint (packHeight part.height part.coinbase) ++ part.script

lemma length_packHeight_le (height : UInt32) (coinbase : Bool) : (varint (packHeight height coinbase)).length ≤ 5 :=
  Leb128.length_encode_le_of_lt _ 4 _ (by have := packHeight_lt height coinbase; omega)

lemma length_rawAmount_le : (rawAmount value).length ≤ 8 := by
  rw [rawAmount]
  split_ifs <;> simp

variable (part : OutputParts)

lemma length_payload_le (hs : part.script.length < 2 ^ 16) : (payload part).length ≤ 65558 := by
  have h1 := length_varint_le (amountParts part.value).1
  have h2 := length_rawAmount_le part.value
  have h3 := length_packHeight_le part.height part.coinbase
  simp only [payload, length_append]
  omega

lemma payloadLen_eq (hs : part.script.length < 2 ^ 16) : part.payloadLen = .ok (payload part).length := by
  have ha := varintLen_eq _ (amountParts_lt part.value)
  have hp := varintLen_eq (packHeight part.height part.coinbase)
    (by have := packHeight_lt part.height part.coinbase; omega)
  have hraw : (rawAmount part.value).length = if (amountParts part.value).2 then 8 else 0 := by
    rw [rawAmount]
    split_ifs <;> simp
  have hle := length_payload_le part hs
  simp only [payload, length_append, hraw] at hle ⊢
  rw [OutputParts.payloadLen]
  simp only [ensure_of _ hs, ok_bind, ha, hp, checkedAdd]
  rw [if_pos (by omega), okOr_some]

lemma slice_zero (bytes : Bytes) (n : ℕ) (hn : n ≤ bytes.length) : slice bytes 0 n = some (bytes.take n) := by
  simp [slice, hn]

lemma slice_of_drop (bytes mid post : Bytes) (start : ℕ) (h : bytes.drop start = mid ++ post)
    (hs : start ≤ bytes.length) : slice bytes start (start + mid.length) = some mid := by
  have hl := congrArg length h
  simp only [length_drop, length_append] at hl
  rw [slice, if_pos ⟨by omega, by omega⟩, h, Nat.add_sub_cancel_left, take_left]

lemma writeRawAmount_eq (prologue : Bytes) (at₁ : ℕ) (hl : at₁ + 8 ≤ prologue.length)
    (hfit : prologue.length < 2 ^ 63) :
    ∃ out, writeRawAmount (amountParts value).2 value prologue at₁ =
        .ok (out, at₁ + (rawAmount value).length) ∧
      out.take (at₁ + (rawAmount value).length) = prologue.take at₁ ++ rawAmount value ∧
      out.length = prologue.length := by
  rw [rawAmount, writeRawAmount]
  split_ifs with he
  · have hadd : checkedAdd at₁ 8 = some (at₁ + 8) := if_pos (by omega)
    have hslice : slice prologue at₁ (at₁ + 8) = some ((prologue.drop at₁).take (at₁ + 8 - at₁)) :=
      if_pos ⟨by omega, hl⟩
    have hlen : (prologue.take at₁ ++ encode 8 value.toNat).length = at₁ + 8 := by
      simp only [length_append, length_take, length_encode]
      omega
    refine ⟨prologue.take at₁ ++ encode 8 value.toNat ++ prologue.drop (at₁ + 8), ?_, ?_, ?_⟩
    · simp [hadd, hslice]
    · rw [length_encode, take_left' hlen]
    · rw [length_append, length_drop]
      omega
  · exact ⟨prologue, rfl, by simp, rfl⟩

lemma writePayload_eq (buf : Bytes) (part : OutputParts) (hs : part.script.length < 2 ^ 16) :
    writePayload buf part = .ok (buf ++ payload part) := by
  have ha := length_varint_le (amountParts part.value).1
  have hr := length_rawAmount_le part.value
  have hp := length_packHeight_le part.height part.coinbase
  obtain ⟨out₁, hw₁, ht₁, hl₁⟩ := writeVarintAt_take (amountParts part.value).1 0
    (replicate payloadPrologueMaxLen 0) (amountParts_lt part.value)
    (by simp only [length_replicate, payloadPrologueMaxLen, varintMaxLen]; omega)
  simp only [zero_add, take_zero, nil_append, length_replicate] at hw₁ ht₁ hl₁
  have hfull : out₁.length = 23 := hl₁
  obtain ⟨out₂, hw₂, ht₂, hl₂⟩ := writeRawAmount_eq part.value out₁ (varint (amountParts part.value).1).length
    (by omega) (by omega)
  obtain ⟨out₃, hw₃, ht₃, hl₃⟩ := writeVarintAt_take (packHeight part.height part.coinbase)
    ((varint (amountParts part.value).1).length + (rawAmount part.value).length) out₂
    (by have := packHeight_lt part.height part.coinbase; omega) (by omega)
  have hslice := slice_zero out₃ ((varint (amountParts part.value).1).length +
    (rawAmount part.value).length + (varint (packHeight part.height part.coinbase)).length) (by omega)
  rw [ht₃, ht₂, ht₁] at hslice
  rw [writePayload]
  simp only [ensure_of _ hs, ok_bind, hw₁, hw₂, hw₃, okOr_some, hslice, pure_eq_ok, payload, append_assoc]

lemma writePayloads_eq (parts : List OutputParts) (buf : Bytes) (hs : ScriptsFit parts) :
    writePayloads parts buf = .ok (buf ++ parts.flatMap payload) := by
  induction parts generalizing buf with
  | nil => simp [writePayloads]
  | cons part rest ih =>
    rw [writePayloads, writePayload_eq buf part (hs part (by simp)), ok_bind,
      ih _ (fun p hp => hs p (by simp [hp])), flatMap_cons, append_assoc]

variable (value : ℕ)

lemma widthFor_pos : 1 ≤ widthFor value := by
  unfold widthFor maxDirWidth
  split_ifs <;> decide

lemma widthFor_le : widthFor value ≤ 4 := by
  unfold widthFor maxDirWidth
  split_ifs <;> decide

lemma lt_pow_widthFor (hv : value < 2 ^ 32) : value < 256 ^ widthFor value := by
  unfold widthFor maxDirWidth
  split_ifs <;> omega

lemma lt_pow_of_widthFor_le {value w : ℕ} (hv : value < 2 ^ 32) (hw : widthFor value ≤ w) : value < 256 ^ w :=
  lt_of_lt_of_le (lt_pow_widthFor value hv) (Nat.pow_le_pow_right (by decide) hw)

lemma pushDirEntries_eq (w : ℕ) (values : List ℕ) (buf : Bytes) (hw : w ≤ 8) :
    pushDirEntries w values buf = .ok (buf ++ values.flatMap (encode w)) := by
  induction values generalizing buf with
  | nil => simp [pushDirEntries]
  | cons value rest ih =>
    rw [pushDirEntries, pushDirEntry, if_pos hw, ok_bind, ih, take_encode 8 w value hw, flatMap_cons, append_assoc]

def widest (field : OutputParts → ℕ) : List OutputParts → ℕ
  | [] => 0
  | part :: rest => max (field part) (widest field rest)

variable {parts : List OutputParts}

section

variable {field : OutputParts → ℕ}

variable (field) in
lemma le_widest {part : OutputParts} (h : part ∈ parts) : field part ≤ widest field parts := by
  induction parts with
  | nil => cases h
  | cons first rest ih =>
    rcases mem_cons.mp h with rfl | h
    · exact le_max_left _ _
    · exact le_trans (ih h) (le_max_right _ _)

lemma widest_le {bound : ℕ} (h : ∀ part ∈ parts, field part ≤ bound) : widest field parts ≤ bound := by
  induction parts with
  | nil => exact zero_le _
  | cons first rest ih =>
    exact Nat.max_le.mpr ⟨h first mem_cons_self, ih fun part hp => h part (mem_cons_of_mem _ hp)⟩

lemma widest_append (front back : List OutputParts) :
    widest field (front ++ back) = max (widest field front) (widest field back) := by
  induction front with
  | nil => exact (zero_max _).symm
  | cons first rest ih => rw [cons_append, widest, widest, ih, max_assoc]

end

lemma widthFor_mono {a b : ℕ} (h : a ≤ b) : widthFor a ≤ widthFor b := by
  unfold widthFor maxDirWidth
  split_ifs <;> omega

lemma widthFor_max (a b : ℕ) : widthFor (max a b) = max (widthFor a) (widthFor b) := by
  rcases le_total a b with h | h
  · rw [max_eq_right h, max_eq_right (widthFor_mono h)]
  · rw [max_eq_left h, max_eq_left (widthFor_mono h)]

lemma widthFor_max_of_le {field : OutputParts → ℕ} {w a : ℕ} (hw : w = widthFor a)
    (h : ∀ part ∈ parts, widthFor (field part) ≤ w) : w = widthFor (max a (widest field parts)) := by
  rw [widthFor_max, ← hw]
  refine (max_eq_left ?_).symm
  induction parts with
  | nil =>
    rw [hw]
    exact widthFor_mono (zero_le a)
  | cons part rest ih =>
    rw [widest, widthFor_max]
    exact Nat.max_le.mpr ⟨h part mem_cons_self, ih fun other hother => h other (mem_cons_of_mem _ hother)⟩

abbrev voutOf (part : OutputParts) : ℕ := part.vout.toNat

abbrev lenOf (part : OutputParts) : ℕ := (payload part).length

structure Packing where
  txid : Hash256
  inlineLen : ℕ
  voutWidth : ℕ
  lenWidth : ℕ
  parts : List OutputParts
  inlineLen_le_capacity : inlineLen ≤ inlineCapacity
  inlineLen_le_length : inlineLen ≤ parts.length
  length_lt : parts.length < 2 ^ 32
  script_lt : ∀ part ∈ parts, part.script.length < 2 ^ 16
  voutWidth_pos : 1 ≤ voutWidth
  voutWidth_le : voutWidth ≤ 4
  lenWidth_pos : 1 ≤ lenWidth
  lenWidth_le : lenWidth ≤ 4
  vout_lt : ∀ part ∈ parts, part.vout.toNat < 256 ^ voutWidth
  len_lt : ∀ part ∈ parts, (payload part).length < 256 ^ lenWidth

namespace Packing

variable (pk : Packing)

def head : Bytes :=
  pk.txid.bytes ++ encode 4 pk.parts.length ++ [UInt8.ofNat pk.inlineLen] ++
    [packWidths pk.voutWidth pk.lenWidth]

def voutTable : Bytes := pk.parts.flatMap (fun part => encode pk.voutWidth part.vout.toNat)

def lenTable : Bytes := pk.parts.flatMap (fun part => encode pk.lenWidth (payload part).length)

def body : Bytes := pk.parts.flatMap payload

def image : Bytes := pk.head ++ (pk.voutTable ++ (pk.lenTable ++ pk.body))

def layout : V5Layout where
  count := pk.parts.length
  voutWidth := pk.voutWidth
  lenWidth := pk.lenWidth
  voutDir := 38
  lenDir := 38 + pk.parts.length * pk.voutWidth
  payloads := 38 + pk.parts.length * pk.voutWidth + pk.parts.length * pk.lenWidth

lemma length_head : pk.head.length = 38 := by
  simp [head, pk.txid.length_bytes]

lemma length_voutTable : pk.voutTable.length = pk.parts.length * pk.voutWidth :=
  length_flatMap_fixed _ _ (fun (part : OutputParts) => length_encode pk.voutWidth part.vout.toNat) _

lemma length_lenTable : pk.lenTable.length = pk.parts.length * pk.lenWidth :=
  length_flatMap_fixed _ _ (fun (part : OutputParts) => length_encode pk.lenWidth (payload part).length) _

lemma length_body_le : pk.body.length ≤ pk.parts.length * 65558 :=
  length_flatMap_le payload 65558 _ (fun part hp => length_payload_le part (pk.script_lt part hp))

lemma layout_payloads_le : pk.layout.payloads ≤ 38 + 2 ^ 32 * 8 := by
  have h1 := mul_le_mul pk.length_lt.le pk.voutWidth_le
  have h2 := mul_le_mul pk.length_lt.le pk.lenWidth_le
  simp only [layout]
  omega

lemma length_image : pk.image.length = pk.layout.payloads + pk.body.length := by
  simp only [image, length_append, length_head, length_voutTable, length_lenTable, layout]
  omega

lemma length_image_lt : pk.image.length < 2 ^ 49 := by
  have h1 := pk.layout_payloads_le
  have h2 := pk.length_body_le
  have h3 := mul_le_mul_right 65558 pk.length_lt.le
  rw [length_image]
  omega

lemma drop_voutDir : pk.image.drop pk.layout.voutDir = pk.voutTable ++ (pk.lenTable ++ pk.body) :=
  drop_left' pk.length_head

lemma drop_lenDir : pk.image.drop pk.layout.lenDir = pk.lenTable ++ pk.body := by
  rw [show pk.layout.lenDir = pk.layout.voutDir + pk.voutTable.length by
    rw [length_voutTable]; rfl, ← drop_drop, drop_voutDir, drop_left]

lemma drop_payloads : pk.image.drop pk.layout.payloads = pk.body := by
  rw [show pk.layout.payloads = pk.layout.lenDir + pk.lenTable.length by
    rw [length_lenTable]; rfl, ← drop_drop, drop_lenDir, drop_left]

lemma new_eq_layout : V5Layout.new pk.parts.length pk.voutWidth pk.lenWidth = .ok pk.layout := by
  have h1 := mul_le_mul pk.length_lt.le pk.voutWidth_le
  have h2 := mul_le_mul pk.length_lt.le pk.lenWidth_le
  have hv : v5BodyOffset = 38 := rfl
  have hm1 : checkedMul pk.parts.length pk.voutWidth = some (pk.parts.length * pk.voutWidth) :=
    if_pos (by omega)
  have hm2 : checkedMul pk.parts.length pk.lenWidth = some (pk.parts.length * pk.lenWidth) :=
    if_pos (by omega)
  have ha1 : checkedAdd 38 (pk.parts.length * pk.voutWidth) =
      some (38 + pk.parts.length * pk.voutWidth) := if_pos (by omega)
  have ha2 : checkedAdd (38 + pk.parts.length * pk.voutWidth) (pk.parts.length * pk.lenWidth) =
      some (38 + pk.parts.length * pk.voutWidth + pk.parts.length * pk.lenWidth) := if_pos (by omega)
  simp [V5Layout.new, hv, hm1, hm2, ha1, ha2, layout]

end Packing

structure Packing.Tight (pk : Packing) : Prop where
  voutWidth_eq : pk.voutWidth = widthFor (widest voutOf pk.parts)
  lenWidth_eq : pk.lenWidth = widthFor (widest lenOf pk.parts)

lemma Packing.Tight.image_unique {pk pk' : Packing} (h : pk.Tight) (h' : pk'.Tight) (htxid : pk.txid = pk'.txid)
    (hinline : pk.inlineLen = pk'.inlineLen) (hparts : pk.parts = pk'.parts) : pk.image = pk'.image := by
  have hvout : pk.voutWidth = pk'.voutWidth := by rw [h.voutWidth_eq, h'.voutWidth_eq, hparts]
  have hlen : pk.lenWidth = pk'.lenWidth := by rw [h.lenWidth_eq, h'.lenWidth_eq, hparts]
  simp only [image, head, voutTable, lenTable, body, htxid, hinline, hparts, hvout, hlen]

lemma measureOutputs_eq (parts : List OutputParts) (lens : List ℕ) (total mv ml : ℕ)
    (hs : ScriptsFit parts) (ht : total + parts.length * 65558 < 2 ^ 64) :
    measureOutputs parts lens total mv ml =
      .ok (lens ++ parts.map (fun part => (payload part).length), total + (parts.flatMap payload).length,
        max mv (widest voutOf parts), max ml (widest lenOf parts)) := by
  induction parts generalizing lens total mv ml with
  | nil => simp [measureOutputs, widest]
  | cons part rest ih =>
    have hpart := hs part (by simp)
    have hlen := length_payload_le part hpart
    simp only [length_cons, add_mul] at ht
    have hadd : checkedAdd total (payload part).length = some (total + (payload part).length) :=
      if_pos (by omega)
    have hrest := ih (lens ++ [(payload part).length]) (total + (payload part).length) (max mv part.vout.toNat)
      (max ml (payload part).length) (fun p hp => hs p (by simp [hp])) (by omega)
    rw [measureOutputs, payloadLen_eq part hpart, ok_bind, hadd, okOr_some, ok_bind, ensure_of _ (by omega), hrest,
      widest, widest]
    simp [add_assoc]

lemma script_lt_of_measureOutputs {lens : List ℕ} {total mv ml : ℕ} {measured : List ℕ × ℕ × ℕ × ℕ}
    (h : measureOutputs parts lens total mv ml = .ok measured) : ∀ part ∈ parts, part.script.length < 2 ^ 16 := by
  induction parts generalizing lens total mv ml with
  | nil => simp
  | cons part rest ih =>
    obtain ⟨len, hlen, h⟩ := bind_eq_ok h
    obtain ⟨newTotal, -, h⟩ := bind_eq_ok h
    obtain ⟨⟨⟩, -, h⟩ := bind_eq_ok h
    obtain ⟨⟨⟩, hscript, -⟩ := bind_eq_ok hlen
    exact forall_mem_cons.mpr ⟨ensure_ok hscript, ih h⟩

lemma encodeRecord_bounds {txid : Hash256} {inlineLen : ℕ} {buf : Bytes}
    (h : encodeRecord txid inlineLen parts = .ok buf) :
    parts.length < 2 ^ 32 ∧ (inlineLen ≤ inlineCapacity ∧ inlineLen ≤ parts.length) ∧
      ScriptsFit parts := by
  obtain ⟨⟨⟩, hcount, h⟩ := bind_eq_ok h
  obtain ⟨⟨⟩, hinline, h⟩ := bind_eq_ok h
  obtain ⟨measured, hmeasured, -⟩ := bind_eq_ok h
  exact ⟨ensure_ok hcount, ensure_ok hinline, script_lt_of_measureOutputs hmeasured⟩

lemma encodeRecord_eq (txid : Hash256) (inlineLen : ℕ) (parts : List OutputParts)
    (hs : ScriptsFit parts) (hl : parts.length < 2 ^ 32)
    (hi : inlineLen ≤ inlineCapacity ∧ inlineLen ≤ parts.length) :
    ∃ pk : Packing, pk.Tight ∧ pk.txid = txid ∧ pk.inlineLen = inlineLen ∧ pk.parts = parts ∧
      encodeRecord txid inlineLen parts = .ok pk.image := by
  have hm := measureOutputs_eq parts [] 0 0 0 hs (by omega)
  rw [zero_max, zero_max] at hm
  have hmv : widest voutOf parts < 2 ^ 32 := lt_succ_of_le (widest_le fun part _ => le_of_lt_succ part.vout.toNat_lt)
  have hml : widest lenOf parts ≤ 65558 := widest_le fun part hp => length_payload_le part (hs part hp)
  let pk : Packing :=
    { txid, inlineLen, voutWidth := widthFor (widest voutOf parts), lenWidth := widthFor (widest lenOf parts), parts
      inlineLen_le_capacity := hi.1, inlineLen_le_length := hi.2, length_lt := hl, script_lt := hs
      voutWidth_pos := widthFor_pos _, voutWidth_le := widthFor_le _
      lenWidth_pos := widthFor_pos _, lenWidth_le := widthFor_le _
      vout_lt := fun part hp => lt_of_le_of_lt (le_widest voutOf hp) (lt_pow_widthFor _ hmv)
      len_lt := fun part hp => lt_of_le_of_lt (le_widest lenOf hp) (lt_pow_widthFor _ (by omega)) }
  have hlen := pk.length_image
  have hbound := pk.length_image_lt
  have hadd : checkedAdd pk.layout.payloads (parts.flatMap payload).length = some pk.image.length := by
    rw [hlen]
    exact if_pos (by rw [hlen] at hbound; exact lt_trans hbound (by decide))
  have hnew : V5Layout.new parts.length (widthFor (widest voutOf parts)) (widthFor (widest lenOf parts)) =
      .ok pk.layout := pk.new_eq_layout
  have hdirs : pk.image = txid.bytes ++ encode 4 parts.length ++ [UInt8.ofNat inlineLen] ++
      [packWidths (widthFor (widest voutOf parts)) (widthFor (widest lenOf parts))] ++
      (parts.map (fun output => output.vout.toNat)).flatMap (encode (widthFor (widest voutOf parts))) ++
      (parts.map (fun part => (payload part).length)).flatMap (encode (widthFor (widest lenOf parts))) ++
      parts.flatMap payload := by
    simp [pk, Packing.image, Packing.head, Packing.voutTable, Packing.lenTable, Packing.body, flatMap_map]
  refine ⟨pk, ⟨rfl, rfl⟩, rfl, rfl, rfl, ?_⟩
  rw [encodeRecord, ensure_of _ hl, ok_bind, ensure_of _ hi, ok_bind, hm, ok_bind]
  simp only [nil_append, zero_add, hnew, ok_bind, hadd, okOr_some]
  rw [ensure_of _ (by simp only [isizeMax]; omega), ok_bind,
    pushDirEntries_eq _ _ _ (le_trans (widthFor_le _) (by decide)), ok_bind,
    pushDirEntries_eq _ _ _ (le_trans (widthFor_le _) (by decide)), ok_bind,
    writePayloads_eq _ _ hs, ok_bind, ← hdirs, ensure_of _ rfl, ok_bind, pure_eq_ok]

lemma Packing.Tight.encodeRecord_image {pk : Packing} (h : pk.Tight) :
    encodeRecord pk.txid pk.inlineLen pk.parts = .ok pk.image := by
  obtain ⟨pk', h', htxid, hinline, hparts, hencode⟩ := encodeRecord_eq pk.txid pk.inlineLen pk.parts pk.script_lt
    pk.length_lt ⟨pk.inlineLen_le_capacity, pk.inlineLen_le_length⟩
  rw [hencode, h.image_unique h' htxid.symm hinline.symm hparts.symm]

variable (bytes post : Bytes)

lemma readWidth_of_drop (offset w n : ℕ) (hb : bytes.drop offset = encode w n ++ post)
    (hw : 0 < w) (hn : n < 256 ^ w) (hl : bytes.length < 2 ^ 64) : readWidth bytes offset w = some n := by
  have hlen := congrArg length hb
  simp only [length_drop, length_append, length_encode] at hlen
  have hadd : checkedAdd offset w = some (offset + w) := if_pos (by omega)
  have hs := slice_of_drop bytes (encode w n) post offset hb (by omega)
  rw [length_encode] at hs
  rw [readWidth, hadd, bind_some, hs, Option.map_some, decode_encode w n hn]

lemma getElem?_of_drop (b : UInt8) (offset : ℕ) (h : bytes.drop offset = b :: post) : bytes[offset]? = some b := by
  have : (bytes.drop offset)[0]? = bytes[offset + 0]? := getElem?_drop
  rwa [h, eq_comm] at this

lemma decodeAmount_eq (value : UInt64) (body post : Bytes)
    (hb : body = varint (amountParts value).1 ++ rawAmount value ++ post) (hl : body.length < 2 ^ 64) :
    decodeAmount body =
      .ok (value.toNat, (varint (amountParts value).1).length + (rawAmount value).length) := by
  have hread := readVarint_eq body (rawAmount value ++ post) (amountParts value).1 0
    (by rw [hb, drop_zero, append_assoc]) (amountParts_lt value)
  rw [zero_add] at hread
  rw [decodeAmount, hread, lift_ok, ok_bind]
  rcases amountParts_spec value with ⟨c, hc, hlt, hd⟩ | ⟨hc, hbig⟩
  · have hraw : rawAmount value = [] := by rw [rawAmount, hc]; rfl
    simp only [hc, hraw, length_nil, add_zero]
    rw [if_neg (by omega), hd, okOr_some, ok_bind, pure_eq_ok]
  · have hraw : rawAmount value = encode 8 value.toNat := by rw [rawAmount, hc]; rfl
    simp only [hc, hraw] at hb ⊢
    have hdrop : body.drop (varint amountEscape).length = encode 8 value.toNat ++ post := by
      rw [hb, append_assoc, drop_left]
    have hle : (varint amountEscape).length + 8 ≤ body.length := by
      rw [hb]
      simp only [length_append, length_encode]
      omega
    have hs := slice_of_drop body (encode 8 value.toNat) post _ hdrop (by omega)
    rw [length_encode] at hs
    have hadd : checkedAdd (varint amountEscape).length 8 = some ((varint amountEscape).length + 8) :=
      if_pos (by omega)
    have hdec := decode_encode 8 value.toNat (by have := value.toNat_lt; omega)
    simp [hadd, hs, hdec, ensure_of _ hbig]

namespace Packing

variable (pk : Packing) (i : ℕ) (hi : i < pk.parts.length)

def record : UtxoRecord := ⟨pk.image⟩

lemma image_eq : pk.image = pk.txid.bytes ++ (encode 4 pk.parts.length ++ (ofNat pk.inlineLen ::
    packWidths pk.voutWidth pk.lenWidth :: (pk.voutTable ++ (pk.lenTable ++ pk.body)))) := by
  simp [image, head]

lemma drop_count : pk.image.drop 32 = encode 4 pk.parts.length ++ (ofNat pk.inlineLen ::
    packWidths pk.voutWidth pk.lenWidth :: (pk.voutTable ++ (pk.lenTable ++ pk.body))) := by
  rw [image_eq, drop_left' pk.txid.length_bytes]

lemma drop_inlineLen : pk.image.drop 36 = ofNat pk.inlineLen ::
    packWidths pk.voutWidth pk.lenWidth :: (pk.voutTable ++ (pk.lenTable ++ pk.body)) := by
  rw [show 36 = 32 + 4 from rfl, ← drop_drop, drop_count, drop_left' (length_encode 4 _)]

lemma decodeHeader_image : decodeHeader pk.image = .ok ⟨pk.txid, pk.parts.length, pk.inlineLen⟩ := by
  have hl := pk.length_image_lt
  have htxid : slice pk.image 0 txidLen = some pk.txid.bytes := by
    have := slice_of_drop pk.image pk.txid.bytes _ 0 (by rw [drop_zero, image_eq]) (zero_le _)
    rwa [pk.txid.length_bytes] at this
  have hhash : hash256OfBytes pk.txid.bytes = some pk.txid := dif_pos pk.txid.length_bytes
  have hcount : readU32 pk.image outputCountOffset = some pk.parts.length :=
    readWidth_of_drop pk.image _ 32 4 _ pk.drop_count (by decide)
      (by have := pk.length_lt; omega) (by omega)
  have hinline : pk.image[inlineLenOffset]? = some (ofNat pk.inlineLen) := getElem?_of_drop _ _ _ 36 pk.drop_inlineLen
  have hcap : pk.inlineLen ≤ 8 := pk.inlineLen_le_capacity
  have hnat : (ofNat pk.inlineLen).toNat = pk.inlineLen := UInt8.toNat_ofNat_of_lt (show _ < 256 by omega)
  rw [decodeHeader]
  simp only [htxid, bind_some, hhash, okOr_some, ok_bind, hcount, hinline, hnat]
  rw [ensure_of _ ⟨pk.inlineLen_le_capacity, pk.inlineLen_le_length⟩, ok_bind, pure_eq_ok]

lemma read_image : V5Layout.read pk.image pk.parts.length = .ok pk.layout := by
  have hvw := pk.voutWidth_le
  have hlw := pk.lenWidth_le
  have hw : pk.image[widthsOffset]? = some (packWidths pk.voutWidth pk.lenWidth) := by
    refine getElem?_of_drop _ (pk.voutTable ++ (pk.lenTable ++ pk.body)) _ 37 ?_
    rw [show 37 = 36 + 1 from rfl, ← drop_drop, drop_inlineLen, drop_succ_cons, drop_zero]
  have hnat : (packWidths pk.voutWidth pk.lenWidth).toNat = pk.lenWidth * 16 + pk.voutWidth :=
    UInt8.toNat_ofNat_of_lt (show _ < 256 by omega)
  have hmod : (pk.lenWidth * 16 + pk.voutWidth) % 16 = pk.voutWidth := by omega
  have hdiv : (pk.lenWidth * 16 + pk.voutWidth) / 16 = pk.lenWidth := by omega
  rw [V5Layout.read, hw, okOr_some, ok_bind]
  simp only [hnat, hmod, hdiv]
  rw [ensure_of _ ⟨⟨pk.voutWidth_pos, hvw⟩, pk.lenWidth_pos, hlw⟩, ok_bind, new_eq_layout]

lemma layout_voutAt : pk.layout.voutAt pk.image i = .ok pk.parts[i].vout := by
  have hl := pk.length_image_lt
  have hpos := pk.voutWidth_pos
  have hle : i * pk.voutWidth ≤ pk.parts.length * pk.voutWidth := Nat.mul_le_mul_right _ hi.le
  have hbound : pk.parts.length * pk.voutWidth ≤ 2 ^ 32 * 4 := Nat.mul_le_mul pk.length_lt.le pk.voutWidth_le
  have hm : checkedMul i pk.voutWidth = some (i * pk.voutWidth) := if_pos (by omega)
  have ha : checkedAdd 38 (i * pk.voutWidth) = some (38 + i * pk.voutWidth) := if_pos (by omega)
  have hdrop : pk.image.drop (38 + i * pk.voutWidth) = encode pk.voutWidth pk.parts[i].vout.toNat ++
      ((pk.parts.drop (i + 1)).flatMap (fun part => encode pk.voutWidth part.vout.toNat) ++
        (pk.lenTable ++ pk.body)) := by
    rw [← drop_drop, show pk.image.drop 38 = _ from pk.drop_voutDir, drop_append_of_le_length
      (by rw [length_voutTable]; exact hle), voutTable, drop_flatMap_fixed _ _ (fun _ => length_encode _ _),
      drop_eq_getElem_cons hi, flatMap_cons, append_assoc]
  have hr := readWidth_of_drop _ _ _ _ _ hdrop hpos (pk.vout_lt _ (getElem_mem hi)) (by omega)
  have hvout := pk.parts[i].vout.toNat_lt
  rw [V5Layout.voutAt, show pk.layout.voutWidth = pk.voutWidth from rfl, hm, bind_some,
    show pk.layout.voutDir = 38 from rfl, ha, okOr_some, ok_bind, hr, okOr_some, ok_bind,
    ensure_of _ hvout, ok_bind, UInt32.ofNat_toNat, pure_eq_ok]

lemma layout_payloadLenAt : pk.layout.payloadLenAt pk.image i = .ok (payload pk.parts[i]).length := by
  have hl := pk.length_image_lt
  have hpos := pk.lenWidth_pos
  have hle : i * pk.lenWidth ≤ pk.parts.length * pk.lenWidth := mul_le_mul_right _ hi.le
  have hbound := pk.layout_payloads_le
  have hdir : pk.layout.lenDir + pk.parts.length * pk.lenWidth = pk.layout.payloads := rfl
  have hm : checkedMul i pk.lenWidth = some (i * pk.lenWidth) := if_pos (by omega)
  have ha : checkedAdd pk.layout.lenDir (i * pk.lenWidth) = some (pk.layout.lenDir + i * pk.lenWidth) :=
    if_pos (by omega)
  have hdrop : pk.image.drop (pk.layout.lenDir + i * pk.lenWidth) =
      encode pk.lenWidth (payload pk.parts[i]).length ++
        ((pk.parts.drop (i + 1)).flatMap (fun part => encode pk.lenWidth (payload part).length) ++ pk.body) := by
    rw [← drop_drop, drop_lenDir, drop_append_of_le_length
      (by rw [length_lenTable]; exact hle), lenTable, drop_flatMap_fixed _ _ (fun _ => length_encode _ _),
      drop_eq_getElem_cons hi, flatMap_cons, append_assoc]
  have hr := readWidth_of_drop _ _ _ _ _ hdrop hpos (pk.len_lt _ (getElem_mem hi)) (by omega)
  rw [V5Layout.payloadLenAt, show pk.layout.lenWidth = pk.lenWidth from rfl, hm, bind_some, ha,
    okOr_some, ok_bind, hr, okOr_some]

lemma payloadOffsetLoop_image (n i : ℕ) (hi : i + n ≤ pk.parts.length) :
    payloadOffsetLoop pk.image pk.layout (range' i n) (pk.layout.payloads + offset payload pk.parts i) =
      .ok (pk.layout.payloads + offset payload pk.parts (i + n)) := by
  induction n generalizing i with
  | zero => rfl
  | succ n ih =>
    have hlen := pk.length_image
    have hlt := pk.length_image_lt
    have hoff : offset payload pk.parts (i + 1) ≤ pk.body.length := offset_le payload pk.parts (i + 1)
    have hsucc := offset_succ payload pk.parts i (by omega)
    have ha : checkedAdd (pk.layout.payloads + offset payload pk.parts i)
        (payload (pk.parts[i])).length = some (pk.layout.payloads + offset payload pk.parts (i + 1)) := by
      rw [hsucc, ← add_assoc]
      exact if_pos (by omega)
    rw [range'_succ, payloadOffsetLoop, pk.layout_payloadLenAt i (by omega), ok_bind, ha, okOr_some,
      ok_bind, ih (i + 1) (by omega), add_right_comm, add_assoc]

lemma payloadOffset_image (hi : i ≤ pk.parts.length) :
    payloadOffset pk.image pk.layout i = .ok (pk.layout.payloads + offset payload pk.parts i) := by
  have h := pk.payloadOffsetLoop_image i 0 (by omega)
  rw [offset_zero, add_zero, zero_add] at h
  rw [payloadOffset, range_eq_range', h]

lemma decodeOutputAt_image :
    decodeOutputAt pk.image pk.layout i (pk.layout.payloads + offset payload pk.parts i) =
      .ok (pk.parts[i], pk.layout.payloads + offset payload pk.parts (i + 1)) := by
  have hlen := pk.length_image
  have hlt := pk.length_image_lt
  have hs := pk.script_lt _ (getElem_mem hi)
  have hoff : offset payload pk.parts (i + 1) ≤ pk.body.length := offset_le payload pk.parts (i + 1)
  have hsucc := offset_succ payload pk.parts i hi
  have hvout := pk.layout_voutAt i hi
  have hplen := pk.layout_payloadLenAt i hi
  have hdrop : pk.image.drop (pk.layout.payloads + offset payload pk.parts i) =
      payload pk.parts[i] ++ (pk.parts.drop (i + 1)).flatMap payload := by
    rw [← drop_drop, drop_payloads, body, drop_offset, drop_eq_getElem_cons hi, flatMap_cons]
  have hslice := slice_of_drop _ _ _ _ hdrop (by omega)
  generalize pk.parts[i] = part at *
  have ha : checkedAdd (pk.layout.payloads + offset payload pk.parts i) (payload part).length =
      some (pk.layout.payloads + offset payload pk.parts i + (payload part).length) := if_pos (by omega)
  have hbody : (payload part).length < 2 ^ 64 := by omega
  have hamount := decodeAmount_eq part.value (payload part)
    (varint (packHeight part.height part.coinbase) ++ part.script) (by simp [payload]) hbody
  have hlt33 := packHeight_lt part.height part.coinbase
  have hpack := readVarint_eq (payload part) part.script (packHeight part.height part.coinbase)
    ((varint (amountParts part.value).1).length + (rawAmount part.value).length)
    (by rw [payload, append_assoc, ← length_append, drop_left]) (by omega)
  have hscript := slice_of_drop (payload part) part.script [] ((varint (amountParts part.value).1).length +
    (rawAmount part.value).length + (varint (packHeight part.height part.coinbase)).length)
    (by rw [payload, ← length_append, ← length_append, drop_left, append_nil])
    (by simp only [payload, length_append]; omega)
  have hend : (varint (amountParts part.value).1).length + (rawAmount part.value).length +
      (varint (packHeight part.height part.coinbase)).length + part.script.length = (payload part).length := by
    simp only [payload, length_append]
  rw [hend] at hscript
  have hheight : packHeight part.height part.coinbase / 2 = part.height.toNat := by
    rw [packHeight]
    cases part.coinbase <;> simp [mul_add_div]
  have hcoinbase : (packHeight part.height part.coinbase % 2 == 1) = part.coinbase := by
    rw [packHeight]
    cases part.coinbase <;> simp
  have hh := part.height.toNat_lt
  rw [decodeOutputAt, hvout, ok_bind, hplen, ok_bind, ha, okOr_some, ok_bind, hslice, okOr_some, ok_bind, hamount]
  simp only [hpack, lift_ok, ok_bind, hheight, ensure_of _ hh, hscript, okOr_some, ensure_of _ hs, hcoinbase,
    UInt64.ofNat_toNat, UInt32.ofNat_toNat, pure_eq_ok]
  rw [hsucc, add_assoc]

lemma record_header : pk.record.header = .ok ⟨pk.txid, pk.parts.length, pk.inlineLen⟩ := by
  rw [header, record, decodeHeader_image, orPanic_ok]

lemma record_layout : pk.record.layout = .ok pk.layout := by
  rw [UtxoRecord.layout, record_header, ok_bind]
  exact pk.read_image

lemma record_outputCount : pk.record.outputCount = .ok pk.parts.length := by
  rw [outputCount, record_header, ok_bind, pure_eq_ok]

lemma outputsLoop_image (n i : ℕ) (hi : i + n = pk.parts.length) :
    outputsLoop pk.image pk.layout n i (pk.layout.payloads + offset payload pk.parts i) =
      .ok (pk.parts.drop i) := by
  induction n generalizing i with
  | zero => rw [outputsLoop, drop_eq_nil_of_le (by omega)]
  | succ n ih =>
    rw [outputsLoop, pk.decodeOutputAt_image i (by omega), orPanic_ok]
    simp only [ih (i + 1) (by omega), ok_bind, pure_eq_ok]
    rw [← drop_eq_getElem_cons]

lemma record_outputs : pk.record.outputs = .ok pk.parts := by
  have h := pk.outputsLoop_image pk.parts.length 0 (zero_add _)
  rw [outputs, record_layout]
  exact h

variable (vout : UInt32)

lemma find_voutAt :
    (range pk.layout.count).find? (fun index =>
      (pk.layout.voutAt pk.image index).toOption == some vout) = positionOf pk.parts vout := by
  have hat (i : ℕ) (hi : i < pk.parts.length) :
      ((pk.layout.voutAt pk.image i).toOption == some vout) = (pk.parts[i].vout == vout) := by
    rw [layout_voutAt pk i hi]
    rfl
  rw [positionOf]
  cases hf : pk.parts.findIdx? (fun part => part.vout == vout) with
  | none =>
    rw [findIdx?_eq_none_iff] at hf
    rw [find?_range_eq_none]
    intro i hi
    rw [hat i hi, hf _ (getElem_mem hi), Bool.not_false]
  | some i =>
    obtain ⟨hi, hp, hbefore⟩ := findIdx?_eq_some_iff_getElem.mp hf
    rw [find?_range_eq_some]
    refine ⟨(hat i hi).trans hp, mem_range.mpr hi, ?_⟩
    intro j hj
    rw [hat j (by omega)]
    simpa using hbefore j hj

lemma record_findOutput : pk.record.findOutput vout = .ok (pk.parts.find? (fun part => part.vout == vout)) := by
  rw [findOutput, record_header, ok_bind]
  simp only [record, read_image, find_voutAt]
  rw [positionOf]
  cases hf : pk.parts.findIdx? (fun part => part.vout == vout) with
  | none =>
    rw [findIdx?_eq_none_iff] at hf
    rw [find?_eq_none.mpr (fun x hx => by simp [hf x hx]), pure_eq_ok]
  | some i =>
    obtain ⟨hi, hp, hbefore⟩ := findIdx?_eq_some_iff_getElem.mp hf
    have hfind : pk.parts.find? (fun part => part.vout == vout) = some pk.parts[i] :=
      find?_eq_some_iff_getElem.mpr ⟨hp, i, hi, rfl, by simpa using hbefore⟩
    simp [payloadOffset_image pk i hi.le, decodeOutputAt_image pk i hi, hfind]

lemma record_maxVout : pk.record.maxVout = .ok (pk.parts.map (fun part => part.vout)).max? := by
  have hmap : (range pk.layout.count).filterMap (fun index =>
      (pk.layout.voutAt pk.image index).toOption) = pk.parts.map (fun part => part.vout) := by
    rw [show pk.layout.count = pk.parts.length from rfl]
    have hpart : (range pk.parts.length).filterMap (fun index =>
        (pk.layout.voutAt pk.image index).toOption) =
        (range pk.parts.length).filterMap (fun index => (pk.parts.map (fun part => part.vout))[index]?) := by
      refine filterMap_congr (fun i hi => ?_)
      rw [mem_range] at hi
      rw [layout_voutAt pk i hi, getElem?_map, getElem?_eq_getElem hi]
      rfl
    rw [hpart]
    simpa using filterMap_range_getElem? (pk.parts.map (fun part => part.vout))
  rw [maxVout, record_header]
  simp [record, read_image, hmap]

lemma record_ownTxid : pk.record.ownTxid = .ok pk.txid := by
  rw [ownTxid, record_header, ok_bind, pure_eq_ok]

lemma record_txid : pk.record.txid = pk.txid.bytes := by
  rw [record, image_eq]
  exact take_left' pk.txid.length_bytes

end Packing

namespace UtxoRecord

lemma additionLens_eq (old : V5Layout) (additions : List OutputParts) (total : ℕ)
    (hs : ScriptsFit additions) (ht : total + additions.length * 65558 < 2 ^ 64) :
    additionLens old additions total = .ok none ∨
      (additionLens old additions total = .ok (some (total + (additions.flatMap payload).length)) ∧
        ∀ part ∈ additions, widthFor part.vout.toNat ≤ old.voutWidth ∧
          widthFor (payload part).length ≤ old.lenWidth) := by
  induction additions generalizing total with
  | nil => exact Or.inr ⟨by simp [additionLens], by simp⟩
  | cons addition rest ih =>
    have hscript := hs addition (by simp)
    have hlen := length_payload_le addition hscript
    simp only [length_cons, add_mul] at ht
    rw [additionLens, payloadLen_eq addition hscript, ok_bind]
    by_cases hfit : old.voutWidth < widthFor addition.vout.toNat ∨ old.lenWidth < widthFor (payload addition).length
    · exact Or.inl (by rw [if_pos hfit, pure_eq_ok])
    have hadd : checkedAdd total (payload addition).length = some (total + (payload addition).length) :=
      if_pos (by omega)
    rw [if_neg hfit, hadd, okOr_some, ok_bind]
    rcases ih (total + (payload addition).length) (fun p hp => hs p (by simp [hp])) (by omega) with hnone | ⟨hsome,
      hfits⟩
    · exact Or.inl hnone
    · refine Or.inr ⟨by rw [hsome, flatMap_cons, length_append, add_assoc], ?_⟩
      exact forall_mem_cons.mpr ⟨by omega, hfits⟩

lemma script_lt_of_additionLens {old : V5Layout} {additions : List OutputParts} {total measured : ℕ}
    (h : additionLens old additions total = .ok (some measured)) :
    ∀ part ∈ additions, part.script.length < 2 ^ 16 := by
  induction additions generalizing total with
  | nil => simp
  | cons addition rest ih =>
    obtain ⟨len, hlen, h⟩ := bind_eq_ok h
    split_ifs at h
    · cases h
    · obtain ⟨next, -, h⟩ := bind_eq_ok h
      obtain ⟨⟨⟩, hscript, -⟩ := bind_eq_ok hlen
      exact forall_mem_cons.mpr ⟨ensure_ok hscript, ih h⟩

lemma pushAdditionLens_eq (w : ℕ) (additions : List OutputParts) (buf : Bytes) (hw : w ≤ 8)
    (hs : ScriptsFit additions) :
    pushAdditionLens w additions buf =
      .ok (buf ++ additions.flatMap (fun part => encode w (payload part).length)) := by
  induction additions generalizing buf with
  | nil => simp [pushAdditionLens]
  | cons addition rest ih =>
    rw [pushAdditionLens, payloadLen_eq addition (hs addition (by simp)), ok_bind, pushDirEntry, if_pos hw, ok_bind,
      ih _ (fun p hp => hs p (by simp [hp])), take_encode 8 w _ hw, flatMap_cons, append_assoc]

end UtxoRecord

lemma appendParts_eq (parts additions : List OutputParts) {inlineLen : ℕ} (hcapacity : inlineLen ≤ inlineCapacity)
    (hend : parts.length = inlineLen ∨ inlineLen = inlineCapacity) :
    appendParts parts inlineLen additions =
      (parts ++ additions, min (inlineLen + additions.length) inlineCapacity) := by
  induction additions generalizing parts inlineLen with
  | nil => simp [appendParts, hcapacity]
  | cons addition rest ih =>
    have hassoc : parts ++ [addition] ++ rest = parts ++ addition :: rest := by simp
    rw [appendParts, pushPart, length_cons]
    by_cases hlt : inlineLen < inlineCapacity
    · obtain rfl := hend.resolve_right hlt.ne
      rw [if_pos hlt, insertIdx_length_self]
      simp only [ih (parts ++ [addition]) hlt (Or.inl length_append), hassoc]
      rw [succ_add_eq_add_succ]
    · obtain rfl := le_antisymm hcapacity (not_lt.mp hlt)
      rw [if_neg hlt]
      simp [ih (parts ++ [addition]) le_rfl (Or.inr rfl)]

namespace Packing

variable (pk : Packing)

lemma slice_voutTable : slice pk.image pk.layout.voutDir pk.layout.lenDir = some pk.voutTable := by
  have hl := pk.length_image
  have h := slice_of_drop _ _ _ _ pk.drop_voutDir (by simp only [layout] at hl ⊢; omega)
  rwa [length_voutTable] at h

lemma slice_lenTable : slice pk.image pk.layout.lenDir pk.layout.payloads = some pk.lenTable := by
  have hl := pk.length_image
  have h := slice_of_drop _ _ _ _ pk.drop_lenDir (by simp only [layout] at hl ⊢; omega)
  rwa [length_lenTable] at h

lemma slice_body : slice pk.image pk.layout.payloads pk.image.length = some pk.body := by
  have hl := pk.length_image
  have h := slice_of_drop pk.image pk.body [] _ (by rw [drop_payloads, append_nil]) (by omega)
  rwa [← length_image] at h

def append (additions : List OutputParts) (hl : pk.parts.length + additions.length < 2 ^ 32)
    (hs : ∀ part ∈ additions, part.script.length < 2 ^ 16)
    (hw : ∀ part ∈ additions, widthFor part.vout.toNat ≤ pk.voutWidth ∧
      widthFor (payload part).length ≤ pk.lenWidth) : Packing where
  txid := pk.txid
  inlineLen := min (pk.inlineLen + additions.length) inlineCapacity
  voutWidth := pk.voutWidth
  lenWidth := pk.lenWidth
  parts := pk.parts ++ additions
  inlineLen_le_capacity := Nat.min_le_right _ _
  inlineLen_le_length := by
    have := pk.inlineLen_le_length
    rw [length_append]
    omega
  length_lt := by rwa [length_append]
  script_lt := forall_mem_append.mpr ⟨pk.script_lt, hs⟩
  voutWidth_pos := pk.voutWidth_pos
  voutWidth_le := pk.voutWidth_le
  lenWidth_pos := pk.lenWidth_pos
  lenWidth_le := pk.lenWidth_le
  vout_lt := forall_mem_append.mpr
    ⟨pk.vout_lt, fun part hp => lt_pow_of_widthFor_le part.vout.toNat_lt (hw part hp).1⟩
  len_lt := forall_mem_append.mpr ⟨pk.len_lt, fun part hp =>
    lt_pow_of_widthFor_le (by have := length_payload_le part (hs part hp); omega) (hw part hp).2⟩

variable (additions : List OutputParts)

lemma append_tight (hl : pk.parts.length + additions.length < 2 ^ 32) (hs : ScriptsFit additions)
    (hw : ∀ part ∈ additions, widthFor part.vout.toNat ≤ pk.voutWidth ∧
      widthFor (payload part).length ≤ pk.lenWidth) (h : pk.Tight) : (pk.append additions hl hs hw).Tight := by
  constructor
  · show pk.voutWidth = widthFor (widest voutOf (pk.parts ++ additions))
    rw [widest_append]
    exact widthFor_max_of_le h.voutWidth_eq fun part hp => (hw part hp).1
  · show pk.lenWidth = widthFor (widest lenOf (pk.parts ++ additions))
    rw [widest_append]
    exact widthFor_max_of_le h.lenWidth_eq fun part hp => (hw part hp).2

lemma record_appendUniqueRun (hs : ScriptsFit additions) (hl : pk.parts.length + additions.length < 2 ^ 32) :
    pk.record.appendUniqueRun additions = .ok none ∨
      ∃ pk' : Packing, pk.record.appendUniqueRun additions = .ok (some pk'.record) ∧ pk'.txid = pk.txid ∧
        pk'.parts = pk.parts ++ additions ∧ (pk.Tight → pk'.Tight) ∧
        appendParts pk.parts pk.inlineLen additions = (pk'.parts, pk'.inlineLen) := by
  rw [appendUniqueRun, record_header, ok_bind]
  by_cases hend : ¬(pk.parts.length = pk.inlineLen ∨ pk.inlineLen = inlineCapacity)
  · exact Or.inl (by rw [if_pos hend, pure_eq_ok])
  have hadd : checkedAdd pk.parts.length additions.length = some (pk.parts.length + additions.length) :=
    if_pos (by omega)
  simp only [if_neg hend, record_layout, ok_bind, hadd, okOr_some, ensure_of _ hl]
  rcases additionLens_eq pk.layout additions 0 hs (by omega) with hnone | ⟨hsome, hfits⟩
  · exact Or.inl (by rw [hnone, ok_bind, pure_eq_ok])
  rw [hsome]
  have hvw := pk.voutWidth_le
  have hlw := pk.lenWidth_le
  let pk' := pk.append additions hl hs hfits
  have himage : pk'.image = pk.txid.bytes ++ encode 4 (pk.parts.length + additions.length) ++
      [ofNat (min (pk.inlineLen + additions.length) inlineCapacity)] ++
      [packWidths pk.voutWidth pk.lenWidth] ++ pk.voutTable ++
      (additions.map (fun addition => addition.vout.toNat)).flatMap (encode pk.voutWidth) ++ pk.lenTable ++
      additions.flatMap (fun part => encode pk.lenWidth (payload part).length) ++ pk.body ++
      additions.flatMap payload := by
    simp [pk', append, image, head, voutTable, lenTable, body, flatMap_map]
  have hlen : pk'.image.length = pk.image.length + (additions.flatMap payload).length +
      additions.length * (pk.voutWidth + pk.lenWidth) := by
    rw [pk'.length_image, pk.length_image, mul_add]
    simp only [pk', append, layout, body, length_append, flatMap_append, add_mul]
    omega
  have hbound := pk'.length_image_lt
  have hm : checkedMul additions.length (pk.layout.voutWidth + pk.layout.lenWidth) =
      some (additions.length * (pk.voutWidth + pk.lenWidth)) := by
    refine if_pos ?_
    simp only [layout]
    omega
  have ha₁ : checkedAdd pk.image.length (0 + (additions.flatMap payload).length) =
      some (pk.image.length + (additions.flatMap payload).length) := by
    rw [zero_add]
    exact if_pos (by omega)
  have ha₂ : checkedAdd (pk.image.length + (additions.flatMap payload).length)
      (additions.length * (pk.voutWidth + pk.lenWidth)) = some pk'.image.length := by
    rw [hlen]
    exact if_pos (by omega)
  refine Or.inr ⟨pk', ?_, rfl, rfl, pk.append_tight additions hl hs hfits,
    appendParts_eq pk.parts additions pk.inlineLen_le_capacity (not_not.mp hend)⟩
  simp only [hm, okOr_some, ok_bind, record, ha₁, bind_some, ha₂, slice_voutTable, slice_lenTable, slice_body]
  rw [ensure_of _ (by simp only [isizeMax]; omega), ok_bind,
    pushDirEntries_eq _ _ _ (show pk.layout.voutWidth ≤ 8 by simp only [layout]; omega), ok_bind,
    pushAdditionLens_eq _ _ _ (show pk.layout.lenWidth ≤ 8 by simp only [layout]; omega) hs, ok_bind,
    show pk.layout.voutWidth = pk.voutWidth from rfl, show pk.layout.lenWidth = pk.lenWidth from rfl,
    writePayloads_eq _ _ hs, ok_bind, ← himage, ensure_of _ rfl, ok_bind, pure_eq_ok]

variable {pk} in
lemma bounds_of_appendUniqueRun {additions : List OutputParts} {record : UtxoRecord}
    (h : pk.record.appendUniqueRun additions = .ok (some record)) :
    pk.parts.length + additions.length < 2 ^ 32 ∧ ScriptsFit additions := by
  rw [appendUniqueRun, record_header, ok_bind] at h
  by_cases hend : ¬(pk.parts.length = pk.inlineLen ∨ pk.inlineLen = inlineCapacity)
  · rw [if_pos hend] at h
    cases h
  rw [if_neg hend, record_layout, ok_bind] at h
  obtain ⟨count, hcount, h⟩ := bind_eq_ok h
  obtain ⟨⟨⟩, hens, h⟩ := bind_eq_ok h
  obtain ⟨measured, hmeasured, h⟩ := bind_eq_ok h
  constructor
  · have hlt := ensure_ok hens
    simp only [checkedAdd] at hcount
    split_ifs at hcount <;> cases hcount
    omega
  · cases measured with
    | none => cases h
    | some total => exact script_lt_of_additionLens hmeasured

end Packing

end BitcoinRs.Utxo
