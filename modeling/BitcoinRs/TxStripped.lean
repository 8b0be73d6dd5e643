import BitcoinRs.TxLayout

namespace BitcoinRs

open SpanReader ImageCursor ParsedTransaction ByteSpan

namespace ParsedTransaction

variable (parsed : ParsedTransaction)

def bodyEnd : ℕ :=
  match parsed.outputs.getLast? with
  | none => parsed.outputCountSpan.stop
  | some output => output.scriptPubkey.stop

def segwitBaseBody : Bytes :=
  if parsed.inputCountSpan.start.toNat ≤ parsed.bodyEnd ∧ parsed.bodyEnd ≤ parsed.bytes.length then
    segment parsed.bytes parsed.inputCountSpan.start.toNat parsed.bodyEnd
  else []

def strippedParts : List Bytes :=
  if !parsed.segwit then [sliceAt parsed.bytes parsed.span, [], []]
  else
    [sliceAt parsed.bytes parsed.versionSpan, parsed.segwitBaseBody, sliceAt parsed.bytes parsed.lockTimeSpan]

structure Faithful : Prop where
  segwit_eq : parsed.segwit = parsed.materialize.hasWitness
  span_eq : sliceAt parsed.bytes parsed.span = encodeTx parsed.materialize
  len_eq : parsed.span.len.toNat = (encodeTx parsed.materialize).length
  stripped_eq : parsed.strippedParts.flatten = encodeTxBase parsed.materialize

end ParsedTransaction

variable {inputCount : InputCount}

section

variable {image : Bytes} {pos stop : ℕ} {span : ByteSpan}

lemma take_located {n : ℕ} (h : take n image pos = .ok (span, stop)) : span.start.toNat = pos ∧ span.stop = stop := by
  unfold ImageCursor.take at h
  split at h
  · cases h
  · rename_i hspan
    cases h
    exact ⟨(checked_eq_ok hspan).2.1, rfl⟩

lemma readCompact_located {r : ℕ × ByteSpan} (h : ImageCursor.readCompact image pos = .ok (r, stop)) :
    r.2.start.toNat = pos ∧ r.2.stop = stop := by
  unfold ImageCursor.readCompact at h
  split at h
  · cases h
  · split at h
    · cases h
    · rename_i hspan
      cases h
      exact ⟨(checked_eq_ok hspan).2.1, rfl⟩

lemma spanFrom_located {start : ℕ} (hstart : start ≤ pos) (h : spanFrom start image pos = .ok (span, stop)) :
    span.start.toNat = start ∧ span.stop = stop ∧ stop = pos := by
  unfold spanFrom at h
  split at h
  · cases h
  · rename_i hspan
    cases h
    obtain ⟨_, hfrom, hstop⟩ := checked_eq_ok hspan
    exact ⟨hfrom, by omega, rfl⟩

lemma requireCount_located {count len : ℕ} {u : Unit} (h : requireCount count len image pos = .ok (u, stop)) :
    stop = pos := by
  unfold requireCount at h
  dsimp only at h
  split at h
  · cases h
  · cases h
    rfl

lemma readOutput_located {layout : OutputLayout} (h : readOutput image pos = .ok (layout, stop)) :
    layout.scriptPubkey.stop = stop := by
  obtain ⟨value, p₁, _, h⟩ := bind_eq_ok.mp h
  obtain ⟨len, p₂, _, h⟩ := bind_eq_ok.mp h
  obtain ⟨scriptPubkey, p₃, hscript, h⟩ := bind_eq_ok.mp h
  obtain ⟨rfl, rfl⟩ := pure_eq_ok.mp h
  exact (take_located hscript).2

lemma readInputCount_located (hpos : pos ≤ image.length) (h : readInputCount image pos = .ok (inputCount, stop))
    (hsegwit : inputCount.segwit = true) :
    inputCount.span.start.toNat ≤ stop ∧
      segment image inputCount.span.start.toNat stop = Varint.encode inputCount.value := by
  obtain ⟨⟨value, span⟩, p₁, hvalue, h⟩ := bind_eq_ok.mp h
  have hp₁ := (sound_readCompact pos _ p₁ hpos hvalue).2.1
  dsimp only at h
  split at h
  · obtain ⟨⟨flag, flagSpan⟩, p₂, hflag, h⟩ := bind_eq_ok.mp h
    have hp₂ := (sound_readU8 p₁ _ p₂ hp₁ hflag).2.1
    dsimp only at h
    split at h
    · obtain ⟨rfl, rfl⟩ := pure_eq_ok.mp h
      cases hsegwit
    · split at h
      · obtain ⟨⟨count, countSpan⟩, p₃, hcount, h⟩ := bind_eq_ok.mp h
        obtain ⟨rfl, rfl⟩ := pure_eq_ok.mp h
        obtain ⟨hle, _, hbytes, _⟩ := sound_readCompact p₂ _ p₃ hp₂ hcount
        have hstart := (readCompact_located hcount).1
        rw [hstart]
        exact ⟨hle, hbytes⟩
      · cases h
  · obtain ⟨rfl, rfl⟩ := pure_eq_ok.mp h
    cases hsegwit

lemma parseRest_located {txStart : ℕ} {versionSpan : ByteSpan} {inputs : List InputLayout}
    {outputCount : ℕ × ByteSpan} {parsed : ParsedTransaction} (hstart : txStart ≤ pos) (hpos : pos ≤ image.length)
    (h : ParsedTransaction.parseRest txStart versionSpan inputCount inputs outputCount image pos = .ok (parsed, stop)) :
    parsed.bytes = image ∧ parsed.versionSpan = versionSpan ∧ parsed.inputCountSpan = inputCount.span ∧
      parsed.segwit = inputCount.segwit ∧ parsed.span.start.toNat = txStart ∧ parsed.span.stop = stop ∧
      (sliceAt image parsed.lockTimeSpan).length = 4 ∧
      (∃ witnesses, WitnessForm image inputs inputCount.segwit parsed.inputs witnesses) ∧
      parsed.outputs.length = outputCount.1 ∧
      (outputCount.2.stop = pos → pos ≤ parsed.bodyEnd ∧ parsed.bodyEnd ≤ image.length ∧
        segment image pos parsed.bodyEnd = parsed.materialize.outputs.flatMap TxOut.consensusEncode) := by
  obtain ⟨_, p₁, hrequire, h⟩ := bind_eq_ok.mp h
  cases requireCount_located hrequire
  obtain ⟨outputs, p₂, houtputs, h⟩ := bind_eq_ok.mp h
  obtain ⟨hle₂, hp₂, houtputBytes, hlen, _⟩ := sound_readOutput.many outputCount.1 pos outputs p₂ hpos houtputs
  obtain ⟨outs, p₃, hwitness, h⟩ := bind_eq_ok.mp h
  obtain ⟨hle₃, hp₃, hform⟩ := sound_readWitnessPart inputCount.segwit inputs p₂ outs p₃ hp₂ hwitness
  obtain ⟨lockTimeSpan, p₄, hlock, h⟩ := bind_eq_ok.mp h
  obtain ⟨hle₄, hp₄, hlockSlice, hlockLen⟩ := sound_take 4 p₃ lockTimeSpan p₄ hp₃ hlock
  obtain ⟨span, p₅, hspan, h⟩ := bind_eq_ok.mp h
  obtain ⟨hfrom, hto, _⟩ := spanFrom_located (by omega) hspan
  obtain ⟨bytes, p₆, hread, h⟩ := bind_eq_ok.mp h
  cases hread
  obtain ⟨rfl, rfl⟩ := pure_eq_ok.mp h
  refine ⟨rfl, rfl, rfl, rfl, hfrom, hto, by rw [hlockSlice]; exact hlockLen, ⟨_, hform⟩, hlen, ?_⟩
  intro hcount
  have hlast := many_getLast hpos
    (fun pos layout stop hpos hread => ⟨readOutput_located hread, (sound_readOutput pos layout stop hpos hread).2.1⟩)
    houtputs
  have hend : bodyEnd ⟨image, span, versionSpan, inputCount.span, outputCount.2, lockTimeSpan,
      inputCount.segwit, outs, outputs⟩ = p₂ := by
    unfold bodyEnd
    cases hlist : outputs.getLast? with
    | none => rw [hcount, ← hlast, hlist]; rfl
    | some output => rw [← hlast, hlist]; rfl
  rw [hend]
  refine ⟨hle₂, hp₂, ?_⟩
  rw [houtputBytes]
  unfold materialize
  rw [List.flatMap_map]

end

section

variable {image : Bytes} {parsed : ParsedTransaction}

lemma faithful_of_plain (hsegwit : parsed.segwit = false) (hwitness : parsed.materialize.hasWitness = false)
    (hspan : sliceAt parsed.bytes parsed.span = encodeTx parsed.materialize)
    (hlen : parsed.span.len.toNat = (encodeTx parsed.materialize).length) : parsed.Faithful where
  segwit_eq := by rw [hsegwit, hwitness]
  span_eq := hspan
  len_eq := hlen
  stripped_eq := by
    unfold strippedParts
    rw [hsegwit, hspan, ← encodeTx_of_hasWitness_false hwitness]
    simp

variable {pos stop : ℕ}

lemma readOutputCount_located {xs : Bytes} {outputCount : ℕ × ByteSpan}
    (hform : CountForm inputCount xs) (hpos : pos ≤ image.length)
    (h : readOutputCount inputCount.outputCountOverride image pos = .ok (outputCount, stop)) :
    pos ≤ stop ∧ stop ≤ image.length ∧ (inputCount.segwit = true → outputCount.2.stop = stop ∧
      segment image pos stop = Varint.encode outputCount.1) := by
  cases hform with
  | plain value span hvalue =>
    obtain ⟨hle, hstop, hbytes, _⟩ := sound_readCompact pos outputCount stop hpos h
    exact ⟨hle, hstop, fun _ => ⟨(readCompact_located h).2, hbytes⟩⟩
  | flagged value span =>
    obtain ⟨hle, hstop, hbytes, _⟩ := sound_readCompact pos outputCount stop hpos h
    exact ⟨hle, hstop, fun _ => ⟨(readCompact_located h).2, hbytes⟩⟩
  | bare span flagSpan =>
    obtain ⟨_, rfl⟩ := pure_eq_ok.mp h
    exact ⟨Nat.le_refl _, hpos, fun hsegwit => by cases hsegwit⟩

lemma parseAt_faithful (hpos : pos ≤ image.length)
    (h : ParsedTransaction.parseAt image pos = .ok (parsed, stop)) : parsed.Faithful ∧ parsed.span.stop = stop := by
  obtain ⟨_, hstop, hencode, _⟩ := sound_parseTransaction pos parsed stop hpos h
  have hfrom : parseFrom pos image pos = .ok (parsed, stop) := h
  obtain ⟨versionSpan, p₁, hversion, hfrom⟩ := bind_eq_ok.mp hfrom
  obtain ⟨hle₁, hp₁, hversionSlice, hversionLen⟩ := sound_take 4 pos versionSpan p₁ hpos hversion
  obtain ⟨inputCount, p₂, hcount, hfrom⟩ := bind_eq_ok.mp hfrom
  obtain ⟨hle₂, hp₂, hform⟩ := sound_readInputCount p₁ inputCount p₂ hp₁ hcount
  obtain ⟨_, p₃, hrequire, hfrom⟩ := bind_eq_ok.mp hfrom
  cases requireCount_located hrequire
  obtain ⟨inputs, p₄, hinputs, hfrom⟩ := bind_eq_ok.mp hfrom
  obtain ⟨hle₄, hp₄, hinputBytes, hinputLen, hplain⟩ := sound_readInput.many inputCount.value p₂ inputs p₄ hp₂ hinputs
  obtain ⟨outputCount, p₅, houtputCount, hrest⟩ := bind_eq_ok.mp hfrom
  obtain ⟨hle₅, hp₅, hcountBytes⟩ := readOutputCount_located hform hp₄ houtputCount
  obtain ⟨hbytes, hversionSpan, hcountSpan, hsegwit, hstart, hspanStop, hlockLen, ⟨witnesses, hwitness⟩, houtputLen,
    hbody⟩ := parseRest_located (by omega) hp₅ hrest
  have hspan : sliceAt parsed.bytes parsed.span = encodeTx parsed.materialize := by
    unfold sliceAt
    rw [hbytes, hstart, hspanStop, hencode]
  have hlen : parsed.span.len.toNat = (encodeTx parsed.materialize).length := by
    unfold ByteSpan.stop at hspanStop
    rw [← hencode, length_segment image hstop]
    omega
  refine ⟨?_, hspanStop⟩
  generalize hsame : parsed.inputs = outs at hwitness
  cases hflag : inputCount.segwit with
  | false =>
    rw [hflag] at hwitness hsegwit
    cases hwitness
    refine faithful_of_plain hsegwit (hasWitness_eq_false ?_) hspan hlen
    rw [materialize_inputs hbytes, hsame]
    exact List.forall_mem_map.mpr hplain
  | true =>
    rw [hflag] at hwitness hsegwit
    obtain ⟨hcountStop, hcountBytes⟩ := hcountBytes hflag
    obtain ⟨hbodyLe, hbodyStop, houtputBytes⟩ := hbody hcountStop
    obtain ⟨hspanLe, hinputCountBytes⟩ := readInputCount_located hp₁ hcount hflag
    cases hwitness with
    | some _ hcount hbase hsome =>
      have hne : parsed.materialize.hasWitness = true := by
        apply hasWitness_eq_true
        obtain ⟨out, hout, hne⟩ := hsome
        rw [materialize_inputs hbytes, hsame]
        exact ⟨_, List.mem_map_of_mem hout, hne⟩
      -- the body runs from the count of the inputs to the end of the last output
      have hparts : parsed.segwitBaseBody = encodeTxInputsAndOutputs parsed.materialize := by
        unfold segwitBaseBody encodeTxInputsAndOutputs
        rw [hbytes, hcountSpan, if_pos ⟨by omega, hbodyStop⟩,
          ← segment_append image hspanLe (by omega : p₂ ≤ parsed.bodyEnd),
          ← segment_append image hle₄ (by omega : p₄ ≤ parsed.bodyEnd), ← segment_append image hle₅ hbodyLe,
          hinputCountBytes, hinputBytes, hcountBytes, houtputBytes, materialize_inputs hbytes, hsame,
          length_materialize_outputs, houtputLen, List.length_map, hcount, hinputLen, List.flatMap_map, hbase]
      refine ⟨by rw [hsegwit, hne], hspan, hlen, ?_⟩
      have hlock : sliceAt image parsed.lockTimeSpan = LittleEndian.encode 4 parsed.materialize.lockTime.toNat := by
        unfold materialize
        rw [hbytes, encode_readU32Le hlockLen]
      unfold strippedParts encodeTxBase
      rw [hsegwit, hparts, hbytes, hlock, materialize_version hbytes hversionSpan, hversionSpan, hversionSlice,
        encode_readU32Le hversionLen]
      simp

lemma ByteSpan.stop_lt (span : ByteSpan) : span.stop < 2 ^ 33 := by
  unfold stop
  have hstart := span.start.toNat_lt
  have hlen := span.len.toNat_lt
  omega

def ParsedBlock.parseExact (bytes : Bytes) : Except DecodeError ParsedBlock :=
  match ParsedBlock.parseAt bytes 0 with
  | .error e => .error e
  | .ok (parsed, consumed) =>
    if consumed ≠ bytes.length then .error (.trailingBytes (bytes.length - consumed)) else .ok parsed

lemma sound_parseFaithful :
    Sound image ParsedTransaction.parseAt fun parsed xs => xs = encodeTx parsed.materialize ∧ parsed.Faithful := by
  intro pos parsed stop hpos h
  obtain ⟨hle, hstop, hencode, _⟩ := sound_parseTransaction pos parsed stop hpos h
  exact ⟨hle, hstop, hencode, (parseAt_faithful hpos h).1⟩

lemma deserialize_of_parse {α β : Type} {parse : ImageCursor α} {view : α → β} {a : α}
    (h : parse image 0 = .ok (a, image.length)) : deserialize (do return view (← parseFront parse)) image =
      .ok (view a) := by
  have hread : (do return view (← parseFront parse) : ConsensusReader β) image =
    .ok (view a, image.drop image.length) := by
    show (parseFront parse image >>= fun x => pure (view x.1, x.2)) = _
    unfold parseFront
    rw [h]
    rfl
  unfold deserialize
  rw [hread]
  dsimp only
  rw [if_neg (by simp)]

lemma parseExact_faithful {parsed : ParsedBlock} (h : ParsedBlock.parseExact image = .ok parsed) :
    (∀ tx ∈ parsed.txs, tx.Faithful) ∧ parsed.txCountSpan.len.toNat = Varint.encodedLen parsed.txs.length ∧
      parsed.consumed = image.length ∧ image.length < 2 ^ 33 ∧ parsed.materialize.consensusEncode = image ∧
      deserialize Block.consensusDecode image = .ok parsed.materialize := by
  unfold ParsedBlock.parseExact at h
  cases hparse : ParsedBlock.parseAt image 0 with
  | error e =>
    rw [hparse] at h
    cases h
  | ok result =>
    obtain ⟨accepted, stop⟩ := result
    rw [hparse] at h
    dsimp only at h
    split at h
    · cases h
    · rename_i hall
      rw [not_not] at hall
      cases h
      have hdecode : deserialize Block.consensusDecode image = .ok parsed.materialize :=
        deserialize_of_parse (by rw [hparse, hall])
      have hencode : parsed.materialize.consensusEncode = image := deserialize_sound sound_parseBlock hdecode
      obtain ⟨headerSpan, p₁, hheader, hstages⟩ := bind_eq_ok.mp hparse
      obtain ⟨_, hp₁, _⟩ := sound_take Header.len 0 headerSpan p₁ (Nat.zero_le _) hheader
      obtain ⟨⟨txCount, txCountSpan⟩, p₂, hcount, hstages⟩ := bind_eq_ok.mp hstages
      obtain ⟨hle₂, hp₂, hcountBytes, _⟩ := sound_readCompact p₁ _ p₂ hp₁ hcount
      obtain ⟨hcountStart, hcountStop⟩ := readCompact_located hcount
      obtain ⟨_, p₃, hrequire, hstages⟩ := bind_eq_ok.mp hstages
      cases requireCount_located hrequire
      obtain ⟨txs, p₄, htxs, hstages⟩ := bind_eq_ok.mp hstages
      obtain ⟨_, hp₄, _, hlen, hfaithful⟩ := sound_parseFaithful.many txCount p₂ txs p₄ hp₂ htxs
      have hlast := many_getLast hp₂
        (fun pos tx stop hpos hread => ⟨(parseAt_faithful hpos hread).2,
          (sound_parseTransaction pos tx stop hpos hread).2.1⟩)
        htxs
      have hbound : p₄ < 2 ^ 33 := by
        cases hlist : txs.getLast? with
        | none =>
          rw [← hlast, hlist, ← hcountStop]
          exact stop_lt _
        | some tx =>
          rw [← hlast, hlist]
          exact stop_lt _
      cases hstages
      refine ⟨hfaithful, ?_, hall, by omega, hencode, hdecode⟩
      have hcountLen := congrArg List.length hcountBytes
      unfold ByteSpan.stop at hcountStop
      rw [length_segment image hp₂, Varint.length_encode] at hcountLen
      dsimp only at hcountStart hcountStop hcountLen ⊢
      rw [hlen]
      omega

end

end BitcoinRs
