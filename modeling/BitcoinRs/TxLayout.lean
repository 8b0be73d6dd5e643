import BitcoinRs.Encode
import BitcoinRs.Library.SpanReader

namespace BitcoinRs

open SpanReader

structure ByteSpan where
  start : UInt32
  len : UInt32
  deriving DecidableEq

def impossible (available : ℕ) : DecodeError := .endOfData (2 ^ 64 - 1) available

namespace ByteSpan

def empty : ByteSpan := ⟨0, 0⟩

def stop (span : ByteSpan) : ℕ := span.start.toNat + span.len.toNat

def checked (start len limit : ℕ) : Except DecodeError ByteSpan :=
  if 2 ^ 64 ≤ start + len then .error (impossible (limit - start))
  else if limit < start + len then .error (.endOfData (start + len - limit) (limit - start))
  else if 2 ^ 32 ≤ start ∨ 2 ^ 32 ≤ len then .error (impossible (limit - start))
  else .ok ⟨UInt32.ofNat start, UInt32.ofNat len⟩

end ByteSpan

abbrev ImageCursor (α : Type) := Cursor DecodeError α

namespace ImageCursor

def take (len : ℕ) : ImageCursor ByteSpan := fun image pos =>
  match ByteSpan.checked pos len image.length with
  | .error e => .error e
  | .ok span => .ok (span, span.stop)

def readU8 : ImageCursor (UInt8 × ByteSpan) := do
  let span ← take 1
  let image ← read
  return (image.getD span.start.toNat 0, span)

def readCompact : ImageCursor (ℕ × ByteSpan) := fun image pos =>
  match Varint.decode (image.drop pos) with
  | .error e => .error (.varint e)
  | .ok (value, consumed) =>
    match ByteSpan.checked pos consumed image.length with
    | .error e => .error e
    | .ok span => .ok ((value, span), span.stop)

def requireCount (count minItemLen : ℕ) : ImageCursor Unit := fun image pos =>
  let minNeeded := min (minItemLen * count) (2 ^ 64 - 1)
  let remaining := image.length - pos
  if remaining < minNeeded then .error (.endOfData (minNeeded - remaining) remaining) else .ok ((), pos)

def spanFrom (start : ℕ) : ImageCursor ByteSpan := fun image pos =>
  match ByteSpan.checked start (pos - start) image.length with
  | .error e => .error e
  | .ok span => .ok (span, pos)

end ImageCursor

open ImageCursor

def sliceAt (image : Bytes) (span : ByteSpan) : Bytes := segment image span.start.toNat span.stop

def minTxLen : ℕ := 10
def minInputLen : ℕ := 41
def minOutputLen : ℕ := 9
def minWitnessItemLen : ℕ := 1
def outpointLen : ℕ := 36

structure InputLayout where
  outpoint : ByteSpan
  scriptSig : ByteSpan
  sequence : ByteSpan
  witness : ByteSpan
  witnessItems : UInt32
  deriving DecidableEq

structure OutputLayout where
  value : ByteSpan
  scriptPubkey : ByteSpan
  deriving DecidableEq

structure ParsedTransaction where
  bytes : Bytes
  span : ByteSpan
  versionSpan : ByteSpan
  inputCountSpan : ByteSpan
  outputCountSpan : ByteSpan
  lockTimeSpan : ByteSpan
  segwit : Bool
  inputs : List InputLayout
  outputs : List OutputLayout
  deriving DecidableEq

structure InputCount where
  value : ℕ
  span : ByteSpan
  outputCountOverride : Option (ℕ × ByteSpan)
  segwit : Bool

namespace ImageCursor

def readFlagged (span : ByteSpan) : ImageCursor InputCount := do
  let (flag, flagSpan) ← readU8
  if flag = 0 then return ⟨0, span, some (0, flagSpan), false⟩
  else if flag = 1 then do
    let (count, span) ← readCompact
    return ⟨count, span, none, true⟩
  else throw (.invalidSegwitFlag flag)

def readInputCount : ImageCursor InputCount := do
  let (value, span) ← readCompact
  if value = 0 then readFlagged span else return ⟨value, span, none, false⟩

def readInput : ImageCursor InputLayout := do
  let outpoint ← take outpointLen
  let (scriptLen, _) ← readCompact
  let scriptSig ← take scriptLen
  let sequence ← take 4
  return ⟨outpoint, scriptSig, sequence, .empty, 0⟩

def readOutputCount (override : Option (ℕ × ByteSpan)) : ImageCursor (ℕ × ByteSpan) :=
  match override with
  | some pair => pure pair
  | none => readCompact

def readOutput : ImageCursor OutputLayout := do
  let value ← take 8
  let (scriptLen, _) ← readCompact
  let scriptPubkey ← take scriptLen
  return ⟨value, scriptPubkey⟩

def readWitnessItem : ImageCursor ByteSpan := do
  let (itemLen, _) ← readCompact
  take itemLen

def readWitnessRegion (itemCount : ℕ) : ImageCursor ByteSpan := fun image start =>
  (do
    let _ ← many readWitnessItem itemCount
    spanFrom start : ImageCursor ByteSpan) image start

def readWitness (input : InputLayout) : ImageCursor InputLayout := do
  let (itemCount, _) ← readCompact
  requireCount itemCount minWitnessItemLen
  let witness ← readWitnessRegion itemCount
  if 2 ^ 32 ≤ itemCount then throw (impossible 0)
  else return { input with witness, witnessItems := UInt32.ofNat itemCount }

def readWitnesses : List InputLayout → ImageCursor (List InputLayout)
  | [] => pure []
  | input :: inputs => do
    let input ← readWitness input
    let inputs ← readWitnesses inputs
    return input :: inputs

def readWitnessPart (segwit : Bool) (inputs : List InputLayout) : ImageCursor (List InputLayout) :=
  if segwit then do
    let inputs ← readWitnesses inputs
    if inputs.all fun input => input.witnessItems = 0 then throw .superfluousWitness else return inputs
  else return inputs

end ImageCursor

def ParsedTransaction.parseRest (txStart : ℕ) (versionSpan : ByteSpan) (inputCount : InputCount)
    (inputs : List InputLayout) (outputCount : ℕ × ByteSpan) : ImageCursor ParsedTransaction := do
  requireCount outputCount.1 minOutputLen
  let outputs ← many readOutput outputCount.1
  let inputs ← readWitnessPart inputCount.segwit inputs
  let lockTimeSpan ← take 4
  let span ← spanFrom txStart
  let bytes ← read
  return {
    bytes, span, versionSpan, inputCountSpan := inputCount.span, outputCountSpan := outputCount.2, lockTimeSpan,
    segwit := inputCount.segwit, inputs, outputs }

def ParsedTransaction.parseFrom (txStart : ℕ) : ImageCursor ParsedTransaction := do
  let versionSpan ← take 4
  let inputCount ← readInputCount
  requireCount inputCount.value minInputLen
  let inputs ← many readInput inputCount.value
  let outputCount ← readOutputCount inputCount.outputCountOverride
  parseRest txStart versionSpan inputCount inputs outputCount

def ParsedTransaction.parseAt : ImageCursor ParsedTransaction := fun image txStart => parseFrom txStart image txStart

section

variable (bytes : Bytes)

def readU32Le : UInt32 := UInt32.ofNat (LittleEndian.decode (bytes.take 4))

def readU64Le : UInt64 := UInt64.ofNat (LittleEndian.decode (bytes.take 8))

def Hash256.fromLeBytes : Hash256 := ⟨(bytes ++ List.replicate 32 0).take 32, by simp⟩

end

section

variable (image : Bytes)

def materializeWitness (region : ByteSpan) (items : UInt32) : List Bytes :=
  match many readWitnessItem items.toNat image region.start.toNat with
  | .ok (spans, _) => spans.map (sliceAt image)
  | .error _ => []

def InputLayout.materialize (layout : InputLayout) : TxIn where
  previousOutput := ⟨.fromLeBytes (sliceAt image layout.outpoint), readU32Le ((sliceAt image layout.outpoint).drop 32)⟩
  scriptSig := sliceAt image layout.scriptSig
  sequence := readU32Le (sliceAt image layout.sequence)
  witness := materializeWitness image layout.witness layout.witnessItems

def OutputLayout.materialize (layout : OutputLayout) : TxOut where
  value := readU64Le (sliceAt image layout.value)
  scriptPubkey := sliceAt image layout.scriptPubkey

end

def ParsedTransaction.materialize (parsed : ParsedTransaction) : Tx where
  version := readU32Le (sliceAt parsed.bytes parsed.versionSpan)
  inputs := parsed.inputs.map (InputLayout.materialize parsed.bytes)
  outputs := parsed.outputs.map (OutputLayout.materialize parsed.bytes)
  lockTime := readU32Le (sliceAt parsed.bytes parsed.lockTimeSpan)

structure ParsedBlock where
  bytes : Bytes
  headerSpan : ByteSpan
  txCountSpan : ByteSpan
  txSpans : List ByteSpan
  txs : List ParsedTransaction
  consumed : ℕ
  deriving DecidableEq

def ParsedBlock.parseAt : ImageCursor ParsedBlock := do
  let headerSpan ← take Header.len
  let (txCount, txCountSpan) ← ImageCursor.readCompact
  requireCount txCount minTxLen
  let txs ← many ParsedTransaction.parseAt txCount
  let bytes ← read
  let consumed ← get
  return { bytes, headerSpan, txCountSpan, txSpans := txs.map (·.span), txs, consumed }

def Header.fromBytes (bytes : Bytes) : Header where
  version := (readU32Le bytes).toInt32
  prevBlockhash := .fromLeBytes (bytes.drop 4)
  merkleRoot := .fromLeBytes (bytes.drop 36)
  time := readU32Le (bytes.drop 68)
  bits := readU32Le (bytes.drop 72)
  nonce := readU32Le (bytes.drop 76)

def ParsedBlock.materialize (parsed : ParsedBlock) : Block where
  header := .fromBytes (sliceAt parsed.bytes parsed.headerSpan)
  txs := parsed.txs.map ParsedTransaction.materialize

def parseFront {α : Type} (parse : ImageCursor α) : ConsensusReader α := fun reader =>
  match parse reader 0 with
  | .error e => .error e
  | .ok (parsed, consumed) => .ok (parsed, reader.drop consumed)

def Tx.consensusDecode : ConsensusReader Tx := do return (← parseFront ParsedTransaction.parseAt).materialize

def Block.consensusDecode : ConsensusReader Block := do return (← parseFront ParsedBlock.parseAt).materialize

open ImageCursor List LittleEndian UInt32

variable {xs : Bytes}

section

lemma encode_readU32Le (h : xs.length = 4) : encode 4 (readU32Le xs).toNat = xs := by
  have hlt := decode_lt xs
  have hencode := encode_decode xs
  rw [h] at hlt hencode
  unfold readU32Le
  rw [take_of_length_le (Nat.le_of_eq h), toNat_ofNat_of_lt' hlt, hencode]

lemma encode_readU64Le (h : xs.length = 8) : encode 8 (readU64Le xs).toNat = xs := by
  have hlt := decode_lt xs
  have hencode := encode_decode xs
  rw [h] at hlt hencode
  unfold readU64Le
  rw [take_of_length_le (Nat.le_of_eq h), UInt64.toNat_ofNat_of_lt' hlt, hencode]

lemma readU32Le_encode (n : UInt32) (rest : Bytes) : readU32Le (encode 4 n.toNat ++ rest) = n := by
  unfold readU32Le
  rw [take_left' (length_encode 4 _), decode_encode 4 _ n.toNat_lt, UInt32.ofNat_toNat]

lemma readU64Le_encode (n : UInt64) (rest : Bytes) : readU64Le (encode 8 n.toNat ++ rest) = n := by
  unfold readU64Le
  rw [take_left' (length_encode 8 _), decode_encode 8 _ n.toNat_lt, UInt64.ofNat_toNat]

lemma Hash256.bytes_fromLeBytes (h : 32 ≤ xs.length) : (Hash256.fromLeBytes xs).bytes = xs.take 32 :=
  take_append_of_le_length h

lemma Hash256.fromLeBytes_bytes (hash : Hash256) (rest : Bytes) : Hash256.fromLeBytes (hash.bytes ++ rest) = hash := by
  apply Hash256.ext
  rw [bytes_fromLeBytes (by rw [length_append, hash.length_bytes]; omega), take_left' hash.length_bytes]

end

section

variable {image : Bytes} {start len limit : ℕ}

lemma ByteSpan.checked_eq_ok {span : ByteSpan} (h : checked start len limit = .ok span) :
    start + len ≤ limit ∧ span.start.toNat = start ∧ span.stop = start + len := by
  unfold checked at h
  split_ifs at h with h1 h2 h3
  cases h
  unfold stop
  rw [toNat_ofNat_of_lt' (show start < size by unfold size; omega),
    toNat_ofNat_of_lt' (show len < size by unfold size; omega)]
  exact ⟨by omega, rfl, rfl⟩

lemma ByteSpan.checked_ok (hlimit : start + len ≤ limit) (hbound : start + len < 2 ^ 32) :
    ∃ span, checked start len limit = .ok span ∧ span.start.toNat = start ∧ span.stop = start + len := by
  have hok : checked start len limit = .ok ⟨ofNat start, ofNat len⟩ := by
    unfold checked
    rw [if_neg (by omega), if_neg (by omega), if_neg (by omega)]
  exact ⟨_, hok, (checked_eq_ok hok).2⟩

lemma sound_take (n : ℕ) : Sound image (take n) fun span xs => sliceAt image span = xs ∧ xs.length = n := by
  intro pos span stop _ h
  unfold ImageCursor.take at h
  split at h
  · cases h
  · rename_i hspan
    cases h
    obtain ⟨hlimit, hstart, hstop⟩ := ByteSpan.checked_eq_ok hspan
    refine ⟨by omega, by omega, ?_, ?_⟩
    · unfold sliceAt
      rw [hstart]
    · rw [length_segment image (by omega)]
      omega

lemma sound_readCompact : Sound image ImageCursor.readCompact fun r xs => xs = Varint.encode r.1 ∧ r.1 < 2 ^ 64 := by
  intro pos r stop _ h
  unfold ImageCursor.readCompact at h
  split at h
  · cases h
  · rename_i value consumed hdecode
    split at h
    · cases h
    · rename_i hspan
      cases h
      obtain ⟨hlimit, hstart, hstop⟩ := ByteSpan.checked_eq_ok hspan
      obtain ⟨hlt, _, htake⟩ := Varint.decode_sound hdecode
      refine ⟨by omega, by omega, ?_, hlt⟩
      unfold SpanReader.segment
      rw [hstop, drop_take, Nat.add_sub_cancel_left, htake]

lemma sound_requireCount (count len : ℕ) : Sound image (requireCount count len) fun _ xs => xs = [] := by
  intro pos r stop hpos h
  unfold requireCount at h
  dsimp only at h
  split at h
  · cases h
  · cases h
    exact ⟨Nat.le_refl _, hpos, segment_self image pos⟩

lemma sound_spanFrom (start : ℕ) : Sound image (spanFrom start) fun span xs => xs = [] ∧ span.start.toNat = start := by
  intro pos r stop hpos h
  unfold spanFrom at h
  split at h
  · cases h
  · rename_i hspan
    cases h
    exact ⟨Nat.le_refl _, hpos, segment_self image pos, (ByteSpan.checked_eq_ok hspan).2.1⟩

lemma sound_read : Sound image (read : ImageCursor Bytes) fun bytes xs => bytes = image ∧ xs = [] := by
  intro pos bytes stop hpos h
  cases h
  exact ⟨Nat.le_refl _, hpos, rfl, segment_self image pos⟩

lemma sound_readU8 : Sound image readU8 fun r xs => xs = [r.1] := by
  apply (sound_take 1).bind
  rintro span xs ⟨hslice, hlen⟩
  apply sound_read.bind
  rintro bytes _ ⟨hbytes, rfl⟩
  rw [hbytes]
  apply Sound.pure
  obtain ⟨byte, rfl⟩ := length_eq_one_iff.mp hlen
  have hget : image.getD span.start.toNat 0 = byte := by
    have hhead : (image.drop span.start.toNat).head? = some byte := by
      unfold sliceAt SpanReader.segment at hslice
      rw [drop_take] at hslice
      cases hdrop : image.drop span.start.toNat with
      | nil => simp [hdrop] at hslice
      | cons b rest =>
        rw [hdrop] at hslice
        cases hn : span.stop - span.start.toNat with
        | zero => simp [hn] at hslice
        | succ n =>
          rw [hn] at hslice
          rw [head?_cons, (cons.inj hslice).1]
    rw [head?_drop] at hhead
    rw [getD_eq_getElem?_getD, hhead]
    rfl
  rw [hget]
  rfl

end

section

variable {image : Bytes} {tx : Tx}

lemma sound_readScript : Sound image readWitnessItem fun span xs => xs = writeScript (sliceAt image span) ∧ True := by
  apply sound_readCompact.bind
  rintro ⟨len, span⟩ _ ⟨rfl, _⟩
  apply (sound_take len).mono
  rintro span xs ⟨rfl, rfl⟩
  exact ⟨rfl, trivial⟩

lemma sound_readInput : Sound image readInput fun layout xs =>
    xs = (layout.materialize image).consensusEncode ∧ (layout.materialize image).witness = [] := by
  apply (sound_take outpointLen).bind
  rintro outpoint xs ⟨rfl, hlen⟩
  apply sound_readCompact.bind
  rintro ⟨len, _⟩ _ ⟨rfl, _⟩
  apply (sound_take len).bind
  rintro scriptSig _ ⟨rfl, rfl⟩
  apply (sound_take 4).bind
  rintro sequence xs ⟨rfl, hsequence⟩
  apply Sound.pure
  refine ⟨?_, rfl⟩
  have hlen' : (sliceAt image outpoint).length = 36 := hlen
  have htail : ((sliceAt image outpoint).drop 32).length = 4 := by
    rw [length_drop, hlen']
  unfold TxIn.consensusEncode OutPoint.consensusEncode InputLayout.materialize writeScript
  dsimp only
  rw [Hash256.bytes_fromLeBytes (by omega), encode_readU32Le htail, encode_readU32Le hsequence,
    take_append_drop, append_nil, append_assoc]

lemma sound_readOutput : Sound image readOutput fun layout xs =>
    xs = (layout.materialize image).consensusEncode ∧ True := by
  apply (sound_take 8).bind
  rintro value xs ⟨rfl, hlen⟩
  apply sound_readCompact.bind
  rintro ⟨len, _⟩ _ ⟨rfl, _⟩
  apply (sound_take len).bind
  rintro scriptPubkey _ ⟨rfl, rfl⟩
  apply Sound.pure
  refine ⟨?_, trivial⟩
  unfold TxOut.consensusEncode OutputLayout.materialize writeScript
  rw [encode_readU64Le hlen, append_nil]

lemma sound_readWitnessRegion (count : ℕ) : Sound image (readWitnessRegion count) fun region xs =>
    ∃ spans stop, many readWitnessItem count image region.start.toNat = .ok (spans, stop) ∧ spans.length = count ∧
      xs = (spans.map (sliceAt image)).flatMap writeScript := by
  intro pos region stop hpos h
  obtain ⟨spans, mid, hmany, hspan⟩ := bind_eq_ok.mp h
  obtain ⟨h₁, h₂, hbytes, hlen, _⟩ := sound_readScript.many count pos spans mid hpos hmany
  obtain ⟨h₃, h₄, hnil, hstart⟩ := sound_spanFrom pos mid region stop h₂ hspan
  refine ⟨Nat.le_trans h₁ h₃, h₄, spans, mid, hstart ▸ hmany, hlen, ?_⟩
  rw [← segment_append image h₁ h₃, hnil, hbytes, append_nil, flatMap_map]

lemma sound_readWitness (input : InputLayout) : Sound image (readWitness input) fun out xs =>
    xs = writeWitness (out.materialize image).witness ∧
      (out.materialize image).consensusEncode = (input.materialize image).consensusEncode ∧
      ((out.materialize image).witness = [] ↔ out.witnessItems = 0) := by
  apply sound_readCompact.bind
  rintro ⟨count, _⟩ _ ⟨rfl, _⟩
  apply (sound_requireCount count minWitnessItemLen).bind
  rintro _ _ rfl
  apply (sound_readWitnessRegion count).bind
  rintro region _ ⟨spans, stop, hmany, hlen, rfl⟩
  split
  · exact Sound.throw
  · apply Sound.pure
    have hitems : (ofNat count).toNat = count := toNat_ofNat_of_lt' (show count < size by unfold size; omega)
    have hwitness : materializeWitness image region (ofNat count) = spans.map (sliceAt image) := by
      unfold materializeWitness
      rw [hitems, hmany]
    unfold InputLayout.materialize
    rw [hwitness]
    refine ⟨?_, rfl, ?_⟩
    · unfold writeWitness
      rw [length_map, hlen, append_nil, nil_append]
    · rw [map_eq_nil_iff, ← length_eq_zero_iff, hlen, ← UInt32.toNat_inj, hitems]
      rfl

lemma sound_readWitnesses (inputs : List InputLayout) : Sound image (readWitnesses inputs) fun outs xs =>
    xs = outs.flatMap (fun out => writeWitness (out.materialize image).witness) ∧ outs.length = inputs.length ∧
      outs.flatMap (fun out => (out.materialize image).consensusEncode) =
        inputs.flatMap (fun input => (input.materialize image).consensusEncode) ∧
      ∀ out ∈ outs, (out.materialize image).witness = [] ↔ out.witnessItems = 0 := by
  induction inputs with
  | nil => exact Sound.pure ⟨rfl, rfl, rfl, fun out hout => by cases hout⟩
  | cons input inputs ih =>
    apply (sound_readWitness input).bind
    rintro out _ ⟨rfl, hbase, hempty⟩
    apply ih.bind
    rintro outs _ ⟨rfl, hlen, hbases, hempties⟩
    apply Sound.pure
    refine ⟨?_, ?_, ?_, forall_mem_cons.mpr ⟨hempty, hempties⟩⟩
    · rw [flatMap_cons, append_nil]
    · rw [length_cons, length_cons, hlen]
    · rw [flatMap_cons, flatMap_cons, hbase, hbases]

inductive CountForm : InputCount → Bytes → Prop
  | plain (value : ℕ) (span : ByteSpan) (hvalue : value ≠ 0) :
    CountForm ⟨value, span, none, false⟩ (Varint.encode value)
  | bare (span flagSpan : ByteSpan) : CountForm ⟨0, span, some (0, flagSpan), false⟩ [0, 0]
  | flagged (value : ℕ) (span : ByteSpan) : CountForm ⟨value, span, none, true⟩ ([0, 1] ++ Varint.encode value)

lemma sound_readInputCount : Sound image readInputCount CountForm := by
  apply sound_readCompact.bind
  rintro ⟨value, span⟩ _ ⟨rfl, _⟩
  dsimp only
  split
  · rename_i hzero
    subst hzero
    apply sound_readU8.bind
    rintro ⟨flag, flagSpan⟩ _ rfl
    dsimp only
    split
    · rename_i hflag
      subst hflag
      exact Sound.pure (CountForm.bare span flagSpan)
    · split
      · rename_i hflag
        subst hflag
        apply sound_readCompact.bind
        rintro ⟨count, span⟩ _ ⟨rfl, _⟩
        apply Sound.pure
        rw [append_nil]
        exact CountForm.flagged count span
      · exact Sound.throw
  · rename_i hvalue
    apply Sound.pure
    rw [append_nil]
    exact CountForm.plain value span hvalue

inductive WitnessForm (image : Bytes) (inputs : List InputLayout) : Bool → List InputLayout → Bytes → Prop
  | none : WitnessForm image inputs false inputs []
  | some (outs : List InputLayout) (hlen : outs.length = inputs.length)
    (hbase : outs.flatMap (fun out => (out.materialize image).consensusEncode) =
      inputs.flatMap fun input => (input.materialize image).consensusEncode)
    (hsome : ∃ out ∈ outs, (out.materialize image).witness ≠ []) :
    WitnessForm image inputs true outs (outs.flatMap fun out => writeWitness (out.materialize image).witness)

lemma sound_readWitnessPart (segwit : Bool) (inputs : List InputLayout) :
    Sound image (readWitnessPart segwit inputs) (WitnessForm image inputs segwit) := by
  cases segwit with
  | false => exact Sound.pure WitnessForm.none
  | true =>
    apply (sound_readWitnesses inputs).bind
    rintro outs _ ⟨rfl, hlen, hbase, hempty⟩
    split
    · exact Sound.throw
    · rename_i hall
      apply Sound.pure
      rw [append_nil]
      refine WitnessForm.some outs hlen hbase ?_
      rw [all_eq_true, not_forall] at hall
      obtain ⟨out, hout⟩ := hall
      rw [Classical.not_imp, decide_eq_true_iff] at hout
      exact ⟨out, hout.1, fun hnil => hout.2 ((hempty out hout.1).mp hnil)⟩

lemma sound_parseRest (txStart : ℕ) (versionSpan : ByteSpan) (inputCount : InputCount) (inputs : List InputLayout)
    (outputCount : ℕ × ByteSpan) :
    Sound image (ParsedTransaction.parseRest txStart versionSpan inputCount inputs outputCount) fun parsed xs =>
      parsed.bytes = image ∧ parsed.versionSpan = versionSpan ∧ parsed.outputs.length = outputCount.1 ∧
      ∃ witnesses, WitnessForm image inputs inputCount.segwit parsed.inputs witnesses ∧
        xs = parsed.materialize.outputs.flatMap TxOut.consensusEncode ++
          (witnesses ++ encode 4 parsed.materialize.lockTime.toNat) := by
  apply (sound_requireCount outputCount.1 minOutputLen).bind
  rintro _ _ rfl
  apply (sound_readOutput.many outputCount.1).bind
  rintro outputs _ ⟨rfl, hlen, _⟩
  apply (sound_readWitnessPart inputCount.segwit inputs).bind
  intro outs witnesses hform
  apply (sound_take 4).bind
  rintro lockTimeSpan _ ⟨rfl, hlock⟩
  apply (sound_spanFrom txStart).bind
  rintro span _ ⟨rfl, _⟩
  apply sound_read.bind
  rintro bytes _ ⟨hbytes, rfl⟩
  apply Sound.pure
  refine ⟨hbytes, rfl, hlen, witnesses, hform, ?_⟩
  unfold ParsedTransaction.materialize
  rw [hbytes, encode_readU32Le hlock, flatMap_map]
  simp

lemma hasWitness_eq_false (h : ∀ input ∈ tx.inputs, input.witness = []) : tx.hasWitness = false := by
  unfold Tx.hasWitness
  rw [any_eq_false]
  intro input hinput
  rw [h input hinput]
  decide

lemma hasWitness_eq_true (h : ∃ input ∈ tx.inputs, input.witness ≠ []) : tx.hasWitness = true := by
  obtain ⟨input, hinput, hwitness⟩ := h
  unfold Tx.hasWitness
  rw [any_eq_true]
  exact ⟨input, hinput, by simpa using hwitness⟩

lemma encodeTx_of_hasWitness_false (h : tx.hasWitness = false) : encodeTx tx = encodeTxBase tx := by
  unfold encodeTx
  rw [h]
  rfl

lemma encodeTx_of_plain (h : ∀ input ∈ tx.inputs, input.witness = []) : encodeTx tx = encodeTxBase tx :=
  encodeTx_of_hasWitness_false (hasWitness_eq_false h)

lemma encodeTx_of_witness (h : ∃ input ∈ tx.inputs, input.witness ≠ []) :
    encodeTx tx = encode 4 tx.version.toNat ++ ([0x00, 0x01] ++ (encodeTxInputsAndOutputs tx ++
      ((tx.inputs.flatMap fun input => writeWitness input.witness) ++ encode 4 tx.lockTime.toNat))) := by
  unfold encodeTx
  rw [hasWitness_eq_true h]
  rfl

section

variable {parsed : ParsedTransaction} (hbytes : parsed.bytes = image)

include hbytes

lemma materialize_inputs : parsed.materialize.inputs = parsed.inputs.map (InputLayout.materialize image) := by
  rw [← hbytes]
  rfl

lemma materialize_version {versionSpan : ByteSpan} (hspan : parsed.versionSpan = versionSpan) :
    parsed.materialize.version = readU32Le (sliceAt image versionSpan) := by
  rw [← hbytes, ← hspan]
  rfl

end

lemma length_materialize_outputs (parsed : ParsedTransaction) :
    parsed.materialize.outputs.length = parsed.outputs.length := length_map _

lemma sound_parseTransaction :
    Sound image ParsedTransaction.parseAt fun parsed xs => xs = encodeTx parsed.materialize ∧ True := by
  intro pos
  suffices hfrom : Sound image (ParsedTransaction.parseFrom pos) fun parsed xs =>
      xs = encodeTx parsed.materialize ∧ True from hfrom pos
  apply (sound_take 4).bind
  rintro versionSpan _ ⟨rfl, hversion⟩
  apply sound_readInputCount.bind
  intro inputCount xs hform
  apply (sound_requireCount inputCount.value minInputLen).bind
  rintro _ _ rfl
  apply (sound_readInput.many inputCount.value).bind
  rintro inputs _ ⟨rfl, hinputs, hplain⟩
  have hversion' := encode_readU32Le hversion
  cases hform with
  | plain value span hvalue =>
    apply sound_readCompact.bind
    rintro outputCount _ ⟨rfl, _⟩
    apply (sound_parseRest pos versionSpan _ inputs outputCount).mono
    rintro parsed _ ⟨hbytes, hspan, hlen, witnesses, hwitness, rfl⟩
    generalize hsame : parsed.inputs = outs at hwitness
    cases hwitness
    have htx : encodeTx parsed.materialize = encodeTxBase parsed.materialize := by
      apply encodeTx_of_plain
      rw [materialize_inputs hbytes, hsame]
      exact forall_mem_map.mpr hplain
    refine ⟨?_, trivial⟩
    rw [htx]
    unfold encodeTxBase encodeTxInputsAndOutputs
    rw [materialize_version hbytes hspan, hversion', materialize_inputs hbytes, hsame, length_map, hinputs,
      length_materialize_outputs, hlen, flatMap_map]
    simp
  | bare span flagSpan =>
    apply Sound.bind (Sound.pure (P := fun r xs => r = (0, flagSpan) ∧ xs = []) ⟨rfl, rfl⟩)
    rintro _ _ ⟨rfl, rfl⟩
    apply (sound_parseRest pos versionSpan _ inputs (0, flagSpan)).mono
    rintro parsed _ ⟨hbytes, hspan, hlen, witnesses, hwitness, rfl⟩
    generalize hsame : parsed.inputs = outs at hwitness
    cases hwitness
    have hnil : inputs = [] := length_eq_zero_iff.mp hinputs
    subst hnil
    have hmaterialized : parsed.materialize.inputs = [] := by rw [materialize_inputs hbytes, hsame, map_nil]
    have houtputs : parsed.materialize.outputs = [] := by
      rw [← length_eq_zero_iff, length_materialize_outputs, hlen]
    have htx : encodeTx parsed.materialize = encodeTxBase parsed.materialize := by
      apply encodeTx_of_plain
      rw [hmaterialized]
      exact fun input hinput => by cases hinput
    refine ⟨?_, trivial⟩
    rw [htx]
    unfold encodeTxBase encodeTxInputsAndOutputs
    rw [materialize_version hbytes hspan, hversion', hmaterialized, houtputs]
    rfl
  | flagged value span =>
    apply sound_readCompact.bind
    rintro outputCount _ ⟨rfl, _⟩
    apply (sound_parseRest pos versionSpan _ inputs outputCount).mono
    rintro parsed _ ⟨hbytes, hspan, hlen, witnesses, hwitness, rfl⟩
    generalize hsame : parsed.inputs = outs at hwitness
    cases hwitness with
    | some _ hcount hbase hsome =>
      have hne : ∃ input ∈ parsed.materialize.inputs, input.witness ≠ [] := by
        obtain ⟨out, hout, hne⟩ := hsome
        rw [materialize_inputs hbytes, hsame]
        exact ⟨_, mem_map_of_mem hout, hne⟩
      refine ⟨?_, trivial⟩
      rw [encodeTx_of_witness hne]
      unfold encodeTxInputsAndOutputs
      rw [materialize_version hbytes hspan, hversion', materialize_inputs hbytes, hsame, length_map, hcount, hinputs,
        length_materialize_outputs, hlen, flatMap_map, flatMap_map, hbase]
      simp

lemma toBytes_fromBytes (h : xs.length = Header.len) : (Header.fromBytes xs).toBytes = xs := by
  have hlen : xs.length = 80 := h
  have hword : ∀ k, k + 4 ≤ 80 → encode 4 (readU32Le (xs.drop k)).toNat = (xs.drop k).take 4 := by
    intro k hk
    have htake : ((xs.drop k).take 4).length = 4 := by
      rw [length_take, length_drop]
      omega
    have hread : readU32Le (xs.drop k) = readU32Le ((xs.drop k).take 4) := by
      unfold readU32Le
      rw [take_take, Nat.min_self]
    rw [hread, encode_readU32Le htake]
  have hhash : ∀ k, k + 32 ≤ 80 → (Hash256.fromLeBytes (xs.drop k)).bytes = (xs.drop k).take 32 := by
    intro k hk
    apply Hash256.bytes_fromLeBytes
    rw [length_drop]
    omega
  have hsplit : ∀ k n, (xs.drop k).take n ++ xs.drop (k + n) = xs.drop k := by
    intro k n
    rw [← drop_drop, take_append_drop]
  have hlast : (xs.drop 76).take 4 = xs.drop 76 := by
    apply take_of_length_le
    rw [length_drop]
    omega
  have hfirst := hword 0 (by omega)
  rw [drop_zero] at hfirst
  unfold Header.toBytes Header.fromBytes
  rw [toUInt32_toInt32, hfirst, hhash 4 (by omega), hhash 36 (by omega), hword 68 (by omega), hword 72 (by omega),
    hword 76 (by omega), hlast, hsplit 72 4, hsplit 68 4, hsplit 36 32, hsplit 4 32, take_append_drop]

lemma sound_parseBlock : Sound image ParsedBlock.parseAt fun parsed xs => xs = parsed.materialize.consensusEncode := by
  apply (sound_take Header.len).bind
  rintro headerSpan _ ⟨rfl, hheader⟩
  apply sound_readCompact.bind
  rintro ⟨txCount, txCountSpan⟩ _ ⟨rfl, _⟩
  apply (sound_requireCount txCount minTxLen).bind
  rintro _ _ rfl
  apply (sound_parseTransaction.many txCount).bind
  rintro txs _ ⟨rfl, hlen, _⟩
  apply sound_read.bind
  rintro bytes _ ⟨hbytes, rfl⟩
  intro pos parsed stop hpos h
  cases h
  refine ⟨Nat.le_refl _, hpos, ?_⟩
  rw [segment_self]
  unfold Block.consensusEncode ParsedBlock.materialize
  dsimp only
  rw [hbytes, toBytes_fromBytes hheader, length_map, hlen, flatMap_map]
  simp

lemma deserialize_sound {α β : Type} {parse : ImageCursor α} {view : α → β} {encode : β → Bytes} {bytes : Bytes} {b : β}
    (hparse : Sound bytes parse fun a xs => xs = encode (view a))
    (h : deserialize (do return view (← parseFront parse)) bytes = .ok b) : encode b = bytes := by
  have hread : (do return view (← parseFront parse) : ConsensusReader β) bytes =
      (parse bytes 0).map fun x => (view x.1, bytes.drop x.2) := by
    show (parseFront parse bytes >>= fun x => pure (view x.1, x.2)) = _
    unfold parseFront
    cases parse bytes 0 with
    | error e => rfl
    | ok x => rfl
  unfold deserialize at h
  rw [hread] at h
  cases hresult : parse bytes 0 with
  | error e =>
    rw [hresult] at h
    cases h
  | ok x =>
    obtain ⟨a, consumed⟩ := x
    rw [hresult] at h
    dsimp only [Except.map] at h
    split at h
    · cases h
    · rename_i hrest
      cases h
      obtain ⟨_, hle, hbytes⟩ := hparse 0 a consumed (Nat.zero_le _) hresult
      have hall : consumed = bytes.length := by
        rw [length_drop] at hrest
        omega
      rw [← hbytes, hall]
      unfold SpanReader.segment
      rw [take_length, drop_zero]

end

end BitcoinRs
