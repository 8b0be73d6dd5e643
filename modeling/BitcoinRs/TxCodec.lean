import BitcoinRs.TxLayout

namespace BitcoinRs

open SpanReader ImageCursor List LittleEndian ReadsAs ParsedTransaction

/-- The transactions that the wire format can tell apart: an empty input count with outputs reads as a marker. -/
def Tx.Encodable (tx : Tx) : Prop := tx.inputs ≠ [] ∨ tx.inputs = [] ∧ tx.outputs = []

def spanLimit : ℕ := 2 ^ 32

section

variable {image : Bytes} {lower : ℕ} {tx : Tx} {layouts : List InputLayout}

lemma reads_take (xs : Bytes) : ReadsAs lower spanLimit image (take xs.length) (fun span => sliceAt image span =
    xs) xs := by
  intro pos rest hlower hpos hdrop hbound
  obtain ⟨span, hok, hstart, hstop⟩ := ByteSpan.checked_ok (le_length_of_drop hdrop hpos) hbound
  refine ⟨span, ?_, ?_⟩
  · unfold ImageCursor.take
    rw [hok]
    dsimp only
    rw [hstop]
  · show segment image span.start.toNat span.stop = xs
    rw [hstart, hstop]
    exact segment_of_drop hdrop

lemma reads_take_of_length {n : ℕ} {xs : Bytes} (h : xs.length = n) :
    ReadsAs lower spanLimit image (take n) (fun span => sliceAt image span = xs) xs := h ▸ reads_take xs

lemma reads_compact {value : ℕ} (hvalue : value < 2 ^ 64) :
    ReadsAs lower spanLimit image ImageCursor.readCompact (fun r => r.1 = value) (Varint.encode value) := by
  intro pos rest hlower hpos hdrop hbound
  obtain ⟨span, hok, _, hstop⟩ := ByteSpan.checked_ok (le_length_of_drop hdrop hpos) hbound
  refine ⟨(value, span), ?_, rfl⟩
  unfold ImageCursor.readCompact
  rw [hdrop, Varint.decode_encode value rest hvalue]
  dsimp only
  rw [hok]
  dsimp only
  rw [hstop]

lemma reads_requireCount {α : Type} {p : ImageCursor α} {Q : α → Prop} {count len : ℕ} {xs : Bytes}
    (hp : ReadsAs lower spanLimit image p Q xs) (hlen : len * count ≤ xs.length) :
    ReadsAs lower spanLimit image (requireCount count len >>= fun _ => p) Q xs := by
  intro pos rest hlower hpos hdrop hbound
  obtain ⟨a, ha, hQ⟩ := hp pos rest hlower hpos hdrop hbound
  refine ⟨a, bind_eq_ok.mpr ⟨(), pos, ?_, ha⟩, hQ⟩
  have hle := le_length_of_drop hdrop hpos
  unfold requireCount
  rw [if_neg (by omega)]

lemma mul_le_length_flatMap {β : Type} {encode : β → Bytes} {len : ℕ} (items : List β)
    (h : ∀ item, len ≤ (encode item).length) : len * items.length ≤ (items.flatMap encode).length := by
  induction items with
  | nil => simp
  | cons item items ih =>
    have hitem := h item
    rw [flatMap_cons, length_append, length_cons, Nat.mul_succ]
    omega

lemma reads_spanFrom {start : ℕ} (hstart : start ≤ lower) :
    ReadsAs lower spanLimit image (spanFrom start) (fun span => span.start.toNat = start) [] := by
  intro pos rest hlower hpos hdrop hbound
  have hlt : pos < 2 ^ 32 := hbound
  obtain ⟨span, hok, hspan, _⟩ := @ByteSpan.checked_ok start (pos - start) image.length (by omega) (by omega)
  refine ⟨span, ?_, hspan⟩
  unfold spanFrom
  rw [hok]
  rfl

lemma reads_witnessItem {item : Bytes} (h : item.length < 2 ^ 64) :
    ReadsAs lower spanLimit image readWitnessItem (fun span => sliceAt image span = item) (writeScript item) := by
  apply (reads_compact h).bind
  rintro ⟨len, span⟩ rfl
  exact reads_take item

variable {input : TxIn}

lemma reads_input (h : input.scriptSig.length < 2 ^ 64) :
    ReadsAs lower spanLimit image readInput (fun layout => layout.materialize image = { input with witness := [] })
      input.consensusEncode := by
  apply (reads_take_of_length (OutPoint.length_consensusEncode input.previousOutput)).bind
  intro outpoint houtpoint
  unfold writeScript
  rw [append_assoc]
  apply (reads_compact h).bind
  rintro ⟨len, span⟩ rfl
  apply (reads_take input.scriptSig).bind
  intro scriptSig hscript
  apply (reads_take_of_length (length_encode 4 input.sequence.toNat)).map
  intro sequence hsequence
  have hvout : (sliceAt image outpoint).drop 32 = encode 4 input.previousOutput.vout.toNat := by
    rw [houtpoint]
    exact drop_left' input.previousOutput.txid.length_bytes
  have hword : ∀ n : UInt32, readU32Le (encode 4 n.toNat) = n := by
    intro n
    have hread := readU32Le_encode n []
    rwa [append_nil] at hread
  unfold InputLayout.materialize
  rw [hvout, hscript, hsequence, houtpoint, hword, hword]
  unfold OutPoint.consensusEncode
  rw [Hash256.fromLeBytes_bytes]
  rfl

lemma reads_output {output : TxOut} (h : output.scriptPubkey.length < 2 ^ 64) :
    ReadsAs lower spanLimit image readOutput (fun layout => layout.materialize image =
      output) output.consensusEncode := by
  apply (reads_take_of_length (length_encode 8 output.value.toNat)).bind
  intro value hvalue
  apply (reads_compact h).bind
  rintro ⟨len, span⟩ rfl
  apply (reads_take output.scriptPubkey).map
  intro script hscript
  have hread := readU64Le_encode output.value []
  rw [append_nil] at hread
  unfold OutputLayout.materialize
  rw [hvalue, hscript, hread]

lemma reads_witnessRegion {items : List Bytes} (h : ∀ item ∈ items, item.length < 2 ^ 64) :
    ReadsAs lower spanLimit image (readWitnessRegion items.length)
      (fun region => ∃ spans stop, many readWitnessItem items.length image region.start.toNat = .ok (spans, stop) ∧
        spans.map (sliceAt image) = items) (items.flatMap writeScript) := by
  intro pos rest hlower hpos hdrop hbound
  have hitems : ReadsAs lower spanLimit image (many readWitnessItem items.length)
      (fun spans => spans.map (sliceAt image) = items) (items.flatMap writeScript) :=
    many items fun item hitem => reads_witnessItem (h item hitem)
  obtain ⟨spans, hmany, hspans⟩ := hitems pos rest hlower hpos hdrop hbound
  obtain ⟨region, hregion, hstart⟩ := @reads_spanFrom image pos pos (Nat.le_refl _) _ rest (Nat.le_add_right _ _)
    (le_length_of_drop hdrop hpos) (drop_of_drop hdrop) hbound
  exact ⟨region, bind_eq_ok.mpr ⟨spans, _, hmany, hregion⟩, spans, _, hstart.symm ▸ hmany, hspans⟩

lemma one_le_length_writeScript (item : Bytes) : 1 ≤ (writeScript item).length := by
  have hpos := Varint.encodedLen_pos item.length
  unfold writeScript
  rw [length_append, Varint.length_encode]
  omega

lemma reads_witness {layout : InputLayout} (hlayout : layout.materialize image = { input with witness := [] })
    (hitems : ∀ item ∈ input.witness, item.length < 2 ^ 64) (hcount : input.witness.length < 2 ^ 32) :
    ReadsAs lower spanLimit image (readWitness layout) (fun out => out.materialize image = input ∧
      (out.witnessItems = 0 ↔ input.witness = [])) (writeWitness input.witness) := by
  apply (reads_compact (by omega)).bind
  rintro ⟨count, span⟩ rfl
  apply reads_requireCount
  · apply (reads_witnessRegion hitems).bind_nil
    rintro region ⟨spans, stop, hmany, hspans⟩
    rw [if_neg (by omega)]
    apply ReadsAs.pure
    have hcount' : (UInt32.ofNat input.witness.length).toNat = input.witness.length := UInt32.toNat_ofNat_of_lt' hcount
    have hwitness : materializeWitness image region (UInt32.ofNat input.witness.length) = input.witness := by
      unfold materializeWitness
      rw [hcount', hmany]
      exact hspans
    constructor
    · have hbase : ({ layout.materialize image with witness := input.witness } : TxIn) = input := by rw [hlayout]
      rw [← hbase]
      unfold InputLayout.materialize
      rw [hwitness]
    · rw [← UInt32.toNat_inj, hcount', ← length_eq_zero_iff]
      rfl
  · exact mul_le_length_flatMap input.witness one_le_length_writeScript

structure TxIn.Bounded (input : TxIn) : Prop where
  script : input.scriptSig.length < 2 ^ 64
  items : ∀ item ∈ input.witness, item.length < 2 ^ 64
  count : input.witness.length < 2 ^ 32

lemma reads_witnesses {inputs : List TxIn} (hbounded : ∀ input ∈ inputs, input.Bounded)
    (hlayouts : layouts.map (InputLayout.materialize image) = inputs.map fun input => { input with witness := [] }) :
    ReadsAs lower spanLimit image (readWitnesses layouts) (fun outs => outs.map (InputLayout.materialize image) =
      inputs ∧
      (outs.all (fun out => out.witnessItems = 0) = inputs.all fun input => input.witness.isEmpty))
      (inputs.flatMap fun input => writeWitness input.witness) := by
  induction inputs generalizing layouts with
  | nil =>
    obtain rfl : layouts = [] := map_eq_nil_iff.mp hlayouts
    exact pure ⟨rfl, rfl⟩
  | cons input inputs ih =>
    cases layouts with
    | nil => cases hlayouts
    | cons layout layouts =>
      obtain ⟨hlayout, hrest⟩ := cons.inj hlayouts
      obtain ⟨hinput, hinputs⟩ := forall_mem_cons.mp hbounded
      apply (reads_witness hlayout hinput.items hinput.count).bind
      rintro out ⟨hout, hzero⟩
      apply (ih hinputs hrest).map
      rintro outs ⟨houts, hall⟩
      refine ⟨by rw [map_cons, hout, houts], ?_⟩
      rw [all_cons]
      congr 1
      rw [Bool.eq_iff_iff, decide_eq_true_iff, hzero, List.isEmpty_iff]

lemma reads_read : ReadsAs lower spanLimit image (read : ImageCursor Bytes) (fun bytes => bytes = image) [] :=
  fun _ _ _ _ _ _ => ⟨image, rfl, rfl⟩

lemma length_le_flatMap {β : Type} (encode : β → Bytes) {items : List β} {item : β} (h : item ∈ items) :
    (encode item).length ≤ (items.flatMap encode).length := by
  obtain ⟨before, after, rfl⟩ := append_of_mem h
  rw [flatMap_append, flatMap_cons, length_append, length_append]
  omega

lemma length_le_writeScript (script : Bytes) : script.length ≤ (writeScript script).length := by
  unfold writeScript
  rw [length_append]
  omega

variable (input)

lemma TxIn.length_scriptSig_le : input.scriptSig.length ≤ input.consensusEncode.length := by
  have hscript := length_le_writeScript input.scriptSig
  unfold TxIn.consensusEncode
  rw [length_append, length_append]
  omega

variable (output : TxOut)

lemma TxOut.length_scriptPubkey_le : output.scriptPubkey.length ≤ output.consensusEncode.length := by
  have hscript := length_le_writeScript output.scriptPubkey
  unfold TxOut.consensusEncode
  rw [length_append]
  omega

lemma length_items_le (witness : List Bytes) : (witness.flatMap writeScript).length ≤
    (writeWitness witness).length := by
  unfold writeWitness
  rw [length_append]
  omega

def Tx.witnessBytes (tx : Tx) : Bytes :=
  if tx.hasWitness then tx.inputs.flatMap fun input => writeWitness input.witness else []

lemma reads_witnessPart (hbounded : ∀ input ∈ tx.inputs, input.Bounded)
    (hlayouts : layouts.map (InputLayout.materialize image) = tx.inputs.map fun input => { input with witness := [] }) :
    ReadsAs lower spanLimit image (readWitnessPart tx.hasWitness layouts)
      (fun outs => outs.map (InputLayout.materialize image) = tx.inputs) tx.witnessBytes := by
  unfold readWitnessPart Tx.witnessBytes
  cases hwitness : tx.hasWitness with
  | true =>
    apply (reads_witnesses hbounded hlayouts).bind_nil
    rintro outs ⟨houts, hall⟩
    have hsome : (tx.inputs.all fun input => input.witness.isEmpty) = false := by
      unfold Tx.hasWitness at hwitness
      simpa using hwitness
    rw [hall, hsome]
    exact pure houts
  | false =>
    apply ReadsAs.pure
    rw [hlayouts]
    unfold Tx.hasWitness at hwitness
    rw [any_eq_false] at hwitness
    conv_rhs => rw [← map_id tx.inputs]
    apply map_congr_left
    intro input hinput
    have hnil : input.witness = [] := by simpa using hwitness input hinput
    rw [← hnil]
    rfl

lemma reads_u8 (byte : UInt8) : ReadsAs lower spanLimit image readU8 (fun r => r.1 = byte) [byte] := by
  intro pos rest hlower hpos hdrop hbound
  obtain ⟨r, hread⟩ : ∃ r, readU8 image pos = .ok (r, pos + 1) := by
    have hspan : ReadsAs lower spanLimit image (take 1) (fun span => sliceAt image span = [byte]) [byte] :=
      reads_take [byte]
    obtain ⟨span, htake, _⟩ := hspan pos rest hlower hpos hdrop hbound
    exact ⟨_, bind_eq_ok.mpr ⟨span, _, htake, rfl⟩⟩
  obtain ⟨_, _, hbyte⟩ := sound_readU8 pos r _ hpos hread
  have hseg : segment image pos (pos + [byte].length) = [byte] := segment_of_drop hdrop
  refine ⟨r, hread, ?_⟩
  rw [show pos + 1 = pos + [byte].length from rfl, hseg] at hbyte
  exact (cons.inj hbyte).1.symm

def Tx.marker (tx : Tx) : Bytes := if tx.hasWitness then [0x00, 0x01] else []

lemma encodeTx_eq (tx : Tx) :
    encodeTx tx = encode 4 tx.version.toNat ++ ((tx.marker ++ Varint.encode tx.inputs.length) ++
      (tx.inputs.flatMap TxIn.consensusEncode ++ (Varint.encode tx.outputs.length ++
        (tx.outputs.flatMap TxOut.consensusEncode ++
          (tx.witnessBytes ++ encode 4 tx.lockTime.toNat))))) := by
  unfold encodeTx encodeTxBase encodeTxInputsAndOutputs Tx.marker Tx.witnessBytes
  cases tx.hasWitness <;> simp

lemma reads_inputCount (hinputs : tx.inputs ≠ []) (hcount : tx.inputs.length < 2 ^ 64) :
    ReadsAs lower spanLimit image readInputCount
      (fun c => c.value = tx.inputs.length ∧ c.outputCountOverride = none ∧ c.segwit = tx.hasWitness)
      (tx.marker ++ Varint.encode tx.inputs.length) := by
  unfold Tx.marker
  cases hwitness : tx.hasWitness with
  | true =>
    rw [if_pos rfl, show [0x00, 0x01] ++ Varint.encode tx.inputs.length =
      Varint.encode 0 ++ ([1] ++ Varint.encode tx.inputs.length) by rfl]
    apply (reads_compact (by omega)).bind
    rintro ⟨value, span⟩ rfl
    apply (reads_u8 1).bind
    rintro ⟨flag, flagSpan⟩ rfl
    apply (reads_compact hcount).map
    rintro ⟨count, span⟩ rfl
    exact ⟨rfl, rfl, rfl⟩
  | false =>
    apply (reads_compact hcount).bind_nil
    rintro ⟨value, span⟩ rfl
    dsimp only
    rw [if_neg (mt length_eq_zero_iff.mp hinputs)]
    exact pure ⟨rfl, rfl, rfl⟩

lemma minInputLen_le : minInputLen ≤ input.consensusEncode.length := by
  have hscript := one_le_length_writeScript input.scriptSig
  unfold TxIn.consensusEncode minInputLen
  rw [length_append, length_append, OutPoint.length_consensusEncode, length_encode]
  omega

lemma minOutputLen_le : minOutputLen ≤ output.consensusEncode.length := by
  have hscript := one_le_length_writeScript output.scriptPubkey
  unfold TxOut.consensusEncode minOutputLen
  rw [length_append, length_encode]
  omega

lemma readU32Le_encode_nil (n : UInt32) : readU32Le (encode 4 n.toNat) = n := by
  have hread := readU32Le_encode n []
  rwa [append_nil] at hread

variable {txStart : ℕ}

lemma reads_parseRest (hstart : txStart ≤ lower) {versionSpan : ByteSpan}
    (hversion : sliceAt image versionSpan = encode 4 tx.version.toNat) {inputCount : InputCount}
    (hsegwit : inputCount.segwit = tx.hasWitness)
    (hlayouts : layouts.map (InputLayout.materialize image) = tx.inputs.map fun input => { input with witness := [] })
    {outputCount : ℕ × ByteSpan} (hcount : outputCount.1 = tx.outputs.length)
    (hbounded : ∀ input ∈ tx.inputs, input.Bounded)
    (houtputs : ∀ output ∈ tx.outputs, output.scriptPubkey.length < 2 ^ 64) :
    ReadsAs lower spanLimit image (ParsedTransaction.parseRest txStart versionSpan inputCount layouts outputCount)
      (fun parsed => parsed.materialize = tx) (tx.outputs.flatMap TxOut.consensusEncode ++
        (tx.witnessBytes ++ encode 4 tx.lockTime.toNat)) := by
  have hlen := mul_le_length_flatMap tx.outputs minOutputLen_le
  unfold parseRest
  rw [hcount, hsegwit]
  apply reads_requireCount _ (by rw [length_append]; omega)
  apply (many tx.outputs fun output houtput => reads_output (houtputs output houtput)).bind
  intro outputs houts
  apply (reads_witnessPart hbounded hlayouts).bind
  intro inputs hins
  apply (reads_take_of_length (length_encode 4 tx.lockTime.toNat)).bind_nil
  intro lockTimeSpan hlock
  apply (reads_spanFrom hstart).bind_nil
  intro span _
  apply reads_read.bind_nil
  intro bytes hbytes
  apply ReadsAs.pure
  unfold materialize
  rw [hbytes, hversion, hlock, readU32Le_encode_nil, readU32Le_encode_nil, hins, houts]

section

variable (h : (encodeTx tx).length < 2 ^ 32)

include h

lemma Tx.bounded_inputs : ∀ input ∈ tx.inputs, input.Bounded := by
  intro input hinput
  rw [encodeTx_eq] at h
  simp only [length_append] at h
  have hbase := length_le_flatMap TxIn.consensusEncode hinput
  have hscript := input.length_scriptSig_le
  cases hwitness : tx.hasWitness with
  | true =>
    have hstack := length_le_flatMap (fun input : TxIn => writeWitness input.witness) hinput
    have hbytes : tx.witnessBytes = tx.inputs.flatMap fun input => writeWitness input.witness := by
      unfold Tx.witnessBytes
      rw [hwitness]
      rfl
    rw [hbytes] at h
    have hitems := mul_le_length_flatMap input.witness one_le_length_writeScript
    have hitems' := length_items_le input.witness
    refine ⟨by omega, ?_, by omega⟩
    intro item hitem
    have hle := length_le_writeScript item
    have hitem' := length_le_flatMap writeScript hitem
    omega
  | false =>
    unfold Tx.hasWitness at hwitness
    rw [any_eq_false] at hwitness
    have hnil : input.witness = [] := by simpa using hwitness input hinput
    refine ⟨by omega, ?_, by rw [hnil]; decide⟩
    rw [hnil]
    exact fun item hitem => by cases hitem

lemma Tx.bounded_outputs : ∀ output ∈ tx.outputs, output.scriptPubkey.length < 2 ^ 64 := by
  intro output houtput
  rw [encodeTx_eq] at h
  simp only [length_append] at h
  have hbase := length_le_flatMap TxOut.consensusEncode houtput
  have hscript := output.length_scriptPubkey_le
  omega

lemma Tx.counts_lt : tx.inputs.length < 2 ^ 32 ∧ tx.outputs.length < 2 ^ 32 := by
  have hinputs := mul_le_length_flatMap tx.inputs minInputLen_le
  have houtputs := mul_le_length_flatMap tx.outputs minOutputLen_le
  rw [encodeTx_eq] at h
  simp only [length_append] at h
  unfold minInputLen at hinputs
  unfold minOutputLen at houtputs
  omega

end

lemma reads_parseFrom (htx : tx.Encodable) (hsmall : (encodeTx tx).length < 2 ^ 32)
    (hstart : txStart ≤ lower) : ReadsAs lower spanLimit image (ParsedTransaction.parseFrom txStart)
      (fun parsed => parsed.materialize = tx) (encodeTx tx) := by
  obtain ⟨hins, houts⟩ := Tx.counts_lt hsmall
  have hbounded := Tx.bounded_inputs hsmall
  have houtputs := Tx.bounded_outputs hsmall
  rw [encodeTx_eq]
  apply (reads_take_of_length (length_encode 4 tx.version.toNat)).bind
  intro versionSpan hversion
  rcases htx with hinputs | ⟨hinputs, hnone⟩
  · apply (reads_inputCount hinputs (by omega)).bind
    rintro inputCount ⟨hcount, hoverride, hsegwit⟩
    have hlen := mul_le_length_flatMap tx.inputs minInputLen_le
    rw [hcount, hoverride]
    apply reads_requireCount _ (by rw [length_append]; omega)
    have hmany : ReadsAs lower spanLimit image (many readInput tx.inputs.length)
        (fun layouts => layouts.map (InputLayout.materialize image) =
          tx.inputs.map fun input => { input with witness := [] }) (tx.inputs.flatMap TxIn.consensusEncode) := by
      have hread : ∀ input ∈ tx.inputs.map fun input => { input with witness := [] },
          ReadsAs lower spanLimit image readInput (fun layout => layout.materialize image = input)
            input.consensusEncode := by
        intro input hinput
        obtain ⟨original, horiginal, rfl⟩ := mem_map.mp hinput
        exact reads_input (hbounded original horiginal).script
      have hstripped := many _ hread
      rwa [length_map, flatMap_map] at hstripped
    apply hmany.bind
    intro layouts hlayouts
    apply (reads_compact (by omega)).bind
    rintro outputCount hout
    exact reads_parseRest hstart hversion hsegwit hlayouts hout hbounded houtputs
  · -- the flag byte is the output count
    have hplain : tx.hasWitness = false := by
      unfold Tx.hasWitness
      rw [hinputs]
      rfl
    have hmarker : tx.marker = [] := by
      unfold Tx.marker
      rw [hplain]
      rfl
    have hrest : ∀ span flagSpan, ReadsAs lower spanLimit image
        (parseRest txStart versionSpan ⟨0, span, some (0, flagSpan), false⟩ [] (0, flagSpan))
        (fun parsed => parsed.materialize = tx) (tx.outputs.flatMap TxOut.consensusEncode ++
          (tx.witnessBytes ++ encode 4 tx.lockTime.toNat)) := by
      intro span flagSpan
      apply reads_parseRest hstart hversion hplain.symm _ _ hbounded houtputs
      · rw [hinputs]
        rfl
      · rw [hnone]
        rfl
    have hcounts : (tx.marker ++ Varint.encode tx.inputs.length) ++ (tx.inputs.flatMap TxIn.consensusEncode ++
        (Varint.encode tx.outputs.length ++ (tx.outputs.flatMap TxOut.consensusEncode ++
          (tx.witnessBytes ++ encode 4 tx.lockTime.toNat)))) =
        (Varint.encode 0 ++ [0]) ++ (tx.outputs.flatMap TxOut.consensusEncode ++
          (tx.witnessBytes ++ encode 4 tx.lockTime.toNat)) := by
      rw [hmarker, hinputs, hnone]
      rfl
    rw [hcounts]
    have hcount : ReadsAs lower spanLimit image readInputCount
        (fun c => ∃ span flagSpan, c = ⟨0, span, some (0, flagSpan), false⟩) (Varint.encode 0 ++ [0]) := by
      apply (reads_compact (by omega)).bind
      rintro ⟨value, span⟩ rfl
      apply (reads_u8 0).bind_nil
      rintro ⟨flag, flagSpan⟩ rfl
      exact pure ⟨span, flagSpan, rfl⟩
    apply hcount.bind
    rintro _ ⟨span, flagSpan, rfl⟩
    exact reads_requireCount (hrest span flagSpan) (Nat.zero_le _)

lemma reads_transaction (htx : tx.Encodable) (hsmall : (encodeTx tx).length < 2 ^ 32) :
    ReadsAs lower spanLimit image ParsedTransaction.parseAt (fun parsed => parsed.materialize = tx) (encodeTx tx) :=
  fun pos rest _ => reads_parseFrom htx hsmall (Nat.le_refl pos) pos rest (Nat.le_refl pos)

lemma minTxLen_le (tx : Tx) : minTxLen ≤ (encodeTx tx).length := by
  have hins := Varint.encodedLen_pos tx.inputs.length
  have houts := Varint.encodedLen_pos tx.outputs.length
  rw [encodeTx_eq]
  simp only [length_append, length_encode, Varint.length_encode]
  unfold minTxLen
  omega

lemma fromBytes_toBytes (header : Header) : Header.fromBytes header.toBytes = header := by
  have hword : ∀ (n : ℕ) (rest : Bytes), (encode 4 n ++ rest).drop 4 = rest :=
    fun n rest => drop_left' (length_encode 4 n)
  have hhash : ∀ (hash : Hash256) (rest : Bytes), (hash.bytes ++ rest).drop 32 = rest :=
    fun hash rest => drop_left' hash.length_bytes
  have drop4 : header.toBytes.drop 4 = header.prevBlockhash.bytes ++ (header.merkleRoot.bytes ++
      (encode 4 header.time.toNat ++ (encode 4 header.bits.toNat ++
        encode 4 header.nonce.toNat))) := hword _ _
  have drop36 : header.toBytes.drop 36 = header.merkleRoot.bytes ++ (encode 4 header.time.toNat ++
      (encode 4 header.bits.toNat ++ encode 4 header.nonce.toNat)) := by
    rw [show 36 = 4 + 32 from rfl, ← drop_drop, drop4, hhash]
  have drop68 : header.toBytes.drop 68 = encode 4 header.time.toNat ++
      (encode 4 header.bits.toNat ++ encode 4 header.nonce.toNat) := by
    rw [show 68 = 36 + 32 from rfl, ← drop_drop, drop36, hhash]
  have drop72 : header.toBytes.drop 72 = encode 4 header.bits.toNat ++
      encode 4 header.nonce.toNat := by
    rw [show 72 = 68 + 4 from rfl, ← drop_drop, drop68, hword]
  have drop76 : header.toBytes.drop 76 = encode 4 header.nonce.toNat := by
    rw [show 76 = 72 + 4 from rfl, ← drop_drop, drop72, hword]
  have hversion : readU32Le header.toBytes = header.version.toUInt32 := readU32Le_encode _ _
  unfold Header.fromBytes
  rw [drop4, drop36, drop68, drop72, drop76, hversion, Hash256.fromLeBytes_bytes, Hash256.fromLeBytes_bytes,
    readU32Le_encode, readU32Le_encode, readU32Le_encode_nil, Int32.toInt32_toUInt32]

lemma reads_block {block : Block} (htxs : ∀ tx ∈ block.txs, tx.Encodable)
    (hsmall : block.consensusEncode.length < 2 ^ 32) :
    ReadsAs lower spanLimit image ParsedBlock.parseAt (fun parsed => parsed.materialize = block)
      block.consensusEncode := by
  have hlen := mul_le_length_flatMap block.txs minTxLen_le
  unfold Block.consensusEncode at hsmall
  rw [length_append, length_append] at hsmall
  unfold minTxLen at hlen
  apply (reads_take_of_length block.header.length_toBytes).bind
  intro headerSpan hheader
  apply (reads_compact (by omega)).bind
  rintro ⟨txCount, txCountSpan⟩ rfl
  apply reads_requireCount _ (mul_le_length_flatMap block.txs minTxLen_le)
  have htx : ∀ tx ∈ block.txs, ReadsAs lower spanLimit image parseAt
      (fun parsed => parsed.materialize = tx) (encodeTx tx) := by
    intro tx hmem
    have hle := length_le_flatMap encodeTx hmem
    exact reads_transaction (htxs tx hmem) (by omega)
  apply (many block.txs htx).bind_nil
  intro txs hparsed
  apply reads_read.bind_nil
  intro bytes hbytes pos rest _ _ _ _
  refine ⟨_, rfl, ?_⟩
  unfold ParsedBlock.materialize
  dsimp only
  rw [hbytes, hheader, hparsed, fromBytes_toBytes]

end

lemma deserialize_of_reads {α β : Type} {parse : ImageCursor α} {view : α → β} {bytes : Bytes} {b : β}
    (hsmall : bytes.length < 2 ^ 32) (hread : ReadsAs 0 spanLimit bytes parse (fun a => view a = b) bytes) :
    deserialize (do return view (← parseFront parse)) bytes = .ok b := by
  obtain ⟨a, ha, rfl⟩ := hread 0 [] (Nat.le_refl _) (Nat.zero_le _) (by simp) (by rw [Nat.zero_add]; exact hsmall)
  have hfront : parseFront parse bytes = .ok (a, []) := by
    unfold parseFront
    rw [ha]
    simp
  have hdecode : (do return view (← parseFront parse) : ConsensusReader β) bytes = .ok (view a, []) := by
    show (parseFront parse bytes >>= fun x => pure (view x.1, x.2)) = _
    rw [hfront]
    rfl
  unfold deserialize
  rw [hdecode]
  rfl

/-- Transactions and blocks are read back from their images, and nothing else is accepted. -/
theorem codec_bijective :
    (∀ tx : Tx, tx.Encodable → (encodeTx tx).length < 2 ^ 32 →
      deserialize Tx.consensusDecode (encodeTx tx) = .ok tx ∧ tx.consensusSize = (encodeTx tx).length) ∧
    (∀ block : Block, (∀ tx ∈ block.txs, tx.Encodable) → block.consensusEncode.length < 2 ^ 32 →
      deserialize Block.consensusDecode block.consensusEncode = .ok block ∧
        block.consensusSize = block.consensusEncode.length) ∧
    (∀ (bytes : Bytes) (tx : Tx), deserialize Tx.consensusDecode bytes = .ok tx → encodeTx tx = bytes) ∧
    (∀ (bytes : Bytes) (block : Block), deserialize Block.consensusDecode bytes = .ok block →
      block.consensusEncode = bytes) := by
  refine ⟨?_, ?_, ?_, ?_⟩
  · intro tx htx hsmall
    refine ⟨deserialize_of_reads hsmall (reads_transaction htx hsmall), ?_⟩
    rw [tx.consensusSize_eq]
    omega
  · intro block htxs hsmall
    refine ⟨deserialize_of_reads hsmall (reads_block htxs hsmall), ?_⟩
    rw [block.consensusSize_eq]
    omega
  · intro bytes tx h
    exact deserialize_sound (sound_parseTransaction.mono fun _ _ hxs => hxs.1) h
  · intro bytes block h
    exact deserialize_sound sound_parseBlock h

def sampleTx : Tx where
  version := 2
  inputs := [⟨⟨.zero, 7⟩, [0x51], 0xfffffffe, [[0x21, 0x03], []]⟩, ⟨⟨.zero, 8⟩, [], 0, []⟩]
  outputs := [⟨50000, [0x51]⟩]
  lockTime := 9

def sampleBlock : Block where
  header := ⟨1, .zero, .zero, 3, 4, 5⟩
  txs := [sampleTx, ⟨1, [], [], 0⟩]

theorem codec_bijective_sample :
    deserialize Tx.consensusDecode (encodeTx sampleTx) = .ok sampleTx ∧
      deserialize Block.consensusDecode sampleBlock.consensusEncode = .ok sampleBlock := by
  have hsample : sampleTx.Encodable := .inl (by decide)
  have htxs : ∀ tx ∈ sampleBlock.txs, tx.Encodable := by
    intro tx htx
    rcases mem_cons.mp htx with rfl | htx
    · exact hsample
    · rw [mem_singleton.mp htx]
      exact .inr ⟨rfl, rfl⟩
  exact ⟨(codec_bijective.1 sampleTx hsample (by decide)).1, (codec_bijective.2.1 sampleBlock htxs
    (by decide +kernel)).1⟩

end BitcoinRs
