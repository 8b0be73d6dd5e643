import BitcoinRs.MerkleRoot
import BitcoinRs.TxCodec
import BitcoinRs.TxStripped

namespace BitcoinRs.Consensus

open List Varint

open Merkle (Avx2Sha256d64 merkleRootAndMutationBorrowed)

structure BlockFacts where
  txids : List Txid
  wtxids : Option (List Wtxid)
  hasWitness : Bool
  weight : ℕ
  merkleRoot : Option Txid
  merkleMutated : Bool

structure FactsScan where
  txids : List Txid
  wtxids : Option (List Wtxid)
  baseSizes : ℕ
  hasWitness : Bool

namespace BlockFacts

variable (doubleSha256 : Bytes → Hash256) (kernel : Option (Avx2Sha256d64 doubleSha256)) {txs : List Tx}

def merkleRootAndMutation (txids : List Txid) : Option Txid × Bool :=
  match merkleRootAndMutationBorrowed doubleSha256 kernel txids with
  | none => (none, false)
  | some (root, mutated) => (some root, mutated)

variable (tx : ParsedTransaction)

def txidAndBaseSize : Txid × ℕ :=
  if !tx.segwit then (doubleSha256 (tx.strippedParts.headD []), tx.span.len.toNat)
  else (doubleSha256 tx.strippedParts.flatten, (tx.strippedParts.map length).sum)

def wtxidFromSpan : Wtxid := doubleSha256 (sliceAt tx.bytes tx.span)

def scanTransaction (scan : FactsScan) (tx : ParsedTransaction) : FactsScan where
  txids := scan.txids ++ [(txidAndBaseSize doubleSha256 tx).1]
  wtxids :=
    if tx.segwit then some (scan.wtxids.getD scan.txids ++ [wtxidFromSpan doubleSha256 tx])
    else scan.wtxids.map fun ids => ids ++ [(txidAndBaseSize doubleSha256 tx).1]
  baseSizes := saturatingAdd scan.baseSizes (txidAndBaseSize doubleSha256 tx).2
  hasWitness := scan.hasWitness || tx.segwit

def fromParsed (parsed : ParsedBlock) : BlockFacts :=
  let scan := parsed.txs.foldl (scanTransaction doubleSha256) ⟨[], none, 0, false⟩
  let stripped := saturatingAdd (saturatingAdd Header.len parsed.txCountSpan.len.toNat) scan.baseSizes
  { txids := scan.txids
    wtxids := scan.wtxids
    hasWitness := scan.hasWitness
    weight := saturatingAdd (saturatingMul stripped 3) parsed.consumed
    merkleRoot := (merkleRootAndMutation doubleSha256 kernel scan.txids).1
    merkleMutated := (merkleRootAndMutation doubleSha256 kernel scan.txids).2 }

def decodedBlockWeight (txs : List Tx) : ℕ :=
  let countLen := encodedLen txs.length
  let start := saturatingAdd Header.len countLen
  let stripped := txs.foldl (fun stripped tx => saturatingAdd stripped (txBaseSize tx)) start
  let total := txs.foldl (fun total tx => saturatingAdd total tx.consensusSize) start
  saturatingAdd (saturatingMul stripped 3) total

def fromTxids (txs : List Tx) (txids : List Txid) : BlockFacts where
  txids := txids
  wtxids := none
  hasWitness := txs.any Tx.hasWitness
  weight := decodedBlockWeight txs
  merkleRoot := (merkleRootAndMutation doubleSha256 kernel txids).1
  merkleMutated := (merkleRootAndMutation doubleSha256 kernel txids).2

def orInsertWtxidsFrom (facts : BlockFacts) (txs : List Tx) : BlockFacts :=
  match facts.wtxids with
  | some _ => facts
  | none =>
    { facts with
      wtxids := some (txs.zipIdx.map fun (tx, index) =>
        (facts.txids[index]?.filter fun _ => !tx.hasWitness).getD (tx.wtxid doubleSha256)) }

section

variable {doubleSha256} {tx}

lemma txidAndBaseSize_eq (h : tx.Faithful) :
    txidAndBaseSize doubleSha256 tx = (tx.materialize.txid doubleSha256, (encodeTxBase tx.materialize).length) := by
  unfold txidAndBaseSize Tx.txid
  cases hsegwit : tx.segwit with
  | true =>
    rw [← h.stripped_eq, length_flatten]
    rfl
  | false =>
    have hwitness : tx.materialize.hasWitness = false := by rw [← h.segwit_eq, hsegwit]
    have hparts : tx.strippedParts = [sliceAt tx.bytes tx.span, [], []] := by
      unfold ParsedTransaction.strippedParts
      rw [hsegwit]
      rfl
    rw [hparts, h.span_eq, h.len_eq, encodeTx_of_hasWitness_false hwitness]
    rfl

lemma wtxid_of_hasWitness_false {tx : Tx} (h : tx.hasWitness = false) : tx.wtxid doubleSha256 =
    tx.txid doubleSha256 := by
  unfold Tx.wtxid Tx.txid
  rw [encodeTx_of_hasWitness_false h]

structure Gathered (doubleSha256 : Bytes → Hash256) (txs : List Tx) (scan : FactsScan) : Prop where
  txids : scan.txids = txs.map (Tx.txid doubleSha256)
  hasWitness : scan.hasWitness = txs.any Tx.hasWitness
  wtxids : scan.wtxids = if txs.any Tx.hasWitness then some (txs.map (Tx.wtxid doubleSha256)) else none
  baseSizes : scan.baseSizes = min (txs.flatMap encodeTxBase).length (2 ^ 64 - 1)

lemma map_wtxid_of_plain (h : txs.any Tx.hasWitness = false) :
    txs.map (Tx.wtxid doubleSha256) = txs.map (Tx.txid doubleSha256) := by
  apply map_congr_left
  intro tx htx
  rw [any_eq_false] at h
  exact wtxid_of_hasWitness_false (Bool.eq_false_iff.mpr (h tx htx))

lemma Gathered.step {scan : FactsScan} (h : Gathered doubleSha256 txs scan)
    (htx : tx.Faithful) : Gathered doubleSha256 (txs ++ [tx.materialize]) (scanTransaction doubleSha256 scan tx) where
  txids := by
    unfold scanTransaction
    rw [txidAndBaseSize_eq htx, h.txids, map_append]
    rfl
  hasWitness := by
    unfold scanTransaction
    rw [h.hasWitness, htx.segwit_eq, any_append, any_cons, any_nil, Bool.or_false]
  wtxids := by
    unfold scanTransaction wtxidFromSpan
    rw [txidAndBaseSize_eq htx, h.txids, h.wtxids, htx.segwit_eq, htx.span_eq, any_append, map_append,
      map_singleton, any_cons]
    cases hnew : tx.materialize.hasWitness with
    | true =>
      cases hold : txs.any Tx.hasWitness with
      | true => rfl
      | false =>
        rw [map_wtxid_of_plain hold]
        rfl
    | false =>
      rw [wtxid_of_hasWitness_false hnew]
      cases txs.any Tx.hasWitness <;> rfl
  baseSizes := by
    unfold scanTransaction saturatingAdd
    dsimp only
    rw [txidAndBaseSize_eq htx, h.baseSizes, flatMap_append, length_append, flatMap_singleton]
    omega

lemma gathered_scan {parsed : List ParsedTransaction} (h : ∀ tx ∈ parsed, tx.Faithful) :
    Gathered doubleSha256 (parsed.map ParsedTransaction.materialize)
      (parsed.foldl (scanTransaction doubleSha256) ⟨[], none, 0, false⟩) := by
  induction parsed using reverseRecOn with
  | nil => exact ⟨rfl, rfl, rfl, rfl⟩
  | append_singleton passed tx ih =>
    rw [map_append, foldl_append]
    exact (ih fun other hother => h other (mem_append_left _ hother)).step (h tx (by simp))

end

section

lemma foldl_saturatingAdd_from {α : Type} {size : α → ℕ} {encode : α → Bytes}
    (h : ∀ item, size item = min (encode item).length (2 ^ 64 - 1)) (items : List α) (start : ℕ) :
    items.foldl (fun total item => saturatingAdd total (size item)) (min start (2 ^ 64 - 1)) =
      min (start + (items.flatMap encode).length) (2 ^ 64 - 1) := by
  induction items generalizing start with
  | nil => rfl
  | cons item rest ih =>
    rw [foldl_cons, h item, saturatingAdd_min, ih, flatMap_cons, length_append, Nat.add_assoc]

lemma decodedBlockWeight_eq (txs : List Tx) (hbound : (txs.flatMap encodeTx).length < 2 ^ 63) :
    decodedBlockWeight txs = saturatingAdd
      (saturatingMul (saturatingAdd (saturatingAdd Header.len (encodedLen txs.length))
        (min (txs.flatMap encodeTxBase).length (2 ^ 64 - 1))) 3)
      (Header.len + encodedLen txs.length + (txs.flatMap encodeTx).length) := by
  have hlen : encodedLen txs.length ≤ 9 := by
    unfold encodedLen
    split_ifs <;> omega
  have hstart : saturatingAdd Header.len (encodedLen txs.length) =
      min (Header.len + encodedLen txs.length) (2 ^ 64 - 1) := rfl
  unfold decodedBlockWeight
  dsimp only
  rw [hstart, foldl_saturatingAdd_from txBaseSize_eq, foldl_saturatingAdd_from Tx.consensusSize_eq, saturatingAdd_min,
    Nat.min_eq_left (by unfold Header.len; omega : Header.len + encodedLen txs.length +
      (txs.flatMap encodeTx).length ≤ 2 ^ 64 - 1)]

lemma wtxids_orInsert {facts : BlockFacts} (htxids : facts.txids = txs.map (Tx.txid doubleSha256))
    (hwtxids : facts.wtxids = none ∨ facts.wtxids = some (txs.map (Tx.wtxid doubleSha256))) :
    (facts.orInsertWtxidsFrom doubleSha256 txs) = { facts with wtxids := some (txs.map (Tx.wtxid doubleSha256)) } := by
  unfold orInsertWtxidsFrom
  rcases hwtxids with hnone | hsome
  · rw [hnone]
    dsimp only
    congr 2
    apply ext_getElem?
    intro i
    rw [getElem?_map, getElem?_map, getElem?_zipIdx, Nat.zero_add, htxids]
    cases htx : txs[i]? with
    | none => rfl
    | some tx =>
      simp only [Option.map_some, getElem?_map, htx]
      cases hwitness : tx.hasWitness with
      | true => simp
      | false => simp [wtxid_of_hasWitness_false hwitness, Option.filter_some]
  · rw [hsome]
    dsimp only
    rw [← hsome]

/-- The facts of an accepted image are those of the block it is read as. -/
theorem block_facts_agree (image : Bytes) (parsed : ParsedBlock) (h : ParsedBlock.parseExact image = .ok parsed) :
    deserialize Block.consensusDecode image = .ok parsed.materialize ∧
      (fromParsed doubleSha256 kernel parsed).orInsertWtxidsFrom doubleSha256 parsed.materialize.txs =
        (fromTxids doubleSha256 kernel parsed.materialize.txs
          (parsed.materialize.txs.map (Tx.txid doubleSha256))).orInsertWtxidsFrom doubleSha256 parsed.materialize.txs ∧
      ((fromParsed doubleSha256 kernel parsed).orInsertWtxidsFrom doubleSha256 parsed.materialize.txs).wtxids =
        some (parsed.materialize.txs.map (Tx.wtxid doubleSha256)) ∧
      ∀ wtxids, (fromParsed doubleSha256 kernel parsed).wtxids = some wtxids →
        wtxids = parsed.materialize.txs.map (Tx.wtxid doubleSha256) := by
  obtain ⟨hfaithful, hcount, hconsumed, hbound, hencode, hdecode⟩ := parseExact_faithful h
  have hscan : Gathered doubleSha256 parsed.materialize.txs
      (parsed.txs.foldl (scanTransaction doubleSha256) ⟨[], none, 0, false⟩) := gathered_scan hfaithful
  have htxs : parsed.materialize.txs.length = parsed.txs.length := length_map _
  have hlength : Header.len + encodedLen parsed.materialize.txs.length +
      (parsed.materialize.txs.flatMap encodeTx).length = image.length := by
    rw [← hencode, Block.consensusEncode, length_append, length_append, Header.length_toBytes,
      length_encode, Nat.add_assoc]
  have hweight : (fromParsed doubleSha256 kernel parsed).weight = decodedBlockWeight parsed.materialize.txs := by
    rw [decodedBlockWeight_eq _ (by omega), hlength, ← hconsumed, htxs, ← hcount, ← hscan.baseSizes]
    rfl
  have htxids : (fromParsed doubleSha256 kernel parsed).txids = parsed.materialize.txs.map (Tx.txid doubleSha256) :=
    hscan.txids
  have hwtxids : (fromParsed doubleSha256 kernel parsed).wtxids = none ∨
      (fromParsed doubleSha256 kernel parsed).wtxids = some (parsed.materialize.txs.map (Tx.wtxid doubleSha256)) := by
    change FactsScan.wtxids _ = none ∨ FactsScan.wtxids _ = _
    rw [hscan.wtxids]
    split
    · exact .inr rfl
    · exact .inl rfl
  have hsame : fromParsed doubleSha256 kernel parsed = { fromTxids doubleSha256 kernel parsed.materialize.txs
      (parsed.materialize.txs.map (Tx.txid doubleSha256)) with wtxids :=
        (fromParsed doubleSha256 kernel parsed).wtxids } := by
    unfold fromTxids
    rw [← hweight, ← hscan.hasWitness, ← hscan.txids]
    rfl
  have hfull := wtxids_orInsert doubleSha256 htxids hwtxids
  refine ⟨hdecode, ?_, by rw [hfull], ?_⟩
  · rw [hfull, wtxids_orInsert doubleSha256 rfl (.inl rfl), hsame]
  · intro wtxids hsome
    rcases hwtxids with hnone | hall
    · rw [hnone] at hsome
      cases hsome
    · rw [hall] at hsome
      exact (Option.some.inj hsome).symm

def sampleParsed : ParsedBlock :=
  ((ParsedBlock.parseExact sampleBlock.consensusEncode).toOption).get (by decide +kernel)

theorem block_facts_agree_sample :
    ParsedBlock.parseExact sampleBlock.consensusEncode = .ok sampleParsed ∧ sampleParsed.materialize = sampleBlock ∧
      (fromParsed Hash256.fromLeBytes none sampleParsed).wtxids =
        some (sampleParsed.materialize.txs.map (Tx.wtxid Hash256.fromLeBytes)) := by
  have hparse : ParsedBlock.parseExact sampleBlock.consensusEncode = .ok sampleParsed := by decide +kernel
  refine ⟨hparse, by decide +kernel, ?_⟩
  obtain ⟨wtxids, hsome⟩ : ∃ wtxids, (fromParsed Hash256.fromLeBytes none sampleParsed).wtxids = some wtxids :=
    Option.isSome_iff_exists.mp (by decide +kernel)
  rw [hsome, (block_facts_agree Hash256.fromLeBytes none _ sampleParsed hparse).2.2.2 wtxids hsome]

end

end BlockFacts

end BitcoinRs.Consensus
