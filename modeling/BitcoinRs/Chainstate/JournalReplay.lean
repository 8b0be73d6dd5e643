import BitcoinRs.Chainstate.JournalDelta
import BitcoinRs.Chainstate.Prepare

namespace BitcoinRs.Chainstate

open Batch Fallible KeyedList Storage Utxo List BlockChangeInputs
open UInt32 (ofNat toNat_ofNat_of_lt')

def maxScriptSize : ℕ := 10000

def spentInputs (block : Block) : List OutPoint :=
  (block.txs.filter (fun tx => !tx.isCoinbase)).flatMap (fun tx => tx.inputs.map TxIn.previousOutput)

structure ValidBlock (txid : Tx → Txid) (S : OutPoint → Option UtxoCoin) (inputs : BlockChangeInputs) : Prop where
  txids_eq : inputs.txids = inputs.block.txs.map txid
  txid_inputs : ∀ tx ∈ inputs.block.txs, ∀ other ∈ inputs.block.txs, txid tx = txid other → tx.inputs = other.inputs
  only_first_coinbase : ∀ tx ∈ inputs.block.txs.tail, tx.isCoinbase = false
  first_coinbase : ∀ tx ∈ inputs.block.txs.head?, tx.isCoinbase = true
  inputs_ne_nil : ∀ tx ∈ inputs.block.txs, tx.inputs ≠ []
  inputs_nodup : (spentInputs inputs.block).Nodup
  outputs_lt : ∀ tx ∈ inputs.block.txs, tx.outputs.length < 2 ^ 32
  /-- BIP 30 admits a txid with live outputs only for the coinbases of its two exception blocks. -/
  bip30 : ∀ tx ∈ inputs.block.txs.tail, ∀ vout, S ⟨txid tx, vout⟩ = none
  /-- The coins that such a coinbase overwrites are outputs of the same transaction. -/
  overwrites_own : ∀ tx ∈ inputs.block.txs.head?, ∀ vout, S ⟨txid tx, vout⟩ ≠ none → vout.toNat < tx.outputs.length
  planned : inputs.sameBlockSpent = (planBlockTransactions inputs.block inputs.txids).sameBlockSpent
  script_size : inputs.maxScriptSize = maxScriptSize

namespace ValidBlock

variable {txid : Tx → Txid} {S : OutPoint → Option UtxoCoin} {inputs : BlockChangeInputs}

lemma txPairs_eq (h : ValidBlock txid S inputs) : inputs.txPairs = inputs.block.txs.map (fun tx => (tx, txid tx)) := by
  rw [txPairs, h.txids_eq]
  exact map_prod_left_eq_zip.symm

lemma length_eq (h : ValidBlock txid S inputs) : inputs.block.txs.length = inputs.txids.length := by
  rw [h.txids_eq, length_map]

lemma isCoinbase_congr {tx other : Tx} (h : tx.inputs = other.inputs) : tx.isCoinbase = other.isCoinbase := by
  rw [Tx.isCoinbase, Tx.isCoinbase, h]

lemma txids_nodup (h : ValidBlock txid S inputs) : inputs.txids.Nodup := by
  rw [h.txids_eq]
  have hsame := h.txid_inputs
  have htail := h.only_first_coinbase
  have hhead := h.first_coinbase
  have hspent := h.inputs_nodup
  have hne := h.inputs_ne_nil
  rw [spentInputs] at hspent
  cases htxs : inputs.block.txs with
  | nil => exact nodup_nil
  | cons coinbase rest =>
    rw [htxs] at hsame htail hhead hspent hne
    have hcoinbase : coinbase.isCoinbase = true := hhead coinbase rfl
    have hrest : (coinbase :: rest).filter (fun tx => !tx.isCoinbase) = rest := by
      rw [filter_cons, hcoinbase]
      exact filter_eq_self.mpr (fun tx ht => by rw [htail tx ht]; rfl)
    rw [hrest] at hspent
    rw [map_cons, nodup_cons]
    constructor
    · intro hmem
      obtain ⟨tx, ht, he⟩ := mem_map.mp hmem
      have hcongr := isCoinbase_congr (hsame tx (mem_cons_of_mem _ ht) coinbase mem_cons_self he)
      rw [htail tx ht, hcoinbase] at hcongr
      cases hcongr
    · refine pairwise_map.mpr ((nodup_flatMap.mp hspent).2.imp_of_mem (fun {tx other} ht ho hdisj he => ?_))
      have hinputs := hsame tx (mem_cons_of_mem _ ht) other (mem_cons_of_mem _ ho) he
      obtain ⟨input, more, hcons⟩ := exists_cons_of_ne_nil (hne tx (mem_cons_of_mem _ ht))
      have hin : input.previousOutput ∈ tx.inputs.map TxIn.previousOutput := by
        rw [hcons]
        exact mem_cons_self
      refine hdisj hin ?_
      rwa [hinputs] at hin

variable {tx : Tx × Txid}

lemma created_outpoint {add : UtxoAdd} (ha : add ∈ inputs.created tx) :
    ∃ i, i < tx.1.outputs.length ∧ add.outpoint = ⟨tx.2, ofNat i⟩ ∧ inputs.contains add.outpoint = false ∧
      add.txout.scriptPubkey.length ≤ inputs.maxScriptSize := by
  obtain ⟨⟨txout, i⟩, hmem, hadd⟩ := mem_filterMap.mp ha
  simp only [BlockChangeInputs.createdOutput] at hadd
  split_ifs at hadd with hskip
  cases hadd
  simp only [Bool.or_eq_true, not_or, Bool.not_eq_true] at hskip
  refine ⟨i, snd_lt_of_mem_zipIdx hmem, rfl, hskip.1, ?_⟩
  have hstored := hskip.2
  simp only [isUnstorable, Bool.or_eq_false_iff, decide_eq_false_iff_not] at hstored
  exact Nat.not_lt.mp hstored.2

lemma created_nodup (hlt : tx.1.outputs.length < 2 ^ 32) : ((inputs.created tx).map UtxoAdd.outpoint).Nodup := by
  have hidx : tx.1.outputs.zipIdx.Pairwise (fun a b => a.2 ≠ b.2) := by
    rw [← pairwise_map, zipIdx_map_snd]
    exact nodup_range'
  refine pairwise_map.mpr (pairwise_filterMap.mpr (hidx.imp_of_mem ?_))
  rintro ⟨out, i⟩ ⟨out', j⟩ hi hj hne add hadd add' hadd' he
  have hi' : i < tx.1.outputs.length := snd_lt_of_mem_zipIdx hi
  have hj' : j < tx.1.outputs.length := snd_lt_of_mem_zipIdx hj
  simp only [BlockChangeInputs.createdOutput] at hadd hadd'
  split_ifs at hadd hadd'
  cases hadd
  cases hadd'
  have hv := congrArg (fun op : OutPoint => op.vout.toNat) he
  simp only [toNat_ofNat_of_lt' (show i < UInt32.size from hi'.trans hlt),
    toNat_ofNat_of_lt' (show j < UInt32.size from hj'.trans hlt)] at hv
  exact hne hv

section

variable (h : ValidBlock txid S inputs)

include h

lemma mem_allCreated {add : UtxoAdd} (ha : add ∈ inputs.allCreated) :
    ∃ tx ∈ inputs.block.txs, add ∈ inputs.created (tx, txid tx) := by
  rw [allCreated, h.txPairs_eq, flatMap_map] at ha
  exact mem_flatMap.mp ha

lemma created_distinct : Distinct UtxoAdd.outpoint inputs.allCreated := by
  have hids := h.txids_nodup
  rw [h.txids_eq] at hids
  rw [Distinct, allCreated, h.txPairs_eq, flatMap_map, map_flatMap]
  refine nodup_flatMap.mpr ⟨fun tx ht => created_nodup (h.outputs_lt tx ht), ?_⟩
  refine (pairwise_map.mp hids).imp (fun {tx other} hne op ho ho' => hne ?_)
  obtain ⟨add, ha, rfl⟩ := mem_map.mp ho
  obtain ⟨add', ha', he⟩ := mem_map.mp ho'
  obtain ⟨i, -, hi, -⟩ := created_outpoint ha
  obtain ⟨j, -, hj, -⟩ := created_outpoint ha'
  rw [hi, hj] at he
  exact (congrArg OutPoint.txid he).symm

lemma allExternal_eq : inputs.allExternal = (spentInputs inputs.block).filter (fun op => !inputs.contains op) := by
  rw [allExternal, h.txPairs_eq, flatMap_map, spentInputs]
  induction inputs.block.txs with
  | nil => rfl
  | cons tx rest ih =>
    rw [flatMap_cons, ih, external, filter_cons]
    cases htx : tx.isCoinbase with
    | true => simp
    | false => simp [filter_append]

variable {op : OutPoint}

lemma mem_allExternal (ho : op ∈ inputs.allExternal) :
    inputs.contains op = false ∧ ∃ tx ∈ inputs.block.txs, tx.isCoinbase = false ∧
      op ∈ tx.inputs.map TxIn.previousOutput := by
  rw [h.allExternal_eq, mem_filter] at ho
  obtain ⟨tx, ht, hop⟩ := mem_flatMap.mp ho.1
  obtain ⟨hmem, hc⟩ := mem_filter.mp ht
  exact ⟨by simpa using ho.2, tx, hmem, by simpa using hc, hop⟩

lemma contains_eq (op : OutPoint) : inputs.contains op =
    ((planBlockTransactions inputs.block inputs.txids).sameBlockSpent.getD []).contains op := by
  rw [← h.planned, BlockChangeInputs.contains]
  cases inputs.sameBlockSpent <;> rfl

lemma contains_iff (op : OutPoint) : inputs.contains op = true ↔ SpendsEarlier inputs.txPairs inputs.txids op := by
  rw [h.contains_eq, contains_iff_mem]
  exact planBlockTransactions_spends inputs.block inputs.txids op

/-- An output spent from an earlier block is not also created: its transaction would break BIP 30, or be the
coinbase, after which every spend of it counts as one within the block. -/
lemma disjoint (ho : op ∈ inputs.allExternal) (hlive : S op ≠ none) : op ∉ inputs.allCreated.map UtxoAdd.outpoint := by
  intro hc
  obtain ⟨add, ha, rfl⟩ := mem_map.mp hc
  obtain ⟨parent, hparent, hadd⟩ := h.mem_allCreated ha
  obtain ⟨vout, -, hop, -⟩ := created_outpoint hadd
  obtain ⟨hcontains, tx, htx, hnot, hin⟩ := h.mem_allExternal ho
  have hfirst : inputs.block.txs.head? = some parent := by
    cases htxs : inputs.block.txs with
    | nil => rw [htxs] at hparent; cases hparent
    | cons first rest =>
      rw [htxs] at hparent
      rcases mem_cons.mp hparent with rfl | hrest
      · rfl
      · rw [hop] at hlive
        exact absurd (h.bip30 parent (by rw [htxs]; exact hrest) _) hlive
  obtain ⟨i, hi⟩ := mem_iff_getElem?.mp htx
  have hpos : 0 < i := by
    rcases Nat.eq_zero_or_pos i with rfl | hpos
    · rw [← head?_eq_getElem?] at hi
      rw [h.first_coinbase tx hi] at hnot
      cases hnot
    · exact hpos
  have hids : inputs.txids.head? = some (txid parent) := by
    rw [h.txids_eq, head?_map, hfirst, Option.map_some]
  have hspends : SpendsEarlier inputs.txPairs inputs.txids add.outpoint := by
    refine ⟨i, (tx, txid tx), ?_, hnot, hin, ?_⟩
    · rw [h.txPairs_eq, getElem?_map, hi, Option.map_some]
    · rw [hop]
      refine mem_of_mem_head? ?_
      rw [head?_take, if_neg hpos.ne', hids]
      rfl
  rw [(h.contains_iff _).mpr hspends] at hcontains
  cases hcontains

variable {changes : BlockChanges} {undo : UndoBatch}

lemma separate (hstaged : Staged S changes undo)
    (hchanges : changes = ⟨[], []⟩ ∨ changes = ⟨inputs.allCreated, inputs.allExternal⟩) : Separate changes := by
  rcases hchanges with rfl | rfl
  · exact ⟨nodup_nil, nodup_nil, fun op ho => (by cases ho)⟩
  · refine ⟨h.created_distinct, ?_, fun op ho => h.disjoint ho ?_⟩
    · simp only [h.allExternal_eq]
      exact h.inputs_nodup.filter _
    · have hmem := hstaged.restores_perm.mem_iff.mpr (mem_append_right _ ho)
      obtain ⟨restore, hr, rfl⟩ := mem_map.mp hmem
      rw [hstaged.restores_coin restore hr]
      exact Option.some_ne_none _

lemma vout_free {tx : Tx} (ht : tx ∈ inputs.block.txs) :
    S ⟨txid tx, ofNat tx.outputs.length⟩ = none ∧
      ⟨txid tx, ofNat tx.outputs.length⟩ ∉ inputs.allCreated.map UtxoAdd.outpoint := by
  have hlen : (ofNat tx.outputs.length).toNat = tx.outputs.length := toNat_ofNat_of_lt' (h.outputs_lt tx ht)
  constructor
  · cases htxs : inputs.block.txs with
    | nil => rw [htxs] at ht; cases ht
    | cons first rest =>
      rw [htxs] at ht
      rcases mem_cons.mp ht with rfl | hrest
      · by_contra hlive
        have hlt := h.overwrites_own tx (by rw [htxs]; rfl) _ hlive
        rw [hlen] at hlt
        exact Nat.lt_irrefl _ hlt
      · exact h.bip30 tx (by rw [htxs]; exact hrest) _
  · intro hmem
    obtain ⟨add, ha, he⟩ := mem_map.mp hmem
    obtain ⟨other, hother, hadd⟩ := h.mem_allCreated ha
    obtain ⟨i, hi, hop, -⟩ := created_outpoint hadd
    rw [hop] at he
    have hsame : other = tx := by
      have hids := h.txids_nodup
      rw [h.txids_eq] at hids
      exact inj_on_of_nodup_map hids hother ht (congrArg OutPoint.txid he)
    subst hsame
    have hvout := congrArg (fun op : OutPoint => op.vout.toNat) he
    simp only [hlen, toNat_ofNat_of_lt' (show i < UInt32.size from hi.trans (h.outputs_lt other hother))] at hvout
    exact Nat.lt_irrefl _ (hvout ▸ hi)

lemma room (hroom : ∀ x, ∃ vout, S ⟨x, vout⟩ = none) (x : Txid) :
    ∃ vout, apply S inputs.allExternal (inputs.allCreated.map UtxoAdd.binding) ⟨x, vout⟩ = none := by
  have hfree {vout : UInt32} (hS : S ⟨x, vout⟩ = none) (hc : ⟨x, vout⟩ ∉ inputs.allCreated.map UtxoAdd.outpoint) :
      apply S inputs.allExternal (inputs.allCreated.map UtxoAdd.binding) ⟨x, vout⟩ = none := by
    have hlast : lastValue (inputs.allCreated.map UtxoAdd.binding) ⟨x, vout⟩ = none := by
      rw [lastValue_eq_none, map_map]
      exact hc
    rw [apply_eq, hlast, hS, ite_self, Option.none_or]
  by_cases hx : ∃ tx ∈ inputs.block.txs, txid tx = x
  · obtain ⟨tx, ht, rfl⟩ := hx
    obtain ⟨hS, hc⟩ := h.vout_free ht
    exact ⟨_, hfree hS hc⟩
  · obtain ⟨vout, hS⟩ := hroom x
    refine ⟨vout, hfree hS (fun hmem => hx ?_)⟩
    obtain ⟨add, ha, he⟩ := mem_map.mp hmem
    obtain ⟨tx, ht, hadd⟩ := h.mem_allCreated ha
    obtain ⟨i, -, hop, -⟩ := created_outpoint hadd
    rw [hop] at he
    exact ⟨tx, ht, congrArg OutPoint.txid he⟩

lemma commit (hstaged : Staged S changes undo)
    (hchanges : changes = ⟨[], []⟩ ∨ changes = ⟨inputs.allCreated, inputs.allExternal⟩) (schedule : Schedule)
    {utxo : UtxoSet} (hutxo : utxo.WellFormed) (hcoins : utxo.coins = S) :
    (utxo.commitBlock schedule changes).2 = .ok () ∧ (utxo.commitBlock schedule changes).1.WellFormed ∧
      (utxo.commitBlock schedule changes).1.coins =
        apply S changes.removes (changes.adds.map UtxoAdd.binding) := by
  have hsep := h.separate hstaged hchanges
  have hok : (utxo.commitBlock schedule changes).2 = .ok () := by
    refine UtxoSet.commit_succeeds schedule hutxo (fun add ha => ?_) (fun x => ?_)
    · rcases hchanges with rfl | rfl
      · cases ha
      · obtain ⟨tx, -, hadd⟩ := h.mem_allCreated ha
        obtain ⟨-, -, -, -, hlen⟩ := created_outpoint hadd
        rw [h.script_size] at hlen
        exact lt_of_le_of_lt hlen (by decide)
    · rw [UtxoSet.batchSpec, hcoins]
      rcases hchanges with rfl | rfl
      · obtain ⟨vout, hv⟩ := hutxo.room x
        rw [hcoins] at hv
        exact ⟨vout, by rw [← hv]; rfl⟩
      · exact h.room (fun x => hcoins ▸ hutxo.room x) x
  refine ⟨hok, UtxoSet.commit_wellFormed hutxo hok, ?_⟩
  rw [← hcoins]
  exact UtxoSet.coins_of_disjoint hutxo hok hsep.disjoint

end

end ValidBlock

structure SegmentBlock where
  inputs : BlockChangeInputs
  resolved : SpentOutputLookup
  blockHash : Hash256
  prevHash : Hash256
  coinStatsHeightDelta : Int64

section

variable (schedule : Schedule)

def connectBlock (utxo : UtxoSet) (block : SegmentBlock) : Option (UtxoSet × List JournalRecord) :=
  match buildBlockChanges block.inputs block.resolved with
  | .error _ => none
  | .ok (changes, undo, _) =>
    match utxo.commitBlock schedule changes with
    | (_, .error _) => none
    | (committed, .ok ()) =>
      match buildJournalRecord block.inputs.block block.inputs.height block.blockHash block.prevHash undo changes
        block.coinStatsHeightDelta with
      | none => some (committed, [])
      | some (.ok record) => some (committed, [record])
      | some (.error _) => none

def connectSegment : UtxoSet → List SegmentBlock → Option (UtxoSet × List JournalRecord)
  | utxo, [] => some (utxo, [])
  | utxo, block :: rest =>
    match connectBlock schedule utxo block with
    | none => none
    | some (next, records) =>
      match connectSegment next rest with
      | none => none
      | some (final, more) => some (final, records ++ more)

def replayRecords : UtxoSet → List JournalRecord → UtxoSet × Except ReplayFault Unit
  | utxo, [] => (utxo, .ok ())
  | utxo, record :: rest =>
    match applyRecordMutations schedule utxo record with
    | (utxo, .error fault) => (utxo, .error fault)
    | (utxo, .ok ()) => replayRecords utxo rest

end

structure ValidStep (txid : Tx → Txid) (utxo : UtxoSet) (block : SegmentBlock) : Prop where
  valid : ValidBlock txid utxo.coins block.inputs
  agrees : Agrees utxo.coins block.inputs block.resolved
  built : ∃ result, buildBlockChanges block.inputs block.resolved = .ok result

def ValidSegment (txid : Tx → Txid) (schedule : Schedule) : UtxoSet → List SegmentBlock → Prop
  | _, [] => True
  | utxo, block :: rest => ValidStep txid utxo block ∧
      ∀ next records, connectBlock schedule utxo block = some (next, records) → ValidSegment txid schedule next rest

def ReplaysTo (result : UtxoSet × Except ReplayFault Unit) (coins : OutPoint → Option UtxoCoin) : Prop :=
  result.2 = .ok () ∧ result.1.WellFormed ∧ result.1.coins = coins

variable {schedule : Schedule}

lemma replayRecords_append {utxo : UtxoSet} {first second : List JournalRecord}
    {mid final : OutPoint → Option UtxoCoin} (h : ReplaysTo (replayRecords schedule utxo first) mid)
    (hnext : ∀ base : UtxoSet, base.WellFormed → base.coins = mid →
      ReplaysTo (replayRecords schedule base second) final) :
    ReplaysTo (replayRecords schedule utxo (first ++ second)) final := by
  induction first generalizing utxo with
  | nil => exact hnext utxo h.2.1 h.2.2
  | cons record rest ih =>
    rw [cons_append, replayRecords]
    rw [replayRecords] at h
    cases happly : applyRecordMutations schedule utxo record with
    | mk next result =>
      cases result with
      | error fault =>
        rw [happly] at h
        cases h.1
      | ok =>
        rw [happly] at h
        exact ih h

variable {record : JournalRecord}

lemma replayRecords_singleton {utxo : UtxoSet} {coins : OutPoint → Option UtxoCoin}
    (h : ReplaysTo (applyRecordMutations schedule utxo record) coins) :
    ReplaysTo (replayRecords schedule utxo [record]) coins := by
  have hrun : applyRecordMutations schedule utxo record = ((applyRecordMutations schedule utxo record).1, .ok ()) :=
    Prod.ext rfl h.1
  rw [replayRecords, hrun]
  exact ⟨rfl, h.2⟩

lemma applyRecordMutations_of_commit {utxo : UtxoSet} {changes : BlockChanges}
    (hstage : stageMutations utxo record = .ok changes) (hok : (utxo.commitBlock schedule changes).2 = .ok ()) :
    applyRecordMutations schedule utxo record = ((utxo.commitBlock schedule changes).1, .ok ()) := by
  have hcommit : utxo.commitBlock schedule changes = ((utxo.commitBlock schedule changes).1, .ok ()) := Prod.ext rfl hok
  rw [applyRecordMutations, hstage]
  simp only
  rw [hcommit]

section

variable {txid : Tx → Txid} {inputs : BlockChangeInputs} {resolved : SpentOutputLookup} {changes : BlockChanges}
  {undo : UndoBatch} {totals : BlockValueTotals} {utxo : UtxoSet} (hutxo : utxo.WellFormed)
  (hvalid : ValidBlock txid utxo.coins inputs) (hagrees : Agrees utxo.coins inputs resolved)
  (hbuild : buildBlockChanges inputs resolved = .ok (changes, undo, totals))

include hutxo hagrees hbuild

lemma changes_of_build : Staged utxo.coins changes undo ∧ (changes = ⟨[], []⟩ ∨
    changes = ⟨inputs.allCreated, inputs.allExternal⟩) := by
  obtain ⟨hstaged, hchanges⟩ := buildBlockChanges_staged (fun op coin hc => (hutxo.coin hc).1) hagrees hbuild
  exact ⟨hstaged, hchanges.imp And.right And.right⟩

include hvalid

lemma commit_of_build (schedule : Schedule) {base : UtxoSet} (hbase : base.WellFormed)
    (hcoins : base.coins = utxo.coins) :
    (base.commitBlock schedule changes).2 = .ok () ∧ (base.commitBlock schedule changes).1.WellFormed ∧
      (base.commitBlock schedule changes).1.coins =
        apply utxo.coins changes.removes (changes.adds.map UtxoAdd.binding) := by
  obtain ⟨hstaged, hchanges⟩ := changes_of_build hutxo hagrees hbuild
  exact hvalid.commit hstaged hchanges schedule hbase hcoins

lemma mutations_of_build :
    ∃ mutations, mutationsForBlock changes (undo.restores.map journalCoin) = .ok mutations ∧
      (∀ mutation ∈ mutations, Recorded utxo.coins changes mutation) ∧
      ∀ base : UtxoSet, base.WellFormed → base.coins = utxo.coins → ∀ (schedule : Schedule) (record : JournalRecord),
        record.mutations = mutations → ReplaysTo (applyRecordMutations schedule base record)
          (apply utxo.coins changes.removes (changes.adds.map UtxoAdd.binding)) := by
  obtain ⟨hstaged, hchanges⟩ := changes_of_build hutxo hagrees hbuild
  obtain ⟨mutations, hmutations, hrecorded, hstage⟩ :=
    mutationsForBlock_replays hstaged (hvalid.separate hstaged hchanges)
  refine ⟨mutations, hmutations, hrecorded, fun base hbase hcoins schedule record hrecord => ?_⟩
  obtain ⟨hok, hwf, heq⟩ := commit_of_build hutxo hvalid hagrees hbuild schedule hbase hcoins
  have hentries (op : OutPoint) : base.getEntry op = .ok (utxo.coins op) := by
    rw [hbase.getEntry_coins, hcoins]
  have hrun : stageMutations base record = .ok changes := by
    rw [stageMutations, hrecord, hstage base hentries]
  rw [applyRecordMutations_of_commit hrun hok]
  exact ⟨rfl, hwf, heq⟩

end

variable {txid : Tx → Txid}

lemma connectBlock_replays {utxo : UtxoSet} (hutxo : utxo.WellFormed) {block : SegmentBlock}
    (h : ValidStep txid utxo block) (schedule : Schedule) :
    ∃ live records, connectBlock schedule utxo block = some (live, records) ∧ live.WellFormed ∧
      ∀ base : UtxoSet, base.WellFormed → base.coins = utxo.coins → ∀ replaySchedule : Schedule,
        ReplaysTo (replayRecords replaySchedule base records) live.coins := by
  obtain ⟨⟨changes, undo, totals⟩, hbuild⟩ := h.built
  obtain ⟨hok, hwf, hcoins⟩ := commit_of_build hutxo h.valid h.agrees hbuild schedule hutxo rfl
  obtain ⟨mutations, hmutations, -, hreplay⟩ := mutations_of_build hutxo h.valid h.agrees hbuild
  have hcommit : utxo.commitBlock schedule changes = ((utxo.commitBlock schedule changes).1, .ok ()) := Prod.ext rfl hok
  have hnone : block.inputs.height = 0 → changes = ⟨[], []⟩ := fun hzero => by
    obtain ⟨-, hz | hnz⟩ := buildBlockChanges_staged (fun op coin hc => (hutxo.coin hc).1) h.agrees hbuild
    · exact hz.2
    · exact absurd hzero hnz.1
  simp only [connectBlock, hbuild]
  rw [hcommit]
  simp only [buildJournalRecord]
  split_ifs with hheight
  · refine ⟨_, [], rfl, hwf, fun base hbase heq replaySchedule => ⟨rfl, hbase, ?_⟩⟩
    rw [hcoins, hnone hheight]
    exact heq
  · rw [hmutations]
    refine ⟨_, [_], rfl, hwf, fun base hbase heq replaySchedule => ?_⟩
    rw [hcoins]
    exact replayRecords_singleton (hreplay base hbase heq replaySchedule _ rfl)

lemma connectSegment_replays (schedule : Schedule) (blocks : List SegmentBlock) (utxo : UtxoSet)
    (hutxo : utxo.WellFormed) (h : ValidSegment txid schedule utxo blocks) :
    ∃ live records, connectSegment schedule utxo blocks = some (live, records) ∧ live.WellFormed ∧
      ∀ base : UtxoSet, base.WellFormed → base.coins = utxo.coins → ∀ replaySchedule : Schedule,
        ReplaysTo (replayRecords replaySchedule base records) live.coins := by
  induction blocks generalizing utxo with
  | nil => exact ⟨utxo, [], rfl, hutxo, fun base hbase heq _ => ⟨rfl, hbase, heq⟩⟩
  | cons block rest ih =>
    obtain ⟨next, records, hconnect, hnext, hreplay⟩ := connectBlock_replays hutxo h.1 schedule
    obtain ⟨live, more, hrest, hlive, hmore⟩ := ih next hnext (h.2 next records hconnect)
    refine ⟨live, records ++ more, ?_, hlive, fun base hbase heq replaySchedule => ?_⟩
    · simp only [connectSegment, hconnect, hrest]
    · exact replayRecords_append (hreplay base hbase heq replaySchedule)
        (fun mid hmid hcoins => hmore mid hmid hcoins replaySchedule)

def mutationOutpoint : Mutation → OutPoint
  | .create coin => coin.outpoint
  | .spend coin => coin.outpoint
  | .overwrite _ newCoin => newCoin.outpoint

lemma contains_of_recorded {S : OutPoint → Option UtxoCoin} {inputs : BlockChangeInputs}
    (hvalid : ValidBlock txid S inputs) {changes : BlockChanges} (hchanges : changes = ⟨[], []⟩ ∨
      changes = ⟨inputs.allCreated, inputs.allExternal⟩) {mutation : Mutation}
    (h : Recorded S changes mutation) : inputs.contains (mutationOutpoint mutation) = false := by
  have hadds {op : OutPoint} (ho : op ∈ changes.adds.map UtxoAdd.outpoint) : inputs.contains op = false := by
    rcases hchanges with rfl | rfl
    · cases ho
    · obtain ⟨add, ha, rfl⟩ := mem_map.mp ho
      obtain ⟨tx, -, hadd⟩ := hvalid.mem_allCreated ha
      obtain ⟨-, -, -, hcontains, -⟩ := ValidBlock.created_outpoint hadd
      exact hcontains
  have hremoves {op : OutPoint} (ho : op ∈ changes.removes) : inputs.contains op = false := by
    rcases hchanges with rfl | rfl
    · cases ho
    · exact (hvalid.mem_allExternal ho).1
  cases mutation with
  | create coin => exact hadds h.1
  | spend coin => exact hremoves h.1
  | overwrite oldCoin newCoin => exact hadds h.1

/-- A valid block has mutations, which record overwrites and leave out what is created and spent within the block.
Their replay, on the set the block was built over, ends in the coins that its commit ends in; and so does the
replay of the records of a whole segment, on any set with the coins of its base. -/
theorem journal_replay_eq_live_commit (txid : Tx → Txid) (schedule replaySchedule : Schedule) (utxo : UtxoSet)
    (hutxo : utxo.WellFormed) :
    (∀ (inputs : BlockChangeInputs) (resolved : SpentOutputLookup) (changes : BlockChanges) (undo : UndoBatch)
        (totals : BlockValueTotals), ValidBlock txid utxo.coins inputs → Agrees utxo.coins inputs resolved →
        buildBlockChanges inputs resolved = .ok (changes, undo, totals) →
        ∃ mutations, mutationsForBlock changes (undo.restores.map journalCoin) = .ok mutations ∧
          (∀ mutation ∈ mutations, Recorded utxo.coins changes mutation ∧
            inputs.contains (mutationOutpoint mutation) = false) ∧
          (utxo.commitBlock schedule changes).2 = .ok () ∧
          ∀ record : JournalRecord, record.mutations = mutations →
            (applyRecordMutations replaySchedule utxo record).2 = .ok () ∧
            (applyRecordMutations replaySchedule utxo record).1.coins = (utxo.commitBlock schedule changes).1.coins) ∧
      ∀ blocks : List SegmentBlock, ValidSegment txid schedule utxo blocks →
        ∃ live records, connectSegment schedule utxo blocks = some (live, records) ∧
          ∀ base : UtxoSet, base.WellFormed → base.coins = utxo.coins →
            (replayRecords replaySchedule base records).2 = .ok () ∧
            (replayRecords replaySchedule base records).1.coins = live.coins := by
  refine ⟨fun inputs resolved changes undo totals hvalid hagrees hbuild => ?_, fun blocks hblocks => ?_⟩
  · obtain ⟨hok, -, hcoins⟩ := commit_of_build hutxo hvalid hagrees hbuild schedule hutxo rfl
    obtain ⟨mutations, hmutations, hrecorded, hreplay⟩ := mutations_of_build hutxo hvalid hagrees hbuild
    have hchanges := (changes_of_build hutxo hagrees hbuild).2
    refine ⟨mutations, hmutations, fun mutation hm => ⟨hrecorded mutation hm,
      contains_of_recorded hvalid hchanges (hrecorded mutation hm)⟩, hok, fun record hrecord => ?_⟩
    obtain ⟨hrun, -, heq⟩ := hreplay utxo hutxo rfl replaySchedule record hrecord
    exact ⟨hrun, by rw [heq, hcoins]⟩
  · obtain ⟨live, records, hconnect, -, hreplay⟩ := connectSegment_replays schedule blocks utxo hutxo hblocks
    refine ⟨live, records, hconnect, fun base hbase heq => ?_⟩
    obtain ⟨hrun, -, hcoins⟩ := hreplay base hbase heq replaySchedule
    exact ⟨hrun, hcoins⟩

namespace Sample

open Utxo.Sample

def segment : List SegmentBlock :=
  [{ inputs, resolved := utxo.coins, blockHash := .zero, prevHash := .zero, coinStatsHeightDelta := 1 }]

lemma valid : ValidBlock txidOf utxo.coins inputs where
  txids_eq := rfl
  txid_inputs := by decide
  only_first_coinbase := by decide
  first_coinbase := by decide
  inputs_ne_nil := by decide
  inputs_nodup := by decide
  outputs_lt := by decide
  bip30 tx ht vout := by
    by_contra hlive
    obtain ⟨coin, hc⟩ := Option.ne_none_iff_exists'.mp hlive
    obtain ⟨add, ha, he, -⟩ := UtxoSet.mem_ofAdds utxo_ok hc
    exact (by decide : ∀ tx ∈ inputs.block.txs.tail, ∀ add ∈ coins, add.outpoint.txid ≠ txidOf tx) tx ht add ha
      (congrArg OutPoint.txid he)
  overwrites_own tx ht vout hlive := by
    obtain rfl : block.txs.head (by decide) = tx := by
      have hhead : block.txs.head? = some tx := ht
      rwa [head?_eq_some_head (by decide), Option.some_inj] at hhead
    obtain ⟨coin, hc⟩ := Option.ne_none_iff_exists'.mp hlive
    obtain ⟨add, hadd, he, -⟩ := UtxoSet.mem_ofAdds utxo_ok hc
    rw [show vout = 0 from (congrArg OutPoint.vout he).symm.trans ((by decide : ∀ add ∈ coins,
      add.outpoint.txid = .zero → add.outpoint.vout = 0) add hadd (congrArg OutPoint.txid he))]
    decide
  planned := by decide
  script_size := rfl

end Sample

open Utxo.Sample Sample

theorem journal_replay_eq_live_commit_sample :
    (∃ mutations, mutationsForBlock changes (undo.restores.map journalCoin) = .ok mutations ∧
      ∀ mutation ∈ mutations, Recorded utxo.coins changes mutation) ∧
    ∃ live records, connectSegment .sequential utxo segment = some (live, records) ∧
      (replayRecords .sequential utxo records).2 = .ok () ∧
      (replayRecords .sequential utxo records).1.coins = live.coins := by
  have h := journal_replay_eq_live_commit txidOf .sequential .sequential utxo utxo_wellFormed
  constructor
  · obtain ⟨mutations, hmutations, hrecorded, -⟩ := h.1 _ _ _ _ _ valid agrees built
    exact ⟨mutations, hmutations, fun mutation hm => (hrecorded mutation hm).1⟩
  · obtain ⟨live, records, hconnect, hreplay⟩ := h.2 segment
      ⟨⟨valid, agrees, _, built⟩, fun _ _ _ => trivial⟩
    exact ⟨live, records, hconnect, hreplay utxo utxo_wellFormed rfl⟩

end BitcoinRs.Chainstate
