import BitcoinRs.Chainstate.JournalReplay
import BitcoinRs.Utxo.UndoCheck

namespace BitcoinRs.Chainstate

open Batch Fallible Utxo List Utxo.Sample BlockChangeInputs BlockUndoCheck

def storedOutputs (inputs : BlockChangeInputs) (tx : Tx × Txid) : List UtxoAdd :=
  (tx.1.outputs.zipIdx.filter (fun output => !inputs.isUnstorable output.1)).map (fun output =>
    { outpoint := ⟨tx.2, UInt32.ofNat output.2⟩, txout := output.1, coinbase := tx.1.isCoinbase,
      height := inputs.height })

def spentBy (tx : Tx) : List OutPoint := if tx.isCoinbase then [] else tx.inputs.map TxIn.previousOutput

section

variable (inputs : BlockChangeInputs)

def connectTx (view : OutPoint → Option UtxoCoin) (tx : Tx × Txid) : OutPoint → Option UtxoCoin :=
  apply view (spentBy tx.1) ((storedOutputs inputs tx).map UtxoAdd.binding)

def viewAfter (S : OutPoint → Option UtxoCoin) (passed : List (Tx × Txid)) : OutPoint → Option UtxoCoin :=
  passed.foldl (connectTx inputs) S

def coinsSpent :
    (OutPoint → Option UtxoCoin) → List (Tx × Txid) → List (List (Option UtxoCoin))
  | _, [] => []
  | view, tx :: rest => (spentBy tx.1).map view :: coinsSpent (connectTx inputs view tx) rest

end

/-- A valid block over coins of earlier blocks, each of whose inputs finds its coin when its turn comes. -/
structure ConnectsOver (txid : Tx → Txid) (S : OutPoint → Option UtxoCoin) (inputs : BlockChangeInputs) : Prop
    extends ValidBlock txid S inputs where
  key : ∀ op coin, S op = some coin → coin.outpoint = op
  historical : ∀ op coin, S op = some coin → coin.height < inputs.height
  available : ∀ passed tx rest, inputs.txPairs = passed ++ tx :: rest → ∀ op ∈ spentBy tx.1,
    ∃ coin, viewAfter inputs S passed op = some coin
  /-- A coinbase that repeats an earlier one has the outputs whose coins are still live. -/
  overwrites_stored : ∀ tx ∈ inputs.block.txs.head?, ∀ vout, S ⟨txid tx, vout⟩ ≠ none →
    ⟨txid tx, vout⟩ ∈ (storedOutputs inputs (tx, txid tx)).map UtxoAdd.outpoint

variable (inputs : BlockChangeInputs)

def OutputCoin (parent : Tx) (op : OutPoint) (coin : UtxoCoin) : Prop :=
  ∃ txout, parent.outputs[op.vout.toNat]? = some txout ∧
    coin = { outpoint := op, txout, coinbase := parent.isCoinbase, height := inputs.height }

def undoCheck : BlockUndoCheck :=
  { block := inputs.block, txids := inputs.txids, maxScriptSize := inputs.maxScriptSize }

variable {coin : UtxoCoin} {parent : Tx × Txid}

section

variable {inputs} {S : OutPoint → Option UtxoCoin}

lemma storedOutputs_spec {tx : Tx × Txid} (hlen : tx.1.outputs.length < 2 ^ 32) {add : UtxoAdd}
    (h : add ∈ storedOutputs inputs tx) : add.outpoint.txid = tx.2 ∧
      tx.1.outputs[add.outpoint.vout.toNat]? = some add.txout ∧ add.coinbase = tx.1.isCoinbase ∧
      add.height = inputs.height := by
  obtain ⟨⟨txout, i⟩, hmem, rfl⟩ := mem_map.mp h
  obtain ⟨hidx, -⟩ := mem_filter.mp hmem
  have hi : i < 2 ^ 32 := (snd_lt_of_mem_zipIdx hidx).trans hlen
  refine ⟨rfl, ?_, rfl, rfl⟩
  have hget := mem_zipIdx_iff_getElem?.mp hidx
  rwa [UInt32.toNat_ofNat_of_lt' hi]

variable {Q : UtxoCoin → Prop} {op : OutPoint}

lemma viewAfter_cases (passed : List (Tx × Txid)) (hS : ∀ coin, S op = some coin → Q coin)
    (hcreated : ∀ tx ∈ passed, ∀ add ∈ storedOutputs inputs tx, add.outpoint = op → Q add.coin)
    (h : viewAfter inputs S passed op = some coin) : Q coin := by
  induction passed generalizing S with
  | nil => exact hS coin h
  | cons tx rest ih =>
    obtain ⟨hfirst, hrest⟩ := forall_mem_cons.mp hcreated
    refine ih (fun coin hc => ?_) hrest h
    rw [connectTx, apply_eq] at hc
    rcases Option.or_eq_some_iff.mp hc with hlast | ⟨-, hold⟩
    · obtain ⟨add, ha, he⟩ := mem_map.mp (mem_of_lastValue _ _ hlast)
      cases he
      exact hfirst add ha rfl
    · split_ifs at hold
      exact hS coin hold

lemma viewAfter_append (passed more : List (Tx × Txid)) :
    viewAfter inputs S (passed ++ more) = viewAfter inputs (viewAfter inputs S passed) more :=
  foldl_append

lemma viewAfter_of_stored {passed : List (Tx × Txid)}
    (hparent : parent ∈ passed) (hstored : op ∈ (storedOutputs inputs parent).map UtxoAdd.outpoint)
    (hcreated : ∀ tx ∈ passed, ∀ add ∈ storedOutputs inputs tx, add.outpoint = op → Q add.coin)
    (h : viewAfter inputs S passed op = some coin) : Q coin := by
  obtain ⟨before, after, rfl⟩ := mem_iff_append.mp hparent
  rw [append_cons, viewAfter_append] at h
  refine viewAfter_cases after (fun coin hc => ?_) (fun tx ht => hcreated tx (by simp [ht])) h
  rw [viewAfter_append] at hc
  have hc : connectTx inputs (viewAfter inputs S before) parent op = some coin := hc
  rw [connectTx, apply_eq] at hc
  rcases Option.or_eq_some_iff.mp hc with hlast | ⟨hnone, -⟩
  · obtain ⟨add, ha, he⟩ := mem_map.mp (mem_of_lastValue _ _ hlast)
    cases he
    exact hcreated parent (by simp) add ha rfl
  · rw [lastValue_eq_none, map_map] at hnone
    exact absurd hstored hnone

end

def Earlier (passed : List (Tx × Txid)) (earlier : Txid → Option (Tx × Bool)) : Prop :=
  ∀ id, match earlier id with
    | some (parent, generated) => (parent, id) ∈ passed ∧ generated = parent.isCoinbase
    | none => id ∉ passed.map Prod.snd

variable {earlier : Txid → Option (Tx × Bool)}

lemma Earlier.update {passed : List (Tx × Txid)} (h : Earlier passed earlier) (tx : Tx × Txid) :
    Earlier (passed ++ [tx]) (Function.update earlier tx.2 (some (tx.1, tx.1.isCoinbase))) := by
  intro id
  by_cases hid : id = tx.2
  · subst hid
    rw [Function.update_self]
    exact ⟨mem_append_right _ mem_cons_self, rfl⟩
  · rw [Function.update_of_ne hid]
    have hbefore := h id
    cases he : earlier id with
    | none =>
      rw [he] at hbefore
      simpa [hid] using hbefore
    | some found =>
      rw [he] at hbefore
      exact ⟨mem_append_left _ hbefore.1, hbefore.2⟩

namespace ConnectsOver

variable {txid : Tx → Txid} {S : OutPoint → Option UtxoCoin} {inputs}

section

variable (h : ConnectsOver txid S inputs)

include h

variable {tx : Tx × Txid}

lemma mem_txPairs (ht : tx ∈ inputs.txPairs) : tx.1 ∈ inputs.block.txs ∧ tx.2 = txid tx.1 := by
  rw [h.txPairs_eq] at ht
  obtain ⟨tx, hmem, rfl⟩ := mem_map.mp ht
  exact ⟨hmem, rfl⟩

lemma eq_of_txid {tx other : Tx × Txid} (ht : tx ∈ inputs.txPairs)
    (ho : other ∈ inputs.txPairs) (he : tx.2 = other.2) : tx = other := by
  have hids := h.txids_nodup
  rw [h.txids_eq] at hids
  obtain ⟨htx, hid⟩ := h.mem_txPairs ht
  obtain ⟨hother, hid'⟩ := h.mem_txPairs ho
  have hsame : tx.1 = other.1 := inj_on_of_nodup_map hids htx hother (by rw [← hid, ← hid', he])
  exact Prod.ext hsame he

lemma first_of_live (hp : parent ∈ inputs.txPairs) (vout : UInt32)
    (hlive : S ⟨parent.2, vout⟩ ≠ none) : parent.1 ∈ inputs.block.txs.head? ∧ parent ∈ inputs.txPairs.head? := by
  obtain ⟨hmem, hid⟩ := h.mem_txPairs hp
  have hbip30 := h.bip30 parent.1
  rw [h.txPairs_eq]
  cases htxs : inputs.block.txs with
  | nil =>
    rw [htxs] at hmem
    cases hmem
  | cons first others =>
    rw [htxs] at hmem hbip30
    rcases mem_cons.mp hmem with hfirst | hother
    · exact ⟨hfirst ▸ rfl, congrArg some (Prod.ext hfirst.symm (by rw [hid, hfirst]))⟩
    · rw [hid] at hlive
      exact absurd (hbip30 hother vout) hlive

lemma passed_ne_nil {passed rest : List (Tx × Txid)}
    (hsplit : inputs.txPairs = passed ++ tx :: rest) (hc : tx.1.isCoinbase = false) : passed ≠ [] := by
  rintro rfl
  have hhead := h.first_coinbase tx.1 (by
    have heq := congrArg (fun pairs => (pairs.map Prod.fst).head?) hsplit
    rw [h.txPairs_eq] at heq
    simpa [Function.comp_def] using heq)
  rw [hc] at hhead
  cases hhead

end

variable {op : OutPoint}

lemma spentBy_coinbase {tx : Tx} (ho : op ∈ spentBy tx) :
    tx.isCoinbase = false ∧ op ∈ tx.inputs.map TxIn.previousOutput := by
  rw [spentBy] at ho
  split_ifs at ho with hc
  · cases ho
  · exact ⟨by simpa using hc, ho⟩

section

variable (h : ConnectsOver txid S inputs) {passed rest : List (Tx × Txid)} {tx : Tx × Txid}
  (hsplit : inputs.txPairs = passed ++ tx :: rest)

include h hsplit

lemma spends_before (hnew : op.txid ∉ passed.map Prod.snd) (hview : viewAfter inputs S passed op = some coin) :
    S op = some coin := by
  refine viewAfter_cases passed (fun coin hc => hc) ?_ hview
  intro parent hp add ha he
  have hpairs : parent ∈ inputs.txPairs := hsplit ▸ mem_append_left _ hp
  have hlen := h.outputs_lt parent.1 (h.mem_txPairs hpairs).1
  exact absurd (mem_map.mpr ⟨parent, hp, by rw [← (storedOutputs_spec hlen ha).1, he]⟩) hnew

lemma spends_parent (hp : parent ∈ passed) (hid : parent.2 = op.txid)
    (hview : viewAfter inputs S passed op = some coin) : OutputCoin inputs parent.1 op coin := by
  have hpairs {other : Tx × Txid} (ho : other ∈ passed) : other ∈ inputs.txPairs := hsplit ▸ mem_append_left _ ho
  have hcreated : ∀ other ∈ passed, ∀ add ∈ storedOutputs inputs other, add.outpoint = op →
      OutputCoin inputs parent.1 op add.coin := by
    intro other hother add ha he
    obtain ⟨hkey, hout, hcb, hheight⟩ := storedOutputs_spec (h.outputs_lt other.1 (h.mem_txPairs (hpairs hother)).1) ha
    obtain rfl := h.eq_of_txid (hpairs hother) (hpairs hp) (by rw [← hkey, he, hid])
    rw [he] at hout
    exact ⟨add.txout, hout, by rw [UtxoAdd.coin, he, hcb, hheight]⟩
  cases hS : S op with
  | none =>
    exact viewAfter_cases passed (fun coin hc => by rw [hS] at hc; cases hc)
      hcreated hview
  | some old =>
    -- only a coinbase repeats a txid with live coins, and it writes over them
    have hlive : S ⟨parent.2, op.vout⟩ ≠ none := by rw [hid, hS]; exact Option.some_ne_none _
    have hstored := h.overwrites_stored parent.1 (h.first_of_live (hpairs hp) op.vout hlive).1 op.vout (by
      rw [← (h.mem_txPairs (hpairs hp)).2]
      exact hlive)
    have hpair : (parent.1, txid parent.1) = parent := Prod.ext rfl (h.mem_txPairs (hpairs hp)).2.symm
    rw [hpair, ← (h.mem_txPairs (hpairs hp)).2, hid] at hstored
    exact viewAfter_of_stored hp hstored hcreated hview

variable (ho : op ∈ spentBy tx.1)

include ho

lemma not_contains (hnew : op.txid ∉ passed.map Prod.snd) : inputs.contains op = false := by
  rw [Bool.eq_false_iff, ne_eq, h.contains_iff]
  rintro ⟨i, other, -, -, -, hprior⟩
  obtain ⟨coin, hview⟩ := h.available passed tx rest hsplit op ho
  have hS := h.spends_before hsplit hnew hview
  obtain ⟨parent, hp, hid⟩ : ∃ parent ∈ inputs.txPairs, parent.2 = op.txid := by
    have hmem := mem_of_mem_take hprior
    rw [h.txids_eq] at hmem
    obtain ⟨tx, ht, he⟩ := mem_map.mp hmem
    exact ⟨(tx, txid tx), by rw [h.txPairs_eq]; exact mem_map_of_mem ht, he⟩
  have hfirst := (h.first_of_live hp op.vout (by rw [hid, hS]; exact Option.some_ne_none _)).2
  obtain ⟨first, before, rfl⟩ := exists_cons_of_ne_nil (h.passed_ne_nil hsplit (spentBy_coinbase ho).1)
  rw [hsplit] at hfirst
  cases hfirst
  exact hnew (mem_map.mpr ⟨parent, mem_cons_self, hid⟩)

end

lemma take_ids (h : ConnectsOver txid S inputs) (i : ℕ) :
    (inputs.txPairs.map Prod.snd).take i = inputs.txids.take i := by
  rw [h.txPairs_eq, h.txids_eq, map_map]
  rfl

variable {tx : Tx × Txid}

lemma split_of_getElem? {pairs : List (Tx × Txid)} {i : ℕ} (hi : pairs[i]? = some tx) :
    ∃ passed rest, pairs = passed ++ tx :: rest ∧ (pairs.map Prod.snd).take i = passed.map Prod.snd := by
  obtain ⟨hlt, rfl⟩ := List.getElem?_eq_some_iff.mp hi
  refine ⟨pairs.take i, pairs.drop (i + 1), ?_, map_take.symm⟩
  rw [← drop_eq_getElem_cons hlt, take_append_drop]

lemma mem_sameBlock_iff (h : ConnectsOver txid S inputs) (op : OutPoint) :
    op ∈ (undoCheck inputs).blockInputs.sameBlock ↔ inputs.contains op = true := by
  rw [mem_sameBlock, h.contains_iff]
  constructor
  · rintro ⟨_, ⟨i, tx, hi, hc, hop, rfl⟩, hprior⟩
    exact ⟨i, tx, hi, hc, hop, h.take_ids i ▸ hprior⟩
  · rintro ⟨i, tx, hi, hc, hop, hprior⟩
    exact ⟨_, ⟨i, tx, hi, hc, hop, rfl⟩, (h.take_ids i).symm ▸ hprior⟩

lemma mem_external_iff (h : ConnectsOver txid S inputs) (op : OutPoint) :
    op ∈ (undoCheck inputs).blockInputs.external ↔ op ∈ inputs.allExternal := by
  rw [mem_external]
  constructor
  · rintro ⟨_, ⟨i, tx, hi, hc, hop, rfl⟩, hprior⟩
    obtain ⟨passed, rest, hsplit, hids⟩ := split_of_getElem? hi
    rw [hids] at hprior
    have hspent : op ∈ spentBy tx.1 := by rwa [spentBy, hc]
    refine mem_flatMap.mpr ⟨tx, mem_of_getElem? hi, ?_⟩
    rw [external, hc]
    exact mem_filter.mpr ⟨hop, by rw [h.not_contains hsplit hspent hprior]; rfl⟩
  · intro ho
    obtain ⟨tx, ht, hop⟩ := mem_flatMap.mp ho
    rw [external] at hop
    split_ifs at hop with hc
    · cases hop
    obtain ⟨hin, hnot⟩ := mem_filter.mp hop
    obtain ⟨i, hi⟩ := mem_iff_getElem?.mp ht
    refine ⟨_, ⟨i, tx, hi, by simpa using hc, hin, rfl⟩, fun hprior => ?_⟩
    have hcontains := (h.contains_iff op).mpr ⟨i, tx, hi, by simpa using hc, hin, h.take_ids i ▸ hprior⟩
    rw [hcontains] at hnot
    cases hnot

lemma mem_created_iff (inputs : BlockChangeInputs) (tx : Tx × Txid) (op : OutPoint) :
    op ∈ (inputs.created tx).map UtxoAdd.outpoint ↔
      op ∈ (undoCheck inputs).retainedOutpoints tx ∧ inputs.contains op = false := by
  have hunstorable (txout : TxOut) : (undoCheck inputs).isUnstorable txout = inputs.isUnstorable txout := rfl
  simp only [created, retainedOutpoints, mem_map, mem_filterMap, mem_filter, hunstorable, Bool.not_eq_true']
  constructor
  · rintro ⟨add, ⟨output, hout, hadd⟩, rfl⟩
    simp only [BlockChangeInputs.createdOutput] at hadd
    split_ifs at hadd with hskip
    cases hadd
    rw [Bool.or_eq_true, not_or, Bool.not_eq_true, Bool.not_eq_true] at hskip
    exact ⟨⟨output, ⟨hout, hskip.2⟩, rfl⟩, hskip.1⟩
  · rintro ⟨⟨output, ⟨hout, hstorable⟩, rfl⟩, hnot⟩
    rw [outpointOf] at hnot
    refine ⟨{ outpoint := _, txout := output.1, coinbase := tx.1.isCoinbase, height := inputs.height },
      ⟨output, hout, ?_⟩, rfl⟩
    simp [BlockChangeInputs.createdOutput, hnot, hstorable]

lemma mem_allCreated_iff (inputs : BlockChangeInputs) (op : OutPoint) :
    op ∈ inputs.allCreated.map UtxoAdd.outpoint ↔
      op ∈ inputs.txPairs.flatMap (undoCheck inputs).retainedOutpoints ∧ inputs.contains op = false := by
  rw [allCreated, map_flatMap, mem_flatMap, mem_flatMap]
  simp only [mem_created_iff, exists_and_right, ← and_assoc]

lemma retained_created (check : BlockUndoCheck)
    (ho : op ∈ check.retainedOutpoints tx) : op ∈ BlockUndoCheck.createdOutpoints tx := by
  obtain ⟨output, hmem, rfl⟩ := mem_map.mp ho
  exact mem_map_of_mem (mem_filter.mp hmem).1

section

variable (h : ConnectsOver txid S inputs) {undo : UndoBatch}
  (hstaged : Staged S ⟨inputs.allCreated, inputs.allExternal⟩ undo)

include hstaged

lemma restored_iff (op : OutPoint) : op ∈ undo.restores.map UtxoAdd.outpoint ↔
    (op ∈ inputs.allCreated.map UtxoAdd.outpoint ∧ (S op).isSome) ∨ op ∈ inputs.allExternal := by
  rw [hstaged.restores_perm.mem_iff, mem_append, mem_filter]

lemma restore_of_external (ho : op ∈ inputs.allExternal) (hS : S op = some coin) :
    ∃ restore, undo.restoreMap op = some restore ∧ restore.outpoint = op ∧ restore.coin = coin := by
  cases hlast : undo.restoreMap op with
  | none =>
    rw [UndoBatch.restoreMap, lastValue_eq_none, map_map] at hlast
    exact absurd ((restored_iff hstaged op).mpr (Or.inr ho)) hlast
  | some restore =>
    obtain ⟨add, ha, he⟩ := mem_map.mp (mem_of_lastValue _ _ hlast)
    have hcoin := hstaged.restores_coin add ha
    obtain ⟨rfl, rfl⟩ := Prod.mk.inj he
    rw [hS] at hcoin
    exact ⟨add, rfl, rfl, (Option.some.inj hcoin).symm⟩

lemma external_live (ho : op ∈ inputs.allExternal) : (S op).isSome := by
  obtain ⟨restore, hr, rfl⟩ := mem_map.mp ((restored_iff hstaged op).mpr (Or.inr ho))
  rw [hstaged.restores_coin restore hr]
  rfl

include h

lemma removes_eq {retained : Finset OutPoint}
    (hretained : ∀ op, op ∈ retained ↔ op ∈ inputs.txPairs.flatMap (undoCheck inputs).retainedOutpoints) :
    undo.removes.toFinset = (retained.filter (· ∉ (undoCheck inputs).blockInputs.sameBlock)).filter
      (· ∉ (undo.restores.map UtxoAdd.outpoint).toFinset) := by
  ext op
  rw [Finset.mem_filter, Finset.mem_filter, mem_toFinset, mem_toFinset, hretained, h.mem_sameBlock_iff,
    restored_iff hstaged, Bool.not_eq_true, ← mem_allCreated_iff, hstaged.removes_eq, mem_filter]
  refine and_congr_right (fun hadd => ?_)
  rw [Option.isNone_iff_eq_none, ← Option.not_isSome_iff_eq_none]
  exact ⟨fun hnone hor => hor.elim (fun hs => hnone hs.2) (fun he => hnone (external_live hstaged he)),
    fun hnot hs => hnot (Or.inl ⟨hadd, hs⟩)⟩

lemma restores_checked {created : Finset OutPoint}
    (hcreated : ∀ op, op ∈ created ↔ op ∈ inputs.txPairs.flatMap BlockUndoCheck.createdOutpoints) :
    undo.restores.foldlM (BlockUndoCheck.checkRestore inputs.height (undoCheck inputs).blockInputs.external created) ∅ =
      .ok (undo.restores.map UtxoAdd.outpoint).toFinset := by
  rw [foldlM_checkRestore, Finset.empty_union]
  intro add ha
  refine ⟨h.historical _ _ (hstaged.restores_coin add ha), ?_⟩
  rcases (restored_iff hstaged _).mp (mem_map_of_mem ha) with ⟨hadd, -⟩ | hext
  · obtain ⟨tx, ht, hop⟩ := mem_flatMap.mp ((mem_allCreated_iff inputs _).mp hadd).1
    exact Or.inr ((hcreated _).mpr (mem_flatMap.mpr ⟨tx, ht, retained_created _ hop⟩))
  · exact Or.inl ((h.mem_external_iff _).mpr hext)

lemma validateUndoForBlock_ok (hheight : inputs.height ≠ 0) :
    validateUndoForBlock (undoCheck inputs) inputs.height undo = .ok () := by
  have hlen : ∀ tx ∈ (undoCheck inputs).block.txs.zip (undoCheck inputs).txids, tx.1.outputs.length ≤ 2 ^ 32 :=
    fun tx ht => (h.outputs_lt tx.1 (h.mem_txPairs ht).1).le
  obtain ⟨sets, houtputs, hcreated, hretained⟩ := blockOutputs_eq hlen
  have hcount : (undoCheck inputs).block.txs.length = (undoCheck inputs).txids.length := h.length_eq
  rw [validateUndoForBlock, if_neg hheight, if_neg (not_not.mpr hcount), houtputs]
  simp only [restores_checked h hstaged hcreated, ok_bind]
  rw [if_neg, if_neg (not_not.mpr (removes_eq h hstaged hretained))]
  rw [not_not]
  exact fun op ho => mem_toFinset.mpr ((restored_iff hstaged op).mpr (Or.inr ((h.mem_external_iff op).mp ho)))

variable {passed rest : List (Tx × Txid)}

section

variable (hsplit : inputs.txPairs = passed ++ tx :: rest) (hearlier : Earlier passed earlier)

include hsplit hearlier

lemma spentCoin_ok {input : TxIn} (hin : input.previousOutput ∈ spentBy tx.1) :
    ∃ coin, spentCoin undo.restoreMap inputs.height earlier input =
      .ok coin ∧ viewAfter inputs S passed input.previousOutput = some coin := by
  obtain ⟨coin, hview⟩ := h.available passed tx rest hsplit _ hin
  refine ⟨coin, ?_, hview⟩
  have hid := hearlier input.previousOutput.txid
  rw [spentCoin]
  cases he : earlier input.previousOutput.txid with
  | some found =>
    rw [he] at hid
    obtain ⟨txout, hout, hcoin⟩ := h.spends_parent hsplit hid.1 rfl hview
    simp only [hout, hcoin, hid.2]
  | none =>
    rw [he] at hid
    have hS := h.spends_before hsplit hid hview
    have hext : input.previousOutput ∈ inputs.allExternal := by
      refine mem_flatMap.mpr ⟨tx, hsplit ▸ mem_append_right _ mem_cons_self, ?_⟩
      obtain ⟨hc, hop⟩ := spentBy_coinbase hin
      rw [external, hc]
      exact mem_filter.mpr ⟨hop, by rw [h.not_contains hsplit hin hid]; rfl⟩
    obtain ⟨restore, hlast, hop, rfl⟩ := restore_of_external hstaged hext hS
    have hheight : restore.height < inputs.height := h.historical _ _ hS
    simp only [hlast, if_neg (UInt32.not_le.mpr hheight), UtxoAdd.coin, hop]

lemma spentCoins_ok :
    ∃ coins, spentCoins undo.restoreMap inputs.height earlier tx.1 = .ok coins ∧
      coins.map some = (spentBy tx.1).map (viewAfter inputs S passed) := by
  rw [spentCoins, spentBy]
  split_ifs with hc
  · exact ⟨[], rfl, rfl⟩
  · rw [map_map]
    refine mapM_ok tx.1.inputs (fun input hin => spentCoin_ok h hstaged hsplit hearlier ?_)
    rw [spentBy, if_neg hc]
    exact mem_map_of_mem hin

end

lemma spendTxs_ok (rest : List (Tx × Txid)) {passed : List (Tx × Txid)} (hsplit : inputs.txPairs = passed ++ rest)
    (hearlier : Earlier passed earlier) (before : List (List UtxoCoin)) :
    ∃ last spent, (rest.map Prod.fst).foldlM
        (spendTx txid undo.restoreMap inputs.height)
        (earlier, before) = .ok (last, before ++ spent) ∧
      spent.map (map some) = coinsSpent inputs (viewAfter inputs S passed) rest := by
  induction rest generalizing passed earlier before with
  | nil => exact ⟨earlier, [], by rw [append_nil]; rfl, rfl⟩
  | cons tx rest ih =>
    have hid : txid tx.1 = tx.2 := (h.mem_txPairs (hsplit ▸ mem_append_right _ mem_cons_self)).2.symm
    obtain ⟨coins, hcoins, hall⟩ := spentCoins_ok h hstaged hsplit hearlier
    obtain ⟨last, spent, hrun, hspent⟩ := ih (by rw [hsplit, append_cons]) (hearlier.update tx) (before ++ [coins])
    refine ⟨last, coins :: spent, ?_, ?_⟩
    · rw [append_cons before coins spent, ← hrun, map_cons, foldlM_cons, spendTx, hcoins, hid]
      rfl
    · rw [map_cons, hspent, hall, viewAfter_append]
      rfl

end

end ConnectsOver

/-- The undo batch built for a block that connects passes the check made when it is loaded, and the coins read back
from it and the block are, input by input, the ones the block spends. -/
theorem built_undo_accepted (txid : Tx → Txid) (S : OutPoint → Option UtxoCoin) (inputs : BlockChangeInputs)
    (h : ConnectsOver txid S inputs) (hheight : 1 ≤ inputs.height) (resolved : SpentOutputLookup)
    (hagrees : Agrees S inputs resolved) (changes : BlockChanges) (undo : UndoBatch) (totals : BlockValueTotals)
    (hbuild : buildBlockChanges inputs resolved = .ok (changes, undo, totals)) :
    validateUndoForBlock (undoCheck inputs) inputs.height undo = .ok () ∧
      ∃ spent, blockSpentOutputs txid inputs.block inputs.height undo = .ok spent ∧
        spent.map (map some) = coinsSpent inputs S inputs.txPairs := by
  have hzero : inputs.height ≠ 0 := by
    rintro hzero
    rw [hzero] at hheight
    exact absurd hheight (by decide)
  obtain ⟨hstaged, ⟨he, -⟩ | ⟨-, rfl⟩⟩ := buildBlockChanges_staged h.key hagrees hbuild
  · exact absurd he hzero
  refine ⟨h.validateUndoForBlock_ok hstaged hzero, ?_⟩
  have hearlier : Earlier [] (fun _ => none) := fun id => not_mem_nil
  obtain ⟨last, spent, hrun, hspent⟩ := h.spendTxs_ok hstaged inputs.txPairs rfl hearlier []
  have htxs : inputs.txPairs.map Prod.fst = inputs.block.txs := by
    rw [h.txPairs_eq, map_map]
    exact map_id _
  refine ⟨spent, ?_, hspent⟩
  rw [blockSpentOutputs, ← htxs, hrun]
  rfl

lemma Sample.connects : ConnectsOver txidOf utxo.coins Sample.inputs where
  toValidBlock := Sample.valid
  key op coin hc := (utxo_wellFormed.coin hc).1
  historical op coin hc := by
    obtain ⟨add, ha, -, rfl⟩ := UtxoSet.mem_ofAdds utxo_ok hc
    exact (by decide : ∀ add ∈ coins, add.height < inputs.height) add ha
  available passed tx rest hsplit op ho := by
    have hviews : ∀ k : Fin 3, ∀ tx ∈ inputs.txPairs[k.1]?, ∀ op ∈ spentBy tx.1,
        (viewAfter inputs utxo.coins (inputs.txPairs.take k) op).isSome := by decide +kernel
    have hlt : passed.length < 3 := by
      have hlen := congrArg length hsplit
      rw [show inputs.txPairs.length = 3 from rfl, length_append, length_cons] at hlen
      omega
    have hview := hviews ⟨passed.length, hlt⟩ tx (by rw [hsplit]; simp) op ho
    rw [hsplit, take_left] at hview
    exact Option.isSome_iff_exists.mp hview
  overwrites_stored tx ht vout hlive := by
    obtain ⟨coin, hc⟩ := Option.ne_none_iff_exists'.mp hlive
    obtain ⟨add, ha, hop, -⟩ := UtxoSet.mem_ofAdds utxo_ok hc
    rw [← hop]
    have hid : add.outpoint.txid = txidOf tx := congrArg OutPoint.txid hop
    exact (by decide : ∀ tx ∈ inputs.block.txs.head?, ∀ add ∈ coins,
      add.outpoint.txid = txidOf tx → add.outpoint ∈
        (storedOutputs inputs (tx, txidOf tx)).map UtxoAdd.outpoint) tx ht add ha hid

theorem built_undo_accepted_sample :
    validateUndoForBlock (undoCheck Sample.inputs) 2 undo = .ok () ∧
      ∃ spent, blockSpentOutputs txidOf block 2 undo = .ok spent ∧
        spent.map (map some) = coinsSpent Sample.inputs utxo.coins Sample.inputs.txPairs :=
  built_undo_accepted txidOf utxo.coins inputs Sample.connects (by decide) utxo.coins
    agrees changes undo ⟨50, 7, 3⟩ built

end BitcoinRs.Chainstate
