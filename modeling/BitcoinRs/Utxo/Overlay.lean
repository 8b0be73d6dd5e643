import BitcoinRs.Utxo.Contract

namespace BitcoinRs.Utxo

open Batch

inductive WindowOverlayError
  | txidCountMismatch (transactions txids : ℕ)

/-- A spend is kept as a tombstone, so that a later block can create the outpoint again. -/
structure WindowOverlay where
  base : UtxoSet
  maxScriptSize : ℕ
  changed : OutPoint → Option (Option UtxoCoin)

namespace WindowOverlay

def new (base : UtxoSet) (maxScriptSize : ℕ) : WindowOverlay :=
  { base, maxScriptSize, changed := fun _ => none }

def insert (overlay : WindowOverlay) (outpoint : OutPoint) (entry : Option UtxoCoin) : WindowOverlay :=
  { overlay with changed := Function.update overlay.changed outpoint (some entry) }

def advanceOutput (height : UInt32) (sameBlockSpent : List OutPoint) (coinbase : Bool) (txid : Txid)
    (overlay : WindowOverlay) (output : TxOut × ℕ) : WindowOverlay :=
  let script := output.1.scriptPubkey
  let outpoint : OutPoint := ⟨txid, UInt32.ofNat output.2⟩
  if script.head? == some 0x6a || overlay.maxScriptSize < script.length || sameBlockSpent.contains outpoint then overlay
  else overlay.insert outpoint (some { outpoint, txout := output.1, coinbase, height })

def advanceInput (sameBlockSpent : List OutPoint) (overlay : WindowOverlay) (input : TxIn) : WindowOverlay :=
  if sameBlockSpent.contains input.previousOutput then overlay else overlay.insert input.previousOutput none

def advanceTx (height : UInt32) (sameBlockSpent : List OutPoint) (overlay : WindowOverlay) (tx : Tx × Txid) :
    WindowOverlay :=
  let overlay := tx.1.outputs.zipIdx.foldl (advanceOutput height sameBlockSpent tx.1.isCoinbase tx.2) overlay
  if tx.1.isCoinbase then overlay else tx.1.inputs.foldl (advanceInput sameBlockSpent) overlay

section

variable (overlay : WindowOverlay)

def advance (block : Block) (txids : List Txid) (height : UInt32)
    (sameBlockSpent : List OutPoint) : Except WindowOverlayError WindowOverlay :=
  if block.txs.length ≠ txids.length then .error (.txidCountMismatch block.txs.length txids.length)
  else if height = 0 then .ok overlay
  else .ok ((block.txs.zip txids).foldl (advanceTx height sameBlockSpent) overlay)

variable (outpoint : OutPoint)

def getEntry : Run (Option UtxoCoin) :=
  match overlay.changed outpoint with
  | some entry => .ok entry
  | none => overlay.base.getEntry outpoint

def coins : Option UtxoCoin := (overlay.changed outpoint).getD (overlay.base.coins outpoint)

end

variable {overlay : WindowOverlay}

lemma getEntry_coins (h : overlay.base.WellFormed) (op : OutPoint) : overlay.getEntry op = .ok (overlay.coins op) := by
  rw [getEntry, coins]
  cases overlay.changed op with
  | none => exact h.getEntry_coins op
  | some entry => rfl

lemma coins_insert (overlay : WindowOverlay) (op : OutPoint) (entry : Option UtxoCoin) :
    (overlay.insert op entry).coins = Function.update overlay.coins op entry := by
  funext x
  by_cases hx : x = op
  · subst hx
    simp [coins, insert]
  · simp [coins, insert, hx]

structure Over (overlay overlay' : WindowOverlay) : Prop where
  base : overlay'.base = overlay.base
  maxScriptSize : overlay'.maxScriptSize = overlay.maxScriptSize

lemma Over.refl (overlay : WindowOverlay) : Over overlay overlay := ⟨rfl, rfl⟩

lemma Over.trans {overlay overlay' overlay'' : WindowOverlay} (h : Over overlay overlay')
    (h' : Over overlay' overlay'') : Over overlay overlay'' :=
  ⟨h'.base.trans h.base, h'.maxScriptSize.trans h.maxScriptSize⟩

section

variable {inputs : BlockChangeInputs} {sameBlockSpent : List OutPoint}
  (hspent : ∀ op, inputs.contains op = sameBlockSpent.contains op)

include hspent

lemma advanceOutput_coins (hsize : overlay.maxScriptSize = inputs.maxScriptSize) (coinbase : Bool) (txid : Txid)
    (output : TxOut × ℕ) :
    Over overlay (advanceOutput inputs.height sameBlockSpent coinbase txid overlay output) ∧
      (advanceOutput inputs.height sameBlockSpent coinbase txid overlay output).coins =
        insertAll overlay.coins ((inputs.createdOutput coinbase txid output).toList.map UtxoAdd.binding) := by
  simp only [advanceOutput, BlockChangeInputs.createdOutput, BlockChangeInputs.isUnstorable, hspent, hsize,
    Bool.or_comm (sameBlockSpent.contains _)]
  split_ifs
  · exact ⟨Over.refl _, rfl⟩
  · exact ⟨⟨rfl, rfl⟩, coins_insert _ _ _⟩

lemma advanceOutputs_coins (coinbase : Bool) (txid : Txid) (outputs : List (TxOut × ℕ))
    (hsize : overlay.maxScriptSize = inputs.maxScriptSize) :
    Over overlay (outputs.foldl (advanceOutput inputs.height sameBlockSpent coinbase txid) overlay) ∧
      (outputs.foldl (advanceOutput inputs.height sameBlockSpent coinbase txid) overlay).coins =
        insertAll overlay.coins ((outputs.filterMap (inputs.createdOutput coinbase txid)).map UtxoAdd.binding) := by
  induction outputs generalizing overlay with
  | nil => exact ⟨Over.refl _, rfl⟩
  | cons output rest ih =>
    obtain ⟨hover, hcoins⟩ := advanceOutput_coins hspent hsize coinbase txid output
    obtain ⟨hover', hcoins'⟩ := ih (hover.maxScriptSize.trans hsize)
    refine ⟨hover.trans hover', ?_⟩
    rw [List.foldl_cons, hcoins', hcoins, ← insertAll_append]
    cases hc : inputs.createdOutput coinbase txid output <;> simp [hc]

lemma advanceInputs_coins (ins : List TxIn) (overlay : WindowOverlay) :
    Over overlay (ins.foldl (advanceInput sameBlockSpent) overlay) ∧
      (ins.foldl (advanceInput sameBlockSpent) overlay).coins =
        eraseAll overlay.coins ((ins.map TxIn.previousOutput).filter (fun op => !inputs.contains op)) := by
  induction ins generalizing overlay with
  | nil => exact ⟨Over.refl _, (eraseAll_nil _).symm⟩
  | cons input rest ih =>
    obtain ⟨hover, hcoins⟩ := ih (advanceInput sameBlockSpent overlay input)
    rw [List.foldl_cons, hcoins, List.map_cons, List.filter_cons, hspent]
    rw [advanceInput] at hover ⊢
    cases hin : sameBlockSpent.contains input.previousOutput with
    | true =>
      rw [hin] at hover
      exact ⟨hover, rfl⟩
    | false =>
      rw [hin] at hover
      have hinsert : Over overlay (overlay.insert input.previousOutput none) := ⟨rfl, rfl⟩
      exact ⟨hinsert.trans hover, by simp [coins_insert, eraseAll_cons]⟩

lemma advanceTx_coins (hsize : overlay.maxScriptSize = inputs.maxScriptSize) (tx : Tx × Txid) :
    Over overlay (advanceTx inputs.height sameBlockSpent overlay tx) ∧
      (advanceTx inputs.height sameBlockSpent overlay tx).coins =
        eraseAll (insertAll overlay.coins ((inputs.created tx).map UtxoAdd.binding)) (inputs.external tx) := by
  obtain ⟨hover, hcoins⟩ := advanceOutputs_coins hspent tx.1.isCoinbase tx.2 tx.1.outputs.zipIdx hsize
  rw [advanceTx, BlockChangeInputs.external]
  split_ifs
  · exact ⟨hover, by exact hcoins⟩
  · obtain ⟨hover', hcoins'⟩ := advanceInputs_coins hspent tx.1.inputs
      (tx.1.outputs.zipIdx.foldl (advanceOutput inputs.height sameBlockSpent tx.1.isCoinbase tx.2) overlay)
    exact ⟨hover.trans hover', by rw [hcoins', hcoins]; rfl⟩

lemma advanceTxs_coins (txs : List (Tx × Txid)) (hsize : overlay.maxScriptSize = inputs.maxScriptSize) :
    Over overlay (txs.foldl (advanceTx inputs.height sameBlockSpent) overlay) ∧
      (txs.foldl (advanceTx inputs.height sameBlockSpent) overlay).coins =
        txs.foldl (fun coins tx => eraseAll (insertAll coins ((inputs.created tx).map UtxoAdd.binding))
          (inputs.external tx)) overlay.coins := by
  induction txs generalizing overlay with
  | nil => exact ⟨Over.refl _, rfl⟩
  | cons tx rest ih =>
    obtain ⟨hover, hcoins⟩ := advanceTx_coins hspent hsize tx
    obtain ⟨hover', hcoins'⟩ := ih (hover.maxScriptSize.trans hsize)
    exact ⟨hover.trans hover', by rw [List.foldl_cons, List.foldl_cons, hcoins', hcoins]⟩

lemma advance_coins (hlen : inputs.block.txs.length = inputs.txids.length) (hzero : inputs.height ≠ 0)
    (hdisjoint : ∀ op ∈ inputs.allExternal, op ∉ inputs.allCreated.map UtxoAdd.outpoint)
    (hsize : overlay.maxScriptSize = inputs.maxScriptSize) :
    ∃ next, overlay.advance inputs.block inputs.txids inputs.height sameBlockSpent = .ok next ∧ Over overlay next ∧
      next.coins = apply overlay.coins inputs.allExternal (inputs.allCreated.map UtxoAdd.binding) := by
  obtain ⟨hover, hcoins⟩ := advanceTxs_coins hspent inputs.txPairs hsize
  refine ⟨_, by rw [advance, if_neg (not_not.mpr hlen), if_neg hzero]; rfl, hover, ?_⟩
  have hadds : inputs.allCreated.map UtxoAdd.binding =
      inputs.txPairs.flatMap (fun tx => (inputs.created tx).map UtxoAdd.binding) := List.map_flatMap
  rw [hcoins, hadds]
  refine foldl_eq_apply _ _ _ _ (fun op ho => ?_)
  rw [← hadds, List.map_map]
  exact hdisjoint op ho

end

end WindowOverlay

end BitcoinRs.Utxo
