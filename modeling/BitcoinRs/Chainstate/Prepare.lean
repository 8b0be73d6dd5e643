import BitcoinRs.Utxo.Contract

/-!
The outputs a block's inputs find: those of the set before the block, under an overlay of what its earlier
transactions created and spent, and without one where the plan sees that none is needed.
-/

namespace BitcoinRs.Chainstate

open Utxo List

def localOverlayTxidSetThreshold : ℕ := 8

def sequenceLocktimeDisableFlag : UInt32 := 0x80000000

structure BlockTxPlan where
  onlyCoinbase : Bool
  needsLocalUtxoOverlay : Bool
  overlayCapacity : ℕ
  hasWitness : Bool
  hasBip68SequenceLocks : Bool
  createdOutputCount : ℕ
  spentInputCount : ℕ
  sameBlockSpent : Option (List OutPoint)
  sameBlockSpentInputCount : ℕ

structure PlanState where
  plan : BlockTxPlan
  createdTxids : Option (List Txid)
  spentOutpoints : Option (List OutPoint)
  sawNonCoinbase : Bool

def PlanState.start : PlanState where
  plan :=
    { onlyCoinbase := true, needsLocalUtxoOverlay := false, overlayCapacity := 0, hasWitness := false,
      hasBip68SequenceLocks := false, createdOutputCount := 0, spentInputCount := 0, sameBlockSpent := none,
      sameBlockSpentInputCount := 0 }
  createdTxids := none
  spentOutpoints := none
  sawNonCoinbase := false

def txHasBip68SequenceLocks (tx : Tx) : Bool :=
  2 ≤ tx.version && tx.inputs.any (fun input => input.sequence &&& sequenceLocktimeDisableFlag == 0)

namespace PlanState

variable (state : PlanState) (priorTxids : List Txid)

def createdSet : Option (List Txid) :=
  if priorTxids.length ≤ localOverlayTxidSetThreshold then state.createdTxids
  else some (state.createdTxids.getD priorTxids)

def spendsCreatedOutput (txid : Txid) : Bool :=
  if priorTxids.length ≤ localOverlayTxidSetThreshold then priorTxids.contains txid
  else (state.createdTxids.getD priorTxids).contains txid

variable (trackSpentConflicts : Bool)

def repeatsPriorSpend (outpoint : OutPoint) : Bool :=
  if trackSpentConflicts then (state.spentOutpoints.getD []).contains outpoint else state.sawNonCoinbase

def planInput (state : PlanState) (input : TxIn) : PlanState :=
  let outpoint := input.previousOutput
  let sameBlock := state.spendsCreatedOutput priorTxids outpoint.txid
  let repeats := state.repeatsPriorSpend trackSpentConflicts outpoint
  { state with
    plan := { state.plan with
      hasWitness := state.plan.hasWitness || !input.witness.isEmpty
      sameBlockSpent := if sameBlock then some (outpoint :: state.plan.sameBlockSpent.getD [])
        else state.plan.sameBlockSpent
      sameBlockSpentInputCount := state.plan.sameBlockSpentInputCount + if sameBlock then 1 else 0
      needsLocalUtxoOverlay := state.plan.needsLocalUtxoOverlay || sameBlock || repeats }
    createdTxids := state.createdSet priorTxids
    spentOutpoints := if trackSpentConflicts then some (outpoint :: state.spentOutpoints.getD [])
      else state.spentOutpoints }

def planOutputs (tx : Tx) : PlanState :=
  { state with plan := { state.plan with
      onlyCoinbase := state.plan.onlyCoinbase && tx.isCoinbase
      createdOutputCount := state.plan.createdOutputCount + tx.outputs.length } }

def planCoinbase (tx : Tx) : PlanState :=
  { state with plan := { state.plan with
      hasWitness := state.plan.hasWitness || tx.inputs.any (fun input => !input.witness.isEmpty)
      overlayCapacity := state.plan.overlayCapacity + tx.outputs.length } }

def planSpends (state : PlanState) (tx : Tx) : PlanState :=
  let state := tx.inputs.foldl (planInput priorTxids trackSpentConflicts) state
  { state with
    sawNonCoinbase := true
    plan := { state.plan with
      hasBip68SequenceLocks := state.plan.hasBip68SequenceLocks || txHasBip68SequenceLocks tx
      spentInputCount := state.plan.spentInputCount + tx.inputs.length
      overlayCapacity := state.plan.overlayCapacity + (tx.outputs.length + tx.inputs.length) } }

def planTx (txids : List Txid) (trackSpentConflicts : Bool) (state : PlanState) (item : (Tx × Txid) × ℕ) : PlanState :=
  let ((tx, txid), txIndex) := item
  let state := state.planOutputs tx
  let state := if tx.isCoinbase then state.planCoinbase tx
    else planSpends (txids.take txIndex) trackSpentConflicts state tx
  { state with createdTxids := state.createdTxids.map (fun created => txid :: created) }

end PlanState

def planBlockTransactions (block : Block) (txids : List Txid) : BlockTxPlan :=
  ((block.txs.zip txids).zipIdx.foldl (PlanState.planTx txids (2 < block.txs.length)) PlanState.start).plan

def resolve (utxo : OutPoint → Option UtxoCoin) (block : Block) (plan : BlockTxPlan) : SpentOutputLookup :=
  fun outpoint =>
    let candidates := ((block.txs.filter (fun tx => !tx.isCoinbase)).flatMap Tx.inputs).map TxIn.previousOutput
    if candidates.contains outpoint && !(plan.sameBlockSpent.getD []).contains outpoint then utxo outpoint else none

def SpendsEarlier (passed : List (Tx × Txid)) (txids : List Txid) (op : OutPoint) : Prop :=
  ∃ i, ∃ tx : Tx × Txid, passed[i]? = some tx ∧ tx.1.isCoinbase = false ∧
    op ∈ tx.1.inputs.map TxIn.previousOutput ∧ op.txid ∈ txids.take i

namespace PlanState

variable {txids priorTxids : List Txid} (track : Bool) {state : PlanState}

def Tracks (state : PlanState) (priorTxids : List Txid) : Prop :=
  ∀ created, state.createdTxids = some created → ∀ txid, txid ∈ created ↔ txid ∈ priorTxids

section

variable (h : state.Tracks priorTxids)

include h

lemma Tracks.getD (txid : Txid) : txid ∈ state.createdTxids.getD priorTxids ↔ txid ∈ priorTxids := by
  cases hc : state.createdTxids with
  | none => rfl
  | some created => exact h created hc txid

lemma spendsCreatedOutput_iff (txid : Txid) : state.spendsCreatedOutput priorTxids txid = true ↔ txid ∈ priorTxids := by
  rw [spendsCreatedOutput]
  split_ifs
  · exact contains_iff_mem
  · exact contains_iff_mem.trans (h.getD txid)

lemma Tracks.createdSet {created : List Txid}
    (hc : state.createdSet priorTxids = some created) (txid : Txid) : txid ∈ created ↔ txid ∈ priorTxids := by
  rw [PlanState.createdSet] at hc
  split_ifs at hc
  · exact h created hc txid
  · cases hc
    exact h.getD txid

end

def spends (state : PlanState) : List OutPoint := state.plan.sameBlockSpent.getD []

lemma planInput_spends (h : state.Tracks priorTxids) (input : TxIn) :
    (planInput priorTxids track state input).Tracks priorTxids ∧
      ∀ op, op ∈ (planInput priorTxids track state input).spends ↔
        op ∈ state.spends ∨ op = input.previousOutput ∧ op.txid ∈ priorTxids := by
  refine ⟨fun created hc => h.createdSet hc, fun op => ?_⟩
  have hcreated := spendsCreatedOutput_iff h input.previousOutput.txid
  simp only [spends, planInput]
  split_ifs with hin
  · rw [Option.getD_some, mem_cons, or_comm]
    exact or_congr_right ⟨fun he => ⟨he, he ▸ hcreated.mp hin⟩, And.left⟩
  · exact ⟨Or.inl, fun hop => hop.resolve_right (fun he => hin (hcreated.mpr (he.1 ▸ he.2)))⟩

lemma planInputs_spends (inputs : List TxIn) (h : state.Tracks priorTxids) :
    (inputs.foldl (planInput priorTxids track) state).Tracks priorTxids ∧
      ∀ op, op ∈ (inputs.foldl (planInput priorTxids track) state).spends ↔
        op ∈ state.spends ∨ op ∈ inputs.map TxIn.previousOutput ∧ op.txid ∈ priorTxids := by
  induction inputs generalizing state with
  | nil => exact ⟨h, by simp⟩
  | cons input rest ih =>
    obtain ⟨htracks, hin⟩ := planInput_spends track h input
    obtain ⟨htracks', hin'⟩ := ih htracks
    refine ⟨htracks', fun op => ?_⟩
    rw [foldl_cons, hin', hin, map_cons, mem_cons, or_and_right, or_assoc]

lemma tracks_insert (h : state.Tracks priorTxids) (txid : Txid) :
    Tracks { state with createdTxids := state.createdTxids.map (fun created => txid :: created) }
      (priorTxids ++ [txid]) := by
  intro created hc x
  obtain ⟨before, hb, rfl⟩ := Option.map_eq_some_iff.mp hc
  rw [mem_cons, mem_append, mem_singleton, h before hb x]
  exact or_comm

lemma planTx_spends {i : ℕ} {tx : Tx × Txid} (h : state.Tracks (txids.take i)) (hi : txids[i]? = some tx.2) :
    (planTx txids track state (tx, i)).Tracks (txids.take (i + 1)) ∧
      ∀ op, op ∈ (planTx txids track state (tx, i)).spends ↔ op ∈ state.spends ∨
        tx.1.isCoinbase = false ∧ op ∈ tx.1.inputs.map TxIn.previousOutput ∧ op.txid ∈ txids.take i := by
  have houtputs : (state.planOutputs tx.1).Tracks (txids.take i) := h
  rw [take_add_one, hi]
  simp only [planTx]
  cases hc : tx.1.isCoinbase with
  | true =>
    have hcoinbase : ((state.planOutputs tx.1).planCoinbase tx.1).Tracks (txids.take i) := h
    exact ⟨tracks_insert hcoinbase tx.2, fun op => ⟨Or.inl, fun hop => hop.resolve_right (fun he => by cases he.1)⟩⟩
  | false =>
    obtain ⟨htracks, hin⟩ := planInputs_spends track tx.1.inputs houtputs
    have hspends : (planSpends (txids.take i) track (state.planOutputs tx.1) tx.1).Tracks (txids.take i) := htracks
    exact ⟨tracks_insert hspends tx.2, fun op => (hin op).trans (or_congr_right (and_iff_right rfl).symm)⟩

lemma planTxs_spends (pairs : List (Tx × Txid)) (k : ℕ) (h : state.Tracks (txids.take k))
    (hids : ∀ (j : ℕ) (tx : Tx × Txid), pairs[j]? = some tx → txids[k + j]? = some tx.2) (op : OutPoint) :
    op ∈ ((pairs.zipIdx k).foldl (planTx txids track) state).spends ↔ op ∈ state.spends ∨
      ∃ (j : ℕ) (tx : Tx × Txid), pairs[j]? = some tx ∧ tx.1.isCoinbase = false ∧
        op ∈ tx.1.inputs.map TxIn.previousOutput ∧ op.txid ∈ txids.take (k + j) := by
  induction pairs generalizing k state with
  | nil => simp
  | cons pair rest ih =>
    rw [zipIdx_cons, foldl_cons]
    obtain ⟨htracks, hin⟩ := planTx_spends track h (hids 0 pair rfl)
    have hshift (j : ℕ) : k + 1 + j = k + (j + 1) := by omega
    rw [ih (k + 1) htracks (fun j tx hj => hshift j ▸ hids (j + 1) tx hj), hin, or_assoc]
    refine or_congr_right ⟨?_, ?_⟩
    · rintro (hfirst | ⟨j, tx, hj, hrest⟩)
      · exact ⟨0, pair, rfl, hfirst⟩
      · exact ⟨j + 1, tx, hj, hshift j ▸ hrest⟩
    · rintro ⟨j, tx, hj, hrest⟩
      cases j with
      | zero =>
        cases hj
        exact Or.inl hrest
      | succ j => exact Or.inr ⟨j, tx, hj, (hshift j).symm ▸ hrest⟩

end PlanState

lemma planBlockTransactions_spends (block : Block) (txids : List Txid) (op : OutPoint) :
    op ∈ (planBlockTransactions block txids).sameBlockSpent.getD [] ↔
      SpendsEarlier (block.txs.zip txids) txids op := by
  have htracks : PlanState.start.Tracks (txids.take 0) := fun created hcreated => (by cases hcreated)
  have hloop := PlanState.planTxs_spends (2 < block.txs.length) (block.txs.zip txids) 0 htracks (fun j tx hj => by
    rw [Nat.zero_add]
    rw [getElem?_zip_eq_some] at hj
    exact hj.2) op
  refine hloop.trans ((or_iff_right (by simp [PlanState.spends, PlanState.start])).trans ?_)
  simp only [SpendsEarlier, Nat.zero_add]

inductive ResolveError
  | voutOverflow (txid : Txid)
  deriving DecidableEq

structure PrevoutMeta where
  coinbase : Bool
  height : UInt32
  deriving DecidableEq

def PrevoutMeta.of (coin : UtxoCoin) : PrevoutMeta := ⟨coin.coinbase, coin.height⟩

structure BlockLocalUtxoView where
  base : SpentOutputLookup
  txdata : List Tx
  height : UInt32
  overlay : OutPoint → Option (Option ℕ)

namespace BlockLocalUtxoView

variable (base : SpentOutputLookup)

def new (txdata : List Tx) (height : UInt32) : BlockLocalUtxoView :=
  { base, txdata, height, overlay := fun _ => none }

variable (view : BlockLocalUtxoView)

def lookupMeta (outpoint : OutPoint) : Option PrevoutMeta :=
  match view.overlay outpoint with
  | some entry => do
    let derivedIndex ← entry
    let _ ← (← view.txdata[derivedIndex]?).outputs[outpoint.vout.toNat]?
    return { coinbase := derivedIndex == 0, height := view.height }
  | none => (view.base outpoint).map PrevoutMeta.of

def lookup (outpoint : OutPoint) : Option TxOut :=
  match view.overlay outpoint with
  | some entry => do
    let derivedIndex ← entry
    (← view.txdata[derivedIndex]?).outputs[outpoint.vout.toNat]?
  | none => (view.base outpoint).map UtxoCoin.txout

def spendInputs (tx : Tx) : BlockLocalUtxoView :=
  tx.inputs.foldl (fun view input =>
    { view with overlay := Function.update view.overlay input.previousOutput (some none) }) view

def addOutputs (derivedIndex : ℕ) (txid : Txid) (outputCount : ℕ) : Except ResolveError BlockLocalUtxoView :=
  (range outputCount).foldlM (fun view vout =>
    if vout < 2 ^ 32 then
      .ok { view with overlay := Function.update view.overlay ⟨txid, UInt32.ofNat vout⟩ (some (some derivedIndex)) }
    else .error (.voutOverflow txid)) view

def advance (item : (Tx × Txid) × ℕ) : Except ResolveError BlockLocalUtxoView :=
  if item.1.1.isCoinbase then view.addOutputs item.2 item.1.2 item.1.1.outputs.length
  else (view.spendInputs item.1.1).addOutputs item.2 item.1.2 item.1.1.outputs.length

def reached (txs : List Tx) (txids : List Txid) (height : UInt32) (n : ℕ) : Except ResolveError BlockLocalUtxoView :=
  ((txs.zip txids).zipIdx.take n).foldlM advance (new base txs height)

end BlockLocalUtxoView

def resolveTx (state : BlockLocalUtxoView × List (List (Option TxOut))) (item : (Tx × Txid) × ℕ) :
    Except ResolveError (BlockLocalUtxoView × List (List (Option TxOut))) := do
  let row := if item.1.1.isCoinbase then []
    else item.1.1.inputs.map (fun input => state.1.lookup input.previousOutput)
  return (← state.1.advance item, state.2 ++ [row])

def resolveBlockPrevouts (resolved : SpentOutputLookup) (txs : List Tx) (plan : BlockTxPlan) (height : UInt32)
    (txids : List Txid) : Except ResolveError (List (List (Option TxOut))) :=
  if plan.needsLocalUtxoOverlay then do
    return (← (txs.zip txids).zipIdx.foldlM resolveTx (.new resolved txs height, [])).2
  else .ok (txs.map fun tx => if tx.isCoinbase then []
    else tx.inputs.map fun input => (resolved input.previousOutput).map UtxoCoin.txout)

section

def prevouts (tx : Tx) : List OutPoint :=
  if tx.isCoinbase then [] else tx.inputs.map TxIn.previousOutput

def createdOutput (pair : Tx × Txid) (op : OutPoint) : Option TxOut :=
  if op.txid = pair.2 then pair.1.outputs[op.vout.toNat]? else none

variable (flag : Tx → ℕ → Bool) (height : UInt32)

/-- The sequential rule: a transaction takes the coins it spends away and leaves the outputs it creates. The coinbase
flag of a new coin is `flag` of its transaction and the place of that in the block. -/
def passTx (coins : SpentOutputLookup) (item : (Tx × Txid) × ℕ) : SpentOutputLookup := fun op =>
  match createdOutput item.1 op with
  | some txout => some { outpoint := op, txout, coinbase := flag item.1.1 item.2, height }
  | none => if op ∈ prevouts item.1.1 then none else coins op

variable (utxo : SpentOutputLookup)

def sequential (earlier : List ((Tx × Txid) × ℕ)) : SpentOutputLookup := earlier.foldl (passTx flag height) utxo

def sequentialRows (txs : List Tx) (txids : List Txid) : List (List (Option TxOut)) :=
  (txs.zip txids).zipIdx.map fun item => (prevouts item.1.1).map fun op =>
    (sequential flag height utxo ((txs.zip txids).zipIdx.take item.2) op).map UtxoCoin.txout

end

variable {op : OutPoint}

namespace BlockLocalUtxoView

variable {view : BlockLocalUtxoView}

section

variable (view)

def markSpent (spent : List OutPoint) : BlockLocalUtxoView :=
  { view with overlay := fun op => if op ∈ spent then some none else view.overlay op }

lemma spendInputs_eq (tx : Tx) : view.spendInputs tx = view.markSpent (tx.inputs.map TxIn.previousOutput) := by
  unfold spendInputs markSpent
  induction tx.inputs generalizing view with
  | nil => simp
  | cons input rest ih =>
    rw [foldl_cons, ih]
    congr 1
    funext op
    by_cases hop : op = input.previousOutput <;> simp [hop]

lemma addOutputs_eq (i : ℕ) (txid : Txid) (n : ℕ) :
    view.addOutputs i txid n = if n ≤ 2 ^ 32 then
      .ok { view with overlay := fun op =>
        if op.txid = txid ∧ op.vout.toNat < n then some (some i) else view.overlay op }
      else .error (.voutOverflow txid) := by
  induction n with
  | zero => simp [addOutputs]
  | succ n ih =>
    unfold addOutputs at ih ⊢
    rw [range_succ, foldlM_append, ih]
    by_cases hn : n ≤ 2 ^ 32
    · rw [if_pos hn, Fallible.ok_bind, foldlM_cons]
      by_cases hlt : n < 2 ^ 32
      · rw [if_pos hlt, if_pos (Nat.succ_le_of_lt hlt)]
        simp only [Fallible.ok_bind, foldlM_nil, Fallible.pure_eq_ok]
        congr 2
        funext op
        have hvout : (UInt32.ofNat n).toNat = n := UInt32.toNat_ofNat_of_lt' hlt
        have hop : op = ⟨txid, UInt32.ofNat n⟩ ↔ op.txid = txid ∧ op.vout.toNat = n := by
          rw [OutPoint.mk.injEq, ← UInt32.toNat_inj, hvout]
        by_cases htxid : op.txid = txid
        · simp only [Function.update_apply, hop, htxid, true_and]
          split_ifs <;> first | rfl | omega
        · simp [hop, htxid]
      · rw [if_neg hlt, if_neg (by omega)]
        rfl
    · rw [if_neg hn, if_neg (by omega)]
      rfl

end

inductive Stands (txs : List Tx) (flag : Tx → ℕ → Bool) (height : UInt32) (op : OutPoint) (kept : Option UtxoCoin) :
    Option (Option ℕ) → Option UtxoCoin → Prop
  | untouched : Stands txs flag height op kept none kept
  | spent : Stands txs flag height op kept (some none) none
  | created {i : ℕ} {tx : Tx} {txout : TxOut} (htx : txs[i]? = some tx)
      (hout : tx.outputs[op.vout.toNat]? = some txout) : Stands txs flag height op kept (some (some i))
        (some { outpoint := op, txout, coinbase := flag tx i, height })

variable {base utxo coins : SpentOutputLookup} {txs : List Tx} {txids : List Txid} {height : UInt32}
  {flag : Tx → ℕ → Bool}

structure Follows (base utxo : SpentOutputLookup) (txs : List Tx) (height : UInt32) (flag : Tx → ℕ → Bool)
    (view : BlockLocalUtxoView) (coins : SpentOutputLookup) : Prop where
  base_eq : view.base = base
  txdata_eq : view.txdata = txs
  height_eq : view.height = height
  entry : ∀ op, Stands txs flag height op (utxo op) (view.overlay op) (coins op)

section

variable (h : Follows base utxo txs height flag view coins)

include h

lemma Follows.lookup_eq (hbase : base op = utxo op) : view.lookup op = (coins op).map UtxoCoin.txout := by
  unfold lookup
  have hentry := h.entry op
  generalize view.overlay op = entry at hentry ⊢
  generalize coins op = found at hentry ⊢
  cases hentry with
  | untouched => simp [h.base_eq, hbase]
  | spent => rfl
  | created htx hout => simp [h.txdata_eq, htx, hout]

lemma Follows.lookupMeta_eq (hbase : base op = utxo op) (hflag : ∀ i tx, txs[i]? = some tx → flag tx i = (i == 0)) :
    view.lookupMeta op = (coins op).map PrevoutMeta.of := by
  unfold lookupMeta
  have hentry := h.entry op
  generalize view.overlay op = entry at hentry ⊢
  generalize coins op = found at hentry ⊢
  cases hentry with
  | untouched => simp [h.base_eq, hbase]
  | spent => rfl
  | @created i tx txout htx hout => simp [h.txdata_eq, h.height_eq, htx, hout, PrevoutMeta.of, hflag i tx htx]

end

lemma follows_new (base utxo : SpentOutputLookup) (txs : List Tx) (height : UInt32) (flag : Tx → ℕ → Bool) :
    Follows base utxo txs height flag (new base txs height) utxo :=
  ⟨rfl, rfl, rfl, fun _ => .untouched⟩

def Overflows (txs : List Tx) (txids : List Txid) (e : ResolveError) : Prop :=
  ∃ pair ∈ txs.zip txids, 2 ^ 32 < pair.1.outputs.length ∧ e = .voutOverflow pair.2

lemma createdOutput_eq_none {pair : Tx × Txid} :
    createdOutput pair op = none ↔ ¬(op.txid = pair.2 ∧ op.vout.toNat < pair.1.outputs.length) := by
  unfold createdOutput
  split_ifs with htxid <;> simp [htxid]

lemma Follows.advance (h : Follows base utxo txs height flag view coins) {item : (Tx × Txid) × ℕ}
    (hitem : item ∈ (txs.zip txids).zipIdx) :
    (∃ next, view.advance item = .ok next ∧ Follows base utxo txs height flag next (passTx flag height coins item)) ∨
      ∃ e, view.advance item = .error e ∧ Overflows txs txids e := by
  have hpair : (txs.zip txids)[item.2]? = some item.1 := mem_zipIdx_iff_getElem?.mp hitem
  have hrun : view.advance item =
      (view.markSpent (prevouts item.1.1)).addOutputs item.2 item.1.2 item.1.1.outputs.length := by
    unfold BlockLocalUtxoView.advance prevouts
    split_ifs
    · simp [markSpent]
    · rw [spendInputs_eq]
  rw [hrun, addOutputs_eq]
  by_cases hsmall : item.1.1.outputs.length ≤ 2 ^ 32
  · refine .inl ⟨_, if_pos hsmall, h.base_eq, h.txdata_eq, h.height_eq, ?_⟩
    intro op
    unfold passTx
    dsimp only [markSpent]
    by_cases hcreated : op.txid = item.1.2 ∧ op.vout.toNat < item.1.1.outputs.length
    · have hout : createdOutput item.1 op = item.1.1.outputs[op.vout.toNat]? := if_pos hcreated.1
      rw [if_pos hcreated, hout, getElem?_eq_getElem hcreated.2]
      exact .created (getElem?_zip_eq_some.mp hpair).1 (getElem?_eq_getElem hcreated.2)
    · rw [createdOutput_eq_none.mpr hcreated]
      split_ifs
      · exact .spent
      · exact h.entry op
  · refine .inr ⟨_, if_neg hsmall, item.1, mem_of_getElem? hpair, by omega, rfl⟩

lemma sequential_concat (earlier : List ((Tx × Txid) × ℕ)) (item : (Tx × Txid) × ℕ) :
    sequential flag height utxo (earlier ++ [item]) =
      passTx flag height (sequential flag height utxo earlier) item := by
  simp [sequential]

lemma reached_outcome (base utxo : SpentOutputLookup) (txs : List Tx) (txids : List Txid) (height : UInt32)
    (flag : Tx → ℕ → Bool) (n : ℕ) :
    (∃ view, reached base txs txids height n = .ok view ∧ Follows base utxo txs height flag view
      (sequential flag height utxo ((txs.zip txids).zipIdx.take n))) ∨
      ∃ e, reached base txs txids height n = .error e ∧ Overflows txs txids e := by
  apply Fallible.foldlM_outcome
    (I := fun passed view => Follows base utxo txs height flag view (sequential flag height utxo passed))
  · exact follows_new base utxo txs height flag
  · intro passed item rest view hitems hview
    rw [sequential_concat]
    apply hview.advance
    apply mem_of_mem_take
    rw [hitems]
    simp

end BlockLocalUtxoView

section

variable {utxo : SpentOutputLookup} {block : Block} {txids : List Txid} {height : UInt32}

def NoOwnCoins (utxo : SpentOutputLookup) (txids : List Txid) : Prop := ∀ op, op.txid ∈ txids → utxo op = none

variable (hfresh : NoOwnCoins utxo txids)

include hfresh

lemma resolve_eq {tx : Tx} (htx : tx ∈ block.txs) (hop : op ∈ prevouts tx) :
    resolve utxo block (planBlockTransactions block txids) op = utxo op := by
  have hcoinbase : tx.isCoinbase = false := by
    unfold prevouts at hop
    split_ifs at hop with hc
    · cases hop
    · exact eq_false_of_ne_true hc
  rw [prevouts, if_neg (by simp [hcoinbase])] at hop
  obtain ⟨input, hinput, rfl⟩ := mem_map.mp hop
  have hcandidate : input.previousOutput ∈
      ((block.txs.filter (fun tx => !tx.isCoinbase)).flatMap Tx.inputs).map TxIn.previousOutput := by
    apply mem_map_of_mem
    apply mem_flatMap_of_mem _ hinput
    simp [htx, hcoinbase]
  unfold resolve
  dsimp only
  split_ifs with hread
  · rfl
  · simp only [Bool.and_eq_true, contains_iff_mem, hcandidate, true_and, Bool.not_eq_true', Bool.not_eq_false,
      planBlockTransactions_spends] at hread
    obtain ⟨i, _, _, _, _, htxid⟩ := hread
    exact (hfresh _ (mem_of_mem_take htxid)).symm

lemma resolveTxs_outcome (flag : Tx → ℕ → Bool) :
    let items := (block.txs.zip txids).zipIdx
    let base := resolve utxo block (planBlockTransactions block txids)
    (∃ view, items.foldlM resolveTx (.new base block.txs height, []) =
      .ok (view, sequentialRows flag height utxo block.txs txids)) ∨
      ∃ e, items.foldlM resolveTx (.new base block.txs height, []) = .error e ∧
        BlockLocalUtxoView.Overflows block.txs txids e := by
  intro items base
  let Reached : List ((Tx × Txid) × ℕ) → BlockLocalUtxoView × List (List (Option TxOut)) → Prop := fun passed state =>
    BlockLocalUtxoView.Follows base utxo block.txs height flag state.1 (sequential flag height utxo passed) ∧
      state.2 = passed.map fun item => (prevouts item.1.1).map fun op =>
        (sequential flag height utxo (items.take item.2) op).map UtxoCoin.txout
  have hrun : (∃ state, items.foldlM resolveTx (.new base block.txs height, []) = .ok state ∧ Reached items state) ∨
      ∃ e, items.foldlM resolveTx (.new base block.txs height, []) = .error e ∧
        BlockLocalUtxoView.Overflows block.txs txids e := by
    apply Fallible.foldlM_outcome ⟨BlockLocalUtxoView.follows_new base utxo block.txs height flag, rfl⟩
    rintro passed item rest ⟨view, rows⟩ hitems ⟨hview, hrows⟩
    have hitem : item ∈ items := by simp [hitems]
    have hat : items[passed.length]? = some item := by simp [hitems]
    have hindex : item.2 = passed.length := by
      rw [getElem?_zipIdx] at hat
      obtain ⟨pair, -, rfl⟩ := Option.map_eq_some_iff.mp hat
      simp
    have hpassed : items.take item.2 = passed := by simp [hindex, hitems]
    have htx : item.1.1 ∈ block.txs := (of_mem_zip (mem_of_getElem? (mem_zipIdx_iff_getElem?.mp hitem))).1
    have hrow : (if item.1.1.isCoinbase then [] else
        item.1.1.inputs.map (fun input => view.lookup input.previousOutput)) =
        (prevouts item.1.1).map fun op =>
          (sequential flag height utxo (items.take item.2) op).map UtxoCoin.txout := by
      have hlook : ∀ op ∈ prevouts item.1.1, view.lookup op = _ :=
        fun op hop => hview.lookup_eq (resolve_eq hfresh htx hop)
      rw [hpassed, ← map_congr_left hlook, prevouts]
      split_ifs <;> simp
    unfold resolveTx
    rcases hview.advance hitem with ⟨next, hnext, hfollows⟩ | ⟨e, herror, hover⟩
    · refine .inl ⟨_, by rw [hnext]; rfl, ?_, ?_⟩
      · rw [BlockLocalUtxoView.sequential_concat]
        exact hfollows
      · rw [map_append, ← hrows]
        exact congrArg (fun row => rows ++ [row]) hrow
    · exact .inr ⟨e, by rw [herror]; rfl, hover⟩
  rcases hrun with ⟨⟨view, rows⟩, hrun, -, hrows⟩ | hfail
  · exact .inl ⟨view, hrun.trans (congrArg (fun rows => Except.ok (view, rows)) hrows)⟩
  · exact .inr hfail

end

namespace PlanState

variable {txids priorTxids : List Txid} {track : Bool} {state : PlanState}

def Apart (earlier : Tx × Txid) (op : OutPoint) : Prop := op.txid ≠ earlier.2 ∧ op ∉ prevouts earlier.1

def Recorded (track : Bool) (state : PlanState) (passed : List (Tx × Txid)) : Prop :=
  ∀ op, state.repeatsPriorSpend track op = false → ∀ pair ∈ passed, op ∉ prevouts pair.1

variable (priorTxids track state) in
lemma planInputs_repeats (inputs : List TxIn) (op : OutPoint) :
    (inputs.foldl (planInput priorTxids track) state).repeatsPriorSpend track op =
      (state.repeatsPriorSpend track op || (track && (inputs.map TxIn.previousOutput).contains op)) := by
  induction inputs generalizing state with
  | nil => simp
  | cons input rest ih =>
    rw [foldl_cons, ih]
    cases track <;> simp [repeatsPriorSpend, planInput, Bool.or_comm, Bool.or_assoc, Bool.or_left_comm]

lemma planInputs_fresh (h : state.Tracks priorTxids) (inputs : List TxIn)
    (hneeds : (inputs.foldl (planInput priorTxids track) state).plan.needsLocalUtxoOverlay = false) :
    state.plan.needsLocalUtxoOverlay = false ∧ ∀ op ∈ inputs.map TxIn.previousOutput,
      op.txid ∉ priorTxids ∧ state.repeatsPriorSpend track op = false := by
  induction inputs generalizing state with
  | nil => exact ⟨hneeds, by simp⟩
  | cons input rest ih =>
    obtain ⟨hfirst, hrest⟩ := ih (planInput_spends track h input).1 hneeds
    simp only [planInput, Bool.or_eq_false_iff] at hfirst
    obtain ⟨⟨hneeds, hcreated⟩, hrepeats⟩ := hfirst
    refine ⟨hneeds, ?_⟩
    intro op hop
    rcases mem_cons.mp hop with rfl | hop
    · refine ⟨fun hmem => ?_, hrepeats⟩
      rw [(spendsCreatedOutput_iff h _).mpr hmem] at hcreated
      cases hcreated
    · have hnext := planInputs_repeats priorTxids track state [input] op
      rw [foldl_cons, foldl_nil, (hrest op hop).2] at hnext
      exact ⟨(hrest op hop).1, (Bool.or_eq_false_iff.mp hnext.symm).1⟩

variable (pair : Tx × Txid)

lemma planTx_repeats (i : ℕ) (op : OutPoint)
    (h : (planTx txids track state (pair, i)).repeatsPriorSpend track op = false) :
    state.repeatsPriorSpend track op = false ∧ op ∉ prevouts pair.1 := by
  unfold prevouts
  cases hcoinbase : pair.1.isCoinbase with
  | true =>
    simp only [planTx, hcoinbase, if_true] at h
    exact ⟨h, by simp⟩
  | false =>
    cases track with
    | false => simp [planTx, hcoinbase, planSpends, repeatsPriorSpend] at h
    | true =>
      have hinputs := planInputs_repeats (txids.take i) true (state.planOutputs pair.1) pair.1.inputs op
      have hrepeats : (pair.1.inputs.foldl (planInput (txids.take i) true)
          (state.planOutputs pair.1)).repeatsPriorSpend true op = false := by
        simp only [planTx, hcoinbase, Bool.false_eq_true, if_false] at h
        exact h
      rw [hrepeats] at hinputs
      simpa [planOutputs, repeatsPriorSpend] using hinputs.symm

lemma planTx_fresh {i : ℕ} (h : state.Tracks (txids.take i))
    (hneeds : (planTx txids track state (pair, i)).plan.needsLocalUtxoOverlay = false) :
    state.plan.needsLocalUtxoOverlay = false ∧ ∀ op ∈ prevouts pair.1,
      op.txid ∉ txids.take i ∧ state.repeatsPriorSpend track op = false := by
  unfold prevouts
  cases hcoinbase : pair.1.isCoinbase with
  | true =>
    simp only [planTx, hcoinbase, if_true] at hneeds
    exact ⟨hneeds, by simp⟩
  | false =>
    have houtputs : (state.planOutputs pair.1).Tracks (txids.take i) := h
    simp only [planTx, hcoinbase] at hneeds
    exact planInputs_fresh houtputs pair.1.inputs hneeds

structure Planned (txids : List Txid) (track : Bool) (passed : List (Tx × Txid)) (state : PlanState) : Prop where
  tracks : state.Tracks (txids.take passed.length)
  recorded : Recorded track state passed
  apart : state.plan.needsLocalUtxoOverlay = false →
    passed.Pairwise fun earlier later => ∀ op ∈ prevouts later.1, Apart earlier op

lemma Planned.step {passed : List (Tx × Txid)} {pair : Tx × Txid} (h : Planned txids track passed state)
    (hids : (passed ++ [pair]).map Prod.snd <+: txids) :
    Planned txids track (passed ++ [pair]) (planTx txids track state (pair, passed.length)) := by
  have hbefore : passed.map Prod.snd = txids.take passed.length := by
    rw [map_append] at hids
    simpa using prefix_iff_eq_take.mp ((prefix_append _ _).trans hids)
  have hat : txids[passed.length]? = some pair.2 := by
    obtain ⟨rest, rfl⟩ := hids
    simp
  constructor
  · rw [length_append]
    exact (planTx_spends track h.tracks hat).1
  · intro op hrepeats earlier hearlier
    obtain ⟨hstate, hpair⟩ := planTx_repeats pair passed.length op hrepeats
    rcases mem_append.mp hearlier with hmem | hmem
    · exact h.recorded op hstate earlier hmem
    · rwa [mem_singleton.mp hmem]
  · intro hneeds
    obtain ⟨hstate, hfresh⟩ := planTx_fresh pair h.tracks hneeds
    apply pairwise_append.mpr
    refine ⟨h.apart hstate, pairwise_singleton _ _, ?_⟩
    intro earlier hearlier later hlater op hop
    rw [mem_singleton.mp hlater] at hop
    obtain ⟨htxid, hrepeats⟩ := hfresh op hop
    refine ⟨?_, h.recorded op hrepeats earlier hearlier⟩
    intro heq
    apply htxid
    rw [← hbefore, heq]
    exact mem_map_of_mem hearlier

lemma planned (txids : List Txid) (track : Bool) (passed : List (Tx × Txid)) (hids : passed.map Prod.snd <+: txids) :
    Planned txids track passed (passed.zipIdx.foldl (planTx txids track) start) := by
  induction passed using reverseRecOn with
  | nil =>
    constructor
    · intro created hcreated
      cases hcreated
    · simp [Recorded]
    · simp
  | append_singleton passed pair ih =>
    have hpassed := ih ((by simp : passed.map Prod.snd <+: (passed ++ [pair]).map Prod.snd).trans hids)
    simpa [zipIdx_append] using hpassed.step hids

end PlanState

section

variable {utxo : SpentOutputLookup} {block : Block} {txids : List Txid} {height : UInt32}

lemma sequential_apart (flag : Tx → ℕ → Bool) (earlier : List ((Tx × Txid) × ℕ))
    (h : ∀ item ∈ earlier, PlanState.Apart item.1 op) : sequential flag height utxo earlier op = utxo op := by
  induction earlier using reverseRecOn with
  | nil => rfl
  | append_singleton earlier item ih =>
    obtain ⟨htxid, hspent⟩ := h item (by simp)
    rw [BlockLocalUtxoView.sequential_concat, passTx, createdOutput, if_neg htxid]
    rw [if_neg hspent]
    exact ih (fun item hitem => h item (by simp [hitem]))

lemma sequential_of_no_overlay (hlen : txids.length = block.txs.length)
    (hneeds : (planBlockTransactions block txids).needsLocalUtxoOverlay = false) (flag : Tx → ℕ → Bool)
    {item : (Tx × Txid) × ℕ} (hitem : item ∈ (block.txs.zip txids).zipIdx) (hop : op ∈ prevouts item.1.1) :
    sequential flag height utxo ((block.txs.zip txids).zipIdx.take item.2) op = utxo op := by
  have hids : (block.txs.zip txids).map Prod.snd <+: txids := ⟨[], (append_nil _).trans (map_snd_zip (by omega))⟩
  have hapart := (PlanState.planned txids (2 < block.txs.length) _ hids).apart hneeds
  apply sequential_apart
  intro earlier hearlier
  obtain ⟨j, hj, rfl⟩ := mem_take_iff_getElem.mp hearlier
  have hlast := mem_zipIdx_iff_getElem?.mp hitem
  obtain ⟨hlt, hget⟩ := List.getElem?_eq_some_iff.mp hlast
  have hpair := pairwise_iff_getElem.mp hapart j item.2 (by omega) hlt (by omega)
  rw [hget] at hpair
  simpa using hpair op hop

lemma sequentialRows_of_no_overlay (hlen : txids.length = block.txs.length) (hfresh : NoOwnCoins utxo txids)
    (hneeds : (planBlockTransactions block txids).needsLocalUtxoOverlay = false) (flag : Tx → ℕ → Bool) :
    sequentialRows flag height utxo block.txs txids = block.txs.map fun tx => (prevouts tx).map fun op =>
      (resolve utxo block (planBlockTransactions block txids) op).map UtxoCoin.txout := by
  have hpairs : ((block.txs.zip txids).zipIdx.map Prod.fst).map Prod.fst = block.txs := by
    rw [zipIdx_map_fst, map_fst_zip (by omega)]
  conv_rhs => rw [← hpairs, map_map, map_map]
  apply map_congr_left
  intro item hitem
  have htx := (of_mem_zip (mem_of_getElem? (mem_zipIdx_iff_getElem?.mp hitem))).1
  apply map_congr_left
  intro op hop
  have hread := resolve_eq hfresh htx hop
  rw [sequential_of_no_overlay hlen hneeds flag hitem hop, ← hread]

/-- The outputs of the prevouts of a block, the error of a transaction with too many outputs apart, are those of the
sequential rule, and so are the heights and flags of the overlay; the flag of an output of the block says that its
transaction is the first. -/
theorem block_prevouts_sequential (utxo : SpentOutputLookup) (block : Block) (txids : List Txid) (height : UInt32)
    (hlen : txids.length = block.txs.length) (hfresh : NoOwnCoins utxo txids) :
    let plan := planBlockTransactions block txids
    let base := resolve utxo block plan
    let earlier := fun i => (block.txs.zip txids).zipIdx.take i
    (resolveBlockPrevouts base block.txs plan height txids =
        .ok (sequentialRows (fun tx _ => tx.isCoinbase) height utxo block.txs txids) ∨
      ∃ e, resolveBlockPrevouts base block.txs plan height txids = .error e ∧
        BlockLocalUtxoView.Overflows block.txs txids e) ∧
    ∀ i tx, block.txs[i]? = some tx →
      (∃ view, BlockLocalUtxoView.reached base block.txs txids height i = .ok view ∧ ∀ op ∈ prevouts tx,
        view.lookupMeta op =
          (sequential (fun _ j => j == 0) height utxo (earlier i) op).map PrevoutMeta.of ∧
        ((∀ j other, block.txs[j]? = some other → other.isCoinbase = (j == 0)) → view.lookupMeta op =
          (sequential (fun tx _ => tx.isCoinbase) height utxo (earlier i) op).map PrevoutMeta.of)) ∨
      ∃ e, BlockLocalUtxoView.reached base block.txs txids height i = .error e ∧
        BlockLocalUtxoView.Overflows block.txs txids e := by
  intro plan base earlier
  constructor
  · unfold resolveBlockPrevouts
    cases hneeds : plan.needsLocalUtxoOverlay with
    | true =>
      rcases resolveTxs_outcome hfresh (fun tx _ => tx.isCoinbase) with ⟨view, hrun⟩ | ⟨e, herror, hover⟩
      · exact .inl (by rw [hrun]; rfl)
      · exact .inr ⟨e, by rw [herror]; rfl, hover⟩
    | false =>
      rw [sequentialRows_of_no_overlay hlen hfresh hneeds]
      refine .inl (congrArg Except.ok ?_)
      apply map_congr_left
      intro tx _
      unfold prevouts
      split_ifs <;> simp [base, plan]
  · intro i tx htx
    have hbase : ∀ op ∈ prevouts tx, base op = utxo op :=
      fun op hop => resolve_eq hfresh (mem_of_getElem? htx) hop
    rcases BlockLocalUtxoView.reached_outcome base utxo block.txs txids height (fun _ j => j == 0) i with
      ⟨view, hview, hfollows⟩ | herror
    · refine .inl ⟨view, hview, ?_⟩
      intro op hop
      refine ⟨hfollows.lookupMeta_eq (hbase op hop) (fun _ _ _ => rfl), ?_⟩
      intro hcoinbase
      rcases BlockLocalUtxoView.reached_outcome base utxo block.txs txids height (fun tx _ => tx.isCoinbase) i with
        ⟨same, hsame, hfollows'⟩ | ⟨e, herror, -⟩
      · obtain rfl : view = same := by simpa [hview] using hsame
        exact hfollows'.lookupMeta_eq (hbase op hop) hcoinbase
      · simp [hview] at herror
    · exact .inr herror

end

section

def sampleIds : List Txid := [⟨replicate 32 1, rfl⟩, ⟨replicate 32 2, rfl⟩]

def samplePayment (txid : Txid) : Tx where
  version := 1
  inputs := [{ previousOutput := ⟨txid, 0⟩, scriptSig := [], sequence := 0, witness := [] }]
  outputs := [{ value := 5, scriptPubkey := [] }]
  lockTime := 0

def samplePayments : Block where
  header := { version := 1, prevBlockhash := .zero, merkleRoot := .zero, time := 0, bits := 0, nonce := 0 }
  txs := [samplePayment .zero, samplePayment ⟨replicate 32 1, rfl⟩]

theorem block_prevouts_sequential_payments :
    resolveBlockPrevouts (resolve (fun _ => none) samplePayments (planBlockTransactions samplePayments sampleIds))
      samplePayments.txs (planBlockTransactions samplePayments sampleIds) 7 sampleIds =
        .ok [[none], [some { value := 5, scriptPubkey := [] }]] ∧
    (resolveBlockPrevouts (resolve (fun _ => none) samplePayments (planBlockTransactions samplePayments sampleIds))
      samplePayments.txs (planBlockTransactions samplePayments sampleIds) 7 sampleIds =
        .ok (sequentialRows (fun tx _ => tx.isCoinbase) 7 (fun _ => none) samplePayments.txs sampleIds) ∨
      ∃ e, resolveBlockPrevouts
        (resolve (fun _ => none) samplePayments (planBlockTransactions samplePayments sampleIds))
        samplePayments.txs (planBlockTransactions samplePayments sampleIds) 7 sampleIds = .error e ∧
          BlockLocalUtxoView.Overflows samplePayments.txs sampleIds e) :=
  ⟨by decide +kernel, (block_prevouts_sequential (fun _ => none) samplePayments sampleIds 7 rfl (fun _ _ => rfl)).1⟩

/-- An output of a first transaction that is no coinbase is taken for one of a coinbase. -/
theorem lookupMeta_of_first_payment :
    NoOwnCoins (fun _ => none) sampleIds ∧
    (BlockLocalUtxoView.reached
      (resolve (fun _ => none) samplePayments (planBlockTransactions samplePayments sampleIds))
        samplePayments.txs sampleIds 7 1).map (fun view => view.lookupMeta ⟨⟨replicate 32 1, rfl⟩, 0⟩) =
      .ok (some ⟨true, 7⟩) ∧
    (sequential (fun tx _ => tx.isCoinbase) 7 (fun _ => none) ((samplePayments.txs.zip sampleIds).zipIdx.take 1)
      ⟨⟨replicate 32 1, rfl⟩, 0⟩).map PrevoutMeta.of = some ⟨false, 7⟩ :=
  ⟨fun _ _ => rfl, by decide +kernel, by decide +kernel⟩

end

end BitcoinRs.Chainstate
