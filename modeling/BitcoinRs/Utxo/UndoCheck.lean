import BitcoinRs.Utxo.UndoCodec

namespace BitcoinRs.Utxo

open Batch Fallible List

structure BlockUndoCheck where
  block : Block
  txids : List Txid
  maxScriptSize : ℕ

namespace BlockUndoCheck

structure OutputSets where
  created : Finset OutPoint
  retained : Finset OutPoint

variable (check : BlockUndoCheck)

def addOutput (txid : Txid) (sets : OutputSets) (output : TxOut × ℕ) : Except UndoCodecError OutputSets :=
  if output.2 < 2 ^ 32 then
    let outpoint : OutPoint := ⟨txid, UInt32.ofNat output.2⟩
    let script := output.1.scriptPubkey
    let unstorable := script.head? == some 0x6a || check.maxScriptSize < script.length
    .ok { created := insert outpoint sets.created
          retained := if unstorable then sets.retained else insert outpoint sets.retained }
  else .error (.blockMismatch "block output index exceeds the vout range")

def addOutputs (sets : OutputSets) (tx : Tx × Txid) : Except UndoCodecError OutputSets :=
  tx.1.outputs.zipIdx.foldlM (check.addOutput tx.2) sets

def blockOutputs : Except UndoCodecError OutputSets := (check.block.txs.zip check.txids).foldlM check.addOutputs ⟨∅, ∅⟩

structure InputSets where
  priorTxids : Finset Txid
  external : Finset OutPoint
  sameBlock : Finset OutPoint

def addInput (sets : InputSets) (input : TxIn) : InputSets :=
  let outpoint := input.previousOutput
  if outpoint.txid ∈ sets.priorTxids then { sets with sameBlock := insert outpoint sets.sameBlock }
  else { sets with external := insert outpoint sets.external }

def addInputs (sets : InputSets) (tx : Tx × Txid) : InputSets :=
  let sets := if tx.1.isCoinbase then sets else tx.1.inputs.foldl addInput sets
  { sets with priorTxids := insert tx.2 sets.priorTxids }

def blockInputs : InputSets := (check.block.txs.zip check.txids).foldl addInputs ⟨∅, ∅, ∅⟩

def checkRestore (height : UInt32) (external created : Finset OutPoint) (restored : Finset OutPoint)
    (add : UtxoAdd) : Except UndoCodecError (Finset OutPoint) :=
  if height ≤ add.height then .error (.blockMismatch "restored coin height is not historical")
  else if add.outpoint ∉ external ∧ add.outpoint ∉ created then
    .error (.blockMismatch "restored outpoint is not an input or output of the block")
  else .ok (insert add.outpoint restored)

end BlockUndoCheck

def validateUndoForBlock (check : BlockUndoCheck) (height : UInt32) (undo : UndoBatch) : Except UndoCodecError Unit :=
  if height = 0 then .ok ()
  else if check.block.txs.length ≠ check.txids.length then
    .error (.blockMismatch "transaction id count differs from the block transaction count")
  else do
    let outputs ← check.blockOutputs
    let inputs := check.blockInputs
    let expectedRemoves := outputs.retained.filter (· ∉ inputs.sameBlock)
    let restored ← undo.restores.foldlM (BlockUndoCheck.checkRestore height inputs.external outputs.created) ∅
    if ¬ ∀ outpoint ∈ inputs.external, outpoint ∈ restored then
      .error (.blockMismatch "an external input has no restored coin")
    else if undo.removes.toFinset ≠ expectedRemoves.filter (· ∉ restored) then
      .error (.blockMismatch "removed outpoints differ from the block's retained outputs")
    else .ok ()

/-- `BlockSpendsError::Corrupt`, the one error of `block_spent_outputs`. -/
inductive BlockSpendsError
  | corrupt (reason : String)

def UndoBatch.restoreMap (undo : UndoBatch) : OutPoint → Option UtxoAdd :=
  lastValue (undo.restores.map (fun coin => (coin.outpoint, coin)))

section

variable (restores : OutPoint → Option UtxoAdd)

def spentCoin (height : UInt32) (earlier : Txid → Option (Tx × Bool))
    (input : TxIn) : Except BlockSpendsError UtxoCoin :=
  let outpoint := input.previousOutput
  match earlier outpoint.txid with
  | some (parent, generated) =>
    match parent.outputs[outpoint.vout.toNat]? with
    | some txout => .ok { outpoint, txout, coinbase := generated, height }
    | none => .error (.corrupt "same-block prevout index is absent")
  | none =>
    match restores outpoint with
    | none => .error (.corrupt "input is absent from block undo")
    | some coin =>
      if height ≤ coin.height then .error (.corrupt "external prevout height is not historical")
      else .ok { outpoint, txout := coin.txout, coinbase := coin.coinbase, height := coin.height }

def spentCoins (height : UInt32) (earlier : Txid → Option (Tx × Bool))
    (tx : Tx) : Except BlockSpendsError (List UtxoCoin) :=
  if tx.isCoinbase then .ok [] else tx.inputs.mapM (spentCoin restores height earlier)

end

def spendTx (txid : Tx → Txid) (restores : OutPoint → Option UtxoAdd) (height : UInt32)
    (state : (Txid → Option (Tx × Bool)) × List (List UtxoCoin)) (tx : Tx) :
    Except BlockSpendsError ((Txid → Option (Tx × Bool)) × List (List UtxoCoin)) := do
  let inputs ← spentCoins restores height state.1 tx
  return (Function.update state.1 (txid tx) (some (tx, tx.isCoinbase)), state.2 ++ [inputs])

def blockSpentOutputs (txid : Tx → Txid) (block : Block) (height : UInt32) (undo : UndoBatch) :
    Except BlockSpendsError (List (List UtxoCoin)) := do
  let (_, spent) ← block.txs.foldlM (spendTx txid undo.restoreMap height) (fun _ => none, [])
  return spent

namespace BlockUndoCheck

variable (check : BlockUndoCheck)

def outpointOf (txid : Txid) (output : TxOut × ℕ) : OutPoint := ⟨txid, UInt32.ofNat output.2⟩

def isUnstorable (txout : TxOut) : Bool :=
  txout.scriptPubkey.head? == some 0x6a || check.maxScriptSize < txout.scriptPubkey.length

def createdOutpoints (tx : Tx × Txid) : List OutPoint := tx.1.outputs.zipIdx.map (outpointOf tx.2)

def retainedOutpoints (tx : Tx × Txid) : List OutPoint :=
  (tx.1.outputs.zipIdx.filter (fun output => !check.isUnstorable output.1)).map (outpointOf tx.2)

lemma foldlM_addOutput (txid : Txid) (outputs : List (TxOut × ℕ)) (h : ∀ output ∈ outputs, output.2 < 2 ^ 32)
    (sets : OutputSets) : ∃ sets', outputs.foldlM (check.addOutput txid) sets = .ok sets' ∧
      (∀ op, op ∈ sets'.created ↔ op ∈ sets.created ∨ op ∈ outputs.map (outpointOf txid)) ∧
      ∀ op, op ∈ sets'.retained ↔ op ∈ sets.retained ∨
        op ∈ (outputs.filter (fun output => !check.isUnstorable output.1)).map (outpointOf txid) := by
  induction outputs generalizing sets with
  | nil => exact ⟨sets, rfl, by simp, by simp⟩
  | cons output rest ih =>
    obtain ⟨hlt, hrest⟩ := forall_mem_cons.mp h
    have hstep : check.addOutput txid sets output = .ok
        ⟨insert (outpointOf txid output) sets.created, if check.isUnstorable output.1 then sets.retained
          else insert (outpointOf txid output) sets.retained⟩ := by
      rw [addOutput, if_pos hlt]
      rfl
    obtain ⟨sets', hrun, hcreated, hretained⟩ := ih hrest _
    refine ⟨sets', by rw [foldlM_cons, hstep]; exact hrun, fun op => ?_, fun op => ?_⟩
    · rw [hcreated, Finset.mem_insert, map_cons, mem_cons, or_left_comm, or_assoc]
    · rw [hretained]
      cases hu : check.isUnstorable output.1 with
      | true => simp [hu]
      | false => simp [hu, or_assoc, or_left_comm]

variable {check}

lemma blockOutputs_eq (h : ∀ tx ∈ check.block.txs.zip check.txids, tx.1.outputs.length ≤ 2 ^ 32) :
    ∃ sets, check.blockOutputs = .ok sets ∧
      (∀ op, op ∈ sets.created ↔ op ∈ (check.block.txs.zip check.txids).flatMap createdOutpoints) ∧
      ∀ op, op ∈ sets.retained ↔ op ∈ (check.block.txs.zip check.txids).flatMap check.retainedOutpoints := by
  suffices hloop : ∀ pairs : List (Tx × Txid), (∀ tx ∈ pairs, tx.1.outputs.length ≤ 2 ^ 32) → ∀ sets : OutputSets,
      ∃ sets', pairs.foldlM check.addOutputs sets = .ok sets' ∧
        (∀ op, op ∈ sets'.created ↔ op ∈ sets.created ∨ op ∈ pairs.flatMap createdOutpoints) ∧
        ∀ op, op ∈ sets'.retained ↔ op ∈ sets.retained ∨ op ∈ pairs.flatMap check.retainedOutpoints by
    obtain ⟨sets, hrun, hcreated, hretained⟩ := hloop _ h ⟨∅, ∅⟩
    exact ⟨sets, hrun, fun op => (hcreated op).trans (by simp), fun op => (hretained op).trans (by simp)⟩
  intro pairs
  induction pairs with
  | nil => exact fun _ sets => ⟨sets, rfl, by simp, by simp⟩
  | cons tx rest ih =>
    intro h sets
    obtain ⟨hlen, hrest⟩ := forall_mem_cons.mp h
    obtain ⟨sets₁, hrun₁, hcreated₁, hretained₁⟩ := foldlM_addOutput check tx.2 tx.1.outputs.zipIdx
      (fun output ho => lt_of_lt_of_le (snd_lt_of_mem_zipIdx ho) hlen) sets
    obtain ⟨sets₂, hrun₂, hcreated₂, hretained₂⟩ := ih hrest sets₁
    refine ⟨sets₂, ?_, fun op => ?_, fun op => ?_⟩
    · rw [foldlM_cons, addOutputs, hrun₁]
      exact hrun₂
    · rw [hcreated₂, hcreated₁, flatMap_cons, mem_append, or_assoc]
      rfl
    · rw [hretained₂, hretained₁, flatMap_cons, mem_append, or_assoc]
      rfl

variable (sets : InputSets)

lemma addInput_sets (input : TxIn) :
    (addInput sets input).priorTxids = sets.priorTxids ∧
      (∀ op, op ∈ (addInput sets input).external ↔ op ∈ sets.external ∨
        op = input.previousOutput ∧ op.txid ∉ sets.priorTxids) ∧
      ∀ op, op ∈ (addInput sets input).sameBlock ↔ op ∈ sets.sameBlock ∨
        op = input.previousOutput ∧ op.txid ∈ sets.priorTxids := by
  rw [addInput]
  split_ifs with hin
  · refine ⟨rfl, fun op => (or_iff_left ?_).symm, fun op => ?_⟩
    · rintro ⟨rfl, hnot⟩
      exact hnot hin
    · rw [Finset.mem_insert, or_comm]
      exact or_congr_right ⟨fun he => ⟨he, he ▸ hin⟩, And.left⟩
  · refine ⟨rfl, fun op => ?_, fun op => (or_iff_left ?_).symm⟩
    · rw [Finset.mem_insert, or_comm]
      exact or_congr_right ⟨fun he => ⟨he, he ▸ hin⟩, And.left⟩
    · rintro ⟨rfl, hmem⟩
      exact hin hmem

lemma foldl_addInput (ins : List TxIn) (sets : InputSets) :
    (ins.foldl addInput sets).priorTxids = sets.priorTxids ∧
      (∀ op, op ∈ (ins.foldl addInput sets).external ↔ op ∈ sets.external ∨
        op ∈ ins.map TxIn.previousOutput ∧ op.txid ∉ sets.priorTxids) ∧
      ∀ op, op ∈ (ins.foldl addInput sets).sameBlock ↔ op ∈ sets.sameBlock ∨
        op ∈ ins.map TxIn.previousOutput ∧ op.txid ∈ sets.priorTxids := by
  induction ins generalizing sets with
  | nil => simp
  | cons input rest ih =>
    obtain ⟨hprior, hexternal, hsame⟩ := ih (addInput sets input)
    obtain ⟨hprior₀, hexternal₀, hsame₀⟩ := addInput_sets sets input
    rw [hprior₀] at hprior hexternal hsame
    refine ⟨hprior, fun op => ?_, fun op => ?_⟩
    · rw [foldl_cons, hexternal, hexternal₀, map_cons, mem_cons, or_and_right, or_assoc]
    · rw [foldl_cons, hsame, hsame₀, map_cons, mem_cons, or_and_right, or_assoc]

variable (pairs : List (Tx × Txid))

def InputAfter (op : OutPoint) (prior : List Txid) : Prop :=
  ∃ i, ∃ tx : Tx × Txid, pairs[i]? = some tx ∧ tx.1.isCoinbase = false ∧
    op ∈ tx.1.inputs.map TxIn.previousOutput ∧ prior = (pairs.map Prod.snd).take i

lemma addInputs_sets (tx : Tx × Txid) :
    (∀ txid, txid ∈ (addInputs sets tx).priorTxids ↔ txid ∈ sets.priorTxids ∨ txid = tx.2) ∧
      (∀ op, op ∈ (addInputs sets tx).external ↔ op ∈ sets.external ∨
        tx.1.isCoinbase = false ∧ op ∈ tx.1.inputs.map TxIn.previousOutput ∧ op.txid ∉ sets.priorTxids) ∧
      ∀ op, op ∈ (addInputs sets tx).sameBlock ↔ op ∈ sets.sameBlock ∨
        tx.1.isCoinbase = false ∧ op ∈ tx.1.inputs.map TxIn.previousOutput ∧ op.txid ∈ sets.priorTxids := by
  rw [addInputs]
  cases hc : tx.1.isCoinbase with
  | true => simp [or_comm]
  | false =>
    obtain ⟨hprior, hexternal, hsame⟩ := foldl_addInput tx.1.inputs sets
    refine ⟨fun txid => ?_, fun op => ?_, fun op => ?_⟩
    · simp [hprior, or_comm]
    · simp [hexternal]
    · simp [hsame]

lemma foldl_addInputs (sets : InputSets) (op : OutPoint) :
    (op ∈ (pairs.foldl addInputs sets).external ↔ op ∈ sets.external ∨
      ∃ prior, InputAfter pairs op prior ∧ op.txid ∉ sets.priorTxids ∧ op.txid ∉ prior) ∧
    (op ∈ (pairs.foldl addInputs sets).sameBlock ↔ op ∈ sets.sameBlock ∨
      ∃ prior, InputAfter pairs op prior ∧ (op.txid ∈ sets.priorTxids ∨ op.txid ∈ prior)) := by
  induction pairs generalizing sets with
  | nil => simp [InputAfter]
  | cons tx rest ih =>
    obtain ⟨hprior₀, hexternal₀, hsame₀⟩ := addInputs_sets sets tx
    obtain ⟨hexternal, hsame⟩ := ih (addInputs sets tx)
    -- the first transaction has no txids of the list before it, a later one has the first's in front
    have hsplit (P : List Txid → Prop) : (∃ prior, InputAfter (tx :: rest) op prior ∧ P prior) ↔
        (tx.1.isCoinbase = false ∧ op ∈ tx.1.inputs.map TxIn.previousOutput) ∧ P [] ∨
          ∃ prior, InputAfter rest op prior ∧ P (tx.2 :: prior) := by
      constructor
      · rintro ⟨_, ⟨i, other, hi, hc, hop, rfl⟩, hP⟩
        cases i with
        | zero =>
          cases hi
          exact Or.inl ⟨⟨hc, hop⟩, hP⟩
        | succ i => exact Or.inr ⟨_, ⟨i, other, hi, hc, hop, rfl⟩, hP⟩
      · rintro (⟨⟨hc, hop⟩, hP⟩ | ⟨_, ⟨i, other, hi, hc, hop, rfl⟩, hP⟩)
        · exact ⟨_, ⟨0, tx, rfl, hc, hop, rfl⟩, hP⟩
        · exact ⟨_, ⟨i + 1, other, hi, hc, hop, rfl⟩, hP⟩
    constructor
    · rw [foldl_cons, hexternal, hexternal₀, hsplit (fun prior => op.txid ∉ sets.priorTxids ∧ op.txid ∉ prior)]
      simp only [hprior₀, not_mem_nil, not_false_eq_true, and_true, mem_cons, not_or, or_assoc, and_assoc]
    · rw [foldl_cons, hsame, hsame₀, hsplit (fun prior => op.txid ∈ sets.priorTxids ∨ op.txid ∈ prior)]
      simp [hprior₀, or_assoc, and_assoc]

variable (op : OutPoint)

lemma mem_external : op ∈ check.blockInputs.external ↔
    ∃ prior, InputAfter (check.block.txs.zip check.txids) op prior ∧ op.txid ∉ prior := by
  rw [blockInputs, (foldl_addInputs _ _ op).1]
  simp

lemma mem_sameBlock : op ∈ check.blockInputs.sameBlock ↔
    ∃ prior, InputAfter (check.block.txs.zip check.txids) op prior ∧ op.txid ∈ prior := by
  rw [blockInputs, (foldl_addInputs _ _ op).2]
  simp

lemma foldlM_checkRestore {height : UInt32} {external created : Finset OutPoint} (restores : List UtxoAdd)
    (h : ∀ add ∈ restores, add.height < height ∧ (add.outpoint ∈ external ∨ add.outpoint ∈ created))
    (restored : Finset OutPoint) :
    restores.foldlM (checkRestore height external created) restored =
      .ok (restored ∪ (restores.map UtxoAdd.outpoint).toFinset) := by
  induction restores generalizing restored with
  | nil => simp
  | cons add rest ih =>
    obtain ⟨⟨hheight, hmem⟩, hrest⟩ := forall_mem_cons.mp h
    rw [foldlM_cons, checkRestore, if_neg (UInt32.not_le.mpr hheight), if_neg (by tauto), ok_bind, ih hrest]
    simp

end BlockUndoCheck

end BitcoinRs.Utxo
