import BitcoinRs.Utxo.SetWalk

namespace BitcoinRs.Utxo

structure BlockChanges where
  adds : List UtxoAdd
  removes : List OutPoint
  deriving DecidableEq

structure UndoBatch where
  restores : List UtxoAdd
  removes : List OutPoint
  deriving DecidableEq

structure BlockValueTotals where
  coinbaseOut : UInt64
  spentIn : UInt64
  createdOut : UInt64
  deriving DecidableEq

inductive BlockChangeError
  | blockValueOverflow
  | voutOverflow (txid : Txid)
  | txidCountMismatch (transactions txids : ℕ)
  | undoPrevoutMissing (txid : Txid) (vout : UInt32)
  deriving DecidableEq

/-- How the builder can fail to return: an error value, or a panic of the set it looks overwritten coins up in. -/
inductive BuildFault
  | error (e : BlockChangeError)
  | panic
  deriving DecidableEq

abbrev BuildRun := Except BuildFault

abbrev SpentOutputLookup := OutPoint → Option UtxoCoin

structure BlockChangeInputs where
  block : Block
  height : UInt32
  txids : List Txid
  sameBlockSpent : Option (List OutPoint)
  overwritten : Option UtxoSet
  maxScriptSize : ℕ

namespace BlockChangeInputs

variable (inputs : BlockChangeInputs)

def contains (outpoint : OutPoint) : Bool :=
  match inputs.sameBlockSpent with
  | none => false
  | some spends => spends.contains outpoint

def isUnstorable (txout : TxOut) : Bool :=
  txout.scriptPubkey.head? == some 0x6a || inputs.maxScriptSize < txout.scriptPubkey.length

end BlockChangeInputs

structure ChangeBuilder where
  changes : BlockChanges
  undo : UndoBatch
  totals : BlockValueTotals
  height : UInt32

namespace ChangeBuilder

def new (height : UInt32) : ChangeBuilder :=
  { changes := ⟨[], []⟩, undo := ⟨[], []⟩, totals := ⟨0, 0, 0⟩, height }

def addTotal (total value : UInt64) : BuildRun UInt64 :=
  match checkedAddU64 total value with
  | some sum => .ok sum
  | none => .error (.error .blockValueOverflow)

def accountOutputValue (builder : ChangeBuilder) (coinbase sameBlock : Bool) (value : UInt64) :
    BuildRun BlockValueTotals :=
  if coinbase then do
    return { builder.totals with coinbaseOut := ← addTotal builder.totals.coinbaseOut value }
  else if !sameBlock then do
    return { builder.totals with createdOut := ← addTotal builder.totals.createdOut value }
  else .ok builder.totals

def overwrittenEntry (overwritten : Option UtxoSet) (outpoint : OutPoint) : BuildRun (Option UtxoCoin) :=
  match overwritten with
  | none => .ok none
  | some set => match set.getEntry outpoint with
    | .ok replaced => .ok replaced
    | .error _ => .error .panic

def restoreOf (outpoint : OutPoint) (previous : UtxoCoin) : UtxoAdd :=
  { outpoint, txout := previous.txout, coinbase := previous.coinbase, height := previous.height }

def stageReplaced (undo : UndoBatch) (outpoint : OutPoint) : Option UtxoCoin → UndoBatch
  | some previous => { undo with restores := undo.restores ++ [restoreOf outpoint previous] }
  | none => { undo with removes := undo.removes ++ [outpoint] }

def stageCreated (builder : ChangeBuilder) (outpoint : OutPoint) (txout : TxOut) (coinbase : Bool)
    (overwritten : Option UtxoSet) : BuildRun ChangeBuilder := do
  let replaced ← overwrittenEntry overwritten outpoint
  let add : UtxoAdd := { outpoint, txout, coinbase, height := builder.height }
  return { builder with
    changes := { builder.changes with adds := builder.changes.adds ++ [add] },
    undo := stageReplaced builder.undo outpoint replaced }

def voutOf (txid : Txid) (voutIdx : ℕ) : BuildRun UInt32 :=
  if voutIdx < 2 ^ 32 then .ok (UInt32.ofNat voutIdx) else .error (.error (.voutOverflow txid))

variable (inputs : BlockChangeInputs)

def addOutput (coinbase : Bool) (txid : Txid) (builder : ChangeBuilder)
    (output : TxOut × ℕ) : BuildRun ChangeBuilder := do
  let vout ← voutOf txid output.2
  let outpoint : OutPoint := ⟨txid, vout⟩
  let sameBlock := inputs.contains outpoint
  let totals ← builder.accountOutputValue coinbase sameBlock output.1.value
  if sameBlock || inputs.isUnstorable output.1 then .ok { builder with totals }
  else stageCreated { builder with totals } outpoint output.1 coinbase inputs.overwritten

def addOutputs (builder : ChangeBuilder) (tx : Tx) (txid : Txid) : BuildRun ChangeBuilder :=
  tx.outputs.zipIdx.foldlM (addOutput inputs tx.isCoinbase txid) builder

def spentEntry (resolved : SpentOutputLookup) (outpoint : OutPoint) : BuildRun UtxoCoin :=
  match resolved outpoint with
  | some spent => .ok spent
  | none => .error (.error (.undoPrevoutMissing outpoint.txid outpoint.vout))

variable (resolved : SpentOutputLookup) (builder : ChangeBuilder)

def addSpend (txInput : TxIn) : BuildRun ChangeBuilder :=
  let outpoint := txInput.previousOutput
  if inputs.contains outpoint then .ok builder
  else do
    let spent ← spentEntry resolved outpoint
    let spentIn ← addTotal builder.totals.spentIn spent.txout.value
    return { builder with
      changes := { builder.changes with removes := builder.changes.removes ++ [outpoint] },
      totals := { builder.totals with spentIn },
      undo := { builder.undo with restores := builder.undo.restores ++ [restoreOf outpoint spent] } }

def addSpends (tx : Tx) : BuildRun ChangeBuilder := tx.inputs.foldlM (addSpend inputs resolved) builder

def addTx (tx : Tx × Txid) : BuildRun ChangeBuilder := do
  let builder ← addOutputs inputs builder tx.1 tx.2
  if tx.1.isCoinbase then .ok builder else addSpends inputs resolved builder tx.1

end ChangeBuilder

def buildBlockChanges (inputs : BlockChangeInputs) (resolved : SpentOutputLookup) :
    BuildRun (BlockChanges × UndoBatch × BlockValueTotals) :=
  if inputs.block.txs.length ≠ inputs.txids.length then
    .error (.error (.txidCountMismatch inputs.block.txs.length inputs.txids.length))
  else if inputs.height = 0 then .ok (⟨[], []⟩, ⟨[], []⟩, ⟨0, 0, 0⟩)
  else do
    let builder ← (inputs.block.txs.zip inputs.txids).foldlM (ChangeBuilder.addTx inputs resolved)
      (ChangeBuilder.new inputs.height)
    return (builder.changes, builder.undo, builder.totals)

namespace UtxoSet

variable (schedule : Schedule)

def commitBlock (set : UtxoSet) (changes : BlockChanges) : UtxoSet × Run Unit :=
  set.commitAddsAndRemoves schedule changes.adds changes.removes

def undoBlock (set : UtxoSet) (undo : UndoBatch) : UtxoSet × Run Unit :=
  set.commitAddsAndRemoves schedule undo.restores undo.removes

end UtxoSet

open Batch Fallible ChangeBuilder
open List (map_append map_cons map_nil append_nil append_assoc mem_filter mem_map)

namespace BlockChangeInputs

variable (inputs : BlockChangeInputs)

def createdOutput (coinbase : Bool) (txid : Txid) (output : TxOut × ℕ) : Option UtxoAdd :=
  let outpoint : OutPoint := ⟨txid, UInt32.ofNat output.2⟩
  if inputs.contains outpoint || inputs.isUnstorable output.1 then none
  else some { outpoint, txout := output.1, coinbase, height := inputs.height }

def created (tx : Tx × Txid) : List UtxoAdd := tx.1.outputs.zipIdx.filterMap (inputs.createdOutput tx.1.isCoinbase tx.2)

def external (tx : Tx × Txid) : List OutPoint :=
  if tx.1.isCoinbase then [] else (tx.1.inputs.map TxIn.previousOutput).filter (fun op => !inputs.contains op)

def txPairs : List (Tx × Txid) := inputs.block.txs.zip inputs.txids

def allCreated : List UtxoAdd := inputs.txPairs.flatMap inputs.created

def allExternal : List OutPoint := inputs.txPairs.flatMap inputs.external

end BlockChangeInputs

def Supplies (S : OutPoint → Option UtxoCoin) (overwritten : Option UtxoSet) (outpoint : OutPoint) : Prop :=
  match overwritten with
  | none => S outpoint = none
  | some set => set.getEntry outpoint = .ok (S outpoint)

structure Staged (S : OutPoint → Option UtxoCoin) (changes : BlockChanges) (undo : UndoBatch) : Prop where
  restores_coin : ∀ restore ∈ undo.restores, S restore.outpoint = some restore.coin
  restores_perm : (undo.restores.map UtxoAdd.outpoint).Perm
    ((changes.adds.map UtxoAdd.outpoint).filter (fun op => (S op).isSome) ++ changes.removes)
  removes_eq : undo.removes = (changes.adds.map UtxoAdd.outpoint).filter (fun op => (S op).isNone)

variable {op : OutPoint}

lemma restoreOf_coin {coin : UtxoCoin} (h : coin.outpoint = op) : (ChangeBuilder.restoreOf op coin).coin = coin := by
  rw [← h]
  rfl

namespace Staged

variable {S : OutPoint → Option UtxoCoin} {changes : BlockChanges} {undo : UndoBatch}

lemma empty : Staged S ⟨[], []⟩ ⟨[], []⟩ := ⟨by simp, List.Perm.refl _, rfl⟩

variable (h : Staged S changes undo) (hkey : ∀ op coin, S op = some coin → coin.outpoint = op)

include h hkey

lemma restored {coin : UtxoCoin} (hS : S op = some coin) :
    ∀ restore ∈ undo.restores ++ [ChangeBuilder.restoreOf op coin], S restore.outpoint = some restore.coin := by
  intro restore hr
  rcases List.mem_append.mp hr with hr | hr
  · exact h.restores_coin restore hr
  · rw [List.mem_singleton.mp hr, restoreOf_coin (hkey op coin hS)]
    exact hS

lemma stage (add : UtxoAdd) : Staged S { changes with adds := changes.adds ++ [add] }
    (ChangeBuilder.stageReplaced undo add.outpoint (S add.outpoint)) := by
  cases hS : S add.outpoint with
  | none =>
    refine ⟨h.restores_coin, ?_, ?_⟩
    · simp only [stageReplaced, map_append, List.filter_append, map_cons, map_nil,
        List.filter_cons, hS, Option.isSome_none, Bool.false_eq_true, ↓reduceIte, List.filter_nil, append_nil]
      exact h.restores_perm
    · simp [stageReplaced, h.removes_eq, hS]
  | some previous =>
    refine ⟨h.restored hkey hS, ?_, ?_⟩
    · simp only [stageReplaced, map_append, List.filter_append, map_cons, map_nil,
        List.filter_cons, hS, Option.isSome_some, ↓reduceIte, List.filter_nil, append_assoc]
      exact (h.restores_perm.append_right _).trans (by
        rw [append_assoc]
        exact List.perm_append_comm.append_left _)
    · simp [stageReplaced, h.removes_eq, hS]

lemma spend {spent : UtxoCoin} (hS : S op = some spent) :
    Staged S { changes with removes := changes.removes ++ [op] }
      { undo with restores := undo.restores ++ [ChangeBuilder.restoreOf op spent] } := by
  refine ⟨h.restored hkey hS, ?_, h.removes_eq⟩
  have hp := h.restores_perm.append_right [op]
  rw [append_assoc] at hp
  rw [map_append]
  exact hp

end Staged

namespace ChangeBuilder

variable {S : OutPoint → Option UtxoCoin} {inputs : BlockChangeInputs} {resolved : SpentOutputLookup}
  {b b' : ChangeBuilder}

structure Grown (S : OutPoint → Option UtxoCoin) (b b' : ChangeBuilder) (adds : List UtxoAdd)
    (removes : List OutPoint) : Prop where
  staged : Staged S b'.changes b'.undo
  height : b'.height = b.height
  changes : b'.changes = ⟨b.changes.adds ++ adds, b.changes.removes ++ removes⟩

lemma Grown.refl (h : Staged S b.changes b.undo) : Grown S b b [] [] := ⟨h, rfl, by rw [append_nil, append_nil]⟩

lemma Grown.trans {b'' : ChangeBuilder} {adds adds' : List UtxoAdd} {removes removes' : List OutPoint}
    (h : Grown S b b' adds removes) (h' : Grown S b' b'' adds' removes') :
    Grown S b b'' (adds ++ adds') (removes ++ removes') :=
  ⟨h'.staged, h'.height.trans h.height, by
    rw [h'.changes, h.changes, append_assoc, append_assoc]⟩

lemma overwrittenEntry_eq {overwritten : Option UtxoSet} {replaced : Option UtxoCoin} (hs : Supplies S overwritten op)
    (h : overwrittenEntry overwritten op = .ok replaced) : replaced = S op := by
  cases overwritten with
  | none =>
    cases h
    exact hs.symm
  | some set =>
    simp only [overwrittenEntry, show set.getEntry op = _ from hs] at h
    cases h
    rfl

variable (hkey : ∀ op coin, S op = some coin → coin.outpoint = op) {tx : Tx × Txid} (h : Staged S b.changes b.undo)

include hkey h

lemma addOutput_grown (hheight : b.height = inputs.height) {coinbase : Bool} {txid : Txid} {output : TxOut × ℕ}
    (hs : ∀ add, inputs.createdOutput coinbase txid output = some add → Supplies S inputs.overwritten add.outpoint)
    (hrun : addOutput inputs coinbase txid b output = .ok b') :
    Grown S b b' (inputs.createdOutput coinbase txid output).toList [] ∧ output.2 < 2 ^ 32 := by
  obtain ⟨vout, hvout, hrun⟩ := bind_eq_ok hrun
  obtain ⟨totals, -, hrun⟩ := bind_eq_ok hrun
  rw [voutOf] at hvout
  split_ifs at hvout with hidx
  cases hvout
  refine ⟨?_, hidx⟩
  simp only [BlockChangeInputs.createdOutput] at hs ⊢
  split_ifs at hrun hs ⊢ with hskip
  · cases hrun
    exact ⟨h, rfl, by rw [Option.toList_none, append_nil, append_nil]⟩
  · obtain ⟨replaced, hreplaced, hrun⟩ := bind_eq_ok hrun
    cases hrun
    obtain rfl := overwrittenEntry_eq (hs _ rfl) hreplaced
    refine ⟨?_, rfl, ?_⟩
    · exact h.stage hkey { outpoint := _, txout := output.1, coinbase, height := b.height }
    · rw [append_nil, ← hheight]
      rfl

lemma addOutputs_grown (hheight : b.height = inputs.height)
    (hs : ∀ add ∈ inputs.created tx, Supplies S inputs.overwritten add.outpoint)
    (hrun : addOutputs inputs b tx.1 tx.2 = .ok b') :
    Grown S b b' (inputs.created tx) [] ∧ ∀ output ∈ tx.1.outputs.zipIdx, output.2 < 2 ^ 32 := by
  refine foldlM_invariant (I := fun passed b' =>
      Grown S b b' (passed.filterMap (inputs.createdOutput tx.1.isCoinbase tx.2)) [] ∧
        ∀ output ∈ passed, output.2 < 2 ^ 32) hrun ⟨Grown.refl h, by simp⟩ ?_
  rintro passed output b₁ b₂ hmem ⟨hgrown, hpassed⟩ hstep
  obtain ⟨hnext, hidx⟩ := addOutput_grown hkey hgrown.staged (hgrown.height.trans hheight)
    (fun add hadd => hs add (List.mem_filterMap.mpr ⟨output, hmem, hadd⟩)) hstep
  refine ⟨?_, List.forall_mem_append.mpr ⟨hpassed, by simpa using hidx⟩⟩
  have := hgrown.trans hnext
  cases hc : inputs.createdOutput tx.1.isCoinbase tx.2 output <;> simpa [hc] using this

lemma addSpends_grown (htx : tx.1.isCoinbase = false)
    (hs : ∀ op ∈ inputs.external tx, resolved op = S op) (hrun : addSpends inputs resolved b tx.1 = .ok b') :
    Grown S b b' [] (inputs.external tx) := by
  have hext : inputs.external tx = (tx.1.inputs.map TxIn.previousOutput).filter (fun op => !inputs.contains op) := by
    rw [BlockChangeInputs.external, htx, if_neg Bool.false_ne_true]
  rw [hext] at hs ⊢
  refine foldlM_invariant (I := fun passed b' =>
      Grown S b b' [] ((passed.map TxIn.previousOutput).filter (fun op => !inputs.contains op)))
    hrun (Grown.refl h) ?_
  intro passed input b₁ b₂ hmem hgrown hstep
  rw [addSpend] at hstep
  by_cases hc : inputs.contains input.previousOutput = true
  · rw [if_pos hc] at hstep
    cases hstep
    simpa [hc] using hgrown
  · rw [if_neg hc] at hstep
    obtain ⟨spent, hspent, hstep⟩ := bind_eq_ok hstep
    obtain ⟨spentIn, -, hstep⟩ := bind_eq_ok hstep
    have hS : S input.previousOutput = some spent := by
      rw [← hs _ (mem_filter.mpr ⟨List.mem_map_of_mem hmem, by simpa using hc⟩)]
      rw [spentEntry] at hspent
      cases hres : resolved input.previousOutput with
      | none => rw [hres] at hspent; cases hspent
      | some coin => rw [hres] at hspent; cases hspent; rfl
    have hnext : Grown S b₁ b₂ [] [input.previousOutput] := by
      cases hstep
      exact ⟨hgrown.staged.spend hkey hS, rfl, by rw [append_nil]⟩
    have := hgrown.trans hnext
    simpa [hc] using this

lemma addTx_grown (hheight : b.height = inputs.height)
    (hs : ∀ add ∈ inputs.created tx, Supplies S inputs.overwritten add.outpoint)
    (hr : ∀ op ∈ inputs.external tx, resolved op = S op) (hrun : addTx inputs resolved b tx = .ok b') :
    Grown S b b' (inputs.created tx) (inputs.external tx) := by
  obtain ⟨b₁, houtputs, hrun⟩ := bind_eq_ok hrun
  have hcreated := (addOutputs_grown hkey h hheight hs houtputs).1
  cases htx : tx.1.isCoinbase with
  | true =>
    rw [htx] at hrun
    cases hrun
    rwa [BlockChangeInputs.external, if_pos htx]
  | false =>
    rw [htx] at hrun
    have hspent := addSpends_grown hkey hcreated.staged htx hr hrun
    simpa using hcreated.trans hspent

end ChangeBuilder

structure Agrees (S : OutPoint → Option UtxoCoin) (inputs : BlockChangeInputs) (resolved : SpentOutputLookup) :
    Prop where
  inputs_resolved : ∀ op ∈ inputs.allExternal, resolved op = S op
  overwritten_supplied : ∀ add ∈ inputs.allCreated, Supplies S inputs.overwritten add.outpoint

lemma buildBlockChanges_staged {S : OutPoint → Option UtxoCoin} {inputs : BlockChangeInputs}
    {resolved : SpentOutputLookup} (hkey : ∀ op coin, S op = some coin → coin.outpoint = op)
    (h : Agrees S inputs resolved) {changes : BlockChanges} {undo : UndoBatch} {totals : BlockValueTotals}
    (hbuild : buildBlockChanges inputs resolved = .ok (changes, undo, totals)) :
    Staged S changes undo ∧ (inputs.height = 0 ∧ changes = ⟨[], []⟩ ∨
      inputs.height ≠ 0 ∧ changes = ⟨inputs.allCreated, inputs.allExternal⟩) := by
  rw [buildBlockChanges] at hbuild
  split_ifs at hbuild with hlen hzero
  · cases hbuild
    exact ⟨Staged.empty, Or.inl ⟨hzero, rfl⟩⟩
  · obtain ⟨builder, hrun, hresult⟩ := bind_eq_ok hbuild
    cases hresult
    have hgrown := foldlM_invariant (I := fun passed b => ChangeBuilder.Grown S (.new inputs.height) b
      (passed.flatMap inputs.created) (passed.flatMap inputs.external)) hrun
      (ChangeBuilder.Grown.refl Staged.empty) (fun passed tx b₁ b₂ hmem hgrown hstep => by
        have hnext := addTx_grown hkey hgrown.staged hgrown.height
          (fun add ha => h.overwritten_supplied add (List.mem_flatMap.mpr ⟨tx, hmem, ha⟩))
          (fun op ho => h.inputs_resolved op (List.mem_flatMap.mpr ⟨tx, hmem, ho⟩)) hstep
        simpa [List.flatMap_append] using hgrown.trans hnext)
    exact ⟨hgrown.staged, Or.inr ⟨hzero, hgrown.changes⟩⟩

namespace Staged

variable {S : OutPoint → Option UtxoCoin} {changes : BlockChanges} {undo : UndoBatch} (h : Staged S changes undo)

include h

lemma dead_of_removes : ∀ op ∈ undo.removes, S op = none := by
  intro op ho
  rw [h.removes_eq] at ho
  simpa using (mem_filter.mp ho).2

lemma removes_disjoint : ∀ op ∈ undo.removes, op ∉ undo.restores.map UtxoAdd.outpoint := by
  intro op ho hr
  obtain ⟨restore, hmem, rfl⟩ := mem_map.mp hr
  have hlive := h.restores_coin restore hmem
  rw [h.dead_of_removes _ ho] at hlive
  cases hlive

lemma touched (ho : op ∉ undo.removes) (hr : op ∉ undo.restores.map UtxoAdd.outpoint) :
    op ∉ changes.removes ∧ op ∉ changes.adds.map UtxoAdd.outpoint := by
  rw [h.removes_eq] at ho
  rw [h.restores_perm.mem_iff, List.mem_append, not_or] at hr
  refine ⟨hr.2, fun hadd => ?_⟩
  cases hS : S op with
  | none => exact ho (mem_filter.mpr ⟨hadd, by rw [hS]; rfl⟩)
  | some coin => exact hr.1 (mem_filter.mpr ⟨hadd, by rw [hS]; rfl⟩)

lemma undo_eq {S' : OutPoint → Option UtxoCoin}
    (hsame : ∀ op, op ∉ changes.removes → op ∉ changes.adds.map UtxoAdd.outpoint → S' op = S op) :
    apply S' undo.removes (undo.restores.map UtxoAdd.binding) = S := by
  refine apply_eq_of_restores _ _ ?_ h.dead_of_removes (fun op ho hr => ?_)
  · intro binding hb
    obtain ⟨restore, hmem, rfl⟩ := mem_map.mp hb
    exact h.restores_coin restore hmem
  · rw [List.map_map] at hr
    obtain ⟨hremoves, hadds⟩ := h.touched ho hr
    exact hsame op hremoves hadds

end Staged

namespace UtxoSet

variable {changes : BlockChanges}

lemma undoBlock_of_coins {set tip : UtxoSet} (hset : set.WellFormed) {undo : UndoBatch}
    (h : Staged set.coins changes undo) {schedule : Schedule} (hcommit : (set.commitBlock schedule changes).2 = .ok ())
    (htip : tip.WellFormed) (hcoins : tip.coins = (set.commitBlock schedule changes).1.coins) (back : Schedule) :
    ((tip.undoBlock back undo).2 = .ok ()) ∧ (tip.undoBlock back undo).1.WellFormed ∧
      (tip.undoBlock back undo).1.coins = set.coins := by
  have hspec : tip.batchSpec undo.restores undo.removes = set.coins := by
    apply h.undo_eq
    rw [hcoins]
    exact fun op => coins_of_untouched hset hcommit
  have hok : (tip.undoBlock back undo).2 = .ok () := by
    apply commit_succeeds back htip
    · exact fun restore hr => (hset.coin (h.restores_coin restore hr)).2
    · rw [hspec]
      exact hset.room
  refine ⟨hok, commit_wellFormed htip hok, ?_⟩
  rw [← hspec]
  exact coins_of_disjoint htip hok h.removes_disjoint

lemma undoBlock_restores {set : UtxoSet} (hset : set.WellFormed) {undo : UndoBatch}
    (h : Staged set.coins changes undo) {schedule : Schedule} (hcommit : (set.commitBlock schedule changes).2 = .ok ())
    (undoSchedule : Schedule) :
    (((set.commitBlock schedule changes).1.undoBlock undoSchedule undo).2 = .ok ()) ∧
      ((set.commitBlock schedule changes).1.undoBlock undoSchedule undo).1.WellFormed ∧
      ((set.commitBlock schedule changes).1.undoBlock undoSchedule undo).1.coins = set.coins :=
  undoBlock_of_coins hset h hcommit (commit_wellFormed hset hcommit) rfl undoSchedule

/-- A block built over coins that agree with the set, committed and undone, leaves the set's coins as they were. -/
theorem undo_of_built_block (set : UtxoSet) (hset : set.WellFormed) (inputs : BlockChangeInputs)
    (resolved : SpentOutputLookup) (hagrees : Agrees set.coins inputs resolved) (changes : BlockChanges)
    (undo : UndoBatch) (totals : BlockValueTotals)
    (hbuild : buildBlockChanges inputs resolved = .ok (changes, undo, totals)) (schedule undoSchedule : Schedule)
    (hcommit : (set.commitBlock schedule changes).2 = .ok ()) :
    ((set.commitBlock schedule changes).1.undoBlock undoSchedule undo).2 = .ok () ∧
      ((set.commitBlock schedule changes).1.undoBlock undoSchedule undo).1.coins = set.coins := by
  have hstaged := (buildBlockChanges_staged (fun op coin hc => (hset.coin hc).1) hagrees hbuild).1
  obtain ⟨hok, -, hcoins⟩ := undoBlock_restores hset hstaged hcommit undoSchedule
  exact ⟨hok, hcoins⟩

end UtxoSet

namespace Sample

def parentTxid : Txid := ⟨0 :: 3 :: List.replicate 30 0, by simp⟩
def childTxid : Txid := ⟨0 :: 4 :: List.replicate 30 0, by simp⟩

def block : Block where
  header := ⟨1, .zero, .zero, 0, 0, 0⟩
  txs := [{ version := 1, inputs := [⟨⟨.zero, 0xffffffff⟩, [], 0, []⟩], outputs := [⟨50, [0x53]⟩], lockTime := 0 },
          { version := 1, inputs := [⟨⟨spentTxid, 0⟩, [], 0, []⟩], outputs := [⟨3, [0x54]⟩, ⟨4, [0x55]⟩],
            lockTime := 0 },
          { version := 1, inputs := [⟨⟨parentTxid, 1⟩, [], 0, []⟩], outputs := [], lockTime := 0 }]

def txidOf (tx : Tx) : Txid :=
  if tx.isCoinbase then if tx.outputs.length = 4 then spentTxid else .zero
  else if tx.outputs.length = 2 then parentTxid else childTxid

def inputs : BlockChangeInputs where
  block := block
  height := 2
  txids := block.txs.map txidOf
  sameBlockSpent := some [⟨parentTxid, 1⟩]
  overwritten := some utxo
  maxScriptSize := 10000

def changes : BlockChanges where
  adds := [⟨⟨.zero, 0⟩, ⟨50, [0x53]⟩, true, 2⟩, ⟨⟨parentTxid, 0⟩, ⟨3, [0x54]⟩, false, 2⟩]
  removes := [⟨spentTxid, 0⟩]

def undo : UndoBatch := ⟨coins.take 2, [⟨parentTxid, 0⟩]⟩

lemma agrees : Agrees utxo.coins inputs utxo.coins :=
  ⟨fun _ _ => rfl, fun add _ => utxo_wellFormed.getEntry_coins add.outpoint⟩

lemma built : buildBlockChanges inputs utxo.coins = .ok (changes, undo, ⟨50, 7, 3⟩) := by decide +kernel

end Sample

open Sample

theorem UtxoSet.undo_of_built_sample :
    ((utxo.commitBlock .sequential changes).1.undoBlock .sequential undo).2 = .ok () ∧
      ((utxo.commitBlock .sequential changes).1.undoBlock .sequential undo).1.coins =
        utxo.coins :=
  undo_of_built_block _ utxo_wellFormed _ _ agrees _ _ _ built .sequential .sequential
    (by decide +kernel)

end BitcoinRs.Utxo
