import BitcoinRs.Chainstate.JournalReplay
import BitcoinRs.Utxo.Overlay

namespace BitcoinRs.Chainstate

open Batch Utxo

structure WindowBlock where
  inputs : BlockChangeInputs
  resolved : SpentOutputLookup

def commitWindow (schedule : Schedule) : UtxoSet → List WindowBlock → Option UtxoSet
  | utxo, [] => some utxo
  | utxo, block :: rest =>
    match buildBlockChanges block.inputs block.resolved with
    | .error _ => none
    | .ok (changes, _, _) =>
      match utxo.commitBlock schedule changes with
      | (_, .error _) => none
      | (next, .ok ()) => commitWindow schedule next rest

def advanceWindow : WindowOverlay → List WindowBlock → Except WindowOverlayError WindowOverlay
  | overlay, [] => .ok overlay
  | overlay, block :: rest => do
    let plan := planBlockTransactions block.inputs.block block.inputs.txids
    let next ← overlay.advance block.inputs.block block.inputs.txids block.inputs.height (plan.sameBlockSpent.getD [])
    advanceWindow next rest

def ValidWindow (txid : Tx → Txid) (schedule : Schedule) : UtxoSet → List WindowBlock → Prop
  | _, [] => True
  | utxo, block :: rest => ValidBlock txid utxo.coins block.inputs ∧ Agrees utxo.coins block.inputs block.resolved ∧
      (∃ result, buildBlockChanges block.inputs block.resolved = .ok result) ∧
      ∀ next, commitWindow schedule utxo [block] = some next → ValidWindow txid schedule next rest

namespace ValidBlock

variable {txid : Tx → Txid} {S : OutPoint → Option UtxoCoin} {inputs : BlockChangeInputs}

lemma advance (h : ValidBlock txid S inputs) (hkey : ∀ op coin, S op = some coin → coin.outpoint = op)
    {resolved : SpentOutputLookup} (hagrees : Agrees S inputs resolved) {changes : BlockChanges} {undo : UndoBatch}
    {totals : BlockValueTotals} (hbuild : buildBlockChanges inputs resolved = .ok (changes, undo, totals))
    {overlay : WindowOverlay} (hsize : overlay.maxScriptSize = maxScriptSize) (hcoins : overlay.coins = S) :
    ∃ next, overlay.advance inputs.block inputs.txids inputs.height
        ((planBlockTransactions inputs.block inputs.txids).sameBlockSpent.getD []) = .ok next ∧
      WindowOverlay.Over overlay next ∧
      next.coins = apply S changes.removes (changes.adds.map UtxoAdd.binding) := by
  obtain ⟨hstaged, ⟨hzero, rfl⟩ | ⟨hzero, rfl⟩⟩ := buildBlockChanges_staged hkey hagrees hbuild
  · refine ⟨overlay, ?_, WindowOverlay.Over.refl overlay, ?_⟩
    · rw [WindowOverlay.advance, if_neg (not_not.mpr h.length_eq), if_pos hzero]
    · rw [hcoins]
      rfl
  · rw [← hcoins]
    refine WindowOverlay.advance_coins h.contains_eq h.length_eq hzero ?_ (hsize.trans h.script_size.symm)
    exact (h.separate hstaged (Or.inr rfl)).disjoint

end ValidBlock

variable {schedule : Schedule}

lemma commitWindow_cons {utxo next : UtxoSet} {block : WindowBlock} {changes : BlockChanges}
    {undo : UndoBatch} {totals : BlockValueTotals}
    (hbuild : buildBlockChanges block.inputs block.resolved = .ok (changes, undo, totals))
    (hcommit : utxo.commitBlock schedule changes = (next, .ok ())) (rest : List WindowBlock) :
    commitWindow schedule utxo (block :: rest) = commitWindow schedule next rest := by
  rw [commitWindow, hbuild]
  simp only
  rw [hcommit]

lemma advanceWindow_agrees {txid : Tx → Txid} (blocks : List WindowBlock) {utxo : UtxoSet}
    (hutxo : utxo.WellFormed) (hvalid : ValidWindow txid schedule utxo blocks) {overlay : WindowOverlay}
    (hsize : overlay.maxScriptSize = maxScriptSize) (hcoins : overlay.coins = utxo.coins) :
    ∃ live next, commitWindow schedule utxo blocks = some live ∧ advanceWindow overlay blocks = .ok next ∧
      live.WellFormed ∧ next.base = overlay.base ∧ next.coins = live.coins := by
  induction blocks generalizing utxo overlay with
  | nil => exact ⟨utxo, overlay, rfl, rfl, hutxo, rfl, hcoins⟩
  | cons block rest ih =>
    obtain ⟨hblock, hagrees, ⟨⟨changes, undo, totals⟩, hbuild⟩, hrest⟩ := hvalid
    obtain ⟨hok, hafter, hlive⟩ := commit_of_build hutxo hblock hagrees hbuild schedule hutxo rfl
    obtain ⟨next, hnext, hover, hstep⟩ :=
      hblock.advance (fun op coin hc => (hutxo.coin hc).1) hagrees hbuild hsize hcoins
    have hcommit : utxo.commitBlock schedule changes = ((utxo.commitBlock schedule changes).1, .ok ()) :=
      Prod.ext rfl hok
    obtain ⟨live, final, hcommits, hadvances, hwell, hbase, heq⟩ :=
      ih hafter (hrest _ (commitWindow_cons hbuild hcommit [])) (hover.maxScriptSize.trans hsize)
        (hstep.trans hlive.symm)
    refine ⟨live, final, (commitWindow_cons hbuild hcommit rest).trans hcommits, ?_, hwell, hbase.trans hover.base, heq⟩
    rw [advanceWindow, hnext]
    exact hadvances

/-- Over valid blocks the overlay reads as the set into which their changes have been committed. -/
theorem window_overlay_refines_commits (txid : Tx → Txid) (schedule : Schedule) (utxo : UtxoSet)
    (hutxo : utxo.WellFormed) (blocks : List WindowBlock) (hvalid : ValidWindow txid schedule utxo blocks) :
    ∃ live overlay, commitWindow schedule utxo blocks = some live ∧
      advanceWindow (WindowOverlay.new utxo maxScriptSize) blocks = .ok overlay ∧
      ∀ op, ∃ entry, overlay.getEntry op = .ok entry ∧ live.getEntry op = .ok entry := by
  obtain ⟨live, overlay, hcommits, hadvances, hwell, hbase, hcoins⟩ :=
    advanceWindow_agrees blocks hutxo hvalid (show (WindowOverlay.new utxo maxScriptSize).maxScriptSize =
      _ from rfl) rfl
  refine ⟨live, overlay, hcommits, hadvances, fun op => ⟨overlay.coins op, ?_, ?_⟩⟩
  · exact WindowOverlay.getEntry_coins (hbase ▸ hutxo) op
  · rw [hcoins]
    exact hwell.getEntry_coins op

namespace Sample

open Utxo.Sample List

def next : UtxoSet := (utxo.commitBlock .sequential changes).1

lemma next_ok : (utxo.commitBlock .sequential changes).2 = .ok () := by decide +kernel

/-- The second block: a coinbase with the txid the first block spent from. -/
def again : BlockChangeInputs :=
  let tx : Tx := ⟨1, [⟨⟨.zero, 0xffffffff⟩, [], 0, []⟩], replicate 4 ⟨50, [0x53]⟩, 0⟩
  ⟨⟨⟨1, .zero, .zero, 0, 0, 0⟩, [tx]⟩, 3, [txidOf tx], none, some next, 10000⟩

lemma valid_again : ValidBlock txidOf next.coins again where
  txids_eq := rfl
  txid_inputs := by decide
  only_first_coinbase := by decide
  first_coinbase := by decide
  inputs_ne_nil := by decide
  inputs_nodup := by decide
  outputs_lt := by decide
  bip30 _ ht := by cases ht
  overwrites_own tx ht vout hlive := by
    cases ht
    by_contra hge
    have hfresh {items : List OutPoint} (h : ∀ op ∈ items, op.vout.toNat < 4) : ⟨spentTxid, vout⟩ ∉ items :=
      fun hmem => hge (h _ hmem)
    obtain ⟨coin, hc⟩ := Option.ne_none_iff_exists'.mp hlive
    have hsame := UtxoSet.coins_of_untouched utxo_wellFormed next_ok (hfresh (by decide)) (hfresh (by decide))
    obtain ⟨add, hadd, he, -⟩ := UtxoSet.mem_ofAdds utxo_ok (hsame.symm.trans hc)
    exact hfresh (by decide) (he ▸ mem_map_of_mem hadd : _ ∈ coins.map UtxoAdd.outpoint)
  planned := by decide
  script_size := rfl

def blocks : List WindowBlock := [⟨inputs, utxo.coins⟩, ⟨again, next.coins⟩]

lemma window : ValidWindow txidOf .sequential utxo blocks := by
  refine ⟨valid, agrees, ⟨_, built⟩, fun after hafter => ?_⟩
  rw [commitWindow_cons built (Prod.ext rfl next_ok)] at hafter
  cases hafter
  have hnext := UtxoSet.commit_wellFormed utxo_wellFormed next_ok
  refine ⟨valid_again, ⟨fun _ _ => rfl, fun add _ => hnext.getEntry_coins add.outpoint⟩, ?_, fun _ _ => trivial⟩
  have hbuilt : (buildBlockChanges again next.coins).toOption.isSome := by decide +kernel
  cases hresult : buildBlockChanges again next.coins with
  | ok result => exact ⟨result, rfl⟩
  | error e =>
    rw [hresult] at hbuilt
    cases hbuilt

end Sample

open Utxo.Sample Sample

theorem window_overlay_refines_commits_sample :
    ∃ live overlay, commitWindow .sequential utxo blocks = some live ∧
      advanceWindow (.new utxo maxScriptSize) blocks = .ok overlay ∧
      ∀ op, ∃ entry, overlay.getEntry op = .ok entry ∧ live.getEntry op = .ok entry :=
  window_overlay_refines_commits _ .sequential _ utxo_wellFormed _ window

/-- Takes the blocks of a branch back by the undo batches they were built with, the last block first. -/
def undoWindow (schedule : Schedule) (tip : UtxoSet) : List WindowBlock → Option UtxoSet
  | [] => some tip
  | block :: rest => do
    let utxo ← undoWindow schedule tip rest
    let (_, undo, _) ← (buildBlockChanges block.inputs block.resolved).toOption
    match utxo.undoBlock schedule undo with
    | (before, .ok ()) => some before
    | (_, .error _) => none

/-- A valid branch connects over any set with the coins before it and comes off any set with the coins after it. -/
lemma window_of_coins {txid : Tx → Txid} (back : Schedule) (blocks : List WindowBlock)
    {utxo : UtxoSet} (hutxo : utxo.WellFormed) (hvalid : ValidWindow txid schedule utxo blocks) :
    ∃ live, commitWindow schedule utxo blocks = some live ∧ live.WellFormed ∧
      (∀ base : UtxoSet, base.WellFormed → base.coins = utxo.coins →
        ∃ next, commitWindow back base blocks = some next ∧ next.coins = live.coins) ∧
      ∀ tip : UtxoSet, tip.WellFormed → tip.coins = live.coins →
        ∃ before, undoWindow back tip blocks = some before ∧ before.WellFormed ∧ before.coins = utxo.coins := by
  induction blocks generalizing utxo with
  | nil =>
    exact ⟨utxo, rfl, hutxo, fun base _ hcoins => ⟨base, rfl, hcoins⟩, fun tip htip hcoins => ⟨tip, rfl, htip, hcoins⟩⟩
  | cons block rest ih =>
    obtain ⟨hblock, hagrees, ⟨⟨changes, undo, totals⟩, hbuild⟩, hrest⟩ := hvalid
    have hcommit := commit_of_build hutxo hblock hagrees hbuild
    obtain ⟨hok, hafter, hfirst⟩ := hcommit schedule hutxo rfl
    have hcommits := commitWindow_cons hbuild (Prod.ext rfl hok)
    obtain ⟨live, hlive, hwell, hagain, hundo⟩ := ih hafter (hrest _ (hcommits []))
    refine ⟨live, (hcommits rest).trans hlive, hwell, fun base hbase hcoins => ?_, fun tip htip hcoins => ?_⟩
    · obtain ⟨hok, hafter, hsame⟩ := hcommit back hbase hcoins
      rw [commitWindow_cons hbuild (Prod.ext rfl hok)]
      exact hagain _ hafter (hsame.trans hfirst.symm)
    · obtain ⟨next, hnext, hwell, hsame⟩ := hundo tip htip hcoins
      have hstaged := (changes_of_build hutxo hagrees hbuild).1
      obtain ⟨hback, hbefore⟩ := UtxoSet.undoBlock_of_coins hutxo hstaged hok hwell hsame back
      refine ⟨_, ?_, hbefore⟩
      simp only [undoWindow, hnext, hbuild, Except.toOption, Option.bind_eq_bind, Option.bind_some]
      generalize next.undoBlock back undo = result at hback ⊢
      obtain ⟨before, outcome⟩ := result
      cases hback
      rfl

/-- Taking a branch back and connecting another gives the coins that the other gives alone. -/
theorem reorg_reaches_branch (txid : Tx → Txid) (schedule back : Schedule) (utxo : UtxoSet) (hutxo : utxo.WellFormed)
    (old new : List WindowBlock) (hold : ValidWindow txid schedule utxo old) (hnew :
      ValidWindow txid schedule utxo new) :
    ∃ tip live before next, commitWindow schedule utxo old = some tip ∧ commitWindow schedule utxo new = some live ∧
      undoWindow back tip old = some before ∧ before.coins = utxo.coins ∧
      commitWindow back before new = some next ∧ next.coins = live.coins := by
  obtain ⟨tip, htip, hwell, -, hundo⟩ := window_of_coins back old hutxo hold
  obtain ⟨live, hlive, -, hagain, -⟩ := window_of_coins back new hutxo hnew
  obtain ⟨before, hbefore, hset, hcoins⟩ := hundo tip hwell rfl
  obtain ⟨next, hnext, hsame⟩ := hagain before hset hcoins
  exact ⟨tip, live, before, next, htip, hlive, hbefore, hcoins, hnext, hsame⟩

theorem reorg_reaches_branch_sample : ∃ tip live before next,
    commitWindow .sequential utxo blocks = some tip ∧ commitWindow .sequential utxo (blocks.take 1) = some live ∧
      undoWindow .sequential tip blocks = some before ∧ before.coins = utxo.coins ∧
      commitWindow .sequential before (blocks.take 1) = some next ∧ next.coins = live.coins :=
  reorg_reaches_branch _ .sequential .sequential _ utxo_wellFormed _ _ window
    ⟨valid, agrees, ⟨_, built⟩, fun _ _ => trivial⟩

end BitcoinRs.Chainstate
