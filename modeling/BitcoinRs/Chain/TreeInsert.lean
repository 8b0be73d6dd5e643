import BitcoinRs.Chain.TreeTip

namespace BitcoinRs.Chain.BlockTree

open Stateful
open UInt32 (ofNat)

variable {tree : BlockTree} {parent : Option NodeId} {header : Header} {hash : Hash256} {status : NodeStatus}
  {node : BlockTreeNode}

lemma placement_ok {height : UInt32} {chainwork : ChainWork} {placed : NodeStatus}
    (h : tree.placement parent header hash status = .ok (height, chainwork, placed)) :
    Stands tree.nodes ⟨parent, height, hash, header, chainwork, none, placed⟩ := by
  cases parent with
  | none =>
    cases h
    refine ⟨fun id hid => ?_, fun _ => ⟨rfl, rfl⟩⟩
    cases hid
  | some id =>
    unfold placement at h
    dsimp only at h
    split at h
    · cases h
    · rename_i above habove
      split at h
      · cases h
      split at h
      · cases h
      rename_i hheight
      split at h
      · cases h
      rename_i work hwork
      cases h
      refine ⟨fun other hother => ?_, fun hnone => ?_⟩
      · cases hother
        refine ⟨above, nodes_of_node habove, ?_, checkedAddWork_toNat hwork, fun hstatus => if_pos hstatus⟩
        show (above.height + 1).toNat = above.height.toNat + 1
        exact Nat.mod_eq_of_lt (Nat.lt_of_not_le hheight)
      · cases hnone

lemma newNode_stands (h : tree.newNode parent header hash status = .ok node) : Stands tree.nodes node := by
  unfold newNode at h
  split at h
  · cases h
  split at h
  · cases h
  rename_i hplaced
  cases h
  exact placement_ok hplaced

def withNode (tree : BlockTree) (node : BlockTreeNode) : BlockTree :=
  { tree with nodes := tree.nodes ++ [node], byHash := ofNat tree.nodes.length :: tree.byHash }

lemma index_concat (byHash : List NodeId) (hindex : IndexOk tree) :
    IndexOk { tree with nodes := tree.nodes ++ [node], byHash } := by
  unfold IndexOk at hindex ⊢
  dsimp only
  split at hindex
  · exact hindex
  · exact ⟨hindex.1, hindex.2.concat⟩

lemma inv_of_unaddressed (h : Inv tree) (hstands : Stands tree.nodes node) (hfull : 2 ^ 32 ≤ tree.nodes.length) :
    Inv { tree with nodes := tree.nodes ++ [node] } := by
  have hold : ∀ (id : NodeId) (other : BlockTreeNode), (tree.nodes ++ [node])[id.toNat]? = some other →
      tree.nodes[id.toNat]? = some other := by
    intro id other hother
    rcases getElem?_concat_cases hother with hold | ⟨heq, _⟩
    · exact hold
    · exact absurd heq (Nat.ne_of_lt (Nat.lt_of_lt_of_le id.toNat_lt hfull))
  refine ⟨hstands.linked h.linked, hstands.closed h.linked h.closed, ?_, index_concat tree.byHash h.index⟩
  have htip := h.tip
  cases hcase : tree.tip with
  | none =>
    rw [hcase] at htip
    intro id other hother
    exact invalidAt_concat.mpr (.inl (htip id other (hold id other hother)))
  | some tip =>
    rw [hcase] at htip
    refine ⟨htip.snapshot.concat, ?_⟩
    intro id other hother hvalid
    exact htip.follows id other (hold id other hother) fun hinvalid => hvalid (invalidAt_concat.mpr (.inl hinvalid))

section

variable (hlt : tree.nodes.length < 2 ^ 32)

include hlt

lemma toNat_newId : (ofNat tree.nodes.length).toNat = tree.nodes.length := UInt32.toNat_ofNat_of_lt' hlt

lemma withNode_last : (tree.withNode node).nodes[(ofNat tree.nodes.length).toNat]? = some node := by
  rw [toNat_newId hlt]
  exact List.getElem?_concat_length

lemma tipOk_of_outranked (h : Inv tree) (hout : Outranked (tree.withNode node) (ofNat tree.nodes.length) node) :
    TipOk (tree.withNode node).nodes (tree.withNode node).tip := by
  have htip := h.tip
  have hid := toNat_newId hlt
  show TipOk (tree.nodes ++ [node]) tree.tip
  cases hcase : tree.tip with
  | none =>
    rw [hcase] at htip
    rcases hout with hinvalid | ⟨tip, htip', _⟩
    · intro id other hother
      rcases getElem?_concat_cases hother with hold | ⟨heq, rfl⟩
      · exact invalidAt_concat.mpr (.inl (htip id other hold))
      · rw [heq, ← hid]
        exact hinvalid
    · cases hcase.symm.trans htip'
  | some tip =>
    rw [hcase] at htip
    refine ⟨htip.snapshot.concat, ?_⟩
    intro id other hother hvalid
    rcases getElem?_concat_cases hother with hold | ⟨heq, rfl⟩
    · exact htip.follows id other hold fun hinvalid => hvalid (invalidAt_concat.mpr (.inl hinvalid))
    · rcases hout with hinvalid | ⟨tip', htip', hle⟩
      · rw [hid, ← heq] at hinvalid
        exact absurd hinvalid hvalid
      · cases hcase.symm.trans htip'
        obtain ⟨tipNode, htipNode, _⟩ := htip.snapshot
        have hearlier : tip.tipId.toNat < tree.nodes.length := (List.getElem?_eq_some_iff.mp htipNode).1
        have hle' : other.chainwork.toNat ≤ tip.chainwork.toNat := hle
        unfold Follows
        omega

lemma best_of_not_outranked (h : Inv tree) (hout : ¬ Outranked (tree.withNode node) (ofNat tree.nodes.length) node) :
    Best (tree.withNode node).nodes (tipSnapshot (ofNat tree.nodes.length) node) := by
  have htip := h.tip
  have hid := toNat_newId hlt
  refine ⟨⟨node, withNode_last hlt, rfl, fun hinvalid => hout (.inl hinvalid)⟩, ?_⟩
  intro id other hother hvalid
  rcases getElem?_concat_cases hother with hold | ⟨heq, rfl⟩
  · have hvalid' : ¬ InvalidAt tree.nodes id.toNat := fun hinvalid => hvalid (invalidAt_concat.mpr (.inl hinvalid))
    cases hcase : tree.tip with
    | none =>
      rw [hcase] at htip
      exact absurd (htip id other hold) hvalid'
    | some tip =>
      rw [hcase] at htip
      have hmore : ¬ node.chainwork.toNat ≤ tip.chainwork.toNat := fun hle => hout (.inr ⟨tip, hcase, hle⟩)
      have hfollows := htip.follows id other hold hvalid'
      unfold Follows at hfollows
      left
      show other.chainwork.toNat < node.chainwork.toNat
      omega
  · right
    refine ⟨rfl, ?_⟩
    show (ofNat tree.nodes.length).toNat ≤ id.toNat
    rw [hid, heq]

end

lemma insertNodeWithHash_advances (h : Inv tree) :
    Advances tree (stateOf (insertNodeWithHash parent header hash status tree)) := by
  unfold insertNodeWithHash
  cases hnew : tree.newNode parent header hash status with
  | error e =>
    have hread : reading (fun tree => newNode tree parent header hash status) tree = .error e tree := reading_error hnew
    rw [bind_error hread]
    exact .refl h
  | ok node =>
    have hread : reading (fun tree => newNode tree parent header hash status) tree = .ok node tree := reading_ok hnew
    rw [bind_ok hread]
    have hstands := newNode_stands hnew
    by_cases hlt : tree.nodes.length < 2 ^ 32
    · have hpush : pushNode node tree = .ok (ofNat tree.nodes.length) (tree.withNode node) := by
        unfold pushNode
        rw [if_pos hlt]
        rfl
      rw [bind_ok hpush]
      have hlinked : Linked (tree.withNode node).nodes := hstands.linked h.linked
      have hclosed : InvalidClosed (tree.withNode node).nodes := hstands.closed h.linked h.closed
      have hindex : IndexOk (tree.withNode node) := index_concat _ h.index
      have htip : ∀ tip, (tree.withNode node).tip = some tip → SnapshotOf (tree.withNode node).nodes tip :=
        fun tip htip => (h.snapshot tip htip).concat
      rcases publishTipIfBest_cases hlinked hindex htip (withNode_last hlt) with
        ⟨hout, hrun⟩ | ⟨hout, demoted, tree', hrun, hpublished⟩
      · rw [bind_ok hrun]
        exact ⟨⟨hlinked, hclosed, tipOk_of_outranked hlt h hout, hindex⟩, extends_concat⟩
      · rw [bind_ok hrun]
        exact ⟨hpublished.inv hlinked hclosed (best_of_not_outranked hlt h hout),
          extends_concat.trans hpublished.kept.shape.extends⟩
    · have hpush : pushNode node tree =
          .error (.nodeIdOverflow tree.nodes.length) { tree with nodes := tree.nodes ++ [node] } := by
        unfold pushNode
        rw [if_neg hlt]
      rw [bind_error hpush]
      exact ⟨inv_of_unaddressed h hstands (Nat.le_of_not_lt hlt), extends_concat⟩

variable {computeHash : Header → Hash256} (h : Inv tree)

include h

lemma insertNode_advances : Advances tree (stateOf (insertNode computeHash parent header status tree)) := by
  unfold insertNode
  rw [stateOf_bind_pure]
  exact insertNodeWithHash_advances h

lemma insertHeaderWithHash_advances : Advances tree (stateOf (insertHeaderWithHash header hash status tree)) := by
  unfold insertHeaderWithHash
  cases hparent : tree.headerParent header with
  | error e =>
    have hread : reading (fun tree => headerParent tree header) tree = .error e tree := reading_error hparent
    rw [bind_error hread]
    exact .refl h
  | ok parent =>
    have hread : reading (fun tree => headerParent tree header) tree = .ok parent tree := reading_ok hparent
    rw [bind_ok hread]
    exact insertNodeWithHash_advances h

lemma insertHeader_advances : Advances tree (stateOf (insertHeader computeHash header status tree)) := by
  unfold insertHeader
  rw [stateOf_bind_pure]
  exact insertHeaderWithHash_advances h

end BitcoinRs.Chain.BlockTree
