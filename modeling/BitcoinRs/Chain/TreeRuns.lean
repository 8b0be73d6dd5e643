import BitcoinRs.Chain.TreeInsert
import BitcoinRs.Library.Fallible

namespace BitcoinRs.Chain

open Stateful Worklist List

variable (nodes : List BlockTreeNode)

def ChildOf (i j : ℕ) : Prop := ∃ node id, nodes[j]? = some node ∧ node.parent = some id ∧ id.toNat = i

def Descendant (i j : ℕ) : Prop := Relation.ReflTransGen (ChildOf nodes) i j

lemma InvalidClosed.descendant {nodes : List BlockTreeNode} (hclosed : InvalidClosed nodes) {i j : ℕ}
    (h : Descendant nodes i j) (hinvalid : InvalidAt nodes i) : InvalidAt nodes j := by
  induction h with
  | refl => exact hinvalid
  | tail _ hchild ih =>
    obtain ⟨node, id, hnode, hparent, rfl⟩ := hchild
    exact hclosed _ node id hnode hparent ih

namespace BlockTree

variable {tree : BlockTree} {invalid : List Bool} {node : BlockTreeNode}

def under (i : ℕ) (entry : BlockTreeNode × ℕ) : Bool := entry.1.parent.any fun id => id.toNat = i

structure Lists (count : ℕ) (passed : List (BlockTreeNode × ℕ)) (children : List (List NodeId)) : Prop where
  length_eq : children.length = count
  getD_eq : ∀ i, children.getD i [] = (passed.filter (under i)).map fun entry => UInt32.ofNat entry.2
  named : ∀ entry ∈ passed, entry.1.parent ≠ none → entry.2 < 2 ^ 32

lemma lists_addChild {count : ℕ} {passed : List (BlockTreeNode × ℕ)} {children children' : List (List NodeId)}
    {entry : BlockTreeNode × ℕ} (h : Lists count passed children) (hrun : addChild children entry = .ok children')
    (hparent : ∀ id, entry.1.parent = some id → id.toNat < count) : Lists count (passed ++ [entry]) children' := by
  unfold addChild at hrun
  split at hrun
  · rename_i hnone
    cases hrun
    refine ⟨h.length_eq, ?_, ?_⟩
    · intro i
      rw [h.getD_eq]
      simp [under, hnone]
    · intro other hother hsome
      rcases mem_append.mp hother with hother | hother
      · exact h.named other hother hsome
      · rw [mem_singleton.mp hother] at hsome
        exact absurd hnone hsome
  · rename_i id hid
    split at hrun
    · rename_i hlt
      cases hrun
      have hroom : id.toNat < children.length := h.length_eq ▸ hparent id hid
      refine ⟨by rw [length_modify, h.length_eq], ?_, ?_⟩
      · intro i
        rw [filter_append, map_append, ← h.getD_eq]
        by_cases hi : id.toNat = i
        · subst hi
          simp [under, hid, getElem?_eq_getElem hroom]
        · simp [under, hid, hi]
      · intro other hother hsome
        rcases mem_append.mp hother with hother | hother
        · exact h.named other hother hsome
        · rw [mem_singleton.mp hother]
          exact hlt
    · cases hrun

variable {children : List (List NodeId)}

lemma childLists_lists (hlinked : Linked tree.nodes)
    (h : tree.childLists = .ok children) : Lists tree.nodes.length tree.nodes.zipIdx children := by
  apply Fallible.foldlM_invariant h
  · refine ⟨length_replicate, ?_, fun entry hentry => absurd hentry not_mem_nil⟩
    intro i
    rw [getD_eq_getElem?_getD, getElem?_replicate]
    split <;> rfl
  · rintro passed ⟨node, index⟩ children children' hmem hlists hrun
    refine lists_addChild hlists hrun fun id hid => ?_
    obtain ⟨above, habove, _⟩ := hlinked.parent _ _ _ (mem_zipIdx_iff_getElem?.mp hmem) hid
    exact (List.getElem?_eq_some_iff.mp habove).1

lemma edge_iff (h : Lists tree.nodes.length tree.nodes.zipIdx children) (i j : ℕ) :
    Edge UInt32.toNat (fun index => children.getD index []) i j ↔ ChildOf tree.nodes i j := by
  unfold Edge ChildOf
  dsimp only
  rw [h.getD_eq]
  have hname : ∀ entry ∈ tree.nodes.zipIdx, under i entry → (UInt32.ofNat entry.2).toNat = entry.2 := by
    intro entry hentry hunder
    apply UInt32.toNat_ofNat_of_lt'
    refine h.named entry hentry fun hnone => ?_
    rw [under, hnone] at hunder
    cases hunder
  constructor
  · rintro ⟨child, hchild, rfl⟩
    obtain ⟨⟨node, index⟩, hentry, rfl⟩ := mem_map.mp hchild
    obtain ⟨hentry, hunder⟩ := mem_filter.mp hentry
    obtain ⟨id, hid, hi⟩ := Option.any_eq_true _ _ |>.mp hunder
    rw [hname _ hentry hunder]
    exact ⟨node, id, mem_zipIdx_iff_getElem?.mp hentry, hid, of_decide_eq_true hi⟩
  · rintro ⟨node, id, hnode, hid, hi⟩
    have hentry : (node, j) ∈ tree.nodes.zipIdx := mem_zipIdx_iff_getElem?.mpr hnode
    have hunder : under i (node, j) := by simp [under, hid, hi]
    exact ⟨_, mem_map.mpr ⟨_, mem_filter.mpr ⟨hentry, hunder⟩, rfl⟩, hname _ hentry hunder⟩

variable (left right : BlockTreeNode × ℕ)

def RanksBelow : Prop :=
  left.1.chainwork.toNat < right.1.chainwork.toNat ∨
    left.1.chainwork.toNat = right.1.chainwork.toNat ∧ right.2 ≤ left.2

instance : IsPreorder (BlockTreeNode × ℕ) RanksBelow where
  refl x := .inr ⟨rfl, Nat.le_refl _⟩
  trans x y z hxy hyz := by
    unfold RanksBelow at *
    omega

lemma ranksBelow_of_compare :
    (compareNodes left right = .gt → RanksBelow right left) ∧
      (compareNodes left right ≠ .gt → RanksBelow left right) := by
  unfold compareNodes RanksBelow
  rcases Nat.lt_trichotomy left.1.chainwork.toNat right.1.chainwork.toNat with hlt | heq | hgt
  · rw [Nat.compare_eq_lt.mpr hlt]
    exact ⟨fun h => (nomatch h), fun _ => .inl hlt⟩
  · rw [Nat.compare_eq_eq.mpr heq, Ordering.eq_then, ne_eq, Nat.compare_eq_gt]
    constructor
    · intro h
      exact .inr ⟨heq.symm, by omega⟩
    · intro h
      exact .inr ⟨heq, by omega⟩
  · rw [Nat.compare_eq_gt.mpr hgt]
    exact ⟨fun _ => .inl hgt, fun h => absurd rfl h⟩

lemma mem_candidates {index : ℕ} :
    (node, index) ∈ (tree.nodes.zipIdx.filter fun entry => !invalid.getD entry.2 false).filter
        (fun entry => entry.1.status ≠ .invalid) ↔
      tree.nodes[index]? = some node ∧ ¬ Marked invalid index ∧ node.status ≠ .invalid := by
  rw [mem_filter, mem_filter, mem_zipIdx_iff_getElem?]
  simp [Marked, and_assoc]

lemma bestOf_some {index : ℕ} (h : tree.bestOf invalid = some (node, index)) :
    tree.nodes[index]? = some node ∧ ¬ Marked invalid index ∧ node.status ≠ .invalid ∧
      ∀ (i : ℕ) (other : BlockTreeNode), tree.nodes[i]? = some other → ¬ Marked invalid i → other.status ≠ .invalid →
        RanksBelow (other, i) (node, index) := by
  obtain ⟨hmem, hmax⟩ := MaxBy.maxBy_spec (fun x y => (ranksBelow_of_compare x y).1)
    (fun x y => (ranksBelow_of_compare x y).2) h
  obtain ⟨hnode, hmark, hstatus⟩ := mem_candidates.mp hmem
  refine ⟨hnode, hmark, hstatus, ?_⟩
  intro i other hother hmark' hstatus'
  exact hmax _ (mem_candidates.mpr ⟨hother, hmark', hstatus'⟩)

lemma bestOf_none (h : tree.bestOf invalid = none) {i : ℕ} (hnode : tree.nodes[i]? = some node) :
    Marked invalid i ∨ node.status = .invalid := by
  by_contra hcon
  obtain ⟨hmark, hstatus⟩ := not_or.mp hcon
  have hmem := mem_candidates.mpr ⟨hnode, hmark, hstatus⟩
  rw [MaxBy.maxBy_eq_none.mp h] at hmem
  exact absurd hmem not_mem_nil

def BestUnmarked (nodes : List BlockTreeNode) (invalid : List Bool) : Option NodeId → Prop
  | none => ∀ (i : ℕ) (node : BlockTreeNode), nodes[i]? = some node → Marked invalid i ∨ InvalidAt nodes i
  | some best => ∃ node, nodes[best.toNat]? = some node ∧ ¬ Marked invalid best.toNat ∧ node.status ≠ .invalid ∧
      ∀ (i : ℕ) (other : BlockTreeNode), nodes[i]? = some other → ¬ Marked invalid i → other.status ≠ .invalid →
        RanksBelow (other, i) (node, best.toNat)

structure Plan (tree : BlockTree) (root : NodeId) (invalid : List Bool) (best : Option NodeId) : Prop where
  marked_iff : ∀ i, Marked invalid i ↔ Descendant tree.nodes root.toNat i
  best_unmarked : BestUnmarked tree.nodes invalid best

variable {best : Option NodeId}

lemma bestId_ok (h : bestId (tree.bestOf invalid) = .ok best) : BestUnmarked tree.nodes invalid best := by
  cases hbest : tree.bestOf invalid with
  | none =>
    rw [hbest] at h
    cases h
    intro i node hnode
    rcases bestOf_none hbest hnode with hmark | hstatus
    · exact .inl hmark
    · exact .inr ⟨node, hnode, hstatus⟩
  | some entry =>
    obtain ⟨node, index⟩ := entry
    rw [hbest] at h
    unfold bestId at h
    dsimp only at h
    split at h
    · rename_i hlt
      cases h
      show ∃ node, _
      rw [UInt32.toNat_ofNat_of_lt' hlt]
      exact ⟨node, bestOf_some hbest⟩
    · cases h

lemma invalidationPlan_ok {root : NodeId} (hlinked : Linked tree.nodes)
    (h : tree.invalidationPlan root = .ok (invalid, best)) : Plan tree root invalid best := by
  obtain ⟨node, hnode, h⟩ := Fallible.bind_eq_ok h
  obtain ⟨children, hchildren, h⟩ := Fallible.bind_eq_ok h
  obtain ⟨best', hbest, h⟩ := Fallible.bind_eq_ok h
  cases h
  have hlists := childLists_lists hlinked hchildren
  have hroot : root.toNat < tree.nodes.length := (List.getElem?_eq_some_iff.mp (nodes_of_node hnode)).1
  have hbound : ∀ i, ∀ child ∈ children.getD i [], child.toNat < tree.nodes.length := by
    intro i child hchild
    obtain ⟨other, id, hother, _⟩ := (edge_iff hlists i child.toNat).mp ⟨child, hchild, rfl⟩
    exact (List.getElem?_eq_some_iff.mp hother).1
  obtain ⟨_, hmarked⟩ := sweep_reaches hroot hbound
  refine ⟨fun i => ?_, bestId_ok hbest⟩
  have hsame : Edge UInt32.toNat (fun index => children.getD index []) = ChildOf tree.nodes := by
    funext i j
    exact propext (edge_iff hlists i j)
  rw [hmarked, hsame]
  rfl

end BlockTree

variable (invalid : List Bool)

lemma getElem?_markInvalid (i : ℕ) :
    (BlockTree.markInvalid invalid nodes)[i]? =
      nodes[i]?.map fun node => if invalid.getD i false then { node with status := .invalid } else node := by
  unfold BlockTree.markInvalid
  rw [getElem?_mapIdx]

lemma sameShape_markInvalid : SameShape nodes (BlockTree.markInvalid invalid nodes) := by
  apply ext_getElem?
  intro i
  rw [getElem?_map, getElem?_map, getElem?_markInvalid, Option.map_map]
  split <;> rfl

variable {nodes}

lemma invalidAt_markInvalid {invalid : List Bool} {i : ℕ} {node : BlockTreeNode} (hnode : nodes[i]? = some node) :
    InvalidAt (BlockTree.markInvalid invalid nodes) i ↔ Marked invalid i ∨ InvalidAt nodes i := by
  unfold InvalidAt
  rw [getElem?_markInvalid, hnode, Option.map_some]
  by_cases hmark : Marked invalid i
  · rw [if_pos (show invalid.getD i false = true from hmark)]
    simp [hmark]
  · rw [if_neg (show ¬ invalid.getD i false = true from hmark)]
    simp [hmark]

namespace BlockTree

variable {tree : BlockTree} {root : NodeId} {invalid} {best : Option NodeId} {tree' : BlockTree}

lemma demoteBeside_kept (tree : BlockTree) (invalid : List Bool) {oldTip : Option TipSnapshot} (best : Option NodeId)
    (htip : ∀ tip, oldTip = some tip → SnapshotOf tree.nodes tip) :
    ∃ demoted nodes, demoteBeside invalid oldTip best tree = .ok demoted { tree with nodes } ∧
      Kept tree.nodes nodes := by
  unfold demoteBeside
  split
  · rename_i oldTip best
    split
    · exact ⟨none, tree.nodes, rfl, .refl _⟩
    · obtain ⟨oldNode, holdNode, _, hvalid⟩ := htip oldTip rfl
      obtain ⟨nodes, hset, hkept⟩ := setStatus_kept tree .stale holdNode hvalid (by decide)
      rw [bind_ok (show (get : TreeM BlockTree) tree = .ok tree tree from rfl), bind_ok hset]
      exact ⟨_, nodes, rfl, hkept⟩
  · exact ⟨none, tree.nodes, rfl, .refl _⟩

structure Cut (tree : BlockTree) (invalid : List Bool) (tree' : BlockTree) : Prop where
  shape : SameShape tree.nodes tree'.nodes
  invalid_iff : ∀ (i : ℕ) (node : BlockTreeNode), tree.nodes[i]? = some node →
    (InvalidAt tree'.nodes i ↔ Marked invalid i ∨ InvalidAt tree.nodes i)
  tip_eq : tree'.tip = none
  index : IndexOk tree'

lemma cut_withoutInvalid (hkept : Kept tree.nodes nodes) :
    Cut tree invalid (withoutInvalid { tree with nodes } invalid) := by
  refine ⟨hkept.shape.trans (sameShape_markInvalid _ _), ?_, rfl, rfl⟩
  intro i node hnode
  obtain ⟨node', hnode', _⟩ := hkept.shape.node hnode
  show InvalidAt (markInvalid invalid nodes) i ↔ _
  rw [invalidAt_markInvalid hnode', hkept.invalid]

section

variable (hcut : Cut tree invalid tree')

include hcut

lemma Cut.closed (hplan : Plan tree root invalid best) (h : Inv tree) : InvalidClosed tree'.nodes := by
  intro i node' id hnode' hparent hinvalid
  obtain ⟨node, hnode, hshape⟩ := hcut.shape.symm.node hnode'
  have hparent' : node.parent = some id := (congrArg BlockTreeNode.parent hshape).trans hparent
  obtain ⟨above, habove, _⟩ := h.linked.parent _ _ _ hnode hparent'
  rw [hcut.invalid_iff i node hnode]
  rcases (hcut.invalid_iff _ above habove).mp hinvalid with hmark | hold
  · left
    rw [hplan.marked_iff] at hmark ⊢
    exact hmark.tail ⟨node, id, hnode, hparent', rfl⟩
  · exact .inr (h.closed i node id hnode hparent' hold)

lemma Cut.best_of_plan {id : NodeId} (hplan : Plan tree root invalid (some id)) :
    ∃ node, tree'.nodes[id.toNat]? = some node ∧ Best tree'.nodes (tipSnapshot id node) := by
  obtain ⟨node, hnode, hmark, hstatus, hranks⟩ := hplan.best_unmarked
  obtain ⟨node', hnode', hshape⟩ := hcut.shape.node hnode
  have hwork : node'.shape.chainwork = node.shape.chainwork := congrArg BlockTreeNode.chainwork hshape
  refine ⟨node', hnode', ⟨node', hnode', rfl, ?_⟩, ?_⟩
  · show ¬ InvalidAt tree'.nodes id.toNat
    rw [hcut.invalid_iff _ node hnode]
    rintro (h | ⟨other, hother, hinvalid⟩)
    · exact hmark h
    · cases hnode.symm.trans hother
      exact hstatus hinvalid
  · intro other otherNode' hother' hvalid
    obtain ⟨otherNode, hother, hshape'⟩ := hcut.shape.symm.node hother'
    have hwork' : otherNode.shape.chainwork = otherNode'.shape.chainwork := congrArg BlockTreeNode.chainwork hshape'
    rw [hcut.invalid_iff _ otherNode hother, not_or] at hvalid
    have hbelow := hranks _ otherNode hother hvalid.1 fun hstatus => hvalid.2 ⟨otherNode, hother, hstatus⟩
    unfold Follows
    rw [show otherNode'.chainwork = otherNode.chainwork from hwork'.symm]
    show otherNode.chainwork.toNat < node'.chainwork.toNat ∨ _ = node'.chainwork.toNat ∧ _
    rw [show node'.chainwork = node.chainwork from hwork]
    exact hbelow

lemma Cut.republish (hplan : Plan tree root invalid best) (h : Inv tree) :
    ∃ tree'', republish best tree' = .ok () tree'' ∧ Advances tree tree'' ∧
      tree''.tip.map TipSnapshot.tipId = best := by
  have hlinked := hcut.shape.linked h.linked
  have hclosed := hcut.closed hplan h
  cases best with
  | none =>
    refine ⟨tree', rfl, ⟨⟨hlinked, hclosed, ?_, hcut.index⟩, hcut.shape.extends⟩, by rw [hcut.tip_eq]; rfl⟩
    rw [hcut.tip_eq]
    intro id node' hnode'
    obtain ⟨node, hnode, _⟩ := hcut.shape.symm.node hnode'
    exact (hcut.invalid_iff _ node hnode).mpr (hplan.best_unmarked _ node hnode)
  | some id =>
    obtain ⟨node, hnode, hbest⟩ := hcut.best_of_plan hplan
    have hnone : ∀ tip, tree'.tip = some tip → SnapshotOf tree'.nodes tip := by
      intro tip htip
      cases hcut.tip_eq.symm.trans htip
    rcases publishTipIfBest_cases hlinked hcut.index hnone hnode with ⟨hout, _⟩ | ⟨_, demoted, tree'', hrun, hpublished⟩
    · rcases hout with hinvalid | ⟨tip, htip, _⟩
      · obtain ⟨_, _, _, hvalid⟩ := hbest.snapshot
        exact absurd hinvalid hvalid
      · cases hcut.tip_eq.symm.trans htip
    · have hinv := hpublished.inv hlinked hclosed hbest
      refine ⟨tree'', ?_, ⟨hinv, (hcut.shape.trans hpublished.kept.shape).extends⟩, ?_⟩
      · unfold BlockTree.republish
        dsimp only
        rw [bind_ok hrun]
        rfl
      · rw [hpublished.tip_eq]
        rfl

end

lemma invalidateSubtree_ok (h : Inv tree) (hrun : tree.invalidationPlan root = .ok (invalid, best)) :
    ∃ outcome tree', invalidateSubtree root tree = .ok outcome tree' ∧ Advances tree tree' ∧
      tree'.tip.map TipSnapshot.tipId = best := by
  have hplan := invalidationPlan_ok h.linked hrun
  obtain ⟨demoted, nodes, hdemote, hkept⟩ := demoteBeside_kept tree invalid best h.snapshot
  obtain ⟨tree', hpublish, hadvances, htip⟩ := (cut_withoutInvalid hkept).republish hplan h
  refine ⟨⟨invalidHashes invalid nodes, demoted⟩, tree', ?_, hadvances, htip⟩
  have hread : reading (fun tree => invalidationPlan tree root) tree = .ok (invalid, best) tree := reading_ok hrun
  have hmodify : (modify fun tree => withoutInvalid tree invalid : TreeM Unit) { tree with nodes } =
      .ok () (withoutInvalid { tree with nodes } invalid) := rfl
  unfold invalidateSubtree
  rw [bind_ok hread]
  dsimp only
  rw [bind_ok (show (get : TreeM BlockTree) tree = .ok tree tree from rfl), bind_ok hdemote,
    bind_ok (show (get : TreeM BlockTree) { tree with nodes } = .ok { tree with nodes } { tree with nodes } from rfl),
    bind_ok hmodify, bind_ok hpublish]
  rfl

lemma invalidateSubtree_error {e : ChainError} (hrun : tree.invalidationPlan root = .error e) :
    invalidateSubtree root tree = .error e tree := by
  have hread : reading (fun tree => invalidationPlan tree root) tree = .error e tree := reading_error hrun
  unfold invalidateSubtree
  rw [bind_error hread]

lemma invalidateSubtree_advances (h : Inv tree) (root : NodeId) :
    Advances tree (stateOf (invalidateSubtree root tree)) := by
  cases hrun : tree.invalidationPlan root with
  | ok plan =>
    obtain ⟨outcome, tree', heq, hadvances, _⟩ := invalidateSubtree_ok h hrun
    rw [heq]
    exact hadvances
  | error e =>
    rw [invalidateSubtree_error hrun]
    exact .refl h

end BlockTree

inductive TreeOp
  | insertHeader (header : Header) (status : NodeStatus)
  | insertHeaderWithHash (header : Header) (hash : Hash256) (status : NodeStatus)
  | insertNode (parent : Option NodeId) (header : Header) (status : NodeStatus)
  | invalidateSubtree (root : NodeId)

namespace BlockTree

section

variable (computeHash : Header → Hash256)

def apply (tree : BlockTree) : TreeOp → BlockTree
  | .insertHeader header status => stateOf (insertHeader computeHash header status tree)
  | .insertHeaderWithHash header hash status => stateOf (insertHeaderWithHash header hash status tree)
  | .insertNode parent header status => stateOf (insertNode computeHash parent header status tree)
  | .invalidateSubtree root => stateOf (invalidateSubtree root tree)

def run (ops : List TreeOp) : BlockTree := ops.foldl (apply computeHash) new

end

variable {tree : BlockTree} (computeHash : Header → Hash256)

lemma apply_advances (h : Inv tree) (op : TreeOp) : Advances tree (apply computeHash tree op) := by
  cases op with
  | insertHeader header status => exact insertHeader_advances h
  | insertHeaderWithHash header hash status => exact insertHeaderWithHash_advances h
  | insertNode parent header status => exact insertNode_advances h
  | invalidateSubtree root => exact invalidateSubtree_advances h root

variable (ops : List TreeOp)

lemma foldl_advances (h : Inv tree) : Advances tree (ops.foldl (apply computeHash) tree) := by
  induction ops generalizing tree with
  | nil => exact .refl h
  | cons op ops ih =>
    have hstep := apply_advances computeHash h op
    exact hstep.trans (ih hstep.inv)

lemma inv_run : Inv (run computeHash ops) := (foldl_advances computeHash ops inv_new).inv

lemma shapes_kept (ops more : List TreeOp) :
    Extends (run computeHash ops).nodes (run computeHash (ops ++ more)).nodes := by
  unfold run
  rw [foldl_append]
  exact (foldl_advances computeHash more (inv_run computeHash ops)).extends_nodes

end BlockTree

lemma PathTo.descendant {path : List NodeId} {id entry : NodeId} (h : PathTo nodes path id) (hentry : entry ∈ path) :
    Descendant nodes entry.toNat id.toNat := by
  induction h with
  | root _ _ =>
    rw [mem_singleton.mp hentry]
    exact .refl
  | child hpath hnode hparent ih =>
    rcases mem_append.mp hentry with hentry | hentry
    · exact (ih hentry).tail ⟨_, _, hnode, hparent, rfl⟩
    · rw [mem_singleton.mp hentry]
      exact .refl

namespace BlockTree

section

variable (tree : BlockTree)

def TipIsBest : Option TipSnapshot → Prop
  | none => ∀ id node, tree.node id = .ok node → node.status = .invalid
  | some tip => ∃ node, tree.node tip.tipId = .ok node ∧ tip = tipSnapshot tip.tipId node ∧ node.status ≠ .invalid ∧
      ∀ id other, tree.node id = .ok other → other.status ≠ .invalid →
        other.chainwork < node.chainwork ∨ other.chainwork = node.chainwork ∧ tip.tipId ≤ id

def IndexIsChain (tip : TipSnapshot) : Prop :=
  tree.activeByHeight.entries.length = tip.height.toNat + 1 ∧
    ∀ height ≤ tip.height, ∃ id node, tree.activeByHeight.get height = some id ∧ tree.node id = .ok node ∧
      node.height = height ∧ Descendant tree.nodes id.toNat tip.tipId.toNat

def InvalidationAgrees (root : NodeId) : Prop :=
  match tree.tipAfterInvalidation root with
  | .ok best => ∃ outcome tree', invalidateSubtree root tree = .ok outcome tree' ∧
      tree'.tip.map TipSnapshot.tipId = best
  | .error e => invalidateSubtree root tree = .error e tree

end

structure Sound (tree : BlockTree) : Prop where
  parent : ∀ (i : ℕ) (node : BlockTreeNode) (id : NodeId), tree.nodes[i]? = some node → node.parent = some id →
    ∃ above, tree.node id = .ok above ∧ node.height.toNat = above.height.toNat + 1 ∧
      node.chainwork.toNat = above.chainwork.toNat + (blockWork node.header).toNat
  invalid_descendant : ∀ i j, Descendant tree.nodes i j → InvalidAt tree.nodes i → InvalidAt tree.nodes j
  tip : TipIsBest tree tree.tip
  index : tree.activeByHeight.isTrusted → ∃ tip, tree.tip = some tip ∧ IndexIsChain tree tip
  trusted : tree.tip.isSome → tree.activeByHeight.isTrusted
  invalidation : ∀ root, InvalidationAgrees tree root

variable {tree : BlockTree}

section

variable (h : Inv tree)

include h

lemma Inv.tipIsBest : TipIsBest tree tree.tip := by
  have htip := h.tip
  cases hcase : tree.tip with
  | none =>
    rw [hcase] at htip
    intro id node hnode
    have hnode' := nodes_of_node hnode
    exact (invalidAt_iff hnode').mp (htip id node hnode')
  | some tip =>
    rw [hcase] at htip
    obtain ⟨node, hnode, heq, hvalid⟩ := htip.snapshot
    refine ⟨node, node_eq hnode, heq, fun hstatus => hvalid ((invalidAt_iff hnode).mpr hstatus), ?_⟩
    intro id other hother hstatus
    have hother' := nodes_of_node hother
    have hfollows := htip.follows id other hother' fun hinvalid => hstatus ((invalidAt_iff hother').mp hinvalid)
    have hwork : tip.chainwork = node.chainwork := congrArg TipSnapshot.chainwork heq
    unfold Follows at hfollows
    rw [hwork] at hfollows
    rcases hfollows with hless | ⟨hsame, hle⟩
    · exact .inl hless
    · exact .inr ⟨BitVec.eq_of_toNat_eq hsame, hle⟩

lemma Inv.indexIsChain (htrusted : tree.activeByHeight.isTrusted) :
    ∃ tip, tree.tip = some tip ∧ IndexIsChain tree tip := by
  have hindex := h.index
  unfold IndexOk at hindex
  split at hindex
  · rw [hindex] at htrusted
    cases htrusted
  · rename_i tip htip
    obtain ⟨node, hnode, heq, _⟩ := h.snapshot tip htip
    have hheight : tip.height = node.height := congrArg TipSnapshot.height heq
    have hlen : tree.activeByHeight.entries.length = tip.height.toNat + 1 := by
      rw [hheight]
      exact hindex.2.length_eq h.linked hnode
    refine ⟨tip, htip, hlen, ?_⟩
    intro height hle
    have hlt : height.toNat < tree.activeByHeight.entries.length := by
      rw [hlen]
      exact Nat.lt_succ_of_le hle
    have hentry := getElem?_eq_getElem hlt
    obtain ⟨entryNode, hentryNode, hoffset⟩ := hindex.2.heights h.linked hentry
    exact ⟨_, entryNode, hentry, node_eq hentryNode, UInt32.toNat_inj.mp hoffset, hindex.2.descendant (getElem_mem hlt)⟩

lemma Inv.invalidationAgrees (root : NodeId) : InvalidationAgrees tree root := by
  unfold InvalidationAgrees tipAfterInvalidation
  cases hrun : tree.invalidationPlan root with
  | ok plan =>
    obtain ⟨outcome, tree', heq, _, htip⟩ := invalidateSubtree_ok h hrun
    exact ⟨outcome, tree', heq, htip⟩
  | error e => exact invalidateSubtree_error hrun

lemma Inv.sound : Sound tree where
  parent i node id hnode hparent := by
    obtain ⟨above, habove, _, hheight, hwork⟩ := h.linked.parent i node id hnode hparent
    exact ⟨above, node_eq habove, hheight, hwork⟩
  invalid_descendant i j := h.closed.descendant
  tip := h.tipIsBest
  index := h.indexIsChain
  trusted hsome := by
    have hindex := h.index
    unfold IndexOk at hindex
    split at hindex
    · rename_i htip
      rw [htip] at hsome
      cases hsome
    · exact hindex.1
  invalidation := h.invalidationAgrees

end

/-- Every tree reached by insertions and invalidations is sound, and a node keeps the place of its insertion. -/
theorem run_sound (computeHash : Header → Hash256) (ops : List TreeOp) :
    Sound (run computeHash ops) ∧
      ∀ more, Extends (run computeHash ops).nodes (run computeHash (ops ++ more)).nodes :=
  ⟨(inv_run computeHash ops).sound, shapes_kept computeHash ops⟩

end BlockTree

end BitcoinRs.Chain

namespace BitcoinRs.Chain.BlockTree

open Stateful

def CacheWithin (tree tree' : BlockTree) : Prop := tree'.bip9Cache ⊆ tree.bip9Cache

lemma CacheWithin.refl (tree : BlockTree) : CacheWithin tree tree := List.Subset.refl _

lemma CacheWithin.trans {tree tree' tree'' : BlockTree} (h : CacheWithin tree tree')
    (h' : CacheWithin tree' tree'') : CacheWithin tree tree'' := List.Subset.trans h' h

variable (id : NodeId) (parent : Option NodeId)

lemma setStatus_cache (status : NodeStatus) : Steps CacheWithin (setStatus id status) := by
  intro tree
  unfold setStatus
  split_ifs <;> exact CacheWithin.refl tree

lemma storeTip_cache : Steps CacheWithin (storeTip id) :=
  .bind .trans (.reading .refl _) fun _ => .modify fun tree => CacheWithin.refl tree

variable (oldTip : Option TipSnapshot)

lemma demoteTip_cache : Steps CacheWithin (demoteTip id parent oldTip) := by
  cases oldTip with
  | none => exact .pure .refl _
  | some oldTip =>
    unfold demoteTip
    dsimp only
    split_ifs
    · exact .pure .refl _
    · exact .bind .trans (.get .refl) fun _ => .bind .trans (setStatus_cache _ _) fun _ => .pure .refl _

lemma publishTip_cache : Steps CacheWithin (publishTip id parent oldTip) := by
  refine .bind .trans (demoteTip_cache id parent oldTip) fun _ => .bind .trans (setStatus_cache _ _) fun _ => ?_
  refine .bind .trans (storeTip_cache id) fun _ => .bind .trans (.modify fun tree => ?_) fun _ => .pure .refl _
  exact CacheWithin.refl tree

lemma publishTipIfBest_cache : Steps CacheWithin (publishTipIfBest id) := by
  refine .bind .trans (.reading .refl _) fun node => .bind .trans (.get .refl) fun tree => ?_
  dsimp only
  split_ifs
  · exact .pure .refl _
  · exact publishTip_cache id _ _

lemma pushNode_cache (node : BlockTreeNode) : Steps CacheWithin (pushNode node) := by
  intro tree
  unfold pushNode
  dsimp only
  split_ifs <;> exact CacheWithin.refl tree

lemma insertNodeWithHash_cache (header : Header) (hash : Hash256) (status : NodeStatus) :
    Steps CacheWithin (insertNodeWithHash parent header hash status) :=
  .bind .trans (.reading .refl _) fun _ => .bind .trans (pushNode_cache _) fun _ =>
    .bind .trans (publishTipIfBest_cache _) fun _ => .pure .refl _

lemma insertHeaderWithHash_cache (header : Header) (hash : Hash256) (status : NodeStatus) :
    Steps CacheWithin (insertHeaderWithHash header hash status) :=
  .bind .trans (.reading .refl _) fun _ => insertNodeWithHash_cache _ _ _ _

lemma demoteBeside_cache (invalid : List Bool) (oldTip : Option TipSnapshot) (best : Option NodeId) :
    Steps CacheWithin (demoteBeside invalid oldTip best) := by
  cases oldTip with
  | none => exact .pure .refl _
  | some oldTip =>
    cases best with
    | none => exact .pure .refl _
    | some best =>
      unfold demoteBeside
      dsimp only
      split_ifs
      · exact .pure .refl _
      · exact .bind .trans (.get .refl) fun _ => .bind .trans (setStatus_cache _ _) fun _ => .pure .refl _

lemma republish_cache (best : Option NodeId) : Steps CacheWithin (republish best) := by
  cases best with
  | none => exact .pure .refl _
  | some best => exact .bind .trans (publishTipIfBest_cache best) fun _ => .pure .refl _

lemma invalidateSubtree_cache (root : NodeId) : Steps CacheWithin (invalidateSubtree root) := by
  refine .bind .trans (.reading .refl _) fun plan => .bind .trans (.get .refl) fun tree => ?_
  refine .bind .trans (demoteBeside_cache _ _ _) fun _ => .bind .trans (.get .refl) fun _ => ?_
  refine .bind .trans (.modify fun tree => ?_) fun _ => .bind .trans (republish_cache _) fun _ => .pure .refl _
  exact fun entry hmem => (List.mem_filter.mp hmem).1

lemma apply_cache (computeHash : Header → Hash256) (tree : BlockTree) (op : TreeOp) :
    CacheWithin tree (apply computeHash tree op) := by
  cases op with
  | insertHeader header status =>
    exact Steps.bind .trans (insertHeaderWithHash_cache _ _ _) (fun _ => .pure .refl _) tree
  | insertHeaderWithHash header hash status => exact insertHeaderWithHash_cache _ _ _ tree
  | insertNode parent header status =>
    exact Steps.bind .trans (insertNodeWithHash_cache _ _ _ _) (fun _ => .pure .refl _) tree
  | invalidateSubtree root => exact invalidateSubtree_cache root tree

end BitcoinRs.Chain.BlockTree
