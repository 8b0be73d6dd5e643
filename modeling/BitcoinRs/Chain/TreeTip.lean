import BitcoinRs.Chain.Tree

namespace BitcoinRs.Chain

open List

structure Linked (nodes : List BlockTreeNode) : Prop where
  parent : ∀ (i : ℕ) (node : BlockTreeNode) (id : NodeId), nodes[i]? = some node → node.parent = some id →
    ∃ above, nodes[id.toNat]? = some above ∧ id.toNat < i ∧ node.height.toNat = above.height.toNat + 1 ∧
      node.chainwork.toNat = above.chainwork.toNat + (blockWork node.header).toNat
  root : ∀ (i : ℕ) (node : BlockTreeNode), nodes[i]? = some node → node.parent = none →
    node.height = 0 ∧ node.chainwork = blockWork node.header

lemma exists_succ_of_lt {n fuel : ℕ} (h : n < fuel) : ∃ rest, fuel = rest + 1 :=
  Nat.exists_eq_succ_of_ne_zero (Nat.ne_of_gt (Nat.zero_lt_of_lt h))

inductive PathTo (nodes : List BlockTreeNode) : List NodeId → NodeId → Prop
  | root {id : NodeId} {node : BlockTreeNode} (hnode : nodes[id.toNat]? = some node)
      (hparent : node.parent = none) : PathTo nodes [id] id
  | child {path : List NodeId} {above id : NodeId} {node : BlockTreeNode} (hpath : PathTo nodes path above)
      (hnode : nodes[id.toNat]? = some node) (hparent : node.parent = some above) : PathTo nodes (path ++ [id]) id

namespace PathTo

variable {nodes : List BlockTreeNode} {path : List NodeId} {id : NodeId}

lemma ends_at (h : PathTo nodes path id) : path.getLast? = some id := by
  cases h with
  | root _ _ => rfl
  | child _ _ _ => exact getLast?_concat

lemma exists_node (h : PathTo nodes path id) : ∃ node, nodes[id.toNat]? = some node := by
  cases h with
  | root hnode _ => exact ⟨_, hnode⟩
  | child _ hnode _ => exact ⟨_, hnode⟩

lemma length_eq (hlinked : Linked nodes) (h : PathTo nodes path id) {node : BlockTreeNode}
    (hnode : nodes[id.toNat]? = some node) : path.length = node.height.toNat + 1 := by
  induction h generalizing node with
  | root hnode' hparent =>
    cases hnode.symm.trans hnode'
    rw [(hlinked.root _ _ hnode hparent).1]
    rfl
  | child _ hnode' hparent ih =>
    cases hnode.symm.trans hnode'
    obtain ⟨above, habove, _, hheight, _⟩ := hlinked.parent _ _ _ hnode hparent
    rw [length_append, ih habove, length_singleton, hheight]

lemma heights (hlinked : Linked nodes) (h : PathTo nodes path id) {offset : ℕ} {entry : NodeId}
    (hentry : path[offset]? = some entry) :
    ∃ node, nodes[entry.toNat]? = some node ∧ node.height.toNat = offset := by
  induction h with
  | root hnode hparent =>
    obtain ⟨hlt, rfl⟩ := List.getElem?_eq_some_iff.mp hentry
    have hzero : offset = 0 := by simpa using hlt
    subst hzero
    refine ⟨_, hnode, ?_⟩
    rw [(hlinked.root _ _ hnode hparent).1]
    rfl
  | child hpath hnode hparent ih =>
    obtain ⟨above, habove, _, hheight, _⟩ := hlinked.parent _ _ _ hnode hparent
    have hlen := hpath.length_eq hlinked habove
    rw [getElem?_append] at hentry
    split at hentry
    · exact ih hentry
    · obtain ⟨hlt, rfl⟩ := List.getElem?_eq_some_iff.mp hentry
      refine ⟨_, by simpa using hnode, ?_⟩
      rw [length_singleton] at hlt
      omega

end PathTo

lemma Linked.exists_path {nodes : List BlockTreeNode} (hlinked : Linked nodes) (id : NodeId) {node : BlockTreeNode}
    (hnode : nodes[id.toNat]? = some node) : ∃ path, PathTo nodes path id := by
  induction hn : id.toNat using Nat.strong_induction_on generalizing id node with
  | _ n ih =>
    cases hparent : node.parent with
    | none => exact ⟨[id], .root hnode hparent⟩
    | some above =>
      obtain ⟨aboveNode, habove, hlt, _⟩ := hlinked.parent _ _ _ hnode hparent
      obtain ⟨path, hpath⟩ := ih above.toNat (hn ▸ hlt) above habove rfl
      exact ⟨path ++ [id], .child hpath hnode hparent⟩

namespace BlockTree

variable {tree : BlockTree} {path : List NodeId} {tipId : NodeId} (hlinked : Linked tree.nodes)

include hlinked

variable (hpath : PathTo tree.nodes path tipId)

include hpath

lemma rebuildLoop_eq {fuel : ℕ}
    {seen : List NodeId} (hseen : ∀ id ∈ seen, tipId.toNat < id.toNat) (hfuel : tipId.toNat < fuel) :
    tree.rebuildLoop fuel (some tipId) seen = some path.reverse := by
  -- the parents' indexes fall, so no node is seen twice
  induction hpath generalizing fuel seen with
  | @root id node hnode hparent =>
    obtain ⟨fuel, rfl⟩ := exists_succ_of_lt hfuel
    have hfresh : id ∉ seen := fun hmem => Nat.lt_irrefl _ (hseen id hmem)
    unfold rebuildLoop
    rw [if_neg hfresh, hnode]
    simp only [hparent]
    unfold rebuildLoop
    rfl
  | @child path above id node hpath hnode hparent ih =>
    obtain ⟨fuel, rfl⟩ := exists_succ_of_lt hfuel
    have hfresh : id ∉ seen := fun hmem => Nat.lt_irrefl _ (hseen id hmem)
    obtain ⟨_, _, hlt, _⟩ := hlinked.parent _ _ _ hnode hparent
    have hrest : tree.rebuildLoop fuel (some above) (id :: seen) = some path.reverse := by
      apply ih
      · intro other hother
        rcases mem_cons.mp hother with rfl | hother
        · exact hlt
        · exact Nat.lt_trans hlt (hseen other hother)
      · omega
    unfold rebuildLoop
    rw [if_neg hfresh, hnode]
    simp [hparent, hrest]

lemma rebuiltIndex_eq : tree.rebuiltIndex tipId = ⟨path, .trusted⟩ := by
  obtain ⟨node, hnode⟩ := hpath.exists_node
  have hlt := (List.getElem?_eq_some_iff.mp hnode).1
  unfold rebuiltIndex
  rw [rebuildLoop_eq hlinked hpath (fun _ h => absurd h not_mem_nil) (by omega)]
  simp only [reverse_reverse]
  rw [if_pos]
  · rfl
  · rw [all_eq_true]
    rintro ⟨entry, offset⟩ hmem
    obtain ⟨node, hnode, hheight⟩ := hpath.heights hlinked (mem_zipIdx_iff_getElem?.mp hmem)
    simp [heightIs, hnode, hheight]

lemma refreshedIndex_eq
    (htrust : tree.activeByHeight.isTrusted → ∃ last, PathTo tree.nodes tree.activeByHeight.entries last) :
    ∃ path, tree.refreshedIndex tipId = ⟨path, .trusted⟩ ∧ PathTo tree.nodes path tipId := by
  obtain ⟨node, hnode⟩ := hpath.exists_node
  unfold refreshedIndex
  rw [hnode]
  dsimp only
  cases hextend : node.parent.bind fun parent => tree.activeByHeight.extendValidated parent node.height tipId with
  | none => exact ⟨path, rebuiltIndex_eq hlinked hpath, hpath⟩
  | some extended =>
    obtain ⟨above, hparent, hextend⟩ := Option.bind_eq_some_iff.mp hextend
    unfold ActiveHeightIndex.extendValidated at hextend
    split at hextend
    · rename_i hguard
      simp only [Bool.and_eq_true, decide_eq_true_eq] at hguard
      obtain ⟨⟨htrusted, hlast⟩, _⟩ := hguard
      obtain ⟨last, hold⟩ := htrust htrusted
      have hsame : last = above := Option.some.inj (hold.ends_at.symm.trans hlast)
      subst hsame
      cases hextend
      refine ⟨tree.activeByHeight.entries ++ [tipId], ?_, .child hold hnode hparent⟩
      rw [ActiveHeightIndex.isTrusted, decide_eq_true_eq] at htrusted
      rw [htrusted]
    · cases hextend

end BlockTree

def InvalidAt (nodes : List BlockTreeNode) (i : ℕ) : Prop := ∃ node, nodes[i]? = some node ∧ node.status = .invalid

variable {nodes : List BlockTreeNode}

lemma invalidAt_iff {i : ℕ} {node : BlockTreeNode} (hnode : nodes[i]? = some node) :
    InvalidAt nodes i ↔ node.status = .invalid := by
  constructor
  · rintro ⟨other, hother, hstatus⟩
    cases hnode.symm.trans hother
    exact hstatus
  · exact fun hstatus => ⟨node, hnode, hstatus⟩

def BlockTreeNode.shape (node : BlockTreeNode) : BlockTreeNode := { node with status := .headerValid }

variable {nodes' : List BlockTreeNode}

lemma PathTo.of_shapes {path : List NodeId} {id : NodeId}
    (hpath : PathTo nodes path id) (hnodes : ∀ {i : ℕ} {node : BlockTreeNode}, nodes[i]? = some node →
      ∃ node', nodes'[i]? = some node' ∧ node'.shape = node.shape) : PathTo nodes' path id := by
  induction hpath with
  | root hnode hparent =>
    obtain ⟨node', hnode', hshape⟩ := hnodes hnode
    exact .root hnode' ((congrArg BlockTreeNode.parent hshape).trans hparent)
  | child _ hnode hparent ih =>
    obtain ⟨node', hnode', hshape⟩ := hnodes hnode
    exact .child ih hnode' ((congrArg BlockTreeNode.parent hshape).trans hparent)

def SameShape (nodes nodes' : List BlockTreeNode) : Prop :=
  nodes'.map BlockTreeNode.shape = nodes.map BlockTreeNode.shape

namespace SameShape

variable {nodes'' : List BlockTreeNode}

section

variable (h : SameShape nodes nodes')

include h

lemma symm : SameShape nodes' nodes := Eq.symm h

lemma trans (h' : SameShape nodes' nodes'') : SameShape nodes nodes'' := Eq.trans h' h

lemma node {i : ℕ} {node : BlockTreeNode} (hnode : nodes[i]? = some node) :
    ∃ node', nodes'[i]? = some node' ∧ node'.shape = node.shape := by
  have hget := congrArg (fun l : List BlockTreeNode => l[i]?) h
  simp only [getElem?_map, hnode, Option.map_some] at hget
  obtain ⟨node', hnode', hshape⟩ := Option.map_eq_some_iff.mp hget
  exact ⟨node', hnode', hshape⟩

lemma linked (hlinked : Linked nodes) : Linked nodes' := by
  constructor
  · intro i node' id hnode' hparent
    obtain ⟨node, hnode, hshape⟩ := h.symm.node hnode'
    cases node
    cases hshape
    obtain ⟨above, habove, hlt, hheight, hwork⟩ := hlinked.parent _ _ _ hnode hparent
    obtain ⟨above', habove', hshape'⟩ := h.node habove
    cases above
    cases hshape'
    exact ⟨_, habove', hlt, hheight, hwork⟩
  · intro i node' hnode' hparent
    obtain ⟨node, hnode, hshape⟩ := h.symm.node hnode'
    cases node
    cases hshape
    have hroot := hlinked.root _ _ hnode hparent
    exact hroot

lemma path {path : List NodeId} {id : NodeId} (hpath : PathTo nodes path id) : PathTo nodes' path id :=
  hpath.of_shapes h.node

end

end SameShape

structure Kept (nodes nodes' : List BlockTreeNode) : Prop where
  shape : SameShape nodes nodes'
  invalid : ∀ i, InvalidAt nodes' i ↔ InvalidAt nodes i

lemma Kept.refl (nodes : List BlockTreeNode) : Kept nodes nodes := ⟨rfl, fun _ => Iff.rfl⟩

lemma Kept.trans {nodes nodes' nodes'' : List BlockTreeNode} (h : Kept nodes nodes') (h' : Kept nodes' nodes'') :
    Kept nodes nodes'' :=
  ⟨h.shape.trans h'.shape, fun i => (h'.invalid i).trans (h.invalid i)⟩

lemma kept_modify {i : ℕ} {status : NodeStatus} (hvalid : ¬ InvalidAt nodes i)
    (hstatus : status ≠ .invalid) : Kept nodes (nodes.modify i fun node => { node with status }) := by
  constructor
  · apply ext_getElem?
    intro j
    rw [getElem?_map, getElem?_map, getElem?_modify]
    by_cases hij : i = j
    · cases nodes[j]? <;> simp [hij, BlockTreeNode.shape]
    · simp [hij]
  · intro j
    unfold InvalidAt
    rw [getElem?_modify]
    by_cases hij : i = j
    · subst hij
      constructor
      · rintro ⟨node, hnode, hinvalid⟩
        obtain ⟨old, _, rfl⟩ := Option.map_eq_some_iff.mp hnode
        simp only [if_true] at hinvalid
        exact absurd hinvalid hstatus
      · exact fun h => absurd h hvalid
    · simp [hij]

def SnapshotOf (nodes : List BlockTreeNode) (tip : TipSnapshot) : Prop :=
  ∃ node, nodes[tip.tipId.toNat]? = some node ∧ tip = BlockTree.tipSnapshot tip.tipId node ∧
    ¬ InvalidAt nodes tip.tipId.toNat

lemma SnapshotOf.kept {tip : TipSnapshot} (h : SnapshotOf nodes tip)
    (hkept : Kept nodes nodes') : SnapshotOf nodes' tip := by
  obtain ⟨node, hnode, htip, hvalid⟩ := h
  obtain ⟨node', hnode', hshape⟩ := hkept.shape.node hnode
  refine ⟨node', hnode', ?_, fun hinvalid => hvalid ((hkept.invalid _).mp hinvalid)⟩
  rw [htip]
  cases node
  cases hshape
  rfl

def IndexOk (tree : BlockTree) : Prop :=
  match tree.tip with
  | none => tree.activeByHeight.isTrusted = false
  | some tip => tree.activeByHeight.isTrusted ∧ PathTo tree.nodes tree.activeByHeight.entries tip.tipId

lemma IndexOk.trusted_path {tree : BlockTree} (h : IndexOk tree) (htrusted : tree.activeByHeight.isTrusted) :
    ∃ last, PathTo tree.nodes tree.activeByHeight.entries last := by
  unfold IndexOk at h
  split at h
  · rw [h] at htrusted
    cases htrusted
  · exact ⟨_, h.2⟩

namespace BlockTree

open Stateful

variable {tree : BlockTree} {id : NodeId} {node : BlockTreeNode}

lemma node_eq (hnode : tree.nodes[id.toNat]? = some node) : tree.node id = .ok node := by
  unfold BlockTree.node
  rw [hnode]

lemma readNode_eq (tree : BlockTree) (hnode : tree.nodes[id.toNat]? = some node) : readNode id tree = .ok node tree :=
  reading_ok (node_eq hnode)

lemma nodes_of_node (h : tree.node id = .ok node) : tree.nodes[id.toNat]? = some node := by
  unfold BlockTree.node at h
  split at h
  · rename_i hnode
    cases h
    exact hnode
  · cases h

lemma setStatus_kept (tree : BlockTree) (status : NodeStatus) (hnode : tree.nodes[id.toNat]? = some node)
    (hvalid : ¬ InvalidAt tree.nodes id.toNat) (hstatus : status ≠ .invalid) :
    ∃ nodes, setStatus id status tree = .ok () { tree with nodes } ∧ Kept tree.nodes nodes := by
  refine ⟨_, ?_, kept_modify hvalid hstatus⟩
  unfold setStatus
  rw [if_pos (List.getElem?_eq_some_iff.mp hnode).1]

lemma demoteTip_kept (tree : BlockTree) (id : NodeId) (parent : Option NodeId) {oldTip : Option TipSnapshot}
    (htip : ∀ tip, oldTip = some tip → SnapshotOf tree.nodes tip) :
    ∃ demoted nodes, demoteTip id parent oldTip tree = .ok demoted { tree with nodes } ∧ Kept tree.nodes nodes := by
  cases oldTip with
  | none => exact ⟨none, tree.nodes, rfl, .refl _⟩
  | some oldTip =>
    unfold demoteTip
    dsimp only
    split
    · exact ⟨none, tree.nodes, rfl, .refl _⟩
    · obtain ⟨oldNode, holdNode, _, hvalid⟩ := htip oldTip rfl
      obtain ⟨nodes, hset, hkept⟩ := setStatus_kept tree .stale holdNode hvalid (by decide)
      rw [bind_ok (show (get : TreeM BlockTree) tree = .ok tree tree from rfl), bind_ok hset]
      exact ⟨_, nodes, rfl, hkept⟩

structure Published (tree : BlockTree) (id : NodeId) (node : BlockTreeNode) (tree' : BlockTree) : Prop where
  kept : Kept tree.nodes tree'.nodes
  tip_eq : tree'.tip = some (tipSnapshot id node)
  index : IndexOk tree'

lemma publishTip_published (parent : Option NodeId) (hlinked : Linked tree.nodes) (hindex : IndexOk tree)
    (htip : ∀ tip, tree.tip = some tip → SnapshotOf tree.nodes tip)
    (hnode : tree.nodes[id.toNat]? = some node) (hvalid : ¬ InvalidAt tree.nodes id.toNat) :
    ∃ demoted tree', publishTip id parent tree.tip tree = .ok demoted tree' ∧ Published tree id node tree' := by
  obtain ⟨demoted, nodes₁, hdemote, hkept₁⟩ := demoteTip_kept tree id parent htip
  obtain ⟨node₁, hnode₁, _⟩ := hkept₁.shape.node hnode
  have hvalid₁ : ¬ InvalidAt nodes₁ id.toNat := fun h => hvalid ((hkept₁.invalid _).mp h)
  obtain ⟨nodes₂, hset, hkept₂⟩ := setStatus_kept { tree with nodes := nodes₁ } .active hnode₁ hvalid₁ (by decide)
  have hkept := hkept₁.trans hkept₂
  obtain ⟨node₂, hnode₂, hshape₂⟩ := hkept.shape.node hnode
  have hsnapshot : tipSnapshot id node₂ = tipSnapshot id node := by
    cases node
    cases hshape₂
    rfl
  let tree₃ : BlockTree := { tree with nodes := nodes₂, tip := some (tipSnapshot id node₂) }
  have hstore : storeTip id { tree with nodes := nodes₂ } = .ok () tree₃ := by
    unfold storeTip
    rw [bind_ok (readNode_eq _ hnode₂)]
    rfl
  have hlinked₂ : Linked tree₃.nodes := hkept.shape.linked hlinked
  obtain ⟨path, hpath⟩ := hlinked₂.exists_path id hnode₂
  have htrust : tree₃.activeByHeight.isTrusted → ∃ last, PathTo tree₃.nodes tree₃.activeByHeight.entries last := by
    intro htrusted
    obtain ⟨last, hlast⟩ := hindex.trusted_path htrusted
    exact ⟨last, hkept.shape.path hlast⟩
  obtain ⟨path', hrefresh, hpath'⟩ := refreshedIndex_eq hlinked₂ hpath htrust
  refine ⟨demoted, { tree₃ with activeByHeight := ⟨path', .trusted⟩ }, ?_, hkept, ?_, ?_⟩
  · unfold publishTip
    rw [bind_ok hdemote, bind_ok hset, bind_ok hstore, ← hrefresh]
    rfl
  · exact congrArg some hsnapshot
  · exact ⟨rfl, hpath'⟩

def Outranked (tree : BlockTree) (id : NodeId) (node : BlockTreeNode) : Prop :=
  InvalidAt tree.nodes id.toNat ∨ ∃ tip, tree.tip = some tip ∧ node.chainwork ≤ tip.chainwork

lemma publishTipIfBest_cases (hlinked : Linked tree.nodes) (hindex : IndexOk tree)
    (htip : ∀ tip, tree.tip = some tip → SnapshotOf tree.nodes tip) (hnode : tree.nodes[id.toNat]? = some node) :
    (Outranked tree id node ∧ publishTipIfBest id tree = .ok none tree) ∨
      ¬ Outranked tree id node ∧
        ∃ demoted tree', publishTipIfBest id tree = .ok demoted tree' ∧ Published tree id node tree' := by
  have hguard : (decide (node.status = .invalid) || tree.tip.any fun tip => decide (node.chainwork ≤ tip.chainwork)) ↔
      Outranked tree id node := by
    rw [Bool.or_eq_true, Outranked, invalidAt_iff hnode, Option.any_eq_true]
    simp
  unfold publishTipIfBest
  rw [bind_ok (readNode_eq _ hnode), bind_ok (show (get : TreeM BlockTree) tree = .ok tree tree from rfl)]
  by_cases hout : Outranked tree id node
  · rw [if_pos (hguard.mpr hout)]
    exact .inl ⟨hout, rfl⟩
  · rw [if_neg (fun h => hout (hguard.mp h))]
    exact .inr ⟨hout, publishTip_published node.parent hlinked hindex htip hnode fun h => hout (.inl h)⟩

end BlockTree

open BlockTreeNode

def Follows (tip : TipSnapshot) (id : NodeId) (node : BlockTreeNode) : Prop :=
  node.chainwork.toNat < tip.chainwork.toNat ∨
    node.chainwork.toNat = tip.chainwork.toNat ∧ tip.tipId.toNat ≤ id.toNat

structure Best (nodes : List BlockTreeNode) (tip : TipSnapshot) : Prop where
  snapshot : SnapshotOf nodes tip
  follows : ∀ (id : NodeId) (node : BlockTreeNode), nodes[id.toNat]? = some node → ¬ InvalidAt nodes id.toNat →
    Follows tip id node

variable (nodes)

def TipOk : Option TipSnapshot → Prop
  | none => ∀ (id : NodeId) (node : BlockTreeNode), nodes[id.toNat]? = some node → InvalidAt nodes id.toNat
  | some tip => Best nodes tip

def InvalidClosed : Prop :=
  ∀ (i : ℕ) (node : BlockTreeNode) (id : NodeId), nodes[i]? = some node → node.parent = some id →
    InvalidAt nodes id.toNat → InvalidAt nodes i

namespace BlockTree

structure Inv (tree : BlockTree) : Prop where
  linked : Linked tree.nodes
  closed : InvalidClosed tree.nodes
  tip : TipOk tree.nodes tree.tip
  index : IndexOk tree

def Extends (nodes nodes' : List BlockTreeNode) : Prop :=
  nodes.map BlockTreeNode.shape <+: nodes'.map BlockTreeNode.shape

structure Advances (tree tree' : BlockTree) : Prop where
  inv : Inv tree'
  extends_nodes : Extends tree.nodes tree'.nodes

variable {tree : BlockTree}

lemma Advances.refl (h : Inv tree) : Advances tree tree := ⟨h, prefix_refl _⟩

lemma Advances.trans {tree tree' tree'' : BlockTree} (h : Advances tree tree') (h' : Advances tree' tree'') :
    Advances tree tree'' :=
  ⟨h'.inv, h.extends_nodes.trans h'.extends_nodes⟩

lemma Inv.snapshot (h : Inv tree) (tip : TipSnapshot) (htip : tree.tip = some tip) : SnapshotOf tree.nodes tip := by
  have hbest := h.tip
  rw [htip] at hbest
  exact hbest.snapshot

lemma inv_new : Inv BlockTree.new where
  linked := by
    constructor
    · intro i node id hnode
      cases hnode
    · intro i node hnode
      cases hnode
  closed i node id hnode := by cases hnode
  tip id node hnode := by cases hnode
  index := rfl

end BlockTree

variable {nodes}

lemma SameShape.extends (h : SameShape nodes nodes') : BlockTree.Extends nodes nodes' := by
  have hshape : nodes.map shape = nodes'.map shape := Eq.symm h
  exact ⟨[], by rw [append_nil, hshape]⟩

lemma Kept.closed (hkept : Kept nodes nodes') (h : InvalidClosed nodes) : InvalidClosed nodes' := by
  intro i node' id hnode' hparent hinvalid
  obtain ⟨node, hnode, hshape⟩ := hkept.shape.symm.node hnode'
  have hparent' : node.parent = some id := (congrArg parent hshape).trans hparent
  exact (hkept.invalid i).mpr (h i node id hnode hparent' ((hkept.invalid _).mp hinvalid))

lemma Kept.best {tip : TipSnapshot} (hkept : Kept nodes nodes') (h : Best nodes tip) : Best nodes' tip := by
  refine ⟨h.snapshot.kept hkept, ?_⟩
  intro id node' hnode' hvalid
  obtain ⟨node, hnode, hshape⟩ := hkept.shape.symm.node hnode'
  have hfollows := h.follows id node hnode fun hinvalid => hvalid ((hkept.invalid _).mpr hinvalid)
  have hwork : node.shape.chainwork = node'.shape.chainwork := congrArg chainwork hshape
  unfold Follows at hfollows ⊢
  rwa [show node.chainwork = node'.chainwork from hwork] at hfollows

namespace BlockTree

variable {tree : BlockTree}

lemma Published.inv {tree' : BlockTree} {id : NodeId} {node : BlockTreeNode} (h : Published tree id node tree')
    (hlinked : Linked tree.nodes) (hclosed : InvalidClosed tree.nodes)
    (hbest : Best tree.nodes (tipSnapshot id node)) : Inv tree' where
  linked := h.kept.shape.linked hlinked
  closed := h.kept.closed hclosed
  tip := by
    rw [h.tip_eq]
    exact h.kept.best hbest
  index := h.index

end BlockTree

structure Stands (nodes : List BlockTreeNode) (node : BlockTreeNode) : Prop where
  parent : ∀ id, node.parent = some id → ∃ above, nodes[id.toNat]? = some above ∧
    node.height.toNat = above.height.toNat + 1 ∧
    node.chainwork.toNat = above.chainwork.toNat + (blockWork node.header).toNat ∧
    (above.status = .invalid → node.status = .invalid)
  root : node.parent = none → node.height = 0 ∧ node.chainwork = blockWork node.header

section

variable {node other : BlockTreeNode} {i : ℕ}

lemma getElem?_concat_cases (h : (nodes ++ [node])[i]? = some other) :
    nodes[i]? = some other ∨ i = nodes.length ∧ other = node := by
  rw [getElem?_append] at h
  split at h
  · exact .inl h
  · obtain ⟨hlt, rfl⟩ := List.getElem?_eq_some_iff.mp h
    rw [length_singleton] at hlt
    exact .inr ⟨by omega, by simp⟩

lemma extends_concat : BlockTree.Extends nodes (nodes ++ [node]) := by
  unfold BlockTree.Extends
  rw [map_append]
  exact prefix_append _ _

lemma getElem?_concat_of (h : nodes[i]? = some other) : (nodes ++ [node])[i]? = some other := by
  rw [getElem?_append_left (List.getElem?_eq_some_iff.mp h).1, h]

lemma invalidAt_concat :
    InvalidAt (nodes ++ [node]) i ↔ InvalidAt nodes i ∨ i = nodes.length ∧ node.status = .invalid := by
  constructor
  · rintro ⟨other, hother, hstatus⟩
    rcases getElem?_concat_cases hother with hold | ⟨hi, rfl⟩
    · exact .inl ⟨other, hold, hstatus⟩
    · exact .inr ⟨hi, hstatus⟩
  · rintro (⟨other, hother, hstatus⟩ | ⟨rfl, hstatus⟩)
    · exact ⟨other, getElem?_concat_of hother, hstatus⟩
    · exact ⟨node, getElem?_concat_length, hstatus⟩

lemma Stands.linked (h : Stands nodes node) (hlinked : Linked nodes) : Linked (nodes ++ [node]) := by
  constructor
  · intro i other id hother hparent
    rcases getElem?_concat_cases hother with hold | ⟨rfl, rfl⟩
    · obtain ⟨above, habove, hrest⟩ := hlinked.parent _ _ _ hold hparent
      exact ⟨above, getElem?_concat_of habove, hrest⟩
    · obtain ⟨above, habove, hheight, hwork, _⟩ := h.parent id hparent
      exact ⟨above, getElem?_concat_of habove, (List.getElem?_eq_some_iff.mp habove).1, hheight, hwork⟩
  · intro i other hother hparent
    rcases getElem?_concat_cases hother with hold | ⟨rfl, rfl⟩
    · exact hlinked.root _ _ hold hparent
    · exact h.root hparent

lemma Stands.closed (h : Stands nodes node) (hlinked : Linked nodes) (hclosed : InvalidClosed nodes) :
    InvalidClosed (nodes ++ [node]) := by
  intro i other id hother hparent hinvalid
  rw [invalidAt_concat] at hinvalid ⊢
  rcases getElem?_concat_cases hother with hold | ⟨rfl, rfl⟩
  · obtain ⟨above, habove, _⟩ := hlinked.parent _ _ _ hold hparent
    have hne : id.toNat ≠ nodes.length := Nat.ne_of_lt (List.getElem?_eq_some_iff.mp habove).1
    rcases hinvalid with hinvalid | ⟨heq, _⟩
    · exact .inl (hclosed i other id hold hparent hinvalid)
    · exact absurd heq hne
  · obtain ⟨above, habove, _, _, hstatus⟩ := h.parent id hparent
    have hne : id.toNat ≠ nodes.length := Nat.ne_of_lt (List.getElem?_eq_some_iff.mp habove).1
    rcases hinvalid with ⟨above', habove', hinvalid⟩ | ⟨heq, _⟩
    · cases habove.symm.trans habove'
      exact .inr ⟨rfl, hstatus hinvalid⟩
    · exact absurd heq hne

lemma SnapshotOf.concat {tip : TipSnapshot} (h : SnapshotOf nodes tip) : SnapshotOf (nodes ++ [node]) tip := by
  obtain ⟨old, hold, htip, hvalid⟩ := h
  refine ⟨old, getElem?_concat_of hold, htip, ?_⟩
  rw [invalidAt_concat]
  rintro (hinvalid | ⟨heq, _⟩)
  · exact hvalid hinvalid
  · exact Nat.ne_of_lt (List.getElem?_eq_some_iff.mp hold).1 heq

lemma PathTo.concat {path : List NodeId} {id : NodeId} (h : PathTo nodes path id) :
    PathTo (nodes ++ [node]) path id := by
  induction h with
  | root hnode hparent => exact .root (getElem?_concat_of hnode) hparent
  | child _ hnode hparent ih => exact .child ih (getElem?_concat_of hnode) hparent

end

end BitcoinRs.Chain
