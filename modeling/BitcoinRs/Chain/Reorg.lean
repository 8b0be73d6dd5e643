import BitcoinRs.Chain.TreeQueries

namespace BitcoinRs.Chain

open Fallible List

structure ReorgPlan where
  disconnect : List NodeId
  connect : List NodeId

/-- `unfinished` is a loop that goes on after the rounds it is given. -/
inductive ReorgError
  | chain (e : ChainError)
  | noCommonAncestor (oldTip newTip : NodeId)
  | unfinished

namespace BlockTree

section

variable (tree : BlockTree) (oldTip newTip : NodeId)

def heightOf (id : NodeId) : Except ReorgError UInt32 :=
  match tree.node id with
  | .ok node => .ok node.height
  | .error e => .error (.chain e)

def parentOrNoCommon (id : NodeId) : Except ReorgError NodeId :=
  match tree.node id with
  | .ok node => node.parent.elim (.error (.noCommonAncestor oldTip newTip)) .ok
  | .error e => .error (.chain e)

/-- The first loop, and with the tips exchanged the second. -/
def descend (target : UInt32) : ℕ → NodeId → UInt32 → List NodeId → Except ReorgError (NodeId × List NodeId)
  | 0, _, _, _ => .error .unfinished
  | fuel + 1, cursor, height, passed =>
    if target < height then do
      let next ← tree.parentOrNoCommon oldTip newTip cursor
      let height ← tree.heightOf next
      descend target fuel next height (passed ++ [cursor])
    else .ok (cursor, passed)

def converge : ℕ → NodeId → NodeId → List NodeId → List NodeId → Except ReorgError (List NodeId × List NodeId)
  | 0, _, _, _, _ => .error .unfinished
  | fuel + 1, oldCursor, newCursor, disconnect, connect =>
    if oldCursor = newCursor then .ok (disconnect, connect)
    else do
      let oldNext ← tree.parentOrNoCommon oldTip newTip oldCursor
      let newNext ← tree.parentOrNoCommon oldTip newTip newCursor
      converge fuel oldNext newNext (disconnect ++ [oldCursor]) (connect ++ [newCursor])

def planReorg : Except ReorgError ReorgPlan := do
  let fuel := tree.nodes.length + 1
  let oldHeight ← tree.heightOf oldTip
  let newHeight ← tree.heightOf newTip
  let (oldCursor, disconnect) ← tree.descend oldTip newTip newHeight fuel oldTip oldHeight []
  let oldHeight ← tree.heightOf oldCursor
  let (newCursor, connect) ← tree.descend oldTip newTip oldHeight fuel newTip newHeight []
  let (disconnect, connect) ← tree.converge oldTip newTip fuel oldCursor newCursor disconnect connect
  return ⟨disconnect, connect.reverse⟩

end

variable {tree : BlockTree} (oldTip newTip : NodeId) {path other : List NodeId} {a b id : NodeId} {node : BlockTreeNode}

lemma heightOf_eq (hnode : tree.nodes[id.toNat]? = some node) : tree.heightOf id = .ok node.height := by
  rw [heightOf, node_eq hnode]

lemma parentOrNoCommon_child {above : NodeId} (hnode : tree.nodes[id.toNat]? = some node)
    (hparent : node.parent = some above) : tree.parentOrNoCommon oldTip newTip id = .ok above := by
  rw [parentOrNoCommon, node_eq hnode]
  simp [hparent]

section

variable (hlinked : Linked tree.nodes)

include hlinked

lemma descend_eq (hpath : PathTo tree.nodes path id)
    (hnode : tree.nodes[id.toNat]? = some node) (target : UInt32) {fuel : ℕ} (hfuel : path.length < fuel)
    (passed : List NodeId) :
    ∃ up, path[min target.toNat node.height.toNat]? = some up ∧
      tree.descend oldTip newTip target fuel id node.height passed =
        .ok (up, passed ++ (path.drop (min target.toNat node.height.toNat + 1)).reverse) := by
  induction hpath generalizing fuel passed node with
  | @root id node' hroot hparent =>
    obtain ⟨fuel, rfl⟩ := exists_succ_of_lt hfuel
    cases hnode.symm.trans hroot
    simp [descend, (hlinked.root _ _ hnode hparent).1]
  | @child path above id node' hpath hnode' hparent ih =>
    obtain ⟨fuel, rfl⟩ := exists_succ_of_lt hfuel
    cases hnode.symm.trans hnode'
    obtain ⟨aboveNode, habove, -, hheight, -⟩ := hlinked.parent _ _ _ hnode hparent
    have hlen := hpath.length_eq hlinked habove
    rw [length_append, length_singleton] at hfuel
    by_cases hgo : target < node'.height
    · have hlt := UInt32.lt_iff_toNat_lt.mp hgo
      obtain ⟨up, hup, hrun⟩ := ih habove (show path.length < fuel by omega) (passed ++ [id])
      rw [Nat.min_eq_left (by omega)] at hup hrun ⊢
      refine ⟨up, by rwa [getElem?_append_left (by omega)], ?_⟩
      rw [descend, if_pos hgo, parentOrNoCommon_child oldTip newTip hnode hparent, ok_bind, heightOf_eq habove,
        ok_bind, hrun,
        drop_append_of_le_length (by omega), reverse_append, append_assoc]
      rfl
    · have hle := Nat.not_lt.mp fun hlt => hgo (UInt32.lt_iff_toNat_lt.mpr hlt)
      rw [Nat.min_eq_right hle, hheight, ← hlen]
      rw [descend, if_neg hgo]
      simp

lemma ne_of_path_index (hpath : PathTo tree.nodes path id) {i j : ℕ} {x y : NodeId}
    (hx : path[i]? = some x) (hy : path[j]? = some y) (hij : i ≠ j) : x ≠ y := by
  rintro rfl
  exact hij (hpath.shared hlinked hpath hx hy).1

lemma converge_eq (ha : PathTo tree.nodes path a) (hb : PathTo tree.nodes other b)
    (hlen : path.length = other.length) {fuel : ℕ} (hfuel : path.length < fuel) (disconnect connect : List NodeId) :
    (∃ common, Parts path other (some common) ∧ tree.converge oldTip newTip fuel a b disconnect connect =
        .ok (disconnect ++ path.reverse.takeWhile (· ≠ common), connect ++ other.reverse.takeWhile (· ≠ common))) ∨
      Parts path other none ∧
        tree.converge oldTip newTip fuel a b disconnect connect = .error (.noCommonAncestor oldTip newTip) := by
  induction fuel generalizing path other a b disconnect connect with
  | zero => exact absurd hfuel (Nat.not_lt_zero _)
  | succ fuel ih =>
    by_cases hsame : a = b
    · subst hsame
      obtain rfl := ha.unique hb
      refine .inl ⟨a, ⟨path.length - 1, ha.last, ha.last, fun next hnext => ?_⟩, ?_⟩
      · rw [getElem?_eq_none (by omega)] at hnext
        cases hnext
      · obtain ⟨front, rfl⟩ := getLast?_eq_some_iff.mp ha.ends_at
        simp [converge]
    · cases ha with
      | root hnode hparent =>
        cases hb with
        | root _ _ =>
          refine .inr ⟨fun hroot => hsame (Option.some.inj hroot), ?_⟩
          rw [converge, if_neg hsame, parentOrNoCommon, node_eq hnode]
          simp only [hparent, Option.elim]
          rfl
        | child hrest _ _ =>
          have hpos := hrest.length_pos
          simp only [length_append, length_singleton] at hlen
          omega
      | @child pathA aboveA _ _ hrestA hnodeA hparentA =>
        cases hb with
        | root _ _ =>
          have hpos := hrestA.length_pos
          simp only [length_append, length_singleton] at hlen
          omega
        | @child pathB aboveB _ _ hrestB hnodeB hparentB =>
          have hlen' : pathA.length = pathB.length := by simpa using hlen
          rw [length_append, length_singleton] at hfuel
          have hnext : tree.converge oldTip newTip (fuel + 1) a b disconnect connect =
              tree.converge oldTip newTip fuel aboveA aboveB (disconnect ++ [a]) (connect ++ [b]) := by
            rw [converge, if_neg hsame, parentOrNoCommon_child oldTip newTip hnodeA hparentA, ok_bind,
              parentOrNoCommon_child oldTip newTip hnodeB hparentB, ok_bind]
          rw [hnext]
          rcases ih hrestA hrestB hlen' (by omega) (disconnect ++ [a]) (connect ++ [b]) with
            ⟨common, hparts, hrun⟩ | ⟨hparts, hrun⟩
          · have hall := hparts.concat hlen' hrestA.length_pos hsame
            obtain ⟨k, hka, hkb, -⟩ := hparts
            have hlt := (List.getElem?_eq_some_iff.mp hka).1
            have hneA : a ≠ common := ne_of_path_index hlinked (.child hrestA hnodeA hparentA)
              getElem?_concat_length (by rwa [getElem?_append_left hlt]) (Nat.ne_of_gt hlt)
            have hneB : b ≠ common := ne_of_path_index hlinked (.child hrestB hnodeB hparentB)
              getElem?_concat_length (by rwa [getElem?_append_left (hlen' ▸ hlt)])
              (Nat.ne_of_gt (hlen' ▸ hlt))
            refine .inl ⟨common, hall, ?_⟩
            rw [hrun]
            simp [hneA, hneB]
          · exact .inr ⟨hparts.concat hlen' hrestA.length_pos hsame, hrun⟩

lemma takeWhile_reverse (hpath : PathTo tree.nodes path id) {k n : ℕ} {common : NodeId}
    (hk : path[k]? = some common) (hn : k < n) :
    path.reverse.takeWhile (· ≠ common) =
      (path.drop n).reverse ++ (path.take n).reverse.takeWhile (· ≠ common) := by
  nth_rewrite 1 [← take_append_drop n path]
  rw [reverse_append, takeWhile_append_of_pos]
  intro x hx
  obtain ⟨j, hj⟩ := mem_iff_getElem?.mp (mem_reverse.mp hx)
  rw [getElem?_drop] at hj
  simpa using ne_of_path_index hlinked hpath hj hk (by omega)

end

lemma mem_takeWhile_lowest {common x : NodeId} (h : tree.lowestCommonAncestor a b = some common)
    (hx : x ∈ (tree.chainFrom a).takeWhile (· ≠ common)) : x ∉ tree.chainFrom b := by
  obtain ⟨hmem, front, rest, hchain, hfront⟩ := find?_eq_some_iff_append.mp h
  have hskip : ∀ y ∈ front, (y ≠ common : Bool) := by
    intro y hy
    have hnot := hfront y hy
    have hne : y ≠ common := by
      rintro rfl
      simp [of_decide_eq_true hmem] at hnot
    exact decide_eq_true hne
  rw [hchain, takeWhile_append_of_pos hskip] at hx
  simp only [ne_eq, not_true_eq_false, decide_false, Bool.false_eq_true, not_false_eq_true, takeWhile_cons_of_neg,
    append_nil] at hx
  simpa using hfront x hx

lemma planReorg_eq (hlinked : Linked tree.nodes) (ha : PathTo tree.nodes path a) (hb : PathTo tree.nodes other b) :
    (∃ common, Parts path other (some common) ∧ tree.planReorg a b =
        .ok ⟨path.reverse.takeWhile (· ≠ common), (other.reverse.takeWhile (· ≠ common)).reverse⟩) ∨
      Parts path other none ∧ tree.planReorg a b = .error (.noCommonAncestor a b) := by
  have hbound {q : List NodeId} {x : NodeId} (hq : PathTo tree.nodes q x) : q.length < tree.nodes.length + 1 := by
    obtain ⟨node, hnode⟩ := hq.exists_node
    have hlt := (List.getElem?_eq_some_iff.mp hnode).1
    exact Nat.lt_succ_of_le ((hq.length_le hlinked).trans hlt)
  obtain ⟨nodeA, hnodeA⟩ := ha.exists_node
  obtain ⟨nodeB, hnodeB⟩ := hb.exists_node
  obtain ⟨upA, hupA, hrunA⟩ := descend_eq a b hlinked ha hnodeA nodeB.height (hbound ha) []
  obtain ⟨node, hnode, hheight⟩ := ha.heights hlinked hupA
  obtain ⟨upB, hupB, hrunB⟩ := descend_eq a b hlinked hb hnodeB node.height (hbound hb) []
  have hlenA := ha.length_eq hlinked hnodeA
  have hlenB := hb.length_eq hlinked hnodeB
  have hmin : min path.length other.length = min nodeB.height.toNat nodeA.height.toNat + 1 := by omega
  rw [hheight, show min (min nodeB.height.toNat nodeA.height.toNat) nodeB.height.toNat =
    min nodeB.height.toNat nodeA.height.toNat by omega] at hupB hrunB
  generalize min nodeB.height.toNat nodeA.height.toNat = n at *
  simp only [planReorg, heightOf_eq hnodeA, heightOf_eq hnodeB, heightOf_eq hnode, hrunA, hrunB, ok_bind, nil_append]
  rcases converge_eq a b hlinked (ha.take hupA) (hb.take hupB)
    (by rw [length_take, length_take]; omega) (hbound (ha.take hupA)) (path.drop (n + 1)).reverse
    (other.drop (n + 1)).reverse with ⟨common, hparts, hrun⟩ | ⟨hparts, hrun⟩
  · have hall := hparts.of_take hmin (Nat.succ_pos n)
    obtain ⟨k, hka, hkb, -⟩ := hparts
    have hk := (List.getElem?_eq_some_iff.mp hka).1
    rw [length_take] at hk
    rw [getElem?_take_of_lt (by omega)] at hka hkb
    refine .inl ⟨common, hall, ?_⟩
    rw [hrun, takeWhile_reverse hlinked ha hka (show k < n + 1 by omega),
      takeWhile_reverse hlinked hb hkb (show k < n + 1 by omega)]
    rfl
  · refine .inr ⟨hparts.of_take hmin (Nat.succ_pos n), ?_⟩
    rw [hrun]
    rfl

/-- A plan goes from the old tip down to the lowest common ancestor and up to the new tip. -/
theorem plan_reorg_between_tips (computeHash : Header → Hash256) (ops : List TreeOp) (a b : NodeId)
    (ha : a.toNat < (run computeHash ops).nodes.length) (hb : b.toNat < (run computeHash ops).nodes.length) :
    let tree := run computeHash ops
    ((tree.chainFrom a).getLast? = (tree.chainFrom b).getLast? → ∃ common plan,
      tree.lowestCommonAncestor a b = some common ∧ tree.planReorg a b = .ok plan ∧
        plan.disconnect = (tree.chainFrom a).takeWhile (· ≠ common) ∧
        plan.connect = ((tree.chainFrom b).takeWhile (· ≠ common)).reverse ∧
        plan.disconnect.Disjoint plan.connect) ∧
      ((tree.chainFrom a).getLast? ≠ (tree.chainFrom b).getLast? →
        tree.planReorg a b = .error (.noCommonAncestor a b)) := by
  intro tree
  have hlinked : Linked tree.nodes := (inv_run computeHash ops).linked
  obtain ⟨path, hpath⟩ := hlinked.exists_path a (getElem?_eq_getElem ha)
  obtain ⟨other, hother⟩ := hlinked.exists_path b (getElem?_eq_getElem hb)
  have hroot {q : List NodeId} : q.reverse.getLast? = q[0]? := by rw [getLast?_reverse, head?_eq_getElem?]
  have hdisjoint {common : NodeId} (hcommon : tree.lowestCommonAncestor a b = some common) :
      ((tree.chainFrom a).takeWhile (· ≠ common)).Disjoint ((tree.chainFrom b).takeWhile (· ≠ common)).reverse := by
    intro x hx hx'
    exact mem_takeWhile_lowest hcommon hx ( takeWhile_prefix _ |>.subset (mem_reverse.mp hx'))
  rw [chainFrom_eq hlinked hpath, chainFrom_eq hlinked hother, hroot, hroot] at *
  rcases planReorg_eq hlinked hpath hother with ⟨common, hparts, hrun⟩ | ⟨hparts, hrun⟩
  · have hcommon := (hparts.eq hlinked hpath hother).symm
    refine ⟨fun _ => ⟨common, _, hcommon, hrun, rfl, rfl, hdisjoint hcommon⟩, fun hne => ?_⟩
    obtain ⟨k, hka, hkb, -⟩ := hparts
    exact absurd (hpath.agree hlinked hother hka hkb (Nat.zero_le k)) hne
  · exact ⟨fun heq => absurd heq hparts, fun _ => hrun⟩

def byteHash (header : Header) : Hash256 := ⟨replicate 32 header.time.toUInt8, by simp⟩

def forkedOps : List TreeOp :=
  let root : Header := ⟨1, .zero, .zero, 1, 0x207fffff, 0⟩
  let middle : Header := ⟨1, byteHash root, .zero, 2, 0x207fffff, 0⟩
  [.insertNode none root .headerValid, .insertNode (some 0) middle .headerValid,
   .insertNode (some 1) ⟨1, byteHash middle, .zero, 3, 0x207fffff, 0⟩ .headerValid,
   .insertNode (some 0) ⟨1, byteHash root, .zero, 4, 0x207fffff, 0⟩ .headerValid]

theorem plan_reorg_forked : ∃ plan, (run byteHash forkedOps).planReorg 2 3 = .ok plan := by
  have htwo : (2 : NodeId).toNat < (run byteHash forkedOps).nodes.length := by decide +kernel
  have hthree : (3 : NodeId).toNat < (run byteHash forkedOps).nodes.length := by decide +kernel
  obtain ⟨-, plan, -, hplan, -⟩ := (plan_reorg_between_tips byteHash forkedOps 2 3 htwo hthree).1 (by decide +kernel)
  exact ⟨plan, hplan⟩

end BlockTree

end BitcoinRs.Chain
