import BitcoinRs.Chain.TreeRuns

namespace BitcoinRs.Chain

open List Option

inductive AncestryBudgetExceeded
  | exceeded

def usizeMax : ℕ := 2 ^ 64 - 1

namespace BlockTree

variable (tree : BlockTree)

def heightStep (startId cursor : NodeId) (prevHeight targetHeight : UInt32) : Option NodeId ⊕ NodeId × UInt32 :=
  match tree.nodes[cursor.toNat]? with
  | none => .inl none
  | some node =>
    if cursor ≠ startId ∧ prevHeight ≤ node.height then .inl none
    else if node.height < targetHeight then .inl none
    else if tree.activeByHeight.isTrusted && tree.isIndexed cursor node then
      .inl (tree.activeByHeight.get targetHeight)
    else if node.height = targetHeight then .inl (some cursor)
    else
      match node.parent with
      | none => .inl none
      | some parent => .inr (parent, node.height)

section

variable (startId : NodeId) (targetHeight : UInt32)

def heightLoop :
    ℕ → NodeId → UInt32 → Except AncestryBudgetExceeded (Option NodeId) × ℕ
  | 0, cursor, prevHeight =>
    match tree.heightStep startId cursor prevHeight targetHeight with
    | .inl found => (.ok found, 0)
    | .inr _ => (.error .exceeded, 0)
  | remaining + 1, cursor, prevHeight =>
    match tree.heightStep startId cursor prevHeight targetHeight with
    | .inl found => (.ok found, remaining + 1)
    | .inr (parent, height) => heightLoop remaining parent height

def nodeAtHeightFromBounded (remaining : ℕ) : Except AncestryBudgetExceeded (Option NodeId) × ℕ :=
  match tree.nodes[startId.toNat]? with
  | none => (.ok none, remaining)
  | some startNode =>
    if startNode.height < targetHeight then (.ok none, remaining)
    else tree.heightLoop startId targetHeight remaining startId startNode.height

def nodeAtHeightFrom : Option NodeId :=
  match (tree.nodeAtHeightFromBounded startId targetHeight usizeMax).1 with
  | .ok found => found
  | .error _ => none

end

def walkSteps : ℕ → NodeId → Bool → NodeId × Bool
  | 0, walker, walked => (walker, walked)
  | steps + 1, walker, walked =>
    match tree.parentOf walker with
    | none => (walker, walked)
    | some parent => walkSteps steps parent true

def walkParentSteps (start : NodeId) (steps : ℕ) : Option NodeId :=
  let (walker, walked) := tree.walkSteps steps start false
  if walked then some walker else none

/-- `saturating_mul(2)` on an unsigned integer of `bits` bits, once the locator has more than ten entries. -/
def nextStep (bits entries step : ℕ) : ℕ := if 10 < entries then min (step * 2) (2 ^ bits - 1) else step

def walkedLocatorLoop : ℕ → ℕ → NodeId → ℕ → List Hash256
  | 0, _, _, _ => []
  | room + 1, entries, current, step =>
    match tree.nodes[current.toNat]? with
    | none => []
    | some node => node.hash ::
      match tree.walkParentSteps current step with
      | none => []
      | some walker => walkedLocatorLoop room (entries + 1) walker (nextStep 64 (entries + 1) step)

def walkedBlockLocator (tipId : NodeId) (maxEntries : ℕ) : List Hash256 := tree.walkedLocatorLoop maxEntries 0 tipId 1

def activeHeightStepIsConsistent (nodeId : NodeId) (node : BlockTreeNode) (height : UInt32) : Bool :=
  let parentMatches :=
    if height = 0 then node.parent.isNone
    else node.parent.isSome && node.parent = tree.activeByHeight.get (height - 1)
  if !parentMatches then false
  else if height = 0xffffffff then true
  else
    match tree.activeByHeight.get (height + 1) with
    | none => true
    | some childId => (tree.nodes[childId.toNat]?).any fun child => child.parent = some nodeId

section

variable (tipId : NodeId)

def indexedLocatorLoop : ℕ → ℕ → UInt32 → ℕ → Option (List Hash256)
  | 0, _, _, _ => some []
  | room + 1, entries, targetHeight, step =>
    match tree.activeByHeight.get targetHeight with
    | none => none
    | some nodeId =>
      match tree.nodes[nodeId.toNat]? with
      | none => none
      | some node =>
        if (entries = 0 ∧ nodeId ≠ tipId) ∨ node.height ≠ targetHeight ∨
            tree.activeHeightStepIsConsistent nodeId node targetHeight = false then none
        else if targetHeight = 0 then some [node.hash]
        else
          (indexedLocatorLoop room (entries + 1) (UInt32.ofNat (targetHeight.toNat - step))
            (nextStep 32 (entries + 1) step)).map (node.hash :: ·)

variable (maxEntries : ℕ)

def indexedBlockLocator : Option (List Hash256) :=
  if maxEntries = 0 || !tree.activeByHeight.isTrusted || tree.activeByHeight.last ≠ some tipId then none
  else
    match tree.nodes[tipId.toNat]? with
    | none => none
    | some tip => tree.indexedLocatorLoop tipId maxEntries 0 tip.height 1

def blockLocator : List Hash256 :=
  match tree.indexedBlockLocator tipId maxEntries with
  | some locator => locator
  | none => tree.walkedBlockLocator tipId maxEntries

end

def parents : ℕ → NodeId → List NodeId
  | 0, _ => []
  | fuel + 1, id =>
    match tree.nodes[id.toNat]? with
    | none => []
    | some node => id :: (node.parent.map (parents fuel)).getD []

def chainFrom (id : NodeId) : List NodeId := tree.parents tree.nodes.length id

def ancestorAt (start : NodeId) (height : UInt32) : Option NodeId :=
  (tree.chainFrom start).find? fun id => tree.heightIs id height.toNat

def lowestCommonAncestor (a b : NodeId) : Option NodeId := (tree.chainFrom a).find? (· ∈ tree.chainFrom b)

def locatorHeights : ℕ → ℕ → ℕ → ℕ → List ℕ
  | 0, _, _, _ => []
  | room + 1, entries, step, height =>
    height :: if height = 0 then []
      else locatorHeights room (entries + 1) (if 10 < entries + 1 then step * 2 else step) (height - step)

def hashAt (chain : List NodeId) (height : ℕ) : Option Hash256 :=
  (chain.reverse[height]?).bind fun id => (tree.nodes[id.toNat]?).map BlockTreeNode.hash

def plainLocator (tipId : NodeId) (maxEntries : ℕ) : List Hash256 :=
  let chain := tree.chainFrom tipId
  if chain = [] then []
  else (locatorHeights maxEntries 0 1 (chain.length - 1)).filterMap (tree.hashAt chain)

end BlockTree

section

variable {nodes : List BlockTreeNode} {path other : List NodeId} {id a b : NodeId}

lemma PathTo.unique (h : PathTo nodes path id) (h' : PathTo nodes other id) : path = other := by
  induction h generalizing other with
  | root hnode hparent =>
    cases h' with
    | root _ _ => rfl
    | child _ hnode' hparent' =>
      cases hnode.symm.trans hnode'
      cases hparent.symm.trans hparent'
  | child _ hnode hparent ih =>
    cases h' with
    | root hnode' hparent' =>
      cases hnode.symm.trans hnode'
      cases hparent.symm.trans hparent'
    | child hpath' hnode' hparent' =>
      cases hnode.symm.trans hnode'
      cases hparent.symm.trans hparent'
      rw [ih hpath']

lemma PathTo.take (h : PathTo nodes path id) {i : ℕ} (hi : path[i]? = some a) : PathTo nodes (path.take (i + 1)) a := by
  induction h with
  | root hnode hparent =>
    obtain ⟨hlt, rfl⟩ := List.getElem?_eq_some_iff.mp hi
    obtain rfl : i = 0 := by simpa using hlt
    exact .root hnode hparent
  | @child path above id node hpath hnode hparent ih =>
    rw [getElem?_append] at hi
    split at hi
    · rename_i hlt
      rw [take_append_of_le_length hlt]
      exact ih hi
    · obtain ⟨hlt, rfl⟩ := List.getElem?_eq_some_iff.mp hi
      have hlen : i = path.length := by
        rw [length_singleton] at hlt
        omega
      subst hlen
      rw [take_of_length_le (by simp)]
      simpa using PathTo.child hpath hnode hparent

lemma PathTo.length_le (hlinked : Linked nodes) (h : PathTo nodes path id) : path.length ≤ id.toNat + 1 := by
  induction h with
  | root _ _ => simp
  | child hpath hnode hparent ih =>
    obtain ⟨_, _, hlt, _⟩ := hlinked.parent _ _ _ hnode hparent
    rw [length_append, length_singleton]
    omega

lemma PathTo.length_pos (h : PathTo nodes path id) : 0 < path.length := by
  cases h <;> simp

lemma PathTo.last (h : PathTo nodes path id) : path[path.length - 1]? = some id := by
  rw [← getLast?_eq_getElem?]
  exact h.ends_at

lemma PathTo.shared (hlinked : Linked nodes) (h : PathTo nodes path a) (h' : PathTo nodes other b) {i j : ℕ}
    (hi : path[i]? = some id) (hj : other[j]? = some id) : i = j ∧ path.take (i + 1) = other.take (j + 1) := by
  obtain ⟨node, hnode, hheight⟩ := h.heights hlinked hi
  obtain ⟨node', hnode', hheight'⟩ := h'.heights hlinked hj
  cases hnode.symm.trans hnode'
  exact ⟨hheight.symm.trans hheight', (h.take hi).unique (h'.take hj)⟩

lemma PathTo.agree (hlinked : Linked nodes) (h : PathTo nodes path a) (h' : PathTo nodes other b) {i j k : ℕ}
    (hi : path[i]? = some id) (hj : other[j]? = some id) (hk : k ≤ i) : path[k]? = other[k]? := by
  obtain ⟨rfl, htake⟩ := h.shared hlinked h' hi hj
  have hget := congrArg (fun chain : List NodeId => chain[k]?) htake
  rwa [getElem?_take_of_lt (Nat.lt_succ_of_le hk), getElem?_take_of_lt (Nat.lt_succ_of_le hk)] at hget

end

namespace BlockTree

variable {tree : BlockTree} {path : List NodeId} {id : NodeId}

lemma parents_eq (hlinked : Linked tree.nodes) (hpath : PathTo tree.nodes path id) {fuel : ℕ}
    (hfuel : id.toNat < fuel) : tree.parents fuel id = path.reverse := by
  induction hpath generalizing fuel with
  | @root id node hnode hparent =>
    obtain ⟨fuel, rfl⟩ := exists_succ_of_lt hfuel
    simp [parents, hnode, hparent]
  | @child path above id node hpath hnode hparent ih =>
    obtain ⟨fuel, rfl⟩ := exists_succ_of_lt hfuel
    obtain ⟨_, _, hlt, _⟩ := hlinked.parent _ _ _ hnode hparent
    simp [parents, hnode, hparent, ih (show above.toNat < fuel by omega)]

lemma chainFrom_eq (hlinked : Linked tree.nodes) (hpath : PathTo tree.nodes path id) :
    tree.chainFrom id = path.reverse := by
  obtain ⟨node, hnode⟩ := hpath.exists_node
  exact parents_eq hlinked hpath (List.getElem?_eq_some_iff.mp hnode).1

lemma chainFrom_unknown (hnode : tree.nodes[id.toNat]? = none) : tree.chainFrom id = [] := by
  unfold chainFrom
  cases tree.nodes.length with
  | zero => rfl
  | succ fuel => simp [parents, hnode]

lemma ancestorAt_eq (hlinked : Linked tree.nodes) (hpath : PathTo tree.nodes path id) (height : UInt32) :
    tree.ancestorAt id height = path[height.toNat]? := by
  have hentry {i : ℕ} {entry : NodeId} (hi : path[i]? = some entry) (offset : ℕ) :
      tree.heightIs entry offset = true ↔ i = offset := by
    obtain ⟨node, hnode, hheight⟩ := hpath.heights hlinked hi
    simp [heightIs, hnode, hheight]
  rw [ancestorAt, chainFrom_eq hlinked hpath]
  cases hfind : path.reverse.find? fun id => tree.heightIs id height.toNat with
  | none =>
    rw [find?_eq_none] at hfind
    cases hget : path[height.toNat]? with
    | none => rfl
    | some entry =>
      exact absurd ((hentry hget _).mpr rfl) (hfind entry (mem_reverse.mpr (mem_of_getElem? hget)))
  | some entry =>
    obtain ⟨i, hi⟩ := mem_iff_getElem?.mp (mem_reverse.mp (mem_of_find?_eq_some hfind))
    have hheight : tree.heightIs entry height.toNat = true := by simpa using find?_some hfind
    rw [← (hentry hi _).mp hheight, hi]

lemma Inv.path_of_trusted (h : Inv tree) (htrusted : tree.activeByHeight.isTrusted) :
    ∃ tipId, PathTo tree.nodes tree.activeByHeight.entries tipId := h.index.trusted_path htrusted

section

variable {node : BlockTreeNode} (h : Inv tree)

include h

lemma get_of_indexed (htrusted : tree.activeByHeight.isTrusted) (hpath : PathTo tree.nodes path id)
    (hindexed : tree.isIndexed id node) {height : UInt32} (hle : height ≤ node.height) :
      tree.activeByHeight.get height = path[height.toNat]? := by
  obtain ⟨tipId, htip⟩ := h.path_of_trusted htrusted
  have hlast := hpath.last
  have hget : tree.activeByHeight.entries[node.height.toNat]? = some id := of_decide_eq_true hindexed
  exact htip.agree h.linked hpath hget hlast hle

lemma heightStep_cases {start cursor : NodeId} {prevHeight target : UInt32}
    (hpath : PathTo tree.nodes path cursor) (hnode : tree.nodes[cursor.toNat]? = some node)
    (hprev : cursor = start ∨ node.height < prevHeight) (hle : target ≤ node.height) :
    tree.heightStep start cursor prevHeight target = .inl path[target.toNat]? ∨
      ∃ above aboveNode rest, tree.heightStep start cursor prevHeight target = .inr (above, node.height) ∧
        PathTo tree.nodes rest above ∧ tree.nodes[above.toNat]? = some aboveNode ∧
        aboveNode.height.toNat + 1 = node.height.toNat ∧ target.toNat < node.height.toNat ∧
        path[target.toNat]? = rest[target.toNat]? := by
  have hlen := hpath.length_eq h.linked hnode
  have hfalling : ¬ (cursor ≠ start ∧ prevHeight ≤ node.height) := by
    rintro ⟨hne, hge⟩
    rcases hprev with heq | hlt
    · exact hne heq
    · exact UInt32.not_le.mpr hlt hge
  simp only [heightStep, hnode, if_neg hfalling, if_neg (UInt32.not_lt.mpr hle)]
  split_ifs with hindexed hequal
  · rw [Bool.and_eq_true] at hindexed
    exact .inl (by rw [get_of_indexed h hindexed.1 hpath hindexed.2 hle])
  · refine .inl (by rw [← hequal, ← hpath.last, hlen, Nat.add_sub_cancel])
  · have hlt : target.toNat < node.height.toNat := by
      rcases Nat.lt_or_eq_of_le (UInt32.le_iff_toNat_le.mp hle) with hlt | heq
      · exact hlt
      · exact absurd (UInt32.toNat_inj.mp heq.symm) hequal
    refine .inr ?_
    cases hpath with
    | root hnode' hparent =>
      cases hnode.symm.trans hnode'
      rw [(h.linked.root _ _ hnode hparent).1] at hlt
      exact absurd hlt (Nat.not_lt_zero _)
    | @child rest above _ _ hrest hnode' hparent =>
      cases hnode.symm.trans hnode'
      obtain ⟨aboveNode, habove, -, hheight, -⟩ := h.linked.parent _ _ _ hnode hparent
      have hshort := hrest.length_eq h.linked habove
      refine ⟨above, aboveNode, rest, by rw [hparent], hrest, habove, hheight.symm, hlt, ?_⟩
      exact getElem?_append_left (by omega)

lemma heightLoop_eq {start : NodeId} {target : UInt32} (remaining : ℕ) {cursor : NodeId}
    {prevHeight : UInt32} (hpath : PathTo tree.nodes path cursor) (hnode : tree.nodes[cursor.toNat]? = some node)
    (hprev : cursor = start ∨ node.height < prevHeight) (hle : target ≤ node.height) :
    (tree.heightLoop start target remaining cursor prevHeight).1 = .ok path[target.toNat]? ∨
      (tree.heightLoop start target remaining cursor prevHeight).1 = .error .exceeded ∧
        remaining < node.height.toNat - target.toNat := by
  induction remaining generalizing cursor prevHeight path node with
  | zero =>
    rw [heightLoop]
    rcases heightStep_cases h hpath hnode hprev hle with hstep | ⟨_, _, _, hstep, -, -, -, hlt, -⟩
    · exact .inl (by rw [hstep])
    · exact .inr ⟨by rw [hstep], by omega⟩
  | succ remaining ih =>
    rw [heightLoop]
    rcases heightStep_cases h hpath hnode hprev hle with
      hstep | ⟨above, aboveNode, rest, hstep, hrest, habove, hheight, hlt, hget⟩
    · exact .inl (by rw [hstep])
    · rw [hstep, hget]
      have hbelow : aboveNode.height < node.height := UInt32.lt_iff_toNat_lt.mpr (by omega)
      rcases ih hrest habove (.inr hbelow) (UInt32.le_iff_toNat_le.mpr (by omega)) with hfound | ⟨hfail, hshort⟩
      · exact .inl hfound
      · exact .inr ⟨hfail, by omega⟩

end

lemma Inv.nodeAtHeight (h : Inv tree) (start : NodeId) (target : UInt32) (remaining : ℕ) :
    (tree.nodeAtHeightFromBounded start target remaining).1 = .ok (tree.ancestorAt start target) ∨
      (tree.nodeAtHeightFromBounded start target remaining).1 = .error .exceeded ∧
        ∃ node, tree.node start = .ok node ∧ remaining < node.height.toNat - target.toNat := by
  unfold nodeAtHeightFromBounded
  cases hnode : tree.nodes[start.toNat]? with
  | none => exact .inl (by rw [ancestorAt, chainFrom_unknown hnode]; rfl)
  | some node =>
    obtain ⟨path, hpath⟩ := h.linked.exists_path start hnode
    rw [ancestorAt_eq h.linked hpath]
    dsimp only
    split_ifs with hhigh
    · refine .inl ?_
      rw [getElem?_eq_none]
      rw [hpath.length_eq h.linked hnode]
      exact UInt32.lt_iff_toNat_lt.mp hhigh
    · rcases heightLoop_eq h remaining hpath hnode (.inl rfl) (UInt32.not_lt.mp hhigh) with hfound | ⟨hfail, hshort⟩
      · exact .inl hfound
      · exact .inr ⟨hfail, node, node_eq hnode, hshort⟩

lemma Inv.nodeAtHeightFrom_eq (h : Inv tree) (start : NodeId) (target : UInt32) :
    tree.nodeAtHeightFrom start target = tree.ancestorAt start target := by
  unfold nodeAtHeightFrom
  rcases h.nodeAtHeight start target usizeMax with hfound | ⟨-, node, -, hshort⟩
  · rw [hfound]
  · have hlt := node.height.toNat_lt
    unfold usizeMax at hshort
    omega

end BlockTree

namespace BlockTree

variable {tree : BlockTree} {path : List NodeId} {id : NodeId}

section

variable {other active : List NodeId} {a b : NodeId} {common : Option NodeId}

section

variable (hlinked : Linked tree.nodes)

include hlinked

lemma lowestCommonAncestor_eq (ha : PathTo tree.nodes path a)
    (hb : PathTo tree.nodes other b) {k : ℕ} {common : NodeId} (hka : path[k]? = some common)
    (hkb : other[k]? = some common) (hpart : ∀ next, path[k + 1]? = some next → other[k + 1]? ≠ some next) :
    tree.lowestCommonAncestor a b = some common := by
  rw [lowestCommonAncestor, chainFrom_eq hlinked ha, chainFrom_eq hlinked hb, find?_eq_some_iff_append]
  refine ⟨by simpa using mem_of_getElem? hkb, (path.drop (k + 1)).reverse, (path.take k).reverse, ?_, ?_⟩
  · obtain ⟨hlt, rfl⟩ := List.getElem?_eq_some_iff.mp hka
    rw [← reverse_concat, ← reverse_append, append_assoc, singleton_append,
      ← drop_eq_getElem_cons hlt, take_append_drop]
  · intro entry hentry
    obtain ⟨j, hj⟩ := mem_iff_getElem?.mp (mem_reverse.mp hentry)
    rw [getElem?_drop] at hj
    rw [Bool.not_eq_true', decide_eq_false_iff_not, mem_reverse]
    intro hmem
    obtain ⟨i, hi⟩ := mem_iff_getElem?.mp hmem
    -- a later shared node would put the next one on both paths
    have hnext := ha.agree hlinked hb hj hi (show k + 1 ≤ k + 1 + j by omega)
    obtain ⟨next, hnextA⟩ : ∃ next, path[k + 1]? = some next := by
      have hlt := (List.getElem?_eq_some_iff.mp hj).1
      exact ⟨_, getElem?_eq_getElem (show k + 1 < path.length by omega)⟩
    exact hpart next hnextA (hnext ▸ hnextA)

lemma lowestCommonAncestor_eq_none (ha : PathTo tree.nodes path a)
    (hb : PathTo tree.nodes other b) (hroot : path[0]? ≠ other[0]?) : tree.lowestCommonAncestor a b = none := by
  rw [lowestCommonAncestor, chainFrom_eq hlinked ha, chainFrom_eq hlinked hb, find?_eq_none]
  intro entry hentry
  rw [decide_eq_true_eq, mem_reverse]
  intro hmem
  obtain ⟨i, hi⟩ := mem_iff_getElem?.mp (mem_reverse.mp hentry)
  obtain ⟨j, hj⟩ := mem_iff_getElem?.mp hmem
  exact hroot (ha.agree hlinked hb hi hj (Nat.zero_le i))

lemma joinActive_cases (height : UInt32) {fuel : ℕ} (hpath : PathTo tree.nodes path id) (hfuel : id.toNat < fuel) :
    (∃ (m : ℕ) (common : NodeId), path[m]? = some common ∧ tree.activeByHeight.entries[m]? = some common ∧
        (∀ j > m, ∀ next, path[j]? = some next → tree.activeByHeight.entries[j]? ≠ some next) ∧
        tree.joinActive height fuel id = tree.activeByHeight.entries[min height.toNat m]?) ∨
      tree.joinActive height fuel id = none ∧
        ∀ (j : ℕ) (next : NodeId), path[j]? = some next → tree.activeByHeight.entries[j]? ≠ some next := by
  have hmin (x y : UInt32) : (min x y).toNat = min x.toNat y.toNat := by
    change (if x ≤ y then x else y).toNat = _
    split_ifs with hle
    · rw [min_eq_left (UInt32.le_iff_toNat_le.mp hle)]
    · rw [min_eq_right (UInt32.le_iff_toNat_le.mp (UInt32.le_of_lt (UInt32.not_le.mp hle)))]
  induction hpath generalizing fuel with
  | @root id node hnode hparent =>
    obtain ⟨fuel, rfl⟩ := exists_succ_of_lt hfuel
    have hzero : node.height.toNat = 0 := by rw [(hlinked.root _ _ hnode hparent).1]; rfl
    simp only [joinActive, hnode, hparent, ActiveHeightIndex.get, hmin, hzero]
    split_ifs with hjoin
    · refine .inl ⟨0, id, rfl, hjoin, fun j hj next hnext => ?_, rfl⟩
      rw [getElem?_eq_none (by simpa using Nat.succ_le_of_lt hj)] at hnext
      cases hnext
    · refine .inr ⟨rfl, fun j next hnext => ?_⟩
      obtain ⟨hlt, rfl⟩ := List.getElem?_eq_some_iff.mp hnext
      obtain rfl : j = 0 := by simpa using hlt
      exact hjoin
  | @child path above id node hpath hnode hparent ih =>
    obtain ⟨fuel, rfl⟩ := exists_succ_of_lt hfuel
    obtain ⟨aboveNode, habove, hlt, hheight, -⟩ := hlinked.parent _ _ _ hnode hparent
    have hlen : node.height.toNat = path.length := by rw [hheight, hpath.length_eq hlinked habove]
    have hlater {j : ℕ} {next : NodeId} (hnext : (path ++ [id])[j]? = some next) :
        path[j]? = some next ∨ j = path.length ∧ next = id := by
      rw [getElem?_append] at hnext
      split at hnext
      · exact .inl hnext
      · obtain ⟨hlt, rfl⟩ := List.getElem?_eq_some_iff.mp hnext
        rw [length_singleton] at hlt
        exact .inr ⟨by omega, by simp⟩
    simp only [joinActive, hnode, hparent, ActiveHeightIndex.get, hmin, hlen]
    split_ifs with hjoin
    · refine .inl ⟨path.length, id, getElem?_concat_length, hjoin, fun j hj next hnext => ?_, rfl⟩
      rw [getElem?_eq_none (by simpa using Nat.succ_le_of_lt hj)] at hnext
      cases hnext
    · rcases ih (show above.toNat < fuel by omega) with ⟨m, common, hm, hactive, hbeyond, hresult⟩ | ⟨hresult, hnone⟩
      · refine .inl ⟨m, common, ?_, hactive, fun j hj next hnext => ?_, hresult⟩
        · rw [getElem?_append_left (List.getElem?_eq_some_iff.mp hm).1, hm]
        · rcases hlater hnext with hold | ⟨rfl, rfl⟩
          · exact hbeyond j hj next hold
          · exact hjoin
      · refine .inr ⟨hresult, fun j next hnext => ?_⟩
        rcases hlater hnext with hold | ⟨rfl, rfl⟩
        · exact hnone j next hold
        · exact hjoin

end

def Parts (path other : List NodeId) : Option NodeId → Prop
  | some common => ∃ k : ℕ, path[k]? = some common ∧ other[k]? = some common ∧
      ∀ next, path[k + 1]? = some next → other[k + 1]? ≠ some next
  | none => path[0]? ≠ other[0]?

lemma Parts.symm (h : Parts path other common) : Parts other path common := by
  cases common with
  | none => exact Ne.symm h
  | some common =>
    obtain ⟨k, hka, hkb, hpart⟩ := h
    exact ⟨k, hkb, hka, fun next hnext hother => hpart next hother hnext⟩

lemma Parts.concat (h : Parts path other common) (hlen : path.length = other.length) (hpos : 0 < path.length)
    (hne : a ≠ b) : Parts (path ++ [a]) (other ++ [b]) common := by
  cases common with
  | none =>
    unfold Parts
    rwa [getElem?_append_left hpos, getElem?_append_left (hlen ▸ hpos)]
  | some common =>
    obtain ⟨k, hka, hkb, hpart⟩ := h
    have hlt := (List.getElem?_eq_some_iff.mp hka).1
    refine ⟨k, ?_, ?_, fun next hnext hother => ?_⟩
    · rw [getElem?_append_left hlt, hka]
    · rw [getElem?_append_left (hlen ▸ hlt), hkb]
    · by_cases hlast : k + 1 = path.length
      · rw [hlast, getElem?_concat_length] at hnext
        rw [hlast, hlen, getElem?_concat_length] at hother
        exact hne (some.inj (hnext.trans hother.symm))
      · rw [getElem?_append_left (by omega)] at hnext hother
        exact hpart next hnext hother

lemma Parts.of_take {n : ℕ} (h : Parts (path.take n) (other.take n) common) (hn : min path.length other.length = n)
    (hpos : 0 < n) : Parts path other common := by
  cases common with
  | none =>
    unfold Parts at h
    rwa [getElem?_take_of_lt hpos, getElem?_take_of_lt hpos] at h
  | some common =>
    obtain ⟨k, hka, hkb, hpart⟩ := h
    have hk := (List.getElem?_eq_some_iff.mp hka).1
    rw [length_take] at hk
    rw [getElem?_take_of_lt (by omega)] at hka hkb
    refine ⟨k, hka, hkb, fun next hnext hother => ?_⟩
    have hltA := (List.getElem?_eq_some_iff.mp hnext).1
    have hltB := (List.getElem?_eq_some_iff.mp hother).1
    refine hpart next ?_ ?_
    · rwa [getElem?_take_of_lt (by omega)]
    · rwa [getElem?_take_of_lt (by omega)]

lemma Parts.eq (hlinked : Linked tree.nodes) (ha : PathTo tree.nodes path a) (hb : PathTo tree.nodes other b)
    (h : Parts path other common) : common = tree.lowestCommonAncestor a b := by
  cases common with
  | none => exact (lowestCommonAncestor_eq_none hlinked ha hb h).symm
  | some common =>
    obtain ⟨k, hka, hkb, hpart⟩ := h
    exact (lowestCommonAncestor_eq hlinked ha hb hka hkb hpart).symm

lemma joinActive_parts (h : Inv tree) (htrusted : tree.activeByHeight.isTrusted) {nodeA : BlockTreeNode}
    (ha : PathTo tree.nodes path a) (hnodeA : tree.nodes[a.toNat]? = some nodeA) (hindexed : tree.isIndexed a nodeA)
    (hb : PathTo tree.nodes other b) (hfuel : b.toNat < tree.nodes.length) :
    Parts path other (tree.joinActive nodeA.height tree.nodes.length b) := by
  have hlen := ha.length_eq h.linked hnodeA
  have hindex {k : ℕ} (hk : k ≤ nodeA.height.toNat) : tree.activeByHeight.entries[k]? = path[k]? := by
    have hlt : k < UInt32.size := lt_of_le_of_lt hk nodeA.height.toNat_lt
    have hget := get_of_indexed h htrusted ha hindexed
      (UInt32.le_iff_toNat_le.mpr (show (UInt32.ofNat k).toNat ≤ _ by rwa [UInt32.toNat_ofNat_of_lt' hlt]))
    rwa [ActiveHeightIndex.get, UInt32.toNat_ofNat_of_lt' hlt] at hget
  obtain ⟨tipId, htip⟩ := h.path_of_trusted htrusted
  rcases joinActive_cases h.linked nodeA.height hb hfuel with ⟨m, common, hm, hactive, hbeyond, hresult⟩ | ⟨hresult,
    hnone⟩
  · rw [hresult, hindex (Nat.min_le_left _ _)]
    obtain ⟨entry, hentry⟩ : ∃ entry, path[min nodeA.height.toNat m]? = some entry :=
      ⟨_, getElem?_eq_getElem (by omega)⟩
    rw [hentry]
    refine ⟨min nodeA.height.toNat m, hentry, ?_, fun next hnext hother => ?_⟩
    · rw [← hentry, ← hindex (Nat.min_le_left _ _)]
      exact (htip.agree h.linked hb hactive hm (Nat.min_le_right _ _)).symm
    · have hshort := (List.getElem?_eq_some_iff.mp hnext).1
      have hle : min nodeA.height.toNat m + 1 ≤ nodeA.height.toNat := by omega
      refine hbeyond _ (show m < min nodeA.height.toNat m + 1 by omega) next hother ?_
      rw [hindex hle, hnext]
  · rw [hresult]
    intro heq
    obtain ⟨root, hroot⟩ : ∃ root, path[0]? = some root := ⟨_, getElem?_eq_getElem ha.length_pos⟩
    exact hnone 0 root (heq ▸ hroot) ((hindex (Nat.zero_le _)).trans hroot)

lemma ancestry_eq (hlinked : Linked tree.nodes) (hpath : PathTo tree.nodes path id) {fuel : ℕ}
    (hfuel : id.toNat < fuel) (depth : ℕ) :
    ∃ root, path[0]? = some root ∧ tree.ancestry fuel depth id = some (root, depth + (path.length - 1)) := by
  induction hpath generalizing fuel depth with
  | @root id node hnode hparent =>
    obtain ⟨fuel, rfl⟩ := exists_succ_of_lt hfuel
    exact ⟨id, rfl, by simp [ancestry, hnode, hparent]⟩
  | @child path above id node hpath hnode hparent ih =>
    obtain ⟨fuel, rfl⟩ := exists_succ_of_lt hfuel
    obtain ⟨_, _, hlt, _⟩ := hlinked.parent _ _ _ hnode hparent
    obtain ⟨root, hroot, hrun⟩ := ih (show above.toNat < fuel by omega) (depth + 1)
    have hpos := hpath.length_pos
    refine ⟨root, by rw [getElem?_append_left hpos, hroot], ?_⟩
    simp only [ancestry, hnode, hparent, hrun, length_append, length_singleton]
    congr 2
    omega

lemma ancestry_unknown (hnode : tree.nodes[id.toNat]? = none) (fuel depth : ℕ) : tree.ancestry fuel depth id =
    none := by
  cases fuel with
  | zero => rfl
  | succ fuel => simp [ancestry, hnode]

lemma joinActive_unknown (hnode : tree.nodes[id.toNat]? = none) (height : UInt32) (fuel : ℕ) :
    tree.joinActive height fuel id = none := by
  cases fuel with
  | zero => rfl
  | succ fuel => simp [joinActive, hnode]

lemma parentOf_child {above : NodeId} {node : BlockTreeNode} (hnode : tree.nodes[id.toNat]? = some node)
    (hparent : node.parent = some above) : tree.parentOf id = some above := by
  rw [parentOf, hnode]
  exact hparent

lemma ascend_eq (steps : ℕ) (hpath : PathTo tree.nodes path id) (hsteps : steps < path.length) :
    ∃ up, tree.ascend steps id = some up ∧ PathTo tree.nodes (path.take (path.length - steps)) up := by
  induction steps generalizing path id with
  | zero => exact ⟨id, rfl, by rwa [Nat.sub_zero, take_length]⟩
  | succ steps ih =>
    cases hpath with
    | root _ _ => simp at hsteps
    | @child path above _ _ hrest hnode hparent =>
      rw [length_append, length_singleton] at hsteps
      obtain ⟨up, hup, htake⟩ := ih hrest (by omega)
      refine ⟨up, by rw [ascend, parentOf_child hnode hparent]; exact hup, ?_⟩
      rw [length_append, length_singleton, Nat.add_sub_add_right, take_append_of_le_length (Nat.sub_le _ _)]
      exact htake

lemma meet_parts (fuel : ℕ) (ha : PathTo tree.nodes path a) (hb : PathTo tree.nodes other b)
    (hlen : path.length = other.length) (hroot : path[0]? = other[0]?) (hfuel : path.length ≤ fuel + 1) :
    ∃ common, tree.meet fuel a b = some common ∧ Parts path other (some common) := by
  induction fuel generalizing path other a b with
  | zero =>
    have hsame : a = b := by
      have hlastA := ha.last
      have hlastB := hb.last
      rw [← hlen, show path.length - 1 = 0 by omega, ← hroot] at hlastB
      rw [show path.length - 1 = 0 by omega] at hlastA
      exact some.inj (hlastA.symm.trans hlastB)
    subst hsame
    refine ⟨a, by simp [meet], path.length - 1, ha.last, hlen ▸ hb.last, fun next hnext => ?_⟩
    rw [getElem?_eq_none (by omega)] at hnext
    cases hnext
  | succ fuel ih =>
    by_cases hsame : a = b
    · subst hsame
      refine ⟨a, by simp [meet], path.length - 1, ha.last, hlen ▸ hb.last, fun next hnext => ?_⟩
      rw [getElem?_eq_none (by omega)] at hnext
      cases hnext
    · cases ha with
      | root hnode _ =>
        cases hb with
        | root _ _ => exact absurd (some.inj hroot) hsame
        | child hrest _ _ =>
          have hpos := hrest.length_pos
          rw [length_append, length_singleton, length_singleton] at hlen
          omega
      | @child pathA aboveA _ _ hrestA hnodeA hparentA =>
        cases hb with
        | root hnode _ =>
          have hpos := hrestA.length_pos
          rw [length_append, length_singleton, length_singleton] at hlen
          omega
        | @child pathB aboveB _ _ hrestB hnodeB hparentB =>
          have hlen' : pathA.length = pathB.length := by simpa using hlen
          rw [getElem?_append_left hrestA.length_pos, getElem?_append_left hrestB.length_pos] at hroot
          rw [length_append, length_singleton] at hfuel
          obtain ⟨common, hmeet, hparts⟩ := ih hrestA hrestB hlen' hroot (by omega)
          refine ⟨common, ?_, hparts.concat hlen' hrestA.length_pos hsame⟩
          rw [meet, if_neg hsame, parentOf_child hnodeA hparentA, parentOf_child hnodeB hparentB]
          exact hmeet

lemma walkedCommonAncestor_parts (hlinked : Linked tree.nodes) (ha : PathTo tree.nodes path a)
    (hb : PathTo tree.nodes other b) : Parts path other (tree.walkedCommonAncestor a b) := by
  have hbound {q : List NodeId} {x : NodeId} (hq : PathTo tree.nodes q x) :
      x.toNat < tree.nodes.length ∧ q.length ≤ tree.nodes.length + 1 := by
    obtain ⟨node, hnode⟩ := hq.exists_node
    have hlt := (List.getElem?_eq_some_iff.mp hnode).1
    exact ⟨hlt, (hq.length_le hlinked).trans (by omega)⟩
  obtain ⟨rootA, hrootA, hrunA⟩ := ancestry_eq hlinked ha (hbound ha).1 0
  obtain ⟨rootB, hrootB, hrunB⟩ := ancestry_eq hlinked hb (hbound hb).1 0
  have hposA := ha.length_pos
  have hposB := hb.length_pos
  simp only [walkedCommonAncestor, hrunA, hrunB, bind_eq_bind, bind_some, Nat.zero_add]
  split_ifs with hroots
  · intro heq
    rw [hrootA, hrootB] at heq
    exact hroots (some.inj heq)
  · obtain ⟨upA, hupA, htakeA⟩ := ascend_eq (path.length - 1 - (other.length - 1)) ha (by omega)
    obtain ⟨upB, hupB, htakeB⟩ := ascend_eq (other.length - 1 - (path.length - 1)) hb (by omega)
    have hsizes : path.length - (path.length - 1 - (other.length - 1)) = min path.length other.length ∧
        other.length - (other.length - 1 - (path.length - 1)) = min path.length other.length := by omega
    rw [hsizes.1] at htakeA
    rw [hsizes.2] at htakeB
    have hroot : path[0]? = other[0]? := by
      rw [hrootA, hrootB, not_not.mp hroots]
    have hzero : 0 < min path.length other.length := by omega
    obtain ⟨common, hmeet, hparts⟩ := meet_parts tree.nodes.length htakeA htakeB
      (by rw [length_take, length_take]; omega)
      (by rw [getElem?_take_of_lt hzero, getElem?_take_of_lt hzero, hroot]) (hbound htakeA).2
    rw [hupA, hupB, bind_some, bind_some, hmeet]
    exact hparts.of_take rfl hzero

lemma Inv.findCommonAncestor_eq (h : Inv tree) (a b : NodeId) :
    tree.findCommonAncestor a b = tree.lowestCommonAncestor a b := by
  cases hnodeA : tree.nodes[a.toNat]? with
  | none =>
    rw [lowestCommonAncestor, chainFrom_unknown hnodeA, findCommonAncestor, hnodeA]
    simp [walkedCommonAncestor, ancestry_unknown hnodeA]
  | some nodeA =>
    obtain ⟨path, ha⟩ := h.linked.exists_path a hnodeA
    cases hnodeB : tree.nodes[b.toNat]? with
    | none =>
      have hempty : tree.lowestCommonAncestor a b = none := by
        rw [lowestCommonAncestor, chainFrom_unknown hnodeB]
        simp
      have hwalked : tree.walkedCommonAncestor a b = none := by
        obtain ⟨root, -, hrun⟩ := ancestry_eq h.linked ha (List.getElem?_eq_some_iff.mp hnodeA).1 0
        simp [walkedCommonAncestor, ancestry_unknown hnodeB]
      rw [hempty, findCommonAncestor, hnodeA, hnodeB]
      simp [joinActive_unknown hnodeB, hwalked]
    | some nodeB =>
      obtain ⟨other, hb⟩ := h.linked.exists_path b hnodeB
      refine Parts.eq h.linked ha hb ?_
      have hwalked := walkedCommonAncestor_parts h.linked ha hb
      rw [findCommonAncestor, hnodeA, hnodeB]
      split_ifs with htrusted
      · dsimp only
        split_ifs with hindexedA hindexedB
        · exact joinActive_parts h htrusted ha hnodeA hindexedA hb (List.getElem?_eq_some_iff.mp hnodeB).1
        · exact (joinActive_parts h htrusted hb hnodeB hindexedB ha (List.getElem?_eq_some_iff.mp hnodeA).1).symm
        · exact hwalked
      · exact hwalked

end

end BlockTree

namespace BlockTree

variable {tree : BlockTree} {path : List NodeId} {id : NodeId}

section

lemma walkSteps_eq (steps : ℕ) (hpath : PathTo tree.nodes path id) (walked : Bool) :
    ∃ up, (tree.walkSteps steps id walked).1 = up ∧ PathTo tree.nodes (path.take (path.length - 1 - steps + 1)) up ∧
      (tree.walkSteps steps id walked).2 = (walked || (decide (0 < steps) && decide (1 < path.length))) := by
  induction steps generalizing path id walked with
  | zero =>
    have hpos := hpath.length_pos
    refine ⟨id, rfl, ?_, by simp [walkSteps]⟩
    rwa [Nat.sub_zero, Nat.sub_add_cancel hpos, take_length]
  | succ steps ih =>
    cases hpath with
    | root hnode hparent =>
      have hnone : tree.parentOf id = none := by rw [parentOf, hnode]; exact hparent
      refine ⟨id, by simp [walkSteps, hnone], ?_, by simp [walkSteps, hnone]⟩
      simpa using PathTo.root hnode hparent
    | @child rest above _ _ hrest hnode hparent =>
      obtain ⟨up, hup, htake, hwalked⟩ := ih hrest true
      have hpos := hrest.length_pos
      refine ⟨up, by simpa [walkSteps, parentOf_child hnode hparent] using hup, ?_, ?_⟩
      · rw [length_append, length_singleton, Nat.add_sub_cancel, take_append_of_le_length (by omega)]
        rwa [show rest.length - (steps + 1) + 1 = rest.length - 1 - steps + 1 by omega]
      · simp [walkSteps, parentOf_child hnode hparent, hwalked]
        omega

def hashOn (tree : BlockTree) (path : List NodeId) (height : ℕ) : Option Hash256 :=
  (path[height]?).bind fun id => (tree.nodes[id.toNat]?).map BlockTreeNode.hash

lemma hashOn_eq {height : ℕ} {node : BlockTreeNode} (hget : path[height]? = some id)
    (hnode : tree.nodes[id.toNat]? = some node) : hashOn tree path height = some node.hash := by
  rw [hashOn, hget, bind_some, hnode, map_some]

lemma nextStep_min {bits : ℕ} (entries step : ℕ) : nextStep bits entries (min step (2 ^ bits - 1)) =
    min (if 10 < entries then step * 2 else step) (2 ^ bits - 1) := by
  unfold nextStep
  split_ifs <;> omega

lemma walkedLocatorLoop_eq (hlinked : Linked tree.nodes) {base : List NodeId} (room entries : ℕ) {step : ℕ}
    (hstep : 0 < step) (hpath : PathTo tree.nodes path id) (hbase : path <+: base) :
    tree.walkedLocatorLoop room entries id (min step (2 ^ 64 - 1)) =
      (locatorHeights room entries step (path.length - 1)).filterMap (hashOn tree base) := by
  induction room generalizing entries step path id with
  | zero => rfl
  | succ room ih =>
    obtain ⟨node, hnode⟩ := hpath.exists_node
    have hpos := hpath.length_pos
    have hlast : base[path.length - 1]? = some id := by
      rw [prefix_iff_eq_take.mp hbase] at hpath
      rw [← hpath.last, length_take, getElem?_take_of_lt, min_eq_left hbase.length_le]
      omega
    have hshort : path.length ≤ 2 ^ 32 := (hpath.length_le hlinked).trans id.toNat_lt
    obtain ⟨up, hup, htake, hwalked⟩ := walkSteps_eq (min step (2 ^ 64 - 1)) hpath false
    rw [walkedLocatorLoop, hnode, locatorHeights, filterMap_cons, hashOn_eq hlast hnode]
    simp only [walkParentSteps, hup, hwalked]
    by_cases hroot : path.length = 1
    · simp [hroot]
    · have hmore : 0 < min step (2 ^ 64 - 1) ∧ 1 < path.length := by omega
      have hsame : path.length - 1 - min step (2 ^ 64 - 1) = path.length - 1 - step := by omega
      rw [hsame] at htake
      have hlen : (path.take (path.length - 1 - step + 1)).length - 1 = path.length - 1 - step := by
        rw [length_take]
        omega
      have hgrown : 0 < if 10 < entries + 1 then step * 2 else step := by split_ifs <;> omega
      have hnext := ih (entries + 1) hgrown htake (( take_prefix _ _).trans hbase)
      rw [hlen] at hnext
      simp only [hmore.1, hmore.2, decide_true, Bool.and_self, Bool.or_true, if_true, nextStep_min, hnext,
        if_neg (show path.length - 1 ≠ 0 by omega)]

lemma indexedLocatorLoop_eq {tipId : NodeId} (room entries step : ℕ) (target : UInt32) {locator : List Hash256}
    (hrun : tree.indexedLocatorLoop tipId room entries target (min step (2 ^ 32 - 1)) = some locator) :
    locator = (locatorHeights room entries step target.toNat).filterMap
      (hashOn tree tree.activeByHeight.entries) := by
  induction room generalizing entries step target locator with
  | zero =>
    cases hrun
    rfl
  | succ room ih =>
    rw [indexedLocatorLoop] at hrun
    cases hget : tree.activeByHeight.get target with
    | none => rw [hget] at hrun; cases hrun
    | some nodeId =>
      cases hnode : tree.nodes[nodeId.toNat]? with
      | none => rw [hget] at hrun; simp only [hnode] at hrun; cases hrun
      | some node =>
        rw [hget] at hrun
        simp only [hnode] at hrun
        rw [locatorHeights, filterMap_cons, hashOn_eq hget hnode]
        split_ifs at hrun with hbad hzero
        · cases hrun
          rw [if_pos (by rw [hzero]; rfl), filterMap_nil]
        · obtain ⟨rest, hrest, rfl⟩ := map_eq_some_iff.mp hrun
          have hlt := target.toNat_lt
          have hsame : target.toNat - min step (2 ^ 32 - 1) = target.toNat - step := by omega
          rw [hsame, nextStep_min] at hrest
          have hnext := ih _ _ _ hrest
          rw [UInt32.toNat_ofNat_of_lt' (lt_of_le_of_lt (Nat.sub_le _ _) hlt)] at hnext
          have hpos : target.toNat ≠ 0 := fun heq => hzero (UInt32.toNat_inj.mp heq)
          rw [if_neg hpos, hnext]

lemma plainLocator_eq (hlinked : Linked tree.nodes) (hpath : PathTo tree.nodes path id) (maxEntries : ℕ) :
    tree.plainLocator id maxEntries =
      (locatorHeights maxEntries 0 1 (path.length - 1)).filterMap (hashOn tree path) := by
  have hne : path.reverse ≠ [] := ne_nil_of_length_pos (by rw [length_reverse]; exact hpath.length_pos)
  simp only [plainLocator, chainFrom_eq hlinked hpath, if_neg hne, length_reverse]
  congr 1
  funext height
  rw [hashAt, reverse_reverse, hashOn]

lemma Inv.blockLocator_eq (h : Inv tree) (tipId : NodeId) (maxEntries : ℕ) :
    tree.blockLocator tipId maxEntries = tree.plainLocator tipId maxEntries := by
  cases hnode : tree.nodes[tipId.toNat]? with
  | none =>
    have hindexed : tree.indexedBlockLocator tipId maxEntries = none := by
      rw [indexedBlockLocator, hnode]
      exact ite_self _
    have hwalked : tree.walkedBlockLocator tipId maxEntries = [] := by
      unfold walkedBlockLocator
      cases maxEntries with
      | zero => rfl
      | succ room => rw [walkedLocatorLoop, hnode]
    rw [blockLocator, hindexed, plainLocator, chainFrom_unknown hnode]
    exact hwalked
  | some tip =>
    obtain ⟨path, hpath⟩ := h.linked.exists_path tipId hnode
    rw [plainLocator_eq h.linked hpath, blockLocator]
    cases hindexed : tree.indexedBlockLocator tipId maxEntries with
    | none => exact walkedLocatorLoop_eq h.linked maxEntries 0 one_pos hpath (prefix_refl path)
    | some locator =>
      rw [indexedBlockLocator, hnode] at hindexed
      split_ifs at hindexed with hskip
      simp only [Bool.or_eq_true, decide_eq_true_eq, Bool.not_eq_true', not_or, Bool.not_eq_false, not_not] at hskip
      obtain ⟨⟨-, htrusted⟩, hlast⟩ := hskip
      obtain ⟨last, hactive⟩ := h.path_of_trusted htrusted
      obtain rfl : last = tipId := some.inj (hactive.ends_at.symm.trans hlast)
      rw [indexedLocatorLoop_eq maxEntries 0 1 tip.height hindexed, hactive.unique hpath,
        hpath.length_eq h.linked hnode, Nat.add_sub_cancel]

end

/-- In every tree reached by insertions and invalidations the queries answer as walks along parent pointers do: the
ancestor at a height (where the budget suffices for such a walk), the lowest common ancestor, and the locator. -/
theorem queries_eq_walks (computeHash : Header → Hash256) (ops : List TreeOp) :
    (∀ start target remaining,
      ((run computeHash ops).nodeAtHeightFromBounded start target remaining).1 =
          .ok ((run computeHash ops).ancestorAt start target) ∨
        ((run computeHash ops).nodeAtHeightFromBounded start target remaining).1 = .error .exceeded ∧
          ∃ node, (run computeHash ops).node start = .ok node ∧ remaining < node.height.toNat - target.toNat) ∧
      (∀ start target, (run computeHash ops).nodeAtHeightFrom start target =
        (run computeHash ops).ancestorAt start target) ∧
      (∀ a b, (run computeHash ops).findCommonAncestor a b = (run computeHash ops).lowestCommonAncestor a b) ∧
      ∀ tipId maxEntries, (run computeHash ops).blockLocator tipId maxEntries =
        (run computeHash ops).plainLocator tipId maxEntries := by
  have h := inv_run computeHash ops
  exact ⟨h.nodeAtHeight, h.nodeAtHeightFrom_eq, h.findCommonAncestor_eq, h.blockLocator_eq⟩

end BlockTree

end BitcoinRs.Chain
