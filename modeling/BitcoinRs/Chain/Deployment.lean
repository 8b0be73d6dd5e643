import BitcoinRs.Chain.TreeQueries
import Mathlib.Data.List.Sort

namespace BitcoinRs.Chain

inductive Network
  | mainnet
  | testnet3
  | testnet4
  | signet
  | regtest

inductive DeploymentState
  | defined
  | started
  | lockedIn
  | active
  | failed
  deriving DecidableEq

namespace DeploymentState

def cacheTag : DeploymentState → UInt8
  | defined => 0
  | started => 1
  | lockedIn => 2
  | active => 3
  | failed => 4

def fromCacheTag (tag : UInt8) : Option DeploymentState :=
  if tag = 0 then some defined
  else if tag = 1 then some started
  else if tag = 2 then some lockedIn
  else if tag = 3 then some active
  else if tag = 4 then some failed
  else none

lemma fromCacheTag_cacheTag (state : DeploymentState) : fromCacheTag state.cacheTag = some state := by
  cases state <;> rfl

end DeploymentState

structure DeploymentParams where
  bit : UInt8
  startTime : UInt32
  timeout : UInt32
  period : UInt32
  threshold : UInt32

def versionbitsTopMask : UInt32 := 0xe0000000
def versionbitsTopBits : UInt32 := 0x20000000

def DeploymentParams.signals (params : DeploymentParams) (version : Int32) : Bool :=
  params.bit < 32 && version.toUInt32 &&& versionbitsTopMask == versionbitsTopBits &&
    version.toUInt32 &&& ((1 : UInt32) <<< params.bit.toUInt32) != 0

def bip9Period : UInt32 := 2016
def csvDeploymentId : UInt32 := 0
def segwitDeploymentId : UInt32 := 1

def deploymentTimes : Network → Option (UInt32 × (UInt32 × UInt32) × UInt32 × UInt32)
  | .mainnet => some (1916, (1462060800, 1493596800), 1479168000, 1510704000)
  | .testnet3 => some (1512, (1456790400, 1493596800), 1462060800, 1493596800)
  | .testnet4 | .signet | .regtest => none

def deploymentParams (network : Network) (deploymentId : UInt32) : Option DeploymentParams :=
  match deploymentTimes network with
  | none => none
  | some (threshold, csv, segwit) =>
    if deploymentId = csvDeploymentId then some ⟨0, csv.1, csv.2, bip9Period, threshold⟩
    else if deploymentId = segwitDeploymentId then some ⟨1, segwit.1, segwit.2, bip9Period, threshold⟩
    else none

lemma period_of_deploymentParams {network : Network} {deploymentId : UInt32} {params : DeploymentParams}
    (h : deploymentParams network deploymentId = some params) : params.period = bip9Period := by
  unfold deploymentParams at h
  split at h
  · cases h
  · split_ifs at h <;> cases h <;> rfl

structure DeploymentContext where
  blockVersion : UInt32 → Option Int32
  medianTimePast : UInt32 → Option UInt32

namespace DeploymentContext

variable (ctx : DeploymentContext) (params : DeploymentParams)

def countSignals (windowStart windowEnd : ℕ) : ℕ :=
  ((List.range' windowStart (windowEnd - windowStart)).filter fun height =>
    (ctx.blockVersion (UInt32.ofNat height)).any params.signals).length

def advance (priorBoundary boundary : ℕ) : DeploymentState → DeploymentState
  | .defined =>
    match ctx.medianTimePast (UInt32.ofNat (boundary - 1)) with
    | none => .defined
    | some mtp =>
      if params.timeout ≤ mtp then .failed
      else if params.startTime ≤ mtp then .started
      else .defined
  | .started =>
    match ctx.medianTimePast (UInt32.ofNat (boundary - 1)) with
    | none => .started
    | some mtp =>
      if params.timeout ≤ mtp then .failed
      else if 32 ≤ params.bit then .started
      else if params.threshold.toNat ≤ ctx.countSignals params (max priorBoundary 1) boundary then .lockedIn
      else .started
  | .lockedIn | .active => .active
  | .failed => .failed

/-- `compute_state_at_boundary`, at the boundary after a number of periods. -/
def computeStateAtBoundary : ℕ → DeploymentState
  | 0 => .defined
  | periods + 1 => ctx.advance params (periods * params.period.toNat) ((periods + 1) * params.period.toNat)
      (computeStateAtBoundary periods)

def computeState (height : UInt32) : DeploymentState :=
  if params.period = 0 then .defined
  else ctx.computeStateAtBoundary params (height / params.period).toNat

end DeploymentContext

def medianTimePastWindow : ℕ := 11

def median (times : List UInt32) : Option UInt32 := (times.mergeSort (fun a b => decide (a ≤ b)))[times.length / 2]?

structure DeploymentView where
  tipId : NodeId
  ancestry : Option (List NodeId)

inductive DeploymentQueryError
  | chain (e : ChainError)
  | budget (limit : ℕ)
  | incompleteAncestry

namespace BlockTree

variable (tree : BlockTree)

def pastTimes : ℕ → NodeId → List UInt32
  | 0, _ => []
  | room + 1, cursor =>
    match tree.nodes[cursor.toNat]? with
    | none => []
    | some node => node.header.time :: (node.parent.map (pastTimes room)).getD []

def medianTimePastAt (startId : NodeId) : Option UInt32 := median (tree.pastTimes medianTimePastWindow startId)

def activeNodeAtHeight (height : UInt32) : Option BlockTreeNode :=
  tree.tip.bind fun tip => (tree.nodeAtHeightFrom tip.tipId height).bind fun id => tree.nodes[id.toNat]?

end BlockTree

namespace DeploymentView

variable (tree : BlockTree)

def new (tipId : NodeId) : DeploymentView := ⟨tipId, none⟩

def gather : ℕ → Option NodeId → Except DeploymentQueryError (List NodeId)
  | 0, _ => .ok []
  | _ + 1, none => .error .incompleteAncestry
  | expected + 1, some id =>
    match tree.nodes[id.toNat]? with
    | none => .error (.chain (.unknownNode id))
    | some node =>
      if node.height.toNat ≠ expected then .error .incompleteAncestry
      else (gather expected node.parent).map (id :: ·)

def forQuery (tipId : NodeId) (budget : ℕ) : Except DeploymentQueryError DeploymentView :=
  match tree.nodes[tipId.toNat]? with
  | none => .error (.chain (.unknownNode tipId))
  | some node =>
    if (tree.activeNodeAtHeight node.height).any fun active => active.hash = node.hash then .ok (new tipId)
    else if budget < node.height.toNat + 1 then .error (.budget budget)
    else (gather tree (node.height.toNat + 1) (some tipId)).map fun ancestry => ⟨tipId, some ancestry⟩

variable (view : DeploymentView)

def nodeAtHeight (height : UInt32) : Option NodeId :=
  match view.ancestry with
  | some ancestry =>
    if height.toNat + 1 ≤ ancestry.length then ancestry[ancestry.length - (height.toNat + 1)]? else none
  | none => tree.nodeAtHeightFrom view.tipId height

def context : DeploymentContext where
  blockVersion height := (view.nodeAtHeight tree height).bind fun id =>
    (tree.nodes[id.toNat]?).map fun node => node.header.version
  medianTimePast height := (view.nodeAtHeight tree height).bind tree.medianTimePastAt

end DeploymentView

namespace BlockTree

variable (tree : BlockTree)

def cachedBip9State (nodeId : NodeId) (deploymentId : UInt32) : Option UInt8 :=
  tree.bip9Cache.lookup (nodeId, deploymentId)

def cacheBip9State (nodeId : NodeId) (deploymentId : UInt32) (tag : UInt8) : BlockTree :=
  { tree with bip9Cache := ((nodeId, deploymentId), tag) :: tree.bip9Cache }

def cachedDeploymentState (view : DeploymentView) (height deploymentId : UInt32) (params : DeploymentParams) :
    DeploymentState × BlockTree :=
  let state := (view.context tree).computeState params height
  let periodStart := (height / params.period) * params.period
  if periodStart = 0 then (state, tree)
  else
    match view.nodeAtHeight tree (periodStart - 1) with
    | none => (state, tree)
    | some anchorNode =>
      match (tree.cachedBip9State anchorNode deploymentId).bind DeploymentState.fromCacheTag with
      | some cached => (cached, tree)
      | none => (state, tree.cacheBip9State anchorNode deploymentId state.cacheTag)

end BlockTree

open List DeploymentView Option UInt32

namespace DeploymentContext

def AgreeBelow (ctx ctx' : DeploymentContext) (bound : ℕ) : Prop :=
  ∀ height : UInt32, height.toNat < bound → ctx.blockVersion height = ctx'.blockVersion height ∧
    ctx.medianTimePast height = ctx'.medianTimePast height

variable {ctx ctx' : DeploymentContext} {params : DeploymentParams}

lemma AgreeBelow.mono {bound bound' : ℕ} (h : AgreeBelow ctx ctx' bound) (hle : bound' ≤ bound) :
    AgreeBelow ctx ctx' bound' := fun height hlt => h height (hlt.trans_le hle)

lemma countSignals_congr {windowStart windowEnd : ℕ} (h : AgreeBelow ctx ctx' windowEnd) (hend : windowEnd ≤ 2 ^ 32) :
    ctx.countSignals params windowStart windowEnd = ctx'.countSignals params windowStart windowEnd := by
  unfold countSignals
  congr 1
  refine filter_congr fun height hmem => ?_
  have hlt : height < windowEnd := by
    have hrange := mem_range'_1.mp hmem
    omega
  have hnat : (ofNat height).toNat = height := toNat_ofNat_of_lt' (hlt.trans_le hend)
  rw [(h (ofNat height) (by rwa [hnat])).1]

lemma computeStateAtBoundary_congr (periods : ℕ) (hperiod : 0 < params.period.toNat)
    (h : AgreeBelow ctx ctx' (periods * params.period.toNat)) (hbound : periods * params.period.toNat ≤ 2 ^ 32) :
    ctx.computeStateAtBoundary params periods = ctx'.computeStateAtBoundary params periods := by
  induction periods with
  | zero => rfl
  | succ periods ih =>
    have hgrow : periods * params.period.toNat ≤ (periods + 1) * params.period.toNat :=
      Nat.mul_le_mul_right _ (Nat.le_succ _)
    have hpos : 0 < (periods + 1) * params.period.toNat := Nat.mul_pos (Nat.succ_pos _) hperiod
    have hlast : (ofNat ((periods + 1) * params.period.toNat - 1)).toNat = (periods + 1) * params.period.toNat - 1 :=
      toNat_ofNat_of_lt' (lt_of_lt_of_le (Nat.sub_lt hpos one_pos) hbound)
    have hmtp := (h (ofNat ((periods + 1) * params.period.toNat - 1)) (by omega)).2
    rw [computeStateAtBoundary, computeStateAtBoundary, ih (h.mono hgrow) (hgrow.trans hbound)]
    cases ctx'.computeStateAtBoundary params periods <;> simp only [advance, hmtp, countSignals_congr h hbound]

end DeploymentContext

def branchContext (headers : List Header) : DeploymentContext where
  blockVersion height := (headers[height.toNat]?).map Header.version
  medianTimePast height :=
    if height.toNat < headers.length then
      median (((headers.take (height.toNat + 1)).reverse.take medianTimePastWindow).map Header.time)
    else none

lemma branchContext_take (headers : List Header) (bound : ℕ) :
    (branchContext (headers.take bound)).AgreeBelow (branchContext headers) bound := by
  intro height hlt
  constructor
  · simp only [branchContext, getElem?_take_of_lt hlt]
  · have hmin : min (height.toNat + 1) bound = height.toNat + 1 := by omega
    simp only [branchContext, length_take, take_take, hmin, lt_min_iff, hlt, true_and]

namespace BlockTree

variable (tree : BlockTree)

def headerOf (id : NodeId) : Option Header := (tree.nodes[id.toNat]?).map BlockTreeNode.header

def branchHeaders (tipId : NodeId) : List Header := (tree.chainFrom tipId).reverse.filterMap tree.headerOf

end BlockTree

variable {α β : Type}

lemma map_some_filterMap {f : α → Option β} {items : List α} (h : ∀ a ∈ items, (f a).isSome) :
    (items.filterMap f).map some = items.map f := by
  induction items with
  | nil => rfl
  | cons a rest ih =>
    obtain ⟨hfirst, hrest⟩ := forall_mem_cons.mp h
    obtain ⟨b, hb⟩ := isSome_iff_exists.mp hfirst
    rw [filterMap_cons, hb, map_cons, map_cons, ih hrest, hb]

lemma mem_of_lookup [BEq α] [LawfulBEq α] {items : List (α × β)} {key : α} {value : β}
    (h : items.lookup key = some value) : (key, value) ∈ items := by
  obtain ⟨before, after, rfl, -⟩ := lookup_eq_some_iff.mp h
  exact mem_append_right _ mem_cons_self

namespace BlockTree

variable {tree : BlockTree} {path : List NodeId} {id : NodeId} {headers : List Header}

lemma branchHeaders_eq (hlinked : Linked tree.nodes) (hpath : PathTo tree.nodes path id) :
    (tree.branchHeaders id).map some = path.map tree.headerOf := by
  rw [branchHeaders, chainFrom_eq hlinked hpath, reverse_reverse]
  refine map_some_filterMap fun entry hentry => ?_
  obtain ⟨i, hi⟩ := mem_iff_getElem?.mp hentry
  obtain ⟨node, hnode, -⟩ := hpath.heights hlinked hi
  rw [headerOf, hnode]
  rfl

lemma pastTimes_eq (hpath : PathTo tree.nodes path id) (hheaders : headers.map some = path.map tree.headerOf)
    (room : ℕ) : tree.pastTimes room id = (headers.reverse.take room).map Header.time := by
  induction hpath generalizing room headers with
  | @root id node hnode hparent =>
    cases room with
    | zero => rfl
    | succ room =>
      rw [map_singleton, headerOf, hnode] at hheaders
      obtain ⟨header, rfl⟩ : ∃ header, headers = [header] := by
        refine length_eq_one_iff.mp ?_
        simpa using congrArg length hheaders
      cases hheaders
      simp [pastTimes, hnode, hparent]
  | @child path above id node hpath hnode hparent ih =>
    cases room with
    | zero => rfl
    | succ room =>
      rw [map_append, map_singleton, headerOf, hnode] at hheaders
      obtain ⟨before, last, rfl, hbefore, hlast⟩ := map_eq_append_iff.mp hheaders
      obtain ⟨header, rfl⟩ : ∃ header, last = [header] := by
        refine length_eq_one_iff.mp ?_
        simpa using congrArg length hlast
      cases hlast
      simp [pastTimes, hnode, hparent, ih hbefore]

def Reads (tree : BlockTree) (view : DeploymentView) (path : List NodeId) : Prop :=
  ∀ height : UInt32, view.nodeAtHeight tree height = path[height.toNat]?

variable {view : DeploymentView}

lemma context_eq (hpath : PathTo tree.nodes path id) (hheaders : headers.map some = path.map tree.headerOf)
    (hview : Reads tree view path) : view.context tree = branchContext headers := by
  have hentry (i : ℕ) : (headers[i]?).map some = (path[i]?).map tree.headerOf := by
    rw [← getElem?_map, hheaders, getElem?_map]
  have hlen : headers.length = path.length := by simpa using congrArg length hheaders
  unfold context branchContext
  congr 1
  · funext height
    rw [hview height]
    have hat := hentry height.toNat
    cases hget : path[height.toNat]? with
    | none =>
      rw [hget] at hat
      rw [map_eq_none_iff.mp hat]
      rfl
    | some entry =>
      rw [hget] at hat
      obtain ⟨header, hheader, hof⟩ := map_eq_some_iff.mp hat
      obtain ⟨node, hnode, rfl⟩ := map_eq_some_iff.mp hof.symm
      rw [hheader, bind_some, hnode]
      rfl
  · funext height
    rw [hview height]
    cases hget : path[height.toNat]? with
    | none =>
      rw [if_neg (by rw [hlen]; exact Nat.not_lt.mpr (getElem?_eq_none_iff.mp hget))]
      rfl
    | some entry =>
      have hlt := (List.getElem?_eq_some_iff.mp hget).1
      rw [if_pos (by rwa [hlen]), bind_some, medianTimePastAt, pastTimes_eq (hpath.take hget)]
      rw [map_take, hheaders, map_take]

lemma reads_new (h : Inv tree) (hpath : PathTo tree.nodes path id) : Reads tree (.new id) path := by
  intro height
  change tree.nodeAtHeightFrom id height = _
  rw [h.nodeAtHeightFrom_eq, ancestorAt_eq h.linked hpath]

lemma gather_eq (hlinked : Linked tree.nodes) (hpath : PathTo tree.nodes path id) :
    DeploymentView.gather tree path.length (some id) = .ok path.reverse := by
  induction hpath with
  | @root id node hnode hparent =>
    have hzero : node.height.toNat = 0 := by rw [(hlinked.root _ _ hnode hparent).1]; rfl
    simp [gather, hnode, hzero, Except.map]
  | @child path above id node hpath hnode hparent ih =>
    have hheight : node.height.toNat = path.length := by
      have hlen := (PathTo.child hpath hnode hparent).length_eq hlinked hnode
      rw [length_append, length_singleton] at hlen
      omega
    rw [length_append, length_singleton, gather, hnode]
    simp [hheight, hparent, ih, Except.map]

lemma reads_forQuery (h : Inv tree) (hpath : PathTo tree.nodes path id) {budget : ℕ}
    (hview : DeploymentView.forQuery tree id budget = .ok view) (cache : List ((NodeId × UInt32) × UInt8)) :
    Reads { tree with bip9Cache := cache } view path := by
  obtain ⟨node, hnode⟩ := hpath.exists_node
  rw [forQuery, hnode] at hview
  dsimp only at hview
  split_ifs at hview with hactive hbudget
  · cases hview
    have hinv : Inv { tree with bip9Cache := cache } := ⟨h.linked, h.closed, h.tip, h.index⟩
    exact reads_new hinv hpath
  · rw [← hpath.length_eq h.linked hnode, gather_eq h.linked hpath] at hview
    cases hview
    intro height
    simp only [nodeAtHeight, length_reverse]
    split_ifs with hlt
    · rw [getElem?_reverse (by omega)]
      congr 1
      omega
    · rw [getElem?_eq_none (by omega)]

lemma forQuery_ok (h : Inv tree) (hpath : PathTo tree.nodes path id) {node : BlockTreeNode}
    (hnode : tree.nodes[id.toNat]? = some node) {budget : ℕ} (hbudget : node.height.toNat < budget) :
    ∃ view, DeploymentView.forQuery tree id budget = .ok view := by
  rw [forQuery, hnode]
  dsimp only
  rw [if_neg (Nat.not_lt.mpr hbudget), ← hpath.length_eq h.linked hnode, gather_eq h.linked hpath]
  split_ifs <;> exact ⟨_, rfl⟩

lemma branchHeaders_take (hlinked : Linked tree.nodes) (hpath : PathTo tree.nodes path id) {i : ℕ} {entry : NodeId}
    (hi : path[i]? = some entry) : tree.branchHeaders entry = (tree.branchHeaders id).take (i + 1) := by
  refine map_injective_iff.mpr (some_injective _) ?_
  rw [branchHeaders_eq hlinked (hpath.take hi), map_take, map_take, branchHeaders_eq hlinked hpath]

def stateAfter (tree : BlockTree) (params : DeploymentParams) (anchor : NodeId) : DeploymentState :=
  (branchContext (tree.branchHeaders anchor)).computeStateAtBoundary params
    ((tree.branchHeaders anchor).length / params.period.toNat)

def EntryOk (network : Network) (tree : BlockTree) (entry : (NodeId × UInt32) × UInt8) : Prop :=
  (∃ node, tree.nodes[entry.1.1.toNat]? = some node) ∧
    ∀ params, deploymentParams network entry.1.2 = some params → entry.2 = (tree.stateAfter params entry.1.1).cacheTag

def CacheOk (network : Network) (tree : BlockTree) : Prop := ∀ entry ∈ tree.bip9Cache, EntryOk network tree entry

variable {nodes nodes' : List BlockTreeNode}

lemma Extends.node (h : Extends nodes nodes') {i : ℕ} {node : BlockTreeNode}
    (hnode : nodes[i]? = some node) : ∃ node', nodes'[i]? = some node' ∧ node'.shape = node.shape := by
  have hget : (nodes.map BlockTreeNode.shape)[i]? = some node.shape := by rw [getElem?_map, hnode, map_some]
  have hget' := (prefix_iff_getElem?.mp h) i (List.getElem?_eq_some_iff.mp hget).1
  rw [← getElem?_eq_getElem, hget, getElem?_map] at hget'
  exact map_eq_some_iff.mp hget'

lemma Extends.pathTo (h : Extends nodes nodes') (hpath : PathTo nodes path id) : PathTo nodes' path id :=
  hpath.of_shapes h.node

section

variable {network : Network} {tree' : BlockTree} (hlinked : Linked tree.nodes) (hlinked' : Linked tree'.nodes)
  (hextends : Extends tree.nodes tree'.nodes)

include hlinked hlinked' hextends

lemma branchHeaders_extends {node : BlockTreeNode} (hnode : tree.nodes[id.toNat]? = some node) :
    tree'.branchHeaders id = tree.branchHeaders id := by
  obtain ⟨path, hpath⟩ := hlinked.exists_path id hnode
  refine map_injective_iff.mpr (some_injective _) ?_
  rw [branchHeaders_eq hlinked hpath, branchHeaders_eq hlinked' (Extends.pathTo hextends hpath)]
  refine map_congr_left fun entry hentry => ?_
  obtain ⟨i, hi⟩ := mem_iff_getElem?.mp hentry
  obtain ⟨above, habove, -⟩ := hpath.heights hlinked hi
  obtain ⟨above', habove', hshape⟩ := Extends.node hextends habove
  rw [headerOf, headerOf, habove, habove']
  have hheader : above'.shape.header = above.shape.header := congrArg BlockTreeNode.header hshape
  exact congrArg some hheader

lemma EntryOk.extends {entry : (NodeId × UInt32) × UInt8} (h : EntryOk network tree entry) :
    EntryOk network tree' entry := by
  obtain ⟨⟨node, hnode⟩, htag⟩ := h
  obtain ⟨node', hnode', -⟩ := Extends.node hextends hnode
  refine ⟨⟨node', hnode'⟩, fun params hparams => ?_⟩
  rw [htag params hparams, stateAfter, stateAfter, branchHeaders_extends hlinked hlinked' hextends hnode]

end

lemma EntryOk.withCache {network : Network} {entry : (NodeId × UInt32) × UInt8} (h : EntryOk network tree entry)
    (hlinked : Linked tree.nodes) (cache : List ((NodeId × UInt32) × UInt8)) :
    EntryOk network { tree with bip9Cache := cache } entry := by
  have hlinked' : Linked (BlockTree.mk tree.nodes tree.byHash tree.activeByHeight tree.tip cache).nodes := hlinked
  exact EntryOk.extends hlinked hlinked' (prefix_refl _) h

section

variable {network : Network} (h : Inv tree) {height deploymentId : UInt32}
  {params : DeploymentParams} (hparams : deploymentParams network deploymentId = some params)

include hparams

lemma period_pos : 0 < params.period.toNat := by
  rw [period_of_deploymentParams hparams]
  decide

omit hparams in
lemma periodStart_eq : ((height / params.period) * params.period).toNat =
    height.toNat / params.period.toNat * params.period.toNat := by
  have hle : height.toNat / params.period.toNat * params.period.toNat ≤ height.toNat := Nat.div_mul_le_self _ _
  rw [UInt32.toNat_mul, UInt32.toNat_div, Nat.mod_eq_of_lt (lt_of_le_of_lt hle height.toNat_lt)]

lemma computeState_eq (ctx : DeploymentContext) : ctx.computeState params height =
    ctx.computeStateAtBoundary params (height.toNat / params.period.toNat) := by
  have hne : params.period ≠ 0 := by
    rintro heq
    have hpos := period_pos hparams
    rw [heq] at hpos
    exact absurd hpos (by decide)
  rw [DeploymentContext.computeState, if_neg hne, UInt32.toNat_div]

include h

lemma computeState_anchor (hpath : PathTo tree.nodes path id) {anchor : NodeId}
    (hstart : (height / params.period) * params.period ≠ 0)
    (hanchor : path[((height / params.period) * params.period - 1).toNat]? = some anchor) :
    (branchContext (tree.branchHeaders id)).computeState params height = tree.stateAfter params anchor := by
  have hpos := period_pos hparams
  have heq : _ = height.toNat / params.period.toNat * params.period.toNat := periodStart_eq
  have hone : (1 : UInt32) ≤ (height / params.period) * params.period := by
    have hne : ((height / params.period) * params.period).toNat ≠ 0 := fun hz => hstart (UInt32.toNat_inj.mp hz)
    exact Nat.one_le_iff_ne_zero.mpr hne
  have hsub : ((height / params.period) * params.period - 1).toNat + 1 =
      height.toNat / params.period.toNat * params.period.toNat := by
    rw [UInt32.toNat_sub_of_le _ _ hone, heq]
    rw [le_iff_toNat_le, heq] at hone
    exact Nat.sub_add_cancel hone
  have htake := branchHeaders_take h.linked hpath hanchor
  have hlen : (tree.branchHeaders anchor).length = height.toNat / params.period.toNat * params.period.toNat := by
    have hmap := congrArg length (branchHeaders_eq h.linked (hpath.take hanchor))
    rw [length_map, length_map, length_take] at hmap
    have hlt := (List.getElem?_eq_some_iff.mp hanchor).1
    omega
  rw [computeState_eq hparams, stateAfter, hlen, Nat.mul_div_cancel _ hpos, htake, hsub]
  refine (DeploymentContext.computeStateAtBoundary_congr _ hpos (branchContext_take _ _) ?_).symm
  exact (Nat.div_mul_le_self _ _).trans height.toNat_lt.le

lemma cachedDeploymentState_eq (hcache : CacheOk network tree) (hpath : PathTo tree.nodes path id)
    (hview : Reads tree view path) :
    (tree.cachedDeploymentState view height deploymentId params).1 =
        (branchContext (tree.branchHeaders id)).computeState params height ∧
      ∃ cache, (tree.cachedDeploymentState view height deploymentId params).2 = { tree with bip9Cache := cache } ∧
        CacheOk network { tree with bip9Cache := cache } := by
  have hcontext := context_eq hpath (branchHeaders_eq h.linked hpath) hview
  unfold cachedDeploymentState
  rw [hcontext]
  dsimp only
  split_ifs with hstart
  · exact ⟨rfl, tree.bip9Cache, rfl, hcache⟩
  · rw [hview]
    cases hanchor : path[((height / params.period) * params.period - 1).toNat]? with
    | none => exact ⟨rfl, tree.bip9Cache, rfl, hcache⟩
    | some anchor =>
      have hstate := computeState_anchor h hparams hpath hstart hanchor
      dsimp only
      cases hlookup : (tree.cachedBip9State anchor deploymentId).bind DeploymentState.fromCacheTag with
      | some cached =>
        obtain ⟨tag, htag, hfrom⟩ := bind_eq_some_iff.mp hlookup
        refine ⟨?_, tree.bip9Cache, rfl, hcache⟩
        have hentry := (hcache _ (mem_of_lookup htag)).2 params hparams
        dsimp only at hentry ⊢
        rw [hentry, DeploymentState.fromCacheTag_cacheTag] at hfrom
        rw [hstate, ← some.inj hfrom]
      | none =>
        obtain ⟨node, hnode, -⟩ := hpath.heights h.linked hanchor
        have hfresh : EntryOk network tree ((anchor, deploymentId),
            ((branchContext (tree.branchHeaders id)).computeState params height).cacheTag) := by
          refine ⟨⟨node, hnode⟩, fun params' hparams' => ?_⟩
          obtain rfl : params = params' := some.inj (hparams.symm.trans hparams')
          rw [hstate]
        refine ⟨rfl, _, rfl, fun entry hentry => ?_⟩
        have hold : EntryOk network tree entry := by
          rcases mem_cons.mp hentry with rfl | hmem
          · exact hfresh
          · exact hcache entry hmem
        exact hold.withCache h.linked _

end

end BlockTree

inductive TreeCall
  | update (op : TreeOp)
  | query (budget : Option ℕ) (tipId : NodeId) (height deploymentId : UInt32)

namespace BlockTree

variable (network : Network) (computeHash : Header → Hash256) {tree : BlockTree}

def viewFor (tree : BlockTree) (tipId : NodeId) : Option ℕ → Except DeploymentQueryError DeploymentView
  | none => .ok (.new tipId)
  | some budget => DeploymentView.forQuery tree tipId budget

def call (tree : BlockTree) : TreeCall → BlockTree
  | .update op => apply computeHash tree op
  | .query budget tipId height deploymentId =>
    match tree.viewFor tipId budget, deploymentParams network deploymentId with
    | .ok view, some params => (tree.cachedDeploymentState view height deploymentId params).2
    | _, _ => tree

def runCalls (calls : List TreeCall) : BlockTree := calls.foldl (call network computeHash) new

variable {view : DeploymentView} {budget : Option ℕ}

lemma reads_viewFor (h : Inv tree) {path : List NodeId} {id : NodeId} (hpath : PathTo tree.nodes path id)
    (hview : tree.viewFor id budget = .ok view) : Reads tree view path := by
  cases budget with
  | none =>
    cases hview
    exact reads_new h hpath
  | some budget => exact reads_forQuery h hpath hview tree.bip9Cache

lemma cachedDeploymentState_unknown (h : Inv tree) {id : NodeId} (hnode : tree.nodes[id.toNat]? = none)
    (hview : tree.viewFor id budget = .ok view) (height deploymentId : UInt32) (params : DeploymentParams) :
    (tree.cachedDeploymentState view height deploymentId params).2 = tree := by
  cases budget with
  | some budget =>
    rw [viewFor, forQuery, hnode] at hview
    cases hview
  | none =>
    cases hview
    have hnone (target : UInt32) : (DeploymentView.new id).nodeAtHeight tree target = none := by
      change tree.nodeAtHeightFrom id target = none
      rw [h.nodeAtHeightFrom_eq, ancestorAt, chainFrom_unknown hnode]
      rfl
    rw [cachedDeploymentState]
    simp only [hnone, ite_self]

lemma call_keeps (h : Inv tree) (hcache : CacheOk network tree) (request : TreeCall) :
    Inv (call network computeHash tree request) ∧ CacheOk network (call network computeHash tree request) := by
  cases request with
  | update op =>
    obtain ⟨hinv, hextends⟩ := apply_advances computeHash h op
    exact ⟨hinv, fun entry hentry => EntryOk.extends h.linked hinv.linked hextends
      (hcache entry (apply_cache computeHash tree op hentry))⟩
  | query budget tipId height deploymentId =>
    rw [call]
    cases hview : tree.viewFor tipId budget with
    | error e => exact ⟨h, hcache⟩
    | ok view =>
      cases hparams : deploymentParams network deploymentId with
      | none => exact ⟨h, hcache⟩
      | some params =>
        dsimp only
        cases hnode : tree.nodes[tipId.toNat]? with
        | none =>
          rw [cachedDeploymentState_unknown h hnode hview]
          exact ⟨h, hcache⟩
        | some node =>
          obtain ⟨path, hpath⟩ := h.linked.exists_path tipId hnode
          obtain ⟨-, cache, hstate, hok⟩ := cachedDeploymentState_eq h hparams hcache hpath
            (reads_viewFor h hpath hview)
          rw [hstate]
          exact ⟨⟨h.linked, h.closed, h.tip, h.index⟩, hok⟩

lemma runCalls_keeps (calls : List TreeCall) :
    Inv (runCalls network computeHash calls) ∧ CacheOk network (runCalls network computeHash calls) := by
  suffices hloop : ∀ (calls : List TreeCall) (tree : BlockTree), Inv tree → CacheOk network tree →
      Inv (calls.foldl (call network computeHash) tree) ∧ CacheOk network (calls.foldl (call network computeHash) tree)
        from
    hloop calls new inv_new (fun entry hentry => by cases hentry)
  intro calls
  induction calls with
  | nil => exact fun tree h hcache => ⟨h, hcache⟩
  | cons request rest ih =>
    intro tree h hcache
    obtain ⟨hinv, hok⟩ := call_keeps network computeHash h hcache request
    exact ih _ hinv hok

/-- After any calls, a query gives the state that the headers of its branch give, whatever has been cached, and
changes nothing but the cache. -/
theorem cached_state_eq_computed (calls : List TreeCall) (budget : Option ℕ) (tipId : NodeId) (node : BlockTreeNode)
    (hnode : (runCalls network computeHash calls).node tipId = .ok node) (view : DeploymentView)
    (hview : (runCalls network computeHash calls).viewFor tipId budget = .ok view) (height deploymentId : UInt32)
    (params : DeploymentParams) (hparams : deploymentParams network deploymentId = some params) :
    ((runCalls network computeHash calls).cachedDeploymentState view height deploymentId params).1 =
        (branchContext ((runCalls network computeHash calls).branchHeaders tipId)).computeState params height ∧
      ∃ cache, ((runCalls network computeHash calls).cachedDeploymentState view height deploymentId params).2 =
        { runCalls network computeHash calls with bip9Cache := cache } := by
  obtain ⟨h, hcache⟩ := runCalls_keeps network computeHash calls
  obtain ⟨path, hpath⟩ := h.linked.exists_path tipId (nodes_of_node hnode)
  obtain ⟨hstate, cache, htree, -⟩ := cachedDeploymentState_eq h hparams hcache hpath (reads_viewFor h hpath hview)
  exact ⟨hstate, cache, htree⟩

def sampleHeader (time : UInt32) (prev : Hash256) : Header := ⟨1, prev, .zero, time, 0x207fffff, 0⟩

def sampleHash (byte : UInt8) : Hash256 := ⟨replicate 32 byte, by simp⟩

def sampleCalls : List TreeCall :=
  [.update (.insertHeaderWithHash (sampleHeader 1 .zero) (sampleHash 1) .headerValid),
   .update (.insertHeaderWithHash (sampleHeader 2 (sampleHash 1)) (sampleHash 2) .headerValid),
   .query none 1 2016 csvDeploymentId,
   .update (.insertHeaderWithHash (sampleHeader 3 (sampleHash 1)) (sampleHash 3) .headerValid),
   .update (.invalidateSubtree 1)]

theorem cached_state_eq_computed_sample :
    ((runCalls .mainnet (fun _ => .zero) sampleCalls).cachedDeploymentState (.new 2) 4037 csvDeploymentId
        ⟨0, 1462060800, 1493596800, 2016, 1916⟩).1 =
      (branchContext ((runCalls .mainnet (fun _ => .zero) sampleCalls).branchHeaders 2)).computeState
        ⟨0, 1462060800, 1493596800, 2016, 1916⟩ 4037 := by
  have hsome : ((runCalls .mainnet (fun _ => .zero) sampleCalls).nodes[(2 : NodeId).toNat]?).isSome := by
    decide +kernel
  obtain ⟨node, hnode⟩ := isSome_iff_exists.mp hsome
  exact (cached_state_eq_computed .mainnet (fun _ => .zero) sampleCalls none 2 node (node_eq hnode) (.new 2) rfl 4037
    csvDeploymentId _ rfl).1

end BlockTree

end BitcoinRs.Chain
