import BitcoinRs.Chain.Deployment

namespace BitcoinRs.Chain

open BlockTree Keeping Fallible List Nat
open UInt32 (ofNat)

namespace Network

def bip34ActivationHeight : Network → UInt32
  | mainnet => 227931
  | testnet3 => 21111
  | testnet4 | signet => 1
  | regtest => 500

def bip65ActivationHeight : Network → UInt32
  | mainnet => 388381
  | testnet3 => 581885
  | testnet4 | signet => 1
  | regtest => 1351

def bip66ActivationHeight : Network → UInt32
  | mainnet => 363725
  | testnet3 => 330776
  | testnet4 | signet => 1
  | regtest => 1251

def csvActivationHeight : Network → UInt32
  | mainnet => 419328
  | testnet3 => 770112
  | testnet4 | signet => 1
  | regtest => 432

def segwitActivationHeight : Network → UInt32
  | mainnet => 481824
  | testnet3 => 834624
  | testnet4 | signet | regtest => 0

def taprootActivationHeight : Network → UInt32
  | mainnet => 709632
  | testnet3 => 2011968
  | testnet4 | signet | regtest => 0

end Network

inductive DeploymentName
  | bip34
  | bip66
  | bip65
  | csv
  | segwit
  | taproot

structure VersionBitsStatus where
  params : DeploymentParams
  state : DeploymentState
  next : DeploymentState
  since : UInt32
  signalling : Option (List Bool)

structure DeploymentStatus where
  name : DeploymentName
  height : Option UInt32
  active : Bool
  activeAtBlock : Bool
  bip9 : Option VersionBitsStatus

abbrev CacheM := StateM BlockTree

section

variable (view : DeploymentView) (deploymentId : UInt32) (params : DeploymentParams)

def stateAt (height : UInt32) : CacheM DeploymentState := fun tree =>
  tree.cachedDeploymentState view height deploymentId params

def sinceLoop (state : DeploymentState) : ℕ → ℕ → ℕ → CacheM ℕ
  | 0, low, _ => pure low
  | fuel + 1, low, high =>
    if low < high then do
      let mid := low + (high - low) / 2
      if (← stateAt view deploymentId params (ofNat mid * params.period)) = state then
        sinceLoop state fuel low mid
      else sinceLoop state fuel (mid + 1) high
    else pure low

def saturatingNext (height : UInt32) : UInt32 := if height = 0xffffffff then height else height + 1

def versionBitsStatus (height : UInt32) : CacheM VersionBitsStatus := do
  let state ← stateAt view deploymentId params height
  let next ← stateAt view deploymentId params (saturatingNext height)
  let periods := (height / params.period).toNat
  let low ← sinceLoop view deploymentId params state periods 0 periods
  let start := (height / params.period * params.period).toNat
  let tree ← get
  let signalling := if state = .started ∨ state = .lockedIn then
      some ((range' start (height.toNat + 1 - start)).map fun h =>
        ((view.context tree).blockVersion (ofNat h)).any params.signals)
    else none
  return ⟨params, state, next, ofNat low * params.period, signalling⟩

end

def maxDeploymentQueryAncestors : ℕ := 2000000

def deploymentRows (network : Network) : List (DeploymentName × UInt32 × Option UInt32) :=
  [(.bip34, network.bip34ActivationHeight, none), (.bip66, network.bip66ActivationHeight, none),
   (.bip65, network.bip65ActivationHeight, none), (.csv, network.csvActivationHeight, some csvDeploymentId),
   (.segwit, network.segwitActivationHeight, some segwitDeploymentId),
     (.taproot, network.taprootActivationHeight, none)]

def deploymentStatus (network : Network) (height : UInt32) (view : Option DeploymentView)
    (row : DeploymentName × UInt32 × Option UInt32) : CacheM DeploymentStatus :=
  match row.2.2.bind fun id => (deploymentParams network id).map (id, ·), view with
  | none, _ => pure ⟨row.1, some row.2.1, row.2.1 ≤ saturatingNext height, row.2.1 ≤ height, none⟩
  | some (_, params), none => pure ⟨row.1, none, false, false, some ⟨params, .defined, .defined, 0, none⟩⟩
  | some (id, params), some view => do
    let bits ← versionBitsStatus view id params height
    let active := if bits.next = .active then some (saturatingNext height) else none
    return ⟨row.1, if bits.state = .active then some bits.since else active, bits.next = .active,
      bits.state = .active, some bits⟩

def deploymentStatuses (tree : BlockTree) (network : Network) (block : Option NodeId) :
    Except DeploymentQueryError (List DeploymentStatus × BlockTree) := do
  let height ← block.mapM fun id => (tree.node id).mapError .chain
  let asked := block.filter fun _ => [csvDeploymentId, segwitDeploymentId].any fun id =>
    (deploymentParams network id).isSome
  let view ← asked.mapM fun id => DeploymentView.forQuery tree id maxDeploymentQueryAncestors
  return (deploymentRows network).mapM (deploymentStatus network ((height.map BlockTreeNode.height).getD 0) view) tree

namespace DeploymentContext

variable (ctx : DeploymentContext) (params : DeploymentParams)

lemma tag_le_advance (priorBoundary boundary : ℕ) (state : DeploymentState) :
    state.cacheTag.toNat ≤ (ctx.advance params priorBoundary boundary state).cacheTag.toNat := by
  cases state with
  | defined => exact zero_le _
  | started =>
    rw [advance]
    split
    · exact le_rfl
    · split_ifs <;> decide
  | lockedIn => exact le_succ 2
  | active => exact le_rfl
  | failed => exact le_rfl

lemma tag_monotone : Monotone fun periods => (ctx.computeStateAtBoundary params periods).cacheTag.toNat :=
  monotone_nat_of_le_succ fun _ => ctx.tag_le_advance params _ _ _

lemma cacheTag_injective : Function.Injective DeploymentState.cacheTag := fun a b h => by
  have hsame := DeploymentState.fromCacheTag_cacheTag a
  rw [h, DeploymentState.fromCacheTag_cacheTag] at hsame
  exact (Option.some.inj hsame).symm

variable {ctx params} in
/-- A state that is left does not come back. -/
lemma state_between {q r n : ℕ} (hqr : q ≤ r) (hrn : r ≤ n)
    (h : ctx.computeStateAtBoundary params q = ctx.computeStateAtBoundary params n) :
    ctx.computeStateAtBoundary params r = ctx.computeStateAtBoundary params n := by
  have hlow := ctx.tag_monotone params hqr
  have hhigh := ctx.tag_monotone params hrn
  simp only [h] at hlow
  exact cacheTag_injective (UInt8.toNat_inj.mp (le_antisymm hhigh hlow))

lemma computeState_take (headers : List Header) (height : UInt32) :
    (branchContext (headers.take height.toNat)).computeState params height =
      (branchContext headers).computeState params height := by
  unfold computeState
  split_ifs with hperiod
  · rfl
  · have hle := div_mul_le_self height.toNat params.period.toNat
    rw [UInt32.toNat_div]
    apply computeStateAtBoundary_congr
    · exact pos_of_ne_zero fun h => hperiod (UInt32.toNat_inj.mp h)
    · exact (branchContext_take headers _).mono hle
    · exact hle.trans height.toNat_lt.le

/-- Along a branch a deployment only moves on, and once active or failed it stays so. -/
theorem deployment_moves_on (headers : List Header) (params : DeploymentParams) :
    let state (height : UInt32) := (branchContext (headers.take height.toNat)).computeState params height
    ∀ height, ∀ later ≥ height, (state height).cacheTag.toNat ≤ (state later).cacheTag.toNat ∧
      (state height = .active ∨ state height = .failed → state later = state height) := by
  intro state height later hle
  simp only [state, computeState_take]
  unfold computeState
  split_ifs
  · exact ⟨le_rfl, fun _ => rfl⟩
  · have hperiods : (height / params.period).toNat ≤ (later / params.period).toNat := by
      rw [UInt32.toNat_div, UInt32.toNat_div]
      exact Nat.div_le_div_right hle
    refine ⟨tag_monotone _ params hperiods, fun hfinal => ?_⟩
    generalize (later / params.period).toNat = periods at hperiods
    induction hperiods with
    | refl => rfl
    | step _ ih =>
      rw [computeStateAtBoundary, ih]
      rcases hfinal with h | h <;> rw [h] <;> rfl

theorem deployment_moves_on_sample :
    let state (height : UInt32) := (branchContext ((replicate 9 ⟨0x20000001, .zero, .zero, 5, 0, 0⟩).take
      height.toNat)).computeState ⟨0, 1, 9, 2, 2⟩ height
    state 6 = .active ∧ state 9 = .active := by
  intro state
  have h : state 6 = .active := by
    simp [state, computeState, computeStateAtBoundary, advance, branchContext, median, medianTimePastWindow,
      mergeSort_of_pairwise]
    decide +kernel
  exact ⟨h, ((deployment_moves_on _ _ 6 9 (by decide)).2 (.inl h)).trans h⟩

end DeploymentContext

section

variable {network : Network} {tree : BlockTree} (h : Inv tree) {path : List NodeId} {id : NodeId}
  (hpath : PathTo tree.nodes path id) {view : DeploymentView} {budget : ℕ}
  (hview : DeploymentView.forQuery tree id budget = .ok view)
  {deploymentId : UInt32} {params : DeploymentParams} (hparams : deploymentParams network deploymentId = some params)
  (height : UInt32)

def CachedOver (network : Network) (tree later : BlockTree) : Prop :=
  ∃ cache, later = { tree with bip9Cache := cache } ∧ CacheOk network later

def branchState (tree : BlockTree) (id : NodeId) (params : DeploymentParams) (periods : ℕ) : DeploymentState :=
  (branchContext (tree.branchHeaders id)).computeStateAtBoundary params periods

/-- The state at a block, and the least start of a period since which it has been the state. -/
def Reports (tree : BlockTree) (id : NodeId) (height : UInt32) (params : DeploymentParams) (bits : VersionBitsStatus) :
    Prop :=
  bits.params = params ∧ bits.state = (branchContext (tree.branchHeaders id)).computeState params height ∧
    IsLeast { start : ℕ | params.period.toNat ∣ start ∧ start ≤ height.toNat ∧
      ∀ other : UInt32, start ≤ other.toNat → other ≤ height →
        (branchContext (tree.branchHeaders id)).computeState params other = bits.state } bits.since.toNat

/-- A row keeps its name, and has a history just where the network has parameters for its deployment. -/
def Reported (network : Network) (tree : BlockTree) (id : NodeId) (height : UInt32)
    (row : DeploymentName × UInt32 × Option UInt32) (status : DeploymentStatus) : Prop :=
  status.name = row.1 ∧ Option.Rel (Reports tree id height) (row.2.2.bind (deploymentParams network)) status.bip9

variable {height} in
lemma deploymentStatus_none {I : BlockTree → Prop} {row : DeploymentName × UInt32 × Option UInt32}
    (hnone : row.2.2.bind (deploymentParams network) = none) (view : Option DeploymentView) :
    Keeps I (deploymentStatus network height view row) (Reported network tree id height row) := by
  have hpair : (row.2.2.bind fun id => (deploymentParams network id).map (id, ·)) = none := by
    simpa [Option.bind_eq_none_iff] using hnone
  unfold deploymentStatus
  rw [hpair]
  refine .pure ⟨rfl, ?_⟩
  rw [hnone]
  exact .none

include hparams

lemma toNat_boundary {n q : ℕ} (hn : n * params.period.toNat < 2 ^ 32) (hq : q ≤ n) :
    (ofNat q * params.period).toNat = q * params.period.toNat := by
  have hlt := (Nat.le_mul_of_pos_right n (period_pos hparams)).trans_lt hn
  rw [UInt32.toNat_mul, UInt32.toNat_ofNat_of_lt' (hq.trans_lt hlt)]
  exact mod_eq_of_lt ((Nat.mul_le_mul_right _ hq).trans_lt hn)

include h hpath hview

lemma stateAt_keeps : Keeps (CachedOver network tree) (stateAt view deploymentId params height)
    (· = branchState tree id params (height.toNat / params.period.toNat)) := by
  rintro later ⟨cache, rfl, hcache⟩
  have hinv : Inv { tree with bip9Cache := cache } := ⟨h.linked, h.closed, h.tip, h.index⟩
  obtain ⟨hstate, cache', hlater, hcache'⟩ := cachedDeploymentState_eq hinv hparams hcache hpath
    (reads_forQuery h hpath hview cache)
  refine ⟨?_, cache', hlater, ?_⟩
  · obtain ⟨node, hnode⟩ := hpath.exists_node
    rw [stateAt, hstate, computeState_eq hparams, branchState,
      ← branchHeaders_extends h.linked hinv.linked (prefix_refl _) hnode]
  · rw [stateAt, hlater]
    exact hcache'

lemma sinceLoop_keeps {n : ℕ} (hn : n * params.period.toNat < 2 ^ 32) (fuel low high : ℕ) (hfuel : high - low ≤ fuel)
    (hhigh : high ≤ n) (hstate : branchState tree id params high = branchState tree id params n)
    (hlow : ∀ q < low, branchState tree id params q ≠ branchState tree id params n) :
    Keeps (CachedOver network tree) (sinceLoop view deploymentId params (branchState tree id params n) fuel low high)
      fun least => IsLeast { q | branchState tree id params q = branchState tree id params n } least := by
  have hpos := period_pos hparams
  induction fuel generalizing low high with
  | zero =>
    obtain rfl : low = high := le_antisymm (not_lt.mp fun hlt => hlow high hlt hstate) (by omega)
    exact .pure ⟨hstate, fun q hq => not_lt.mp fun hlt => hlow q hlt hq⟩
  | succ fuel ih =>
    rw [sinceLoop]
    split_ifs with hlt
    · refine (stateAt_keeps h hpath hview hparams _).bind fun state hat => ?_
      rw [hat, toNat_boundary hparams hn (by omega), Nat.mul_div_cancel _ hpos]
      split_ifs with hsame
      · exact ih low _ (by omega) (by omega) hsame hlow
      · refine ih _ high (by omega) hhigh hstate fun q hq heq => hsame ?_
        exact DeploymentContext.state_between (by omega) (by omega) heq
    · obtain rfl : low = high := le_antisymm (not_lt.mp fun hgt => hlow high hgt hstate) (not_lt.mp hlt)
      exact .pure ⟨hstate, fun q hq => not_lt.mp fun hgt => hlow q hgt hq⟩

lemma versionBitsStatus_keeps :
    Keeps (CachedOver network tree) (versionBitsStatus view deploymentId params height)
      (Reports tree id height params) := by
  have hpos := period_pos hparams
  have hn : height.toNat / params.period.toNat * params.period.toNat < 2 ^ 32 :=
    (div_mul_le_self _ _).trans_lt height.toNat_lt
  refine (stateAt_keeps h hpath hview hparams _).bind fun state hstate => ?_
  refine (stateAt_keeps h hpath hview hparams _).bind fun next _ => ?_
  rw [hstate]
  refine (sinceLoop_keeps h hpath hview hparams hn _ 0 _ le_rfl le_rfl rfl (by simp)).bind fun least hleast => ?_
  refine Keeps.get.bind fun later _ => .pure ⟨rfl, (computeState_eq hparams _).symm, ?_⟩
  have hle : least ≤ height.toNat / params.period.toNat := hleast.2 rfl
  rw [toNat_boundary hparams hn hle]
  refine ⟨⟨dvd_mul_left _ _, (mul_le_mul_right _ hle).trans (div_mul_le_self _ _), fun other hfrom hto => ?_⟩, ?_⟩
  · rw [computeState_eq hparams]
    exact DeploymentContext.state_between ((Nat.le_div_iff_mul_le hpos).mpr hfrom) (Nat.div_le_div_right hto) hleast.1
  · rintro start ⟨⟨q, rfl⟩, hstart, hconstant⟩
    have hnat : (ofNat (params.period.toNat * q)).toNat = params.period.toNat * q :=
      UInt32.toNat_ofNat_of_lt' (hstart.trans_lt height.toNat_lt)
    have hq := hconstant _ hnat.ge (UInt32.le_iff_toNat_le.mpr (hnat.le.trans hstart))
    rw [computeState_eq hparams, hnat, Nat.mul_div_cancel_left _ hpos] at hq
    rw [Nat.mul_comm]
    exact Nat.mul_le_mul_left _ (hleast.2 hq)

omit hparams in
lemma deploymentStatus_keeps (row : DeploymentName × UInt32 × Option UInt32) :
    Keeps (CachedOver network tree) (deploymentStatus network height (some view) row)
      (Reported network tree id height row) := by
  cases hparams : row.2.2.bind (deploymentParams network) with
  | none => exact deploymentStatus_none hparams _
  | some params =>
    obtain ⟨deploymentId, hid, hparams'⟩ := Option.bind_eq_some_iff.mp hparams
    unfold deploymentStatus
    rw [hid, Option.bind_some, hparams', Option.map_some]
    refine (versionBitsStatus_keeps h hpath hview hparams' height).bind fun bits hbits => .pure ⟨rfl, ?_⟩
    rw [hparams]
    exact .some hbits

omit hpath hview hparams

variable (network) {node : BlockTreeNode} (hnode : tree.node id = .ok node)

include hnode

lemma statuses_reported (hcache : CacheOk network tree) {statuses : List DeploymentStatus} {later : BlockTree}
    (hquery : deploymentStatuses tree network (some id) = .ok (statuses, later)) :
    Forall₂ (Reported network tree id node.height) (deploymentRows network) statuses := by
  obtain ⟨path, hpath⟩ := h.linked.exists_path id (nodes_of_node hnode)
  simp only [deploymentStatuses, Option.mapM_some, hnode, Except.mapError] at hquery
  obtain ⟨height, hheight, hquery⟩ := bind_eq_ok hquery
  cases hheight
  obtain ⟨view, hview, hquery⟩ := bind_eq_ok hquery
  have hrun : (deploymentRows network).mapM (deploymentStatus network node.height view) tree = (statuses, later) :=
    Except.ok.inj hquery
  have hrow (row : DeploymentName × UInt32 × Option UInt32) : Keeps (CachedOver network tree)
      (deploymentStatus network node.height view row) (Reported network tree id node.height row) := by
    rw [Option.filter_some] at hview
    split_ifs at hview with hnamed
    · rw [Option.mapM_some] at hview
      cases hfound : DeploymentView.forQuery tree id maxDeploymentQueryAncestors with
      | error e =>
        rw [hfound] at hview
        cases hview
      | ok found =>
        rw [hfound] at hview
        cases hview
        exact deploymentStatus_keeps h hpath hfound node.height row
    · -- a network with parameters for one deployment has them for `csv`
      have hnone (deploymentId : UInt32) : deploymentParams network deploymentId = none := by
        cases network <;> first | exact absurd rfl hnamed | rfl
      exact deploymentStatus_none (by simp [hnone]) view
  obtain ⟨hstatuses, -⟩ := Keeps.mapM hrow (deploymentRows network) tree ⟨tree.bip9Cache, rfl, hcache⟩
  rwa [hrun] at hstatuses

lemma statuses_returned (hbudget : node.height.toNat < maxDeploymentQueryAncestors) :
    ∃ result, deploymentStatuses tree network (some id) = .ok result := by
  obtain ⟨path, hpath⟩ := h.linked.exists_path id (nodes_of_node hnode)
  obtain ⟨view, hview⟩ := forQuery_ok h hpath (nodes_of_node hnode) hbudget
  simp only [deploymentStatuses, Option.mapM_some, hnode, Except.mapError, Option.filter_some]
  split_ifs
  · rw [Option.mapM_some, hview]
    exact ⟨_, rfl⟩
  · exact ⟨_, rfl⟩

end

/-- The height reported for a deployment is the least start of a period since which its state has been the same. -/
theorem since_is_least (network : Network) (computeHash : Header → Hash256) (calls : List TreeCall) (id : NodeId)
    (node : BlockTreeNode) (hnode : (runCalls network computeHash calls).node id = .ok node) :
    (∀ statuses later, deploymentStatuses (runCalls network computeHash calls) network (some id) =
      .ok (statuses, later) →
      Forall₂ (Reported network (runCalls network computeHash calls) id node.height) (deploymentRows network)
        statuses) ∧
    (node.height.toNat < maxDeploymentQueryAncestors →
      ∃ result, deploymentStatuses (runCalls network computeHash calls) network (some id) = .ok result) := by
  obtain ⟨h, hcache⟩ := runCalls_keeps network computeHash calls
  exact ⟨fun _ _ => statuses_reported network h hnode hcache, statuses_returned network h hnode⟩

def sampleTree : BlockTree := runCalls .mainnet (fun _ => .zero) sampleCalls

theorem since_is_least_sample : ∃ node result, sampleTree.node 2 = .ok node ∧
    deploymentStatuses sampleTree .mainnet (some 2) = .ok result ∧
    Forall₂ (Reported .mainnet sampleTree 2 node.height) (deploymentRows .mainnet) result.1 := by
  have hsome : ((sampleTree.nodes[(2 : NodeId).toNat]?).filter fun node =>
      node.height.toNat < maxDeploymentQueryAncestors).isSome := by decide +kernel
  obtain ⟨node, hnode⟩ := Option.isSome_iff_exists.mp hsome
  obtain ⟨hnode, hheight⟩ := Option.filter_eq_some_iff.mp hnode
  obtain ⟨hreported, hreturned⟩ := since_is_least .mainnet _ sampleCalls 2 node (node_eq hnode)
  obtain ⟨result, hresult⟩ := hreturned (of_decide_eq_true hheight)
  exact ⟨node, result, node_eq hnode, hresult, hreported _ _ hresult⟩

end BitcoinRs.Chain
