import BitcoinRs.Primitives
import BitcoinRs.Library.MaxBy
import BitcoinRs.Library.Stateful
import BitcoinRs.Library.Worklist

namespace BitcoinRs.Chain

open Stateful
open UInt32 (ofNat)

abbrev ChainWork := BitVec 256

structure DecodedCompact where
  target : ChainWork
  negative : Bool

section

variable (bits : UInt32)

def decodeCompact : DecodedCompact :=
  let exponent := (bits >>> 24).toNat
  let word := bits &&& 0x007fffff
  let shifted := word >>> ofNat (8 * (3 - exponent))
  let mantissa := if exponent ≤ 3 then shifted else word
  let target :=
    if exponent ≤ 3 then BitVec.ofNat 256 mantissa.toNat
    else
      let shift := 8 * (exponent - 3)
      if shift < 256 then BitVec.ofNat 256 mantissa.toNat <<< shift else 0
  { target, negative := mantissa != 0 && bits &&& 0x00800000 != 0 }

def compactOverflows : Bool :=
  let size := bits >>> 24
  let word := bits &&& 0x007fffff
  word != 0 && (decide (size > 34) || (decide (word > 0xff) && decide (size > 33)) ||
    (decide (word > 0xffff) && decide (size > 32)))

def compactToTarget : ChainWork :=
  let decoded := decodeCompact bits
  if decoded.negative then 0 else decoded.target

end

def blockWork (header : Header) : ChainWork :=
  let target := compactToTarget header.bits
  if target = 0 || compactOverflows header.bits then 0 else ~~~target / (target + 1) + 1

def checkedAddWork (a b : ChainWork) : Option ChainWork :=
  if a.toNat + b.toNat < 2 ^ 256 then some (a + b) else none

lemma checkedAddWork_toNat {a b c : ChainWork} (h : checkedAddWork a b = some c) : c.toNat = a.toNat + b.toNat := by
  unfold checkedAddWork at h
  split at h
  · rename_i hlt
    cases h
    rw [BitVec.toNat_add, Nat.mod_eq_of_lt hlt]
  · cases h

abbrev NodeId := UInt32

inductive NodeStatus
  | headerValid
  | active
  | stale
  | invalid
  deriving DecidableEq

/-- `none` is the unknown count. -/
abbrev ChainTxCount := Option UInt64

structure BlockTreeNode where
  parent : Option NodeId
  height : UInt32
  hash : Hash256
  header : Header
  chainwork : ChainWork
  chainTxCount : ChainTxCount
  status : NodeStatus

structure TipSnapshot where
  tipId : NodeId
  height : UInt32
  chainwork : ChainWork
  hash : Hash256
  chainTxCount : ChainTxCount

inductive ChainError
  | nodeIdOverflow (index : ℕ)
  | unknownNode (id : NodeId)
  | duplicateHeader (hash : Hash256)
  | missingParent (prevHash : Hash256)
  | nonContinuousHeader (expectedPrev actualPrev : Hash256)
  | chainworkOverflow (hash : Hash256)
  | heightOverflow (parent : NodeId)
  deriving DecidableEq

inductive TrustState
  | trusted
  | tainted
  deriving DecidableEq

structure ActiveHeightIndex where
  entries : List NodeId
  state : TrustState

namespace ActiveHeightIndex

def new : ActiveHeightIndex := ⟨[], .tainted⟩

variable (index : ActiveHeightIndex)

def isTrusted : Bool := index.state = .trusted

def get (height : UInt32) : Option NodeId := index.entries[height.toNat]?

def last : Option NodeId := index.entries.getLast?

def clearTainted (_ : ActiveHeightIndex) : ActiveHeightIndex := ⟨[], .tainted⟩

/-- The index with `tip` pushed, or `none` where the source returns `false`. -/
def extendValidated (parent : NodeId) (tipHeight : UInt32) (tip : NodeId) : Option ActiveHeightIndex :=
  if index.isTrusted && index.last = some parent && index.entries.length = tipHeight.toNat then
    some { index with entries := index.entries ++ [tip] }
  else none

def commitValidatedRebuild (_ : ActiveHeightIndex) (entries : List NodeId) : ActiveHeightIndex := ⟨entries, .trusted⟩

end ActiveHeightIndex

structure InvalidationOutcome where
  invalid : List Hash256
  demotedTip : Option Hash256

structure Inserted where
  id : NodeId
  demotedTip : Option Hash256

structure BlockTree where
  nodes : List BlockTreeNode
  byHash : List NodeId
  activeByHeight : ActiveHeightIndex
  tip : Option TipSnapshot
  bip9Cache : List ((NodeId × UInt32) × UInt8)

abbrev TreeM := EStateM ChainError BlockTree

namespace BlockTree

def new : BlockTree := ⟨[], [], .new, none, []⟩

def node (tree : BlockTree) (id : NodeId) : Except ChainError BlockTreeNode :=
  match tree.nodes[id.toNat]? with
  | some node => .ok node
  | none => .error (.unknownNode id)

variable (tree : BlockTree)

def parentOf (id : NodeId) : Option NodeId := (tree.nodes[id.toNat]?).bind BlockTreeNode.parent

def lookup (hash : Hash256) : Option NodeId :=
  tree.byHash.find? fun id => (tree.nodes[id.toNat]?).any fun node => node.hash = hash

def tipSnapshot (id : NodeId) (node : BlockTreeNode) : TipSnapshot :=
  ⟨id, node.height, node.chainwork, node.hash, node.chainTxCount⟩

section

def joinActive (height : UInt32) : ℕ → NodeId → Option NodeId
  | 0, _ => none
  | fuel + 1, other =>
    match tree.nodes[other.toNat]? with
    | none => none
    | some node =>
      if tree.activeByHeight.get node.height = some other then
        tree.activeByHeight.get (min height node.height)
      else node.parent.bind (joinActive height fuel)

def ancestry : ℕ → ℕ → NodeId → Option (NodeId × ℕ)
  | 0, _, _ => none
  | fuel + 1, depth, id =>
    match tree.nodes[id.toNat]? with
    | none => none
    | some node =>
      match node.parent with
      | some parent => ancestry fuel (depth + 1) parent
      | none => some (id, depth)

def ascend : ℕ → NodeId → Option NodeId
  | 0, id => some id
  | steps + 1, id => (tree.parentOf id).bind (ascend steps)

def meet : ℕ → NodeId → NodeId → Option NodeId
  | 0, a, b => if a = b then some a else none
  | fuel + 1, a, b =>
    if a = b then some a
    else
      match tree.parentOf a, tree.parentOf b with
      | some a, some b => meet fuel a b
      | _, _ => none

end

def walkedCommonAncestor (a b : NodeId) : Option NodeId := do
  let (aRoot, aDepth) ← tree.ancestry tree.nodes.length 0 a
  let (bRoot, bDepth) ← tree.ancestry tree.nodes.length 0 b
  if aRoot ≠ bRoot then none
  else
    let a ← tree.ascend (aDepth - bDepth) a
    let b ← tree.ascend (bDepth - aDepth) b
    tree.meet tree.nodes.length a b

def isIndexed (id : NodeId) (node : BlockTreeNode) : Bool := tree.activeByHeight.get node.height = some id

def findCommonAncestor (a b : NodeId) : Option NodeId :=
  if tree.activeByHeight.isTrusted then
    match tree.nodes[a.toNat]? with
    | none => none
    | some nodeA =>
      if tree.isIndexed a nodeA then tree.joinActive nodeA.height tree.nodes.length b
      else
        match tree.nodes[b.toNat]? with
        | none => none
        | some nodeB =>
          if tree.isIndexed b nodeB then tree.joinActive nodeB.height tree.nodes.length a
          else tree.walkedCommonAncestor a b
  else tree.walkedCommonAncestor a b

def rebuildLoop (tree : BlockTree) : ℕ → Option NodeId → List NodeId → Option (List NodeId)
  | _, none, _ => some []
  | 0, some _, _ => none
  | fuel + 1, some id, seen =>
    if id ∈ seen then none
    else
      match tree.nodes[id.toNat]? with
      | none => none
      | some node => (rebuildLoop tree fuel node.parent (id :: seen)).map (id :: ·)

def heightIs (id : NodeId) (offset : ℕ) : Bool := (tree.nodes[id.toNat]?).any fun node => node.height.toNat = offset

section

variable (tipId : NodeId)

def rebuiltIndex : ActiveHeightIndex :=
  match tree.rebuildLoop (tree.nodes.length + 1) (some tipId) [] with
  | none => tree.activeByHeight.clearTainted
  | some walked =>
    let rebuilt := walked.reverse
    if rebuilt.zipIdx.all fun entry => tree.heightIs entry.1 entry.2 then
      tree.activeByHeight.commitValidatedRebuild rebuilt
    else tree.activeByHeight.clearTainted

def refreshedIndex : ActiveHeightIndex :=
  match tree.nodes[tipId.toNat]? with
  | none => tree.activeByHeight.clearTainted
  | some tip =>
    match tip.parent.bind fun parent => tree.activeByHeight.extendValidated parent tip.height tipId with
    | some extended => extended
    | none => tree.rebuiltIndex tipId

def refreshActiveHeightIndex : TreeM Unit :=
  modify fun tree => { tree with activeByHeight := tree.refreshedIndex tipId }

end

section

variable (id : NodeId)

def setStatus (status : NodeStatus) : TreeM Unit := fun tree =>
  if id.toNat < tree.nodes.length then
    .ok () { tree with nodes := tree.nodes.modify id.toNat fun node => { node with status } }
  else .error (.unknownNode id) tree

def readNode : TreeM BlockTreeNode := reading fun tree => tree.node id

def storeTip : TreeM Unit := do
  let node ← readNode id
  modify fun tree => { tree with tip := some (tipSnapshot id node) }

variable (parent : Option NodeId)

def demoteTip : Option TipSnapshot → TreeM (Option Hash256)
  | none => pure none
  | some oldTip =>
    if oldTip.tipId = id then pure none
    else do
      let tree ← get
      let extendsOldTip := parent = some oldTip.tipId || tree.findCommonAncestor oldTip.tipId id = some oldTip.tipId
      setStatus oldTip.tipId .stale
      pure (if extendsOldTip then none else some oldTip.hash)

def publishTip (oldTip : Option TipSnapshot) : TreeM (Option Hash256) := do
  let demotedTip ← demoteTip id parent oldTip
  setStatus id .active
  storeTip id
  refreshActiveHeightIndex id
  pure demotedTip

def publishTipIfBest : TreeM (Option Hash256) := do
  let node ← readNode id
  let oldTip := (← get).tip
  if node.status = .invalid || oldTip.any fun tip => decide (node.chainwork ≤ tip.chainwork) then pure none
  else publishTip id node.parent oldTip

end

variable (parent : Option NodeId)

def placement (header : Header) (hash : Hash256) (status : NodeStatus) :
    Except ChainError (UInt32 × ChainWork × NodeStatus) :=
  match parent with
  | none => .ok (0, blockWork header, status)
  | some parentId =>
    match tree.node parentId with
    | .error e => .error e
    | .ok parentNode =>
      if header.prevBlockhash ≠ parentNode.hash then
        .error (.nonContinuousHeader parentNode.hash header.prevBlockhash)
      else if 2 ^ 32 ≤ parentNode.height.toNat + 1 then .error (.heightOverflow parentId)
      else
        match checkedAddWork parentNode.chainwork (blockWork header) with
        | none => .error (.chainworkOverflow hash)
        | some chainwork =>
          .ok (parentNode.height + 1, chainwork, if parentNode.status = .invalid then .invalid else status)

/-- The slab keeps a node whose index has no `NodeId`. -/
def pushNode (node : BlockTreeNode) : TreeM NodeId := fun tree =>
  let index := tree.nodes.length
  let pushed := { tree with nodes := tree.nodes ++ [node] }
  if index < 2 ^ 32 then
    .ok (ofNat index) { pushed with byHash := ofNat index :: tree.byHash }
  else .error (.nodeIdOverflow index) pushed

def newNode (header : Header) (hash : Hash256) (status : NodeStatus) : Except ChainError BlockTreeNode :=
  if (tree.lookup hash).isSome then .error (.duplicateHeader hash)
  else
    match tree.placement parent header hash status with
    | .error e => .error e
    | .ok (height, chainwork, status) => .ok ⟨parent, height, hash, header, chainwork, none, status⟩

def insertNodeWithHash (header : Header) (hash : Hash256) (status : NodeStatus) :
    TreeM Inserted := do
  let node ← reading fun tree => tree.newNode parent header hash status
  let id ← pushNode node
  let demotedTip ← publishTipIfBest id
  pure ⟨id, demotedTip⟩

variable (computeHash : Header → Hash256)

def insertNode (parent : Option NodeId) (header : Header) (status : NodeStatus) :
    TreeM NodeId := do
  let inserted ← insertNodeWithHash parent header (computeHash header) status
  pure inserted.id

def headerParent (header : Header) : Except ChainError (Option NodeId) :=
  if tree.nodes.isEmpty then .ok none
  else
    match tree.lookup header.prevBlockhash with
    | some parent => .ok (some parent)
    | none => .error (.missingParent header.prevBlockhash)

def insertHeaderWithHash (header : Header) (hash : Hash256) (status : NodeStatus) : TreeM Inserted := do
  let parent ← reading fun tree => tree.headerParent header
  insertNodeWithHash parent header hash status

def insertHeader (header : Header) (status : NodeStatus) : TreeM NodeId := do
  let inserted ← insertHeaderWithHash header (computeHash header) status
  pure inserted.id

def addChild (children : List (List NodeId)) (entry : BlockTreeNode × ℕ) : Except ChainError (List (List NodeId)) :=
  match entry.1.parent with
  | none => .ok children
  | some parent =>
    if entry.2 < 2 ^ 32 then .ok (children.modify parent.toNat (· ++ [ofNat entry.2]))
    else .error (.nodeIdOverflow entry.2)

def childLists : Except ChainError (List (List NodeId)) :=
  tree.nodes.zipIdx.foldlM addChild (List.replicate tree.nodes.length [])

def compareNodes (left right : BlockTreeNode × ℕ) : Ordering :=
  (compare left.1.chainwork.toNat right.1.chainwork.toNat).then (compare right.2 left.2)

def bestOf (invalid : List Bool) : Option (BlockTreeNode × ℕ) :=
  MaxBy.maxBy compareNodes <|
    (tree.nodes.zipIdx.filter fun entry => !invalid.getD entry.2 false).filter fun entry => entry.1.status ≠ .invalid

def bestId : Option (BlockTreeNode × ℕ) → Except ChainError (Option NodeId)
  | none => .ok none
  | some (_, index) => if index < 2 ^ 32 then .ok (some (ofNat index)) else .error (.nodeIdOverflow index)

def invalidationPlan (root : NodeId) : Except ChainError (List Bool × Option NodeId) := do
  let _ ← tree.node root
  let children ← tree.childLists
  let count := tree.nodes.length
  let invalid := Worklist.sweep UInt32.toNat (fun index => children.getD index []) count
    ((List.replicate count false).set root.toNat true, [root])
  let best ← bestId (tree.bestOf invalid)
  pure (invalid, best)

def tipAfterInvalidation (root : NodeId) : Except ChainError (Option NodeId) :=
  (tree.invalidationPlan root).map Prod.snd

section

variable (invalid : List Bool)

def demoteBeside : Option TipSnapshot → Option NodeId → TreeM (Option Hash256)
  | some oldTip, some best =>
    if best = oldTip.tipId || invalid.getD oldTip.tipId.toNat false then pure none
    else do
      let tree ← get
      setStatus oldTip.tipId .stale
      pure (if tree.findCommonAncestor oldTip.tipId best = some oldTip.tipId then none else some oldTip.hash)
  | _, _ => pure none

variable (nodes : List BlockTreeNode)

def markInvalid : List BlockTreeNode :=
  nodes.mapIdx fun index node => if invalid.getD index false then { node with status := .invalid } else node

def invalidHashes : List Hash256 :=
  (nodes.zipIdx.filter fun entry => invalid.getD entry.2 false).map fun entry => entry.1.hash

def withoutInvalid : BlockTree :=
  { tree with
    nodes := markInvalid invalid tree.nodes
    tip := none
    activeByHeight := tree.activeByHeight.clearTainted
    bip9Cache := tree.bip9Cache.filter fun entry => !invalid.getD entry.1.1.toNat false }

end

def republish : Option NodeId → TreeM Unit
  | none => pure ()
  | some best => do
    let _ ← publishTipIfBest best
    pure ()

def invalidateSubtree (root : NodeId) : TreeM InvalidationOutcome := do
  let (invalid, best) ← reading fun tree => tree.invalidationPlan root
  let demotedTip ← demoteBeside invalid (← get).tip best
  let hashes := invalidHashes invalid (← get).nodes
  modify fun tree => tree.withoutInvalid invalid
  republish best
  pure ⟨hashes, demotedTip⟩

end BlockTree

end BitcoinRs.Chain
