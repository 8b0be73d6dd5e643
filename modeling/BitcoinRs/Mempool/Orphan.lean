import BitcoinRs.Library.Ledger
import BitcoinRs.Library.MaxBy
import BitcoinRs.TxCodec
import Mathlib.Algebra.Group.Prod

namespace BitcoinRs.Mempool

open Ledger List Function

def saturatingMulU128 (a b : ℕ) : ℕ := min (a * b) (2 ^ 128 - 1)

structure PeerToken (Endpoint : Type) where
  endpoint : Option Endpoint
  addr : Option Endpoint
  connectionId : UInt64
  deriving DecidableEq

def PeerToken.compareKeys {Endpoint : Type} [Ord Endpoint] (left right : PeerToken Endpoint) : Ordering :=
  (compare left.connectionId right.connectionId).then (compare left.endpoint right.endpoint)

structure HeldOrphan (Endpoint : Type) where
  tx : Tx
  announcers : Members (PeerToken Endpoint)
  arrivalTime : ℕ
  deriving DecidableEq

structure OrphanRetryClaim (Endpoint : Type) where
  wtxid : Wtxid
  announcer : PeerToken Endpoint

structure PeerUsage where
  announcements : ℕ
  weight : ℕ
  latency : ℕ
  announced : List Wtxid
  deriving DecidableEq

def PeerUsage.default : PeerUsage := ⟨0, 0, 0, []⟩

structure PeerAllowance where
  announcements : ℕ
  weight : ℕ
  latency : ℕ

def PeerAllowance.new (announcements weight latency : ℕ) : PeerAllowance :=
  ⟨max announcements 1, max weight 1, max latency 1⟩

def PeerUsage.rank (usage : PeerUsage) (allowance : PeerAllowance) : ℕ :=
  let announcements := saturatingMulU128 (saturatingMulU128 usage.announcements allowance.weight) allowance.latency
  let weight := saturatingMulU128 (saturatingMulU128 usage.weight allowance.announcements) allowance.latency
  let latency := saturatingMulU128 (saturatingMulU128 usage.latency allowance.announcements) allowance.weight
  max (max announcements weight) latency

def latencyScore (tx : Tx) : ℕ := saturatingAdd (tx.inputs.length / 10) 1

def selectAnnouncer {Endpoint : Type} [Ord Endpoint] (announcers : Members (PeerToken Endpoint)) :
    Option (PeerToken Endpoint) :=
  match announcers.list with
  | [] => none
  | first :: rest =>
    some (rest.foldl (fun least peer => if least.compareKeys peer = .gt then peer else least) first)

def defaultMaxOrphanWeight : ℕ := 10000000
def defaultOrphanTimeoutSecs : ℕ := 2 * 60
def defaultPeerAnnouncements : ℕ := 100
def defaultPeerAnnouncementWeight : ℕ := 1000000
def defaultPeerLatency : ℕ := 1000

structure OrphanPool (Endpoint : Type) where
  entries : AList fun _ : Wtxid => HeldOrphan Endpoint
  byParent : AList fun _ : Txid => Members Wtxid
  ready : List (OrphanRetryClaim Endpoint)
  readyIds : Members Wtxid
  peerUsage : AList fun _ : PeerToken Endpoint => PeerUsage
  peerAllowance : PeerAllowance
  quota : ℕ
  totalWeight : ℕ
  maxWeight : ℕ

namespace OrphanPool

variable {Endpoint : Type}

def withLimits (quota maxWeight peerAnnouncements peerWeight peerLatency : ℕ) : OrphanPool Endpoint where
  entries := ∅
  byParent := ∅
  ready := []
  readyIds := ∅
  peerUsage := ∅
  peerAllowance := PeerAllowance.new peerAnnouncements peerWeight peerLatency
  quota := quota
  totalWeight := 0
  maxWeight := maxWeight

def new (quota : ℕ) : OrphanPool Endpoint :=
  withLimits quota defaultMaxOrphanWeight defaultPeerAnnouncements defaultPeerAnnouncementWeight defaultPeerLatency

variable [DecidableEq Endpoint]

section

variable (pool : OrphanPool Endpoint)

section

variable (announcer : PeerToken Endpoint)

def charge (wtxid : Wtxid) (weight latency : ℕ) : OrphanPool Endpoint :=
  let usage := (pool.peerUsage.lookup announcer).getD PeerUsage.default
  { pool with
    peerUsage := pool.peerUsage.insert announcer
      { announcements := usage.announcements + 1
        weight := saturatingAdd usage.weight weight
        latency := saturatingAdd usage.latency latency
        announced := usage.announced ++ [wtxid] } }

def refund (weight latency : ℕ) : OrphanPool Endpoint :=
  match pool.peerUsage.lookup announcer with
  | none => pool
  | some usage =>
    if usage.announcements - 1 = 0 then { pool with peerUsage := pool.peerUsage.erase announcer }
    else
      { pool with
        peerUsage := pool.peerUsage.insert announcer
          { usage with
            announcements := usage.announcements - 1
            weight := usage.weight - weight
            latency := usage.latency - latency } }

end

def clearReady (wtxid : Wtxid) : OrphanPool Endpoint :=
  if wtxid ∈ pool.readyIds then
    { pool with
      readyIds := pool.readyIds.erase wtxid
      ready := pool.ready.filter fun claim => claim.wtxid ≠ wtxid }
  else pool

end

def indexParent (wtxid : Wtxid) (byParent : AList fun _ : Txid => Members Wtxid) (input : TxIn) :
    AList fun _ : Txid => Members Wtxid :=
  let prevout := input.previousOutput
  if !prevout.isNull then
    byParent.insert prevout.txid (((byParent.lookup prevout.txid).getD ∅).insert wtxid)
  else byParent

def unindexParent (wtxid : Wtxid) (byParent : AList fun _ : Txid => Members Wtxid) (input : TxIn) :
    AList fun _ : Txid => Members Wtxid :=
  let parent := input.previousOutput.txid
  match byParent.lookup parent with
  | none => byParent
  | some children =>
    if (children.erase wtxid).list = [] then byParent.erase parent
    else byParent.insert parent (children.erase wtxid)

section

variable (pool : OrphanPool Endpoint)

section

variable (wtxid : Wtxid)

def unindexParents (tx : Tx) : OrphanPool Endpoint :=
  { pool with byParent := tx.inputs.foldl (unindexParent wtxid) pool.byParent }

def remove : OrphanPool Endpoint × Option (HeldOrphan Endpoint) :=
  match pool.entries.lookup wtxid with
  | none => (pool, none)
  | some entry =>
    let pool := { pool with
      entries := pool.entries.erase wtxid, totalWeight := pool.totalWeight - entry.tx.weight }
    let pool := pool.unindexParents wtxid entry.tx
    let pool := entry.announcers.list.foldl
      (fun pool announcer => pool.refund announcer entry.tx.weight (latencyScore entry.tx)) pool
    (pool.clearReady wtxid, some entry)

variable (announcer : PeerToken Endpoint)

def removeAnnouncer : OrphanPool Endpoint × Bool :=
  match pool.entries.lookup wtxid with
  | none => (pool, false)
  | some held =>
    if announcer ∈ held.announcers then
      let announcers := held.announcers.erase announcer
      let pool := { pool with entries := pool.entries.insert wtxid { held with announcers } }
      let pool := pool.refund announcer held.tx.weight (latencyScore held.tx)
      if announcers.list = [] then ((pool.remove wtxid).1, true) else (pool, false)
    else (pool, false)

def addAnnouncer : OrphanPool Endpoint × Bool :=
  match pool.entries.lookup wtxid with
  | none => (pool, false)
  | some held =>
    if announcer ∈ held.announcers then (pool, false)
    else
      let pool := { pool with
        entries := pool.entries.insert wtxid { held with announcers := held.announcers.insert announcer } }
      (pool.charge announcer wtxid held.tx.weight (latencyScore held.tx), true)

end

section

variable (victim : PeerToken Endpoint)

def oldestTarget : Option Wtxid → List Wtxid → Option Wtxid
  | readyCandidate, [] => readyCandidate
  | readyCandidate, wtxid :: rest =>
    match pool.entries.lookup wtxid with
    | none => oldestTarget readyCandidate rest
    | some held =>
      if victim ∉ held.announcers then oldestTarget readyCandidate rest
      else if wtxid ∈ pool.readyIds then oldestTarget (readyCandidate.or (some wtxid)) rest
      else some wtxid

def retainAnnounced : OrphanPool Endpoint :=
  match pool.peerUsage.lookup victim with
  | none => pool
  | some usage =>
    { pool with
      peerUsage := pool.peerUsage.insert victim
        { usage with
          announced := usage.announced.filter fun id =>
            (pool.entries.lookup id).any fun held => victim ∈ held.announcers } }

def trimOldestAnnouncement : OrphanPool Endpoint × Bool :=
  match pool.peerUsage.lookup victim with
  | none => (pool, false)
  | some usage =>
    match pool.oldestTarget victim none usage.announced with
    | none => (pool, false)
    | some wtxid => ((pool.removeAnnouncer wtxid victim).1.retainAnnounced victim, true)

end

variable [Ord Endpoint]

def highestScoringPeer : Option (PeerToken Endpoint) :=
  (MaxBy.maxBy
    (fun left right =>
      (compare (left.2.rank pool.peerAllowance) (right.2.rank pool.peerAllowance)).then (left.1.compareKeys right.1))
    pool.peerUsage.entries).map Sigma.fst

def announcementCount : ℕ := Ledger.total (fun _ held => held.announcers.list.length) pool.entries

end

variable [Ord Endpoint]

def evictLoop : ℕ → OrphanPool Endpoint → OrphanPool Endpoint
  | 0, pool => pool
  | fuel + 1, pool =>
    if pool.quota < pool.entries.entries.length ∨ pool.maxWeight < pool.totalWeight then
      match pool.highestScoringPeer with
      | none => pool
      | some victim =>
        let trimmed := pool.trimOldestAnnouncement victim
        if trimmed.2 then evictLoop fuel trimmed.1 else trimmed.1
    else pool

def evictToLimits (pool : OrphanPool Endpoint) : OrphanPool Endpoint := evictLoop pool.announcementCount pool

section

variable (pool : OrphanPool Endpoint)

section

variable (doubleSha256 : Bytes → Hash256)

def insert (tx : Tx) (announcer : PeerToken Endpoint) (time : ℕ) : OrphanPool Endpoint :=
  let wtxid := tx.wtxid doubleSha256
  if wtxid ∈ pool.entries then (pool.addAnnouncer wtxid announcer).1.evictToLimits
  else
    let pool := { pool with
      byParent := tx.inputs.foldl (indexParent wtxid) pool.byParent
      totalWeight := saturatingAdd pool.totalWeight tx.weight
      entries := pool.entries.insert wtxid ⟨tx, Members.singleton announcer, time⟩ }
    (pool.charge announcer wtxid tx.weight (latencyScore tx)).evictToLimits

def removeTransactionVariants (txid : Txid) : OrphanPool Endpoint :=
  let variants := (pool.entries.entries.filter fun e => e.2.tx.txid doubleSha256 = txid).map Sigma.fst
  variants.foldl (fun pool wtxid => (pool.remove wtxid).1) pool

end

def markReady (wtxid : Wtxid) (preferred : PeerToken Endpoint) : OrphanPool Endpoint :=
  match pool.entries.lookup wtxid with
  | none => pool
  | some held =>
    match if preferred ∈ held.announcers then some preferred else selectAnnouncer held.announcers with
    | none => pool
    | some announcer =>
      if wtxid ∈ pool.readyIds then pool
      else { pool with readyIds := pool.readyIds.insert wtxid, ready := pool.ready ++ [⟨wtxid, announcer⟩] }

def parentReady (parent : Txid) : OrphanPool Endpoint :=
  let claims := ((pool.byParent.lookup parent).getD ∅).list.filterMap fun wtxid =>
    (pool.entries.lookup wtxid).bind fun held => (selectAnnouncer held.announcers).map fun peer => (wtxid, peer)
  claims.foldl (fun pool claim => pool.markReady claim.1 claim.2) pool

def markAllReady : OrphanPool Endpoint :=
  let claims := pool.entries.entries.filterMap fun e => (selectAnnouncer e.2.announcers).map fun peer => (e.1, peer)
  claims.foldl (fun pool claim => pool.markReady claim.1 claim.2) pool

def takeReady : OrphanPool Endpoint × List (HeldOrphan Endpoint × PeerToken Endpoint) :=
  let taken := pool.ready.filterMap fun claim =>
    (pool.entries.lookup claim.wtxid).bind fun held =>
      (if claim.announcer ∈ held.announcers then some claim.announcer else selectAnnouncer held.announcers).map
        fun announcer => (held, announcer)
  ({ pool with readyIds := ∅, ready := [] }, taken)

def maintain (now : ℕ) (livePeers : Members (PeerToken Endpoint)) : OrphanPool Endpoint × ℕ :=
  let expired := (pool.entries.entries.filter fun e => defaultOrphanTimeoutSecs ≤ now - e.2.arrivalTime).map Sigma.fst
  let (pool, removed) := expired.foldl
    (fun (acc : OrphanPool Endpoint × ℕ) wtxid =>
      let (pool, entry) := acc.1.remove wtxid
      (pool, if entry.isSome then acc.2 + 1 else acc.2)) (pool, 0)
  let departed := pool.entries.entries.flatMap fun e =>
    (e.2.announcers.list.filter fun announcer => announcer ∉ livePeers).map fun announcer => (e.1, announcer)
  departed.foldl
    (fun (acc : OrphanPool Endpoint × ℕ) gone =>
      let (pool, dropped) := acc.1.removeAnnouncer gone.1 gone.2
      (pool, if dropped then acc.2 + 1 else acc.2)) (pool, removed)

end

inductive Action (Endpoint : Type) where
  | insert (tx : Tx) (announcer : PeerToken Endpoint) (time : ℕ)
  | remove (wtxid : Wtxid)
  | removeTransactionVariants (txid : Txid)
  | markReady (wtxid : Wtxid) (preferred : PeerToken Endpoint)
  | parentReady (parent : Txid)
  | markAllReady
  | takeReady
  | maintain (now : ℕ) (livePeers : Members (PeerToken Endpoint))
  /-- the maps come to be visited in another order -/
  | reorder (entries : AList fun _ : Wtxid => HeldOrphan Endpoint) (byParent : AList fun _ : Txid => Members Wtxid)
      (peerUsage : AList fun _ : PeerToken Endpoint => PeerUsage)

variable (doubleSha256 : Bytes → Hash256) (pool : OrphanPool Endpoint)

def act : Action Endpoint → OrphanPool Endpoint
  | .insert tx announcer time => pool.insert doubleSha256 tx announcer time
  | .remove wtxid => (pool.remove wtxid).1
  | .removeTransactionVariants txid => pool.removeTransactionVariants doubleSha256 txid
  | .markReady wtxid preferred => pool.markReady wtxid preferred
  | .parentReady parent => pool.parentReady parent
  | .markAllReady => pool.markAllReady
  | .takeReady => pool.takeReady.1
  | .maintain now livePeers => (pool.maintain now livePeers).1
  | .reorder entries byParent peerUsage =>
    if entries.entries.Perm pool.entries.entries ∧ byParent.entries.Perm pool.byParent.entries ∧
        peerUsage.entries.Perm pool.peerUsage.entries then
      { pool with entries, byParent, peerUsage }
    else pool

def run (actions : List (Action Endpoint)) : OrphanPool Endpoint := actions.foldl (act doubleSha256) pool

end OrphanPool

section

lemma latencyScore_le_weight (tx : Tx) : latencyScore tx ≤ tx.weight := by
  have hlen := minTxLen_le tx
  have hinputs : tx.inputs.length ≤ (encodeTx tx).length := by
    have hflat := mul_le_length_flatMap tx.inputs minInputLen_le
    rw [encodeTx_eq]
    simp only [length_append]
    unfold minInputLen at hflat
    omega
  unfold minTxLen at hlen
  unfold latencyScore Tx.weight saturatingAdd
  rw [tx.consensusSize_eq]
  omega

def chargeOf (tx : Tx) : ℕ × ℕ × ℕ := (1, tx.weight, latencyScore tx)

def PeerUsage.amounts (usage : PeerUsage) : ℕ × ℕ × ℕ := (usage.announcements, usage.weight, usage.latency)

variable {Endpoint : Type} [DecidableEq Endpoint]

abbrev Entries (Endpoint : Type) := AList fun _ : Wtxid => HeldOrphan Endpoint
abbrev Usages (Endpoint : Type) := AList fun _ : PeerToken Endpoint => PeerUsage

variable (entries : Entries Endpoint) (peer : PeerToken Endpoint)

def charged : ℕ × ℕ × ℕ := total (fun _ held => if peer ∈ held.announcers then chargeOf held.tx else 0) entries

def Announces (wtxid : Wtxid) : Prop := ∃ held, entries.lookup wtxid = some held ∧ peer ∈ held.announcers

def usageOf (usages : Usages Endpoint) (peer : PeerToken Endpoint) : PeerUsage :=
  (usages.lookup peer).getD PeerUsage.default

variable {entries} {usages : Usages Endpoint} {peer} {wtxid : Wtxid} {held : HeldOrphan Endpoint}

lemma charged_erase (h : entries.lookup wtxid = some held) (peer : PeerToken Endpoint) :
    charged entries peer =
      (if peer ∈ held.announcers then chargeOf held.tx else 0) + charged (entries.erase wtxid) peer :=
  total_erase h

lemma charged_insert (wtxid : Wtxid) (held : HeldOrphan Endpoint) (peer : PeerToken Endpoint) :
    charged (entries.insert wtxid held) peer =
      (if peer ∈ held.announcers then chargeOf held.tx else 0) + charged (entries.erase wtxid) peer :=
  total_insert

lemma charged_fst_pos (h : Announces entries peer wtxid) : 0 < (charged entries peer).1 := by
  obtain ⟨held, hheld, hpeer⟩ := h
  rw [charged_erase hheld, if_pos hpeer]
  exact Nat.add_pos_left Nat.one_pos _

lemma exists_announces (h : charged entries peer ≠ 0) : ∃ wtxid, Announces entries peer wtxid := by
  by_contra hnone
  refine h (Eq.trans (total_congr fun wtxid held hheld => ?_) total_zero)
  exact if_neg fun hpeer => hnone ⟨wtxid, held, hheld, hpeer⟩

lemma charged_eq_zero (h : (charged entries peer).1 = 0) : charged entries peer = 0 := by
  by_contra hne
  obtain ⟨wtxid, hannounces⟩ := exists_announces hne
  exact Nat.ne_of_gt (charged_fst_pos hannounces) h

lemma charged_le (entries : Entries Endpoint) (peer : PeerToken Endpoint) :
    (charged entries peer).2.1 ≤ total (fun _ held => held.tx.weight) entries ∧
      (charged entries peer).2.2 ≤ total (fun _ held => held.tx.weight) entries := by
  constructor
  · have hmap := map_total ((AddMonoidHom.fst ℕ ℕ).comp (AddMonoidHom.snd ℕ (ℕ × ℕ)))
      (m := entries) (f := fun _ held => if peer ∈ held.announcers then chargeOf held.tx else 0)
    refine (le_of_eq hmap).trans (total_le fun wtxid held _ => ?_)
    split_ifs with hpeer
    · exact Nat.le_refl held.tx.weight
    · exact Nat.zero_le _
  · have hmap := map_total ((AddMonoidHom.snd ℕ ℕ).comp (AddMonoidHom.snd ℕ (ℕ × ℕ)))
      (m := entries) (f := fun _ held => if peer ∈ held.announcers then chargeOf held.tx else 0)
    refine (le_of_eq hmap).trans (total_le fun wtxid held _ => ?_)
    split_ifs with hpeer
    · exact latencyScore_le_weight held.tx
    · exact Nat.zero_le _

end

section

variable {Endpoint : Type} [DecidableEq Endpoint]

structure UsageFor (usages : Usages Endpoint) (owed : PeerToken Endpoint → ℕ × ℕ × ℕ)
    (announces : PeerToken Endpoint → Wtxid → Prop) : Prop where
  amounts : ∀ peer, (usageOf usages peer).amounts = owed peer
  present : ∀ peer usage, usages.lookup peer = some usage → 0 < usage.announcements
  announced : ∀ peer wtxid, announces peer wtxid → wtxid ∈ (usageOf usages peer).announced

variable {pool : OrphanPool Endpoint} {owed rest : PeerToken Endpoint → ℕ × ℕ × ℕ}
  {announces : PeerToken Endpoint → Wtxid → Prop} {usages : Usages Endpoint} {peer : PeerToken Endpoint}
  {weight latency : ℕ}

lemma usageOf_insert (usage : PeerUsage) (other : PeerToken Endpoint) :
    usageOf (usages.insert peer usage) other = if other = peer then usage else usageOf usages other := by
  unfold usageOf
  rw [lookup_insert]
  split_ifs <;> rfl

lemma usageOf_erase (other : PeerToken Endpoint) :
    usageOf (usages.erase peer) other = if other = peer then PeerUsage.default else usageOf usages other := by
  unfold usageOf
  rw [lookup_erase]
  split_ifs <;> rfl

lemma usageOf_of_lookup {usage : PeerUsage} (h : usages.lookup peer = some usage) : usageOf usages peer = usage := by
  rw [usageOf, h, Option.getD_some]

lemma UsageFor.mono {fewer : PeerToken Endpoint → Wtxid → Prop} (h : UsageFor usages owed announces)
    (hle : ∀ peer wtxid, fewer peer wtxid → announces peer wtxid) : UsageFor usages owed fewer :=
  ⟨h.amounts, h.present, fun peer wtxid hfewer => h.announced peer wtxid (hle peer wtxid hfewer)⟩

lemma UsageFor.charge (wtxid : Wtxid) (h : UsageFor pool.peerUsage owed announces)
    (hweight : (owed peer).2.1 + weight < 2 ^ 64) (hlatency : (owed peer).2.2 + latency < 2 ^ 64) :
    ∃ usages, pool.charge peer wtxid weight latency = { pool with peerUsage := usages } ∧
      UsageFor usages (update owed peer ((1, weight, latency) + owed peer))
        fun other id => announces other id ∨ other = peer ∧ id = wtxid := by
  refine ⟨_, rfl, fun other => ?_, fun other usage husage => ?_, fun other id hannounces => ?_⟩
  · rw [usageOf_insert]
    by_cases hsame : other = peer
    · rw [if_pos hsame, hsame, update_self, ← h.amounts peer]
      rw [← h.amounts peer] at hweight hlatency
      change (usageOf pool.peerUsage peer).weight + weight < 2 ^ 64 at hweight
      change (usageOf pool.peerUsage peer).latency + latency < 2 ^ 64 at hlatency
      have hnoWeight : saturatingAdd (usageOf pool.peerUsage peer).weight weight =
          weight + (usageOf pool.peerUsage peer).weight := by
        unfold saturatingAdd
        omega
      have hnoLatency : saturatingAdd (usageOf pool.peerUsage peer).latency latency =
          latency + (usageOf pool.peerUsage peer).latency := by
        unfold saturatingAdd
        omega
      exact Prod.ext (Nat.add_comm _ _) (Prod.ext hnoWeight hnoLatency)
    · rw [if_neg hsame, update_of_ne hsame]
      exact h.amounts other
  · rw [lookup_insert] at husage
    split_ifs at husage with hsame
    · cases husage
      exact Nat.succ_pos _
    · exact h.present other usage husage
  · rw [usageOf_insert]
    split_ifs with hsame
    · rcases hannounces with hannounces | ⟨-, rfl⟩
      · subst hsame
        exact mem_append_left _ (h.announced other id hannounces)
      · exact mem_append_right _ mem_cons_self
    · exact h.announced other id (hannounces.resolve_right fun hnew => hsame hnew.1)

lemma UsageFor.refund {left : ℕ × ℕ × ℕ} (h : UsageFor pool.peerUsage owed announces)
    (howed : owed peer = (1, weight, latency) + left) (hclosed : left.1 = 0 → left = 0 ∧ ∀ wtxid,
      ¬announces peer wtxid) :
    ∃ usages, pool.refund peer weight latency = { pool with peerUsage := usages } ∧
      UsageFor usages (update owed peer left) announces := by
  have hamounts := (h.amounts peer).trans howed
  cases hlookup : pool.peerUsage.lookup peer with
  | none =>
    rw [usageOf, hlookup] at hamounts
    have hcount : 0 = 1 + left.1 := congrArg Prod.fst hamounts
    omega
  | some usage =>
    rw [usageOf_of_lookup hlookup] at hamounts
    have hcount : usage.announcements = 1 + left.1 := congrArg Prod.fst hamounts
    have hweight : usage.weight = weight + left.2.1 := congrArg (fun amounts => amounts.2.1) hamounts
    have hlatency : usage.latency = latency + left.2.2 := congrArg (fun amounts => amounts.2.2) hamounts
    unfold OrphanPool.refund
    rw [hlookup]
    dsimp only
    split_ifs with hdrained
    · obtain ⟨hleft, hnone⟩ := hclosed (by omega)
      refine ⟨_, rfl, fun other => ?_, fun other usage husage => ?_, fun other id hannounces => ?_⟩
      · rw [usageOf_erase]
        by_cases hsame : other = peer
        · rw [if_pos hsame, hsame, update_self, hleft]
          rfl
        · rw [if_neg hsame, update_of_ne hsame]
          exact h.amounts other
      · rw [lookup_erase] at husage
        split_ifs at husage with hsame
        exact h.present other usage husage
      · rw [usageOf_erase]
        split_ifs with hsame
        · subst hsame
          exact absurd hannounces (hnone id)
        · exact h.announced other id hannounces
    · refine ⟨_, rfl, fun other => ?_, fun other usage husage => ?_, fun other id hannounces => ?_⟩
      · rw [usageOf_insert]
        by_cases hsame : other = peer
        · rw [if_pos hsame, hsame, update_self]
          refine Prod.ext ?_ (Prod.ext ?_ ?_)
          · change usage.announcements - 1 = left.1
            omega
          · change usage.weight - weight = left.2.1
            omega
          · change usage.latency - latency = left.2.2
            omega
        · rw [if_neg hsame, update_of_ne hsame]
          exact h.amounts other
      · rw [lookup_insert] at husage
        split_ifs at husage with hsame
        · cases husage
          exact Nat.pos_of_ne_zero hdrained
        · exact h.present other _ husage
      · rw [usageOf_insert]
        split_ifs with hsame
        · subst hsame
          have hlisted := h.announced other id hannounces
          rwa [usageOf_of_lookup hlookup] at hlisted
        · exact h.announced other id hannounces

lemma UsageFor.refundAll (announcers : List (PeerToken Endpoint)) (hnodup : announcers.Nodup)
    (h : UsageFor pool.peerUsage owed announces)
    (howed : ∀ peer, owed peer = (if peer ∈ announcers then (1, weight, latency) else 0) + rest peer)
    (hclosed : ∀ peer, (rest peer).1 = 0 → rest peer = 0 ∧ ∀ wtxid, ¬announces peer wtxid) :
    ∃ usages, announcers.foldl (fun pool announcer => pool.refund announcer weight latency) pool =
        { pool with peerUsage := usages } ∧ UsageFor usages rest announces := by
  induction announcers generalizing pool owed with
  | nil =>
    refine ⟨pool.peerUsage, rfl, ?_⟩
    have hsame : owed = rest := funext fun peer => by simpa using howed peer
    rwa [hsame] at h
  | cons first others ih =>
    obtain ⟨hfirst, hothers⟩ := nodup_cons.mp hnodup
    have hhead : owed first = (1, weight, latency) + rest first := by
      rw [howed first, if_pos mem_cons_self]
    obtain ⟨usages, hrefund, husages⟩ := h.refund hhead (hclosed first)
    have howed' : ∀ peer, update owed first (rest first) peer =
        (if peer ∈ others then (1, weight, latency) else 0) + rest peer := by
      intro peer
      by_cases hsame : peer = first
      · rw [hsame, update_self, if_neg hfirst, zero_add]
      · rw [update_of_ne hsame, howed peer]
        simp [hsame]
    rw [foldl_cons, hrefund]
    exact ih hothers husages howed'

end

section

open OrphanPool

abbrev ParentIndex := AList fun _ : Txid => Members Wtxid

def childrenOf (byParent : ParentIndex) (parent : Txid) : Members Wtxid := (byParent.lookup parent).getD ∅

structure IndexFor (byParent : ParentIndex) (refers : Wtxid → Txid → Prop) : Prop where
  children : ∀ parent wtxid, wtxid ∈ childrenOf byParent parent ↔ refers wtxid parent
  nonempty : ∀ parent children, byParent.lookup parent = some children → children.list ≠ []

variable {byParent : ParentIndex} {refers : Wtxid → Txid → Prop} {wtxid : Wtxid}

lemma IndexFor.congr {refers' : Wtxid → Txid → Prop} (h : IndexFor byParent refers)
    (hiff : ∀ wtxid parent, refers wtxid parent ↔ refers' wtxid parent) : IndexFor byParent refers' :=
  ⟨fun parent wtxid => (h.children parent wtxid).trans (hiff wtxid parent), h.nonempty⟩

lemma childrenOf_insert (parent : Txid) (children : Members Wtxid) (other : Txid) :
    childrenOf (byParent.insert parent children) other = if other =
      parent then children else childrenOf byParent other := by
  unfold childrenOf
  rw [lookup_insert]
  split_ifs <;> rfl

lemma childrenOf_erase (parent other : Txid) :
    childrenOf (byParent.erase parent) other = if other = parent then ∅ else childrenOf byParent other := by
  unfold childrenOf
  rw [lookup_erase]
  split_ifs <;> rfl

variable (h : IndexFor byParent refers)

include h

variable (wtxid) (input : TxIn)

lemma IndexFor.indexParent :
    IndexFor (indexParent wtxid byParent input) fun id parent =>
      refers id parent ∨ id = wtxid ∧ input.previousOutput.isNull = false ∧ input.previousOutput.txid = parent := by
  unfold OrphanPool.indexParent
  dsimp only
  cases hnull : input.previousOutput.isNull with
  | true =>
    exact h.congr fun id parent => by simp
  | false =>
    rw [if_pos (by simp)]
    constructor
    · intro parent id
      rw [childrenOf_insert]
      split_ifs with hsame
      · rw [Members.mem_insert, hsame, ← h.children]
        constructor
        · rintro (rfl | hmem)
          · exact .inr ⟨rfl, rfl, rfl⟩
          · exact .inl hmem
        · rintro (hmem | ⟨rfl, -, -⟩)
          · exact .inr hmem
          · exact .inl rfl
      · rw [h.children]
        exact ⟨.inl, fun hor => hor.resolve_right fun hnew => hsame hnew.2.2.symm⟩
    · intro parent children hlookup
      rw [lookup_insert] at hlookup
      split_ifs at hlookup
      · cases hlookup
        exact ne_nil_of_mem (Members.mem_insert.mpr (.inl rfl))
      · exact h.nonempty parent children hlookup

lemma IndexFor.unindexParent :
    IndexFor (unindexParent wtxid byParent input) fun id parent =>
      refers id parent ∧ ¬(id = wtxid ∧ input.previousOutput.txid = parent) := by
  unfold OrphanPool.unindexParent
  dsimp only
  cases hlookup : byParent.lookup input.previousOutput.txid with
  | none =>
    refine h.congr fun id parent => ⟨fun hrefers => ⟨hrefers, fun hgone => ?_⟩, And.left⟩
    rw [← hgone.2, ← h.children, childrenOf, hlookup] at hrefers
    exact Members.not_mem_empty hrefers
  | some children =>
    have hchildren : childrenOf byParent input.previousOutput.txid = children := by
      rw [childrenOf, hlookup, Option.getD_some]
    have herased (id : Wtxid) : id ∈ children.erase wtxid ↔ id ≠ wtxid ∧ refers id input.previousOutput.txid := by
      rw [Members.mem_erase, ← h.children, hchildren]
    dsimp only
    split_ifs with hempty
    · constructor
      · intro parent id
        rw [childrenOf_erase]
        split_ifs with hsame
        · rw [hsame]
          refine ⟨fun hmem => absurd hmem Members.not_mem_empty, fun ⟨hrefers, hkept⟩ => ?_⟩
          have hmem : id ∈ children.erase wtxid := (herased id).mpr ⟨fun hid => hkept ⟨hid, rfl⟩, hrefers⟩
          change id ∈ (children.erase wtxid).list at hmem
          rw [hempty] at hmem
          exact absurd hmem not_mem_nil
        · rw [h.children]
          exact ⟨fun hrefers => ⟨hrefers, fun hgone => hsame hgone.2.symm⟩, And.left⟩
      · intro parent others hother
        rw [lookup_erase] at hother
        split_ifs at hother
        exact h.nonempty parent others hother
    · constructor
      · intro parent id
        rw [childrenOf_insert]
        split_ifs with hsame
        · rw [hsame, herased]
          refine ⟨fun ⟨hid, hrefers⟩ => ⟨hrefers, fun hgone => hid hgone.1⟩, fun ⟨hrefers, hkept⟩ => ?_⟩
          exact ⟨fun hid => hkept ⟨hid, rfl⟩, hrefers⟩
        · rw [h.children]
          exact ⟨fun hrefers => ⟨hrefers, fun hgone => hsame hgone.2.symm⟩, And.left⟩
      · intro parent others hother
        rw [lookup_insert] at hother
        split_ifs at hother
        · cases hother
          exact hempty
        · exact h.nonempty parent others hother

variable (inputs : List TxIn)

lemma IndexFor.indexParents :
    IndexFor (inputs.foldl (OrphanPool.indexParent wtxid) byParent) fun id parent =>
      refers id parent ∨ id = wtxid ∧
        ∃ input ∈ inputs, input.previousOutput.isNull = false ∧ input.previousOutput.txid = parent := by
  induction inputs generalizing byParent refers with
  | nil => exact h.congr fun id parent => by simp
  | cons input rest ih =>
    refine (ih (h.indexParent wtxid input)).congr fun id parent => ?_
    simp only [exists_mem_cons_iff]
    tauto

lemma IndexFor.unindexParents :
    IndexFor (inputs.foldl (OrphanPool.unindexParent wtxid) byParent) fun id parent =>
      refers id parent ∧ ¬(id = wtxid ∧ ∃ input ∈ inputs, input.previousOutput.txid = parent) := by
  induction inputs generalizing byParent refers with
  | nil => exact h.congr fun id parent => by simp
  | cons input rest ih =>
    refine (ih (h.unindexParent wtxid input)).congr fun id parent => ?_
    rw [exists_mem_cons_iff, and_or_left, not_or, and_assoc]

end

end BitcoinRs.Mempool
