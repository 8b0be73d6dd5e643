import BitcoinRs.Mempool.Orphan

namespace BitcoinRs.Mempool

open Ledger List Function Nat

namespace OrphanPool

variable {Endpoint : Type}

def References (tx : Tx) (parent : Txid) : Prop :=
  ∃ input ∈ tx.inputs, input.previousOutput.isNull = false ∧ input.previousOutput.txid = parent

def Refers (entries : Entries Endpoint) (wtxid : Wtxid) (parent : Txid) : Prop :=
  ∃ held, entries.lookup wtxid = some held ∧ References held.tx parent

structure ReadyFor (ready : List (OrphanRetryClaim Endpoint)) (readyIds : Members Wtxid) (entries : Entries Endpoint) :
    Prop where
  ids : ∀ wtxid, wtxid ∈ readyIds ↔ wtxid ∈ ready.map OrphanRetryClaim.wtxid
  nodup : (ready.map OrphanRetryClaim.wtxid).Nodup
  held : ∀ wtxid ∈ readyIds, wtxid ∈ entries

structure Accounts [DecidableEq Endpoint] (pool : OrphanPool Endpoint) : Prop where
  usage : UsageFor pool.peerUsage (charged pool.entries) (Announces pool.entries)
  weight : pool.totalWeight = total (fun _ held => held.tx.weight) pool.entries
  index : IndexFor pool.byParent (Refers pool.entries)
  ready : ReadyFor pool.ready pool.readyIds pool.entries

variable (pool : OrphanPool Endpoint)

def AllAnnounced : Prop := ∀ wtxid held, pool.entries.lookup wtxid = some held → held.announcers.list ≠ []

structure Sound [DecidableEq Endpoint] (pool : OrphanPool Endpoint) : Prop where
  accounts : Accounts pool
  announced : AllAnnounced pool

def WithinLimits : Prop := pool.entries.entries.length ≤ pool.quota ∧ pool.totalWeight ≤ pool.maxWeight

variable {pool} {wtxid : Wtxid} {held : HeldOrphan Endpoint} {peer : PeerToken Endpoint}

section

variable {entries : Entries Endpoint} (other : PeerToken Endpoint) (id : Wtxid)

lemma announces_erase : Announces (entries.erase wtxid) other id ↔ id ≠ wtxid ∧ Announces entries other id := by
  unfold Announces
  rw [lookup_erase]
  split_ifs with hsame
  · simp [hsame]
  · simp [hsame]

lemma announces_insert :
    Announces (entries.insert wtxid held) other id ↔
      id = wtxid ∧ other ∈ held.announcers ∨ id ≠ wtxid ∧ Announces entries other id := by
  unfold Announces
  rw [lookup_insert]
  split_ifs with hsame
  · simp [hsame]
  · simp [hsame]

variable (parent : Txid)

lemma refers_erase : Refers (entries.erase wtxid) id parent ↔ id ≠ wtxid ∧ Refers entries id parent := by
  unfold Refers
  rw [lookup_erase]
  split_ifs with hsame
  · simp [hsame]
  · simp [hsame]

lemma refers_insert :
    Refers (entries.insert wtxid held) id parent ↔
      id = wtxid ∧ References held.tx parent ∨ id ≠ wtxid ∧ Refers entries id parent := by
  unfold Refers
  rw [lookup_insert]
  split_ifs with hsame
  · simp [hsame]
  · simp [hsame]

section

variable (hheld : entries.lookup wtxid = some held) (announcers : Members (PeerToken Endpoint))

include hheld

lemma refers_replace (id : Wtxid) (parent : Txid) :
    Refers (entries.insert wtxid { held with announcers }) id parent ↔ Refers entries id parent := by
  rw [refers_insert]
  constructor
  · rintro (⟨rfl, hreferences⟩ | ⟨-, hrefers⟩)
    · exact ⟨held, hheld, hreferences⟩
    · exact hrefers
  · intro hrefers
    by_cases hid : id = wtxid
    · obtain ⟨other, hother, hreferences⟩ := hrefers
      rw [hid, hheld] at hother
      cases hother
      exact .inl ⟨hid, hreferences⟩
    · exact .inr ⟨hid, hrefers⟩

lemma weight_replace : total (fun _ held => held.tx.weight) (entries.insert wtxid { held with announcers }) =
    total (fun _ held => held.tx.weight) entries := by
  rw [total_insert, total_erase hheld]

lemma length_replace : (entries.insert wtxid { held with announcers }).entries.length = entries.entries.length := by
  rw [← total_one, ← total_one, total_insert, total_erase hheld]

end

end

lemma ReadyFor.clearReady {entries entries' : Entries Endpoint} (h : ReadyFor pool.ready pool.readyIds entries)
    (hentries : ∀ id, id ≠ wtxid → id ∈ entries → id ∈ entries') :
    ReadyFor (pool.clearReady wtxid).ready (pool.clearReady wtxid).readyIds entries' := by
  unfold OrphanPool.clearReady
  split_ifs with hmem
  · have hmap : ((pool.ready.filter fun claim => claim.wtxid ≠ wtxid).map OrphanRetryClaim.wtxid) =
        (pool.ready.map OrphanRetryClaim.wtxid).filter fun id => id ≠ wtxid := by
      rw [filter_map]
      rfl
    constructor
    · intro id
      rw [hmap, mem_filter, Members.mem_erase, ← h.ids, decide_eq_true_eq, and_comm]
    · rw [hmap]
      exact h.nodup.filter _
    · intro id hid
      obtain ⟨hne, hid⟩ := Members.mem_erase.mp hid
      exact hentries id hne (h.held id hid)
  · exact ⟨h.ids, h.nodup, fun id hid => hentries id (fun hsame => hmem (hsame ▸ hid)) (h.held id hid)⟩

structure NoLarger (next pool : OrphanPool Endpoint) : Prop where
  quota : next.quota = pool.quota
  maxWeight : next.maxWeight = pool.maxWeight
  length : next.entries.entries.length ≤ pool.entries.entries.length
  weight : next.totalWeight ≤ pool.totalWeight

lemma NoLarger.refl (pool : OrphanPool Endpoint) : NoLarger pool pool := ⟨rfl, rfl, Nat.le_refl _, Nat.le_refl _⟩

lemma NoLarger.trans {last next : OrphanPool Endpoint} (h : NoLarger next pool) (h' : NoLarger last next) :
    NoLarger last pool :=
  ⟨h'.quota.trans h.quota, h'.maxWeight.trans h.maxWeight, h'.length.trans h.length, h'.weight.trans h.weight⟩

lemma NoLarger.withinLimits {next : OrphanPool Endpoint} (h : NoLarger next pool) (hlimits : pool.WithinLimits) :
    next.WithinLimits := by
  unfold WithinLimits
  rw [h.quota, h.maxWeight]
  exact ⟨h.length.trans hlimits.1, h.weight.trans hlimits.2⟩

lemma clearReady_eq (pool : OrphanPool Endpoint) (wtxid : Wtxid) :
    pool.clearReady wtxid =
      { pool with readyIds := (pool.clearReady wtxid).readyIds, ready := (pool.clearReady wtxid).ready } := by
  unfold clearReady
  split_ifs <;> rfl

variable [DecidableEq Endpoint]

lemma Accounts.remove_of_lookup (h : Accounts pool) (hheld : pool.entries.lookup wtxid = some held) :
    Accounts (pool.remove wtxid).1 ∧ NoLarger (pool.remove wtxid).1 pool ∧
      (pool.remove wtxid).1.entries = pool.entries.erase wtxid := by
  have hannounces : UsageFor ({ pool with
        entries := pool.entries.erase wtxid
        totalWeight := pool.totalWeight - held.tx.weight }.unindexParents wtxid held.tx).peerUsage
      (charged pool.entries) (Announces (pool.entries.erase wtxid)) :=
    h.usage.mono fun peer id hannounces => ((announces_erase peer id).mp hannounces).2
  have hclosed : ∀ peer, (charged (pool.entries.erase wtxid) peer).1 = 0 →
      charged (pool.entries.erase wtxid) peer = 0 ∧ ∀ id, ¬Announces (pool.entries.erase wtxid) peer id :=
    fun peer hzero => ⟨charged_eq_zero hzero, fun id hannounces => ne_of_gt (charged_fst_pos hannounces) hzero⟩
  obtain ⟨usages, hrefund, husages⟩ :=
    hannounces.refundAll held.announcers.list held.announcers.nodup (charged_erase hheld) hclosed
  have hweight : pool.totalWeight = held.tx.weight + total (fun _ held => held.tx.weight) (pool.entries.erase wtxid) :=
    h.weight.trans (total_erase hheld)
  have hlength : pool.entries.entries.length = 1 + (pool.entries.erase wtxid).entries.length := by
    rw [← total_one, ← total_one]
    exact total_erase hheld
  unfold OrphanPool.remove
  rw [hheld]
  dsimp only
  rw [hrefund, clearReady_eq]
  refine ⟨⟨husages, ?_, ?_, ?_⟩, ⟨rfl, rfl, ?_, sub_le _ _⟩, rfl⟩
  · change pool.totalWeight - held.tx.weight = total (fun _ held => held.tx.weight) (pool.entries.erase wtxid)
    omega
  · refine (h.index.unindexParents wtxid held.tx.inputs).congr fun id parent => ?_
    change _ ↔ Refers (pool.entries.erase wtxid) id parent
    rw [refers_erase]
    refine ⟨fun ⟨hrefers, hkept⟩ => ⟨fun hid => hkept ⟨hid, ?_⟩, hrefers⟩, fun ⟨hid, hrefers⟩ => ?_⟩
    · obtain ⟨held', hheld', input, hinput, -, hparent⟩ := hrefers
      rw [hid, hheld] at hheld'
      cases hheld'
      exact ⟨input, hinput, hparent⟩
    · exact ⟨hrefers, fun hgone => hid hgone.1⟩
  · have hready : ReadyFor pool.ready pool.readyIds pool.entries := h.ready
    exact ReadyFor.clearReady hready fun id hne hid => AList.mem_erase.mpr ⟨hne, hid⟩
  · change (pool.entries.erase wtxid).entries.length ≤ _
    omega

lemma Sound.remove (h : Sound pool) (wtxid : Wtxid) :
    Sound (pool.remove wtxid).1 ∧ NoLarger (pool.remove wtxid).1 pool := by
  cases hheld : pool.entries.lookup wtxid with
  | none =>
    have hsame : (pool.remove wtxid).1 = pool := by
      unfold OrphanPool.remove
      rw [hheld]
    rw [hsame]
    exact ⟨h, NoLarger.refl pool⟩
  | some held =>
    obtain ⟨haccounts, hsmaller, hentries⟩ := h.accounts.remove_of_lookup hheld
    refine ⟨⟨haccounts, fun id other hother => ?_⟩, hsmaller⟩
    rw [hentries, lookup_erase] at hother
    split_ifs at hother
    exact h.announced id other hother

section

lemma Accounts.dropAnnouncer (h : Accounts pool) (hheld : pool.entries.lookup wtxid = some held)
    (hpeer : peer ∈ held.announcers) :
    ∃ usages, { pool with entries := pool.entries.insert wtxid { held with announcers := held.announcers.erase peer }
          }.refund peer held.tx.weight (latencyScore held.tx) =
        { pool with
          entries := pool.entries.insert wtxid { held with announcers := held.announcers.erase peer }
          peerUsage := usages } ∧
      Accounts { pool with
          entries := pool.entries.insert wtxid { held with announcers := held.announcers.erase peer }
          peerUsage := usages } := by
  generalize hentries : pool.entries.insert wtxid { held with announcers := held.announcers.erase peer } = entries
  have hcharged (other : PeerToken Endpoint) : charged entries other =
      (if other ∈ held.announcers.erase peer then chargeOf held.tx else 0) + charged (pool.entries.erase wtxid)
        other := by
    rw [← hentries]
    exact charged_insert wtxid _ other
  have howed : charged pool.entries peer = chargeOf held.tx + charged entries peer := by
    rw [hcharged, charged_erase hheld, if_pos hpeer, if_neg fun hmem => (Members.mem_erase.mp hmem).1 rfl, zero_add]
  have husage : UsageFor ({ pool with entries := entries } : OrphanPool Endpoint).peerUsage (charged pool.entries)
      (Announces entries) := by
    refine h.usage.mono fun other id hannounces => ?_
    rw [← hentries, announces_insert] at hannounces
    rcases hannounces with ⟨rfl, hmem⟩ | ⟨-, hannounces⟩
    · exact ⟨held, hheld, (Members.mem_erase.mp hmem).2⟩
    · exact hannounces
  obtain ⟨usages, hrefund, husages⟩ := husage.refund howed fun hzero =>
    ⟨charged_eq_zero hzero, fun id hannounces => ne_of_gt (charged_fst_pos hannounces) hzero⟩
  have hupdate : update (charged pool.entries) peer (charged entries peer) = charged entries := by
    funext other
    by_cases hsame : other = peer
    · rw [hsame, update_self]
    · rw [update_of_ne hsame, hcharged, charged_erase hheld]
      simp [Members.mem_erase, hsame]
  rw [hupdate] at husages
  refine ⟨usages, hrefund, husages, ?_, ?_, h.ready.ids, h.ready.nodup, fun id hid => ?_⟩
  · rw [h.weight, ← hentries, weight_replace hheld]
  · refine h.index.congr fun id parent => ?_
    rw [← hentries]
    exact (refers_replace hheld _ id parent).symm
  · rw [← hentries, AList.mem_insert]
    exact .inr (h.ready.held id hid)

lemma Sound.removeAnnouncer_of_mem (h : Sound pool) (hheld : pool.entries.lookup wtxid = some held)
    (hpeer : peer ∈ held.announcers) :
    Sound (pool.removeAnnouncer wtxid peer).1 ∧ NoLarger (pool.removeAnnouncer wtxid peer).1 pool ∧
      (pool.removeAnnouncer wtxid peer).1.announcementCount + 1 = pool.announcementCount := by
  obtain ⟨usages, hrefund, haccounts⟩ := h.accounts.dropAnnouncer hheld hpeer
  have hold : pool.announcementCount = held.announcers.list.length +
      total (fun _ held => held.announcers.list.length) (pool.entries.erase wtxid) := total_erase hheld
  have herase : (held.announcers.erase peer).list.length + 1 = held.announcers.list.length := by
    have hlen : (held.announcers.erase peer).list.length = held.announcers.list.length - 1 := length_erase_of_mem hpeer
    have hpos : 0 < held.announcers.list.length := length_pos_of_mem hpeer
    omega
  have hsame : NoLarger { pool with
      entries := pool.entries.insert wtxid { held with announcers := held.announcers.erase peer }
      peerUsage := usages } pool :=
    ⟨rfl, rfl, (length_replace hheld _).le, le_refl _⟩
  unfold OrphanPool.removeAnnouncer
  rw [hheld]
  dsimp only
  rw [hrefund]
  split_ifs with hempty
  · obtain ⟨hremoved, hsmaller, hentries⟩ := haccounts.remove_of_lookup (AList.lookup_insert pool.entries)
    have hentries : _ = pool.entries.erase wtxid := hentries.trans erase_insert
    refine ⟨⟨hremoved, fun id other hother => ?_⟩, hsame.trans hsmaller, ?_⟩
    · rw [hentries, lookup_erase] at hother
      split_ifs at hother
      exact h.announced id other hother
    · unfold announcementCount at hold ⊢
      rw [hempty] at herase
      rw [hentries, hold, ← herase, length_nil]
      omega
  · refine ⟨⟨haccounts, fun id other hother => ?_⟩, hsame, ?_⟩
    · rw [lookup_insert] at hother
      split_ifs at hother
      · cases hother
        exact hempty
      · exact h.announced id other hother
    · unfold announcementCount at hold ⊢
      rw [total_insert]
      dsimp only
      omega

lemma Sound.removeAnnouncer (h : Sound pool) (wtxid : Wtxid) (peer : PeerToken Endpoint) :
    Sound (pool.removeAnnouncer wtxid peer).1 ∧ NoLarger (pool.removeAnnouncer wtxid peer).1 pool := by
  by_cases hannounces : Announces pool.entries peer wtxid
  · obtain ⟨held, hheld, hpeer⟩ := hannounces
    obtain ⟨hsound, hsmaller, -⟩ := h.removeAnnouncer_of_mem hheld hpeer
    exact ⟨hsound, hsmaller⟩
  · have hsame : (pool.removeAnnouncer wtxid peer).1 = pool := by
      unfold OrphanPool.removeAnnouncer
      cases hheld : pool.entries.lookup wtxid with
      | none => rfl
      | some held =>
        dsimp only
        rw [if_neg fun hpeer => hannounces ⟨held, hheld, hpeer⟩]
    rw [hsame]
    exact ⟨h, NoLarger.refl pool⟩

end

section

lemma Sound.retainAnnounced (h : Sound pool) (victim : PeerToken Endpoint) :
    Sound (pool.retainAnnounced victim) ∧ NoLarger (pool.retainAnnounced victim) pool ∧
      (pool.retainAnnounced victim).announcementCount = pool.announcementCount := by
  unfold OrphanPool.retainAnnounced
  cases hlookup : pool.peerUsage.lookup victim with
  | none => exact ⟨h, NoLarger.refl pool, rfl⟩
  | some usage =>
    have husage := h.accounts.usage
    refine ⟨⟨⟨⟨fun other => ?_, fun other kept hkept => ?_, fun other id hannounces => ?_⟩, h.accounts.weight,
      h.accounts.index, h.accounts.ready⟩, h.announced⟩, ⟨rfl, rfl, le_refl _, le_refl _⟩, rfl⟩
    · rw [usageOf_insert, ← husage.amounts other]
      split_ifs with hsame
      · rw [hsame, usageOf_of_lookup hlookup]
        rfl
      · rfl
    · rw [lookup_insert] at hkept
      split_ifs at hkept
      · cases hkept
        exact husage.present victim usage hlookup
      · exact husage.present other kept hkept
    · have hlisted := husage.announced other id hannounces
      rw [usageOf_insert]
      split_ifs with hsame
      · obtain ⟨held, hheld, hpeer⟩ := hannounces
        rw [hsame] at hpeer hlisted
        rw [usageOf_of_lookup hlookup] at hlisted
        refine mem_filter.mpr ⟨hlisted, ?_⟩
        rw [hheld]
        exact decide_eq_true hpeer
      · exact hlisted

variable {victim : PeerToken Endpoint} {announced : List Wtxid}

lemma announces_oldestTarget {candidate : Option Wtxid}
    (hcandidate : ∀ id, candidate = some id → Announces pool.entries victim id)
    (h : pool.oldestTarget victim candidate announced = some wtxid) : Announces pool.entries victim wtxid := by
  induction announced generalizing candidate with
  | nil => exact hcandidate wtxid h
  | cons id rest ih =>
    unfold oldestTarget at h
    cases hheld : pool.entries.lookup id with
    | none =>
      rw [hheld] at h
      exact ih hcandidate h
    | some held =>
      rw [hheld] at h
      dsimp only at h
      split_ifs at h with hpeer hready
      · refine ih (fun other hother => ?_) h
        cases candidate with
        | none =>
          cases hother
          exact ⟨held, hheld, hpeer⟩
        | some first => exact hcandidate other hother
      · cases h
        exact ⟨held, hheld, hpeer⟩
      · exact ih hcandidate h

lemma oldestTarget_isSome
    (hmem : wtxid ∈ announced) (hannounces : Announces pool.entries victim wtxid) (candidate : Option Wtxid) :
    (pool.oldestTarget victim candidate announced).isSome = true := by
  have hcandidate : ∀ (ids : List Wtxid) (first : Wtxid), (pool.oldestTarget victim (some first) ids).isSome =
    true := by
    intro ids first
    induction ids with
    | nil => rfl
    | cons id rest ih =>
      unfold oldestTarget
      split
      · exact ih
      · split_ifs
        · exact ih
        · rfl
        · exact ih
  induction announced generalizing candidate with
  | nil => exact absurd hmem not_mem_nil
  | cons id rest ih =>
    unfold oldestTarget
    rcases mem_cons.mp hmem with rfl | hmem
    · obtain ⟨held, hheld, hpeer⟩ := hannounces
      rw [hheld]
      dsimp only
      split_ifs
      · cases candidate with
        | none => exact hcandidate rest wtxid
        | some first => exact hcandidate rest first
      · rfl
    · split
      · exact ih hmem candidate
      · split_ifs
        · exact ih hmem _
        · rfl
        · exact ih hmem candidate

variable [Ord Endpoint]

lemma highestScoringPeer_isSome {usage : PeerUsage} (h : pool.peerUsage.lookup peer = some usage) :
    ∃ victim usage, pool.highestScoringPeer = some victim ∧ pool.peerUsage.lookup victim = some usage := by
  unfold highestScoringPeer
  cases hmax : MaxBy.maxBy (fun left right : Sigma fun _ : PeerToken Endpoint => PeerUsage =>
      (compare (left.2.rank pool.peerAllowance) (right.2.rank pool.peerAllowance)).then (left.1.compareKeys right.1))
      pool.peerUsage.entries with
  | none =>
    have hmem := AList.mem_lookup_iff.mp h
    rw [MaxBy.maxBy_eq_none.mp hmax] at hmem
    exact absurd hmem not_mem_nil
  | some entry => exact ⟨entry.1, entry.2, rfl, AList.mem_lookup_iff.mpr (MaxBy.maxBy_mem hmax)⟩

variable (h : Sound pool)

include h

lemma Sound.trim (hheld : pool.entries.entries ≠ []) :
    ∃ victim, pool.highestScoringPeer = some victim ∧ (pool.trimOldestAnnouncement victim).2 = true ∧
      Sound (pool.trimOldestAnnouncement victim).1 ∧ NoLarger (pool.trimOldestAnnouncement victim).1 pool ∧
      (pool.trimOldestAnnouncement victim).1.announcementCount + 1 = pool.announcementCount := by
  have husage := h.accounts.usage
  obtain ⟨entry, hentry⟩ := exists_mem_of_ne_nil _ hheld
  have hlookup : pool.entries.lookup entry.1 = some entry.2 := AList.mem_lookup_iff.mpr hentry
  obtain ⟨peer, hpeer⟩ := exists_mem_of_ne_nil _ (h.announced _ _ hlookup)
  have hcount : 0 < (usageOf pool.peerUsage peer).announcements := by
    have hcharged : 0 < (charged pool.entries peer).1 := charged_fst_pos ⟨entry.2, hlookup, hpeer⟩
    rwa [← husage.amounts peer] at hcharged
  obtain ⟨usage, hsome⟩ : ∃ usage, pool.peerUsage.lookup peer = some usage := by
    cases hnone : pool.peerUsage.lookup peer with
    | some usage => exact ⟨usage, rfl⟩
    | none =>
      rw [usageOf, hnone] at hcount
      exact absurd hcount (lt_irrefl 0)
  obtain ⟨victim, usage, hvictim, husageOf⟩ := highestScoringPeer_isSome hsome
  obtain ⟨oldest, holdest⟩ : ∃ oldest, Announces pool.entries victim oldest := by
    refine exists_announces fun hzero => ?_
    have hpresent := husage.present victim usage husageOf
    have hamounts := husage.amounts victim
    rw [hzero, usageOf_of_lookup husageOf] at hamounts
    exact ne_of_gt hpresent (congrArg Prod.fst hamounts)
  have hlisted : oldest ∈ usage.announced := by
    have hannounced := husage.announced victim oldest holdest
    rwa [usageOf_of_lookup husageOf] at hannounced
  obtain ⟨target, htarget⟩ := Option.isSome_iff_exists.mp (oldestTarget_isSome hlisted holdest none)
  obtain ⟨held, hheld, hpeer⟩ := announces_oldestTarget (fun id hid => by cases hid) htarget
  obtain ⟨hsound, hsmaller, hless⟩ := h.removeAnnouncer_of_mem hheld hpeer
  obtain ⟨hsound', hsmaller', hsame⟩ := hsound.retainAnnounced victim
  refine ⟨victim, hvictim, ?_⟩
  unfold trimOldestAnnouncement
  rw [husageOf]
  dsimp only
  rw [htarget]
  refine ⟨rfl, hsound', hsmaller.trans hsmaller', ?_⟩
  rw [hsame]
  exact hless

omit [Ord Endpoint] in
lemma Sound.withinLimits_of_empty (hempty : pool.entries.entries = []) : pool.WithinLimits := by
  have hweight := h.accounts.weight
  unfold total at hweight
  rw [hempty] at hweight
  unfold WithinLimits
  rw [hempty, hweight]
  exact ⟨zero_le _, zero_le _⟩

lemma Sound.evictLoop {fuel : ℕ} (hfuel : pool.announcementCount ≤ fuel) :
    Sound (evictLoop fuel pool) ∧ (evictLoop fuel pool).WithinLimits ∧ NoLarger (evictLoop fuel pool) pool := by
  induction fuel generalizing pool with
  | zero =>
    have hempty : pool.entries.entries = [] := by
      by_contra hheld
      obtain ⟨victim, -, -, -, -, hless⟩ := h.trim hheld
      omega
    exact ⟨h, h.withinLimits_of_empty hempty, NoLarger.refl pool⟩
  | succ fuel ih =>
    unfold OrphanPool.evictLoop
    split_ifs with hover
    · have hheld : pool.entries.entries ≠ [] := by
        intro hempty
        obtain ⟨hlength, hweight⟩ := h.withinLimits_of_empty hempty
        rcases hover with hover | hover
        · exact not_lt.mpr hlength hover
        · exact not_lt.mpr hweight hover
      obtain ⟨victim, hvictim, htrimmed, hsound, hsmaller, hless⟩ := h.trim hheld
      rw [hvictim]
      dsimp only
      rw [htrimmed]
      obtain ⟨hsound', hlimits, hsmaller'⟩ := ih hsound (by omega)
      exact ⟨hsound', hlimits, hsmaller.trans hsmaller'⟩
    · rw [not_or, not_lt, not_lt] at hover
      exact ⟨h, hover, NoLarger.refl pool⟩

end

section

lemma usage_charge {entries : Entries Endpoint} {tx : Tx}
    (h : UsageFor pool.peerUsage (charged entries) (Announces entries))
    (hroom : tx.weight + total (fun _ held => held.tx.weight) (entries.erase wtxid) < 2 ^ 64)
    (hpeer : charged entries peer = charged (entries.erase wtxid) peer) {entries' : Entries Endpoint}
    (hcharged : charged entries' = update (charged entries) peer (chargeOf tx + charged entries peer))
    (hannounces : ∀ other id, Announces entries' other id → Announces entries other id ∨ other = peer ∧ id = wtxid) :
    ∃ usages, pool.charge peer wtxid tx.weight (latencyScore tx) = { pool with peerUsage := usages } ∧
      UsageFor usages (charged entries') (Announces entries') := by
  have hlatency := latencyScore_le_weight tx
  obtain ⟨hweight, hlatency'⟩ := charged_le (entries.erase wtxid) peer
  rw [← hpeer] at hweight hlatency'
  have hroomWeight : (charged entries peer).2.1 + tx.weight < 2 ^ 64 := by omega
  have hroomLatency : (charged entries peer).2.2 + latencyScore tx < 2 ^ 64 := by omega
  obtain ⟨usages, hcharge, husages⟩ := h.charge wtxid hroomWeight hroomLatency
  refine ⟨usages, hcharge, ?_⟩
  rw [hcharged]
  exact husages.mono hannounces

lemma Sound.addAnnouncer (h : Sound pool) (hroom : pool.totalWeight < 2 ^ 64) (wtxid : Wtxid)
    (peer : PeerToken Endpoint) :
    Sound (pool.addAnnouncer wtxid peer).1 ∧ (pool.addAnnouncer wtxid peer).1.quota = pool.quota ∧
      (pool.addAnnouncer wtxid peer).1.maxWeight = pool.maxWeight := by
  unfold OrphanPool.addAnnouncer
  cases hheld : pool.entries.lookup wtxid with
  | none => exact ⟨h, rfl, rfl⟩
  | some held =>
    dsimp only
    split_ifs with hpeer
    · exact ⟨h, rfl, rfl⟩
    · generalize hentries : pool.entries.insert wtxid { held with announcers := held.announcers.insert peer } = entries
      have hcharged (other : PeerToken Endpoint) : charged entries other =
          (if other ∈ held.announcers.insert peer then chargeOf held.tx else 0) +
            charged (pool.entries.erase wtxid) other := by
        rw [← hentries]
        exact charged_insert wtxid _ other
      have hfree : charged pool.entries peer = charged (pool.entries.erase wtxid) peer := by
        rw [charged_erase hheld, if_neg hpeer, zero_add]
      have hupdate : charged entries =
          update (charged pool.entries) peer (chargeOf held.tx + charged pool.entries peer) := by
        funext other
        by_cases hsame : other = peer
        · rw [hsame, update_self, hcharged, if_pos (Members.mem_insert.mpr (.inl rfl)), hfree]
        · rw [update_of_ne hsame, hcharged, charged_erase hheld]
          simp [Members.mem_insert, hsame]
      have hannounces (other : PeerToken Endpoint) (id : Wtxid) (hnew : Announces entries other id) :
          Announces pool.entries other id ∨ other = peer ∧ id = wtxid := by
        rw [← hentries, announces_insert] at hnew
        rcases hnew with ⟨rfl, hmem⟩ | ⟨-, hold⟩
        · rcases Members.mem_insert.mp hmem with rfl | hmem
          · exact .inr ⟨rfl, rfl⟩
          · exact .inl ⟨held, hheld, hmem⟩
        · exact .inl hold
      have hweight := h.accounts.weight
      rw [total_erase hheld] at hweight
      have husage : UsageFor ({ pool with entries := entries } : OrphanPool Endpoint).peerUsage (charged pool.entries)
          (Announces pool.entries) := h.accounts.usage
      obtain ⟨usages, hcharge, husages⟩ := usage_charge husage (by omega) hfree hupdate hannounces
      rw [hcharge]
      refine ⟨⟨⟨husages, ?_, ?_, h.accounts.ready.ids, h.accounts.ready.nodup, fun id hid => ?_⟩,
        fun id other hother => ?_⟩, rfl, rfl⟩
      · rw [h.accounts.weight, ← hentries, weight_replace hheld]
      · refine h.accounts.index.congr fun id parent => ?_
        rw [← hentries]
        exact (refers_replace hheld _ id parent).symm
      · rw [← hentries, AList.mem_insert]
        exact .inr (h.accounts.ready.held id hid)
      · rw [← hentries, lookup_insert] at hother
        split_ifs at hother
        · cases hother
          exact ne_nil_of_mem (Members.mem_insert.mpr (.inl rfl))
        · exact h.announced id other hother

/-- The pool `insert` goes on with for a new transaction, once `usages` are charged. -/
abbrev staged (pool : OrphanPool Endpoint) (wtxid : Wtxid) (tx : Tx) (peer : PeerToken Endpoint) (time : ℕ)
    (usages : Usages Endpoint) : OrphanPool Endpoint :=
  { pool with
    byParent := tx.inputs.foldl (indexParent wtxid) pool.byParent
    totalWeight := saturatingAdd pool.totalWeight tx.weight
    entries := pool.entries.insert wtxid ⟨tx, Members.singleton peer, time⟩
    peerUsage := usages }

lemma Sound.insertNew (h : Sound pool) {tx : Tx} (hroom : pool.totalWeight + tx.weight < 2 ^ 64)
    (hfresh : pool.entries.lookup wtxid = none) (peer : PeerToken Endpoint) (time : ℕ) :
    ∃ usages, (staged pool wtxid tx peer time pool.peerUsage).charge peer wtxid tx.weight (latencyScore tx) =
      staged pool wtxid tx peer time usages ∧ Sound (staged pool wtxid tx peer time usages) := by
  unfold staged
  have herase : pool.entries.erase wtxid = pool.entries :=
    AList.ext (kerase_of_notMem_keys (AList.lookup_eq_none.mp hfresh))
  generalize hentries : pool.entries.insert wtxid ⟨tx, Members.singleton peer, time⟩ = entries
  have hupdate : charged entries = update (charged pool.entries) peer (chargeOf tx + charged pool.entries peer) := by
    funext other
    rw [← hentries, charged_insert, herase]
    by_cases hsame : other = peer
    · rw [hsame, update_self, if_pos (Members.mem_singleton.mpr rfl)]
    · rw [update_of_ne hsame, if_neg fun hmem => hsame (Members.mem_singleton.mp hmem), zero_add]
  have hannounces (other : PeerToken Endpoint) (id : Wtxid) (hnew : Announces entries other id) :
      Announces pool.entries other id ∨ other = peer ∧ id = wtxid := by
    rw [← hentries, announces_insert] at hnew
    rcases hnew with ⟨hid, hmem⟩ | ⟨-, hold⟩
    · exact .inr ⟨Members.mem_singleton.mp hmem, hid⟩
    · exact .inl hold
  have hweight := h.accounts.weight
  have husage : UsageFor (staged pool wtxid tx peer time pool.peerUsage).peerUsage (charged pool.entries)
      (Announces pool.entries) := h.accounts.usage
  obtain ⟨usages, hcharge, husages⟩ := usage_charge husage (by rw [herase]; omega) (by rw [herase]) hupdate hannounces
  refine ⟨usages, hentries ▸ hcharge, ⟨husages, ?_, ?_, h.accounts.ready.ids, h.accounts.ready.nodup, fun id hid => ?_⟩,
    fun id other hother => ?_⟩
  · rw [← hentries, total_insert_fresh hfresh, ← hweight]
    change min (pool.totalWeight + tx.weight) (2 ^ 64 - 1) = tx.weight + pool.totalWeight
    omega
  · refine (h.accounts.index.indexParents wtxid tx.inputs).congr fun id parent => ?_
    rw [← hentries, refers_insert]
    by_cases hid : id = wtxid
    · have hnone : ¬Refers pool.entries id parent := by
        rintro ⟨other, hother, -⟩
        rw [hid, hfresh] at hother
        cases hother
      simp only [hid, true_and, ne_eq, not_true_eq_false, false_and, or_false]
      rw [hid] at hnone
      simp only [hnone, false_or]
      rfl
    · simp [hid]
  · rw [← hentries, AList.mem_insert]
    exact .inr (h.accounts.ready.held id hid)
  · rw [← hentries, lookup_insert] at hother
    split_ifs at hother
    · cases hother
      exact cons_ne_nil _ _
    · exact h.announced id other hother

end

structure Good (quota maxWeight : ℕ) (pool : OrphanPool Endpoint) : Prop where
  sound : Sound pool
  quota_eq : pool.quota = quota
  maxWeight_eq : pool.maxWeight = maxWeight
  limits : WithinLimits pool

section

variable {quota maxWeight : ℕ} {next : OrphanPool Endpoint}

section

variable (h : Good quota maxWeight pool)

include h

lemma Good.step (hnext : Sound next ∧ NoLarger next pool) :
    Good quota maxWeight next where
  sound := hnext.1
  quota_eq := hnext.2.quota.trans h.quota_eq
  maxWeight_eq := hnext.2.maxWeight.trans h.maxWeight_eq
  limits := hnext.2.withinLimits h.limits

lemma Good.removeAll (wtxids : List Wtxid) :
    Good quota maxWeight (wtxids.foldl (fun pool wtxid => (pool.remove wtxid).1) pool) :=
  foldlRecOn wtxids _ h fun _ hpool wtxid _ => hpool.step (hpool.sound.remove wtxid)

lemma Good.reorder {entries : Entries Endpoint} {byParent : ParentIndex}
    {usages : Usages Endpoint} (hentries : entries.entries.Perm pool.entries.entries)
    (hparents : byParent.entries.Perm pool.byParent.entries) (husages : usages.entries.Perm pool.peerUsage.entries) :
    Good quota maxWeight { pool with entries := entries, byParent := byParent, peerUsage := usages } := by
  have hlookup (id : Wtxid) : entries.lookup id = pool.entries.lookup id := AList.perm_lookup hentries
  have hparent (parent : Txid) : byParent.lookup parent = pool.byParent.lookup parent := AList.perm_lookup hparents
  have husage (peer : PeerToken Endpoint) : usages.lookup peer = pool.peerUsage.lookup peer := AList.perm_lookup husages
  have hannounces : Announces entries = Announces pool.entries := by
    funext peer id
    rw [Announces, Announces, hlookup]
  have hcharged : charged entries = charged pool.entries := funext fun peer => total_perm hentries
  have hweight : pool.totalWeight = total (fun _ held => held.tx.weight) entries :=
    h.sound.accounts.weight.trans (total_perm hentries).symm
  have haccounts := h.sound.accounts
  refine ⟨⟨⟨⟨fun peer => ?_, fun peer usage hsome => ?_, fun peer id hpeer => ?_⟩, hweight,
    ⟨fun parent id => ?_, fun parent children hsome => ?_⟩, ⟨haccounts.ready.ids, haccounts.ready.nodup, fun id hid =>
      ?_⟩⟩,
    fun id held hsome => ?_⟩, h.quota_eq, h.maxWeight_eq, ?_, h.limits.2⟩
  · rw [hcharged, usageOf, husage]
    exact haccounts.usage.amounts peer
  · exact haccounts.usage.present peer usage ((husage peer).symm.trans hsome)
  · rw [usageOf, husage]
    exact haccounts.usage.announced peer id (hannounces ▸ hpeer)
  · rw [childrenOf, hparent, Refers, hlookup]
    exact haccounts.index.children parent id
  · exact haccounts.index.nonempty parent children ((hparent parent).symm.trans hsome)
  · exact (AList.mem_of_perm hentries).mpr (haccounts.ready.held id hid)
  · exact h.sound.announced id held ((hlookup id).symm.trans hsome)
  · rw [hentries.length_eq]
    exact h.limits.1

lemma Good.withReady {ready : List (OrphanRetryClaim Endpoint)}
    {readyIds : Members Wtxid} (hready : ReadyFor ready readyIds pool.entries) :
    Good quota maxWeight { pool with ready := ready, readyIds := readyIds } :=
  ⟨⟨⟨h.sound.accounts.usage, h.sound.accounts.weight, h.sound.accounts.index, hready⟩, h.sound.announced⟩, h.quota_eq,
    h.maxWeight_eq, h.limits⟩

end

variable [Ord Endpoint]

section

variable (h : Good quota maxWeight pool)

include h

lemma Good.insert (doubleSha256 : Bytes → Hash256) {tx : Tx}
    (hroom : maxWeight + tx.weight < 2 ^ 64) (announcer : PeerToken Endpoint) (time : ℕ) :
    Good quota maxWeight (pool.insert doubleSha256 tx announcer time) := by
  have hweight := h.limits.2
  rw [h.maxWeight_eq] at hweight
  unfold OrphanPool.insert
  dsimp only
  split_ifs with hmem
  · obtain ⟨hsound, hquota, hmax⟩ := h.sound.addAnnouncer (by omega) (tx.wtxid doubleSha256) announcer
    obtain ⟨hsound', hlimits, hsmaller⟩ := hsound.evictLoop (le_refl _)
    exact ⟨hsound', (hsmaller.quota.trans hquota).trans h.quota_eq,
      (hsmaller.maxWeight.trans hmax).trans h.maxWeight_eq, hlimits⟩
  · have hroom' : pool.totalWeight + tx.weight < 2 ^ 64 := by omega
    obtain ⟨usages, hcharge, hsound⟩ := h.sound.insertNew hroom' (AList.lookup_eq_none.mpr hmem) announcer time
    rw [hcharge]
    obtain ⟨hsound', hlimits, hsmaller⟩ := hsound.evictLoop (le_refl _)
    exact ⟨hsound', hsmaller.quota.trans h.quota_eq, hsmaller.maxWeight.trans h.maxWeight_eq, hlimits⟩

lemma Good.markReady (wtxid : Wtxid) (preferred : PeerToken Endpoint) :
    Good quota maxWeight (pool.markReady wtxid preferred) := by
  unfold OrphanPool.markReady
  cases hheld : pool.entries.lookup wtxid with
  | none => exact h
  | some held =>
    dsimp only
    split
    · exact h
    · split_ifs with hmem
      · exact h
      · have hready := h.sound.accounts.ready
        refine h.withReady ⟨fun id => ?_, ?_, fun id hid => ?_⟩
        · rw [Members.mem_insert, map_append, mem_append, ← hready.ids, or_comm]
          simp
        · rw [map_append, nodup_append]
          refine ⟨hready.nodup, nodup_singleton _, fun id hid other hother hsame => hmem ?_⟩
          have hother : other = wtxid := mem_singleton.mp hother
          rw [hready.ids, ← hother, ← hsame]
          exact hid
        · rcases Members.mem_insert.mp hid with rfl | hid
          · exact AList.lookup_isSome.mp (by rw [hheld]; rfl)
          · exact hready.held id hid

lemma Good.markAll (claims : List (Wtxid × PeerToken Endpoint)) :
    Good quota maxWeight (claims.foldl (fun pool claim => pool.markReady claim.1 claim.2) pool) :=
  foldlRecOn claims _ h fun _ hpool claim _ => hpool.markReady claim.1 claim.2

omit [Ord Endpoint] in
lemma Good.maintain (now : ℕ) (livePeers : Members (PeerToken Endpoint)) :
    Good quota maxWeight (pool.maintain now livePeers).1 := by
  refine foldlRecOn (motive := fun acc : OrphanPool Endpoint × ℕ => Good quota maxWeight acc.1) _ _ ?_
    fun acc hacc (gone : Wtxid × PeerToken Endpoint) _ => hacc.step (hacc.sound.removeAnnouncer gone.1 gone.2)
  exact foldlRecOn (motive := fun acc : OrphanPool Endpoint × ℕ => Good quota maxWeight acc.1) _ _ h
    fun acc hacc (wtxid : Wtxid) _ => hacc.step (hacc.sound.remove wtxid)

end

omit [Ord Endpoint] in
lemma good_withLimits (quota maxWeight peerAnnouncements peerWeight peerLatency : ℕ) :
    Good quota maxWeight
      (withLimits quota maxWeight peerAnnouncements peerWeight peerLatency : OrphanPool Endpoint) := by
  refine ⟨⟨⟨⟨fun peer => rfl, fun peer usage hsome => ?_, fun peer id hannounces => ?_⟩, rfl,
    ⟨fun parent id => ?_, fun parent children hsome => ?_⟩, ⟨fun id => Iff.rfl, nodup_nil, fun id hid => ?_⟩⟩,
    fun id held hsome => ?_⟩, rfl, rfl, zero_le _, zero_le _⟩
  · cases hsome
  · obtain ⟨held, hheld, -⟩ := hannounces
    cases hheld
  · refine ⟨fun hmem => absurd hmem Members.not_mem_empty, ?_⟩
    rintro ⟨held, hheld, -⟩
    cases hheld
  · cases hsome
  · exact absurd hid Members.not_mem_empty
  · cases hsome

def Action.Fits (maxWeight : ℕ) : Action Endpoint → Prop
  | .insert tx _ _ => maxWeight + tx.weight < 2 ^ 64
  | _ => True

instance (maxWeight : ℕ) : (action : Action Endpoint) → Decidable (action.Fits maxWeight)
  | .insert tx _ _ => inferInstanceAs (Decidable (maxWeight + tx.weight < 2 ^ 64))
  | .remove _ | .removeTransactionVariants _ | .markReady _ _ | .parentReady _ | .markAllReady | .takeReady
  | .maintain _ _ | .reorder _ _ _ => inferInstanceAs (Decidable True)

lemma Good.act (h : Good quota maxWeight pool) (doubleSha256 : Bytes → Hash256) {action : Action Endpoint}
    (hfits : action.Fits maxWeight) : Good quota maxWeight (act doubleSha256 pool action) := by
  cases action with
  | insert tx announcer time => exact h.insert doubleSha256 hfits announcer time
  | remove wtxid => exact h.step (h.sound.remove wtxid)
  | removeTransactionVariants txid => exact h.removeAll _
  | markReady wtxid preferred => exact h.markReady wtxid preferred
  | parentReady parent => exact h.markAll _
  | markAllReady => exact h.markAll _
  | takeReady => exact h.withReady ⟨fun id => Iff.rfl, nodup_nil, fun id hid => absurd hid Members.not_mem_empty⟩
  | maintain now livePeers => exact h.maintain now livePeers
  | reorder entries byParent peerUsage =>
    rw [OrphanPool.act]
    split_ifs with hperm
    · exact h.reorder hperm.1 hperm.2.1 hperm.2.2
    · exact h

lemma Good.run (h : Good quota maxWeight pool) (doubleSha256 : Bytes → Hash256) {actions : List (Action Endpoint)}
    (hfits : ∀ action ∈ actions, action.Fits maxWeight) : Good quota maxWeight (run doubleSha256 pool actions) :=
  foldlRecOn actions _ h fun _ hpool action haction => hpool.act doubleSha256 (hfits action haction)

/-- After any calls: the usage of each peer is the sum over the orphans it announces, the total weight is that of the
held orphans, the index lists their parents, the queue has one claim for each ready id and only for held orphans, every
orphan has an announcer, and the limits hold. -/
theorem orphan_pool_accounting (doubleSha256 : Bytes → Hash256)
    (quota maxWeight peerAnnouncements peerWeight peerLatency : ℕ) (actions : List (Action Endpoint))
    (hfits : ∀ action ∈ actions, action.Fits maxWeight) :
    let pool := run doubleSha256 (withLimits quota maxWeight peerAnnouncements peerWeight peerLatency) actions
    (∀ peer, (usageOf pool.peerUsage peer).amounts =
      total (fun _ held => if peer ∈ held.announcers then (1, held.tx.weight,
        latencyScore held.tx) else 0) pool.entries) ∧
    pool.totalWeight = total (fun _ held => held.tx.weight) pool.entries ∧
    (∀ parent wtxid, wtxid ∈ childrenOf pool.byParent parent ↔
      ∃ held, pool.entries.lookup wtxid = some held ∧
        ∃ input ∈ held.tx.inputs, input.previousOutput.isNull = false ∧ input.previousOutput.txid = parent) ∧
    ((∀ wtxid, wtxid ∈ pool.readyIds ↔ wtxid ∈ pool.ready.map OrphanRetryClaim.wtxid) ∧
      (pool.ready.map OrphanRetryClaim.wtxid).Nodup ∧ ∀ wtxid ∈ pool.readyIds, wtxid ∈ pool.entries) ∧
    (∀ wtxid held, pool.entries.lookup wtxid = some held → held.announcers.list ≠ []) ∧
    pool.entries.entries.length ≤ quota ∧ pool.totalWeight ≤ maxWeight := by
  intro pool
  have h : Good quota maxWeight pool :=
    (good_withLimits quota maxWeight peerAnnouncements peerWeight peerLatency).run doubleSha256 hfits
  have haccounts := h.sound.accounts
  refine ⟨haccounts.usage.amounts, haccounts.weight, haccounts.index.children,
    ⟨haccounts.ready.ids, haccounts.ready.nodup, haccounts.ready.held⟩, h.sound.announced, ?_, ?_⟩
  · exact h.quota_eq ▸ h.limits.1
  · exact h.maxWeight_eq ▸ h.limits.2

end

def sampleActions : List (Action ℕ) :=
  let first : PeerToken ℕ := ⟨some 1, none, 7⟩
  let second : PeerToken ℕ := ⟨some 2, none, 8⟩
  [.insert sampleTx first 100, .insert sampleTx second 101, .markAllReady, .maintain 130 (Members.singleton second)]

theorem orphan_pool_accounting_sample :
    let pool := run Hash256.fromLeBytes (withLimits 1 10000000 100 1000000 1000) sampleActions
    pool.totalWeight = total (fun _ held => held.tx.weight) pool.entries ∧ pool.entries.entries.length = 1 ∧
      pool.ready.length = 1 ∧ pool.peerUsage.entries.length = 1 :=
  ⟨(orphan_pool_accounting Hash256.fromLeBytes 1 10000000 100 1000000 1000 sampleActions (by decide +kernel)).2.1,
    by decide +kernel, by decide +kernel, by decide +kernel⟩

end OrphanPool

end BitcoinRs.Mempool
