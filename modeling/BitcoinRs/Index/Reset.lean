import BitcoinRs.Primitives
import Mathlib.Data.Finset.Basic

/-!
The reset of index capabilities. A claim in the store stops the ordinary commits; whoever sees it helps to remove the
rows of the claimed capabilities, and the last write makes the store idle under a new version. Every step here is one
read or one conditional write of the store, which is atomic.
-/

namespace BitcoinRs.Index

open List
open Function (update update_of_ne)

inductive IndexCapability
  | txLookup
  | scriptHistory
  | scriptLive
  | compactFilters
  deriving DecidableEq

/-- `filters` are the rows of `UtxoMeta` under the prefix of the filters. -/
inductive Family
  | txConfirmed
  | funding
  | spending
  | scriptLive
  | blockHeaders
  | filters
  deriving DecidableEq

variable {family : Family}

namespace IndexCapability

def all : List IndexCapability := [.txLookup, .scriptHistory, .scriptLive, .compactFilters]

def columnFamilies : IndexCapability → List Family
  | .txLookup => [.txConfirmed]
  | .scriptHistory => [.funding, .spending]
  | .scriptLive => [.scriptLive]
  | .compactFilters => []

variable (c : IndexCapability)

def families : List Family := c.columnFamilies ++ if c = .compactFilters then [.filters] else []

lemma mem_all : c ∈ all := by cases c <;> decide

lemma eq_of_mem_families {c c' : IndexCapability} (h : family ∈ c.families) (h' : family ∈ c'.families) : c = c' := by
  cases c <;> cases c' <;> revert h h' <;> cases family <;> decide

lemma blockHeaders_notMem : .blockHeaders ∉ c.families := by cases c <;> decide

end IndexCapability

abbrev IndexCapabilities := Finset IndexCapability

structure IndexWatermark where
  height : UInt32
  hash : Hash256
  deriving DecidableEq

inductive ResetState
  | idle (version : UInt64)
  | claim (mask : IndexCapabilities) (processEpoch baseVersion : UInt64)
  deriving DecidableEq

structure Data where
  watermark : IndexCapability → Option IndexWatermark
  rows : Family → List (Bytes × Bytes)

/-- The store, with the numbers of commits, claims and completions so far, which nothing reads. -/
structure Store where
  reset : Option ResetState
  revision : Option UInt64
  data : Data
  commits : ℕ
  claims : ℕ
  completions : ℕ

lemma toNat_succ {n : UInt64} (h : n.toNat + 1 < 2 ^ 64) : (n + 1).toNat = n.toNat + 1 := by
  exact Nat.mod_eq_of_lt h

def checkedSucc (n : UInt64) : Option { m : UInt64 // m.toNat = n.toNat + 1 } :=
  if h : n.toNat + 1 < 2 ^ 64 then some ⟨n + 1, toNat_succ h⟩ else none

def revisionOf (revision : Option UInt64) : UInt64 := revision.getD 0

/-- A fence, with the numbers of the store at its snapshot. `state` is the version of an idle store. -/
structure IndexWriteFence where
  state : Option UInt64
  revision : Option UInt64
  watermarks : IndexCapability → Option IndexWatermark
  commits : ℕ
  claims : ℕ
  completions : ℕ

structure ResetWork where
  mask : IndexCapabilities
  processEpoch : UInt64
  baseVersion : UInt64
  revision : Option UInt64
  nextVersion : { v : UInt64 // v.toNat = baseVersion.toNat + 1 }
  nextRevision : { r : UInt64 // r.toNat = (revisionOf revision).toNat + 1 }

def ResetWork.claim (work : ResetWork) : ResetState := .claim work.mask work.processEpoch work.baseVersion

def prepareResetWork (mask : IndexCapabilities) (processEpoch baseVersion : UInt64) (revision : Option UInt64) :
    Option ResetWork := do
  let nextVersion ← checkedSucc baseVersion
  let nextRevision ← checkedSucc (revisionOf revision)
  return { mask, processEpoch, baseVersion, revision, nextVersion, nextRevision }

namespace IndexWriteFence

variable (fence : IndexWriteFence) (s : Store)

def marker : Option ResetState := fence.state.map .idle

def Holds : Prop := s.reset = fence.marker ∧ s.revision = fence.revision ∧
  ∀ c ∈ IndexCapability.all, s.data.watermark c = fence.watermarks c

instance instDecidableHolds : Decidable (fence.Holds s) := inferInstanceAs (Decidable (_ ∧ _ ∧ _))

end IndexWriteFence

def ResetWork.Holds (work : ResetWork) (s : Store) : Prop := s.reset = some work.claim ∧ s.revision = work.revision

instance ResetWork.instDecidableHolds (work : ResetWork) (s : Store) : Decidable (work.Holds s) :=
  inferInstanceAs (Decidable (_ ∧ _))

def Data.claim (data : Data) (mask : IndexCapabilities) : Data :=
  { data with watermark := fun c => if c ∈ mask then none else data.watermark c }

def Data.purge (data : Data) (family : Family) (keys : List Bytes) : Data :=
  { data with rows := update data.rows family ((data.rows family).filter fun row => !keys.contains row.1) }

namespace Store

variable (s : Store)

def fence : Option IndexWriteFence :=
  match s.reset with
  | some (.claim _ _ _) => none
  | some (.idle version) =>
    some ⟨some version, s.revision, s.data.watermark, s.commits, s.claims, s.completions⟩
  | none => some ⟨none, s.revision, s.data.watermark, s.commits, s.claims, s.completions⟩

def committed (batch : Data → Data) (nextRevision : UInt64) : Store :=
  { s with revision := some nextRevision, data := batch s.data, commits := s.commits + 1 }

def claimed (work : ResetWork) : Store :=
  { s with reset := some work.claim, data := s.data.claim work.mask, claims := s.claims + 1 }

def purged (family : Family) (keys : List Bytes) : Store := { s with data := s.data.purge family keys }

def completed (work : ResetWork) : Store :=
  { s with
    reset := some (.idle work.nextVersion)
    revision := some work.nextRevision
    completions := s.completions + 1 }

end Store

inductive Phase
  | ready
  | captured (fence : IndexWriteFence)
  | fenced (fence : IndexWriteFence)
  | missed (fence : IndexWriteFence)
  | acquire (requested : IndexCapabilities)
  | claiming (requested : IndexCapabilities) (observed : Option ResetState) (work : ResetWork)
  | scanning (work : ResetWork) (left : List IndexCapability) (found : Bool)
  | purging (work : ResetWork) (scans : List Family)
  | deleting (work : ResetWork) (keys : List Bytes) (complete : Bool) (family : Family) (scans : List Family)

def Store.acquire (s : Store) (generation : UInt64) (requested : IndexCapabilities) : Phase :=
  match s.reset with
  | some (.claim mask processEpoch baseVersion) =>
    match prepareResetWork (mask ∪ requested) processEpoch baseVersion s.revision with
    | none => .ready
    | some work =>
      if mask ∪ requested = mask then .scanning work IndexCapability.all false else .claiming requested s.reset work
  | some (.idle version) =>
    if requested = ∅ then .ready
    else (prepareResetWork requested generation version s.revision).elim .ready (.claiming requested s.reset)
  | none =>
    if requested = ∅ then .ready
    else (prepareResetWork requested generation 0 s.revision).elim .ready (.claiming requested s.reset)

/-- `found` tells whether an unselected capability has a watermark. -/
def resetScanFamilies (mask : IndexCapabilities) (found : Bool) : List Family :=
  (IndexCapability.all.filter (· ∈ mask)).flatMap IndexCapability.columnFamilies ++
    (if found then [] else [.blockHeaders]) ++ if .compactFilters ∈ mask then [.filters] else []

/-- A batch of an ordinary commit is any change of the data; a bounded scan returns the first `limit` rows. -/
inductive Input
  | capture
  | commit (batch : Data → Data)
  | reset (mask : IndexCapabilities)
  | proceed (generation : UInt64) (limit : ℕ)

def Input.mask : Input → IndexCapabilities
  | .reset mask => mask
  | _ => ∅

def step (s : Store) : Phase → Input → Store × Phase
  | .ready, .capture => (s, s.fence.elim (.acquire ∅) .captured)
  | .ready, .reset mask => (s, .acquire mask)
  | .captured fence, .proceed _ _ => (s, if s.reset = fence.marker then .fenced fence else .acquire ∅)
  -- the caller may keep its copy of the fence and try again
  | .fenced fence, .commit batch =>
    match checkedSucc (revisionOf fence.revision) with
    | none => (s, .fenced fence)
    | some nextRevision =>
      if fence.Holds s then (s.committed batch nextRevision, .fenced fence) else (s, .missed fence)
  | .missed fence, .proceed _ _ => (s, if s.reset = fence.marker then .fenced fence else .acquire ∅)
  | .acquire requested, .proceed generation _ => (s, s.acquire generation requested)
  | .claiming requested observed work, .proceed _ _ =>
    if s.reset = observed ∧ s.revision = work.revision then (s.claimed work, .scanning work IndexCapability.all false)
    else (s, .acquire requested)
  | .scanning work [] found, .proceed _ _ => (s, .purging work (resetScanFamilies work.mask found))
  | .scanning work (c :: left) found, .proceed _ _ =>
    (s, .scanning work left (found || decide (c ∉ work.mask) && (s.data.watermark c).isSome))
  | .purging work [], .proceed _ _ => if work.Holds s then (s.completed work, .ready) else (s, .acquire ∅)
  | .purging work (family :: scans), .proceed _ limit =>
    let complete := decide ((s.data.rows family).length ≤ limit)
    let rows := (s.data.rows family).take limit
    (s, if rows = [] then if complete then .purging work scans else .ready
      else .deleting work (rows.map Prod.fst) complete family scans)
  | .deleting work keys complete family scans, .proceed _ _ =>
    if work.Holds s then (s.purged family keys, .purging work (if complete then scans else family :: scans))
    else (s, .acquire ∅)
  | phase, _ => (s, phase)

structure System where
  store : Store
  processes : ℕ → Phase
  requested : IndexCapabilities

inductive Action
  | input (process : ℕ) (input : Input)
  | crash (process : ℕ)

namespace System

def act (s : System) : Action → System
  | .input process input =>
    let next := step s.store (s.processes process) input
    { store := next.1
      processes := update s.processes process next.2
      requested := s.requested ∪ input.mask }
  | .crash process => { s with processes := update s.processes process .ready }

def start (version revision : Option UInt64) (data : Data) : System :=
  ⟨⟨version.map .idle, revision, data, 0, 0, 0⟩, fun _ => .ready, ∅⟩

def run (s : System) (actions : List Action) : System := actions.foldl act s

end System

section

variable {s t : Store} {work other : ResetWork} {fence : IndexWriteFence} {requested : IndexCapabilities}

def Past (work : ResetWork) : Option ResetState → Prop
  | none => False
  | some (.idle version) => work.baseVersion.toNat < version.toNat
  | some (.claim mask _ baseVersion) =>
    work.baseVersion.toNat < baseVersion.toNat ∨ work.baseVersion = baseVersion ∧ work.mask ⊂ mask

def ClaimsOver (work : ResetWork) : Option ResetState → Prop
  | none => True
  | some (.idle version) => work.baseVersion = version
  | some (.claim mask _ baseVersion) => work.baseVersion = baseVersion ∧ mask ⊂ work.mask

lemma not_past_claim : ¬ Past work (some work.claim) := by
  rintro (hlt | ⟨-, hmask⟩)
  · exact Nat.lt_irrefl _ hlt
  · exact hmask.ne rfl

section

variable (h : Past other s.reset ∨ s.reset = some other.claim)

include h

lemma past_claim (hover : ClaimsOver work s.reset) : Past other (some work.claim) := by
  rcases h with h | h
  · cases hreset : s.reset with
    | none =>
      rw [hreset] at h
      cases h
    | some state =>
      rw [hreset] at h hover
      cases state with
      | idle version =>
        cases hover
        exact .inl h
      | claim mask processEpoch baseVersion =>
        obtain ⟨rfl, hmask⟩ := hover
        exact h.imp_right fun h => ⟨h.1, h.2.trans hmask⟩
  · rw [h] at hover
    exact .inr ⟨hover.1.symm, hover.2⟩

lemma past_complete (hreset : s.reset = some work.claim) : Past other (some (.idle work.nextVersion)) := by
  have hnext := work.nextVersion.2
  rw [hreset] at h
  rcases h with (h | ⟨h, -⟩) | h
  · simp only [Past]
    omega
  · simp only [Past, h]
    omega
  · simp only [ResetWork.claim, Option.some.injEq, ResetState.claim.injEq] at h
    simp only [Past, ← h.2.2]
    omega

end

def Held (s : Store) (work : ResetWork) (P : Data → Prop) : Prop :=
  Past work s.reset ∨ s.reset = some work.claim ∧ P s.data

variable {P : Data → Prop}

lemma Held.now (h : Held s work P) (hholds : work.Holds s) : P s.data := by
  rcases h with h | h
  · rw [hholds.1] at h
    exact absurd h not_past_claim
  · exact h.2

structure FenceOk (s : Store) (fence : IndexWriteFence) : Prop where
  commits : fence.commits ≤ s.commits
  completions : fence.completions ≤ s.completions
  revision : (revisionOf s.revision).toNat + fence.commits + fence.completions =
    (revisionOf fence.revision).toNat + s.commits + s.completions
  claims : s.completions = fence.completions → s.claims ≠ fence.claims →
    ∃ mask processEpoch baseVersion, s.reset = some (.claim mask processEpoch baseVersion)

lemma FenceOk.current (h : FenceOk s fence) (hholds : fence.Holds s) :
    fence.commits = s.commits ∧ fence.claims = s.claims := by
  obtain ⟨hreset, hrevision, -⟩ := hholds
  have hsum := h.revision
  have hcommits := h.commits
  have hcompletions := h.completions
  rw [hrevision] at hsum
  refine ⟨by omega, ?_⟩
  by_contra hne
  obtain ⟨mask, processEpoch, baseVersion, hclaim⟩ := h.claims (by omega) (Ne.symm hne)
  rw [hreset, IndexWriteFence.marker] at hclaim
  cases hstate : fence.state <;> simp [hstate] at hclaim

def Purgeable (work : ResetWork) (data : Data) (family : Family) : Prop :=
  (∃ c ∈ work.mask, family ∈ c.families) ∨ family = .blockHeaders ∧ ∀ c ∉ work.mask, data.watermark c = none

inductive Advance (requested : IndexCapabilities) (s : Store) : Store → Prop
  | same : Advance requested s s
  | commit (fence : IndexWriteFence) (batch : Data → Data) (next : UInt64) (hfence : FenceOk s fence)
      (hholds : fence.Holds s) (hnext : next.toNat = (revisionOf fence.revision).toNat + 1) :
      Advance requested s (s.committed batch next)
  | claim (work : ResetWork) (hover : ClaimsOver work s.reset) (hmask : work.mask ⊆ requested) :
      Advance requested s (s.claimed work)
  | purge (work : ResetWork) (family : Family) (keys : List Bytes) (hholds : work.Holds s)
      (hmask : work.mask ⊆ requested) (hfamily : Purgeable work s.data family) :
      Advance requested s (s.purged family keys)
  | complete (work : ResetWork) (hholds : work.Holds s)
      (hempty : ∀ c ∈ work.mask, ∀ family ∈ c.families, s.data.rows family = []) :
      Advance requested s (s.completed work)

lemma FenceOk.advance (h : FenceOk s fence) (hstep : Advance requested s t) : FenceOk t fence := by
  obtain ⟨hcommits, hcompletions, hrevision, hclaims⟩ := h
  cases hstep with
  | same => exact ⟨hcommits, hcompletions, hrevision, hclaims⟩
  | purge => exact ⟨hcommits, hcompletions, hrevision, hclaims⟩
  | commit fence batch next hfence hholds hnext =>
    rw [hholds.2.1] at hrevision
    constructor
    · exact Nat.le_succ_of_le hcommits
    · exact hcompletions
    · simp only [Store.committed, revisionOf, Option.getD_some] at hnext hrevision ⊢
      omega
    · exact hclaims
  | claim work =>
    exact ⟨hcommits, hcompletions, hrevision, fun _ _ => ⟨_, _, _, rfl⟩⟩
  | complete work hholds =>
    have hnext := work.nextRevision.2
    rw [hholds.2] at hrevision
    constructor
    · exact hcommits
    · exact Nat.le_succ_of_le hcompletions
    · simp only [Store.completed, revisionOf, Option.getD_some] at hnext hrevision ⊢
      omega
    · simp only [Store.completed]
      omega

lemma Held.advance (h : Held s work P) (hstep : Advance requested s t)
    (hpurge : ∀ data family keys, P data → P (data.purge family keys)) : Held t work P := by
  cases hstep with
  | same => exact h
  | purge => exact h.imp_right fun h => ⟨h.1, hpurge _ _ _ h.2⟩
  | commit fence batch next hfence hholds hnext =>
    rcases h with h | h
    · exact .inl h
    · rw [hholds.1, IndexWriteFence.marker] at h
      cases hstate : fence.state <;> simp [hstate, ResetWork.claim] at h
  | claim other hover => exact .inl (past_claim (h.imp_right And.left) hover)
  | complete other hholds => exact .inl (past_complete (h.imp_right And.left) hholds.1)

end

variable {data : Data} {mask : IndexCapabilities}

section

variable {s t : Store} {work : ResetWork} {requested requested' : IndexCapabilities} {scans : List Family}
  {phase : Phase}

def Scanned (work : ResetWork) (left : List IndexCapability) (found : Bool) (data : Data) : Prop :=
  found = false → ∀ c ∉ left, c ∉ work.mask → data.watermark c = none

structure Purged (work : ResetWork) (scans : List Family) (data : Data) : Prop where
  empty : ∀ c ∈ work.mask, ∀ family ∈ c.families, family ∈ scans ∨ data.rows family = []
  purgeable : ∀ family ∈ scans, Purgeable work data family

structure Marked (work : ResetWork) (keys : List Bytes) (complete : Bool) (family : Family) (scans : List Family)
    (data : Data) : Prop where
  purged : Purged work (family :: scans) data
  all : complete = true → ∀ row ∈ data.rows family, row.1 ∈ keys

def PhaseOk (requested : IndexCapabilities) (s : Store) : Phase → Prop
  | .ready => True
  | .captured fence | .fenced fence | .missed fence => FenceOk s fence
  | .acquire mask => mask ⊆ requested
  | .claiming mask observed work => mask ⊆ requested ∧ work.mask ⊆ requested ∧ ClaimsOver work observed
  | .scanning work left found => work.mask ⊆ requested ∧ Held s work (Scanned work left found)
  | .purging work scans => work.mask ⊆ requested ∧ Held s work (Purged work scans)
  | .deleting work keys complete family scans =>
    work.mask ⊆ requested ∧ Held s work (Marked work keys complete family scans)

lemma rows_purge_subset (data : Data) (family other : Family) (keys : List Bytes) :
    (data.purge family keys).rows other ⊆ data.rows other := by
  by_cases hsame : other = family
  · subst hsame
    simp [Data.purge]
  · simp [Data.purge, update_of_ne hsame]

lemma Purged.purge (h : Purged work scans data) (family : Family) (keys : List Bytes) :
    Purged work scans (data.purge family keys) := by
  refine ⟨fun c hc other hother => (h.empty c hc other hother).imp_right fun hnil => ?_, h.purgeable⟩
  exact subset_nil.mp (hnil ▸ rows_purge_subset data family other keys)

lemma PhaseOk.advance (h : PhaseOk requested s phase) (hrequested : requested ⊆ requested')
    (hstep : Advance requested' s t) : PhaseOk requested' t phase := by
  cases phase with
  | ready => trivial
  | captured | fenced | missed => exact FenceOk.advance h hstep
  | acquire => exact h.trans hrequested
  | claiming => exact ⟨h.1.trans hrequested, h.2.1.trans hrequested, h.2.2⟩
  | scanning => exact ⟨h.1.trans hrequested, h.2.advance hstep fun _ _ _ h => h⟩
  | purging => exact ⟨h.1.trans hrequested, h.2.advance hstep fun _ family keys h => h.purge family keys⟩
  | deleting =>
    refine ⟨h.1.trans hrequested, h.2.advance hstep fun data family keys h => ?_⟩
    exact ⟨h.purged.purge family keys, fun hall row hrow => h.all hall row (rows_purge_subset _ _ _ _ hrow)⟩

def StoreOk (requested : IndexCapabilities) (s : Store) : Prop :=
  ∀ mask processEpoch baseVersion, s.reset = some (.claim mask processEpoch baseVersion) →
    mask ⊆ requested ∧ ∀ c ∈ mask, s.data.watermark c = none

lemma StoreOk.advance (h : StoreOk requested s) (hrequested : requested ⊆ requested')
    (hstep : Advance requested' s t) : StoreOk requested' t := by
  intro mask processEpoch baseVersion hreset
  cases hstep with
  | same | purge =>
    obtain ⟨hmask, hnone⟩ := h mask processEpoch baseVersion hreset
    exact ⟨hmask.trans hrequested, hnone⟩
  | commit fence batch next hfence hholds hnext =>
    have hmarker := hholds.1.symm.trans hreset
    cases hstate : fence.state <;> simp [hstate, IndexWriteFence.marker] at hmarker
  | claim work hover hmask =>
    cases hreset
    exact ⟨hmask, fun c hc => if_pos hc⟩
  | complete => cases hreset

lemma prepareResetWork_eq {processEpoch baseVersion : UInt64} {revision : Option UInt64}
    (h : prepareResetWork mask processEpoch baseVersion revision = some work) :
    work.mask = mask ∧ work.processEpoch = processEpoch ∧ work.baseVersion = baseVersion := by
  obtain ⟨_, -, h⟩ := Option.bind_eq_some_iff.mp h
  obtain ⟨_, -, h⟩ := Option.bind_eq_some_iff.mp h
  cases h
  exact ⟨rfl, rfl, rfl⟩

lemma scanned_all (work : ResetWork) (data : Data) : Scanned work IndexCapability.all false data :=
  fun _ c hc => absurd (IndexCapability.mem_all c) hc

lemma acquire_ok (hs : StoreOk requested s) (hmask : mask ⊆ requested) (generation : UInt64) :
    PhaseOk requested s (s.acquire generation mask) := by
  have hnew {version : UInt64} (hreset : ∀ work : ResetWork, work.baseVersion = version → ClaimsOver work s.reset) :
      PhaseOk requested s (if mask = ∅ then .ready
        else (prepareResetWork mask generation version s.revision).elim .ready (.claiming mask s.reset)) := by
    split_ifs
    · trivial
    · cases hwork : prepareResetWork mask generation version s.revision with
      | none => trivial
      | some work =>
        obtain ⟨hworkMask, -, hbase⟩ := prepareResetWork_eq hwork
        exact ⟨hmask, hworkMask ▸ hmask, hreset work hbase⟩
  unfold Store.acquire
  cases hreset : s.reset with
  | none =>
    rw [hreset] at hnew
    exact hnew fun _ _ => trivial
  | some state =>
    rw [hreset] at hnew
    cases state with
    | idle version => exact hnew fun _ h => h
    | claim claimed processEpoch baseVersion =>
      dsimp only
      cases hwork : prepareResetWork (claimed ∪ mask) processEpoch baseVersion s.revision with
      | none => trivial
      | some work =>
        obtain ⟨hworkMask, hepoch, hbase⟩ := prepareResetWork_eq hwork
        have hall : work.mask ⊆ requested := hworkMask ▸ Finset.union_subset (hs _ _ _ hreset).1 hmask
        split_ifs with hsame
        · refine ⟨hall, .inr ⟨?_, scanned_all work _⟩⟩
          rw [hreset, ResetWork.claim, hworkMask, hepoch, hbase, hsame]
        · refine ⟨hmask, hall, hbase, ?_⟩
          rw [hworkMask]
          exact Finset.ssubset_iff_subset_ne.mpr ⟨Finset.subset_union_left, Ne.symm hsame⟩

variable {found : Bool}

lemma purged_scans (h : Scanned work [] found data) : Purged work (resetScanFamilies work.mask found) data := by
  constructor
  · intro c hc family hfamily
    left
    rcases mem_append.mp hfamily with hfamily | hfamily
    · simp only [resetScanFamilies, append_assoc, mem_append, mem_flatMap, mem_filter]
      exact .inl ⟨c, ⟨IndexCapability.mem_all c, by simpa using hc⟩, hfamily⟩
    · split_ifs at hfamily with hfilters
      · simp_all [resetScanFamilies]
      · cases hfamily
  · intro family hfamily
    rcases mem_append.mp hfamily with hfamily | hfamily
    · rcases mem_append.mp hfamily with hfamily | hfamily
      · obtain ⟨c, hc, hfamily⟩ := mem_flatMap.mp hfamily
        exact .inl ⟨c, by simpa using (mem_filter.mp hc).2, mem_append_left _ hfamily⟩
      · cases found with
        | true => cases hfamily
        | false => exact .inr ⟨mem_singleton.mp hfamily, fun c hc => h rfl c not_mem_nil hc⟩
    · split_ifs at hfamily with hfilters
      · rw [mem_singleton.mp hfamily]
        exact .inl ⟨.compactFilters, hfilters, by decide⟩
      · cases hfamily

lemma Scanned.next {c : IndexCapability} {left : List IndexCapability} (h : Scanned work (c :: left) found data) :
    Scanned work left (found || decide (c ∉ work.mask) && (data.watermark c).isSome) data := by
  intro hfound c' hleft hmask
  simp only [Bool.or_eq_false_iff, Bool.and_eq_false_iff] at hfound
  by_cases hc : c' = c
  · subst hc
    simpa [hmask] using hfound.2
  · exact h hfound.1 c' (by simp [hc, hleft]) hmask

lemma Purged.tail (h : Purged work (family :: scans) data) (hrows : data.rows family = []) :
    Purged work scans data := by
  refine ⟨fun c hc other hother => ?_, fun other hother => h.purgeable other (mem_cons_of_mem _ hother)⟩
  rcases h.empty c hc other hother with hmem | hnil
  · rcases mem_cons.mp hmem with rfl | hmem
    · exact .inr hrows
    · exact .inl hmem
  · exact .inr hnil

lemma Marked.purge {keys : List Bytes} {complete : Bool} (h : Marked work keys complete family scans data) :
    Purged work (if complete then scans else family :: scans) (data.purge family keys) := by
  have hpurged := h.purged.purge family keys
  split_ifs with hcomplete
  · apply hpurged.tail
    have hnone : (data.rows family).filter (fun row => !keys.contains row.1) = [] := by
      simpa using h.all hcomplete
    simpa [Data.purge] using hnone
  · exact hpurged

lemma scan_ok (h : PhaseOk requested s (.purging work (family :: scans))) (limit : ℕ) :
    PhaseOk requested s (step s (.purging work (family :: scans)) (.proceed 0 limit)).2 := by
  obtain ⟨hmask, hheld⟩ := h
  have htake (hlimit : decide ((s.data.rows family).length ≤ limit) = true) :
      (s.data.rows family).take limit = s.data.rows family := take_of_length_le (of_decide_eq_true hlimit)
  simp only [step]
  split_ifs with hnil hcomplete
  · rw [htake hcomplete] at hnil
    exact ⟨hmask, hheld.imp_right fun h => ⟨h.1, h.2.tail hnil⟩⟩
  · trivial
  · refine ⟨hmask, hheld.imp_right fun h => ⟨h.1, h.2, fun hcomplete row hrow => ?_⟩⟩
    rw [htake hcomplete]
    exact mem_map_of_mem hrow

lemma fence_ok {fence : IndexWriteFence} (h : s.fence = some fence) : FenceOk s fence := by
  unfold Store.fence at h
  split at h
  · cases h
  all_goals
    cases h
    exact ⟨le_rfl, le_rfl, rfl, fun _ hclaims => absurd rfl hclaims⟩

lemma step_ok (hs : StoreOk requested s) (h : PhaseOk requested s phase) (input : Input)
    (hrequested : requested ∪ input.mask = requested') :
    Advance requested' s (step s phase input).1 ∧ PhaseOk requested' (step s phase input).1 (step s phase input).2 := by
  have hsub : requested ⊆ requested' := hrequested ▸ Finset.subset_union_left
  have hkeep : PhaseOk requested' s phase := h.advance hsub .same
  have hs' : StoreOk requested' s := hs.advance hsub .same
  have hagain : PhaseOk requested' s (.acquire ∅) := Finset.empty_subset _
  cases phase with
  | ready =>
    cases input with
    | capture =>
      refine ⟨.same, ?_⟩
      cases hfence : s.fence with
      | none =>
        simp only [step, hfence]
        exact hagain
      | some fence =>
        simp only [step, hfence]
        exact fence_ok hfence
    | reset mask => exact ⟨.same, hrequested ▸ Finset.subset_union_right⟩
    | commit | proceed => exact ⟨.same, hkeep⟩
  | captured fence | missed fence =>
    cases input with
    | proceed =>
      refine ⟨.same, ?_⟩
      simp only [step]
      split_ifs
      · exact hkeep
      · exact hagain
    | capture | reset | commit => exact ⟨.same, hkeep⟩
  | fenced fence =>
    cases input with
    | commit batch =>
      cases hnext : checkedSucc (revisionOf fence.revision) with
      | none =>
        simp only [step, hnext]
        exact ⟨.same, hkeep⟩
      | some next =>
        simp only [step, hnext]
        split_ifs with hholds
        · have hcommit : Advance requested' s (s.committed batch next) := .commit fence batch next hkeep hholds next.2
          exact ⟨hcommit, hkeep.advance subset_rfl hcommit⟩
        · exact ⟨.same, hkeep⟩
    | capture | reset | proceed => exact ⟨.same, hkeep⟩
  | acquire mask =>
    cases input with
    | proceed generation limit => exact ⟨.same, acquire_ok hs' hkeep generation⟩
    | capture | reset | commit => exact ⟨.same, hkeep⟩
  | claiming mask observed work =>
    obtain ⟨hmask, hwork, hover⟩ := hkeep
    cases input with
    | proceed =>
      simp only [step]
      split_ifs with hobserved
      · exact ⟨.claim work (hobserved.1 ▸ hover) hwork, hwork, .inr ⟨rfl, scanned_all work _⟩⟩
      · exact ⟨.same, hmask⟩
    | capture | reset | commit => exact ⟨.same, hmask, hwork, hover⟩
  | scanning work left found =>
    obtain ⟨hmask, hheld⟩ := hkeep
    cases input with
    | proceed =>
      cases left with
      | nil => exact ⟨.same, hmask, hheld.imp_right fun h => ⟨h.1, purged_scans h.2⟩⟩
      | cons c left => exact ⟨.same, hmask, hheld.imp_right fun h => ⟨h.1, h.2.next⟩⟩
    | capture | reset | commit => cases left <;> exact ⟨.same, hmask, hheld⟩
  | purging work scans =>
    cases input with
    | proceed generation limit =>
      cases scans with
      | nil =>
        simp only [step]
        split_ifs with hholds
        · refine ⟨.complete work hholds fun c hc family hfamily => ?_, trivial⟩
          exact ((hkeep.2.now hholds).empty c hc family hfamily).resolve_left not_mem_nil
        · exact ⟨.same, hagain⟩
      | cons family scans => exact ⟨.same, scan_ok hkeep limit⟩
    | capture | reset | commit => cases scans <;> exact ⟨.same, hkeep⟩
  | deleting work keys complete family scans =>
    obtain ⟨hmask, hheld⟩ := hkeep
    cases input with
    | proceed =>
      by_cases hholds : work.Holds s
      · simp only [step, if_pos hholds]
        have hmarked := hheld.now hholds
        have hfamily := hmarked.purged.purgeable family mem_cons_self
        exact ⟨.purge work family keys hholds hmask hfamily, hmask, .inr ⟨hholds.1, hmarked.purge⟩⟩
      · simp only [step, if_neg hholds]
        exact ⟨.same, hagain⟩
    | capture | reset | commit => exact ⟨.same, hmask, hheld⟩

lemma commits_step {input : Input} (h : (step s phase input).1.commits ≠ s.commits) :
    ∃ fence batch, phase = .fenced fence ∧ input = .commit batch ∧ fence.Holds s := by
  revert h
  fun_cases step s phase input <;> intro h
  all_goals first
    | exact ⟨_, _, rfl, rfl, ‹_›⟩
    | exact absurd rfl h

end

namespace System

structure Ok (s : System) : Prop where
  store : StoreOk s.requested s.store
  phases : ∀ i, PhaseOk s.requested s.store (s.processes i)

lemma start_ok (version revision : Option UInt64) (data : Data) : (start version revision data).Ok := by
  refine ⟨fun mask processEpoch baseVersion h => ?_, fun _ => trivial⟩
  cases version <;> cases h

lemma act_ok {s : System} (h : s.Ok) (a : Action) :
    Advance (s.act a).requested s.store (s.act a).store ∧ (s.act a).Ok := by
  cases a with
  | input i input =>
    obtain ⟨hstep, hphase⟩ := step_ok h.store (h.phases i) input rfl
    have hsub : s.requested ⊆ s.requested ∪ input.mask := Finset.subset_union_left
    refine ⟨hstep, h.store.advance hsub hstep, fun j => ?_⟩
    by_cases hj : j = i
    · subst hj
      simpa [act] using hphase
    · simpa [act, update_of_ne hj] using (h.phases j).advance hsub hstep
  | crash i =>
    refine ⟨.same, h.store, fun j => ?_⟩
    by_cases hj : j = i
    · subst hj
      simp [act, PhaseOk]
    · simpa [act, update_of_ne hj] using h.phases j

lemma run_ok {s : System} (h : s.Ok) (actions : List Action) : (s.run actions).Ok := by
  induction actions generalizing s with
  | nil => exact h
  | cons a actions ih => exact ih (act_ok h a).2

end System

section

variable {s t : Store} {requested : IndexCapabilities} {c : IndexCapability}

lemma Advance.idle (h : Advance requested s t) (hs : StoreOk requested s) {processEpoch baseVersion version : UInt64}
    (hclaim : s.reset = some (.claim mask processEpoch baseVersion)) (hidle : t.reset = some (.idle version))
    (hc : c ∈ mask) :
    t.data.watermark c = none ∧ ∀ family ∈ c.families, t.data.rows family = [] := by
  cases h with
  | same | purge | commit =>
    rw [show s.reset = _ from hidle] at hclaim
    cases hclaim
  | claim => cases hidle
  | complete work hholds hempty =>
    have hmask := hholds.1.symm.trans hclaim
    simp only [ResetWork.claim, Option.some.injEq, ResetState.claim.injEq] at hmask
    exact ⟨(hs _ _ _ hclaim).2 c hc, hempty c (hmask.1 ▸ hc)⟩

lemma rows_purge_of_ne {family other : Family} (h : other ≠ family) (keys : List Bytes) :
    (data.purge family keys).rows other = data.rows other := by
  simp [Data.purge, update_of_ne h]

lemma Advance.untouched (h : Advance requested s t) (hcommits : t.commits = s.commits) (hc : c ∉ requested) :
    t.data.watermark c = s.data.watermark c ∧ (∀ family ∈ c.families, t.data.rows family = s.data.rows family) ∧
      (s.data.watermark c ≠ none → t.data.rows .blockHeaders = s.data.rows .blockHeaders) := by
  cases h with
  | same | complete => exact ⟨rfl, fun _ _ => rfl, fun _ => rfl⟩
  | commit => exact absurd hcommits (Nat.succ_ne_self _)
  | claim work hover hmask => exact ⟨if_neg fun h => hc (hmask h), fun _ _ => rfl, fun _ => rfl⟩
  | purge work family keys hholds hmask hfamily =>
    have hwork : c ∉ work.mask := fun h => hc (hmask h)
    refine ⟨rfl, fun other hother => rows_purge_of_ne ?_ keys, fun hsome => rows_purge_of_ne ?_ keys⟩
    · rintro rfl
      rcases hfamily with ⟨c', hc', hmem⟩ | ⟨rfl, -⟩
      · exact hwork (IndexCapability.eq_of_mem_families hmem hother ▸ hc')
      · exact IndexCapability.blockHeaders_notMem c hother
    · rintro rfl
      rcases hfamily with ⟨c', -, hmem⟩ | ⟨-, hnone⟩
      · exact IndexCapability.blockHeaders_notMem c' hmem
      · exact hsome (hnone c hwork)

end

/-- In every interleaving: a commit has seen the last commit and the last claim, a claim that becomes idle leaves
nothing of what it took in, and what was never requested stays, with its block headers. -/
theorem reset_protocol_safe (version revision : Option UInt64) (data : Data) (actions : List Action) (a : Action) :
    let s := (System.start version revision data).run actions
    let t := s.act a
    (t.store.commits ≠ s.store.commits → ∃ i batch fence, a = .input i (.commit batch) ∧
      s.processes i = .fenced fence ∧ fence.commits = s.store.commits ∧ fence.claims = s.store.claims) ∧
    (∀ mask processEpoch baseVersion version, s.store.reset = some (.claim mask processEpoch baseVersion) →
      t.store.reset = some (.idle version) → ∀ c ∈ mask, t.store.data.watermark c = none ∧
        ∀ family ∈ c.families, t.store.data.rows family = []) ∧
    (t.store.commits = s.store.commits → ∀ c ∉ t.requested,
      t.store.data.watermark c = s.store.data.watermark c ∧
      (∀ family ∈ c.families, t.store.data.rows family = s.store.data.rows family) ∧
      (s.store.data.watermark c ≠ none → t.store.data.rows .blockHeaders = s.store.data.rows .blockHeaders)) := by
  intro s t
  have hs : s.Ok := System.run_ok (System.start_ok version revision data) actions
  obtain ⟨hstep, -⟩ := System.act_ok hs a
  refine ⟨fun hcommits => ?_, fun mask processEpoch baseVersion version hclaim hidle c hc => ?_,
    fun hcommits c hc => hstep.untouched hcommits hc⟩
  · cases a with
    | input i input =>
      obtain ⟨fence, batch, hphase, rfl, hholds⟩ := commits_step hcommits
      have hfence := hs.phases i
      rw [hphase] at hfence
      obtain ⟨hlast, hclaims⟩ := FenceOk.current hfence hholds
      exact ⟨i, batch, fence, rfl, hphase, hlast, hclaims⟩
    | crash i => exact absurd rfl hcommits
  · have hsub : s.requested ⊆ t.requested := by
      cases a with
      | input => exact Finset.subset_union_left
      | crash => exact subset_rfl
    exact hstep.idle (hs.store.advance hsub .same) hclaim hidle hc

example :
    let s := (System.start none none ⟨fun _ => none, fun _ => []⟩).run
      ([.input 0 .capture, .input 0 (.proceed 1 0), .input 0 (.commit id), .input 1 (.reset {.txLookup})] ++
        replicate 10 (.input 1 (.proceed 2 1000)))
    (s.store.reset, s.store.commits, s.store.claims, s.store.completions) = (some (.idle 1), 1, 1, 1) := by
  decide +kernel

end BitcoinRs.Index
