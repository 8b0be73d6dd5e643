import BitcoinRs.Chain.HeaderSync
import BitcoinRs.Library.BitQueue

/-!
Header sync with a peer in two passes: the first keeps one bit of each header at the commitment heights, the second
takes the headers again and holds each back until enough of them have agreed with those bits.
-/

namespace BitcoinRs.P2p

open Chain List

inductive HeadersSyncPhase
  | presync
  | redownload
  | final
  deriving DecidableEq

structure HeaderAnchor where
  network : Network
  height : UInt32
  hash : Hash256
  header : Header
  chainWork : ChainWork
  medianTimePast : UInt32

structure HeadersSyncParams where
  commitmentPeriod : UInt32
  redownloadBufferSize : ℕ

structure HeaderSyncResult where
  readyHeaders : List Header
  requestMore : Bool
  phase : HeadersSyncPhase

inductive HeaderSyncError
  | nonContinuous (phase : HeadersSyncPhase) (height : UInt32)
  | difficultyTransition (phase : HeadersSyncPhase) (height : UInt32)
  | invalidPow (phase : HeadersSyncPhase) (height : UInt32) (hash : Hash256)
  | commitmentMismatch (height : UInt32)
  | commitmentOverrun (height : UInt32)
  | maxCommitments (height : UInt32)
  | finalized

structure CompressedHeader where
  version : Int32
  merkleRoot : Hash256
  time : UInt32
  bits : UInt32
  nonce : UInt32

def CompressedHeader.compress (header : Header) : CompressedHeader :=
  { version := header.version, merkleRoot := header.merkleRoot, time := header.time, bits := header.bits,
    nonce := header.nonce }

def CompressedHeader.expand (compressed : CompressedHeader) (prevBlockhash : Hash256) : Header :=
  { version := compressed.version, prevBlockhash, merkleRoot := compressed.merkleRoot, time := compressed.time,
    bits := compressed.bits, nonce := compressed.nonce }

structure HeadersSyncState where
  phase : HeadersSyncPhase
  chainStart : HeaderAnchor
  params : HeadersSyncParams
  minimumWork : ChainWork
  commitOffset : UInt32
  salt : Bytes
  currentWork : ChainWork
  currentHeight : UInt32
  lastHeaderHash : Hash256
  lastHeaderBits : UInt32
  commitments : BitQueue
  maxCommitments : ℕ
  redownloaded : List CompressedHeader
  redownloadLastHeight : UInt32
  redownloadLastHash : Hash256
  redownloadLastBits : UInt32
  redownloadFirstPrevHash : Hash256
  redownloadWork : ChainWork
  processAllRemainingHeaders : Bool
  finalHeight : UInt32
  presynced : List Header
  accepted : List Header

def saturatingAddWork (a b : ChainWork) : ChainWork := (checkedAddWork a b).getD (BitVec.allOnes 256)

structure Hashes where
  header : Header → Hash256
  sha256 : Bytes → Hash256

namespace HeadersSyncState

def new (chainStart : HeaderAnchor) (minimumWork : ChainWork) (params : HeadersSyncParams) (salt : Bytes)
    (now : UInt32) : HeadersSyncState where
  phase := .presync
  chainStart
  params
  minimumWork
  commitOffset := UInt32.ofNat (LittleEndian.decode (salt.take 8) % params.commitmentPeriod.toNat)
  salt
  currentWork := chainStart.chainWork
  currentHeight := chainStart.height
  lastHeaderHash := chainStart.hash
  lastHeaderBits := chainStart.header.bits
  commitments := .empty
  maxCommitments := 6 * (now.toNat - chainStart.medianTimePast.toNat + 2 * 60 * 60) / params.commitmentPeriod.toNat
  redownloaded := []
  redownloadLastHeight := chainStart.height
  redownloadLastHash := chainStart.hash
  redownloadLastBits := chainStart.header.bits
  redownloadFirstPrevHash := chainStart.hash
  redownloadWork := chainStart.chainWork
  processAllRemainingHeaders := false
  finalHeight := chainStart.height
  presynced := []
  accepted := []

variable (s : HeadersSyncState)

def syncHeight : UInt32 :=
  match s.phase with
  | .presync => s.currentHeight
  | .redownload => s.redownloadLastHeight
  | .final => s.finalHeight

def finalize : HeadersSyncState :=
  if s.phase = .final then s
  else { s with
    commitments := .empty
    redownloaded := []
    redownloadLastHash := .zero
    redownloadFirstPrevHash := .zero
    processAllRemainingHeaders := false
    finalHeight := s.syncHeight
    currentHeight := 0
    phase := .final }

variable (hashes : Hashes)

def commitmentBit (hash : Hash256) : Bool := (hashes.sha256 (s.salt ++ hash.bytes)).bytes.headD 0 &&& 1 == 1

def commits (height : UInt32) : Bool := height % s.params.commitmentPeriod == s.commitOffset

abbrev Progress := Except (HeaderSyncError × HeadersSyncState) HeadersSyncState

section

variable (s : HeadersSyncState)

def commitHeader (height : UInt32) (hash : Hash256) : HeadersSyncState :=
  if s.commits height then { s with commitments := s.commitments.pushBack (s.commitmentBit hashes hash) } else s

def validatePresyncHeader (header : Header) : Progress :=
  let height := saturatingAddU32 s.currentHeight 1
  let hash := hashes.header header
  let committed := s.commitHeader hashes height hash
  if header.prevBlockhash ≠ s.lastHeaderHash then .error (.nonContinuous .presync height, s)
  else if ¬ permittedDifficultyTransition s.chainStart.network height s.lastHeaderBits header.bits then
    .error (.difficultyTransition .presync height, s)
  else if (validatePow header hash s.chainStart.network).toBool = false then
    .error (.invalidPow .presync height hash, s)
  else if s.commits height ∧ s.maxCommitments < committed.commitments.live then
    .error (.maxCommitments height, committed)
  else .ok { committed with
    currentWork := saturatingAddWork s.currentWork (blockWork header)
    lastHeaderHash := hash
    lastHeaderBits := header.bits
    currentHeight := height
    presynced := s.presynced ++ [header] }

def beginRedownload : HeadersSyncState :=
  { s with
    redownloaded := []
    redownloadLastHeight := s.chainStart.height
    redownloadLastHash := s.chainStart.hash
    redownloadFirstPrevHash := s.chainStart.hash
    redownloadWork := s.chainStart.chainWork
    processAllRemainingHeaders := false
    phase := .redownload }

def processPresync (headers : List Header) (fullMessage : Bool) :
    Except (HeaderSyncError × HeadersSyncState) (HeaderSyncResult × HeadersSyncState) := do
  let s ← headers.foldlM (validatePresyncHeader hashes) s
  let s := if s.minimumWork ≤ s.currentWork then s.beginRedownload else s
  return ({ readyHeaders := [], requestMore := fullMessage || s.phase == .redownload, phase := s.phase }, s)

def takeCommitment (height : UInt32) (hash : Hash256) : Except HeaderSyncError BitQueue :=
  if ¬ s.processAllRemainingHeaders ∧ s.commits height then
    match s.commitments.popFront with
    | none => .error (.commitmentOverrun height)
    | some (expected, rest) =>
      if s.commitmentBit hashes hash ≠ expected then .error (.commitmentMismatch height) else .ok rest
  else .ok s.commitments

def storeRedownloadedHeader (header : Header) : Progress :=
  let height := saturatingAddU32 s.redownloadLastHeight 1
  let hash := hashes.header header
  if header.prevBlockhash ≠ s.redownloadLastHash then .error (.nonContinuous .redownload height, s)
  else if ¬ permittedDifficultyTransition s.chainStart.network height s.redownloadLastBits header.bits then
    .error (.difficultyTransition .redownload height, s)
  else if (validatePow header hash s.chainStart.network).toBool = false then
    .error (.invalidPow .redownload height hash, s)
  else
    let work := saturatingAddWork s.redownloadWork (blockWork header)
    let s := { s with
      redownloadWork := work
      processAllRemainingHeaders := s.processAllRemainingHeaders || decide (s.minimumWork ≤ work) }
    match s.takeCommitment hashes height hash with
    | .error error => .error (error, s)
    | .ok commitments => .ok { s with
        commitments
        redownloaded := s.redownloaded ++ [.compress header]
        redownloadLastHeight := height
        redownloadLastHash := hash
        redownloadLastBits := header.bits
        accepted := s.accepted ++ [header] }

end

def popReady (bufferSize : ℕ) (releaseAll : Bool) : Hash256 → List CompressedHeader →
    List Header × Hash256 × List CompressedHeader
  | prev, [] => ([], prev, [])
  | prev, compressed :: rest =>
    if bufferSize < rest.length + 1 ∨ releaseAll then
      let header := compressed.expand prev
      let (ready, last, left) := popReady bufferSize releaseAll (hashes.header header) rest
      (header :: ready, last, left)
    else ([], prev, compressed :: rest)

section

variable (s : HeadersSyncState)

def popReadyHeaders : List Header × HeadersSyncState :=
  let (ready, last, left) := popReady hashes s.params.redownloadBufferSize s.processAllRemainingHeaders
    s.redownloadFirstPrevHash s.redownloaded
  (ready, { s with redownloadFirstPrevHash := last, redownloaded := left })

def processRedownload (headers : List Header) (fullMessage : Bool) :
    Except (HeaderSyncError × HeadersSyncState) (HeaderSyncResult × HeadersSyncState) := do
  let s ← headers.foldlM (storeRedownloadedHeader hashes) s
  let (readyHeaders, s) := s.popReadyHeaders hashes
  if s.redownloaded.isEmpty && s.processAllRemainingHeaders || !fullMessage then
    return ({ readyHeaders, requestMore := false, phase := .final }, s)
  else return ({ readyHeaders, requestMore := true, phase := s.phase }, s)

def process (headers : List Header) (fullMessage : Bool) : Except HeaderSyncError HeaderSyncResult × HeadersSyncState :=
  if headers.isEmpty then (.ok { readyHeaders := [], requestMore := true, phase := s.phase }, s)
  else if s.phase = .final then (.error .finalized, s)
  else
    match if s.phase = .presync then s.processPresync hashes headers fullMessage
      else s.processRedownload hashes headers fullMessage with
    | .error (error, s) => (.error error, s.finalize)
    | .ok (result, s) =>
      let s := if result.phase = .final ∨ result.requestMore = false then s.finalize else s
      (.ok { result with phase := s.phase }, s)

end

abbrev Message := List Header × Bool

variable (s : HeadersSyncState)

def respond (message : Message) : Except HeaderSyncError HeaderSyncResult × HeadersSyncState :=
  s.process hashes message.1 message.2

def run (messages : List Message) : HeadersSyncState := messages.foldl (fun s message => (s.respond hashes message).2) s

end HeadersSyncState

def readyOf : Except HeaderSyncError HeaderSyncResult → List Header
  | .ok result => result.readyHeaders
  | .error _ => []

def released (hashes : Hashes) : HeadersSyncState → List HeadersSyncState.Message → List Header
  | _, [] => []
  | s, message :: messages =>
    readyOf (s.respond hashes message).1 ++ released hashes (s.respond hashes message).2 messages

variable {pending : List Header}

section

variable (hashes : Hashes)

def Linked : Hash256 → List Header → Prop
  | _, [] => True
  | prev, header :: headers => header.prevBlockhash = prev ∧ Linked (hashes.header header) headers

def lastHash (start : Hash256) (headers : List Header) : Hash256 :=
  headers.foldl (fun _ header => hashes.header header) start

def heightOf (start : UInt32) (headers : List Header) : UInt32 :=
  headers.foldl (fun height _ => saturatingAddU32 height 1) start

def workOf (start : ChainWork) (headers : List Header) : ChainWork :=
  headers.foldl (fun work header => saturatingAddWork work (blockWork header)) start

variable (s : HeadersSyncState)

def committedBit (height : UInt32) (header : Header) : List Bool :=
  if s.commits height then [s.commitmentBit hashes (hashes.header header)] else []

def committedBits : UInt32 → List Header → List Bool
  | _, [] => []
  | height, header :: headers =>
    committedBit hashes s (saturatingAddU32 height 1) header ++ committedBits (saturatingAddU32 height 1) headers

lemma linked_append {start : Hash256} {xs ys : List Header} :
    Linked hashes start (xs ++ ys) ↔ Linked hashes start xs ∧ Linked hashes (lastHash hashes start xs) ys := by
  induction xs generalizing start with
  | nil => simp [Linked, lastHash]
  | cons x xs ih => simp [Linked, lastHash, ih, and_assoc]

lemma committedBits_concat (height : UInt32) (headers : List Header) (header : Header) :
    committedBits hashes s height (headers ++ [header]) = committedBits hashes s height headers ++
      committedBit hashes s (saturatingAddU32 (heightOf height headers) 1) header := by
  induction headers generalizing height with
  | nil => simp [committedBits, heightOf]
  | cons x xs ih => simp [committedBits, heightOf, ih]

lemma le_saturatingAddWork (a b : ChainWork) : a ≤ saturatingAddWork a b := by
  unfold saturatingAddWork
  cases hsum : checkedAddWork a b with
  | none =>
    exact Nat.le_sub_one_of_lt a.isLt
  | some c =>
    rw [Option.getD_some, BitVec.le_def, checkedAddWork_toNat hsum]
    exact Nat.le_add_right _ _

lemma popReady_spec (bufferSize : ℕ) (releaseAll : Bool) {prev : Hash256} (h : Linked hashes prev pending) :
    ∃ ready left, pending = ready ++ left ∧
      HeadersSyncState.popReady hashes bufferSize releaseAll prev (pending.map .compress) =
        (ready, lastHash hashes prev ready, left.map .compress) ∧
      (ready ≠ [] → releaseAll = true ∨ bufferSize ≤ left.length) := by
  induction pending generalizing prev with
  | nil => exact ⟨[], [], rfl, rfl, by simp⟩
  | cons header rest ih =>
    obtain ⟨ready, left, hsplit, hpop, hready⟩ := ih h.2
    have hexpand : (CompressedHeader.compress header).expand prev = header := by
      rw [← h.1]
      rfl
    rw [map_cons, HeadersSyncState.popReady, hexpand]
    dsimp only
    rw [hpop]
    split_ifs with hcond
    -- the buffer is counted behind the last header released, whose own test has seen `left`
    · refine ⟨header :: ready, left, by rw [hsplit]; rfl, rfl, fun _ => ?_⟩
      rcases eq_or_ne ready [] with rfl | hne
      · rw [length_map, hsplit] at hcond
        exact hcond.symm.imp_right Nat.le_of_lt_succ
      · exact hready hne
    · exact ⟨[], header :: rest, rfl, rfl, by simp⟩

end

namespace HeadersSyncState

def setting (s : HeadersSyncState) : HeaderAnchor × HeadersSyncParams × ChainWork × UInt32 × Bytes :=
  (s.chainStart, s.params, s.minimumWork, s.commitOffset, s.salt)

variable {hashes : Hashes} {s₀ s : HeadersSyncState} {R : List Header}

section

variable (h : s.setting = s₀.setting)

include h

lemma chainStart_of_setting : s.chainStart = s₀.chainStart := congrArg (·.1) h

lemma params_of_setting : s.params = s₀.params := congrArg (·.2.1) h

lemma minimumWork_of_setting : s.minimumWork = s₀.minimumWork := congrArg (·.2.2.1) h

lemma commits_of_setting : s.commits = s₀.commits := by
  have hoffset : s.commitOffset = s₀.commitOffset := congrArg (·.2.2.2.1) h
  funext height
  simp [commits, params_of_setting h, hoffset]

lemma commitmentBit_of_setting : s.commitmentBit hashes = s₀.commitmentBit hashes := by
  have hsalt : s.salt = s₀.salt := congrArg (·.2.2.2.2) h
  funext hash
  simp [commitmentBit, hsalt]

end

structure Presyncing (hashes : Hashes) (s₀ s : HeadersSyncState) : Prop where
  same : s.setting = s₀.setting
  phase : s.phase = .presync
  accepted : s.accepted = []
  height : s.currentHeight = heightOf s₀.chainStart.height s.presynced
  work : s.currentWork = workOf s₀.chainStart.chainWork s.presynced
  packed : s.commitments.Packed
  bits : s.commitments.bits = committedBits hashes s₀ s₀.chainStart.height s.presynced

structure Redownloading (hashes : Hashes) (s₀ s : HeadersSyncState) (R pending : List Header) : Prop where
  same : s.setting = s₀.setting
  phase : s.phase = .redownload
  accepted : s.accepted = R ++ pending
  held : s.redownloaded = pending.map .compress
  first : s.redownloadFirstPrevHash = lastHash hashes s₀.chainStart.hash R
  last : s.redownloadLastHash = lastHash hashes s₀.chainStart.hash s.accepted
  linked : Linked hashes s₀.chainStart.hash s.accepted
  height : s.redownloadLastHeight = heightOf s₀.chainStart.height s.accepted
  work : s.redownloadWork = workOf s₀.chainStart.chainWork s.accepted
  presynced : s₀.minimumWork ≤ workOf s₀.chainStart.chainWork s.presynced
  all : s.processAllRemainingHeaders = true → s₀.minimumWork ≤ s.redownloadWork
  packed : s.commitments.Packed
  bits : s.processAllRemainingHeaders = false →
    committedBits hashes s₀ s₀.chainStart.height s.accepted ++ s.commitments.bits =
      committedBits hashes s₀ s₀.chainStart.height s.presynced

structure Stopped (hashes : Hashes) (s₀ s : HeadersSyncState) (R : List Header) : Prop where
  same : s.setting = s₀.setting
  released : R <+: s.accepted
  linked : Linked hashes s₀.chainStart.hash s.accepted

lemma commitHeader_spec (h : Presyncing hashes s₀ s) (height : UInt32) (header : Header) :
    ∃ commitments : BitQueue, s.commitHeader hashes height (hashes.header header) = { s with commitments } ∧
      commitments.Packed ∧ commitments.bits = s.commitments.bits ++ committedBit hashes s₀ height header := by
  unfold commitHeader committedBit
  rw [commits_of_setting h.same, commitmentBit_of_setting h.same]
  split_ifs
  · exact ⟨_, rfl, BitQueue.packed_pushBack h.packed _, BitQueue.bits_pushBack h.packed _⟩
  · exact ⟨s.commitments, rfl, h.packed, (append_nil _).symm⟩

lemma validatePresyncHeader_outcome (h : Presyncing hashes s₀ s) (header : Header) :
    (∃ next, s.validatePresyncHeader hashes header = .ok next ∧ Presyncing hashes s₀ next) ∨
      ∃ e, s.validatePresyncHeader hashes header = .error e ∧ Stopped hashes s₀ e.2 [] := by
  have hlinked : Linked hashes s₀.chainStart.hash s.accepted := by
    rw [h.accepted]
    trivial
  obtain ⟨commitments, hcommitted, hpacked, hqueue⟩ := commitHeader_spec h (saturatingAddU32 s.currentHeight 1) header
  unfold validatePresyncHeader
  dsimp only
  rw [hcommitted]
  by_cases hprev : header.prevBlockhash ≠ s.lastHeaderHash
  · exact .inr ⟨_, if_pos hprev, h.same, nil_prefix, hlinked⟩
  rw [if_neg hprev]
  by_cases hbits : ¬ permittedDifficultyTransition s.chainStart.network (saturatingAddU32 s.currentHeight 1)
      s.lastHeaderBits header.bits
  · exact .inr ⟨_, if_pos hbits, h.same, nil_prefix, hlinked⟩
  rw [if_neg hbits]
  by_cases hpow : (validatePow header (hashes.header header) s.chainStart.network).toBool = false
  · exact .inr ⟨_, if_pos hpow, h.same, nil_prefix, hlinked⟩
  rw [if_neg hpow]
  by_cases hmax : s.commits (saturatingAddU32 s.currentHeight 1) ∧ s.maxCommitments < commitments.live
  · exact .inr ⟨_, if_pos hmax, h.same, nil_prefix, hlinked⟩
  refine .inl ⟨_, if_neg hmax, ?_⟩
  constructor
  · exact h.same
  · exact h.phase
  · exact h.accepted
  · simp [heightOf, h.height]
  · simp [workOf, h.work]
  · exact hpacked
  · rw [committedBits_concat, ← h.bits, ← h.height]
    exact hqueue

lemma takeCommitment_spec {height : UInt32} {header : Header} {rest : BitQueue} (hsame : s.setting = s₀.setting)
    (hpacked : s.commitments.Packed) (h : s.takeCommitment hashes height (hashes.header header) = .ok rest) :
    rest.Packed ∧ (s.processAllRemainingHeaders = false →
      s.commitments.bits = committedBit hashes s₀ height header ++ rest.bits) := by
  unfold takeCommitment at h
  unfold committedBit
  rw [commits_of_setting hsame, commitmentBit_of_setting hsame] at h
  by_cases hcheck : ¬ s.processAllRemainingHeaders = true ∧ s₀.commits height = true
  · rw [if_pos hcheck] at h
    cases hpop : s.commitments.popFront with
    | none => simp [hpop] at h
    | some popped =>
      obtain ⟨hleft, hbits⟩ := BitQueue.popFront_spec hpacked hpop
      simp only [hpop, ne_eq, ite_not] at h
      split_ifs at h with hbit
      cases h
      rw [if_pos hcheck.2, hbits, hbit]
      exact ⟨hleft, fun _ => rfl⟩
  · rw [if_neg hcheck] at h
    cases h
    refine ⟨hpacked, fun hall => ?_⟩
    have hnone : ¬ s₀.commits height = true := fun hcommits => hcheck ⟨by simp [hall], hcommits⟩
    rw [if_neg hnone, nil_append]

lemma storeRedownloadedHeader_outcome (h : Redownloading hashes s₀ s R pending) (header : Header) :
    (∃ next, s.storeRedownloadedHeader hashes header = .ok next ∧
      Redownloading hashes s₀ next R (pending ++ [header])) ∨
      ∃ e, s.storeRedownloadedHeader hashes header = .error e ∧ Stopped hashes s₀ e.2 R := by
  have hprefix : R <+: s.accepted := h.accepted ▸ prefix_append R pending
  unfold storeRedownloadedHeader
  dsimp only
  by_cases hprev : header.prevBlockhash ≠ s.redownloadLastHash
  · exact .inr ⟨_, if_pos hprev, h.same, hprefix, h.linked⟩
  rw [if_neg hprev]
  by_cases hbits : ¬ permittedDifficultyTransition s.chainStart.network (saturatingAddU32 s.redownloadLastHeight 1)
      s.redownloadLastBits header.bits
  · exact .inr ⟨_, if_pos hbits, h.same, hprefix, h.linked⟩
  rw [if_neg hbits]
  by_cases hpow : (validatePow header (hashes.header header) s.chainStart.network).toBool = false
  · exact .inr ⟨_, if_pos hpow, h.same, hprefix, h.linked⟩
  rw [if_neg hpow]
  -- the work counts before the bits are compared: the header that reaches the minimum is not compared any more
  generalize hwork : saturatingAddWork s.redownloadWork (blockWork header) = work
  generalize htested : { s with
    redownloadWork := work
    processAllRemainingHeaders := s.processAllRemainingHeaders || decide (s.minimumWork ≤ work) } = tested
  cases htake : tested.takeCommitment hashes (saturatingAddU32 s.redownloadLastHeight 1) (hashes.header header) with
  | error e =>
    refine .inr ⟨_, rfl, ?_⟩
    subst htested
    exact ⟨h.same, hprefix, h.linked⟩
  | ok rest =>
    refine .inl ⟨_, rfl, ?_⟩
    have hsetting : tested.setting = s₀.setting := htested ▸ h.same
    obtain ⟨hpacked, hqueue⟩ := takeCommitment_spec hsetting (htested ▸ h.packed) htake
    subst htested
    constructor
    · exact h.same
    · exact h.phase
    · simp [h.accepted]
    · simp [h.held]
    · exact h.first
    · simp [lastHash]
    · refine (linked_append hashes).mpr ⟨h.linked, ?_, trivial⟩
      rw [← h.last]
      exact not_not.mp hprev
    · simp [heightOf, h.height]
    · simp [workOf, ← hwork, h.work]
    · exact h.presynced
    · intro hall
      rcases Bool.or_eq_true_iff.mp hall with hall | hall
      · rw [← hwork]
        exact BitVec.le_trans (h.all hall) (le_saturatingAddWork _ _)
      · exact minimumWork_of_setting h.same ▸ of_decide_eq_true hall
    · exact hpacked
    · intro hall
      have hbefore := h.bits (Bool.or_eq_false_iff.mp hall).1
      rw [committedBits_concat, append_assoc, ← h.height, ← hqueue hall]
      exact hbefore

def Inv (hashes : Hashes) (s₀ s : HeadersSyncState) (R : List Header) : Prop :=
  match s.phase with
  | .presync => R = [] ∧ Presyncing hashes s₀ s
  | .redownload => ∃ pending, Redownloading hashes s₀ s R pending
  | .final => Stopped hashes s₀ s R

/-- Why headers may be released once `R` are: the first pass has reached the minimum work, and the second has too or
is ahead of `R` by the buffer with all its bits those of the first. -/
def Committed (hashes : Hashes) (s₀ s : HeadersSyncState) (R : List Header) : Prop :=
  s₀.minimumWork ≤ workOf s₀.chainStart.chainWork s.presynced ∧
    (s₀.minimumWork ≤ workOf s₀.chainStart.chainWork s.accepted ∨
      R.length + s₀.params.redownloadBufferSize ≤ s.accepted.length ∧
        committedBits hashes s₀ s₀.chainStart.height s.accepted <+:
          committedBits hashes s₀ s₀.chainStart.height s.presynced)

lemma Stopped.finalize (h : Stopped hashes s₀ s R) : Inv hashes s₀ s.finalize R ∧ s.finalize.phase = .final := by
  unfold HeadersSyncState.finalize
  split_ifs with hphase
  · refine ⟨?_, hphase⟩
    simpa only [Inv, hphase] using h
  · exact ⟨⟨h.same, h.released, h.linked⟩, rfl⟩

section

variable (h : Redownloading hashes s₀ s R pending)

include h

lemma Redownloading.stopped :
    Stopped hashes s₀ s R := ⟨h.same, h.accepted ▸ prefix_append R pending, h.linked⟩

lemma popReadyHeaders_spec :
    (∃ left, Redownloading hashes s₀ (s.popReadyHeaders hashes).2 (R ++ (s.popReadyHeaders hashes).1) left) ∧
      ((s.popReadyHeaders hashes).1 ≠ [] →
        Committed hashes s₀ (s.popReadyHeaders hashes).2 (R ++ (s.popReadyHeaders hashes).1)) := by
  have hlinked := h.linked
  rw [h.accepted, linked_append, ← h.first] at hlinked
  obtain ⟨ready, left, hsplit, hpop, hready⟩ := popReady_spec hashes s.params.redownloadBufferSize
    s.processAllRemainingHeaders hlinked.2
  have hrun : s.popReadyHeaders hashes = (ready, { s with
      redownloadFirstPrevHash := lastHash hashes s.redownloadFirstPrevHash ready, redownloaded :=
        left.map .compress }) := by
    unfold popReadyHeaders
    rw [h.held, hpop]
  have haccepted : s.accepted = R ++ ready ++ left := by rw [h.accepted, hsplit, append_assoc]
  rw [hrun]
  constructor
  · refine ⟨left, ?_⟩
    constructor
    · exact h.same
    · exact h.phase
    · exact haccepted
    · rfl
    · simp [h.first, lastHash]
    · exact h.last
    · exact h.linked
    · exact h.height
    · exact h.work
    · exact h.presynced
    · exact h.all
    · exact h.packed
    · exact h.bits
  · intro hne
    refine ⟨h.presynced, ?_⟩
    cases hall : s.processAllRemainingHeaders with
    | true => exact .inl (h.work ▸ h.all hall)
    | false =>
      refine .inr ⟨?_, h.bits hall ▸ prefix_append _ _⟩
      have hlen := (hready hne).resolve_left (by simp [hall])
      show (R ++ ready).length + s₀.params.redownloadBufferSize ≤ s.accepted.length
      have hlength : s.accepted.length = (R ++ ready).length + left.length := haccepted ▸ length_append
      rw [hlength, ← params_of_setting h.same]
      exact Nat.add_le_add_left hlen _

end

lemma Inv.stopped (h : Inv hashes s₀ s R) : Stopped hashes s₀ s R := by
  unfold Inv at h
  cases hphase : s.phase with
  | presync =>
    rw [hphase] at h
    obtain ⟨rfl, h⟩ := h
    refine ⟨h.same, nil_prefix, ?_⟩
    rw [h.accepted]
    trivial
  | redownload =>
    rw [hphase] at h
    obtain ⟨_, h⟩ := h
    exact h.stopped
  | final =>
    rw [hphase] at h
    exact h

def Answered (hashes : Hashes) (s₀ : HeadersSyncState) (R : List Header) :
    Except (HeaderSyncError × HeadersSyncState) (HeaderSyncResult × HeadersSyncState) → Prop
  | .error e => Stopped hashes s₀ e.2 R
  | .ok answer => Inv hashes s₀ answer.2 (R ++ answer.1.readyHeaders) ∧
      (answer.1.readyHeaders ≠ [] → Committed hashes s₀ answer.2 (R ++ answer.1.readyHeaders))

lemma beginRedownload_spec (h : Presyncing hashes s₀ s) (hwork : s.minimumWork ≤ s.currentWork) :
    Redownloading hashes s₀ s.beginRedownload [] [] := by
  constructor
  · exact h.same
  · rfl
  · exact h.accepted
  · rfl
  · exact congrArg HeaderAnchor.hash (chainStart_of_setting h.same)
  · simp [beginRedownload, h.accepted, chainStart_of_setting h.same, lastHash]
  · simp [beginRedownload, h.accepted, Linked]
  · simp [beginRedownload, h.accepted, chainStart_of_setting h.same, heightOf]
  · simp [beginRedownload, h.accepted, chainStart_of_setting h.same, workOf]
  · rw [minimumWork_of_setting h.same, h.work] at hwork
    exact hwork
  · simp [beginRedownload]
  · exact h.packed
  · simp [beginRedownload, h.accepted, h.bits, committedBits]

lemma processPresync_spec (h : Presyncing hashes s₀ s) (headers : List Header) (fullMessage : Bool) :
    Answered hashes s₀ [] (s.processPresync hashes headers fullMessage) := by
  have hrun : (∃ next, headers.foldlM (validatePresyncHeader hashes) s = .ok next ∧ Presyncing hashes s₀ next) ∨
      ∃ e, headers.foldlM (validatePresyncHeader hashes) s = .error e ∧ Stopped hashes s₀ e.2 [] :=
    Fallible.foldlM_outcome (I := fun _ s => Presyncing hashes s₀ s) h
      (fun _ header _ _ _ h => validatePresyncHeader_outcome h header)
  unfold processPresync
  rcases hrun with ⟨next, hrun, h⟩ | ⟨e, hrun, h⟩
  · rw [hrun]
    refine ⟨?_, fun hne => absurd rfl hne⟩
    show Inv hashes s₀ (if next.minimumWork ≤ next.currentWork then next.beginRedownload else next) []
    split_ifs with hwork
    · exact ⟨[], beginRedownload_spec h hwork⟩
    · rw [Inv, h.phase]
      exact ⟨rfl, h⟩
  · rw [hrun]
    exact h

lemma processRedownload_spec (h : Redownloading hashes s₀ s R pending) (headers : List Header) (fullMessage : Bool) :
    Answered hashes s₀ R (s.processRedownload hashes headers fullMessage) := by
  have hrun : (∃ next, headers.foldlM (storeRedownloadedHeader hashes) s = .ok next ∧
        Redownloading hashes s₀ next R (pending ++ headers)) ∨
      ∃ e, headers.foldlM (storeRedownloadedHeader hashes) s = .error e ∧ Stopped hashes s₀ e.2 R := by
    refine Fallible.foldlM_outcome (I := fun passed s => Redownloading hashes s₀ s R (pending ++ passed)) ?_ ?_
    · rwa [append_nil]
    · intro passed header _ s _ h
      rw [← append_assoc]
      exact storeRedownloadedHeader_outcome h header
  unfold processRedownload
  rcases hrun with ⟨next, hrun, h⟩ | ⟨e, hrun, h⟩
  · rw [hrun]
    obtain ⟨⟨left, hleft⟩, hcommitted⟩ := popReadyHeaders_spec h
    have hinv : Inv hashes s₀ (next.popReadyHeaders hashes).2 (R ++ (next.popReadyHeaders hashes).1) := by
      rw [Inv, hleft.phase]
      exact ⟨left, hleft⟩
    simp only [Except.bind, bind]
    split_ifs
    · exact ⟨hinv, hcommitted⟩
    · exact ⟨hinv, hcommitted⟩
  · rw [hrun]
    exact h

lemma pass_answered (h : Inv hashes s₀ s R) (hfinal : s.phase ≠ .final) (headers : List Header) (fullMessage : Bool) :
    Answered hashes s₀ R (if s.phase = .presync then s.processPresync hashes headers fullMessage
      else s.processRedownload hashes headers fullMessage) := by
  unfold Inv at h
  cases hphase : s.phase with
  | presync =>
    rw [hphase] at h
    obtain ⟨rfl, h⟩ := h
    exact processPresync_spec h headers fullMessage
  | redownload =>
    rw [hphase] at h
    obtain ⟨_, h⟩ := h
    exact processRedownload_spec h headers fullMessage
  | final => exact absurd hphase hfinal

def Completes : Except HeaderSyncError HeaderSyncResult → Prop
  | .error _ => True
  | .ok result => result.requestMore = false

lemma finalize_lists (s : HeadersSyncState) :
    s.finalize.presynced = s.presynced ∧ s.finalize.accepted = s.accepted := by
  unfold finalize
  split_ifs <;> exact ⟨rfl, rfl⟩

lemma respond_spec (h : Inv hashes s₀ s R) (message : Message) :
    Inv hashes s₀ (s.respond hashes message).2 (R ++ readyOf (s.respond hashes message).1) ∧
      (readyOf (s.respond hashes message).1 ≠ [] →
        Committed hashes s₀ (s.respond hashes message).2 (R ++ readyOf (s.respond hashes message).1)) ∧
      (Completes (s.respond hashes message).1 → (s.respond hashes message).2.phase = .final) := by
  obtain ⟨headers, fullMessage⟩ := message
  unfold respond process
  by_cases hempty : headers.isEmpty
  · rw [if_pos hempty]
    simpa [readyOf, Completes] using h
  rw [if_neg hempty]
  by_cases hfinal : s.phase = .final
  · simpa [readyOf, hfinal] using h
  rw [if_neg hfinal]
  have hanswer := pass_answered h hfinal headers fullMessage
  revert hanswer
  generalize (if s.phase = .presync then s.processPresync hashes headers fullMessage
    else s.processRedownload hashes headers fullMessage) = answer
  intro hanswer
  cases answer with
  | error e =>
    obtain ⟨hinv, hphase⟩ := Stopped.finalize hanswer
    refine ⟨?_, fun hne => absurd rfl hne, fun _ => hphase⟩
    simpa [readyOf] using hinv
  | ok answer =>
    obtain ⟨result, next⟩ := answer
    obtain ⟨hinv, hcommitted⟩ := hanswer
    by_cases hdone : result.phase = .final ∨ result.requestMore = false
    · simp only [if_pos hdone]
      obtain ⟨hfinalized, hphase⟩ := hinv.stopped.finalize
      refine ⟨hfinalized, fun hne => ?_, fun _ => hphase⟩
      unfold Committed
      rw [next.finalize_lists.1, next.finalize_lists.2]
      exact hcommitted hne
    · simp only [if_neg hdone]
      exact ⟨hinv, hcommitted, fun hmore => absurd (.inr hmore) hdone⟩

lemma run_spec (h : Inv hashes s₀ s R) (messages : List Message) :
    Inv hashes s₀ (s.run hashes messages) (R ++ released hashes s messages) := by
  induction messages generalizing s R with
  | nil => simpa [run, released] using h
  | cons message messages ih =>
    have hnext := ih (respond_spec h message).1
    rwa [append_assoc] at hnext

lemma released_concat (s : HeadersSyncState) (messages : List Message) (message : Message) :
    released hashes s (messages ++ [message]) =
      released hashes s messages ++ readyOf ((s.run hashes messages).respond hashes message).1 := by
  induction messages generalizing s with
  | nil => simp [released, run]
  | cons first messages ih =>
    rw [cons_append, released, released, ih, append_assoc]
    rfl

lemma released_final (hphase : s.phase = .final) (messages : List Message) : released hashes s messages = [] := by
  induction messages with
  | nil => rfl
  | cons message messages ih =>
    have hstep : readyOf (s.respond hashes message).1 = [] ∧ (s.respond hashes message).2 = s := by
      unfold respond process
      split_ifs <;> exact ⟨rfl, rfl⟩
    rw [released, hstep.1, hstep.2, ih]
    rfl

lemma new_inv (hashes : Hashes) (chainStart : HeaderAnchor) (minimumWork : ChainWork) (params : HeadersSyncParams)
    (salt : Bytes) (now : UInt32) :
    Inv hashes (new chainStart minimumWork params salt now) (new chainStart minimumWork params salt now) [] :=
  ⟨rfl, rfl, rfl, rfl, rfl, rfl, BitQueue.packed_empty, BitQueue.bits_empty⟩

/-- Whatever the peer sends, what a sync has released is the start of the headers its second pass has accepted, and
those are linked from the start of the chain. A message releases headers only on the work of the first pass, and on that
of the second or a buffer of later headers that agree with the bits of the first. An error or the end of the sync is
followed by nothing. -/
theorem presync_releases_committed (hashes : Hashes) (chainStart : HeaderAnchor) (minimumWork : ChainWork)
    (params : HeadersSyncParams) (salt : Bytes) (now : UInt32) (messages : List Message) (message : Message) :
    let s₀ := new chainStart minimumWork params salt now
    let call := (s₀.run hashes messages).respond hashes message
    let R := released hashes s₀ (messages ++ [message])
    R = released hashes s₀ messages ++ readyOf call.1 ∧
      R <+: call.2.accepted ∧ Linked hashes chainStart.hash call.2.accepted ∧
      (readyOf call.1 ≠ [] → Committed hashes s₀ call.2 R) ∧
      (Completes call.1 → ∀ later, released hashes call.2 later = []) := by
  intro s₀ call R
  have hrun := run_spec (new_inv hashes chainStart minimumWork params salt now) messages
  obtain ⟨hinv, hcommitted, hcompletes⟩ := respond_spec hrun message
  have hR : R = released hashes s₀ messages ++ readyOf call.1 := released_concat s₀ messages message
  rw [hR]
  exact ⟨rfl, hinv.stopped.released, hinv.stopped.linked, hcommitted,
    fun hdone later => released_final (hcompletes hdone) later⟩

end HeadersSyncState

end BitcoinRs.P2p
