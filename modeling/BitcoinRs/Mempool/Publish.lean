import BitcoinRs.Primitives
import Mathlib.Data.Nat.Digits.Lemmas

namespace BitcoinRs.Mempool

namespace MutationSequence

variable (current : UInt64)

def advance : UInt64 := current + 1

def base (len : ℕ) : UInt64 := if len = 0 then 0 else current - (UInt64.ofNat len - 1)

end MutationSequence

inductive RemovalReason
  | blockInclusion
  | conflict
  | replaced
  | descendant
  | policyEviction
  | expiry
  | clear
  | reorg
  deriving DecidableEq

inductive MutationOutcome
  | accepted
  | removed (reason : RemovalReason)
  deriving DecidableEq

structure MutationChange where
  txid : Txid
  outcome : MutationOutcome

structure MutationResult where
  changes : List MutationChange
  sequenceBase : UInt64

structure MutationEnvelope (Origin : Type) where
  origin : Origin
  result : MutationResult
  acceptedTransactions : List (ℕ × Tx)

def pushChanges (sequence : UInt64) (changes : List MutationChange) : UInt64 :=
  changes.foldl (fun sequence _ => MutationSequence.advance sequence) sequence

def finishMutation (sequence : UInt64) (changes : List MutationChange) : MutationResult :=
  { changes, sequenceBase := MutationSequence.base sequence changes.length }

def bodiesOf (captured : List (Txid × Tx)) : Txid → Option Tx :=
  captured.foldl (fun bodies body => Function.update bodies body.1 (some body.2)) fun _ => none

def joinFrom (index : ℕ) (bodies : Txid → Option Tx) : List MutationChange → List (ℕ × Tx)
  | [] => []
  | change :: rest =>
    if change.outcome = .accepted then
      match bodies change.txid with
      | none => joinFrom (index + 1) bodies rest
      | some body => (index, body) :: joinFrom (index + 1) (Function.update bodies change.txid none) rest
    else joinFrom (index + 1) bodies rest

def joinAcceptedBodies (result : MutationResult) (captured : List (Txid × Tx)) : List (ℕ × Tx) :=
  joinFrom 0 (bodiesOf captured) result.changes

structure Mutated where
  changes : List MutationChange
  captured : List (Txid × Tx)

/-- The arguments of `commit`. `mutate` gives `none` where it fails, or where `mutation` has no result to publish;
it then pushes no change. -/
structure CommitCall (σ Origin : Type) where
  origin : Origin
  mutate : σ → σ × Option Mutated

def envelopeOf {Origin : Type} (origin : Origin) (sequence : UInt64) (mutated : Mutated) (bodiesWanted : Bool) :
    MutationEnvelope Origin :=
  let result := finishMutation sequence mutated.changes
  { origin, result, acceptedTransactions := joinAcceptedBodies result (if bodiesWanted then mutated.captured else []) }

/-- Where a call stands. All but the last two are inside `commit`, in the order of its statements. -/
inductive Frame (σ Origin : Type) where
  /-- before `commit_order.lock()` -/
  | waiting (call : CommitCall σ Origin) (bodiesWanted : Bool)
  /-- before `pool.write()` -/
  | ordered (call : CommitCall σ Origin) (bodiesWanted : Bool)
  /-- before `publish.lock()` -/
  | mutated (pending : Option (MutationEnvelope Origin))
  /-- before `drop(order)` -/
  | published (elected : Bool)
  /-- at the head of the loop of `drain` -/
  | draining
  /-- in `on_mutation` -/
  | delivering (envelope : MutationEnvelope Origin)

/-- The gateway with the call stacks of the threads that use it. `committed` and `delivered` record what was committed
and what was handed to the observer; nothing reads them. -/
structure Gateway (Thread σ Origin : Type) where
  pool : σ
  sequence : UInt64
  order : Option Thread
  queue : List (MutationEnvelope Origin)
  draining : Bool
  wantsBodies : Bool
  threads : Thread → List (Frame σ Origin)
  committed : List (MutationEnvelope Origin)
  delivered : List (MutationEnvelope Origin)

namespace Gateway

variable {Thread σ Origin : Type}

def new (pool : σ) (sequence : UInt64) (wantsBodies : Bool) : Gateway Thread σ Origin where
  pool := pool
  sequence := sequence
  order := none
  queue := []
  draining := false
  wantsBodies := wantsBodies
  threads := fun _ => []
  committed := []
  delivered := []

def Quiet (gateway : Gateway Thread σ Origin) : Prop := ∀ thread, gateway.threads thread = []

variable [DecidableEq Thread]

section

variable (gateway : Gateway Thread σ Origin)

def setStack (thread : Thread) (stack : List (Frame σ Origin)) : Gateway Thread σ Origin :=
  { gateway with threads := Function.update gateway.threads thread stack }

def mutatePool (observer : Bool) (call : CommitCall σ Origin) (bodiesWanted : Bool) :
    Gateway Thread σ Origin × Option (MutationEnvelope Origin) :=
  match call.mutate gateway.pool with
  | (pool, none) => ({ gateway with pool }, none)
  | (pool, some mutated) =>
    let sequence := pushChanges gateway.sequence mutated.changes
    if mutated.changes = [] then ({ gateway with pool, sequence }, none)
    else
      let envelope := envelopeOf call.origin sequence mutated bodiesWanted
      ({ gateway with pool, sequence, committed := gateway.committed ++ [envelope] },
        if observer then some envelope else none)

def enqueue (envelope : MutationEnvelope Origin) : Gateway Thread σ Origin × Bool :=
  ({ gateway with queue := gateway.queue ++ [envelope], draining := true }, !gateway.draining)

/-- The next statement of a thread that is in a call, or `none` while it waits for `commit_order`. -/
def advance (observer : Bool) (thread : Thread) : Option (Gateway Thread σ Origin) :=
  match gateway.threads thread with
  | [] => none
  | .waiting call bodiesWanted :: rest =>
    if gateway.order.isNone then
      some ({ gateway with order := some thread }.setStack thread (.ordered call bodiesWanted :: rest))
    else none
  | .ordered call bodiesWanted :: rest =>
    let next := gateway.mutatePool observer call bodiesWanted
    some (next.1.setStack thread (.mutated next.2 :: rest))
  | .mutated none :: rest => some (gateway.setStack thread (.published false :: rest))
  | .mutated (some envelope) :: rest =>
    let next := gateway.enqueue envelope
    some (next.1.setStack thread (.published next.2 :: rest))
  | .published elected :: rest =>
    some ({ gateway with order := none }.setStack thread (if elected then .draining :: rest else rest))
  | .draining :: rest =>
    match gateway.queue with
    | [] => some ({ gateway with draining := false }.setStack thread rest)
    | envelope :: queue =>
      some ({ gateway with queue, delivered := gateway.delivered ++ [envelope] }.setStack thread
        (.delivering envelope :: rest))
  -- `on_mutation` returns, or panics and the panic is caught
  | .delivering _ :: rest => some (gateway.setStack thread (.draining :: rest))

end

/-- A thread outside any call may call `commit`, and so may `on_mutation`. -/
def mayCall : List (Frame σ Origin) → Bool
  | [] => true
  | .delivering _ :: _ => true
  | _ => false

inductive Action (Thread σ Origin : Type) where
  | call (thread : Thread) (call : CommitCall σ Origin)
  | advance (thread : Thread)
  /-- a leg that wants the bodies is attached -/
  | attach
  /-- a write to the pool that pushes no change: a fee delta, a broadcast mark -/
  | touch (f : σ → σ)

variable (observer : Bool) (gateway : Gateway Thread σ Origin)

/-- What is not enabled changes nothing. -/
def act : Action Thread σ Origin → Gateway Thread σ Origin
  | .call thread call =>
    if mayCall (gateway.threads thread) then
      gateway.setStack thread (.waiting call (observer && gateway.wantsBodies) :: gateway.threads thread)
    else gateway
  | .advance thread => (gateway.advance observer thread).getD gateway
  | .attach => { gateway with wantsBodies := true }
  | .touch f => { gateway with pool := f gateway.pool }

def run (actions : List (Action Thread σ Origin)) : Gateway Thread σ Origin := actions.foldl (act observer) gateway

end Gateway

open List Function Mempool.Frame

section

variable (sequence : UInt64)

lemma pushChanges_eq (changes : List MutationChange) :
    pushChanges sequence changes = sequence + UInt64.ofNat changes.length := by
  induction changes generalizing sequence with
  | nil => exact (UInt64.add_zero sequence).symm
  | cons change rest ih =>
    have hcons : UInt64.ofNat (rest.length + 1) = 1 + UInt64.ofNat rest.length := by
      rw [UInt64.ofNat_add, UInt64.add_comm]
      rfl
    rw [pushChanges, foldl_cons, ← pushChanges, ih, length_cons, hcons, MutationSequence.advance, UInt64.add_assoc]

lemma sequenceBase_finishMutation {changes : List MutationChange} (h : changes ≠ []) :
    (finishMutation (pushChanges sequence changes) changes).sequenceBase = sequence + 1 := by
  have hlen : changes.length ≠ 0 := mt length_eq_zero_iff.mp h
  rw [finishMutation, MutationSequence.base, pushChanges_eq]
  grind

variable {Origin : Type}

def Consecutive (start : UInt64) : List (MutationEnvelope Origin) → UInt64 → Prop
  | [], stop => stop = start
  | envelope :: rest, stop =>
    envelope.result.sequenceBase = start + 1 ∧ envelope.result.changes ≠ [] ∧
      Consecutive (start + UInt64.ofNat envelope.result.changes.length) rest stop

variable {log : List (MutationEnvelope Origin)} {start stop : UInt64}

lemma Consecutive.append (h : Consecutive start log stop) {envelope : MutationEnvelope Origin}
    (hbase : envelope.result.sequenceBase = stop + 1) (hne : envelope.result.changes ≠ []) :
    Consecutive start (log ++ [envelope]) (stop + UInt64.ofNat envelope.result.changes.length) := by
  induction log generalizing start with
  | nil =>
    cases h
    exact ⟨hbase, hne, rfl⟩
  | cons first rest ih =>
    obtain ⟨hfirst, hfirstNe, hrest⟩ := h
    exact ⟨hfirst, hfirstNe, ih hrest⟩

def changeCount (log : List (MutationEnvelope Origin)) : ℕ :=
    (log.map fun envelope => envelope.result.changes.length).sum

lemma Consecutive.increasing (h : Consecutive start log stop) (hroom : start.toNat + changeCount log < 2 ^ 64) :
    (log.map fun envelope => envelope.result.sequenceBase.toNat).Pairwise (· < ·) ∧
      ∀ envelope ∈ log, start.toNat < envelope.result.sequenceBase.toNat := by
  induction log generalizing start with
  | nil => exact ⟨.nil, fun _ hmem => absurd hmem not_mem_nil⟩
  | cons first rest ih =>
    obtain ⟨hbase, hne, hrest⟩ := h
    rw [changeCount, map_cons, sum_cons, ← changeCount] at hroom
    have hpos : 0 < first.result.changes.length := length_pos_of_ne_nil hne
    have hone : (start + 1).toNat = start.toNat + 1 := by
      exact Nat.mod_eq_of_lt (by simp; omega)
    have hnext : (start + UInt64.ofNat first.result.changes.length).toNat =
        start.toNat + first.result.changes.length := by
      rw [UInt64.toNat_add, UInt64.toNat_ofNat_of_lt' (by rw [UInt64.size]; omega)]
      exact Nat.mod_eq_of_lt (by omega)
    obtain ⟨hpairwise, hlater⟩ := ih hrest (by omega)
    constructor
    · rw [map_cons, pairwise_cons]
      refine ⟨fun number hnumber => ?_, hpairwise⟩
      obtain ⟨envelope, henvelope, rfl⟩ := mem_map.mp hnumber
      have hgreater := hlater envelope henvelope
      rw [hbase]
      omega
    · intro envelope henvelope
      rcases mem_cons.mp henvelope with rfl | henvelope
      · rw [hbase]
        omega
      · have hgreater := hlater envelope henvelope
        omega

end

namespace Frame

variable {σ Origin : Type}

def holdsOrder : Frame σ Origin → Bool
  | .ordered _ _ | .mutated _ | .published _ => true
  | _ => false

def drains : Frame σ Origin → Bool
  | .published elected => elected
  | .draining | .delivering _ => true
  | _ => false

def isDelivery : Frame σ Origin → Bool
  | .delivering _ => true
  | _ => false

def weight : Frame σ Origin → ℕ
  | .waiting _ _ => 8
  | .ordered _ _ => 7
  | .mutated _ => 6
  | .published _ => 2
  | .draining => 1
  | .delivering _ => 3

end Frame

namespace Gateway

variable {Thread σ Origin : Type} [DecidableEq Thread] {gateway next : Gateway Thread σ Origin} {thread : Thread}

inductive Moves (gateway : Gateway Thread σ Origin) (thread : Thread) : Gateway Thread σ Origin → Prop
  | lock {call bodiesWanted rest} (htop : gateway.threads thread = .waiting call bodiesWanted :: rest)
      (hfree : gateway.order = none) :
      Moves gateway thread ({ gateway with order := some thread }.setStack thread (.ordered call bodiesWanted :: rest))
  | keep {call bodiesWanted rest} (pool : σ) (htop : gateway.threads thread = .ordered call bodiesWanted :: rest) :
      Moves gateway thread ({ gateway with pool }.setStack thread (.mutated none :: rest))
  | change {call bodiesWanted rest} (pool : σ) (envelope : MutationEnvelope Origin)
      (htop : gateway.threads thread = .ordered call bodiesWanted :: rest)
      (hbase : envelope.result.sequenceBase = gateway.sequence + 1) (hne : envelope.result.changes ≠ []) :
      Moves gateway thread
        ({ gateway with
            pool, sequence := gateway.sequence + UInt64.ofNat envelope.result.changes.length,
            committed := gateway.committed ++ [envelope] }.setStack thread (.mutated (some envelope) :: rest))
  | pass {rest} (htop : gateway.threads thread = .mutated none :: rest) :
      Moves gateway thread (gateway.setStack thread (.published false :: rest))
  | publish {envelope rest} (htop : gateway.threads thread = .mutated (some envelope) :: rest) :
      Moves gateway thread ({ gateway with queue := gateway.queue ++ [envelope], draining := true }.setStack thread
        (.published (!gateway.draining) :: rest))
  | unlock {elected rest} (htop : gateway.threads thread = .published elected :: rest) :
      Moves gateway thread
        ({ gateway with order := none }.setStack thread (if elected then .draining :: rest else rest))
  | finish {rest} (htop : gateway.threads thread = .draining :: rest) (hqueue : gateway.queue = []) :
      Moves gateway thread ({ gateway with draining := false }.setStack thread rest)
  | pop {envelope queue rest} (htop : gateway.threads thread = .draining :: rest)
      (hqueue : gateway.queue = envelope :: queue) :
      Moves gateway thread ({ gateway with queue, delivered := gateway.delivered ++ [envelope] }.setStack thread
        (.delivering envelope :: rest))
  | observed {envelope rest} (htop : gateway.threads thread = .delivering envelope :: rest) :
      Moves gateway thread (gateway.setStack thread (.draining :: rest))

lemma moves_of_advance (h : gateway.advance true thread = some next) : Moves gateway thread next := by
  unfold advance at h
  split at h
  · cases h
  · rename_i htop
    split_ifs at h with hfree
    cases h
    exact .lock htop (Option.isNone_iff_eq_none.mp hfree)
  · rename_i call bodiesWanted rest htop
    cases h
    unfold mutatePool
    split
    · exact .keep _ htop
    · rename_i pool mutated hmutate
      dsimp only
      by_cases hempty : mutated.changes = []
      · rw [hempty]
        exact .keep pool htop
      · rw [if_neg hempty]
        have hmove := Moves.change pool
          (envelopeOf call.origin (pushChanges gateway.sequence mutated.changes) mutated bodiesWanted) htop
          (sequenceBase_finishMutation gateway.sequence hempty) hempty
        rwa [← pushChanges_eq] at hmove
  · rename_i htop
    cases h
    exact .pass htop
  · rename_i htop
    cases h
    exact .publish htop
  · rename_i htop
    cases h
    exact .unlock htop
  · rename_i htop
    split at h
    · rename_i hqueue
      cases h
      exact .finish htop hqueue
    · rename_i hqueue
      cases h
      exact .pop htop hqueue
  · rename_i htop
    cases h
    exact .observed htop

lemma threads_setStack_self (stack : List (Frame σ Origin)) :
    (gateway.setStack thread stack).threads thread = stack := by
  simp [setStack]

lemma threads_setStack_of_ne {other : Thread} (h : other ≠ thread) (stack : List (Frame σ Origin)) :
    (gateway.setStack thread stack).threads other = gateway.threads other := by
  simp only [setStack, update_of_ne h]

lemma map_setStack {α : Type} (f : List (Frame σ Origin) → α) (stack : List (Frame σ Origin)) :
    (fun other => f ((gateway.setStack thread stack).threads other)) =
      Function.update (fun other => f (gateway.threads other)) thread (f stack) := by
  funext other
  by_cases h : other = thread
  · subst h
    rw [threads_setStack_self, update_self]
  · rw [threads_setStack_of_ne h, update_of_ne h]

section

def OneAt (b : Bool) (f : Thread → ℕ) : Prop :=
  if b then ∃ thread, f thread = 1 ∧ ∀ other, other ≠ thread → f other = 0 else ∀ thread, f thread = 0

variable {f : Thread → ℕ} {b : Bool}

omit [DecidableEq Thread] in
lemma OneAt.le_one (h : OneAt b f) (thread : Thread) : f thread ≤ 1 := by
  cases b with
  | false => exact (h thread).le.trans (Nat.zero_le 1)
  | true =>
    obtain ⟨drainer, hone, hzero⟩ := h
    by_cases hsame : thread = drainer
    · rw [hsame, hone]
    · exact (hzero thread hsame).le.trans (Nat.zero_le 1)

omit [DecidableEq Thread] in
lemma OneAt.unique (h : OneAt b f) {thread other : Thread} (hthread : f thread ≠ 0) (hother : f other ≠ 0) :
    b = true ∧ thread = other := by
  cases b with
  | false => exact absurd (h thread) hthread
  | true =>
    obtain ⟨drainer, -, hzero⟩ := h
    have hsame : thread = drainer := by
      by_contra hne
      exact hthread (hzero thread hne)
    have hsame' : other = drainer := by
      by_contra hne
      exact hother (hzero other hne)
    exact ⟨rfl, hsame.trans hsame'.symm⟩

lemma OneAt.elect (h : OneAt false f) : OneAt true (Function.update f thread (f thread + 1)) := by
  have hzero : ∀ other, f other = 0 := h
  refine ⟨thread, ?_, fun other hne => ?_⟩
  · rw [update_self, hzero]
  · rw [update_of_ne hne, hzero]

lemma OneAt.retire {n : ℕ} (h : OneAt b f) (hn : f thread = n + 1) :
    b = true ∧ OneAt false (Function.update f thread n) := by
  have hle := h.le_one thread
  have hpos : f thread ≠ 0 := by omega
  refine ⟨(h.unique hpos hpos).1, fun other => ?_⟩
  by_cases hsame : other = thread
  · rw [hsame, update_self]
    omega
  · rw [update_of_ne hsame]
    by_contra hne
    exact hsame (h.unique hne hpos).2

end

def topHolds : List (Frame σ Origin) → Bool
  | [] => false
  | frame :: _ => frame.holdsOrder

def drainCount (stack : List (Frame σ Origin)) : ℕ := stack.countP Frame.drains

lemma drainCount_cons {frame : Frame σ Origin} (h : frame.drains = true) (rest : List (Frame σ Origin)) :
    drainCount (frame :: rest) = drainCount rest + 1 := countP_cons_of_pos h

def pendingOf : List (Frame σ Origin) → List (MutationEnvelope Origin)
  | .mutated (some envelope) :: _ => [envelope]
  | _ => []

def inFlight (gateway : Gateway Thread σ Origin) : List (MutationEnvelope Origin) :=
  match gateway.order with
  | none => []
  | some thread => pendingOf (gateway.threads thread)

structure Inv (start : UInt64) (gateway : Gateway Thread σ Origin) : Prop where
  below : ∀ thread, ∀ frame ∈ (gateway.threads thread).tail, frame.isDelivery = true
  holder : ∀ thread, topHolds (gateway.threads thread) = true ↔ gateway.order = some thread
  drainer : OneAt gateway.draining fun thread => drainCount (gateway.threads thread)
  queued : gateway.queue ≠ [] → gateway.draining = true
  log : gateway.committed = gateway.delivered ++ (gateway.queue ++ gateway.inFlight)
  sequence : Consecutive start gateway.committed gateway.sequence

section

variable {stack : List (Frame σ Origin)}

lemma topHolds_of_deliveries (h : ∀ frame ∈ stack, frame.isDelivery = true) : topHolds stack = false := by
  cases stack with
  | nil => rfl
  | cons frame rest =>
    have htop := h frame mem_cons_self
    cases frame with
    | delivering envelope => rfl
    | _ => cases htop

lemma below_setStack (h : ∀ thread, ∀ frame ∈ (gateway.threads thread).tail, frame.isDelivery = true)
    (hstack : ∀ frame ∈ stack.tail, frame.isDelivery = true) (other : Thread) :
    ∀ frame ∈ ((gateway.setStack thread stack).threads other).tail, frame.isDelivery = true := by
  by_cases hsame : other = thread
  · rw [hsame, threads_setStack_self]
    exact hstack
  · rw [threads_setStack_of_ne hsame]
    exact h other

lemma holder_setStack (h : ∀ thread, topHolds (gateway.threads thread) = true ↔ gateway.order = some thread)
    (htop : topHolds stack = topHolds (gateway.threads thread)) (other : Thread) :
    topHolds ((gateway.setStack thread stack).threads other) = true ↔ gateway.order = some other := by
  by_cases hsame : other = thread
  · rw [hsame, threads_setStack_self, htop]
    exact h thread
  · rw [threads_setStack_of_ne hsame]
    exact h other

lemma inFlight_setStack (hfree : gateway.order ≠ some thread) :
    (gateway.setStack thread stack).inFlight = gateway.inFlight := by
  have horder : (gateway.setStack thread stack).order = gateway.order := rfl
  unfold inFlight
  rw [horder]
  split
  · rfl
  · rename_i holder hsome
    have hne : holder ≠ thread := fun hsame => hfree (by rw [hsome, hsame])
    rw [threads_setStack_of_ne hne]

omit [DecidableEq Thread] in
lemma inFlight_of_holder (h : gateway.order = some thread) : gateway.inFlight = pendingOf (gateway.threads thread) := by
  unfold inFlight
  rw [h]

lemma log_setStack_holder (horder : gateway.order = some thread)
    (hlog : gateway.committed = gateway.delivered ++ (gateway.queue ++ pendingOf stack)) :
    (gateway.setStack thread stack).committed = (gateway.setStack thread stack).delivered ++
      ((gateway.setStack thread stack).queue ++ (gateway.setStack thread stack).inFlight) := by
  have horder' : (gateway.setStack thread stack).order = some thread := horder
  rw [inFlight_of_holder horder', threads_setStack_self]
  exact hlog

lemma log_setStack_other (horder : gateway.order ≠ some thread)
    (hlog : gateway.committed = gateway.delivered ++ (gateway.queue ++ gateway.inFlight)) :
    (gateway.setStack thread stack).committed = (gateway.setStack thread stack).delivered ++
      ((gateway.setStack thread stack).queue ++ (gateway.setStack thread stack).inFlight) := by
  rw [inFlight_setStack horder]
  exact hlog

end

section

variable {start : UInt64} {frame : Frame σ Origin} {rest : List (Frame σ Origin)}

omit [DecidableEq Thread] in
lemma Inv.rest_deliveries (h : Inv start gateway) (htop : gateway.threads thread = frame :: rest) :
    ∀ below ∈ rest, below.isDelivery = true := by
  have hbelow := h.below thread
  rwa [htop] at hbelow

omit [DecidableEq Thread] in
lemma Inv.order_of_top (h : Inv start gateway) (htop : gateway.threads thread = frame :: rest)
    (hholds : frame.holdsOrder = true) : gateway.order = some thread := by
  rw [← h.holder thread, htop]
  exact hholds

omit [DecidableEq Thread] in
lemma Inv.order_ne_of_top (h : Inv start gateway) (htop : gateway.threads thread = frame :: rest)
    (hholds : frame.holdsOrder = false) : gateway.order ≠ some thread := by
  intro horder
  have htrue := (h.holder thread).mpr horder
  rw [htop] at htrue
  exact Bool.false_ne_true (hholds.symm.trans htrue)

lemma Moves.below (hmove : Moves gateway thread next) (h : Inv start gateway) (other : Thread) :
    ∀ frame ∈ (next.threads other).tail, frame.isDelivery = true := by
  cases hmove with
  | lock htop => exact below_setStack h.below (h.rest_deliveries htop) other
  | keep pool htop => exact below_setStack h.below (h.rest_deliveries htop) other
  | change pool envelope htop => exact below_setStack h.below (h.rest_deliveries htop) other
  | pass htop => exact below_setStack h.below (h.rest_deliveries htop) other
  | publish htop => exact below_setStack h.below (h.rest_deliveries htop) other
  | unlock htop =>
    rename_i elected rest
    refine below_setStack h.below (fun frame hframe => h.rest_deliveries htop frame ?_) other
    cases elected with
    | false => exact mem_of_mem_tail hframe
    | true => exact hframe
  | finish htop =>
    exact below_setStack h.below (fun frame hframe => h.rest_deliveries htop frame (mem_of_mem_tail hframe)) other
  | pop htop => exact below_setStack h.below (h.rest_deliveries htop) other
  | observed htop => exact below_setStack h.below (h.rest_deliveries htop) other

lemma Moves.holder (hmove : Moves gateway thread next) (h : Inv start gateway) (other : Thread) :
    topHolds (next.threads other) = true ↔ next.order = some other := by
  cases hmove with
  | lock htop hfree =>
    by_cases hsame : other = thread
    · rw [hsame, threads_setStack_self]
      exact ⟨fun _ => rfl, fun _ => rfl⟩
    · rw [threads_setStack_of_ne hsame]
      rw [h.holder other, hfree]
      exact ⟨fun hnone => absurd hnone (by simp), fun hsome => absurd (Option.some.inj hsome).symm hsame⟩
  | keep pool htop => exact holder_setStack h.holder (by rw [htop]; rfl) other
  | change pool envelope htop => exact holder_setStack h.holder (by rw [htop]; rfl) other
  | pass htop => exact holder_setStack h.holder (by rw [htop]; rfl) other
  | publish htop => exact holder_setStack h.holder (by rw [htop]; rfl) other
  | unlock htop =>
    rename_i elected rest
    change _ ↔ none = some other
    simp only [reduceCtorEq, iff_false, Bool.not_eq_true]
    by_cases hsame : other = thread
    · rw [hsame, threads_setStack_self]
      cases elected with
      | false => exact topHolds_of_deliveries (h.rest_deliveries htop)
      | true => rfl
    · rw [threads_setStack_of_ne hsame, ← Bool.not_eq_true]
      rw [h.holder other, h.order_of_top htop rfl]
      exact fun hsome => hsame (Option.some.inj hsome).symm
  | finish htop =>
    refine holder_setStack h.holder ?_ other
    rw [topHolds_of_deliveries (h.rest_deliveries htop), htop]
    rfl
  | pop htop => exact holder_setStack h.holder (by rw [htop]; rfl) other
  | observed htop => exact holder_setStack h.holder (by rw [htop]; rfl) other

lemma drainer_setStack {b : Bool} {stack : List (Frame σ Origin)}
    (h : OneAt b fun thread => drainCount (gateway.threads thread))
    (hcount : drainCount stack = drainCount (gateway.threads thread)) :
    OneAt b fun other => drainCount ((gateway.setStack thread stack).threads other) := by
  rw [map_setStack, hcount, update_eq_self]
  exact h

section

variable (hmove : Moves gateway thread next) (h : Inv start gateway)

include hmove h

lemma Moves.drainer : OneAt next.draining fun other => drainCount (next.threads other) := by
  cases hmove with
  | lock htop => exact drainer_setStack h.drainer (by rw [htop]; rfl)
  | keep pool htop => exact drainer_setStack h.drainer (by rw [htop]; rfl)
  | change pool envelope htop => exact drainer_setStack h.drainer (by rw [htop]; rfl)
  | pass htop => exact drainer_setStack h.drainer (by rw [htop]; rfl)
  | publish htop =>
    rename_i envelope rest
    have hdrainer := h.drainer
    cases hflag : gateway.draining with
    | true =>
      rw [hflag] at hdrainer
      exact drainer_setStack hdrainer (by rw [htop]; rfl)
    | false =>
      rw [hflag] at hdrainer
      have hcount : drainCount (.published true :: rest) = drainCount (gateway.threads thread) + 1 := by
        rw [htop]
        exact drainCount_cons rfl rest
      rw [map_setStack]
      change OneAt true (update _ thread (drainCount (.published true :: rest)))
      rw [hcount]
      exact hdrainer.elect
  | unlock htop =>
    rename_i elected rest
    refine drainer_setStack h.drainer ?_
    cases elected <;> (rw [htop]; rfl)
  | finish htop =>
    rw [map_setStack]
    refine (h.drainer.retire ?_).2
    rw [htop]
    exact drainCount_cons rfl _
  | pop htop => exact drainer_setStack h.drainer (by rw [htop]; rfl)
  | observed htop => exact drainer_setStack h.drainer (by rw [htop]; rfl)

lemma Moves.queued (hne : next.queue ≠ []) : next.draining = true := by
  cases hmove with
  | lock | keep | change | pass | unlock | observed => exact h.queued hne
  | publish htop => rfl
  | finish htop hqueue => exact absurd hqueue hne
  | pop htop hqueue => exact h.queued (by rw [hqueue]; exact cons_ne_nil _ _)

lemma Moves.log : next.committed = next.delivered ++ (next.queue ++ next.inFlight) := by
  have hlog := h.log
  cases hmove with
  | lock htop hfree =>
    have hnone : gateway.inFlight = [] := by rw [inFlight, hfree]
    rw [hnone] at hlog
    exact log_setStack_holder rfl hlog
  | keep pool htop =>
    have horder := h.order_of_top htop rfl
    rw [inFlight_of_holder horder, htop] at hlog
    exact log_setStack_holder horder hlog
  | change pool envelope htop =>
    have horder := h.order_of_top htop rfl
    rw [inFlight_of_holder horder, htop] at hlog
    have hlog : gateway.committed = gateway.delivered ++ (gateway.queue ++ []) := hlog
    refine log_setStack_holder horder ?_
    change gateway.committed ++ [envelope] = gateway.delivered ++ (gateway.queue ++ [envelope])
    rw [hlog, append_nil, append_assoc]
  | pass htop =>
    have horder := h.order_of_top htop rfl
    rw [inFlight_of_holder horder, htop] at hlog
    exact log_setStack_holder horder hlog
  | publish htop =>
    have horder := h.order_of_top htop rfl
    rw [inFlight_of_holder horder, htop] at hlog
    refine log_setStack_holder horder ?_
    change gateway.committed = gateway.delivered ++ (gateway.queue ++ _ ++ [])
    rw [hlog, append_nil]
    rfl
  | unlock htop =>
    rw [inFlight_of_holder (h.order_of_top htop rfl), htop] at hlog
    exact hlog
  | finish htop => exact log_setStack_other (h.order_ne_of_top htop rfl) hlog
  | pop htop hqueue =>
    rename_i envelope queue rest
    refine log_setStack_other (h.order_ne_of_top htop rfl) ?_
    change gateway.committed = gateway.delivered ++ [envelope] ++ (queue ++ gateway.inFlight)
    rw [hlog, hqueue, append_assoc, cons_append, singleton_append]
  | observed htop => exact log_setStack_other (h.order_ne_of_top htop rfl) hlog

lemma Moves.sequence : Consecutive start next.committed next.sequence := by
  cases hmove with
  | change pool envelope htop hbase hne => exact h.sequence.append hbase hne
  | _ => exact h.sequence

end

section

variable (h : Inv start gateway)

include h

lemma Inv.moves (hmove : Moves gateway thread next) : Inv start next :=
  { below := hmove.below h
    holder := hmove.holder h
    drainer := hmove.drainer h
    queued := hmove.queued h
    log := hmove.log h
    sequence := hmove.sequence h }

lemma Inv.call (hmay : mayCall (gateway.threads thread) = true) (call : CommitCall σ Origin) (bodiesWanted : Bool) :
    Inv start (gateway.setStack thread (.waiting call bodiesWanted :: gateway.threads thread)) := by
  have hdeliveries : ∀ frame ∈ gateway.threads thread, frame.isDelivery = true := by
    cases hstack : gateway.threads thread with
    | nil => exact fun frame hframe => absurd hframe not_mem_nil
    | cons top rest =>
      rw [hstack] at hmay
      refine forall_mem_cons.mpr ⟨?_, h.rest_deliveries hstack⟩
      cases top with
      | delivering envelope => rfl
      | _ => cases hmay
  have hfree : topHolds (gateway.threads thread) = false := topHolds_of_deliveries hdeliveries
  have horder : gateway.order ≠ some thread := fun horder =>
    Bool.false_ne_true (hfree.symm.trans ((h.holder thread).mpr horder))
  exact
    { below := below_setStack h.below hdeliveries
      holder := holder_setStack h.holder hfree.symm
      drainer := drainer_setStack h.drainer rfl
      queued := h.queued
      log := log_setStack_other horder h.log
      sequence := h.sequence }

lemma Inv.act (action : Action Thread σ Origin) : Inv start (act true gateway action) := by
  cases action with
  | call thread call =>
    rw [Gateway.act]
    split_ifs with hmay
    · exact h.call hmay call _
    · exact h
  | advance thread =>
    rw [Gateway.act]
    cases hadvance : gateway.advance true thread with
    | none => exact h
    | some next => exact h.moves (moves_of_advance hadvance)
  | attach => exact ⟨h.below, h.holder, h.drainer, h.queued, h.log, h.sequence⟩
  | touch f => exact ⟨h.below, h.holder, h.drainer, h.queued, h.log, h.sequence⟩

end

omit [DecidableEq Thread] in
lemma inv_new (pool : σ) (sequence : UInt64) (wantsBodies : Bool) :
    Inv sequence (new pool sequence wantsBodies : Gateway Thread σ Origin) where
  below := fun _ frame hframe => absurd hframe not_mem_nil
  holder := fun thread => ⟨fun h => absurd h Bool.false_ne_true, fun h => absurd h (by simp [new])⟩
  drainer := fun _ => rfl
  queued := fun h => absurd rfl h
  log := rfl
  sequence := rfl

lemma Inv.run (h : Inv start gateway) (actions : List (Action Thread σ Origin)) :
    Inv start (run true gateway actions) := by
  induction actions generalizing gateway with
  | nil => exact h
  | cons action rest ih => exact ih (h.act action)

end

section

variable {start : UInt64}

lemma blocked_of_advance {observer : Bool} (h : gateway.advance observer thread = none) :
    gateway.threads thread = [] ∨ topHolds (gateway.threads thread) = false ∧ gateway.order ≠ none := by
  unfold advance at h
  split at h
  · exact .inl ‹_›
  · rename_i hstack
    split_ifs at h with hfree
    rw [hstack]
    exact .inr ⟨rfl, mt Option.isNone_iff_eq_none.mpr hfree⟩
  · cases h
  · cases h
  · cases h
  · cases h
  · split at h <;> cases h
  · cases h

lemma Inv.exists_advance (h : Inv start gateway) (hbusy : ¬gateway.Quiet) :
    ∃ thread next, gateway.advance true thread = some next := by
  obtain ⟨busy, hbusy⟩ := not_forall.mp hbusy
  -- the holder of `commit_order` can go on, and without a holder everyone can
  obtain ⟨thread, hne, hfree⟩ : ∃ thread, gateway.threads thread ≠ [] ∧
      (topHolds (gateway.threads thread) = true ∨ gateway.order = none) := by
    cases horder : gateway.order with
    | none => exact ⟨busy, hbusy, .inr rfl⟩
    | some holder =>
      have hholds := (h.holder holder).mpr horder
      refine ⟨holder, fun hnil => ?_, .inl hholds⟩
      rw [hnil] at hholds
      cases hholds
  cases hadvance : gateway.advance true thread with
  | some next => exact ⟨thread, next, hadvance⟩
  | none =>
    rcases blocked_of_advance hadvance with hnil | ⟨hholds, horder⟩
    · exact absurd hnil hne
    · rw [hholds] at hfree
      exact absurd (hfree.resolve_left Bool.false_ne_true) horder

def stackWeight (stack : List (Frame σ Origin)) : ℕ := (stack.map Frame.weight).sum

def load (busy : Finset Thread) (gateway : Gateway Thread σ Origin) : ℕ :=
  ∑ thread ∈ busy, stackWeight (gateway.threads thread) + 3 * gateway.queue.length

variable {busy : Finset Thread}

lemma load_setStack (hmem : thread ∈ busy) (stack : List (Frame σ Origin)) :
    load busy (gateway.setStack thread stack) + stackWeight (gateway.threads thread) =
      load busy gateway + stackWeight stack := by
  have hsum : ∑ other ∈ busy, stackWeight ((gateway.setStack thread stack).threads other) =
      stackWeight stack + ∑ other ∈ busy \ {thread}, stackWeight (gateway.threads other) := by
    rw [map_setStack stackWeight stack, Finset.sum_update_of_mem hmem]
  have hold := Finset.sum_eq_add_sum_sdiff_singleton_of_mem hmem fun other => stackWeight (gateway.threads other)
  have hqueue : (gateway.setStack thread stack).queue = gateway.queue := rfl
  unfold load
  rw [hqueue]
  omega

lemma stackWeight_cons (frame : Frame σ Origin) (rest : List (Frame σ Origin)) :
    stackWeight (frame :: rest) = frame.weight + stackWeight rest := by
  rw [stackWeight, map_cons, sum_cons, ← stackWeight]

lemma load_setStack_lt {changed : Gateway Thread σ Origin} {stack : List (Frame σ Origin)}
    (hmem : thread ∈ busy) (hthreads : changed.threads = gateway.threads)
    (hlt : stackWeight stack + 3 * changed.queue.length <
      stackWeight (gateway.threads thread) + 3 * gateway.queue.length) :
    load busy (changed.setStack thread stack) < load busy gateway := by
  have hset : load busy (changed.setStack thread stack) + stackWeight (changed.threads thread) = _ :=
    load_setStack hmem stack
  have hchanged : load busy changed + 3 * gateway.queue.length = load busy gateway + 3 * changed.queue.length := by
    unfold load
    rw [hthreads]
    omega
  rw [hthreads] at hset
  omega

section

variable (hmove : Moves gateway thread next)

include hmove

lemma Moves.load_lt {busy : Finset Thread} (hmem : thread ∈ busy) : load busy next < load busy gateway := by
  cases hmove with
  | lock htop => exact load_setStack_lt hmem rfl (by rw [htop, stackWeight_cons, stackWeight_cons]; simp [weight])
  | keep pool htop =>
    exact load_setStack_lt hmem rfl (by rw [htop, stackWeight_cons, stackWeight_cons]; simp [weight])
  | change pool envelope htop =>
    exact load_setStack_lt hmem rfl (by rw [htop, stackWeight_cons, stackWeight_cons]; simp [weight])
  | pass htop => exact load_setStack_lt hmem rfl (by rw [htop, stackWeight_cons, stackWeight_cons]; simp [weight])
  | publish htop =>
    refine load_setStack_lt hmem rfl ?_
    rw [htop, stackWeight_cons, stackWeight_cons, length_append, length_singleton, weight, weight]
    omega
  | unlock htop =>
    rename_i elected rest
    refine load_setStack_lt hmem rfl ?_
    rw [htop, stackWeight_cons]
    cases elected with
    | false => simp [weight]
    | true => simp [stackWeight_cons, weight]
  | finish htop => exact load_setStack_lt hmem rfl (by rw [htop, stackWeight_cons]; simp [weight])
  | pop htop hqueue =>
    refine load_setStack_lt hmem rfl ?_
    rw [htop, stackWeight_cons, stackWeight_cons, hqueue, length_cons, weight, weight]
    dsimp only
    omega
  | observed htop =>
    exact load_setStack_lt hmem rfl (by rw [htop, stackWeight_cons, stackWeight_cons]; simp [weight])

lemma Moves.stack_ne_nil : gateway.threads thread ≠ [] := by
  cases hmove with
  | lock htop | keep _ htop | change _ _ htop | pass htop | publish htop | unlock htop | finish htop | pop htop
  | observed htop =>
    rw [htop]
    exact cons_ne_nil _ _

lemma Moves.other_stack {other : Thread} (hne : other ≠ thread) : next.threads other = gateway.threads other := by
  cases hmove <;> exact threads_setStack_of_ne hne _

end

def BusyIn (busy : Finset Thread) (gateway : Gateway Thread σ Origin) : Prop :=
  ∀ thread, thread ∉ busy → gateway.threads thread = []

section

variable (h : BusyIn busy gateway)

include h

lemma BusyIn.mem (hmove : Moves gateway thread next) : thread ∈ busy := by
  by_contra hmem
  exact hmove.stack_ne_nil (h thread hmem)

lemma BusyIn.moves (hmove : Moves gateway thread next) : BusyIn busy next := by
  intro other hother
  have hne : other ≠ thread := fun hsame => hother (hsame ▸ h.mem hmove)
  rw [hmove.other_stack hne]
  exact h other hother

lemma BusyIn.act (action : Action Thread σ Origin) : ∃ busy', BusyIn busy' (act true gateway action) := by
  cases action with
  | call thread call =>
    rw [Gateway.act]
    split_ifs with hmay
    · refine ⟨insert thread busy, fun other hother => ?_⟩
      rw [Finset.mem_insert, not_or] at hother
      rw [threads_setStack_of_ne hother.1]
      exact h other hother.2
    · exact ⟨busy, h⟩
  | advance thread =>
    rw [Gateway.act]
    cases hadvance : gateway.advance true thread with
    | none => exact ⟨busy, h⟩
    | some next => exact ⟨busy, h.moves (moves_of_advance hadvance)⟩
  | attach => exact ⟨busy, h⟩
  | touch f => exact ⟨busy, h⟩

lemma BusyIn.run (actions : List (Action Thread σ Origin)) : ∃ busy', BusyIn busy' (run true gateway actions) := by
  induction actions generalizing gateway busy with
  | nil => exact ⟨busy, h⟩
  | cons action rest ih =>
    obtain ⟨busy', h'⟩ := h.act action
    exact ih h'

end

def Follows (next gateway : Gateway Thread σ Origin) : Prop := ∃ thread, gateway.advance true thread = some next

lemma BusyIn.acc (h : BusyIn busy gateway) : Acc Follows gateway := by
  induction hload : load busy gateway using Nat.strong_induction_on generalizing gateway with
  | _ n ih =>
    refine Acc.intro gateway fun next ⟨thread, hadvance⟩ => ?_
    have hmove := moves_of_advance hadvance
    exact ih (load busy next) (hload ▸ hmove.load_lt (h.mem hmove)) (h.moves hmove) rfl

end

section

variable {start : UInt64}

lemma isDelivery_le_drains (stack : List (Frame σ Origin)) : stack.countP Frame.isDelivery ≤ drainCount stack := by
  refine countP_mono_left fun frame _ hframe => ?_
  cases frame with
  | delivering envelope => rfl
  | _ => cases hframe

omit [DecidableEq Thread] in
lemma Inv.quiet (h : Inv start gateway) (hquiet : gateway.Quiet) :
    gateway.queue = [] ∧ gateway.draining = false ∧ gateway.delivered = gateway.committed := by
  have hdraining : gateway.draining = false := by
    by_contra htrue
    have hdrainer := h.drainer
    rw [Bool.not_eq_false] at htrue
    rw [htrue] at hdrainer
    obtain ⟨thread, hone, -⟩ := hdrainer
    change drainCount (gateway.threads thread) = 1 at hone
    rw [hquiet thread] at hone
    cases hone
  have hqueue : gateway.queue = [] := by
    by_contra hne
    exact Bool.false_ne_true (hdraining.symm.trans (h.queued hne))
  have hflight : gateway.inFlight = [] := by
    unfold inFlight
    split
    · rfl
    · rename_i thread _
      rw [hquiet thread]
      rfl
  have hlog := h.log
  rw [hqueue, hflight, append_nil, append_nil] at hlog
  exact ⟨hqueue, hdraining, hlog.symm⟩

/-- In every interleaving, what was delivered is the first part of what was committed, in that order, and the numbers of
the committed mutations follow each other; at most one delivery runs. When all calls have returned, everything was
delivered and the queue is empty; until then some thread can go on, and without further calls they all return. -/
theorem mutation_delivery (pool : σ) (sequence : UInt64) (wantsBodies : Bool)
    (actions : List (Action Thread σ Origin)) :
    let gateway := run true (new pool sequence wantsBodies) actions
    (gateway.delivered <+: gateway.committed ∧ Consecutive sequence gateway.committed gateway.sequence ∧
      (sequence.toNat + changeCount gateway.committed < 2 ^ 64 →
        (gateway.delivered.map fun envelope => envelope.result.sequenceBase.toNat).Pairwise (· < ·))) ∧
    ((∀ thread, (gateway.threads thread).countP Frame.isDelivery ≤ 1) ∧
      ∀ thread other, (gateway.threads thread).countP Frame.isDelivery ≠ 0 →
        (gateway.threads other).countP Frame.isDelivery ≠ 0 → thread = other) ∧
    (gateway.Quiet → gateway.queue = [] ∧ gateway.draining = false ∧ gateway.delivered = gateway.committed) ∧
    (¬gateway.Quiet → ∃ next, Follows next gateway) ∧ Acc Follows gateway := by
  intro gateway
  have h : Inv sequence gateway := (inv_new pool sequence wantsBodies).run actions
  have hdelivered : gateway.delivered <+: gateway.committed := ⟨_, h.log.symm⟩
  refine ⟨⟨hdelivered, h.sequence, fun hroom => ?_⟩, ⟨fun thread => ?_, fun thread other hthread hother => ?_⟩, h.quiet,
    fun hbusy => ?_, ?_⟩
  · exact (h.sequence.increasing hroom).1.sublist (hdelivered.sublist.map _)
  · exact (isDelivery_le_drains _).trans (h.drainer.le_one thread)
  · refine (h.drainer.unique ?_ ?_).2
    · exact Nat.ne_of_gt ((Nat.pos_of_ne_zero hthread).trans_le (isDelivery_le_drains _))
    · exact Nat.ne_of_gt ((Nat.pos_of_ne_zero hother).trans_le (isDelivery_le_drains _))
  · obtain ⟨thread, next, hadvance⟩ := h.exists_advance hbusy
    exact ⟨next, thread, hadvance⟩
  · have hnew : BusyIn ∅ (new pool sequence wantsBodies : Gateway Thread σ Origin) := fun _ _ => rfl
    obtain ⟨busy, hbusy⟩ := hnew.run actions
    exact hbusy.acc

end

end Gateway

end BitcoinRs.Mempool
