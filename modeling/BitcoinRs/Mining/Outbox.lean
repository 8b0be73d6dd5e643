import BitcoinRs.Primitives
import Mathlib.Algebra.Order.BigOperators.Group.List
import Mathlib.Data.List.Induction

/-!
The pool's outbox of ledger writes, under any number of calls of `submit` and `drain_outbox`. A step of a call is one
of its accesses to what the calls share; what the ledger and the job book answer is chosen with the step.
-/

namespace BitcoinRs.Mining

open List

def shareRecordBytes : ℕ := 256
def blockRecordFramingBytes : ℕ := 512
def maxBlockBytes : ℕ := 4000000

def reserveItems : ℕ := 2
def reserveBytes : ℕ := shareRecordBytes + blockRecordFramingBytes + maxBlockBytes

abbrev RawLength := { length : ℕ // length ≤ maxBlockBytes }

inductive Pending
  | share (hash : BlockHash)
  | blockRecord (hash : BlockHash) (raw : RawLength)
  deriving DecidableEq

def Pending.bytesCost : Pending → ℕ
  | .share _ => shareRecordBytes
  | .blockRecord _ raw => blockRecordFramingBytes + raw.val

inductive ShareOutcome
  | share (hash : BlockHash)
  | block (hash : BlockHash) (raw : RawLength)

def ShareOutcome.writes : ShareOutcome → List Pending
  | .share hash => [.share hash]
  | .block hash raw => [.share hash, .blockRecord hash raw]

inductive RecordOutcome
  | recorded
  | alreadyRecorded
  | rejected
  deriving DecidableEq

structure Outbox where
  items : List Pending
  totalBytes : ℕ
  inFlight : ℕ
  reservedItems : ℕ
  reservedBytes : ℕ

structure OutboxReservation where
  items : ℕ
  bytes : ℕ

structure Limits where
  maxItems : ℕ
  maxBytes : ℕ

namespace Outbox

def reserve (limits : Limits) (outbox : Outbox) : Option (Outbox × OutboxReservation) :=
  if limits.maxItems < outbox.items.length + outbox.reservedItems + reserveItems ∨
      limits.maxBytes < outbox.totalBytes + outbox.reservedBytes + reserveBytes then none
  else some ({ outbox with
    reservedItems := outbox.reservedItems + reserveItems
    reservedBytes := outbox.reservedBytes + reserveBytes }, ⟨reserveItems, reserveBytes⟩)

def commitReserved (limits : Limits) (outbox : Outbox) (reservation : OutboxReservation) (item : Pending) :
    Option (Outbox × OutboxReservation) :=
  if reservation.bytes < item.bytesCost ∨ outbox.reservedItems = 0 ∨
      limits.maxBytes < outbox.totalBytes + item.bytesCost then none
  else some ({ outbox with
    reservedItems := outbox.reservedItems - 1
    reservedBytes := outbox.reservedBytes - item.bytesCost
    totalBytes := outbox.totalBytes + item.bytesCost
    items := outbox.items ++ [item] }, ⟨reservation.items - 1, reservation.bytes - item.bytesCost⟩)

def release (outbox : Outbox) (reservation : OutboxReservation) : Outbox :=
  { outbox with
    reservedItems := outbox.reservedItems - reservation.items
    reservedBytes := outbox.reservedBytes - reservation.bytes }

end Outbox

inductive Fate
  | answered (outcome : RecordOutcome)
  | queued
  deriving DecidableEq

inductive Task
  | reserve
  | validate
  | deliver
  | attempt
  | commit
  | leave
  | finish

inductive Phase
  | enter (next : Task)
  | claim (next : Task)
  | loop (next : Task)
  | holding (item : Pending) (next : Task)
  | closing (next : Task)
  | ready (next : Task)

/-- A call with its reservation, the writes it has made, those it has still to deliver and the fate of the others;
`full` once a write has been refused with `OutboxFull`. -/
structure Call where
  phase : Phase
  reservation : OutboxReservation
  made : List Pending
  todo : List Pending
  fates : List (Pending × Fate)
  full : Bool

structure Core where
  outbox : Outbox
  pendingCount : ℕ
  draining : Bool
  drained : List Pending

structure Choice where
  ledger : Option RecordOutcome
  validation : Option ShareOutcome

def Phase.next : Phase → Task
  | .enter next | .claim next | .loop next | .holding _ next | .closing next | .ready next => next

namespace Call

def start (task : Task) : Call :=
  { phase := .enter task, reservation := ⟨0, 0⟩, made := [], todo := [], fates := [], full := false }

variable (call : Call)

def goto (phase : Phase) : Call := { call with phase }

def settle (fate : Fate) : Call :=
  match call.todo with
  | [] => call
  | item :: todo =>
    { call with todo, fates := call.fates ++ [(item, fate)], phase := if todo =
      [] then .ready .leave else .enter .deliver }

def step (limits : Limits) (core : Core) (choice : Choice) (call : Call) : Core × Call :=
  match call.phase with
  | .enter next => (core, call.goto (if core.pendingCount = 0 then .ready next else .claim next))
  | .claim next =>
    if core.draining then (core, call.goto (.ready next)) else ({ core with draining := true }, call.goto (.loop next))
  | .loop next =>
    match core.outbox.items with
    | [] => ({ core with outbox := { core.outbox with inFlight := 0 }, pendingCount := 0 }, call.goto (.closing next))
    | item :: items => ({ core with
        outbox := { core.outbox with items, totalBytes := core.outbox.totalBytes - item.bytesCost, inFlight := 1 }
        pendingCount := items.length + 1 }, call.goto (.holding item next))
  | .holding item next =>
    match choice.ledger with
    | some _ => ({ core with
        outbox := { core.outbox with inFlight := 0 }
        pendingCount := core.outbox.items.length
        drained := item :: core.drained }, call.goto (.loop next))
    | none => ({ core with
        outbox := { core.outbox with
          items := item :: core.outbox.items, totalBytes := core.outbox.totalBytes + item.bytesCost, inFlight := 0 }
        pendingCount := core.outbox.items.length + 1 }, call.goto (.closing next))
  | .closing next => ({ core with draining := false }, call.goto (.ready next))
  | .ready .reserve =>
    match core.outbox.reserve limits with
    | none => (core, call.goto (.ready .finish))
    | some (outbox, reservation) => ({ core with outbox }, { call with reservation, phase := .ready .validate })
  | .ready .validate =>
    match choice.validation with
    | none => (core, call.goto (.ready .leave))
    | some outcome => (core, { call with made := outcome.writes, todo := outcome.writes, phase := .enter .deliver })
  | .ready .deliver => (core, call.goto (.ready (if core.pendingCount = 0 then .attempt else .commit)))
  | .ready .attempt =>
    match choice.ledger with
    | some outcome => (core, call.settle (.answered outcome))
    | none => (core, call.goto (.ready .commit))
  | .ready .commit =>
    match call.todo with
    | [] => (core, call)
    | item :: _ =>
      match core.outbox.commitReserved limits call.reservation item with
      | none => (core, { call with full := true, phase := .ready .leave })
      | some (outbox, reservation) => ({ core with outbox, pendingCount := outbox.items.length + outbox.inFlight },
          { call with reservation }.settle .queued)
  | .ready .leave => ({ core with outbox := core.outbox.release call.reservation },
      { call with reservation := ⟨0, 0⟩, phase := .ready .finish })
  | .ready .finish => (core, call)

def held : List Pending :=
  match call.phase with
  | .holding item _ => [item]
  | _ => []

def drains : ℕ :=
  match call.phase with
  | .loop _ | .holding _ _ | .closing _ => 1
  | _ => 0

def queued : List Pending := (call.fates.filter fun entry => entry.2 = .queued).map Prod.fst

end Call

structure State where
  core : Core
  calls : List Call

inductive Action
  | submit
  | drain
  | advance (i : ℕ) (choice : Choice)

def heldCost (call : Call) : ℕ := (call.held.map Pending.bytesCost).sum

def total (f : Call → ℕ) (calls : List Call) : ℕ := (calls.map f).sum

namespace State

def new : State :=
  { core := { outbox := ⟨[], 0, 0, 0, 0⟩, pendingCount := 0, draining := false, drained := [] }, calls := [] }

variable (limits : Limits) (s : State)

def act : Action → State
  | .submit => { s with calls := s.calls ++ [.start .reserve] }
  | .drain => { s with calls := s.calls ++ [.start .finish] }
  | .advance i choice =>
    match s.calls[i]? with
    | none => s
    | some call =>
      let next := call.step limits s.core choice
      { core := next.1, calls := s.calls.set i next.2 }

def run (actions : List Action) : State := actions.foldl (act limits) new

def heldBytes : ℕ := total heldCost s.calls

/-- The outbox keeps its reservations: the bounds hold, no validated share has been refused, each write of a call that
has returned has one fate, and what the calls have queued is in the outbox, in a hand or with the ledger, once. -/
structure Good (limits : Limits) (s : State) : Prop where
  items : s.core.outbox.items.length + s.core.outbox.inFlight + s.core.outbox.reservedItems ≤ limits.maxItems
  bytes : s.core.outbox.totalBytes + s.heldBytes + s.core.outbox.reservedBytes ≤ limits.maxBytes
  accepted : ∀ call ∈ s.calls, call.full = false
  settled : ∀ call ∈ s.calls, call.phase = .ready .finish → call.fates.map Prod.fst = call.made
  once : ∀ item, s.core.outbox.items.count item + s.core.drained.count item +
    total (fun call => call.held.count item) s.calls = total (fun call => call.queued.count item) s.calls

def Grants (s t : State) : Prop := s.core.outbox.reservedItems < t.core.outbox.reservedItems

def Room : Prop :=
  s.core.outbox.items.length + s.core.outbox.inFlight + s.core.outbox.reservedItems + reserveItems ≤ limits.maxItems ∧
    s.core.outbox.totalBytes + s.heldBytes + s.core.outbox.reservedBytes + reserveBytes ≤ limits.maxBytes

end State

section

variable {f : Call → ℕ} {call next : Call} {rest calls : List Call}

@[simp] lemma total_cons : total f (call :: rest) = f call + total f rest := by simp [total]

lemma total_perm (h : calls.Perm rest) : total f calls = total f rest := (h.map f).sum_eq

end

namespace Call

def Covered (call : Call) : Prop :=
  call.todo.length ≤ call.reservation.items ∧ (call.todo.map Pending.bytesCost).sum ≤ call.reservation.bytes

def AtTask (call : Call) : Task → Prop
  | .reserve => call.reservation = ⟨0, 0⟩ ∧ call.todo = [] ∧ call.fates = [] ∧ call.full = false
  | .validate => call.todo = [] ∧ call.fates = [] ∧ call.reservation = ⟨reserveItems, reserveBytes⟩ ∧ call.full = false
  | .deliver | .attempt | .commit => call.full = false ∧ call.todo ≠ [] ∧ call.Covered
  | .leave => call.full = false → call.todo = []
  | .finish => call.reservation = ⟨0, 0⟩ ∧ (call.full = false → call.todo = [])

structure Fits (call : Call) : Prop where
  made : call.made = call.fates.map Prod.fst ++ call.todo
  task : call.AtTask call.phase.next

variable {call : Call} {limits : Limits} {core : Core} {choice : Choice}

lemma held_le_drains (call : Call) : call.held.length ≤ call.drains := by
  unfold held drains
  cases call.phase <;> simp

lemma sum_writes_le (outcome : ShareOutcome) :
    outcome.writes.length ≤ reserveItems ∧ (outcome.writes.map Pending.bytesCost).sum ≤ reserveBytes := by
  cases outcome with
  | share hash => simp [ShareOutcome.writes, Pending.bytesCost, reserveItems, reserveBytes, Nat.add_assoc]
  | block hash raw =>
    simp [ShareOutcome.writes, Pending.bytesCost, reserveItems, reserveBytes]
    omega

variable {phase : Phase}

lemma settle_fits {item : Pending} {made todo : List Pending} {fates : List (Pending × Fate)}
    {full : Bool} {reservation : OutboxReservation} (hmade : made = fates.map Prod.fst ++ item :: todo)
    (hfull : full = false) (hitems : todo.length ≤ reservation.items)
    (hbytes : (todo.map Pending.bytesCost).sum ≤ reservation.bytes) (fate : Fate) :
    (Call.settle ⟨phase, reservation, made, item :: todo, fates, full⟩ fate).Fits := by
  dsimp only [settle]
  constructor
  · simp [hmade]
  · cases todo with
    | nil => simp [Phase.next, AtTask]
    | cons next todo => exact ⟨hfull, by simp, hitems, hbytes⟩

lemma atTask_goto {task : Task} : (call.goto phase).AtTask task ↔ call.AtTask task := by
  cases task <;> exact Iff.rfl

lemma Fits.step (h : call.Fits) : (call.step limits core choice).2.Fits := by
  obtain ⟨hmade, htask⟩ := h
  have hsame : ∀ phase : Phase, call.AtTask phase.next → (call.goto phase).Fits := fun phase hphase =>
    ⟨hmade, atTask_goto.mpr hphase⟩
  obtain ⟨phase, reservation, made, todo, fates, full⟩ := call
  cases phase with
  | enter next =>
    apply hsame
    split_ifs <;> exact htask
  | claim next =>
    dsimp only [Call.step]
    split_ifs <;> exact hsame _ htask
  | loop next =>
    dsimp only [Call.step]
    cases core.outbox.items <;> exact hsame _ htask
  | holding item next =>
    dsimp only [Call.step]
    cases choice.ledger <;> exact hsame _ htask
  | closing next => exact hsame _ htask
  | ready task =>
    cases task with
    | reserve =>
      obtain ⟨hreservation, htodo, hfates, hfull⟩ := htask
      dsimp only [Call.step, Outbox.reserve]
      split_ifs
      · exact hsame _ ⟨hreservation, fun _ => htodo⟩
      · exact ⟨hmade, htodo, hfates, rfl, hfull⟩
    | validate =>
      obtain ⟨htodo, hfates, hreservation, hfull⟩ := htask
      dsimp only [Call.step]
      cases choice.validation with
      | none => exact hsame _ (fun _ => htodo)
      | some outcome =>
        refine ⟨by simp_all, hfull, ?_, ?_⟩
        · cases outcome <;> simp [ShareOutcome.writes]
        · cases hreservation
          exact sum_writes_le outcome
    | deliver =>
      apply hsame
      split_ifs <;> exact htask
    | attempt =>
      dsimp only [Call.step]
      cases choice.ledger with
      | none => exact hsame _ htask
      | some outcome =>
        obtain ⟨hfull, hne, hitems, hbytes⟩ := htask
        obtain ⟨item, rest, rfl⟩ := exists_cons_of_ne_nil hne
        simp at hitems hbytes
        exact settle_fits hmade hfull (by omega) (by omega) (.answered outcome)
    | commit =>
      obtain ⟨hfull, hne, hitems, hbytes⟩ := htask
      obtain ⟨item, rest, rfl⟩ := exists_cons_of_ne_nil hne
      simp at hitems hbytes
      dsimp only [Call.step, Outbox.commitReserved]
      split_ifs
      · exact ⟨hmade, fun hfull => by cases hfull⟩
      · exact settle_fits hmade hfull (by dsimp only; omega) (by dsimp only; omega) .queued
    | leave => exact ⟨hmade, rfl, htask⟩
    | finish => exact ⟨hmade, htask⟩

end Call

structure Shares (core : Core) (call : Call) : Prop where
  fits : call.Fits
  bytes : core.outbox.totalBytes = (core.outbox.items.map Pending.bytesCost).sum
  items_le : call.reservation.items ≤ core.outbox.reservedItems
  bytes_le : call.reservation.bytes ≤ core.outbox.reservedBytes
  inFlight : call.drains = 1 → core.outbox.inFlight = call.held.length
  draining : call.drains = 1 → core.draining = true

def loadItems (core : Core) : ℕ := core.outbox.items.length + core.outbox.inFlight + core.outbox.reservedItems

structure Moved (limits : Limits) (core core' : Core) (call call' : Call) : Prop where
  bytes : core'.outbox.totalBytes = (core'.outbox.items.map Pending.bytesCost).sum
  reservedItems : core'.outbox.reservedItems + call.reservation.items =
    core.outbox.reservedItems + call'.reservation.items
  reservedBytes : core'.outbox.reservedBytes + call.reservation.bytes =
    core.outbox.reservedBytes + call'.reservation.bytes
  inFlight : core'.outbox.inFlight + call.held.length = core.outbox.inFlight + call'.held.length
  draining : core'.draining.toNat + call.drains = core.draining.toNat + call'.drains
  once : ∀ item, core'.outbox.items.count item + core'.drained.count item + call'.held.count item +
    call.queued.count item = core.outbox.items.count item + core.drained.count item + call.held.count item +
      call'.queued.count item
  -- only a granted reservation adds to the load
  load : loadItems core' ≤ loadItems core ∧ core'.outbox.totalBytes + heldCost call' + core'.outbox.reservedBytes ≤
      core.outbox.totalBytes + heldCost call + core.outbox.reservedBytes ∧
      core'.outbox.reservedItems ≤ core.outbox.reservedItems ∨
    loadItems core' = loadItems core + reserveItems ∧ core'.outbox.totalBytes + heldCost call' +
      core'.outbox.reservedBytes = core.outbox.totalBytes + heldCost call + core.outbox.reservedBytes + reserveBytes ∧
      core.outbox.reservedItems < core'.outbox.reservedItems
  full : call'.full = call.full ∨
    limits.maxBytes < core.outbox.totalBytes + heldCost call + core.outbox.reservedBytes

section

variable {limits : Limits} {core : Core} {call call' : Call} {choice : Choice}

lemma Moved.idle (h : Shares core call) (hreservation : call'.reservation = call.reservation)
    (hheld : call'.held = call.held) (hdrains : call'.drains = call.drains) (hqueued : call'.queued = call.queued)
    (hfull : call'.full = call.full) : Moved limits core core call call' := by
  constructor
  · exact h.bytes
  all_goals simp [heldCost, hreservation, hheld, hdrains, hqueued, hfull]

attribute [local simp] Call.goto Call.held Call.drains Call.queued heldCost loadItems

variable (limits choice) in
lemma Shares.step (h : Shares core call) :
    Moved limits core (call.step limits core choice).1 call (call.step limits core choice).2 := by
  obtain ⟨phase, reservation, made, todo, fates, full⟩ := call
  cases phase with
  | enter next =>
    dsimp only [Call.step]
    split_ifs <;> exact Moved.idle h rfl rfl rfl rfl rfl
  | claim next =>
    dsimp only [Call.step]
    split_ifs with hdraining
    · exact Moved.idle h rfl rfl rfl rfl rfl
    · constructor <;> simp [hdraining]
      exact h.bytes
  | loop next =>
    have hin : core.outbox.inFlight = 0 := h.inFlight rfl
    have htotal := h.bytes
    dsimp only [Call.step]
    cases hitems : core.outbox.items with
    | nil =>
      rw [hitems] at htotal
      constructor <;> simp [hitems, hin, htotal]
    | cons item items =>
      rw [hitems] at htotal
      simp at htotal
      constructor <;>
        simp [hitems, hin, htotal, count_cons, Nat.add_comm, Nat.add_left_comm, Nat.add_assoc]
  | holding item next =>
    have hin : core.outbox.inFlight = 1 := h.inFlight rfl
    have htotal := h.bytes
    dsimp only [Call.step]
    cases choice.ledger with
    | some outcome =>
      constructor <;>
        simp [hin, htotal, count_cons, Nat.add_comm, Nat.add_assoc]
    | none =>
      constructor <;>
        simp [hin, htotal, count_cons, Nat.add_comm, Nat.add_left_comm, Nat.add_assoc]
  | closing next =>
    have hdraining := h.draining rfl
    constructor <;> simp [Call.step, hdraining]
    exact h.bytes
  | ready task =>
    cases task with
    | reserve =>
      have hreservation := h.fits.task.1
      dsimp only at hreservation
      dsimp only [Call.step, Outbox.reserve]
      split_ifs
      · exact Moved.idle h rfl rfl rfl rfl rfl
      · constructor <;>
          simp [hreservation, h.bytes, reserveItems, Nat.add_assoc]
    | validate =>
      dsimp only [Call.step]
      cases choice.validation <;> exact Moved.idle h rfl rfl rfl rfl rfl
    | deliver =>
      dsimp only [Call.step]
      split_ifs <;> exact Moved.idle h rfl rfl rfl rfl rfl
    | attempt =>
      dsimp only [Call.step]
      cases choice.ledger with
      | none => exact Moved.idle h rfl rfl rfl rfl rfl
      | some outcome =>
        obtain ⟨item, rest, rfl⟩ := exists_cons_of_ne_nil h.fits.task.2.1
        dsimp only [Call.settle]
        split_ifs <;> exact Moved.idle h rfl rfl rfl (by simp [Call.queued]) rfl
    | commit =>
      obtain ⟨item, rest, rfl⟩ := exists_cons_of_ne_nil h.fits.task.2.1
      have hitems := h.fits.task.2.2.1
      have hbytes := h.fits.task.2.2.2
      have htotal := h.bytes
      have hle := h.items_le
      have hble := h.bytes_le
      simp at hitems hbytes hle hble
      dsimp only [Call.step, Outbox.commitReserved]
      split_ifs with hrefused
      · constructor <;> simp
        · exact htotal
        · omega
      · dsimp only [Call.settle]
        split_ifs
        all_goals
          constructor <;>
            simp [htotal, count_append]
          all_goals omega
    | leave =>
      have hle := h.items_le
      have hble := h.bytes_le
      dsimp only at hle hble
      constructor <;> simp [Call.step, Outbox.release]
      all_goals first | omega | exact h.bytes
    | finish => exact Moved.idle h rfl rfl rfl rfl rfl

end

structure Inv (core : Core) (calls : List Call) : Prop where
  fits : ∀ call ∈ calls, call.Fits
  bytes : core.outbox.totalBytes = (core.outbox.items.map Pending.bytesCost).sum
  reservedItems : core.outbox.reservedItems = total (fun call => call.reservation.items) calls
  reservedBytes : core.outbox.reservedBytes = total (fun call => call.reservation.bytes) calls
  inFlight : core.outbox.inFlight = total (fun call => call.held.length) calls
  draining : core.draining.toNat = total Call.drains calls
  once : ∀ item, core.outbox.items.count item + core.drained.count item +
    total (fun call => call.held.count item) calls = total (fun call => call.queued.count item) calls

namespace Inv

variable {limits : Limits} {core core' : Core} {call call' : Call} {rest calls : List Call}

lemma perm (h : Inv core calls) (hperm : calls.Perm rest) : Inv core rest := by
  constructor
  · exact fun call hcall => h.fits call (hperm.mem_iff.mpr hcall)
  · exact h.bytes
  all_goals simp only [← total_perm hperm]
  · exact h.reservedItems
  · exact h.reservedBytes
  · exact h.inFlight
  · exact h.draining
  · exact h.once

lemma shares (h : Inv core (call :: rest)) : Shares core call := by
  have hheld : total (fun call => call.held.length) rest ≤ total Call.drains rest :=
    sum_le_sum (fun other _ => other.held_le_drains)
  have hitems := h.reservedItems
  have hbytes := h.reservedBytes
  have hin := h.inFlight
  have hdraining := h.draining
  have hone := Bool.toNat_le core.draining
  simp only [total_cons] at hitems hbytes hin hdraining
  constructor
  · exact h.fits call mem_cons_self
  · exact h.bytes
  · omega
  · omega
  · omega
  · intro hdrains
    cases hflag : core.draining with
    | true => rfl
    | false =>
      simp only [hflag, Bool.toNat_false] at hdraining
      omega

lemma moved (h : Inv core (call :: rest)) (hmoved : Moved limits core core' call call') (hfits : call'.Fits) :
    Inv core' (call' :: rest) := by
  constructor
  · exact forall_mem_cons.mpr ⟨hfits, (forall_mem_cons.mp h.fits).2⟩
  · exact hmoved.bytes
  · have := h.reservedItems
    have := hmoved.reservedItems
    simp only [total_cons] at *
    omega
  · have := h.reservedBytes
    have := hmoved.reservedBytes
    simp only [total_cons] at *
    omega
  · have := h.inFlight
    have := hmoved.inFlight
    simp only [total_cons] at *
    omega
  · have := h.draining
    have := hmoved.draining
    simp only [total_cons] at *
    omega
  · intro item
    have := h.once item
    have := hmoved.once item
    simp only [total_cons] at *
    omega

lemma started (h : Inv core calls) {task : Task} (hfits : (Call.start task).Fits) :
    Inv core (Call.start task :: calls) := by
  constructor
  · exact forall_mem_cons.mpr ⟨hfits, h.fits⟩
  · exact h.bytes
  all_goals simp [Call.start, Call.held, Call.drains, Call.queued]
  · exact h.reservedItems
  · exact h.reservedBytes
  · exact h.inFlight
  · exact h.draining
  · exact h.once

end Inv

section

variable (limits : Limits)

lemma State.act_cases (s : State) (a : Action) :
    s.act limits a = s ∨
    (∃ task, (Call.start task).Fits ∧ (s.act limits a).core = s.core ∧
      (s.act limits a).calls.Perm (Call.start task :: s.calls)) ∨
    ∃ call rest choice, s.calls.Perm (call :: rest) ∧ (s.act limits a).core = (call.step limits s.core choice).1 ∧
      (s.act limits a).calls.Perm ((call.step limits s.core choice).2 :: rest) := by
  cases a with
  | submit =>
    refine .inr (.inl ⟨.reserve, ⟨rfl, rfl, rfl, rfl, rfl⟩, rfl, ?_⟩)
    exact perm_append_singleton _ _
  | drain =>
    refine .inr (.inl ⟨.finish, ⟨rfl, rfl, fun _ => rfl⟩, rfl, ?_⟩)
    exact perm_append_singleton _ _
  | advance i choice =>
    dsimp only [State.act]
    cases hcall : s.calls[i]? with
    | none => exact .inl rfl
    | some call =>
      obtain ⟨hi, rfl⟩ := List.getElem?_eq_some_iff.mp hcall
      exact .inr (.inr ⟨_, s.calls.eraseIdx i, choice, (getElem_cons_eraseIdx_perm hi).symm, rfl,
        set_perm_cons_eraseIdx hi _⟩)

lemma State.inv_act {s : State} (h : Inv s.core s.calls) (a : Action) :
    Inv (s.act limits a).core (s.act limits a).calls := by
  rcases s.act_cases limits a with hsame | ⟨task, hfits, hcore, hcalls⟩ | ⟨call, rest, choice, hbefore, hcore, hcalls⟩
  · rwa [hsame]
  · rw [hcore]
    exact (h.started hfits).perm hcalls.symm
  · have hhead := h.perm hbefore
    rw [hcore]
    exact (hhead.moved (hhead.shares.step limits choice) hhead.shares.fits.step).perm hcalls.symm

lemma State.inv_run (actions : List Action) : Inv (State.run limits actions).core (State.run limits actions).calls := by
  induction actions using reverseRecOn with
  | nil => constructor <;> simp [State.run, State.new, total]
  | append_singleton actions a ih =>
    rw [State.run, foldl_append]
    exact inv_act limits ih a

end

namespace State

variable {limits : Limits} {s : State} {a : Action}

lemma good_of (hinv : Inv s.core s.calls) (hitems : loadItems s.core ≤ limits.maxItems)
    (hbytes : s.core.outbox.totalBytes + s.heldBytes + s.core.outbox.reservedBytes ≤ limits.maxBytes)
    (haccepted : ∀ call ∈ s.calls, call.full = false) : Good limits s where
  items := hitems
  bytes := hbytes
  accepted := haccepted
  settled := by
    intro call hcall hphase
    obtain ⟨hmade, htask⟩ := hinv.fits call hcall
    rw [hphase] at htask
    rw [hmade, htask.2 (haccepted call hcall), append_nil]
  once := hinv.once

lemma heldBytes_perm {call : Call} {rest : List Call} (h : s.calls.Perm (call :: rest)) :
    s.heldBytes = heldCost call + total heldCost rest := by
  rw [heldBytes, total_perm h, total_cons]

lemma good_act (hinv : Inv s.core s.calls) (h : Good limits s) (hroom : Grants s (s.act limits a) → Room limits s) :
    Good limits (s.act limits a) := by
  have hinv' := inv_act limits hinv a
  rcases s.act_cases limits a with hsame | ⟨task, hfits, hcore, hcalls⟩ | ⟨call, rest, choice, hbefore, hcore, hcalls⟩
  · rwa [hsame]
  · have hheld : (s.act limits a).heldBytes = s.heldBytes := by
      rw [heldBytes_perm hcalls]
      simp [heldCost, Call.held, Call.start, heldBytes]
    apply good_of hinv'
    · rw [hcore]
      exact h.items
    · rw [hheld, hcore]
      exact h.bytes
    · intro other hother
      rcases mem_cons.mp (hcalls.mem_iff.mp hother) with rfl | hmem
      · rfl
      · exact h.accepted other hmem
  · have hmoved := (hinv.perm hbefore).shares.step limits choice
    have hitems : loadItems s.core ≤ limits.maxItems := h.items
    have hbytes := h.bytes
    rw [heldBytes_perm hbefore] at hbytes
    unfold Grants Room at hroom
    rw [heldBytes_perm hbefore, hcore] at hroom
    have hload := hmoved.load
    simp only [loadItems] at hitems hload
    apply good_of hinv'
    · rw [hcore, loadItems]
      omega
    · rw [heldBytes_perm hcalls, hcore]
      omega
    · intro other hother
      rcases mem_cons.mp (hcalls.mem_iff.mp hother) with rfl | hmem
      · rcases hmoved.full with hfull | hover
        · rw [hfull]
          exact h.accepted call (hbefore.mem_iff.mpr mem_cons_self)
        · omega
      · exact h.accepted other (hbefore.mem_iff.mpr (mem_cons_of_mem _ hmem))

lemma room_of_good (hinv : Inv s.core s.calls) (h : Good limits (s.act limits a))
    (hgrants : Grants s (s.act limits a)) : Room limits s := by
  unfold Grants at hgrants
  rcases s.act_cases limits a with hsame | ⟨task, hfits, hcore, hcalls⟩ | ⟨call, rest, choice, hbefore, hcore, hcalls⟩
  · rw [hsame] at hgrants
    omega
  · rw [hcore] at hgrants
    omega
  · have hload := ((hinv.perm hbefore).shares.step limits choice).load
    have hitems := h.items
    have hbytes := h.bytes
    rw [heldBytes_perm hcalls] at hbytes
    rw [hcore] at hgrants hitems hbytes
    unfold Room
    rw [heldBytes_perm hbefore]
    simp only [loadItems] at hload
    omega

end State

/-- The outbox keeps its reservations in a run exactly when each reservation granted in it has room beside the item in
flight. -/
theorem outbox_keeps_reservations (limits : Limits) (actions : List Action) :
    (∀ k, State.Good limits (State.run limits (actions.take k))) ↔
      ∀ k a, actions[k]? = some a →
        State.Grants (State.run limits (actions.take k)) ((State.run limits (actions.take k)).act limits a) →
          State.Room limits (State.run limits (actions.take k)) := by
  have hnext (k : ℕ) (a : Action) (ha : actions[k]? = some a) :
      State.run limits (actions.take (k + 1)) = (State.run limits (actions.take k)).act limits a := by
    simp [State.run, take_add_one, ha]
  constructor
  · intro hgood k a ha hgrants
    have hafter := hgood (k + 1)
    rw [hnext k a ha] at hafter
    exact State.room_of_good (State.inv_run limits _) hafter hgrants
  · intro hroom k
    induction k with
    | zero =>
      apply State.good_of (State.inv_run limits _)
      · simp [State.run, State.new, loadItems]
      · simp [State.run, State.new, State.heldBytes, total]
      · simp [State.run, State.new]
    | succ k ih =>
      cases ha : actions[k]? with
      | none =>
        rw [take_add_one, ha, Option.toList_none, append_nil]
        exact ih
      | some a =>
        rw [hnext k a ha]
        exact State.good_act (State.inv_run limits _) ih (hroom k a ha)

section

def unavailable : Choice := ⟨none, none⟩

def advances (i n : ℕ) : List Action := replicate n (.advance i unavailable)

def overcommit : List Action :=
  .submit :: advances 0 2 ++ .advance 0 ⟨none, some (.share .zero)⟩ :: advances 0 5 ++
    .drain :: advances 1 3 ++ .submit :: advances 2 3

def refusal : List Action :=
  overcommit ++ advances 1 2 ++ .advance 2 ⟨none, some (.block .zero ⟨maxBlockBytes, le_rfl⟩)⟩ :: advances 2 15

/-- The bytes of the outbox go over their limit, and then a validated block is refused. -/
theorem outbox_overcommits :
    reserveBytes < (State.run ⟨4, reserveBytes⟩ overcommit).core.outbox.totalBytes +
      (State.run ⟨4, reserveBytes⟩ overcommit).heldBytes +
      (State.run ⟨4, reserveBytes⟩ overcommit).core.outbox.reservedBytes ∧
    (State.run ⟨4, reserveBytes⟩ refusal).calls.any (fun call => call.full) = true := by
  decide +kernel

end

end BitcoinRs.Mining
