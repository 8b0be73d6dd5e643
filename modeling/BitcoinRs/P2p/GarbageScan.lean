import BitcoinRs.Primitives

namespace BitcoinRs.P2p

open List

def maxGarbageLen : ℕ := 4095
def garbageTerminatorLen : ℕ := 16
def scanLimit : ℕ := maxGarbageLen + garbageTerminatorLen

def Terminator : Type := { bytes : Bytes // bytes.length = garbageTerminatorLen }

variable (terminator : Terminator)

/-- The search from the longest proper start down to length 1 is the recursion of `findGreatest`. -/
def partialMatch (scanned : Bytes) : ℕ :=
  Nat.findGreatest (fun len => terminator.1.take len <:+ scanned) (garbageTerminatorLen - 1)

def room (scanned : Bytes) : ℕ := scanLimit - scanned.length

inductive ScanResult
  | reading
  | found (garbage : Bytes)
  | terminatorNotFound

def scanResult (scanned : Bytes) : ScanResult :=
  if terminator.1 <:+ scanned then .found (scanned.take (scanned.length - garbageTerminatorLen))
  else if room scanned = 0 then .terminatorNotFound
  else .reading

variable (stream : ℕ → UInt8)

/-- A read has at least one byte to give; `none` is a timeout, after which the scan resumes where it was. -/
def scanRead (scanned : Bytes) : Option ℕ → Bytes
  | none => scanned
  | some more =>
    let window := min (garbageTerminatorLen - partialMatch terminator scanned) (room scanned)
    if terminator.1 <:+ scanned then scanned
    else scanned ++ (range (min (more + 1) window)).map fun i => stream (scanned.length + i)

variable (reads : List (Option ℕ))

def scan (scanned : Bytes) : Bytes := reads.foldl (scanRead terminator stream) scanned

def front (n : ℕ) : Bytes := (range n).map stream

abbrev EndsAt (n : ℕ) : Prop := terminator.1 <:+ front stream n

lemma front_add (m j : ℕ) : front stream (m + j) = front stream m ++ (range j).map fun i => stream (m + i) := by
  rw [front, range_add, map_append, map_map]
  rfl

lemma length_front (n : ℕ) : (front stream n).length = n := by simp [front]

/-- Where the scan stops, however the bytes arrive: at the end of the first occurrence or at the limit. -/
structure Stops (stop : ℕ) : Prop where
  le : stop ≤ scanLimit
  reached : EndsAt terminator stream stop ∨ stop = scanLimit
  first : ∀ n < stop, ¬EndsAt terminator stream n

variable {terminator stream} {m j stop : ℕ}

/-- An occurrence that ended among the next bytes would begin with a longer partial match. -/
lemma not_endsAt_add (hj : 0 < j) (hlt : j < garbageTerminatorLen - partialMatch terminator (front stream m)) :
    ¬EndsAt terminator stream (m + j) := by
  rintro ⟨before, h⟩
  have hlen := terminator.2
  rw [front_add, ← take_append_drop (garbageTerminatorLen - j) terminator.1, ← append_assoc] at h
  have hmatch := append_inj_left' h (by rw [length_drop, length_map, length_range]; omega)
  have hle : garbageTerminatorLen - j ≤ partialMatch terminator (front stream m) :=
    Nat.le_findGreatest (by omega) ⟨before, hmatch⟩
  omega

variable (h : Stops terminator stream stop)

include h

lemma Stops.read (hm : m ≤ stop) (more : ℕ) : ∃ next ≤ stop, min stop (m + 1) ≤ next ∧
    scanRead terminator stream (front stream m) (some more) = front stream next := by
  have hle := h.le
  by_cases hend : EndsAt terminator stream m
  · have hstop : stop ≤ m := not_lt.mp fun hlt => h.first m hlt hend
    exact ⟨m, hm, by omega, if_pos hend⟩
  · rw [scanRead, if_neg hend, length_front, ← front_add, room, length_front]
    have hbound : partialMatch terminator (front stream m) ≤ 15 := Nat.findGreatest_le _
    refine ⟨_, ?_, ?_, rfl⟩
    · by_contra hpast
      have hno : ¬EndsAt terminator stream stop := by
        rcases hm.eq_or_lt with rfl | hlt
        · exact hend
        · rw [← Nat.add_sub_cancel' hm]
          exact not_endsAt_add (by omega) (by omega)
      have hlimit := h.reached.resolve_left hno
      omega
    · unfold garbageTerminatorLen at *
      omega

lemma Stops.scan (hm : m ≤ stop) : ∃ next ≤ stop,
    min stop (m + reads.countP Option.isSome) ≤ next ∧
      scan terminator stream reads (front stream m) = front stream next := by
  induction reads generalizing m with
  | nil => exact ⟨m, hm, by simp, rfl⟩
  | cons event reads ih =>
    cases event with
    | none => exact ih hm
    | some more =>
      obtain ⟨next, hnext, hpast, hread⟩ := h.read hm more
      obtain ⟨last, hlast, hcount, hrun⟩ := ih hnext
      refine ⟨last, hlast, ?_, ?_⟩
      · rw [countP_cons_of_pos rfl]
        omega
      · rw [← hrun, ← hread]
        rfl

omit h in
/-- What is consumed and how the scan ends depend on the stream alone, once there were enough reads. -/
theorem garbage_scan (terminator : Terminator) (stream : ℕ → UInt8) : ∃ stop, Stops terminator stream stop ∧
    ∀ reads, ∃ m ≤ stop, scan terminator stream reads [] = front stream m ∧
      (scanLimit ≤ reads.countP Option.isSome → m = stop) ∧
      scanResult terminator (front stream m) =
        if m < stop then .reading
        else if EndsAt terminator stream stop then .found (front stream (stop - garbageTerminatorLen))
        else .terminatorNotFound := by
  have hex : ∃ n, EndsAt terminator stream n ∨ n = scanLimit := ⟨_, .inr rfl⟩
  have h : Stops terminator stream (Nat.find hex) :=
    ⟨Nat.find_min' hex (.inr rfl), Nat.find_spec hex, fun n hn hend => Nat.find_min hex hn (.inl hend)⟩
  have hle := h.le
  refine ⟨_, h, ?_⟩
  intro reads
  obtain ⟨m, hm, hcount, hrun⟩ := h.scan reads (Nat.zero_le _)
  refine ⟨m, hm, hrun, by omega, ?_⟩
  unfold scanResult room
  rw [length_front]
  rcases hm.lt_or_eq with hlt | rfl
  · rw [if_neg (h.first m hlt), if_neg (by omega), if_pos hlt]
  · rw [if_neg (lt_irrefl _)]
    by_cases hend : EndsAt terminator stream (Nat.find hex)
    · rw [if_pos hend, if_pos hend, front, ← map_take, take_range, min_eq_left (by omega)]
      rfl
    · have hlimit := h.reached.resolve_left hend
      rw [if_neg hend, if_pos (by omega), if_neg hend]

end BitcoinRs.P2p
