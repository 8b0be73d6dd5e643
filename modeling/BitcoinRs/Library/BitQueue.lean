import Mathlib.Data.Nat.Bitwise
import Mathlib.Data.List.Basic

/-!
A queue of bits packed in 64-bit words: `live` bits from bit `head` of the first word on.
-/

structure BitQueue where
  words : List ℕ
  live : ℕ
  head : ℕ

namespace BitQueue

open List

def empty : BitQueue := ⟨[], 0, 0⟩

def grown (words : List ℕ) (k : ℕ) : List ℕ := if words.length ≤ k then words ++ [0] else words

section

variable (q : BitQueue)

def pushBack (bit : Bool) : BitQueue :=
  let tail := q.head + q.live
  let words := grown q.words (tail / 64)
  { q with words := if bit then words.modify (tail / 64) (· ||| 1 <<< (tail % 64)) else words, live := q.live + 1 }

def popFront : Option (Bool × BitQueue) :=
  if q.live = 0 then none
  else some ((q.words.headD 0).testBit q.head,
    if q.head + 1 = 64 then ⟨q.words.tail, q.live - 1, 0⟩ else ⟨q.words, q.live - 1, q.head + 1⟩)

def bitAt (n : ℕ) : Bool := (q.words[n / 64]?.getD 0).testBit (n % 64)

def bits : List Bool := (range q.live).map fun i => q.bitAt (q.head + i)

end

structure Packed (q : BitQueue) : Prop where
  head_lt : q.head < 64
  fits : q.head + q.live ≤ 64 * q.words.length
  clear : ∀ n, q.head + q.live ≤ n → q.bitAt n = false

variable {q : BitQueue}

lemma packed_empty : Packed empty := ⟨by decide, by decide, fun n _ => by simp [bitAt, empty]⟩

@[simp] lemma bits_empty : bits empty = [] := rfl

lemma getD_grown (words : List ℕ) (i k : ℕ) : (grown words k)[i]?.getD 0 = words[i]?.getD 0 := by
  unfold grown
  split_ifs
  · rcases Nat.lt_or_ge i words.length with hi | hi
    · rw [getElem?_append_left hi]
    · rw [getElem?_append_right hi, getElem?_eq_none hi]
      cases i - words.length <;> simp
  · rfl

lemma lt_length_grown {words : List ℕ} {k : ℕ} (h : k ≤ words.length) : k < (grown words k).length := by
  unfold grown
  split_ifs
  · rw [length_append]
    exact Nat.lt_succ_of_le h
  · omega

lemma bitAt_pushBack (h : q.Packed) (bit : Bool) (n : ℕ) :
    (q.pushBack bit).bitAt n = (q.bitAt n || (bit && n == q.head + q.live)) := by
  have hfits := h.fits
  simp only [pushBack, bitAt, ← getD_grown q.words (n / 64) ((q.head + q.live) / 64)]
  have hlt : (q.head + q.live) / 64 < (grown q.words ((q.head + q.live) / 64)).length := lt_length_grown (by omega)
  cases bit with
  | false => simp
  | true =>
    by_cases hword : n / 64 = (q.head + q.live) / 64
    · have heq : (n == q.head + q.live) = decide ((q.head + q.live) % 64 = n % 64) := by
        rw [Bool.eq_iff_iff, beq_iff_eq, decide_eq_true_iff]
        omega
      simp [hword, getElem?_eq_getElem hlt, Nat.testBit_or, Nat.one_shiftLeft, Nat.testBit_two_pow, heq]
    · have hne : n ≠ q.head + q.live := fun heq => hword (by rw [heq])
      simp [hne, Ne.symm hword]

lemma packed_pushBack (h : q.Packed) (bit : Bool) : (q.pushBack bit).Packed := by
  have hfits := h.fits
  constructor
  · exact h.head_lt
  · have hlt : (q.head + q.live) / 64 < (grown q.words ((q.head + q.live) / 64)).length := lt_length_grown (by omega)
    have hlength : (q.pushBack bit).words.length = (grown q.words ((q.head + q.live) / 64)).length := by
      cases bit <;> simp [pushBack]
    show q.head + (q.live + 1) ≤ _
    omega
  · intro n hn
    have hn : q.head + (q.live + 1) ≤ n := hn
    have hne : n ≠ q.head + q.live := by omega
    simp [bitAt_pushBack h, h.clear n (by omega), hne]

lemma bits_pushBack (h : q.Packed) (bit : Bool) : (q.pushBack bit).bits = q.bits ++ [bit] := by
  have hbits : (q.pushBack bit).bits = (range (q.live + 1)).map fun i => (q.pushBack bit).bitAt (q.head + i) := rfl
  rw [hbits, range_succ, map_append]
  congr 1
  · apply map_congr_left
    intro i hi
    have hlt := mem_range.mp hi
    simp [bitAt_pushBack h, hlt.ne]
  · simp [bitAt_pushBack h, h.clear]

variable {rest : BitQueue}

lemma bitAt_popFront {bit : Bool} (hpop : q.popFront = some (bit, rest)) (n : ℕ) :
    rest.bitAt (rest.head + n) = q.bitAt (q.head + 1 + n) := by
  unfold popFront at hpop
  split_ifs at hpop with hlive hlast <;> cases hpop
  · have hindex : (q.head + 1 + n) / 64 = n / 64 + 1 ∧ (q.head + 1 + n) % 64 = n % 64 := by omega
    simp only [bitAt, hindex, Nat.zero_add]
    cases q.words <;> simp
  · rfl

lemma popFront_spec (h : q.Packed) {bit : Bool} (hpop : q.popFront = some (bit, rest)) :
    rest.Packed ∧ q.bits = bit :: rest.bits := by
  have hat := bitAt_popFront hpop
  have hhead := h.head_lt
  have hfits := h.fits
  have hshape : rest.live + 1 = q.live ∧ rest.head < 64 ∧ rest.head + rest.live ≤ 64 * rest.words.length ∧
      bit = q.bitAt q.head := by
    have hfirst : (q.words.headD 0).testBit q.head = q.bitAt q.head := by
      rw [bitAt, Nat.div_eq_of_lt hhead, Nat.mod_eq_of_lt hhead]
      cases q.words <;> rfl
    unfold popFront at hpop
    split_ifs at hpop with hlive hlast <;> cases hpop
    · refine ⟨Nat.succ_pred_eq_of_ne_zero hlive, Nat.succ_pos 63, ?_, hfirst⟩
      simp
      omega
    · refine ⟨Nat.succ_pred_eq_of_ne_zero hlive, ?_, ?_, hfirst⟩
      · show q.head + 1 < 64
        omega
      · show q.head + 1 + (q.live - 1) ≤ 64 * q.words.length
        omega
  obtain ⟨hlive, hlt, hlen, hbit⟩ := hshape
  constructor
  · refine ⟨hlt, hlen, fun n hn => ?_⟩
    obtain ⟨k, rfl⟩ := Nat.exists_eq_add_of_le (le_trans (Nat.le_add_right _ _) hn)
    rw [hat]
    exact h.clear _ (by omega)
  · rw [bits, ← hlive, range_succ_eq_map, map_cons, map_map, Nat.add_zero, ← hbit]
    congr 1
    apply map_congr_left
    intro i _
    rw [hat, Function.comp_apply]
    congr 1
    omega

end BitQueue
