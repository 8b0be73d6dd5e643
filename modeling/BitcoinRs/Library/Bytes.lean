import Mathlib.Tactic.Ring
import Mathlib.Data.List.Nodup

namespace LittleEndian

def encode : ℕ → ℕ → List UInt8
  | 0, _ => []
  | w + 1, n => UInt8.ofNat (n % 256) :: encode w (n / 256)

def decode : List UInt8 → ℕ
  | [] => 0
  | b :: bs => b.toNat + 256 * decode bs

@[simp] lemma length_encode (w n : ℕ) : (encode w n).length = w := by
  induction w generalizing n with
  | zero => rfl
  | succ w ih => simp [encode, ih]

lemma decode_encode (w n : ℕ) (hn : n < 256 ^ w) : decode (encode w n) = n := by
  induction w generalizing n with
  | zero =>
    have h0 : n = 0 := by simpa using hn
    simp [encode, decode, h0]
  | succ w ih =>
    have hq : n / 256 < 256 ^ w := by
      apply Nat.div_lt_of_lt_mul
      rw [← Nat.pow_succ']
      exact hn
    simp only [encode, decode, ih _ hq, UInt8.toNat_ofNat']
    omega

variable (bs : List UInt8)

lemma decode_lt : decode bs < 256 ^ bs.length := by
  induction bs with
  | nil => simp [decode]
  | cons b bs ih =>
    have hb : b.toNat < 256 := b.toNat_lt
    simp only [decode, List.length_cons, Nat.pow_succ]
    omega

lemma encode_decode : encode bs.length (decode bs) = bs := by
  induction bs with
  | nil => rfl
  | cons b bs ih =>
    have hb : b.toNat < 256 := b.toNat_lt
    have hm : (b.toNat + 256 * decode bs) % 256 = b.toNat := by omega
    have hd : (b.toNat + 256 * decode bs) / 256 = decode bs := by omega
    simp [decode, encode, hd, ih]

lemma take_encode (w v n : ℕ) (h : v ≤ w) : (encode w n).take v = encode v n := by
  induction v generalizing w n with
  | zero => simp [encode]
  | succ v ih =>
    obtain ⟨w, rfl⟩ : ∃ w', w = w' + 1 := ⟨w - 1, by omega⟩
    simp [encode, ih w (n / 256) (by omega)]

lemma encode_injective (w m n : ℕ) (hm : m < 256 ^ w) (hn : n < 256 ^ w) (h : encode w m = encode w n) : m = n := by
  rw [← decode_encode w m hm, h, decode_encode w n hn]

end LittleEndian

namespace Leb128

/-- Seven bits a byte, least significant first; the top bit is set on all but the last byte. -/
def encode : ℕ → ℕ → List UInt8
  | 0, _ => []
  | fuel + 1, n =>
    if n / 128 = 0 then [UInt8.ofNat (n % 128)]
    else UInt8.ofNat (n % 128 + 128) :: encode fuel (n / 128)

variable (fuel n : ℕ)

lemma length_encode_le : (encode fuel n).length ≤ fuel := by
  induction fuel generalizing n with
  | zero => simp [encode]
  | succ fuel ih =>
    rw [encode]
    split_ifs
    · simp
    · have := ih (n / 128)
      simp only [List.length_cons]
      omega

lemma length_encode_pos : 0 < (encode (fuel + 1) n).length := by
  rw [encode]
  split_ifs <;> simp

lemma length_encode_le_of_lt (fuel k n : ℕ) (hn : n < 128 ^ (k + 1)) : (encode fuel n).length ≤ k + 1 := by
  induction k generalizing fuel n with
  | zero =>
    cases fuel with
    | zero => simp [encode]
    | succ fuel =>
      rw [encode, if_pos (by omega)]
      simp
  | succ k ih =>
    cases fuel with
    | zero => simp [encode]
    | succ fuel =>
      have hq : n / 128 < 128 ^ (k + 1) := by
        rw [Nat.div_lt_iff_lt_mul (by decide)]
        exact hn
      rw [encode]
      split_ifs
      · simp
      · have := ih fuel (n / 128) hq
        simp only [List.length_cons]
        omega

end Leb128

namespace Msb128

/-- The digits in front of another digit: seven bits a byte, most significant first, the top bit set. Each digit
stands for one more than it says, so no value has two forms. -/
def marked (v : ℕ) : List UInt8 :=
  if v < 128 then [UInt8.ofNat (v + 128)] else marked (v / 128 - 1) ++ [UInt8.ofNat (v % 128 + 128)]
termination_by v
decreasing_by omega

def encode (v : ℕ) : List UInt8 :=
  if v < 128 then [UInt8.ofNat v] else marked (v / 128 - 1) ++ [UInt8.ofNat (v % 128)]

variable {v : ℕ}

lemma marked_of_lt (h : v < 128) : marked v = [UInt8.ofNat (v + 128)] := by
  rw [marked, if_pos h]

lemma marked_of_le (h : 128 ≤ v) : marked v = marked (v / 128 - 1) ++ [UInt8.ofNat (v % 128 + 128)] := by
  rw [marked, if_neg (Nat.not_lt.mpr h)]

lemma encode_of_lt (h : v < 128) : encode v = [UInt8.ofNat v] := if_pos h

lemma encode_of_le (h : 128 ≤ v) : encode v = marked (v / 128 - 1) ++ [UInt8.ofNat (v % 128)] :=
  if_neg (Nat.not_lt.mpr h)

lemma length_marked_le {n v : ℕ} (h : v < 128 ^ (n + 1)) : (marked v).length ≤ n + 1 := by
  induction n generalizing v with
  | zero =>
    rw [marked_of_lt (by simpa using h)]
    simp
  | succ n ih =>
    by_cases hv : v < 128
    · rw [marked_of_lt hv]
      simp
    · have hq : v / 128 - 1 < 128 ^ (n + 1) := by
        omega
      rw [marked_of_le (Nat.not_lt.mp hv), List.length_append]
      exact Nat.succ_le_succ (ih hq)

lemma length_encode_le {n v : ℕ} (h : v < 128 ^ (n + 1)) : (encode v).length ≤ n + 1 := by
  by_cases hv : v < 128
  · rw [encode_of_lt hv]
    simp
  · cases n with
    | zero => exact absurd (by simpa using h) hv
    | succ n =>
      have hq : v / 128 - 1 < 128 ^ (n + 1) := by
        omega
      rw [encode_of_le (Nat.not_lt.mp hv), List.length_append]
      exact Nat.succ_le_succ (length_marked_le hq)

end Msb128

/-- `r` is `n` with all but its leading digits in base `b` cut off: as few of them as leave a mantissa below `B`. -/
structure Truncates (b B n r : ℕ) : Prop where
  exists_scale : ∃ k, n / b ^ k < B ∧ (∀ j < k, B ≤ n / b ^ j) ∧ r = n / b ^ k * b ^ k

namespace Truncates

variable {b B n m r s : ℕ}

lemma mono (hb : 0 < b) (hB : b ∣ B) (h : Truncates b B n r) (h' : Truncates b B m s) (hle : n ≤ m) : r ≤ s := by
  obtain ⟨k, hk, hkmin, rfl⟩ := h.exists_scale
  obtain ⟨l, hl, hlmin, rfl⟩ := h'.exists_scale
  rcases Nat.lt_trichotomy k l with hlt | rfl | hgt
  · -- the quotient at the scale before `l` is at least `B`, a multiple of the base
    obtain ⟨l, rfl⟩ := Nat.exists_eq_succ_of_ne_zero (Nat.ne_zero_of_lt hlt)
    obtain ⟨c, rfl⟩ := hB
    have hprev := hlmin l (Nat.lt_succ_self l)
    have hc : c ≤ m / b ^ (l + 1) := by
      rw [Nat.pow_succ, ← Nat.div_div_eq_div_mul]
      exact (Nat.le_div_iff_mul_le hb).mpr (by rwa [Nat.mul_comm])
    calc n / b ^ k * b ^ k ≤ b * c * b ^ k := Nat.mul_le_mul_right _ hk.le
      _ ≤ b * c * b ^ l := Nat.mul_le_mul_left _ (Nat.pow_le_pow_right hb (Nat.lt_succ_iff.mp hlt))
      _ = c * b ^ (l + 1) := by ring
      _ ≤ m / b ^ (l + 1) * b ^ (l + 1) := Nat.mul_le_mul_right _ hc
  · exact Nat.mul_le_mul_right _ (Nat.div_le_div_right hle)
  · exact absurd (hkmin l hgt) (Nat.not_le.mpr (Nat.lt_of_le_of_lt (Nat.div_le_div_right hle) hl))

lemma unique (hb : 0 < b) (hB : b ∣ B) (h : Truncates b B n r) (h' : Truncates b B n s) : r = s :=
  Nat.le_antisymm (h.mono hb hB h' le_rfl) (h'.mono hb hB h le_rfl)

lemma of_mantissa (hb : 0 < b) (hm : m < B) (j : ℕ) : Truncates b B (m * b ^ j) (m * b ^ j) := by
  have hex : ∃ k, m * b ^ j / b ^ k < B := ⟨j, by rwa [Nat.mul_div_cancel _ (Nat.pow_pos hb)]⟩
  have hle : Nat.find hex ≤ j := Nat.find_min' hex (by rwa [Nat.mul_div_cancel _ (Nat.pow_pos hb)])
  refine ⟨Nat.find hex, Nat.find_spec hex, fun i hi => Nat.not_lt.mp (Nat.find_min hex hi), ?_⟩
  exact (Nat.div_mul_cancel ((Nat.pow_dvd_pow b hle).mul_left m)).symm

end Truncates

namespace ByteTable

open List

variable {α : Type} (f : α → List UInt8) (xs : List α)

lemma length_flatMap_fixed (w : ℕ) (hf : ∀ a, (f a).length = w) (xs : List α) :
    (xs.flatMap f).length = xs.length * w := by
  induction xs with
  | nil => simp
  | cons x xs ih => simp only [flatMap_cons, length_append, hf, ih, length_cons]; ring

lemma drop_flatMap_fixed (w : ℕ) (hf : ∀ a, (f a).length = w) (xs : List α) (i : ℕ) :
    (xs.flatMap f).drop (i * w) = (xs.drop i).flatMap f := by
  induction i generalizing xs with
  | zero => simp
  | succ i ih =>
    cases xs with
    | nil => simp
    | cons x xs =>
      rw [flatMap_cons, drop_succ_cons, Nat.succ_mul, Nat.add_comm, ← drop_drop, drop_left' (hf x), ih]

def offset (f : α → List UInt8) (xs : List α) (i : ℕ) : ℕ := ((xs.take i).flatMap f).length

@[simp] lemma offset_zero : offset f xs 0 = 0 := by simp [offset]

variable (i : ℕ)

lemma offset_succ (hi : i < xs.length) : offset f xs (i + 1) = offset f xs i + (f xs[i]).length := by
  rw [offset, offset, take_succ_eq_append_getElem hi, flatMap_append, length_append, flatMap_singleton]

lemma offset_le : offset f xs i ≤ (xs.flatMap f).length := by
  conv_rhs => rw [← take_append_drop i xs, flatMap_append, length_append]
  exact Nat.le_add_right _ _

lemma drop_offset : (xs.flatMap f).drop (offset f xs i) = (xs.drop i).flatMap f := by
  conv_lhs => rw [← take_append_drop i xs, flatMap_append]
  rw [offset, take_append_drop, drop_left]

lemma length_flatMap_le {β : Type} (f : α → List β) (n : ℕ) (xs : List α) (hf : ∀ a ∈ xs, (f a).length ≤ n) :
    (xs.flatMap f).length ≤ xs.length * n := by
  induction xs with
  | nil => simp
  | cons x xs ih =>
    have hx := hf x (by simp)
    have hxs := ih (fun a ha => hf a (by simp [ha]))
    simp only [flatMap_cons, length_append, length_cons, Nat.succ_mul]
    omega

lemma filterMap_range_getElem? : (range xs.length).filterMap (fun i => xs[i]?) = xs := by
  induction xs with
  | nil => rfl
  | cons x xs ih =>
    simp only [length_cons, range_succ_eq_map, filterMap_cons, getElem?_cons_zero,
      filterMap_map, Function.comp_def, getElem?_cons_succ, ih]

end ByteTable
