import BitcoinRs.Primitives
import Mathlib.Data.Nat.Bitwise

namespace BitcoinRs.Utxo

open Leb128 List Nat Option
open UInt8 (ofNat toNat_ofNat')

inductive UtxoError
  | scriptTooLarge (len : ℕ)
  | recordTooLarge (len : ℕ)
  | corruptRecord
  | amountOutOfRange (value : ℕ)
  deriving DecidableEq

def varintMaxLen : ℕ := 10

/-- `fuel` is the ten steps a `u64` can take. -/
def writeVarintAt : ℕ → ℕ → Bytes → ℕ → Option (Bytes × ℕ)
  | 0, _, _, _ => none
  | fuel + 1, remaining, out, cursor =>
    let rest := remaining / 128
    let byte := ofNat (if rest = 0 then remaining % 128 else remaining % 128 + 128)
    if cursor < out.length then
      let out := out.set cursor byte
      if rest = 0 then some (out, cursor + 1) else writeVarintAt fuel rest out (cursor + 1)
    else none

def varintLenLoop : ℕ → ℕ → ℕ → ℕ
  | 0, _, len => len
  | fuel + 1, remaining, len =>
    if remaining = 0 then len else varintLenLoop fuel (remaining / 128) (len + 1)

def varintLen (value : ℕ) : ℕ := varintLenLoop (varintMaxLen - 1) (value / 128) 1

def readVarintLoop (bytes : Bytes) : ℕ → ℕ → ℕ → ℕ → Except UtxoError (ℕ × ℕ)
  | 0, _, _, _ => .error .corruptRecord
  | fuel + 1, value, shift, cursor =>
    match bytes[cursor]? with
    | none => .error .corruptRecord
    | some byte =>
      let payload := byte.toNat % 128
      if 64 ≤ shift ∨ (shift = 63 ∧ 1 < payload) then .error .corruptRecord
      else
        let value := value ||| payload <<< shift
        if byte.toNat < 128 then
          if 0 < shift ∧ payload = 0 then .error .corruptRecord else .ok (value, cursor + 1)
        else readVarintLoop bytes fuel value (shift + 7) (cursor + 1)

def readVarint (bytes : Bytes) (offset : ℕ) : Except UtxoError (ℕ × ℕ) :=
  match bytes[offset]? with
  | none => .error .corruptRecord
  | some first =>
    if first.toNat < 128 then .ok (first.toNat, offset + 1)
    else readVarintLoop bytes varintMaxLen 0 0 offset

def maxCompressibleAmount : ℕ := 2100000000000000

def stripTens : ℕ → ℕ → ℕ → ℕ × ℕ
  | 0, n, exponent => (n, exponent)
  | fuel + 1, n, exponent =>
    if n % 10 = 0 ∧ exponent < 9 then stripTens fuel (n / 10) (exponent + 1) else (n, exponent)

def compressAmount (amount : ℕ) : Except UtxoError ℕ :=
  if maxCompressibleAmount < amount then .error (.amountOutOfRange amount)
  else if amount = 0 then .ok 0
  else
    let (n, exponent) := stripTens 9 amount 0
    if exponent < 9 then
      let lastDigit := n % 10
      let n := n / 10
      .ok (1 + (n * 9 + lastDigit - 1) * 10 + exponent)
    else .ok (1 + (n - 1) * 10 + 9)

def checkedAdd (a b : ℕ) : Option ℕ := if a + b < 2 ^ 64 then some (a + b) else none

def checkedMul (a b : ℕ) : Option ℕ := if a * b < 2 ^ 64 then some (a * b) else none

def decompressAmount (compressed : ℕ) : Option ℕ :=
  if compressed = 0 then some 0
  else
    let x := compressed - 1
    let exponent := x % 10
    let n := x / 10
    let n := if exponent < 9 then
        (checkedMul (n / 9) 10).bind (fun n' => checkedAdd n' (n % 9 + 1))
      else checkedAdd n 1
    n.bind (fun n => (checkedMul n (10 ^ exponent)).bind (fun value =>
      if value ≤ maxCompressibleAmount then some value else none))

abbrev varint (value : ℕ) : Bytes := Leb128.encode varintMaxLen value

lemma length_varint_le (value : ℕ) : (varint value).length ≤ 10 := length_encode_le 10 value

lemma writeVarintAt_eq (fuel v cursor : ℕ) (out : Bytes) (hv : v < 128 ^ (fuel + 1))
    (hr : cursor + (encode (fuel + 1) v).length ≤ out.length) :
    writeVarintAt (fuel + 1) v out cursor =
      some (out.take cursor ++ encode (fuel + 1) v ++ out.drop (cursor + (encode (fuel + 1) v).length),
        cursor + (encode (fuel + 1) v).length) := by
  induction fuel generalizing v cursor out with
  | zero =>
    have h0 : v / 128 = 0 := by omega
    rw [writeVarintAt]
    simp only [encode, h0, ↓reduceIte, length_cons, length_nil] at hr ⊢
    rw [if_pos (by omega), set_eq_take_append_cons_drop, if_pos (by omega)]
    simp
  | succ fuel ih =>
    have hlt : cursor < out.length := by
      have := length_encode_pos (fuel + 1) v
      omega
    rw [writeVarintAt, encode]
    rw [encode] at hr
    by_cases h0 : v / 128 = 0
    · simp only [h0, ↓reduceIte, length_cons, length_nil] at hr ⊢
      rw [if_pos hlt, set_eq_take_append_cons_drop, if_pos hlt]
      simp
    · have hq : v / 128 < 128 ^ (fuel + 1) := by
        rw [div_lt_iff_lt_mul (by decide)]
        exact hv
      simp only [h0, ↓reduceIte, length_cons] at hr ⊢
      rw [if_pos hlt, ih _ _ _ hq (by simp only [length_set]; omega)]
      have hset : (out.set cursor (ofNat (v % 128 + 128))).take (cursor + 1) =
          out.take cursor ++ [ofNat (v % 128 + 128)] := by
        rw [take_succ_eq_append_getElem (by simpa using hlt), getElem_set_self, take_set_of_le (le_refl _)]
      rw [hset, drop_set_of_lt (by omega)]
      simp only [append_assoc, cons_append, nil_append, some.injEq, Prod.mk.injEq]
      rw [show cursor + 1 + (encode (fuel + 1) (v / 128)).length =
        cursor + ((encode (fuel + 1) (v / 128)).length + 1) by omega]
      exact ⟨rfl, rfl⟩

lemma writeVarintAt_take (v cursor : ℕ) (out : Bytes) (hv : v < 2 ^ 64) (hr : cursor + (varint v).length ≤ out.length) :
    ∃ out', writeVarintAt varintMaxLen v out cursor = some (out', cursor + (varint v).length) ∧
      out'.take (cursor + (varint v).length) = out.take cursor ++ varint v ∧
      out'.length = out.length := by
  have hroom : cursor + (encode (9 + 1) v).length ≤ out.length := hr
  refine ⟨_, writeVarintAt_eq 9 v cursor out (by omega) hroom, ?_, ?_⟩
  · have hl : (out.take cursor ++ varint v).length = cursor + (varint v).length := by
      simp only [length_append, length_take]
      omega
    exact take_left' hl
  · simp only [length_append, length_take, length_drop]
    omega

lemma varintLenLoop_eq (fuel v len : ℕ) (hv : v < 128 ^ fuel) :
    varintLenLoop fuel v len = len + (if v = 0 then 0 else (encode fuel v).length) := by
  induction fuel generalizing v len with
  | zero =>
    have h0 : v = 0 := by simpa using hv
    simp [varintLenLoop, h0]
  | succ fuel ih =>
    rw [varintLenLoop]
    by_cases h0 : v = 0
    · simp [h0]
    · have hq : v / 128 < 128 ^ fuel := by
        rw [div_lt_iff_lt_mul (by decide)]
        exact hv
      rw [if_neg h0, if_neg h0, ih _ _ hq, encode]
      by_cases h1 : v / 128 = 0
      · simp [h1]
      · simp only [h1, ↓reduceIte, length_cons]
        omega

lemma varintLen_eq (v : ℕ) (hv : v < 2 ^ 64) : varintLen v = (varint v).length := by
  rw [varintLen, varintLenLoop_eq (varintMaxLen - 1) _ _ (by simp only [varintMaxLen]; omega)]
  simp only [varint, varintMaxLen, Nat.add_one_sub_one]
  rw [show encode 10 v = if v / 128 = 0 then [ofNat (v % 128)]
    else ofNat (v % 128 + 128) :: encode 9 (v / 128) from rfl]
  by_cases h0 : v / 128 = 0
  · simp [h0]
  · simp only [h0, ↓reduceIte, length_cons]
    omega

variable (bytes post : Bytes)

lemma readVarintLoop_eq (fuel v value shift cursor : ℕ)
    (hb : bytes.drop cursor = encode fuel v ++ post) (hs : shift + 7 * fuel = 70) (hf : 0 < fuel)
    (hvalue : value < 2 ^ shift) (hv : v < 2 ^ (64 - shift)) (hnz : 0 < shift → v ≠ 0) :
    readVarintLoop bytes fuel value shift cursor =
      .ok (value + v * 2 ^ shift, cursor + (encode fuel v).length) := by
  induction fuel generalizing v value shift cursor with
  | zero => omega
  | succ fuel ih =>
    have hor (p : ℕ) : value ||| p <<< shift = value + p * 2 ^ shift := by
      rw [shiftLeft_eq, Nat.mul_comm p, Nat.or_comm, ← two_pow_add_eq_or_of_lt hvalue]
      ring
    have hsmall : ¬(64 ≤ shift ∨ (shift = 63 ∧ 1 < v % 128)) := by
      rintro (h | ⟨rfl, h⟩)
      · omega
      · omega
    rw [encode] at hb ⊢
    rw [readVarintLoop]
    by_cases h0 : v / 128 = 0
    · simp only [h0, ↓reduceIte, cons_append, nil_append] at hb
      have hget : bytes[cursor]? = some (ofNat (v % 128)) := by
        rw [← head?_drop, hb, head?_cons]
      have hbyte : (ofNat (v % 128)).toNat = v % 128 := by
        rw [toNat_ofNat']
        omega
      have hvm : v % 128 = v := by omega
      simp only [hget, hbyte, mod_mod, if_neg hsmall, hor, h0, ↓reduceIte]
      rw [if_pos (by omega), if_neg (by rw [hvm]; rintro ⟨h1, h2⟩; exact hnz h1 h2), hvm]
      simp
    · simp only [h0, ↓reduceIte, cons_append] at hb
      have hget : bytes[cursor]? = some (ofNat (v % 128 + 128)) := by
        rw [← head?_drop, hb, head?_cons]
      have hbyte : (ofNat (v % 128 + 128)).toNat = v % 128 + 128 := by
        rw [toNat_ofNat']
        omega
      have hdrop : bytes.drop (cursor + 1) = encode fuel (v / 128) ++ post := by
        rw [← drop_drop, hb, drop_one, tail_cons]
      have hmod : (v % 128 + 128) % 128 = v % 128 := by omega
      -- A multi-byte value leaves room for at least one more group below bit 64.
      have hshift : shift + 7 ≤ 63 := by
        by_contra hlarge
        have hpow : 2 ^ (64 - shift) ≤ 2 ^ 7 := Nat.pow_le_pow_right (by decide) (by omega)
        omega
      have hq : v / 128 < 2 ^ (64 - (shift + 7)) := by
        rw [div_lt_iff_lt_mul (by decide), show (128 : ℕ) = 2 ^ 7 from rfl, ← pow_add,
          show 64 - (shift + 7) + 7 = 64 - shift by omega]
        exact hv
      have hvalue' : value + v % 128 * 2 ^ shift < 2 ^ (shift + 7) := by
        have hmul : v % 128 * 2 ^ shift ≤ 127 * 2 ^ shift := mul_le_mul_right _ (by omega)
        rw [pow_add]
        omega
      simp only [hget, hbyte, hmod, if_neg hsmall, hor, h0, ↓reduceIte]
      rw [if_neg (by omega), ih _ _ _ _ hdrop (by omega) (by omega) hvalue' hq (fun _ => h0)]
      simp only [length_cons, Except.ok.injEq, Prod.mk.injEq]
      refine ⟨?_, by omega⟩
      rw [pow_add]
      have hdm : v = 128 * (v / 128) + v % 128 := by omega
      calc value + v % 128 * 2 ^ shift + v / 128 * (2 ^ shift * 2 ^ 7)
          = value + (128 * (v / 128) + v % 128) * 2 ^ shift := by ring
        _ = value + v * 2 ^ shift := by rw [← hdm]

lemma readVarint_eq (v offset : ℕ) (hb : bytes.drop offset = varint v ++ post) (hv : v < 2 ^ 64) :
    readVarint bytes offset = .ok (v, offset + (varint v).length) := by
  have hloop := readVarintLoop_eq bytes post 10 v 0 0 offset hb rfl (by decide) (by decide) hv (by simp)
  have hcons : varint v = if v / 128 = 0 then [ofNat (v % 128)]
      else ofNat (v % 128 + 128) :: encode 9 (v / 128) := rfl
  rw [readVarint]
  by_cases h0 : v / 128 = 0
  · have hvm : v % 128 = v := by omega
    have hget : bytes[offset]? = some (ofNat v) := by
      rw [← head?_drop, hb, hcons, if_pos h0, hvm, cons_append, head?_cons]
    have hbyte : (ofNat v).toNat = v := by
      rw [toNat_ofNat']
      omega
    simp only [hget, hbyte]
    rw [if_pos (by omega), hcons, if_pos h0]
    rfl
  · have hget : bytes[offset]? = some (ofNat (v % 128 + 128)) := by
      rw [← head?_drop, hb, hcons, if_neg h0, cons_append, head?_cons]
    have hbyte : (ofNat (v % 128 + 128)).toNat = v % 128 + 128 := by
      rw [toNat_ofNat']
      omega
    simp only [hget, hbyte]
    simpa [varint, varintMaxLen] using hloop

lemma stripTens_spec (fuel n e : ℕ) (he : e + fuel = 9) (hn : 0 < n) :
    ∃ n' e', stripTens fuel n e = (n', e') ∧ n * 10 ^ e = n' * 10 ^ e' ∧ 0 < n' ∧ e' ≤ 9 ∧ n' ≤ n ∧
      (e' < 9 → n' % 10 ≠ 0) := by
  induction fuel generalizing n e with
  | zero => exact ⟨n, e, rfl, rfl, hn, by omega, le_refl n, by omega⟩
  | succ fuel ih =>
    rw [stripTens]
    split_ifs with h
    · have hq : 0 < n / 10 := by omega
      obtain ⟨n', e', hs, hmul, hpos, hle, hsmall, hlast⟩ := ih (n / 10) (e + 1) (by omega) hq
      refine ⟨n', e', hs, ?_, hpos, hle, by omega, hlast⟩
      rw [← hmul]
      have hdm : n = n / 10 * 10 := by omega
      calc n * 10 ^ e = n / 10 * 10 * 10 ^ e := by rw [← hdm]
        _ = n / 10 * (10 ^ e * 10) := by ring
    · exact ⟨n, e, rfl, rfl, hn, by omega, le_refl n, by omega⟩

lemma compressAmount_spec (amount : ℕ) (ha : amount ≤ maxCompressibleAmount) :
    ∃ c, compressAmount amount = .ok c ∧ c < 2 ^ 64 - 1 ∧ decompressAmount c = some amount := by
  rw [compressAmount, if_neg (by omega)]
  by_cases h0 : amount = 0
  · exact ⟨0, by rw [if_pos h0], by decide, by rw [h0]; rfl⟩
  rw [if_neg h0]
  obtain ⟨n, e, hs, hmul, hpos, hle, hsmall, hlast⟩ := stripTens_spec 9 amount 0 rfl (by omega)
  simp only [pow_zero, mul_one] at hmul
  simp only [maxCompressibleAmount] at ha
  simp only [hs]
  have hvalue : checkedMul n (10 ^ e) = some amount := by
    rw [checkedMul, ← hmul, if_pos (by omega)]
  by_cases he : e < 9
  · refine ⟨_, by rw [if_pos he], by omega, ?_⟩
    have hx : 1 + (n / 10 * 9 + n % 10 - 1) * 10 + e - 1 = (n / 10 * 9 + n % 10 - 1) * 10 + e := by omega
    have hmod : ((n / 10 * 9 + n % 10 - 1) * 10 + e) % 10 = e := by omega
    have hdiv : ((n / 10 * 9 + n % 10 - 1) * 10 + e) / 10 = n / 10 * 9 + n % 10 - 1 := by omega
    have hq : (n / 10 * 9 + n % 10 - 1) / 9 = n / 10 := by omega
    have hr : (n / 10 * 9 + n % 10 - 1) % 9 = n % 10 - 1 := by omega
    have hn : n / 10 * 10 + (n % 10 - 1 + 1) = n := by omega
    rw [decompressAmount, if_neg (by omega)]
    simp only [hx, hmod, hdiv, if_pos he, hq, hr]
    rw [checkedMul, if_pos (by omega), bind_some, checkedAdd, if_pos (by omega), hn,
      bind_some, hvalue, bind_some, maxCompressibleAmount, if_pos ha]
  · obtain rfl : e = 9 := by omega
    refine ⟨_, by rw [if_neg he], by omega, ?_⟩
    have hx : 1 + (n - 1) * 10 + 9 - 1 = (n - 1) * 10 + 9 := by omega
    have hmod : ((n - 1) * 10 + 9) % 10 = 9 := by omega
    have hdiv : ((n - 1) * 10 + 9) / 10 = n - 1 := by omega
    have hn : n - 1 + 1 = n := by omega
    rw [decompressAmount, if_neg (by omega)]
    simp only [hx, hmod, hdiv, lt_irrefl, ↓reduceIte]
    rw [checkedAdd, if_pos (by omega), hn, bind_some, hvalue, bind_some, maxCompressibleAmount, if_pos ha]

variable {bytes}

lemma readVarintLoop_sound {fuel value shift cursor result stop : ℕ} (hs : shift + 7 * fuel = 70)
    (hvalue : value < 2 ^ shift) (h : readVarintLoop bytes fuel value shift cursor = .ok (result, stop)) :
    ∃ v, result = value + v * 2 ^ shift ∧ v < 2 ^ (64 - shift) ∧ (0 < shift → v ≠ 0) ∧
      bytes.drop cursor = encode fuel v ++ bytes.drop stop ∧ stop = cursor + (encode fuel v).length := by
  induction fuel generalizing value shift cursor with
  | zero => cases h
  | succ fuel ih =>
    have hor (p : ℕ) : value ||| p <<< shift = value + p * 2 ^ shift := by
      rw [shiftLeft_eq, Nat.mul_comm p, Nat.or_comm, ← two_pow_add_eq_or_of_lt hvalue]
      ring
    rw [readVarintLoop] at h
    cases hget : bytes[cursor]? with
    | none =>
      rw [hget] at h
      cases h
    | some byte =>
      have hbyte := byte.toNat_lt
      have hdrop : bytes.drop cursor = byte :: bytes.drop (cursor + 1) := by
        obtain ⟨hlt, rfl⟩ := List.getElem?_eq_some_iff.mp hget
        exact drop_eq_getElem_cons hlt
      simp only [hget, hor] at h
      split_ifs at h with hlarge hlast hzero
      · obtain ⟨rfl, rfl⟩ := Prod.mk.inj (Except.ok.inj h)
        rw [mod_eq_of_lt hlast] at hlarge hzero ⊢
        refine ⟨byte.toNat, rfl, ?_, fun hpos hz => hzero ⟨hpos, hz⟩, ?_⟩
        · rcases lt_or_ge shift 63 with hlt | hge
          · calc byte.toNat < 2 ^ 7 := hlast
              _ ≤ 2 ^ (64 - shift) := Nat.pow_le_pow_right (by decide) (by omega)
          · obtain rfl : shift = 63 := by omega
            omega
        · rw [encode, if_pos (by omega), mod_eq_of_lt hlast, UInt8.ofNat_toNat]
          exact ⟨hdrop, rfl⟩
      · have hvalue' : value + byte.toNat % 128 * 2 ^ shift < 2 ^ (shift + 7) := by
          have hmul : byte.toNat % 128 * 2 ^ shift ≤ 127 * 2 ^ shift := mul_le_mul_right _ (by omega)
          rw [pow_add]
          omega
        obtain ⟨v, rfl, hv, hnz, hrest, hstop⟩ := ih (by omega) hvalue' h
        have hv0 := hnz (by omega)
        have hshift : shift + 7 ≤ 63 := by
          by_contra hge
          rw [show 64 - (shift + 7) = 0 by omega] at hv
          omega
        refine ⟨byte.toNat % 128 + 128 * v, ?_, ?_, fun _ => by omega, ?_⟩
        · ring
        · have hpow : 2 ^ (64 - shift) = 128 * 2 ^ (64 - (shift + 7)) := by
            rw [show (128 : ℕ) = 2 ^ 7 from rfl, ← pow_add]
            congr 1
            omega
          omega
        · have hdiv : (byte.toNat % 128 + 128 * v) / 128 = v := by omega
          have hmod : (byte.toNat % 128 + 128 * v) % 128 + 128 = byte.toNat := by omega
          rw [encode, hdiv, if_neg hv0, hmod, UInt8.ofNat_toNat, hdrop, hrest, length_cons]
          exact ⟨rfl, by omega⟩

lemma readVarint_sound {offset value stop : ℕ} (h : readVarint bytes offset = .ok (value, stop)) :
    value < 2 ^ 64 ∧ bytes.drop offset = varint value ++ bytes.drop stop ∧
      stop = offset + (varint value).length := by
  have hloop : readVarintLoop bytes varintMaxLen 0 0 offset = .ok (value, stop) := by
    rw [readVarint] at h
    cases hget : bytes[offset]? with
    | none =>
      rw [hget] at h
      cases h
    | some first =>
      simp only [hget] at h
      split_ifs at h with hsmall
      · obtain ⟨rfl, rfl⟩ := Prod.mk.inj (Except.ok.inj h)
        simp [varintMaxLen, readVarintLoop, hget, hsmall, mod_eq_of_lt hsmall]
      · exact h
  obtain ⟨v, rfl, hv, -, hdrop, hstop⟩ := readVarintLoop_sound (by decide) (by decide) hloop
  rw [zero_add, pow_zero, mul_one]
  exact ⟨hv, hdrop, hstop⟩

structure Scaled (amount n e : ℕ) : Prop where
  pos : 0 < n
  exponent_le : e ≤ 9
  amount_eq : amount = n * 10 ^ e
  last_digit : e < 9 → n % 10 ≠ 0

lemma Scaled.unique {amount n e n' e' : ℕ} (h : Scaled amount n e) (h' : Scaled amount n' e') : n = n' ∧ e = e' := by
  have hexp : ∀ {n e n' e'}, Scaled amount n e → Scaled amount n' e' → ¬e < e' := by
    intro n e n' e' h h' hlt
    have heq : n * 10 ^ e = n' * 10 ^ (e' - e) * 10 ^ e := by
      rw [Nat.mul_assoc, ← Nat.pow_add, Nat.sub_add_cancel hlt.le, ← h.amount_eq, h'.amount_eq]
    have hn := eq_of_mul_eq_mul_right (Nat.pow_pos (by decide)) heq
    apply h.last_digit (by have := h'.exponent_le; omega)
    rw [hn, show e' - e = (e' - e - 1) + 1 by omega, Nat.pow_succ, ← Nat.mul_assoc]
    exact mul_mod_left _ _
  obtain rfl : e = e' := Nat.le_antisymm (Nat.not_lt.mp (hexp h' h)) (Nat.not_lt.mp (hexp h h'))
  exact ⟨eq_of_mul_eq_mul_right (Nat.pow_pos (by decide)) (h.amount_eq.symm.trans h'.amount_eq), rfl⟩

variable {c amount : ℕ} (h : decompressAmount c = some amount)

include h

lemma decompressAmount_sound :
    amount ≤ maxCompressibleAmount ∧ (c = 0 ∧ amount = 0 ∨ ∃ n e, Scaled amount n e ∧
      c = if e < 9 then 1 + (n / 10 * 9 + n % 10 - 1) * 10 + e else 1 + (n - 1) * 10 + 9) := by
  rw [decompressAmount] at h
  split_ifs at h with hc
  · cases h
    exact ⟨zero_le _, .inl ⟨hc, rfl⟩⟩
  by_cases hexp : (c - 1) % 10 < 9
  · simp only [if_pos hexp] at h
    obtain ⟨n, hn, h⟩ := bind_eq_some_iff.mp h
    obtain ⟨tens, htens, hadd⟩ := bind_eq_some_iff.mp hn
    obtain ⟨value, hmul, h⟩ := bind_eq_some_iff.mp h
    unfold checkedMul at htens hmul
    unfold checkedAdd at hadd
    split_ifs at htens hadd hmul h with h1 h2 h3 h4
    cases htens
    cases hadd
    cases hmul
    cases h
    refine ⟨h4, .inr ⟨_, (c - 1) % 10, ⟨by omega, by omega, rfl, fun _ => by omega⟩, ?_⟩⟩
    rw [if_pos hexp]
    omega
  · simp only [if_neg hexp] at h
    obtain ⟨n, hadd, h⟩ := bind_eq_some_iff.mp h
    obtain ⟨value, hmul, h⟩ := bind_eq_some_iff.mp h
    unfold checkedMul at hmul
    unfold checkedAdd at hadd
    split_ifs at hadd hmul h with h1 h2 h3
    cases hadd
    cases hmul
    cases h
    refine ⟨h3, .inr ⟨_, (c - 1) % 10, ⟨by omega, by omega, rfl, fun _ => by omega⟩, ?_⟩⟩
    rw [if_neg hexp]
    omega

lemma compressAmount_of_decompressAmount : compressAmount amount = .ok c := by
  obtain ⟨hle, ⟨rfl, rfl⟩ | ⟨n, e, hscaled, hc⟩⟩ := decompressAmount_sound h
  · rfl
  · have hpos : 0 < amount := by
      rw [hscaled.amount_eq]
      exact Nat.mul_pos hscaled.pos (Nat.pow_pos (by decide))
    obtain ⟨n', e', hstrip, hmul, hpos', hle', -, hlast⟩ := stripTens_spec 9 amount 0 rfl hpos
    have hscaled' : Scaled amount n' e' := ⟨hpos', hle', by simpa using hmul, hlast⟩
    obtain ⟨rfl, rfl⟩ := hscaled.unique hscaled'
    rw [compressAmount, if_neg (by omega), if_neg (by omega), hstrip, hc]
    dsimp only
    split_ifs <;> rfl

end BitcoinRs.Utxo
