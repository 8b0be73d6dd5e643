import Mathlib.Data.Nat.Bitwise
import BitcoinRs.Library.Fallible
import Mathlib.Data.List.Sort
import Mathlib.Algebra.Order.BigOperators.Group.List
import Mathlib.Tactic.Ring

namespace BitcoinRs.Mining

open Fallible Nat List

inductive LedgerError
  | emptyWindow
  | invalidInput (message : String)
  | overflow (message : String)

/-- One round of `mul_div_rem`: quotient and remainder are 128 bits wide. -/
def mulDivStep (limbs : List ℕ) (d : ℕ) (acc : ℕ × ℕ) (index : ℕ) : ℕ × ℕ :=
  let bit := limbs.getD (index / 64) 0 / 2 ^ (index % 64) % 2
  let carry := acc.2 / 2 ^ 127
  let remainder := acc.2 * 2 % 2 ^ 128 + bit
  let quotient := acc.1 * 2 % 2 ^ 128
  if carry = 1 ∨ d ≤ remainder then (quotient + 1, (remainder + 2 ^ 128 - d) % 2 ^ 128) else (quotient, remainder)

def mulDivRem (a b d : ℕ) : Except LedgerError (ℕ × ℕ) :=
  if d = 0 then .error (.invalidInput "division by zero")
  else if d < b then .error (.invalidInput "weight exceeds total")
  else
    let low := a * (b % 2 ^ 64)
    let high := a * (b / 2 ^ 64)
    let mid := high + low / 2 ^ 64
    let limbs := [low % 2 ^ 64, mid % 2 ^ 64, mid / 2 ^ 64]
    .ok ((range 192).reverse.foldl (mulDivStep limbs d) (0, 0))

lemma limb_bit (n : ℕ) {index : ℕ} (h : index < 192) :
    [n % 2 ^ 64, n / 2 ^ 64 % 2 ^ 64, n / 2 ^ 64 / 2 ^ 64].getD (index / 64) 0 / 2 ^ (index % 64) % 2 =
      n / 2 ^ index % 2 := by
  have hmod : index % 64 < 64 := mod_lt _ (by decide)
  have hsplit := div_add_mod index 64
  have hcases : index / 64 = 0 ∨ index / 64 = 1 ∨ index / 64 = 2 := by omega
  simp only [← toNat_testBit]
  rcases hcases with hlimb | hlimb | hlimb <;> rw [hlimb] at hsplit ⊢ <;>
    simp only [getD_cons_zero, getD_cons_succ, testBit_mod_two_pow, testBit_div_two_pow, hmod, decide_true,
      Bool.true_and]
  all_goals
    congr 2
    omega

lemma mulDivStep_eq {limbs : List ℕ} {d n index : ℕ} (hd : d < 2 ^ 128) (hpos : 0 < d) (hquotient : n / d < 2 ^ 64)
    (hbit : limbs.getD (index / 64) 0 / 2 ^ (index % 64) % 2 = n / 2 ^ index % 2) :
    mulDivStep limbs d (n / 2 ^ (index + 1) / d, n / 2 ^ (index + 1) % d) index =
      (n / 2 ^ index / d, n / 2 ^ index % d) := by
  have hhalf : n / 2 ^ (index + 1) = n / 2 ^ index / 2 := by rw [Nat.pow_succ, Nat.div_div_eq_div_mul]
  have hsmall : n / 2 ^ index / 2 / d < 2 ^ 64 :=
    (Nat.div_le_div_right ((Nat.div_le_self _ _).trans (Nat.div_le_self _ _))).trans_lt hquotient
  rw [hhalf]
  unfold mulDivStep
  rw [hbit]
  generalize n / 2 ^ index = m at hsmall
  have hm := div_add_mod m 2
  have hdiv := div_add_mod (m / 2) d
  have hr := mod_lt (m / 2) hpos
  generalize m / 2 / d = q at *
  generalize m / 2 % d = r at *
  generalize m % 2 = bit at *
  dsimp only
  split_ifs with hge
  · obtain ⟨hq, hrem⟩ := (Nat.div_mod_unique hpos).mpr
      (show 2 * r + bit - d + d * (2 * q + 1) = m ∧ 2 * r + bit - d < d by
        rw [mul_succ, Nat.mul_left_comm]
        omega)
    exact Prod.ext (by omega) (by omega)
  · obtain ⟨hq, hrem⟩ := (Nat.div_mod_unique hpos).mpr
      (show 2 * r + bit + d * (2 * q) = m ∧ 2 * r + bit < d by
        rw [Nat.mul_left_comm]
        omega)
    exact Prod.ext (by omega) (by omega)

lemma mulDivRem_eq {a b d : ℕ} (ha : a < 2 ^ 64) (hle : b ≤ d) (hpos : 0 < d) (hd : d < 2 ^ 128) :
    mulDivRem a b d = .ok (a * b / d, a * b % d) := by
  have hsplit : a * b = a * (b % 2 ^ 64) + 2 ^ 64 * (a * (b / 2 ^ 64)) := by
    rw [mul_left_comm, ← mul_add, mod_add_div]
  have hmid : a * (b / 2 ^ 64) + a * (b % 2 ^ 64) / 2 ^ 64 = a * b / 2 ^ 64 := by omega
  have hquotient : a * b / d < 2 ^ 64 :=
    (Nat.div_le_of_le_mul (by rw [Nat.mul_comm d]; exact Nat.mul_le_mul_left a hle)).trans_lt ha
  have hproduct : a * b < 2 ^ 192 := by
    calc a * b ≤ a * d := Nat.mul_le_mul_left a hle
      _ < 2 ^ 64 * 2 ^ 128 := mul_lt_mul'' ha hd
  -- what is left of the loop before bit `count`
  have hloop : ∀ count ≤ 192, (range count).reverse.foldl
      (mulDivStep [a * b % 2 ^ 64, a * b / 2 ^ 64 % 2 ^ 64, a * b / 2 ^ 64 / 2 ^ 64] d)
      (a * b / 2 ^ count / d, a * b / 2 ^ count % d) = (a * b / d, a * b % d) := by
    intro count
    induction count with
    | zero => simp
    | succ count ih =>
      intro hcount
      rw [range_succ, reverse_append, reverse_singleton, singleton_append, foldl_cons,
        mulDivStep_eq hd hpos hquotient (limb_bit _ hcount)]
      exact ih (by omega)
  have hrun := hloop 192 le_rfl
  rw [div_eq_of_lt hproduct, Nat.zero_div, zero_mod] at hrun
  have hlow : a * (b % 2 ^ 64) % 2 ^ 64 = a * b % 2 ^ 64 := by omega
  rw [mulDivRem, if_neg hpos.ne', if_neg hle.not_gt]
  dsimp only
  rw [hmid, hlow, hrun]

structure Part (Miner : Type) where
  miner : Miner
  amount : ℕ
  remainder : ℕ

variable {Miner : Type}

def Part.credited (part : Part Miner) : Part Miner := { part with amount := part.amount + 1 }

def totalWeight (weights : List (Miner × ℕ)) : ℕ := (weights.map Prod.snd).sum

variable {weights : List (Miner × ℕ)}

section

variable [LinearOrder Miner]

def windowStep (acc : ℕ × Option Miner) (entry : Miner × ℕ) : Except LedgerError (ℕ × Option Miner) :=
  if entry.2 = 0 then .error (.invalidInput "zero window weight")
  else if acc.2.any (entry.1 ≤ ·) then .error (.invalidInput "window weights must be strictly ascending")
  else if 2 ^ 128 ≤ acc.1 + entry.2 then .error (.overflow "window total")
  else .ok (acc.1 + entry.2, some entry.1)

def partStep (netSat total : ℕ) (acc : List (Part Miner) × ℕ) (entry : Miner × ℕ) :
    Except LedgerError (List (Part Miner) × ℕ) := do
  let share ← mulDivRem netSat entry.2 total
  if 2 ^ 64 ≤ share.1 then .error (.overflow "allocation")
  else if 2 ^ 64 ≤ acc.2 + share.1 then .error (.overflow "allocation sum")
  else .ok (acc.1 ++ [⟨entry.1, share.1, share.2⟩], acc.2 + share.1)

/-- The larger remainder first, then the lower account. -/
def splitLe (x y : Part Miner × ℕ) : Bool :=
  y.1.remainder < x.1.remainder || x.1.remainder = y.1.remainder && x.1.miner ≤ y.1.miner

variable (parts : List (Part Miner))

def splitOrder : List ℕ := (parts.zipIdx.mergeSort splitLe).map Prod.snd

def creditStep (index : ℕ) : Except LedgerError (List (Part Miner)) :=
  if parts[index]?.any (2 ^ 64 ≤ ·.amount + 1) then .error (.overflow "allocation residual")
  else .ok (parts.modify index Part.credited)

def splitReward (netSat : ℕ) (weights : List (Miner × ℕ)) : Except LedgerError (List (Miner × ℕ)) :=
  if weights.isEmpty then .error .emptyWindow
  else do
    let window ← weights.foldlM windowStep (0, none)
    let floors ← weights.foldlM (partStep netSat window.1) ([], 0)
    if netSat < floors.2 then .error (.overflow "allocation floors exceed net")
    else if floors.1.length < netSat - floors.2 then .error (.overflow "residual exceeds participants")
    else do
      let parts ← ((splitOrder floors.1).take (netSat - floors.2)).foldlM creditStep floors.1
      .ok ((parts.filter (0 < ·.amount)).map fun part => (part.miner, part.amount))

lemma windowStep_run (hpos : ∀ e ∈ weights, 0 < e.2)
    (hasc : weights.Pairwise fun e f => e.1 < f.1) (total : ℕ) (previous : Option Miner)
    (hprevious : ∀ m ∈ previous, ∀ e ∈ weights, m < e.1) (hfit : total + totalWeight weights < 2 ^ 128) :
    ∃ last, weights.foldlM windowStep (total, previous) = .ok (total + totalWeight weights, last) := by
  induction weights generalizing total previous with
  | nil => exact ⟨previous, rfl⟩
  | cons e weights ih =>
    obtain ⟨hhead, htail⟩ := pairwise_cons.mp hasc
    rw [totalWeight, map_cons, sum_cons, ← add_assoc] at hfit ⊢
    have hstep : windowStep (total, previous) e = .ok (total + e.2, some e.1) := by
      rw [windowStep, if_neg (hpos e mem_cons_self).ne', if_neg, if_neg (by omega)]
      cases previous with
      | none => simp
      | some m => simpa using hprevious m rfl e mem_cons_self
    rw [foldlM_cons, hstep]
    exact ih (fun f hf => hpos f (mem_cons_of_mem _ hf)) htail _ _ (by simpa using hhead) hfit

end

variable (netSat total : ℕ)

def partOf (entry : Miner × ℕ) : Part Miner := ⟨entry.1, netSat * entry.2 / total, netSat * entry.2 % total⟩

lemma partStep_run {netSat total : ℕ} (hnet : netSat < 2 ^ 64) (hpos : 0 < total) (hfit : total < 2 ^ 128)
    (hle : ∀ e ∈ weights, e.2 ≤ total) (parts : List (Part Miner)) (sum : ℕ)
    (hsum : sum + (weights.map fun e => netSat * e.2 / total).sum ≤ netSat) :
    weights.foldlM (partStep netSat total) (parts, sum) =
      .ok (parts ++ weights.map (partOf netSat total), sum + (weights.map fun e => netSat * e.2 / total).sum) := by
  induction weights generalizing parts sum with
  | nil => simp
  | cons e weights ih =>
    rw [map_cons, sum_cons, ← add_assoc] at hsum
    have hstep : partStep netSat total (parts, sum) e =
        .ok (parts ++ [partOf netSat total e], sum + netSat * e.2 / total) := by
      rw [partStep, mulDivRem_eq hnet (hle e mem_cons_self) hpos hfit, ok_bind, if_neg (by omega), if_neg (by omega)]
      rfl
    rw [foldlM_cons, hstep, ok_bind, ih (fun f hf => hle f (mem_cons_of_mem _ hf)) _ _ hsum]
    simp [add_assoc]

def floorSum (netSat : ℕ) (weights : List (Miner × ℕ)) : ℕ :=
  (weights.map fun e => netSat * e.2 / totalWeight weights).sum

lemma floors_add_remainders (weights : List (Miner × ℕ)) :
    (weights.map fun e => netSat * e.2 / total).sum * total + (weights.map fun e => netSat * e.2 % total).sum =
      netSat * totalWeight weights := by
  induction weights with
  | nil => simp [totalWeight]
  | cons e weights ih =>
    have he := div_add_mod' (netSat * e.2) total
    simp only [totalWeight, map_cons, sum_cons, add_mul, mul_add] at ih ⊢
    omega

/-- The remainders add up to the residual times the total, and each is below the total. -/
lemma floorSum_bounds (netSat : ℕ) (h : 0 < totalWeight weights) :
    floorSum netSat weights ≤ netSat ∧ netSat - floorSum netSat weights ≤ weights.length := by
  have hsum := floors_add_remainders netSat (totalWeight weights) weights
  have hremainders := sum_le_card_nsmul (weights.map fun e => netSat * e.2 % totalWeight weights) (totalWeight weights)
    (forall_mem_map.mpr fun e _ => (mod_lt _ h).le)
  rw [length_map] at hremainders
  change _ ≤ weights.length * _ at hremainders
  change floorSum netSat weights * _ + _ = _ at hsum
  refine ⟨Nat.le_of_mul_le_mul_right (by omega) h, Nat.le_of_mul_le_mul_right ?_ h⟩
  rw [Nat.sub_mul]
  omega

variable {parts : List (Part Miner)}

lemma sum_modify_credited {index : ℕ} (h : index < parts.length) :
    ((parts.modify index Part.credited).map Part.amount).sum = (parts.map Part.amount).sum + 1 := by
  induction parts generalizing index with
  | nil => cases h
  | cons part parts ih =>
    cases index with
    | zero => simp [Part.credited]; omega
    | succ index => simp [ih (lt_of_succ_lt_succ h)]; omega

def creditAll (taken : List ℕ) (parts : List (Part Miner)) : List (Part Miner) :=
  parts.mapIdx fun index part => if index ∈ taken then part.credited else part

lemma creditStep_run {taken : List ℕ} (hnodup : taken.Nodup)
    (hroom : ∀ index ∈ taken, ∃ part, parts[index]? = some part ∧ part.amount + 1 < 2 ^ 64) :
    taken.foldlM creditStep parts = .ok (creditAll taken parts) ∧
      ((creditAll taken parts).map Part.amount).sum = (parts.map Part.amount).sum + taken.length := by
  induction taken generalizing parts with
  | nil =>
    have hsame : creditAll [] parts = parts := ext_getElem? fun i => by simp [creditAll]
    simp [hsame]
  | cons index taken ih =>
    obtain ⟨hnew, hnodup⟩ := nodup_cons.mp hnodup
    obtain ⟨part, hpart, hsmall⟩ := hroom index mem_cons_self
    have hstep : creditStep parts index = .ok (parts.modify index Part.credited) := by
      rw [creditStep, hpart, if_neg (by simp; omega)]
    have hall : creditAll taken (parts.modify index Part.credited) = creditAll (index :: taken) parts := by
      refine ext_getElem? fun i => ?_
      by_cases hi : index = i
      · subst hi
        simp [creditAll, hnew, hpart]
      · simp [creditAll, hi, Ne.symm hi]
    have hrest := @ih (parts.modify index Part.credited) hnodup fun i hi => by
      have hne : index ≠ i := fun h => hnew (h ▸ hi)
      simpa [hne] using hroom i (mem_cons_of_mem _ hi)
    rw [hall, sum_modify_credited (List.getElem?_eq_some_iff.mp hpart).1] at hrest
    rw [foldlM_cons, hstep]
    exact ⟨hrest.1, by rw [length_cons]; omega⟩

def shareOf (extra : List ℕ) (index : ℕ) (entry : Miner × ℕ) : ℕ :=
  netSat * entry.2 / total + if index ∈ extra then 1 else 0

def partsOf (netSat : ℕ) (weights : List (Miner × ℕ)) : List (Part Miner) :=
  weights.map (partOf netSat (totalWeight weights))

lemma creditAll_pairs (extra : List ℕ) (netSat : ℕ) (weights : List (Miner × ℕ)) :
    (creditAll extra (partsOf netSat weights)).map (fun part => (part.miner, part.amount)) =
      weights.mapIdx fun i e => (e.1, shareOf netSat (totalWeight weights) extra i e) := by
  refine ext_getElem? fun i => ?_
  by_cases hi : i ∈ extra <;> simp [creditAll, hi, shareOf, partsOf, partOf, Part.credited, Function.comp_def]

variable [LinearOrder Miner]

lemma splitOrder_perm (parts : List (Part Miner)) : (splitOrder parts).Perm (range parts.length) := by
  have hperm := (mergeSort_perm parts.zipIdx splitLe).map Prod.snd
  rwa [zipIdx_map_snd, ← range_eq_range'] at hperm

lemma splitOrder_le {count i j : ℕ} {p q : Part Miner} (hp : parts[i]? = some p)
    (hq : parts[j]? = some q) (hi : i ∈ (splitOrder parts).take count) (hj : j ∉ (splitOrder parts).take count) :
    q.remainder < p.remainder ∨ p.remainder = q.remainder ∧ p.miner ≤ q.miner := by
  have hsorted : (parts.zipIdx.mergeSort splitLe).Pairwise fun x y => splitLe x y = true :=
    pairwise_mergeSort (fun a b c => by simp only [splitLe]; grind) (fun a b => by simp only [splitLe]; grind) _
  rw [← take_append_drop count (parts.zipIdx.mergeSort splitLe)] at hsorted
  rw [splitOrder, ← map_take, mem_map] at hi hj
  obtain ⟨⟨p', i⟩, hi, rfl⟩ := hi
  have hmem (x : Part Miner × ℕ) : x ∈ parts.zipIdx.mergeSort splitLe ↔ parts[x.2]? = some x.1 :=
    (mergeSort_perm parts.zipIdx splitLe).mem_iff.trans mem_zipIdx_iff_getElem?
  obtain rfl : p' = p := Option.some.inj (((hmem _).mp (mem_of_mem_take hi)).symm.trans hp)
  have hq' := (hmem (q, j)).mpr hq
  rw [← take_append_drop count (parts.zipIdx.mergeSort splitLe), mem_append] at hq'
  have hlater := hq'.resolve_left fun h => hj ⟨_, h, rfl⟩
  simpa [splitLe] using (pairwise_append.mp hsorted).2.2 _ hi _ hlater

lemma sum_filter_pos (amounts : List ℕ) : (amounts.filter (0 < ·)).sum = amounts.sum := by
  induction amounts with
  | nil => rfl
  | cons amount amounts ih =>
    rw [filter_cons]
    split_ifs with h
    · rw [sum_cons, sum_cons, ih]
    · simp_all

section

variable {netSat}

def extraOf (netSat : ℕ) (weights : List (Miner × ℕ)) : List ℕ :=
  (splitOrder (partsOf netSat weights)).take (netSat - floorSum netSat weights)

lemma extraOf_nodup : (extraOf netSat weights).Nodup :=
  ((splitOrder_perm _).nodup_iff.mpr nodup_range).sublist (take_sublist _ _)

variable (netSat) in
lemma length_extraOf (h : 0 < totalWeight weights) :
    (extraOf netSat weights).length = netSat - floorSum netSat weights := by
  rw [extraOf, length_take, (splitOrder_perm _).length_eq, length_range, partsOf, length_map,
    min_eq_left (floorSum_bounds netSat h).2]

lemma credit_partsOf (hnet : netSat < 2 ^ 64) (h : 0 < totalWeight weights) :
    (extraOf netSat weights).foldlM creditStep (partsOf netSat weights) =
        .ok (creditAll (extraOf netSat weights) (partsOf netSat weights)) ∧
      ((creditAll (extraOf netSat weights) (partsOf netSat weights)).map Part.amount).sum = netSat := by
  have hbounds := floorSum_bounds netSat h
  have hlength := length_extraOf netSat h
  have hsum : ((partsOf netSat weights).map Part.amount).sum = floorSum netSat weights := by
    rw [partsOf, map_map]
    rfl
  obtain ⟨hrun, hcredited⟩ := creditStep_run extraOf_nodup fun index (hindex : index ∈ extraOf netSat weights) => by
    have hlt := mem_range.mp ((splitOrder_perm _).mem_iff.mp (mem_of_mem_take hindex))
    have hfloor := single_le_sum (by simp) _ (mem_map_of_mem (f := Part.amount) (getElem_mem hlt))
    have hone := length_pos_of_mem hindex
    exact ⟨_, getElem?_eq_getElem hlt, by omega⟩
  exact ⟨hrun, by omega⟩

lemma splitReward_eq (hnet : netSat < 2 ^ 64) (hpos : ∀ e ∈ weights, 0 < e.2)
    (hasc : weights.Pairwise fun e f => e.1 < f.1) (hfit : totalWeight weights < 2 ^ 128) (h : 0 <
      totalWeight weights) :
    splitReward netSat weights = .ok (((creditAll (extraOf netSat weights) (partsOf netSat weights)).filter (0 <
      ·.amount)).map
      fun part => (part.miner, part.amount)) := by
  have hle (e : Miner × ℕ) (he : e ∈ weights) : e.2 ≤ totalWeight weights :=
    single_le_sum (by simp) _ (mem_map_of_mem he)
  have hne : ¬weights.isEmpty := by
    rintro hempty
    rw [isEmpty_iff.mp hempty] at h
    cases h
  obtain ⟨hfloors, hcount⟩ := floorSum_bounds netSat h
  obtain ⟨last, hwindow⟩ := windowStep_run hpos hasc 0 none (by simp) (by rwa [zero_add])
  have hparts := partStep_run hnet h hfit hle [] 0 ((zero_add _).trans_le hfloors)
  rw [zero_add] at hwindow hparts
  change _ = Except.ok (partsOf netSat weights, floorSum netSat weights) at hparts
  rw [splitReward, if_neg hne, hwindow, ok_bind, hparts, ok_bind, if_neg hfloors.not_gt,
    if_neg (by simpa [partsOf] using hcount)]
  change ((extraOf netSat weights).foldlM _ _ >>= _) = _
  rw [(credit_partsOf hnet h).1]
  rfl

end

/-- Accounts paid nothing are left out; `extra` are the positions of those paid one unit above the floor. -/
structure FairSplit (netSat total : ℕ) (weights : List (Miner × ℕ)) (extra : List ℕ) (out : List (Miner × ℕ)) :
    Prop where
  paid : out = (weights.mapIdx fun i e => (e.1, shareOf netSat total extra i e)).filter (0 < ·.2)
  sum : (out.map Prod.snd).sum = netSat
  largest : ∀ i j e f, weights[i]? = some e → weights[j]? = some f → i ∈ extra → j ∉ extra →
    netSat * f.2 % total < netSat * e.2 % total ∨ netSat * e.2 % total = netSat * f.2 % total ∧ e.1 ≤ f.1
  monotone : ∀ i j e f, weights[i]? = some e → weights[j]? = some f → e.2 < f.2 →
    shareOf netSat total extra i e ≤ shareOf netSat total extra j f

lemma quotient_lt {a b n d : ℕ} (hn : 0 < n) (hlt : a < b) (h : n * b % d ≤ n * a % d) : n * a / d < n * b / d := by
  have hless := (Nat.mul_lt_mul_left hn).mpr hlt
  have ha := div_add_mod (n * a) d
  have hb := div_add_mod (n * b) d
  by_contra hge
  have hmul := Nat.mul_le_mul_left d (Nat.le_of_not_lt hge)
  omega

theorem splitReward_fair (netSat : ℕ) (hnet : netSat < 2 ^ 64) (weights : List (Miner × ℕ)) (hne : weights ≠ [])
    (hpos : ∀ e ∈ weights, 0 < e.2) (hasc : weights.Pairwise fun e f => e.1 < f.1) (hfit : totalWeight weights <
      2 ^ 128) :
    (∃ extra out, splitReward netSat weights = .ok out ∧ FairSplit netSat (totalWeight weights) weights extra out) ∧
      (∀ a b d, a < 2 ^ 64 → b ≤ d → 0 < d → d < 2 ^ 128 → mulDivRem a b d = .ok (a * b / d, a * b % d)) ∧
      (∀ net, splitReward net ([] : List (Miner × ℕ)) = .error .emptyWindow) ∧
      ∀ a b, mulDivRem a b 0 = .error (.invalidInput "division by zero") := by
  refine ⟨?_, fun a b d ha hb hd hd' => mulDivRem_eq ha hb hd hd', fun _ => rfl, fun _ _ => rfl⟩
  have htotal : 0 < totalWeight weights := by
    obtain ⟨e, weights, rfl⟩ := exists_cons_of_ne_nil hne
    exact Nat.add_pos_left (hpos e mem_cons_self) _
  have hlargest (i j : ℕ) (e f : Miner × ℕ) (he : weights[i]? = some e) (hf : weights[j]? = some f)
      (hi : i ∈ extraOf netSat weights) (hj : j ∉ extraOf netSat weights) :=
    splitOrder_le (p := partOf netSat (totalWeight weights) e) (q := partOf netSat (totalWeight weights) f)
      (by simp [partsOf, he]) (by simp [partsOf, hf]) hi hj
  refine ⟨extraOf netSat weights, _, splitReward_eq hnet hpos hasc hfit htotal, ?_, ?_, hlargest, ?_⟩
  · rw [← creditAll_pairs, filter_map]
    rfl
  · rw [map_map]
    change (((creditAll _ _).filter ((0 < ·) ∘ Part.amount)).map Part.amount).sum = _
    rw [← filter_map, sum_filter_pos, (credit_partsOf hnet htotal).2]
  · intro i j e f he hf hlt
    have hquotient : netSat * e.2 / totalWeight weights ≤ netSat * f.2 / totalWeight weights :=
      Nat.div_le_div_right (Nat.mul_le_mul_left _ hlt.le)
    unfold shareOf
    split_ifs with hi hj
    · omega
    · have hone := length_pos_of_mem hi
      rw [length_extraOf netSat htotal] at hone
      exact quotient_lt (by omega) hlt ((hlargest i j e f he hf hi hj).elim le_of_lt fun h => h.1.ge)
    · omega
    · omega

theorem splitReward_fair_thirds : ∃ extra out, splitReward 10 [(1, 1), (2, 2)] = .ok out ∧
    FairSplit 10 3 [(1, 1), (2, 2)] extra out :=
  (splitReward_fair 10 (by decide) [(1, 1), (2, 2)] (by decide) (by decide) (by decide) (by decide)).1

theorem splitReward_refuses : splitReward 10 ([] : List (ℕ × ℕ)) = .error .emptyWindow ∧
    mulDivRem 1 0 0 = .error (.invalidInput "division by zero") := ⟨rfl, rfl⟩

end BitcoinRs.Mining
