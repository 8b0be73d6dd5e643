import BitcoinRs.Library.Polyline
import BitcoinRs.Mempool.Linearize
import Mathlib.Data.Real.Basic

namespace BitcoinRs.Mempool

open Fallible List FeeWeight

/-- The rounds of `points` after the point `last` was pushed. -/
def pointsFrom (last : FeeWeight) : List FeeWeight → Except FeeDiagramError (List FeeWeight)
  | [] => .ok [last]
  | chunk :: chunks =>
    if chunk.weight = 0 then .error .weight
    else do
      let next ← last.checkedAdd chunk
      let rest ← pointsFrom next chunks
      .ok (last :: rest)

def points (chunks : List FeeWeight) : Except FeeDiagramError (List FeeWeight) := pointsFrom .default chunks

def valueBetween (start stop : FeeWeight) (weight : ℕ) : Except FeeDiagramError (ℤ × ℤ) := do
  let span : ℤ := stop.weight - start.weight
  let base ← checkedI128 (start.fee * span)
  let delta ← checkedI128 (stop.fee - start.fee)
  let rise ← checkedI128 (delta * (weight - start.weight))
  let fee ← checkedI128 (base + rise)
  .ok (fee, span)

/-- The points ascend, so `partition_point` counts the leading ones. -/
def valueAt (points : List FeeWeight) (weight : ℕ) : Except FeeDiagramError (ℤ × ℤ) :=
  let stop := (points.takeWhile fun point => point.weight ≤ weight).length
  let start := feeAt points (stop - 1)
  points[stop]?.elim (.ok (start.fee, 1)) fun stop => valueBetween start stop weight

def compareLoop (left right : List FeeWeight) : List FeeWeight → Bool → Bool → Except FeeDiagramError (Option Ordering)
  | [], higher, lower => .ok (some (compare higher lower))
  | point :: rest, higher, lower => do
    let leftValue ← valueAt left point.weight
    let rightValue ← valueAt right point.weight
    let leftScaled ← checkedI128 (leftValue.1 * rightValue.2)
    let rightScaled ← checkedI128 (rightValue.1 * leftValue.2)
    let higher := higher || decide (rightScaled < leftScaled)
    let lower := lower || decide (leftScaled < rightScaled)
    if higher && lower then .ok none else compareLoop left right rest higher lower

def compareDiagrams (left right : List FeeWeight) : Except FeeDiagramError (Option Ordering) := do
  let left ← points left
  let right ← points right
  compareLoop left right ((left ++ right).drop 1) false false

noncomputable def FeeWeight.point (total : FeeWeight) : ℝ × ℝ := (total.weight, total.fee)

def cumulative (start : FeeWeight) (chunks : List FeeWeight) : List FeeWeight :=
  chunks.scanl (fun total chunk => ⟨total.fee + chunk.fee, total.weight + chunk.weight⟩) start

/-- The cumulative fee curve. -/
noncomputable def curve (points : List FeeWeight) : ℝ → ℝ := Polyline.value (points.map FeeWeight.point)

/-- What the comparison of two curves should say, from where the first is higher and where it is lower. -/
def Verdict (higher lower : Prop) : Option Ordering → Prop
  | some .gt => higher ∧ ¬lower
  | some .lt => ¬higher ∧ lower
  | some .eq => ¬higher ∧ ¬lower
  | none => higher ∧ lower

abbrev Ascending (points : List FeeWeight) : Prop := Polyline.Ascending (points.map FeeWeight.point)

lemma pointsFrom_ok {last : FeeWeight} {chunks points : List FeeWeight} (h : pointsFrom last chunks = .ok points) :
    points = cumulative last chunks ∧ Ascending points := by
  induction chunks generalizing last points with
  | nil =>
    cases h
    exact ⟨rfl, .singleton _⟩
  | cons chunk chunks ih =>
    unfold pointsFrom at h
    split_ifs at h with hweight
    obtain ⟨next, hnext, h⟩ := bind_eq_ok h
    obtain ⟨rest, hrest, h⟩ := bind_eq_ok h
    obtain ⟨rfl, -⟩ := checkedAdd_ok hnext
    obtain ⟨rfl, hascending⟩ := ih hrest
    cases h
    refine ⟨scanl_cons.symm, hascending.cons ?_⟩
    cases chunks <;> simpa [cumulative, point] using Nat.pos_of_ne_zero hweight

variable {v : ℤ × ℤ} {weight : ℕ}

lemma valueBetween_ok {start stop : FeeWeight} (h : valueBetween start stop weight = .ok v) :
    v = (start.fee * (stop.weight - start.weight) + (stop.fee - start.fee) * (weight - start.weight),
      (stop.weight - start.weight : ℤ)) := by
  obtain ⟨base, hbase, h⟩ := bind_eq_ok h
  obtain ⟨delta, hdelta, h⟩ := bind_eq_ok h
  obtain ⟨rise, hrise, h⟩ := bind_eq_ok h
  obtain ⟨fee, hfee, h⟩ := bind_eq_ok h
  cases h
  rw [checkedI128_ok hfee, checkedI128_ok hrise, checkedI128_ok hdelta, checkedI128_ok hbase]

/-- The fraction `value_at` returns is the value of the curve. -/
lemma valueAt_ok {start : FeeWeight} {rest : List FeeWeight} (hascending : Ascending (start :: rest))
    (hstart : start.weight ≤ weight) (h : valueAt (start :: rest) weight = .ok v) :
    0 < v.2 ∧ (v.1 : ℝ) = v.2 * curve (start :: rest) weight := by
  induction rest generalizing start with
  | nil =>
    simp only [valueAt, hstart, decide_true, takeWhile_cons_of_pos, takeWhile_nil] at h
    cases h
    simp [curve, Polyline.value, point, feeAt]
  | cons stop rest ih =>
    obtain ⟨hlt, htail⟩ := isChain_cons_cons.mp hascending
    by_cases hstop : stop.weight ≤ weight
    · have hstep : valueAt (start :: stop :: rest) weight = valueAt (stop :: rest) weight := by
        simp [valueAt, hstart, hstop, feeAt]
      rw [hstep] at h
      have hvalue := ih htail hstop h
      rwa [curve, map_cons, map_cons, Polyline.value_tail (by simpa [point] using hstop)]
    · have hstep : valueAt (start :: stop :: rest) weight = valueBetween start stop weight := by
        simp [valueAt, hstart, hstop, feeAt]
      obtain rfl := valueBetween_ok (hstep.symm.trans h)
      have hspan : (0 : ℝ) < stop.weight - start.weight := sub_pos.mpr hlt
      refine ⟨by exact_mod_cast hspan, ?_⟩
      rw [curve, map_cons, map_cons,
        Polyline.value_segment hascending (by simpa [point] using (Nat.lt_of_not_le hstop).le)]
      simp only [point]
      push_cast
      field_simp

lemma scaled_lt {a b : ℤ × ℤ} {x y : ℝ} (ha : 0 < a.2 ∧ (a.1 : ℝ) = a.2 * x) (hb : 0 < b.2 ∧ (b.1 : ℝ) = b.2 * y) :
    a.1 * b.2 < b.1 * a.2 ↔ x < y := by
  have hpos : (0 : ℝ) < a.2 * b.2 := by exact_mod_cast mul_pos ha.1 hb.1
  have hx : ((a.1 * b.2 : ℤ) : ℝ) = a.2 * b.2 * x := by
    rw [Int.cast_mul, ha.2, mul_right_comm]
  have hy : ((b.1 * a.2 : ℤ) : ℝ) = a.2 * b.2 * y := by
    rw [Int.cast_mul, hb.2, mul_right_comm, mul_comm (b.2 : ℝ)]
  rw [← Int.cast_lt (R := ℝ), hx, hy, mul_lt_mul_iff_right₀ hpos]

lemma compareLoop_ok {left right : List FeeWeight} (hleft : Ascending (.default :: left))
    (hright : Ascending (.default :: right)) {points : List FeeWeight} {higher lower : Bool} {r : Option Ordering}
    (hone : ¬(higher ∧ lower)) (h : compareLoop (.default :: left) (.default :: right) points higher lower = .ok r) :
    Verdict (higher ∨ ∃ p ∈ points, curve (.default :: right) p.weight < curve (.default :: left) p.weight)
      (lower ∨ ∃ p ∈ points, curve (.default :: left) p.weight < curve (.default :: right) p.weight) r := by
  induction points generalizing higher lower with
  | nil =>
    cases h
    cases higher <;> cases lower <;> simp_all [Verdict, compare]
  | cons point points ih =>
    obtain ⟨leftValue, hl, h⟩ := bind_eq_ok h
    obtain ⟨rightValue, hr, h⟩ := bind_eq_ok h
    obtain ⟨leftScaled, hls, h⟩ := bind_eq_ok h
    obtain ⟨rightScaled, hrs, h⟩ := bind_eq_ok h
    have hlv := valueAt_ok hleft (Nat.zero_le _) hl
    have hrv := valueAt_ok hright (Nat.zero_le _) hr
    rw [checkedI128_ok hls, checkedI128_ok hrs] at h
    have hhigher := scaled_lt hrv hlv
    have hlower := scaled_lt hlv hrv
    simp only [exists_mem_cons_iff, ← or_assoc, ← hhigher, ← hlower]
    dsimp only at h
    split_ifs at h with hboth
    · cases h
      simp only [Bool.and_eq_true, Bool.or_eq_true, decide_eq_true_eq] at hboth
      exact hboth.imp .inl .inl
    · simpa using ih (by simpa using hboth) h

lemma exists_weight_iff {low high marks : List FeeWeight} (hlow : Ascending low) (hhigh : Ascending high)
    (hdefault : .default ∈ low) (hmarks : ∀ p ∈ high ++ low, p ∈ marks) :
    (∃ p ∈ marks, curve low p.weight < curve high p.weight) ↔ ∃ x : ℝ, 0 ≤ x ∧ curve low x < curve high x := by
  constructor
  · rintro ⟨p, -, hlt⟩
    exact ⟨p.weight, Nat.cast_nonneg _, hlt⟩
  · rintro ⟨x, hx, hlt⟩
    by_contra! hnone
    refine hlt.not_ge (Polyline.value_le hhigh hlow ?_ ?_)
    · exact ⟨0, mem_map.mpr ⟨(0, 0), mem_append_right _
        (mem_map.mpr ⟨.default, hdefault, by simp [FeeWeight.point, FeeWeight.default]⟩), rfl⟩, hx⟩
    · rw [← map_append, map_map]
      intro m hm
      obtain ⟨p, hp, rfl⟩ := mem_map.mp hm
      exact hnone p (hmarks p hp)

/-- What keeps every product of `compare` within an `i128`. -/
structure Bounded (chunks : List FeeWeight) : Prop where
  weight_pos : ∀ chunk ∈ chunks, 0 < chunk.weight
  weight_le : (chunks.map FeeWeight.weight).sum ≤ i32Max
  fee_lt : 3 * (chunks.map fun chunk => chunk.fee.natAbs).sum * i32Max * i32Max < 2 ^ 127

def Within (bound : ℕ) (total : FeeWeight) : Prop := total.fee.natAbs ≤ bound ∧ total.weight ≤ i32Max

section

variable {bound : ℕ} (hbound : 3 * bound * i32Max * i32Max < 2 ^ 127)

include hbound

lemma checkedI128_eq {x : ℤ} (hx : x.natAbs ≤ 3 * bound * i32Max) : checkedI128 x = .ok x :=
  (checkedI128_cases hx).resolve_right fun h => h.2 ((Nat.le_mul_of_pos_right _ (by decide)).trans_lt hbound)

lemma pointsFrom_within (last : FeeWeight) {chunks : List FeeWeight} (hpos : ∀ chunk ∈ chunks, 0 < chunk.weight)
    (hweight : last.weight + (chunks.map FeeWeight.weight).sum ≤ i32Max)
    (hfee : last.fee.natAbs + (chunks.map fun chunk => chunk.fee.natAbs).sum ≤ bound) :
    ∃ points, pointsFrom last chunks = .ok points ∧ ∀ point ∈ points, Within bound point := by
  induction chunks generalizing last with
  | nil => exact ⟨[last], rfl, by simp_all [Within]⟩
  | cons chunk chunks ih =>
    obtain ⟨hchunk, hrest⟩ := forall_mem_cons.mp hpos
    rw [map_cons, sum_cons] at hweight hfee
    have hsum := Int.natAbs_add_le last.fee chunk.fee
    have hscaled : ((last.fee + chunk.fee) * i32Max).natAbs ≤ 3 * bound * i32Max := by
      rw [Int.natAbs_mul]
      exact Nat.mul_le_mul_right _ (by omega)
    have hadd : last.checkedAdd chunk = .ok ⟨last.fee + chunk.fee, last.weight + chunk.weight⟩ := by
      have hfits : (last.fee + chunk.fee).natAbs ≤ 3 * bound * i32Max := by
        unfold i32Max
        omega
      have hmax : last.weight + chunk.weight ≤ i32Max := by omega
      rw [checkedAdd, if_neg (by unfold i32Max at hmax; omega), if_neg hmax.not_gt, checkedI128_eq hbound hfits,
        ok_bind,
        checkedI128_eq hbound hscaled]
      rfl
    obtain ⟨points, hpoints, hwithin⟩ := ih ⟨last.fee + chunk.fee, last.weight + chunk.weight⟩ hrest
      (by dsimp only; omega) (by dsimp only; omega)
    refine ⟨last :: points, ?_, forall_mem_cons.mpr ⟨⟨by omega, by omega⟩, hwithin⟩⟩
    rw [pointsFrom, if_neg hchunk.ne', hadd, ok_bind, hpoints]
    rfl

lemma valueAt_within {points : List FeeWeight} (h : ∀ point ∈ points, Within bound point) (hweight : weight ≤ i32Max) :
    ∃ value, valueAt points weight = .ok value ∧ value.1.natAbs ≤ 3 * bound * i32Max ∧ value.2.natAbs ≤ i32Max := by
  have hat (index : ℕ) : Within bound (feeAt points index) := by
    rw [feeAt, getD_eq_getElem?_getD]
    cases hpoint : points[index]? with
    | none => exact ⟨Nat.zero_le _, Nat.zero_le _⟩
    | some point => exact h point (mem_of_getElem? hpoint)
  unfold valueAt
  dsimp only
  generalize (points.takeWhile fun point => point.weight ≤ weight).length = stop
  obtain ⟨hfee, hstart⟩ := hat (stop - 1)
  cases hstop : points[stop]? with
  | none =>
    refine ⟨_, rfl, ?_, (by decide : Int.natAbs 1 ≤ i32Max)⟩
    unfold i32Max
    dsimp only
    omega
  | some stop =>
    obtain ⟨hstopFee, hstopWeight⟩ := h stop (mem_of_getElem? hstop)
    generalize feeAt points _ = start at *
    have hspan : ((stop.weight : ℤ) - start.weight).natAbs ≤ i32Max := by omega
    have hbase : (start.fee * (stop.weight - start.weight)).natAbs ≤ bound * i32Max := by
      rw [Int.natAbs_mul]
      exact Nat.mul_le_mul hfee hspan
    have hdelta : (stop.fee - start.fee).natAbs ≤ 2 * bound := by omega
    have hrise : ((stop.fee - start.fee) * (weight - start.weight)).natAbs ≤ 2 * bound * i32Max := by
      rw [Int.natAbs_mul]
      exact Nat.mul_le_mul hdelta (by omega)
    have hsum := (Int.natAbs_add_le _ _).trans (Nat.add_le_add hbase hrise)
    rw [← Nat.add_mul, (by ring : bound + 2 * bound = 3 * bound)] at hsum
    refine ⟨(_, _), ?_, hsum, hspan⟩
    rw [Option.elim_some, valueBetween, checkedI128_eq hbound (hbase.trans (Nat.mul_le_mul_right _ (by omega))),
      ok_bind,
      checkedI128_eq hbound (by unfold i32Max; omega), ok_bind,
      checkedI128_eq hbound (hrise.trans (Nat.mul_le_mul_right _ (by omega))), ok_bind, checkedI128_eq hbound hsum,
        ok_bind]

lemma compareLoop_returns {left right points : List FeeWeight} (hleft : ∀ point ∈ left, Within bound point)
    (hright : ∀ point ∈ right, Within bound point) (hpoints : ∀ point ∈ points, Within bound point)
    (higher lower : Bool) : ∃ r, compareLoop left right points higher lower = .ok r := by
  induction points generalizing higher lower with
  | nil => exact ⟨_, rfl⟩
  | cons point points ih =>
    obtain ⟨hpoint, hrest⟩ := forall_mem_cons.mp hpoints
    obtain ⟨leftValue, hl, hleftFee, hleftSpan⟩ := valueAt_within hbound hleft hpoint.2
    obtain ⟨rightValue, hr, hrightFee, hrightSpan⟩ := valueAt_within hbound hright hpoint.2
    have hscaled {x y : ℤ} (hx : x.natAbs ≤ 3 * bound * i32Max) (hy : y.natAbs ≤ i32Max) :
        checkedI128 (x * y) = .ok (x * y) := by
      have hmul := Nat.mul_le_mul hx hy
      rw [← Int.natAbs_mul] at hmul
      exact (checkedI128_cases hmul).resolve_right fun h => h.2 hbound
    rw [compareLoop, hl, ok_bind, hr, ok_bind, hscaled hleftFee hrightSpan, ok_bind, hscaled hrightFee hleftSpan,
      ok_bind]
    dsimp only
    split_ifs
    · exact ⟨_, rfl⟩
    · exact ih hrest _ _

end

def Pointwise (left right : List FeeWeight) : Option Ordering → Prop :=
  Verdict (∃ x : ℝ, 0 ≤ x ∧ curve (cumulative .default right) x < curve (cumulative .default left) x)
    (∃ x : ℝ, 0 ≤ x ∧ curve (cumulative .default left) x < curve (cumulative .default right) x)

variable {left right : List FeeWeight}

lemma pointwise_of_ok {r : Option Ordering} (h : compareDiagrams left right = .ok r) : Pointwise left right r := by
  obtain ⟨leftPoints, hleft, h⟩ := bind_eq_ok h
  obtain ⟨rightPoints, hright, h⟩ := bind_eq_ok h
  obtain ⟨rfl, hl⟩ := pointsFrom_ok hleft
  obtain ⟨rfl, hr⟩ := pointsFrom_ok hright
  have hhead (chunks : List FeeWeight) : ∃ rest, cumulative .default chunks = .default :: rest := by
    cases chunks <;> simp [cumulative]
  obtain ⟨leftRest, hleftRest⟩ := hhead left
  obtain ⟨rightRest, hrightRest⟩ := hhead right
  rw [Pointwise, hleftRest, hrightRest]
  rw [hleftRest] at hl h
  rw [hrightRest] at hr h
  have hverdict := compareLoop_ok hl hr (by simp) h
  rw [exists_weight_iff hr hl (by simp) (by simp +contextual [or_imp]),
    exists_weight_iff hl hr (by simp) (by simp +contextual [or_imp])] at hverdict
  simpa using hverdict

lemma compareDiagrams_returns (hleft : Bounded left) (hright : Bounded right) :
    ∃ r, compareDiagrams left right = .ok r := by
  let fees (chunks : List FeeWeight) := (chunks.map fun chunk => chunk.fee.natAbs).sum
  have hmax : 3 * max (fees left) (fees right) * i32Max * i32Max < 2 ^ 127 := by
    rcases max_choice (fees left) (fees right) with h | h <;> rw [h]
    · exact hleft.fee_lt
    · exact hright.fee_lt
  have hpoints {chunks : List FeeWeight} (h : Bounded chunks) (hle : fees chunks ≤ max (fees left) (fees right)) :=
    pointsFrom_within hmax .default h.weight_pos (by simpa [FeeWeight.default] using h.weight_le)
      (by simpa [FeeWeight.default] using hle)
  obtain ⟨leftPoints, hl, hlw⟩ := hpoints hleft (le_max_left _ _)
  obtain ⟨rightPoints, hr, hrw⟩ := hpoints hright (le_max_right _ _)
  rw [compareDiagrams, points, hl, ok_bind, points, hr, ok_bind]
  exact compareLoop_returns hmax hlw hrw (fun point h => (mem_append.mp (mem_of_mem_drop h)).elim (hlw point)
    (hrw point))
    _ _

/-- `compare` decides the comparison of the curves at every weight, and returns where the fees are not too large. -/
theorem compareDiagrams_pointwise (left right : List FeeWeight) :
    (∀ r, compareDiagrams left right = .ok r → Pointwise left right r) ∧
      (Bounded left → Bounded right → ∃ r, compareDiagrams left right = .ok r ∧ Pointwise left right r) := by
  refine ⟨fun r => pointwise_of_ok, fun hleft hright => ?_⟩
  obtain ⟨r, hr⟩ := compareDiagrams_returns hleft hright
  exact ⟨r, hr, pointwise_of_ok hr⟩

theorem compareDiagrams_pointwise_crossing :
    compareDiagrams [⟨2, 1⟩, ⟨-1, 2⟩] [⟨3, 3⟩] = .ok none ∧ Pointwise [⟨2, 1⟩, ⟨-1, 2⟩] [⟨3, 3⟩] none := by
  obtain ⟨r, hr, hpointwise⟩ := (compareDiagrams_pointwise [⟨2, 1⟩, ⟨-1, 2⟩] [⟨3, 3⟩]).2
    ⟨by decide, by decide, by decide⟩ ⟨by decide, by decide, by decide⟩
  have hnone : compareDiagrams [⟨2, 1⟩, ⟨-1, 2⟩] [⟨3, 3⟩] = .ok none := by decide
  cases hnone.symm.trans hr
  exact ⟨hnone, hpointwise⟩

end BitcoinRs.Mempool
