import Mathlib.Tactic.Ring
import Mathlib.Algebra.Order.Field.Basic
import Mathlib.Data.Finset.Max
import Mathlib.Tactic.FieldSimp

/-! The line through finitely many points, flat after the last: one lies below another as soon as it does so at the
points of both. -/

namespace BitcoinRs.Polyline

open List

variable {K : Type*} [Field K] [LinearOrder K]

def value : List (K × K) → K → K
  | [], _ => 0
  | [p], _ => p.2
  | p :: q :: rest, x => if x < q.1 then p.2 + (q.2 - p.2) / (q.1 - p.1) * (x - p.1) else value (q :: rest) x

def Ascending (points : List (K × K)) : Prop := points.IsChain fun p q => p.1 < q.1

variable {rest : List (K × K)} {x : K} {p q : K × K}

lemma value_tail (h : q.1 ≤ x) :
    value (p :: q :: rest) x = value (q :: rest) x := if_neg h.not_gt

variable {points : List (K × K)}

lemma value_flat {a x : K} (hax : a ≤ x) (hlast : ∀ p ∈ points, p.1 ≤ a) : value points x = value points a := by
  induction points with
  | nil => rfl
  | cons p rest ih =>
    cases rest with
    | nil => rfl
    | cons q rest =>
      have hq : q.1 ≤ a := hlast q (by simp)
      rw [value_tail (hq.trans hax), value_tail hq]
      exact ih fun r hr => hlast r (mem_cons_of_mem _ hr)

lemma value_segment (h : Ascending (p :: q :: rest)) (hx : x ≤ q.1) :
    value (p :: q :: rest) x = p.2 + (q.2 - p.2) / (q.1 - p.1) * (x - p.1) := by
  obtain ⟨hpq, htail⟩ := isChain_cons_cons.mp h
  rcases hx.lt_or_eq with hlt | rfl
  · exact if_pos hlt
  · have hhead : value (q :: rest) q.1 = q.2 := by
      cases rest with
      | nil => rfl
      | cons r rest =>
        rw [value, if_pos (isChain_cons_cons.mp htail).1, sub_self, mul_zero, add_zero]
    rw [value_tail le_rfl, hhead, div_mul_cancel₀ _ (sub_ne_zero.mpr hpq.ne'), add_sub_cancel]

/-- Between two weights with no point strictly between them the line is straight. -/
lemma value_affine (h : Ascending points) {a x b : K} (hax : a ≤ x) (hxb : x ≤ b)
    (hgap : ∀ p ∈ points, p.1 ≤ a ∨ b ≤ p.1) :
    (b - a) * value points x = (b - x) * value points a + (x - a) * value points b := by
  induction points with
  | nil => simp [value]
  | cons p rest ih =>
    cases rest with
    | nil =>
      simp only [value]
      ring
    | cons q rest =>
      rcases hgap q (by simp) with hq | hq
      · rw [value_tail (hq.trans hax), value_tail hq, value_tail (hq.trans (hax.trans hxb))]
        exact ih (isChain_cons_cons.mp h).2 fun r hr => hgap r (mem_cons_of_mem _ hr)
      · rw [value_segment h (hxb.trans hq), value_segment h ((hax.trans hxb).trans hq), value_segment h hq]
        ring

variable [IsStrictOrderedRing K]

lemma value_le {points others : List (K × K)} (h : Ascending points) (h' : Ascending others)
    (hfirst : ∃ m ∈ (points ++ others).map Prod.fst, m ≤ x)
    (hle : ∀ m ∈ (points ++ others).map Prod.fst, value points m ≤ value others m) : value points x ≤
      value others x := by
  let marks := ((points ++ others).map Prod.fst).toFinset
  have hmark {p : K × K} (hp : p ∈ points ++ others) : p.1 ∈ marks := mem_toFinset.mpr (mem_map_of_mem hp)
  obtain ⟨m, hm, hmx⟩ := hfirst
  obtain ⟨a, ha, hmax⟩ := (marks.filter (· ≤ x)).exists_max_image id
    ⟨m, Finset.mem_filter.mpr ⟨mem_toFinset.mpr hm, hmx⟩⟩
  obtain ⟨hamark, hax⟩ := Finset.mem_filter.mp ha
  have hla := hle a (mem_toFinset.mp hamark)
  by_cases hnext : (marks.filter (x < ·)).Nonempty
  · obtain ⟨b, hb, hmin⟩ := (marks.filter (x < ·)).exists_min_image id hnext
    obtain ⟨hbmark, hxb⟩ := Finset.mem_filter.mp hb
    have hgap {p : K × K} (hp : p ∈ points ++ others) : p.1 ≤ a ∨ b ≤ p.1 :=
      (le_or_gt p.1 x).imp (fun hpx => hmax _ (Finset.mem_filter.mpr ⟨hmark hp, hpx⟩))
        fun hxp => hmin _ (Finset.mem_filter.mpr ⟨hmark hp, hxp⟩)
    refine le_of_mul_le_mul_left ?_ (sub_pos.mpr (hax.trans_lt hxb))
    rw [value_affine h hax hxb.le fun p hp => hgap (mem_append_left _ hp),
      value_affine h' hax hxb.le fun p hp => hgap (mem_append_right _ hp)]
    exact add_le_add (mul_le_mul_of_nonneg_left hla (sub_nonneg.mpr hxb.le))
      (mul_le_mul_of_nonneg_left (hle b (mem_toFinset.mp hbmark)) (sub_nonneg.mpr hax))
  · have hpast {p : K × K} (hp : p ∈ points ++ others) : p.1 ≤ a := by
      have hpx : p.1 ≤ x := not_lt.mp fun hxp => hnext ⟨p.1, Finset.mem_filter.mpr ⟨hmark hp, hxp⟩⟩
      exact hmax _ (Finset.mem_filter.mpr ⟨hmark hp, hpx⟩)
    rw [value_flat hax fun p hp => hpast (mem_append_left _ hp),
      value_flat hax fun p hp => hpast (mem_append_right _ hp)]
    exact hla

end BitcoinRs.Polyline
