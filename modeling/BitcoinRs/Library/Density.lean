import Mathlib.Algebra.BigOperators.Field
import Mathlib.Tactic.Positivity
import Mathlib.Tactic.FieldSimp
import Mathlib.Tactic.Linarith
import Mathlib.Tactic.Ring

/-!
Nodes with a value and a positive weight, some of which need others to come first. Taking a densest closed set, then a
densest closed set of what remains, and so on, gives a diagram that no order of the nodes can pass.
-/

namespace Density

open List
open Finset (mem_inter union_subset mem_union sdiff_subset mem_sdiff subset_empty)

def diagram : List (ℚ × ℚ) → ℚ → ℚ
  | [], _ => 0
  | (f, w) :: parts, x => if x ≤ w then f / w * x else f + diagram parts (x - w)

lemma weights_nonneg {parts : List (ℚ × ℚ)} (hweight : ∀ part ∈ parts, 0 < part.2) : 0 ≤ (parts.map Prod.snd).sum := by
  apply sum_nonneg
  intro y hy
  obtain ⟨part, hpart, rfl⟩ := mem_map.mp hy
  exact (hweight part hpart).le

lemma diagram_of_total_le (parts : List (ℚ × ℚ)) (hweight : ∀ part ∈ parts, 0 < part.2) (x : ℚ)
    (hx : (parts.map Prod.snd).sum ≤ x) : diagram parts x = (parts.map Prod.fst).sum := by
  induction parts generalizing x with
  | nil => rfl
  | cons part parts ih =>
    obtain ⟨f, w⟩ := part
    have hw : 0 < w := hweight _ mem_cons_self
    have hrest := fun part hpart => hweight part (mem_cons_of_mem _ hpart)
    have hnonneg := weights_nonneg hrest
    simp only [map_cons, sum_cons] at hx ⊢
    unfold diagram
    split
    · -- the parts that follow weigh nothing, so there are none
      have hzero : (parts.map Prod.snd).sum = 0 := by linarith
      have hnil : parts = [] := by
        cases parts with
        | nil => rfl
        | cons part parts =>
          have hpart := hrest part mem_cons_self
          have hothers := weights_nonneg fun part hpart => hrest part (mem_cons_of_mem _ hpart)
          simp only [map_cons, sum_cons] at hzero
          linarith
      subst hnil
      have hxw : x = w := by
        linarith
      rw [hxw]
      field_simp
      simp
    · rw [ih hrest (x - w) (by linarith)]

section

variable {κ : Type} (f w : κ → ℚ) (parts : List κ)

def Falling : Prop := parts.Pairwise fun a b => f b / w b ≤ f a / w a

/-- However a weight is spread over parts whose rates fall, filling them in order collects as much. -/
lemma fill_le_diagram (hweight : ∀ c ∈ parts, 0 < w c) (hfalling : Falling f w parts) (x : κ → ℚ)
    (hx : ∀ c ∈ parts, 0 ≤ x c ∧ x c ≤ w c) :
    (parts.map fun c => f c / w c * x c).sum ≤ diagram (parts.map fun c => (f c, w c)) (parts.map x).sum := by
  induction parts generalizing x with
  | nil => exact le_refl _
  | cons c parts ih =>
    have hw := hweight c mem_cons_self
    have hrest := fun c hc => hweight c (mem_cons_of_mem _ hc)
    obtain ⟨hrate, hfalling⟩ := pairwise_cons.mp hfalling
    obtain ⟨hx0, hxw⟩ := hx c mem_cons_self
    have hxs := fun c hc => hx c (mem_cons_of_mem _ hc)
    have hy0 : 0 ≤ (parts.map x).sum := by
      apply sum_nonneg
      intro y hy
      obtain ⟨c, hc, rfl⟩ := mem_map.mp hy
      exact (hxs c hc).1
    -- no later part pays more than the first one does
    have hlater : ∀ z : κ → ℚ, (∀ c ∈ parts, 0 ≤ z c) →
        (parts.map fun c => f c / w c * z c).sum ≤ f c / w c * (parts.map z).sum := by
      intro z hz
      rw [← sum_map_mul_left]
      apply sum_le_sum
      intro d hd
      exact mul_le_mul_of_nonneg_right (hrate d hd) (hz d hd)
    simp only [map_cons, sum_cons]
    unfold diagram
    split
    · have := hlater x fun c hc => (hxs c hc).1
      rw [mul_add]
      linarith
    · rename_i hover
      -- what the first part has room for is taken from the later ones, in proportion
      set y := (parts.map x).sum with hy
      have hypos : 0 < y := by linarith
      set keep := (x c + y - w c) / y with hkeep
      have hkeep0 : 0 ≤ keep := div_nonneg (by linarith) hypos.le
      have hkeep1 : keep ≤ 1 := (div_le_one hypos).mpr (by linarith)
      have hfilled := ih hrest hfalling (fun c => keep * x c) (by
        intro c hc
        obtain ⟨h0, h1⟩ := hxs c hc
        exact ⟨mul_nonneg hkeep0 h0, (mul_le_of_le_one_left h0 hkeep1).trans h1⟩)
      have hsum : (parts.map fun c => keep * x c).sum = x c + y - w c := by
        rw [sum_map_mul_left, ← hy, hkeep]
        field_simp
      have hmoved := hlater (fun c => (1 - keep) * x c) fun c hc => mul_nonneg (by linarith) (hxs c hc).1
      rw [sum_map_mul_left] at hmoved
      have hsplit : (parts.map fun c => f c / w c * x c).sum =
          (parts.map fun c => f c / w c * ((1 - keep) * x c)).sum + (parts.map fun c =>
            f c / w c * (keep * x c)).sum := by
        rw [← sum_map_add]
        congr 1
        apply map_congr_left
        intro c _
        ring
      have hroom : (1 - keep) * y = w c - x c := by
        rw [hkeep]
        field_simp
        ring
      rw [hsum] at hfilled
      rw [hroom] at hmoved
      have hwhole : f c / w c * x c + f c / w c * (w c - x c) = f c := by
        field_simp
        ring
      linarith

end

section

variable {ι : Type} [DecidableEq ι] (needs : ι → List ι) (value weight : ι → ℚ)

structure Closed (R S : Finset ι) : Prop where
  subset : S ⊆ R
  needs_mem : ∀ v ∈ S, ∀ u ∈ needs v, u ∈ R → u ∈ S

def valueOf (S : Finset ι) : ℚ := ∑ i ∈ S, value i

structure Densest (R C : Finset ι) : Prop where
  closed : Closed needs R C
  nonempty : C.Nonempty
  rate_le : ∀ S, Closed needs R S → valueOf value S * valueOf weight C ≤ valueOf value C * valueOf weight S

inductive Greedy : Finset ι → List (Finset ι) → Prop
  | nil : Greedy ∅ []
  | cons {R C : Finset ι} {parts : List (Finset ι)} (hdensest : Densest needs value weight R C)
      (hrest : Greedy (R \ C) parts) : Greedy R (C :: parts)

variable {needs value weight} {S : Finset ι} {R T : Finset ι}

lemma Closed.inter (hS : Closed needs R S) (hT : Closed needs R T) : Closed needs R (S ∩ T) where
  subset := Finset.inter_subset_left.trans hS.subset
  needs_mem v hv u hu hR := by
    rw [mem_inter] at hv ⊢
    exact ⟨hS.needs_mem v hv.1 u hu hR, hT.needs_mem v hv.2 u hu hR⟩

lemma Closed.union (hS : Closed needs R S) (hT : Closed needs R T) : Closed needs R (S ∪ T) where
  subset := union_subset hS.subset hT.subset
  needs_mem v hv u hu hR := by
    rw [mem_union] at hv ⊢
    exact hv.imp (fun hv => hS.needs_mem v hv u hu hR) (fun hv => hT.needs_mem v hv u hu hR)

lemma Closed.union_sdiff {R C S : Finset ι} (hC : Closed needs R C) (hS : Closed needs (R \ C) S) :
    Closed needs R (C ∪ S) where
  subset := union_subset hC.subset (hS.subset.trans sdiff_subset)
  needs_mem v hv u hu hR := by
    rw [mem_union] at hv ⊢
    rcases hv with hv | hv
    · exact .inl (hC.needs_mem v hv u hu hR)
    · by_cases huC : u ∈ C
      · exact .inl huC
      · exact .inr (hS.needs_mem v hv u hu (mem_sdiff.mpr ⟨hR, huC⟩))

lemma Closed.sdiff (hS : Closed needs R S) (C : Finset ι) : Closed needs (R \ C) (S \ C) where
  subset := Finset.sdiff_subset_sdiff hS.subset (Finset.Subset.refl C)
  needs_mem v hv u hu hR := by
    rw [mem_sdiff] at hv hR ⊢
    exact ⟨hS.needs_mem v hv.1 u hu hR.1, hR.2⟩

lemma valueOf_inter_add_sdiff (value : ι → ℚ) (S C : Finset ι) :
    valueOf value (S ∩ C) + valueOf value (S \ C) = valueOf value S :=
  Finset.sum_inter_add_sum_sdiff S C value

lemma valueOf_union_disjoint (value : ι → ℚ) {S T : Finset ι} (h : Disjoint S T) :
    valueOf value (S ∪ T) = valueOf value S + valueOf value T :=
  Finset.sum_union h

section

omit [DecidableEq ι] in
lemma valueOf_pos (hpos : ∀ i ∈ S, 0 < weight i) (h : S.Nonempty) : 0 < valueOf weight S := Finset.sum_pos hpos h

omit [DecidableEq ι] in
lemma valueOf_nonneg (hpos : ∀ i ∈ S, 0 < weight i) : 0 ≤ valueOf weight S :=
  Finset.sum_nonneg fun i hi => (hpos i hi).le

omit [DecidableEq ι] in
lemma valueOf_mono {S T : Finset ι} (hpos : ∀ i ∈ T, 0 < weight i) (h : S ⊆ T) : valueOf weight S ≤ valueOf weight T :=
  Finset.sum_le_sum_of_subset_of_nonneg h fun i hi _ => (hpos i hi).le

variable {parts : List (Finset ι)}

omit [DecidableEq ι] in
lemma Densest.weight_pos {C : Finset ι} (h : Densest needs value weight R C) (hpos : ∀ i ∈ R, 0 < weight i) :
    0 < valueOf weight C := valueOf_pos (fun i hi => hpos i (h.closed.subset hi)) h.nonempty

omit [DecidableEq ι] in
lemma Densest.valueOf_le {C S : Finset ι} (h : Densest needs value weight R C) (hpos : ∀ i ∈ R, 0 < weight i)
    (hS : Closed needs R S) : valueOf value S ≤ valueOf value C / valueOf weight C * valueOf weight S := by
  rw [div_mul_eq_mul_div, le_div_iff₀ (h.weight_pos hpos)]
  exact h.rate_le S hS

lemma Greedy.weight_pos (h : Greedy needs value weight R parts) (hpos : ∀ i ∈ R, 0 < weight i) :
    ∀ C ∈ parts, 0 < valueOf weight C := by
  induction h with
  | nil => simp
  | cons hdensest _ ih =>
    intro C hC
    rcases mem_cons.mp hC with rfl | hC
    · exact hdensest.weight_pos hpos
    · exact ih (fun i hi => hpos i (mem_sdiff.mp hi).1) C hC

lemma Densest.rate_le_of_sdiff {C D : Finset ι} (hC : Densest needs value weight R C)
    (hD : Densest needs value weight (R \ C) D) (hpos : ∀ i ∈ R, 0 < weight i) :
    valueOf value D / valueOf weight D ≤ valueOf value C / valueOf weight C := by
  have hwC := hC.weight_pos hpos
  have hwD := hD.weight_pos fun i hi => hpos i (mem_sdiff.mp hi).1
  have hdisjoint : Disjoint C D := Finset.disjoint_left.mpr fun i hi hi' => (mem_sdiff.mp (hD.closed.subset hi')).2 hi
  -- both together are closed too, and so no denser than the first
  have hboth := hC.rate_le (C ∪ D) (hC.closed.union_sdiff hD.closed)
  rw [valueOf_union_disjoint _ hdisjoint, valueOf_union_disjoint _ hdisjoint] at hboth
  rw [div_le_div_iff₀ hwD hwC]
  linarith

lemma Greedy.head {D : Finset ι} (h : Greedy needs value weight R (D :: parts)) : Densest needs value weight R D := by
  cases h
  assumption

lemma Greedy.falling (h : Greedy needs value weight R parts) (hpos : ∀ i ∈ R, 0 < weight i) :
    Falling (valueOf value) (valueOf weight) parts := by
  have hchain : parts.IsChain fun a b =>
      valueOf value b / valueOf weight b ≤ valueOf value a / valueOf weight a := by
    induction h with
    | nil => exact IsChain.nil
    | cons hdensest hrest ih =>
      rename_i parts
      have hlater := ih fun i hi => hpos i (mem_sdiff.mp hi).1
      cases parts with
      | nil => exact List.IsChain.singleton _
      | cons D parts => exact List.IsChain.cons_cons (hdensest.rate_le_of_sdiff hrest.head hpos) hlater
  exact hchain.pairwise

end

variable {parts : List (Finset ι)}

lemma Greedy.subset (h : Greedy needs value weight R parts) : ∀ C ∈ parts, C ⊆ R := by
  induction h with
  | nil => simp
  | cons hdensest _ ih =>
    intro D hD
    rcases mem_cons.mp hD with rfl | hD
    · exact hdensest.closed.subset
    · exact (ih D hD).trans sdiff_subset

lemma sdiff_inter_of_subset {R C D : Finset ι} (h : D ⊆ R \ C) (S : Finset ι) : (S \ C) ∩ D = S ∩ D := by
  ext i
  simp only [mem_inter, mem_sdiff]
  constructor
  · rintro ⟨⟨hi, -⟩, hD⟩
    exact ⟨hi, hD⟩
  · rintro ⟨hi, hD⟩
    exact ⟨⟨hi, (mem_sdiff.mp (h hD)).2⟩, hD⟩

lemma Greedy.valueOf_eq (v : ι → ℚ) (h : Greedy needs value weight R parts)
    (hS : S ⊆ R) : valueOf v S = (parts.map fun C => valueOf v (S ∩ C)).sum := by
  induction h generalizing S with
  | nil =>
    rw [subset_empty.mp hS]
    rfl
  | @cons R C parts _ hrest ih =>
    have hparts := ih (Finset.sdiff_subset_sdiff hS (Finset.Subset.refl C))
    rw [← valueOf_inter_add_sdiff v S C, hparts]
    congr 2
    apply map_congr_left
    intro D hD
    rw [sdiff_inter_of_subset (hrest.subset D hD)]

lemma Greedy.valueOf_le (h : Greedy needs value weight R parts) (hpos : ∀ i ∈ R, 0 < weight i) (hS : Closed needs R S) :
    valueOf value S ≤ (parts.map fun C => valueOf value C / valueOf weight C * valueOf weight (S ∩ C)).sum := by
  induction h generalizing S with
  | nil =>
    rw [subset_empty.mp hS.subset]
    exact le_refl _
  | @cons R C parts hdensest hrest ih =>
    have hfirst := hdensest.valueOf_le hpos (hS.inter hdensest.closed)
    have hparts := ih (fun i hi => hpos i (mem_sdiff.mp hi).1) (hS.sdiff C)
    have hcongr : (parts.map fun D => valueOf value D / valueOf weight D * valueOf weight ((S \ C) ∩ D)) =
        parts.map fun D => valueOf value D / valueOf weight D * valueOf weight (S ∩ D) := by
      apply map_congr_left
      intro D hD
      rw [sdiff_inter_of_subset (hrest.subset D hD)]
    rw [hcongr] at hparts
    rw [← valueOf_inter_add_sdiff value S C]
    exact add_le_add hfirst hparts

variable (value weight) in
def totals (parts : List (Finset ι)) : List (ℚ × ℚ) := parts.map fun C => (valueOf value C, valueOf weight C)

section

variable (h : Greedy needs value weight R parts)
  (hpos : ∀ i ∈ R, 0 < weight i)

include hpos h

lemma Greedy.blend_le {S T : Finset ι} (hS : Closed needs R S) (hT : Closed needs R T) {t : ℚ} (ht0 : 0 ≤ t)
    (ht1 : t ≤ 1) :
    (1 - t) * valueOf value S + t * valueOf value T ≤
      diagram (totals value weight parts) ((1 - t) * valueOf weight S + t * valueOf weight T) := by
  have hfill := fill_le_diagram (valueOf value) (valueOf weight) parts (h.weight_pos hpos) (h.falling hpos)
    (fun C => (1 - t) * valueOf weight (S ∩ C) + t * valueOf weight (T ∩ C)) (by
      intro C hC
      have hposC : ∀ i ∈ C, 0 < weight i := fun i hi => hpos i (h.subset C hC hi)
      have hS0 : 0 ≤ valueOf weight (S ∩ C) := valueOf_nonneg fun i hi => hposC i (mem_inter.mp hi).2
      have hT0 : 0 ≤ valueOf weight (T ∩ C) := valueOf_nonneg fun i hi => hposC i (mem_inter.mp hi).2
      have hSC : valueOf weight (S ∩ C) ≤ valueOf weight C := valueOf_mono hposC Finset.inter_subset_right
      have hTC : valueOf weight (T ∩ C) ≤ valueOf weight C := valueOf_mono hposC Finset.inter_subset_right
      constructor
      · exact add_nonneg (mul_nonneg (by linarith) hS0) (mul_nonneg ht0 hT0)
      · nlinarith)
  have hweight : (parts.map fun C => (1 - t) * valueOf weight (S ∩ C) + t * valueOf weight (T ∩ C)).sum =
      (1 - t) * valueOf weight S + t * valueOf weight T := by
    rw [sum_map_add, sum_map_mul_left, sum_map_mul_left, ← h.valueOf_eq weight hS.subset,
      ← h.valueOf_eq weight hT.subset]
  have hvalue : (parts.map fun C => valueOf value C / valueOf weight C *
      ((1 - t) * valueOf weight (S ∩ C) + t * valueOf weight (T ∩ C))).sum =
      (1 - t) * (parts.map fun C => valueOf value C / valueOf weight C * valueOf weight (S ∩ C)).sum +
        t * (parts.map fun C => valueOf value C / valueOf weight C * valueOf weight (T ∩ C)).sum := by
    rw [← sum_map_mul_left, ← sum_map_mul_left, ← sum_map_add]
    congr 1
    apply map_congr_left
    intro C _
    ring
  rw [hweight, hvalue] at hfill
  have hSle := mul_le_mul_of_nonneg_left (h.valueOf_le hpos hS) (sub_nonneg.mpr ht1)
  have hTle := mul_le_mul_of_nonneg_left (h.valueOf_le hpos hT) ht0
  exact (add_le_add hSle hTle).trans hfill

end

inductive Ordered (needs : ι → List ι) (R : Finset ι) : Finset ι → List (Finset ι) → Prop
  | done : Ordered needs R R []
  | step {S G : Finset ι} {groups : List (Finset ι)} (hnonempty : G.Nonempty) (hdisjoint : Disjoint S G)
      (hclosed : Closed needs R (S ∪ G)) (hrest : Ordered needs R (S ∪ G) groups) : Ordered needs R S (G :: groups)

lemma Greedy.dominates {parts groups : List (Finset ι)} (h : Greedy needs value weight R parts)
    (hpos : ∀ i ∈ R, 0 < weight i) (hS : Closed needs R S) (hordered : Ordered needs R S groups) {x : ℚ} (hx : 0 ≤ x) :
    valueOf value S + diagram (totals value weight groups) x ≤
      diagram (totals value weight parts) (valueOf weight S + x) := by
  induction hordered generalizing x with
  | done =>
    have htotal (v : ι → ℚ) : (parts.map fun C => valueOf v C).sum = valueOf v R := by
      rw [h.valueOf_eq v (Finset.Subset.refl R)]
      congr 1
      apply map_congr_left
      intro C hC
      rw [Finset.inter_eq_right.mpr (h.subset C hC)]
    have hfirst : (totals value weight parts).map Prod.fst = parts.map fun C => valueOf value C := by
      simp [totals]
    have hsecond : (totals value weight parts).map Prod.snd = parts.map fun C => valueOf weight C := by
      simp [totals]
    rw [diagram_of_total_le (totals value weight parts) _ (valueOf weight R + x), hfirst, htotal]
    · exact (add_zero _).le
    · rw [hsecond, htotal]
      linarith
    · intro part hpart
      obtain ⟨C, hC, rfl⟩ := mem_map.mp hpart
      exact h.weight_pos hpos C hC
  | @step S G groups hnonempty hdisjoint hclosed hrest ih =>
    have hwG := valueOf_pos
      (fun i hi => hpos i (hclosed.subset (Finset.mem_union_right S hi))) hnonempty
    have hunion (v : ι → ℚ) := valueOf_union_disjoint v hdisjoint
    have hunfold : diagram (totals value weight (G :: groups)) x =
        if x ≤ valueOf weight G then valueOf value G / valueOf weight G * x
        else valueOf value G + diagram (totals value weight groups) (x - valueOf weight G) := rfl
    rw [hunfold]
    split
    · -- within the group: the set before it and the set after it, blended
      rename_i hle
      have hblend := h.blend_le hpos hS hclosed (div_nonneg hx hwG.le) ((div_le_one hwG).mpr hle)
      rw [hunion, hunion] at hblend
      have hvalue : (1 - x / valueOf weight G) * valueOf value S +
          x / valueOf weight G * (valueOf value S + valueOf value G) =
          valueOf value S + valueOf value G / valueOf weight G * x := by
        ring
      have hweight : (1 - x / valueOf weight G) * valueOf weight S +
          x / valueOf weight G * (valueOf weight S + valueOf weight G) = valueOf weight S + x := by
        field_simp
        ring
      rwa [hvalue, hweight] at hblend
    · rename_i hover
      rw [not_le] at hover
      have hlater := ih hclosed (sub_nonneg.mpr hover.le)
      rw [hunion, hunion] at hlater
      have hweight : valueOf weight S + valueOf weight G + (x - valueOf weight G) = valueOf weight S + x := by ring
      rw [hweight] at hlater
      linarith

end

end Density
