import BitcoinRs.Library.Cut
import BitcoinRs.Library.Density
import BitcoinRs.Mempool.FeeDiagram

namespace BitcoinRs.Mempool

open List
open Finset (sum_sigma sum_congr mem_inter sum_ite_mem mem_insert)
open Option (map_some getD_some)

namespace Flow

variable {flow : Flow}

lemma mem_residual {x y : ℕ} :
    y ∈ flow.residual x ↔
      ∃ (index : ℕ) (edge : Edge), (flow.row x)[index]? = some edge ∧ 0 < edge.capacity ∧ edge.target = y := by
  rw [residual, mem_map]
  constructor
  · rintro ⟨edge, hedge, hto⟩
    obtain ⟨hedge, hcapacity⟩ := mem_filter.mp hedge
    obtain ⟨index, hedge⟩ := mem_iff_getElem?.mp hedge
    exact ⟨index, edge, hedge, of_decide_eq_true hcapacity, hto⟩
  · rintro ⟨index, edge, hedge, hcapacity, hto⟩
    exact ⟨edge, mem_filter.mpr ⟨mem_of_getElem? hedge, decide_eq_true hcapacity⟩, hto⟩

lemma cap_of_edge {node index : ℕ} {edge : Edge} (hedge : (flow.row node)[index]? = some edge) :
    flow.cap node index = edge.capacity := by
  simp [cap, hedge]

lemma Paired.mem_backward (hpaired : flow.Paired) {x y : ℕ} : y ∈ flow.backward x ↔ x ∈ flow.residual y := by
  rw [mem_residual, backward, mem_map]
  constructor
  · rintro ⟨edge, hedge, rfl⟩
    obtain ⟨hedge, hcapacity⟩ := mem_filter.mp hedge
    obtain ⟨index, hedge⟩ := mem_iff_getElem?.mp hedge
    obtain ⟨back, hback, hbackTo, -⟩ := hpaired x index edge hedge
    rw [cap_of_edge hback] at hcapacity
    exact ⟨edge.reverse, back, hback, of_decide_eq_true hcapacity, hbackTo⟩
  · rintro ⟨index, edge, hedge, hcapacity, rfl⟩
    obtain ⟨back, hback, hbackTo, hbackReverse⟩ := hpaired y index edge hedge
    refine ⟨back, mem_filter.mpr ⟨mem_of_getElem? hback, decide_eq_true ?_⟩, hbackTo⟩
    rwa [hbackTo, hbackReverse, cap_of_edge hedge]

lemma Paired.mem_reverseReachable (hpaired : flow.Paired) {stop : ℕ} (hstop : stop < flow.edges.length)
    (v : ℕ) : v ∈ flow.reverseReachable stop ↔ Relation.ReflTransGen (fun a b => b ∈ flow.residual a) v stop := by
  have hnext : ∀ x, ∀ y ∈ flow.backward x, y ∈ range flow.edges.length := by
    intro x y hy
    obtain ⟨index, edge, hedge, -, -⟩ := mem_residual.mp (hpaired.mem_backward.mp hy)
    exact mem_range.mpr (lt_of_edge hedge)
  unfold reverseReachable
  rw [Search.mem_reach nodup_range hnext (by simpa using hstop) (by simp)]
  have hswap : (fun a b => b ∈ flow.backward a) = Function.swap fun a b => b ∈ flow.residual a := by
    funext a b
    exact propext hpaired.mem_backward
  rw [hswap]
  simp only [mem_singleton, exists_eq_left]
  exact Relation.reflTransGen_swap

def leaving (flow : Flow) (S : Finset ℕ) : ℕ :=
  ∑ node ∈ S, ((flow.row node).map fun edge => if edge.target ∈ S then 0 else edge.capacity).sum

variable {S : Finset ℕ}

lemma leaving_eq_zero : flow.leaving S = 0 ↔ ∀ x ∈ S, ∀ y ∈ flow.residual x, y ∈ S := by
  unfold leaving
  rw [Finset.sum_eq_zero_iff]
  refine forall₂_congr fun x hx => ?_
  rw [sum_eq_zero_iff]
  constructor
  · intro h y hy
    obtain ⟨edge, hedge, rfl⟩ := mem_map.mp hy
    obtain ⟨hedge, hcapacity⟩ := mem_filter.mp hedge
    have hzero := h _ (mem_map_of_mem hedge)
    by_contra hout
    rw [if_neg hout] at hzero
    exact absurd (of_decide_eq_true hcapacity) (by omega)
  · intro h c hc
    obtain ⟨edge, hedge, rfl⟩ := mem_map.mp hc
    split
    · rfl
    · rename_i hout
      by_contra hcapacity
      exact hout (h _ (mem_map_of_mem (mem_filter.mpr ⟨hedge, by simpa [Nat.pos_iff_ne_zero] using hcapacity⟩)))

def network (flow : Flow) (hpaired : flow.Paired) : Cut.Network ℕ (Σ _ : ℕ, ℕ) where
  arcs := (Finset.range flow.edges.length).sigma fun node => Finset.range (flow.row node).length
  tail a := a.1
  head a := ((flow.row a.1)[a.2]?.map Edge.target).getD 0
  rev a := ⟨((flow.row a.1)[a.2]?.map Edge.target).getD 0, ((flow.row a.1)[a.2]?.map Edge.reverse).getD 0⟩
  rev_mem := by
    rintro ⟨node, index⟩ ha
    obtain ⟨hnode, hindex⟩ := Finset.mem_sigma.mp ha
    have hedge := getElem?_eq_getElem (Finset.mem_range.mp hindex)
    obtain ⟨back, hback, -, -⟩ := hpaired node index _ hedge
    simp only [hedge, map_some, getD_some]
    exact Finset.mem_sigma.mpr ⟨Finset.mem_range.mpr (lt_of_edge hback),
      Finset.mem_range.mpr (List.getElem?_eq_some_iff.mp hback).1⟩
  rev_rev := by
    rintro ⟨node, index⟩ ha
    obtain ⟨hnode, hindex⟩ := Finset.mem_sigma.mp ha
    have hedge := getElem?_eq_getElem (Finset.mem_range.mp hindex)
    obtain ⟨back, hback, hbackTo, hbackReverse⟩ := hpaired node index _ hedge
    simp only [hedge, hback, map_some, getD_some, hbackTo, hbackReverse]
  tail_rev := by
    rintro ⟨node, index⟩ ha
    rfl

lemma sum_range_row (l : List Edge) (g : Option Edge → ℕ) :
    ∑ index ∈ Finset.range l.length, g l[index]? = (l.map fun edge => g (some edge)).sum := by
  induction l with
  | nil => rfl
  | cons edge l ih =>
    rw [length_cons, Finset.sum_range_succ', map_cons, sum_cons, ← ih, Nat.add_comm]
    rfl

section

variable {flow' : Flow} (hpaired : flow.Paired) (hshape : SameShape flow flow')
  (hS : S ⊆ Finset.range flow.edges.length)

include hS

lemma outOf_network : (flow.network hpaired).outOf S = S.sigma fun node => Finset.range (flow.row node).length := by
  ext a
  unfold Cut.Network.outOf
  rw [Finset.mem_filter, Finset.mem_sigma]
  constructor
  · rintro ⟨harc, htail⟩
    exact ⟨htail, (Finset.mem_sigma.mp harc).2⟩
  · rintro ⟨htail, hindex⟩
    exact ⟨Finset.mem_sigma.mpr ⟨hS htail, hindex⟩, htail⟩

include hshape

lemma sum_outOf_network : ∑ a ∈ (flow.network hpaired).outOf S, flow'.cap a.1 a.2 = ∑ node ∈ S, flow'.out node := by
  rw [outOf_network hpaired hS, sum_sigma]
  refine sum_congr rfl fun node _ => ?_
  rw [← hshape.length_row node]
  exact sum_range_row _ fun edge => (edge.map Edge.capacity).getD 0

lemma sum_leaving_network : ∑ a ∈ (flow.network hpaired).leaving S, flow'.cap a.1 a.2 = flow'.leaving S := by
  have hfilter : (flow.network hpaired).leaving S =
      ((flow.network hpaired).outOf S).filter fun a => (flow.network hpaired).head a ∉ S := by
    unfold Cut.Network.leaving Cut.Network.outOf
    rw [Finset.filter_filter]
  rw [hfilter, Finset.sum_filter, outOf_network hpaired hS, sum_sigma]
  refine sum_congr rfl fun node _ => ?_
  have hrow := sum_range_row (flow'.row node)
    fun edge => edge.elim 0 fun edge => if edge.target ∈ S then 0 else edge.capacity
  rw [hshape.length_row node] at hrow
  refine Eq.trans (sum_congr rfl fun index hindex => ?_) hrow
  have hedge := getElem?_eq_getElem (Finset.mem_range.mp hindex)
  obtain ⟨edge', hedge', hto, -⟩ := hshape.edge hedge
  simp [network, hedge, cap_of_edge hedge', hedge', hto]

end

lemma Routed.leaving {source sink : ℕ} {flow flow' : Flow} {amount : ℕ} (h : Routed source sink flow flow' amount)
    (hpaired : flow.Paired) (hS : S ⊆ Finset.range flow.edges.length) :
    flow'.leaving S + (if source ∈ S then amount else 0) = flow.leaving S + (if sink ∈ S then amount else 0) := by
  have hbalanced : (flow.network hpaired).Balanced (fun a => flow.cap a.1 a.2) (fun a => flow'.cap a.1 a.2) := by
    rintro ⟨node, index⟩ ha
    obtain ⟨-, hindex⟩ := Finset.mem_sigma.mp ha
    have hedge := getElem?_eq_getElem (Finset.mem_range.mp hindex)
    have := h.balanced node index _ hedge
    simpa only [network, hedge, map_some, getD_some] using this
  have hcut := hbalanced.cut S
  rw [sum_outOf_network hpaired (.refl flow) hS, sum_leaving_network hpaired h.shape hS,
    sum_outOf_network hpaired h.shape hS, sum_leaving_network hpaired (.refl flow) hS] at hcut
  have hout : ∑ node ∈ S, flow'.out node + (if source ∈ S then amount else 0) =
      ∑ node ∈ S, flow.out node + (if sink ∈ S then amount else 0) := by
    have := sum_congr (rfl : S = S) fun node _ => h.out node
    simpa only [Finset.sum_add_distrib, Finset.sum_ite_eq'] using this
  omega

section

variable {start stop : ℕ} (capacity : ℕ) (hne : start ≠ stop) (hstart : start < flow.edges.length)
  (hstop : stop < flow.edges.length)

lemma length_edges_add : (flow.add start stop capacity).edges.length = flow.edges.length := by
  simp [add]

include hne hstart hstop

lemma row_add (node : ℕ) :
    (flow.add start stop capacity).row node =
      if node = start then flow.row start ++ [⟨stop, (flow.row stop).length, capacity⟩]
      else if node = stop then flow.row stop ++ [⟨start, (flow.row start).length, 0⟩]
      else flow.row node := by
  unfold add
  rw [row_modify _ _ _ _ (.inr (by simpa using hstop)), row_modify _ _ _ _ (.inr hstart)]
  by_cases hstart' : node = start
  · subst hstart'
    simp [hne]
  · by_cases hstop' : node = stop
    · subst hstop'
      simp [hne.symm]
    · simp [hstart', hstop']

lemma leaving_add (S : Finset ℕ) :
    (flow.add start stop capacity).leaving S =
      flow.leaving S + (if start ∈ S ∧ stop ∉ S then capacity else 0) := by
  have hrow : ∀ node ∈ S, (((flow.add start stop capacity).row node).map fun edge =>
      if edge.target ∈ S then 0 else edge.capacity).sum =
      ((flow.row node).map fun edge => if edge.target ∈ S then 0 else edge.capacity).sum +
        (if node = start then (if stop ∈ S then 0 else capacity) else 0) := by
    intro node _
    rw [row_add capacity hne hstart hstop]
    by_cases hstart' : node = start
    · subst hstart'
      simp
    · by_cases hstop' : node = stop
      · subst hstop'
        simp [hne.symm]
      · simp [hstart', hstop']
  unfold leaving
  rw [sum_congr rfl hrow, Finset.sum_add_distrib]
  by_cases h₁ : start ∈ S <;> by_cases h₂ : stop ∈ S <;> simp [h₁, h₂]

lemma Paired.add (hpaired : flow.Paired) : (flow.add start stop capacity).Paired := by
  -- an edge of the old rows keeps its place, and so does its reverse
  have hold : ∀ (node index : ℕ) (edge : Edge), (flow.row node)[index]? = some edge →
      ((flow.add start stop capacity).row node)[index]? = some edge := by
    intro node index edge hedge
    rw [row_add capacity hne hstart hstop]
    have hindex := (List.getElem?_eq_some_iff.mp hedge).1
    split
    · rename_i hnode
      rw [hnode] at hedge hindex
      rw [getElem?_append_left hindex, hedge]
    · split
      · rename_i hnode
        rw [hnode] at hedge hindex
        rw [getElem?_append_left hindex, hedge]
      · exact hedge
  have hforward : ((flow.add start stop capacity).row start)[(flow.row start).length]? =
      some ⟨stop, (flow.row stop).length, capacity⟩ := by
    rw [row_add capacity hne hstart hstop]
    simp
  have hbackward : ((flow.add start stop capacity).row stop)[(flow.row stop).length]? =
      some ⟨start, (flow.row start).length, 0⟩ := by
    rw [row_add capacity hne hstart hstop]
    simp [hne.symm]
  have hkept : ∀ (node index : ℕ) (edge : Edge), (flow.row node)[index]? = some edge →
      ∃ back : Edge, ((flow.add start stop capacity).row edge.target)[edge.reverse]? = some back ∧
        back.target = node ∧ back.reverse = index := by
    intro node index edge hedge
    obtain ⟨back, hback, hends⟩ := hpaired node index edge hedge
    exact ⟨back, hold _ _ _ hback, hends⟩
  have hlast : ∀ (l : List Edge) (new edge : Edge) (index : ℕ), (l ++ [new])[index]? = some edge →
      l[index]? = some edge ∨ index = l.length ∧ edge = new := by
    intro l new edge index hedge
    rw [getElem?_append] at hedge
    split at hedge
    · exact .inl hedge
    · have hindex : index - l.length = 0 := by
        by_contra hne
        rw [getElem?_eq_none (by simp; omega)] at hedge
        cases hedge
      rw [hindex] at hedge
      exact .inr ⟨by omega, (Option.some.inj hedge).symm⟩
  intro node index edge hedge
  rw [row_add capacity hne hstart hstop] at hedge
  split at hedge
  · rename_i hnode
    subst hnode
    rcases hlast _ _ _ _ hedge with hedge | ⟨rfl, rfl⟩
    · exact hkept _ _ _ hedge
    · exact ⟨_, hbackward, rfl, rfl⟩
  · split at hedge
    · rename_i hnode
      subst hnode
      rcases hlast _ _ _ _ hedge with hedge | ⟨rfl, rfl⟩
      · exact hkept _ _ _ hedge
      · exact ⟨_, hforward, rfl, rfl⟩
    · exact hkept _ _ _ hedge

end

lemma row_new (nodes node : ℕ) : (new nodes).row node = [] := by
  unfold new row
  rw [getD_eq_getElem?_getD, getElem?_replicate]
  split <;> rfl

lemma paired_new (nodes : ℕ) : (new nodes).Paired := by
  intro node index edge hedge
  rw [row_new] at hedge
  cases hedge

lemma leaving_new (nodes : ℕ) (S : Finset ℕ) : (new nodes).leaving S = 0 := by
  unfold leaving
  simp [row_new]

end Flow

open Fallible Mempool.Flow

structure Validated (fees : List FeeWeight) (parents : List (List ℕ)) : Prop where
  lengths : parents.length = fees.length
  weight : ∀ index < fees.length, 0 < (feeAt fees index).weight
  parentsInRange : ∀ index < fees.length, ∀ parent ∈ parentsOf parents index, parent < fees.length ∧ parent ≠ index
  totalWeight : ∑ index ∈ Finset.range fees.length, (feeAt fees index).weight ≤ i32Max
  acyclic : ∃ rank : ℕ → ℕ, ∀ index < fees.length, ∀ parent ∈ parentsOf parents index, rank parent < rank index

def liveSet (fees : List FeeWeight) (remaining : ℕ → Bool) : Finset ℕ :=
  (Finset.range fees.length).filter fun index => remaining index

variable {index : ℕ} {fees : List FeeWeight}

lemma mem_liveSet {remaining : ℕ → Bool} :
    index ∈ liveSet fees remaining ↔ index < fees.length ∧ remaining index = true := by
  unfold liveSet
  rw [Finset.mem_filter, Finset.mem_range]

lemma toFinset_filter_range (fees : List FeeWeight) (remaining : ℕ → Bool) :
    ((range fees.length).filter remaining).toFinset = liveSet fees remaining := by
  ext index
  rw [mem_toFinset, mem_filter, mem_range, mem_liveSet]

def gain (fees : List FeeWeight) (rate : FeeWeight) (index : ℕ) : ℤ :=
  (feeAt fees index).fee * rate.weight - rate.fee * (feeAt fees index).weight

lemma checkedI128_ok {x y : ℤ} (h : checkedI128 x = .ok y) : y = x := by
  unfold checkedI128 at h
  split at h
  · cases h
    rfl
  · cases h

lemma checkedU128_ok {x y : ℕ} (h : checkedU128 x = .ok y) : y = x := by
  unfold checkedU128 at h
  split at h
  · cases h
    rfl
  · cases h

lemma gainOver_ok {rate : FeeWeight} {x : ℤ} (h : gainOver rate (feeAt fees index) = .ok x) :
    x = gain fees rate index := by
  obtain ⟨value, hvalue, h⟩ := bind_eq_ok h
  obtain ⟨threshold, hthreshold, h⟩ := bind_eq_ok h
  rw [checkedI128_ok h, checkedI128_ok hvalue, checkedI128_ok hthreshold]
  rfl

section

variable (fees) (parents : List (List ℕ)) (remaining : ℕ → Bool) (rate : FeeWeight)

def crossing (S : Finset ℕ) (index : ℕ) : ℤ :=
  if index ∈ S then max (-gain fees rate index) 0
  else if fees.length ∈ S then max (gain fees rate index) 0 else 0

structure Gained (passed : List ℕ) (acc : Flow × ℕ) : Prop where
  paired : acc.1.Paired
  nodes : acc.1.edges.length = fees.length + 2
  positive : (acc.2 : ℤ) = ((passed.filter remaining).map fun index => max (gain fees rate index) 0).sum
  leaving : ∀ S, fees.length + 1 ∉ S →
    (acc.1.leaving S : ℤ) = ((passed.filter remaining).map (crossing fees rate S)).sum

variable {fees parents remaining rate} {S : Finset ℕ} {flow : Flow}

lemma gained_new : Gained fees remaining rate [] (Flow.new (fees.length + 1 + 1), 0) where
  paired := Flow.paired_new _
  nodes := by simp [Flow.new]
  positive := rfl
  leaving S _ := by
    rw [leaving_new]
    rfl

lemma sum_map_filter_append (p : ℕ → Bool) (f : ℕ → ℤ) (passed : List ℕ) (index : ℕ) :
    (((passed ++ [index]).filter p).map f).sum = ((passed.filter p).map f).sum + if p index then f index else 0 := by
  cases hp : p index <;> simp [hp]

lemma Gained.step {passed : List ℕ} {acc acc' : Flow × ℕ} (h : Gained fees remaining rate passed acc)
    (hindex : index < fees.length) (hstep : gainEdges fees remaining rate acc index = .ok acc') :
    Gained fees remaining rate (passed ++ [index]) acc' := by
  have hnodes := h.nodes
  unfold gainEdges at hstep
  split at hstep
  · rename_i hlive
    obtain ⟨x, hx, hstep⟩ := bind_eq_ok hstep
    obtain rfl := gainOver_ok hx
    split at hstep
    · rename_i hpos
      obtain ⟨positive, hpositive, hstep⟩ := bind_eq_ok hstep
      obtain rfl := checkedU128_ok hpositive
      cases hstep
      have hne : fees.length ≠ index := by omega
      refine ⟨h.paired.add _ hne (by omega) (by omega), ?_, ?_, ?_⟩
      · rw [length_edges_add, h.nodes]
      · rw [sum_map_filter_append, if_pos hlive, ← h.positive, max_eq_left hpos.le]
        push_cast
        rw [abs_of_pos hpos]
      · intro S hS
        rw [leaving_add _ hne (by omega) (by omega), sum_map_filter_append, if_pos hlive, ← h.leaving S hS]
        unfold crossing
        by_cases hin : index ∈ S <;> by_cases hsource : fees.length ∈ S <;>
          simp [hin, hsource, hpos.le, abs_of_pos hpos]
    · split at hstep
      · rename_i hneg
        cases hstep
        have hne : index ≠ fees.length + 1 := by omega
        refine ⟨h.paired.add _ hne (by omega) (by omega), ?_, ?_, ?_⟩
        · rw [length_edges_add, h.nodes]
        · rw [sum_map_filter_append, ← h.positive]
          omega
        · intro S hS
          rw [leaving_add _ hne (by omega) (by omega), sum_map_filter_append, if_pos hlive, ← h.leaving S hS]
          unfold crossing
          by_cases hin : index ∈ S <;> by_cases hsource : fees.length ∈ S <;>
            simp [hin, hsource, hS, hneg.le, abs_of_neg hneg]
      · cases hstep
        refine ⟨h.paired, h.nodes, ?_, ?_⟩
        · rw [sum_map_filter_append, ← h.positive]
          omega
        · intro S hS
          rw [sum_map_filter_append, ← h.leaving S hS]
          unfold crossing
          by_cases hin : index ∈ S <;> by_cases hsource : fees.length ∈ S <;> simp [hin, hsource] <;> omega
  · rename_i hgone
    cases hstep
    refine ⟨h.paired, h.nodes, ?_, ?_⟩
    · rw [sum_map_filter_append, if_neg hgone, ← h.positive, add_zero]
    · intro S hS
      rw [sum_map_filter_append, if_neg hgone, ← h.leaving S hS, add_zero]

lemma sum_filter_range (f : ℕ → ℤ) :
    (((range fees.length).filter remaining).map f).sum = ∑ index ∈ liveSet fees remaining, f index := by
  rw [← toFinset_filter_range, sum_toFinset f (nodup_range.filter _)]

lemma mem_linksIn {link : ℕ × ℕ} :
    link ∈ linksIn parents remaining ↔ link.1 < parents.length ∧ remaining link.1 = true ∧
      link.2 ∈ parentsOf parents link.1 ∧ remaining link.2 = true := by
  unfold linksIn
  rw [mem_flatMap]
  constructor
  · rintro ⟨child, hchild, hlink⟩
    split at hlink
    · rename_i hlive
      obtain ⟨parent, hparent, rfl⟩ := mem_map.mp hlink
      obtain ⟨hparent, hremaining⟩ := mem_filter.mp hparent
      exact ⟨mem_range.mp hchild, hlive, hparent, hremaining⟩
    · exact absurd hlink not_mem_nil
  · rintro ⟨hchild, hlive, hparent, hremaining⟩
    refine ⟨link.1, mem_range.mpr hchild, ?_⟩
    rw [if_pos hlive]
    exact mem_map.mpr ⟨link.2, mem_filter.mpr ⟨hparent, hremaining⟩, rfl⟩

lemma foldl_links (infinite : ℕ) (links : List (ℕ × ℕ)) (flow : Flow) (hpaired : flow.Paired)
    (hlinks : ∀ link ∈ links, link.1 ≠ link.2 ∧ link.1 < flow.edges.length ∧ link.2 < flow.edges.length) :
    (links.foldl (fun flow link => flow.add link.1 link.2 infinite) flow).Paired ∧
    (links.foldl (fun flow link => flow.add link.1 link.2 infinite) flow).edges.length = flow.edges.length ∧
    ∀ S, (links.foldl (fun flow link => flow.add link.1 link.2 infinite) flow).leaving S =
      flow.leaving S + (links.map fun link => if link.1 ∈ S ∧ link.2 ∉ S then infinite else 0).sum := by
  induction links generalizing flow with
  | nil => exact ⟨hpaired, rfl, fun _ => rfl⟩
  | cons link links ih =>
    obtain ⟨hne, hstart, hstop⟩ := hlinks link mem_cons_self
    have hlength : (flow.add link.1 link.2 infinite).edges.length = flow.edges.length := length_edges_add infinite
    obtain ⟨hpaired', hlength', hleaving⟩ := ih (flow.add link.1 link.2 infinite) (hpaired.add _ hne hstart hstop) (by
      intro other hother
      rw [hlength]
      exact hlinks other (mem_cons_of_mem _ hother))
    refine ⟨hpaired', hlength'.trans hlength, ?_⟩
    intro S
    rw [foldl_cons, hleaving, leaving_add _ hne hstart hstop, map_cons, sum_cons]
    omega

def Keeps (parents : List (List ℕ)) (fees : List FeeWeight) (remaining : ℕ → Bool) (S : Finset ℕ) : Prop :=
  Density.Closed (parentsOf parents) (liveSet fees remaining) (liveSet fees remaining ∩ S)

lemma keeps_iff (hvalid : Validated fees parents) (S : Finset ℕ) :
    Keeps parents fees remaining S ↔ ∀ link ∈ linksIn parents remaining, link.1 ∈ S → link.2 ∈ S := by
  constructor
  · intro h link hlink hin
    obtain ⟨hchild, hlive, hparent, hremaining⟩ := mem_linksIn.mp hlink
    rw [hvalid.lengths] at hchild
    have := h.needs_mem link.1 (mem_inter.mpr ⟨mem_liveSet.mpr ⟨hchild, hlive⟩, hin⟩) link.2 hparent
      (mem_liveSet.mpr ⟨(hvalid.parentsInRange _ hchild _ hparent).1, hremaining⟩)
    exact (mem_inter.mp this).2
  · intro h
    refine ⟨Finset.inter_subset_left, ?_⟩
    intro v hv u hu hlive
    obtain ⟨hvlive, hvS⟩ := mem_inter.mp hv
    obtain ⟨hvn, hvr⟩ := mem_liveSet.mp hvlive
    exact mem_inter.mpr ⟨hlive, h (v, u) (mem_linksIn.mpr
      ⟨by rwa [hvalid.lengths], hvr, hu, (mem_liveSet.mp hlive).2⟩) hvS⟩

structure Built (fees : List FeeWeight) (parents : List (List ℕ)) (remaining : ℕ → Bool) (rate : FeeWeight)
    (flow : Flow) (positive : ℕ) : Prop where
  paired : flow.Paired
  nodes : flow.edges.length = fees.length + 2
  withSource : ∀ S, fees.length + 1 ∉ S → fees.length ∈ S → Keeps parents fees remaining S →
    (flow.leaving S : ℤ) = positive - ∑ index ∈ liveSet fees remaining ∩ S, gain fees rate index
  withoutSource : ∀ S, fees.length + 1 ∉ S → fees.length ∉ S → Keeps parents fees remaining S →
    (flow.leaving S : ℤ) = ∑ index ∈ liveSet fees remaining ∩ S, max (-gain fees rate index) 0
  broken : ∀ S, ¬Keeps parents fees remaining S → positive < flow.leaving S

lemma sum_crossing_withSource (hsource : fees.length ∈ S) :
    ∑ index ∈ liveSet fees remaining, crossing fees rate S index =
      ∑ index ∈ liveSet fees remaining, max (gain fees rate index) 0 -
        ∑ index ∈ liveSet fees remaining ∩ S, gain fees rate index := by
  rw [← sum_ite_mem, ← Finset.sum_sub_distrib]
  refine sum_congr rfl fun index _ => ?_
  unfold crossing
  split
  · omega
  · rw [sub_zero]

lemma sum_crossing_withoutSource (hsource : fees.length ∉ S) :
    ∑ index ∈ liveSet fees remaining, crossing fees rate S index =
      ∑ index ∈ liveSet fees remaining ∩ S, max (-gain fees rate index) 0 := by
  rw [← sum_ite_mem]
  refine sum_congr rfl fun index _ => ?_
  unfold crossing
  split
  · rfl
  · rfl

lemma Gained.built (hvalid : Validated fees parents) {acc : Flow × ℕ}
    (h : Gained fees remaining rate (range fees.length) acc) :
    Built fees parents remaining rate
      ((linksIn parents remaining).foldl (fun flow link => flow.add link.1 link.2 (acc.2 + 1)) acc.1) acc.2 := by
  have hnodes := h.nodes
  obtain ⟨hpaired, hlength, hleaving⟩ := foldl_links (acc.2 + 1) (linksIn parents remaining) acc.1 h.paired (by
    intro link hlink
    obtain ⟨hchild, -, hparent, -⟩ := mem_linksIn.mp hlink
    rw [hvalid.lengths] at hchild
    obtain ⟨hparent, hne⟩ := hvalid.parentsInRange _ hchild _ hparent
    exact ⟨hne.symm, by omega, by omega⟩)
  have hkept : ∀ S, Keeps parents fees remaining S →
      ((linksIn parents remaining).map fun link => if link.1 ∈ S ∧ link.2 ∉ S then acc.2 + 1 else 0).sum = 0 := by
    intro S hkeeps
    refine sum_eq_zero fun c hc => ?_
    obtain ⟨link, hlink, rfl⟩ := mem_map.mp hc
    exact if_neg fun hout => hout.2 ((keeps_iff hvalid S).mp hkeeps link hlink hout.1)
  have hpositive := h.positive
  rw [sum_filter_range] at hpositive
  refine ⟨hpaired, hlength.trans h.nodes, ?_, ?_, ?_⟩
  · intro S hsink hsource hkeeps
    rw [hleaving, hkept S hkeeps, Nat.add_zero, h.leaving S hsink, sum_filter_range, sum_crossing_withSource hsource,
      hpositive]
  · intro S hsink hsource hkeeps
    rw [hleaving, hkept S hkeeps, Nat.add_zero, h.leaving S hsink, sum_filter_range, sum_crossing_withoutSource hsource]
  · intro S hbroken
    rw [keeps_iff hvalid] at hbroken
    push Not at hbroken
    obtain ⟨link, hlink, hin, hout⟩ := hbroken
    have hle := single_le_sum (fun _ _ => Nat.zero_le _) _ (mem_map_of_mem (f := fun link : ℕ × ℕ =>
      if link.1 ∈ S ∧ link.2 ∉ S then acc.2 + 1 else 0) hlink)
    rw [if_pos ⟨hin, hout⟩] at hle
    rw [hleaving]
    omega

structure Cleared (fees : List FeeWeight) (parents : List (List ℕ)) (remaining : ℕ → Bool) (rate : FeeWeight)
    (flow : Flow) (best : ℕ) : Prop where
  paired : flow.Paired
  nodes : flow.edges.length = fees.length + 2
  gain_le : ∀ S, Density.Closed (parentsOf parents) (liveSet fees remaining) S →
    ∑ index ∈ S, gain fees rate index ≤ best
  reached : Keeps parents fees remaining (flow.reachable fees.length).toFinset ∧
    ∑ index ∈ liveSet fees remaining ∩ (flow.reachable fees.length).toFinset, gain fees rate index = best
  idle : best = 0 → ∀ v, v < fees.length →
    ¬Relation.ReflTransGen (fun a b => b ∈ flow.residual a) v (fees.length + 1) →
    Keeps parents fees remaining (flow.reachable v).toFinset ∧
      ∑ index ∈ liveSet fees remaining ∩ (flow.reachable v).toFinset, gain fees rate index = 0
  apart : best = 0 → ∀ T, Density.Closed (parentsOf parents) (liveSet fees remaining) T →
    ∑ index ∈ T, gain fees rate index = 0 →
    ∀ v ∈ T, ¬Relation.ReflTransGen (fun a b => b ∈ flow.residual a) v (fees.length + 1)

lemma mem_of_leaving_eq_zero (hS : flow.leaving S = 0) {v w : ℕ} (hv : v ∈ S)
    (hpath : Relation.ReflTransGen (fun a b => b ∈ flow.residual a) v w) : w ∈ S := by
  induction hpath with
  | refl => exact hv
  | tail _ hstep ih => exact leaving_eq_zero.mp hS _ ih _ hstep

lemma leaving_reachable (hpaired : flow.Paired) {v : ℕ} (hv : v < flow.edges.length) :
    flow.leaving (flow.reachable v).toFinset = 0 := by
  rw [leaving_eq_zero]
  intro x hx y hy
  rw [mem_toFinset, mem_reachable hpaired hv] at hx ⊢
  exact hx.tail hy

lemma reachable_subset (hpaired : flow.Paired) {v : ℕ} (hv : v < flow.edges.length) :
    (flow.reachable v).toFinset ⊆ Finset.range flow.edges.length := by
  intro x hx
  rw [mem_toFinset, mem_reachable hpaired hv] at hx
  rw [Finset.mem_range]
  rcases Relation.ReflTransGen.cases_tail hx with rfl | ⟨y, -, hstep⟩
  · exact hv
  · exact mem_range.mp (hpaired.residual_lt y x hstep)

lemma live_inter_of_closed {T : Finset ℕ} (hT : Density.Closed (parentsOf parents) (liveSet fees remaining) T) :
    liveSet fees remaining ∩ insert fees.length T = T := by
  ext index
  rw [mem_inter, mem_insert]
  constructor
  · rintro ⟨hlive, rfl | hT⟩
    · exact absurd (mem_liveSet.mp hlive).1 (Nat.lt_irrefl _)
    · exact hT
  · intro hin
    exact ⟨hT.subset hin, .inr hin⟩

lemma Built.cleared {flow flow' : Flow} {positive sent : ℕ} (h : Built fees parents remaining rate flow positive)
    (hrouted : Flow.Routed fees.length (fees.length + 1) flow flow' sent) (hsent : sent ≤ positive)
    (hend : sent = positive ∨ fees.length + 1 ∉ flow'.reachable fees.length) :
    Cleared fees parents remaining rate flow' (positive - sent) := by
  have hpaired := hrouted.shape.paired h.paired
  have hnodes : flow'.edges.length = fees.length + 2 := hrouted.shape.nodes.trans h.nodes
  have hcross : ∀ S ⊆ Finset.range (fees.length + 2), fees.length + 1 ∉ S →
      flow'.leaving S + (if fees.length ∈ S then sent else 0) = flow.leaving S := by
    intro S hS hsink
    have := hrouted.leaving h.paired (S := S) (by rwa [h.nodes])
    rwa [if_neg hsink] at this
  -- a closed set with the source: what crosses it is what was sent and what is left
  have hsourced : ∀ T, Density.Closed (parentsOf parents) (liveSet fees remaining) T →
      (flow'.leaving (insert fees.length T) : ℤ) + sent = positive - ∑ index ∈ T, gain fees rate index := by
    intro T hT
    have hrange : insert fees.length T ⊆ Finset.range (fees.length + 2) := by
      intro index hindex
      rw [Finset.mem_range]
      rcases mem_insert.mp hindex with rfl | hindex
      · omega
      · have := (mem_liveSet.mp (hT.subset hindex)).1
        omega
    have hsink : fees.length + 1 ∉ insert fees.length T := by
      rw [mem_insert]
      rintro (heq | hin)
      · omega
      · have := (mem_liveSet.mp (hT.subset hin)).1
        omega
    have hkeeps : Keeps parents fees remaining (insert fees.length T) := by
      unfold Keeps
      rwa [live_inter_of_closed hT]
    have hleaving := hcross _ hrange hsink
    rw [if_pos (Finset.mem_insert_self _ _)] at hleaving
    have hbuilt := h.withSource _ hsink (Finset.mem_insert_self _ _) hkeeps
    rw [live_inter_of_closed hT, ← hleaving] at hbuilt
    exact_mod_cast hbuilt
  have hempty : Density.Closed (parentsOf parents) (liveSet fees remaining) ∅ :=
    ⟨Finset.empty_subset _, fun _ hv => absurd hv (Finset.notMem_empty _)⟩
  -- at the end the sink cannot be reached from the source
  have hcut : fees.length + 1 ∉ flow'.reachable fees.length := by
    rcases hend with rfl | hcut
    · have hnone := hsourced ∅ hempty
      rw [Finset.sum_empty] at hnone
      have hzero : flow'.leaving (insert fees.length ∅) = 0 := by omega
      intro hsink
      rw [mem_reachable hpaired (by omega)] at hsink
      have := mem_of_leaving_eq_zero hzero (Finset.mem_insert_self _ _) hsink
      simp at this
    · exact hcut
  have hstuck : ∀ v < fees.length + 2, fees.length + 1 ∉ flow'.reachable v →
      (if fees.length ∈ (flow'.reachable v).toFinset then sent else 0) =
        flow.leaving (flow'.reachable v).toFinset := by
    intro v hv hsink
    have := hcross _ (by simpa [hnodes] using reachable_subset hpaired (v := v) (by omega)) (by simpa using hsink)
    rwa [leaving_reachable hpaired (by omega), Nat.zero_add] at this
  have hkept : ∀ v < fees.length + 2, fees.length + 1 ∉ flow'.reachable v →
      Keeps parents fees remaining (flow'.reachable v).toFinset := by
    intro v hv hsink
    by_contra hbroken
    have hmore := h.broken _ hbroken
    rw [← hstuck v hv hsink] at hmore
    split at hmore <;> omega
  have hgained : ∀ v < fees.length + 2, fees.length + 1 ∉ flow'.reachable v →
      fees.length ∈ (flow'.reachable v).toFinset →
      ∑ index ∈ liveSet fees remaining ∩ (flow'.reachable v).toFinset, gain fees rate index = positive - sent := by
    intro v hv hsink hsource
    have hbuilt := h.withSource _ (by simpa using hsink) hsource (hkept v hv hsink)
    rw [← hstuck v hv hsink, if_pos hsource] at hbuilt
    omega
  have hle : ∀ S, Density.Closed (parentsOf parents) (liveSet fees remaining) S →
      ∑ index ∈ S, gain fees rate index ≤ ((positive - sent : ℕ) : ℤ) := by
    intro S hS
    have := hsourced S hS
    omega
  refine ⟨hpaired, hnodes, hle, ⟨hkept _ (by omega) hcut, ?_⟩, ?_, ?_⟩
  · rw [hgained _ (by omega) hcut (by rw [mem_toFinset, mem_reachable hpaired (by omega)])]
    omega
  · intro hzero v hv hpath
    have hsink : fees.length + 1 ∉ flow'.reachable v := by rwa [mem_reachable hpaired (by omega)]
    have hkeeps := hkept v (by omega) hsink
    refine ⟨hkeeps, ?_⟩
    by_cases hsource : fees.length ∈ (flow'.reachable v).toFinset
    · rw [hgained v (by omega) hsink hsource]
      omega
    · have hbuilt := h.withoutSource _ (by simpa using hsink) hsource hkeeps
      rw [← hstuck v (by omega) hsink, if_neg hsource] at hbuilt
      have hnonneg : ∑ index ∈ liveSet fees remaining ∩ (flow'.reachable v).toFinset, (-gain fees rate index) ≤
          ∑ index ∈ liveSet fees remaining ∩ (flow'.reachable v).toFinset, max (-gain fees rate index) 0 :=
        Finset.sum_le_sum fun _ _ => le_max_left _ _
      rw [Finset.sum_neg_distrib] at hnonneg
      have := hle _ hkeeps
      omega
  · intro hzero T hT hloss v hv hpath
    have hleft := hsourced T hT
    have hleaving : flow'.leaving (insert fees.length T) = 0 := by omega
    rcases mem_insert.mp (mem_of_leaving_eq_zero hleaving (Finset.mem_insert_of_mem hv) hpath) with heq | hin
    · omega
    · have := (mem_liveSet.mp (hT.subset hin)).1
      omega

lemma closure_spec (hvalid : Validated fees parents) {r : Flow × ℕ}
    (h : closure fees parents remaining rate = .ok r) : Cleared fees parents remaining rate r.1 r.2 := by
  obtain ⟨acc, hacc, h⟩ := bind_eq_ok h
  obtain ⟨infinite, hinfinite, h⟩ := bind_eq_ok h
  obtain rfl := checkedU128_ok hinfinite
  have hgained : Gained fees remaining rate (range fees.length) acc :=
    foldlM_invariant hacc gained_new fun passed index acc acc' hindex hI hstep =>
      hI.step (mem_range.mp hindex) hstep
  have hbuilt := hgained.built hvalid
  obtain ⟨sent, hsent, h⟩ := bind_eq_ok h
  obtain ⟨r', hr', hle, hrouted, hend⟩ := maximum_routed fees.length (fees.length + 1) acc.2 hbuilt.paired
    (by rw [hbuilt.nodes]; omega)
  rw [hsent] at hr'
  cases hr'
  cases h
  exact hbuilt.cleared hrouted hle hend

end

end BitcoinRs.Mempool
