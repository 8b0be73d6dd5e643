import BitcoinRs.Mempool.Closure
import Mathlib.Order.Interval.Finset.Nat

namespace BitcoinRs.Mempool

open Fallible List
open Density (valueOf totals)

lemma FeeWeight.checkedAdd_ok {total other sum : FeeWeight} (h : total.checkedAdd other = .ok sum) :
    sum = ⟨total.fee + other.fee, total.weight + other.weight⟩ ∧ sum.weight ≤ i32Max := by
  unfold checkedAdd at h
  dsimp only at h
  split at h
  · cases h
  · split at h
    · cases h
    · obtain ⟨fee, hfee, h⟩ := bind_eq_ok h
      obtain ⟨-, -, h⟩ := bind_eq_ok h
      obtain rfl := checkedI128_ok hfee
      cases h
      exact ⟨rfl, by dsimp only; omega⟩

structure Summed (fees : List FeeWeight) (passed : List ℕ) (total : FeeWeight) : Prop where
  fee : total.fee = (passed.map fun index => (feeAt fees index).fee).sum
  weight : total.weight = (passed.map fun index => (feeAt fees index).weight).sum

lemma summed_nil (fees : List FeeWeight) : Summed fees [] .default := ⟨rfl, rfl⟩

variable {index : ℕ} {fees : List FeeWeight}

lemma Summed.step {passed : List ℕ} {total total' : FeeWeight} (h : Summed fees passed total)
    (hstep : total.checkedAdd (feeAt fees index) = .ok total') : Summed fees (passed ++ [index]) total' := by
  obtain ⟨rfl, -⟩ := FeeWeight.checkedAdd_ok hstep
  constructor
  · rw [map_append, sum_append, ← h.fee]
    simp
  · rw [map_append, sum_append, ← h.weight]
    simp

def feeOf (fees : List FeeWeight) (S : Finset ℕ) : ℤ := ∑ index ∈ S, (feeAt fees index).fee

def weightOf (fees : List FeeWeight) (S : Finset ℕ) : ℕ := ∑ index ∈ S, (feeAt fees index).weight

structure IsRate (fees : List FeeWeight) (rate : FeeWeight) (S : Finset ℕ) : Prop where
  fee : rate.fee = feeOf fees S
  weight : rate.weight = weightOf fees S

lemma sumMembers_spec {members : List ℕ} {total : FeeWeight} (hnodup : members.Nodup)
    (h : sumMembers fees members = .ok total) : IsRate fees total members.toFinset := by
  have hsummed : Summed fees members total :=
    foldlM_invariant h (summed_nil fees) fun _ _ _ _ _ hI hstep => hI.step hstep
  constructor
  · rw [hsummed.fee, feeOf, sum_toFinset _ hnodup]
  · rw [hsummed.weight, weightOf, sum_toFinset _ hnodup]

lemma sum_gain (fees : List FeeWeight) (rate : FeeWeight) (S : Finset ℕ) :
    ∑ index ∈ S, gain fees rate index = feeOf fees S * rate.weight - rate.fee * weightOf fees S := by
  unfold gain feeOf weightOf
  rw [Finset.sum_sub_distrib, Finset.sum_mul]
  push_cast
  rw [Finset.mul_sum]

variable {S : Finset ℕ}

lemma IsRate.sum_gain_eq_zero {rate : FeeWeight} (h : IsRate fees rate S) : ∑ index ∈ S, gain fees rate index = 0 := by
  rw [sum_gain, h.fee, h.weight]
  ring

section

def feeBound (fees : List FeeWeight) : ℕ := ∑ index ∈ Finset.range fees.length, (feeAt fees index).fee.natAbs

def Fits (fees : List FeeWeight) : Prop := 2 * feeBound fees * i32Max < 2 ^ 127

instance (fees : List FeeWeight) : Decidable (Fits fees) := inferInstanceAs (Decidable (_ < _))

variable {parents : List (List ℕ)}

lemma checkedI128_cases {x : ℤ} {n : ℕ} (hx : x.natAbs ≤ n) :
    checkedI128 x = .ok x ∨ checkedI128 x = .error .arithmetic ∧ ¬n < 2 ^ 127 := by
  unfold checkedI128
  split
  · exact .inl rfl
  · rename_i hout
    refine .inr ⟨rfl, fun hn => hout ?_⟩
    omega

lemma checkedU128_cases {x n : ℕ} (hx : x ≤ n + 1) :
    checkedU128 x = .ok x ∨ checkedU128 x = .error .arithmetic ∧ ¬n < 2 ^ 127 := by
  unfold checkedU128
  split
  · exact .inl rfl
  · rename_i hout
    refine .inr ⟨rfl, fun hn => hout ?_⟩
    omega

lemma Fits.of_le {n : ℕ} (hn : n ≤ 2 * feeBound fees * i32Max) (h : ¬n < 2 ^ 127) : ¬Fits fees := by
  unfold Fits
  omega

lemma natAbs_feeOf_le (hS : S ⊆ Finset.range fees.length) : (feeOf fees S).natAbs ≤ feeBound fees :=
  (Int.natAbs_sum_le S _).trans (Finset.sum_le_sum_of_subset hS)

lemma natAbs_fee_le (hindex : index < fees.length) : (feeAt fees index).fee.natAbs ≤ feeBound fees := by
  have hone : (feeOf fees {index}).natAbs ≤ feeBound fees := natAbs_feeOf_le (by simpa using hindex)
  simpa [feeOf] using hone

lemma Validated.weightOf_le (hvalid : Validated fees parents) (hS : S ⊆ Finset.range fees.length) :
    weightOf fees S ≤ i32Max := (Finset.sum_le_sum_of_subset hS).trans hvalid.totalWeight

lemma Validated.weight_le (hvalid : Validated fees parents) (hindex : index < fees.length) :
    (feeAt fees index).weight ≤ i32Max := by
  have := hvalid.weightOf_le (S := {index}) (by simpa using hindex)
  simpa [weightOf] using this

lemma le_two_mul (n : ℕ) : n ≤ 2 * n * i32Max := by
  unfold i32Max
  omega

lemma FeeWeight.checkedAdd_cases (hvalid : Validated fees parents) {total : FeeWeight}
    (hS : S ⊆ Finset.range fees.length) (hfee : total.fee + (feeAt fees index).fee = feeOf fees S)
    (hweight : total.weight + (feeAt fees index).weight = weightOf fees S) :
    (∃ sum, total.checkedAdd (feeAt fees index) = .ok sum) ∨
      total.checkedAdd (feeAt fees index) = .error .arithmetic ∧ ¬Fits fees := by
  have hweightLe := hvalid.weightOf_le hS
  have hfeeLe := natAbs_feeOf_le hS
  have hscaled : (feeOf fees S * i32Max).natAbs ≤ feeBound fees * i32Max := by
    rw [Int.natAbs_mul]
    exact Nat.mul_le_mul_right _ hfeeLe
  unfold checkedAdd
  rw [hfee, if_neg (by unfold i32Max at hweightLe; omega), if_neg (by omega)]
  rcases checkedI128_cases hfeeLe with hfirst | ⟨hfirst, hbig⟩
  · rw [hfirst, ok_bind]
    rcases checkedI128_cases hscaled with hsecond | ⟨hsecond, hbig⟩
    · rw [hsecond]
      exact .inl ⟨_, rfl⟩
    · rw [hsecond]
      exact .inr ⟨rfl, Fits.of_le (by rw [Nat.mul_assoc]; omega) hbig⟩
  · rw [hfirst]
    exact .inr ⟨rfl, Fits.of_le (le_two_mul _) hbig⟩

lemma sumMembers_cases (hvalid : Validated fees parents) {members : List ℕ} (hnodup : members.Nodup)
    (hrange : ∀ member ∈ members, member < fees.length) :
    (∃ total, sumMembers fees members = .ok total) ∨ sumMembers fees members = .error .arithmetic ∧ ¬Fits fees := by
  have hloop : (∃ total, sumMembers fees members = .ok total ∧ Summed fees members total) ∨
      sumMembers fees members = .error .arithmetic ∧ ¬Fits fees := by
    refine foldlM_cases (summed_nil fees) ?_
    intro passed index rest total hmembers hsummed
    -- the members passed and the next one are a set of nodes
    have hsub : (passed ++ [index]).Sublist members := by
      rw [hmembers.trans (append_cons _ _ _)]
      exact sublist_append_left _ _
    have hnodup' := hnodup.sublist hsub
    have hset : (passed ++ [index]).toFinset ⊆ Finset.range fees.length := by
      intro member hmember
      exact Finset.mem_range.mpr (hrange member (hsub.subset (mem_toFinset.mp hmember)))
    have hfee : total.fee + (feeAt fees index).fee = feeOf fees (passed ++ [index]).toFinset := by
      rw [feeOf, sum_toFinset _ hnodup', map_append, sum_append, ← hsummed.fee]
      simp
    have hweight : total.weight + (feeAt fees index).weight = weightOf fees (passed ++ [index]).toFinset := by
      rw [weightOf, sum_toFinset _ hnodup', map_append, sum_append, ← hsummed.weight]
      simp
    exact (FeeWeight.checkedAdd_cases hvalid hset hfee hweight).imp_left
      fun ⟨sum, hsum⟩ => ⟨sum, hsum, hsummed.step hsum⟩
  exact hloop.imp_left fun ⟨total, htotal, _⟩ => ⟨total, htotal⟩

structure Small (fees : List FeeWeight) (rate : FeeWeight) : Prop where
  fee : rate.fee.natAbs ≤ feeBound fees
  weight : rate.weight ≤ i32Max

lemma IsRate.small (hvalid : Validated fees parents) {rate : FeeWeight} (h : IsRate fees rate S)
    (hS : S ⊆ Finset.range fees.length) : Small fees rate where
  fee := by
    rw [h.fee]
    exact natAbs_feeOf_le hS
  weight := by
    rw [h.weight]
    exact hvalid.weightOf_le hS

variable {rate : FeeWeight}

lemma gainOver_cases (hvalid : Validated fees parents) (hsmall : Small fees rate) (hindex : index < fees.length) :
    gainOver rate (feeAt fees index) = .ok (gain fees rate index) ∨
      gainOver rate (feeAt fees index) = .error .arithmetic ∧ ¬Fits fees := by
  have hvalue : ((feeAt fees index).fee * rate.weight).natAbs ≤ feeBound fees * i32Max := by
    rw [Int.natAbs_mul]
    exact Nat.mul_le_mul (natAbs_fee_le hindex) hsmall.weight
  have hthreshold : (rate.fee * (feeAt fees index).weight).natAbs ≤ feeBound fees * i32Max := by
    rw [Int.natAbs_mul]
    exact Nat.mul_le_mul hsmall.fee (hvalid.weight_le hindex)
  have htwice : 2 * feeBound fees * i32Max = feeBound fees * i32Max + feeBound fees * i32Max := by ring
  unfold gainOver
  rcases checkedI128_cases hvalue with hfirst | ⟨hfirst, hbig⟩
  · rcases checkedI128_cases hthreshold with hsecond | ⟨hsecond, hbig⟩
    · rw [hfirst, hsecond]
      have hgain : (gain fees rate index).natAbs ≤ 2 * feeBound fees * i32Max := by
        unfold gain
        omega
      rcases checkedI128_cases hgain with hthird | ⟨hthird, hbig⟩
      · exact .inl hthird
      · exact .inr ⟨hthird, Fits.of_le (le_refl _) hbig⟩
    · rw [hfirst, hsecond]
      exact .inr ⟨rfl, Fits.of_le (by omega) hbig⟩
  · rw [hfirst]
    exact .inr ⟨rfl, Fits.of_le (by omega) hbig⟩

lemma natAbs_gain_le (index : ℕ) :
    (gain fees rate index).natAbs ≤
      (feeAt fees index).fee.natAbs * rate.weight + rate.fee.natAbs * (feeAt fees index).weight := by
  unfold gain
  have hvalue : ((feeAt fees index).fee * rate.weight).natAbs = (feeAt fees index).fee.natAbs * rate.weight := by
    rw [Int.natAbs_mul, Int.natAbs_natCast]
  have hthreshold : (rate.fee * (feeAt fees index).weight).natAbs = rate.fee.natAbs * (feeAt fees index).weight := by
    rw [Int.natAbs_mul, Int.natAbs_natCast]
  omega

lemma sum_natAbs_gain_le (hvalid : Validated fees parents) (hsmall : Small fees rate) :
    ∑ index ∈ Finset.range fees.length, (gain fees rate index).natAbs ≤ 2 * feeBound fees * i32Max := by
  calc ∑ index ∈ Finset.range fees.length, (gain fees rate index).natAbs
      ≤ ∑ index ∈ Finset.range fees.length,
          ((feeAt fees index).fee.natAbs * rate.weight + rate.fee.natAbs * (feeAt fees index).weight) :=
        Finset.sum_le_sum fun index _ => natAbs_gain_le index
    _ = feeBound fees * rate.weight +
          rate.fee.natAbs * ∑ index ∈ Finset.range fees.length, (feeAt fees index).weight := by
        rw [Finset.sum_add_distrib, ← Finset.sum_mul, ← Finset.mul_sum, feeBound]
    _ ≤ feeBound fees * i32Max + feeBound fees * i32Max :=
        Nat.add_le_add (Nat.mul_le_mul_left _ hsmall.weight) (Nat.mul_le_mul hsmall.fee hvalid.totalWeight)
    _ = 2 * feeBound fees * i32Max := by ring

variable {remaining : ℕ → Bool}

variable (remaining) in
lemma positive_le (hvalid : Validated fees parents) (hsmall : Small fees rate) {passed rest : List ℕ}
    (hrange : range fees.length = passed ++ rest) :
    ((passed.filter remaining).map fun index => max (gain fees rate index) 0).sum ≤
      ((2 * feeBound fees * i32Max : ℕ) : ℤ) := by
  have hsub : (passed.filter remaining).Sublist (range fees.length) := by
    rw [hrange]
    exact filter_sublist.trans (sublist_append_left _ _)
  have hset : (passed.filter remaining).toFinset ⊆ Finset.range fees.length := by
    intro index hindex
    exact Finset.mem_range.mpr (mem_range.mp (hsub.subset (mem_toFinset.mp hindex)))
  have hle : ∑ index ∈ (passed.filter remaining).toFinset, max (gain fees rate index) 0 ≤
      ((∑ index ∈ Finset.range fees.length, (gain fees rate index).natAbs : ℕ) : ℤ) := by
    rw [Nat.cast_sum]
    refine (Finset.sum_le_sum fun index _ => ?_).trans
      (Finset.sum_le_sum_of_subset_of_nonneg hset fun _ _ _ => Int.natCast_nonneg _)
    omega
  rw [← sum_toFinset _ (nodup_range.sublist hsub)]
  exact hle.trans (Int.ofNat_le.mpr (sum_natAbs_gain_le hvalid hsmall))

variable (remaining) in
lemma closure_cases (hvalid : Validated fees parents) (hsmall : Small fees rate) :
    (∃ r, closure fees parents remaining rate = .ok r ∧ Cleared fees parents remaining rate r.1 r.2) ∨
      closure fees parents remaining rate = .error .arithmetic ∧ ¬Fits fees := by
  have hloop : (∃ acc, (range fees.length).foldlM (gainEdges fees remaining rate)
        (Flow.new (fees.length + 1 + 1), 0) = .ok acc ∧ Gained fees remaining rate (range fees.length) acc) ∨
      (range fees.length).foldlM (gainEdges fees remaining rate) (Flow.new (fees.length + 1 + 1), 0) =
        .error .arithmetic ∧ ¬Fits fees := by
    refine foldlM_cases gained_new ?_
    intro passed index rest acc hrange hgained
    have hindex : index < fees.length := by
      rw [← mem_range, hrange]
      simp
    suffices hstep : (∃ acc', gainEdges fees remaining rate acc index = .ok acc') ∨
        gainEdges fees remaining rate acc index = .error .arithmetic ∧ ¬Fits fees from
      hstep.imp_left fun ⟨acc', hacc'⟩ => ⟨acc', hacc', hgained.step hindex hacc'⟩
    unfold gainEdges
    dsimp only
    split
    · rename_i hlive
      rcases gainOver_cases hvalid hsmall hindex with hgain | ⟨hgain, hbig⟩
      · rw [hgain, ok_bind]
        split
        · rename_i hpos
          have hpositive : acc.2 + (gain fees rate index).natAbs ≤ 2 * feeBound fees * i32Max + 1 := by
            have hle := positive_le remaining hvalid hsmall (hrange.trans (append_cons _ _ _))
            rw [sum_map_filter_append, if_pos hlive, ← hgained.positive] at hle
            omega
          rcases checkedU128_cases hpositive with hsum | ⟨hsum, hbig⟩
          · rw [hsum, ok_bind]
            exact .inl ⟨_, rfl⟩
          · rw [hsum, error_bind]
            exact .inr ⟨rfl, Fits.of_le (le_refl _) hbig⟩
        · split <;> exact .inl ⟨_, rfl⟩
      · rw [hgain, error_bind]
        exact .inr ⟨rfl, hbig⟩
    · exact .inl ⟨_, rfl⟩
  suffices hreturns : (∃ r, closure fees parents remaining rate = .ok r) ∨
      closure fees parents remaining rate = .error .arithmetic ∧ ¬Fits fees from
    hreturns.imp_left fun ⟨r, hr⟩ => ⟨r, hr, closure_spec hvalid hr⟩
  unfold closure
  dsimp only
  rcases hloop with ⟨acc, hacc, hgained⟩ | ⟨hfail, hbig⟩
  · have hbuilt := hgained.built hvalid
    have hpositive : acc.2 + 1 ≤ 2 * feeBound fees * i32Max + 1 := by
      have hle := positive_le remaining hvalid hsmall (append_nil _).symm
      rw [← hgained.positive] at hle
      omega
    rw [hacc, ok_bind]
    rcases checkedU128_cases hpositive with hinfinite | ⟨hinfinite, hbig⟩
    · obtain ⟨r, hr, -⟩ := Flow.maximum_routed fees.length (fees.length + 1) acc.2 hbuilt.paired
        (by rw [hbuilt.nodes]; omega)
      refine .inl ⟨(r.1, acc.2 - r.2), ?_⟩
      rw [hinfinite, ok_bind, hr, ok_bind]
    · rw [hinfinite, error_bind]
      exact .inr ⟨rfl, Fits.of_le (le_refl _) hbig⟩
  · rw [hfail, error_bind]
    exact .inr ⟨rfl, hbig⟩

end

section

variable {parents : List (List ℕ)}

lemma validateNode_ok {index : ℕ} (h : validateNode fees parents index = .ok ()) :
    0 < (feeAt fees index).weight ∧ ∀ parent ∈ parentsOf parents index, parent < fees.length ∧ parent ≠ index := by
  unfold validateNode at h
  dsimp only at h
  split at h
  · cases h
  · obtain ⟨-, -, h⟩ := bind_eq_ok h
    split at h
    · cases h
    · rename_i hparents
      refine ⟨by omega, ?_⟩
      intro parent hparent
      have hnone : ¬(fees.length ≤ parent ∨ parent = index) :=
        fun hbad => hparents (any_eq_true.mpr ⟨parent, hparent, decide_eq_true hbad⟩)
      omega

lemma InOrder.idxOf_lt {order : List ℕ} (h : InOrder parents order) {index parent : ℕ} (hindex : index ∈ order)
    (hparent : parent ∈ parentsOf parents index) (hmem : parent ∈ order) (hne : parent ≠ index) :
    order.idxOf parent < order.idxOf index := by
  by_contra hge
  have hlt : order.idxOf index < order.idxOf parent := by
    have : order.idxOf index ≠ order.idxOf parent := fun heq => hne ((idxOf_inj hindex).mp heq).symm
    omega
  have hlast := idxOf_lt_length_of_mem hmem
  have hpair := pairwise_iff_getElem.mp h _ _ (hlt.trans hlast) hlast hlt
  rw [getElem_idxOf, getElem_idxOf] at hpair
  exact hpair hparent

lemma validate_ok (h : validate fees parents = .ok ()) : Validated fees parents := by
  unfold validate at h
  split at h
  · cases h
  · rename_i hlengths
    obtain ⟨_, hnodes, h⟩ := bind_eq_ok h
    obtain ⟨total, htotal, h⟩ := bind_eq_ok h
    obtain ⟨order, horder, h⟩ := bind_eq_ok h
    have hnode : ∀ index < fees.length, 0 < (feeAt fees index).weight ∧
        ∀ parent ∈ parentsOf parents index, parent < fees.length ∧ parent ≠ index := by
      have hall : ∀ index ∈ range fees.length, 0 < (feeAt fees index).weight ∧
          ∀ parent ∈ parentsOf parents index, parent < fees.length ∧ parent ≠ index := by
        refine foldlM_invariant (I := fun passed _ => ∀ index ∈ passed, 0 < (feeAt fees index).weight ∧
          ∀ parent ∈ parentsOf parents index, parent < fees.length ∧ parent ≠ index) hnodes (by simp) ?_
        intro passed index _ _ _ hI hstep other hother
        rcases mem_append.mp hother with hother | hother
        · exact hI other hother
        · rw [mem_singleton.mp hother]
          exact validateNode_ok hstep
      exact fun index hindex => hall index (mem_range.mpr hindex)
    have hrate := sumMembers_spec nodup_range htotal
    obtain ⟨hsound, hperm, hinOrder⟩ := topological_spec horder
    refine ⟨(not_not.mp hlengths).symm, fun index hindex => (hnode index hindex).1,
      fun index hindex => (hnode index hindex).2, ?_, order.idxOf, ?_⟩
    · have hbound : total.weight ≤ i32Max :=
        foldlM_invariant (I := fun _ total => total.weight ≤ i32Max) htotal (Nat.zero_le _)
          fun _ _ _ _ _ _ hstep => (FeeWeight.checkedAdd_ok hstep).2
      rw [hrate.weight] at hbound
      rwa [toFinset_range] at hbound
    · intro index hindex parent hparent
      obtain ⟨hrange, hne⟩ := (hnode index hindex).2 parent hparent
      exact hinOrder.idxOf_lt (hperm.mem_iff.mpr (mem_range.mpr hindex)) hparent
        (hperm.mem_iff.mpr (mem_range.mpr hrange)) hne

end

variable {rate : FeeWeight}

section

variable {parents : List (List ℕ)} {remaining : ℕ → Bool}

lemma Validated.weightOf_pos (hvalid : Validated fees parents) {S : Finset ℕ} (hS : S ⊆ liveSet fees remaining)
    (hnonempty : S.Nonempty) : 0 < weightOf fees S :=
  Finset.sum_pos (fun index hindex => hvalid.weight index (mem_liveSet.mp (hS hindex)).1) hnonempty

def Peak (fees : List FeeWeight) (parents : List (List ℕ)) (remaining : ℕ → Bool) (rate : FeeWeight)
    (T : Finset ℕ) : Prop :=
  T = liveSet fees remaining ∨ ∃ old : FeeWeight, 0 < old.weight ∧ old.fee * rate.weight < rate.fee * old.weight ∧
    ∀ S, Density.Closed (parentsOf parents) (liveSet fees remaining) S →
      ∑ index ∈ S, gain fees old index ≤ ∑ index ∈ T, gain fees old index

lemma Peak.subset (hvalid : Validated fees parents) {T S : Finset ℕ} (h : Peak fees parents remaining rate T)
    (hrate : 0 < rate.weight) (hT : Density.Closed (parentsOf parents) (liveSet fees remaining) T)
    (hS : Density.Closed (parentsOf parents) (liveSet fees remaining) S)
    (hmost : ∀ S', Density.Closed (parentsOf parents) (liveSet fees remaining) S' →
      ∑ index ∈ S', gain fees rate index ≤ ∑ index ∈ S, gain fees rate index) :
    S ⊆ T := by
  rcases h with rfl | ⟨old, hold, hlower, holdMost⟩
  · exact hS.subset
  · by_contra hnot
    have hnonempty : (S \ T).Nonempty := Finset.sdiff_nonempty.mpr hnot
    have hpos := hvalid.weightOf_pos (Finset.sdiff_subset.trans hS.subset) hnonempty
    -- what is new gains nothing over the old rate, and loses nothing over the higher one
    have hunion := holdMost (T ∪ S \ T) (by
      rw [Finset.union_sdiff_self_eq_union]
      exact hT.union hS)
    rw [Finset.sum_union Finset.disjoint_sdiff, sum_gain fees old (S \ T)] at hunion
    have hinter := hmost (S ∩ T) (hS.inter hT)
    rw [← Finset.sum_inter_add_sum_sdiff S T, sum_gain fees rate (S \ T)] at hinter
    have hfirst : feeOf fees (S \ T) * old.weight ≤ old.fee * weightOf fees (S \ T) := by linarith
    have hsecond : rate.fee * weightOf fees (S \ T) ≤ feeOf fees (S \ T) * rate.weight := by linarith
    have hold' : (0 : ℤ) < old.weight := by exact_mod_cast hold
    have hrate' : (0 : ℤ) < rate.weight := by exact_mod_cast hrate
    have hpos' : (0 : ℤ) < weightOf fees (S \ T) := by exact_mod_cast hpos
    have hchain : rate.fee * old.weight * weightOf fees (S \ T) ≤ old.fee * rate.weight * weightOf fees (S \ T) := by
      calc rate.fee * old.weight * weightOf fees (S \ T)
          = rate.fee * weightOf fees (S \ T) * old.weight := by ring
        _ ≤ feeOf fees (S \ T) * rate.weight * old.weight := mul_le_mul_of_nonneg_right hsecond hold'.le
        _ = feeOf fees (S \ T) * old.weight * rate.weight := by ring
        _ ≤ old.fee * weightOf fees (S \ T) * rate.weight := mul_le_mul_of_nonneg_right hfirst hrate'.le
        _ = old.fee * rate.weight * weightOf fees (S \ T) := by ring
    exact absurd (le_of_mul_le_mul_right hchain hpos') (not_le.mpr hlower)

lemma toFinset_filter_mem (reached : List ℕ) :
    (((range fees.length).filter remaining).filter (· ∈ reached)).toFinset =
      liveSet fees remaining ∩ reached.toFinset := by
  ext index
  rw [mem_toFinset, mem_filter, Finset.mem_inter, mem_toFinset, ← toFinset_filter_range,
    mem_toFinset, decide_eq_true_eq]

structure Raised (fees : List FeeWeight) (parents : List (List ℕ)) (remaining : ℕ → Bool) (flow : Flow)
    (rate : FeeWeight) (T : Finset ℕ) : Prop where
  closed : Density.Closed (parentsOf parents) (liveSet fees remaining) T
  nonempty : T.Nonempty
  isRate : IsRate fees rate T
  cleared : Cleared fees parents remaining rate flow 0

lemma live_subset_range : liveSet fees remaining ⊆ Finset.range fees.length := Finset.filter_subset _ _

lemma raiseRate_cases (hvalid : Validated fees parents) (rounds : ℕ) {T : Finset ℕ}
    (hclosed : Density.Closed (parentsOf parents) (liveSet fees remaining) T) (hnonempty : T.Nonempty)
    (hrate : IsRate fees rate T) (hpeak : Peak fees parents remaining rate T) (hrounds : T.card ≤ rounds) :
    (∃ flow rate' T', raiseRate fees parents remaining ((range fees.length).filter remaining) rounds rate =
        .ok (flow, rate') ∧ Raised fees parents remaining flow rate' T') ∨
      raiseRate fees parents remaining ((range fees.length).filter remaining) rounds rate =
        .error .arithmetic ∧ ¬Fits fees := by
  induction rounds generalizing rate T with
  | zero =>
    have := hnonempty.card_pos
    omega
  | succ rounds ih =>
    have hweight : 0 < rate.weight := by
      rw [hrate.weight]
      exact hvalid.weightOf_pos hclosed.subset hnonempty
    unfold raiseRate
    rcases closure_cases remaining hvalid
      (hrate.small hvalid (hclosed.subset.trans live_subset_range)) with ⟨⟨flow, best⟩, hok, hcleared⟩ | ⟨hfail, hbig⟩
    · rw [hok, ok_bind]
      dsimp only at hcleared ⊢
      split
      · rename_i hzero
        subst hzero
        exact .inl ⟨flow, rate, T, rfl, hclosed, hnonempty, hrate, hcleared⟩
      · rename_i hbest
        obtain ⟨hkeeps, hsum⟩ := hcleared.reached
        rw [← toFinset_filter_mem] at hsum
        unfold Keeps at hkeeps
        rw [← toFinset_filter_mem] at hkeeps
        set next := ((range fees.length).filter remaining).filter (· ∈ flow.reachable fees.length) with hnext
        have hmost : ∀ S', Density.Closed (parentsOf parents) (liveSet fees remaining) S' →
            ∑ index ∈ S', gain fees rate index ≤ ∑ index ∈ next.toFinset, gain fees rate index := by
          intro S' hS'
          rw [hsum]
          exact hcleared.gain_le S' hS'
        have hne : next ≠ [] := by
          intro hnil
          rw [hnil, toFinset_nil, Finset.sum_empty] at hsum
          exact hbest (by exact_mod_cast hsum.symm)
        have hnodup : next.Nodup := (nodup_range.filter _).filter _
        rw [if_neg hne]
        rcases sumMembers_cases hvalid hnodup (by
          intro member hmember
          exact mem_range.mp (mem_of_mem_filter (mem_of_mem_filter hmember))) with
          ⟨nextRate, hok⟩ | ⟨hfail, hbig⟩
        · have hnextRate := sumMembers_spec hnodup hok
          have hhigher : rate.fee * nextRate.weight < nextRate.fee * rate.weight := by
            rw [sum_gain, ← hnextRate.fee, ← hnextRate.weight] at hsum
            have : (0 : ℤ) < best := by exact_mod_cast Nat.pos_of_ne_zero hbest
            linarith
          have hcmp : nextRate.rateCmp rate = .gt := by
            exact compare_gt_iff_gt.mpr hhigher
          rw [hok, ok_bind, if_neg (not_not.mpr hcmp)]
          have hsubset := hpeak.subset hvalid hweight hclosed hkeeps hmost
          have hssubset : next.toFinset ⊂ T := by
            refine Finset.ssubset_iff_subset_ne.mpr ⟨hsubset, ?_⟩
            intro heq
            rw [heq, hrate.sum_gain_eq_zero] at hsum
            exact hbest (by exact_mod_cast hsum.symm)
          have hcard := Finset.card_lt_card hssubset
          exact ih hkeeps (toFinset_nonempty_iff _ |>.mpr hne) hnextRate
            (.inr ⟨rate, hweight, hhigher, hmost⟩) (by omega)
        · rw [hfail]
          exact .inr ⟨rfl, hbig⟩
    · rw [hfail]
      exact .inr ⟨rfl, hbig⟩

end

section

variable (flow : Flow) {members : List ℕ} (reachesSink : List ℕ)

lemma foldl_pickMinimal (rest : List ℕ) (minimal : Option (List ℕ))
    (hminimal : ∀ closed, minimal = some closed →
      ∃ v ∈ members, v ∉ reachesSink ∧ closed = members.filter (· ∈ flow.reachable v))
    (hrest : ∀ v ∈ rest, v ∈ members) :
    (∀ closed, rest.foldl (pickMinimal flow members reachesSink) minimal = some closed →
      ∃ v ∈ members, v ∉ reachesSink ∧ closed = members.filter (· ∈ flow.reachable v)) ∧
    ((minimal.isSome ∨ ∃ v ∈ rest, v ∉ reachesSink) →
      (rest.foldl (pickMinimal flow members reachesSink) minimal).isSome) := by
  induction rest generalizing minimal with
  | nil => exact ⟨hminimal, fun h => h.resolve_right (by simp)⟩
  | cons member rest ih =>
    have hmember := hrest member mem_cons_self
    have hnext : ∀ closed, pickMinimal flow members reachesSink minimal member = some closed →
        ∃ v ∈ members, v ∉ reachesSink ∧ closed = members.filter (· ∈ flow.reachable v) := by
      intro closed hclosed
      unfold pickMinimal at hclosed
      split at hclosed
      · exact hminimal closed hclosed
      · rename_i hfree
        dsimp only at hclosed
        split at hclosed
        · exact ⟨member, hmember, hfree, (Option.some.inj hclosed).symm⟩
        · exact hminimal closed hclosed
    obtain ⟨hpicked, hsome⟩ := ih (pickMinimal flow members reachesSink minimal member) hnext
      fun v hv => hrest v (mem_cons_of_mem _ hv)
    refine ⟨hpicked, fun hany => hsome ?_⟩
    have hkept : minimal.isSome → (pickMinimal flow members reachesSink minimal member).isSome := by
      intro h
      unfold pickMinimal
      dsimp only
      split
      · exact h
      · split
        · rfl
        · exact h
    rcases hany with hminimal | ⟨v, hv, hfree⟩
    · exact .inl (hkept hminimal)
    · rcases mem_cons.mp hv with rfl | hv
      · left
        unfold pickMinimal
        rw [if_neg hfree]
        dsimp only
        cases minimal with
        | none => rfl
        | some best => split <;> rfl
      · exact .inr ⟨v, hv, hfree⟩

end

section

variable (fees) (parents : List (List ℕ))

def value (index : ℕ) : ℚ := (feeAt fees index).fee
def size (index : ℕ) : ℚ := (feeAt fees index).weight

structure IsChunk (R : Finset ℕ) (chunk : Chunk) : Prop where
  densest : Density.Densest (parentsOf parents) (value fees) (size fees) R chunk.members.toFinset
  nodup : chunk.members.Nodup
  inOrder : InOrder parents chunk.members
  total : IsRate fees chunk.total chunk.members.toFinset

variable {fees parents} (S)

lemma valueOf_value : Density.valueOf (value fees) S = (feeOf fees S : ℚ) := by
  unfold Density.valueOf value feeOf
  push_cast
  rfl

lemma valueOf_size : Density.valueOf (size fees) S = (weightOf fees S : ℚ) := by
  unfold Density.valueOf size weightOf
  push_cast
  rfl

variable {remaining : ℕ → Bool}

lemma Raised.densest (hvalid : Validated fees parents) {flow : Flow} {T C : Finset ℕ}
    (h : Raised fees parents remaining flow rate T) (hC : Density.Closed (parentsOf parents) (liveSet fees remaining) C)
    (hnonempty : C.Nonempty) (hloss : ∑ index ∈ C, gain fees rate index = 0) :
    Density.Densest (parentsOf parents) (value fees) (size fees) (liveSet fees remaining) C where
  closed := hC
  nonempty := hnonempty
  rate_le S hS := by
    have hgain := h.cleared.gain_le S hS
    rw [sum_gain] at hgain hloss
    have hrate : (0 : ℤ) < rate.weight := by
      rw [h.isRate.weight]
      exact_mod_cast hvalid.weightOf_pos h.closed.subset h.nonempty
    have hscaled : feeOf fees S * weightOf fees C * rate.weight ≤ feeOf fees C * weightOf fees S * rate.weight := by
      calc feeOf fees S * weightOf fees C * rate.weight
          = feeOf fees S * rate.weight * weightOf fees C := by ring
        _ ≤ rate.fee * weightOf fees S * weightOf fees C :=
            mul_le_mul_of_nonneg_right (by push_cast at hgain; linarith) (Int.natCast_nonneg _)
        _ = rate.fee * weightOf fees C * weightOf fees S := by ring
        _ = feeOf fees C * rate.weight * weightOf fees S := by rw [← sub_eq_zero.mp hloss]
        _ = feeOf fees C * weightOf fees S * rate.weight := by ring
    have hcross := le_of_mul_le_mul_right hscaled hrate
    rw [valueOf_value, valueOf_value, valueOf_size, valueOf_size]
    exact_mod_cast hcross

lemma nextChunk_cases (hvalid : Validated fees parents) (hlive : (liveSet fees remaining).Nonempty) :
    (∃ chunk, nextChunk fees parents remaining = .ok chunk ∧ IsChunk fees parents (liveSet fees remaining) chunk) ∨
      nextChunk fees parents remaining = .error .arithmetic ∧ ¬Fits fees := by
  have hmembers : ((range fees.length).filter remaining).Nodup := nodup_range.filter _
  have hrange : ∀ member ∈ (range fees.length).filter remaining, member < fees.length :=
    fun member hmember => mem_range.mp (mem_of_mem_filter hmember)
  have hall : Density.Closed (parentsOf parents) (liveSet fees remaining) (liveSet fees remaining) :=
    ⟨Finset.Subset.refl _, fun _ _ _ _ hu => hu⟩
  unfold nextChunk
  dsimp only
  rcases sumMembers_cases hvalid hmembers hrange with ⟨rate, hok⟩ | ⟨hfail, hbig⟩
  · have hrate := sumMembers_spec hmembers hok
    rw [toFinset_filter_range] at hrate
    have hcard : (liveSet fees remaining).card ≤ ((range fees.length).filter remaining).length + 1 := by
      rw [← toFinset_filter_range, toFinset_card_of_nodup hmembers]
      omega
    rw [hok, ok_bind]
    rcases raiseRate_cases hvalid _ hall hlive hrate (.inl rfl) hcard with
      ⟨flow, rate', T, hraise, hraised⟩ | ⟨hfail, hbig⟩
    · rw [hraise, ok_bind]
      have hcleared := hraised.cleared
      obtain ⟨hpicked, hsome⟩ := foldl_pickMinimal flow
        (flow.reverseReachable (fees.length + 1)) ((range fees.length).filter remaining) none
        (by simp) fun v hv => hv
      -- a member of the set that has the rate does not reach the sink
      obtain ⟨w, hw⟩ := hraised.nonempty
      have hwlive := mem_liveSet.mp (hraised.closed.subset hw)
      have hfree : w ∉ flow.reverseReachable (fees.length + 1) := by
        rw [hcleared.paired.mem_reverseReachable (by rw [hcleared.nodes]; omega)]
        exact hcleared.apart rfl T hraised.closed hraised.isRate.sum_gain_eq_zero w hw
      obtain ⟨minimal, hminimal⟩ := Option.isSome_iff_exists.mp
        (hsome (.inr ⟨w, mem_filter.mpr ⟨mem_range.mpr hwlive.1, hwlive.2⟩, hfree⟩))
      obtain ⟨v, hv, hvfree, rfl⟩ := hpicked minimal hminimal
      rw [hcleared.paired.mem_reverseReachable (by rw [hcleared.nodes]; omega)] at hvfree
      obtain ⟨hkeeps, hloss⟩ := hcleared.idle rfl v (hrange v hv) hvfree
      unfold Keeps at hkeeps
      rw [← toFinset_filter_mem] at hkeeps hloss
      rw [hminimal]
      dsimp only
      set minimal := ((range fees.length).filter remaining).filter (· ∈ flow.reachable v) with hset
      have hnodup : minimal.Nodup := hmembers.filter _
      have hminimalRange : ∀ member ∈ minimal, member < fees.length :=
        fun member hmember => hrange member (mem_of_mem_filter hmember)
      have hvmem : v ∈ minimal := by
        rw [mem_filter]
        refine ⟨hv, decide_eq_true ?_⟩
        rw [Flow.mem_reachable hcleared.paired (by rw [hcleared.nodes]; have := hrange v hv; omega)]
      rcases sumMembers_cases hvalid hnodup hminimalRange with ⟨total, htotal⟩ | ⟨hfail, hbig⟩
      · have htotalRate := sumMembers_spec hnodup htotal
        have hcmp : total.rateCmp rate' = .eq := by
          rw [sum_gain, ← htotalRate.fee, ← htotalRate.weight] at hloss
          exact compare_eq_iff_eq.mpr (sub_eq_zero.mp hloss)
        have hsound : Sound parents minimal := by
          refine ⟨hnodup, ?_, ?_⟩
          · intro member hmember
            rw [hvalid.lengths]
            exact hminimalRange member hmember
          · intro member hmember parent hparent
            rw [hvalid.lengths]
            exact (hvalid.parentsInRange member (hminimalRange member hmember) parent hparent).1
        obtain ⟨rank, hrank⟩ := hvalid.acyclic
        obtain ⟨order, horder⟩ := topological_eq_ok hsound rank fun member hmember parent hparent _ =>
          hrank member (hminimalRange member hmember) parent hparent
        obtain ⟨-, hperm, hinOrder⟩ := topological_spec horder
        have hsame : order.toFinset = minimal.toFinset := toFinset_eq_of_perm _ _ hperm
        rw [htotal, ok_bind, if_neg (not_not.mpr hcmp), horder]
        refine .inl ⟨⟨order, total⟩, rfl, ?_, hperm.nodup_iff.mpr hnodup, hinOrder, ?_⟩
        · rw [hsame]
          exact hraised.densest hvalid hkeeps ⟨v, mem_toFinset.mpr hvmem⟩ hloss
        · rw [hsame]
          exact htotalRate
      · rw [hfail]
        exact .inr ⟨rfl, hbig⟩
    · rw [hfail]
      exact .inr ⟨rfl, hbig⟩
  · rw [hfail]
    exact .inr ⟨rfl, hbig⟩

lemma liveSet_chunk (chunk : Chunk) :
    (liveSet fees fun index => remaining index && index ∉ chunk.members) =
      liveSet fees remaining \ chunk.members.toFinset := by
  ext index
  rw [mem_liveSet, Finset.mem_sdiff, mem_liveSet, mem_toFinset, Bool.and_eq_true, decide_eq_true_eq, and_assoc]

structure Chunked (fees : List FeeWeight) (parents : List (List ℕ)) (R : Finset ℕ) (chunks : List Chunk) : Prop where
  greedy : Density.Greedy (parentsOf parents) (value fees) (size fees) R
    (chunks.map fun chunk => chunk.members.toFinset)
  each : ∀ chunk ∈ chunks, InOrder parents chunk.members ∧ IsRate fees chunk.total chunk.members.toFinset
  nodup : (chunks.flatMap Chunk.members).Nodup
  nodes : (chunks.flatMap Chunk.members).toFinset = R

lemma chunked_nil : Chunked fees parents ∅ [] := ⟨.nil, by simp, nodup_nil, rfl⟩

lemma Chunked.cons {R : Finset ℕ} {chunk : Chunk} {chunks : List Chunk} (hchunk : IsChunk fees parents R chunk)
    (h : Chunked fees parents (R \ chunk.members.toFinset) chunks) : Chunked fees parents R (chunk :: chunks) where
  greedy := .cons hchunk.densest h.greedy
  each other hother := by
    rcases mem_cons.mp hother with rfl | hother
    · exact ⟨hchunk.inOrder, hchunk.total⟩
    · exact h.each other hother
  nodup := by
    refine Nodup.append hchunk.nodup h.nodup ?_
    intro index hindex hlater
    have hrest := h.nodes ▸ mem_toFinset.mpr hlater
    exact (Finset.mem_sdiff.mp hrest).2 (mem_toFinset.mpr hindex)
  nodes := by
    rw [flatMap_cons, toFinset_append, h.nodes]
    exact Finset.union_sdiff_of_subset hchunk.densest.closed.subset

lemma any_range (remaining : ℕ → Bool) :
    (range fees.length).any remaining = true ↔ (liveSet fees remaining).Nonempty := by
  rw [any_eq_true]
  constructor
  · rintro ⟨index, hindex, hlive⟩
    exact ⟨index, mem_liveSet.mpr ⟨mem_range.mp hindex, hlive⟩⟩
  · rintro ⟨index, hindex⟩
    obtain ⟨hrange, hlive⟩ := mem_liveSet.mp hindex
    exact ⟨index, mem_range.mpr hrange, hlive⟩

lemma linearizeLoop_cases (hvalid : Validated fees parents) (fuel : ℕ) (hfuel : (liveSet fees remaining).card ≤ fuel) :
    (∃ chunks, linearizeLoop fees parents fuel remaining = .ok chunks ∧
        Chunked fees parents (liveSet fees remaining) chunks) ∨
      linearizeLoop fees parents fuel remaining = .error .arithmetic ∧ ¬Fits fees := by
  induction fuel generalizing remaining with
  | zero =>
    have hempty : liveSet fees remaining = ∅ := Finset.card_eq_zero.mp (by omega)
    unfold linearizeLoop
    rw [if_neg (by rw [any_range, hempty]; exact Finset.not_nonempty_empty), hempty]
    exact .inl ⟨[], rfl, chunked_nil⟩
  | succ fuel ih =>
    unfold linearizeLoop
    split
    · rename_i hlive
      dsimp only
      rcases nextChunk_cases hvalid ((any_range remaining).mp hlive) with ⟨chunk, hok, hchunk⟩ | ⟨hfail, hbig⟩
      · have hcard := Finset.card_sdiff_add_card_eq_card hchunk.densest.closed.subset
        have hpos := hchunk.densest.nonempty.card_pos
        rw [hok, ok_bind]
        have hless : (liveSet fees fun index => remaining index && index ∉ chunk.members).card ≤ fuel := by
          rw [liveSet_chunk]
          omega
        rcases ih hless with ⟨chunks, hok', hchunks⟩ | ⟨hfail, hbig⟩
        · rw [hok']
          rw [liveSet_chunk] at hchunks
          exact .inl ⟨_, rfl, hchunks.cons hchunk⟩
        · rw [hfail]
          exact .inr ⟨rfl, hbig⟩
      · rw [hfail]
        exact .inr ⟨rfl, hbig⟩
    · rename_i hnone
      have hempty : liveSet fees remaining = ∅ := by
        rw [← Finset.not_nonempty_iff_eq_empty, ← any_range]
        exact hnone
      rw [hempty]
      exact .inl ⟨[], rfl, chunked_nil⟩

end

def groupTotal (fees : List FeeWeight) (group : List ℕ) : ℚ × ℚ :=
  ((group.map fun index => ((feeAt fees index).fee : ℚ)).sum,
    (group.map fun index => ((feeAt fees index).weight : ℚ)).sum)

def chunkTotal (chunk : Chunk) : ℚ × ℚ := (chunk.total.fee, chunk.total.weight)

/-- An order of all nodes that keeps the dependencies, cut into groups; with one node a group, the order itself. -/
structure Grouping (fees : List FeeWeight) (parents : List (List ℕ)) (groups : List (List ℕ)) : Prop where
  perm : groups.flatten.Perm (range fees.length)
  inOrder : InOrder parents groups.flatten
  nonempty : ∀ group ∈ groups, group ≠ []

structure Linearization (fees : List FeeWeight) (parents : List (List ℕ)) (chunks : List Chunk) : Prop where
  partition : (chunks.flatMap Chunk.members).Perm (range fees.length)
  inOrder : ∀ chunk ∈ chunks, InOrder parents chunk.members
  total : ∀ chunk ∈ chunks, chunkTotal chunk = groupTotal fees chunk.members
  densest : Density.Greedy (parentsOf parents) (value fees) (size fees) (Finset.range fees.length)
    (chunks.map fun chunk => chunk.members.toFinset)
  falling : chunks.Pairwise fun first later => later.total.rateCmp first.total ≠ .gt
  dominates : ∀ groups, Grouping fees parents groups → ∀ x : ℚ, 0 ≤ x →
    Density.diagram (groups.map (groupTotal fees)) x ≤ Density.diagram (chunks.map chunkTotal) x

section

variable {parents : List (List ℕ)}

lemma groupTotal_eq {group : List ℕ} (hnodup : group.Nodup) :
    groupTotal fees group = (valueOf (value fees) group.toFinset, valueOf (size fees) group.toFinset) := by
  unfold groupTotal valueOf value size
  rw [sum_toFinset _ hnodup, sum_toFinset _ hnodup]

lemma IsRate.chunkTotal_eq {chunk : Chunk} (h : IsRate fees chunk.total chunk.members.toFinset) :
    chunkTotal chunk =
      (valueOf (value fees) chunk.members.toFinset, valueOf (size fees) chunk.members.toFinset) := by
  unfold chunkTotal
  rw [valueOf_value, valueOf_size, h.fee, h.weight]

lemma ordered_of_inOrder (groups : List (List ℕ)) (before : List ℕ)
    (hperm : (before ++ groups.flatten).Perm (range fees.length)) (hinOrder :
      InOrder parents (before ++ groups.flatten))
    (hnonempty : ∀ group ∈ groups, group ≠ []) :
    Density.Ordered (parentsOf parents) (Finset.range fees.length) before.toFinset (groups.map toFinset) := by
  induction groups generalizing before with
  | nil =>
    rw [flatten_nil, append_nil] at hperm
    rw [toFinset_eq_of_perm _ _ hperm, toFinset_range]
    exact .done
  | cons group groups ih =>
    rw [flatten_cons, ← append_assoc] at hperm hinOrder
    have hnodup := hperm.nodup_iff.mpr nodup_range
    have hgroup := (nodup_append'.mp hnodup).1
    have hrest := ih (before ++ group) hperm hinOrder fun g hg => hnonempty g (mem_cons_of_mem _ hg)
    rw [toFinset_append] at hrest
    refine .step ?_ ?_ ⟨?_, ?_⟩ hrest
    · exact (toFinset_nonempty_iff _).mpr (hnonempty group mem_cons_self)
    · exact disjoint_toFinset_iff_disjoint.mpr (nodup_append'.mp hgroup).2.2
    · intro index hindex
      rw [← toFinset_append, mem_toFinset] at hindex
      exact Finset.mem_range.mpr (mem_range.mp (hperm.mem_iff.mp (mem_append_left _ hindex)))
    · -- a parent among the later groups would stand behind its child
      intro v hv u hu hrange
      rw [← toFinset_append, mem_toFinset] at hv ⊢
      rcases mem_append.mp (hperm.mem_iff.mpr (mem_range.mpr (Finset.mem_range.mp hrange))) with hin | hlater
      · exact hin
      · exact absurd hu ((pairwise_append.mp hinOrder).2.2 v hv u hlater)

lemma Chunked.linearization (hvalid : Validated fees parents) {chunks : List Chunk}
    (h : Chunked fees parents (Finset.range fees.length) chunks) : Linearization fees parents chunks := by
  have hpos : ∀ index ∈ Finset.range fees.length, 0 < size fees index := by
    intro index hindex
    exact Nat.cast_pos.mpr (hvalid.weight index (Finset.mem_range.mp hindex))
  have hmembers : ∀ chunk ∈ chunks, chunk.members.Nodup := fun chunk hchunk =>
    (nodup_flatMap.mp h.nodup).1 chunk hchunk
  have htotals : chunks.map chunkTotal =
      totals (value fees) (size fees) (chunks.map fun chunk => chunk.members.toFinset) := by
    unfold totals
    rw [map_map]
    exact map_congr_left fun chunk hchunk => (h.each chunk hchunk).2.chunkTotal_eq
  refine ⟨?_, fun chunk hchunk => (h.each chunk hchunk).1, ?_, h.greedy, ?_, ?_⟩
  · refine (perm_ext_iff_of_nodup h.nodup nodup_range).mpr fun index => ?_
    rw [← mem_toFinset, h.nodes, Finset.mem_range, mem_range]
  · intro chunk hchunk
    rw [(h.each chunk hchunk).2.chunkTotal_eq, groupTotal_eq (hmembers chunk hchunk)]
  · have hfalling := h.greedy.falling hpos
    unfold Density.Falling at hfalling
    rw [pairwise_map] at hfalling
    refine hfalling.imp_of_mem ?_
    intro first later hfirst hlater hrate
    have hweight := h.greedy.weight_pos hpos
    have hwfirst := hweight _ (mem_map_of_mem hfirst)
    have hwlater := hweight _ (mem_map_of_mem hlater)
    rw [div_le_div_iff₀ hwlater hwfirst, valueOf_value, valueOf_value, valueOf_size, valueOf_size] at hrate
    unfold FeeWeight.rateCmp
    rw [(h.each first hfirst).2.fee, (h.each later hlater).2.fee, (h.each first hfirst).2.weight,
      (h.each later hlater).2.weight]
    have hcross : feeOf fees later.members.toFinset * weightOf fees first.members.toFinset ≤
        feeOf fees first.members.toFinset * weightOf fees later.members.toFinset := by exact_mod_cast hrate
    rw [Ne, compare_gt_iff_gt]
    exact not_lt.mpr hcross
  · intro groups hgroups x hx
    have hordered := ordered_of_inOrder groups [] hgroups.perm hgroups.inOrder hgroups.nonempty
    have hempty : Density.Closed (parentsOf parents) (Finset.range fees.length) ∅ :=
      ⟨Finset.empty_subset _, fun _ hv => absurd hv (Finset.notMem_empty _)⟩
    have hgroupTotals : groups.map (groupTotal fees) = totals (value fees) (size fees) (groups.map toFinset) := by
      unfold totals
      rw [map_map]
      refine map_congr_left fun group hgroup => groupTotal_eq ?_
      exact (nodup_flatten.mp (hgroups.perm.nodup_iff.mpr nodup_range)).1 group hgroup
    have hle := h.greedy.dominates hpos hempty hordered hx
    rw [hgroupTotals, htotals]
    simpa [valueOf] using hle

end

/-- On a validated graph `linearize` returns an optimal linearization, unless the fees are too large for `i128`. -/
theorem linearize_optimal (fees : List FeeWeight) (parents : List (List ℕ)) (hvalid : validate fees parents = .ok ()) :
    (∃ chunks, linearize fees parents = .ok chunks ∧ Linearization fees parents chunks) ∨
      linearize fees parents = .error .arithmetic ∧ ¬Fits fees := by
  have hvalidated := validate_ok hvalid
  have hlive : (liveSet fees fun _ => true) = Finset.range fees.length := by
    ext index
    rw [mem_liveSet, Finset.mem_range]
    exact and_iff_left rfl
  have hcard : (liveSet fees fun _ => true).card ≤ fees.length := by
    rw [hlive, Finset.card_range]
  have hloop := linearizeLoop_cases hvalidated fees.length hcard
  unfold linearize
  rw [hvalid]
  rw [hlive] at hloop
  exact hloop.imp_left fun ⟨chunks, hok, hchunked⟩ => ⟨chunks, hok, hchunked.linearization hvalidated⟩

theorem linearize_optimal_child_pays :
    validate [⟨1, 4⟩, ⟨30, 4⟩, ⟨9, 4⟩] [[], [0], []] = .ok () ∧ Fits [⟨1, 4⟩, ⟨30, 4⟩, ⟨9, 4⟩] ∧
      ∃ chunks, linearize [⟨1, 4⟩, ⟨30, 4⟩, ⟨9, 4⟩] [[], [0], []] = .ok chunks ∧
        Linearization [⟨1, 4⟩, ⟨30, 4⟩, ⟨9, 4⟩] [[], [0], []] chunks := by
  have hvalid : validate [⟨1, 4⟩, ⟨30, 4⟩, ⟨9, 4⟩] [[], [0], []] = .ok () := by decide +kernel
  have hfits : Fits [⟨1, 4⟩, ⟨30, 4⟩, ⟨9, 4⟩] := by decide +kernel
  refine ⟨hvalid, hfits, ?_⟩
  rcases linearize_optimal _ _ hvalid with hok | ⟨-, hbig⟩
  · exact hok
  · exact absurd hfits hbig

end BitcoinRs.Mempool
