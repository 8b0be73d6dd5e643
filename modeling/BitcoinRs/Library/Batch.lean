import Mathlib.Data.List.Basic

namespace Batch

open List
open Function (update)

variable {K V : Type} [DecidableEq K]

def eraseAll (m : K → Option V) (removes : List K) : K → Option V :=
  fun k => if k ∈ removes then none else m k

def insertAll (m : K → Option V) : List (K × V) → K → Option V
  | [] => m
  | (k, v) :: rest => insertAll (update m k (some v)) rest

def lastValue : List (K × V) → K → Option V
  | [], _ => none
  | (k, v) :: rest, x => (lastValue rest x).or (if x = k then some v else none)

def takeEach (m : K → Option V) : List K → List (Option V)
  | [] => []
  | k :: rest => m k :: takeEach (update m k none) rest

def displaceEach (m : K → Option V) : List (K × V) → List (Option V)
  | [] => []
  | (k, v) :: rest => m k :: displaceEach (update m k (some v)) rest

def apply (m : K → Option V) (removes : List K) (adds : List (K × V)) : K → Option V :=
  insertAll (eraseAll m removes) adds

variable (m : K → Option V) (removes : List K) (adds : List (K × V)) (k : K)

lemma insertAll_apply : insertAll m adds k = (lastValue adds k).or (m k) := by
  induction adds generalizing m with
  | nil => rfl
  | cons add rest ih =>
    obtain ⟨key, v⟩ := add
    rw [insertAll, ih, lastValue]
    by_cases h : k = key <;> simp [h]

lemma apply_eq : apply m removes adds k = (lastValue adds k).or (if k ∈ removes then none else m k) := by
  rw [apply, insertAll_apply, eraseAll]

lemma insertAll_append (more : List (K × V)) : insertAll m (adds ++ more) = insertAll (insertAll m adds) more := by
  induction adds generalizing m with
  | nil => rfl
  | cons add rest ih => exact ih _

lemma eraseAll_append (more : List K) : eraseAll m (removes ++ more) = eraseAll (eraseAll m removes) more := by
  funext x
  by_cases h₁ : x ∈ removes <;> by_cases h₂ : x ∈ more <;> simp [eraseAll, h₁, h₂]

lemma eraseAll_cons : eraseAll m (k :: removes) = eraseAll (update m k none) removes := by
  funext x
  by_cases h₁ : x ∈ removes <;> by_cases h₂ : x = k <;> simp [eraseAll, h₁, h₂]

@[simp] lemma eraseAll_nil : eraseAll m [] = m := by
  funext x
  simp [eraseAll]

lemma eraseAll_of_takeEach (h : ∀ v ∈ takeEach m removes, v = none) : eraseAll m removes = m := by
  induction removes generalizing m with
  | nil => exact eraseAll_nil m
  | cons k rest ih =>
    have hk : m k = none := h _ mem_cons_self
    have hm : update m k none = m := by
      rw [← hk]
      exact Function.update_eq_self k m
    rw [eraseAll_cons, hm]
    exact ih m (fun v hv => h v (by rw [takeEach, hm]; exact mem_cons_of_mem _ hv))

lemma lastValue_eq_none : lastValue adds k = none ↔ k ∉ adds.map Prod.fst := by
  induction adds with
  | nil => simp [lastValue]
  | cons add rest ih =>
    obtain ⟨key, v⟩ := add
    by_cases h : k = key <;> simp [lastValue, ih, h]

lemma mem_of_lastValue {v : V} (h : lastValue adds k = some v) : (k, v) ∈ adds := by
  induction adds with
  | nil => cases h
  | cons add rest ih =>
    rw [lastValue, Option.or_eq_some_iff] at h
    rcases h with h | ⟨-, h⟩
    · exact mem_cons_of_mem _ (ih h)
    · split_ifs at h with hk
      cases h
      rw [hk]
      exact mem_cons_self

lemma eraseAll_insertAll_eq_apply_iff :
    eraseAll (insertAll (fun _ => none) adds) removes = apply (fun _ => none) removes adds ↔
      ∀ k ∈ removes, k ∉ adds.map Prod.fst := by
  constructor
  · intro h k hk
    have hat := congrFun h k
    rw [eraseAll, if_pos hk, apply_eq, if_pos hk, Option.or_none] at hat
    exact (lastValue_eq_none adds k).mp hat.symm
  · intro h
    funext k
    rw [eraseAll, apply_eq, insertAll_apply]
    split_ifs with hk
    · rw [(lastValue_eq_none adds k).mpr (h k hk), Option.or_none]
    · rfl

lemma apply_eq_of_restores {m m' : K → Option V} (hadds : ∀ add ∈ adds, m add.1 = some add.2)
    (hremoves : ∀ k ∈ removes, m k = none) (hsame : ∀ k, k ∉ removes → k ∉ adds.map Prod.fst → m' k = m k) :
    apply m' removes adds = m := by
  funext k
  rw [apply_eq]
  cases hlast : lastValue adds k with
  | some v =>
    exact (hadds _ (mem_of_lastValue adds k hlast)).symm
  | none =>
    split_ifs with hk
    · exact (hremoves k hk).symm
    · exact hsame k hk ((lastValue_eq_none adds k).mp hlast)

section

variable {α : Type} (stepAdds : α → List (K × V)) (stepRemoves : α → List K) (steps : List α)

lemma foldl_of_not_added (h : k ∉ (steps.flatMap stepAdds).map Prod.fst) :
    steps.foldl (fun m step => eraseAll (insertAll m (stepAdds step)) (stepRemoves step)) m k =
      if k ∈ steps.flatMap stepRemoves then none else m k := by
  induction steps generalizing m with
  | nil => simp
  | cons step rest ih =>
    rw [flatMap_cons, map_append, mem_append, not_or] at h
    rw [foldl_cons, ih _ h.2, eraseAll, insertAll_apply, (lastValue_eq_none _ _).mpr h.1]
    by_cases hk : k ∈ stepRemoves step <;> simp [hk]

lemma foldl_of_not_removed (h : k ∉ steps.flatMap stepRemoves) :
    steps.foldl (fun m step => eraseAll (insertAll m (stepAdds step)) (stepRemoves step)) m k =
      insertAll m (steps.flatMap stepAdds) k := by
  induction steps generalizing m with
  | nil => rfl
  | cons step rest ih =>
    rw [flatMap_cons, mem_append, not_or] at h
    rw [foldl_cons, ih _ h.2, flatMap_cons, insertAll_append, insertAll_apply, insertAll_apply, eraseAll, if_neg h.1]

lemma foldl_eq_apply (h : ∀ k ∈ steps.flatMap stepRemoves, k ∉ (steps.flatMap stepAdds).map Prod.fst) :
    steps.foldl (fun m step => eraseAll (insertAll m (stepAdds step)) (stepRemoves step)) m =
      apply m (steps.flatMap stepRemoves) (steps.flatMap stepAdds) := by
  funext k
  rw [apply_eq]
  by_cases hk : k ∈ steps.flatMap stepRemoves
  · rw [foldl_of_not_added m k stepAdds stepRemoves steps (h k hk), (lastValue_eq_none _ _).mpr (h k hk),
      Option.none_or]
  · rw [foldl_of_not_removed m k stepAdds stepRemoves steps hk, insertAll_apply, if_neg hk]

end

end Batch
