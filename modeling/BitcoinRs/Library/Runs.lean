import Mathlib.Data.List.Basic
import Mathlib.Data.List.TakeWhile

namespace Runs

open List

variable {α : Type} (same : α → α → Bool)

/-- Maximal runs of items that are the same as the first of the run; `fuel` bounds their number. -/
def runsOf : ℕ → List α → List (List α)
  | _, [] => []
  | 0, _ :: _ => []
  | fuel + 1, x :: xs =>
    (x :: xs.takeWhile (fun y => same y x)) :: runsOf fuel (xs.dropWhile (fun y => same y x))

def runs (xs : List α) : List (List α) := runsOf same xs.length xs

lemma flatten_runsOf (fuel : ℕ) (xs : List α) (hf : xs.length ≤ fuel) : (runsOf same fuel xs).flatten = xs := by
  induction fuel generalizing xs with
  | zero => cases xs with
    | nil => rfl
    | cons x xs => simp at hf
  | succ fuel ih => cases xs with
    | nil => rfl
    | cons x xs =>
      have hle := (xs.dropWhile_suffix (fun y => same y x)).length_le
      rw [length_cons] at hf
      rw [runsOf, flatten_cons, ih _ (by omega), cons_append, takeWhile_append_dropWhile]

variable (xs : List α)

lemma flatten_runs : (runs same xs).flatten = xs := flatten_runsOf same _ xs (Nat.le_refl _)

lemma mem_of_mem_runs {same : α → α → Bool} {xs run : List α} {x : α} (hrun : run ∈ runs same xs) (hx : x ∈ run) :
    x ∈ xs := by
  rw [← flatten_runs same xs]
  exact mem_flatten.mpr ⟨run, hrun, hx⟩

lemma runsOf_same (fuel : ℕ) (xs : List α) :
    ∀ run ∈ runsOf same fuel xs, ∃ x rest, run = x :: rest ∧ ∀ y ∈ rest, same y x = true := by
  induction fuel generalizing xs with
  | zero => cases xs <;> simp [runsOf]
  | succ fuel ih => cases xs with
    | nil => simp [runsOf]
    | cons x xs =>
      refine forall_mem_cons.mpr ⟨⟨x, _, rfl, fun y hy => ?_⟩, ih _⟩
      simpa using mem_takeWhile_imp hy

lemma runs_same : ∀ run ∈ runs same xs, ∃ x rest, run = x :: rest ∧ ∀ y ∈ rest, same y x = true := runsOf_same same _ xs

section

variable {κ : Type} [BEq κ] [LawfulBEq κ] (key : α → κ) (r : κ → κ → Prop) [Std.Antisymm r]

lemma sorted_split (xs : List α) (k : κ) (hs : xs.Pairwise (fun a b => r (key a) (key b)))
    (hk : ∀ a ∈ xs, r k (key a)) :
    xs.takeWhile (fun a => key a == k) = xs.filter (fun a => key a == k) ∧
      xs.dropWhile (fun a => key a == k) = xs.filter (fun a => !(key a == k)) := by
  induction xs with
  | nil => exact ⟨rfl, rfl⟩
  | cons a xs ih =>
    obtain ⟨hhead, htail⟩ := pairwise_cons.mp hs
    obtain ⟨ih₁, ih₂⟩ := ih htail (fun b hb => hk b (mem_cons_of_mem _ hb))
    by_cases ha : key a = k
    · simp [ha, ih₁, ih₂]
    · have hrest : ∀ b ∈ xs, key b ≠ k := fun b hb he =>
        ha (antisymm (he ▸ hhead b hb) (hk a mem_cons_self))
      have hfalse : (key a == k) = false := by simpa using ha
      simp only [takeWhile_cons, dropWhile_cons, filter_cons, hfalse, Bool.false_eq_true, ↓reduceIte, Bool.not_false]
      constructor
      · exact (filter_eq_nil_iff.mpr (by simpa using hrest)).symm
      · exact congrArg _ (filter_eq_self.mpr (by simpa using hrest)).symm

end

def chunksOf (size : ℕ) : ℕ → List α → List (List α)
  | _, [] => []
  | 0, _ :: _ => []
  | fuel + 1, x :: xs => (x :: xs).take size :: chunksOf size fuel ((x :: xs).drop size)

def chunks (size : ℕ) (xs : List α) : List (List α) := chunksOf size xs.length xs

lemma flatten_chunks {size : ℕ} (hsize : 0 < size) (xs : List α) : (chunks size xs).flatten = xs := by
  have hfuel (fuel : ℕ) (xs : List α) (hf : xs.length ≤ fuel) : (chunksOf size fuel xs).flatten = xs := by
    induction fuel generalizing xs with
    | zero => cases xs with
      | nil => rfl
      | cons x xs => simp at hf
    | succ fuel ih => cases xs with
      | nil => rfl
      | cons x xs =>
        rw [chunksOf, flatten_cons, ih _ (by rw [length_drop]; omega), take_append_drop]
  exact hfuel _ xs (Nat.le_refl _)

end Runs
