import Mathlib.Order.Defs.Unbundled

namespace MaxBy

open List

variable {α : Type}

section

variable (cmp : α → α → Ordering)

def keep (x y : α) : α := if cmp x y = .gt then x else y

def maxBy : List α → Option α
  | [] => none
  | a :: l => some (l.foldl (keep cmp) a)

end

variable {cmp : α → α → Ordering} {le : α → α → Prop} {l : List α} {a r : α}

lemma maxBy_eq_none : maxBy cmp l = none ↔ l = [] := by
  cases l <;> simp [maxBy]

lemma maxBy_mem (h : maxBy cmp l = some r) : r ∈ l := by
  cases l with
  | nil => cases h
  | cons a l =>
    rw [← Option.some.inj h]
    refine foldlRecOn l (keep cmp) mem_cons_self fun kept hkept b hb => ?_
    unfold keep
    split
    · exact hkept
    · exact mem_cons_of_mem _ hb

variable [IsPreorder α le] (hgt : ∀ x y, cmp x y = .gt → le y x) (hle : ∀ x y, cmp x y ≠ .gt → le x y)

include hgt hle

lemma le_keep (x y : α) : le x (keep cmp x y) ∧ le y (keep cmp x y) := by
  unfold keep
  split
  · rename_i h
    exact ⟨refl_of le x, hgt x y h⟩
  · rename_i h
    exact ⟨hle x y h, refl_of le y⟩

lemma foldl_keep (l : List α) (a : α) :
    (l.foldl (keep cmp) a = a ∨ l.foldl (keep cmp) a ∈ l) ∧
      le a (l.foldl (keep cmp) a) ∧ ∀ y ∈ l, le y (l.foldl (keep cmp) a) := by
  induction l generalizing a with
  | nil => exact ⟨.inl rfl, refl_of le a, fun y hy => absurd hy not_mem_nil⟩
  | cons b l ih =>
    obtain ⟨hmem, hbase, hrest⟩ := ih (keep cmp a b)
    obtain ⟨ha, hb⟩ := le_keep hgt hle a b
    rw [foldl_cons]
    refine ⟨?_, trans_of le ha hbase, ?_⟩
    · rcases hmem with h | h
      · rw [h]
        unfold keep
        split
        · exact .inl rfl
        · exact .inr mem_cons_self
      · exact .inr (mem_cons_of_mem _ h)
    · intro y hy
      rcases mem_cons.mp hy with rfl | hy
      · exact trans_of le hb hbase
      · exact hrest y hy

lemma maxBy_spec (h : maxBy cmp l = some r) : r ∈ l ∧ ∀ y ∈ l, le y r := by
  cases l with
  | nil => cases h
  | cons a l =>
    obtain ⟨hmem, hbase, hrest⟩ := foldl_keep hgt hle l a
    rw [Option.some.inj h] at hmem hbase hrest
    refine ⟨?_, ?_⟩
    · rcases hmem with rfl | hmem
      · exact mem_cons_self
      · exact mem_cons_of_mem _ hmem
    · intro y hy
      rcases mem_cons.mp hy with rfl | hy
      · exact hbase
      · exact hrest y hy

end MaxBy
