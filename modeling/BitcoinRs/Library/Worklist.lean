import Mathlib.Data.List.Count
import Mathlib.Logic.Relation

namespace Worklist

open List

section

variable {ι : Type} (index : ι → ℕ) (children : ℕ → List ι)

def mark (s : List Bool × List ι) (child : ι) : List Bool × List ι :=
  if s.1.getD (index child) false then s else (s.1.set (index child) true, child :: s.2)

def sweep : ℕ → List Bool × List ι → List Bool
  | _, (marks, []) => marks
  | 0, (marks, _ :: _) => marks
  | fuel + 1, (marks, id :: stack) => sweep fuel ((children (index id)).foldl (mark index) (marks, stack))

def Edge (i j : ℕ) : Prop := ∃ child ∈ children i, index child = j

def Marked (marks : List Bool) (i : ℕ) : Prop := marks.getD i false = true

structure MarksAll (kids : List ι) (s s' : List Bool × List ι) : Prop where
  length_eq : s'.1.length = s.1.length
  marked_iff : ∀ i, Marked s'.1 i ↔ Marked s.1 i ∨ ∃ child ∈ kids, index child = i
  stacked : ∀ i, Marked s'.1 i → Marked s.1 i ∨ ∃ id ∈ s'.2, index id = i
  stack_subset : s.2 ⊆ s'.2
  stack_from : ∀ id ∈ s'.2, id ∈ s.2 ∨ id ∈ kids
  budget : s'.2.length + s'.1.count false = s.2.length + s.1.count false

end

variable {ι : Type} {index : ι → ℕ} {children : ℕ → List ι} {marks : List Bool} {s : List Bool × List ι}

lemma Marked.lt {i : ℕ} (h : Marked marks i) : i < marks.length := by
  by_contra hge
  have hnone : marks[i]? = none := getElem?_eq_none (Nat.le_of_not_lt hge)
  simp [Marked, getD_eq_getElem?_getD, hnone] at h

lemma marked_set {i j : ℕ} (hi : i < marks.length) : Marked (marks.set i true) j ↔ Marked marks j ∨ i = j := by
  by_cases hij : i = j
  · subst hij
    simp [Marked, getD_eq_getElem?_getD, getElem?_set_self hi]
  · simp [Marked, getD_eq_getElem?_getD, getElem?_set_ne hij, hij]

lemma count_set {i : ℕ} (hi : i < marks.length) (h : ¬ Marked marks i) :
    (marks.set i true).count false + 1 = marks.count false := by
  have hget : marks[i] = false := by
    simpa [Marked, getElem?_eq_getElem hi] using h
  have hpos : 0 < marks.count false := count_pos_iff.mpr (hget ▸ getElem_mem hi)
  rw [List.count_set hi, hget]
  simp
  omega

lemma marksAll_nil (s : List Bool × List ι) : MarksAll index [] s s where
  length_eq := rfl
  marked_iff i := by simp
  stacked i h := .inl h
  stack_subset := List.Subset.refl _
  stack_from id h := .inl h
  budget := rfl

lemma marksAll_mark {child : ι} (hlt : index child < s.1.length) : MarksAll index [child] s (mark index s child) := by
  unfold mark
  split
  · rename_i h
    refine ⟨rfl, fun i => ?_, fun i hi => .inl hi, Subset.refl _, fun id hid => .inl hid, rfl⟩
    constructor
    · exact fun hi => .inl hi
    · rintro (hi | ⟨other, hother, hi⟩)
      · exact hi
      · rw [mem_singleton.mp hother] at hi
        exact hi ▸ h
  · rename_i h
    refine ⟨length_set, fun i => ?_, fun i hi => ?_, subset_cons_self _ _, ?_, ?_⟩
    · rw [marked_set hlt]
      simp
    · rcases (marked_set hlt).mp hi with hi | hi
      · exact .inl hi
      · exact .inr ⟨child, mem_cons_self, hi⟩
    · intro id hid
      rcases mem_cons.mp hid with rfl | hid
      · exact .inr (mem_singleton.mpr rfl)
      · exact .inl hid
    · have := count_set hlt h
      simp only [length_cons]
      omega

lemma MarksAll.trans {kids kids' : List ι} {s s' s'' : List Bool × List ι}
    (h : MarksAll index kids s s') (h' : MarksAll index kids' s' s'') :
    MarksAll index (kids ++ kids') s s'' where
  length_eq := h'.length_eq.trans h.length_eq
  marked_iff i := by
    rw [h'.marked_iff, h.marked_iff, or_assoc]
    simp [or_and_right, exists_or]
  stacked i hi := by
    rcases h'.stacked i hi with hi | hi
    · rcases h.stacked i hi with hi | ⟨id, hid, hi⟩
      · exact .inl hi
      · exact .inr ⟨id, h'.stack_subset hid, hi⟩
    · exact .inr hi
  stack_subset := Subset.trans h.stack_subset h'.stack_subset
  stack_from id hid := by
    rcases h'.stack_from id hid with hid | hid
    · exact (h.stack_from id hid).imp_right (mem_append_left _)
    · exact .inr (mem_append_right _ hid)
  budget := h'.budget.trans h.budget

lemma marksAll_foldl (kids : List ι) (hlt : ∀ child ∈ kids, index child < s.1.length) :
    MarksAll index kids s (kids.foldl (mark index) s) := by
  induction kids generalizing s with
  | nil => exact marksAll_nil s
  | cons child kids ih =>
    have hfirst := marksAll_mark (hlt child mem_cons_self)
    refine hfirst.trans (ih fun other hother => ?_)
    rw [hfirst.length_eq]
    exact hlt other (mem_cons_of_mem _ hother)

structure Pending (index : ι → ℕ) (children : ℕ → List ι) (root : ℕ) (s : List Bool × List ι) : Prop where
  root_marked : Marked s.1 root
  stack_marked : ∀ id ∈ s.2, Marked s.1 (index id)
  reached : ∀ i, Marked s.1 i → Relation.ReflTransGen (Edge index children) root i
  closed : ∀ i, Marked s.1 i → (∃ id ∈ s.2, index id = i) ∨ ∀ child ∈ children i, Marked s.1 (index child)

lemma Pending.pop {root : ℕ} {id : ι} {stack : List ι} {s' : List Bool × List ι}
    (h : Pending index children root (marks, id :: stack))
    (hall : MarksAll index (children (index id)) (marks, stack) s') : Pending index children root s' where
  root_marked := (hall.marked_iff root).mpr (.inl h.root_marked)
  stack_marked other hother := by
    rw [hall.marked_iff]
    rcases hall.stack_from other hother with hmem | hmem
    · exact .inl (h.stack_marked other (mem_cons_of_mem _ hmem))
    · exact .inr ⟨other, hmem, rfl⟩
  reached i hi := by
    rcases (hall.marked_iff i).mp hi with hi | ⟨child, hchild, hi⟩
    · exact h.reached i hi
    · exact (h.reached _ (h.stack_marked id mem_cons_self)).tail ⟨child, hchild, hi⟩
  closed i hi := by
    by_cases hid : index id = i
    · subst hid
      exact .inr fun child hchild => (hall.marked_iff _).mpr (.inr ⟨child, hchild, rfl⟩)
    · rcases hall.stacked i hi with hold | hstack
      · rcases h.closed i hold with ⟨other, hother, hindex⟩ | hkids
        · rcases mem_cons.mp hother with rfl | hmem
          · exact absurd hindex hid
          · exact .inl ⟨other, hall.stack_subset hmem, hindex⟩
        · exact .inr fun child hchild => (hall.marked_iff _).mpr (.inl (hkids child hchild))
      · exact .inl hstack

lemma Pending.marked_iff {root : ℕ} (h : Pending index children root (marks, [])) (i : ℕ) :
    Marked marks i ↔ Relation.ReflTransGen (Edge index children) root i := by
  refine ⟨h.reached i, fun hr => ?_⟩
  induction hr with
  | refl => exact h.root_marked
  | tail _ hedge ih =>
    obtain ⟨child, hchild, rfl⟩ := hedge
    rcases h.closed _ ih with ⟨id, hid, _⟩ | hkids
    · exact absurd hid not_mem_nil
    · exact hkids child hchild

lemma sweep_pending {root fuel : ℕ} (h : Pending index children root s)
    (hlt : ∀ i, ∀ child ∈ children i, index child < s.1.length) (hfuel : s.2.length + s.1.count false ≤ fuel) :
    (sweep index children fuel s).length = s.1.length ∧
      ∀ i, Marked (sweep index children fuel s) i ↔ Relation.ReflTransGen (Edge index children) root i := by
  obtain ⟨marks, stack⟩ := s
  induction fuel generalizing marks stack with
  | zero =>
    have hnil : stack = [] := length_eq_zero_iff.mp (Nat.le_zero.mp (Nat.le_trans (Nat.le_add_right _ _) hfuel))
    subst hnil
    exact ⟨rfl, h.marked_iff⟩
  | succ fuel ih =>
    cases stack with
    | nil => exact ⟨rfl, h.marked_iff⟩
    | cons id stack =>
      -- one place leaves the stack, and each place enters it at most once
      have hall := marksAll_foldl (children (index id)) (s := (marks, stack)) (hlt (index id))
      have hbudget := hall.budget
      obtain ⟨hlen, hmarked⟩ := ih _ _ (h.pop hall) (by rwa [hall.length_eq])
        (by simp only [length_cons] at hfuel hbudget ⊢; omega)
      exact ⟨hlen.trans hall.length_eq, hmarked⟩

lemma sweep_reaches {n : ℕ} {root : ι} (hroot : index root < n) (hlt : ∀ i, ∀ child ∈ children i, index child < n) :
    let marks := sweep index children n ((replicate n false).set (index root) true, [root])
    marks.length = n ∧ ∀ i, Marked marks i ↔ Relation.ReflTransGen (Edge index children) (index root) i := by
  have hroot' : index root < (replicate n false).length := by rwa [length_replicate]
  have hbare : ∀ i, ¬ Marked (replicate n false) i := by
    intro i hi
    have hmem := getElem?_eq_getElem hi.lt
    simp [Marked, getD_eq_getElem?_getD, hmem] at hi
  have hcount := count_set hroot' (hbare _)
  rw [count_replicate_self] at hcount
  have hmarked : ∀ i, Marked ((replicate n false).set (index root) true) i ↔ index root = i := by
    intro i
    rw [marked_set hroot']
    exact or_iff_right (hbare i)
  have hpending : Pending index children (index root) ((replicate n false).set (index root) true, [root]) := by
    refine ⟨(hmarked _).mpr rfl, ?_, ?_, ?_⟩
    · intro id hid
      rw [mem_singleton.mp hid]
      exact (hmarked _).mpr rfl
    · intro i hi
      exact (hmarked i).mp hi ▸ .refl
    · intro i hi
      exact .inl ⟨root, mem_singleton.mpr rfl, (hmarked i).mp hi⟩
  have hfuel : 1 + ((replicate n false).set (index root) true).count false ≤ n := by omega
  obtain ⟨hlen, hreach⟩ := sweep_pending hpending (by simpa using hlt) hfuel
  exact ⟨by simpa using hlen, hreach⟩

end Worklist
