import Mathlib.Algebra.Order.BigOperators.Group.Finset
import Mathlib.Algebra.BigOperators.Ring.Finset

/-!
Residual networks: every arc has a reverse, and flow moves capacity between the two. What two states of one network
differ by on a set of places is what they differ by on the arcs that leave it.
-/

namespace Cut

open Finset

variable {ν α : Type}

structure Network (ν α : Type) where
  arcs : Finset α
  tail : α → ν
  head : α → ν
  rev : α → α
  rev_mem : ∀ a ∈ arcs, rev a ∈ arcs
  rev_rev : ∀ a ∈ arcs, rev (rev a) = a
  tail_rev : ∀ a ∈ arcs, tail (rev a) = head a

namespace Network

variable (net : Network ν α)

lemma head_rev {a : α} (ha : a ∈ net.arcs) : net.head (net.rev a) = net.tail a := by
  rw [← net.tail_rev _ (net.rev_mem a ha), net.rev_rev a ha]

variable [DecidableEq ν] (S : Finset ν)

def outOf : Finset α := net.arcs.filter fun a => net.tail a ∈ S

def leaving : Finset α := net.arcs.filter fun a => net.tail a ∈ S ∧ net.head a ∉ S

def inside : Finset α := net.arcs.filter fun a => net.tail a ∈ S ∧ net.head a ∈ S

variable (c : α → ℕ)

lemma sum_outOf : ∑ a ∈ net.outOf S, c a = ∑ a ∈ net.inside S, c a + ∑ a ∈ net.leaving S, c a := by
  rw [← sum_filter_add_sum_filter_not (net.outOf S) (fun a => net.head a ∈ S)]
  unfold outOf inside leaving
  rw [filter_filter, filter_filter]

lemma sum_inside_rev : ∑ a ∈ net.inside S, c (net.rev a) = ∑ a ∈ net.inside S, c a := by
  have hrev : ∀ a ∈ net.inside S, net.rev a ∈ net.inside S := by
    intro a ha
    obtain ⟨harc, htail, hhead⟩ := mem_filter.mp ha
    refine mem_filter.mpr ⟨net.rev_mem a harc, ?_, ?_⟩
    · rwa [net.tail_rev a harc]
    · rwa [net.head_rev harc]
  have hback : ∀ a ∈ net.inside S, net.rev (net.rev a) = a :=
    fun a ha => net.rev_rev a (mem_filter.mp ha).1
  exact sum_bij' (fun a _ => net.rev a) (fun a _ => net.rev a) hrev hrev hback hback (fun _ _ => rfl)

def Balanced (c c' : α → ℕ) : Prop := ∀ a ∈ net.arcs, c' a + c' (net.rev a) = c a + c (net.rev a)

variable {net} {c} {c' : α → ℕ}

lemma Balanced.sum_inside (h : net.Balanced c c') : ∑ a ∈ net.inside S, c' a = ∑ a ∈ net.inside S, c a := by
  have hpairs : ∑ a ∈ net.inside S, (c' a + c' (net.rev a)) = ∑ a ∈ net.inside S, (c a + c (net.rev a)) :=
    sum_congr rfl fun a ha => h a (mem_filter.mp ha).1
  rw [sum_add_distrib, sum_add_distrib, sum_inside_rev, sum_inside_rev] at hpairs
  omega

lemma Balanced.cut (h : net.Balanced c c') :
    ∑ a ∈ net.outOf S, c a + ∑ a ∈ net.leaving S, c' a = ∑ a ∈ net.outOf S, c' a + ∑ a ∈ net.leaving S, c a := by
  rw [sum_outOf, sum_outOf, h.sum_inside S]
  omega

end Network

end Cut
