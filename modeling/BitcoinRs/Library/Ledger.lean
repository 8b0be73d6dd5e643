import Mathlib.Data.List.AList
import Mathlib.Algebra.Order.BigOperators.Group.List
import Mathlib.Algebra.Order.Group.Nat

structure Members (α : Type) where
  list : List α
  nodup : list.Nodup
  deriving DecidableEq

namespace Members

variable {α : Type} {s : Members α} {a b : α}

instance : Membership α (Members α) := ⟨fun s a => a ∈ s.list⟩

instance : EmptyCollection (Members α) := ⟨⟨[], List.nodup_nil⟩⟩

lemma not_mem_empty : a ∉ (∅ : Members α) := List.not_mem_nil

def singleton (a : α) : Members α := ⟨[a], List.nodup_singleton a⟩

lemma mem_singleton : b ∈ singleton a ↔ b = a := List.mem_singleton

variable [DecidableEq α]

instance (a : α) (s : Members α) : Decidable (a ∈ s) := inferInstanceAs (Decidable (a ∈ s.list))

def insert (s : Members α) (a : α) : Members α := ⟨s.list.insert a, s.nodup.insert⟩

def erase (s : Members α) (a : α) : Members α := ⟨s.list.erase a, s.nodup.erase a⟩

lemma mem_insert : b ∈ s.insert a ↔ b = a ∨ b ∈ s := List.mem_insert_iff

lemma mem_erase : b ∈ s.erase a ↔ b ≠ a ∧ b ∈ s := s.nodup.mem_erase_iff

end Members

namespace Ledger

open List AList

variable {α β M : Type} [AddCommMonoid M] {f g : α → β → M} {m m' : AList fun _ : α => β} {k : α} {v : β}

def total (f : α → β → M) (m : AList fun _ : α => β) : M := (m.entries.map fun e => f e.1 e.2).sum

lemma total_perm (h : m.entries.Perm m'.entries) : total f m = total f m' := (h.map _).sum_eq

lemma total_zero : total (fun _ _ => (0 : M)) m = 0 := by simp [total]

lemma map_total {N : Type} [AddCommMonoid N] (φ : M →+ N) : φ (total f m) = total (fun k v => φ (f k v)) m := by
  unfold total
  rw [map_list_sum, map_map]
  rfl

lemma total_one : total (fun _ _ => 1) m = m.entries.length := by simp [total]

variable [DecidableEq α]

lemma total_insert : total f (m.insert k v) = f k v + total f (m.erase k) := by
  rfl

lemma total_erase (h : m.lookup k = some v) : total f m = f k v + total f (m.erase k) := by
  have hkey : k ∈ m.entries.keys := lookup_isSome.mp (by rw [h]; rfl)
  obtain ⟨v', front, back, -, hsplit, herase⟩ := exists_of_kerase hkey
  have hv : v' = v := by
    have hmem : (⟨k, v'⟩ : Sigma fun _ : α => β) ∈ m.entries := by
      rw [hsplit]
      exact mem_append_right _ mem_cons_self
    have hlookup : m.lookup k = some v' := mem_lookup_iff.mpr hmem
    rw [h] at hlookup
    exact (Option.some.inj hlookup).symm
  unfold total
  change _ = _ + ((m.entries.kerase k).map fun e => f e.1 e.2).sum
  rw [herase, hsplit, hv, map_append, sum_append, map_append, sum_append]
  exact add_left_comm _ _ _

lemma total_insert_fresh (h : m.lookup k = none) : total f (m.insert k v) = f k v + total f m := by
  unfold total
  rw [entries_insert_of_notMem (lookup_eq_none.mp h), map_cons, sum_cons]

lemma total_congr (h : ∀ k v, m.lookup k = some v → f k v = g k v) : total f m = total g m := by
  refine congrArg sum (map_congr_left fun e he => h e.1 e.2 (mem_lookup_iff.mpr he))

lemma lookup_insert (j : α) : (m.insert k v).lookup j = if j = k then some v else m.lookup j := by
  split_ifs with h
  · rw [h, AList.lookup_insert]
  · rw [lookup_insert_ne h]

lemma lookup_erase (j : α) : (m.erase k).lookup j = if j = k then none else m.lookup j := by
  split_ifs with h
  · rw [h, AList.lookup_erase]
  · rw [lookup_erase_ne h]

lemma erase_insert : (m.insert k v).erase k = m.erase k := by
  apply ext
  have hhead : (⟨k, v⟩ : Sigma fun _ : α => β).1 = k := rfl
  change ((m.insert k v).entries).kerase k = m.entries.kerase k
  rw [entries_insert, kerase_cons_eq hhead.symm]

lemma total_le {f g : α → β → ℕ} (h : ∀ k v, m.lookup k = some v → f k v ≤ g k v) : total f m ≤ total g m := by
  exact sum_le_sum fun e he => h e.1 e.2 (mem_lookup_iff.mpr he)

end Ledger
