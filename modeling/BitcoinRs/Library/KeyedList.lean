import Mathlib.Data.List.Sort
import Mathlib.Data.Multiset.UnionInter

namespace KeyedList

open List

variable {α κ : Type} (key : α → κ)

def Distinct (xs : List α) : Prop := (xs.map key).Nodup

variable {key} {xs ys : List α} {a : α} {k : κ}

section

variable (h : Distinct key xs)

include h

lemma Distinct.eq_of_key {b : α} (ha : a ∈ xs) (hb : b ∈ xs) (hk : key a = key b) : a = b :=
  inj_on_of_nodup_map h ha hb hk

lemma Distinct.perm (hp : xs.Perm ys) : Distinct key ys := (hp.map key).nodup_iff.mp h

lemma Distinct.insertionSort_eq {r : α → α → Prop} [DecidableRel r] [Std.Total r] [IsTrans α r] (hr : ∀ a b, r a b →
    r b a → key a = key b) (hp : xs.Perm ys) (hs : ys.Pairwise r) :
    xs.insertionSort r = ys := by
  have hperm := (perm_insertionSort r xs).trans hp
  refine hperm.eq_of_pairwise (fun a b ha hb hab hba => ?_) (pairwise_insertionSort r xs) hs
  exact h.eq_of_key ((mem_insertionSort r).mp ha) (hp.mem_iff.mpr hb) (hr a b hab hba)

end

lemma Distinct.tail (h : Distinct key (a :: xs)) : Distinct key xs := (nodup_cons.mp h).2

variable [DecidableEq κ]

def lookup (key : α → κ) (xs : List α) (k : κ) : Option α := xs.find? (fun a => key a == k)

@[simp] lemma lookup_nil : lookup key [] k = none := rfl

lemma lookup_cons : lookup key (a :: xs) k = if key a = k then some a else lookup key xs k := by
  by_cases h : key a = k <;> simp [lookup, h]

lemma lookup_eq_none : lookup key xs k = none ↔ ∀ a ∈ xs, key a ≠ k := by
  simp [lookup]

lemma mem_of_lookup (h : lookup key xs k = some a) : a ∈ xs := mem_of_find?_eq_some h

lemma key_of_lookup (h : lookup key xs k = some a) : key a = k := by
  simpa using find?_some h

lemma Distinct.lookup_eq_some (h : Distinct key xs) : lookup key xs k = some a ↔ a ∈ xs ∧ key a = k := by
  refine ⟨fun hl => ⟨mem_of_lookup hl, key_of_lookup hl⟩, fun ⟨ha, hk⟩ => ?_⟩
  cases hl : lookup key xs k with
  | none => exact absurd hk (lookup_eq_none.mp hl a ha)
  | some b => rw [h.eq_of_key (mem_of_lookup hl) ha ((key_of_lookup hl).trans hk.symm)]

lemma Distinct.lookup_perm (h : Distinct key xs) (hp : xs.Perm ys) (k : κ) : lookup key xs k = lookup key ys k := by
  ext b
  rw [h.lookup_eq_some, (h.perm hp).lookup_eq_some, hp.mem_iff]

lemma Distinct.lookup_head (h : Distinct key (a :: xs)) : lookup key xs (key a) = none :=
  lookup_eq_none.mpr (fun _ hb hk => (nodup_cons.mp h).1 (hk ▸ mem_map_of_mem hb))

lemma Distinct.cons (h : Distinct key xs) (ha : lookup key xs (key a) = none) : Distinct key (a :: xs) := by
  refine nodup_cons.mpr ⟨fun hm => ?_, h⟩
  obtain ⟨b, hb, hk⟩ := mem_map.mp hm
  exact lookup_eq_none.mp ha b hb hk

lemma lookup_filter {p : κ → Bool} (h : p k = true) :
    lookup key (xs.filter (fun a => p (key a))) k = lookup key xs k := by
  rw [lookup, find?_filter]
  congr 1
  funext a
  by_cases ha : key a = k <;> simp [ha, h]

def eraseKey (key : α → κ) (xs : List α) (k : κ) : List α := xs.filter (fun a => key a ≠ k)

lemma lookup_eraseKey_of_ne {j : κ} (h : k ≠ j) : lookup key (eraseKey key xs j) k = lookup key xs k :=
  lookup_filter (p := fun i => decide (i ≠ j)) (decide_eq_true h)

end KeyedList

namespace Tally

open KeyedList Multiset

variable {α κ : Type} (key : α → κ)

structure Enumerates (s : Multiset α) (m : κ → Option α) : Prop where
  nodup : s.Nodup
  mem_iff : ∀ k a, m k = some a ↔ a ∈ s ∧ key a = k

variable {key} {s t : Multiset α} {m : κ → Option α} {k : κ} {a : α}

namespace Enumerates

lemma empty : Enumerates key 0 (fun _ => none) := ⟨nodup_zero, by simp⟩

section

variable (h : Enumerates key s m)

include h

lemma mem : a ∈ s ↔ m (key a) = some a := by
  rw [h.mem_iff]
  exact ⟨fun ha => ⟨ha, rfl⟩, And.left⟩

lemma unique (h' : Enumerates key t m) : s = t :=
  (Multiset.Nodup.ext h.nodup h'.nodup).mpr (fun _ => h.mem.trans h'.mem.symm)

lemma nodup_keys : (s.map key).Nodup := by
  refine Multiset.Nodup.map_on (fun a ha b hb hab => ?_) h.nodup
  have hsame := h.mem.mp ha
  rw [hab, h.mem.mp hb] at hsame
  exact (Option.some_inj.mp hsame).symm

lemma eq_map {m' : κ → Option α} (h' : Enumerates key s m') : m = m' := by
  funext k
  exact Option.ext (fun a => (h.mem_iff k a).trans (h'.mem_iff k a).symm)

end

lemma of_distinct [DecidableEq κ] {xs : List α} (hd : Distinct key xs) :
    Enumerates key (xs : Multiset α) (lookup key xs) where
  nodup := List.Nodup.of_map key hd
  mem_iff k a := by
    exact hd.lookup_eq_some

lemma map {β ι : Type} {key' : β → ι} {m' : ι → Option β} (h : Enumerates key s m) {f : α → β} {g : κ → ι}
    (hf : Function.Injective f) (hkey : ∀ a, key' (f a) = g (key a))
    (hm : ∀ k, m' (g k) = (m k).map f) (hother : ∀ i, (∀ k, g k ≠ i) → m' i = none) :
    Enumerates key' (s.map f) m' where
  nodup := h.nodup.map hf
  mem_iff i b := by
    rw [mem_map]
    constructor
    · intro hb
      by_cases hi : ∃ k, g k = i
      · obtain ⟨k, rfl⟩ := hi
        rw [hm, Option.map_eq_some_iff] at hb
        obtain ⟨a, ha, rfl⟩ := hb
        obtain ⟨hmem, rfl⟩ := (h.mem_iff k a).mp ha
        exact ⟨⟨a, hmem, rfl⟩, hkey a⟩
      · rw [hother i (fun k hk => hi ⟨k, hk⟩)] at hb
        cases hb
    · rintro ⟨⟨a, ha, rfl⟩, rfl⟩
      rw [hkey, hm, h.mem.mp ha]
      rfl

lemma add {m₁ m₂ : κ → Option α} (h₁ : Enumerates key s m₁) (h₂ : Enumerates key t m₂)
    (hm : ∀ k, m k = (m₁ k).or (m₂ k)) (hapart : ∀ k, m₁ k = none ∨ m₂ k = none) : Enumerates key (s + t) m where
  nodup := by
    refine nodup_add.mpr ⟨h₁.nodup, h₂.nodup, disjoint_left.mpr (fun {a} ha hb => ?_)⟩
    rcases hapart (key a) with hnone | hnone
    · rw [h₁.mem.mp ha] at hnone
      cases hnone
    · rw [h₂.mem.mp hb] at hnone
      cases hnone
  mem_iff k a := by
    rw [hm, Option.or_eq_some_iff, h₁.mem_iff, h₂.mem_iff, mem_add]
    constructor
    · rintro (⟨ha, hk⟩ | ⟨-, ha, hk⟩)
      · exact ⟨Or.inl ha, hk⟩
      · exact ⟨Or.inr ha, hk⟩
    · rintro ⟨ha | ha, rfl⟩
      · exact Or.inl ⟨ha, rfl⟩
      · refine Or.inr ⟨(hapart (key a)).resolve_right (fun hnone => ?_), ha, rfl⟩
        rw [h₂.mem.mp ha] at hnone
        cases hnone

variable [DecidableEq κ]

lemma erase (h : Enumerates key s m) (hk : m k = some a) :
    ∃ t, s = a ::ₘ t ∧ Enumerates key t (Function.update m k none) := by
  obtain ⟨ha, rfl⟩ := (h.mem_iff k a).mp hk
  obtain ⟨t, rfl⟩ := exists_cons_of_mem ha
  obtain ⟨hat, ht⟩ := nodup_cons.mp h.nodup
  refine ⟨t, rfl, ht, fun j b => ?_⟩
  by_cases hj : j = key a
  · subst hj
    rw [Function.update_self]
    refine ⟨fun hb => (by cases hb), fun ⟨hb, hkey⟩ => ?_⟩
    have hsame := h.mem.mp (mem_cons_of_mem hb)
    rw [hkey, hk, Option.some_inj] at hsame
    exact absurd (hsame ▸ hb) hat
  · rw [Function.update_of_ne hj, h.mem_iff, mem_cons]
    refine ⟨fun ⟨hb, hkey⟩ => ⟨hb.resolve_left (fun he => hj (he ▸ hkey.symm)), hkey⟩, fun ⟨hb, hkey⟩ => ?_⟩
    exact ⟨Or.inr hb, hkey⟩

lemma insert (h : Enumerates key s m) (hk : m (key a) = none) :
    Enumerates key (a ::ₘ s) (Function.update m (key a) (some a)) where
  nodup := nodup_cons.mpr ⟨fun ha => (by rw [h.mem.mp ha] at hk; cases hk), h.nodup⟩
  mem_iff k b := by
    rw [mem_cons]
    by_cases hkey : k = key a
    · subst hkey
      rw [Function.update_self, Option.some_inj]
      refine ⟨fun hab => ⟨Or.inl hab.symm, by rw [hab]⟩, fun ⟨hb, hkey⟩ => ?_⟩
      rcases hb with rfl | hb
      · rfl
      · have hsome := h.mem.mp hb
        rw [hkey, hk] at hsome
        cases hsome
    · rw [Function.update_of_ne hkey, h.mem_iff]
      refine ⟨fun ⟨hb, he⟩ => ⟨Or.inr hb, he⟩, fun ⟨hb, he⟩ => ⟨hb.resolve_left (fun hba => ?_), he⟩⟩
      exact hkey (by rw [← he, hba])

end Enumerates

end Tally
