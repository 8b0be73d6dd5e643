import Mathlib.Data.List.Basic

namespace Fallible

open List

variable {ε α β : Type} {f : β → α → Except ε β} {I : List α → β → Prop} {items : List α}

@[simp] lemma ok_bind (a : α) (f : α → Except ε β) : (Except.ok a : Except ε α) >>= f = f a := rfl

@[simp] lemma error_bind (e : ε) (f : α → Except ε β) : (Except.error e : Except ε α) >>= f = .error e := rfl

@[simp] lemma pure_eq_ok (a : α) : (pure a : Except ε α) = .ok a := rfl

variable {b : β}

lemma bind_eq_ok {x : Except ε α} {f : α → Except ε β} (h : x >>= f = .ok b) : ∃ a, x = .ok a ∧ f a = .ok b := by
  cases x with
  | ok a => exact ⟨a, rfl, h⟩
  | error e => cases h

lemma ok_of_forM {check : α → Except ε Unit} (h : items.forM check = .ok ()) : ∀ a ∈ items, check a = .ok () := by
  induction items with
  | nil => exact fun _ ha => by cases ha
  | cons a rest ih =>
    obtain ⟨_, ha, hrest⟩ := bind_eq_ok h
    exact forall_mem_cons.mpr ⟨ha, ih hrest⟩

lemma foldlM_invariant {b b' : β} (hrun : items.foldlM f b = .ok b') (h : I [] b)
    (hstep : ∀ passed a b b', a ∈ items → I passed b → f b a = .ok b' → I (passed ++ [a]) b') : I items b' := by
  suffices hloop : ∀ rest passed b, (∀ a ∈ rest, a ∈ items) → I passed b → rest.foldlM f b = .ok b' →
      I (passed ++ rest) b' from hloop items [] b (fun _ ha => ha) h hrun
  intro rest
  induction rest with
  | nil =>
    intro passed b _ hI hrun
    cases hrun
    rwa [append_nil]
  | cons a rest ih =>
    intro passed b hmem hI hrun
    obtain ⟨next, hnext, hrest⟩ := bind_eq_ok hrun
    have hI' := hstep passed a b next (hmem a mem_cons_self) hI hnext
    rw [append_cons]
    exact ih (passed ++ [a]) next (fun x hx => hmem x (mem_cons_of_mem _ hx)) hI' hrest

lemma foldlM_outcome {P : ε → Prop} (h : I [] b)
    (hstep : ∀ passed a rest b, items = passed ++ a :: rest → I passed b →
      (∃ b', f b a = .ok b' ∧ I (passed ++ [a]) b') ∨ ∃ e, f b a = .error e ∧ P e) :
    (∃ b', items.foldlM f b = .ok b' ∧ I items b') ∨ ∃ e, items.foldlM f b = .error e ∧ P e := by
  suffices hloop : ∀ rest passed b, items = passed ++ rest → I passed b →
      (∃ b', rest.foldlM f b = .ok b' ∧ I (passed ++ rest) b') ∨ ∃ e, rest.foldlM f b = .error e ∧ P e from
    hloop items [] b rfl h
  intro rest
  induction rest with
  | nil =>
    intro passed b _ hI
    exact .inl ⟨b, rfl, by rwa [append_nil]⟩
  | cons a rest ih =>
    intro passed b hitems hI
    rw [foldlM_cons]
    rcases hstep passed a rest b hitems hI with ⟨next, hnext, hI'⟩ | ⟨e, herror, hP⟩
    · rw [hnext, append_cons]
      exact ih (passed ++ [a]) next (by rw [hitems, append_cons]) hI'
    · exact .inr ⟨e, by rw [herror, error_bind], hP⟩

lemma foldlM_cases {e : ε} {P : Prop} (h : I [] b)
    (hstep : ∀ passed a rest b, items = passed ++ a :: rest → I passed b →
      (∃ b', f b a = .ok b' ∧ I (passed ++ [a]) b') ∨ f b a = .error e ∧ P) :
    (∃ b', items.foldlM f b = .ok b' ∧ I items b') ∨ items.foldlM f b = .error e ∧ P := by
  have hrun := foldlM_outcome (P := fun e' => e' = e ∧ P) h (fun passed a rest b hitems hI =>
    (hstep passed a rest b hitems hI).imp_right (fun hfail => ⟨e, hfail.1, rfl, hfail.2⟩))
  refine hrun.imp_right ?_
  rintro ⟨e', herror, rfl, hP⟩
  exact ⟨herror, hP⟩

lemma foldlM_congr {f g : β → α → Except ε β} (h : ∀ b a, a ∈ items → f b a = g b a) (b : β) :
    items.foldlM f b = items.foldlM g b := by
  induction items generalizing b with
  | nil => rfl
  | cons a rest ih =>
    rw [foldlM_cons, h b a mem_cons_self]
    congr 1
    funext next
    exact ih (fun b a ha => h b a (mem_cons_of_mem _ ha)) next

lemma mapM_ok {γ : Type} {f : α → Except ε β} {g : α → γ} {k : β → γ} (items : List α)
    (h : ∀ a ∈ items, ∃ b, f a = .ok b ∧ g a = k b) :
    ∃ results, items.mapM f = .ok results ∧ results.map k = items.map g := by
  induction items with
  | nil => exact ⟨[], rfl, rfl⟩
  | cons a rest ih =>
    obtain ⟨⟨b, hb, hg⟩, hrest⟩ := forall_mem_cons.mp h
    obtain ⟨results, hrun, hall⟩ := ih hrest
    refine ⟨b :: results, by rw [mapM_cons, hb, hrun]; rfl, ?_⟩
    rw [map_cons, map_cons, hall, hg]

end Fallible

def Ensures {ε α : Type} (x : Except ε α) (P : α → Prop) : Prop := ∀ a, x = .ok a → P a

namespace Ensures

variable {ε α β : Type} {x : Except ε α} {f : α → Except ε β} {P Q : α → Prop} {R : β → Prop}

lemma ok {a : α} (h : P a) : Ensures (Except.ok a : Except ε α) P := by
  intro b hb
  cases hb
  exact h

lemma error (e : ε) : Ensures (Except.error e : Except ε α) P := by
  intro a h
  cases h

lemma any (x : Except ε α) : Ensures x fun _ => True := fun _ _ => trivial

lemma bind (hx : Ensures x P) (hf : ∀ a, P a → Ensures (f a) R) : Ensures (x >>= f) R := by
  intro b hb
  obtain ⟨a, ha, hfa⟩ := Fallible.bind_eq_ok hb
  exact hf a (hx a ha) b hfa

lemma skip (hf : ∀ a, Ensures (f a) R) : Ensures (x >>= f) R := bind (any x) fun a _ => hf a

variable {y : Except ε α}

lemma ite {c : Prop} [Decidable c] (hx : c → Ensures x P) (hy : ¬c → Ensures y P) : Ensures (if c then x else y) P := by
  split
  · exact hx ‹_›
  · exact hy ‹_›

lemma branch {c : Prop} [Decidable c] (hx : Ensures x P) (hy : Ensures y P) :
    Ensures (if c then x else y) P := ite (fun _ => hx) fun _ => hy

lemma foldlM {g : β → α → Except ε β} {items : List α} {b : β} (hb : R b)
    (hstep : ∀ b, R b → ∀ a ∈ items, Ensures (g b a) R) : Ensures (items.foldlM g b) R :=
  fun _ hrun => Fallible.foldlM_invariant hrun hb fun _ a b b' ha hR hnext => hstep b hR a ha b' hnext

end Ensures

/-- Two computations of which one may only fail more often: whatever the tighter one returns, the other returns too. -/
def Tighter {ε α : Type} (x y : Except ε α) : Prop := ∀ a, x = .ok a → y = .ok a

namespace Tighter

variable {ε α β : Type}

@[refl] lemma refl (x : Except ε α) : Tighter x x := fun _ h => h

lemma error (e : ε) (y : Except ε α) : Tighter (.error e) y := by
  intro a h
  cases h

lemma unit (x : Except ε Unit) : Tighter x (.ok ()) := fun _ _ => rfl

variable {f g : α → Except ε β}

lemma bind {x y : Except ε α} (hxy : Tighter x y) (hfg : ∀ a, Tighter (f a) (g a)) : Tighter (x >>= f) (y >>= g) := by
  intro b h
  cases x with
  | error e => cases h
  | ok a =>
    rw [hxy a rfl]
    exact hfg a b h

variable {x : Except ε α}

lemma bind_same (hfg : ∀ a, Tighter (f a) (g a)) : Tighter (x >>= f) (x >>= g) := bind (refl x) hfg

lemma drop {f : α → Except ε β} {y : Except ε β} (h : ∀ a, Tighter (f a) y) : Tighter (x >>= f) y := by
  intro b hb
  cases x with
  | error e => cases hb
  | ok a => exact h a b hb

lemma ite {c : Prop} [Decidable c] {x x' y y' : Except ε α} (hx : Tighter x x') (hy : Tighter y y') :
    Tighter (if c then x else y) (if c then x' else y') := by
  split
  · exact hx
  · exact hy

lemma foldlM {f g : β → α → Except ε β} (h : ∀ b a, Tighter (f b a) (g b a)) (b : β) (items : List α) :
    Tighter (items.foldlM f b) (items.foldlM g b) := by
  induction items generalizing b with
  | nil => exact refl _
  | cons a items ih =>
    exact bind (h b a) fun b => ih b

end Tighter

namespace FirstFailure

open List

variable {ε α β : Type}

def failure : Except ε β → Option ε
  | .ok _ => none
  | .error e => some e

def first (results : List (Except ε Unit)) : Option ε := results.findSome? failure

def outcome : Option ε → Except ε Unit
  | none => .ok ()
  | some e => .error e

lemma forM_eq_outcome_first (items : List α) (check : α → Except ε Unit) :
    items.forM check = outcome (first (items.map check)) := by
  induction items with
  | nil => rfl
  | cons a rest ih =>
    rw [List.forM, map_cons]
    cases hcheck : check a with
    | error e => rfl
    | ok u => exact ih

lemma outcome_failure (x : Except ε Unit) : outcome (failure x) = x := by
  cases x <;> rfl

lemma map_zipIdx_eq (items : List α) {f : α × ℕ → β} {g : ℕ → β}
    (h : ∀ i a, items[i]? = some a → f (a, i) = g i) : items.zipIdx.map f = (range items.length).map g := by
  apply ext_getElem?
  intro i
  rw [getElem?_map, getElem?_map, getElem?_zipIdx, Nat.zero_add]
  cases hitem : items[i]? with
  | none =>
    rw [getElem?_eq_none_iff] at hitem
    rw [getElem?_eq_none_iff.mpr (by rwa [length_range])]
    rfl
  | some a =>
    have hlt : i < items.length := (List.getElem?_eq_some_iff.mp hitem).1
    rw [getElem?_range hlt, Option.map_some, Option.map_some, Option.map_some, h i a hitem]

def slice (results : List α) (start stop : ℕ) : Option (List α) :=
  if start ≤ stop ∧ stop ≤ results.length then some ((results.take stop).drop start) else none

lemma slice_append (before items after : List α) :
    slice (before ++ items ++ after) before.length (before.length + items.length) = some items := by
  have hbound : before.length ≤ before.length + items.length ∧
      before.length + items.length ≤ (before ++ items ++ after).length := by
    simp only [length_append]
    omega
  unfold slice
  rw [if_pos hbound, ← length_append, take_left, drop_left]

end FirstFailure
