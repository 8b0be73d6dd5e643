import Mathlib.Data.List.Basic

namespace Stateful

variable {ε σ α β : Type} {x : EStateM ε σ α} {f : α → EStateM ε σ β} {s s' : σ} {a : α} {e : ε}

lemma bind_ok (h : x s = .ok a s') : (x >>= f) s = f a s' := by
  show EStateM.bind x f s = f a s'
  unfold EStateM.bind
  rw [h]

lemma bind_error (h : x s = .error e s') : (x >>= f) s = .error e s' := by
  show EStateM.bind x f s = .error e s'
  unfold EStateM.bind
  rw [h]

def reading (read : σ → Except ε α) : EStateM ε σ α := fun s =>
  match read s with
  | .ok a => .ok a s
  | .error e => .error e s

variable {read : σ → Except ε α}

lemma reading_ok (h : read s = .ok a) : reading read s = .ok a s := by
  unfold reading
  rw [h]

lemma reading_error (h : read s = .error e) : reading read s = .error e s := by
  unfold reading
  rw [h]

def stateOf : EStateM.Result ε σ α → σ
  | .ok _ s => s
  | .error _ s => s

lemma stateOf_bind_pure (g : α → β) : stateOf ((x >>= fun a => pure (g a)) s) = stateOf (x s) := by
  cases hx : x s with
  | ok a s' =>
    rw [bind_ok hx]
    rfl
  | error e s' =>
    rw [bind_error hx]
    rfl

def Steps (R : σ → σ → Prop) (x : EStateM ε σ α) : Prop := ∀ s, R s (stateOf (x s))

namespace Steps

variable {R : σ → σ → Prop}

lemma pure (hrefl : ∀ s, R s s) (a : α) : Steps R (Pure.pure a : EStateM ε σ α) := hrefl

lemma get (hrefl : ∀ s, R s s) : Steps R (MonadState.get : EStateM ε σ σ) := hrefl

lemma reading (hrefl : ∀ s, R s s) (read : σ → Except ε α) : Steps R (Stateful.reading read) := by
  intro s
  unfold Stateful.reading
  cases read s <;> exact hrefl s

lemma modify {f : σ → σ} (h : ∀ s, R s (f s)) : Steps R (modifyGet (fun s => (PUnit.unit, f s)) : EStateM ε σ PUnit) :=
    h

lemma bind (htrans : ∀ {a b c}, R a b → R b c → R a c) (hx : Steps R x) (hf : ∀ a, Steps R (f a)) :
    Steps R (x >>= f) := by
  intro s
  have hstep := hx s
  cases hrun : x s with
  | ok a s' =>
    rw [hrun] at hstep
    rw [bind_ok hrun]
    exact htrans hstep (hf a s')
  | error e s' =>
    rw [hrun] at hstep
    rwa [bind_error hrun]

end Steps

end Stateful

namespace Keeping

variable {σ α β : Type} {I : σ → Prop} {P : α → Prop} {Q : β → Prop} {x : StateM σ α} {f : α → StateM σ β}

def Keeps (I : σ → Prop) (x : StateM σ α) (P : α → Prop) : Prop := ∀ s, I s → P (x s).1 ∧ I (x s).2

namespace Keeps

lemma pure {a : α} (h : P a) : Keeps I (pure a : StateM σ α) P := fun _ hs => ⟨h, hs⟩

lemma get : Keeps I (get : StateM σ σ) I := fun _ hs => ⟨hs, hs⟩

lemma bind (hx : Keeps I x P) (hf : ∀ a, P a → Keeps I (f a) Q) : Keeps I (x >>= f) Q := by
  intro s hs
  obtain ⟨ha, hnext⟩ := hx s hs
  exact hf (x s).1 ha (x s).2 hnext

lemma mapM {R : α → β → Prop} (h : ∀ a, Keeps I (f a) (R a)) (items : List α) :
    Keeps I (items.mapM f) (List.Forall₂ R items) := by
  induction items with
  | nil => exact pure .nil
  | cons a rest ih =>
    rw [List.mapM_cons]
    exact (h a).bind fun b hb => ih.bind fun results hresults => pure (.cons hb hresults)

end Keeps

end Keeping
