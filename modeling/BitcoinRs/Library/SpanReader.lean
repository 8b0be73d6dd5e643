import Mathlib.Data.List.Basic

/-!
Readers that walk over an image by position and keep spans of it. `Sound` says what the bytes passed over
are, `ReadsAs` that given bytes are passed over.
-/

namespace SpanReader

open List

abbrev Cursor (ε α : Type) := ReaderT (List UInt8) (StateT ℕ (Except ε)) α

variable {ε α β : Type}

def segment (image : List UInt8) (start stop : ℕ) : List UInt8 := (image.take stop).drop start

section

variable (image : List UInt8)

@[simp] lemma segment_self (pos : ℕ) : segment image pos pos = [] := by
  unfold segment
  rw [drop_eq_nil_iff, length_take]
  omega

lemma length_segment {start stop : ℕ} (h : stop ≤ image.length) : (segment image start stop).length = stop - start := by
  unfold segment
  rw [length_drop, length_take]
  omega

lemma segment_append {start mid stop : ℕ} (h₁ : start ≤ mid) (h₂ : mid ≤ stop) :
    segment image start mid ++ segment image mid stop = segment image start stop := by
  unfold segment
  have hmid : image.take mid = (image.take stop).take mid := by rw [take_take, Nat.min_eq_left h₂]
  rw [hmid]
  generalize image.take stop = front
  have hsplit : front.drop mid = (front.drop start).drop (mid - start) := by
    rw [drop_drop, Nat.add_sub_cancel' h₁]
  rw [hsplit, drop_take, take_append_drop]

variable {image} {xs rest : List UInt8} {pos : ℕ} (h : image.drop pos = xs ++ rest)

include h

lemma segment_of_drop : segment image pos (pos + xs.length) = xs := by
  unfold segment
  rw [drop_take, h, Nat.add_sub_cancel_left, take_left]

lemma le_length_of_drop (hpos : pos ≤ image.length) : pos + xs.length ≤ image.length := by
  have hlen := congrArg length h
  rw [length_drop, length_append] at hlen
  omega

lemma drop_of_drop : image.drop (pos + xs.length) = rest := by
  rw [← drop_drop, h, drop_left]

end

variable {image : List UInt8} {pos stop : ℕ}

lemma bind_eq_ok {p : Cursor ε α} {f : α → Cursor ε β} {b : β} :
    (p >>= f) image pos = .ok (b, stop) ↔ ∃ a mid, p image pos = .ok (a, mid) ∧ f a image mid = .ok (b, stop) := by
  show (p image pos >>= fun x => f x.1 image x.2) = _ ↔ _
  cases hp : p image pos with
  | error e =>
    constructor
    · intro h
      cases h
    · rintro ⟨a, mid, ha, _⟩
      cases ha
  | ok x =>
    constructor
    · intro h
      exact ⟨x.1, x.2, rfl, h⟩
    · rintro ⟨a, mid, ha, hf⟩
      cases ha
      exact hf

lemma pure_eq_ok {a b : α} : (pure a : Cursor ε α) image pos = .ok (b, stop) ↔ a = b ∧ pos = stop := by
  constructor
  · intro h
    cases h
    exact ⟨rfl, rfl⟩
  · rintro ⟨rfl, rfl⟩
    rfl

def Sound (image : List UInt8) (p : Cursor ε α) (P : α → List UInt8 → Prop) : Prop :=
  ∀ pos a stop, pos ≤ image.length → p image pos = .ok (a, stop) →
    pos ≤ stop ∧ stop ≤ image.length ∧ P a (segment image pos stop)

/-- At the bytes `xs` from `lower` on, the reader accepts and stops after them, below the bound. -/
def ReadsAs (lower bound : ℕ) (image : List UInt8) (p : Cursor ε α) (Q : α → Prop) (xs : List UInt8) : Prop :=
  ∀ pos rest, lower ≤ pos → pos ≤ image.length → image.drop pos = xs ++ rest → pos + xs.length < bound →
    ∃ a, p image pos = .ok (a, pos + xs.length) ∧ Q a

section

variable {lower bound : ℕ} {p : Cursor ε α} {f : α → Cursor ε β} {P : α → List UInt8 → Prop} {Q : β → Prop}

lemma Sound.bind {Q : β → List UInt8 → Prop} (hp : Sound image p P)
    (hf : ∀ a xs, P a xs → Sound image (f a) fun b ys => Q b (xs ++ ys)) : Sound image (p >>= f) Q := by
  intro pos b stop hpos h
  obtain ⟨a, mid, ha, hb⟩ := bind_eq_ok.mp h
  obtain ⟨h₁, h₂, hP⟩ := hp pos a mid hpos ha
  obtain ⟨h₃, h₄, hQ⟩ := hf a _ hP mid b stop h₂ hb
  rw [segment_append image h₁ h₃] at hQ
  exact ⟨Nat.le_trans h₁ h₃, h₄, hQ⟩

lemma Sound.pure {a : α} (h : P a []) : Sound image (pure a : Cursor ε α) P := by
  intro pos b stop hpos hb
  obtain ⟨rfl, rfl⟩ := pure_eq_ok.mp hb
  rw [segment_self]
  exact ⟨Nat.le_refl _, hpos, h⟩

lemma Sound.mono {P Q : α → List UInt8 → Prop} (hp : Sound image p P) (h : ∀ a xs, P a xs → Q a xs) :
    Sound image p Q := by
  intro pos a stop hpos ha
  obtain ⟨h₁, h₂, hP⟩ := hp pos a stop hpos ha
  exact ⟨h₁, h₂, h a _ hP⟩

lemma Sound.throw {e : ε} : Sound image (throw e : Cursor ε α) P := by
  intro pos a stop _ h
  cases h

variable {P : α → Prop}

lemma ReadsAs.bind {xs ys : List UInt8} (hp : ReadsAs lower bound image p P xs)
    (hf : ∀ a, P a → ReadsAs lower bound image (f a) Q ys) : ReadsAs lower bound image (p >>= f) Q (xs ++ ys) := by
  intro pos rest hlower hpos hdrop hbound
  rw [append_assoc] at hdrop
  rw [length_append] at hbound ⊢
  obtain ⟨a, ha, hP⟩ := hp pos _ hlower hpos hdrop (by omega)
  obtain ⟨b, hb, hQ⟩ := hf a hP (pos + xs.length) rest (by omega) (le_length_of_drop hdrop hpos) (drop_of_drop hdrop)
    (by omega)
  rw [← Nat.add_assoc]
  exact ⟨b, bind_eq_ok.mpr ⟨a, _, ha, hb⟩, hQ⟩

lemma ReadsAs.pure {a : α} {Q : α → Prop} (h : Q a) : ReadsAs lower bound image (pure a : Cursor ε α) Q [] :=
  fun _ _ _ _ _ _ => ⟨a, rfl, h⟩

variable {xs : List UInt8} (hp : ReadsAs lower bound image p P xs)

include hp

lemma ReadsAs.bind_nil
    (hf : ∀ a, P a → ReadsAs lower bound image (f a) Q []) : ReadsAs lower bound image (p >>= f) Q xs := by
  have hbind := hp.bind hf
  rwa [append_nil] at hbind

lemma ReadsAs.map {g : α → β}
    (h : ∀ a, P a → Q (g a)) : ReadsAs lower bound image (p >>= fun a => Pure.pure (g a)) Q xs :=
  hp.bind_nil fun a ha => ReadsAs.pure (h a ha)

end

def many (p : Cursor ε α) : ℕ → Cursor ε (List α)
  | 0 => pure []
  | n + 1 => do
    let a ← p
    let rest ← many p n
    return a :: rest

section

variable {lower bound : ℕ} {p : Cursor ε α}

lemma Sound.many {view : α → List UInt8} {G : α → Prop} (hp : Sound image p fun a xs => xs = view a ∧ G a) (n : ℕ) :
    Sound image (SpanReader.many p n) fun as xs => xs = as.flatMap view ∧ as.length = n ∧ ∀ a ∈ as, G a := by
  induction n with
  | zero => exact Sound.pure ⟨rfl, rfl, fun a ha => by cases ha⟩
  | succ n ih =>
    apply hp.bind
    rintro a _ ⟨rfl, ha⟩
    apply ih.bind
    rintro as _ ⟨rfl, hlen, has⟩
    apply Sound.pure
    rw [append_nil, length_cons, hlen]
    exact ⟨rfl, rfl, forall_mem_cons.mpr ⟨ha, has⟩⟩

lemma many_getLast {f : α → ℕ} {n pos stop : ℕ} {as : List α} (hpos : pos ≤ image.length)
    (hp : ∀ pos a stop, pos ≤ image.length → p image pos = .ok (a, stop) → f a = stop ∧ stop ≤ image.length)
    (h : SpanReader.many p n image pos = .ok (as, stop)) : (as.getLast?.map f).getD pos = stop := by
  induction n generalizing pos as with
  | zero =>
    obtain ⟨rfl, rfl⟩ := pure_eq_ok.mp h
    rfl
  | succ n ih =>
    obtain ⟨a, mid, ha, h⟩ := bind_eq_ok.mp h
    obtain ⟨rest, last, hrest, h⟩ := bind_eq_ok.mp h
    obtain ⟨rfl, rfl⟩ := pure_eq_ok.mp h
    obtain ⟨hmid, hbound⟩ := hp pos a mid hpos ha
    have hlast := ih hbound hrest
    cases hlist : rest.getLast? with
    | none =>
      rw [getLast?_eq_none_iff] at hlist
      subst hlist
      rw [← hlast]
      exact hmid
    | some b =>
      rw [hlist] at hlast
      rw [getLast?_cons, hlist]
      exact hlast

lemma ReadsAs.many {view : α → β} {encode : β → List UInt8} (items : List β)
    (hp : ∀ b ∈ items, ReadsAs lower bound image p (fun a => view a = b) (encode b)) :
    ReadsAs lower bound image (SpanReader.many p items.length) (fun as => as.map view =
      items) (items.flatMap encode) := by
  induction items with
  | nil => exact ReadsAs.pure rfl
  | cons b items ih =>
    apply (hp b mem_cons_self).bind
    rintro a rfl
    apply (ih fun b hb => hp b (mem_cons_of_mem _ hb)).map
    rintro as rfl
    rfl

end

end SpanReader
