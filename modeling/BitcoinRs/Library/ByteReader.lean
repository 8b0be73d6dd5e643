import BitcoinRs.Library.Bytes

namespace ByteReader

open List

abbrev Reader (ε α : Type) := StateT (List UInt8) (Except ε) α

variable {ε α β : Type} {encode : α → List UInt8} {xs : List UInt8} {a : α} (e : ε)

def fail (e : ε) : Reader ε α := fun _ => .error e

def takeBytes (e : ε) (n : ℕ) : Reader ε (List UInt8) := fun input =>
  if input.length < n then .error e else .ok (input.take n, input.drop n)

def readNat (e : ε) (w : ℕ) : Reader ε ℕ := do return LittleEndian.decode (← takeBytes e w)

variable {p : Reader ε α}

lemma bind_of_ok {input mid : List UInt8} (h : p input = .ok (a, mid)) (f : α → Reader ε β) :
    (p >>= f) input = f a mid := by
  change (p input >>= fun (x, s) => f x s) = _
  rw [h]
  rfl

/-- The reader returns `a` on `bytes`, and leaves whatever follows. -/
def Reads (p : Reader ε α) (bytes : List UInt8) (a : α) : Prop := ∀ rest, p (bytes ++ rest) = .ok (a, rest)

lemma Reads.pure (a : α) : Reads (pure a : Reader ε α) [] a := fun _ => rfl

lemma Reads.bind_apply (hp : Reads p xs a) (f : α → Reader ε β) (rest : List UInt8) :
    (p >>= f) (xs ++ rest) = f a rest := bind_of_ok (hp rest) f

variable {f : α → Reader ε β} {ys : List UInt8}

lemma Reads.bind {b : β} (hp : Reads p xs a) (hf : Reads (f a) ys b) : Reads (p >>= f) (xs ++ ys) b := by
  intro rest
  rw [append_assoc, hp.bind_apply]
  exact hf rest

lemma Reads.bind_pure {f : α → β} (hp : Reads p xs a) : Reads (p >>= fun x => Pure.pure (f x)) xs (f a) := by
  have h := hp.bind (f := fun x => (Pure.pure (f x) : Reader ε β)) (Reads.pure (f a))
  rwa [append_nil] at h

lemma reads_takeBytes (bytes : List UInt8) : Reads (takeBytes e bytes.length) bytes bytes := by
  intro rest
  rw [takeBytes, if_neg (by simp), take_left, drop_left]

lemma reads_takeBytes_of_length {bytes : List UInt8} {n : ℕ} (h : bytes.length = n) :
    Reads (takeBytes e n) bytes bytes := by
  rw [← h]
  exact reads_takeBytes e bytes

def Fails (p : Reader ε α) (bytes : List UInt8) (e : ε) : Prop := ∀ rest, p (bytes ++ rest) = .error e

lemma fails_fail : Fails (fail e : Reader ε α) [] e := fun _ => rfl

lemma Fails.append {e : ε} (h : Fails p xs e) (ys : List UInt8) : Fails p (xs ++ ys) e := by
  intro rest
  rw [append_assoc]
  exact h (ys ++ rest)

lemma Fails.bind {e : ε} (h : Fails p xs e) (f : α → Reader ε β) : Fails (p >>= f) xs e := by
  intro rest
  change (p (xs ++ rest) >>= fun (x, s) => f x s) = _
  rw [h rest]
  rfl

lemma Reads.bind_fails {e : ε} (hp : Reads p xs a) (hf : Fails (f a) ys e) : Fails (p >>= f) (xs ++ ys) e := by
  intro rest
  rw [append_assoc, hp.bind_apply]
  exact hf rest

lemma reads_readNat (w n : ℕ) (hn : n < 256 ^ w) : Reads (readNat e w) (LittleEndian.encode w n) n := by
  have h := reads_takeBytes e (LittleEndian.encode w n)
  rw [LittleEndian.length_encode] at h
  have hread := h.bind_pure (f := LittleEndian.decode)
  rwa [LittleEndian.decode_encode w n hn] at hread

def readMany (p : Reader ε α) : ℕ → Reader ε (List α)
  | 0 => pure []
  | n + 1 => do
    let a ← p
    let rest ← readMany p n
    return a :: rest

lemma reads_readMany (encode : α → List UInt8) (items : List α)
    (h : ∀ a ∈ items, Reads p (encode a) a) : Reads (readMany p items.length) (items.flatMap encode) items := by
  induction items with
  | nil => exact Reads.pure []
  | cons a items ih =>
    exact (h a mem_cons_self).bind ((ih (fun b hb => h b (mem_cons_of_mem _ hb))).bind_pure)

def readFold {σ : Type} (step : σ → Reader ε σ) : ℕ → σ → Reader ε σ
  | 0, state => pure state
  | n + 1, state => do readFold step n (← step state)

section

variable {σ : Type} {step : σ → Reader ε σ}

lemma reads_readFold {next : σ → α → σ} (Fits : σ → List α → Prop)
    (hstep : ∀ state a rest, Fits state (a :: rest) → Reads (step state) (encode a) (next state a) ∧
      Fits (next state a) rest)
    (items : List α) (state : σ) (h : Fits state items) :
    Reads (readFold step items.length state) (items.flatMap encode) (items.foldl next state) := by
  induction items generalizing state with
  | nil => exact Reads.pure state
  | cons a items ih =>
    obtain ⟨hread, hfits⟩ := hstep state a items h
    exact hread.bind (ih _ hfits)

end

/-- What the reader accepts stands in front of what it leaves, and `P` relates the value to those bytes. -/
def Accepts (p : Reader ε α) (P : α → List UInt8 → Prop) : Prop :=
  ∀ input a rest, p input = .ok (a, rest) → ∃ bytes, input = bytes ++ rest ∧ P a bytes

lemma bind_eq_ok {input rest : List UInt8} {b : β}
    (h : (p >>= f) input = .ok (b, rest)) : ∃ a mid, p input = .ok (a, mid) ∧ f a mid = .ok (b, rest) := by
  change (p input >>= fun (a, mid) => f a mid) = _ at h
  cases hp : p input with
  | error e =>
    rw [hp] at h
    cases h
  | ok r =>
    rw [hp] at h
    exact ⟨r.1, r.2, rfl, h⟩

namespace Accepts

variable {P : α → List UInt8 → Prop} {Q : β → List UInt8 → Prop}

lemma bind (hp : Accepts p P) (hf : ∀ a xs, P a xs → Accepts (f a) fun b ys => Q b (xs ++ ys)) :
    Accepts (p >>= f) Q := by
  intro input b rest h
  obtain ⟨a, mid, ha, hb⟩ := bind_eq_ok h
  obtain ⟨xs, rfl, hP⟩ := hp input a mid ha
  obtain ⟨ys, rfl, hQ⟩ := hf a xs hP mid b rest hb
  exact ⟨xs ++ ys, (append_assoc _ _ _).symm, hQ⟩

lemma pure (h : P a []) : Accepts (Pure.pure a : Reader ε α) P := by
  intro input b rest hb
  cases hb
  exact ⟨[], rfl, h⟩

lemma fail : Accepts (ByteReader.fail e : Reader ε α) P := by
  intro input a rest h
  cases h

lemma mono {P' : α → List UInt8 → Prop} (hp : Accepts p P) (h : ∀ a xs, P a xs → P' a xs) : Accepts p P' := by
  intro input a rest ha
  obtain ⟨xs, hinput, hP⟩ := hp input a rest ha
  exact ⟨xs, hinput, h a xs hP⟩

lemma map {g : α → β} (hp : Accepts p P) (h : ∀ a xs, P a xs → Q (g a) xs) :
    Accepts (p >>= fun a => Pure.pure (g a)) Q := by
  apply hp.bind
  intro a xs hP
  apply Accepts.pure
  rw [append_nil]
  exact h a xs hP

end Accepts

lemma accepts_takeBytes (n : ℕ) : Accepts (takeBytes e n) fun bytes xs => xs = bytes ∧ bytes.length = n := by
  intro input bytes rest h
  unfold takeBytes at h
  split_ifs at h with hlen
  cases h
  refine ⟨input.take n, (take_append_drop n input).symm, rfl, ?_⟩
  rw [length_take]
  omega

lemma accepts_readMany (hp : Accepts p fun a xs => xs = encode a) (n : ℕ) :
    Accepts (readMany p n) fun items xs => items.length = n ∧ xs = items.flatMap encode := by
  induction n with
  | zero => exact Accepts.pure ⟨rfl, rfl⟩
  | succ n ih =>
    apply hp.bind
    rintro a _ rfl
    apply ih.map
    rintro items _ ⟨hlen, rfl⟩
    exact ⟨congrArg (· + 1) hlen, rfl⟩

lemma accepts_readFold {σ : Type} {step : σ → Reader ε σ} {next : σ → α → σ}
    (hstep : ∀ state, Accepts (step state) fun state' xs => ∃ a, state' = next state a ∧ xs = encode a) (n : ℕ)
    (state : σ) :
    Accepts (readFold step n state) fun state' xs =>
      ∃ items : List α, items.length = n ∧ state' = items.foldl next state ∧ xs = items.flatMap encode := by
  induction n generalizing state with
  | zero => exact Accepts.pure ⟨[], rfl, rfl, rfl⟩
  | succ n ih =>
    apply (hstep state).bind
    rintro _ _ ⟨a, rfl, rfl⟩
    apply (ih (next state a)).mono
    rintro _ _ ⟨items, hlen, rfl, rfl⟩
    exact ⟨a :: items, congrArg (· + 1) hlen, rfl, rfl⟩

end ByteReader
