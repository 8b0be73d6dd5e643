import Mathlib.Data.List.GetD
import Mathlib.Data.List.Induction
import Mathlib.Order.Lattice

namespace PairTree

open List

variable {α : Type} [DecidableEq α] {f : α → α → α} {r : α} {xs ys : List α} {m : Bool}

/-- The pairs one level of the tree combines: an odd last element stands with itself. -/
def levelPairs : List α → List (α × α)
  | a :: b :: rest => (a, b) :: levelPairs rest
  | [a] => [(a, a)]
  | [] => []

def parents (f : α → α → α) (xs : List α) : List α := (levelPairs xs).map (fun p => f p.1 p.2)

def twin : List α → Bool
  | a :: b :: rest => a == b || twin rest
  | _ => false

/-- `Root f d xs r m`: folding `xs` up `d` levels ends in the single element `r`, and `m` says
whether a level on the way had a twin. -/
inductive Root (f : α → α → α) : ℕ → List α → α → Bool → Prop
  | single (a : α) : Root f 0 [a] a false
  | level {d : ℕ} {a b : α} {rest : List α} {r : α} {m : Bool}
      (h : Root f d (parents f (a :: b :: rest)) r m) :
      Root f (d + 1) (a :: b :: rest) r (twin (a :: b :: rest) || m)

def combinedPairs (f : α → α → α) : ℕ → List α → List (α × α)
  | fuel + 1, a :: b :: rest =>
    levelPairs (a :: b :: rest) ++ combinedPairs f fuel (parents f (a :: b :: rest))
  | _, _ => []

omit [DecidableEq α] in
lemma length_levelPairs (xs : List α) : (levelPairs xs).length = (xs.length + 1) / 2 := by
  induction xs using levelPairs.induct with
  | case1 a b rest ih => simp only [levelPairs, length_cons, ih]; omega
  | case2 a => simp [levelPairs]
  | case3 => simp [levelPairs]

omit [DecidableEq α] in
@[simp] lemma length_parents (f : α → α → α) (xs : List α) : (parents f xs).length = (xs.length + 1) / 2 := by
  simp [parents, length_levelPairs]

omit [DecidableEq α] in
lemma parents_ne_nil (f : α → α → α) (h : xs ≠ []) : parents f xs ≠ [] := by
  match xs, h with
  | [a], _ => simp [parents, levelPairs]
  | a :: b :: rest, _ => simp [parents, levelPairs]

variable {d : ℕ}

lemma Root.ne_nil (h : Root f d xs r m) : xs ≠ [] := by
  cases h <;> simp

lemma Root.step (hx : 2 ≤ xs.length) (h : Root f d (parents f xs) r m) : Root f (d + 1) xs r (twin xs || m) := by
  match xs, hx with
  | a :: b :: rest, _ => exact .level h

lemma Root.depth_lt (h : Root f d xs r m) : d < xs.length := by
  induction h with
  | single a => simp
  | level h ih => simp only [length_parents, length_cons] at ih ⊢; omega

lemma Root.unique {d e : ℕ} {r' : α} {m' : Bool} (h : Root f d xs r m) (h' : Root f e xs r' m') : r = r' ∧ m = m' := by
  induction h generalizing e r' m' with
  | single a =>
    cases h'
    exact ⟨rfl, rfl⟩
  | level h ih =>
    cases h' with
    | level h' =>
      obtain ⟨rfl, rfl⟩ := ih h'
      exact ⟨rfl, rfl⟩

omit [DecidableEq α] in
lemma levelPairs_append (xs ys : List α) (hx : xs.length % 2 = 0) :
    levelPairs (xs ++ ys) = levelPairs xs ++ levelPairs ys := by
  induction xs using levelPairs.induct with
  | case1 a b rest ih =>
    simp only [length_cons] at hx
    simp [levelPairs, ih (by omega)]
  | case2 a => simp at hx
  | case3 => rfl

omit [DecidableEq α] in
lemma parents_append (f : α → α → α) (xs ys : List α) (hx : xs.length % 2 = 0) :
    parents f (xs ++ ys) = parents f xs ++ parents f ys := by
  simp [parents, levelPairs_append xs ys hx]

lemma twin_append (xs ys : List α) (hx : xs.length % 2 = 0) : twin (xs ++ ys) = (twin xs || twin ys) := by
  induction xs using levelPairs.induct with
  | case1 a b rest ih =>
    simp only [length_cons] at hx
    simp [twin, ih (by omega), Bool.or_assoc]
  | case2 a => simp at hx
  | case3 => rfl

lemma eq_of_levelPairs_eq (xs ys : List α) (h : levelPairs xs = levelPairs ys)
    (hx : twin xs = false) (hy : twin ys = false) : xs = ys := by
  induction xs using levelPairs.induct generalizing ys with
  | case1 a b rest ih =>
    match ys with
    | c :: d :: rest' =>
      simp only [levelPairs, cons.injEq, Prod.mk.injEq] at h
      simp only [twin, Bool.or_eq_false_iff] at hx hy
      rw [h.1.1, h.1.2, ih rest' h.2 hx.2 hy.2]
    | [c] =>
      simp only [levelPairs, cons.injEq, Prod.mk.injEq] at h
      simp [twin, h.1.1, h.1.2] at hx
    | [] => simp [levelPairs] at h
  | case2 a =>
    match ys with
    | c :: d :: rest' =>
      simp only [levelPairs, cons.injEq, Prod.mk.injEq] at h
      simp [twin, ← h.1.1, ← h.1.2] at hy
    | [c] =>
      simp only [levelPairs, cons.injEq, Prod.mk.injEq, and_true, and_self] at h
      rw [h]
    | [] => simp [levelPairs] at h
  | case3 =>
    match ys with
    | c :: d :: rest' => simp [levelPairs] at h
    | [c] => simp [levelPairs] at h
    | [] => rfl

def SeparatesOn (f : α → α → α) (P : List (α × α)) : Prop := ∀ p ∈ P, ∀ q ∈ P, f p.1 p.2 = f q.1 q.2 → p = q

omit [DecidableEq α] in
lemma SeparatesOn.mono {P Q : List (α × α)} (h : SeparatesOn f Q) (hs : P ⊆ Q) :
    SeparatesOn f P := fun p hp q hq => h p (hs hp) q (hs hq)

omit [DecidableEq α] in
lemma map_injOn {P Q R : List (α × α)} (h : SeparatesOn f R) (hp : P ⊆ R) (hq : Q ⊆ R)
    (he : P.map (fun p => f p.1 p.2) = Q.map (fun p => f p.1 p.2)) : P = Q := by
  induction P generalizing Q with
  | nil => simpa using he.symm
  | cons p P ih =>
    cases Q with
    | nil => simp at he
    | cons q Q =>
      simp only [map_cons, cons.injEq] at he
      rw [h p (hp (by simp)) q (hq (by simp)) he.1,
        ih (fun x hx => hp (by simp [hx])) (fun x hx => hq (by simp [hx])) he.2]

lemma Root.eq_of_twinless {d n k : ℕ} (hx : Root f d xs r false) (hy : Root f d ys r false) (hn : d ≤ n) (hk : d ≤ k)
    (hs : SeparatesOn f (combinedPairs f n xs ++ combinedPairs f k ys)) : xs = ys := by
  induction d generalizing xs ys n k with
  | zero =>
    cases hx
    cases hy
    rfl
  | succ d ih =>
    obtain ⟨n, rfl⟩ : ∃ n', n = n' + 1 := ⟨n - 1, by omega⟩
    obtain ⟨k, rfl⟩ : ∃ k', k = k' + 1 := ⟨k - 1, by omega⟩
    generalize hmx : false = mx at hx
    generalize hmy : false = my at hy
    cases hx with
    | @level _ a b rest _ m hx =>
      cases hy with
      | @level _ c e rest' _ m' hy =>
        obtain ⟨htx, rfl⟩ := Bool.or_eq_false_iff.mp hmx.symm
        obtain ⟨hty, rfl⟩ := Bool.or_eq_false_iff.mp hmy.symm
        simp only [combinedPairs] at hs
        have hparents : parents f (a :: b :: rest) = parents f (c :: e :: rest') := by
          apply ih (n := n) (k := k) hx hy (by omega) (by omega)
          apply hs.mono
          intro p hp
          simp only [mem_append] at hp ⊢
          tauto
        apply eq_of_levelPairs_eq _ _ _ htx hty
        apply map_injOn hs _ _ hparents
        · intro p hp; simp only [mem_append]; tauto
        · intro p hp; simp only [mem_append]; tauto

variable {m' : Bool}

lemma Root.head_eq {d n k : ℕ} (hx : Root f d xs r m) (hy : Root f d ys r m') (hn : d ≤ n) (hk : d ≤ k)
    (hs : SeparatesOn f (combinedPairs f n xs ++ combinedPairs f k ys)) : xs.head? = ys.head? := by
  induction d generalizing xs ys m m' n k with
  | zero =>
    cases hx
    cases hy
    rfl
  | succ d ih =>
    obtain ⟨n, rfl⟩ : ∃ n', n = n' + 1 := ⟨n - 1, by omega⟩
    obtain ⟨k, rfl⟩ : ∃ k', k = k' + 1 := ⟨k - 1, by omega⟩
    cases hx with
    | @level _ a b rest _ m hx =>
      cases hy with
      | @level _ c e rest' _ m' hy =>
        simp only [combinedPairs] at hs
        have hparents := ih (n := n) (k := k) hx hy (by omega) (by omega) (by
          apply hs.mono
          intro p hp
          simp only [mem_append] at hp ⊢
          tauto)
        simp only [parents, levelPairs, map_cons, head?_cons, Option.some.injEq] at hparents
        have hpair := hs (a, b) (by simp [levelPairs]) (c, e) (by simp [levelPairs]) hparents
        simp only [Prod.mk.injEq] at hpair
        simp [hpair.1]

lemma Root.lift {d j k : ℕ} {ys : List α} (hy : Root f (d + j) ys r m) (hk : d + j ≤ k) :
    ∃ zs m', Root f d zs r m' ∧ combinedPairs f (k - j) zs ⊆ combinedPairs f k ys ∧
      ∀ z ∈ zs, (j = 0 ∧ z ∈ ys) ∨ ∃ p ∈ combinedPairs f k ys, z = f p.1 p.2 := by
  induction j generalizing ys m k with
  | zero => exact ⟨ys, m, hy, fun _ hp => hp, fun z hz => Or.inl ⟨rfl, hz⟩⟩
  | succ j ih =>
    obtain ⟨k, rfl⟩ : ∃ k', k = k' + 1 := ⟨k - 1, by omega⟩
    cases hy with
    | @level _ a b rest _ m hy =>
      obtain ⟨zs, m', hz, hsub, hcomb⟩ := ih (k := k) hy (by omega)
      have hstep : combinedPairs f k (parents f (a :: b :: rest)) ⊆
          combinedPairs f (k + 1) (a :: b :: rest) := by
        intro p hp
        simp only [combinedPairs, mem_append]
        exact Or.inr hp
      refine ⟨zs, m', hz, ?_, ?_⟩
      · rw [show k + 1 - (j + 1) = k - j by omega]
        exact fun p hp => hstep (hsub hp)
      · intro z hzm
        rcases hcomb z hzm with ⟨_, hz⟩ | ⟨p, hp, he⟩
        · obtain ⟨p, hp, he⟩ := mem_map.mp hz
          exact Or.inr ⟨p, by simp only [combinedPairs, mem_append]; exact Or.inl hp, he.symm⟩
        · exact Or.inr ⟨p, hstep hp, he⟩

variable {e n k : ℕ}

lemma Root.depth_le (hx : Root f d xs r m) (hy : Root f e ys r m') (hn : d ≤ n)
    (hk : e ≤ k) (hs : SeparatesOn f (combinedPairs f n xs ++ combinedPairs f k ys))
    (hl : ∀ x ∈ xs, ∀ p ∈ combinedPairs f k ys, x ≠ f p.1 p.2) : e ≤ d := by
  by_contra hlt
  obtain ⟨j, rfl⟩ : ∃ j, e = d + j := ⟨e - d, by omega⟩
  obtain ⟨zs, m'', hz, hsub, hcomb⟩ := hy.lift hk
  have hhead := hx.head_eq (k := k - j) hz hn (by omega) (hs.mono (by
    intro p hp
    simp only [mem_append] at hp ⊢
    exact hp.imp_right (fun h => hsub h)))
  obtain ⟨z, hzm⟩ : ∃ z, zs.head? = some z := by
    cases zs with
    | nil => exact absurd rfl hz.ne_nil
    | cons z zs => exact ⟨z, rfl⟩
  obtain ⟨hj, _⟩ | ⟨p, hp, he⟩ := hcomb z (mem_of_head? hzm)
  · omega
  · exact hl z (mem_of_head? (hhead.trans hzm)) p hp he

lemma Root.twin_of_ne (hx : Root f d xs r m) (hy : Root f e ys r m') (hn : d ≤ n)
    (hk : e ≤ k) (hs : SeparatesOn f (combinedPairs f n xs ++ combinedPairs f k ys))
    (hl : ∀ x ∈ xs ++ ys, ∀ p ∈ combinedPairs f n xs ++ combinedPairs f k ys, x ≠ f p.1 p.2) (hne : xs ≠ ys) :
    m = true ∨ m' = true := by
  have hswap : SeparatesOn f (combinedPairs f k ys ++ combinedPairs f n xs) := by
    apply hs.mono
    intro p hp
    simp only [mem_append] at hp ⊢
    exact hp.symm
  have hed : e ≤ d := hx.depth_le hy hn hk hs (fun x hxm p hp => hl x (by simp [hxm]) p (by simp [hp]))
  have hde : d ≤ e := hy.depth_le hx hk hn hswap (fun x hxm p hp => hl x (by simp [hxm]) p (by simp [hp]))
  obtain rfl : d = e := by omega
  by_contra hm
  obtain ⟨hm, hm'⟩ := not_or.mp hm
  rw [Bool.not_eq_true] at hm hm'
  subst hm hm'
  exact hne (hx.eq_of_twinless hy hn hk hs)

omit [DecidableEq α] in
lemma getD_levelPairs (xs : List α) (i : ℕ) (z : α) (hi : i < (xs.length + 1) / 2) :
    (levelPairs xs).getD i (z, z) = (xs.getD (2 * i) z, xs.getD (min (2 * i + 1) (xs.length - 1)) z) := by
  induction xs using levelPairs.induct generalizing i with
  | case1 a b rest ih =>
    cases i with
    | zero => simp [levelPairs]
    | succ i =>
      have hlt : i < (rest.length + 1) / 2 := by simp only [length_cons] at hi; omega
      have hmin : min (2 * (i + 1) + 1) ((a :: b :: rest).length - 1) =
          min (2 * i + 1) (rest.length - 1) + 2 := by simp only [length_cons]; omega
      rw [hmin, show 2 * (i + 1) = 2 * i + 2 by omega]
      simpa [levelPairs] using ih i hlt
  | case2 a =>
    have h0 : i = 0 := by simp only [length_cons, length_nil] at hi; omega
    simp [levelPairs, h0]
  | case3 => simp at hi

def foldedUpTo (f : α → α → α) (pos : ℕ) (xs : List α) : List α := (parents f xs).take pos ++ xs.drop pos

omit [DecidableEq α] in
@[simp] lemma foldedUpTo_zero (f : α → α → α) (xs : List α) : foldedUpTo f 0 xs = xs := by
  simp [foldedUpTo]

omit [DecidableEq α] in
lemma take_foldedUpTo (f : α → α → α) (xs : List α) :
    (foldedUpTo f ((xs.length + 1) / 2) xs).take ((xs.length + 1) / 2) = parents f xs := by
  have hl : (parents f xs).length = (xs.length + 1) / 2 := length_parents f xs
  rw [foldedUpTo, take_append_of_le_length (by simp [hl]), take_take, min_self, ← hl, take_length]

omit [DecidableEq α] in
lemma getD_foldedUpTo (f : α → α → α) (xs : List α) (pos i : ℕ) (z : α) (hp : pos ≤ (xs.length + 1) / 2)
    (hi : pos ≤ i) : (foldedUpTo f pos xs).getD i z = xs.getD i z := by
  have hl : ((parents f xs).take pos).length = pos := by simp; omega
  rw [foldedUpTo, getD_append_right _ _ _ _ (by omega), hl]
  simp only [getD_eq_getElem?_getD, getElem?_drop]
  rw [show pos + (i - pos) = i by omega]

omit [DecidableEq α] in
lemma set_foldedUpTo (f : α → α → α) (xs : List α) (pos : ℕ) (z : α) (hp : pos < (xs.length + 1) / 2) :
    (foldedUpTo f pos xs).set pos
        (f (xs.getD (2 * pos) z) (xs.getD (min (2 * pos + 1) (xs.length - 1)) z)) =
      foldedUpTo f (pos + 1) xs := by
  have hps : pos < (parents f xs).length := by simpa using hp
  have hl : ((parents f xs).take pos).length = pos := by simp; omega
  have hparent : f (xs.getD (2 * pos) z) (xs.getD (min (2 * pos + 1) (xs.length - 1)) z) = (parents f xs)[pos] := by
    have hpair := getD_levelPairs xs pos z hp
    rw [getD_eq_getElem _ _ (by rw [length_levelPairs]; exact hp)] at hpair
    simp only [parents, getElem_map, hpair]
  have hdrop : xs.drop pos = xs[pos] :: xs.drop (pos + 1) := drop_eq_getElem_cons (by omega)
  rw [foldedUpTo, foldedUpTo, set_append_right _ _ (by omega), hl, Nat.sub_self, hdrop,
    set_cons_zero, hparent, take_succ_eq_append_getElem hps, append_assoc,
    singleton_append]

end PairTree
