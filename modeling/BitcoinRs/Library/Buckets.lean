import Mathlib.Data.List.Sort
import Mathlib.Data.List.TakeWhile
import Mathlib.Algebra.BigOperators.Group.List.Basic
import Mathlib.Algebra.GroupWithZero.Nat

namespace Buckets

open List Function

variable {ι β : Type} [DecidableEq ι]

def start (keys : List ι) (count : ι → ℕ) (s : ι) : ℕ := ((keys.takeWhile (fun t => t != s)).map count).sum

/-- Each item goes to the cursor of its bucket, which then moves on; `none` is an index out of range. -/
def scatter (bucket : β → ι) : List β → List (Option β) → (ι → ℕ) → Option (List (Option β))
  | [], slots, _ => some slots
  | x :: xs, slots, cursors =>
    if cursors (bucket x) < slots.length then
      scatter bucket xs (slots.set (cursors (bucket x)) (some x))
        (update cursors (bucket x) (cursors (bucket x) + 1))
    else none

def sortSlice (r : β → β → Prop) [DecidableRel r] (xs : List β) (lo hi : ℕ) : List β :=
  xs.take lo ++ ((xs.drop lo).take (hi - lo)).insertionSort r ++ xs.drop hi

variable {keys : List ι} {s : ι} (bucket : β → ι) {count : ι → ℕ} {f : ι → List β}

lemma exists_split (hn : keys.Nodup) (hs : s ∈ keys) :
    ∃ pre post, keys = pre ++ s :: post ∧ s ∉ pre ∧ s ∉ post ∧ keys.takeWhile (fun t => t != s) = pre := by
  obtain ⟨pre, post, rfl⟩ := append_of_mem hs
  have hdisj := (nodup_append.mp hn).2.2
  have hpre : s ∉ pre := fun h => hdisj s h s mem_cons_self rfl
  have hpost : s ∉ post := (nodup_cons.mp (nodup_append.mp hn).2.1).1
  refine ⟨pre, post, rfl, hpre, hpost, ?_⟩
  rw [takeWhile_append_of_pos (fun t ht => by simpa using fun he : t = s => hpre (he ▸ ht))]
  simp

lemma flatMap_congr_of_ne {xs : List ι} (f : ι → List β) (new : List β) (h : s ∉ xs) :
    xs.flatMap (update f s new) = xs.flatMap f := by
  refine flatMap_congr (fun t ht => ?_)
  have hne : t ≠ s := fun he => h (he ▸ ht)
  rw [update_of_ne hne]

omit [DecidableEq ι] in
lemma length_flatMap_count (hc : ∀ t, (f t).length = count t) (xs : List ι) :
    (xs.flatMap f).length = (xs.map count).sum := by
  rw [length_flatMap]
  exact congrArg sum (map_congr_left (fun t _ => hc t))

lemma flatMap_split (hn : keys.Nodup) (hs : s ∈ keys) (hc : ∀ t, (f t).length = count t) :
    ∃ front back, front.length = start keys count s ∧ keys.flatMap f = front ++ (f s ++ back) ∧
      ∀ new, keys.flatMap (update f s new) = front ++ (new ++ back) := by
  obtain ⟨pre, post, rfl, hpre, hpost, htake⟩ := exists_split hn hs
  refine ⟨pre.flatMap f, post.flatMap f, ?_, by simp, fun new => ?_⟩
  · rw [length_flatMap_count hc, start, htake]
  · rw [flatMap_append, flatMap_cons, flatMap_congr_of_ne f new hpre, flatMap_congr_of_ne f new hpost, update_self]

lemma take_drop_start (hn : keys.Nodup) (hs : s ∈ keys) (hc : ∀ t, (f t).length = count t) :
    ((keys.flatMap f).drop (start keys count s)).take (count s) = f s := by
  obtain ⟨front, back, hlen, hsplit, -⟩ := flatMap_split hn hs hc
  rw [hsplit, drop_left' hlen, take_left' (hc s)]

variable (r : β → β → Prop)

lemma sortSlice_flatMap [DecidableRel r] (hn : keys.Nodup) (hs : s ∈ keys) (hc : ∀ t, (f t).length = count t) :
    sortSlice r (keys.flatMap f) (start keys count s) (start keys count s + count s) =
      keys.flatMap (update f s ((f s).insertionSort r)) := by
  obtain ⟨front, back, hlen, hsplit, hupdate⟩ := flatMap_split hn hs hc
  rw [hupdate, sortSlice, hsplit, take_left' hlen, drop_left' hlen, Nat.add_sub_cancel_left,
    take_left' (hc s), ← drop_drop, drop_left' hlen, drop_left' (hc s), append_assoc]

def block (bucket : β → ι) (done rest : List β) (s : ι) : List (Option β) :=
  (done.filter (fun x => bucket x == s)).map some ++
    replicate (rest.countP (fun x => bucket x == s)) none

variable (done rest : List β)

lemma length_block (s : ι) : (block bucket done rest s).length = (done ++ rest).countP (fun x => bucket x == s) := by
  rw [block, length_append, length_map, length_replicate, countP_append, ← countP_eq_length_filter]

lemma block_step (x : β) :
    block bucket (done ++ [x]) rest = update (block bucket done (x :: rest)) (bucket x)
      ((block bucket done (x :: rest) (bucket x)).set (done.countP (fun y => bucket y == bucket x)) (some x)) := by
  funext s
  by_cases hs : s = bucket x
  · rw [hs, block, block, countP_cons_of_pos (by simp),
      replicate_succ, set_append_right _ _ (by rw [length_map, countP_eq_length_filter]),
      length_map, ← countP_eq_length_filter]
    simp
  · have hne : (bucket x == s) = false := by simpa using Ne.symm hs
    rw [update_of_ne hs, block, block]
    simp [hne]

lemma scatter_eq (hn : keys.Nodup) (rest : List β) (hmem : ∀ x ∈ rest, bucket x ∈ keys) (done : List β)
    (count : ι → ℕ) (hcount : ∀ s, count s = (done ++ rest).countP (fun x => bucket x == s)) :
    scatter bucket rest (keys.flatMap (block bucket done rest))
        (fun s => start keys count s + done.countP (fun x => bucket x == s)) =
      some (keys.flatMap (fun s => ((done ++ rest).filter (fun x => bucket x == s)).map some)) := by
  induction rest generalizing done with
  | nil =>
    have hblock : block bucket done [] = fun s => (done.filter (fun x => bucket x == s)).map some := by
      funext s
      simp [block]
    rw [scatter, hblock, append_nil]
  | cons x rest ih =>
    have hlen (s : ι) : (block bucket done (x :: rest) s).length = count s := by
      rw [hcount s, length_block]
    obtain ⟨front, back, hfront, hsplit, hupdate⟩ := flatMap_split hn (hmem x mem_cons_self) hlen
    have hpos : done.countP (fun y => bucket y == bucket x) < (block bucket done (x :: rest) (bucket x)).length := by
      rw [length_block, countP_append, countP_cons_of_pos (by simp)]
      omega
    have hset : (keys.flatMap (block bucket done (x :: rest))).set
        (start keys count (bucket x) + done.countP (fun y => bucket y == bucket x)) (some x) =
        keys.flatMap (block bucket (done ++ [x]) rest) := by
      rw [block_step, hupdate, hsplit, ← hfront, set_append_right _ _ (Nat.le_add_right _ _),
        Nat.add_sub_cancel_left, set_append_left _ _ hpos]
    have hcursors : update (fun s => start keys count s + done.countP (fun y => bucket y == s)) (bucket x)
        (start keys count (bucket x) + done.countP (fun y => bucket y == bucket x) + 1) =
        fun s => start keys count s + (done ++ [x]).countP (fun y => bucket y == s) := by
      funext s
      by_cases hs : s = bucket x
      · rw [hs]
        simp [Nat.add_assoc]
      · have hne : (bucket x == s) = false := by simpa using Ne.symm hs
        rw [update_of_ne hs]
        simp [hne]
    rw [scatter, if_pos (by
      rw [hsplit, length_append, length_append]
      omega), hset, hcursors, ih (fun y hy => hmem y (mem_cons_of_mem _ hy)) (done ++ [x])
      (fun s => by rw [hcount s, append_assoc, singleton_append]), append_assoc, singleton_append]

lemma scatter_all (hn : keys.Nodup) (xs : List β) (hmem : ∀ x ∈ xs, bucket x ∈ keys) :
    scatter bucket xs (keys.flatMap (fun s => replicate (xs.countP (fun x => bucket x == s)) none))
        (start keys (fun s => xs.countP (fun x => bucket x == s))) =
      some (keys.flatMap (fun s => (xs.filter (fun x => bucket x == s)).map some)) := by
  have h := scatter_eq bucket hn xs hmem [] (fun s => xs.countP (fun x => bucket x == s)) (fun s => rfl)
  exact h

lemma sum_count (hn : keys.Nodup) (xs : List β) (hmem : ∀ x ∈ xs, bucket x ∈ keys) :
    (keys.map (fun s => xs.countP (fun x => bucket x == s))).sum = xs.length := by
  induction xs with
  | nil => simp
  | cons x xs ih =>
    obtain ⟨pre, post, rfl, hpre, hpost, -⟩ := exists_split hn (hmem x mem_cons_self)
    have hrest := ih (fun y hy => hmem y (mem_cons_of_mem _ hy))
    have hother {ys : List ι} (h : bucket x ∉ ys) : ys.map (fun s => (x :: xs).countP (fun x => bucket x == s)) =
        ys.map (fun s => xs.countP (fun x => bucket x == s)) :=
      map_congr_left (fun s hs => countP_cons_of_neg (by
        simpa using fun he : bucket x = s => h (he ▸ hs)))
    simp only [map_append, map_cons, sum_append, sum_cons] at hrest ⊢
    rw [hother hpre, hother hpost, countP_cons_of_pos (by simp), length_cons]
    omega

lemma filter_insertionSort [DecidableRel r] [Std.Total r] [IsTrans β r] (p : β → Bool)
    (hp : ∀ a b, p a = true → p b = true → r a b) (xs : List β) :
    (xs.insertionSort r).filter p = xs.filter p := by
  have hpair : (xs.filter p).Pairwise r := by
    rw [pairwise_iff_forall_sublist]
    intro a b hab
    have ha := hab.subset (mem_cons_self)
    have hb := hab.subset (mem_cons_of_mem _ mem_cons_self)
    exact hp a b (mem_filter.mp ha).2 (mem_filter.mp hb).2
  have hsub := (sublist_insertionSort hpair filter_sublist).filter p
  simp only [filter_filter, Bool.and_self] at hsub
  refine (hsub.eq_of_length ?_).symm
  rw [← countP_eq_length_filter, ← countP_eq_length_filter]
  exact ((perm_insertionSort r xs).countP_eq p).symm

end Buckets
