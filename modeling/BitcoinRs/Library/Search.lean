import Mathlib.Data.List.Perm.Subperm
import Mathlib.Data.List.Nodup

/-!
The search of a graph from a frontier: a place is marked when it is found, and the places found first are listed first.
How the places found join the frontier (on top of a stack, at the end of a queue) does not change what is found.
-/

namespace Search

open List

variable {ι : Type} [DecidableEq ι]

def fresh (seen : List ι) : List ι → List ι
  | [] => []
  | y :: found => if y ∈ seen then fresh seen found else y :: fresh (y :: seen) found

lemma mem_fresh (seen found : List ι) (y : ι) : y ∈ fresh seen found ↔ y ∈ found ∧ y ∉ seen := by
  induction found generalizing seen with
  | nil => simp [fresh]
  | cons z found ih =>
    unfold fresh
    split
    · rename_i hz
      rw [ih, mem_cons]
      constructor
      · rintro ⟨hy, hseen⟩
        exact ⟨.inr hy, hseen⟩
      · rintro ⟨rfl | hy, hseen⟩
        · exact absurd hz hseen
        · exact ⟨hy, hseen⟩
    · rename_i hz
      rw [mem_cons, ih]
      by_cases hyz : y = z
      · subst hyz
        simp [hz]
      · simp [hyz]

lemma nodup_fresh (seen found : List ι) : (fresh seen found).Nodup := by
  induction found generalizing seen with
  | nil => exact nodup_nil
  | cons z found ih =>
    unfold fresh
    split
    · exact ih seen
    · refine nodup_cons.mpr ⟨?_, ih _⟩
      rw [mem_fresh]
      exact fun h => h.2 mem_cons_self

inductive Discipline
  | stack
  | queue

def Discipline.join : Discipline → List ι → List ι → List ι
  | stack, frontier, found => found.reverse ++ frontier
  | queue, frontier, found => frontier ++ found

omit [DecidableEq ι] in
lemma Discipline.mem_join (d : Discipline) (frontier found : List ι) (y : ι) :
    y ∈ d.join frontier found ↔ y ∈ frontier ∨ y ∈ found := by
  cases d <;> simp [join, or_comm]

omit [DecidableEq ι] in
lemma Discipline.length_join (d : Discipline) (frontier found : List ι) :
    (d.join frontier found).length = frontier.length + found.length := by
  cases d <;> simp [join, Nat.add_comm]

section

variable (d : Discipline) (next : ι → List ι)

def visit : ℕ → List ι → List ι → List ι
  | _, [], seen => seen
  | 0, _ :: _, seen => seen
  | fuel + 1, x :: frontier, seen =>
    visit fuel (d.join frontier (fresh seen (next x))) (seen ++ fresh seen (next x))

structure Waiting (frontier seen : List ι) : Prop where
  marked : ∀ x ∈ frontier, x ∈ seen
  closed : ∀ x ∈ seen, x ∈ frontier ∨ ∀ y ∈ next x, y ∈ seen

end

variable {d : Discipline} {next : ι → List ι}

lemma Waiting.pop {x : ι} {frontier seen : List ι} (h : Waiting next (x :: frontier) seen) :
    Waiting next (d.join frontier (fresh seen (next x))) (seen ++ fresh seen (next x)) where
  marked y hy := by
    rw [d.mem_join] at hy
    rw [mem_append]
    exact hy.imp_left fun hy => h.marked y (mem_cons_of_mem _ hy)
  closed y hy := by
    rw [d.mem_join]
    have hall : ∀ z ∈ next x, z ∈ seen ++ fresh seen (next x) := by
      intro z hz
      rw [mem_append, mem_fresh]
      by_cases hseen : z ∈ seen
      · exact .inl hseen
      · exact .inr ⟨hz, hseen⟩
    rcases mem_append.mp hy with hy | hy
    · rcases h.closed y hy with hwait | hnext
      · rcases mem_cons.mp hwait with rfl | hwait
        · exact .inr hall
        · exact .inl (.inl hwait)
      · exact .inr fun z hz => mem_append_left _ (hnext z hz)
    · exact .inl (.inr hy)

def rest (places seen : List ι) : List ι := places.filter (· ∉ seen)

lemma length_rest_append (places seen found : List ι) (hfound : ∀ y ∈ found, y ∈ places ∧ y ∉ seen)
    (hnodup : found.Nodup) (hplaces : places.Nodup) :
    (rest places (seen ++ found)).length + found.length = (rest places seen).length := by
  have hperm : (rest places (seen ++ found) ++ found).Perm (rest places seen) := by
    apply (perm_ext_iff_of_nodup ?_ (hplaces.filter _)).mpr
    · intro y
      simp only [rest, mem_append, mem_filter, decide_eq_true_eq, not_or]
      constructor
      · rintro (⟨hy, hseen, -⟩ | hy)
        · exact ⟨hy, hseen⟩
        · exact hfound y hy
      · rintro ⟨hy, hseen⟩
        by_cases hmem : y ∈ found
        · exact .inr hmem
        · exact .inl ⟨hy, hseen, hmem⟩
    · refine Nodup.append (hplaces.filter _) hnodup ?_
      intro y hy hmem
      exact of_decide_eq_true (mem_filter.mp hy).2 (mem_append_right _ hmem)
  rw [← hperm.length_eq, length_append]

structure Found (next : ι → List ι) (frontier seen found : List ι) : Prop where
  kept : ∀ x ∈ seen, x ∈ found
  closed : ∀ x ∈ found, ∀ y ∈ next x, y ∈ found
  reached : ∀ x ∈ found, x ∈ seen ∨ ∃ s ∈ frontier, Relation.TransGen (fun a b => b ∈ next a) s x
  nodup : seen.Nodup → found.Nodup

lemma found_visit {places : List ι} (hplaces : places.Nodup) (hnext : ∀ x, ∀ y ∈ next x, y ∈ places) (fuel : ℕ)
    (frontier seen : List ι) (h : Waiting next frontier seen)
    (hfuel : frontier.length + (rest places seen).length ≤ fuel) :
    Found next frontier seen (visit d next fuel frontier seen) := by
  induction fuel generalizing frontier seen with
  | zero =>
    obtain rfl : frontier = [] := length_eq_zero_iff.mp (by omega)
    exact ⟨fun _ hx => hx, fun x hx => (h.closed x hx).resolve_left not_mem_nil, fun _ hx => .inl hx, id⟩
  | succ fuel ih =>
    cases frontier with
    | nil =>
      exact ⟨fun _ hx => hx, fun x hx => (h.closed x hx).resolve_left not_mem_nil, fun _ hx => .inl hx, id⟩
    | cons x frontier =>
      have hlength := length_rest_append places seen (fresh seen (next x))
        (fun y hy => ⟨hnext x y ((mem_fresh _ _ _).mp hy).1, ((mem_fresh _ _ _).mp hy).2⟩) (nodup_fresh _ _) hplaces
      have hfound := ih (d.join frontier (fresh seen (next x))) (seen ++ fresh seen (next x)) h.pop (by
        rw [d.length_join]
        rw [length_cons] at hfuel
        omega)
      refine ⟨fun y hy => hfound.kept y (mem_append_left _ hy), hfound.closed, ?_, ?_⟩
      · intro y hy
        rcases hfound.reached y hy with hy | ⟨s, hs, hpath⟩
        · rcases mem_append.mp hy with hy | hy
          · exact .inl hy
          · exact .inr ⟨x, mem_cons_self, .single ((mem_fresh _ _ _).mp hy).1⟩
        · rcases (d.mem_join _ _ _).mp hs with hs | hs
          · exact .inr ⟨s, mem_cons_of_mem _ hs, hpath⟩
          · exact .inr ⟨x, mem_cons_self, .head ((mem_fresh _ _ _).mp hs).1 hpath⟩
      · intro hseen
        apply hfound.nodup
        refine Nodup.append hseen (nodup_fresh _ _) ?_
        intro y hy hmem
        exact ((mem_fresh _ _ _).mp hmem).2 hy

omit [DecidableEq ι] in
lemma Found.of_reach {frontier seen found : List ι} (h : Found next frontier seen found) {x y : ι} (hx : x ∈ found)
    (hpath : Relation.ReflTransGen (fun a b => b ∈ next a) x y) : y ∈ found := by
  induction hpath with
  | refl => exact hx
  | tail _ hstep ih => exact h.closed _ ih _ hstep

def reach (d : Discipline) (next : ι → List ι) (fuel : ℕ) (starts : List ι) : List ι :=
  visit d next fuel (d.join [] (fresh [] starts)) (fresh [] starts)

lemma mem_fresh_nil (starts : List ι) (x : ι) : x ∈ fresh [] starts ↔ x ∈ starts := by
  rw [mem_fresh]
  simp

section

variable {places : List ι} (hplaces : places.Nodup) (hnext : ∀ x, ∀ y ∈ next x, y ∈ places) {fuel : ℕ}
  {starts : List ι} (hstarts : ∀ x ∈ starts, x ∈ places) (hfuel : places.length ≤ fuel)

include hplaces hnext hstarts hfuel

lemma found_reach : Found next (d.join [] (fresh [] starts)) (fresh [] starts) (reach d next fuel starts) := by
  have hlength := length_rest_append places [] (fresh [] starts)
    (fun x hx => ⟨hstarts x ((mem_fresh_nil _ x).mp hx), not_mem_nil⟩) (nodup_fresh _ _) hplaces
  apply found_visit hplaces hnext
  · refine ⟨?_, ?_⟩
    · intro x hx
      simpa using (d.mem_join _ _ _).mp hx
    · intro x hx
      exact .inl ((d.mem_join _ _ _).mpr (.inr hx))
  · have hle : (rest places []).length ≤ places.length := length_filter_le _ _
    rw [nil_append] at hlength
    rw [d.length_join, length_nil]
    omega

lemma mem_reach (y : ι) :
    y ∈ reach d next fuel starts ↔ ∃ x ∈ starts, Relation.ReflTransGen (fun a b => b ∈ next a) x y := by
  have hfound := found_reach (d := d) hplaces hnext hstarts hfuel
  constructor
  · intro hy
    rcases hfound.reached y hy with hy | ⟨s, hs, hpath⟩
    · exact ⟨y, (mem_fresh_nil _ y).mp hy, .refl⟩
    · rw [d.mem_join, mem_fresh_nil] at hs
      exact ⟨s, hs.resolve_left not_mem_nil, hpath.to_reflTransGen⟩
  · rintro ⟨x, hx, hpath⟩
    exact hfound.of_reach (hfound.kept x ((mem_fresh_nil _ x).mpr hx)) hpath

lemma nodup_reach : (reach d next fuel starts).Nodup :=
  (found_reach hplaces hnext hstarts hfuel).nodup (nodup_fresh _ _)

end

variable {ι : Type} [DecidableEq ι]

section

variable (next : ι → List ι)

def spread : ℕ → List ι → List (ι × ℕ) → List (ι × ℕ)
  | _, [], marked => marked
  | 0, _ :: _, marked => marked
  | fuel + 1, x :: queue, marked =>
    let found := fresh (marked.map Prod.fst) (next x)
    let level := (marked.lookup x).getD 0
    spread fuel (queue ++ found) (marked ++ found.map fun y => (y, level + 1))

def levelsFrom (fuel : ℕ) (start : ι) : List (ι × ℕ) := spread next fuel [start] [(start, 0)]

structure Levelled (start : ι) (marked : List (ι × ℕ)) : Prop where
  led : ∀ p ∈ marked, p = (start, 0) ∨ ∃ q ∈ marked, p.1 ∈ next q.1 ∧ p.2 = q.2 + 1
  below : ∀ p ∈ marked, p.2 < marked.length

end

variable {next : ι → List ι}

omit [DecidableEq ι] in
lemma map_fst_level (found : List ι) (level : ℕ) : (found.map fun y => (y, level)).map Prod.fst = found := by
  rw [map_map]
  exact map_id found

variable (fuel : ℕ)

lemma map_fst_spread (queue : List ι) (marked : List (ι × ℕ)) :
    (spread next fuel queue marked).map Prod.fst = visit .queue next fuel queue (marked.map Prod.fst) := by
  induction fuel generalizing queue marked with
  | zero => cases queue <;> rfl
  | succ fuel ih =>
    cases queue with
    | nil => rfl
    | cons x queue =>
      unfold spread visit
      rw [ih, map_append, map_fst_level]
      rfl

variable {marked : List (ι × ℕ)}

lemma lookup_of_mem (hkeys : (marked.map Prod.fst).Nodup) {p : ι × ℕ} (hp : p ∈ marked) :
    marked.lookup p.1 = some p.2 := by
  induction marked with
  | nil => exact absurd hp not_mem_nil
  | cons q marked ih =>
    obtain ⟨hfresh, hkeys⟩ := nodup_cons.mp hkeys
    rcases mem_cons.mp hp with rfl | hp
    · exact lookup_cons_self
    · have hne : p.1 ≠ q.1 := by
        intro heq
        exact hfresh (heq ▸ mem_map_of_mem hp)
      rw [lookup_cons, beq_false_of_ne hne]
      exact ih hkeys hp

variable (next) in
lemma spread_append (fuel : ℕ) (queue : List ι) (marked : List (ι × ℕ)) :
    ∃ found, spread next fuel queue marked = marked ++ found := by
  induction fuel generalizing queue marked with
  | zero => cases queue <;> exact ⟨[], (append_nil _).symm⟩
  | succ fuel ih =>
    cases queue with
    | nil => exact ⟨[], (append_nil _).symm⟩
    | cons x queue =>
      unfold spread
      obtain ⟨found, hfound⟩ := ih (queue ++ fresh (marked.map Prod.fst) (next x)) (marked ++
        (fresh (marked.map Prod.fst) (next x)).map fun y => (y, (marked.lookup x).getD 0 + 1))
      exact ⟨_, hfound.trans (append_assoc _ _ _)⟩

lemma lookup_levelsFrom_start (start : ι) : (levelsFrom next fuel start).lookup start = some 0 := by
  obtain ⟨found, hfound⟩ := spread_append next fuel [start] [(start, 0)]
  unfold levelsFrom
  rw [hfound]
  exact lookup_cons_self

lemma mem_of_lookup {x : ι} {level : ℕ} (h : marked.lookup x = some level) : (x, level) ∈ marked := by
  obtain ⟨before, after, rfl, -⟩ := lookup_eq_some_iff.mp h
  simp

omit [DecidableEq ι] in
lemma Levelled.led_append {start : ι} {marked found : List (ι × ℕ)} (h : Levelled next start marked) {q : ι × ℕ}
    (hq : q ∈ marked) (hfound : ∀ p ∈ found, p.1 ∈ next q.1 ∧ p.2 = q.2 + 1) :
    Levelled next start (marked ++ found) where
  led p hp := by
    rcases mem_append.mp hp with hp | hp
    · rcases h.led p hp with hstart | ⟨q, hq, hled⟩
      · exact .inl hstart
      · exact .inr ⟨q, mem_append_left _ hq, hled⟩
    · exact .inr ⟨q, mem_append_left _ hq, hfound p hp⟩
  below p hp := by
    rw [length_append]
    rcases mem_append.mp hp with hp | hp
    · have := h.below p hp
      omega
    · have hlevel := h.below q hq
      have hone := length_pos_of_mem hp
      rw [(hfound p hp).2]
      omega

lemma levelled_spread {start : ι} (queue : List ι) (marked : List (ι × ℕ))
    (hkeys : (marked.map Prod.fst).Nodup) (hqueue : ∀ x ∈ queue, x ∈ marked.map Prod.fst)
    (h : Levelled next start marked) : Levelled next start (spread next fuel queue marked) := by
  induction fuel generalizing queue marked with
  | zero => cases queue <;> exact h
  | succ fuel ih =>
    cases queue with
    | nil => exact h
    | cons x queue =>
      unfold spread
      obtain ⟨q, hq, hqx⟩ := mem_map.mp (hqueue x mem_cons_self)
      have hlookup := lookup_of_mem hkeys hq
      rw [hqx] at hlookup
      simp only [hlookup, Option.getD_some]
      apply ih
      · rw [map_append, map_fst_level]
        refine Nodup.append hkeys (nodup_fresh _ _) ?_
        intro y hy hmem
        exact ((mem_fresh _ _ _).mp hmem).2 hy
      · intro y hy
        rw [map_append, map_fst_level, mem_append]
        rcases mem_append.mp hy with hy | hy
        · exact .inl (hqueue y (mem_cons_of_mem _ hy))
        · exact .inr hy
      · apply h.led_append hq
        intro p hp
        obtain ⟨y, hy, rfl⟩ := mem_map.mp hp
        exact ⟨hqx ▸ ((mem_fresh _ _ _).mp hy).1, rfl⟩

section

variable {places : List ι} (hplaces : places.Nodup) (hnext : ∀ x, ∀ y ∈ next x, y ∈ places) {fuel} {start : ι}
  (hstart : start ∈ places) (hfuel : places.length ≤ fuel)

lemma map_fst_levelsFrom (fuel : ℕ) (start : ι) :
    (levelsFrom next fuel start).map Prod.fst = reach .queue next fuel [start] := by
  unfold levelsFrom
  rw [map_fst_spread]
  rfl

lemma levelled_levelsFrom (fuel : ℕ) (start : ι) : Levelled next start (levelsFrom next fuel start) := by
  apply levelled_spread
  · simp
  · simp
  · refine ⟨?_, ?_⟩
    · intro p hp
      exact .inl (mem_singleton.mp hp)
    · intro p hp
      rw [mem_singleton.mp hp]
      exact Nat.one_pos

include hplaces hnext hstart hfuel

lemma nodup_levelsFrom : ((levelsFrom next fuel start).map Prod.fst).Nodup := by
  rw [map_fst_levelsFrom]
  exact nodup_reach hplaces hnext (by simpa using hstart) hfuel

lemma length_levelsFrom_le : (levelsFrom next fuel start).length ≤ places.length := by
  rw [← length_map Prod.fst]
  apply Subperm.length_le
  refine (nodup_levelsFrom hplaces hnext hstart hfuel).subperm ?_
  intro y hy
  rw [map_fst_levelsFrom, mem_reach hplaces hnext (by simpa using hstart) hfuel] at hy
  obtain ⟨x, hx, hpath⟩ := hy
  rcases Relation.ReflTransGen.cases_tail hpath with rfl | ⟨z, -, hstep⟩
  · rwa [mem_singleton.mp hx]
  · exact hnext z y hstep

end

end Search
