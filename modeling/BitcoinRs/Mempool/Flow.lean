import BitcoinRs.Library.Fallible
import BitcoinRs.Library.Search
import Mathlib.Algebra.BigOperators.Group.List.Basic
import Mathlib.Algebra.GroupWithZero.Nat
import Mathlib.Order.Nat

namespace BitcoinRs.Mempool

open Fallible List Search Function Nat

inductive FeeDiagramError
  | arithmetic
  | weight
  | dependencies
  /-- A loop of the model that did not stop within its fuel; the source has no such error. -/
  | fuel
  deriving DecidableEq

structure Edge where
  target : ℕ
  reverse : ℕ
  capacity : ℕ

structure Flow where
  edges : List (List Edge)

namespace Flow

def new (nodes : ℕ) : Flow := ⟨replicate nodes []⟩

section

variable (flow : Flow) (node : ℕ)

def row : List Edge := flow.edges.getD node []

def add (start stop capacity : ℕ) : Flow :=
  let forward := (flow.row start).length
  let reverse := (flow.row stop).length
  let edges := flow.edges.modify start (· ++ [⟨stop, reverse, capacity⟩])
  ⟨edges.modify stop (· ++ [⟨start, forward, 0⟩])⟩

def cap (node index : ℕ) : ℕ := ((flow.row node)[index]?.map Edge.capacity).getD 0

def residual : List ℕ := ((flow.row node).filter (0 < ·.capacity)).map Edge.target

def reachable (start : ℕ) : List ℕ := Search.reach .queue flow.residual flow.edges.length [start]

def backward : List ℕ := ((flow.row node).filter fun edge => 0 < flow.cap edge.target edge.reverse).map Edge.target

def reverseReachable (start : ℕ) : List ℕ := Search.reach .queue flow.backward flow.edges.length [start]

/-- The nodes that have a level, each with it; the others stand at `usize::MAX` in the source. -/
def levels (source : ℕ) : List (ℕ × ℕ) := Search.levelsFrom flow.residual flow.edges.length source

end

def above (levels : List (ℕ × ℕ)) (node target : ℕ) : Bool :=
  (levels.lookup node).any fun level => levels.lookup target = some (level + 1)

variable (flow : Flow)

def push (node index : ℕ) (edge : Edge) (sent : ℕ) : Flow :=
  let take := fun e : Edge => { e with capacity := e.capacity - sent }
  let give := fun e : Edge => { e with capacity := e.capacity + sent }
  ⟨(flow.edges.modify node (·.modify index take)).modify edge.target (·.modify edge.reverse give)⟩

structure Sent where
  flow : Flow
  next : ℕ → ℕ
  sent : ℕ

def scan (send : Flow → (ℕ → ℕ) → ℕ → ℕ → Except FeeDiagramError Sent) (levels : List (ℕ × ℕ)) (node amount : ℕ) :
    ℕ → Flow → (ℕ → ℕ) → Except FeeDiagramError Sent
  | 0, _, _ => .error .fuel
  | fuel + 1, flow, next =>
    match (flow.row node)[next node]? with
    | none => .ok ⟨flow, next, 0⟩
    | some edge =>
      if 0 < edge.capacity && above levels node edge.target then do
        let r ← send flow next edge.target (min amount edge.capacity)
        if 0 < r.sent then .ok ⟨r.flow.push node (next node) edge r.sent, r.next, r.sent⟩
        else scan send levels node amount fuel r.flow (update r.next node (r.next node + 1))
      else scan send levels node amount fuel flow (update next node (next node + 1))

def send (sink : ℕ) (levels : List (ℕ × ℕ)) : ℕ → Flow → (ℕ → ℕ) → ℕ → ℕ → Except FeeDiagramError Sent
  | 0, _, _, _, _ => .error .fuel
  | depth + 1, flow, next, node, amount =>
    if node = sink then .ok ⟨flow, next, amount⟩
    else scan (send sink levels depth) levels node amount ((flow.row node).length + 1) flow next

def drain (source sink bound : ℕ) (levels : List (ℕ × ℕ)) :
    ℕ → Flow → (ℕ → ℕ) → ℕ → Except FeeDiagramError (Flow × ℕ)
  | 0, _, _, _ => .error .fuel
  | fuel + 1, flow, next, total => do
    let r ← send sink levels flow.edges.length flow next source (bound - total)
    if r.sent = 0 then .ok (r.flow, total)
    else drain source sink bound levels fuel r.flow r.next (total + r.sent)

def phases (source sink bound : ℕ) : ℕ → Flow → ℕ → Except FeeDiagramError (Flow × ℕ)
  | 0, _, _ => .error .fuel
  | fuel + 1, flow, total =>
    if total < bound then
      let levels := flow.levels source
      if levels.lookup sink = none then .ok (flow, total)
      else do
        let r ← drain source sink bound levels (bound - total + 1) flow (fun _ => 0) total
        phases source sink bound fuel r.1 r.2
    else .ok (flow, total)

def maximum (source sink bound : ℕ) : Except FeeDiagramError (Flow × ℕ) := phases source sink bound (bound + 1) flow 0

def out (node : ℕ) : ℕ := ((flow.row node).map Edge.capacity).sum

def Paired : Prop :=
  ∀ (node index : ℕ) (edge : Edge), (flow.row node)[index]? = some edge →
    ∃ back : Edge, (flow.row edge.target)[edge.reverse]? = some back ∧ back.target = node ∧ back.reverse = index

def ends (edge : Edge) : ℕ × ℕ := (edge.target, edge.reverse)

structure SameShape (flow flow' : Flow) : Prop where
  nodes : flow'.edges.length = flow.edges.length
  ends : ∀ node, (flow'.row node).map ends = (flow.row node).map ends

lemma SameShape.refl : SameShape flow flow := ⟨rfl, fun _ => rfl⟩

variable {flow} {flow' flow'' : Flow}

lemma SameShape.symm (h : SameShape flow flow') : SameShape flow' flow := ⟨h.nodes.symm, fun node => (h.ends node).symm⟩

section

variable (h : SameShape flow flow')

include h

lemma SameShape.trans (h' : SameShape flow' flow'') : SameShape flow flow'' :=
  ⟨h'.nodes.trans h.nodes, fun node => (h'.ends node).trans (h.ends node)⟩

lemma SameShape.edge {node index : ℕ} {edge : Edge} (hedge : (flow.row node)[index]? = some edge) :
    ∃ edge', (flow'.row node)[index]? = some edge' ∧ edge'.target = edge.target ∧ edge'.reverse = edge.reverse := by
  have hends := congrArg (fun l => l[index]?) (h.ends node)
  simp only [getElem?_map, hedge, Option.map_some] at hends
  obtain ⟨edge', hedge', heq⟩ := Option.map_eq_some_iff.mp hends
  exact ⟨edge', hedge', congrArg Prod.fst heq, congrArg Prod.snd heq⟩

lemma SameShape.length_row (node : ℕ) : (flow'.row node).length = (flow.row node).length := by
  have := congrArg length (h.ends node)
  rwa [length_map, length_map] at this

lemma SameShape.paired (hpaired : flow.Paired) : flow'.Paired := by
  intro node index edge' hedge'
  obtain ⟨edge, hedge, hto, hreverse⟩ := h.symm.edge hedge'
  obtain ⟨back, hback, hbackTo, hbackReverse⟩ := hpaired node index edge hedge
  obtain ⟨back', hback', hto', hreverse'⟩ := h.edge hback
  refine ⟨back', ?_, hto'.trans hbackTo, hreverse'.trans hbackReverse⟩
  rwa [← hto, ← hreverse]

end

structure Routed (source sink : ℕ) (flow flow' : Flow) (amount : ℕ) : Prop where
  shape : SameShape flow flow'
  balanced : ∀ node index edge, (flow.row node)[index]? = some edge →
    flow'.cap node index + flow'.cap edge.target edge.reverse = flow.cap node index + flow.cap edge.target edge.reverse
  out : ∀ node, flow'.out node + (if node = source then amount else 0) =
    flow.out node + (if node = sink then amount else 0)

lemma Routed.refl (source sink : ℕ) (flow : Flow) : Routed source sink flow flow 0 :=
  ⟨.refl flow, fun _ _ _ _ => rfl, fun _ => by simp⟩

lemma Routed.trans {source middle sink : ℕ} {amount : ℕ}
    (h : Routed middle sink flow flow' amount) (h' : Routed source middle flow' flow'' amount) :
    Routed source sink flow flow'' amount where
  shape := h.shape.trans h'.shape
  balanced node index edge hedge := by
    obtain ⟨edge', hedge', hto, hreverse⟩ := h.shape.edge hedge
    have hlater := h'.balanced node index edge' hedge'
    rw [hto, hreverse] at hlater
    rw [hlater, h.balanced node index edge hedge]
  out node := by
    rw [h'.out node, h.out node]

lemma Routed.add {source sink : ℕ} {amount amount' : ℕ}
    (h : Routed source sink flow flow' amount) (h' : Routed source sink flow' flow'' amount') :
    Routed source sink flow flow'' (amount + amount') where
  shape := h.shape.trans h'.shape
  balanced node index edge hedge := by
    obtain ⟨edge', hedge', hto, hreverse⟩ := h.shape.edge hedge
    have hlater := h'.balanced node index edge' hedge'
    rw [hto, hreverse] at hlater
    rw [hlater, h.balanced node index edge hedge]
  out node := by
    have hfirst := h.out node
    have hsecond := h'.out node
    rw [ite_add_zero, ite_add_zero]
    omega

lemma row_modify (edges : List (List Edge)) (node node' : ℕ) (f : List Edge → List Edge)
    (hf : f [] = [] ∨ node < edges.length) :
    (⟨edges.modify node f⟩ : Flow).row node' =
      if node' = node then f ((⟨edges⟩ : Flow).row node') else (⟨edges⟩ : Flow).row node' := by
  unfold row
  simp only [getD_eq_getElem?_getD, getElem?_modify]
  by_cases hnode : node' = node
  · subst hnode
    cases h : edges[node']? with
    | none =>
      have hge := getElem?_eq_none_iff.mp h
      simp [hf.resolve_right (by omega)]
    | some l => simp
  · simp [hnode, Ne.symm hnode]

lemma row_push (flow : Flow) (node index : ℕ) (edge : Edge) (sent node' : ℕ) (hne : edge.target ≠ node) :
    (flow.push node index edge sent).row node' =
      if node' = node then (flow.row node).modify index fun e => { e with capacity := e.capacity - sent }
      else if node' = edge.target then
        (flow.row edge.target).modify edge.reverse fun e => { e with capacity := e.capacity + sent }
      else flow.row node' := by
  unfold push
  rw [row_modify _ _ _ _ (.inl (by simp)), row_modify _ _ _ _ (.inl (by simp))]
  by_cases hnode : node' = node
  · subst hnode
    simp [hne.symm]
  · by_cases hto : node' = edge.target
    · subst hto
      simp [hne]
    · simp [hnode, hto]

lemma sum_modify (l : List Edge) (index : ℕ) (edge : Edge) (f : Edge → Edge) (hedge : l[index]? = some edge) :
    ((l.modify index f).map Edge.capacity).sum + edge.capacity = (l.map Edge.capacity).sum + (f edge).capacity := by
  induction l generalizing index with
  | nil => simp at hedge
  | cons e l ih =>
    cases index with
    | zero =>
      obtain rfl : e = edge := by simpa using hedge
      simp only [modify_zero_cons, map_cons, sum_cons]
      omega
    | succ index =>
      have := ih index (by simpa using hedge)
      simp only [modify_succ_cons, map_cons, sum_cons]
      omega

section

variable {node index : ℕ} {edge : Edge} {sent : ℕ} (hpaired : flow.Paired)
  (hedge : (flow.row node)[index]? = some edge) (hne : edge.target ≠ node) (hsent : sent ≤ edge.capacity)

include hne

lemma sameShape_push : SameShape flow (flow.push node index edge sent) where
  nodes := by simp [push]
  ends node' := by
    have hmodify : ∀ (l : List Edge) (i : ℕ) (f : Edge → Edge), (∀ e, ends (f e) = ends e) →
        (l.modify i f).map ends = l.map ends := by
      intro l i f hf
      apply ext_getElem?
      intro j
      simp only [getElem?_map, getElem?_modify]
      cases l[j]? with
      | none => simp
      | some e =>
        by_cases hij : i = j
        · simp [hij, hf]
        · simp [hij]
    rw [row_push _ _ _ _ _ _ hne]
    split
    · rename_i hnode
      rw [hnode]
      exact hmodify _ _ _ fun _ => rfl
    · split
      · rename_i hto
        rw [hto]
        exact hmodify _ _ _ fun _ => rfl
      · rfl

include hpaired hedge

lemma cap_push (node' index' : ℕ) :
    (flow.push node index edge sent).cap node' index' =
      if node' = node ∧ index' = index then flow.cap node index - sent
      else if node' = edge.target ∧ index' = edge.reverse then flow.cap edge.target edge.reverse + sent
      else flow.cap node' index' := by
  obtain ⟨back, hback, -, -⟩ := hpaired node index edge hedge
  unfold cap
  rw [row_push _ _ _ _ _ _ hne]
  by_cases hnode : node' = node
  · subst hnode
    by_cases hindex : index' = index
    · subst hindex
      simp [hedge]
    · simp [hindex, Ne.symm hindex, hne.symm]
  · by_cases hto : node' = edge.target
    · subst hto
      simp only [hne, if_false, if_true, getElem?_modify, false_and, true_and]
      by_cases hindex : index' = edge.reverse
      · subst hindex
        simp [hback]
      · simp [hindex, Ne.symm hindex]
    · simp [hnode, hto]

include hsent in
lemma routed_push : Routed node edge.target flow (flow.push node index edge sent) sent where
  shape := sameShape_push hne
  balanced node' index' edge' hedge' := by
    have hcap : flow.cap node index = edge.capacity := by simp [cap, hedge]
    obtain ⟨back, hback, hbackTo, hbackReverse⟩ := hpaired node index edge hedge
    obtain ⟨back', hback', hbackTo', hbackReverse'⟩ := hpaired node' index' edge' hedge'
    simp only [cap_push hpaired hedge hne]
    by_cases hforward : node' = node ∧ index' = index
    · obtain ⟨rfl, rfl⟩ := hforward
      obtain rfl : edge = edge' := Option.some.inj (hedge.symm.trans hedge')
      simp only [hne, false_and, if_false, and_self, if_true]
      omega
    · by_cases hbackward : node' = edge.target ∧ index' = edge.reverse
      · obtain ⟨rfl, rfl⟩ := hbackward
        obtain rfl : back = edge' := Option.some.inj (hback.symm.trans hedge')
        rw [hbackTo, hbackReverse]
        simp only [hne, false_and, if_false, and_self, if_true]
        omega
      · -- the reverse of another edge is another edge
        have hforward' : ¬(edge'.target = node ∧ edge'.reverse = index) := by
          rintro ⟨hto, hreverse⟩
          rw [hto, hreverse, hedge] at hback'
          obtain rfl := Option.some.inj hback'
          exact hbackward ⟨hbackTo'.symm, hbackReverse'.symm⟩
        have hbackward' : ¬(edge'.target = edge.target ∧ edge'.reverse = edge.reverse) := by
          rintro ⟨hto, hreverse⟩
          rw [hto, hreverse, hback] at hback'
          obtain rfl := Option.some.inj hback'
          exact hforward ⟨hbackTo'.symm.trans hbackTo, hbackReverse'.symm.trans hbackReverse⟩
        rw [if_neg hforward, if_neg hbackward, if_neg hforward', if_neg hbackward']
  out node' := by
    obtain ⟨back, hback, -, -⟩ := hpaired node index edge hedge
    unfold out
    rw [row_push _ _ _ _ _ _ hne]
    by_cases hnode : node' = node
    · subst hnode
      have := sum_modify (flow.row node') index edge (fun e => { e with capacity := e.capacity - sent }) hedge
      simp only [if_true, hne.symm, if_false] at this ⊢
      omega
    · by_cases hto : node' = edge.target
      · subst hto
        have := sum_modify (flow.row edge.target) edge.reverse back (fun e =>
          { e with capacity := e.capacity + sent }) hback
        simp only [if_true, hne, if_false] at this ⊢
        omega
      · simp [hnode, hto]

end

section

variable (sink : ℕ) (levels : List (ℕ × ℕ))

def Leads (flow : Flow) (a b : ℕ) : Prop := ∃ edge ∈ flow.row a, 0 < edge.capacity ∧ above levels a b ∧ edge.target = b

def CanSend (flow : Flow) (node : ℕ) : Prop := Relation.ReflTransGen (flow.Leads levels) node sink

def DeadEnds (flow : Flow) (next : ℕ → ℕ) : Prop :=
  ∀ node index edge, index < next node → (flow.row node)[index]? = some edge → 0 < edge.capacity →
    above levels node edge.target → ¬flow.CanSend sink levels edge.target

structure Pushed (flow : Flow) (next : ℕ → ℕ) (node level amount : ℕ) (r : Sent) : Prop where
  routed : Routed node sink flow r.flow r.sent
  le : r.sent ≤ amount
  frame : ∀ v k, levels.lookup v = some k → k < level → r.next v = next v ∧ r.flow.row v = flow.row v
  idle : r.sent = 0 → r.flow = flow
  dead : 0 < amount → r.sent = 0 → flow.DeadEnds sink levels next →
    flow.DeadEnds sink levels r.next ∧ ¬flow.CanSend sink levels node

variable {sink levels} {next : ℕ → ℕ} {node level amount : ℕ}

lemma above_iff {a b k : ℕ} (ha : levels.lookup a = some k) :
    above levels a b = true ↔ levels.lookup b = some (k + 1) := by
  simp [above, ha]

lemma DeadEnds.not_canSend (h : flow.DeadEnds sink levels next) {node : ℕ} (hnode : node ≠ sink)
    (hpassed : (flow.row node).length ≤ next node) : ¬flow.CanSend sink levels node := by
  intro hpath
  rcases Relation.ReflTransGen.cases_head hpath with heq | ⟨b, ⟨edge, hedge, hcapacity, habove, rfl⟩, hrest⟩
  · exact hnode heq
  · obtain ⟨index, hindex, hget⟩ := getElem_of_mem hedge
    exact h node index edge (by omega) (List.getElem?_eq_some_iff.mpr ⟨hindex, hget⟩) hcapacity habove hrest

lemma DeadEnds.pass (h : flow.DeadEnds sink levels next) {node : ℕ} {edge : Edge}
    (hedge : (flow.row node)[next node]? = some edge)
    (hdead : 0 < edge.capacity → above levels node edge.target → ¬flow.CanSend sink levels edge.target) :
    flow.DeadEnds sink levels (update next node (next node + 1)) := by
  intro v index e hindex he hcapacity habove
  by_cases hv : v = node
  · subst hv
    rw [update_self] at hindex
    rcases lt_or_ge index (next v) with hlt | hge
    · exact h v index e hlt he hcapacity habove
    · obtain rfl : index = next v := by omega
      obtain rfl : edge = e := Option.some.inj (hedge.symm.trans he)
      exact hdead hcapacity habove
  · rw [update_of_ne hv] at hindex
    exact h v index e hindex he hcapacity habove

lemma Pushed.of_pass {next passed : ℕ → ℕ} {r : Sent} (hlevel : levels.lookup node = some level)
    (h : Pushed sink levels flow (update passed node (passed node + 1)) node level amount r)
    (hframe : ∀ v k, levels.lookup v = some k → k < level → passed v = next v)
    (hdead : 0 < amount → flow.DeadEnds sink levels next →
      flow.DeadEnds sink levels (update passed node (passed node + 1))) :
    Pushed sink levels flow next node level amount r where
  routed := h.routed
  le := h.le
  frame v k hv hk := by
    obtain ⟨hnext, hrow⟩ := h.frame v k hv hk
    have hne : v ≠ node := by
      rintro rfl
      rw [hlevel] at hv
      injection hv
      omega
    rw [update_of_ne hne, hframe v k hv hk] at hnext
    exact ⟨hnext, hrow⟩
  idle := h.idle
  dead hamount hzero hends := h.dead hamount hzero (hdead hamount hends)

lemma Pushed.push {edge : Edge} {r : Sent} (hpaired : flow.Paired) (hlevel : levels.lookup node = some level)
    (hedge : (flow.row node)[next node]? = some edge) (hto : levels.lookup edge.target = some (level + 1))
    (h : Pushed sink levels flow next edge.target (level + 1) (min amount edge.capacity) r) (hsent : 0 < r.sent) :
    Pushed sink levels flow next node level amount
      ⟨r.flow.push node (next node) edge r.sent, r.next, r.sent⟩ := by
  have hne : edge.target ≠ node := by
    intro heq
    rw [heq, hlevel] at hto
    injection hto
    omega
  obtain ⟨-, hrow⟩ := h.frame node level hlevel (lt_succ_self level)
  have hedge' : (r.flow.row node)[next node]? = some edge := by rw [hrow, hedge]
  have hcapacity : r.sent ≤ edge.capacity := le_trans h.le (min_le_right _ _)
  refine ⟨?_, le_trans h.le (min_le_left _ _), ?_, ?_, ?_⟩
  · exact h.routed.trans (routed_push (h.routed.shape.paired hpaired) hedge' hne hcapacity)
  · intro v k hv hk
    obtain ⟨hnext, hvrow⟩ := h.frame v k hv (by omega)
    refine ⟨hnext, ?_⟩
    have hvnode : v ≠ node := by
      rintro rfl
      rw [hlevel] at hv
      injection hv
      omega
    have hvto : v ≠ edge.target := by
      rintro rfl
      rw [hto] at hv
      injection hv
      omega
    rw [row_push _ _ _ _ _ _ hne, if_neg hvnode, if_neg hvto, hvrow]
  · intro hzero
    exact absurd hzero hsent.ne'
  · intro _ hzero
    exact absurd hzero hsent.ne'

lemma scan_pushed {rec : Flow → (ℕ → ℕ) → ℕ → ℕ → Except FeeDiagramError Sent} (hnode : node ≠ sink)
    (hlevel : levels.lookup node = some level) (hpaired : flow.Paired)
    (hrec : ∀ next target amount, levels.lookup target = some (level + 1) →
      ∃ r, rec flow next target amount = .ok r ∧ Pushed sink levels flow next target (level + 1) amount r)
    (fuel : ℕ) (next : ℕ → ℕ) (hfuel : 0 < fuel) (hlength : (flow.row node).length < next node + fuel) :
    ∃ r, scan rec levels node amount fuel flow next = .ok r ∧
      Pushed sink levels flow next node level amount r := by
  -- the flow stays as it is until an edge is taken, so only the position changes
  induction fuel generalizing next with
  | zero => exact absurd hfuel (lt_irrefl 0)
  | succ fuel ih =>
    unfold scan
    cases hedge : (flow.row node)[next node]? with
    | none =>
      have hpassed := getElem?_eq_none_iff.mp hedge
      refine ⟨_, rfl, .refl _ _ _, zero_le _, fun _ _ _ _ => ⟨rfl, rfl⟩, fun _ => rfl, ?_⟩
      intro _ _ hends
      exact ⟨hends, hends.not_canSend hnode hpassed⟩
    | some edge =>
      have hindex := (List.getElem?_eq_some_iff.mp hedge).1
      have hgo : ∀ passed : ℕ → ℕ, passed node = next node →
          (flow.row node).length < update passed node (passed node + 1) node + fuel := by
        intro passed hpassed
        rw [update_self]
        omega
      dsimp only
      split
      · rename_i hadmissible
        obtain ⟨hcapacity, habove⟩ := Bool.and_eq_true_iff.mp hadmissible
        have hcapacity := of_decide_eq_true hcapacity
        have hto := (above_iff hlevel).mp habove
        obtain ⟨r, hr, hpushed⟩ := hrec next edge.target (min amount edge.capacity) hto
        rw [hr, ok_bind]
        split
        · rename_i hsent
          exact ⟨_, rfl, hpushed.push hpaired hlevel hedge hto hsent⟩
        · have hzero : r.sent = 0 := by omega
          obtain ⟨hnext, -⟩ := hpushed.frame node level hlevel (lt_succ_self level)
          rw [hpushed.idle hzero]
          obtain ⟨r', hr', hpushed'⟩ := ih (update r.next node (r.next node + 1)) (by omega)
            (hgo r.next hnext)
          refine ⟨r', hr', hpushed'.of_pass hlevel ?_ ?_⟩
          · intro v k hv hk
            exact (hpushed.frame v k hv (by omega)).1
          · intro hamount hends
            obtain ⟨hends', hdead⟩ := hpushed.dead (by omega) hzero hends
            exact hends'.pass (by rw [hnext, hedge]) fun _ _ => hdead
      · rename_i hadmissible
        obtain ⟨r', hr', hpushed'⟩ := ih (update next node (next node + 1)) (by omega) (hgo next rfl)
        refine ⟨r', hr', hpushed'.of_pass hlevel (fun _ _ _ _ => rfl) ?_⟩
        intro _ hends
        refine hends.pass hedge fun hcapacity habove => ?_
        simp [hcapacity, habove] at hadmissible

variable (sink) in
lemma send_pushed (depth : ℕ) (hpaired : flow.Paired) (next : ℕ → ℕ) (node level amount : ℕ)
    (hlevel : levels.lookup node = some level) (hdepth : ∀ v k, levels.lookup v = some k → k < level + depth) :
    ∃ r, send sink levels depth flow next node amount = .ok r ∧
      Pushed sink levels flow next node level amount r := by
  induction depth generalizing next node level amount with
  | zero =>
    have := hdepth node level hlevel
    omega
  | succ depth ih =>
    unfold send
    split
    · rename_i hnode
      refine ⟨_, rfl, ?_⟩
      subst hnode
      refine ⟨⟨.refl flow, fun _ _ _ _ => rfl, fun _ => rfl⟩, le_refl _, fun _ _ _ _ => ⟨rfl, rfl⟩, fun _ => rfl, ?_⟩
      intro hamount hzero
      exact absurd hzero hamount.ne'
    · rename_i hnode
      apply scan_pushed hnode hlevel hpaired _ _ _ (succ_pos _) (by omega)
      intro next target amount hto
      apply ih next target (level + 1) amount hto
      intro v k hv
      have := hdepth v k hv
      omega

end

section

variable {source sink bound : ℕ} {levels : List (ℕ × ℕ)}

variable (sink) in
lemma drain_routed (hsource : levels.lookup source = some 0) (fuel : ℕ) (hpaired : flow.Paired)
    (hdepth : ∀ v k, levels.lookup v = some k → k < flow.edges.length) (next : ℕ → ℕ) (total : ℕ)
    (htotal : total ≤ bound) (hfuel : bound - total < fuel) :
    ∃ r, drain source sink bound levels fuel flow next total = .ok r ∧ total ≤ r.2 ∧ r.2 ≤ bound ∧
      Routed source sink flow r.1 (r.2 - total) ∧
      (total < bound → flow.DeadEnds sink levels next → flow.CanSend sink levels source → total < r.2) := by
  induction fuel generalizing flow next total with
  | zero => omega
  | succ fuel ih =>
    obtain ⟨r, hr, hpushed⟩ := send_pushed sink flow.edges.length hpaired next source 0 (bound - total)
      hsource (by simpa using hdepth)
    have hle := hpushed.le
    unfold drain
    rw [hr, ok_bind]
    split
    · rename_i hzero
      refine ⟨_, rfl, Nat.le_refl _, htotal, ?_, ?_⟩
      · rw [Nat.sub_self, ← hzero]
        exact hpushed.routed
      · intro hroom hends hpath
        exact absurd hpath (hpushed.dead (by omega) hzero hends).2
    · rename_i hsent
      have hnodes := hpushed.routed.shape.nodes
      obtain ⟨r', hr', hgrown, hbound, hrouted, -⟩ := ih (hpushed.routed.shape.paired hpaired)
        (by rwa [hnodes]) r.next (total + r.sent) (by omega) (by omega)
      refine ⟨r', hr', by omega, hbound, ?_, fun _ _ _ => by omega⟩
      have := hpushed.routed.add hrouted
      rwa [show r.sent + (r'.2 - (total + r.sent)) = r'.2 - total by omega] at this

lemma lt_of_edge {node index : ℕ} {edge : Edge} (hedge : (flow.row node)[index]? = some edge) :
    node < flow.edges.length := by
  by_contra hge
  have hrow : flow.row node = [] := by
    unfold row
    rw [getD_eq_getElem?_getD, getElem?_eq_none (by omega)]
    rfl
  rw [hrow] at hedge
  cases hedge

lemma Paired.residual_lt (hpaired : flow.Paired) (x y : ℕ) (hy : y ∈ flow.residual x) :
    y ∈ range flow.edges.length := by
  obtain ⟨edge, hedge, rfl⟩ := mem_map.mp hy
  obtain ⟨index, hindex⟩ := mem_iff_getElem?.mp (mem_of_mem_filter hedge)
  obtain ⟨back, hback, -, -⟩ := hpaired x index edge hindex
  exact mem_range.mpr (lt_of_edge hback)

section

variable (hpaired : flow.Paired) (hsource : source < flow.edges.length)

include hpaired hsource

lemma nodup_levels : ((flow.levels source).map Prod.fst).Nodup :=
  nodup_levelsFrom nodup_range hpaired.residual_lt (mem_range.mpr hsource) (by simp)

lemma lookup_levels_lt (v k : ℕ) (hv : (flow.levels source).lookup v = some k) : k < flow.edges.length := by
  have hmem : (v, k) ∈ flow.levels source := mem_of_lookup hv
  have hbelow := (levelled_levelsFrom flow.edges.length source).below _ hmem
  have hlength : (flow.levels source).length ≤ (range flow.edges.length).length :=
    length_levelsFrom_le nodup_range hpaired.residual_lt (mem_range.mpr hsource) (by simp)
  rw [length_range] at hlength
  exact lt_of_lt_of_le hbelow hlength

lemma canSend_of_level (v k : ℕ) (hv : (v, k) ∈ flow.levels source) :
    Relation.ReflTransGen (flow.Leads (flow.levels source)) source v := by
  have hlookup := fun p hp => lookup_of_mem (p := p) (nodup_levels hpaired hsource) hp
  induction k generalizing v with
  | zero =>
    rcases (levelled_levelsFrom flow.edges.length source).led _ hv with hstart | ⟨q, -, -, hlevel⟩
    · obtain ⟨rfl, -⟩ := Prod.mk.inj hstart
      exact .refl
    · exact absurd hlevel (succ_ne_zero _).symm
  | succ k ih =>
    rcases (levelled_levelsFrom flow.edges.length source).led _ hv with hstart | ⟨⟨u, j⟩, hq, hled, hlevel⟩
    · exact absurd (Prod.ext_iff.mp hstart).2 (succ_ne_zero _)
    · obtain rfl : j = k := (succ.inj hlevel).symm
      refine (ih u hq).tail ?_
      obtain ⟨edge, hedge, hto⟩ := mem_map.mp hled
      obtain ⟨hedge, hcapacity⟩ := mem_filter.mp hedge
      exact ⟨edge, hedge, of_decide_eq_true hcapacity, (above_iff (hlookup _ hq)).mpr (hlookup _ hv), hto⟩

lemma mem_reachable (v : ℕ) :
    v ∈ flow.reachable source ↔ Relation.ReflTransGen (fun a b => b ∈ flow.residual a) source v := by
  unfold reachable
  rw [mem_reach nodup_range hpaired.residual_lt (by simpa using hsource) (by simp)]
  simp

lemma lookup_levels_eq_none (v : ℕ) : (flow.levels source).lookup v = none ↔ v ∉ flow.reachable source := by
  have hmem : v ∈ flow.reachable source ↔ v ∈ (flow.levels source).map Prod.fst := by
    unfold levels reachable
    rw [map_fst_levelsFrom]
  rw [hmem]
  constructor
  · intro hnone hv
    obtain ⟨p, hp, rfl⟩ := mem_map.mp hv
    rw [lookup_of_mem (nodup_levels hpaired hsource) hp] at hnone
    cases hnone
  · intro hv
    rw [Option.eq_none_iff_forall_ne_some]
    intro k hk
    exact hv (mem_map_of_mem (mem_of_lookup hk))

end

variable (sink) in
lemma phases_routed (fuel : ℕ) (hpaired : flow.Paired) (hsource : source < flow.edges.length) (total : ℕ)
    (htotal : total ≤ bound) (hfuel : bound - total < fuel) :
    ∃ r, phases source sink bound fuel flow total = .ok r ∧ total ≤ r.2 ∧ r.2 ≤ bound ∧
      Routed source sink flow r.1 (r.2 - total) ∧ (r.2 = bound ∨ sink ∉ r.1.reachable source) := by
  induction fuel generalizing flow total with
  | zero => omega
  | succ fuel ih =>
    unfold phases
    split
    · rename_i hroom
      dsimp only
      split
      · rename_i hnone
        refine ⟨_, rfl, Nat.le_refl _, htotal, ?_, .inr ((lookup_levels_eq_none hpaired hsource sink).mp hnone)⟩
        rw [Nat.sub_self]
        exact .refl _ _ _
      · rename_i hsome
        obtain ⟨k, hk⟩ := Option.ne_none_iff_exists'.mp hsome
        obtain ⟨r, hr, -, hbound, hrouted, hprogress⟩ := drain_routed sink
          (lookup_levelsFrom_start flow.edges.length source) (bound - total + 1) hpaired
          (lookup_levels_lt hpaired hsource) (fun _ => 0) total htotal (lt_succ_self _)
        -- nothing is passed yet, so a first path is found
        have hgrown := hprogress hroom (fun _ _ _ h => absurd h (not_lt_zero _))
          (canSend_of_level hpaired hsource sink k (mem_of_lookup hk))
        have hr' : drain source sink bound (flow.levels source) (bound - total + 1) flow (fun _ => 0) total = .ok r :=
          hr
        rw [hr', ok_bind]
        obtain ⟨r', hr', hmore, hbound', hrouted', hend⟩ := ih (hrouted.shape.paired hpaired)
          (by rwa [hrouted.shape.nodes]) r.2 hbound (by omega)
        refine ⟨r', hr', by omega, hbound', ?_, hend⟩
        have := hrouted.add hrouted'
        rwa [show r.2 - total + (r'.2 - r.2) = r'.2 - total by omega] at this
    · refine ⟨_, rfl, Nat.le_refl _, htotal, ?_, .inl (by omega)⟩
      rw [Nat.sub_self]
      exact .refl _ _ _

variable (source sink bound) in
lemma maximum_routed (hpaired : flow.Paired) (hsource : source < flow.edges.length) :
    ∃ r, flow.maximum source sink bound = .ok r ∧ r.2 ≤ bound ∧ Routed source sink flow r.1 r.2 ∧
      (r.2 = bound ∨ sink ∉ r.1.reachable source) := by
  obtain ⟨r, hr, -, hbound, hrouted, hend⟩ := phases_routed sink (bound + 1) hpaired hsource 0
    (zero_le bound) (lt_succ_self _)
  exact ⟨r, hr, hbound, hrouted, hend⟩

end

end Flow

end BitcoinRs.Mempool
