import BitcoinRs.Mempool.Flow
import Mathlib.Data.List.Count

namespace BitcoinRs.Mempool

open Function
open List (range idxOf_inj mem_filter not_mem_nil mem_append mem_singleton min?_mem mem_map)

def i32Max : ℕ := 2 ^ 31 - 1

def checkedI128 (value : ℤ) : Except FeeDiagramError ℤ :=
  if -2 ^ 127 ≤ value ∧ value < 2 ^ 127 then .ok value else .error .arithmetic

def checkedU128 (value : ℕ) : Except FeeDiagramError ℕ :=
  if value < 2 ^ 128 then .ok value else .error .arithmetic

structure FeeWeight where
  fee : ℤ
  weight : ℕ

namespace FeeWeight

def default : FeeWeight := ⟨0, 0⟩

def checkedAdd (total other : FeeWeight) : Except FeeDiagramError FeeWeight :=
  let weight := total.weight + other.weight
  if 2 ^ 32 ≤ weight then .error .arithmetic
  else if i32Max < weight then .error .weight
  else do
    let fee ← checkedI128 (total.fee + other.fee)
    let _ ← checkedI128 (fee * i32Max)
    .ok ⟨fee, weight⟩

def rateCmp (left right : FeeWeight) : Ordering := compare (left.fee * right.weight) (right.fee * left.weight)

end FeeWeight

structure Chunk where
  members : List ℕ
  total : FeeWeight

variable (fees : List FeeWeight)

def feeAt (index : ℕ) : FeeWeight := fees.getD index .default

def parentsOf (parents : List (List ℕ)) (index : ℕ) : List ℕ := parents.getD index []

def sumMembers (members : List ℕ) : Except FeeDiagramError FeeWeight :=
  members.foldlM (fun total index => total.checkedAdd (feeAt fees index)) .default

structure Queue where
  incoming : ℕ → ℕ
  ready : List ℕ
  ordered : List ℕ

def release (members : List ℕ) (queue : Queue) (child : ℕ) : Queue :=
  let incoming := update queue.incoming child (queue.incoming child - 1)
  if incoming child = 0 then { queue with incoming, ready := members.idxOf child :: queue.ready }
  else { queue with incoming }

section

variable (parents : List (List ℕ)) (members : List ℕ)

def childrenIn (member : ℕ) : List ℕ :=
  members.flatMap fun child => ((parentsOf parents child).filter (· = member)).map fun _ => child

def orderLoop : ℕ → Queue → Queue
  | 0, queue => queue
  | fuel + 1, queue =>
    match queue.ready.min? with
    | none => queue
    | some index =>
      let member := members.getD index 0
      let popped := { queue with ready := queue.ready.erase index, ordered := queue.ordered ++ [member] }
      orderLoop fuel ((childrenIn parents members member).foldl (release members) popped)

def topological : Except FeeDiagramError (List ℕ) :=
  if ¬(members.Nodup ∧ ∀ member ∈ members, member < parents.length) then .error .dependencies
  else if ¬∀ member ∈ members, ∀ parent ∈ parentsOf parents member, parent < parents.length then .error .dependencies
  else
    let incoming := fun member => ((parentsOf parents member).filter (· ∈ members)).length
    let ready := (members.filter fun member => incoming member = 0).map members.idxOf
    let queue := orderLoop parents members members.length ⟨incoming, ready, []⟩
    if queue.ordered.length ≠ members.length then .error .dependencies else .ok queue.ordered

end

variable (parents : List (List ℕ))

def validateNode (index : ℕ) : Except FeeDiagramError Unit :=
  let fee := feeAt fees index
  if fee.weight = 0 ∨ i32Max < fee.weight then .error .weight
  else do
    let _ ← FeeWeight.default.checkedAdd fee
    if (parentsOf parents index).any fun parent => fees.length ≤ parent ∨ parent = index then .error .dependencies
    else .ok ()

def validate : Except FeeDiagramError Unit :=
  if fees.length ≠ parents.length then .error .dependencies
  else do
    (range fees.length).foldlM (fun _ index => validateNode fees parents index) ()
    let members := range fees.length
    let _ ← sumMembers fees members
    let _ ← topological parents members
    .ok ()

def gainOver (rate fee : FeeWeight) : Except FeeDiagramError ℤ := do
  let candidateValue ← checkedI128 (fee.fee * rate.weight)
  let threshold ← checkedI128 (rate.fee * fee.weight)
  checkedI128 (candidateValue - threshold)

variable (remaining : ℕ → Bool)

def gainEdges (rate : FeeWeight) (acc : Flow × ℕ) (index : ℕ) : Except FeeDiagramError (Flow × ℕ) :=
  let source := fees.length
  let sink := source + 1
  if remaining index then do
    let gain ← gainOver rate (feeAt fees index)
    if 0 < gain then do
      let positive ← checkedU128 (acc.2 + gain.natAbs)
      .ok (acc.1.add source index gain.natAbs, positive)
    else if gain < 0 then .ok (acc.1.add index sink gain.natAbs, acc.2)
    else .ok acc
  else .ok acc

def linksIn : List (ℕ × ℕ) :=
  (range parents.length).flatMap fun child =>
    if remaining child then ((parentsOf parents child).filter remaining).map fun parent => (child, parent) else []

def closure (rate : FeeWeight) :
    Except FeeDiagramError (Flow × ℕ) := do
  let source := fees.length
  let sink := source + 1
  let (flow, positive) ← (range fees.length).foldlM (gainEdges fees remaining rate) (Flow.new (sink + 1), 0)
  let infinite ← checkedU128 (positive + 1)
  let flow := (linksIn parents remaining).foldl (fun flow link => flow.add link.1 link.2 infinite) flow
  let (flow, sent) ← flow.maximum source sink positive
  .ok (flow, positive - sent)

def raiseRate (members : List ℕ) :
    ℕ → FeeWeight → Except FeeDiagramError (Flow × FeeWeight)
  | 0, _ => .error .dependencies
  | rounds + 1, rate => do
    let (flow, gain) ← closure fees parents remaining rate
    if gain = 0 then .ok (flow, rate)
    else
      let reached := flow.reachable fees.length
      let next := members.filter (· ∈ reached)
      if next = [] then .error .dependencies
      else do
        let nextRate ← sumMembers fees next
        if nextRate.rateCmp rate ≠ .gt then .error .dependencies
        else raiseRate members rounds nextRate

def smaller (closed best : List ℕ) : Bool := closed.length < best.length || closed.length = best.length && closed < best

def pickMinimal (flow : Flow) (members reachesSink : List ℕ) (minimal : Option (List ℕ)) (member : ℕ) :
    Option (List ℕ) :=
  if member ∈ reachesSink then minimal
  else
    let reached := flow.reachable member
    let closed := members.filter (· ∈ reached)
    if minimal.all fun best => smaller closed best then some closed else minimal

section

def nextChunk (remaining : ℕ → Bool) :
    Except FeeDiagramError Chunk := do
  let members := (range fees.length).filter remaining
  let rate ← sumMembers fees members
  let (flow, rate) ← raiseRate fees parents remaining members (members.length + 1) rate
  let reachesSink := flow.reverseReachable (fees.length + 1)
  match members.foldl (pickMinimal flow members reachesSink) none with
  | none => .error .dependencies
  | some minimal => do
    let total ← sumMembers fees minimal
    if total.rateCmp rate ≠ .eq then .error .dependencies
    else do
      let members ← topological parents minimal
      .ok ⟨members, total⟩

def linearizeLoop :
    ℕ → (ℕ → Bool) → Except FeeDiagramError (List Chunk)
  | fuel, remaining =>
    if (range fees.length).any remaining then
      match fuel with
      | 0 => .error .fuel
      | fuel + 1 => do
        let chunk ← nextChunk fees parents remaining
        let chunks ← linearizeLoop fuel fun index => remaining index && index ∉ chunk.members
        .ok (chunk :: chunks)
    else .ok []

def linearize : Except FeeDiagramError (List Chunk) := do
  validate fees parents
  linearizeLoop fees parents fees.length fun _ => true

end

def InOrder (parents : List (List ℕ)) (order : List ℕ) : Prop := order.Pairwise fun a b => b ∉ parentsOf parents a

section

variable (members : List ℕ)

def waitsFor (ordered : List ℕ) (member : ℕ) : List ℕ :=
  (parentsOf parents member).filter fun parent => parent ∈ members ∧ parent ∉ ordered

structure Kahn (queue : Queue) (left : List ℕ) : Prop where
  readyNodup : queue.ready.Nodup
  ready : ∀ index ∈ queue.ready, ∃ member ∈ members, members.idxOf member = index ∧ member ∉ queue.ordered
  orderedNodup : queue.ordered.Nodup
  ordered : ∀ member ∈ queue.ordered, member ∈ members
  incoming : ∀ member ∈ members,
    queue.incoming member = (waitsFor parents members queue.ordered member).length + left.count member
  waiting : ∀ member ∈ members,
    queue.incoming member = 0 ↔ member ∈ queue.ordered ∨ members.idxOf member ∈ queue.ready
  inOrder : InOrder parents queue.ordered

variable {parents members} {queue : Queue} {left : List ℕ}

lemma count_childrenIn (hnodup : members.Nodup) (member : ℕ) {child : ℕ} (hchild : child ∈ members) :
    (childrenIn parents members member).count child = (parentsOf parents child).count member := by
  have hown : ∀ c, (((parentsOf parents c).filter (· = member)).map fun _ => c).count child =
      if c = child then (parentsOf parents c).count member else 0 := by
    intro c
    rw [List.map_const', List.count_replicate]
    by_cases hc : c = child
    · simp [List.count_eq_length_filter, beq_eq_decide]
    · simp [hc]
  unfold childrenIn
  rw [List.count_flatMap]
  have hsum : ∀ l : List ℕ, l.Nodup →
      (l.map (List.count child ∘ fun c => ((parentsOf parents c).filter (· = member)).map fun _ => c)).sum =
        if child ∈ l then (parentsOf parents child).count member else 0 := by
    intro l
    induction l with
    | nil => intro _; rfl
    | cons c l ih =>
      intro hl
      obtain ⟨hc, hl⟩ := List.nodup_cons.mp hl
      rw [List.map_cons, List.sum_cons, ih hl, comp_apply, hown]
      by_cases hcc : c = child
      · subst hcc
        simp [hc]
      · simp [hcc, Ne.symm hcc]
  rw [hsum members hnodup, if_pos hchild]

lemma Kahn.release {child : ℕ} (h : Kahn parents members queue (child :: left)) (hchild : child ∈ members) :
    Kahn parents members (release members queue child) left := by
  have hcount := h.incoming child hchild
  rw [List.count_cons_self] at hcount
  have hwaits : ¬(child ∈ queue.ordered ∨ members.idxOf child ∈ queue.ready) := by
    rw [← h.waiting child hchild]
    omega
  rw [not_or] at hwaits
  have hincoming : ∀ member ∈ members,
      update queue.incoming child (queue.incoming child - 1) member =
        (waitsFor parents members queue.ordered member).length + left.count member := by
    intro member hmember
    have hsame := h.incoming member hmember
    by_cases hm : member = child
    · subst hm
      rw [update_self]
      omega
    · rw [List.count_cons_of_ne (Ne.symm hm)] at hsame
      rw [update_of_ne hm, hsame]
  unfold Mempool.release
  dsimp only
  rw [update_self]
  split
  · rename_i hzero
    refine ⟨List.nodup_cons.mpr ⟨hwaits.2, h.readyNodup⟩, ?_, h.orderedNodup, h.ordered, hincoming, ?_, h.inOrder⟩
    · intro index hindex
      rcases List.mem_cons.mp hindex with rfl | hindex
      · exact ⟨child, hchild, rfl, hwaits.1⟩
      · exact h.ready index hindex
    · intro member hmember
      dsimp only
      by_cases hm : member = child
      · subst hm
        simp [hzero]
      · have hidx : members.idxOf member ≠ members.idxOf child := fun heq => hm ((idxOf_inj hmember).mp heq)
        rw [update_of_ne hm, h.waiting member hmember]
        simp [hidx]
  · rename_i hnonzero
    refine ⟨h.readyNodup, h.ready, h.orderedNodup, h.ordered, hincoming, ?_, h.inOrder⟩
    intro member hmember
    dsimp only
    by_cases hm : member = child
    · subst hm
      simp [hnonzero, hwaits]
    · rw [update_of_ne hm, h.waiting member hmember]

lemma Kahn.foldl_release (h : Kahn parents members queue left) (hleft : ∀ child ∈ left, child ∈ members) :
    Kahn parents members (left.foldl (Mempool.release members) queue) [] := by
  induction left generalizing queue with
  | nil => exact h
  | cons child left ih =>
    exact ih (h.release (hleft child List.mem_cons_self)) fun c hc => hleft c (List.mem_cons_of_mem _ hc)

lemma Kahn.parent_mem (h : Kahn parents members queue []) {member parent : ℕ} (hmember : member ∈ members)
    (hzero : queue.incoming member = 0) (hparent : parent ∈ parentsOf parents member) (hmem : parent ∈ members) :
    parent ∈ queue.ordered := by
  have hcount := h.incoming member hmember
  rw [hzero] at hcount
  have hnil := List.length_eq_zero_iff.mp hcount.symm
  by_contra hout
  have hwait : parent ∈ waitsFor parents members queue.ordered member :=
    mem_filter.mpr ⟨hparent, decide_eq_true ⟨hmem, hout⟩⟩
  rw [hnil] at hwait
  exact not_mem_nil hwait

lemma length_waitsFor_append {ordered : List ℕ} {member child : ℕ} (hmem : member ∈ members) (hout : member ∉ ordered) :
    (waitsFor parents members ordered child).length =
      (waitsFor parents members (ordered ++ [member]) child).length + (parentsOf parents child).count member := by
  unfold waitsFor
  rw [List.count_eq_length_filter]
  induction parentsOf parents child with
  | nil => rfl
  | cons parent rest ih =>
    simp only [List.filter_cons, mem_append, mem_singleton, not_or] at ih ⊢
    by_cases hparent : parent = member
    · subst hparent
      simp only [hmem, hout, not_false_eq_true, true_and, decide_true, if_true, not_true_eq_false, decide_false,
        Bool.false_eq_true, if_false, beq_self_eq_true, List.length_cons]
      omega
    · by_cases hkeep : parent ∈ members ∧ parent ∉ ordered
      · simp only [hkeep, hparent, not_false_eq_true, and_self, decide_true, if_true, beq_iff_eq, if_false,
          List.length_cons]
        omega
      · have hkeep' : ¬(parent ∈ members ∧ parent ∉ ordered ∧ ¬parent = member) := fun h => hkeep ⟨h.1, h.2.1⟩
        rw [if_neg (by simpa using hkeep), if_neg (by simpa using hkeep'), if_neg (by simpa using hparent)]
        exact ih

lemma Kahn.pop (hnodup : members.Nodup) (h : Kahn parents members queue []) {member : ℕ} (hmember : member ∈ members)
    (hready : members.idxOf member ∈ queue.ready) (hout : member ∉ queue.ordered) :
    Kahn parents members
      { queue with ready := queue.ready.erase (members.idxOf member), ordered := queue.ordered ++ [member] }
      (childrenIn parents members member) := by
  refine ⟨h.readyNodup.erase _, ?_, ?_, ?_, ?_, ?_, ?_⟩
  · intro index hindex
    obtain ⟨hne, hindex⟩ := (h.readyNodup.mem_erase_iff).mp hindex
    obtain ⟨other, hother, rfl, hotherOut⟩ := h.ready index hindex
    refine ⟨other, hother, rfl, ?_⟩
    rw [mem_append, mem_singleton]
    rintro (hin | rfl)
    · exact hotherOut hin
    · exact hne rfl
  · exact List.Nodup.append h.orderedNodup (List.nodup_singleton _) (by simpa using hout)
  · intro other hother
    rcases mem_append.mp hother with hother | hother
    · exact h.ordered other hother
    · rwa [mem_singleton.mp hother]
  · intro child hchild
    have hsame := h.incoming child hchild
    rw [length_waitsFor_append hmember hout] at hsame
    rw [count_childrenIn hnodup member hchild]
    exact hsame
  · intro other hother
    rw [h.waiting other hother]
    by_cases hm : other = member
    · subst hm
      simp [hready]
    · have hidx : members.idxOf other ≠ members.idxOf member := fun heq => hm ((idxOf_inj hother).mp heq)
      simp [hm, hidx]
  · -- the parents of what is out are out, so the new member is none of them
    refine List.pairwise_append.mpr ⟨h.inOrder, List.pairwise_singleton _ _, ?_⟩
    intro a ha b hb hparent
    rw [mem_singleton.mp hb] at hparent
    have hazero := (h.waiting a (h.ordered a ha)).mpr (.inl ha)
    exact hout (h.parent_mem (h.ordered a ha) hazero hparent hmember)

lemma Kahn.length_le (h : Kahn parents members queue left) :
    queue.ordered.length ≤ members.length := (h.orderedNodup.subperm h.ordered).length_le

lemma Kahn.perm (h : Kahn parents members queue left) (hlength : members.length ≤ queue.ordered.length) :
    queue.ordered.Perm members :=
  (h.orderedNodup.subperm h.ordered).perm_of_length_le hlength

lemma Kahn.orderLoop (hnodup : members.Nodup) (fuel : ℕ) (h : Kahn parents members queue [])
    (hfuel : members.length ≤ fuel + queue.ordered.length) :
    Kahn parents members (orderLoop parents members fuel queue) [] ∧ (orderLoop parents members fuel queue).ready =
      [] := by
  induction fuel generalizing queue with
  | zero =>
    refine ⟨h, ?_⟩
    have hperm := h.perm (by omega)
    refine List.eq_nil_iff_forall_not_mem.mpr fun index hindex => ?_
    obtain ⟨member, hmember, -, hout⟩ := h.ready index hindex
    exact hout (hperm.mem_iff.mpr hmember)
  | succ fuel ih =>
    unfold Mempool.orderLoop
    cases hmin : queue.ready.min? with
    | none => exact ⟨h, List.min?_eq_none_iff.mp hmin⟩
    | some index =>
      obtain ⟨member, hmember, rfl, hout⟩ := h.ready index (min?_mem hmin)
      have hget : members.getD (members.idxOf member) 0 = member := by
        rw [List.getD_eq_getElem?_getD, List.getElem?_idxOf hmember]
        rfl
      dsimp only
      rw [hget]
      have hpopped := h.pop hnodup hmember (min?_mem hmin) hout
      have hnext := hpopped.foldl_release (by
        intro child hchild
        obtain ⟨c, hc, hown⟩ := List.mem_flatMap.mp hchild
        obtain ⟨-, -, rfl⟩ := mem_map.mp hown
        exact hc)
      refine ih hnext ?_
      have hkept : ∀ (l : List ℕ) (q : Queue), (l.foldl (Mempool.release members) q).ordered = q.ordered := by
        intro l
        induction l with
        | nil => intro q; rfl
        | cons c l ihl =>
          intro q
          rw [List.foldl_cons, ihl]
          unfold Mempool.release
          dsimp only
          split <;> rfl
      rw [hkept, List.length_append, List.length_singleton]
      omega

end

section

variable {parents} {members : List ℕ}

structure Sound (parents : List (List ℕ)) (members : List ℕ) : Prop where
  nodup : members.Nodup
  inRange : ∀ member ∈ members, member < parents.length
  parentsInRange : ∀ member ∈ members, ∀ parent ∈ parentsOf parents member, parent < parents.length

lemma topological_cases (parents : List (List ℕ)) (members : List ℕ) :
    (¬Sound parents members ∧ topological parents members = .error .dependencies) ∨
      Sound parents members ∧ ∃ queue, Kahn parents members queue [] ∧ queue.ready = [] ∧
        topological parents members =
          if queue.ordered.length ≠ members.length then .error .dependencies else .ok queue.ordered := by
  unfold topological
  split
  · rename_i hmembers
    exact .inl ⟨fun h => hmembers ⟨h.nodup, h.inRange⟩, rfl⟩
  · rename_i hmembers
    obtain ⟨hnodup, hmembers⟩ := not_not.mp hmembers
    split
    · rename_i hparents
      exact .inl ⟨fun h => hparents h.parentsInRange, rfl⟩
    · rename_i hparents
      refine .inr ⟨⟨hnodup, hmembers, not_not.mp hparents⟩, ?_⟩
      have hstart : Kahn parents members
          ⟨fun member => ((parentsOf parents member).filter (· ∈ members)).length,
            (members.filter fun member => ((parentsOf parents member).filter (· ∈ members)).length = 0).map
              members.idxOf, []⟩ [] := by
        refine ⟨?_, ?_, List.nodup_nil, by simp, ?_, ?_, List.Pairwise.nil⟩
        · refine (hnodup.filter _).map_on ?_
          intro a ha b _ heq
          exact (idxOf_inj (List.mem_of_mem_filter ha)).mp heq
        · intro index hindex
          obtain ⟨member, hmember, rfl⟩ := mem_map.mp hindex
          exact ⟨member, List.mem_of_mem_filter hmember, rfl, not_mem_nil⟩
        · simp [waitsFor]
        · intro member hmember
          constructor
          · intro hzero
            exact .inr (List.mem_map_of_mem (mem_filter.mpr ⟨hmember, decide_eq_true hzero⟩))
          · rintro (hnil | hidx)
            · exact absurd hnil not_mem_nil
            · obtain ⟨other, hother, heq⟩ := mem_map.mp hidx
              obtain ⟨hother, hzero⟩ := mem_filter.mp hother
              rw [← (idxOf_inj hother).mp heq]
              exact of_decide_eq_true hzero
      obtain ⟨hkahn, hready⟩ := hstart.orderLoop hnodup members.length (by simp)
      exact ⟨_, hkahn, hready, rfl⟩

lemma topological_spec {order : List ℕ} (h : topological parents members = .ok order) :
    Sound parents members ∧ order.Perm members ∧ InOrder parents order := by
  rcases topological_cases parents members with ⟨-, herror⟩ | ⟨hsound, queue, hkahn, -, heq⟩
  · rw [herror] at h
    cases h
  · rw [heq] at h
    split at h
    · cases h
    · cases h
      exact ⟨hsound, hkahn.perm (by omega), hkahn.inOrder⟩

lemma topological_eq_ok (hsound : Sound parents members) (rank : ℕ → ℕ)
    (hrank : ∀ member ∈ members, ∀ parent ∈ parentsOf parents member, parent ∈ members → rank parent < rank member) :
    ∃ order, topological parents members = .ok order := by
  rcases topological_cases parents members with ⟨hunsound, -⟩ | ⟨-, queue, hkahn, hready, heq⟩
  · exact absurd hsound hunsound
  · -- a member of the least rank that is not out would wait for nothing
    have hall : ∀ r, ∀ member ∈ members, rank member = r → member ∈ queue.ordered := by
      intro r
      induction r using Nat.strongRecOn with
      | ind r ih =>
        rintro member hmember rfl
        have hzero : queue.incoming member = 0 := by
          rw [hkahn.incoming member hmember]
          refine List.length_eq_zero_iff.mpr (List.filter_eq_nil_iff.mpr ?_)
          intro parent hparent hwait
          obtain ⟨hmem, hout⟩ := of_decide_eq_true hwait
          exact hout (ih _ (hrank member hmember parent hparent hmem) parent hmem rfl)
        rcases (hkahn.waiting member hmember).mp hzero with hout | hidx
        · exact hout
        · rw [hready] at hidx
          exact absurd hidx not_mem_nil
    have hlength : members.length ≤ queue.ordered.length :=
      (hsound.nodup.subperm fun member hmember => hall _ member hmember rfl).length_le
    have hle := hkahn.length_le
    rw [heq, if_neg (by omega)]
    exact ⟨_, rfl⟩

end

end BitcoinRs.Mempool
