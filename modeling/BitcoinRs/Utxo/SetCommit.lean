import BitcoinRs.Utxo.ShardLaws

namespace BitcoinRs.Utxo

open Buckets Fallible List ShardBucketSide Function Batch

lemma mem_shardIndexes (s : UInt8) : s ∈ shardIndexes :=
  mem_map.mpr ⟨s.toNat, mem_range.mpr s.toNat_lt, UInt8.ofNat_toNat⟩

lemma nodup_shardIndexes : shardIndexes.Nodup := by
  refine Nodup.map_on (fun a ha b hb hab => ?_) nodup_range
  have h := congrArg UInt8.toNat hab
  rwa [UInt8.toNat_ofNat_of_lt' (mem_range.mp ha), UInt8.toNat_ofNat_of_lt' (mem_range.mp hb)] at h

section

variable {α : Type} (shard : α → UInt8) (payloads : List α)

lemma initializedSlots_map (values : List α) : initializedSlots (values.map some) = .ok values := by
  induction values with
  | nil => rfl
  | cons value rest ih => rw [map_cons, initializedSlots, ih, ok_bind, pure_eq_ok]

lemma shardCounts_eq_zero {s : UInt8} : shardCounts shard payloads s = 0 ↔ ∀ payload ∈ payloads, shard payload ≠ s := by
  simp [shardCounts, countP_eq_zero]

lemma mem_active {payload : α} (h : payload ∈ payloads) :
    shard payload ∈ shardIndexes.filter (fun s => shardCounts shard payloads s != 0) := by
  refine mem_filter.mpr ⟨mem_shardIndexes _, ?_⟩
  simpa using fun hz : shardCounts shard payloads (shard payload) = 0 =>
    (shardCounts_eq_zero shard payloads).mp hz payload h rfl

lemma slots_eq : replicate payloads.length (none : Option α) =
    shardIndexes.flatMap (fun s => replicate (shardCounts shard payloads s) none) := by
  refine (eq_replicate_iff.mpr ⟨?_, fun slot hs => ?_⟩).symm
  · rw [length_flatMap]
    simp only [length_replicate]
    exact sum_count shard nodup_shardIndexes payloads (fun payload _ => mem_shardIndexes _)
  · obtain ⟨s, -, hs⟩ := mem_flatMap.mp hs
    exact eq_of_mem_replicate hs

lemma length_bucket (s : UInt8) :
    (payloads.filter (fun payload => shard payload == s)).length = shardCounts shard payloads s :=
  countP_eq_length_filter.symm

lemma build_scattered (h : bucketShape (shardCounts shard payloads) = .scattered) :
    ShardBucketSide.build shard payloads (shardCounts shard payloads) = .ok
      { payloads := shardIndexes.flatMap (fun s => payloads.filter (fun payload => shard payload == s))
        ranges := shardRanges (shardCounts shard payloads), shape := .scattered } := by
  have hscatter : scatter shard payloads
      (shardIndexes.flatMap (fun s => replicate (shardCounts shard payloads s) none))
      (fun s => (shardRanges (shardCounts shard payloads) s).1) = _ :=
    scatter_all shard nodup_shardIndexes payloads (fun payload _ => mem_shardIndexes _)
  have hflat : shardIndexes.flatMap (fun s => (payloads.filter (fun payload => shard payload == s)).map some) =
      (shardIndexes.flatMap (fun s => payloads.filter (fun payload => shard payload == s))).map some := by
    rw [map_flatMap]
  rw [build, h, slots_eq shard payloads]
  simp [hscatter, hflat, initializedSlots_map]

def Sorts (side : ShardBucketSide α) (bucket : UInt8 → List α) : Prop :=
  (side.shape = .scattered → side.ranges = shardRanges (fun s => (bucket s).length) ∧
    side.payloads = shardIndexes.flatMap bucket) ∧ ∀ s, side.get s = bucket s

lemma build_eq : ∃ side, ShardBucketSide.build shard payloads (shardCounts shard payloads) = .ok side ∧
    Sorts side (fun s => payloads.filter (fun payload => shard payload == s)) := by
  cases hshape : bucketShape (shardCounts shard payloads) with
  | empty =>
    refine ⟨_, by rw [build, hshape], by simp, fun s => ?_⟩
    have hnone : shardIndexes.filter (fun s => shardCounts shard payloads s != 0) = [] := by
      rw [bucketShape] at hshape
      split at hshape <;> first | assumption | cases hshape
    refine (filter_eq_nil_iff.mpr (fun payload hp => ?_)).symm
    have hmem := mem_active shard payloads hp
    rw [hnone] at hmem
    cases hmem
  | single active =>
    refine ⟨_, by rw [build, hshape], by simp, fun s => ?_⟩
    have hone : shardIndexes.filter (fun s => shardCounts shard payloads s != 0) = [active] := by
      rw [bucketShape] at hshape
      split at hshape <;> cases hshape
      assumption
    have hall : ∀ payload ∈ payloads, shard payload = active := fun payload hp => by
      have hmem := mem_active shard payloads hp
      rwa [hone, mem_singleton] at hmem
    rw [ShardBucketSide.get]
    simp only
    split_ifs with hs
    · exact (filter_eq_self.mpr (fun payload hp => by simp [hall payload hp, hs])).symm
    · exact (filter_eq_nil_iff.mpr (fun payload hp => by simp [hall payload hp, hs])).symm
  | scattered =>
    refine ⟨_, build_scattered shard payloads hshape, fun _ => ⟨?_, rfl⟩, fun s => ?_⟩
    · simp only [length_bucket]
    · have h := take_drop_start nodup_shardIndexes (mem_shardIndexes s) (length_bucket shard payloads)
      simpa [ShardBucketSide.get, shardRanges] using h

end

section

variable {α : Type} (identity : α → Identity)

instance : IsTrans α (fun left right => IdentityLe (identity left) (identity right)) :=
  ⟨fun _ _ _ h₁ h₂ => trans_of IdentityLe h₁ h₂⟩

instance : Std.Total (fun left right : α => IdentityLe (identity left) (identity right)) :=
  ⟨fun left right => total_of IdentityLe (identity left) (identity right)⟩

def grouped (xs : List α) : List α := xs.insertionSort (fun left right => IdentityLe (identity left) (identity right))

variable (xs : List α)

lemma grouped_grouped : grouped identity (grouped identity xs) = grouped identity xs :=
  (pairwise_insertionSort _ xs).insertionSort_eq

lemma grouped_of_length_le {xs : List α} (h : xs.length ≤ 1) : grouped identity xs = xs := by
  match xs, h with
  | [], _ => rfl
  | [x], _ => rfl

lemma length_grouped : (grouped identity xs).length = xs.length := length_insertionSort _ xs

lemma foldl_sortRange (counts : UInt8 → ℕ) (ks : List UInt8) (bucket : UInt8 → List α)
    (hc : ∀ s, (bucket s).length = counts s) :
    ks.foldl (ShardBucketSide.sortRange identity (shardRanges counts)) (shardIndexes.flatMap bucket) =
      shardIndexes.flatMap (fun s => if s ∈ ks then grouped identity (bucket s) else bucket s) := by
  induction ks generalizing bucket with
  | nil => simp
  | cons k ks ih =>
    have hstep : sortRange identity (shardRanges counts) (shardIndexes.flatMap bucket) k =
        shardIndexes.flatMap (update bucket k (grouped identity (bucket k))) := by
      simp only [sortRange, shardRanges, Nat.add_sub_cancel_left]
      split_ifs with hlen
      · exact sortSlice_flatMap _ nodup_shardIndexes (mem_shardIndexes k) hc
      · rw [grouped_of_length_le identity (by rw [hc k]; omega), update_eq_self]
    have hlen (s : UInt8) : (update bucket k (grouped identity (bucket k)) s).length = counts s := by
      by_cases hs : s = k
      · rw [hs, update_self, length_grouped, hc]
      · rw [update_of_ne hs, hc]
    rw [foldl_cons, hstep, ih _ hlen]
    refine flatMap_congr (fun s _ => ?_)
    by_cases hs : s = k
    · rw [hs, update_self, grouped_grouped, ite_self, if_pos mem_cons_self]
    · simp [hs]

lemma group_eq {side : ShardBucketSide α} {bucket : UInt8 → List α} (h : Sorts side bucket) :
    ∀ s, (side.groupTxidRuns identity).get s = grouped identity (bucket s) := by
  intro s
  have hget := h.2 s
  obtain ⟨payloads, ranges, shape⟩ := side
  cases shape with
  | empty =>
    rw [← hget]
    rfl
  | single active =>
    rw [← hget]
    simp only [ShardBucketSide.groupTxidRuns, ShardBucketSide.get]
    split_ifs <;> rfl
  | scattered =>
    obtain ⟨hranges, hpayloads⟩ := h.1 rfl
    simp only at hranges hpayloads
    have hfold := foldl_sortRange identity (fun s => (bucket s).length) shardIndexes bucket (fun s => rfl)
    simp only [mem_shardIndexes, ↓reduceIte] at hfold
    have hslice := take_drop_start nodup_shardIndexes (mem_shardIndexes s)
      (fun s => length_grouped identity (bucket s))
    simp only [ShardBucketSide.groupTxidRuns, ShardBucketSide.get, hranges, hpayloads, hfold]
    simpa [shardRanges] using hslice

end

def shardOfTxid (x : Hash256) : UInt8 := (UtxoKey.fromTxid x).shard

def shardPart (M : Outputs) (s : UInt8) : Outputs := fun x => if shardOfTxid x = s then M x else fun _ => none

def UtxoSet.Represents (set : UtxoSet) (M : Outputs) : Prop := ∀ s, Utxo.Represents (set.shards s) (shardPart M s)

def removesAt (removes : List OutPoint) : Hash256 → List UInt32 := valuesAt OutPoint.txid OutPoint.vout removes

def addsAt (adds : List UtxoAdd) : Hash256 → List OutputParts :=
  valuesAt (fun add => add.outpoint.txid) (fun add => payloadParts add.payload) adds

variable {s : UInt8} {table : ShardTable} (listening : Bool)

section

variable {ε : Type} {P Q : UInt8 → ShardTable → Prop}

def Moved (Q : UInt8 → ShardTable → Prop) (order : List UInt8) (before after : UInt8 → ShardTable) : Prop :=
  ∀ s, (s ∈ order → Q s (after s)) ∧ (s ∉ order → after s = before s)

variable {rest : List UInt8}

lemma Moved.cons {before after : UInt8 → ShardTable} (hs : s ∉ rest) (hQ : Q s table)
    (h : Moved Q rest (update before s table) after) : Moved Q (s :: rest) before after := by
  intro t
  obtain ⟨hmem, hnot⟩ := h t
  by_cases ht : t = s
  · subst ht
    rw [update_self] at hnot
    exact ⟨fun _ => (hnot hs).symm ▸ hQ, fun hn => absurd mem_cons_self hn⟩
  · rw [update_of_ne ht] at hnot
    exact ⟨fun hm => hmem ((mem_cons.mp hm).resolve_left ht), fun hn => hnot (fun hm => hn (by simp [hm]))⟩

lemma update_rest {shards : UInt8 → ShardTable} (table : ShardTable) (hs : s ∉ rest)
    (hP : ∀ t ∈ s :: rest, P t (shards t)) : ∀ t ∈ rest, P t (update shards s table t) := by
  intro t ht
  have hne : t ≠ s := fun he => hs (he ▸ ht)
  rw [update_of_ne hne]
  exact hP t (mem_cons_of_mem _ ht)

lemma commitSerial_spec {step : UInt8 → ShardTable → ShardTable × Run Unit}
    (hstep : ∀ s table, P s table → (step s table).2 = .ok () → Q s (step s table).1) (order : List UInt8)
    (hn : order.Nodup) (shards : UInt8 → ShardTable) (hP : ∀ s ∈ order, P s (shards s)) :
    ((commitSerial step order shards).2 = .ok () → Moved Q order shards (commitSerial step order shards).1) ∧
      ((∀ s table, P s table → (step s table).2 = .ok ()) → (commitSerial step order shards).2 = .ok ()) := by
  induction order generalizing shards with
  | nil => exact ⟨fun _ _ => ⟨fun hm => (by cases hm), fun _ => rfl⟩, fun _ => rfl⟩
  | cons s rest ih =>
    obtain ⟨hs, hrest⟩ := nodup_cons.mp hn
    have hPs := hP s mem_cons_self
    have htail := ih hrest (update shards s (step s (shards s)).1) (update_rest _ hs hP)
    have hQs := hstep s (shards s) hPs
    rw [commitSerial]
    simp only
    cases hres : (step s (shards s)).2 with
    | error fault =>
      refine ⟨fun hok => (by cases hok), fun hall => ?_⟩
      rw [hall s _ hPs] at hres
      cases hres
    | ok =>
      exact ⟨fun hok => (htail.1 hok).cons hs (hQs hres), fun hall => htail.2 hall⟩

lemma commitEvery_spec (step : UInt8 → ShardTable → (ShardTable × ε) × Run Unit)
    (hstep : ∀ s table, P s table → (step s table).2 = .ok () → Q s (step s table).1.1) (order : List UInt8)
    (hn : order.Nodup) (shards : UInt8 → ShardTable) (hP : ∀ s ∈ order, P s (shards s)) :
    ((commitEvery step order shards).2.2 = [] → Moved Q order shards (commitEvery step order shards).1) ∧
      ((∀ s table, P s table → (step s table).2 = .ok ()) → (commitEvery step order shards).2.2 = []) := by
  induction order generalizing shards with
  | nil => exact ⟨fun _ _ => ⟨fun hm => (by cases hm), fun _ => rfl⟩, fun _ => rfl⟩
  | cons s rest ih =>
    obtain ⟨hs, hrest⟩ := nodup_cons.mp hn
    have hPs := hP s mem_cons_self
    have htail := ih hrest (update shards s (step s (shards s)).1.1) (update_rest _ hs hP)
    have hQs := hstep s (shards s) hPs
    rw [commitEvery]
    simp only
    cases hres : (step s (shards s)).2 with
    | error fault =>
      refine ⟨fun hok => (by cases hok), fun hall => ?_⟩
      rw [hall s _ hPs] at hres
      cases hres
    | ok =>
      exact ⟨fun hok => (htail.1 hok).cons hs (hQs hres), fun hall => htail.2 hall⟩

end

lemma popError_ok {errors : List Fault} : popError errors = .ok () ↔ errors = [] := by
  rw [popError]
  cases h : errors.getLast? with
  | none => simpa using getLast?_eq_none_iff.mp h
  | some fault =>
    simp only [reduceCtorEq, false_iff]
    rintro rfl
    cases h

lemma validateAdd_ok {add : UtxoAdd} : validateAdd add = .ok () ↔ add.txout.scriptPubkey.length < 2 ^ 16 :=
  ⟨ensure_ok, ensure_of _⟩

variable {adds : List UtxoAdd}

lemma validateAdds_ok : validateAdds adds = .ok () ↔ ∀ add ∈ adds, add.txout.scriptPubkey.length < 2 ^ 16 := by
  induction adds with
  | nil => simp [validateAdds]
  | cons add rest ih =>
    rw [validateAdds, forall_mem_cons, ← ih, ← validateAdd_ok]
    constructor
    · intro h
      obtain ⟨⟨⟩, hadd, hrest⟩ := bind_eq_ok h
      exact ⟨hadd, hrest⟩
    · rintro ⟨hadd, hrest⟩
      rw [hadd, ok_bind, hrest]

lemma validateAdds_error {fault : Fault} (h : validateAdds adds = .error fault) :
    ∃ add ∈ adds, validateAdd add = .error fault := by
  induction adds with
  | nil => cases h
  | cons add rest ih =>
    rw [validateAdds] at h
    cases hadd : validateAdd add with
    | error first =>
      rw [hadd] at h
      cases h
      exact ⟨add, mem_cons_self, hadd⟩
    | ok =>
      rw [hadd] at h
      obtain ⟨other, hmem, hother⟩ := ih h
      exact ⟨other, mem_cons_of_mem _ hmem, hother⟩

section

variable {α γ : Type} {txid : α → Hash256} {value : α → γ} {shard : α → UInt8} {payloads : List α}

lemma valuesAt_bucket (hshard : ∀ item ∈ payloads, shard item = shardOfTxid (txid item)) (s : UInt8) (x : Hash256) :
    valuesAt txid value (payloads.filter (fun payload => shard payload == s)) x =
      if shardOfTxid x = s then valuesAt txid value payloads x else [] := by
  rw [valuesAt, filter_filter]
  split_ifs with hx
  · refine congrArg (map value) (filter_congr (fun item hmem => ?_))
    by_cases hi : txid item = x
    · simp [hi, hshard item hmem, hx]
    · simp [hi]
  · rw [filter_eq_nil_iff.mpr (fun item hmem => ?_), map_nil]
    by_cases hi : txid item = x
    · simp [hi, hshard item hmem, hx]
    · simp [hi]

lemma valuesAt_grouped {identity : α → Identity} (h : Canonical identity txid payloads)
    (x : Hash256) : valuesAt txid value (grouped identity payloads) x = valuesAt txid value payloads x := by
  have hfilter {items : List α} (hc : Canonical identity txid items) :
      items.filter (fun item => txid item == x) = items.filter (fun item => identity item == identityOf x) := by
    refine filter_congr (fun item hi => ?_)
    rw [hc item hi, Bool.eq_iff_iff, beq_iff_eq, beq_iff_eq]
    exact ⟨fun he => by rw [he], fun he => identityOf_injective he⟩
  have hgrouped : Canonical identity txid (grouped identity payloads) := fun item hi =>
    h item ((mem_insertionSort _).mp hi)
  rw [valuesAt, valuesAt, hfilter h, hfilter hgrouped, grouped, filter_insertionSort _ _ (fun a b ha hb => ?_)]
  rw [eq_of_beq ha, eq_of_beq hb]
  exact IdentityLe.refl _

lemma valuesAt_eq_nil {items : List α} {x : Hash256} (h : ∀ item ∈ items, txid item ≠ x) :
    valuesAt txid value items x = [] := by
  rw [valuesAt, filter_eq_nil_iff.mpr (fun item hi => by simpa using h item hi)]
  rfl

end

noncomputable def onTxid (listening : Bool) (m : UInt32 → Option OutputParts) (vouts : List UInt32)
    (parts : List OutputParts) : UInt32 → Option OutputParts :=
  if listening then apply m vouts (bindings parts) else coalesced m vouts parts

lemma onTxid_nil (m : UInt32 → Option OutputParts) : onTxid listening m [] [] = m := by
  cases listening with
  | true => exact eraseAll_nil m
  | false => exact coalesced_nil_left m []

noncomputable def committed (listening : Bool) (M : Outputs) (adds : List UtxoAdd) (removes : List OutPoint) :
    Outputs :=
  fun x => onTxid listening (M x) (removesAt removes x) (addsAt adds x)

/-- No txid is to end with all of the `2 ^ 32` outputs it can have. -/
def Room (M : Outputs) (adds : List UtxoAdd) (removes : List OutPoint) : Prop :=
  ∀ x, ∃ v, specified M (removesAt removes) (addsAt adds) x v = none

section

variable {M : Outputs} {removes : List OutPoint} {bucketRemoves : List SpendPayload} {bucketAdds : List AddPayload}

structure BucketOk (adds : List UtxoAdd) (removes : List OutPoint) (s : UInt8) (bucketAdds : List AddPayload)
    (bucketRemoves : List SpendPayload) : Prop where
  adds_ok : ∀ add ∈ bucketAdds, add.1 = UtxoKey.fromTxid add.2.1 ∧ add.2.2.txout.scriptPubkey.length < 2 ^ 16
  removes_ok : ∀ remove ∈ bucketRemoves, remove.key = UtxoKey.fromTxid remove.txid
  adds_eq : ∀ x, valuesAt (fun add : AddPayload => add.2.1) (fun add => payloadParts add.2.2) bucketAdds x =
    if shardOfTxid x = s then addsAt adds x else []
  removes_eq : ∀ x, valuesAt SpendPayload.txid SpendPayload.vout bucketRemoves x =
    if shardOfTxid x = s then removesAt removes x else []

lemma valuesAt_map {α β γ : Type} (txid : β → Hash256) (value : β → γ) (f : α → β) (items : List α) (x : Hash256) :
    valuesAt txid value (items.map f) x =
      valuesAt (fun item => txid (f item)) (fun item => value (f item)) items x := by
  rw [valuesAt, filter_map, map_map]
  rfl

lemma addCounts_eq : shardCounts addShard adds =
    shardCounts (fun add : AddPayload => add.1.shard) (adds.map addPayload) := by
  funext s
  rw [shardCounts, shardCounts, countP_map]
  rfl

lemma removeCounts_eq : shardCounts removeShard removes =
    shardCounts (fun remove : SpendPayload => remove.key.shard) (removes.map removePayload) := by
  funext s
  rw [shardCounts, shardCounts, countP_map]
  rfl

lemma bucketOk_filter (hs : AddsFit adds) (s : UInt8) :
    BucketOk adds removes s ((adds.map addPayload).filter (fun add => add.1.shard == s))
      ((removes.map removePayload).filter (fun remove => remove.key.shard == s)) where
  adds_ok add ha := by
    obtain ⟨source, hmem, rfl⟩ := mem_map.mp (mem_of_mem_filter ha)
    exact ⟨rfl, hs source hmem⟩
  removes_ok remove hr := by
    obtain ⟨source, -, rfl⟩ := mem_map.mp (mem_of_mem_filter hr)
    rfl
  adds_eq x := by
    have hshard : ∀ add ∈ adds.map addPayload, add.1.shard = shardOfTxid add.2.1 := forall_mem_map.mpr (fun _ _ => rfl)
    rw [valuesAt_bucket hshard, valuesAt_map]
    rfl
  removes_eq x := by
    have hshard : ∀ remove ∈ removes.map removePayload, remove.key.shard = shardOfTxid remove.txid :=
      forall_mem_map.mpr (fun _ _ => rfl)
    rw [valuesAt_bucket hshard, valuesAt_map]
    rfl

section

variable (h : BucketOk adds removes s bucketAdds bucketRemoves)

include h

lemma BucketOk.canonical :
    Canonical (fun add : AddPayload => (add.1, add.2.1)) (fun add => add.2.1) bucketAdds ∧
      Canonical (fun remove : SpendPayload => (remove.key, remove.txid)) SpendPayload.txid bucketRemoves :=
  ⟨fun add ha => Prod.ext (h.adds_ok add ha).1 rfl, fun remove hr => Prod.ext (h.removes_ok remove hr) rfl⟩

lemma BucketOk.group :
    BucketOk adds removes s (grouped (fun add : AddPayload => (add.1, add.2.1)) bucketAdds)
      (grouped (fun remove : SpendPayload => (remove.key, remove.txid)) bucketRemoves) where
  adds_ok add ha := h.adds_ok add ((mem_insertionSort _).mp ha)
  removes_ok remove hr := h.removes_ok remove ((mem_insertionSort _).mp hr)
  adds_eq x := by rw [valuesAt_grouped h.canonical.1, h.adds_eq]
  removes_eq x := by rw [valuesAt_grouped h.canonical.2, h.removes_eq]

end

lemma buckets_new_get (adds : List UtxoAdd) (removes : List OutPoint) (group : Bool) :
    ∃ buckets, ShardCommitBuckets.new adds removes (shardCounts addShard adds) (shardCounts removeShard removes) group =
        .ok buckets ∧
      ∀ s, let bucketAdds := (adds.map addPayload).filter (fun add => add.1.shard == s)
        let bucketRemoves := (removes.map removePayload).filter (fun remove => remove.key.shard == s)
        buckets.adds.get s = (bif group then grouped (fun add => (add.1, add.2.1)) bucketAdds else bucketAdds) ∧
          buckets.removes.get s =
            bif group then grouped (fun remove => (remove.key, remove.txid)) bucketRemoves else bucketRemoves := by
  obtain ⟨addSide, haddSide, haddSorts⟩ := build_eq (fun add : AddPayload => add.1.shard) (adds.map addPayload)
  obtain ⟨removeSide, hremoveSide, hremoveSorts⟩ :=
    build_eq (fun remove : SpendPayload => remove.key.shard) (removes.map removePayload)
  rw [ShardCommitBuckets.new, addCounts_eq, removeCounts_eq, haddSide, hremoveSide]
  cases group with
  | true => exact ⟨_, rfl, fun s => ⟨group_eq _ haddSorts s, group_eq _ hremoveSorts s⟩⟩
  | false => exact ⟨_, rfl, fun s => ⟨haddSorts.2 s, hremoveSorts.2 s⟩⟩

lemma buckets_new_eq (hs : AddsFit adds) (removes : List OutPoint) (group : Bool) :
    ∃ buckets, ShardCommitBuckets.new adds removes (shardCounts addShard adds) (shardCounts removeShard removes) group =
        .ok buckets ∧
      ∀ s, BucketOk adds removes s (buckets.adds.get s) (buckets.removes.get s) := by
  obtain ⟨buckets, hnew, hget⟩ := buckets_new_get adds removes group
  refine ⟨buckets, hnew, fun s => ?_⟩
  rw [(hget s).1, (hget s).2]
  cases group with
  | true => exact (bucketOk_filter hs s).group
  | false => exact bucketOk_filter hs s

variable {parts : Hash256 → List OutputParts} {vouts : Hash256 → List UInt32}

lemma shardPart_committed (hv : ∀ x, vouts x = if shardOfTxid x = s then removesAt removes x else [])
    (hp : ∀ x, parts x = if shardOfTxid x = s then addsAt adds x else []) :
    (fun x => onTxid listening (shardPart M s x) (vouts x) (parts x)) =
      shardPart (committed listening M adds removes) s := by
  funext x
  rw [shardPart, shardPart, hv, hp]
  split_ifs with hx
  · rfl
  · exact onTxid_nil listening _

lemma Room.shardPart (h : Room M adds removes)
    (hv : ∀ x, vouts x = if shardOfTxid x = s then removesAt removes x else [])
    (hp : ∀ x, parts x = if shardOfTxid x = s then addsAt adds x else []) :
    ∀ x, ∃ v, apply (Utxo.shardPart M s x) (vouts x) (bindings (parts x)) v = none := by
  intro x
  rw [Utxo.shardPart, hv, hp]
  split_ifs with hx
  · exact h x
  · exact ⟨0, by rfl⟩

variable (h : BucketOk adds removes s bucketAdds bucketRemoves) (ht : Represents table (shardPart M s))

include h ht

lemma commitBatchCoalesced_commits :
    Commits (commitBatchCoalesced table bucketAdds bucketRemoves) (shardPart (committed false M adds removes) s)
      (Room M adds removes) := by
  have hc := commitCoalesced_commits SpendPayload.vout (fun add : AddPayload => payloadParts add.2.2) ht
    h.canonical.2 h.canonical.1 (fun add ha => (h.adds_ok add ha).2)
  refine ⟨fun hok => ?_, fun hroom => hc.succeeds (hroom.shardPart h.removes_eq h.adds_eq)⟩
  rw [← shardPart_committed false h.removes_eq h.adds_eq]
  exact hc.represents hok

lemma commitBatchCollectEvents_commits' :
    Commits ((commitBatchCollectEvents table bucketAdds bucketRemoves).1.1,
        (commitBatchCollectEvents table bucketAdds bucketRemoves).2)
      (shardPart (committed true M adds removes) s) (Room M adds removes) := by
  have hc := commitBatchCollectEvents_commits ht bucketAdds bucketRemoves h.adds_ok h.removes_ok
  refine ⟨fun hok => ?_, fun hroom => hc.succeeds (hroom.shardPart h.removes_eq h.adds_eq)⟩
  rw [← shardPart_committed true h.removes_eq h.adds_eq]
  exact hc.represents hok

end

namespace UtxoSet

variable {set : UtxoSet} {M : Outputs} {removes : List OutPoint} {shard : UInt8}

structure Commits (set : UtxoSet) (result : UtxoSet × Run Unit) (M : Outputs) (adds : List UtxoAdd)
    (removes : List OutPoint) : Prop where
  represents : result.2 = .ok () → result.1.Represents (committed set.listener.isSome M adds removes)
  succeeds : Room M adds removes → result.2 = .ok ()
  listener : result.1.listener.isSome = set.listener.isSome

section

variable (hs : s ∉ activeShards (shardCounts addShard adds) (shardCounts removeShard removes))

include hs

lemma inactive {x : Hash256} (hx : shardOfTxid x = s) : removesAt removes x = [] ∧ addsAt adds x = [] := by
  have hzero : shardCounts addShard adds s = 0 ∧ shardCounts removeShard removes s = 0 := by
    by_contra hne
    refine hs (mem_filter.mpr ⟨mem_shardIndexes s, ?_⟩)
    rw [Bool.not_eq_true', Bool.and_eq_false_iff, beq_eq_false_iff_ne, beq_eq_false_iff_ne]
    exact Classical.not_and_iff_not_or_not.mp hne
  refine ⟨valuesAt_eq_nil (fun remove hr he => ?_), valuesAt_eq_nil (fun add ha he => ?_)⟩
  · exact (shardCounts_eq_zero _ _).mp hzero.2 remove hr (by rw [← hx, ← he]; rfl)
  · exact (shardCounts_eq_zero _ _).mp hzero.1 add ha (by rw [← hx, ← he]; rfl)

lemma committed_inactive : shardPart (committed listening M adds removes) s = shardPart M s := by
  funext x
  rw [shardPart, shardPart]
  split_ifs with hx
  · obtain ⟨hr, ha⟩ := inactive hs hx
    rw [committed, hr, ha, onTxid_nil]
  · rfl

end

lemma represents_of_moved {listening : Bool} (h : set.Represents M) {order : List UInt8}
    (ho : order.Perm (activeShards (shardCounts addShard adds) (shardCounts removeShard removes)))
    {shards : UInt8 → ShardTable} {calls : Option (List ListenerCall)}
    (hm : Moved (fun s table => Utxo.Represents table (shardPart (committed listening M adds removes) s)) order
      set.shards shards) :
    Represents ⟨shards, calls⟩ (committed listening M adds removes) := by
  intro s
  obtain ⟨hactive, hother⟩ := hm s
  by_cases hs : s ∈ order
  · exact hactive hs
  · have hin := committed_inactive listening (M := M) (fun hmem => hs (ho.mem_iff.mpr hmem))
    simp only [hother hs, hin]
    exact h s

lemma nodup_activeShards (addCounts removeCounts : UInt8 → ℕ) : (activeShards addCounts removeCounts).Nodup :=
  nodup_shardIndexes.filter _

lemma bucket_of_single (ha : activeShards (shardCounts addShard adds) (shardCounts removeShard removes) = [shard])
    (x : Hash256) :
    removesAt removes x = (if shardOfTxid x = shard then removesAt removes x else []) ∧
      addsAt adds x = (if shardOfTxid x = shard then addsAt adds x else []) := by
  split_ifs with hx
  · exact ⟨rfl, rfl⟩
  · exact inactive (by rw [ha]; simpa using hx) rfl

lemma moved_single {Q : UInt8 → ShardTable → Prop} (shards : UInt8 → ShardTable) (hQ : Q shard table) :
    Moved Q [shard] shards (update shards shard table) :=
  Moved.cons not_mem_nil hQ (fun _ => ⟨fun hm => (by cases hm), fun _ => rfl⟩)

lemma commitSingleShard_commits (h : set.Represents M) (hs : AddsFit adds)
    (ha : activeShards (shardCounts addShard adds) (shardCounts removeShard removes) = [shard]) :
    Commits set (set.commitSingleShard adds removes shard) M adds removes := by
  have hvouts (x : Hash256) := (bucket_of_single ha x).1
  have hparts (x : Hash256) := (bucket_of_single ha x).2
  have hperm : [shard].Perm (activeShards (shardCounts addShard adds) (shardCounts removeShard removes)) := by
    rw [ha]
  obtain ⟨shards, listener⟩ := set
  cases listener with
  | none =>
    have hc : Utxo.Commits (commitSingleShardCoalesced (shards shard) adds removes)
        (fun x => coalesced (shardPart M shard x) (removesAt removes x) (addsAt adds x)) _ :=
      commitCoalesced_commits OutPoint.vout (fun add : UtxoAdd => payloadParts add.payload) (h shard)
        (fun _ _ => rfl) (fun _ _ => rfl) hs
    refine ⟨fun hok => represents_of_moved h hperm (moved_single _ ?_),
      fun hroom => hc.succeeds (hroom.shardPart hvouts hparts), rfl⟩
    rw [← shardPart_committed _ hvouts hparts]
    exact hc.represents hok
  | some calls =>
    have hc := commitSingleShardWithListener_commits (h shard) calls adds removes hs
    refine ⟨fun hok => represents_of_moved h hperm (moved_single _ ?_),
      fun hroom => hc.succeeds (hroom.shardPart hvouts hparts), rfl⟩
    rw [← shardPart_committed _ hvouts hparts]
    exact hc.represents hok

variable (schedule : Schedule)

lemma listenerOrder_perm (active : List UInt8) :
    (if active.length < parallelListenerShardThreshold then active else schedule.order active).Perm active := by
  split_ifs
  · exact Perm.refl _
  · exact schedule.perm active

section

variable (h : set.Represents M) {buckets : ShardCommitBuckets} {active : List UInt8}
  (ha : activeShards (shardCounts addShard adds) (shardCounts removeShard removes) = active)
  (hb : ∀ s, BucketOk adds removes s (buckets.adds.get s) (buckets.removes.get s))

include h ha hb

lemma commitMultiShardWithListener_commits {calls : List ListenerCall} (hl : set.listener = some calls) :
    Commits set (commitMultiShardWithListener schedule set calls active buckets) M adds removes := by
  have hnodup : active.Nodup := ha ▸ nodup_activeShards _ _
  have horder := listenerOrder_perm schedule active
  have hspec := commitEvery_spec (P := fun s table => Utxo.Represents table (shardPart M s))
    (Q := fun s table => Utxo.Represents table (shardPart (committed true M adds removes) s)) _
    (fun s table ht hok => (commitBatchCollectEvents_commits' (hb s) ht).represents hok) _
    (horder.nodup_iff.mpr hnodup) set.shards (fun s _ => h s)
  refine ⟨fun hok => ?_, fun hroom => ?_, by rw [hl]; rfl⟩
  · rw [hl]
    exact represents_of_moved h (ha ▸ horder) (hspec.1 (popError_ok.mp hok))
  · exact popError_ok.mpr
      (hspec.2 (fun s table ht => (commitBatchCollectEvents_commits' (hb s) ht).succeeds hroom))

lemma commitMultiShard_commits (totalOps : ℕ) (hl : set.listener = none) :
    Commits set (set.commitMultiShard schedule active totalOps buckets) M adds removes := by
  have hnodup : active.Nodup := ha ▸ nodup_activeShards _ _
  rw [commitMultiShard]
  split_ifs with hops
  · have hspec := commitSerial_spec (P := fun s table => Utxo.Represents table (shardPart M s))
      (Q := fun s table => Utxo.Represents table (shardPart (committed false M adds removes) s))
      (fun s table ht hok => (commitBatchCoalesced_commits (hb s) ht).represents hok) active hnodup
      set.shards (fun s _ => h s)
    refine ⟨fun hok => ?_, fun hroom => ?_, rfl⟩
    · rw [hl]
      exact represents_of_moved h (ha ▸ Perm.refl _) (hspec.1 hok)
    · exact hspec.2 (fun s table ht => (commitBatchCoalesced_commits (hb s) ht).succeeds hroom)
  · have horder := schedule.perm active
    have hspec := commitEvery_spec
      (Q := fun s table => Utxo.Represents table (shardPart (committed false M adds removes) s))
      (fun s table =>
        (((commitBatchCoalesced table (buckets.adds.get s) (buckets.removes.get s)).1, ()),
          (commitBatchCoalesced table (buckets.adds.get s) (buckets.removes.get s)).2))
      (fun s table ht hok => (commitBatchCoalesced_commits (hb s) ht).represents hok) _
      (horder.nodup_iff.mpr hnodup) set.shards (fun s _ => h s)
    refine ⟨fun hok => ?_, fun hroom => ?_, rfl⟩
    · rw [hl]
      exact represents_of_moved h (ha ▸ horder) (hspec.1 (popError_ok.mp hok))
    · exact popError_ok.mpr
        (hspec.2 (fun s table ht => (commitBatchCoalesced_commits (hb s) ht).succeeds hroom))

end

lemma commitAddsAndRemoves_commits (h : set.Represents M) (hs : AddsFit adds) :
    Commits set (set.commitAddsAndRemoves schedule adds removes) M adds removes := by
  rw [commitAddsAndRemoves, validateAdds_ok.mpr hs]
  simp only
  cases ha : activeShards (shardCounts addShard adds) (shardCounts removeShard removes) with
  | nil =>
    refine ⟨fun _ => ?_, fun _ => rfl, rfl⟩
    have hperm : [].Perm (activeShards (shardCounts addShard adds) (shardCounts removeShard removes)) := by rw [ha]
    exact represents_of_moved h hperm (fun _ => ⟨fun hm => (by cases hm), fun _ => rfl⟩)
  | cons shard more =>
    cases more with
    | nil => exact commitSingleShard_commits h hs ha
    | cons second rest =>
      simp only
      obtain ⟨buckets, hnew, hb⟩ := buckets_new_eq hs removes
        (set.listener.isNone && (shard :: second :: rest).length ≤ txidRunGroupingMaxShards)
      rw [hnew]
      cases hl : set.listener with
      | some calls => exact commitMultiShardWithListener_commits schedule h ha hb hl
      | none => exact commitMultiShard_commits schedule h ha hb _ hl

end UtxoSet

end BitcoinRs.Utxo
