import BitcoinRs.Utxo.CoinStats
import BitcoinRs.Utxo.Contract
import Mathlib.Tactic.LinearCombination

namespace BitcoinRs.Utxo

namespace CoinStats

open Runs Fallible CoinStatsDelta Multiset

variable (ops : MuHashOps)

structure Matches (stats : CoinStats) (s : Multiset UtxoCoin) : Prop where
  quotient : (stats.muhash.numerator : ZMod muhashModulus) = hashOf ops s * stats.muhash.denominator
  unit : IsUnit (stats.muhash.denominator : ZMod muhashModulus)
  totalAmount : stats.totalAmount = amountOf s
  bogoSize : stats.bogoSize = bogoSizeOf s
  utxoCount : stats.utxoCount = s.card

variable {ops} {stats : CoinStats} {s t : Multiset UtxoCoin}

namespace Matches

lemma new : Matches ops .new 0 :=
  ⟨by simp [CoinStats.new, MuHash3072.new], by simp [CoinStats.new, MuHash3072.new], rfl, rfl, rfl⟩

lemma accountInsert (h : Matches ops stats s) {coin : UtxoCoin} (hw : Within (coin ::ₘ s)) :
    (stats.accountInsert coin.txout).totalAmount = amountOf (coin ::ₘ s) ∧
      (stats.accountInsert coin.txout).bogoSize = bogoSizeOf (coin ::ₘ s) ∧
      (stats.accountInsert coin.txout).utxoCount = (coin ::ₘ s).card := by
  obtain ⟨hamount, hbogo⟩ := hw
  have hcard := Within.card_lt ⟨hamount, hbogo⟩
  simp only [CoinStats.accountInsert, h.totalAmount, h.bogoSize, h.utxoCount, saturatingAdd, amountOf_cons,
    bogoSizeOf_cons, card_cons] at hamount hbogo hcard ⊢
  omega

lemma insertUtxo (h : Matches ops stats s) {insertion : UtxoInserted} (hw : Within (insertion.coin ::ₘ s)) :
    Matches ops (stats.insertUtxo ops insertion) (insertion.coin ::ₘ s) := by
  obtain ⟨hamount, hbogo, hcount⟩ := h.accountInsert hw
  refine ⟨?_, h.unit, hamount, hbogo, hcount⟩
  rw [hashOf_cons, mul_assoc]
  refine (cast_multiply _ _).trans ?_
  rw [h.quotient, mul_comm]
  rfl

lemma removeUtxo (hunits : UnitElements ops) {removal : UtxoRemoved} (h : Matches ops stats (removal.coin ::ₘ s)) :
    Matches ops (stats.removeUtxo ops removal) s := by
  obtain ⟨hquotient, hunit, hamount, hbogo, hcount⟩ := h
  rw [amountOf_cons] at hamount
  rw [bogoSizeOf_cons] at hbogo
  rw [card_cons] at hcount
  have hdenominator : ((stats.removeUtxo ops removal).muhash.denominator : ZMod muhashModulus) =
      (stats.muhash.denominator : ZMod muhashModulus) * coinElement ops removal.coin := cast_multiply _ _
  refine ⟨?_, ?_, ?_, ?_, ?_⟩
  · rw [hdenominator]
    rw [hashOf_cons] at hquotient
    refine Eq.trans hquotient ?_
    ring
  · rw [hdenominator]
    exact hunit.mul ((ZMod.isUnit_iff_coprime _ _).mpr (hunits removal.coin))
  · exact (congrArg (· - removal.txout.value.toNat) hamount).trans (Nat.add_sub_cancel_left ..)
  · exact (congrArg (· - Utxo.bogoSize removal.txout) hbogo).trans (Nat.add_sub_cancel_left ..)
  · exact (congrArg (· - 1) hcount).trans (Nat.add_sub_cancel ..)

lemma insertEach (h : Matches ops stats s) (insertions : List UtxoInserted)
    (hw : Within (insertedCoins insertions + s)) :
    Matches ops (insertions.foldl (CoinStats.insertUtxo ops) stats) (insertedCoins insertions + s) := by
  induction insertions generalizing stats s with
  | nil => simpa [insertedCoins] using h
  | cons insertion rest ih =>
    rw [insertedCoins_cons, cons_add, ← add_cons] at hw ⊢
    exact ih (h.insertUtxo (hw.mono (le_add_left _ _))) hw

lemma removeEach (hunits : UnitElements ops) (removals : List UtxoRemoved)
    (h : Matches ops stats (removedCoins removals + s)) :
    Matches ops (removals.foldl (CoinStats.removeUtxo ops) stats) s := by
  induction removals generalizing stats with
  | nil => simpa [removedCoins] using h
  | cons removal rest ih =>
    rw [removedCoins_cons, cons_add] at h
    exact ih (h.removeUtxo hunits)

lemma applyTo (hunits : UnitElements ops) (h : Matches ops stats s) {delta : CoinStatsDelta}
    {removed inserted : Multiset UtxoCoin} (hd : delta.Means ops removed inserted)
    (hst : removed + t = inserted + s) (hw : Within (inserted + s)) : Matches ops (delta.applyTo stats) t := by
  have hwremoved : Within removed := hw.mono (hst ▸ le_add_right _ _)
  have hwinserted : Within inserted := hw.mono (le_add_right _ _)
  have hnumerator : ((delta.applyTo stats).muhash.numerator : ZMod muhashModulus) =
      stats.muhash.numerator * hashOf ops inserted := by
    by_cases hadded : delta.addedUtxos = 0
    · rw [hd.addedUtxos_eq_zero.mp hadded]
      by_cases hremoved : delta.removedUtxos = 0 <;>
        simp [CoinStatsDelta.applyTo, hadded, hremoved, MuHash3072.combineDenominator]
    · rw [← hd.numerator, ← cast_multiply]
      by_cases hremoved : delta.removedUtxos = 0 <;>
        simp [CoinStatsDelta.applyTo, hadded, hremoved, MuHash3072.combine, MuHash3072.combineNumerator]
  have hdenominator : ((delta.applyTo stats).muhash.denominator : ZMod muhashModulus) =
      stats.muhash.denominator * hashOf ops removed := by
    by_cases hremoved : delta.removedUtxos = 0
    · rw [hd.removedUtxos_eq_zero.mp hremoved]
      by_cases hadded : delta.addedUtxos = 0 <;>
        simp [CoinStatsDelta.applyTo, hadded, hremoved, MuHash3072.combineNumerator]
    · rw [← hd.denominator, ← cast_multiply]
      by_cases hadded : delta.addedUtxos = 0 <;>
        simp [CoinStatsDelta.applyTo, hadded, hremoved, MuHash3072.combine, MuHash3072.combineDenominator]
  have hhash := congrArg (hashOf ops) hst
  have hamount := congrArg amountOf hst
  have hbogo := congrArg bogoSizeOf hst
  have hcard := congrArg card hst
  have hcardlt := hw.card_lt
  obtain ⟨hamountlt, hbogolt⟩ := hw
  rw [hashOf_add, hashOf_add] at hhash
  rw [amountOf_add, amountOf_add] at hamount
  rw [bogoSizeOf_add, bogoSizeOf_add] at hbogo
  rw [card_add, card_add] at hcard
  rw [amountOf_add] at hamountlt
  rw [bogoSizeOf_add] at hbogolt
  rw [card_add] at hcardlt
  refine ⟨?_, ?_, ?_, ?_, ?_⟩
  · rw [hnumerator, hdenominator, h.quotient]
    linear_combination -(stats.muhash.denominator : ZMod muhashModulus) * hhash
  · rw [hdenominator]
    exact h.unit.mul (isUnit_hashOf hunits removed)
  · simp only [CoinStatsDelta.applyTo, h.totalAmount, hd.addedAmount, hd.removedAmount,
      saturated_of_lt hwinserted.amount_lt, saturated_of_lt hwremoved.amount_lt, saturatingAdd]
    omega
  · simp only [CoinStatsDelta.applyTo, h.bogoSize, hd.addedBogoSize, hd.removedBogoSize,
      saturated_of_lt hwinserted.bogoSize_lt, saturated_of_lt hwremoved.bogoSize_lt, saturatingAdd]
    omega
  · simp only [CoinStatsDelta.applyTo, h.utxoCount, hd.addedUtxos, hd.removedUtxos,
      saturated_of_lt hwinserted.card_lt, saturated_of_lt hwremoved.card_lt, saturatingAdd]
    omega

variable (hunits : UnitElements ops) (reducer : Reducer)

include hunits

lemma onInsertCoins (h : Matches ops stats s) (insertions : List UtxoInserted)
    (hw : Within (insertedCoins insertions + s)) :
    Matches ops (CoinStatsListener.onInsertCoins ops reducer stats insertions) (insertedCoins insertions + s) := by
  rw [CoinStatsListener.onInsertCoins]
  split_ifs
  · exact h.insertEach insertions hw
  · have hmeans := (reducer.reduction _).means (fromInsertions_means ops)
      (chunks coinBatchChunkSize insertions)
    rw [sum_insertedCoins, flatten_chunks (by decide)] at hmeans
    exact h.applyTo hunits hmeans (by simp) hw

lemma onRemoveCoins (removals : List UtxoRemoved) (h : Matches ops stats (removedCoins removals + s))
    (hw : Within (removedCoins removals + s)) :
    Matches ops (CoinStatsListener.onRemoveCoins ops reducer stats removals) s := by
  rw [CoinStatsListener.onRemoveCoins]
  split_ifs
  · exact h.removeEach hunits removals
  · have hmeans := (reducer.reduction _).means (fromRemovals_means ops)
      (chunks coinBatchChunkSize removals)
    rw [sum_removedCoins, flatten_chunks (by decide)] at hmeans
    exact h.applyTo hunits hmeans (by simp) (by simpa using hw)

lemma onCommittedEventBatches (h : Matches ops stats s) (batches : List UtxoChangeEvents)
    (hst : (batches.map UtxoChangeEvents.removed).sum + t = (batches.map UtxoChangeEvents.inserted).sum + s)
    (hw : Within ((batches.map UtxoChangeEvents.inserted).sum + s)) :
    Matches ops (CoinStatsListener.onCommittedEventBatches ops reducer stats batches) t := by
  rw [CoinStatsListener.onCommittedEventBatches]
  dsimp only
  split_ifs with hempty
  · obtain rfl := List.isEmpty_iff.mp hempty
    simp only [List.map_nil, List.sum_nil, zero_add] at hst
    exact hst ▸ h
  · have hmeans := (reducer.reduction _).means (fromEvent_means ops)
      (CoinStatsListener.eventChunks batches)
    rw [(CoinStatsListener.eventChunks_coins batches).1, (CoinStatsListener.eventChunks_coins batches).2] at hmeans
    exact h.applyTo hunits hmeans hst hw
  · have hmeans := (CoinStatsDelta.Reduction.foldl _).means (fromEvents_means ops) batches
    exact h.applyTo hunits hmeans hst hw

end Matches

end CoinStats

open Batch Buckets Tally Fallible List UtxoChangeEvents Function CoinStatsListener

def Holdings (shards : UInt8 → ShardTable) (coins : UInt8 → Multiset UtxoCoin) : Prop :=
  ∀ s, ∃ M, Represents (shards s) M ∧ Enumerates UtxoCoin.outpoint (coins s) (coinsOf M)

def total (coins : UInt8 → Multiset UtxoCoin) : Multiset UtxoCoin := (shardIndexes.map coins).sum

lemma Holdings.exists {shards : UInt8 → ShardTable} (h : ∀ s, ∃ M, Represents (shards s) M) :
    ∃ coins, Holdings shards coins := by
  choose M hM using h
  choose coins _ henum using fun s => (hM s).coins
  exact ⟨fun s => coins s, fun s => ⟨M s, hM s, henum s⟩⟩

lemma Holdings.forEachCoin (set : UtxoSet) {coins : UInt8 → Multiset UtxoCoin} (h : Holdings set.shards coins) :
    ∃ listed, set.forEachCoin = .ok listed ∧ (listed : Multiset UtxoCoin) = total coins := by
  rw [UtxoSet.forEachCoin, total]
  induction shardIndexes with
  | nil => exact ⟨[], rfl, rfl⟩
  | cons s rest ih =>
    obtain ⟨listed, hlisted, hsum⟩ := ih
    obtain ⟨M, hM, henum⟩ := h s
    obtain ⟨first, hfirst, hfirstEnum⟩ := hM.coins
    refine ⟨first ++ listed, ?_, ?_⟩
    · rw [coinsOfShards, hfirst, ok_bind, hlisted, ok_bind, pure_eq_ok]
    · rw [← Multiset.coe_add, hsum, hfirstEnum.unique henum, map_cons, sum_cons]

section

variable (coins : UInt8 → Multiset UtxoCoin) (shard : UInt8)

def others : Multiset UtxoCoin := ((shardIndexes.erase shard).map coins).sum

lemma others_add : others coins shard + coins shard = total coins := by
  rw [add_comm]
  exact sum_map_erase coins (mem_shardIndexes shard)

lemma total_update (changed : Multiset UtxoCoin) :
    total (update coins shard changed) = others coins shard + changed := by
  rw [← others_add _ shard, update_self]
  congr 1
  rw [others]
  congr 1
  refine map_congr_left (fun s hs => update_of_ne ?_ _ _)
  rintro rfl
  exact (nodup_shardIndexes.mem_erase_iff.mp hs).1 rfl

end

lemma total_of_balanced (before after removed inserted : UInt8 → Multiset UtxoCoin) {active : List UInt8}
    (hn : active.Nodup) (hactive : ∀ s ∈ active, removed s + after s = inserted s + before s)
    (hother : ∀ s, s ∉ active → after s = before s) :
    (active.map removed).sum + total after = (active.map inserted).sum + total before := by
  have hfilter (f : UInt8 → Multiset UtxoCoin) : total f =
      (active.map f).sum + ((shardIndexes.filter (fun s => !decide (s ∈ active))).map f).sum := by
    rw [← sum_append, ← map_append]
    refine Perm.sum_eq (Perm.map f ?_)
    refine (filter_append_perm (· ∈ active) shardIndexes).symm.trans (Perm.append_right _ ?_)
    exact (perm_ext_iff_of_nodup (nodup_shardIndexes.filter _) hn).mpr
      (fun s => by simp [mem_shardIndexes])
  have hsum : (active.map removed).sum + (active.map after).sum =
      (active.map inserted).sum + (active.map before).sum := by
    rw [← sum_map_add, ← sum_map_add]
    exact congrArg sum (map_congr_left hactive)
  have hsame : (shardIndexes.filter (fun s => !decide (s ∈ active))).map after =
      (shardIndexes.filter (fun s => !decide (s ∈ active))).map before :=
    map_congr_left (fun s hs => hother s (by simpa using (mem_filter.mp hs).2))
  rw [hfilter after, hfilter before, ← add_assoc, hsum, add_assoc, hsame]

lemma commitEvery_eq {ε : Type} (step : UInt8 → ShardTable → (ShardTable × ε) × Run Unit) (order : List UInt8)
    (hn : order.Nodup) (shards : UInt8 → ShardTable) :
    (∀ s, (commitEvery step order shards).1 s = if s ∈ order then (step s (shards s)).1.1 else shards s) ∧
      (commitEvery step order shards).2.1 = order.map (fun s => (s, (step s (shards s)).1.2)) := by
  induction order generalizing shards with
  | nil => exact ⟨fun s => rfl, rfl⟩
  | cons s rest ih =>
    obtain ⟨hs, hrest⟩ := nodup_cons.mp hn
    obtain ⟨hshards, hextras⟩ := ih hrest (update shards s (step s (shards s)).1.1)
    have hunfold : (commitEvery step (s :: rest) shards).1 =
          (commitEvery step rest (update shards s (step s (shards s)).1.1)).1 ∧
        (commitEvery step (s :: rest) shards).2.1 = (s, (step s (shards s)).1.2) ::
          (commitEvery step rest (update shards s (step s (shards s)).1.1)).2.1 := by
      rw [commitEvery]
      simp only
      split <;> exact ⟨rfl, rfl⟩
    rw [hunfold.1, hunfold.2, hextras]
    refine ⟨fun u => ?_, congrArg _ (map_congr_left (fun u hu => ?_))⟩
    · rw [hshards u]
      by_cases hu : u = s
      · subst hu
        rw [if_neg hs, update_self, if_pos mem_cons_self]
      · simp [hu]
    · rw [update_of_ne (fun he : u = s => hs (he ▸ hu))]

section

variable {ops : MuHashOps} (hunits : UnitElements ops) (reducers : ℕ → Reducer) {stats : CoinStats}
  {shards : UInt8 → ShardTable} {coins : UInt8 → Multiset UtxoCoin}

lemma onCalls_append (stats : CoinStats) (calls : List ListenerCall) (call : ListenerCall) :
    CoinStatsListener.onCalls ops reducers stats (calls ++ [call]) =
      CoinStatsListener.onCall ops (reducers calls.length)
        (CoinStatsListener.onCalls ops reducers stats calls) call := by
  induction calls generalizing reducers stats with
  | nil => rfl
  | cons first rest ih => exact ih _ _

include hunits

lemma follows_listener (apart before : Multiset UtxoCoin) : Follows listenerSink (fun calls s i =>
    Within (i + before) → CoinStats.Matches ops (CoinStatsListener.onCalls ops reducers stats calls) (apart + s) ∧
      apart + s ≤ i + before) where
  spend := by
    intro calls removals s i h hw
    obtain ⟨hmatches, hle⟩ := h hw
    rw [add_left_comm] at hmatches hle
    change CoinStats.Matches ops (onCalls ops reducers stats (calls ++ [.onRemoveCoins removals])) _ ∧ _
    rw [onCalls_append]
    exact ⟨hmatches.onRemoveCoins hunits _ removals (hw.mono hle), (Multiset.le_add_left _ _).trans hle⟩
  overwrite := by
    intro calls removal s i h hw
    obtain ⟨hmatches, hle⟩ := h hw
    rw [Multiset.add_cons, ← Multiset.singleton_add] at hmatches hle
    change CoinStats.Matches ops (onCalls ops reducers stats (calls ++ [.onRemoveCoins [removal]])) _ ∧ _
    rw [onCalls_append]
    exact ⟨hmatches.onRemoveCoins hunits _ [removal] (hw.mono hle), (Multiset.le_add_left _ _).trans hle⟩
  inserts := by
    intro calls inserted s i h hw
    rw [add_assoc] at hw ⊢
    obtain ⟨hmatches, hle⟩ := h (hw.mono (Multiset.le_add_left _ _))
    have hgrown : insertedCoins inserted + (apart + s) ≤ insertedCoins inserted + (i + before) := add_le_add_right hle _
    rw [add_left_comm]
    change CoinStats.Matches ops (onCalls ops reducers stats (calls ++ [.onInsertCoins inserted])) _ ∧ _
    rw [onCalls_append]
    exact ⟨hmatches.onInsertCoins hunits _ inserted (hw.mono hgrown), hgrown⟩

end

def addedCoins (adds : List UtxoAdd) : Multiset UtxoCoin := (adds.map UtxoAdd.coin : List UtxoCoin)

lemma insertedCoins_adds (adds : List UtxoAdd) :
    insertedCoins (adds.map (fun add => add.payload.inserted)) = addedCoins adds := by
  rw [insertedCoins, map_map]
  rfl

lemma bucketed_le {α : Type} (shard : α → UInt8) (inserted : α → UtxoInserted) (active : List UInt8)
    (hn : active.Nodup) (items : List α) :
    (active.map (fun s => insertedCoins ((items.filter (fun item => shard item == s)).map inserted))).sum ≤
      insertedCoins (items.map inserted) := by
  induction active generalizing items with
  | nil => exact Multiset.zero_le _
  | cons s rest ih =>
    obtain ⟨hs, hrest⟩ := nodup_cons.mp hn
    have hapart : rest.map (fun u => insertedCoins ((items.filter (fun item => shard item == u)).map inserted)) =
        rest.map (fun u => insertedCoins (((items.filter (fun item => !(shard item == s))).filter
          (fun item => shard item == u)).map inserted)) := by
      refine map_congr_left (fun u hu => ?_)
      rw [filter_filter]
      congr 2
      refine filter_congr (fun item _ => ?_)
      by_cases hitem : shard item = u
      · have hne : u ≠ s := fun he => hs (he ▸ hu)
        simp [hitem, hne]
      · simp [hitem]
    have hperm : (items.map inserted).Perm ((items.filter (fun item => shard item == s)).map inserted ++
        (items.filter (fun item => !(shard item == s))).map inserted) := by
      rw [← map_append]
      exact (filter_append_perm _ items).symm.map inserted
    have hsplit : insertedCoins (items.map inserted) =
        insertedCoins ((items.filter (fun item => shard item == s)).map inserted) +
          insertedCoins ((items.filter (fun item => !(shard item == s))).map inserted) := by
      rw [← insertedCoins_append]
      exact Multiset.coe_eq_coe.mpr (hperm.map UtxoInserted.coin)
    rw [map_cons, hapart, hsplit]
    exact add_le_add_right (ih hrest _) _

lemma batches_eq {active order : List UInt8} (ho : order.Perm active) (events : UInt8 → UtxoChangeEvents) :
    active.filterMap (fun s => ((order.map (fun s => (s, events s))).find? (fun event => event.1 == s)).map Prod.snd) =
      active.map events := by
  rw [← congrFun (filterMap_eq_map) active]
  refine filterMap_congr (fun s hs => ?_)
  have hself : order.find? (fun u => u == s) = some s := by
    cases hf : order.find? (fun u => u == s) with
    | none => exact absurd (beq_self_eq_true s) (find?_eq_none.mp hf s (ho.mem_iff.mpr hs))
    | some u => rw [show u = s by simpa using find?_some hf]
  rw [find?_map, show (fun event : UInt8 × UtxoChangeEvents => event.1 == s) ∘ (fun s => (s, events s)) =
    fun u => u == s from rfl, hself]
  rfl

def Kept (ops : MuHashOps) (reducers : ℕ → Reducer) (stats : CoinStats) (result : UtxoSet) (bound : Multiset UtxoCoin) :
    Prop :=
  ∃ coins calls, result.listener = some calls ∧ Holdings result.shards coins ∧
    CoinStats.Matches ops (CoinStatsListener.onCalls ops reducers stats calls) (total coins) ∧ total coins ≤ bound

section

variable {ops : MuHashOps} (hunits : UnitElements ops) (reducers : ℕ → Reducer) {stats : CoinStats}
  {shards : UInt8 → ShardTable} {coins : UInt8 → Multiset UtxoCoin} (h : Holdings shards coins)
  (hstats : CoinStats.Matches ops stats (total coins)) {adds : List UtxoAdd} {removes : List OutPoint}
  (hw : Within (addedCoins adds + total coins)) (hs : ∀ add ∈ adds, add.txout.scriptPubkey.length < 2 ^ 16)

include h hstats

lemma kept_unchanged : Kept ops reducers stats ⟨shards, some []⟩ (addedCoins adds + total coins) :=
  ⟨coins, [], rfl, h, hstats, Multiset.le_add_left _ _⟩

include hunits hw

include hs in
lemma commitSingleShard_kept (shard : UInt8) :
    Kept ops reducers stats ((⟨shards, some []⟩ : UtxoSet).commitSingleShard adds removes shard).1
      (addedCoins adds + total coins) := by
  obtain ⟨M, hM, henum⟩ := h shard
  have hstart : Tracked (fun calls s i => Within (i + total coins) →
      CoinStats.Matches ops (onCalls ops reducers stats calls) (others coins shard + s) ∧
        others coins shard + s ≤ i + total coins) (shards shard, []) 0 := by
    refine ⟨M, coins shard, 0, hM, henum, fun _ => ?_, Multiset.zero_le _⟩
    rw [others_add, zero_add]
    exact ⟨hstats, le_rfl⟩
  obtain ⟨M', s, i, hM', henum', hcalls, hi⟩ := commitSingleShardWithListener_tracked
    (follows_listener hunits reducers _ _) hstart adds removes hs
  rw [zero_add, insertedCoins_adds] at hi
  have hle : i + total coins ≤ addedCoins adds + total coins := add_le_add_left hi _
  obtain ⟨hmatches, hbound⟩ := hcalls (hw.mono hle)
  refine ⟨update coins shard s, _, rfl, fun u => ?_, ?_, ?_⟩
  · change ∃ M, Represents (update shards shard _ u) M ∧ _
    by_cases hu : u = shard
    · subst hu
      rw [update_self, update_self]
      exact ⟨M', hM', henum'⟩
    · rw [update_of_ne hu, update_of_ne hu]
      exact h u
  · rw [total_update]
    exact hmatches
  · rw [total_update]
    exact hbound.trans hle

include hs in
lemma commitMultiShardWithListener_kept (schedule : Schedule) {buckets : ShardCommitBuckets} {active : List UInt8}
    (hactive : active.Nodup)
    (hb : ∀ s, buckets.adds.get s = (adds.map addPayload).filter (fun add => add.1.shard == s) ∧
      buckets.removes.get s = (removes.map removePayload).filter (fun remove => remove.key.shard == s)) :
    Kept ops reducers stats
      (UtxoSet.commitMultiShardWithListener schedule ⟨shards, some []⟩ [] active buckets).1
      (addedCoins adds + total coins) := by
  rw [UtxoSet.commitMultiShardWithListener]
  have horder := UtxoSet.listenerOrder_perm schedule active
  generalize (if active.length < parallelListenerShardThreshold then active else schedule.order active) = order
    at horder ⊢
  have hn : order.Nodup := horder.nodup_iff.mpr hactive
  let step : UInt8 → ShardTable → (ShardTable × UtxoChangeEvents) × Run Unit := fun s table =>
    commitBatchCollectEvents table (buckets.adds.get s) (buckets.removes.get s)
  obtain ⟨hshards, hevents⟩ := commitEvery_eq step order hn shards
  -- what each shard did, by its events
  have hstep (s : UInt8) : ∃ M t, Represents (step s (shards s)).1.1 M ∧
      Enumerates UtxoCoin.outpoint t (coinsOf M) ∧
      removed (step s (shards s)).1.2 + t =
        inserted (step s (shards s)).1.2 + coins s ∧
      inserted (step s (shards s)).1.2 ≤ insertedCoins
        (((adds.map addPayload).filter (fun add => add.1.shard == s)).map (fun add => add.2.2.inserted)) := by
    obtain ⟨M, hM, henum⟩ := h s
    have hstart : Tracked (fun events u i => removed events + u =
        inserted events + coins s ∧ inserted events = i) (shards s, []) 0 :=
      ⟨M, coins s, 0, hM, henum, ⟨rfl, rfl⟩, Multiset.zero_le _⟩
    have htracked := commitBatchCollectEvents_tracked (follows (coins s)) hstart (buckets.adds.get s)
      (buckets.removes.get s) (fun add ha => ?_) (fun remove hr => ?_)
    · obtain ⟨M', t, i, hM', henum', ⟨hbalance, hi⟩, hle⟩ := htracked
      refine ⟨M', t, hM', henum', hbalance, ?_⟩
      rw [← (hb s).1]
      exact hi.trans_le (by rwa [zero_add] at hle)
    · rw [(hb s).1] at ha
      obtain ⟨add, hadd, rfl⟩ := mem_map.mp (mem_filter.mp ha).1
      exact ⟨rfl, rfl, hs add hadd⟩
    · rw [(hb s).2] at hr
      obtain ⟨remove, -, rfl⟩ := mem_map.mp (mem_filter.mp hr).1
      exact ⟨rfl, rfl⟩
  choose M t hM henum hbalance hle using hstep
  have hbatches := batches_eq horder (fun s => (step s (shards s)).1.2)
  let after : UInt8 → Multiset UtxoCoin := fun s => if s ∈ active then t s else coins s
  have hafter (s : UInt8) (hmem : s ∈ active) : after s = t s := if_pos hmem
  have htotal := total_of_balanced coins after (fun s => removed (step s (shards s)).1.2)
    (fun s => inserted (step s (shards s)).1.2) hactive
    (fun s hmem => hafter s hmem ▸ hbalance s) (fun s hnot => if_neg hnot)
  have hinserted : (active.map (fun s => inserted (step s (shards s)).1.2)).sum ≤ addedCoins adds := by
    refine (sum_le_sum (fun s _ => hle s)).trans ((bucketed_le _ _ active hactive _).trans_eq ?_)
    rw [map_map]
    exact insertedCoins_adds adds
  have hgrown : (active.map (fun s => inserted (step s (shards s)).1.2)).sum + total coins ≤
      addedCoins adds + total coins := add_le_add_left hinserted _
  refine ⟨after, _, rfl, fun s => ?_, ?_, ?_⟩
  · change ∃ M, Represents ((commitEvery step order shards).1 s) M ∧ _
    rw [hshards s]
    by_cases hmem : s ∈ active
    · rw [if_pos (horder.mem_iff.mpr hmem), hafter s hmem]
      exact ⟨M s, hM s, henum s⟩
    · rw [if_neg (fun hm => hmem (horder.mem_iff.mp hm)), show after s = coins s from if_neg hmem]
      exact h s
  · change CoinStats.Matches ops (onCommittedEventBatches ops (reducers 0) stats
      (active.filterMap (fun s => ((commitEvery step order shards).2.1.find?
        (fun event => event.1 == s)).map Prod.snd))) _
    rw [hevents, hbatches]
    refine hstats.onCommittedEventBatches hunits (reducers 0) _ ?_ ?_
    · rw [map_map, map_map]
      exact htotal
    · rw [map_map]
      exact hw.mono hgrown
  · exact (Multiset.le_add_left _ _).trans (htotal.trans_le hgrown)

lemma commitAddsAndRemoves_kept (schedule : Schedule) :
    Kept ops reducers stats ((⟨shards, some []⟩ : UtxoSet).commitAddsAndRemoves schedule adds removes).1
      (addedCoins adds + total coins) := by
  rw [UtxoSet.commitAddsAndRemoves]
  cases hv : validateAdds adds with
  | error fault => exact kept_unchanged reducers h hstats
  | ok =>
    have hs := validateAdds_ok.mp hv
    simp only
    cases ha : activeShards (shardCounts addShard adds) (shardCounts removeShard removes) with
    | nil => exact kept_unchanged reducers h hstats
    | cons shard more =>
      cases more with
      | nil => exact commitSingleShard_kept hunits reducers h hstats hw hs shard
      | cons second rest =>
        obtain ⟨buckets, hnew, hb⟩ := buckets_new_get adds removes false
        simp only [Option.isNone_some, Bool.false_and]
        rw [hnew]
        exact commitMultiShardWithListener_kept hunits reducers h hstats hw hs schedule
          (ha ▸ UtxoSet.nodup_activeShards _ _) hb

end

open ZMod

section

lemma pow_256 (n : ℕ) : 256 ^ n = 2 ^ (8 * n) := by
  rw [pow_mul]
  norm_num

lemma muhashModulus_eq : muhashModulus = 2 ^ 3072 - 1103717 := by
  unfold muhashModulus
  exact Eq.refl _

lemma bounds_of_eq {k m n : ℕ} (hn : 21 ≤ n) (hm : 8 * m = n) (hk : k = 2 ^ n - 1103717) : 1 < k ∧ k < 256 ^ m := by
  have hle : 2 ^ 21 ≤ 2 ^ n := Nat.pow_le_pow_right Nat.two_pos hn
  rw [pow_256, hm]
  omega

lemma muhashModulus_bounds : 1 < muhashModulus ∧ muhashModulus < 256 ^ 384 :=
  bounds_of_eq (by omega) (by omega) muhashModulus_eq

instance : NeZero muhashModulus := ⟨(Nat.zero_lt_of_lt muhashModulus_bounds.1).ne'⟩

variable {ops : MuHashOps} (hinv : InvModOk ops)

include hinv

variable {muhash : MuHash3072}

lemma finalize_spec (hunit : IsUnit (muhash.denominator : ZMod muhashModulus)) :
    ∃ quotient : ZMod muhashModulus, muhash.finalize ops = (LittleEndian.encode 384 quotient.val).reverse ∧
      quotient * muhash.denominator = muhash.numerator := by
  rw [← natCast_mod, isUnit_iff_coprime] at hunit
  obtain ⟨inverse, hsome, hone⟩ := hinv _ hunit
  refine ⟨((muhash.numerator % muhashModulus * inverse : ℕ) : ZMod muhashModulus), ?_, ?_⟩
  · rw [MuHash3072.finalize, hsome, val_natCast]
  · have hcast := congrArg (Nat.cast (R := ZMod muhashModulus)) hone
    rw [natCast_mod, Nat.cast_mul, natCast_mod, Nat.cast_one] at hcast
    rw [Nat.cast_mul, natCast_mod, mul_assoc, mul_comm (inverse : ZMod muhashModulus), hcast, mul_one]

lemma CoinStats.Matches.finalize_eq {stats : CoinStats} {s : Multiset UtxoCoin} (h : Matches ops stats s) :
    stats.muhash.finalize ops = (LittleEndian.encode 384 (hashOf ops s).val).reverse := by
  obtain ⟨quotient, hfinalize, hquotient⟩ := finalize_spec hinv h.unit
  rw [h.quotient] at hquotient
  rw [hfinalize, h.unit.mul_right_cancel hquotient]

lemma quotient_of_finalize (hunit : IsUnit (muhash.denominator : ZMod muhashModulus))
    {hash : ZMod muhashModulus} (h : muhash.finalize ops = (LittleEndian.encode 384 hash.val).reverse) :
    (muhash.numerator : ZMod muhashModulus) = hash * muhash.denominator := by
  obtain ⟨quotient, hfinalize, hquotient⟩ := finalize_spec hinv hunit
  have hlt (n : ZMod muhashModulus) : n.val < 256 ^ 384 := n.val_lt.trans muhashModulus_bounds.2
  have hval := LittleEndian.encode_injective 384 _ _ (hlt quotient) (hlt hash)
    (reverse_injective (hfinalize.symm.trans h))
  rw [← hquotient, val_injective _ hval]

end

section

variable {ops : MuHashOps} (set : UtxoSet) {coins : UInt8 → Multiset UtxoCoin}

def UtxoCoin.inserted (coin : UtxoCoin) : UtxoInserted :=
  { op := coin.outpoint, txout := coin.txout, height := coin.height, coinbase := coin.coinbase }

lemma scanCoinStats_matches (h : Holdings set.shards coins) (hw : Within (total coins)) (height : UInt32) :
    ∃ scan, scanCoinStats ops set height true = .ok scan ∧ CoinStats.Matches ops scan (total coins) := by
  obtain ⟨listed, hlisted, hsum⟩ := Holdings.forEachCoin set h
  have hsame : insertedCoins (listed.map UtxoCoin.inserted) = total coins := by
    rw [insertedCoins, map_map, ← hsum, show UtxoInserted.coin ∘ UtxoCoin.inserted = id from rfl, map_id]
  have hstart : CoinStats.Matches ops { CoinStats.new with height } 0 :=
    let hnew : CoinStats.Matches ops .new 0 := CoinStats.Matches.new
    ⟨hnew.quotient, hnew.unit, rfl, rfl, rfl⟩
  have hscan := hstart.insertEach (listed.map UtxoCoin.inserted) (by rw [add_zero, hsame]; exact hw)
  rw [add_zero, hsame, foldl_map] at hscan
  refine ⟨_, ?_, hscan⟩
  rw [scanCoinStats, hlisted]
  rfl

end

structure TrackedSet where
  shards : UInt8 → ShardTable
  stats : CoinStats

inductive BlockStep
  | commit (changes : BlockChanges)
  | undo (batch : UndoBatch)

namespace BlockStep

def adds : BlockStep → List UtxoAdd
  | commit changes => changes.adds
  | undo batch => batch.restores

def apply (schedule : Schedule) (set : UtxoSet) : BlockStep → UtxoSet × Run Unit
  | commit changes => set.commitBlock schedule changes
  | undo batch => set.undoBlock schedule batch

end BlockStep

structure TrackedStep where
  block : BlockStep
  schedule : Schedule
  reducers : ℕ → Reducer

namespace TrackedSet

variable (ops : MuHashOps)

section

variable (tracked : TrackedSet)

def set : UtxoSet := ⟨tracked.shards, some []⟩

def step (next : TrackedStep) : TrackedSet :=
  let set := (next.block.apply next.schedule tracked.set).1
  { shards := set.shards,
    stats := CoinStatsListener.onCalls ops next.reducers tracked.stats (set.listener.getD []) }

def run (steps : List TrackedStep) : TrackedSet := steps.foldl (step ops) tracked

end

/-- The amounts and sizes of the live coins and of those a step adds stay below `2 ^ 64` together. -/
def SumsFit : TrackedSet → List TrackedStep → Prop
  | _, [] => True
  | tracked, next :: rest =>
    (∀ live, tracked.set.forEachCoin = .ok live → Within (addedCoins next.block.adds + (live : Multiset UtxoCoin))) ∧
      SumsFit (tracked.step ops next) rest

def Coherent (tracked : TrackedSet) : Prop :=
  ∀ height, ∃ scan, scanCoinStats ops tracked.set height true = .ok scan ∧
    tracked.stats.totalAmount = scan.totalAmount ∧ tracked.stats.bogoSize = scan.bogoSize ∧
    tracked.stats.utxoCount = scan.utxoCount ∧ tracked.stats.muhash.finalize ops = scan.muhash.finalize ops

def Follows (tracked : TrackedSet) : Prop :=
  ∃ coins, Holdings tracked.shards coins ∧ CoinStats.Matches ops tracked.stats (total coins) ∧ Within (total coins)

variable {ops} (hinv : InvModOk ops) (hunits : UnitElements ops) {tracked : TrackedSet}

include hinv in
lemma Follows.coherent (h : tracked.Follows ops) : tracked.Coherent ops := by
  obtain ⟨coins, hcoins, hstats, hw⟩ := h
  intro height
  obtain ⟨scan, hscan, hmatches⟩ := scanCoinStats_matches tracked.set hcoins hw height
  refine ⟨scan, hscan, ?_, ?_, ?_, ?_⟩
  · rw [hstats.totalAmount, hmatches.totalAmount]
  · rw [hstats.bogoSize, hmatches.bogoSize]
  · rw [hstats.utxoCount, hmatches.utxoCount]
  · rw [hstats.finalize_eq hinv, hmatches.finalize_eq hinv]

include hinv in
lemma Coherent.follows (h : tracked.Coherent ops) (hunit : tracked.stats.muhash.denominator.Coprime muhashModulus)
    {coins : UInt8 → Multiset UtxoCoin} (hcoins : Holdings tracked.shards coins) (hw : Within (total coins)) :
    tracked.Follows ops := by
  obtain ⟨scan, hscan, hamount, hbogo, hcount, hfinalize⟩ := h 0
  obtain ⟨scan', hscan', hmatches⟩ := scanCoinStats_matches tracked.set hcoins hw 0
  rw [hscan] at hscan'
  cases hscan'
  have hisUnit := (isUnit_iff_coprime _ _).mpr hunit
  refine ⟨coins, hcoins, ⟨?_, hisUnit, ?_, ?_, ?_⟩, hw⟩
  · exact quotient_of_finalize hinv hisUnit (hfinalize.trans (hmatches.finalize_eq hinv))
  · rw [hamount, hmatches.totalAmount]
  · rw [hbogo, hmatches.bogoSize]
  · rw [hcount, hmatches.utxoCount]

include hunits in
lemma Follows.step {next : TrackedStep} (h : tracked.Follows ops)
    (hsums : ∀ live, tracked.set.forEachCoin = .ok live → Within (addedCoins next.block.adds + (live :
      Multiset UtxoCoin))) :
    (tracked.step ops next).Follows ops := by
  obtain ⟨coins, hcoins, hstats, -⟩ := h
  obtain ⟨live, hlive, hsum⟩ := Holdings.forEachCoin tracked.set hcoins
  have hw := hsum ▸ hsums live hlive
  have hkept : Kept ops next.reducers tracked.stats (next.block.apply next.schedule tracked.set).1
      (addedCoins next.block.adds + total coins) := by
    cases hblock : next.block with
    | commit changes =>
      rw [hblock] at hw
      exact commitAddsAndRemoves_kept hunits next.reducers hcoins hstats hw next.schedule
    | undo batch =>
      rw [hblock] at hw
      exact commitAddsAndRemoves_kept hunits next.reducers hcoins hstats hw next.schedule
  obtain ⟨after, calls, hcalls, hholds, hmatches, hle⟩ := hkept
  refine ⟨after, hholds, ?_, hw.mono hle⟩
  rw [TrackedSet.step, hcalls]
  exact hmatches

include hunits in
lemma Follows.run (steps : List TrackedStep) (h : tracked.Follows ops) (hsums : SumsFit ops tracked steps) :
    (tracked.run ops steps).Follows ops := by
  induction steps generalizing tracked with
  | nil => exact h
  | cons next rest ih => exact ih (h.step hunits hsums.1) hsums.2

end TrackedSet

/-- Whatever commits and undos are made, in whatever order their shards run and their deltas are combined, the
listener that agreed with a scan of the set before agrees with a scan of the set after. -/
theorem coin_stats_follow_scan (ops : MuHashOps) (hinv : InvModOk ops) (hunits : UnitElements ops)
    (tracked : TrackedSet) (hset : tracked.set.WellFormed)
    (hunit : tracked.stats.muhash.denominator.Coprime muhashModulus) (hstart : tracked.Coherent ops)
    (steps : List TrackedStep) (hsums : tracked.SumsFit ops steps) : (tracked.run ops steps).Coherent ops := by
  cases steps with
  | nil => exact hstart
  | cons next rest =>
    obtain ⟨M, hM⟩ := hset
    obtain ⟨coins, hcoins⟩ := Holdings.exists (fun s => ⟨_, hM s⟩)
    obtain ⟨live, hlive, hsum⟩ := Holdings.forEachCoin tracked.set hcoins
    have hw : Within (total coins) := (hsum ▸ hsums.1 live hlive).mono (Multiset.le_add_left _ _)
    exact ((hstart.follows hinv hunit hcoins hw).run hunits (next :: rest) hsums).coherent hinv

def sampleMuHashOps : MuHashOps where
  element bytes := 2 ^ (bytes.map UInt8.toNat).sum
  invMod d m := some ((d : ZMod m)⁻¹).val

def sampleTracked : TrackedSet := ⟨fun _ => [], .new⟩

def sampleSteps : List TrackedStep :=
  [⟨.commit ⟨Sample.coins, []⟩, .sequential, fun _ => .sequential⟩,
    ⟨.undo ⟨[], [⟨.zero, 0⟩]⟩, .sequential, fun _ => .sequential⟩]

lemma sampleMuHashOps_inv : InvModOk sampleMuHashOps := by
  intro d hd
  refine ⟨_, rfl, ?_⟩
  have hcast : ((d * ((d : ZMod muhashModulus)⁻¹).val : ℕ) : ZMod muhashModulus) = (1 : ℕ) := by
    rw [Nat.cast_mul, natCast_zmod_val, coe_mul_inv_eq_one d hd, Nat.cast_one]
  rw [(natCast_eq_natCast_iff' _ _ _).mp hcast, Nat.mod_eq_of_lt muhashModulus_bounds.1]

lemma sampleMuHashOps_units : UnitElements sampleMuHashOps := by
  intro coin
  exact Nat.Coprime.pow_left _ (by decide +kernel)

theorem coin_stats_follow_scan_sample : (sampleTracked.run sampleMuHashOps sampleSteps).Coherent sampleMuHashOps := by
  have hempty : sampleTracked.set.Represents (fun _ _ => none) := UtxoSet.represents_new
  have htotal : total (fun _ => 0) = 0 := by simp [total]
  have hstart : sampleTracked.Follows sampleMuHashOps := by
    refine ⟨fun _ => 0, fun _ => ⟨_, Represents.empty, Enumerates.empty⟩, ?_, ?_⟩
    · rw [htotal]
      exact CoinStats.Matches.new
    · rw [htotal]
      exact ⟨by decide, by decide⟩
  refine coin_stats_follow_scan sampleMuHashOps sampleMuHashOps_inv sampleMuHashOps_units sampleTracked
    ⟨_, hempty⟩ (Nat.coprime_one_left muhashModulus) (hstart.coherent sampleMuHashOps_inv) sampleSteps ?_
  have hfirst : sampleTracked.set.forEachCoin = .ok [] := by decide +kernel
  have hsecond : (sampleTracked.step sampleMuHashOps
      ⟨.commit ⟨Sample.coins, []⟩, .sequential, fun _ => .sequential⟩).set.forEachCoin =
      .ok (Sample.coins.map UtxoAdd.coin) := by decide +kernel
  refine ⟨fun live hlive => ?_, fun live hlive => ?_, trivial⟩
  · rw [hfirst] at hlive
    cases hlive
    exact ⟨by decide, by decide⟩
  · rw [hsecond] at hlive
    cases hlive
    exact ⟨by decide, by decide⟩

end BitcoinRs.Utxo
