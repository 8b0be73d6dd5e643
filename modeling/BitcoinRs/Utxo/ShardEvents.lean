import BitcoinRs.Utxo.SetWalk

namespace BitcoinRs.Utxo

open Batch KeyedList Runs Tally Fallible List Function SpendPayload

variable (insertion : UtxoInserted)

def UtxoInserted.coin : UtxoCoin :=
  { outpoint := insertion.op, txout := insertion.txout, coinbase := insertion.coinbase, height := insertion.height }

def UtxoRemoved.coin (removal : UtxoRemoved) : UtxoCoin :=
  { outpoint := removal.op, txout := removal.txout, coinbase := removal.coinbase, height := removal.height }

def insertedCoins (insertions : List UtxoInserted) : Multiset UtxoCoin :=
    (insertions.map UtxoInserted.coin : List UtxoCoin)

def removedCoins (removals : List UtxoRemoved) : Multiset UtxoCoin := (removals.map UtxoRemoved.coin : List UtxoCoin)

lemma insertedCoins_cons (rest : List UtxoInserted) :
    insertedCoins (insertion :: rest) = insertion.coin ::ₘ insertedCoins rest := rfl

lemma removedCoins_cons (removal : UtxoRemoved) (rest : List UtxoRemoved) :
    removedCoins (removal :: rest) = removal.coin ::ₘ removedCoins rest := rfl

lemma insertedCoins_append (first rest : List UtxoInserted) :
    insertedCoins (first ++ rest) = insertedCoins first + insertedCoins rest := by
  rw [insertedCoins, map_append]
  rfl

lemma removedCoins_append (first rest : List UtxoRemoved) :
    removedCoins (first ++ rest) = removedCoins first + removedCoins rest := by
  rw [removedCoins, map_append]
  rfl

lemma sum_insertedCoins (batches : List (List UtxoInserted)) :
    (batches.map insertedCoins).sum = insertedCoins batches.flatten := by
  induction batches with
  | nil => rfl
  | cons batch rest ih => rw [map_cons, sum_cons, ih, flatten_cons, insertedCoins_append]

lemma sum_removedCoins (batches : List (List UtxoRemoved)) :
    (batches.map removedCoins).sum = removedCoins batches.flatten := by
  induction batches with
  | nil => rfl
  | cons batch rest ih => rw [map_cons, sum_cons, ih, flatten_cons, removedCoins_append]

structure Follows {σ : Type} (sink : CommitSink σ) (R : σ → Multiset UtxoCoin → Multiset UtxoCoin → Prop) : Prop where
  spend : ∀ {events : σ} {removals : List UtxoRemoved} {s i : Multiset UtxoCoin},
    R events (removedCoins removals + s) i → R (sink.pushSpendRun events removals) s i
  overwrite : ∀ {events : σ} {removal : UtxoRemoved} {s i : Multiset UtxoCoin},
    R events (removal.coin ::ₘ s) i → R (sink.pushOverwrite events removal) s i
  inserts : ∀ {events : σ} {inserted : List UtxoInserted} {s i : Multiset UtxoCoin},
    R events s i → R (sink.pushInserts events inserted) (insertedCoins inserted + s) (insertedCoins inserted + i)

lemma coinsOf_update (M : Outputs) (x : Hash256) (v : UInt32) (part : Option OutputParts) :
    coinsOf (update M x (update (M x) v part)) =
      update (coinsOf M) ⟨x, v⟩ (part.map (coinOf x)) := by
  funext op
  by_cases hop : op = ⟨x, v⟩
  · subst hop
    simp [coinsOf]
  · rw [update_of_ne hop, coinsOf, coinsOf]
    by_cases hx : op.txid = x
    · have hv : op.vout ≠ v := fun hv => hop (by rw [← hx, ← hv])
      rw [hx, update_self, update_of_ne hv]
    · rw [update_of_ne hx]

def BuildPayload.inserted (payload : BuildPayload) : UtxoInserted :=
  { op := payload.outpoint, txout := payload.txout, height := payload.height, coinbase := payload.coinbase }

lemma BuildPayload.inserted_coin {payload : BuildPayload} {x : Hash256} (h : payload.outpoint = ⟨x, payload.vout⟩) :
    payload.inserted.coin = coinOf x (payloadParts payload) := by
  rw [inserted, h]
  rfl

variable {M : Outputs}

section

variable {σ : Type} {sink : CommitSink σ} {R : σ → Multiset UtxoCoin → Multiset UtxoCoin → Prop}
  (hR : Follows sink R) {x : Hash256}

include hR

variable {s i : Multiset UtxoCoin}

lemma Follows.flush {events : σ} (h : R events s i) (inserted : List UtxoInserted) :
    R (flushInserted sink events inserted) (insertedCoins inserted + s) (insertedCoins inserted + i) := by
  rw [flushInserted]
  cases inserted with
  | nil => simpa [insertedCoins] using h
  | cons => exact hR.inserts h

lemma emitAddEvents_follows (payloads : List BuildPayload) (inserted : List UtxoInserted)
    (hop : ∀ payload ∈ payloads, payload.outpoint = ⟨x, payload.vout⟩)
    (hkey : ∀ v part, M x v = some part → part.vout = v) {events : σ} (hevents : R events s i)
    (hs : Enumerates UtxoCoin.outpoint (insertedCoins inserted + s) (coinsOf M)) :
    ∃ t, Enumerates UtxoCoin.outpoint t
        (coinsOf (update M x (insertAll (M x) (bindings (payloads.map payloadParts))))) ∧
      R (emitAddEvents sink events inserted
          (payloads.zip (displaceEach (M x) (bindings (payloads.map payloadParts))))) t
        (insertedCoins (payloads.map BuildPayload.inserted) + (insertedCoins inserted + i)) := by
  induction payloads generalizing M events inserted s i with
  | nil =>
    refine ⟨insertedCoins inserted + s, ?_, ?_⟩
    · rw [show insertAll (M x) (bindings ([].map payloadParts)) = M x from rfl, update_eq_self]
      exact hs
    · rw [show insertedCoins ([].map BuildPayload.inserted) = 0 from rfl, zero_add]
      exact hR.flush hevents inserted
  | cons payload rest ih =>
    have hhere := hop payload mem_cons_self
    have hcoin := BuildPayload.inserted_coin hhere
    -- the outputs of the txid once the payload is written
    let M₁ : Outputs := update M x (update (M x) payload.vout (some (payloadParts payload)))
    have hM₁ : M₁ x = update (M x) payload.vout (some (payloadParts payload)) := update_self ..
    have hcoins : coinsOf M₁ = update (coinsOf M) payload.inserted.coin.outpoint (some payload.inserted.coin) := by
      rw [coinsOf_update, hcoin]
      rfl
    have hkey₁ : ∀ v part, M₁ x v = some part → part.vout = v := by
      intro v part hp
      rw [hM₁] at hp
      by_cases hv : v = payload.vout
      · subst hv
        rw [update_self, Option.some_inj] at hp
        rw [← hp]
        rfl
      · rw [update_of_ne hv] at hp
        exact hkey v part hp
    have hfinal : update M x (insertAll (M x) (bindings ((payload :: rest).map payloadParts))) =
        update M₁ x (insertAll (M₁ x) (bindings (rest.map payloadParts))) := by
      rw [update_idem, hM₁]
      rfl
    have hevent : displaceEach (M x) (bindings ((payload :: rest).map payloadParts)) =
        M x payload.vout :: displaceEach (M₁ x) (bindings (rest.map payloadParts)) := by
      rw [hM₁]
      rfl
    have hall (i' : Multiset UtxoCoin) : insertedCoins ((payload :: rest).map BuildPayload.inserted) + i' =
        insertedCoins (rest.map BuildPayload.inserted) + (insertedCoins [payload.inserted] + i') := by
      rw [map_cons, ← singleton_append, insertedCoins_append, add_assoc, add_left_comm]
    have hrest := fun payload hp => hop payload (mem_cons_of_mem _ hp)
    rw [hfinal, hevent, hall]
    have hat : coinsOf M payload.inserted.coin.outpoint = (M x payload.vout).map (coinOf x) := by
      rw [hcoin]
      rfl
    cases hold : M x payload.vout with
    | none =>
      rw [hold] at hat
      have hgrown := hs.insert hat
      rw [← hcoins] at hgrown
      obtain ⟨t, ht, hmore⟩ := ih (inserted ++ [payload.inserted]) hrest hkey₁ hevents (by
        rw [insertedCoins_append, add_right_comm, add_comm _ (insertedCoins [payload.inserted])]
        exact hgrown)
      refine ⟨t, ht, ?_⟩
      rwa [insertedCoins_append, add_right_comm, add_comm _ (insertedCoins [payload.inserted])] at hmore
    | some output =>
      rw [hold] at hat
      obtain ⟨t₁, hsplit, ht₁⟩ := hs.erase hat
      have hgrown := ht₁.insert (update_self ..)
      rw [update_idem, ← hcoins] at hgrown
      have hremoval : coinOf x output = UtxoRemoved.coin
          { op := payload.outpoint, txout := txoutFromParts output.value output.script, height := output.height,
            coinbase := output.coinbase } := by
        rw [hhere, ← hkey _ _ hold]
        rfl
      have hflushed := hR.flush hevents inserted
      rw [hsplit, hremoval] at hflushed
      exact ih [payload.inserted] hrest hkey₁ (hR.overwrite hflushed) hgrown

omit hR in
lemma removedEvents_enumerates (removes : List SpendPayload) (hop : ∀ remove ∈ removes, remove.op = ⟨x, remove.vout⟩)
    (hkey : ∀ v part, M x v = some part → part.vout = v) {s : Multiset UtxoCoin}
    (hs : Enumerates UtxoCoin.outpoint s (coinsOf M)) :
    ∃ t, s = removedCoins (removedEvents removes (takeEach (M x) (removes.map SpendPayload.vout))) + t ∧
      Enumerates UtxoCoin.outpoint t
        (coinsOf (update M x (eraseAll (M x) (removes.map SpendPayload.vout)))) := by
  induction removes generalizing M s with
  | nil =>
    refine ⟨s, (zero_add s).symm, ?_⟩
    rw [map_nil, eraseAll_nil, update_eq_self]
    exact hs
  | cons remove rest ih =>
    have hhere := hop remove mem_cons_self
    let M₁ : Outputs := update M x (update (M x) remove.vout none)
    have hM₁ : M₁ x = update (M x) remove.vout none := update_self ..
    have hcoins : coinsOf M₁ = update (coinsOf M) ⟨x, remove.vout⟩ none := coinsOf_update M x remove.vout none
    have hkey₁ : ∀ v part, M₁ x v = some part → part.vout = v := by
      intro v part hp
      rw [hM₁] at hp
      by_cases hv : v = remove.vout
      · subst hv
        rw [update_self] at hp
        cases hp
      · rw [update_of_ne hv] at hp
        exact hkey v part hp
    have hfinal : update M x (eraseAll (M x) ((remove :: rest).map vout)) =
        update M₁ x (eraseAll (M₁ x) (rest.map vout)) := by
      rw [update_idem, hM₁, map_cons, eraseAll_cons]
    have hevent : removedEvents (remove :: rest) (takeEach (M x) ((remove :: rest).map vout)) =
        removedEvents [remove] [M x remove.vout] ++
          removedEvents rest (takeEach (M₁ x) (rest.map vout)) := by
      rw [hM₁, map_cons, takeEach, removedEvents, zip_cons_cons, filterMap_cons]
      cases M x remove.vout <;> rfl
    have hrest := fun remove hr => hop remove (mem_cons_of_mem _ hr)
    have hat : coinsOf M ⟨x, remove.vout⟩ = (M x remove.vout).map (coinOf x) := rfl
    rw [hfinal, hevent]
    cases hold : M x remove.vout with
    | none =>
      rw [hold, Option.map_none] at hat
      have hsame : coinsOf M₁ = coinsOf M := by
        rw [hcoins, ← hat]
        exact update_eq_self ..
      exact ih hrest hkey₁ (hsame ▸ hs)
    | some output =>
      rw [hold, Option.map_some] at hat
      obtain ⟨t₁, hsplit, ht₁⟩ := hs.erase hat
      obtain ⟨t, ht, henum⟩ := ih hrest hkey₁ (hcoins ▸ ht₁)
      refine ⟨t, ?_, henum⟩
      have hremoval : removedCoins (removedEvents [remove] [some output]) = {coinOf x output} := by
        simp only [removedEvents, removedCoins, zip_cons_cons, zip_nil_right, filterMap_cons,
          filterMap_nil, Option.map_some, map_cons, map_nil, Multiset.coe_singleton, UtxoRemoved.coin,
          hhere, ← hkey _ _ hold]
        rfl
      rw [removedCoins_append, hremoval, add_assoc, ← ht, Multiset.singleton_add]
      exact hsplit

end

variable {table : ShardTable}

lemma Represents.vout_eq (h : Represents table M) {x : Hash256} {v : UInt32} {part : OutputParts}
    (hp : M x v = some part) : part.vout = v := by
  have hholds := h.findRecord_holds x
  cases hf : findRecord table (UtxoKey.fromTxid x) x with
  | none =>
    rw [hf] at hholds
    rw [show M x = _ from hholds] at hp
    cases hp
  | some record =>
    rw [hf] at hholds
    exact (Stores.findOutput hholds v).2 part hp

def Tracked {σ : Type} (R : σ → Multiset UtxoCoin → Multiset UtxoCoin → Prop) (state : ShardTable × σ)
    (bound : Multiset UtxoCoin) : Prop :=
  ∃ M s i, Represents state.1 M ∧ Enumerates UtxoCoin.outpoint s (coinsOf M) ∧ R state.2 s i ∧ i ≤ bound

section

variable {σ : Type} {sink : CommitSink σ} {R : σ → Multiset UtxoCoin → Multiset UtxoCoin → Prop}
  (hR : Follows sink R) {state next : ShardTable × σ} {bound : Multiset UtxoCoin}

lemma Tracked.mono {more : Multiset UtxoCoin} (h : Tracked R state bound) (hle : bound ≤ more) :
    Tracked R state more := by
  obtain ⟨M, s, i, hM, hs, hevents, hi⟩ := h
  exact ⟨M, s, i, hM, hs, hevents, hi.trans hle⟩

def SpendRun (run : List SpendPayload) : Prop :=
  ∃ x, ∀ remove ∈ run, remove.key = UtxoKey.fromTxid x ∧ remove.txid = x ∧ remove.op = ⟨x, remove.vout⟩

include hR

lemma applyRemoveRun_tracked {run : List SpendPayload} (hrun : SpendRun run) (h : Tracked R state bound)
    (hnext : applyRemoveRun sink state run = .ok next) : Tracked R next bound := by
  obtain ⟨x, hrun⟩ := hrun
  cases run with
  | nil =>
    cases hnext
    exact h
  | cons first rest =>
    obtain ⟨M, s, i, hM, hs, hevents, hi⟩ := h
    obtain ⟨hkey, htxid, -⟩ := hrun first mem_cons_self
    simp only [applyRemoveRun, stageRemove, hkey, htxid] at hnext
    rcases hM.find_cases x with ⟨-, hfind, -, -⟩ | ⟨j, hj, -, hfind, hstored⟩
    · simp only [hfind, ok_bind, pure_eq_ok] at hnext
      cases hnext
      exact ⟨M, s, i, hM, hs, hevents, hi⟩
    · obtain ⟨out, hremoved, hout⟩ := UtxoRecord.removeRunReplacement_eq hstored ((first :: rest).map vout)
      obtain ⟨t, hsplit, ht⟩ := removedEvents_enumerates (first :: rest) (fun remove hr => (hrun remove hr).2.2)
        (fun v part hp => hM.vout_eq hp) hs
      simp only [hfind, hremoved, ok_bind, pure_eq_ok] at hnext
      cases hnext
      exact ⟨_, t, i, hM.mutate hout, ht, hR.spend (hsplit ▸ hevents), hi⟩

lemma applyAddRun_tracked {x : Hash256} {payloads : List BuildPayload} (hne : payloads ≠ [])
    (hop : ∀ payload ∈ payloads, payload.outpoint = ⟨x, payload.vout⟩)
    (hscript : ∀ payload ∈ payloads, payload.txout.scriptPubkey.length < 2 ^ 16) (h : Tracked R state bound)
    (hnext : applyAddRun sink (UtxoKey.fromTxid x) x state payloads = .ok next) :
    Tracked R next (bound + insertedCoins (payloads.map BuildPayload.inserted)) := by
  obtain ⟨M, s, i, hM, hs, hevents, hi⟩ := h
  obtain ⟨⟨record, displaced⟩, hrecord, hrest⟩ := bind_eq_ok hnext
  obtain ⟨hstores, rfl⟩ := UtxoRecord.addRunReplacement_ok (hM.findRecord_holds x) (by simpa using hne)
    (forall_mem_map.mpr hscript) hrecord
  cases hrest
  obtain ⟨t, ht, hemitted⟩ := emitAddEvents_follows hR payloads [] hop (fun v part hp => hM.vout_eq hp)
    hevents (by simpa [insertedCoins] using hs)
  refine ⟨_, t, _, hM.replaceRecord hstores, ht, hemitted, ?_⟩
  rw [show insertedCoins [] = 0 from rfl, zero_add, add_comm]
  exact add_le_add_left hi _

omit hR in
lemma applyEach_tracked {α : Type} (apply : ShardTable × σ → List α → Run (ShardTable × σ))
    (runOk : List α → Prop) (cost : List α → Multiset UtxoCoin)
    (hstep : ∀ {state next run bound}, runOk run → Tracked R state bound → apply state run = .ok next →
      Tracked R next (bound + cost run)) (rs : List (List α)) (hrs : ∀ run ∈ rs, runOk run)
    (h : Tracked R state bound) : Tracked R (applyEach apply state rs).1 (bound + (rs.map cost).sum) := by
  induction rs generalizing state bound with
  | nil => simpa [applyEach] using h
  | cons run rs ih =>
    rw [applyEach, map_cons, sum_cons, ← add_assoc]
    cases hrun : apply state run with
    | error fault => exact h.mono (Multiset.le_add_right _ _ |>.trans (Multiset.le_add_right _ _))
    | ok next =>
      exact ih (fun run hr => hrs run (mem_cons_of_mem _ hr)) (hstep (hrs run mem_cons_self) h hrun)

end

section

variable {σ : Type} {sink : CommitSink σ} {R : σ → Multiset UtxoCoin → Multiset UtxoCoin → Prop}
  (hR : Follows sink R) {state : ShardTable × σ} {bound : Multiset UtxoCoin} {α : Type}
  {apply : ShardTable × σ → List α → Run (ShardTable × σ)} {sameRun : α → α → Bool} {items : List α}

def SpendPayload.Exact (remove : SpendPayload) : Prop :=
  remove.key = UtxoKey.fromTxid remove.txid ∧ remove.op = ⟨remove.txid, remove.vout⟩

def BuildPayload.Exact (payload : BuildPayload) (txid : Hash256) : Prop :=
  payload.outpoint = ⟨txid, payload.vout⟩ ∧ payload.txout.scriptPubkey.length < 2 ^ 16

include hR

lemma forEachRun_removes_tracked (payload : α → SpendPayload)
    (happly : ∀ state run, apply state run = applyRemoveRun sink state (run.map payload))
    (hsame : ∀ a b, sameRun a b = true → (payload a).txid = (payload b).txid)
    (hitems : ∀ item ∈ items, (payload item).Exact) (h : Tracked R state bound) :
    Tracked R (forEachRun sameRun apply state items).1 bound := by
  have hruns := applyEach_tracked apply (fun run => SpendRun (run.map payload)) (fun _ => 0) (fun hrun ht hnext => by
      rw [add_zero]
      exact applyRemoveRun_tracked hR hrun ht (happly _ _ ▸ hnext)) (runs sameRun items) (fun run hr => ?_) h
  · simpa [forEachRun] using hruns
  · obtain ⟨first, rest, rfl, hrest⟩ := runs_same sameRun items run hr
    refine ⟨(payload first).txid, forall_mem_map.mpr (fun item hi => ?_)⟩
    have htxid : (payload item).txid = (payload first).txid := by
      rcases mem_cons.mp hi with rfl | hi
      · rfl
      · exact hsame item first (hrest item hi)
    obtain ⟨hkey, hop⟩ := hitems item (mem_of_mem_runs hr hi)
    exact ⟨htxid ▸ hkey, htxid, htxid ▸ hop⟩

lemma forEachRun_adds_tracked (txid : α → Hash256) (payload : α → BuildPayload)
    (happly : ∀ state first rest, first ∈ items → apply state (first :: rest) =
      applyAddRun sink (UtxoKey.fromTxid (txid first)) (txid first) state ((first :: rest).map payload))
    (hsame : ∀ a b, sameRun a b = true → txid a = txid b)
    (hitems : ∀ item ∈ items, (payload item).Exact (txid item)) (h : Tracked R state bound) :
    Tracked R (forEachRun sameRun apply state items).1
      (bound + insertedCoins (items.map (fun item => (payload item).inserted))) := by
  let inserted : List α → List UtxoInserted := map (fun item => (payload item).inserted)
  have hsum : ((runs sameRun items).map (insertedCoins ∘ inserted)).sum = insertedCoins (inserted items) := by
    rw [← map_map, sum_insertedCoins, ← map_flatten, flatten_runs]
  have hruns := applyEach_tracked apply (fun run => run ∈ runs sameRun items) (insertedCoins ∘ inserted)
    (fun {state next run bound} hr ht hnext => by
      obtain ⟨first, rest, rfl, hrest⟩ := runs_same sameRun items run hr
      have hexact : ∀ p ∈ (first :: rest).map payload, p.Exact (txid first) := by
        refine forall_mem_map.mpr (fun item hi => ?_)
        have htxid : txid item = txid first := by
          rcases mem_cons.mp hi with rfl | hi
          · rfl
          · exact hsame item first (hrest item hi)
        exact htxid ▸ hitems item (mem_of_mem_runs hr hi)
      rw [happly state first rest (mem_of_mem_runs hr mem_cons_self)] at hnext
      have hadded := applyAddRun_tracked hR (by simp) (fun p hp => (hexact p hp).1) (fun p hp =>
        (hexact p hp).2) ht hnext
      rwa [map_map] at hadded) (runs sameRun items) (fun run hr => hr) h
  rwa [hsum] at hruns

end

section

variable {R : UtxoChangeEvents → Multiset UtxoCoin → Multiset UtxoCoin → Prop} {bound : Multiset UtxoCoin}

lemma commitBatchCollectEvents_tracked (hR : Follows eventsSink R) (h : Tracked R (table, []) bound)
    (adds : List AddPayload) (removes : List SpendPayload)
    (ha : ∀ add ∈ adds, add.1 = UtxoKey.fromTxid add.2.1 ∧ add.2.2.Exact add.2.1)
    (hr : ∀ remove ∈ removes, remove.Exact) :
    Tracked R (commitBatchCollectEvents table adds removes).1
      (bound + insertedCoins (adds.map (fun add => add.2.2.inserted))) := by
  have hremoved : Tracked R (forEachRun (fun remove first => remove.key == first.key && remove.txid == first.txid)
      (applyRemoveRun eventsSink) (table, []) removes).1 bound := by
    refine forEachRun_removes_tracked hR id (fun state run => by rw [map_id]) (fun a b hab => ?_) hr h
    simp only [Bool.and_eq_true, beq_iff_eq] at hab
    exact hab.2
  rw [commitBatchCollectEvents]
  generalize forEachRun _ (applyRemoveRun eventsSink) (table, []) removes = removed at hremoved ⊢
  obtain ⟨state, result⟩ := removed
  cases result with
  | error fault => exact hremoved.mono (Multiset.le_add_right _ _)
  | ok =>
    refine forEachRun_adds_tracked hR (fun add : AddPayload => add.2.1) (fun add => add.2.2)
      (fun state first rest hfirst => ?_) (fun a b hab => ?_) (fun add hadd => (ha add hadd).2) hremoved
    · rw [← (ha first hfirst).1]
    · simp only [Bool.and_eq_true, beq_iff_eq] at hab
      exact hab.2

end

lemma commitSingleShardWithListener_tracked {R : List ListenerCall → Multiset UtxoCoin → Multiset UtxoCoin → Prop}
    (hR : Follows listenerSink R) {calls : List ListenerCall} {bound : Multiset UtxoCoin}
    (h : Tracked R (table, calls) bound) (adds : List UtxoAdd) (removes : List OutPoint)
    (ha : AddsFit adds) :
    Tracked R (commitSingleShardWithListener table calls adds removes).1
      (bound + insertedCoins (adds.map (fun add => add.payload.inserted))) := by
  have hremoved : Tracked R (forEachRun (fun (remove first : OutPoint) => remove.txid == first.txid)
      (fun state run => applyRemoveRun listenerSink state
        (run.map (fun op => spendPayload op (UtxoKey.fromTxid op.txid)))) (table, calls) removes).1 bound :=
    forEachRun_removes_tracked hR (fun op => spendPayload op (UtxoKey.fromTxid op.txid)) (fun _ _ => rfl)
      (fun a b hab => eq_of_beq hab) (fun _ _ => ⟨rfl, rfl⟩) h
  rw [commitSingleShardWithListener]
  generalize forEachRun _ _ (table, calls) removes = removed at hremoved ⊢
  obtain ⟨state, result⟩ := removed
  cases result with
  | error fault => exact hremoved.mono (Multiset.le_add_right _ _)
  | ok =>
    exact forEachRun_adds_tracked hR (fun add : UtxoAdd => add.outpoint.txid) UtxoAdd.payload
      (fun _ _ _ _ => rfl) (fun a b hab => eq_of_beq hab) (fun add hadd => ⟨rfl, ha add hadd⟩) hremoved

end BitcoinRs.Utxo
