import BitcoinRs.Library.Runs
import BitcoinRs.Utxo.Record
import BitcoinRs.Library.Buckets

namespace BitcoinRs.Utxo

open Runs
open Function (update)

abbrev UtxoKey := Bytes

def UtxoKey.fromTxid (txid : Hash256) : UtxoKey := txid.bytes.take 8

structure UtxoCoin where
  outpoint : OutPoint
  txout : TxOut
  coinbase : Bool
  height : UInt32
  deriving DecidableEq

structure UtxoAdd where
  outpoint : OutPoint
  txout : TxOut
  coinbase : Bool
  height : UInt32
  deriving DecidableEq

structure BuildPayload where
  outpoint : OutPoint
  vout : UInt32
  txout : TxOut
  coinbase : Bool
  height : UInt32

structure SpendPayload where
  op : OutPoint
  key : UtxoKey
  vout : UInt32
  txid : Hash256

abbrev AddPayload := UtxoKey × Hash256 × BuildPayload

def UtxoAdd.payload (add : UtxoAdd) : BuildPayload :=
  { outpoint := add.outpoint, vout := add.outpoint.vout, txout := add.txout, coinbase := add.coinbase,
    height := add.height }

def payloadParts (payload : BuildPayload) : OutputParts :=
  { vout := payload.vout, value := payload.txout.value, script := payload.txout.scriptPubkey,
    coinbase := payload.coinbase, height := payload.height }

def txoutFromParts (value : UInt64) (script : Script) : TxOut := { value, scriptPubkey := script }

structure UtxoInserted where
  op : OutPoint
  txout : TxOut
  height : UInt32
  coinbase : Bool

structure UtxoRemoved where
  op : OutPoint
  txout : TxOut
  height : UInt32
  coinbase : Bool

inductive UtxoChangeEvent
  | insertBatch (insertions : List UtxoInserted)
  | removeBatch (removals : List UtxoRemoved)

abbrev UtxoChangeEvents := List UtxoChangeEvent

namespace UtxoChangeEvents

variable (events : UtxoChangeEvents)

def pushInsertBatch (insertions : List UtxoInserted) : UtxoChangeEvents :=
  if insertions.isEmpty then events
  else match events.getLast? with
    | some (.insertBatch existing) => events.dropLast ++ [.insertBatch (existing ++ insertions)]
    | _ => events ++ [.insertBatch insertions]

def pushRemoveBatch (removals : List UtxoRemoved) : UtxoChangeEvents :=
  if removals.isEmpty then events
  else match events.getLast? with
    | some (.removeBatch existing) => events.dropLast ++ [.removeBatch (existing ++ removals)]
    | _ => events ++ [.removeBatch removals]

def pushRemoveCoin (removal : UtxoRemoved) : UtxoChangeEvents := events ++ [.removeBatch [removal]]

end UtxoChangeEvents

inductive ListenerCall
  | onRemoveCoins (removals : List UtxoRemoved)
  | onInsertCoins (insertions : List UtxoInserted)
  | onCommittedEventBatches (batches : List UtxoChangeEvents)

structure CommitSink (σ : Type) where
  pushSpendRun : σ → List UtxoRemoved → σ
  pushOverwrite : σ → UtxoRemoved → σ
  pushInserts : σ → List UtxoInserted → σ

def listenerSink : CommitSink (List ListenerCall) where
  pushSpendRun calls removals := calls ++ [.onRemoveCoins removals]
  pushOverwrite calls removal := calls ++ [.onRemoveCoins [removal]]
  pushInserts calls inserted := calls ++ [.onInsertCoins inserted]

def eventsSink : CommitSink UtxoChangeEvents where
  pushSpendRun := UtxoChangeEvents.pushRemoveBatch
  pushOverwrite := UtxoChangeEvents.pushRemoveCoin
  pushInserts := UtxoChangeEvents.pushInsertBatch

abbrev ShardTable := List UtxoRecord

inductive RecordMutation
  | noChange
  | replace (record : UtxoRecord)
  | delete

def UtxoRecord.isFor (key : UtxoKey) (txid : Hash256) (record : UtxoRecord) : Bool :=
  record.key == key && record.txid == txid.bytes

section

variable (table : ShardTable) (key : UtxoKey) (txid : Hash256)

def findRecord : Option UtxoRecord := table.find? (UtxoRecord.isFor key txid)

def replaceRecord (record : UtxoRecord) : ShardTable :=
  match table.findIdx? (UtxoRecord.isFor key txid) with
  | some index => table.set index record
  | none => table ++ [record]

def removeRecord : ShardTable :=
  match table.findIdx? (UtxoRecord.isFor key txid) with
  | some index => table.eraseIdx index
  | none => table

def applyRecordMutation :
    RecordMutation → ShardTable
  | .noChange => table
  | .replace record => replaceRecord table key txid record
  | .delete => removeRecord table key txid

end

def RemovedRecord.mutation : RemovedRecord → RecordMutation
  | .unchanged => .noChange
  | .emptied => .delete
  | .replaced record => .replace record

namespace ShardTable

variable (table : ShardTable)

def getEntry (key : UtxoKey) (txid : Hash256) (vout : UInt32) : Run (Option UtxoCoin) :=
  match findRecord table key txid with
  | none => .ok none
  | some record => do
    return (← record.findOutput vout).map (fun output =>
      { outpoint := ⟨txid, vout⟩, txout := txoutFromParts output.value output.script,
        coinbase := output.coinbase, height := output.height })

def hasLiveOutputsForTxid (key : UtxoKey) (txid : Hash256) : Run Bool :=
  match findRecord table key txid with
  | none => .ok false
  | some record => do return (← record.outputCount) ≠ 0

def insertRecord (record : UtxoRecord) : Run ShardTable := do
  if (← record.outputCount) = 0 then return table
  return replaceRecord table record.key (← record.ownTxid) record

end ShardTable

section

variable (table : ShardTable) (key : UtxoKey) (txid : Hash256)

def applyRemoveByVouts (vouts : List UInt32) : Run ShardTable :=
  match findRecord table key txid with
  | none => .ok table
  | some record => do
    let (removed, _) ← record.removeRunReplacement vouts
    return applyRecordMutation table key txid removed.mutation

def applyAddByParts (parts : List OutputParts) :
    Run ShardTable := do
  let (replacement, _) ← UtxoRecord.addRunReplacement (findRecord table key txid) txid parts
  return replaceRecord table key txid replacement

def applyCombinedRun (vouts : List UInt32) (parts : List OutputParts) : Run ShardTable :=
  match findRecord table key txid with
  | some record => do
    return applyRecordMutation table key txid (← record.editReplacement vouts parts).mutation
  | none => do
    let (fresh, _) ← UtxoRecord.addRunReplacement none txid parts
    match ← fresh.editReplacement vouts [] with
    | .unchanged => return applyRecordMutation table key txid (.replace fresh)
    | .emptied => return applyRecordMutation table key txid .delete
    | .replaced replacement => return applyRecordMutation table key txid (.replace replacement)

end

abbrev Identity := UtxoKey × Hash256

def compareIdentity (left right : Identity) : Ordering :=
  (compare left.1 right.1).then (compare left.2.bytes right.2.bytes)

def IdentityLe (left right : Identity) : Prop := (compareIdentity left right).isLE = true

instance : DecidableRel IdentityLe := fun _ _ => inferInstanceAs (Decidable (_ = true))

structure RunSpan (α : Type) where
  identity : Identity
  items : List α

def sortedRunSpans {α : Type} (items : List α) (identity : α → Identity) : List (RunSpan α) :=
  ((runs (fun next first => identity next == identity first) items).filterMap (fun run =>
    run.head?.map (fun first => { identity := identity first, items := run }))).insertionSort
      (fun left right => IdentityLe left.identity right.identity)

def applyEach {α σ : Type} (step : σ → α → Run σ) : σ → List α → σ × Run Unit
  | state, [] => (state, .ok ())
  | state, item :: rest =>
    match step state item with
    | .ok next => applyEach step next rest
    | .error fault => (state, .error fault)

def forEachRun {α σ : Type} (sameRun : α → α → Bool) (apply : σ → List α → Run σ) (state : σ)
    (items : List α) : σ × Run Unit :=
  applyEach apply state (runs sameRun items)

section

variable {α β : Type} (voutAt : α → UInt32) (partAt : β → OutputParts)

def nextIdentity (removeSpans : List (RunSpan α)) (addSpans : List (RunSpan β)) : Option Identity :=
  match removeSpans, addSpans with
  | remove :: _, add :: _ =>
    some (if IdentityLe remove.identity add.identity then remove.identity else add.identity)
  | remove :: _, [] => some remove.identity
  | [], add :: _ => some add.identity
  | [], [] => none

def commitIdentity (table : ShardTable) (identity : Identity) (vouts : List UInt32)
    (parts : List OutputParts) : Run ShardTable :=
  match vouts.isEmpty, parts.isEmpty with
  | false, false => applyCombinedRun table identity.1 identity.2 vouts parts
  | false, true => applyRemoveByVouts table identity.1 identity.2 vouts
  | true, false => applyAddByParts table identity.1 identity.2 parts
  | true, true => .ok table

def spanVouts (identity : Identity) (spans : List (RunSpan α)) : List UInt32 :=
  (spans.takeWhile (fun span => span.identity == identity)).flatMap (fun span => span.items.map voutAt)

def spanParts (identity : Identity) (spans : List (RunSpan β)) : List OutputParts :=
  (spans.takeWhile (fun span => span.identity == identity)).flatMap (fun span => span.items.map partAt)

/-- Each pass of the loop takes a span or more, so `fuel` is the number of spans. -/
def mergeCommitRuns : ℕ → ShardTable → List (RunSpan α) → List (RunSpan β) → ShardTable × Run Unit
  | 0, table, _, _ => (table, .ok ())
  | fuel + 1, table, removeSpans, addSpans =>
    match nextIdentity removeSpans addSpans with
    | none => (table, .ok ())
    | some identity =>
      match commitIdentity table identity (spanVouts voutAt identity removeSpans)
        (spanParts partAt identity addSpans) with
      | .error fault => (table, .error fault)
      | .ok next => mergeCommitRuns fuel next (removeSpans.dropWhile (fun span => span.identity == identity))
          (addSpans.dropWhile (fun span => span.identity == identity))

def commitCoalesced (removeIdentity : α → Identity) (addIdentity : β → Identity) (table : ShardTable)
    (adds : List β) (removes : List α) : ShardTable × Run Unit :=
  let removeSpans := sortedRunSpans removes removeIdentity
  let addSpans := sortedRunSpans adds addIdentity
  mergeCommitRuns voutAt partAt (removeSpans.length + addSpans.length) table removeSpans addSpans

end

variable (table : ShardTable)

def commitBatchCoalesced (adds : List AddPayload) (removes : List SpendPayload) : ShardTable × Run Unit :=
  commitCoalesced SpendPayload.vout (fun add : AddPayload => payloadParts add.2.2)
    (fun remove => (remove.key, remove.txid)) (fun add => (add.1, add.2.1)) table adds removes

def commitSingleShardCoalesced (adds : List UtxoAdd) (removes : List OutPoint) : ShardTable × Run Unit :=
  commitCoalesced OutPoint.vout (fun add : UtxoAdd => payloadParts add.payload)
    (fun remove => (UtxoKey.fromTxid remove.txid, remove.txid))
    (fun add => (UtxoKey.fromTxid add.outpoint.txid, add.outpoint.txid)) table adds removes

structure StagedRemove where
  foundRecord : Bool
  mutation : RecordMutation
  removed : List (Option OutputParts)

def stageRemove (key : UtxoKey) (txid : Hash256) (removes : List SpendPayload) : Run StagedRemove :=
  match findRecord table key txid with
  | none => .ok { foundRecord := false, mutation := .noChange, removed := removes.map (fun _ => none) }
  | some record => do
    let (out, removed) ← record.removeRunReplacement (removes.map (fun remove => remove.vout))
    return { foundRecord := true, mutation := out.mutation, removed }

def removedEvents (removes : List SpendPayload) (removed : List (Option OutputParts)) : List UtxoRemoved :=
  (removes.zip removed).filterMap (fun (remove, output) => output.map (fun output =>
    { op := remove.op, txout := txoutFromParts output.value output.script, height := output.height,
      coinbase := output.coinbase }))

section

variable {σ : Type} (sink : CommitSink σ)

def applyRemoveRun (state : ShardTable × σ) (removes : List SpendPayload) : Run (ShardTable × σ) :=
  match removes with
  | [] => .ok state
  | first :: _ => do
    let staged ← stageRemove state.1 first.key first.txid removes
    let removed := removedEvents removes staged.removed
    return (applyRecordMutation state.1 first.key first.txid staged.mutation,
      if staged.foundRecord then sink.pushSpendRun state.2 removed else state.2)

def flushInserted (events : σ) (inserted : List UtxoInserted) : σ :=
  if inserted.isEmpty then events else sink.pushInserts events inserted

def emitAddEvents : σ → List UtxoInserted → List (BuildPayload × Option OutputParts) → σ
  | events, inserted, [] => flushInserted sink events inserted
  | events, inserted, (payload, overwritten) :: rest =>
    let insertion : UtxoInserted :=
      { op := payload.outpoint, txout := payload.txout, height := payload.height, coinbase := payload.coinbase }
    match overwritten with
    | none => emitAddEvents events (inserted ++ [insertion]) rest
    | some output =>
      let removal : UtxoRemoved :=
        { op := payload.outpoint, txout := txoutFromParts output.value output.script, height := output.height,
          coinbase := output.coinbase }
      emitAddEvents (sink.pushOverwrite (flushInserted sink events inserted) removal) [insertion] rest

def applyAddRun (key : UtxoKey) (txid : Hash256) (state : ShardTable × σ) (payloads : List BuildPayload) :
    Run (ShardTable × σ) := do
  let (replacement, overwritten) ←
    UtxoRecord.addRunReplacement (findRecord state.1 key txid) txid (payloads.map payloadParts)
  return (replaceRecord state.1 key txid replacement,
    emitAddEvents sink state.2 [] (payloads.zip overwritten))

end

def spendPayload (remove : OutPoint) (key : UtxoKey) : SpendPayload :=
  { op := remove, key, vout := remove.vout, txid := remove.txid }

def commitBatchCollectEvents (table : ShardTable) (adds : List AddPayload) (removes : List SpendPayload) :
    (ShardTable × UtxoChangeEvents) × Run Unit :=
  match forEachRun (fun remove first => remove.key == first.key && remove.txid == first.txid)
    (applyRemoveRun eventsSink) (table, []) removes with
  | (state, .error fault) => (state, .error fault)
  | (state, .ok ()) =>
    forEachRun (fun add first => add.1 == first.1 && add.2.1 == first.2.1)
      (fun state run => match run with
        | [] => .ok state
        | first :: _ => applyAddRun eventsSink first.1 first.2.1 state (run.map (fun add => add.2.2)))
      state adds

def commitSingleShardWithListener (table : ShardTable) (calls : List ListenerCall) (adds : List UtxoAdd)
    (removes : List OutPoint) : (ShardTable × List ListenerCall) × Run Unit :=
  match forEachRun (fun (remove first : OutPoint) => remove.txid == first.txid)
    (fun state run => applyRemoveRun listenerSink state
      (run.map (fun op => spendPayload op (UtxoKey.fromTxid op.txid)))) (table, calls) removes with
  | (state, .error fault) => (state, .error fault)
  | (state, .ok ()) =>
    forEachRun (fun (add first : UtxoAdd) => add.outpoint.txid == first.outpoint.txid)
      (fun state run => match run with
        | [] => .ok state
        | first :: _ => applyAddRun listenerSink (UtxoKey.fromTxid first.outpoint.txid) first.outpoint.txid
            state (run.map UtxoAdd.payload))
      state adds

open Buckets

def parallelNoListenerOpThreshold : ℕ := 2048
def parallelListenerShardThreshold : ℕ := 8
def txidRunGroupingMaxShards : ℕ := 8

def UtxoKey.shard (key : UtxoKey) : UInt8 := List.headD key 0

def shardIndexes : List UInt8 := (List.range 256).map UInt8.ofNat

structure UtxoSet where
  shards : UInt8 → ShardTable
  listener : Option (List ListenerCall)

structure Schedule where
  order : List UInt8 → List UInt8
  perm : ∀ shards, (order shards).Perm shards

def Schedule.sequential : Schedule := ⟨id, List.Perm.refl⟩

def validateAdd (add : UtxoAdd) : Run Unit :=
  let scriptLen := add.txout.scriptPubkey.length
  ensure (scriptLen < 2 ^ 16) (.scriptTooLarge scriptLen)

def validateAdds : List UtxoAdd → Run Unit
  | [] => .ok ()
  | add :: rest => do
    validateAdd add
    validateAdds rest

def addShard (add : UtxoAdd) : UInt8 := (UtxoKey.fromTxid add.outpoint.txid).shard

def removeShard (remove : OutPoint) : UInt8 := (UtxoKey.fromTxid remove.txid).shard

def shardCounts {α : Type} (shard : α → UInt8) (items : List α) : UInt8 → ℕ :=
  fun s => items.countP (fun item => shard item == s)

def activeShards (addCounts removeCounts : UInt8 → ℕ) : List UInt8 :=
  shardIndexes.filter (fun s => !(addCounts s == 0 && removeCounts s == 0))

inductive BucketShape
  | empty
  | single (shard : UInt8)
  | scattered

structure ShardBucketSide (α : Type) where
  payloads : List α
  ranges : UInt8 → ℕ × ℕ
  shape : BucketShape

variable (counts : UInt8 → ℕ)

def bucketShape : BucketShape :=
  match shardIndexes.filter (fun s => counts s != 0) with
  | [] => .empty
  | [shard] => .single shard
  | _ => .scattered

def emptyRanges : UInt8 → ℕ × ℕ := fun _ => (0, 0)

def shardRanges : UInt8 → ℕ × ℕ :=
  fun s => (start shardIndexes counts s, start shardIndexes counts s + counts s)

def initializedSlots {α : Type} : List (Option α) → Run (List α)
  | [] => .ok []
  | some value :: rest => do return value :: (← initializedSlots rest)
  | none :: _ => .error .panic

namespace ShardBucketSide

variable {α : Type} (side : ShardBucketSide α)

def get (shard : UInt8) : List α :=
  match side.shape with
  | .empty => []
  | .single active => if active = shard then side.payloads else []
  | .scattered =>
    let (start, stop) := side.ranges shard
    (side.payloads.drop start).take (stop - start)

def build (shard : α → UInt8) (payloads : List α) (counts : UInt8 → ℕ) : Run (ShardBucketSide α) :=
  match bucketShape counts with
  | .empty => .ok { payloads := [], ranges := emptyRanges, shape := .empty }
  | .single active => .ok { payloads, ranges := emptyRanges, shape := .single active }
  | .scattered => do
    let ranges := shardRanges counts
    let slots := List.replicate payloads.length none
    match scatter shard payloads slots (fun s => (ranges s).1) with
    | none => .error .panic
    | some slots => return { payloads := ← initializedSlots slots, ranges, shape := .scattered }

variable (identity : α → Identity)

def sortRange (ranges : UInt8 → ℕ × ℕ) (payloads : List α) (s : UInt8) : List α :=
  let (start, stop) := ranges s
  if 1 < stop - start then
    sortSlice (fun left right => IdentityLe (identity left) (identity right)) payloads start stop
  else payloads

def groupTxidRuns : ShardBucketSide α :=
  match side.shape with
  | .empty => side
  | .single _ =>
    { side with payloads := side.payloads.insertionSort (fun left right =>
        IdentityLe (identity left) (identity right)) }
  | .scattered =>
    { side with payloads := shardIndexes.foldl (sortRange identity side.ranges) side.payloads }

end ShardBucketSide

structure ShardCommitBuckets where
  adds : ShardBucketSide AddPayload
  removes : ShardBucketSide SpendPayload

def addPayload (add : UtxoAdd) : AddPayload := (UtxoKey.fromTxid add.outpoint.txid, add.outpoint.txid, add.payload)

def removePayload (remove : OutPoint) : SpendPayload := spendPayload remove (UtxoKey.fromTxid remove.txid)

def ShardCommitBuckets.new (adds : List UtxoAdd) (removes : List OutPoint) (addCounts removeCounts : UInt8 → ℕ)
    (groupTxidRuns : Bool) : Run ShardCommitBuckets := do
  let addSide ← ShardBucketSide.build (fun add : AddPayload => add.1.shard) (adds.map addPayload) addCounts
  let removeSide ← ShardBucketSide.build (fun remove : SpendPayload => remove.key.shard)
    (removes.map removePayload) removeCounts
  if groupTxidRuns then
    return { adds := addSide.groupTxidRuns (fun add => (add.1, add.2.1)),
             removes := removeSide.groupTxidRuns (fun remove => (remove.key, remove.txid)) }
  return { adds := addSide, removes := removeSide }

def commitSerial (step : UInt8 → ShardTable → ShardTable × Run Unit) :
    List UInt8 → (UInt8 → ShardTable) → (UInt8 → ShardTable) × Run Unit
  | [], shards => (shards, .ok ())
  | s :: rest, shards =>
    let (table, result) := step s (shards s)
    let shards := update shards s table
    match result with
    | .ok () => commitSerial step rest shards
    | .error fault => (shards, .error fault)

def commitEvery {ε : Type} (step : UInt8 → ShardTable → (ShardTable × ε) × Run Unit) :
    List UInt8 → (UInt8 → ShardTable) → (UInt8 → ShardTable) × List (UInt8 × ε) × List Fault
  | [], shards => (shards, [], [])
  | s :: rest, shards =>
    let ((table, extra), result) := step s (shards s)
    let (shards, extras, errors) := commitEvery step rest (update shards s table)
    match result with
    | .ok () => (shards, (s, extra) :: extras, errors)
    | .error fault => (shards, (s, extra) :: extras, fault :: errors)

def popError (errors : List Fault) : Run Unit :=
  match errors.getLast? with
  | some fault => .error fault
  | none => .ok ()

namespace UtxoSet

def new : UtxoSet := { shards := fun _ => [], listener := none }

variable (set : UtxoSet)

def getEntry (op : OutPoint) : Run (Option UtxoCoin) :=
  let key := UtxoKey.fromTxid op.txid
  (set.shards key.shard).getEntry key op.txid op.vout

def hasLiveOutputsForTxid (txid : Hash256) : Run Bool :=
  let key := UtxoKey.fromTxid txid
  (set.shards key.shard).hasLiveOutputsForTxid key txid

def commitSingleShard (adds : List UtxoAdd) (removes : List OutPoint) (shard : UInt8) : UtxoSet × Run Unit :=
  match set.listener with
  | none =>
    let (table, result) := commitSingleShardCoalesced (set.shards shard) adds removes
    ({ set with shards := update set.shards shard table }, result)
  | some calls =>
    let ((table, calls), result) := commitSingleShardWithListener (set.shards shard) calls adds removes
    ({ shards := update set.shards shard table, listener := some calls }, result)

variable (schedule : Schedule) (set : UtxoSet)

/-- The batches reach the listener in the order of the active shards, whichever order the shards ran in. -/
def commitMultiShardWithListener (calls : List ListenerCall)
    (active : List UInt8) (buckets : ShardCommitBuckets) : UtxoSet × Run Unit :=
  let order := if active.length < parallelListenerShardThreshold then active else schedule.order active
  let (shards, events, errors) := commitEvery (fun s table =>
    commitBatchCollectEvents table (buckets.adds.get s) (buckets.removes.get s)) order set.shards
  let batches := active.filterMap (fun s => (events.find? (fun event => event.1 == s)).map Prod.snd)
  ({ shards, listener := some (calls ++ [.onCommittedEventBatches batches]) }, popError errors)

def commitMultiShard (active : List UInt8) (totalOps : ℕ) (buckets : ShardCommitBuckets) : UtxoSet × Run Unit :=
  if totalOps < parallelNoListenerOpThreshold then
    let (shards, result) := commitSerial (fun s table =>
      commitBatchCoalesced table (buckets.adds.get s) (buckets.removes.get s)) active set.shards
    ({ set with shards }, result)
  else
    let (shards, _, errors) := commitEvery (fun s table =>
      let (table, result) := commitBatchCoalesced table (buckets.adds.get s) (buckets.removes.get s)
      ((table, ()), result)) (schedule.order active) set.shards
    ({ set with shards }, popError errors)

def commitAddsAndRemoves (adds : List UtxoAdd) (removes : List OutPoint) : UtxoSet × Run Unit :=
  match validateAdds adds with
  | .error fault => (set, .error fault)
  | .ok () =>
    let addCounts := shardCounts addShard adds
    let removeCounts := shardCounts removeShard removes
    match activeShards addCounts removeCounts with
    | [] => (set, .ok ())
    | [shard] => set.commitSingleShard adds removes shard
    | active =>
      let groupTxidRuns := set.listener.isNone && active.length ≤ txidRunGroupingMaxShards
      match ShardCommitBuckets.new adds removes addCounts removeCounts groupTxidRuns with
      | .error fault => (set, .error fault)
      | .ok buckets =>
        match set.listener with
        | some calls => commitMultiShardWithListener schedule set calls active buckets
        | none => set.commitMultiShard schedule active (adds.length + removes.length) buckets

end UtxoSet

end BitcoinRs.Utxo
