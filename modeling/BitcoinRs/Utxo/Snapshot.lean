import BitcoinRs.Utxo.RecordCheckLaws
import BitcoinRs.Utxo.SetWalk
import BitcoinRs.TxCodec

namespace BitcoinRs.Utxo

open ByteReader KeyedList Tally Fallible List Function UtxoKey LittleEndian
open UInt32 (ofNat toNat_ofNat_of_lt')

/-- The kinds of `io::Error` that reading from a byte string gives. -/
inductive ReadError
  | unexpectedEof
  | trailingBytes
  deriving DecidableEq

inductive SnapshotError
  | record (fault : Fault)
  | coinHeightOutOfRange (height snapshotHeight : UInt32)
  | io (error : ReadError)
  | invalidMagic (actual : UInt32)
  | unsupportedVersion (version : UInt32)
  | recordCountTooLarge (count : ℕ)
  | recordCountMismatch (declared actual : ℕ)
  | outputCountTooLarge (count : ℕ)
  | duplicateVout (vout : UInt32)
  | shardMismatch (shard keyShard : UInt8)
  | txidPrefixMismatch
  | cancelled
  deriving DecidableEq

def snapshotMagic : UInt32 := 0x5554584f
def snapshotWriteVersion : UInt32 := 4
def muhashTrailerLen : ℕ := 384
def maxSnapshotRecords : ℕ := 250000000
def maxSnapshotCoinsPerTxid : ℕ := 1000000
def snapshotHeaderLen : ℕ := 52
def snapshotRecordHeaderLen : ℕ := 45
def snapshotVoutHeaderLen : ℕ := 19

structure SnapshotLoad where
  set : UtxoSet
  tipHash : Hash256
  height : UInt32
  muhashTrailer : Bytes

structure NativeSnapshotMetadata where
  tipHash : Hash256
  height : UInt32
  recordCount : ℕ

/-- The 384 bytes that the observer selects. -/
structure MuHashTrailer where
  bytes : Bytes
  length_bytes : bytes.length = 384

namespace UtxoSet

variable (set : UtxoSet)

def recordCount : ℕ := (shardIndexes.map (fun s => (set.shards s).length)).sum

def outputCountOf : ShardTable → Run ℕ
  | [] => .ok 0
  | record :: rest => do return (← record.outputCount) + (← outputCountOf rest)

def outputCountOfShards (shards : UInt8 → ShardTable) : List UInt8 → Run ℕ
  | [] => .ok 0
  | s :: rest => do return (← outputCountOf (shards s)) + (← outputCountOfShards shards rest)

def len : Run ℕ := outputCountOfShards set.shards shardIndexes

def insertSnapshotRecord (record : UtxoRecord) : Run UtxoSet := do
  let shard := UtxoKey.shard record.key
  return { set with shards := update set.shards shard (← (set.shards shard).insertRecord record) }

end UtxoSet

namespace Snapshot

section

def liftRun {α : Type} : Run α → Except SnapshotError α
  | .ok a => .ok a
  | .error fault => .error (.record fault)

def putVoutHeader (output : OutputParts) : Bytes :=
  encode 4 output.vout.toNat ++ (encode 8 output.value.toNat ++
    (encode 4 output.height.toNat ++ ([if output.coinbase then 1 else 0] ++
      encode 2 output.script.length)))

def writeOutput (output : OutputParts) : Except SnapshotError Bytes :=
  if output.script.length < 2 ^ 16 then .ok (putVoutHeader output ++ output.script)
  else .error (.record (.error (.scriptTooLarge output.script.length)))

def writeOutputs : List OutputParts → Except SnapshotError Bytes
  | [] => .ok []
  | output :: rest => do return (← writeOutput output) ++ (← writeOutputs rest)

section

variable (shard : UInt8)

def putRecordHeader (key txid : Bytes) (outputCount : ℕ) : Bytes := [shard] ++ (key ++ (txid ++ encode 4 outputCount))

def writeRecord (record : UtxoRecord) : Except SnapshotError Bytes := do
  let outputCount ← liftRun record.outputCount
  if 2 ^ 32 ≤ outputCount then .error (.outputCountTooLarge outputCount)
  return putRecordHeader shard record.key record.txid outputCount ++ (← writeOutputs (← liftRun record.outputs))

def writeTable : ShardTable → Except SnapshotError Bytes
  | [] => .ok []
  | record :: rest => do return (← writeRecord shard record) ++ (← writeTable rest)

end

def writeShards (shards : UInt8 → ShardTable) : List UInt8 → Except SnapshotError Bytes
  | [] => .ok []
  | s :: rest => do return (← writeTable s (shards s)) ++ (← writeShards shards rest)

def putHeader (tipHash : Hash256) (height : UInt32) (recordCount : ℕ) : Bytes :=
  encode 4 snapshotMagic.toNat ++ (encode 4 snapshotWriteVersion.toNat ++
    (tipHash.bytes ++ (encode 4 height.toNat ++ encode 8 recordCount)))

def writeSnapshot (set : UtxoSet) (tipHash : Hash256) (height : UInt32) (trailer : MuHashTrailer) :
    Except SnapshotError Bytes := do
  if 2 ^ 64 ≤ set.recordCount then .error (.recordCountTooLarge (2 ^ 64 - 1))
  let body ← writeShards set.shards shardIndexes
  return putHeader tipHash height set.recordCount ++ (body ++ trailer.bytes)

end

section

abbrev SnapshotReader (α : Type) := Reader SnapshotError α

def readExact (n : ℕ) : SnapshotReader Bytes := takeBytes (.io .unexpectedEof) n

def ofRun {α : Type} (run : Run α) : SnapshotReader α := fun input =>
  match run with
  | .ok a => .ok (a, input)
  | .error fault => .error (.record fault)

section

variable (bytes : Bytes) (offset : ℕ)

def readU16At : ℕ := decode ((bytes.drop offset).take 2)

def readU32At : UInt32 := readU32Le (bytes.drop offset)

def readU64At : ℕ := decode ((bytes.drop offset).take 8)

end

def readSnapshotMetadataV4 : SnapshotReader NativeSnapshotMetadata := do
  let header ← readExact snapshotHeaderLen
  let magic := readU32At header 0
  if magic ≠ snapshotMagic then fail (.invalidMagic magic)
  let version := readU32At header 4
  if version ≠ snapshotWriteVersion then fail (.unsupportedVersion version)
  return { tipHash := .fromLeBytes ((header.drop 8).take 32), height := readU32At header 40,
           recordCount := readU64At header 44 }

def checkedRecordCount (recordCount : ℕ) : SnapshotReader ℕ :=
  if maxSnapshotRecords < recordCount then fail (.recordCountTooLarge recordCount) else pure recordCount

def checkedOutputCount (outputCount : UInt32) : SnapshotReader ℕ :=
  if maxSnapshotCoinsPerTxid < outputCount.toNat then fail (.outputCountTooLarge outputCount.toNat)
  else pure outputCount.toNat

def checkedRecordVout (output : OutputParts) (seenVouts : List UInt32) : SnapshotReader (List UInt32) :=
  if output.vout ∈ seenVouts then fail (.duplicateVout output.vout) else pure (output.vout :: seenVouts)

def validateSnapshotKey (key : UtxoKey) (txid : Hash256) (shard : UInt8) : SnapshotReader Unit :=
  if UtxoKey.fromTxid txid ≠ key then fail .txidPrefixMismatch
  else if key.shard ≠ shard then fail (.shardMismatch shard key.shard)
  else pure ()

def decodeRecordIdentity (header : Bytes) : SnapshotReader Hash256 := do
  let shard := header.headD 0
  let key := (header.drop 1).take 8
  let txid := Hash256.fromLeBytes ((header.drop 9).take 32)
  validateSnapshotKey key txid shard
  return txid

def readSnapshotRecordHead : SnapshotReader (Hash256 × UInt32) := do
  let header ← readExact snapshotRecordHeaderLen
  let txid ← decodeRecordIdentity header
  return (txid, readU32At header 41)

def readSnapshotOutput : SnapshotReader OutputParts := do
  let header ← readExact snapshotVoutHeaderLen
  let script ← readExact (readU16At header 17)
  return { vout := readU32At header 0, value := UInt64.ofNat (readU64At header 4), script,
           coinbase := (header.drop 16).headD 0 != 0, height := readU32At header 12 }

def readOutputsLoop : ℕ → List UInt32 → SnapshotReader (List OutputParts)
  | 0, _ => pure []
  | n + 1, seenVouts => do
    let output ← readSnapshotOutput
    let seenVouts ← checkedRecordVout output seenVouts
    return output :: (← readOutputsLoop n seenVouts)

def readSnapshotOutputs (outputCount : UInt32) : SnapshotReader (List OutputParts) := do
  readOutputsLoop (← checkedOutputCount outputCount) []

def readSnapshotRecordV4 : SnapshotReader (Hash256 × List OutputParts) := do
  let (txid, outputCount) ← readSnapshotRecordHead
  return (txid, ← readSnapshotOutputs outputCount)

def insertRecordStep (set : UtxoSet) : SnapshotReader UtxoSet := do
  let (txid, outputs) ← readSnapshotRecordV4
  let record ← ofRun (UtxoRecord.fromOwnedOutputs txid outputs)
  ofRun (set.insertSnapshotRecord record)

def readTrailing : SnapshotReader Unit := fun input =>
  if input.isEmpty then .ok ((), input) else .error (.io .trailingBytes)

def readSnapshotStrictV4 : SnapshotReader SnapshotLoad := do
  let metadata ← readSnapshotMetadataV4
  let recordCount ← checkedRecordCount metadata.recordCount
  let set ← readFold insertRecordStep recordCount UtxoSet.new
  let actual := set.recordCount
  if actual ≠ recordCount then fail (.recordCountMismatch metadata.recordCount actual)
  let muhashTrailer ← readExact muhashTrailerLen
  readTrailing
  return { set, tipHash := metadata.tipHash, height := metadata.height, muhashTrailer }

end

section

inductive RawSeedError (ε : Type)
  | integrity
  | io (error : ReadError)
  | emit (error : ε)
  | cancelled

variable {ε σ : Type}

def mapSnapshotError : SnapshotError → RawSeedError ε
  | .io .unexpectedEof => .integrity
  | .io error => .io error
  | _ => .integrity

abbrev RawReader (ε α : Type) := Reader (RawSeedError ε) α

def RawReader.ofSnapshot {α : Type} (reader : SnapshotReader α) : RawReader ε α := fun input =>
  match reader input with
  | .ok result => .ok result
  | .error error => .error (mapSnapshotError error)

structure RawState (σ : Type) where
  sink : σ
  outputs : ℕ
  polls : ℕ

structure RawStreamCounts where
  tipHash : Hash256
  height : UInt32
  records : ℕ
  outputs : ℕ

def seedCancelPollCoins : ℕ := 4096

variable (emit : σ → OutPoint → Script → Except ε σ) (cancelled : ℕ → Bool)

def poll (state : RawState σ) : RawReader ε (RawState σ) :=
  if cancelled state.polls then fail .cancelled else pure { state with polls := state.polls + 1 }

def emitOutput (txid : Hash256) (output : OutputParts) (state : RawState σ) : RawReader ε (RawState σ) :=
  match emit state.sink ⟨txid, output.vout⟩ output.script with
  | .error error => fail (.emit error)
  | .ok sink =>
    if 2 ^ 64 ≤ state.outputs + 1 then fail .integrity
    else
      let state := { state with sink, outputs := state.outputs + 1 }
      if state.outputs % seedCancelPollCoins = 0 then poll cancelled state else pure state

def emitOutputsLoop (txid : Hash256) : ℕ → List UInt32 → RawState σ → RawReader ε (RawState σ)
  | 0, _, state => pure state
  | n + 1, seenVouts, state => do
    let output ← RawReader.ofSnapshot readSnapshotOutput
    let seenVouts ← RawReader.ofSnapshot (checkedRecordVout output seenVouts)
    emitOutputsLoop txid n seenVouts (← emitOutput emit cancelled txid output state)

def emitRecordStep (state : RawState σ) : RawReader ε (RawState σ) := do
  let (txid, outputCount) ← RawReader.ofSnapshot readSnapshotRecordHead
  if outputCount = 0 then fail .integrity
  let recordOutputs ← RawReader.ofSnapshot (checkedOutputCount outputCount)
  emitOutputsLoop emit cancelled txid recordOutputs [] state

def readRawTrailing : RawReader ε Unit := fun input =>
  if input.isEmpty then .ok ((), input) else .error .integrity

def readRawSnapshotStream (sink : σ) : RawReader ε (RawStreamCounts × σ) := do
  let state ← poll cancelled { sink, outputs := 0, polls := 0 }
  let metadata ← RawReader.ofSnapshot readSnapshotMetadataV4
  let recordCount ← RawReader.ofSnapshot (checkedRecordCount metadata.recordCount)
  let state ← readFold (emitRecordStep emit cancelled) recordCount state
  let state ← poll cancelled state
  let _ ← RawReader.ofSnapshot (readExact muhashTrailerLen)
  readRawTrailing
  return ({ tipHash := metadata.tipHash, height := metadata.height, records := metadata.recordCount,
            outputs := state.outputs }, state.sink)

end

end Snapshot

abbrev Item := Hash256 × List OutputParts

structure Item.Valid (item : Item) : Prop where
  distinct : Distinct OutputParts.vout item.2
  script_lt : ∀ output ∈ item.2, output.script.length < 2 ^ 16
  length_lt : item.2.length < 2 ^ 32

def Item.coins (item : Item) : List UtxoCoin := item.2.map (coinOf item.1)

def Item.put (M : Outputs) (item : Item) : Outputs :=
  if item.2 = [] then M else update M item.1 (lookupPart item.2)

variable {item : Item}

lemma Item.put_of_ne_nil (h : item.2 ≠ []) (M : Outputs) :
    Item.put M item = update M item.1 (lookupPart item.2) := if_neg h

lemma lookupPart_ne_dead {parts : List OutputParts} (h : parts ≠ []) : lookupPart parts ≠ fun _ => none := by
  obtain ⟨part, rest, rfl⟩ := exists_cons_of_ne_nil h
  intro hdead
  exact lookup_eq_none.mp (congrFun hdead part.vout) part mem_cons_self rfl

lemma Item.put_dead_iff (h : item.2 ≠ []) (M : Outputs) (txid : Hash256) :
    Item.put M item txid = (fun _ => none) ↔ txid ≠ item.1 ∧ M txid = fun _ => none := by
  rw [Item.put_of_ne_nil h]
  by_cases htxid : txid = item.1
  · rw [htxid, update_self]
    exact ⟨fun hdead => absurd hdead (lookupPart_ne_dead h), fun hne => absurd rfl hne.1⟩
  · rw [update_of_ne htxid]
    exact ⟨fun hdead => ⟨htxid, hdead⟩, And.right⟩

section

lemma shardPart_update_self (M : Outputs) (x : Hash256) (m : UInt32 → Option OutputParts) :
    shardPart (update M x m) (shardOfTxid x) = update (shardPart M (shardOfTxid x)) x m := by
  funext y
  by_cases hy : y = x
  · rw [shardPart, hy, if_pos rfl, update_self, update_self]
  · rw [update_of_ne hy, shardPart, shardPart, update_of_ne hy]

lemma shardPart_update_of_ne (M : Outputs) (x : Hash256) (m : UInt32 → Option OutputParts) {s : UInt8}
    (hs : s ≠ shardOfTxid x) : shardPart (update M x m) s = shardPart M s := by
  funext y
  rw [shardPart, shardPart]
  by_cases hy : shardOfTxid y = s
  · have hne : y ≠ x := fun he => hs (by rw [← hy, he])
    rw [update_of_ne hne]
  · rw [if_neg hy, if_neg hy]

lemma sum_shards_update (f : UInt8 → ℕ) (s : UInt8) (n : ℕ) :
    (shardIndexes.map (update f s n)).sum + f s = (shardIndexes.map f).sum + n := by
  have hsame : (shardIndexes.erase s).map (update f s n) = (shardIndexes.erase s).map f := by
    refine map_congr_left (fun t ht => update_of_ne ?_ _ _)
    rintro rfl
    exact (nodup_shardIndexes.mem_erase_iff.mp ht).1 rfl
  have hnew := sum_map_erase (update f s n) (mem_shardIndexes s)
  have hold := sum_map_erase f (mem_shardIndexes s)
  rw [hsame, update_self] at hnew
  omega

end

lemma Represents.length_replaceRecord {table : ShardTable} {M : Outputs} (h : Represents table M) (x : Hash256)
    (record : UtxoRecord) :
    (M x = (fun _ => none) ∧
        (Utxo.replaceRecord table (UtxoKey.fromTxid x) x record).length = table.length + 1) ∨
      (M x ≠ (fun _ => none) ∧
        (Utxo.replaceRecord table (UtxoKey.fromTxid x) x record).length = table.length) := by
  rw [Utxo.replaceRecord]
  rcases h.find_cases x with ⟨hidx, -, -, hdead⟩ | ⟨i, hi, hidx, -, hs⟩
  · rw [hidx]
    exact Or.inl ⟨hdead, by simp⟩
  · rw [hidx]
    obtain ⟨v, hv⟩ := hs.live
    exact Or.inr ⟨fun hdead => hv (congrFun hdead v), by simp⟩

namespace UtxoSet

variable {set : UtxoSet} {M : Outputs}

lemma recordCount_new : UtxoSet.new.recordCount = 0 := by decide +kernel

def insertItem (set : UtxoSet) (item : Item) : Run UtxoSet := do
  set.insertSnapshotRecord (← UtxoRecord.fromOwnedOutputs item.1 item.2)

lemma insertItem_spec (h : set.Represents M) (hitem : item.Valid) :
    ∃ set', set.insertItem item = .ok set' ∧ set'.Represents (Item.put M item) ∧
      set'.recordCount ≤ set.recordCount + 1 ∧
      (set'.recordCount = set.recordCount + 1 ↔ item.2 ≠ [] ∧ M item.1 = fun _ => none) := by
  obtain ⟨txid, outputs⟩ := item
  obtain ⟨pk, hrecord, -, rfl, rfl⟩ :=
    UtxoRecord.fromOwnedOutputs_ok txid hitem.distinct hitem.script_lt hitem.length_lt
  have hkey : pk.record.key = fromTxid pk.txid := by
    rw [fromTxid, ← pk.record_txid, UtxoRecord.txid, take_take]
    rfl
  rw [insertItem, hrecord, ok_bind, insertSnapshotRecord, ShardTable.insertRecord, pk.record_outputCount, ok_bind, hkey]
  by_cases hempty : pk.parts = []
  · refine ⟨_, by rw [if_pos (by rw [hempty]; rfl)]; rfl, ?_⟩
    simp only [update_eq_self]
    refine ⟨by rwa [Item.put, if_pos hempty], Nat.le_succ _, fun hsucc =>
      absurd hsucc (Nat.ne_of_lt (Nat.lt_succ_self _)),
      fun hne => absurd hempty hne.1⟩
  · have hstores : Stores pk.record pk.txid (lookupPart pk.parts) := ⟨pk, rfl, rfl, hitem.distinct, hempty, rfl⟩
    refine ⟨_, by rw [if_neg (fun hlen => hempty (length_eq_zero_iff.mp hlen)), pk.record_ownTxid]; rfl, ?_⟩
    have hshard := h (shardOfTxid pk.txid)
    refine ⟨fun s => ?_, ?_⟩
    · rw [Item.put_of_ne_nil hempty]
      by_cases hs : s = shardOfTxid pk.txid
      · subst hs
        rw [shardPart_update_self]
        simp only [shardOfTxid, update_self]
        exact hshard.replaceRecord hstores
      · rw [shardPart_update_of_ne _ _ _ hs]
        simp only [shardOfTxid] at hs
        simp only [update_of_ne hs]
        exact h s
    · have hsum (table : ShardTable) :
          recordCount { set with shards := update set.shards (fromTxid pk.txid).shard table } +
            (set.shards (fromTxid pk.txid).shard).length = set.recordCount + table.length := by
        have hupdate := sum_shards_update (fun s => (set.shards s).length) (fromTxid pk.txid).shard table.length
        have hcount : (fun s => (update set.shards (fromTxid pk.txid).shard table s).length) =
            update (fun s => (set.shards s).length) (fromTxid pk.txid).shard table.length := by
          funext s
          by_cases hs : s = (fromTxid pk.txid).shard
          · rw [hs, update_self, update_self]
          · rw [update_of_ne hs, update_of_ne hs]
        rw [recordCount, hcount]
        exact hupdate
      have hnext := hsum (replaceRecord (set.shards (fromTxid pk.txid).shard) (fromTxid pk.txid)
        pk.txid pk.record)
      have hlength := hshard.length_replaceRecord pk.txid pk.record
      rw [shardPart, if_pos rfl, shardOfTxid] at hlength
      rcases hlength with ⟨hdead, hlen⟩ | ⟨hlive, hlen⟩
      · exact ⟨by omega, fun _ => ⟨hempty, hdead⟩, fun _ => by omega⟩
      · exact ⟨by omega, fun hsucc => absurd hsucc (by omega), fun hfresh => absurd hfresh.2 hlive⟩

lemma insertItems_spec (h : set.Represents M) {items : List Item} (hitems : ∀ item ∈ items, item.Valid) :
    ∃ set', items.foldlM insertItem set = .ok set' ∧ set'.Represents (items.foldl Item.put M) ∧
      set'.recordCount ≤ set.recordCount + items.length ∧
      (set'.recordCount = set.recordCount + items.length ↔
        Distinct Prod.fst items ∧ ∀ item ∈ items, item.2 ≠ [] ∧ M item.1 = fun _ => none) := by
  induction items generalizing set M with
  | nil => exact ⟨set, rfl, h, Nat.le_add_right _ _, fun _ => ⟨nodup_nil, by simp⟩, fun _ => (Nat.add_zero _).symm⟩
  | cons item rest ih =>
    obtain ⟨next, hnext, hM, hle, hone⟩ := insertItem_spec h (hitems item mem_cons_self)
    obtain ⟨last, hlast, hrest, hcount, hall⟩ := ih hM (fun i hi => hitems i (mem_cons_of_mem _ hi))
    refine ⟨last, by rw [foldlM_cons, hnext, ok_bind, hlast], hrest, ?_, ?_⟩
    · rw [length_cons]
      omega
    · have hsplit : last.recordCount = set.recordCount + (item :: rest).length ↔
          next.recordCount = set.recordCount + 1 ∧ last.recordCount = next.recordCount + rest.length := by
        rw [length_cons]
        omega
      rw [hsplit, hone, hall, forall_mem_cons]
      constructor
      · rintro ⟨hfirst, hdistinct, hfresh⟩
        have hput (other : Item) (hother : other ∈ rest) := (Item.put_dead_iff hfirst.1 M other.1).mp
          (hfresh other hother).2
        refine ⟨hdistinct.cons (lookup_eq_none.mpr (fun other hother => (hput other hother).1)), hfirst, ?_⟩
        exact fun other hother => ⟨(hfresh other hother).1, (hput other hother).2⟩
      · rintro ⟨hdistinct, hfirst, hfresh⟩
        refine ⟨hfirst, hdistinct.tail, fun other hother => ⟨(hfresh other hother).1, ?_⟩⟩
        refine (Item.put_dead_iff hfirst.1 M other.1).mpr ⟨?_, (hfresh other hother).2⟩
        exact lookup_eq_none.mp hdistinct.lookup_head other hother

end UtxoSet

lemma enumerates_items {items : List Item} {M : Outputs} {coins : Multiset UtxoCoin}
    (h : Enumerates UtxoCoin.outpoint coins (coinsOf M)) (hitems : ∀ item ∈ items, item.Valid)
    (hdistinct : Distinct Prod.fst items) (hfresh : ∀ item ∈ items, item.2 ≠ [] ∧ M item.1 = fun _ => none) :
    Enumerates UtxoCoin.outpoint (coins + (items.flatMap Item.coins : List UtxoCoin))
      (coinsOf (items.foldl Item.put M)) := by
  induction items generalizing M coins with
  | nil => rwa [flatMap_nil, Multiset.coe_nil, add_zero]
  | cons item rest ih =>
    obtain ⟨hne, hdead⟩ := hfresh item mem_cons_self
    have hstep : Enumerates UtxoCoin.outpoint ((item.coins : Multiset UtxoCoin) + coins)
      (coinsOf (Item.put M item)) := by
      rw [Item.put_of_ne_nil hne]
      apply enumerates_update (enumerates_outputs item.1 (hitems item mem_cons_self).distinct)
      rwa [← hdead, update_eq_self]
    have hrest := ih hstep (fun i hi => hitems i (mem_cons_of_mem _ hi)) hdistinct.tail (fun other hother =>
      ⟨(hfresh other (mem_cons_of_mem _ hother)).1, (Item.put_dead_iff hne M other.1).mpr
        ⟨lookup_eq_none.mp hdistinct.lookup_head other hother, (hfresh other (mem_cons_of_mem _ hother)).2⟩⟩)
    rw [flatMap_cons, ← Multiset.coe_add, ← add_assoc, add_comm coins]
    exact hrest

section

def shardsPart (M : Outputs) (shards : List UInt8) : Outputs := fun x =>
  if shardOfTxid x ∈ shards then M x else fun _ => none

variable {M : Outputs}

lemma Represents.outputCountOf {table : ShardTable} (h : Represents table M) {coins : List UtxoCoin}
    (hcoins : table.coins = .ok coins) : UtxoSet.outputCountOf table = .ok coins.length := by
  induction table generalizing M coins with
  | nil =>
    cases hcoins
    rfl
  | cons record table ih =>
    obtain ⟨txid, hs⟩ := h.stored record mem_cons_self
    obtain ⟨first, hfirst, hcount, -⟩ := hs.coins
    rw [ShardTable.coins, hfirst, ok_bind] at hcoins
    obtain ⟨others, hothers, hboth⟩ := bind_eq_ok hcoins
    cases hboth
    rw [UtxoSet.outputCountOf, hcount, ok_bind, ih (h.erase hs).1 hothers, ok_bind, pure_eq_ok, length_append]

variable {set : UtxoSet}

lemma enumerates_shards (h : set.Represents M) {shards : List UInt8} (hnodup : shards.Nodup) :
    ∃ coins, coinsOfShards set.shards shards = .ok coins ∧
      UtxoSet.outputCountOfShards set.shards shards = .ok coins.length ∧
      Enumerates UtxoCoin.outpoint (coins : Multiset UtxoCoin) (coinsOf (shardsPart M shards)) := by
  induction shards with
  | nil =>
    refine ⟨[], rfl, rfl, ?_⟩
    exact Enumerates.empty
  | cons s rest ih =>
    obtain ⟨hs, hrest⟩ := nodup_cons.mp hnodup
    obtain ⟨others, hothers, hcount, hmany⟩ := ih hrest
    obtain ⟨first, hfirst, hone⟩ := (h s).coins
    refine ⟨first ++ others, ?_, ?_, ?_⟩
    · rw [coinsOfShards, hfirst, ok_bind, hothers, ok_bind, pure_eq_ok]
    · rw [UtxoSet.outputCountOfShards, (h s).outputCountOf hfirst, ok_bind, hcount, ok_bind, pure_eq_ok, length_append]
    · refine hone.add hmany (fun op => ?_) (fun op => ?_)
      · by_cases hop : shardOfTxid op.txid = s
        · simp [coinsOf, shardsPart, shardPart, hop, hs]
        · simp [coinsOf, shardsPart, shardPart, hop]
      · by_cases hop : shardOfTxid op.txid = s
        · exact Or.inr (by simp [coinsOf, shardsPart, hop, hs])
        · exact Or.inl (by simp [coinsOf, shardPart, hop])

lemma UtxoSet.Represents.walk (h : set.Represents M) :
    ∃ coins, set.forEachCoin = .ok coins ∧ set.len = .ok coins.length ∧
      Enumerates UtxoCoin.outpoint (coins : Multiset UtxoCoin) (coinsOf M) := by
  have hall : shardsPart M shardIndexes = M := by
    funext x
    rw [shardsPart, if_pos (mem_shardIndexes _)]
  have hwalk := enumerates_shards h nodup_shardIndexes
  rwa [hall] at hwalk

end

/-- All ways to read a set tell of the same coins. -/
theorem UtxoSet.reads_agree (set : UtxoSet) (hset : set.WellFormed) :
    ∃ coins, set.forEachCoin = .ok coins ∧ coins.Nodup ∧ set.len = .ok coins.length ∧
      (∀ op coin, set.getEntry op = .ok (some coin) ↔ coin ∈ coins ∧ coin.outpoint = op) ∧
      ∀ txid, ∃ live, set.hasLiveOutputsForTxid txid = .ok live ∧
        (live ↔ ∃ coin ∈ coins, coin.outpoint.txid = txid) := by
  obtain ⟨M, h⟩ := hset
  obtain ⟨coins, hcoins, hlen, henum⟩ := h.walk
  refine ⟨coins, hcoins, henum.nodup, hlen, fun op coin => ?_, fun txid => ?_⟩
  · rw [getEntry_eq h, Except.ok.injEq]
    exact henum.mem_iff op coin
  have hholds := (h (shardOfTxid txid)).findRecord_holds txid
  rw [shardPart, if_pos rfl, shardOfTxid] at hholds
  unfold hasLiveOutputsForTxid ShardTable.hasLiveOutputsForTxid
  dsimp only
  generalize findRecord (set.shards (UtxoKey.fromTxid txid).shard) (UtxoKey.fromTxid txid) txid = found at hholds ⊢
  cases found with
  | none =>
    refine ⟨false, rfl, by simp, ?_⟩
    rintro ⟨coin, hcoin, rfl⟩
    have hsome := henum.mem.mp hcoin
    rw [coinsOf, hholds] at hsome
    cases hsome
  | some record =>
    obtain ⟨vout, hlive⟩ := Stores.live hholds
    obtain ⟨part, hpart⟩ := Option.ne_none_iff_exists'.mp hlive
    obtain ⟨pk, rfl, -, -, hne, -⟩ := hholds
    refine ⟨true, ?_, fun _ => ⟨coinOf txid part, ?_⟩, fun _ => rfl⟩
    · simp [pk.record_outputCount, hne]
    · have hmem := (henum.mem_iff ⟨txid, vout⟩ (coinOf txid part)).mp (by rw [coinsOf, hpart]; rfl)
      exact ⟨hmem.1, rfl⟩

section

open Sample (utxo utxo_wellFormed spentTxid)

theorem UtxoSet.reads_agree_sample : ∃ coins, utxo.forEachCoin = .ok coins ∧ coins.length = 3 ∧
    (∀ op coin, utxo.getEntry op = .ok (some coin) ↔ coin ∈ coins ∧ coin.outpoint = op) ∧
    ∃ coin ∈ coins, coin.outpoint.txid = spentTxid := by
  obtain ⟨coins, hcoins, -, hlen, hentries, hlive⟩ := UtxoSet.reads_agree utxo utxo_wellFormed
  have hthree : utxo.len = .ok 3 := by decide +kernel
  have htrue : utxo.hasLiveOutputsForTxid spentTxid = .ok true := by decide +kernel
  obtain ⟨live, hfound, hiff⟩ := hlive spentTxid
  rw [htrue] at hfound
  cases hfound
  exact ⟨coins, hcoins, Except.ok.inj (hlen.symm.trans hthree), hentries, hiff.mp rfl⟩

end

namespace Snapshot

variable {n : ℕ}

section

lemma drop_field {xs : Bytes} (h : xs.length = n) (ys : Bytes) (k : ℕ) : (xs ++ ys).drop (k + n) = ys.drop k := by
  rw [Nat.add_comm, ← drop_drop, drop_left' h]

lemma readU64At_encode (h : n < 2 ^ 64) (rest : Bytes) : decode ((encode 8 n ++ rest).take 8) = n := by
  rw [take_left' (length_encode 8 n), decode_encode 8 n h]

variable (output : OutputParts)

lemma length_putVoutHeader : (putVoutHeader output).length = snapshotVoutHeaderLen := by
  simp [putVoutHeader, snapshotVoutHeaderLen]

def putOutput : Bytes := putVoutHeader output ++ output.script

lemma reads_readSnapshotOutput (h : output.script.length < 2 ^ 16) :
    Reads readSnapshotOutput (putOutput output) output := by
  have hvalue : (putVoutHeader output).drop 4 = encode 8 output.value.toNat ++
      (encode 4 output.height.toNat ++ ([if output.coinbase then 1 else 0] ++
        encode 2 output.script.length)) := drop_field (length_encode 4 _) _ 0
  have hheight : (putVoutHeader output).drop 12 = encode 4 output.height.toNat ++
      ([if output.coinbase then 1 else 0] ++ encode 2 output.script.length) := by
    rw [show 12 = 4 + 8 from rfl, ← drop_drop]
    exact drop_field (length_encode 8 _) _ 0
  have hcoinbase : (putVoutHeader output).drop 16 =
      [if output.coinbase then 1 else 0] ++ encode 2 output.script.length := by
    rw [show 16 = 12 + 4 from rfl, ← drop_drop]
    exact drop_field (length_encode 4 _) _ 0
  have hlen : (putVoutHeader output).drop 17 = encode 2 output.script.length := by
    rfl
  have hscript : readU16At (putVoutHeader output) 17 = output.script.length := by
    rw [readU16At, hlen, take_of_length_le (by simp), decode_encode 2 _ h]
  have hparts : (⟨readU32At (putVoutHeader output) 0, UInt64.ofNat (readU64At (putVoutHeader output) 4), output.script,
      ((putVoutHeader output).drop 16).headD 0 != 0, readU32At (putVoutHeader output) 12⟩ : OutputParts) = output := by
    rw [readU32At, readU32At, readU64At, hvalue, hheight, readU64At_encode output.value.toNat_lt,
      UInt64.ofNat_toNat, readU32Le_encode, drop_zero, putVoutHeader, readU32Le_encode]
    cases output with
    | mk vout value script coinbase height => cases coinbase <;> rfl
  have hread : Reads readSnapshotOutput (putVoutHeader output ++ output.script) _ :=
    (reads_takeBytes_of_length _ (length_putVoutHeader output)).bind
      ((reads_takeBytes_of_length (SnapshotError.io .unexpectedEof) hscript.symm).bind_pure)
  rwa [hparts] at hread

end

section

lemma reads_readOutputsLoop {outputs : List OutputParts} {seen : List UInt32}
    (hscripts : ScriptsFit outputs) (hdistinct : Distinct OutputParts.vout outputs)
    (hseen : ∀ output ∈ outputs, output.vout ∉ seen) :
    Reads (readOutputsLoop outputs.length seen) (outputs.flatMap putOutput) outputs := by
  induction outputs generalizing seen with
  | nil => exact Reads.pure []
  | cons output rest ih =>
    have hvout : checkedRecordVout output seen = pure (output.vout :: seen) := if_neg (hseen output mem_cons_self)
    have hrest : ∀ other ∈ rest, other.vout ∉ output.vout :: seen := by
      intro other hother
      rw [mem_cons, not_or]
      exact ⟨lookup_eq_none.mp hdistinct.lookup_head other hother, hseen other (mem_cons_of_mem _ hother)⟩
    have htail := ih (fun other hother => hscripts other (mem_cons_of_mem _ hother)) hdistinct.tail hrest
    refine (reads_readSnapshotOutput output (hscripts output mem_cons_self)).bind ?_
    rw [hvout]
    exact Reads.bind (Reads.pure _) htail.bind_pure

def putItemHeader (item : Item) : Bytes :=
  putRecordHeader (shardOfTxid item.1) (UtxoKey.fromTxid item.1) item.1.bytes item.2.length

def putItem (item : Item) : Bytes := putItemHeader item ++ item.2.flatMap putOutput

lemma length_fromTxid (txid : Hash256) : (UtxoKey.fromTxid txid).length = 8 := by
  rw [UtxoKey.fromTxid, length_take, txid.length_bytes]
  rfl

lemma reads_readSnapshotRecordHead (h : item.2.length < 2 ^ 32) :
    Reads readSnapshotRecordHead (putItemHeader item) (item.1, ofNat item.2.length) := by
  obtain ⟨txid, outputs⟩ := item
  have hlen : (putItemHeader (txid, outputs)).length = snapshotRecordHeaderLen := by
    simp [putItemHeader, putRecordHeader, length_fromTxid, txid.length_bytes, snapshotRecordHeaderLen]
  have hkey : (putItemHeader (txid, outputs)).drop 1 =
      UtxoKey.fromTxid txid ++ (txid.bytes ++ encode 4 outputs.length) := rfl
  have htxid : (putItemHeader (txid, outputs)).drop 9 = txid.bytes ++ encode 4 outputs.length := by
    exact drop_field (length_fromTxid txid) _ 0
  have hcount : (putItemHeader (txid, outputs)).drop 41 = encode 4 outputs.length := by
    rw [show 41 = 9 + 32 from rfl, ← drop_drop, htxid]
    exact drop_field txid.length_bytes _ 0
  have hidentity : decodeRecordIdentity (putItemHeader (txid, outputs)) = pure txid := by
    have hown : Hash256.fromLeBytes txid.bytes = txid := by
      have hbytes := txid.fromLeBytes_bytes []
      rwa [append_nil] at hbytes
    have hshard : (putItemHeader (txid, outputs)).headD 0 = (UtxoKey.fromTxid txid).shard := rfl
    rw [decodeRecordIdentity, hkey, htxid, take_left' (length_fromTxid txid), take_left' txid.length_bytes,
      hown, hshard, validateSnapshotKey, if_neg (not_not.mpr rfl), if_neg (not_not.mpr rfl), pure_bind]
  have hread : readU32At (putItemHeader (txid, outputs)) 41 = ofNat outputs.length := by
    have hword := readU32Le_encode_nil (ofNat outputs.length)
    rw [toNat_ofNat_of_lt' h] at hword
    rw [readU32At, hcount, hword]
  have hboth : Reads readSnapshotRecordHead (putItemHeader (txid, outputs) ++ [])
      (txid, readU32At (putItemHeader (txid, outputs)) 41) := by
    refine (reads_takeBytes_of_length _ hlen).bind ?_
    rw [hidentity]
    exact Reads.pure _
  rwa [append_nil, hread] at hboth

lemma checkedOutputCount_ok (h : n ≤ maxSnapshotCoinsPerTxid) : checkedOutputCount (ofNat n) = pure n := by
  have hn : (ofNat n).toNat = n := toNat_ofNat_of_lt' (Nat.lt_of_le_of_lt h (by decide))
  rw [checkedOutputCount, hn, if_neg (Nat.not_lt.mpr h)]

lemma checkedOutputCount_fail (h : maxSnapshotCoinsPerTxid < n) (hn : n < 2 ^ 32) :
    checkedOutputCount (ofNat n) = fail (.outputCountTooLarge n) := by
  rw [checkedOutputCount, toNat_ofNat_of_lt' hn, if_pos h]

lemma reads_readSnapshotRecordV4 (h : item.Valid) (hlimit : item.2.length ≤ maxSnapshotCoinsPerTxid) :
    Reads readSnapshotRecordV4 (putItem item) item := by
  refine (reads_readSnapshotRecordHead h.length_lt).bind (Reads.bind_pure ?_)
  rw [readSnapshotOutputs, checkedOutputCount_ok hlimit]
  exact reads_readOutputsLoop h.script_lt h.distinct (by simp)

lemma fails_readSnapshotRecordV4 (h : item.Valid) (hlimit : maxSnapshotCoinsPerTxid < item.2.length) :
    Fails readSnapshotRecordV4 (putItem item) (.outputCountTooLarge item.2.length) := by
  refine (reads_readSnapshotRecordHead h.length_lt).bind_fails (Fails.bind ?_ _)
  rw [readSnapshotOutputs, checkedOutputCount_fail hlimit h.length_lt]
  exact ((fails_fail _).bind _).append _

lemma ofRun_bind {α β : Type} (run : Run α) (f : α → Run β) :
    ofRun (run >>= f) = ofRun run >>= fun a => ofRun (f a) := by
  cases run <;> rfl

lemma reads_ofRun {α : Type} (a : α) : Reads (ofRun (.ok a)) [] a := fun _ => rfl

lemma insertRecordStep_eq (set : UtxoSet) :
    insertRecordStep set = readSnapshotRecordV4 >>= fun item => ofRun (set.insertItem item) := by
  simp only [insertRecordStep, UtxoSet.insertItem, ofRun_bind]

variable {set set' : UtxoSet}

lemma reads_insertRecordStep (h : item.Valid) (hlimit : item.2.length ≤ maxSnapshotCoinsPerTxid)
    (hrun : set.insertItem item = .ok set') : Reads (insertRecordStep set) (putItem item) set' := by
  rw [insertRecordStep_eq, ← append_nil (putItem item)]
  refine (reads_readSnapshotRecordV4 h hlimit).bind ?_
  rw [hrun]
  exact reads_ofRun set'

variable {items : List Item} (hitems : ∀ item ∈ items, item.Valid)

include hitems

lemma reads_insertRecords (hlimit : ∀ item ∈ items, item.2.length ≤ maxSnapshotCoinsPerTxid)
    (hrun : items.foldlM UtxoSet.insertItem set = .ok set') :
    Reads (readFold insertRecordStep items.length set) (items.flatMap putItem) set' := by
  induction items generalizing set with
  | nil =>
    cases hrun
    exact Reads.pure _
  | cons item rest ih =>
    obtain ⟨next, hnext, hrest⟩ := Fallible.bind_eq_ok hrun
    have hfirst := reads_insertRecordStep (hitems item mem_cons_self) (hlimit item mem_cons_self) hnext
    exact hfirst.bind (ih (fun i hi => hitems i (mem_cons_of_mem _ hi))
      (fun i hi => hlimit i (mem_cons_of_mem _ hi)) hrest)

lemma fails_insertRecords
    (hlimit : ∃ item ∈ items, maxSnapshotCoinsPerTxid < item.2.length) {set : UtxoSet} {M : Outputs}
    (h : set.Represents M) :
    ∃ item ∈ items, maxSnapshotCoinsPerTxid < item.2.length ∧
      Fails (readFold insertRecordStep items.length set) (items.flatMap putItem)
        (.outputCountTooLarge item.2.length) := by
  induction items generalizing set M with
  | nil =>
    obtain ⟨item, hitem, -⟩ := hlimit
    cases hitem
  | cons item rest ih =>
    have hvalid := hitems item mem_cons_self
    by_cases hlarge : maxSnapshotCoinsPerTxid < item.2.length
    · refine ⟨item, mem_cons_self, hlarge, Fails.bind ?_ _⟩
      exact ((fails_readSnapshotRecordV4 hvalid hlarge).bind _).append _
    · obtain ⟨next, hnext, hM, -⟩ := UtxoSet.insertItem_spec h hvalid
      have hlater : ∃ item ∈ rest, maxSnapshotCoinsPerTxid < item.2.length := by
        obtain ⟨other, hother, hlen⟩ := hlimit
        rcases mem_cons.mp hother with rfl | hother
        · exact absurd hlen hlarge
        · exact ⟨other, hother, hlen⟩
      obtain ⟨other, hother, hlen, hfails⟩ := ih (fun i hi => hitems i (mem_cons_of_mem _ hi)) hlater hM
      exact ⟨other, mem_cons_of_mem _ hother, hlen,
        (reads_insertRecordStep hvalid (Nat.not_lt.mp hlarge) hnext).bind_fails hfails⟩

end

end Snapshot

end BitcoinRs.Utxo
