import BitcoinRs.Utxo.Snapshot

namespace BitcoinRs.Utxo

open KeyedList Tally Fallible ByteReader List LittleEndian UtxoSet Hash256 Nat
open UInt32 (ofNat)

def Packing.item (pk : Packing) : Item := (pk.txid, pk.parts)

lemma Represents.packings {table : ShardTable} {M : Outputs} (h : Represents table M) :
    ∃ pks : List Packing, table = pks.map Packing.record ∧ ∀ pk ∈ pks,
      Distinct OutputParts.vout pk.parts ∧ pk.parts ≠ [] ∧ M pk.txid ≠ fun _ => none := by
  induction table generalizing M with
  | nil => exact ⟨[], rfl, by simp⟩
  | cons record table ih =>
    obtain ⟨txid, hs⟩ := h.stored record mem_cons_self
    obtain ⟨pks, rfl, hpks⟩ := ih (h.erase hs).1
    obtain ⟨v, hlive⟩ := hs.live
    obtain ⟨pk, rfl, rfl, hdistinct, hne, -⟩ := hs
    refine ⟨pk :: pks, rfl, forall_mem_cons.mpr ⟨⟨hdistinct, hne, fun hdead => hlive (congrFun hdead v)⟩, ?_⟩⟩
    intro other hother
    obtain ⟨hd, hn, hM⟩ := hpks other hother
    refine ⟨hd, hn, fun hdead => hM ?_⟩
    by_cases htxid : other.txid = pk.txid
    · rw [htxid, Function.update_self]
    · rw [Function.update_of_ne htxid, hdead]

structure Listing (set : UtxoSet) (pks : UInt8 → List Packing) : Prop where
  table : ∀ s, set.shards s = (pks s).map Packing.record
  distinct : ∀ s, ∀ pk ∈ pks s, Distinct OutputParts.vout pk.parts
  nonempty : ∀ s, ∀ pk ∈ pks s, pk.parts ≠ []
  shard : ∀ s, ∀ pk ∈ pks s, shardOfTxid pk.txid = s
  txids : ∀ s, Distinct Packing.txid (pks s)

lemma UtxoSet.Represents.listing {set : UtxoSet} {M : Outputs} (h : set.Represents M) : ∃ pks, Listing set pks := by
  choose pks htable hpks using fun s => (h s).packings
  refine ⟨pks, htable, fun s pk hpk => (hpks s pk hpk).1, fun s pk hpk => (hpks s pk hpk).2.1, ?_, fun s => ?_⟩
  · intro s pk hpk
    by_contra hne
    exact (hpks s pk hpk).2.2 (by rw [shardPart, if_neg hne])
  · have hdistinct := (h s).distinct
    rw [htable, Distinct, map_map] at hdistinct
    refine Nodup.of_map bytes ?_
    rw [map_map]
    refine (map_congr_left (fun pk _ => ?_)) ▸ hdistinct
    exact pk.record_txid

lemma distinct_shards {blocks : UInt8 → List Item} (hshard : ∀ s, ∀ item ∈ blocks s, shardOfTxid item.1 = s)
    (hdistinct : ∀ s, Distinct Prod.fst (blocks s)) : Distinct Prod.fst (shardIndexes.flatMap blocks) := by
  rw [Distinct, map_flatMap, nodup_flatMap]
  refine ⟨fun s _ => hdistinct s, nodup_shardIndexes.imp (fun {s t} hne => ?_)⟩
  intro txid hs ht
  obtain ⟨item, hitem, rfl⟩ := mem_map.mp hs
  obtain ⟨item', hitem', hsame⟩ := mem_map.mp ht
  exact hne (by rw [← hshard s item hitem, ← hshard t item' hitem', hsame])

namespace Snapshot

lemma writeOutputs_eq {outputs : List OutputParts} (h : ScriptsFit outputs) :
    writeOutputs outputs = .ok (outputs.flatMap putOutput) := by
  induction outputs with
  | nil => rfl
  | cons output rest ih =>
    rw [writeOutputs, writeOutput, if_pos (h output mem_cons_self),
      ih (fun other hother => h other (mem_cons_of_mem _ hother))]
    rfl

lemma writeRecord_packing (pk : Packing) : writeRecord (shardOfTxid pk.txid) pk.record = .ok (putItem pk.item) := by
  have hkey : pk.record.key = UtxoKey.fromTxid pk.txid := by
    rw [UtxoKey.fromTxid, ← pk.record_txid, UtxoRecord.txid, take_take]
    rfl
  rw [writeRecord, pk.record_outputCount, pk.record_outputs, hkey, pk.record_txid, liftRun, ok_bind,
    if_neg (not_le.mpr pk.length_lt), liftRun]
  rw [ok_bind, writeOutputs_eq pk.script_lt]
  rfl

lemma writeTable_packings {s : UInt8} {pks : List Packing} (h : ∀ pk ∈ pks, shardOfTxid pk.txid = s) :
    writeTable s (pks.map Packing.record) = .ok ((pks.map Packing.item).flatMap putItem) := by
  induction pks with
  | nil => rfl
  | cons pk rest ih =>
    obtain ⟨rfl, hrest⟩ := forall_mem_cons.mp h
    rw [map_cons, writeTable, writeRecord_packing, ok_bind, ih hrest, ok_bind, pure_eq_ok, map_cons, flatMap_cons]

lemma tableCoins_packings (pks : List Packing) :
    ShardTable.coins (pks.map Packing.record) = .ok ((pks.map Packing.item).flatMap Item.coins) := by
  induction pks with
  | nil => rfl
  | cons pk rest ih =>
    rw [map_cons, ShardTable.coins, UtxoRecord.coins, pk.record_ownTxid, pk.record_outputs, ih]
    rfl

structure Limited (set : UtxoSet) : Prop where
  records : set.recordCount ≤ maxSnapshotRecords
  outputs : ∀ s, ∀ record ∈ set.shards s, ∀ n, record.outputCount = .ok n → n ≤ maxSnapshotCoinsPerTxid

structure Written (set : UtxoSet) (items : List Item) : Prop where
  bytes : writeShards set.shards shardIndexes = .ok (items.flatMap putItem)
  coins : set.forEachCoin = .ok (items.flatMap Item.coins)
  length : items.length = set.recordCount
  valid : ∀ item ∈ items, item.Valid
  nonempty : ∀ item ∈ items, item.2 ≠ []
  distinct : Distinct Prod.fst items
  limit : (∀ item ∈ items, item.2.length ≤ maxSnapshotCoinsPerTxid) ↔
    ∀ s, ∀ record ∈ set.shards s, ∀ n, record.outputCount = .ok n → n ≤ maxSnapshotCoinsPerTxid

variable {set : UtxoSet}

lemma written_of_listing {pks : UInt8 → List Packing} (h : Listing set pks) :
    Written set (shardIndexes.flatMap fun s => (pks s).map Packing.item) := by
  have hmem {item : Item} (hitem : item ∈ shardIndexes.flatMap fun s => (pks s).map Packing.item) :
      ∃ s, ∃ pk ∈ pks s, pk.item = item := by
    obtain ⟨s, -, hs⟩ := mem_flatMap.mp hitem
    exact ⟨s, mem_map.mp hs⟩
  refine ⟨?_, ?_, ?_, ?_, ?_, ?_, ?_⟩
  · induction shardIndexes with
    | nil => rfl
    | cons s rest ih =>
      rw [writeShards, h.table, writeTable_packings (h.shard s), ok_bind, ih, ok_bind, pure_eq_ok, flatMap_cons,
        flatMap_append]
  · rw [forEachCoin]
    induction shardIndexes with
    | nil => rfl
    | cons s rest ih =>
      rw [coinsOfShards, h.table, tableCoins_packings, ok_bind, ih, ok_bind, pure_eq_ok, flatMap_cons, flatMap_append]
  · rw [length_flatMap]
    congr 1
    refine map_congr_left (fun s _ => ?_)
    rw [h.table, length_map, length_map]
  · intro item hitem
    obtain ⟨s, pk, hpk, rfl⟩ := hmem hitem
    exact ⟨h.distinct s pk hpk, pk.script_lt, pk.length_lt⟩
  · intro item hitem
    obtain ⟨s, pk, hpk, rfl⟩ := hmem hitem
    exact h.nonempty s pk hpk
  · refine distinct_shards (fun s item hitem => ?_) (fun s => ?_)
    · obtain ⟨pk, hpk, rfl⟩ := mem_map.mp hitem
      exact h.shard s pk hpk
    · have htxids := h.txids s
      rw [Distinct, map_map]
      exact htxids
  · constructor
    · intro hlimit s record hrecord n hn
      rw [h.table] at hrecord
      obtain ⟨pk, hpk, rfl⟩ := mem_map.mp hrecord
      rw [pk.record_outputCount] at hn
      cases hn
      exact hlimit pk.item (mem_flatMap.mpr ⟨s, mem_shardIndexes s, mem_map_of_mem hpk⟩)
    · intro hlimit item hitem
      obtain ⟨s, pk, hpk, rfl⟩ := hmem hitem
      refine hlimit s pk.record ?_ _ pk.record_outputCount
      rw [h.table]
      exact mem_map_of_mem hpk

lemma written {M : Outputs} (h : set.Represents M) : ∃ items, Written set items := by
  obtain ⟨pks, hpks⟩ := h.listing
  exact ⟨_, written_of_listing hpks⟩

lemma length_le_coins {items : List Item} (h : ∀ item ∈ items, item.2 ≠ []) :
    items.length ≤ (items.flatMap Item.coins).length ∧
      ∀ item ∈ items, item.2.length ≤ (items.flatMap Item.coins).length := by
  induction items with
  | nil => simp
  | cons item rest ih =>
    obtain ⟨hne, hrest⟩ := forall_mem_cons.mp h
    obtain ⟨hcount, hlen⟩ := ih hrest
    have hpos := length_pos_of_ne_nil hne
    have hcoins : (Item.coins item).length = item.2.length := length_map _
    rw [flatMap_cons, length_append, length_cons]
    refine ⟨by omega, forall_mem_cons.mpr ⟨by omega, fun other hother => ?_⟩⟩
    have hother := hlen other hother
    omega

lemma limited_of_len (h : set.WellFormed) {n : ℕ} (hlen : set.len = .ok n)
    (hn : n ≤ maxSnapshotCoinsPerTxid) : Limited set := by
  obtain ⟨M, hM⟩ := h
  obtain ⟨items, hw⟩ := written hM
  obtain ⟨listed, hlisted, hcount, -⟩ := hM.walk
  rw [hw.coins] at hlisted
  cases hlisted
  rw [hlen] at hcount
  cases hcount
  obtain ⟨hrecords, houtputs⟩ := length_le_coins hw.nonempty
  refine ⟨?_, hw.limit.mp (fun item hitem => (houtputs item hitem).trans hn)⟩
  rw [← hw.length]
  exact (hrecords.trans hn).trans (by decide)

lemma reads_readSnapshotMetadataV4 (tipHash : Hash256) (height : UInt32) {n : ℕ} (hn : n < 2 ^ 64) :
    Reads readSnapshotMetadataV4 (putHeader tipHash height n) ⟨tipHash, height, n⟩ := by
  have hlen : (putHeader tipHash height n).length = snapshotHeaderLen := by
    simp [putHeader, tipHash.length_bytes, snapshotHeaderLen]
  have hversion : (putHeader tipHash height n).drop 4 = encode 4 snapshotWriteVersion.toNat ++
      (tipHash.bytes ++ (encode 4 height.toNat ++ encode 8 n)) :=
    drop_field (length_encode 4 _) _ 0
  have htip : (putHeader tipHash height n).drop 8 = tipHash.bytes ++ (encode 4 height.toNat ++ encode 8 n) := by
    rw [show 8 = 4 + 4 from rfl, ← drop_drop]
    exact drop_field (length_encode 4 _) _ 0
  have hheight : (putHeader tipHash height n).drop 40 = encode 4 height.toNat ++ encode 8 n := by
    exact drop_field tipHash.length_bytes _ 0
  have hcount : (putHeader tipHash height n).drop 44 = encode 8 n ++ [] := by
    rw [show 44 = 40 + 4 from rfl, ← drop_drop, hheight]
    exact drop_field (length_encode 4 _) _ 0
  have hown : fromLeBytes tipHash.bytes = tipHash := by
    have hbytes := tipHash.fromLeBytes_bytes []
    rwa [append_nil] at hbytes
  have hmagic : readU32At (putHeader tipHash height n) 0 = snapshotMagic := by
    rw [readU32At, drop_zero, putHeader, readU32Le_encode]
  rw [← append_nil (putHeader tipHash height n)]
  refine (reads_takeBytes_of_length _ hlen).bind ?_
  rw [hmagic, readU32At, hversion, readU32Le_encode, readU32At,
    hheight, readU32Le_encode, htip, take_left' tipHash.length_bytes, hown, readU64At, hcount, readU64At_encode hn]
  exact Reads.pure _

section

variable {M : Outputs} {items : List Item} (tipHash : Hash256) (height : UInt32)
  (trailer : MuHashTrailer)

lemma writeSnapshot_ok (h : Written set items) (hcount : set.recordCount < 2 ^ 64) :
    writeSnapshot set tipHash height trailer =
      .ok (putHeader tipHash height items.length ++ (items.flatMap putItem ++ trailer.bytes)) := by
  rw [writeSnapshot, if_neg (not_le.mpr hcount), h.bytes, h.length]
  rfl

lemma readSnapshotStrictV4_written (h : set.Represents M) (hw : Written set items) (hlimit : Limited set) :
    ∃ load, readSnapshotStrictV4 (putHeader tipHash height items.length ++
        (items.flatMap putItem ++ trailer.bytes)) = .ok (load, []) ∧
      load.set.WellFormed ∧ load.set.coins = set.coins ∧ load.tipHash = tipHash ∧ load.height = height ∧
      load.muhashTrailer = trailer.bytes := by
  have hrecords : items.length ≤ maxSnapshotRecords := hw.length ▸ hlimit.records
  obtain ⟨loaded, hrun, hloaded, -, hall⟩ := insertItems_spec represents_new hw.valid
  have hfresh : ∀ item ∈ items, item.2 ≠ [] ∧ (fun (_ : UInt32) => (none : Option OutputParts)) = fun _ => none :=
    fun item hitem => ⟨hw.nonempty item hitem, rfl⟩
  have hcount : loaded.recordCount = items.length := by
    rw [hall.mpr ⟨hw.distinct, hfresh⟩, recordCount_new, zero_add]
  have hcoins : loaded.coins = set.coins := by
    obtain ⟨listed, hlisted, -, hold⟩ := h.walk
    rw [hw.coins] at hlisted
    cases hlisted
    have hnone : Enumerates UtxoCoin.outpoint 0 (coinsOf fun _ _ => none) := Enumerates.empty
    have hnew := enumerates_items hnone hw.valid hw.distinct hfresh
    rw [coins_eq h, coins_eq hloaded]
    exact hnew.eq_map hold
  refine ⟨⟨loaded, tipHash, height, trailer.bytes⟩, ?_, ⟨_, hloaded⟩, hcoins, rfl, rfl, rfl⟩
  have hmeta := reads_readSnapshotMetadataV4 tipHash height (lt_of_le_of_lt hrecords (by decide))
  have hbody := reads_insertRecords hw.valid (hw.limit.mpr hlimit.outputs) hrun
  have htrailer : Reads (readExact muhashTrailerLen) trailer.bytes trailer.bytes :=
    reads_takeBytes_of_length (SnapshotError.io .unexpectedEof) trailer.length_bytes
  have hchecked : checkedRecordCount items.length = pure items.length := if_neg (not_lt.mpr hrecords)
  rw [readSnapshotStrictV4, hmeta.bind_apply, hchecked, pure_bind, hbody.bind_apply]
  rw [hcount, if_neg (not_not.mpr rfl)]
  have hlast := htrailer.bind_apply (fun muhashTrailer => do
    readTrailing
    return ({ set := loaded, tipHash, height, muhashTrailer } : SnapshotLoad)) []
  rwa [append_nil] at hlast

lemma readSnapshotStrictV4_refused (hw : Written set items) (hcount : set.recordCount < 2 ^ 64)
    (hlimit : ¬ Limited set) :
    ∃ error, readSnapshotStrictV4 (putHeader tipHash height items.length ++
      (items.flatMap putItem ++ trailer.bytes)) = .error error := by
  have hmeta := reads_readSnapshotMetadataV4 tipHash height (hw.length ▸ hcount)
  rw [readSnapshotStrictV4, hmeta.bind_apply]
  by_cases hrecords : items.length ≤ maxSnapshotRecords
  · have hlarge : ∃ item ∈ items, maxSnapshotCoinsPerTxid < item.2.length := by
      by_contra hnone
      push Not at hnone
      exact hlimit ⟨hw.length ▸ hrecords, hw.limit.mp hnone⟩
    obtain ⟨item, -, -, hfails⟩ := fails_insertRecords hw.valid hlarge represents_new
    have hchecked : checkedRecordCount items.length = pure items.length := if_neg (not_lt.mpr hrecords)
    rw [hchecked, pure_bind]
    exact ⟨_, hfails.bind _ trailer.bytes⟩
  · have hchecked : checkedRecordCount items.length = fail (.recordCountTooLarge items.length) :=
      if_pos (not_le.mp hrecords)
    rw [hchecked]
    exact ⟨_, rfl⟩

lemma readSnapshotStrictV4_writeSnapshot (h : set.WellFormed) :
    (∃ bytes load, writeSnapshot set tipHash height trailer = .ok bytes ∧
      readSnapshotStrictV4 bytes = .ok (load, []) ∧ load.set.WellFormed ∧ load.set.coins = set.coins ∧
      load.tipHash = tipHash ∧ load.height = height ∧ load.muhashTrailer = trailer.bytes) ↔ Limited set := by
  obtain ⟨M, hM⟩ := h
  obtain ⟨items, hw⟩ := written hM
  constructor
  · rintro ⟨bytes, load, hbytes, hread, -⟩
    have hcount : set.recordCount < 2 ^ 64 := by
      by_contra hlarge
      rw [writeSnapshot, if_pos (not_lt.mp hlarge)] at hbytes
      cases hbytes
    rw [writeSnapshot_ok tipHash height trailer hw hcount] at hbytes
    cases hbytes
    by_contra hlimit
    obtain ⟨error, herror⟩ := readSnapshotStrictV4_refused tipHash height trailer hw hcount hlimit
    rw [herror] at hread
    cases hread
  · intro hlimit
    obtain ⟨load, hload⟩ := readSnapshotStrictV4_written tipHash height trailer hM hw hlimit
    have hcount : set.recordCount < 2 ^ 64 := lt_of_le_of_lt hlimit.records (by decide)
    exact ⟨_, load, writeSnapshot_ok tipHash height trailer hw hcount, hload⟩

end

end Snapshot

namespace Snapshot

variable {items : List Item} {item : Item}

section

variable {input rest : Bytes} {n : ℕ}

lemma readMany_of_insertRecords {set set' : UtxoSet} (h : readFold insertRecordStep n set input = .ok (set', rest)) :
    ∃ items, readMany readSnapshotRecordV4 n input = .ok (items, rest) ∧
      items.foldlM UtxoSet.insertItem set = .ok set' := by
  induction n generalizing set input with
  | zero =>
    cases h
    exact ⟨[], rfl, rfl⟩
  | succ n ih =>
    obtain ⟨next, mid, hstep, hloop⟩ := ByteReader.bind_eq_ok h
    rw [insertRecordStep_eq] at hstep
    obtain ⟨item, tail, hitem, hinsert⟩ := ByteReader.bind_eq_ok hstep
    obtain ⟨items, hitems, hrun⟩ := ih hloop
    cases hset : set.insertItem item with
    | error fault =>
      rw [hset] at hinsert
      cases hinsert
    | ok inserted =>
      rw [hset] at hinsert
      cases hinsert
      refine ⟨item :: items, ?_, by rw [foldlM_cons, hset, ok_bind, hrun]⟩
      rw [readMany, bind_of_ok hitem, bind_of_ok hitems]
      rfl

lemma length_of_readMany {α : Type} {p : SnapshotReader α} {items : List α}
    (h : readMany p n input = .ok (items, rest)) : items.length = n := by
  induction n generalizing items input with
  | zero =>
    cases h
    rfl
  | succ n ih =>
    obtain ⟨item, mid, -, htail⟩ := ByteReader.bind_eq_ok h
    obtain ⟨others, tail, hothers, hpair⟩ := ByteReader.bind_eq_ok htail
    cases hpair
    rw [length_cons, ih hothers]

lemma script_lt_of_readSnapshotOutput {output : OutputParts}
    (h : readSnapshotOutput input = .ok (output, rest)) : output.script.length < 2 ^ 16 := by
  obtain ⟨header, mid, -, htail⟩ := ByteReader.bind_eq_ok h
  obtain ⟨script, tail, hscript, hpair⟩ := ByteReader.bind_eq_ok htail
  cases hpair
  obtain ⟨-, -, -, hlen⟩ := accepts_takeBytes _ _ _ _ _ hscript
  rw [hlen]
  refine Nat.lt_of_lt_of_le (decode_lt _) ?_
  refine (Nat.pow_le_pow_right (by decide) (length_take_le 2 _)).trans (by decide)

lemma valid_of_readOutputsLoop {seen : List UInt32} {outputs : List OutputParts}
    (h : readOutputsLoop n seen input = .ok (outputs, rest)) :
    outputs.length = n ∧ (∀ output ∈ outputs, output.script.length < 2 ^ 16) ∧
      Distinct OutputParts.vout outputs ∧ ∀ output ∈ outputs, output.vout ∉ seen := by
  induction n generalizing seen input outputs with
  | zero =>
    cases h
    exact ⟨rfl, by simp, nodup_nil, by simp⟩
  | succ n ih =>
    obtain ⟨output, mid, houtput, hrest⟩ := ByteReader.bind_eq_ok h
    obtain ⟨seen', mid', hvout, hrest⟩ := ByteReader.bind_eq_ok hrest
    obtain ⟨others, tail, hothers, hpair⟩ := ByteReader.bind_eq_ok hrest
    cases hpair
    rw [checkedRecordVout] at hvout
    split_ifs at hvout with hseen
    · cases hvout
    · cases hvout
      obtain ⟨hlen, hscripts, hdistinct, hnew⟩ := ih hothers
      refine ⟨by rw [length_cons, hlen], ?_, ?_, ?_⟩
      · exact forall_mem_cons.mpr ⟨script_lt_of_readSnapshotOutput houtput, hscripts⟩
      · exact hdistinct.cons (lookup_eq_none.mpr (fun other hother he => hnew other hother (he ▸ mem_cons_self)))
      · exact forall_mem_cons.mpr ⟨hseen, fun other hother => not_mem_of_not_mem_cons (hnew other hother)⟩

section

variable (h : readSnapshotRecordV4 input = .ok (item, rest))

include h

lemma readSnapshotRecordV4_eq_ok :
    ∃ count mid, readSnapshotRecordHead input = .ok ((item.1, count), mid) ∧
      checkedOutputCount count = pure count.toNat ∧ readOutputsLoop count.toNat [] mid = .ok (item.2, rest) ∧
      count.toNat ≤ maxSnapshotCoinsPerTxid := by
  obtain ⟨⟨txid, count⟩, mid, hhead, htail⟩ := ByteReader.bind_eq_ok h
  obtain ⟨outputs, tail, houtputs, hpair⟩ := ByteReader.bind_eq_ok htail
  cases hpair
  rw [readSnapshotOutputs, checkedOutputCount] at houtputs
  split_ifs at houtputs with hlarge
  · cases houtputs
  · exact ⟨count, mid, hhead, if_neg hlarge, houtputs, not_lt.mp hlarge⟩

lemma valid_of_readSnapshotRecordV4 : item.Valid ∧ item.2.length ≤ maxSnapshotCoinsPerTxid := by
  obtain ⟨count, mid, -, -, hloop, hlimit⟩ := readSnapshotRecordV4_eq_ok h
  obtain ⟨hlen, hscripts, hdistinct, -⟩ := valid_of_readOutputsLoop hloop
  exact ⟨⟨hdistinct, hscripts, hlen ▸ count.toNat_lt⟩, hlen ▸ hlimit⟩

end

lemma valid_of_readMany (h : readMany readSnapshotRecordV4 n input = .ok (items, rest)) :
    ∀ item ∈ items, item.Valid ∧ item.2.length ≤ maxSnapshotCoinsPerTxid := by
  induction n generalizing items input with
  | zero =>
    cases h
    simp
  | succ n ih =>
    obtain ⟨item, mid, hitem, htail⟩ := ByteReader.bind_eq_ok h
    obtain ⟨others, tail, hothers, hpair⟩ := ByteReader.bind_eq_ok htail
    cases hpair
    exact forall_mem_cons.mpr ⟨valid_of_readSnapshotRecordV4 hitem, ih hothers⟩

end

section

def seedOf (coin : UtxoCoin) : OutPoint × Script := (coin.outpoint, coin.txout.scriptPubkey)

variable {ε σ : Type} (emit : σ → OutPoint → Script → Except ε σ) {cancelled : ℕ → Bool}

def emitAll (sink : σ) (coins : List UtxoCoin) : Except ε σ :=
  (coins.map seedOf).foldlM (fun sink seed => emit sink seed.1 seed.2) sink

lemma emitAll_append {sink sink' : σ} {coins more : List UtxoCoin} (h : emitAll emit sink (coins ++ more) = .ok sink') :
    ∃ mid, emitAll emit sink coins = .ok mid ∧ emitAll emit mid more = .ok sink' := by
  rw [emitAll, map_append, foldlM_append] at h
  exact bind_eq_ok h

variable (hcancelled : ∀ i, cancelled i = false) {input rest : Bytes} {state : RawState σ} {sink : σ}

include hcancelled

lemma poll_ok (state : RawState σ) :
    poll cancelled state = (pure { state with polls := state.polls + 1 } : RawReader ε (RawState σ)) := by
  rw [poll, hcancelled, if_neg Bool.false_ne_true]

variable {txid : Hash256}

lemma emitOutput_ok {output : OutputParts}
    (hemit : emit state.sink ⟨txid, output.vout⟩ output.script = .ok sink) (hroom : state.outputs + 1 < 2 ^ 64) :
    ∃ polls, emitOutput emit cancelled txid output state = pure ⟨sink, state.outputs + 1, polls⟩ := by
  rw [emitOutput, hemit]
  dsimp only
  rw [if_neg (not_le.mpr hroom)]
  split_ifs
  · exact ⟨_, poll_ok hcancelled _⟩
  · exact ⟨_, rfl⟩

lemma emitOutputsLoop_ok {n : ℕ} {seen : List UInt32} {outputs : List OutputParts}
    (h : readOutputsLoop n seen input = .ok (outputs, rest))
    (hemit : emitAll emit state.sink (outputs.map (coinOf txid)) = .ok sink) (hroom : state.outputs + n < 2 ^ 64) :
    ∃ polls, emitOutputsLoop emit cancelled txid n seen state input =
      .ok (⟨sink, state.outputs + outputs.length, polls⟩, rest) := by
  induction n generalizing seen input outputs state with
  | zero =>
    cases h
    cases hemit
    exact ⟨_, rfl⟩
  | succ n ih =>
    obtain ⟨output, mid, houtput, hrest⟩ := ByteReader.bind_eq_ok h
    obtain ⟨seen', mid', hvout, hrest⟩ := ByteReader.bind_eq_ok hrest
    obtain ⟨others, tail, hothers, hpair⟩ := ByteReader.bind_eq_ok hrest
    cases hpair
    have hcons : emitAll emit state.sink ([coinOf txid output] ++ others.map (coinOf txid)) = .ok sink := hemit
    obtain ⟨next, hnext, hlater⟩ := emitAll_append emit hcons
    obtain ⟨first, hfirst, hdone⟩ := Fallible.bind_eq_ok hnext
    cases hdone
    obtain ⟨polls, hstep⟩ := emitOutput_ok emit hcancelled hfirst (by omega)
    obtain ⟨last, hloop⟩ := ih hothers
      (show emitAll emit (RawState.mk next (state.outputs + 1) polls).sink _ = _ from hlater) (by simp only; omega)
    refine ⟨last, ?_⟩
    have hread : RawReader.ofSnapshot (ε := ε) readSnapshotOutput input = .ok (output, mid) := by
      rw [RawReader.ofSnapshot, houtput]
    have hcheck : RawReader.ofSnapshot (ε := ε) (checkedRecordVout output seen) mid = .ok (seen', mid') := by
      rw [RawReader.ofSnapshot, hvout]
    rw [emitOutputsLoop, bind_of_ok hread, bind_of_ok hcheck, hstep, pure_bind, hloop, length_cons]
    simp only [add_assoc, add_comm 1]

lemma emitRecordStep_ok (h : readSnapshotRecordV4 input = .ok (item, rest)) (hne : item.2 ≠ [])
    (hemit : emitAll emit state.sink item.coins = .ok sink) (hroom : state.outputs + item.2.length < 2 ^ 64) :
    ∃ polls, emitRecordStep emit cancelled state input =
      .ok (⟨sink, state.outputs + item.2.length, polls⟩, rest) := by
  obtain ⟨count, mid, hhead, hchecked, hloop, -⟩ := readSnapshotRecordV4_eq_ok h
  have hlen := (valid_of_readOutputsLoop hloop).1
  obtain ⟨polls, hrun⟩ := emitOutputsLoop_ok emit hcancelled hloop hemit (hlen ▸ hroom)
  refine ⟨polls, ?_⟩
  have hread : RawReader.ofSnapshot (ε := ε) readSnapshotRecordHead input = .ok ((item.1, count), mid) := by
    rw [RawReader.ofSnapshot, hhead]
  have hcount : count ≠ 0 := by
    rintro rfl
    exact hne (length_eq_zero_iff.mp hlen)
  have hcheck : RawReader.ofSnapshot (ε := ε) (checkedOutputCount count) mid = .ok (count.toNat, mid) := by
    rw [hchecked]
    rfl
  rw [emitRecordStep, bind_of_ok hread]
  dsimp only
  rw [if_neg hcount, bind_of_ok hcheck, hrun]

lemma emitRecords_ok {n : ℕ} (h : readMany readSnapshotRecordV4 n input = .ok (items, rest))
    (hne : ∀ item ∈ items, item.2 ≠ []) (hemit : emitAll emit state.sink (items.flatMap Item.coins) = .ok sink)
    (hroom : state.outputs + (items.flatMap Item.coins).length < 2 ^ 64) :
    ∃ polls, readFold (emitRecordStep emit cancelled) n state input =
      .ok (⟨sink, state.outputs + (items.flatMap Item.coins).length, polls⟩, rest) := by
  induction n generalizing items input state with
  | zero =>
    cases h
    cases hemit
    exact ⟨_, rfl⟩
  | succ n ih =>
    obtain ⟨item, mid, hitem, htail⟩ := ByteReader.bind_eq_ok h
    obtain ⟨others, tail, hothers, hpair⟩ := ByteReader.bind_eq_ok htail
    cases hpair
    rw [flatMap_cons] at hemit hroom ⊢
    have hlen : (Item.coins item).length = item.2.length := length_map _
    rw [length_append, hlen] at hroom ⊢
    obtain ⟨next, hnext, hlater⟩ := emitAll_append emit hemit
    obtain ⟨hitemNe, hothersNe⟩ := forall_mem_cons.mp hne
    obtain ⟨polls, hstep⟩ := emitRecordStep_ok emit hcancelled hitem hitemNe hnext (by omega)
    obtain ⟨last, hloop⟩ := ih hothers hothersNe
      (show emitAll emit (RawState.mk next (state.outputs + item.2.length) polls).sink _ = _ from hlater)
      (by simp only; omega)
    refine ⟨last, ?_⟩
    rw [readFold, bind_of_ok hstep, hloop, add_assoc]

end

lemma stream_of_strict {input rest : Bytes} {load : SnapshotLoad} (h : readSnapshotStrictV4 input = .ok (load, rest)) :
    load.set.WellFormed ∧ ∃ coins : List UtxoCoin,
      Enumerates UtxoCoin.outpoint (coins : Multiset UtxoCoin) load.set.coins ∧ load.set.len = .ok coins.length ∧
      ∀ (ε σ : Type) (emit : σ → OutPoint → Script → Except ε σ) (cancelled : ℕ → Bool) (sink sink' : σ),
        (∀ i, cancelled i = false) → emitAll emit sink coins = .ok sink' →
        readRawSnapshotStream emit cancelled sink input =
          .ok ((⟨load.tipHash, load.height, load.set.recordCount, coins.length⟩, sink'), []) := by
  obtain ⟨metadata, body, hmeta, h⟩ := ByteReader.bind_eq_ok h
  rw [checkedRecordCount] at h
  split_ifs at h with hlarge
  · cases h
  rw [pure_bind] at h
  obtain ⟨loaded, tail, hfold, h⟩ := ByteReader.bind_eq_ok h
  dsimp only at h
  split_ifs at h with hmismatch
  · cases h
  obtain ⟨trailer, last, htrailer, h⟩ := ByteReader.bind_eq_ok h
  obtain ⟨_, last', htrailing, h⟩ := ByteReader.bind_eq_ok h
  cases h
  obtain ⟨items, hitems, hrun⟩ := readMany_of_insertRecords hfold
  have hlen := length_of_readMany hitems
  have hvalid := valid_of_readMany hitems
  obtain ⟨inserted, hinserted, hM, -, hall⟩ := insertItems_spec represents_new (fun item hitem => (hvalid item hitem).1)
  rw [hrun] at hinserted
  cases hinserted
  -- the count declared in the header leaves no room for an empty or repeated record
  have hcount : loaded.recordCount = metadata.recordCount := not_not.mp hmismatch
  obtain ⟨hdistinct, hfresh⟩ := hall.mp (by rw [hcount, hlen, recordCount_new, zero_add])
  have hnone : Enumerates UtxoCoin.outpoint 0 (coinsOf fun _ _ => none) := Enumerates.empty
  have henum := enumerates_items hnone (fun item hitem => (hvalid item hitem).1) hdistinct hfresh
  rw [zero_add] at henum
  obtain ⟨listed, -, hlisted, hwalk⟩ := hM.walk
  refine ⟨⟨_, hM⟩, items.flatMap Item.coins, ?_, ?_, ?_⟩
  · rw [coins_eq hM]
    exact henum
  · rw [hlisted, (Multiset.coe_eq_coe.mp (hwalk.unique henum)).length_eq]
  · intro ε σ emit cancelled sink sink' hcancelled hemit
    have htotal : (items.flatMap Item.coins).length ≤ items.length * maxSnapshotCoinsPerTxid := by
      refine ByteTable.length_flatMap_le Item.coins maxSnapshotCoinsPerTxid items (fun item hitem => ?_)
      rw [Item.coins, length_map]
      exact (hvalid item hitem).2
    have hroom : (items.flatMap Item.coins).length < 2 ^ 64 := by
      have hbound := mul_le_mul_right maxSnapshotCoinsPerTxid (not_lt.mp hlarge)
      rw [hlen] at htotal
      exact lt_of_le_of_lt (htotal.trans hbound) (by decide)
    obtain ⟨polls, hloop⟩ := emitRecords_ok emit hcancelled hitems (fun item hitem => (hfresh item hitem).1)
      (show emitAll emit (RawState.mk sink 0 1).sink _ = _ from hemit) (by rwa [zero_add])
    have hhead : RawReader.ofSnapshot (ε := ε) readSnapshotMetadataV4 input = .ok (metadata, body) := by
      rw [RawReader.ofSnapshot, hmeta]
    have hchecked : RawReader.ofSnapshot (ε := ε) (checkedRecordCount metadata.recordCount) body =
        .ok (metadata.recordCount, body) := by
      rw [checkedRecordCount, if_neg hlarge]
      rfl
    have htail : RawReader.ofSnapshot (ε := ε) (readExact muhashTrailerLen) tail = .ok (trailer, last) := by
      rw [RawReader.ofSnapshot, htrailer]
    rw [readTrailing] at htrailing
    split_ifs at htrailing with hempty
    cases isEmpty_iff.mp hempty
    rw [readRawSnapshotStream, poll_ok hcancelled, pure_bind, bind_of_ok hhead, bind_of_ok hchecked, bind_of_ok hloop,
      poll_ok hcancelled, pure_bind, bind_of_ok htail, zero_add, hcount]
    rfl

/-- A set within the limits of the strict reader comes back from its snapshot, and what the strict reader accepts the
stream hands on coin by coin. -/
theorem native_snapshot_faithful :
    (∀ (set : UtxoSet) (tipHash : Hash256) (height : UInt32) (trailer : MuHashTrailer), set.WellFormed →
      ((∃ bytes load, writeSnapshot set tipHash height trailer = .ok bytes ∧
        readSnapshotStrictV4 bytes = .ok (load, []) ∧ load.set.WellFormed ∧ load.set.coins = set.coins ∧
        load.tipHash = tipHash ∧ load.height = height ∧ load.muhashTrailer = trailer.bytes) ↔ Limited set)) ∧
      ∀ (input rest : Bytes) (load : SnapshotLoad), readSnapshotStrictV4 input = .ok (load, rest) →
        load.set.WellFormed ∧ ∃ emitted : List (OutPoint × Script), (emitted.map Prod.fst).Nodup ∧
          (∀ op script, (op, script) ∈ emitted ↔
            (load.set.coins op).map (fun coin => coin.txout.scriptPubkey) = some script) ∧
          load.set.len = .ok emitted.length ∧
          ∀ (ε σ : Type) (emit : σ → OutPoint → Script → Except ε σ) (cancelled : ℕ → Bool) (sink sink' : σ),
            (∀ i, cancelled i = false) → emitted.foldlM (fun sink seed => emit sink seed.1 seed.2) sink = .ok sink' →
            readRawSnapshotStream emit cancelled sink input =
              .ok ((⟨load.tipHash, load.height, load.set.recordCount, emitted.length⟩, sink'), []) := by
  refine ⟨fun set tipHash height trailer h => readSnapshotStrictV4_writeSnapshot tipHash height trailer h, ?_⟩
  intro input rest load h
  obtain ⟨hset, coins, henum, hlen, hstream⟩ := stream_of_strict h
  have hlength : (coins.map seedOf).length = coins.length := length_map _
  refine ⟨hset, coins.map seedOf, ?_, fun op script => ?_, by rw [hlength, hlen], ?_⟩
  · have hkeys := henum.nodup_keys
    rw [map_map]
    exact hkeys
  · rw [mem_map, Option.map_eq_some_iff]
    constructor
    · rintro ⟨coin, hcoin, hseed⟩
      obtain ⟨rfl, rfl⟩ := Prod.mk.inj hseed
      exact ⟨coin, henum.mem.mp hcoin, rfl⟩
    · rintro ⟨coin, hcoin, rfl⟩
      obtain ⟨hmem, rfl⟩ := (henum.mem_iff op coin).mp hcoin
      exact ⟨coin, hmem, rfl⟩
  · intro ε σ emit cancelled sink sink' hcancelled hemit
    rw [hlength]
    exact hstream ε σ emit cancelled sink sink' hcancelled hemit

def blankTrailer : MuHashTrailer := ⟨replicate 384 0, length_replicate⟩

theorem native_snapshot_faithful_sample :
    ∃ bytes load, writeSnapshot Sample.utxo zero 7 blankTrailer = .ok bytes ∧
      readSnapshotStrictV4 bytes = .ok (load, []) ∧ load.set.coins = Sample.utxo.coins ∧
      ∃ emitted, (∀ op script, (op, script) ∈ emitted ↔
          (Sample.utxo.coins op).map (fun coin => coin.txout.scriptPubkey) = some script) ∧
        readRawSnapshotStream (ε := Unit) (fun sink op script => .ok (sink ++ [(op, script)])) (fun _ =>
          false) [] bytes =
          .ok ((⟨zero, 7, load.set.recordCount, emitted.length⟩, emitted), []) := by
  have hlen : Sample.utxo.len = .ok 3 := by decide +kernel
  obtain ⟨bytes, load, hwrite, hread, -, hcoins, htip, hheight, -⟩ :=
    (native_snapshot_faithful.1 Sample.utxo zero 7 blankTrailer Sample.utxo_wellFormed).mpr
      (limited_of_len Sample.utxo_wellFormed hlen (by decide))
  obtain ⟨-, emitted, -, hemitted, -, hstream⟩ := native_snapshot_faithful.2 bytes [] load hread
  have hcollect (sink : List (OutPoint × Script)) : emitted.foldlM (fun sink seed =>
      (.ok (sink ++ [(seed.1, seed.2)]) : Except Unit (List (OutPoint × Script)))) sink = .ok (sink ++ emitted) := by
    clear hemitted hstream
    induction emitted generalizing sink with
    | nil => rw [append_nil]; rfl
    | cons seed rest ih => rw [foldlM_cons, ok_bind, ih, append_assoc]; rfl
  refine ⟨bytes, load, hwrite, hread, hcoins, emitted, fun op script => by rw [hemitted, hcoins], ?_⟩
  have hraw := hstream Unit _ (fun sink op script => .ok (sink ++ [(op, script)])) (fun _ => false) [] emitted
    (fun _ => rfl) (hcollect [])
  rwa [htip, hheight] at hraw

def addRange (n : ℕ) : List UtxoAdd := (range n).map fun vout =>
  { outpoint := ⟨zero, ofNat vout⟩, txout := { value := 0, scriptPubkey := [] }, coinbase := false,
    height := 0 }

def crowdedSet (n : ℕ) : UtxoSet := ofAdds (addRange n)

section

variable {n : ℕ} (hn : n < 2 ^ 32)

lemma batchSpec_addRange (op : OutPoint) :
    UtxoSet.new.batchSpec (addRange n) [] op ≠ none ↔ ∃ v < n, op = ⟨zero, ofNat v⟩ := by
  have hnew : new.coins op = none := by
    rfl
  rw [batchSpec, Batch.apply_eq, if_neg not_mem_nil, hnew, Option.or_none, ne_eq,
    Batch.lastValue_eq_none, not_not, addRange]
  simp only [map_map, mem_map, mem_range, Function.comp_apply, UtxoAdd.binding]
  constructor
  · rintro ⟨v, hv, he⟩
    exact ⟨v, hv, he.symm⟩
  · rintro ⟨v, hv, he⟩
    exact ⟨v, hv, he.symm⟩

include hn

lemma commit_addRange : (UtxoSet.new.commitAddsAndRemoves .sequential (addRange n) []).2 = .ok () := by
  refine commit_succeeds .sequential ⟨_, represents_new⟩ (fun add hadd => ?_) (fun txid => ?_)
  · obtain ⟨v, -, rfl⟩ := mem_map.mp hadd
    exact Nat.two_pow_pos 16
  · refine ⟨ofNat n, not_not.mp (fun hlive => ?_)⟩
    obtain ⟨v, hv, he⟩ := (batchSpec_addRange _).mp hlive
    have hvout := congrArg UInt32.toNat (congrArg OutPoint.vout he)
    rw [UInt32.toNat_ofNat_of_lt' hn, UInt32.toNat_ofNat_of_lt' (hv.trans hn)] at hvout
    exact absurd hvout (ne_of_gt hv)

lemma coins_crowdedSet : (crowdedSet n).coins = UtxoSet.new.batchSpec (addRange n) [] :=
  coins_of_disjoint ⟨_, represents_new⟩ (commit_addRange hn) (by simp)

lemma crowdedSet_wellFormed : (crowdedSet n).WellFormed := ofAdds_wellFormed (commit_addRange hn)

lemma crowdedSet_not_limited (hlarge : maxSnapshotCoinsPerTxid < n) : ¬ Limited (crowdedSet n) := by
  intro hlimit
  obtain ⟨M, hM⟩ := crowdedSet_wellFormed hn
  have hlive (v : ℕ) (hv : v < n) : M zero (ofNat v) ≠ none := by
    have hcoin := (batchSpec_addRange ⟨zero, ofNat v⟩).mpr ⟨v, hv, rfl⟩
    rw [← coins_crowdedSet hn, coins_eq hM] at hcoin
    exact fun hnone => hcoin (coinsOf_eq_none.mpr hnone)
  obtain ⟨record, hrecord, hs⟩ : ∃ record ∈ (crowdedSet n).shards (shardOfTxid zero),
      Stores record zero (M zero) := by
    have hcases := (hM (shardOfTxid zero)).find_cases zero
    rcases hcases with ⟨-, -, -, hdead⟩ | ⟨i, hi, -, -, hs⟩
    · exact absurd (congrFun hdead _) (hlive 0 (zero_lt_of_lt hlarge))
    · exact ⟨_, getElem_mem hi, hs⟩
  obtain ⟨count, hcount, hle, -⟩ := hs.le_outputCount hn.le hlive
  exact absurd (hlimit.outputs _ record hrecord count hcount) (not_le.mpr (lt_of_lt_of_le hlarge hle))

lemma recordCount_crowdedSet (hw : Written (crowdedSet n) items) : (crowdedSet n).recordCount ≤ 1 := by
  obtain ⟨M, hM⟩ := crowdedSet_wellFormed hn
  obtain ⟨listed, hlisted, -, henum⟩ := hM.walk
  rw [hw.coins] at hlisted
  cases hlisted
  rw [← coins_eq hM, coins_crowdedSet hn] at henum
  have hone : items.map Prod.fst ⊆ [zero] := by
    intro txid htxid
    obtain ⟨item, hitem, rfl⟩ := mem_map.mp htxid
    obtain ⟨output, rest, houtputs⟩ := exists_cons_of_ne_nil (hw.nonempty item hitem)
    have hcoin : coinOf item.1 output ∈ items.flatMap Item.coins := by
      refine mem_flatMap.mpr ⟨item, hitem, mem_map_of_mem ?_⟩
      rw [houtputs]
      exact mem_cons_self
    have hsome := henum.mem.mp (Multiset.mem_coe.mpr hcoin)
    obtain ⟨v, -, he⟩ := (batchSpec_addRange _).mp (by rw [hsome]; exact Option.some_ne_none _)
    exact mem_singleton.mpr (congrArg OutPoint.txid he)
  have hlen := (subperm_of_subset hw.distinct hone).length_le
  rwa [length_map, hw.length] at hlen

end

/-- A transaction with one output more than the reader takes. -/
theorem crowded_snapshot_refused :
    (UtxoSet.new.commitAddsAndRemoves .sequential (addRange 1000001) []).2 = .ok () ∧
      (crowdedSet 1000001).WellFormed ∧
      ∃ bytes error, writeSnapshot (crowdedSet 1000001) zero 0 blankTrailer = .ok bytes ∧
        readSnapshotStrictV4 bytes = .error error := by
  have hn : 1000001 < 2 ^ 32 := by decide
  obtain ⟨M, hM⟩ := crowdedSet_wellFormed hn
  obtain ⟨items, hw⟩ := written hM
  have hcount : (crowdedSet 1000001).recordCount < 2 ^ 64 := lt_of_le_of_lt (recordCount_crowdedSet hn hw) (by decide)
  obtain ⟨error, herror⟩ := readSnapshotStrictV4_refused zero 0 blankTrailer hw hcount
    (crowdedSet_not_limited hn (by decide))
  exact ⟨commit_addRange hn, ⟨M, hM⟩, _, error, writeSnapshot_ok zero 0 blankTrailer hw hcount, herror⟩

end Snapshot

end BitcoinRs.Utxo
