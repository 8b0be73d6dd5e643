import BitcoinRs.Utxo.CoreRoundTrip

namespace BitcoinRs.Utxo.CoreSnapshot

open KeyedList Tally Fallible List UtxoSet LittleEndian
open Hash256 (zero)

structure CoinFits (baseHeight : UInt32) (coin : UtxoCoin) : Prop where
  value_le : coin.txout.value.toNat ≤ maxCompressibleAmount
  script_le : coin.txout.scriptPubkey.length ≤ maxScriptBytes
  height_le : coin.height ≤ baseHeight
  height_lt : coin.height.toNat < 2 ^ 31
  vout_le : coin.outpoint.vout.toNat ≤ maxCompactSize

structure Admits (limits : SnapshotLimits) (set : UtxoSet) (bytes : Bytes) : Prop where
  file : bytes.length ≤ limits.maxFileBytes.toNat
  coins : ∀ n, set.len = .ok n → n ≤ limits.maxCoins.toNat
  scripts : ∀ coins, set.forEachCoin = .ok coins →
    (coins.map fun coin => coin.txout.scriptPubkey.length).sum ≤ limits.maxScriptBytes.toNat
  groups : ∀ s, ∀ record ∈ set.shards s, ∀ n, record.outputCount = .ok n → n ≤ limits.maxCoinsPerTxid.toNat

section

variable {set : UtxoSet} {M : Outputs} {pks : UInt8 → List Packing}

lemma coin_of_mem (h : set.Represents M) (hpks : Listing set pks) {s : UInt8} {pk : Packing} (hpk : pk ∈ pks s)
    {output : OutputParts} (houtput : output ∈ pk.parts) :
    set.coins ⟨pk.txid, output.vout⟩ = some (coinOf pk.txid output) := by
  obtain ⟨listed, hlisted, -, henum⟩ := h.walk
  rw [(Snapshot.written_of_listing hpks).coins] at hlisted
  cases hlisted
  rw [coins_eq h]
  refine henum.mem.mp (Multiset.mem_coe.mpr (mem_flatMap.mpr ⟨pk.item, ?_, mem_map_of_mem houtput⟩))
  exact mem_flatMap.mpr ⟨s, mem_shardIndexes s, mem_map_of_mem hpk⟩

lemma Fits.of_coin {baseHeight : UInt32} {txid : Hash256} {output : OutputParts}
    (h : CoinFits baseHeight (coinOf txid output)) : Fits baseHeight output :=
  ⟨h.value_le, h.script_le, h.height_le, h.height_lt, h.vout_le⟩

lemma perm_canonical (pks : UInt8 → List Packing) : (canonical pks).Perm (shardIndexes.flatMap pks) :=
  (Perm.refl _).flatMap (fun s _ => perm_sortTxid (pks s))

lemma walk_canonical (h : set.Represents M) (hpks : Listing set pks) :
    ∃ coins, set.forEachCoin = .ok coins ∧ set.len = .ok coins.length ∧
      Enumerates UtxoCoin.outpoint (coins : Multiset UtxoCoin) set.coins ∧
      ((canonical pks).flatMap fun pk => pk.parts.map (coinOf pk.txid)).Perm coins := by
  obtain ⟨listed, hlisted, hlen, henum⟩ := h.walk
  have hcoins := (Snapshot.written_of_listing hpks).coins
  rw [hlisted] at hcoins
  cases hcoins
  refine ⟨_, hlisted, hlen, by rwa [coins_eq h], ?_⟩
  have hflat : ((shardIndexes.flatMap fun s => (pks s).map Packing.item).flatMap Item.coins) =
      (shardIndexes.flatMap pks).flatMap fun pk => pk.parts.map (coinOf pk.txid) := by
    rw [flatMap_assoc, flatMap_assoc]
    congr 1
    funext s
    rw [flatMap_map]
    rfl
  rw [hflat]
  exact (perm_canonical pks).flatMap (fun _ _ => Perm.refl _)

def sortedItem (pk : Packing) : Item := (pk.txid, sortVout pk.parts)

variable {records : List UtxoRecord}

lemma insertRecords_eq {pks : List Packing} (h : Forall₂ Decoded pks records) (set : UtxoSet) :
    insertRecords set records =
      (pks.map sortedItem).foldlM UtxoSet.insertItem set := by
  induction h generalizing set with
  | nil => rfl
  | @cons pk record pks records hfirst hrest ih =>
    have hrecord : UtxoRecord.fromOwnedOutputs (sortedItem pk).1 (sortedItem pk).2 = .ok record := hfirst
    rw [insertRecords, map_cons, foldlM_cons, insertItem, hrecord]
    congr 1
    funext next
    exact ih next

lemma loaded_coins (h : set.Represents M) (hpks : Listing set pks)
    (hrecords : Forall₂ Decoded (canonical pks) records) :
    ∃ loaded, insertRecords .new records = .ok loaded ∧ loaded.WellFormed ∧ loaded.coins = set.coins := by
  have hmem {item : Item} (hitem : item ∈ (canonical pks).map sortedItem) :
      ∃ s, ∃ pk ∈ pks s, sortedItem pk = item := by
    obtain ⟨pk, hpk, rfl⟩ := mem_map.mp hitem
    obtain ⟨s, hs⟩ := mem_canonical.mp hpk
    exact ⟨s, pk, hs, rfl⟩
  have hvalid : ∀ item ∈ (canonical pks).map sortedItem, item.Valid := by
    intro item hitem
    obtain ⟨s, pk, hpk, rfl⟩ := hmem hitem
    have hperm := perm_sortVout pk.parts
    exact ⟨(hpks.distinct s pk hpk).perm hperm.symm, fun output houtput =>
      pk.script_lt output (hperm.mem_iff.mp houtput),
      hperm.length_eq.trans_lt pk.length_lt⟩
  have hdistinct : Distinct Prod.fst ((canonical pks).map sortedItem) := by
    rw [Distinct, map_map]
    refine pairwise_map.mpr ((pairwise_canonical hpks).imp (fun {left right} hbefore hsame => ?_))
    have hsame : left.txid = right.txid := hsame
    have hrefl : compare right.txid.bytes right.txid.bytes = .eq := Std.ReflCmp.compare_self
    rw [Before, hsame, hrefl] at hbefore
    cases hbefore
  have hfresh : ∀ item ∈ (canonical pks).map sortedItem,
      item.2 ≠ [] ∧ (fun (_ : UInt32) => (none : Option OutputParts)) = fun _ => none := by
    intro item hitem
    obtain ⟨s, pk, hpk, rfl⟩ := hmem hitem
    refine ⟨fun hnil => hpks.nonempty s pk hpk ?_, rfl⟩
    exact perm_nil.mp (hnil ▸ (perm_sortVout pk.parts).symm)
  obtain ⟨loaded, hrun, hloaded, -, -⟩ := insertItems_spec represents_new hvalid
  refine ⟨loaded, by rw [insertRecords_eq hrecords, hrun], ⟨_, hloaded⟩, ?_⟩
  obtain ⟨coins, -, -, henum, hperm⟩ := walk_canonical h hpks
  have hnone : Enumerates UtxoCoin.outpoint 0 (coinsOf fun _ _ => none) := Enumerates.empty
  have hnew := enumerates_items hnone hvalid hdistinct hfresh
  have hsame : (((canonical pks).map sortedItem).flatMap Item.coins).Perm coins := by
    rw [flatMap_map]
    refine Perm.trans ?_ hperm
    exact (Perm.refl _).flatMap (fun pk _ => (perm_sortVout pk.parts).map _)
  rw [Multiset.coe_eq_coe.mpr hsame] at hnew
  rw [coins_eq hloaded]
  exact hnew.eq_map henum

end

lemma length_writeV2Header (base : CoreV2Base) : (writeV2Header base).length = headerBytes := by
  have hmagic : (networkMagic base.network).length = 4 := by
    cases base.network <;> rfl
  rw [writeV2Header, length_append, length_append, length_append, length_append, hmagic, base.baseHash.length_bytes]
  rfl

lemma takes_metadata (base : CoreV2Base) (budget : ℕ) :
    Takes budget metadata (writeV2Header base) 0
      ⟨version, networkMagic base.network, base.baseHash, base.coinsCount.toNat⟩ := by
  have hmagic : (networkMagic base.network).length = 4 := by
    cases base.network <;> rfl
  have hhash : Hash256.fromLeBytes base.baseHash.bytes = base.baseHash := by
    have hbytes := base.baseHash.fromLeBytes_bytes []
    rwa [append_nil] at hbytes
  have hcount : decode (encode 8 base.coinsCount.toNat) = base.coinsCount.toNat :=
    decode_encode 8 _ base.coinsCount.toNat_lt
  have hread : Takes budget metadata (writeV2Header base) (0 + (0 + (0 + (0 + 0))))
      ⟨version, networkMagic base.network, base.baseHash, base.coinsCount.toNat⟩ := by
    refine (takes_readInto (rfl : magic.length = 5)).bind ?_
    refine (takes_readInto (length_encode 2 version)).bind ?_
    refine (takes_readInto hmagic).bind ((takes_readInto base.baseHash.length_bytes).bind ?_)
    have htail : Takes budget (readInto 8) (encode 8 base.coinsCount.toNat) 0 _ :=
      takes_readInto (length_encode 8 base.coinsCount.toNat)
    have hlast := htail.map (fun bytes =>
      (⟨version, networkMagic base.network, base.baseHash, decode bytes⟩ : SnapshotMetadata))
    rw [hcount] at hlast
    rwa [hhash]
  exact hread

section

variable {secp : Secp} {set : UtxoSet} {base : CoreV2Base} {pks : UInt8 → List Packing} {M : Outputs}

lemma foldlM_writeTable (hpks : Listing set pks) (shouldStop : ℕ → Bool) (shards : List UInt8)
    (encoder : CoreV2Encoder) :
    shards.foldlM (fun encoder s => writeTable secp base shouldStop encoder (set.shards s)) encoder =
      ((shards.flatMap fun s => sortTxid (pks s)).map Packing.record).foldlM (writeRecord secp base shouldStop)
        encoder := by
  induction shards generalizing encoder with
  | nil => rfl
  | cons s rest ih =>
    rw [foldlM_cons, flatMap_cons, map_append, foldlM_append, writeTable, hpks.table, sortTable_packings]
    congr 1
    funext next
    exact ih next

lemma coinCount_eq_length (pks : List Packing) :
    coinCount pks = (pks.flatMap fun pk => pk.parts.map (coinOf pk.txid)).length := by
  rw [coinCount, length_flatMap]
  congr 1
  exact map_congr_left (fun pk _ => (length_map _).symm)

lemma scriptTotal_eq_sum (pks : List Packing) :
    (pks.map fun pk => scriptTotal pk.parts).sum =
      ((pks.flatMap fun pk => pk.parts.map (coinOf pk.txid)).map fun coin => coin.txout.scriptPubkey.length).sum := by
  induction pks with
  | nil => rfl
  | cons pk rest ih =>
    rw [map_cons, sum_cons, ih, flatMap_cons, map_append, sum_append, map_map]
    rfl

structure Encodable (base : CoreV2Base) (set : UtxoSet) : Prop where
  coins : ∀ op coin, set.coins op = some coin → CoinFits base.baseHeight coin
  groups : ∀ s, ∀ record ∈ set.shards s, ∀ n, record.outputCount = .ok n → n ≤ maxCompactSize
  count : set.len = .ok base.coinsCount.toNat
  size : headerBytes + base.coinsCount.toNat * 10081 < 2 ^ 64

lemma Encodable.fits (h : Encodable base set) (hM : set.Represents M) (hpks : Listing set pks) :
    ∀ pk ∈ canonical pks, ∀ output ∈ pk.parts, Fits base.baseHeight output := by
  intro pk hpk output houtput
  obtain ⟨s, hs⟩ := mem_canonical.mp hpk
  exact Fits.of_coin (h.coins _ _ (coin_of_mem hM hpks hs houtput))

lemma Encodable.coinCount_eq (h : Encodable base set) (hM : set.Represents M) (hpks : Listing set pks) :
    coinCount (canonical pks) = base.coinsCount.toNat := by
  obtain ⟨listed, -, hlen, -, hperm⟩ := walk_canonical hM hpks
  have hsame : base.coinsCount.toNat = listed.length := by
    have hcount := h.count
    rw [hlen] at hcount
    exact (Except.ok.inj hcount).symm
  rw [coinCount_eq_length, hperm.length_eq, hsame]

lemma nonempty_canonical (hpks : Listing set pks) : ∀ pk ∈ canonical pks, pk.parts ≠ [] := by
  intro pk hpk
  obtain ⟨s, hs⟩ := mem_canonical.mp hpk
  exact hpks.nonempty s pk hs

def commitmentOf (pks : List Packing) : SerializedUtxoHasher := ⟨hashedBytes (pks.flatMap Packing.sortedEntries)⟩

section

variable (h : Encodable base set) (hM : set.Represents M) (hpks : Listing set pks)

include h hM hpks

lemma writeCoreV2_ok (hsecp : DecompressInverse secp) {shouldStop : ℕ → Bool} (hstop : ∀ i, shouldStop i = false)
    (sha256 : Bytes → Bytes) :
    writeCoreV2 secp base shouldStop sha256 set =
      .ok (writeV2Header base ++ body secp (canonical pks),
        ⟨headerBytes + (body secp (canonical pks)).length, base.coinsCount.toNat,
          (commitmentOf (canonical pks)).finish sha256⟩) := by
  have hcount := h.coinCount_eq hM hpks
  have hsize := length_body_le hsecp (nonempty_canonical hpks) (h.fits hM hpks)
  have hlimit := h.size
  obtain ⟨after, hrun, hafter⟩ := writeRecords_ok hstop hsecp (nonempty_canonical hpks) (h.fits hM hpks)
    ⟨writeV2Header base, 0, 0, headerBytes, .new, 1⟩ (by rw [Nat.zero_add, hcount]) (by dsimp only; omega)
  have hwritten : after.coinsWritten = base.coinsCount.toNat := by
    rw [hafter.coinsWritten, Nat.zero_add, hcount]
  have hfed : after.commitment = commitmentOf (canonical pks) := congrArg SerializedUtxoHasher.mk hafter.fed
  rw [writeCoreV2, hstop]
  dsimp only
  rw [foldlM_writeTable hpks, show shardIndexes.flatMap (fun s => sortTxid (pks s)) = canonical pks from rfl, hrun,
    ok_bind, if_neg (not_not.mpr hwritten), hwritten, hfed, hafter.written, hafter.totalBytes]
  rfl

lemma hashSerialized3AtHeight_ok (sha256 : Bytes → Bytes) :
    hashSerialized3AtHeight sha256 set base.baseHeight = .ok ((commitmentOf (canonical pks)).finish sha256) := by
  have hheight : ∀ s, ∀ pk ∈ pks s, ∀ output ∈ pk.parts, output.height ≤ base.baseHeight := by
    intro s pk hpk output houtput
    exact (h.fits hM hpks pk (mem_canonical.mpr ⟨s, hpk⟩) output houtput).height_le
  rw [hashSerialized3AtHeight, hashSerialized3StableInner, hashShards_ok (fun _ => rfl) hpks hheight]
  rfl

lemma coins_ok (hsecp : DecompressInverse secp) (sha256 : Bytes → Bytes) {limits : SnapshotLimits}
    (hlimits : Admits limits set (writeV2Header base ++ body secp (canonical pks))) :
    ∃ records, Forall₂ Decoded (canonical pks) records ∧
      records.map UtxoRecord.txid = (canonical pks).map (fun pk => pk.txid.bytes) ∧
      Takes limits.maxScriptBytes.toNat (coins secp sha256 base.coinsCount.toNat base.baseHeight limits)
        (body secp (canonical pks)) ((canonical pks).map fun pk => scriptTotal pk.parts).sum
        (records, (commitmentOf (canonical pks)).finish sha256) := by
  have hgroups : ∀ pk ∈ canonical pks, GroupFits base.baseHeight limits pk := by
    intro pk hpk
    obtain ⟨s, hs⟩ := mem_canonical.mp hpk
    have hmem : pk.record ∈ set.shards s := by
      rw [hpks.table]
      exact mem_map_of_mem hs
    exact ⟨hpks.distinct s pk hs, hpks.nonempty s pk hs, h.fits hM hpks pk hpk,
      h.groups s _ hmem _ pk.record_outputCount, hlimits.groups s _ hmem _ pk.record_outputCount⟩
  obtain ⟨records, previous, hrecords, htxids, htakes⟩ := takes_decodeGroups hsecp hgroups
    (pairwise_canonical hpks) ⟨[], .new, base.coinsCount.toNat, none⟩ (fun _ hnone => by cases hnone)
    (h.coinCount_eq hM hpks).symm le_rfl
  refine ⟨records, hrecords, htxids, ?_⟩
  have hcoins : liftDecode (checkLimit .coins base.coinsCount.toNat limits.maxCoins.toNat) = pure () := by
    rw [checkLimit, if_neg (Nat.not_lt.mpr (hlimits.coins _ h.count))]
    rfl
  have haddressable : liftDecode (checkLimit .addressableCoins base.coinsCount.toNat (2 ^ 64 - 1)) = pure () := by
    have hlt := base.coinsCount.toNat_lt
    rw [checkLimit, if_neg (by omega)]
    rfl
  exact Takes.bind_of_eq hcoins (Takes.bind_of_eq haddressable (htakes.map _))

end

/-- For coins that the format can hold, the decoder gives the coins of the set back in the order of their txids, and
the writer, the decoder and the walk over the set agree on the hash. -/
theorem core_snapshot_faithful (hsecp : DecompressInverse secp) (sha256 : Bytes → Bytes) (hset : set.WellFormed)
    (h : Encodable base set) {shouldStop : ℕ → Bool} (hstop : ∀ i, shouldStop i = false) :
    ∃ bytes report, writeCoreV2 secp base shouldStop sha256 set = .ok (bytes, report) ∧
      report.bytes = bytes.length ∧ report.coins = base.coinsCount.toNat ∧
      bytes.length ≤ headerBytes + base.coinsCount.toNat * 10081 ∧
      hashSerialized3AtHeight sha256 set base.baseHeight = .ok report.txoutsetHash ∧
      ∀ limits, Admits limits set bytes → ∃ records loaded start finish,
        metadata (Decoder.new bytes limits.maxFileBytes.toNat) =
          .ok (⟨version, networkMagic base.network, base.baseHash, base.coinsCount.toNat⟩, start) ∧
        coins secp sha256 base.coinsCount.toNat base.baseHeight limits start =
          .ok ((records, report.txoutsetHash), finish) ∧
        atEnd finish = .ok ((), finish) ∧ finish.consumed = bytes.length ∧
        (records.map UtxoRecord.txid).Pairwise (fun left right => compare left right = .lt) ∧
        insertRecords .new records = .ok loaded ∧ loaded.WellFormed ∧ loaded.coins = set.coins := by
  obtain ⟨M, hM⟩ := hset
  obtain ⟨pks, hpks⟩ := hM.listing
  have hsize := length_body_le hsecp (nonempty_canonical hpks) (h.fits hM hpks)
  rw [h.coinCount_eq hM hpks] at hsize
  have hheader := length_writeV2Header base
  refine ⟨_, _, writeCoreV2_ok h hM hpks hsecp hstop sha256, ?_, rfl, ?_,
    hashSerialized3AtHeight_ok h hM hpks sha256, ?_⟩
  · rw [length_append, hheader]
  · rw [length_append]
    omega
  intro limits hlimits
  obtain ⟨records, hrecords, htxids, htakes⟩ := coins_ok h hM hpks hsecp sha256 hlimits
  obtain ⟨loaded, hloaded, hwell, hsame⟩ := loaded_coins hM hpks hrecords
  have hfile := hlimits.file
  have hmaxFile := limits.maxFileBytes.toNat_lt
  have hmaxScript := limits.maxScriptBytes.toNat_lt
  obtain ⟨listed, hlisted, -, -, hperm⟩ := walk_canonical hM hpks
  have hscripts : ((canonical pks).map fun pk => scriptTotal pk.parts).sum ≤ limits.maxScriptBytes.toNat := by
    rw [scriptTotal_eq_sum, (hperm.map _).sum_eq]
    exact hlimits.scripts _ hlisted
  rw [length_append] at hfile
  have hmeta := takes_metadata base limits.maxScriptBytes.toNat (body secp (canonical pks)) 0
    limits.maxFileBytes.toNat 0 (by omega) hmaxFile (by omega) hmaxScript
  have hcoins := htakes [] (0 + (writeV2Header base).length) limits.maxFileBytes.toNat 0 (by omega) hmaxFile (by omega)
    hmaxScript
  rw [append_nil] at hcoins
  refine ⟨records, loaded, _, _, hmeta, hcoins, rfl, ?_, ?_, hloaded, hwell, hsame⟩
  · rw [Nat.zero_add, length_append]
  · rw [htxids]
    exact pairwise_map.mpr (pairwise_canonical hpks)

end

section

lemma outputCount_le_len {set : UtxoSet} (hset : set.WellFormed) {n : ℕ} (hlen : set.len = .ok n)
    (hn : n ≤ maxSnapshotCoinsPerTxid) :
    ∀ s, ∀ record ∈ set.shards s, ∀ count, record.outputCount = .ok count →
      count ≤ maxSnapshotCoinsPerTxid :=
  (Snapshot.limited_of_len hset hlen hn).outputs

def generatorX : Bytes :=
  [0x79, 0xbe, 0x66, 0x7e, 0xf9, 0xdc, 0xbb, 0xac, 0x55, 0xa0, 0x62, 0x95, 0xce, 0x87, 0x0b, 0x07,
    0x02, 0x9b, 0xfc, 0xdb, 0x2d, 0xce, 0x28, 0xd9, 0x59, 0xf2, 0x81, 0x5b, 0x16, 0xf8, 0x17, 0x98]

def generatorY : Bytes :=
  [0x48, 0x3a, 0xda, 0x77, 0x26, 0xa3, 0xc4, 0x65, 0x5d, 0xa4, 0xfb, 0xfc, 0x0e, 0x11, 0x08, 0xa8,
    0xfd, 0x17, 0xb4, 0x48, 0xa6, 0x85, 0x54, 0x19, 0x9c, 0x47, 0xd0, 0x8f, 0xfb, 0x10, 0xd4, 0xb8]

def oneKey : Secp where
  Point := Unit
  fromSlice bytes :=
    if bytes = 0x04 :: (generatorX ++ generatorY) ∨ bytes = 0x02 :: generatorX then some () else none
  serializeUncompressed _ := 0x04 :: (generatorX ++ generatorY)

lemma oneKey_inverse : DecompressInverse oneKey := by
  intro x y hx hy hparse
  have hkey : x ++ y = generatorX ++ generatorY := by
    by_contra hne
    have hother : ¬ (0x04 :: (x ++ y) = 0x04 :: (generatorX ++ generatorY) ∨ 0x04 :: (x ++ y) =
      0x02 :: generatorX) := by
      rintro (hsame | hsame)
      · exact hne (cons.inj hsame).2
      · exact absurd (cons.inj hsame).1 (by decide)
    have hnone : oneKey.fromSlice (0x04 :: (x ++ y)) = none := if_neg hother
    rw [hnone] at hparse
    cases hparse
  obtain ⟨rfl, rfl⟩ := append_inj hkey (by rw [hx]; rfl)
  exact ⟨(), rfl, rfl⟩

def keyAdd : UtxoAdd :=
  { outpoint := ⟨zero, 3⟩
    txout := { value := 5000000000, scriptPubkey := 0x41 :: 0x04 :: (generatorX ++ (generatorY ++ [0xac])) }
    coinbase := true
    height := 9 }

def keySet : UtxoSet := ofAdds (keyAdd :: Sample.coins)

def keyBase : CoreV2Base := ⟨.mainnet, zero, 170, 4⟩

theorem core_snapshot_faithful_sample :
    ∃ bytes report, writeCoreV2 oneKey keyBase (fun _ => false) id keySet = .ok (bytes, report) ∧
      hashSerialized3AtHeight id keySet 170 = .ok report.txoutsetHash ∧
      ∃ records loaded start finish,
        coins oneKey id 4 170 .default start = .ok ((records, report.txoutsetHash), finish) ∧
        insertRecords .new records = .ok loaded ∧ loaded.coins = keySet.coins := by
  have hok : (new.commitAddsAndRemoves .sequential (keyAdd :: Sample.coins) []).2 = .ok () := by decide +kernel
  have hset : keySet.WellFormed := ofAdds_wellFormed hok
  have hlen : keySet.len = .ok 4 := by decide +kernel
  have hgroups := outputCount_le_len hset hlen (by decide)
  have hencodable : Encodable keyBase keySet := by
    refine ⟨fun op coin hcoin => ?_, fun s record hrecord n hn => ?_, hlen, by decide⟩
    · obtain ⟨add, hadd, -, rfl⟩ := mem_ofAdds hok hcoin
      simp only [Sample.coins, mem_cons, not_mem_nil, or_false] at hadd
      rcases hadd with rfl | rfl | rfl | rfl <;> constructor <;> decide
    · exact (hgroups s record hrecord n hn).trans (by decide)
  obtain ⟨bytes, report, hwrite, -, -, hsize, hhash, hread⟩ :=
    core_snapshot_faithful oneKey_inverse id hset hencodable (fun _ => rfl)
  have hadmits : Admits .default keySet bytes := by
    refine ⟨hsize.trans (by decide), fun n hn => ?_, fun listed hlisted => ?_, fun s record hrecord n hn => ?_⟩
    · rw [hlen] at hn
      cases hn
      decide
    · have hwalk : keySet.forEachCoin = .ok ((keyAdd :: Sample.coins).map UtxoAdd.coin) := by decide +kernel
      rw [hwalk] at hlisted
      cases hlisted
      decide
    · exact (hgroups s record hrecord n hn).trans (by decide)
  obtain ⟨records, loaded, start, finish, -, hcoins, -, -, -, hinsert, -, hsame⟩ := hread .default hadmits
  exact ⟨bytes, report, hwrite, hhash, records, loaded, start, finish, hcoins, hinsert, hsame⟩

def tallAdd : UtxoAdd :=
  { outpoint := ⟨zero, 0⟩, txout := { value := 0, scriptPubkey := [] }, coinbase := false, height := 0x80000000 }

def tallBase : CoreV2Base := ⟨.mainnet, zero, 0x80000000, 1⟩

/-- The writer refuses the coin: twice its height is over 32 bits. -/
theorem tall_coin_refused :
    (ofAdds [tallAdd]).WellFormed ∧ (ofAdds [tallAdd]).len = .ok tallBase.coinsCount.toNat ∧
      (∀ op coin, (ofAdds [tallAdd]).coins op = some coin →
        coin.txout.value.toNat ≤ maxCompressibleAmount ∧ coin.txout.scriptPubkey.length ≤ maxScriptBytes ∧
          coin.height ≤ tallBase.baseHeight ∧ coin.outpoint.vout.toNat ≤ maxCompactSize) ∧
      DecompressInverse oneKey ∧
      writeCoreV2 oneKey tallBase (fun _ => false) id (ofAdds [tallAdd]) = .error .varIntOverflow := by
  have hok : (new.commitAddsAndRemoves .sequential [tallAdd] []).2 = .ok () := by decide +kernel
  refine ⟨ofAdds_wellFormed hok, by decide +kernel, fun op coin hcoin => ?_, oneKey_inverse, by decide +kernel⟩
  obtain ⟨add, hadd, -, rfl⟩ := mem_ofAdds hok hcoin
  rw [mem_singleton.mp hadd]
  decide

end

end BitcoinRs.Utxo.CoreSnapshot
