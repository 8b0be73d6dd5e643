import BitcoinRs.Utxo.SnapshotRoundTrip
import BitcoinRs.Utxo.CoreSnapshotLaws

namespace BitcoinRs.Utxo

open KeyedList Fallible List

namespace CoreSnapshot

section

instance : IsTrans OutputParts VoutLe := ⟨fun _ _ _ h₁ h₂ => UInt32.le_trans h₁ h₂⟩

instance : Std.Total VoutLe := ⟨fun left right => UInt32.le_total left.vout right.vout⟩

def sortVout (outputs : List OutputParts) : List OutputParts := outputs.insertionSort VoutLe

variable {outputs : List OutputParts}

lemma perm_sortVout (outputs : List OutputParts) : (sortVout outputs).Perm outputs := perm_insertionSort VoutLe outputs

variable (h : Distinct OutputParts.vout outputs)

include h

lemma sortVout_eq_of_perm {others : List OutputParts} (hp : outputs.Perm others) : sortVout outputs = sortVout others :=
  h.insertionSort_eq (fun _ _ hab hba => UInt32.le_antisymm hab hba) (hp.trans (perm_sortVout others).symm)
    (pairwise_insertionSort VoutLe others)

lemma repeatedVout_eq_none : repeatedVout outputs = none := by
  induction outputs with
  | nil => rfl
  | cons first rest ih =>
    cases rest with
    | nil => rfl
    | cons second rest =>
      have hne : first.vout ≠ second.vout := Ne.symm (lookup_eq_none.mp h.lookup_head second mem_cons_self)
      rw [repeatedVout, if_neg hne]
      exact ih h.tail

end

end CoreSnapshot

section

instance : Std.TransCmp compareEntries :=
  inferInstanceAs (Std.TransCmp (compareLex (compareOn Prod.fst)
    (compareOn (fun entry : Bytes × OutputParts => entry.2.vout))))

instance : IsTrans (Bytes × OutputParts) EntryLe := ⟨fun _ _ _ h₁ h₂ => Std.TransCmp.isLE_trans h₁ h₂⟩

instance : Std.Total EntryLe := ⟨fun a b => by
  unfold EntryLe
  rw [show compareEntries b a = (compareEntries a b).swap from Std.OrientedCmp.eq_swap]
  cases compareEntries a b <;> simp⟩

def entryKey (entry : Bytes × OutputParts) : Bytes × UInt32 := (entry.1, entry.2.vout)

lemma entryKey_eq {left right : Bytes × OutputParts} (h : EntryLe left right) (h' : EntryLe right left) :
    entryKey left = entryKey right := by
  have heq : compareEntries left right = .eq := Std.OrientedCmp.isLE_antisymm h h'
  obtain ⟨htxid, hvout⟩ := Ordering.then_eq_eq.mp heq
  exact Prod.ext (Std.LawfulEqCmp.eq_of_compare htxid) (Std.LawfulEqCmp.eq_of_compare hvout)

end

section

def PackingLe (left right : Packing) : Prop := (compare left.txid.bytes right.txid.bytes).isLE = true

instance : DecidableRel PackingLe := fun _ _ => inferInstanceAs (Decidable (_ = true))

instance : IsTrans Packing PackingLe := ⟨fun _ _ _ h₁ h₂ => Std.TransCmp.isLE_trans h₁ h₂⟩

instance : Std.Total PackingLe := ⟨fun a b => by
  unfold PackingLe
  rw [show compare b.txid.bytes a.txid.bytes = (compare a.txid.bytes b.txid.bytes).swap from
    Std.OrientedCmp.eq_swap]
  cases compare a.txid.bytes b.txid.bytes <;> simp⟩

def Before (left right : Packing) : Prop := compare left.txid.bytes right.txid.bytes = .lt

lemma before_of_le {left right : Packing} (h : PackingLe left right) (hne : left.txid ≠ right.txid) :
    Before left right := by
  unfold PackingLe at h
  unfold Before
  cases hcmp : compare left.txid.bytes right.txid.bytes with
  | lt => rfl
  | eq => exact absurd (Hash256.bytes_injective (Std.LawfulEqCmp.eq_of_compare hcmp)) hne
  | gt =>
    rw [hcmp] at h
    cases h

def sortTxid (pks : List Packing) : List Packing := pks.insertionSort PackingLe

variable (pks : List Packing)

lemma perm_sortTxid : (sortTxid pks).Perm pks := perm_insertionSort PackingLe pks

variable {pks}

lemma mem_sortTxid {pk : Packing} : pk ∈ sortTxid pks ↔ pk ∈ pks := (perm_sortTxid pks).mem_iff

lemma pairwise_sortTxid (h : Distinct Packing.txid pks) : (sortTxid pks).Pairwise Before := by
  have hdistinct : (sortTxid pks).Pairwise (fun left right => left.txid ≠ right.txid) :=
    pairwise_map.mp (h.perm (perm_sortTxid pks).symm)
  refine (pairwise_insertionSort PackingLe pks).imp₂ (fun _ _ hle hne => before_of_le hle hne) hdistinct

lemma sortTable_packings :
    (pks.map Packing.record).insertionSort CoreSnapshot.TxidLe = (sortTxid pks).map Packing.record := by
  refine (map_insertionSort PackingLe CoreSnapshot.TxidLe Packing.record pks (fun a _ b _ => ?_)).symm
  rw [CoreSnapshot.TxidLe, a.record_txid, b.record_txid]
  exact Iff.rfl

def Packing.entries (pk : Packing) : List (Bytes × OutputParts) := pk.parts.map fun output => (pk.txid.bytes, output)

def Packing.sortedEntries (pk : Packing) : List (Bytes × OutputParts) :=
  (CoreSnapshot.sortVout pk.parts).map fun output => (pk.txid.bytes, output)

variable (h : Distinct Packing.txid pks) (hparts : ∀ pk ∈ pks, Distinct OutputParts.vout pk.parts)

include h hparts

lemma distinct_entries : Distinct entryKey (pks.flatMap Packing.entries) := by
  rw [Distinct, map_flatMap, nodup_flatMap]
  constructor
  · intro pk hpk
    rw [Packing.entries, map_map]
    refine Nodup.of_map Prod.snd ?_
    rw [map_map]
    exact hparts pk hpk
  · refine (pairwise_map.mp h).imp (fun {left right} hne => ?_)
    intro key hleft hright
    obtain ⟨entry, hentry, rfl⟩ := mem_map.mp hleft
    obtain ⟨output, -, rfl⟩ := mem_map.mp hentry
    obtain ⟨entry', hentry', hsame⟩ := mem_map.mp hright
    obtain ⟨output', -, rfl⟩ := mem_map.mp hentry'
    exact hne (Hash256.bytes_injective (congrArg Prod.fst hsame).symm)

lemma sortEntries_packings :
    (pks.flatMap Packing.entries).insertionSort EntryLe = (sortTxid pks).flatMap Packing.sortedEntries := by
  refine (distinct_entries h hparts).insertionSort_eq (fun _ _ => entryKey_eq) ?_ ?_
  · exact ((perm_sortTxid pks).flatMap (fun pk _ => (CoreSnapshot.perm_sortVout pk.parts).map _)).symm
  · rw [pairwise_flatMap]
    constructor
    · intro pk _
      rw [Packing.sortedEntries, pairwise_map]
      refine (pairwise_insertionSort CoreSnapshot.VoutLe pk.parts).imp (fun {left right} hle => ?_)
      have hrefl : compare pk.txid.bytes pk.txid.bytes = .eq := Std.ReflCmp.compare_self
      rw [EntryLe, compareEntries, hrefl]
      exact Std.isLE_compare.mpr hle
    · refine (pairwise_sortTxid h).imp (fun {left right} hbefore => ?_)
      intro entry hentry entry' hentry'
      obtain ⟨output, -, rfl⟩ := mem_map.mp hentry
      obtain ⟨output', -, rfl⟩ := mem_map.mp hentry'
      rw [EntryLe, compareEntries, show compare left.txid.bytes right.txid.bytes = .lt from hbefore]
      rfl

end

section

lemma pairwise_shardIndexes : shardIndexes.Pairwise (· < ·) := by
  rw [shardIndexes, pairwise_map]
  refine pairwise_lt_range.imp_of_mem (fun {m n} hm hn hlt => ?_)
  rw [UInt8.lt_iff_toNat_lt, UInt8.toNat_ofNat_of_lt' (mem_range.mp hm), UInt8.toNat_ofNat_of_lt' (mem_range.mp hn)]
  exact hlt

lemma shardOfTxid_cons (txid : Hash256) : ∃ rest, txid.bytes = shardOfTxid txid :: rest := by
  have hlen := txid.length_bytes
  cases hbytes : txid.bytes with
  | nil =>
    rw [hbytes] at hlen
    cases hlen
  | cons first rest =>
    refine ⟨rest, ?_⟩
    rw [shardOfTxid, UtxoKey.fromTxid, hbytes]
    rfl

lemma before_of_shard {left right : Packing} (h : shardOfTxid left.txid < shardOfTxid right.txid) :
    Before left right := by
  obtain ⟨_, hleft⟩ := shardOfTxid_cons left.txid
  obtain ⟨_, hright⟩ := shardOfTxid_cons right.txid
  have hlt : compare (shardOfTxid left.txid) (shardOfTxid right.txid) = .lt := Std.compare_eq_lt.mpr h
  rw [Before, hleft, hright]
  simp only [compare, List.compareLex_cons_cons] at hlt ⊢
  rw [hlt]
  rfl

variable {set : UtxoSet} {pks : UInt8 → List Packing}

def canonical (pks : UInt8 → List Packing) : List Packing := shardIndexes.flatMap fun s => sortTxid (pks s)

lemma pairwise_canonical (h : Listing set pks) : (canonical pks).Pairwise Before := by
  rw [canonical, pairwise_flatMap]
  refine ⟨fun s _ => pairwise_sortTxid (h.txids s), pairwise_shardIndexes.imp (fun {s t} hlt => ?_)⟩
  intro left hleft right hright
  apply before_of_shard
  rw [h.shard s left (mem_sortTxid.mp hleft), h.shard t right (mem_sortTxid.mp hright)]
  exact hlt

lemma mem_canonical {pk : Packing} : pk ∈ canonical pks ↔ ∃ s, pk ∈ pks s := by
  rw [canonical, mem_flatMap]
  constructor
  · rintro ⟨s, -, hs⟩
    exact ⟨s, mem_sortTxid.mp hs⟩
  · rintro ⟨s, hs⟩
    exact ⟨s, mem_shardIndexes s, mem_sortTxid.mpr hs⟩

end

def hashedBytes (entries : List (Bytes × OutputParts)) : Bytes :=
  entries.flatMap fun entry => SerializedUtxoHasher.entryBytes entry.1 entry.2

lemma SerializedUtxoHasher.addAll_ok {height : UInt32} {entries : List (Bytes × OutputParts)}
    (h : ∀ entry ∈ entries, entry.2.height ≤ height) (hasher : SerializedUtxoHasher) :
    hasher.addAll (some height) entries = .ok ⟨hasher.fed ++ hashedBytes entries⟩ := by
  induction entries generalizing hasher with
  | nil =>
    rw [hashedBytes, flatMap_nil, append_nil]
    rfl
  | cons entry rest ih =>
    obtain ⟨hfirst, hrest⟩ := forall_mem_cons.mp h
    rw [addAll, add, if_neg (UInt32.not_lt.mpr hfirst), ok_bind, ih hrest, append_assoc]
    rfl

namespace CoreSnapshot

def putGroup (secp : Secp) (txid : Hash256) (outputs : List OutputParts) : Bytes :=
  txid.bytes ++ (Varint.encode outputs.length ++ outputs.flatMap (putEntry secp))

def keyed (pk : Packing) : List OutputParts := pk.parts.insertionSort VarintKeyLe

variable (pk : Packing)

lemma perm_keyed : (keyed pk).Perm pk.parts := perm_insertionSort VarintKeyLe pk.parts

lemma length_keyed : (keyed pk).length = pk.parts.length := (perm_keyed pk).length_eq

def coinCount (pks : List Packing) : ℕ := (pks.map fun pk => pk.parts.length).sum

def body (secp : Secp) (pks : List Packing) : Bytes := pks.flatMap fun pk => putGroup secp pk.txid (keyed pk)

section

structure Advances (before after : CoreV2Encoder) (bytes : Bytes) (coins : ℕ)
    (entries : List (Bytes × OutputParts)) : Prop where
  written : after.written = before.written ++ bytes
  coinsWritten : after.coinsWritten = before.coinsWritten + coins
  totalBytes : after.totalBytes = before.totalBytes + bytes.length
  fed : after.commitment.fed = before.commitment.fed ++ hashedBytes entries

lemma Advances.refl (encoder : CoreV2Encoder) : Advances encoder encoder [] 0 [] :=
  ⟨(append_nil _).symm, rfl, rfl, (append_nil _).symm⟩

lemma Advances.trans {first second third : CoreV2Encoder} {xs ys : Bytes} {m n : ℕ}
    {entries more : List (Bytes × OutputParts)} (h : Advances first second xs m entries)
    (h' : Advances second third ys n more) : Advances first third (xs ++ ys) (m + n) (entries ++ more) where
  written := by rw [h'.written, h.written, append_assoc]
  coinsWritten := by rw [h'.coinsWritten, h.coinsWritten, Nat.add_assoc]
  totalBytes := by rw [h'.totalBytes, h.totalBytes, length_append, Nat.add_assoc]
  fed := by rw [h'.fed, h.fed, hashedBytes, hashedBytes, hashedBytes, flatMap_append, append_assoc]

variable {secp : Secp} {base : CoreV2Base} {shouldStop : ℕ → Bool}

lemma writeCounted_ok (encoder : CoreV2Encoder) (bytes : Bytes) (h : encoder.totalBytes + bytes.length < 2 ^ 64) :
    ∃ after, writeCounted encoder bytes = .ok after ∧ Advances encoder after bytes 0 [] := by
  rw [writeCounted, addBytes, checkedAddOr_ok h]
  exact ⟨_, rfl, ⟨rfl, rfl, rfl, (append_nil _).symm⟩⟩

variable (hstop : ∀ i, shouldStop i = false)

include hstop

lemma countCoin_ok (encoder : CoreV2Encoder) (h : encoder.coinsWritten + 1 ≤ base.coinsCount.toNat) :
    ∃ after, countCoin base shouldStop encoder = .ok after ∧ Advances encoder after [] 1 [] := by
  have hlt := base.coinsCount.toNat_lt
  rw [countCoin, checkedAddOr_ok (by omega), ok_bind, if_neg (Nat.not_lt.mpr h)]
  split_ifs with hpoll hstopped
  · rw [hstop] at hstopped
    cases hstopped
  · exact ⟨_, rfl, ⟨(append_nil _).symm, rfl, rfl, (append_nil _).symm⟩⟩
  · exact ⟨_, rfl, ⟨(append_nil _).symm, rfl, rfl, (append_nil _).symm⟩⟩

variable (hsecp : DecompressInverse secp)

include hsecp

lemma writeEntries_ok {outputs : List OutputParts} (hfits : ∀ output ∈ outputs, Fits base.baseHeight output)
    (encoder : CoreV2Encoder) (hcoins : encoder.coinsWritten + outputs.length ≤ base.coinsCount.toNat)
    (hbytes : encoder.totalBytes + (outputs.flatMap (putEntry secp)).length < 2 ^ 64) :
    ∃ after, writeEntries secp base shouldStop outputs encoder = .ok after ∧
      Advances encoder after (outputs.flatMap (putEntry secp)) outputs.length [] := by
  induction outputs generalizing encoder with
  | nil => exact ⟨encoder, rfl, Advances.refl encoder⟩
  | cons output rest ih =>
    rw [flatMap_cons, length_append] at hbytes
    rw [length_cons] at hcoins
    obtain ⟨hfirst, hrest⟩ := forall_mem_cons.mp hfits
    obtain ⟨counted, hcounted, hadvance⟩ := writeCounted_ok encoder (putEntry secp output) (by omega)
    have hroom : counted.coinsWritten + 1 ≤ base.coinsCount.toNat := by
      rw [hadvance.coinsWritten]
      omega
    obtain ⟨next, hnext, hone⟩ := countCoin_ok hstop counted hroom
    obtain ⟨after, hafter, hmany⟩ := ih hrest next
      (by rw [hone.coinsWritten, hadvance.coinsWritten]; omega)
      (by rw [hone.totalBytes, hadvance.totalBytes, length_nil]; omega)
    refine ⟨after, ?_, ?_⟩
    · rw [writeEntries, writeOutputEntry_eq hsecp hfirst, ok_bind]
      dsimp only
      rw [show addBytes { encoder with written := encoder.written ++ putEntry secp output }
        (putEntry secp output).length = .ok counted from hcounted, ok_bind, hnext, ok_bind, hafter]
    · have hall := (hadvance.trans hone).trans hmany
      rwa [append_nil, Nat.add_comm 1] at hall

lemma writeRecord_ok {pk : Packing} (hne : pk.parts ≠ [])
    (hfits : ∀ output ∈ pk.parts, Fits base.baseHeight output) (encoder : CoreV2Encoder)
    (hcoins : encoder.coinsWritten + pk.parts.length ≤ base.coinsCount.toNat)
    (hbytes : encoder.totalBytes + (putGroup secp pk.txid (keyed pk)).length < 2 ^ 64) :
    ∃ after, writeRecord secp base shouldStop encoder pk.record = .ok after ∧
      Advances encoder after (putGroup secp pk.txid (keyed pk)) pk.parts.length pk.sortedEntries := by
  rw [putGroup, length_append, length_append, length_keyed] at hbytes
  obtain ⟨first, hfirst, htxid⟩ := writeCounted_ok encoder pk.txid.bytes (by omega)
  obtain ⟨second, hsecond, hcount⟩ := writeCounted_ok first (Varint.encode pk.parts.length)
    (by rw [htxid.totalBytes]; omega)
  obtain ⟨third, hthird, hentries⟩ := writeEntries_ok hstop hsecp
    (fun output houtput => hfits output ((perm_keyed pk).mem_iff.mp houtput)) second
    (by rw [hcount.coinsWritten, htxid.coinsWritten, length_keyed]; omega)
    (by rw [hcount.totalBytes, htxid.totalBytes]; omega)
  have hheights : ∀ entry ∈ pk.sortedEntries, entry.2.height ≤ base.baseHeight := by
    intro entry hentry
    obtain ⟨output, houtput, rfl⟩ := mem_map.mp hentry
    exact (hfits output ((perm_sortVout pk.parts).mem_iff.mp houtput)).height_le
  have hcommit := SerializedUtxoHasher.addAll_ok hheights third.commitment
  refine ⟨{ third with commitment := ⟨third.commitment.fed ++ hashedBytes pk.sortedEntries⟩ }, ?_, ?_⟩
  · have hempty : ¬ pk.parts.isEmpty = true := fun hnil => hne (isEmpty_iff.mp hnil)
    rw [writeRecord, pk.record_outputs, pk.record_txid]
    dsimp only [Snapshot.liftRun, liftUtxo]
    rw [ok_bind, if_neg hempty, hfirst, ok_bind, hsecond, ok_bind, show writeEntries secp base shouldStop
      (pk.parts.insertionSort VarintKeyLe) second = .ok third from hthird, ok_bind,
      show third.commitment.addAll (some base.baseHeight) ((pk.parts.insertionSort VoutLe).map fun output =>
        (pk.txid.bytes, output)) = _ from hcommit]
    rfl
  · have hall := htxid.trans (hcount.trans hentries)
    rw [Nat.zero_add, Nat.zero_add, length_keyed] at hall
    refine ⟨?_, hall.coinsWritten, ?_, ?_⟩
    · rw [putGroup, length_keyed]
      exact hall.written
    · rw [putGroup, length_keyed]
      exact hall.totalBytes
    · have hfed := hall.fed
      rw [hashedBytes, nil_append, nil_append, flatMap_nil, append_nil] at hfed
      rw [hfed]

lemma writeRecords_ok {pks : List Packing} (hne : ∀ pk ∈ pks, pk.parts ≠ [])
    (hfits : ∀ pk ∈ pks, ∀ output ∈ pk.parts, Fits base.baseHeight output) (encoder : CoreV2Encoder)
    (hcoins : encoder.coinsWritten + coinCount pks ≤ base.coinsCount.toNat)
    (hbytes : encoder.totalBytes + (body secp pks).length < 2 ^ 64) :
    ∃ after, (pks.map Packing.record).foldlM (writeRecord secp base shouldStop) encoder = .ok after ∧
      Advances encoder after (body secp pks) (coinCount pks) (pks.flatMap Packing.sortedEntries) := by
  induction pks generalizing encoder with
  | nil => exact ⟨encoder, rfl, Advances.refl encoder⟩
  | cons pk rest ih =>
    rw [body, flatMap_cons, length_append] at hbytes
    rw [coinCount, map_cons, sum_cons] at hcoins
    obtain ⟨hneFirst, hneRest⟩ := forall_mem_cons.mp hne
    obtain ⟨hfitsFirst, hfitsRest⟩ := forall_mem_cons.mp hfits
    obtain ⟨next, hnext, hone⟩ := writeRecord_ok hstop hsecp hneFirst hfitsFirst encoder (by omega) (by omega)
    obtain ⟨after, hafter, hmany⟩ := ih hneRest hfitsRest next
      (by rw [hone.coinsWritten, coinCount]; omega) (by rw [hone.totalBytes, body]; omega)
    refine ⟨after, ?_, hone.trans hmany⟩
    rw [map_cons, foldlM_cons, hnext, ok_bind, hafter]

end

section

variable {secp : Secp} {baseHeight : UInt32}

lemma length_body_le (hsecp : DecompressInverse secp) {pks : List Packing} (hne : ∀ pk ∈ pks, pk.parts ≠ [])
    (hfits : ∀ pk ∈ pks, ∀ output ∈ pk.parts, Fits baseHeight output) :
    (body secp pks).length ≤ coinCount pks * 10081 := by
  induction pks with
  | nil => exact Nat.zero_le _
  | cons pk rest ih =>
    obtain ⟨hneFirst, hneRest⟩ := forall_mem_cons.mp hne
    obtain ⟨hfitsFirst, hfitsRest⟩ := forall_mem_cons.mp hfits
    have hrest := ih hneRest hfitsRest
    have hpos := length_pos_of_ne_nil hneFirst
    have hentries := ByteTable.length_flatMap_le (putEntry secp) 10040 (keyed pk)
      (fun output houtput => length_putEntry_le hsecp (hfitsFirst output ((perm_keyed pk).mem_iff.mp houtput)))
    have hcount : (Varint.encode (keyed pk).length).length ≤ 9 := by
      rw [Varint.length_encode, Varint.encodedLen]
      split_ifs <;> omega
    rw [length_keyed] at hentries
    rw [body, flatMap_cons, length_append, putGroup, length_append, length_append,
      pk.txid.length_bytes, coinCount, map_cons, sum_cons]
    rw [body, coinCount] at hrest
    omega

end

end CoreSnapshot

open Tally

section

variable {cancelled : ℕ → Bool} (hcancelled : ∀ i, cancelled i = false)

include hcancelled

lemma visitOutputs_ok (txidLe : Bytes) (outputs : List OutputParts) (walk : HashWalk) :
    ∃ visited polls, visitOutputs cancelled txidLe outputs walk =
      .ok ⟨visited, polls, walk.entries ++ outputs.map fun output => (txidLe, output)⟩ := by
  induction outputs generalizing walk with
  | nil => exact ⟨walk.visited, walk.polls, by rw [map_nil, append_nil]; rfl⟩
  | cons output rest ih =>
    rw [visitOutputs, hcancelled, if_neg Bool.false_ne_true, map_cons,
      append_cons walk.entries (txidLe, output) (rest.map _)]
    split_ifs
    · exact ih _
    · exact ih _

lemma visitTable_ok (pks : List Packing) (walk : HashWalk) :
    ∃ visited polls, visitTable cancelled (pks.map Packing.record) walk =
      .ok ⟨visited, polls, walk.entries ++ pks.flatMap Packing.entries⟩ := by
  induction pks generalizing walk with
  | nil => exact ⟨walk.visited, walk.polls, by rw [flatMap_nil, append_nil]; rfl⟩
  | cons pk rest ih =>
    obtain ⟨visited, polls, hfirst⟩ := visitOutputs_ok hcancelled pk.txid.bytes pk.parts walk
    obtain ⟨visited', polls', hrest⟩ := ih ⟨visited, polls, walk.entries ++ pk.entries⟩
    refine ⟨visited', polls', ?_⟩
    rw [map_cons, visitTable, pk.record_outputs, pk.record_txid, Snapshot.liftRun, ok_bind, hfirst, flatMap_cons,
      ← append_assoc]
    exact hrest

lemma hashShards_ok {height : UInt32} {set : UtxoSet} {pks : UInt8 → List Packing} (h : Listing set pks)
    (hheight : ∀ s, ∀ pk ∈ pks s, ∀ output ∈ pk.parts, output.height ≤ height) (shards : List UInt8) (visited polls : ℕ)
    (engine : SerializedUtxoHasher) :
    hashShards cancelled (some height) set.shards shards visited polls engine =
      .ok ⟨engine.fed ++ hashedBytes ((shards.flatMap fun s => sortTxid (pks s)).flatMap Packing.sortedEntries)⟩ := by
  induction shards generalizing visited polls engine with
  | nil =>
    rw [flatMap_nil, flatMap_nil, hashedBytes, flatMap_nil, append_nil]
    rfl
  | cons s rest ih =>
    obtain ⟨visited', polls', hwalk⟩ := visitTable_ok hcancelled (pks s) ⟨visited, polls, []⟩
    have hheights : ∀ entry ∈ (sortTxid (pks s)).flatMap Packing.sortedEntries, entry.2.height ≤ height := by
      intro entry hentry
      obtain ⟨pk, hpk, hentry⟩ := mem_flatMap.mp hentry
      obtain ⟨output, houtput, rfl⟩ := mem_map.mp hentry
      exact hheight s pk (mem_sortTxid.mp hpk) output ((CoreSnapshot.perm_sortVout pk.parts).mem_iff.mp houtput)
    rw [hashShards, h.table, hwalk, ok_bind]
    rw [nil_append, sortEntries_packings (h.txids s) (h.distinct s), SerializedUtxoHasher.addAll_ok hheights,
      ok_bind, ih, flatMap_cons, flatMap_append, hashedBytes, hashedBytes, hashedBytes,
      flatMap_append, append_assoc]

end

namespace CoreSnapshot

section

variable {secp : Secp} {baseHeight : UInt32} {limits : SnapshotLimits}

def scriptTotal (outputs : List OutputParts) : ℕ := (outputs.map fun output => output.script.length).sum

lemma takes_decodeCoins (hsecp : DecompressInverse secp) {outputs : List OutputParts}
    (hfits : ∀ output ∈ outputs, Fits baseHeight output) :
    Takes limits.maxScriptBytes.toNat (decodeCoins secp baseHeight limits outputs.length)
      (outputs.flatMap (putEntry secp)) (scriptTotal outputs) outputs := by
  induction outputs with
  | nil => exact Takes.pure []
  | cons output rest ih =>
    obtain ⟨hfirst, hrest⟩ := forall_mem_cons.mp hfits
    exact (takes_decodeCoin hsecp hfirst limits).bind ((ih hrest).map _)

structure GroupFits (baseHeight : UInt32) (limits : SnapshotLimits) (pk : Packing) : Prop where
  distinct : Distinct OutputParts.vout pk.parts
  nonempty : pk.parts ≠ []
  fits : ∀ output ∈ pk.parts, Fits baseHeight output
  count_le : pk.parts.length ≤ maxCompactSize
  limit_le : pk.parts.length ≤ limits.maxCoinsPerTxid.toNat

def Decoded (pk : Packing) (record : UtxoRecord) : Prop :=
  UtxoRecord.fromOwnedOutputs pk.txid (sortVout pk.parts) = .ok record

variable {pk : Packing}

lemma sealGroup_ok (h : GroupFits baseHeight limits pk) (commitment : SerializedUtxoHasher) :
    ∃ record, Decoded pk record ∧ record.txid = pk.txid.bytes ∧
      sealGroup baseHeight pk.txid.bytes (keyed pk) commitment =
        .ok (record, ⟨commitment.fed ++ hashedBytes pk.sortedEntries⟩) := by
  have hdistinct : Distinct OutputParts.vout (sortVout pk.parts) := h.distinct.perm (perm_sortVout pk.parts).symm
  have hmem {output : OutputParts} : output ∈ sortVout pk.parts ↔ output ∈ pk.parts := (perm_sortVout pk.parts).mem_iff
  obtain ⟨own, hrecord, -, htxid, hparts⟩ := UtxoRecord.fromOwnedOutputs_ok pk.txid hdistinct
    (fun output houtput => pk.script_lt output (hmem.mp houtput))
    (by rw [(perm_sortVout pk.parts).length_eq]; exact pk.length_lt)
  have hheights : ∀ entry ∈ pk.sortedEntries, entry.2.height ≤ baseHeight := by
    intro entry hentry
    obtain ⟨output, houtput, rfl⟩ := mem_map.mp hentry
    exact (h.fits output (hmem.mp houtput)).height_le
  have hsort : (keyed pk).insertionSort VoutLe = sortVout pk.parts :=
    sortVout_eq_of_perm (h.distinct.perm (perm_keyed pk).symm) (perm_keyed pk)
  have hown : Hash256.fromLeBytes pk.txid.bytes = pk.txid := by
    have hbytes := pk.txid.fromLeBytes_bytes []
    rwa [append_nil] at hbytes
  refine ⟨own.record, hrecord, by rw [own.record_txid, htxid], ?_⟩
  rw [sealGroup, hsort, repeatedVout_eq_none hdistinct, hown, hrecord]
  dsimp only [Snapshot.liftRun, liftUtxo]
  rw [ok_bind, own.record_outputs, hparts]
  rw [ok_bind, show commitment.addAll (some baseHeight) ((sortVout pk.parts).map fun output =>
    (pk.txid.bytes, output)) = _ from SerializedUtxoHasher.addAll_ok hheights commitment]
  rfl

variable (hsecp : DecompressInverse secp)

include hsecp

lemma takes_decodeGroup (h : GroupFits baseHeight limits pk)
    (coins : Coins) (hprevious : ∀ previous ∈ coins.previousTxid, compare previous pk.txid.bytes = .lt)
    (hremaining : pk.parts.length ≤ coins.remaining) :
    ∃ record, Decoded pk record ∧ record.txid = pk.txid.bytes ∧
      Takes limits.maxScriptBytes.toNat (decodeGroup secp baseHeight limits coins)
        (putGroup secp pk.txid (keyed pk)) (scriptTotal pk.parts)
        ⟨coins.records ++ [record], ⟨coins.commitment.fed ++ hashedBytes pk.sortedEntries⟩,
          coins.remaining - pk.parts.length, some pk.txid.bytes⟩ := by
  obtain ⟨record, hdecoded, htxid, hseal⟩ := sealGroup_ok h coins.commitment
  refine ⟨record, hdecoded, htxid, ?_⟩
  have horder : ¬ coins.previousTxid.any (fun previous => compare previous pk.txid.bytes != .lt) = true := by
    cases hprev : coins.previousTxid with
    | none => exact Bool.false_ne_true
    | some previous =>
      rw [Option.any_some, hprevious previous (by rw [hprev]; rfl)]
      decide
  have hscripts : scriptTotal (keyed pk) = scriptTotal pk.parts := ((perm_keyed pk).map _).sum_eq
  have hcoins : Takes limits.maxScriptBytes.toNat (decodeCoins secp baseHeight limits _) _ _ (keyed pk) :=
    takes_decodeCoins hsecp (fun output houtput => h.fits output ((perm_keyed pk).mem_iff.mp houtput))
  rw [hscripts, length_keyed] at hcoins
  have hread : Takes limits.maxScriptBytes.toNat (decodeGroup secp baseHeight limits coins)
      (pk.txid.bytes ++ (Varint.encode pk.parts.length ++ ((keyed pk).flatMap (putEntry secp) ++ [])))
      (0 + (0 + (scriptTotal pk.parts + 0)))
      ⟨coins.records ++ [record], ⟨coins.commitment.fed ++ hashedBytes pk.sortedEntries⟩,
        coins.remaining - pk.parts.length, some pk.txid.bytes⟩ := by
    refine (takes_readInto pk.txid.length_bytes).bind ?_
    rw [if_neg horder]
    refine (takes_compactSize h.count_le).bind ?_
    rw [if_neg (fun hzero => h.nonempty (length_eq_zero_iff.mp hzero)), if_neg (Nat.not_lt.mpr hremaining)]
    have hlimit : liftDecode (checkLimit .coinsPerTxid pk.parts.length limits.maxCoinsPerTxid.toNat) = pure () := by
      rw [checkLimit, if_neg (Nat.not_lt.mpr h.limit_le)]
      rfl
    refine Takes.bind_of_eq hlimit (hcoins.bind ?_)
    rw [hseal]
    exact Takes.pure _
  rw [append_nil, Nat.zero_add, Nat.zero_add] at hread
  rwa [putGroup, length_keyed]

lemma takes_decodeGroups {pks : List Packing}
    (h : ∀ pk ∈ pks, GroupFits baseHeight limits pk) (horder : pks.Pairwise Before) (coins : Coins) {fuel : ℕ}
    (hprevious : ∀ previous ∈ coins.previousTxid, ∀ pk ∈ pks, compare previous pk.txid.bytes = .lt)
    (hremaining : coins.remaining = coinCount pks) (hfuel : coins.remaining ≤ fuel) :
    ∃ records previous, Forall₂ Decoded pks records ∧
      records.map UtxoRecord.txid = pks.map (fun pk => pk.txid.bytes) ∧
      Takes limits.maxScriptBytes.toNat (decodeGroups secp baseHeight limits fuel coins) (body secp pks)
        (pks.map fun pk => scriptTotal pk.parts).sum
        ⟨coins.records ++ records, ⟨coins.commitment.fed ++ hashedBytes (pks.flatMap Packing.sortedEntries)⟩, 0,
          previous⟩ := by
  induction pks generalizing coins fuel with
  | nil =>
    have hzero : coins.remaining = 0 := hremaining
    refine ⟨[], coins.previousTxid, .nil, rfl, ?_⟩
    have hdone : decodeGroups secp baseHeight limits fuel coins = pure coins := by
      cases fuel with
      | zero => rfl
      | succ fuel => rw [decodeGroups, if_pos hzero]
    have hsame : coins = ⟨coins.records ++ [], ⟨coins.commitment.fed ++ hashedBytes []⟩, 0, coins.previousTxid⟩ := by
      rw [append_nil, hashedBytes, flatMap_nil, append_nil, ← hzero]
    rw [hdone, flatMap_nil, ← hsame]
    exact Takes.pure coins
  | cons pk rest ih =>
    obtain ⟨hfirst, hrest⟩ := forall_mem_cons.mp h
    obtain ⟨hbefore, hordered⟩ := pairwise_cons.mp horder
    rw [coinCount, map_cons, sum_cons] at hremaining
    have hpos := length_pos_of_ne_nil hfirst.nonempty
    obtain ⟨record, hdecoded, htxid, hgroup⟩ := takes_decodeGroup hsecp hfirst coins
      (fun previous hprev => hprevious previous hprev pk mem_cons_self) (by omega)
    cases fuel with
    | zero => omega
    | succ fuel =>
      obtain ⟨records, previous, hrecords, htxids, hgroups⟩ := ih hrest hordered
        ⟨coins.records ++ [record], ⟨coins.commitment.fed ++ hashedBytes pk.sortedEntries⟩,
          coins.remaining - pk.parts.length, some pk.txid.bytes⟩
        (by
          rintro _ ⟨⟩ other hother
          exact hbefore other hother)
        (by rw [hremaining, Nat.add_sub_cancel_left]; rfl)
        (show coins.remaining - pk.parts.length ≤ fuel by omega)
      refine ⟨record :: records, previous, .cons hdecoded hrecords, by rw [map_cons, htxid, htxids, map_cons], ?_⟩
      rw [decodeGroups, if_neg (by omega)]
      have hall := hgroup.bind hgroups
      rwa [append_assoc, append_assoc, hashedBytes, hashedBytes,
        ← flatMap_append] at hall

end

end CoreSnapshot

end BitcoinRs.Utxo
