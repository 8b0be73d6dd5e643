import BitcoinRs.Encode
import BitcoinRs.Library.Fallible

namespace BitcoinRs.Storage

open ByteReader Fallible List LittleEndian

def magic : Bytes := [0x4a, 0x52, 0x4e, 0x4c]
def version : UInt8 := 1
def frameHeaderLen : ℕ := 4 + 1 + 4
def frameTrailerLen : ℕ := 4
def maxPayloadLen : ℕ := 256 * 1024 * 1024
def maxMutations : ℕ := 4000000

structure Coin where
  outpoint : OutPoint
  txout : TxOut
  height : UInt32
  coinbase : Bool

inductive Mutation
  | create (coin : Coin)
  | spend (coin : Coin)
  | overwrite (oldCoin newCoin : Coin)

@[ext] structure RawHeader where
  bytes : Bytes
  length_bytes : bytes.length = 80

structure JournalRecord where
  height : UInt32
  blockHash : Hash256
  prevHash : Hash256
  blockTxCount : UInt64
  coinStatsHeightDelta : Int64
  rawHeader : RawHeader
  mutations : List Mutation

inductive JournalRecordError
  | badMagic
  | badVersion (found expected : UInt8)
  | crcMismatch (expected found : UInt32)
  | unexpectedEof
  | malformedPayload

def crc32cBit (crc : UInt32) : UInt32 := (crc >>> 1) ^^^ (0x82f63b78 &&& (0 - (crc &&& 1)))

def crc32cByte (crc : UInt32) (byte : UInt8) : UInt32 := Nat.iterate crc32cBit 8 (crc ^^^ byte.toUInt32)

def crc32c (bytes : Bytes) : UInt32 := ~~~(bytes.foldl crc32cByte 0xffffffff)

def u32Len (value : ℕ) : ℕ := if value < 2 ^ 32 then value else 2 ^ 32 - 1

def putU32 (value : UInt32) : Bytes := encode 4 value.toNat

def putU64 (value : UInt64) : Bytes := encode 8 value.toNat

def putI64 (value : Int64) : Bytes := putU64 value.toUInt64

def putBool (value : Bool) : Bytes := [if value then 1 else 0]

def putCoin (coin : Coin) : Bytes :=
  coin.outpoint.txid.bytes ++ (putU32 coin.outpoint.vout ++
    (coin.txout.consensusEncode ++ (putU32 coin.height ++ putBool coin.coinbase)))

def putMutation : Mutation → Bytes
  | .create coin => 0 :: putCoin coin
  | .spend coin => 1 :: putCoin coin
  | .overwrite oldCoin newCoin => 2 :: (putCoin oldCoin ++ putCoin newCoin)

def encodePayload (record : JournalRecord) : Bytes :=
  putU32 record.height ++ (record.blockHash.bytes ++ (record.prevHash.bytes ++
    (putU64 record.blockTxCount ++ (putI64 record.coinStatsHeightDelta ++ (record.rawHeader.bytes ++
      (encode 4 (u32Len record.mutations.length) ++ record.mutations.flatMap putMutation))))))

def frameHeader (payloadLen : ℕ) : Bytes := magic ++ version :: encode 4 (u32Len payloadLen)

def encodeRecord (record : JournalRecord) : Bytes :=
  let payload := encodePayload record
  frameHeader payload.length ++ (payload ++ putU32 (crc32c payload))

abbrev Cursor (α : Type) := Reader JournalRecordError α

namespace Cursor

def take (count : ℕ) : Cursor Bytes := takeBytes .unexpectedEof count

def array32 : Cursor Hash256 := fun input =>
  if h : 32 ≤ input.length then .ok (⟨input.take 32, length_take_of_le h⟩, input.drop 32)
  else .error .unexpectedEof

def array80 : Cursor RawHeader := fun input =>
  if h : 80 ≤ input.length then .ok (⟨input.take 80, length_take_of_le h⟩, input.drop 80)
  else .error .unexpectedEof

def byte : Cursor UInt8 := do return (← take 1).headD 0

def u32 : Cursor UInt32 := do return UInt32.ofNat (← readNat .unexpectedEof 4)

def u64 : Cursor UInt64 := do return UInt64.ofNat (← readNat .unexpectedEof 8)

def i64 : Cursor Int64 := do return (← u64).toInt64

def txout : Cursor TxOut := fun input =>
  match TxOut.consensusDecode input with
  | .error _ => .error .malformedPayload
  | .ok (txout, rest) =>
    if input.length - rest.length = 0 then .error .malformedPayload else .ok (txout, rest)

def flag (byte : UInt8) : Cursor Bool :=
  if byte = 0 then pure false else if byte = 1 then pure true else fail .malformedPayload

def coinbaseFlag : Cursor Bool := do flag (← byte)

def coin : Cursor Coin := do
  let txid ← array32
  let vout ← u32
  let txout ← txout
  let height ← u32
  let coinbase ← coinbaseFlag
  return { outpoint := ⟨txid, vout⟩, txout, height, coinbase }

def mutationOf (tag : UInt8) : Cursor Mutation :=
  if tag = 0 then do return .create (← coin)
  else if tag = 1 then do return .spend (← coin)
  else if tag = 2 then do
    let oldCoin ← coin
    return .overwrite oldCoin (← coin)
  else fail .malformedPayload

def mutation : Cursor Mutation := do mutationOf (← byte)

def mutations (count : ℕ) : Cursor (List Mutation) :=
  if maxMutations < count then fail .malformedPayload else readMany mutation count

def record : Cursor JournalRecord := do
  let height ← u32
  let blockHash ← array32
  let prevHash ← array32
  let blockTxCount ← u64
  let coinStatsHeightDelta ← i64
  let rawHeader ← array80
  let count ← readNat .unexpectedEof 4
  let mutations ← mutations count
  return { height, blockHash, prevHash, blockTxCount, coinStatsHeightDelta, rawHeader, mutations }

end Cursor

def decodePayload (payload : Bytes) : Except JournalRecordError JournalRecord := do
  let (record, rest) ← Cursor.record payload
  if rest.length ≠ 0 then .error .malformedPayload else .ok record

def checkCrc (payload : Bytes) (found : UInt32) : Except JournalRecordError Unit :=
  if found ≠ crc32c payload then .error (.crcMismatch (crc32c payload) found) else .ok ()

def payloadLenAt (bytes : Bytes) : ℕ := decode ((bytes.drop 5).take 4)

def decodeRecord (bytes : Bytes) : Except JournalRecordError JournalRecord :=
  if bytes.length < frameHeaderLen then .error .unexpectedEof
  else if bytes.take 4 ≠ magic then .error .badMagic
  else if bytes.getD 4 0 ≠ version then .error (.badVersion (bytes.getD 4 0) version)
  else
    let payloadLen := payloadLenAt bytes
    if maxPayloadLen < payloadLen then .error .malformedPayload
    else
      let totalLen := frameHeaderLen + payloadLen + frameTrailerLen
      if bytes.length < totalLen then .error .unexpectedEof
      else if bytes.length ≠ totalLen then .error .malformedPayload
      else do
        let payload := (bytes.drop frameHeaderLen).take payloadLen
        let found := UInt32.ofNat (decode (bytes.drop (frameHeaderLen + payloadLen)))
        checkCrc payload found
        decodePayload payload

namespace Cursor

lemma reads_array32 (hash : Hash256) : Reads array32 hash.bytes hash := by
  intro rest
  have hlen := hash.length_bytes
  rw [array32, dif_pos (by rw [length_append]; omega)]
  simp [take_left' hlen, drop_left' hlen]

lemma reads_array80 (header : RawHeader) : Reads array80 header.bytes header := by
  intro rest
  have hlen := header.length_bytes
  rw [array80, dif_pos (by rw [length_append]; omega)]
  simp [take_left' hlen, drop_left' hlen]

lemma reads_byte (b : UInt8) : Reads byte [b] b := (reads_takeBytes _ [b]).bind_pure

lemma reads_u32 (n : UInt32) : Reads u32 (putU32 n) n := by
  have h := (reads_readNat JournalRecordError.unexpectedEof 4 n.toNat n.toNat_lt).bind_pure (f := UInt32.ofNat)
  rwa [UInt32.ofNat_toNat] at h

lemma reads_u64 (n : UInt64) : Reads u64 (putU64 n) n := by
  have h := (reads_readNat JournalRecordError.unexpectedEof 8 n.toNat n.toNat_lt).bind_pure (f := UInt64.ofNat)
  rwa [UInt64.ofNat_toNat] at h

lemma reads_i64 (n : Int64) : Reads i64 (putI64 n) n := (reads_u64 n.toUInt64).bind_pure

lemma reads_coinbaseFlag (value : Bool) : Reads coinbaseFlag (putBool value) value := by
  cases value with
  | false => exact (reads_byte 0).bind (Reads.pure false)
  | true => exact (reads_byte 1).bind (Reads.pure true)

lemma reads_txout (out : TxOut) (h : out.scriptPubkey.length < 2 ^ 64) : Reads txout out.consensusEncode out := by
  intro rest
  have hpos : (out.consensusEncode ++ rest).length - rest.length ≠ 0 := by
    simp only [TxOut.consensusEncode, length_append, length_encode]
    omega
  rw [txout, TxOut.reads_consensusDecode out h rest]
  simp only
  rw [if_neg hpos]

def CoinFits (c : Coin) : Prop := c.txout.scriptPubkey.length < 2 ^ 64

def MutationFits : Mutation → Prop
  | .create c => CoinFits c
  | .spend c => CoinFits c
  | .overwrite oldCoin newCoin => CoinFits oldCoin ∧ CoinFits newCoin

lemma reads_coin (c : Coin) (h : CoinFits c) : Reads coin (putCoin c) c :=
  (reads_array32 c.outpoint.txid).bind ((reads_u32 c.outpoint.vout).bind ((reads_txout c.txout h).bind
    ((reads_u32 c.height).bind (reads_coinbaseFlag c.coinbase).bind_pure)))

variable (m : Mutation)

lemma reads_mutation (h : MutationFits m) : Reads mutation (putMutation m) m := by
  cases m with
  | create c => exact (reads_byte 0).bind (reads_coin c h).bind_pure
  | spend c => exact (reads_byte 1).bind (reads_coin c h).bind_pure
  | overwrite oldCoin newCoin =>
    exact (reads_byte 2).bind ((reads_coin oldCoin h.1).bind (reads_coin newCoin h.2).bind_pure)

lemma length_putMutation_ge (c : Coin)
    (hc : m = .create c ∨ m = .spend c ∨ (∃ other, m = .overwrite c other) ∨ ∃ other, m = .overwrite other c) :
    c.txout.scriptPubkey.length ≤ (putMutation m).length := by
  have hcoin : c.txout.scriptPubkey.length ≤ (putCoin c).length := by
    simp only [putCoin, TxOut.consensusEncode, writeScript, length_append]
    omega
  rcases hc with rfl | rfl | ⟨other, rfl⟩ | ⟨other, rfl⟩ <;>
    simp only [putMutation, length_cons, length_append] <;> omega

end Cursor

structure JournalRecord.Fits (record : JournalRecord) : Prop where
  payload_le : (encodePayload record).length ≤ maxPayloadLen
  mutations_le : record.mutations.length ≤ maxMutations

section

variable {m : Mutation}

lemma length_mutation_le {record : JournalRecord} (hm : m ∈ record.mutations) :
    (putMutation m).length ≤ (encodePayload record).length := by
  have hflat : (putMutation m).length ≤ (record.mutations.flatMap putMutation).length := by
    exact (sublist_flatten_of_mem (mem_map_of_mem hm)).length_le
  simp only [encodePayload, length_append]
  omega

lemma JournalRecord.Fits.mutationFits {record : JournalRecord} (h : record.Fits)
    (hm : m ∈ record.mutations) : Cursor.MutationFits m := by
  have hlen := (length_mutation_le hm).trans h.payload_le
  have hfits (c : Coin) (hc : m = .create c ∨ m = .spend c ∨ (∃ other, m = .overwrite c other) ∨
      ∃ other, m = .overwrite other c) : Cursor.CoinFits c := by
    have hscript := (Cursor.length_putMutation_ge m c hc).trans hlen
    exact lt_of_le_of_lt hscript (by decide)
  cases m with
  | create c => exact hfits c (Or.inl rfl)
  | spend c => exact hfits c (Or.inr (Or.inl rfl))
  | overwrite oldCoin newCoin =>
    exact ⟨hfits oldCoin (Or.inr (Or.inr (Or.inl ⟨newCoin, rfl⟩))),
      hfits newCoin (Or.inr (Or.inr (Or.inr ⟨oldCoin, rfl⟩)))⟩

namespace Cursor

lemma reads_mutations (record : JournalRecord) (h : record.Fits) :
    Reads (mutations record.mutations.length) (record.mutations.flatMap putMutation) record.mutations := by
  rw [mutations, if_neg (Nat.not_lt.mpr h.mutations_le)]
  exact reads_readMany putMutation record.mutations (fun m hm => reads_mutation m (h.mutationFits hm))

lemma u32Len_of_lt {n : ℕ} (h : n < 2 ^ 32) : u32Len n = n := if_pos h

lemma reads_record (r : JournalRecord) (h : r.Fits) : Reads record (encodePayload r) r := by
  have hcount : r.mutations.length < 2 ^ 32 := lt_of_le_of_lt h.mutations_le (by decide)
  rw [encodePayload, u32Len_of_lt hcount]
  exact (reads_u32 r.height).bind ((reads_array32 r.blockHash).bind ((reads_array32 r.prevHash).bind
    ((reads_u64 r.blockTxCount).bind ((reads_i64 r.coinStatsHeightDelta).bind ((reads_array80 r.rawHeader).bind
      ((reads_readNat _ 4 _ (by simpa using hcount)).bind (reads_mutations r h).bind_pure))))))

end Cursor

lemma decodePayload_encodePayload (record : JournalRecord) (h : record.Fits) :
    decodePayload (encodePayload record) = .ok record := by
  have hread := Cursor.reads_record record h []
  rw [append_nil] at hread
  rw [decodePayload, hread]
  rfl

lemma length_frameHeader (n : ℕ) : (frameHeader n).length = frameHeaderLen := by
  simp [frameHeader, magic, frameHeaderLen]

variable (record : JournalRecord)

lemma length_encodeRecord :
    (encodeRecord record).length = frameHeaderLen + (encodePayload record).length + frameTrailerLen := by
  simp only [encodeRecord, length_append, length_frameHeader, putU32, length_encode, frameTrailerLen]
  omega

lemma payloadLenAt_encodeRecord (h : record.Fits) (rest : Bytes) :
    payloadLenAt (encodeRecord record ++ rest) = (encodePayload record).length := by
  have hlen : (encodePayload record).length < 2 ^ 32 := lt_of_le_of_lt h.payload_le (by decide)
  have hfield : ((encodeRecord record ++ rest).drop 5).take 4 = encode 4 (encodePayload record).length := by
    rw [encodeRecord, frameHeader, Cursor.u32Len_of_lt hlen]
    simp [magic, take_left']
  rw [payloadLenAt, hfield, decode_encode 4 _ (by simpa using hlen)]

lemma decodeRecord_encodeRecord (h : record.Fits) : decodeRecord (encodeRecord record) = .ok record := by
  have hpayloadLen : payloadLenAt (encodeRecord record) = (encodePayload record).length := by
    simpa using payloadLenAt_encodeRecord record h []
  have hheader := length_frameHeader (encodePayload record).length
  have hpayload : ((encodeRecord record).drop frameHeaderLen).take (encodePayload record).length =
      encodePayload record := by
    rw [encodeRecord, drop_left' hheader, take_left]
  have htrailer : (encodeRecord record).drop (frameHeaderLen + (encodePayload record).length) =
      putU32 (crc32c (encodePayload record)) := by
    rw [← drop_drop, encodeRecord, drop_left' hheader, drop_left]
  have hcrc : UInt32.ofNat (decode (putU32 (crc32c (encodePayload record)))) = crc32c (encodePayload record) := by
    rw [putU32, decode_encode 4 _ (crc32c _).toNat_lt, UInt32.ofNat_toNat]
  have hlen := length_encodeRecord record
  rw [decodeRecord, if_neg (by omega), if_neg (by simp [encodeRecord, frameHeader, magic]),
    if_neg (by simp [encodeRecord, frameHeader, magic])]
  simp only [hpayloadLen]
  rw [if_neg (Nat.not_lt.mpr h.payload_le), if_neg (by omega), if_neg (by omega), htrailer, hcrc, hpayload, checkCrc,
    if_neg (fun hne => hne rfl), ok_bind, decodePayload_encodePayload record h]

end

section

def coinWrites (coin : Coin) : List Bytes :=
  [coin.outpoint.txid.bytes, putU32 coin.outpoint.vout, coin.txout.consensusEncode, putU32 coin.height,
    putBool coin.coinbase]

def mutationWrites : Mutation → List Bytes
  | .create coin => [0] :: coinWrites coin
  | .spend coin => [1] :: coinWrites coin
  | .overwrite oldCoin newCoin => [2] :: (coinWrites oldCoin ++ coinWrites newCoin)

variable (record : JournalRecord)

def payloadWrites : List Bytes :=
  [putU32 record.height, record.blockHash.bytes, record.prevHash.bytes, putU64 record.blockTxCount,
    putI64 record.coinStatsHeightDelta, record.rawHeader.bytes,
    encode 4 (u32Len record.mutations.length)] ++ record.mutations.flatMap mutationWrites

def CountingWriter.write (len : ℕ) (bytes : Bytes) : Option ℕ :=
  if len + bytes.length < 2 ^ 64 then some (len + bytes.length) else none

def recordPayloadLen : Option ℕ := (payloadWrites record).foldlM CountingWriter.write 0

lemma flatten_mutationWrites (m : Mutation) : (mutationWrites m).flatten = putMutation m := by
  cases m <;> simp [mutationWrites, coinWrites, putMutation, putCoin]

lemma flatten_payloadWrites : (payloadWrites record).flatten = encodePayload record := by
  have hmutations : (record.mutations.flatMap mutationWrites).flatten = record.mutations.flatMap putMutation := by
    induction record.mutations with
    | nil => rfl
    | cons m rest ih =>
      rw [flatMap_cons, flatten_append, flatten_mutationWrites, ih, flatMap_cons]
  rw [payloadWrites, flatten_append, hmutations, encodePayload]
  simp

lemma foldlM_write (writes : List Bytes) {len : ℕ} (h : len < 2 ^ 64) :
    writes.foldlM CountingWriter.write len =
      if len + writes.flatten.length < 2 ^ 64 then some (len + writes.flatten.length) else none := by
  induction writes generalizing len with
  | nil => exact (if_pos h).symm
  | cons bytes rest ih =>
    rw [foldlM_cons, CountingWriter.write, flatten_cons, length_append, ← Nat.add_assoc]
    by_cases hfits : len + bytes.length < 2 ^ 64
    · rw [if_pos hfits, Option.bind_eq_bind, Option.bind_some, ih hfits]
    · rw [if_neg hfits, if_neg (by omega)]
      rfl

lemma recordPayloadLen_eq :
    recordPayloadLen record =
      if (encodePayload record).length < 2 ^ 64 then some (encodePayload record).length else none := by
  rw [recordPayloadLen, foldlM_write _ (by decide), flatten_payloadWrites, Nat.zero_add]

end

namespace Cursor

lemma accepts_array32 : Accepts array32 fun hash xs => xs = hash.bytes := by
  intro input hash rest h
  unfold array32 at h
  split_ifs at h
  cases h
  exact ⟨_, (take_append_drop 32 input).symm, rfl⟩

lemma accepts_array80 : Accepts array80 fun header xs => xs = header.bytes := by
  intro input header rest h
  unfold array80 at h
  split_ifs at h
  cases h
  exact ⟨_, (take_append_drop 80 input).symm, rfl⟩

lemma accepts_byte : Accepts byte fun b xs => xs = [b] := by
  apply (accepts_takeBytes _ 1).map
  rintro bytes _ ⟨rfl, hlen⟩
  obtain ⟨b, rfl⟩ := length_eq_one_iff.mp hlen
  rfl

lemma accepts_readNat (w : ℕ) :
    Accepts (readNat JournalRecordError.unexpectedEof w) fun n xs => n < 256 ^ w ∧ xs = encode w n := by
  apply (accepts_takeBytes _ w).map
  rintro _ bytes ⟨rfl, hlen⟩
  have hlt := decode_lt bytes
  have hencode := encode_decode bytes
  rw [hlen] at hlt hencode
  exact ⟨hlt, hencode.symm⟩

lemma accepts_u32 : Accepts u32 fun n xs => xs = putU32 n := by
  apply (accepts_readNat 4).map
  rintro n _ ⟨hn, rfl⟩
  rw [putU32, UInt32.toNat_ofNat_of_lt' hn]

lemma accepts_u64 : Accepts u64 fun n xs => xs = putU64 n := by
  apply (accepts_readNat 8).map
  rintro n _ ⟨hn, rfl⟩
  rw [putU64, UInt64.toNat_ofNat_of_lt' hn]

lemma accepts_i64 : Accepts i64 fun n xs => xs = putI64 n := by
  apply accepts_u64.map
  rintro n _ rfl
  rfl

lemma accepts_txout : Accepts txout fun out xs => xs = out.consensusEncode := by
  intro input out rest h
  unfold txout at h
  split at h
  · cases h
  · rename_i decoded mid hdecode
    split_ifs at h
    cases h
    exact TxOut.accepts_consensusDecode input out rest hdecode

lemma accepts_coinbaseFlag : Accepts coinbaseFlag fun value xs => xs = putBool value := by
  apply accepts_byte.bind
  rintro b _ rfl
  unfold flag
  split_ifs with hzero hone
  · exact Accepts.pure (by rw [hzero]; rfl)
  · exact Accepts.pure (by rw [hone]; rfl)
  · exact Accepts.fail _

lemma accepts_coin : Accepts coin fun c xs => xs = putCoin c := by
  apply accepts_array32.bind
  rintro txid _ rfl
  apply accepts_u32.bind
  rintro vout _ rfl
  apply accepts_txout.bind
  rintro out _ rfl
  apply accepts_u32.bind
  rintro height _ rfl
  apply accepts_coinbaseFlag.map
  rintro coinbase _ rfl
  rfl

lemma accepts_mutation : Accepts mutation fun m xs => xs = putMutation m := by
  apply accepts_byte.bind
  rintro tag _ rfl
  unfold mutationOf
  split_ifs with hcreate hspend hoverwrite
  · apply accepts_coin.map
    rintro c _ rfl
    rw [hcreate]
    rfl
  · apply accepts_coin.map
    rintro c _ rfl
    rw [hspend]
    rfl
  · apply accepts_coin.bind
    rintro oldCoin _ rfl
    apply accepts_coin.map
    rintro newCoin _ rfl
    rw [hoverwrite]
    rfl
  · exact Accepts.fail _

lemma accepts_mutations (count : ℕ) :
    Accepts (mutations count) fun ms xs => count ≤ maxMutations ∧ ms.length = count ∧ xs = ms.flatMap putMutation := by
  unfold mutations
  split_ifs with hmany
  · exact Accepts.fail _
  · apply (accepts_readMany accepts_mutation count).mono
    rintro ms _ ⟨hlen, rfl⟩
    exact ⟨Nat.not_lt.mp hmany, hlen, rfl⟩

lemma accepts_record : Accepts record fun r xs => r.mutations.length ≤ maxMutations ∧ xs = encodePayload r := by
  apply accepts_u32.bind
  rintro height _ rfl
  apply accepts_array32.bind
  rintro blockHash _ rfl
  apply accepts_array32.bind
  rintro prevHash _ rfl
  apply accepts_u64.bind
  rintro blockTxCount _ rfl
  apply accepts_i64.bind
  rintro delta _ rfl
  apply accepts_array80.bind
  rintro rawHeader _ rfl
  apply (accepts_readNat 4).bind
  rintro count _ ⟨-, rfl⟩
  apply (accepts_mutations count).map
  rintro ms _ ⟨hmany, rfl, rfl⟩
  rw [encodePayload, u32Len_of_lt (Nat.lt_of_le_of_lt hmany (by decide))]
  exact ⟨hmany, rfl⟩

end Cursor

variable {record : JournalRecord}

lemma decodePayload_sound {payload : Bytes} (h : decodePayload payload = .ok record) :
    record.mutations.length ≤ maxMutations ∧ payload = encodePayload record := by
  obtain ⟨⟨read, rest⟩, hread, hrest⟩ := Fallible.bind_eq_ok h
  dsimp only at hrest
  split_ifs at hrest with hempty
  cases hrest
  obtain ⟨bytes, rfl, hmany, rfl⟩ := Cursor.accepts_record payload record rest hread
  rw [length_eq_zero_iff.mp (not_not.mp hempty), append_nil]
  exact ⟨hmany, rfl⟩

lemma decodeRecord_sound {bytes : Bytes} (h : decodeRecord bytes = .ok record) :
    record.Fits ∧ bytes = encodeRecord record := by
  unfold decodeRecord at h
  split_ifs at h with hshort hmagic hversion
  dsimp only at h
  split_ifs at h with hlarge heof hexact
  obtain ⟨_, hcrc, hpayload⟩ := Fallible.bind_eq_ok h
  have hmagic := not_not.mp hmagic
  have hversion := not_not.mp hversion
  have hlen := not_not.mp hexact
  obtain ⟨hmany, hpayload⟩ := decodePayload_sound hpayload
  have hpayloadLen : (encodePayload record).length = payloadLenAt bytes := by
    rw [← hpayload, length_take, length_drop]
    omega
  have hfits : record.Fits := ⟨by rw [hpayloadLen]; exact Nat.not_lt.mp hlarge, hmany⟩
  refine ⟨hfits, ?_⟩
  unfold checkCrc at hcrc
  split_ifs at hcrc with hsame
  have hsame := not_not.mp hsame
  have htrailer : bytes.drop (frameHeaderLen + payloadLenAt bytes) = putU32 (crc32c (encodePayload record)) := by
    have hfour : (bytes.drop (frameHeaderLen + payloadLenAt bytes)).length = 4 := by
      rw [length_drop, hlen, frameTrailerLen]
      omega
    have hlt := decode_lt (bytes.drop (frameHeaderLen + payloadLenAt bytes))
    have hencode := encode_decode (bytes.drop (frameHeaderLen + payloadLenAt bytes))
    rw [hfour] at hlt hencode
    rw [← hpayload, ← hsame, putU32, UInt32.toNat_ofNat_of_lt' hlt, hencode]
  have hheader : bytes.take frameHeaderLen = frameHeader (encodePayload record).length := by
    have hfour : ((bytes.drop 5).take 4).length = 4 := by
      rw [length_take, length_drop]
      unfold frameHeaderLen at hshort
      omega
    have hencode := encode_decode ((bytes.drop 5).take 4)
    rw [hfour] at hencode
    have hlt : payloadLenAt bytes < 2 ^ 32 := Nat.lt_of_le_of_lt (Nat.not_lt.mp hlarge) (by decide)
    have hbyte : (bytes.drop 4).take 1 = [version] := by
      unfold frameHeaderLen at hshort
      have hfive : 4 < bytes.length := by omega
      rw [getD_eq_getElem?_getD, getElem?_eq_getElem hfive, Option.getD_some] at hversion
      rw [drop_eq_getElem_cons hfive, take_succ_cons, take_zero, hversion]
    rw [frameHeader, hpayloadLen, Cursor.u32Len_of_lt hlt, payloadLenAt, hencode, ← hmagic,
      show frameHeaderLen = 4 + (1 + 4) from rfl, take_add, take_add, hbyte, drop_drop]
    rfl
  rw [encodeRecord, ← hheader, ← htrailer, ← hpayload, ← drop_drop, take_append_drop, take_append_drop]

theorem journal_record_codec :
    (∀ record : JournalRecord, record.mutations.length ≤ maxMutations →
      (encodePayload record).length ≤ maxPayloadLen →
      decodeRecord (encodeRecord record) = .ok record ∧
        recordPayloadLen record = some (encodePayload record).length ∧
        (encodeRecord record).length = frameHeaderLen + (encodePayload record).length + frameTrailerLen) ∧
      ∀ bytes record, decodeRecord bytes = .ok record → bytes = encodeRecord record := by
  refine ⟨fun record hmutations hpayload => ?_, fun bytes record h => (decodeRecord_sound h).2⟩
  refine ⟨decodeRecord_encodeRecord record ⟨hpayload, hmutations⟩, ?_, length_encodeRecord record⟩
  rw [recordPayloadLen_eq, if_pos (Nat.lt_of_le_of_lt hpayload (by decide))]

def sampleRecord : JournalRecord where
  height := 42
  blockHash := .zero
  prevHash := .zero
  blockTxCount := 70000
  coinStatsHeightDelta := -1
  rawHeader := ⟨replicate 80 7, length_replicate⟩
  mutations :=
    let coin (vout : UInt32) (coinbase : Bool) : Coin :=
      { outpoint := ⟨.zero, vout⟩, txout := { value := 1000, scriptPubkey := [0x51, 0x52] }, height := 42, coinbase }
    [.create (coin 1 true), .spend (coin 2 false), .overwrite (coin 3 false) (coin 4 true)]

theorem journal_record_codec_sample :
    decodeRecord (encodeRecord sampleRecord) = .ok sampleRecord ∧ recordPayloadLen sampleRecord = some 379 ∧
      (∀ bytes, decodeRecord bytes = .ok sampleRecord → bytes = encodeRecord sampleRecord) := by
  have hlen : (encodePayload sampleRecord).length = 379 := by decide +kernel
  obtain ⟨hdecode, hcount, -⟩ := journal_record_codec.1 sampleRecord (by decide) (by rw [hlen]; decide)
  exact ⟨hdecode, by rw [hcount, hlen], fun bytes h => journal_record_codec.2 bytes sampleRecord h⟩

end BitcoinRs.Storage
