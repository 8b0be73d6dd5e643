import BitcoinRs.Utxo.Snapshot
import BitcoinRs.Chain.Deployment

namespace BitcoinRs.Utxo

open Snapshot
open LittleEndian (encode decode)

structure SerializedUtxoHasher where
  fed : Bytes

namespace SerializedUtxoHasher

def new : SerializedUtxoHasher := ⟨[]⟩

def code (output : OutputParts) : UInt32 := (output.height <<< 1) ||| (if output.coinbase then 1 else 0)

def entryBytes (txidLe : Bytes) (output : OutputParts) : Bytes :=
  txidLe ++ (encode 4 output.vout.toNat ++ (encode 4 (code output).toNat ++
    (encode 8 output.value.toNat ++ (Varint.encode output.script.length ++ output.script))))

def add (hasher : SerializedUtxoHasher) (txidLe : Bytes) (output : OutputParts) (snapshotHeight : Option UInt32) :
    Except SnapshotError SerializedUtxoHasher :=
  match snapshotHeight with
  | some height =>
    if height < output.height then .error (.coinHeightOutOfRange output.height height)
    else .ok ⟨hasher.fed ++ entryBytes txidLe output⟩
  | none => .ok ⟨hasher.fed ++ entryBytes txidLe output⟩

def finish (sha256 : Bytes → Bytes) (hasher : SerializedUtxoHasher) : Hash256 :=
  .fromLeBytes (sha256 (sha256 hasher.fed))

def addAll (hasher : SerializedUtxoHasher) (snapshotHeight : Option UInt32) :
    List (Bytes × OutputParts) → Except SnapshotError SerializedUtxoHasher
  | [] => .ok hasher
  | entry :: rest => do addAll (← hasher.add entry.1 entry.2 snapshotHeight) snapshotHeight rest

end SerializedUtxoHasher

def walkCancellationInterval : ℕ := 256

structure HashWalk where
  visited : ℕ
  polls : ℕ
  entries : List (Bytes × OutputParts)

section

variable (cancelled : ℕ → Bool)

def visitOutputs (txidLe : Bytes) : List OutputParts → HashWalk → Except SnapshotError HashWalk
  | [], walk => .ok walk
  | output :: rest, walk =>
    let visited := walk.visited + 1
    let entries := walk.entries ++ [(txidLe, output)]
    if visited % walkCancellationInterval = 0 then
      if cancelled walk.polls then .error .cancelled
      else visitOutputs txidLe rest { visited, polls := walk.polls + 1, entries }
    else visitOutputs txidLe rest { walk with visited, entries }

def visitTable : ShardTable → HashWalk → Except SnapshotError HashWalk
  | [], walk => .ok walk
  | record :: rest, walk => do
    visitTable rest (← visitOutputs cancelled record.txid (← liftRun record.outputs) walk)

variable (left right : Bytes × OutputParts)

def compareEntries : Ordering := (compare left.1 right.1).then (compare left.2.vout right.2.vout)

def EntryLe : Prop := (compareEntries left right).isLE = true

instance : DecidableRel EntryLe := fun _ _ => inferInstanceAs (Decidable (_ = true))

def hashShards (snapshotHeight : Option UInt32) (shards : UInt8 → ShardTable) :
    List UInt8 → ℕ → ℕ → SerializedUtxoHasher → Except SnapshotError SerializedUtxoHasher
  | [], _, _, engine => .ok engine
  | s :: rest, visited, polls, engine => do
    let walk ← visitTable cancelled (shards s) { visited, polls, entries := [] }
    let engine ← engine.addAll snapshotHeight (walk.entries.insertionSort EntryLe)
    hashShards snapshotHeight shards rest walk.visited walk.polls engine

end

variable (sha256 : Bytes → Bytes)

def hashSerialized3StableInner (set : UtxoSet) (snapshotHeight : Option UInt32)
    (cancelled : ℕ → Bool) : Except SnapshotError Hash256 := do
  let engine ← hashShards cancelled snapshotHeight set.shards shardIndexes 0 0 .new
  return engine.finish sha256

def hashSerialized3AtHeight (set : UtxoSet) (snapshotHeight : UInt32) : Except SnapshotError Hash256 :=
  hashSerialized3StableInner sha256 set (some snapshotHeight) (fun _ => false)

structure Secp where
  Point : Type
  fromSlice : Bytes → Option Point
  serializeUncompressed : Point → Bytes

section

/-- The digits in `buf`, the last one pushed in front; ten of them hold a `u64`. -/
def coreVarintLoop : ℕ → ℕ → Bytes → Bytes
  | 0, _, buf => buf
  | fuel + 1, value, buf =>
    let byte := UInt8.ofNat (value % 128 + if buf.isEmpty then 0 else 128)
    if value ≤ 0x7f then byte :: buf else coreVarintLoop fuel (value / 128 - 1) (byte :: buf)

def writeCoreVarint (value : ℕ) : Bytes := coreVarintLoop 10 value []

def encodeCoreVarintArray (value : ℕ) : Bytes := coreVarintLoop 10 value []

def cmpCoreVarintKey (left right : UInt32) : Ordering :=
  compare (encodeCoreVarintArray left.toNat) (encodeCoreVarintArray right.toNat)

section

variable (script : Script)

def isP2pkh : Bool :=
  script.length == 25 && script[0]? == some 0x76 && script[1]? == some 0xa9 && script[2]? == some 0x14 &&
    script[23]? == some 0x88 && script[24]? == some 0xac

def isP2sh : Bool :=
  script.length == 23 && script[0]? == some 0xa9 && script[1]? == some 0x14 && script[22]? == some 0x87

def isCompressedP2pk : Bool :=
  script.length == 35 && script[0]? == some 0x21 && (script[1]? == some 0x02 || script[1]? == some 0x03) &&
    script[34]? == some 0xac

end

def isUncompressedP2pk (secp : Secp) (script : Script) : Bool :=
  script.length == 67 && script[0]? == some 0x41 && script[1]? == some 0x04 && script[66]? == some 0xac &&
    (secp.fromSlice ((script.drop 1).take 65)).isSome

def compressScript (secp : Secp) (script : Script) : Option (ℕ × Bytes) :=
  if isP2pkh script then some (0, (script.drop 3).take 20)
  else if isP2sh script then some (1, (script.drop 2).take 20)
  else if isCompressedP2pk script then some ((script.getD 1 0).toNat, (script.drop 2).take 32)
  else if isUncompressedP2pk secp script then some (4 + (script.getD 65 0).toNat % 2, (script.drop 2).take 32)
  else none

end

namespace CoreSnapshot

def magic : Bytes := [0x75, 0x74, 0x78, 0x6f, 0xff]
def version : ℕ := 2
def headerBytes : ℕ := 51
def maxScriptBytes : ℕ := 10000
def maxCompactSize : ℕ := 0x02000000

inductive Resource
  | encodedBytes
  | coins
  | addressableCoins
  | coinsPerTxid
  | decodedScriptBytes
  deriving DecidableEq

inductive CoreError
  | truncated (offset : ℕ)
  | invalidMagic
  | unsupportedVersion (version : ℕ)
  | limitExceeded (resource : Resource) (actual limit : ℕ)
  | nonCanonicalCompactSize
  | compactSizeTooLarge (value : ℕ)
  | varIntOverflow
  | emptyGroup
  | coinCountMismatch (group remaining : ℕ)
  | declaredCoinCountMismatch (declared actual : ℕ)
  | interrupted
  | transactionOrder
  | duplicateOutpoint (vout : UInt32)
  | invalidOutpoint (vout : ℕ)
  | invalidHeight (height baseHeight : UInt32)
  | invalidAmount (compressed : ℕ)
  | invalidScriptLength (length : ℕ)
  | invalidPublicKey
  | trailingBytes
  | utxo (error : SnapshotError)
  deriving DecidableEq

def liftUtxo {α : Type} : Except SnapshotError α → Except CoreError α
  | .ok a => .ok a
  | .error error => .error (.utxo error)

def liftAmount : Except UtxoError ℕ → Except CoreError ℕ
  | .ok a => .ok a
  | .error error => .error (.utxo (.record (.error error)))

def checkedAddOr (a b : ℕ) : Except CoreError ℕ := if a + b < 2 ^ 64 then .ok (a + b) else .error .varIntOverflow

def networkMagic : Chain.Network → Bytes
  | .mainnet => [0xf9, 0xbe, 0xb4, 0xd9]
  | .testnet3 => [0x0b, 0x11, 0x09, 0x07]
  | .testnet4 => [0x1c, 0x16, 0x3f, 0x28]
  | .signet => [0x0a, 0x03, 0xcf, 0x40]
  | .regtest => [0xfa, 0xbf, 0xb5, 0xda]

section

structure CoreV2Base where
  network : Chain.Network
  baseHash : Hash256
  baseHeight : UInt32
  coinsCount : UInt64

structure CoreV2WriteReport where
  bytes : ℕ
  coins : ℕ
  txoutsetHash : Hash256
  deriving DecidableEq

structure CoreV2Encoder where
  written : Bytes
  coinsWritten : ℕ
  lastPolledCoins : ℕ
  totalBytes : ℕ
  commitment : SerializedUtxoHasher
  polls : ℕ

def writeV2Header (base : CoreV2Base) : Bytes :=
  magic ++ (encode 2 version ++ (networkMagic base.network ++ (base.baseHash.bytes ++
    encode 8 base.coinsCount.toNat)))

def entryCode (output : OutputParts) (baseHeight : UInt32) : Except CoreError ℕ := do
  if output.vout.toNat = 2 ^ 32 - 1 then .error (.invalidOutpoint output.vout.toNat)
  if baseHeight < output.height then .error (.invalidHeight output.height baseHeight)
  let rawCode := 2 * output.height.toNat + if output.coinbase then 1 else 0
  if rawCode < 2 ^ 32 then return rawCode else .error .varIntOverflow

def writeRawScriptEntry (script : Script) : Except CoreError (Bytes × ℕ) := do
  if maxScriptBytes < script.length then .error (.invalidScriptLength script.length)
  let scriptCode ← checkedAddOr script.length 6
  let code := writeCoreVarint scriptCode
  return (code ++ script, ← checkedAddOr code.length script.length)

def writeScriptEntry (secp : Secp) (script : Script) : Except CoreError (Bytes × ℕ) :=
  match compressScript secp script with
  | none => writeRawScriptEntry script
  | some (scriptCode, payload) => do
    let code := writeCoreVarint scriptCode
    return (code ++ payload, ← checkedAddOr code.length payload.length)

def writeOutputEntry (secp : Secp) (output : OutputParts) (baseHeight : UInt32) :
    Except CoreError (Bytes × ℕ) := do
  let code := writeCoreVarint (← entryCode output baseHeight)
  let vout := Varint.encode output.vout.toNat
  let written ← checkedAddOr 0 vout.length
  let written ← checkedAddOr written code.length
  let amount := writeCoreVarint (← liftAmount (compressAmount output.value.toNat))
  let written ← checkedAddOr written amount.length
  let (script, scriptWritten) ← writeScriptEntry secp output.script
  return (vout ++ (code ++ (amount ++ script)), ← checkedAddOr written scriptWritten)

variable (secp : Secp) (base : CoreV2Base) (shouldStop : ℕ → Bool)

section

variable (encoder : CoreV2Encoder)

def addBytes (extra : ℕ) : Except CoreError CoreV2Encoder := do
  return { encoder with totalBytes := ← checkedAddOr encoder.totalBytes extra }

def writeCounted (bytes : Bytes) : Except CoreError CoreV2Encoder :=
  addBytes { encoder with written := encoder.written ++ bytes } bytes.length

def countCoin : Except CoreError CoreV2Encoder := do
  let coinsWritten ← checkedAddOr encoder.coinsWritten 1
  if base.coinsCount.toNat < coinsWritten then
    .error (.declaredCoinCountMismatch base.coinsCount.toNat coinsWritten)
  if 5000 ≤ coinsWritten - encoder.lastPolledCoins then
    if shouldStop encoder.polls then .error .interrupted
    return { encoder with coinsWritten, lastPolledCoins := coinsWritten, polls := encoder.polls + 1 }
  return { encoder with coinsWritten }

end

def writeEntries : List OutputParts → CoreV2Encoder → Except CoreError CoreV2Encoder
  | [], encoder => .ok encoder
  | output :: rest, encoder => do
    let (entry, entryBytes) ← writeOutputEntry secp output base.baseHeight
    let encoder ← addBytes { encoder with written := encoder.written ++ entry } entryBytes
    writeEntries rest (← countCoin base shouldStop encoder)

variable (left right : OutputParts)

def VarintKeyLe : Prop := (cmpCoreVarintKey left.vout right.vout).isLE = true

instance : DecidableRel VarintKeyLe := fun _ _ => inferInstanceAs (Decidable (_ = true))

def VoutLe : Prop := left.vout ≤ right.vout

instance : DecidableRel VoutLe := fun left right => inferInstanceAs (Decidable (left.vout ≤ right.vout))

def TxidLe (left right : UtxoRecord) : Prop := (compare left.txid right.txid).isLE = true

instance : DecidableRel TxidLe := fun _ _ => inferInstanceAs (Decidable (_ = true))

variable (encoder : CoreV2Encoder)

def writeRecord (record : UtxoRecord) : Except CoreError CoreV2Encoder := do
  let outputs ← liftUtxo (liftRun record.outputs)
  if outputs.isEmpty then return encoder
  let encoder ← writeCounted encoder record.txid
  let encoder ← writeCounted encoder (Varint.encode outputs.length)
  let encoder ← writeEntries secp base shouldStop (outputs.insertionSort VarintKeyLe) encoder
  let commitment ← liftUtxo (encoder.commitment.addAll (some base.baseHeight)
    ((outputs.insertionSort VoutLe).map fun output => (record.txid, output)))
  return { encoder with commitment }

def writeTable (table : ShardTable) : Except CoreError CoreV2Encoder :=
  (table.insertionSort TxidLe).foldlM (writeRecord secp base shouldStop) encoder

def writeCoreV2 (sha256 : Bytes → Bytes) (set : UtxoSet) : Except CoreError (Bytes × CoreV2WriteReport) := do
  if shouldStop 0 then .error .interrupted
  let encoder : CoreV2Encoder :=
    { written := writeV2Header base, coinsWritten := 0, lastPolledCoins := 0, totalBytes := headerBytes,
      commitment := .new, polls := 1 }
  let encoder ← shardIndexes.foldlM (fun encoder s => writeTable secp base shouldStop encoder (set.shards s)) encoder
  if encoder.coinsWritten ≠ base.coinsCount.toNat then
    .error (.declaredCoinCountMismatch base.coinsCount.toNat encoder.coinsWritten)
  return (encoder.written, { bytes := encoder.totalBytes, coins := encoder.coinsWritten,
                             txoutsetHash := encoder.commitment.finish sha256 })

end

section

structure SnapshotMetadata where
  version : ℕ
  networkMagic : Bytes
  baseBlockHash : Hash256
  coinsCount : ℕ

structure SnapshotLimits where
  maxFileBytes : UInt64
  maxCoins : UInt64
  maxScriptBytes : UInt64
  maxCoinsPerTxid : UInt32

def SnapshotLimits.default : SnapshotLimits where
  maxFileBytes := 32 * 1024 * 1024 * 1024
  maxCoins := 250000000
  maxScriptBytes := 32 * 1024 * 1024 * 1024
  maxCoinsPerTxid := 1000000

structure Decoder where
  input : Bytes
  consumed : ℕ
  maxBytes : ℕ
  scriptBytes : ℕ

def Decoder.new (input : Bytes) (maxBytes : ℕ) : Decoder := { input, consumed := 0, maxBytes, scriptBytes := 0 }

abbrev Decode (α : Type) := StateT Decoder (Except CoreError) α

def stop {α : Type} (error : CoreError) : Decode α := fun _ => .error error

def checkLimit (resource : Resource) (actual limit : ℕ) : Except CoreError Unit :=
  if limit < actual then .error (.limitExceeded resource actual limit) else .ok ()

def readInto (n : ℕ) : Decode Bytes := fun decoder => do
  let wanted := decoder.consumed + n
  if 2 ^ 64 ≤ wanted then .error (.limitExceeded .encodedBytes (2 ^ 64 - 1) decoder.maxBytes)
  checkLimit .encodedBytes wanted decoder.maxBytes
  if decoder.input.length < n then .error (.truncated (decoder.consumed + decoder.input.length))
  return (decoder.input.take n, { decoder with input := decoder.input.drop n, consumed := wanted })

def readByte : Decode UInt8 := do return (← readInto 1).headD 0

def metadata : Decode SnapshotMetadata := do
  if (← readInto 5) ≠ magic then stop .invalidMagic
  let found := decode (← readInto 2)
  if found ≠ version then stop (.unsupportedVersion found)
  let networkMagic ← readInto 4
  let baseBlockHash := Hash256.fromLeBytes (← readInto 32)
  let coinsCount := decode (← readInto 8)
  return { version := found, networkMagic, baseBlockHash, coinsCount }

def compactSizeLen (first : UInt8) : ℕ :=
  if first = 0xfd then 3 else if first = 0xfe then 5 else if first = 0xff then 9 else 1

def compactSize : Decode ℕ := do
  let first ← readByte
  let rest ← readInto (compactSizeLen first - 1)
  match Varint.decode (first :: rest) with
  | .error _ => stop .nonCanonicalCompactSize
  | .ok (value, _) => if maxCompactSize < value then stop (.compactSizeTooLarge value) else pure value

def coreVarintLoopRead (maximum : ℕ) : ℕ → ℕ → Decode ℕ
  | 0, _ => stop .varIntOverflow
  | fuel + 1, value => do
    let byte ← readByte
    match (checkedMul value 128).bind (checkedAdd · (byte.toNat % 128)) with
    | none => stop .varIntOverflow
    | some value =>
      if byte.toNat < 128 then
        if value ≤ maximum then pure value else stop .varIntOverflow
      else
        match checkedAdd value 1 with
        | none => stop .varIntOverflow
        | some value => if maximum < value then stop .varIntOverflow else coreVarintLoopRead maximum fuel value

def coreVarint (maximum : ℕ) : Decode ℕ := coreVarintLoopRead maximum 10 0

def scriptLength (code : ℕ) : ℕ :=
  match code with
  | 0 => 25
  | 1 => 23
  | 2 | 3 => 35
  | 4 | 5 => 67
  | _ => code - 6

def chargeScript (length maxScriptBytes : ℕ) : Decode Unit := fun decoder => do
  let total := decoder.scriptBytes + length
  if 2 ^ 64 ≤ total then .error (.limitExceeded .decodedScriptBytes (2 ^ 64 - 1) maxScriptBytes)
  checkLimit .decodedScriptBytes total maxScriptBytes
  return ((), { decoder with scriptBytes := total })

variable (secp : Secp)

def scriptBody (code : ℕ) : Decode Script :=
  match code with
  | 0 => do return [0x76, 0xa9, 0x14] ++ ((← readInto 20) ++ [0x88, 0xac])
  | 1 => do return [0xa9, 0x14] ++ ((← readInto 20) ++ [0x87])
  | 2 | 3 => do return [0x21, UInt8.ofNat code] ++ ((← readInto 32) ++ [0xac])
  | 4 | 5 => do
    match secp.fromSlice (UInt8.ofNat (code - 2) :: (← readInto 32)) with
    | none => stop .invalidPublicKey
    | some pubkey => return [0x41] ++ (secp.serializeUncompressed pubkey ++ [0xac])
  | _ => readInto (scriptLength code)

def script (limit : ℕ) : Decode Script := do
  let code ← coreVarint (2 ^ 32 - 1)
  let length := scriptLength code
  if maxScriptBytes < length then stop (.invalidScriptLength length)
  chargeScript length limit
  scriptBody secp code

def decodeCoin (baseHeight : UInt32) (limits : SnapshotLimits) : Decode OutputParts := do
  let rawVout ← compactSize
  if 2 ^ 32 - 1 ≤ rawVout then stop (.invalidOutpoint rawVout)
  let code ← coreVarint (2 ^ 32 - 1)
  let height := UInt32.ofNat (code / 2)
  if baseHeight < height then stop (.invalidHeight height baseHeight)
  let compressed ← coreVarint (2 ^ 64 - 1)
  match decompressAmount compressed with
  | none => stop (.invalidAmount compressed)
  | some amount => do
    let script ← script secp limits.maxScriptBytes.toNat
    return { vout := UInt32.ofNat rawVout, value := UInt64.ofNat amount, script, coinbase := code % 2 != 0, height }

def decodeCoins (baseHeight : UInt32) (limits : SnapshotLimits) : ℕ → Decode (List OutputParts)
  | 0 => pure []
  | n + 1 => do
    let output ← decodeCoin secp baseHeight limits
    return output :: (← decodeCoins baseHeight limits n)

def repeatedVout : List OutputParts → Option UInt32
  | first :: second :: rest => if first.vout = second.vout then some first.vout else repeatedVout (second :: rest)
  | _ => none

structure Coins where
  records : List UtxoRecord
  commitment : SerializedUtxoHasher
  remaining : ℕ
  previousTxid : Option Bytes

def liftDecode {α : Type} (run : Except CoreError α) : Decode α := fun decoder =>
  match run with
  | .ok a => .ok (a, decoder)
  | .error error => .error error

section

variable (baseHeight : UInt32)

def sealGroup (txidBytes : Bytes) (outputs : List OutputParts)
    (commitment : SerializedUtxoHasher) : Except CoreError (UtxoRecord × SerializedUtxoHasher) := do
  let outputs := outputs.insertionSort VoutLe
  match repeatedVout outputs with
  | some vout => .error (.duplicateOutpoint vout)
  | none => do
    let record ← liftUtxo (liftRun (UtxoRecord.fromOwnedOutputs (.fromLeBytes txidBytes) outputs))
    let stored ← liftUtxo (liftRun record.outputs)
    let commitment ← liftUtxo (commitment.addAll (some baseHeight) (stored.map fun output => (txidBytes, output)))
    return (record, commitment)

variable (limits : SnapshotLimits)

def decodeGroup (coins : Coins) : Decode Coins := do
  let txidBytes ← readInto 32
  if coins.previousTxid.any (fun previous => compare previous txidBytes != .lt) then stop .transactionOrder
  let group ← compactSize
  if group = 0 then stop .emptyGroup
  if coins.remaining < group then stop (.coinCountMismatch group coins.remaining)
  liftDecode (checkLimit .coinsPerTxid group limits.maxCoinsPerTxid.toNat)
  let outputs ← decodeCoins secp baseHeight limits group
  let (record, commitment) ← liftDecode (sealGroup baseHeight txidBytes outputs coins.commitment)
  return { records := coins.records ++ [record], commitment, remaining := coins.remaining - group,
           previousTxid := some txidBytes }

/-- Every group takes at least one coin, so as many turns as there are coins are enough. -/
def decodeGroups : ℕ → Coins → Decode Coins
  | 0, coins => pure coins
  | fuel + 1, coins =>
    if coins.remaining = 0 then pure coins
    else do decodeGroups fuel (← decodeGroup secp baseHeight limits coins)

end

def coins (sha256 : Bytes → Bytes) (count : ℕ) (baseHeight : UInt32) (limits : SnapshotLimits) :
    Decode (List UtxoRecord × Hash256) := do
  liftDecode (checkLimit .coins count limits.maxCoins.toNat)
  liftDecode (checkLimit .addressableCoins count (2 ^ 64 - 1))
  let coins ← decodeGroups secp baseHeight limits count
    { records := [], commitment := .new, remaining := count, previousTxid := none }
  return (coins.records, coins.commitment.finish sha256)

def atEnd : Decode Unit := fun decoder =>
  if decoder.input.isEmpty then .ok ((), decoder) else .error .trailingBytes

def insertRecords (set : UtxoSet) : List UtxoRecord → Run UtxoSet
  | [] => .ok set
  | record :: rest => do insertRecords (← set.insertSnapshotRecord record) rest

end

end CoreSnapshot

end BitcoinRs.Utxo
