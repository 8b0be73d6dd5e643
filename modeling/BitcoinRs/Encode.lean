import BitcoinRs.Library.ByteReader
import BitcoinRs.Primitives
import Mathlib.Data.List.Induction

namespace BitcoinRs

open ByteReader List

inductive VarintError
  | truncated (before : UInt8) (needed available : ℕ)
  | nonCanonical (value : ℕ)
  deriving DecidableEq

inductive DecodeError
  | endOfData (needed available : ℕ)
  | varint (e : VarintError)
  | invalidSegwitFlag (got : UInt8)
  | superfluousWitness
  | trailingBytes (remaining : ℕ)
  deriving DecidableEq

variable (value : ℕ)

namespace Varint

def readArray (first : UInt8) (rest : Bytes) (available n : ℕ) : Except VarintError ℕ :=
  if rest.length < n then .error (.truncated first (n + 1) available)
  else .ok (LittleEndian.decode (rest.take n))

def canonical (value floor : ℕ) (consumed : ℕ) : Except VarintError (ℕ × ℕ) :=
  if value < floor then .error (.nonCanonical value) else .ok (value, consumed)

def decode (buf : Bytes) : Except VarintError (ℕ × ℕ) :=
  match buf with
  | [] => .error (.truncated 0 1 0)
  | first :: rest =>
    if first ≤ 0xfc then .ok (first.toNat, 1)
    else if first = 0xfd then do
      canonical (← readArray first rest buf.length 2) 0xfd 3
    else if first = 0xfe then do
      canonical (← readArray first rest buf.length 4) 0x10000 5
    else do
      canonical (← readArray first rest buf.length 8) 0x100000000 9

def encode (value : ℕ) : Bytes :=
  if value ≤ 0xfc then LittleEndian.encode 1 value
  else if value ≤ 0xffff then 0xfd :: LittleEndian.encode 2 value
  else if value ≤ 0xffffffff then 0xfe :: LittleEndian.encode 4 value
  else 0xff :: LittleEndian.encode 8 value

lemma readArray_encode (first : UInt8) (w n available : ℕ) (rest : Bytes) (hn : n < 256 ^ w) :
    readArray first (LittleEndian.encode w n ++ rest) available w = .ok n := by
  have hlen : (LittleEndian.encode w n).length = w := LittleEndian.length_encode w n
  rw [readArray, if_neg (by simp), take_left' hlen, LittleEndian.decode_encode w n hn]

lemma canonical_of_le {value floor consumed : ℕ} (h : floor ≤ value) :
    canonical value floor consumed = .ok (value, consumed) := if_neg (Nat.not_lt.mpr h)

lemma decode_encode (rest : Bytes) (h : value < 2 ^ 64) :
    decode (encode value ++ rest) = .ok (value, (encode value).length) := by
  rw [encode]
  split_ifs with h1 h2 h3
  · have hfirst : (UInt8.ofNat (value % 256)).toNat = value := by
      rw [UInt8.toNat_ofNat']
      omega
    have hle : UInt8.ofNat (value % 256) ≤ 0xfc := by
      rw [UInt8.le_iff_toNat_le, hfirst]
      exact h1
    simp [LittleEndian.encode, decode, hle, hfirst]
  · rw [cons_append, decode, readArray_encode _ _ _ _ _ (by omega)]
    exact (canonical_of_le (by omega)).trans (by simp)
  · rw [cons_append, decode, if_neg (by decide), if_neg (by decide), readArray_encode _ _ _ _ _ (by omega)]
    exact (canonical_of_le (by omega)).trans (by simp)
  · rw [cons_append, decode, readArray_encode _ _ _ _ _ (by omega)]
    exact (canonical_of_le (by omega)).trans (by simp)

def encodedLen (value : ℕ) : ℕ :=
  if value ≤ 0xfc then 1
  else if value ≤ 0xffff then 3
  else if value ≤ 0xffffffff then 5
  else 9

lemma length_encode : (encode value).length = encodedLen value := by
  unfold encode encodedLen
  split_ifs <;> simp

lemma encodedLen_pos : 0 < encodedLen value := by
  unfold encodedLen
  split_ifs <;> omega

lemma canonical_readArray {first : UInt8} {rest : Bytes} {available w floor value consumed n : ℕ}
    (h : (readArray first rest available w >>= fun v => canonical v floor n) = .ok (value, consumed)) :
    consumed = n ∧ w ≤ rest.length ∧ floor ≤ value ∧ value < 256 ^ w ∧ rest.take w = LittleEndian.encode w value := by
  unfold readArray at h
  split at h
  · cases h
  · have hcanonical : canonical (LittleEndian.decode (rest.take w)) floor n = .ok (value, consumed) := h
    unfold canonical at hcanonical
    split at hcanonical
    · cases hcanonical
    · obtain ⟨rfl, rfl⟩ := Prod.mk.inj (Except.ok.inj hcanonical)
      have htake : (rest.take w).length = w := by
        rw [length_take]
        omega
      have hlt := LittleEndian.decode_lt (rest.take w)
      have hencode := LittleEndian.encode_decode (rest.take w)
      rw [htake] at hlt hencode
      exact ⟨rfl, by omega, by omega, hlt, hencode.symm⟩

lemma decode_sound {buf : Bytes} {value consumed : ℕ} (h : decode buf = .ok (value, consumed)) :
    value < 2 ^ 64 ∧ consumed ≤ buf.length ∧ buf.take consumed = encode value := by
  cases buf with
  | nil => cases h
  | cons first rest =>
    unfold decode at h
    dsimp only at h
    split_ifs at h with h1 h2 h3
    · obtain ⟨rfl, rfl⟩ := Prod.mk.inj (Except.ok.inj h)
      have hlt := first.toNat_lt
      have hle : first.toNat ≤ 0xfc := UInt8.le_iff_toNat_le.mp h1
      refine ⟨by omega, by simp, ?_⟩
      rw [encode, if_pos hle]
      simp [LittleEndian.encode, Nat.mod_eq_of_lt hlt]
    · obtain ⟨rfl, hlen, hfloor, hlt, htake⟩ := canonical_readArray h
      refine ⟨by omega, by simp; omega, ?_⟩
      rw [encode, if_neg (by omega), if_pos (by omega), take_succ_cons, htake, h2]
    · obtain ⟨rfl, hlen, hfloor, hlt, htake⟩ := canonical_readArray h
      refine ⟨by omega, by simp; omega, ?_⟩
      rw [encode, if_neg (by omega), if_neg (by omega), if_pos (by omega), take_succ_cons, htake, h3]
    · obtain ⟨rfl, hlen, hfloor, hlt, htake⟩ := canonical_readArray h
      have hfirst : first = 0xff := by
        have hlt := first.toNat_lt
        have h1' : ¬first.toNat ≤ 0xfc := fun hle => h1 (UInt8.le_iff_toNat_le.mpr hle)
        have h2' : first.toNat ≠ 0xfd := fun heq => h2 (UInt8.toNat_inj.mp heq)
        have h3' : first.toNat ≠ 0xfe := fun heq => h3 (UInt8.toNat_inj.mp heq)
        apply UInt8.toNat_inj.mp
        show first.toNat = 0xff
        omega
      refine ⟨by omega, by simp; omega, ?_⟩
      rw [encode, if_neg (by omega), if_neg (by omega), if_neg (by omega), take_succ_cons, htake, hfirst]

end Varint

abbrev ConsensusReader (α : Type) := Reader DecodeError α

def readTake (needed : ℕ) : ConsensusReader Bytes := fun reader =>
  takeBytes (.endOfData needed reader.length) needed reader

def readCompact : ConsensusReader ℕ := fun reader =>
  match Varint.decode reader with
  | .ok (value, consumed) => .ok (value, reader.drop consumed)
  | .error e => .error (.varint e)

def readScript : ConsensusReader Script := do readTake (← readCompact)

def writeScript (script : Script) : Bytes := Varint.encode script.length ++ script

def TxOut.consensusEncode (txout : TxOut) : Bytes :=
  LittleEndian.encode 8 txout.value.toNat ++ writeScript txout.scriptPubkey

def TxOut.consensusDecode : ConsensusReader TxOut := do
  let value ← readTake 8
  let script ← readScript
  return { value := UInt64.ofNat (LittleEndian.decode value), scriptPubkey := script }

def saturatingAdd (a b : ℕ) : ℕ := min (a + b) (2 ^ 64 - 1)

def scriptSize (script : Bytes) : ℕ := saturatingAdd (Varint.encodedLen script.length) script.length

def TxOut.consensusSize (txout : TxOut) : ℕ := saturatingAdd 8 (scriptSize txout.scriptPubkey)

def OutPoint.consensusEncode (outpoint : OutPoint) : Bytes :=
  outpoint.txid.bytes ++ LittleEndian.encode 4 outpoint.vout.toNat

def TxIn.consensusEncode (input : TxIn) : Bytes :=
  input.previousOutput.consensusEncode ++ (writeScript input.scriptSig ++ LittleEndian.encode 4 input.sequence.toNat)

def TxIn.consensusSize (input : TxIn) : ℕ := saturatingAdd (saturatingAdd 36 (scriptSize input.scriptSig)) 4

def writeWitness (witness : List Bytes) : Bytes := Varint.encode witness.length ++ witness.flatMap writeScript

def witnessStackSize (witness : List Bytes) : ℕ :=
  saturatingAdd (Varint.encodedLen witness.length) ((witness.map scriptSize).foldl saturatingAdd 0)

def Tx.hasWitness (tx : Tx) : Bool := tx.inputs.any fun input => !input.witness.isEmpty

def encodeTxInputsAndOutputs (tx : Tx) : Bytes :=
  Varint.encode tx.inputs.length ++ (tx.inputs.flatMap TxIn.consensusEncode ++
    (Varint.encode tx.outputs.length ++ tx.outputs.flatMap TxOut.consensusEncode))

def encodeTxBase (tx : Tx) : Bytes :=
  LittleEndian.encode 4 tx.version.toNat ++ (encodeTxInputsAndOutputs tx ++ LittleEndian.encode 4 tx.lockTime.toNat)

def encodeTx (tx : Tx) : Bytes :=
  if !tx.hasWitness then encodeTxBase tx
  else
    LittleEndian.encode 4 tx.version.toNat ++ ([0x00, 0x01] ++ (encodeTxInputsAndOutputs tx ++
      ((tx.inputs.flatMap fun input => writeWitness input.witness) ++ LittleEndian.encode 4 tx.lockTime.toNat)))

def txBaseSize (tx : Tx) : ℕ :=
  saturatingAdd (saturatingAdd (saturatingAdd (saturatingAdd (saturatingAdd 4 (Varint.encodedLen tx.inputs.length))
    ((tx.inputs.map TxIn.consensusSize).foldl saturatingAdd 0)) (Varint.encodedLen tx.outputs.length))
    ((tx.outputs.map TxOut.consensusSize).foldl saturatingAdd 0)) 4

def txWitnessSize (tx : Tx) : ℕ :=
  if !tx.hasWitness then 0
  else saturatingAdd 2 ((tx.inputs.map fun input => witnessStackSize input.witness).foldl saturatingAdd 0)

def Tx.consensusSize (tx : Tx) : ℕ := saturatingAdd (txBaseSize tx) (txWitnessSize tx)

def Header.toBytes (header : Header) : Bytes :=
  LittleEndian.encode 4 header.version.toUInt32.toNat ++ (header.prevBlockhash.bytes ++ (header.merkleRoot.bytes ++
    (LittleEndian.encode 4 header.time.toNat ++ (LittleEndian.encode 4 header.bits.toNat ++
      LittleEndian.encode 4 header.nonce.toNat))))

def Header.len : ℕ := 80

def Block.consensusEncode (block : Block) : Bytes :=
  block.header.toBytes ++ (Varint.encode block.txs.length ++ block.txs.flatMap encodeTx)

def Block.consensusSize (block : Block) : ℕ :=
  saturatingAdd (saturatingAdd Header.len (Varint.encodedLen block.txs.length))
    ((block.txs.map Tx.consensusSize).foldl saturatingAdd 0)

def deserialize {α : Type} (decode : ConsensusReader α) (bytes : Bytes) : Except DecodeError α :=
  match decode bytes with
  | .error e => .error e
  | .ok (value, rest) => if rest.length ≠ 0 then .error (.trailingBytes rest.length) else .ok value

section

lemma saturatingAdd_min (a b : ℕ) :
    saturatingAdd (min a (2 ^ 64 - 1)) (min b (2 ^ 64 - 1)) = min (a + b) (2 ^ 64 - 1) := by
  unfold saturatingAdd
  omega

lemma foldl_saturatingAdd {α : Type} {size : α → ℕ} {encode : α → Bytes} (items : List α)
    (h : ∀ item ∈ items, size item = min (encode item).length (2 ^ 64 - 1)) :
    (items.map size).foldl saturatingAdd 0 = min (items.flatMap encode).length (2 ^ 64 - 1) := by
  induction items using reverseRecOn with
  | nil => rfl
  | append_singleton items item ih =>
    rw [map_append, foldl_append, ih fun other hother => h other (mem_append_left _ hother),
      map_singleton, foldl_cons, foldl_nil, h item (by simp), saturatingAdd_min, flatMap_append,
      length_append, flatMap_singleton]

lemma encodedLen_eq_min : Varint.encodedLen value = min (Varint.encode value).length (2 ^ 64 - 1) := by
  rw [Varint.length_encode]
  unfold Varint.encodedLen
  split_ifs <;> rfl

lemma scriptSize_eq (script : Bytes) : scriptSize script = min (writeScript script).length (2 ^ 64 - 1) := by
  unfold scriptSize writeScript saturatingAdd
  rw [length_append, Varint.length_encode]

lemma TxOut.consensusSize_eq (txout : TxOut) : txout.consensusSize = min txout.consensusEncode.length (2 ^ 64 - 1) := by
  unfold consensusSize consensusEncode
  rw [scriptSize_eq, length_append]
  exact saturatingAdd_min 8 _

lemma OutPoint.length_consensusEncode (outpoint : OutPoint) : outpoint.consensusEncode.length = 36 := by
  unfold consensusEncode
  rw [length_append, outpoint.txid.length_bytes, LittleEndian.length_encode]

lemma TxIn.consensusSize_eq (input : TxIn) : input.consensusSize = min input.consensusEncode.length (2 ^ 64 - 1) := by
  unfold consensusSize consensusEncode
  rw [scriptSize_eq, length_append, length_append, LittleEndian.length_encode, OutPoint.length_consensusEncode]
  unfold saturatingAdd
  omega

lemma witnessStackSize_eq (witness : List Bytes) :
    witnessStackSize witness = min (writeWitness witness).length (2 ^ 64 - 1) := by
  unfold witnessStackSize writeWitness
  rw [foldl_saturatingAdd witness fun item _ => scriptSize_eq item, encodedLen_eq_min, saturatingAdd_min, length_append]

lemma txBaseSize_eq (tx : Tx) : txBaseSize tx = min (encodeTxBase tx).length (2 ^ 64 - 1) := by
  unfold txBaseSize encodeTxBase encodeTxInputsAndOutputs
  rw [foldl_saturatingAdd tx.inputs fun input _ => input.consensusSize_eq,
    foldl_saturatingAdd tx.outputs fun output _ => output.consensusSize_eq, encodedLen_eq_min, encodedLen_eq_min]
  simp only [length_append, LittleEndian.length_encode]
  unfold saturatingAdd
  omega

lemma Tx.consensusSize_eq (tx : Tx) : tx.consensusSize = min (encodeTx tx).length (2 ^ 64 - 1) := by
  unfold consensusSize txWitnessSize encodeTx
  rw [txBaseSize_eq]
  split
  · unfold saturatingAdd
    omega
  · rw [foldl_saturatingAdd tx.inputs fun input _ => witnessStackSize_eq input.witness]
    unfold encodeTxBase
    simp only [length_append, length_cons, length_nil, LittleEndian.length_encode]
    unfold saturatingAdd
    omega

lemma Header.length_toBytes (header : Header) : header.toBytes.length = Header.len := by
  unfold toBytes
  simp only [length_append, LittleEndian.length_encode, header.prevBlockhash.length_bytes,
    header.merkleRoot.length_bytes]
  rfl

lemma Block.consensusSize_eq (block : Block) : block.consensusSize = min block.consensusEncode.length (2 ^ 64 - 1) := by
  unfold consensusSize consensusEncode
  rw [foldl_saturatingAdd block.txs fun tx _ => tx.consensusSize_eq, encodedLen_eq_min]
  simp only [length_append, block.header.length_toBytes]
  unfold saturatingAdd Header.len
  omega

end

lemma reads_readTake (bytes : Bytes) : Reads (readTake bytes.length) bytes bytes := fun rest =>
  reads_takeBytes _ bytes rest

lemma reads_readCompact (h : value < 2 ^ 64) : Reads readCompact (Varint.encode value) value := by
  intro rest
  rw [readCompact, Varint.decode_encode value rest h]
  simp

lemma reads_readScript (script : Script) (h : script.length < 2 ^ 64) : Reads readScript (writeScript script) script :=
  (reads_readCompact script.length h).bind (reads_readTake script)

lemma TxOut.reads_consensusDecode (txout : TxOut) (h : txout.scriptPubkey.length < 2 ^ 64) :
    Reads consensusDecode txout.consensusEncode txout := by
  have hvalue := reads_readTake (LittleEndian.encode 8 txout.value.toNat)
  refine hvalue.bind ?_
  rw [LittleEndian.decode_encode 8 _ txout.value.toNat_lt, UInt64.ofNat_toNat]
  exact (reads_readScript txout.scriptPubkey h).bind_pure

lemma accepts_readTake (n : ℕ) : Accepts (readTake n) fun bytes xs => xs = bytes ∧ bytes.length = n :=
  fun input => accepts_takeBytes (DecodeError.endOfData n input.length) n input

lemma accepts_readCompact : Accepts readCompact fun value xs => xs = Varint.encode value := by
  intro input value rest h
  unfold readCompact at h
  split at h
  · rename_i decoded consumed hdecode
    cases h
    obtain ⟨-, -, htake⟩ := Varint.decode_sound hdecode
    exact ⟨input.take consumed, (take_append_drop consumed input).symm, htake⟩
  · cases h

lemma accepts_readScript : Accepts readScript fun script xs => xs = writeScript script := by
  apply accepts_readCompact.bind
  rintro len _ rfl
  apply (accepts_readTake len).mono
  rintro script _ ⟨rfl, hlen⟩
  rw [writeScript, hlen]

lemma TxOut.accepts_consensusDecode : Accepts consensusDecode fun txout xs => xs = txout.consensusEncode := by
  apply (accepts_readTake 8).bind
  rintro _ amount ⟨rfl, hlen⟩
  apply accepts_readScript.map
  rintro script _ rfl
  have hlt := LittleEndian.decode_lt amount
  have hencode := LittleEndian.encode_decode amount
  rw [hlen] at hlt hencode
  unfold consensusEncode
  rw [UInt64.toNat_ofNat_of_lt' hlt, hencode]

abbrev Wtxid := Hash256

def saturatingMul (a b : ℕ) : ℕ := min (a * b) (2 ^ 64 - 1)

namespace Tx

section

variable (doubleSha256 : Bytes → Hash256)

def txid (tx : Tx) : Txid := doubleSha256 (encodeTxBase tx)

def wtxid (tx : Tx) : Wtxid := doubleSha256 (encodeTx tx)

end

def weight (tx : Tx) : ℕ := saturatingAdd (saturatingMul (txBaseSize tx) 3) tx.consensusSize

end Tx

end BitcoinRs
