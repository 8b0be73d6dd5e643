import BitcoinRs.TxCodec
import BitcoinRs.Utxo.Contract

namespace BitcoinRs.Utxo

open ByteReader
open LittleEndian (encode length_encode)
open Hash256 (zero)
open UInt32 (ofNat toNat_ofNat_of_lt')

def undoFormatVersion : UInt8 := 1

inductive UndoCodecError
  | truncated (wanted available : ℕ)
  | unsupportedVersion (found expected : UInt8)
  | blockHashMismatch (found expected : Hash256)
  | malformedTxOut
  | trailingBytes (trailing : ℕ)
  | countTooLarge (count : UInt32) (available : ℕ)
  | blockCountLimit (count : UInt32) (limit : ℕ)
  | invalidCoinbase (found : UInt8)
  | duplicateOutpoint (txid : Hash256) (vout : UInt32)
  | blockMismatch (reason : String)

namespace UndoCodec

def usizeMax : ℕ := 2 ^ 64 - 1

/-- A length past `u32` is written as `u32::MAX`; builds with debug assertions stop there instead. -/
def u32Len (len : ℕ) : UInt32 := if len < 2 ^ 32 then ofNat len else 0xffffffff

def putU32 (value : UInt32) : Bytes := encode 4 value.toNat

def putOutpoint (outpoint : OutPoint) : Bytes := outpoint.txid.bytes ++ putU32 outpoint.vout

def putRestore (add : UtxoAdd) : Bytes :=
  putOutpoint add.outpoint ++ (add.txout.consensusEncode ++ ([if add.coinbase then 1 else 0] ++ putU32 add.height))

def encode (batch : UndoBatch) (blockHash : Hash256) : Bytes :=
  [undoFormatVersion] ++ (blockHash.bytes ++
    ((putU32 (u32Len batch.restores.length) ++ batch.restores.flatMap putRestore) ++
      (putU32 (u32Len batch.removes.length) ++ batch.removes.flatMap putOutpoint)))

abbrev Cursor (α : Type) := Reader UndoCodecError α

def take (wanted : ℕ) : Cursor Bytes := fun bytes => takeBytes (.truncated wanted bytes.length) wanted bytes

def takeByte : Cursor UInt8 := do return (← take 1).headD 0

def takeHash : Cursor Hash256 := do return .fromLeBytes (← take 32)

def takeU32 : Cursor UInt32 := do return readU32Le (← take 4)

def requireBytes (count : UInt32) (minEntryBytes : ℕ) : Cursor Unit := fun bytes =>
  match checkedMul count.toNat minEntryBytes with
  | some needed => if needed ≤ bytes.length then .ok ((), bytes) else .error (.countTooLarge count bytes.length)
  | none => .error (.countTooLarge count bytes.length)

def takeCount (minEntryBytes : ℕ) : Cursor UInt32 := do
  let count ← takeU32
  requireBytes count minEntryBytes
  return count

def takeOutpoint : Cursor OutPoint := do
  let txid ← takeHash
  let vout ← takeU32
  return ⟨txid, vout⟩

def takeTxout : Cursor TxOut := fun bytes =>
  match TxOut.consensusDecode bytes with
  | .ok decoded => .ok decoded
  | .error _ => .error .malformedTxOut

def takeCoinbase : Cursor Bool := do
  let flag ← takeByte
  if flag = 0 then return false
  else if flag = 1 then return true
  else fail (.invalidCoinbase flag)

def rejectDuplicate (seen : List OutPoint) (outpoint : OutPoint) : Cursor (List OutPoint) :=
  if outpoint ∈ seen then fail (.duplicateOutpoint outpoint.txid outpoint.vout) else return outpoint :: seen

structure Progress (α : Type) where
  entries : List α
  seen : List OutPoint

def restoreStep (progress : Progress UtxoAdd) : Cursor (Progress UtxoAdd) := do
  let outpoint ← takeOutpoint
  let seen ← rejectDuplicate progress.seen outpoint
  let txout ← takeTxout
  let coinbase ← takeCoinbase
  let height ← takeU32
  return ⟨progress.entries ++ [⟨outpoint, txout, coinbase, height⟩], seen⟩

def removeStep (progress : Progress OutPoint) : Cursor (Progress OutPoint) := do
  let outpoint ← takeOutpoint
  let seen ← rejectDuplicate progress.seen outpoint
  return ⟨progress.entries ++ [outpoint], seen⟩

def minRestoreBytes : ℕ := 36 + 9 + 1 + 4
def minRemoveBytes : ℕ := 36

def takeEntries {α : Type} (minEntryBytes limit : ℕ) (step : Progress α → Cursor (Progress α))
    (seen : List OutPoint) : Cursor (Progress α) := do
  let count ← takeCount minEntryBytes
  if limit < count.toNat then fail (.blockCountLimit count limit)
  else readFold step count.toNat ⟨[], seen⟩

def takeVersion : Cursor Unit := do
  let version ← takeByte
  if version ≠ undoFormatVersion then fail (.unsupportedVersion version undoFormatVersion) else return

variable (expectedHash : Hash256)

def takeBlockHash : Cursor Unit := do
  let found ← takeHash
  if found ≠ expectedHash then fail (.blockHashMismatch found expectedHash) else return

def takeBatch (maxRestores maxRemoves : ℕ) : Cursor UndoBatch := do
  takeVersion
  takeBlockHash expectedHash
  let restores ← takeEntries minRestoreBytes maxRestores restoreStep []
  let removes ← takeEntries minRemoveBytes maxRemoves removeStep restores.seen
  return { restores := restores.entries, removes := removes.entries }

def decodeBounded (bytes : Bytes) (expectedHash : Hash256) (maxRestores maxRemoves : ℕ) :
    Except UndoCodecError UndoBatch :=
  match takeBatch expectedHash maxRestores maxRemoves bytes with
  | .error e => .error e
  | .ok (batch, rest) => if rest.length ≠ 0 then .error (.trailingBytes rest.length) else .ok batch

def decode (bytes : Bytes) (expectedHash : Hash256) : Except UndoCodecError UndoBatch :=
  decodeBounded bytes expectedHash usizeMax usizeMax

open List Accepts

variable {α : Type} {outpointOf : α → OutPoint} {batch : UndoBatch}

section

lemma accepts_take (n : ℕ) : Accepts (take n) fun bytes xs => xs = bytes ∧ bytes.length = n :=
  fun input => accepts_takeBytes (UndoCodecError.truncated n input.length) n input

lemma accepts_takeByte : Accepts takeByte fun byte xs => xs = [byte] := by
  apply (accepts_take 1).map
  rintro bytes _ ⟨rfl, hlen⟩
  obtain ⟨byte, rfl⟩ := length_eq_one_iff.mp hlen
  rfl

lemma accepts_takeHash : Accepts takeHash fun hash xs => xs = hash.bytes := by
  apply (accepts_take 32).map
  rintro bytes _ ⟨rfl, hlen⟩
  rw [Hash256.bytes_fromLeBytes (Nat.le_of_eq hlen.symm), take_of_length_le (Nat.le_of_eq hlen)]

lemma accepts_takeU32 : Accepts takeU32 fun value xs => xs = putU32 value := by
  apply (accepts_take 4).map
  rintro bytes _ ⟨rfl, hlen⟩
  exact (encode_readU32Le hlen).symm

lemma accepts_takeOutpoint : Accepts takeOutpoint fun outpoint xs => xs = putOutpoint outpoint := by
  apply accepts_takeHash.bind
  rintro txid _ rfl
  apply accepts_takeU32.map
  rintro vout _ rfl
  rfl

lemma accepts_takeTxout : Accepts takeTxout fun txout xs => xs = txout.consensusEncode := by
  intro input txout rest h
  unfold takeTxout at h
  split at h
  · rename_i decoded hdecode
    cases h
    exact TxOut.accepts_consensusDecode input txout rest hdecode
  · cases h

lemma accepts_takeCoinbase : Accepts takeCoinbase fun coinbase xs => xs = [if coinbase then 1 else 0] := by
  apply accepts_takeByte.bind
  rintro flag _ rfl
  split_ifs with h0 h1
  · subst h0
    exact pure rfl
  · subst h1
    exact pure rfl
  · exact fail _

lemma accepts_rejectDuplicate (seen : List OutPoint) (outpoint : OutPoint) :
    Accepts (rejectDuplicate seen outpoint) fun seen' xs => seen' = outpoint :: seen ∧ xs = [] := by
  unfold rejectDuplicate
  split_ifs
  · exact fail _
  · exact pure ⟨rfl, rfl⟩

def push (outpointOf : α → OutPoint) (progress : Progress α) (entry : α) : Progress α :=
  ⟨progress.entries ++ [entry], outpointOf entry :: progress.seen⟩

lemma accepts_restoreStep (progress : Progress UtxoAdd) :
    Accepts (restoreStep progress) fun progress' xs =>
      ∃ add, progress' = push UtxoAdd.outpoint progress add ∧ xs = putRestore add := by
  apply accepts_takeOutpoint.bind
  rintro outpoint _ rfl
  apply (accepts_rejectDuplicate progress.seen outpoint).bind
  rintro _ _ ⟨rfl, rfl⟩
  apply accepts_takeTxout.bind
  rintro txout _ rfl
  apply accepts_takeCoinbase.bind
  rintro coinbase _ rfl
  apply accepts_takeU32.map
  rintro height _ rfl
  exact ⟨⟨outpoint, txout, coinbase, height⟩, rfl, rfl⟩

lemma accepts_removeStep (progress : Progress OutPoint) :
    Accepts (removeStep progress) fun progress' xs =>
      ∃ outpoint, progress' = push id progress outpoint ∧ xs = putOutpoint outpoint := by
  apply accepts_takeOutpoint.bind
  rintro outpoint _ rfl
  apply (accepts_rejectDuplicate progress.seen outpoint).map
  rintro _ _ ⟨rfl, rfl⟩
  exact ⟨outpoint, rfl, append_nil _⟩

lemma accepts_takeCount (minEntryBytes : ℕ) : Accepts (takeCount minEntryBytes) fun count xs => xs = putU32 count := by
  apply accepts_takeU32.bind
  rintro count _ rfl
  have hrequire : Accepts (requireBytes count minEntryBytes) fun _ xs => xs = [] := by
    intro input _ rest h
    unfold requireBytes at h
    split at h
    · split_ifs at h
      cases h
      exact ⟨[], rfl, rfl⟩
    · cases h
  apply hrequire.map
  rintro _ _ rfl
  exact append_nil _

lemma u32Len_toNat (count : UInt32) : u32Len count.toNat = count := by
  rw [u32Len, if_pos count.toNat_lt, UInt32.ofNat_toNat]

lemma foldl_push (outpointOf : α → OutPoint) (items : List α) (progress : Progress α) :
    items.foldl (push outpointOf) progress =
      ⟨progress.entries ++ items, (items.map outpointOf).reverse ++ progress.seen⟩ := by
  induction items generalizing progress with
  | nil => simp
  | cons item items ih => simp [ih, push]

lemma accepts_takeEntries {minEntryBytes limit : ℕ} {step : Progress α → Cursor (Progress α)} {put : α → Bytes}
    (hstep : ∀ progress, Accepts (step progress) fun progress' xs =>
      ∃ entry, progress' = push outpointOf progress entry ∧ xs = put entry)
    (seen : List OutPoint) :
    Accepts (takeEntries minEntryBytes limit step seen) fun progress xs =>
      progress.entries.length < 2 ^ 32 ∧
        xs = putU32 (u32Len progress.entries.length) ++ progress.entries.flatMap put := by
  apply (accepts_takeCount minEntryBytes).bind
  rintro count _ rfl
  split_ifs
  · exact fail _
  · apply (accepts_readFold hstep count.toNat ⟨[], seen⟩).mono
    rintro _ _ ⟨items, hlen, rfl, rfl⟩
    rw [foldl_push, nil_append, hlen, u32Len_toNat]
    exact ⟨count.toNat_lt, rfl⟩

lemma accepts_takeVersion : Accepts takeVersion fun _ xs => xs = [undoFormatVersion] := by
  apply accepts_takeByte.bind
  rintro version _ rfl
  split_ifs with h
  · exact fail _
  · rw [not_not.mp h]
    exact pure rfl

lemma accepts_takeBlockHash (expectedHash : Hash256) :
    Accepts (takeBlockHash expectedHash) fun _ xs => xs = expectedHash.bytes := by
  apply accepts_takeHash.bind
  rintro found _ rfl
  split_ifs with h
  · exact fail _
  · rw [not_not.mp h]
    exact pure (append_nil _)

lemma accepts_takeBatch (blockHash : Hash256) (maxRestores maxRemoves : ℕ) :
    Accepts (takeBatch blockHash maxRestores maxRemoves) fun batch xs =>
      batch.restores.length < 2 ^ 32 ∧ batch.removes.length < 2 ^ 32 ∧ xs = encode batch blockHash := by
  apply accepts_takeVersion.bind
  rintro _ _ rfl
  apply (accepts_takeBlockHash blockHash).bind
  rintro _ _ rfl
  apply (accepts_takeEntries accepts_restoreStep []).bind
  rintro restores _ ⟨hrestores, rfl⟩
  apply (accepts_takeEntries accepts_removeStep restores.seen).map
  rintro removes _ ⟨hremoves, rfl⟩
  exact ⟨hrestores, hremoves, rfl⟩

lemma decodeBounded_canonical {bytes : Bytes} {blockHash : Hash256} {maxRestores maxRemoves : ℕ}
    (h : decodeBounded bytes blockHash maxRestores maxRemoves = .ok batch) :
    batch.restores.length < 2 ^ 32 ∧ batch.removes.length < 2 ^ 32 ∧ bytes = encode batch blockHash := by
  unfold decodeBounded at h
  split at h
  · cases h
  · rename_i decoded rest hread
    split_ifs at h with hrest
    cases h
    obtain ⟨xs, rfl, hrestores, hremoves, rfl⟩ := accepts_takeBatch blockHash maxRestores maxRemoves _ _ _ hread
    rw [length_eq_zero_iff.mp (not_not.mp hrest), append_nil]
    exact ⟨hrestores, hremoves, rfl⟩

end

section

lemma reads_take {n : ℕ} {bytes : Bytes} (h : bytes.length = n) : Reads (take n) bytes bytes := by
  intro rest
  subst h
  exact reads_takeBytes _ bytes rest

lemma reads_takeByte (byte : UInt8) : Reads takeByte [byte] byte := by
  have htake : Reads (take 1) [byte] [byte] := reads_take rfl
  exact htake.bind_pure

lemma reads_takeHash (hash : Hash256) : Reads takeHash hash.bytes hash := by
  have hread := (reads_take hash.length_bytes).bind_pure (f := Hash256.fromLeBytes)
  have hhash := Hash256.fromLeBytes_bytes hash []
  rw [append_nil] at hhash
  rwa [hhash] at hread

lemma reads_takeU32 (value : UInt32) : Reads takeU32 (putU32 value) value := by
  have hread := (reads_take (length_encode 4 value.toNat)).bind_pure (f := readU32Le)
  rwa [readU32Le_encode_nil] at hread

lemma reads_takeOutpoint (outpoint : OutPoint) : Reads takeOutpoint (putOutpoint outpoint) outpoint :=
  (reads_takeHash outpoint.txid).bind ((reads_takeU32 outpoint.vout).bind_pure)

lemma reads_takeTxout (txout : TxOut) (h : txout.scriptPubkey.length < 2 ^ 64) :
    Reads takeTxout txout.consensusEncode txout := by
  intro rest
  unfold takeTxout
  rw [TxOut.reads_consensusDecode txout h rest]

lemma reads_takeCoinbase (coinbase : Bool) : Reads takeCoinbase [if coinbase then 1 else 0] coinbase := by
  cases coinbase
  · exact (reads_takeByte 0).bind (Reads.pure false)
  · exact (reads_takeByte 1).bind (Reads.pure true)

variable {seen : List OutPoint} {outpoint : OutPoint}

lemma reads_rejectDuplicate (h : outpoint ∉ seen) : Reads (rejectDuplicate seen outpoint) [] (outpoint :: seen) := by
  unfold rejectDuplicate
  rw [if_neg h]
  exact Reads.pure _

def Fresh (outpointOf : α → OutPoint) (progress : Progress α) (items : List α) : Prop :=
  (items.map outpointOf).Nodup ∧ ∀ item ∈ items, outpointOf item ∉ progress.seen

lemma Fresh.push {progress : Progress α} {entry : α} {rest : List α} (h : Fresh outpointOf progress (entry :: rest)) :
    outpointOf entry ∉ progress.seen ∧ Fresh outpointOf (push outpointOf progress entry) rest := by
  obtain ⟨hnodup, hseen⟩ := h
  rw [map_cons, nodup_cons] at hnodup
  refine ⟨hseen entry mem_cons_self, hnodup.2, ?_⟩
  intro item hitem hmem
  rcases mem_cons.mp hmem with heq | hmem
  · exact hnodup.1 (heq ▸ mem_map_of_mem hitem)
  · exact hseen item (mem_cons_of_mem _ hitem) hmem

lemma reads_restoreStep {progress : Progress UtxoAdd} {add : UtxoAdd} (hscript : add.txout.scriptPubkey.length < 2 ^ 64)
    (hnew : add.outpoint ∉ progress.seen) :
    Reads (restoreStep progress) (putRestore add) (push UtxoAdd.outpoint progress add) := by
  apply (reads_takeOutpoint add.outpoint).bind
  apply (reads_rejectDuplicate hnew).bind
  apply (reads_takeTxout add.txout hscript).bind
  apply (reads_takeCoinbase add.coinbase).bind
  exact (reads_takeU32 add.height).bind_pure

lemma reads_removeStep {progress : Progress OutPoint} (hnew : outpoint ∉ progress.seen) :
    Reads (removeStep progress) (putOutpoint outpoint) (push id progress outpoint) := by
  have hread : Reads (removeStep progress) (putOutpoint outpoint ++ []) (push id progress outpoint) := by
    apply (reads_takeOutpoint outpoint).bind
    exact (reads_rejectDuplicate hnew).bind_pure
  rwa [append_nil] at hread

lemma reads_takeCount {f : UInt32 → Cursor α} {a : α} {count : UInt32} {minEntryBytes : ℕ} {xs : Bytes}
    (hmin : minEntryBytes < 2 ^ 32) (hlen : count.toNat * minEntryBytes ≤ xs.length) (hf : Reads (f count) xs a) :
    Reads (takeCount minEntryBytes >>= f) (putU32 count ++ xs) a := by
  have hmul : checkedMul count.toNat minEntryBytes = some (count.toNat * minEntryBytes) := by
    refine if_pos ?_
    have hcount := count.toNat_lt
    calc count.toNat * minEntryBytes ≤ 2 ^ 32 * minEntryBytes := Nat.mul_le_mul_right _ hcount.le
      _ < 2 ^ 32 * 2 ^ 32 := Nat.mul_lt_mul_of_pos_left hmin (by decide)
  have hrequire (rest : Bytes) : requireBytes count minEntryBytes (xs ++ rest) = .ok ((), xs ++ rest) := by
    unfold requireBytes
    rw [hmul, length_append]
    exact if_pos (by omega)
  have htake (rest : Bytes) : takeCount minEntryBytes (putU32 count ++ (xs ++ rest)) = .ok (count, xs ++ rest) := by
    show (takeU32 (putU32 count ++ (xs ++ rest)) >>= fun r =>
      requireBytes r.1 minEntryBytes r.2 >>= fun q => Except.ok (r.1, q.2)) = _
    rw [reads_takeU32 count (xs ++ rest), Fallible.ok_bind, hrequire, Fallible.ok_bind]
  intro rest
  show (takeCount minEntryBytes ((putU32 count ++ xs) ++ rest) >>= fun r => f r.1 r.2) = _
  rw [append_assoc, htake]
  exact hf rest

lemma reads_takeEntries {minEntryBytes limit : ℕ} {step : Progress α → Cursor (Progress α)} {put : α → Bytes}
    {items : List α} (hmin : minEntryBytes < 2 ^ 32)
    (hput : ∀ item, minEntryBytes ≤ (put item).length)
    (hstep : ∀ progress, ∀ item ∈ items, outpointOf item ∉ progress.seen →
      Reads (step progress) (put item) (push outpointOf progress item))
    (hfresh : Fresh outpointOf ⟨[], seen⟩ items) (hcount : items.length < 2 ^ 32) (hlimit : items.length ≤ limit) :
    Reads (takeEntries minEntryBytes limit step seen) (putU32 (u32Len items.length) ++ items.flatMap put)
      ⟨items, (items.map outpointOf).reverse ++ seen⟩ := by
  have hlen : (u32Len items.length).toNat = items.length := by
    rw [u32Len, if_pos hcount, toNat_ofNat_of_lt' hcount]
  apply reads_takeCount hmin
  · rw [hlen, Nat.mul_comm]
    exact mul_le_length_flatMap items hput
  · rw [hlen, if_neg (Nat.not_lt.mpr hlimit)]
    have hfold := reads_readFold (fun progress rest => Fresh outpointOf progress rest ∧ ∀ item ∈ rest, item ∈ items)
      (fun progress item rest ⟨hnew, hmem⟩ =>
        ⟨hstep progress item (hmem item mem_cons_self) hnew.push.1, hnew.push.2,
          fun other hother => hmem other (mem_cons_of_mem _ hother)⟩)
      items ⟨[], seen⟩ ⟨hfresh, fun _ h => h⟩
    rwa [foldl_push] at hfold

lemma length_putOutpoint (outpoint : OutPoint) : (putOutpoint outpoint).length = 36 := by
  unfold putOutpoint putU32
  rw [length_append, outpoint.txid.length_bytes, length_encode]

lemma minRestoreBytes_le (add : UtxoAdd) : minRestoreBytes ≤ (putRestore add).length := by
  have htxout := minOutputLen_le add.txout
  unfold putRestore putU32 minRestoreBytes
  unfold minOutputLen at htxout
  simp only [length_append, length_putOutpoint, length_singleton, length_encode]
  omega

def outpoints (batch : UndoBatch) : List OutPoint := batch.restores.map UtxoAdd.outpoint ++ batch.removes

variable (hdistinct : (outpoints batch).Nodup)

include hdistinct

variable (hscripts : ∀ add ∈ batch.restores, add.txout.scriptPubkey.length < 2 ^ 64)

include hscripts

variable (hrestores : batch.restores.length < 2 ^ 32) (hremoves : batch.removes.length < 2 ^ 32)

include hrestores hremoves

variable (blockHash : Hash256)

lemma reads_takeBatch : Reads (takeBatch blockHash usizeMax usizeMax) (encode batch blockHash) batch := by
  obtain ⟨hnodup, hnodup', hdisjoint⟩ := nodup_append'.mp hdistinct
  have hversion : Reads takeVersion [undoFormatVersion] () := (reads_takeByte undoFormatVersion).bind (Reads.pure ())
  have hhash : Reads (takeBlockHash blockHash) blockHash.bytes () := by
    have hread : Reads (takeBlockHash blockHash) (blockHash.bytes ++ []) () := by
      apply (reads_takeHash blockHash).bind
      rw [if_neg (not_not.mpr rfl)]
      exact Reads.pure ()
    rwa [append_nil] at hread
  apply hversion.bind
  apply hhash.bind
  apply (reads_takeEntries (by decide) minRestoreBytes_le
    (fun progress add hadd hnew => reads_restoreStep (hscripts add hadd) hnew) ⟨hnodup, by simp⟩ hrestores
    (by unfold usizeMax; omega)).bind
  have hfresh : Fresh (id : OutPoint → OutPoint)
      ⟨[], (batch.restores.map UtxoAdd.outpoint).reverse ++ []⟩ batch.removes := by
    refine ⟨by rwa [map_id], fun outpoint hmem hseen => hdisjoint ?_ hmem⟩
    rwa [append_nil, mem_reverse] at hseen
  exact (reads_takeEntries (by decide) (fun outpoint => (length_putOutpoint outpoint).ge)
    (fun progress outpoint _ hnew => reads_removeStep hnew) hfresh hremoves (by unfold usizeMax; omega)).bind_pure

lemma decode_encode : decode (encode batch blockHash) blockHash = .ok batch := by
  have hread := reads_takeBatch hdistinct hscripts hrestores hremoves blockHash []
  rw [append_nil] at hread
  unfold decode decodeBounded
  rw [hread]
  rfl

end

/-- A batch comes back from its record exactly when both of its counts fit their four bytes, and no other bytes
decode to it. The scripts are as long as a machine can hold. -/
theorem undo_record_bijective (blockHash : Hash256) :
    (∀ batch : UndoBatch, (outpoints batch).Nodup →
      (∀ add ∈ batch.restores, add.txout.scriptPubkey.length < 2 ^ 64) →
        (decode (encode batch blockHash) blockHash = .ok batch ↔
          batch.restores.length < 2 ^ 32 ∧ batch.removes.length < 2 ^ 32)) ∧
      ∀ bytes batch, decode bytes blockHash = .ok batch → bytes = encode batch blockHash := by
  refine ⟨fun batch hdistinct hscripts => ⟨fun h => ?_, fun h => ?_⟩, fun bytes batch h => ?_⟩
  · obtain ⟨hrestores, hremoves, -⟩ := decodeBounded_canonical h
    exact ⟨hrestores, hremoves⟩
  · exact decode_encode hdistinct hscripts h.1 h.2 blockHash
  · exact (decodeBounded_canonical h).2.2

def sampleBatch : UndoBatch where
  restores := [⟨⟨.zero, 0⟩, ⟨50000, [0x51, 0x01]⟩, true, 11⟩, ⟨⟨.zero, 7⟩, ⟨1, [0x51]⟩, false, 12⟩]
  removes := [⟨.zero, 1⟩, ⟨.zero, 2⟩]

theorem undo_record_bijective_sample : decode (encode sampleBatch zero) zero = .ok sampleBatch :=
  ((undo_record_bijective zero).1 sampleBatch (by decide) (by decide)).mpr ⟨by decide, by decide⟩

def removalOf (n : ℕ) : UndoBatch where
  restores := []
  removes := (range n).map fun vout => ⟨.zero, ofNat vout⟩

lemma nodup_outpoints_removalOf {n : ℕ} (hn : n ≤ 2 ^ 32) : (outpoints (removalOf n)).Nodup := by
  refine .of_map OutPoint.vout ?_
  simpa [outpoints, removalOf, Function.comp_def] using nodup_vouts hn

lemma length_removes_removalOf (n : ℕ) : (removalOf n).removes.length = n := by
  rw [removalOf, length_map, length_range]

/-- One output more than a count can say. -/
theorem overfull_record_refused :
    (outpoints (removalOf (2 ^ 32))).Nodup ∧
      decode (encode (removalOf (2 ^ 32)) zero) zero ≠ .ok (removalOf (2 ^ 32)) := by
  refine ⟨nodup_outpoints_removalOf le_rfl, fun h => ?_⟩
  obtain ⟨-, hremoves, -⟩ := decodeBounded_canonical h
  rw [length_removes_removalOf] at hremoves
  exact Nat.lt_irrefl _ hremoves

end UndoCodec

end BitcoinRs.Utxo
