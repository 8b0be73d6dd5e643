import BitcoinRs.Encode
import BitcoinRs.Utxo.ShardEvents
import Mathlib.Data.ZMod.Units

namespace BitcoinRs.Utxo

open Runs Fallible List
open LittleEndian (encode)
open Multiset (sum_add card_cons add_cons cons_add card_eq_zero card_add)

/-- The value of the 48 limbs. -/
abbrev Num3072 := ℕ

@[irreducible] def muhashModulus : ℕ := 2 ^ 3072 - 1103717

def Num3072.multiply (left right : Num3072) : Num3072 := left * right % muhashModulus

/-- The element that hashed data is expanded to, and the modular inverse of the integer library. -/
structure MuHashOps where
  element : Bytes → Num3072
  invMod : ℕ → ℕ → Option ℕ

structure MuHash3072 where
  numerator : Num3072
  denominator : Num3072

namespace MuHash3072

def new : MuHash3072 := ⟨1, 1⟩

variable (ops : MuHashOps) (muhash other : MuHash3072)

def insert (muhash : MuHash3072) (data : Bytes) : MuHash3072 :=
  { muhash with numerator := Num3072.multiply muhash.numerator (ops.element data) }

def remove (muhash : MuHash3072) (data : Bytes) : MuHash3072 :=
  { muhash with denominator := Num3072.multiply muhash.denominator (ops.element data) }

def combine : MuHash3072 where
  numerator := Num3072.multiply muhash.numerator other.numerator
  denominator := Num3072.multiply muhash.denominator other.denominator

def combineNumerator : MuHash3072 :=
  { muhash with numerator := Num3072.multiply muhash.numerator other.numerator }

def combineDenominator : MuHash3072 :=
  { muhash with denominator := Num3072.multiply muhash.denominator other.denominator }

def finalize (muhash : MuHash3072) : Bytes :=
  let quotient := match ops.invMod (muhash.denominator % muhashModulus) muhashModulus with
    | some inverse => muhash.numerator % muhashModulus * inverse % muhashModulus
    | none => 0
  (encode 384 quotient).reverse

end MuHash3072

def fixedBogoSize : ℕ := 36 + 4 + 8 + 2
def parallelCoinBatchOpThreshold : ℕ := 1024
def coinBatchChunkSize : ℕ := 512
def parallelEventChunkOpThreshold : ℕ := 64
def wideEventBatchShardThreshold : ℕ := 16
def narrowEventChunkSize : ℕ := 16
def wideEventChunkSize : ℕ := 4

/-- `u64::saturating_add`; `u64::saturating_sub` is subtraction on `ℕ`. -/
def saturatingAdd (a b : ℕ) : ℕ := min (a + b) (2 ^ 64 - 1)

def coinHashBytes (op : OutPoint) (txout : TxOut) (height : UInt32) (coinbase : Bool) : Bytes :=
  let coinbaseBit : UInt32 := if coinbase then 1 else 0
  op.consensusEncode ++ encode 4 ((height <<< 1) ||| coinbaseBit).toNat ++
    encode 8 txout.value.toNat ++ Varint.encode txout.scriptPubkey.length ++ txout.scriptPubkey

def bogoSize (txout : TxOut) : ℕ := saturatingAdd fixedBogoSize txout.scriptPubkey.length

structure CoinStats where
  muhash : MuHash3072
  height : UInt32
  totalAmount : ℕ
  bogoSize : ℕ
  txCount : ℕ
  utxoCount : ℕ

structure CoinStatsDelta where
  muhash : MuHash3072
  addedAmount : ℕ
  addedBogoSize : ℕ
  addedUtxos : ℕ
  removedAmount : ℕ
  removedBogoSize : ℕ
  removedUtxos : ℕ

namespace CoinStats

def new : CoinStats :=
  { muhash := .new, height := 0, totalAmount := 0, bogoSize := 0, txCount := 0, utxoCount := 0 }

def accountInsert (stats : CoinStats) (txout : TxOut) : CoinStats :=
  { stats with
    totalAmount := saturatingAdd stats.totalAmount txout.value.toNat,
    bogoSize := saturatingAdd stats.bogoSize (Utxo.bogoSize txout),
    utxoCount := saturatingAdd stats.utxoCount 1 }

def accountRemove (stats : CoinStats) (txout : TxOut) : CoinStats :=
  { stats with
    totalAmount := stats.totalAmount - txout.value.toNat,
    bogoSize := stats.bogoSize - Utxo.bogoSize txout,
    utxoCount := stats.utxoCount - 1 }

variable (ops : MuHashOps)

def insertUtxo (stats : CoinStats) (coin : UtxoInserted) : CoinStats :=
  accountInsert
    { stats with muhash := stats.muhash.insert ops (coinHashBytes coin.op coin.txout coin.height coin.coinbase) }
    coin.txout

def removeUtxo (stats : CoinStats) (coin : UtxoRemoved) : CoinStats :=
  accountRemove
    { stats with muhash := stats.muhash.remove ops (coinHashBytes coin.op coin.txout coin.height coin.coinbase) }
    coin.txout

def observeCoin (wantMuhash : Bool) (stats : CoinStats) (coin : UtxoCoin) : CoinStats :=
  let counted := accountInsert stats coin.txout
  if wantMuhash then
    { counted with
      muhash := stats.muhash.insert ops (coinHashBytes coin.outpoint coin.txout coin.height coin.coinbase) }
  else counted

end CoinStats

def scanCoinStats (ops : MuHashOps) (set : UtxoSet) (height : UInt32) (wantMuhash : Bool) : Run CoinStats := do
  return (← set.forEachCoin).foldl (CoinStats.observeCoin ops wantMuhash) { CoinStats.new with height }

namespace CoinStatsDelta

def new : CoinStatsDelta :=
  { muhash := .new, addedAmount := 0, addedBogoSize := 0, addedUtxos := 0, removedAmount := 0,
    removedBogoSize := 0, removedUtxos := 0 }

variable (ops : MuHashOps) (delta : CoinStatsDelta)

def insertUtxo (coin : UtxoInserted) : CoinStatsDelta :=
  { delta with
    muhash := delta.muhash.insert ops (coinHashBytes coin.op coin.txout coin.height coin.coinbase),
    addedAmount := saturatingAdd delta.addedAmount coin.txout.value.toNat,
    addedBogoSize := saturatingAdd delta.addedBogoSize (bogoSize coin.txout),
    addedUtxos := saturatingAdd delta.addedUtxos 1 }

def removeUtxo (coin : UtxoRemoved) : CoinStatsDelta :=
  { delta with
    muhash := delta.muhash.remove ops (coinHashBytes coin.op coin.txout coin.height coin.coinbase),
    removedAmount := saturatingAdd delta.removedAmount coin.txout.value.toNat,
    removedBogoSize := saturatingAdd delta.removedBogoSize (bogoSize coin.txout),
    removedUtxos := saturatingAdd delta.removedUtxos 1 }

def insertBatch (insertions : List UtxoInserted) : CoinStatsDelta := insertions.foldl (insertUtxo ops) delta

def removeBatch (removals : List UtxoRemoved) : CoinStatsDelta := removals.foldl (removeUtxo ops) delta

def onEvent : UtxoChangeEvent → CoinStatsDelta
  | .insertBatch insertions => insertBatch ops delta insertions
  | .removeBatch removals => removeBatch ops delta removals

def fromInsertions (insertions : List UtxoInserted) : CoinStatsDelta := insertBatch ops new insertions

def fromRemovals (removals : List UtxoRemoved) : CoinStatsDelta := removeBatch ops new removals

def fromEvents (events : UtxoChangeEvents) : CoinStatsDelta := events.foldl (onEvent ops) new

def fromEvent (event : UtxoChangeEvent) : CoinStatsDelta := onEvent ops new event

def combine (delta other : CoinStatsDelta) : CoinStatsDelta :=
  let muhash := if other.addedUtxos ≠ 0 then delta.muhash.combineNumerator other.muhash else delta.muhash
  let muhash := if other.removedUtxos ≠ 0 then muhash.combineDenominator other.muhash else muhash
  { muhash,
    addedAmount := saturatingAdd delta.addedAmount other.addedAmount,
    addedBogoSize := saturatingAdd delta.addedBogoSize other.addedBogoSize,
    addedUtxos := saturatingAdd delta.addedUtxos other.addedUtxos,
    removedAmount := saturatingAdd delta.removedAmount other.removedAmount,
    removedBogoSize := saturatingAdd delta.removedBogoSize other.removedBogoSize,
    removedUtxos := saturatingAdd delta.removedUtxos other.removedUtxos }

def applyTo (stats : CoinStats) : CoinStats :=
  let muhash := match decide (delta.addedUtxos ≠ 0), decide (delta.removedUtxos ≠ 0) with
    | true, true => stats.muhash.combine delta.muhash
    | true, false => stats.muhash.combineNumerator delta.muhash
    | false, true => stats.muhash.combineDenominator delta.muhash
    | false, false => stats.muhash
  { stats with
    muhash,
    totalAmount := saturatingAdd stats.totalAmount delta.addedAmount - delta.removedAmount,
    bogoSize := saturatingAdd stats.bogoSize delta.addedBogoSize - delta.removedBogoSize,
    utxoCount := saturatingAdd stats.utxoCount delta.addedUtxos - delta.removedUtxos }

/-- What a parallel `reduce` may return: the items keep their order, the grouping is free, and the identity
can stand anywhere. -/
inductive Reduction : List CoinStatsDelta → CoinStatsDelta → Prop
  | identity : Reduction [] new
  | item (delta : CoinStatsDelta) : Reduction [delta] delta
  | join {left right : List CoinStatsDelta} {a b : CoinStatsDelta} :
      Reduction left a → Reduction right b → Reduction (left ++ right) (a.combine b)

end CoinStatsDelta

structure Reducer where
  reduce : List CoinStatsDelta → CoinStatsDelta
  reduction : ∀ deltas, CoinStatsDelta.Reduction deltas (reduce deltas)

namespace UtxoChangeEvent

def size : UtxoChangeEvent → ℕ
  | insertBatch insertions => insertions.length
  | removeBatch removals => removals.length

def chunked (size : ℕ) : UtxoChangeEvent → List UtxoChangeEvent
  | insertBatch insertions => (chunks size insertions).map insertBatch
  | removeBatch removals => (chunks size removals).map removeBatch

end UtxoChangeEvent

namespace UtxoChangeEvents

variable (events : UtxoChangeEvents)

def operationCount : ℕ := (events.map UtxoChangeEvent.size).sum

def forEachChunk (chunkSize : ℕ) : List UtxoChangeEvent := events.flatMap (UtxoChangeEvent.chunked (max chunkSize 1))

end UtxoChangeEvents

namespace CoinStatsListener

variable (ops : MuHashOps) (reducer : Reducer)

def onInsertCoins (stats : CoinStats) (insertions : List UtxoInserted) : CoinStats :=
  if insertions.length < parallelCoinBatchOpThreshold then insertions.foldl (CoinStats.insertUtxo ops) stats
  else (reducer.reduce ((chunks coinBatchChunkSize insertions).map (CoinStatsDelta.fromInsertions ops))).applyTo stats

def onRemoveCoins (stats : CoinStats) (removals : List UtxoRemoved) : CoinStats :=
  if removals.length < parallelCoinBatchOpThreshold then removals.foldl (CoinStats.removeUtxo ops) stats
  else (reducer.reduce ((chunks coinBatchChunkSize removals).map (CoinStatsDelta.fromRemovals ops))).applyTo stats

def eventChunks (batches : List UtxoChangeEvents) : List UtxoChangeEvent :=
  let eventChunkSize :=
    if wideEventBatchShardThreshold ≤ batches.length then wideEventChunkSize else narrowEventChunkSize
  batches.flatMap (fun batch => batch.forEachChunk eventChunkSize)

def onCommittedEventBatches (stats : CoinStats) (batches : List UtxoChangeEvents) : CoinStats :=
  if batches.isEmpty then stats
  else
    let operationCount := (batches.map UtxoChangeEvents.operationCount).sum
    let delta :=
      if parallelEventChunkOpThreshold ≤ operationCount then
        reducer.reduce ((eventChunks batches).map (CoinStatsDelta.fromEvent ops))
      else (batches.map (CoinStatsDelta.fromEvents ops)).foldl CoinStatsDelta.combine .new
    delta.applyTo stats

def onCall (stats : CoinStats) : ListenerCall → CoinStats
  | .onInsertCoins insertions => onInsertCoins ops reducer stats insertions
  | .onRemoveCoins removals => onRemoveCoins ops reducer stats removals
  | .onCommittedEventBatches batches => onCommittedEventBatches ops reducer stats batches

def onCalls (ops : MuHashOps) : (ℕ → Reducer) → CoinStats → List ListenerCall → CoinStats
  | _, stats, [] => stats
  | reducers, stats, call :: rest =>
    onCalls ops (fun n => reducers (n + 1)) (onCall ops (reducers 0) stats call) rest

end CoinStatsListener

def saturated (n : ℕ) : ℕ := min n (2 ^ 64 - 1)

lemma saturatingAdd_saturated (a b : ℕ) : saturatingAdd (saturated a) (saturated b) = saturated (a + b) := by
  unfold saturatingAdd saturated
  omega

lemma saturated_of_lt {n : ℕ} (h : n < 2 ^ 64) : saturated n = n := by
  unfold saturated
  omega

lemma saturated_eq_zero {n : ℕ} : saturated n = 0 ↔ n = 0 := by
  unfold saturated
  omega

def amountOf (s : Multiset UtxoCoin) : ℕ := (s.map (fun coin => coin.txout.value.toNat)).sum

def bogoSizeOf (s : Multiset UtxoCoin) : ℕ := (s.map (fun coin => bogoSize coin.txout)).sum

variable (coin : UtxoCoin) (s : Multiset UtxoCoin)

@[simp] lemma amountOf_cons : amountOf (coin ::ₘ s) = coin.txout.value.toNat + amountOf s := by
  rw [amountOf, Multiset.map_cons, Multiset.sum_cons, amountOf]

@[simp] lemma bogoSizeOf_cons : bogoSizeOf (coin ::ₘ s) = bogoSize coin.txout + bogoSizeOf s := by
  rw [bogoSizeOf, Multiset.map_cons, Multiset.sum_cons, bogoSizeOf]

variable (t : Multiset UtxoCoin)

@[simp] lemma amountOf_add : amountOf (s + t) = amountOf s + amountOf t := by
  rw [amountOf, Multiset.map_add, sum_add, amountOf, amountOf]

@[simp] lemma bogoSizeOf_add : bogoSizeOf (s + t) = bogoSizeOf s + bogoSizeOf t := by
  rw [bogoSizeOf, Multiset.map_add, sum_add, bogoSizeOf, bogoSizeOf]

lemma card_le_bogoSizeOf : s.card ≤ bogoSizeOf s := by
  induction s using Multiset.induction_on with
  | empty => simp
  | cons coin s ih =>
    have hcoin : 1 ≤ bogoSize coin.txout := by
      unfold bogoSize saturatingAdd fixedBogoSize
      omega
    rw [card_cons, bogoSizeOf_cons]
    omega

structure Within (s : Multiset UtxoCoin) : Prop where
  amount_lt : amountOf s < 2 ^ 64
  bogoSize_lt : bogoSizeOf s < 2 ^ 64

lemma Within.card_lt {s : Multiset UtxoCoin} (h : Within s) : s.card < 2 ^ 64 :=
  (card_le_bogoSizeOf s).trans_lt h.bogoSize_lt

lemma Within.mono {s t : Multiset UtxoCoin} (h : Within t) (hst : s ≤ t) : Within s := by
  obtain ⟨u, rfl⟩ := Multiset.le_iff_exists_add.mp hst
  obtain ⟨hamount, hbogo⟩ := h
  rw [amountOf_add] at hamount
  rw [bogoSizeOf_add] at hbogo
  exact ⟨by omega, by omega⟩

section

variable (ops : MuHashOps)

def coinElement (coin : UtxoCoin) : Num3072 :=
  ops.element (coinHashBytes coin.outpoint coin.txout coin.height coin.coinbase)

def hashOf (s : Multiset UtxoCoin) : ZMod muhashModulus :=
  (s.map (fun coin => (coinElement ops coin : ZMod muhashModulus))).prod

@[simp] lemma hashOf_zero : hashOf ops 0 = 1 := rfl

@[simp] lemma hashOf_cons (coin : UtxoCoin) (s : Multiset UtxoCoin) :
    hashOf ops (coin ::ₘ s) = coinElement ops coin * hashOf ops s := by
  rw [hashOf, Multiset.map_cons, Multiset.prod_cons, hashOf]

@[simp] lemma hashOf_add (s t : Multiset UtxoCoin) : hashOf ops (s + t) = hashOf ops s * hashOf ops t := by
  rw [hashOf, Multiset.map_add, Multiset.prod_add, hashOf, hashOf]

/-- No coin hashes to an element without an inverse; for a prime modulus these are the multiples of it. -/
def UnitElements : Prop := ∀ coin, (coinElement ops coin).Coprime muhashModulus

def InvModOk : Prop :=
  ∀ d, d.Coprime muhashModulus → ∃ inverse, ops.invMod d muhashModulus = some inverse ∧
    d * inverse % muhashModulus = 1

variable {ops}

lemma isUnit_hashOf (h : UnitElements ops) (s : Multiset UtxoCoin) : IsUnit (hashOf ops s) := by
  induction s using Multiset.induction_on with
  | empty => exact isUnit_one
  | cons coin s ih =>
    rw [hashOf_cons]
    exact ((ZMod.isUnit_iff_coprime _ _).mpr (h coin)).mul ih

lemma cast_multiply (a b : Num3072) : (Num3072.multiply a b : ZMod muhashModulus) = (a : ZMod muhashModulus) * b := by
  rw [Num3072.multiply, ZMod.natCast_mod, Nat.cast_mul]

end

namespace CoinStatsDelta

variable (ops : MuHashOps)

structure Means (delta : CoinStatsDelta) (removed inserted : Multiset UtxoCoin) : Prop where
  numerator : (delta.muhash.numerator : ZMod muhashModulus) = hashOf ops inserted
  denominator : (delta.muhash.denominator : ZMod muhashModulus) = hashOf ops removed
  addedAmount : delta.addedAmount = saturated (amountOf inserted)
  addedBogoSize : delta.addedBogoSize = saturated (bogoSizeOf inserted)
  addedUtxos : delta.addedUtxos = saturated inserted.card
  removedAmount : delta.removedAmount = saturated (amountOf removed)
  removedBogoSize : delta.removedBogoSize = saturated (bogoSizeOf removed)
  removedUtxos : delta.removedUtxos = saturated removed.card

variable {ops} {delta other : CoinStatsDelta} {removed inserted removed' inserted' : Multiset UtxoCoin}

lemma combine_numerator : (delta.combine other).muhash.numerator =
    if other.addedUtxos = 0 then delta.muhash.numerator
    else Num3072.multiply delta.muhash.numerator other.muhash.numerator := by
  by_cases hadded : other.addedUtxos = 0 <;> by_cases hremoved : other.removedUtxos = 0 <;>
    simp [combine, hadded, hremoved, MuHash3072.combineNumerator, MuHash3072.combineDenominator]

lemma combine_denominator : (delta.combine other).muhash.denominator =
    if other.removedUtxos = 0 then delta.muhash.denominator
    else Num3072.multiply delta.muhash.denominator other.muhash.denominator := by
  by_cases hadded : other.addedUtxos = 0 <;> by_cases hremoved : other.removedUtxos = 0 <;>
    simp [combine, hadded, hremoved, MuHash3072.combineNumerator, MuHash3072.combineDenominator]

namespace Means

lemma new (ops : MuHashOps) : Means ops .new 0 0 := ⟨Nat.cast_one, Nat.cast_one, rfl, rfl, rfl, rfl, rfl, rfl⟩

lemma saturated_value (value : UInt64) : saturated value.toNat = value.toNat := saturated_of_lt value.toNat_lt

lemma saturated_bogoSize (txout : TxOut) : saturated (bogoSize txout) = bogoSize txout := by
  unfold bogoSize saturatingAdd saturated
  omega

section

variable (h : Means ops delta removed inserted)

include h

lemma insertUtxo (insertion : UtxoInserted) :
    Means ops (delta.insertUtxo ops insertion) removed (insertion.coin ::ₘ inserted) where
  numerator := by
    rw [hashOf_cons, mul_comm, ← h.numerator]
    exact cast_multiply _ _
  denominator := h.denominator
  addedAmount := by
    rw [amountOf_cons, add_comm, ← saturatingAdd_saturated, ← h.addedAmount, saturated_value]
    rfl
  addedBogoSize := by
    rw [bogoSizeOf_cons, add_comm, ← saturatingAdd_saturated, ← h.addedBogoSize, saturated_bogoSize]
    rfl
  addedUtxos := by
    rw [card_cons, ← saturatingAdd_saturated, ← h.addedUtxos]
    rfl
  removedAmount := h.removedAmount
  removedBogoSize := h.removedBogoSize
  removedUtxos := h.removedUtxos

lemma removeUtxo (removal : UtxoRemoved) :
    Means ops (delta.removeUtxo ops removal) (removal.coin ::ₘ removed) inserted where
  numerator := h.numerator
  denominator := by
    rw [hashOf_cons, mul_comm, ← h.denominator]
    exact cast_multiply _ _
  addedAmount := h.addedAmount
  addedBogoSize := h.addedBogoSize
  addedUtxos := h.addedUtxos
  removedAmount := by
    rw [amountOf_cons, add_comm, ← saturatingAdd_saturated, ← h.removedAmount, saturated_value]
    rfl
  removedBogoSize := by
    rw [bogoSizeOf_cons, add_comm, ← saturatingAdd_saturated, ← h.removedBogoSize, saturated_bogoSize]
    rfl
  removedUtxos := by
    rw [card_cons, ← saturatingAdd_saturated, ← h.removedUtxos]
    rfl

lemma insertBatch (insertions : List UtxoInserted) :
    Means ops (delta.insertBatch ops insertions) removed (inserted + insertedCoins insertions) := by
  induction insertions generalizing delta inserted with
  | nil => simpa [CoinStatsDelta.insertBatch, insertedCoins] using h
  | cons insertion rest ih =>
    rw [insertedCoins_cons, add_cons, ← cons_add]
    exact ih (h.insertUtxo insertion)

lemma removeBatch (removals : List UtxoRemoved) :
    Means ops (delta.removeBatch ops removals) (removed + removedCoins removals) inserted := by
  induction removals generalizing delta removed with
  | nil => simpa [CoinStatsDelta.removeBatch, removedCoins] using h
  | cons removal rest ih =>
    rw [removedCoins_cons, add_cons, ← cons_add]
    exact ih (h.removeUtxo removal)

lemma addedUtxos_eq_zero : delta.addedUtxos = 0 ↔ inserted = 0 := by
  rw [h.addedUtxos, saturated_eq_zero, card_eq_zero]

lemma removedUtxos_eq_zero : delta.removedUtxos = 0 ↔ removed = 0 := by
  rw [h.removedUtxos, saturated_eq_zero, card_eq_zero]

lemma combine (h' : Means ops other removed' inserted') :
    Means ops (delta.combine other) (removed + removed') (inserted + inserted') where
  numerator := by
    rw [combine_numerator, hashOf_add, ← h.numerator]
    split_ifs with hadded
    · rw [h'.addedUtxos_eq_zero.mp hadded, hashOf_zero, mul_one]
    · rw [← h'.numerator]
      exact cast_multiply _ _
  denominator := by
    rw [combine_denominator, hashOf_add, ← h.denominator]
    split_ifs with hremoved
    · rw [h'.removedUtxos_eq_zero.mp hremoved, hashOf_zero, mul_one]
    · rw [← h'.denominator]
      exact cast_multiply _ _
  addedAmount := by
    rw [amountOf_add, ← saturatingAdd_saturated, ← h.addedAmount, ← h'.addedAmount]
    rfl
  addedBogoSize := by
    rw [bogoSizeOf_add, ← saturatingAdd_saturated, ← h.addedBogoSize, ← h'.addedBogoSize]
    rfl
  addedUtxos := by
    rw [card_add, ← saturatingAdd_saturated, ← h.addedUtxos, ← h'.addedUtxos]
    rfl
  removedAmount := by
    rw [amountOf_add, ← saturatingAdd_saturated, ← h.removedAmount, ← h'.removedAmount]
    rfl
  removedBogoSize := by
    rw [bogoSizeOf_add, ← saturatingAdd_saturated, ← h.removedBogoSize, ← h'.removedBogoSize]
    rfl
  removedUtxos := by
    rw [card_add, ← saturatingAdd_saturated, ← h.removedUtxos, ← h'.removedUtxos]
    rfl

end

end Means

lemma Reduction.means {α : Type} {toDelta : α → CoinStatsDelta} {removed inserted : α → Multiset UtxoCoin}
    (hitem : ∀ a, Means ops (toDelta a) (removed a) (inserted a)) (items : List α) {delta : CoinStatsDelta}
    (h : Reduction (items.map toDelta) delta) :
    Means ops delta (items.map removed).sum (items.map inserted).sum := by
  generalize hdeltas : items.map toDelta = deltas at h
  induction h generalizing items with
  | identity =>
    obtain rfl := map_eq_nil_iff.mp hdeltas
    exact Means.new ops
  | item =>
    obtain ⟨a, rfl, rfl⟩ := map_eq_singleton_iff.mp hdeltas
    simpa using hitem a
  | join _ _ ihleft ihright =>
    obtain ⟨left, right, rfl, hleft, hright⟩ := map_eq_append_iff.mp hdeltas
    rw [map_append, sum_append, map_append, sum_append]
    exact (ihleft left hleft).combine (ihright right hright)

lemma Reduction.foldl (deltas : List CoinStatsDelta) : Reduction deltas (deltas.foldl combine new) := by
  induction deltas using reverseRecOn with
  | nil => exact .identity
  | append_singleton deltas delta ih =>
    rw [foldl_append]
    exact ih.join (.item delta)

end CoinStatsDelta

def Reducer.sequential : Reducer :=
  ⟨fun deltas => deltas.foldl CoinStatsDelta.combine .new, CoinStatsDelta.Reduction.foldl⟩

namespace UtxoChangeEvent

def removed : UtxoChangeEvent → Multiset UtxoCoin
  | insertBatch _ => 0
  | removeBatch removals => removedCoins removals

def inserted : UtxoChangeEvent → Multiset UtxoCoin
  | insertBatch insertions => insertedCoins insertions
  | removeBatch _ => 0

end UtxoChangeEvent

namespace UtxoChangeEvents

def removed (events : UtxoChangeEvents) : Multiset UtxoCoin := (events.map UtxoChangeEvent.removed).sum

def inserted (events : UtxoChangeEvents) : Multiset UtxoCoin := (events.map UtxoChangeEvent.inserted).sum

variable (first rest : UtxoChangeEvents)

lemma removed_append : removed (first ++ rest) = removed first + removed rest := by
  rw [removed, map_append, sum_append, removed, removed]

lemma inserted_append : inserted (first ++ rest) = inserted first + inserted rest := by
  rw [inserted, map_append, sum_append, inserted, inserted]

section

variable (events : UtxoChangeEvents)

lemma getLast?_cases (event : UtxoChangeEvent) (h : events.getLast? = some event) :
    events = events.dropLast ++ [event] := (dropLast_append_getLast? event h).symm

lemma pushInsertBatch_coins (insertions : List UtxoInserted) :
    removed (pushInsertBatch events insertions) = removed events ∧
      inserted (pushInsertBatch events insertions) = inserted events + insertedCoins insertions := by
  rw [pushInsertBatch]
  cases insertions with
  | nil => exact ⟨rfl, (add_zero _).symm⟩
  | cons first rest =>
    simp only [isEmpty_cons, Bool.false_eq_true, ↓reduceIte]
    split
    · rename_i existing hlast
      have hsplit := getLast?_cases events _ hlast
      constructor
      · nth_rewrite 2 [hsplit]
        rw [removed_append, removed_append]
        rfl
      · nth_rewrite 2 [hsplit]
        rw [inserted_append, inserted_append, add_assoc]
        simp [inserted, UtxoChangeEvent.inserted, insertedCoins_append]
    · rw [removed_append]
      exact ⟨add_zero _, by simp [inserted, UtxoChangeEvent.inserted]⟩

lemma pushRemoveBatch_coins (removals : List UtxoRemoved) :
    removed (pushRemoveBatch events removals) = removed events + removedCoins removals ∧
      inserted (pushRemoveBatch events removals) = inserted events := by
  rw [pushRemoveBatch]
  cases removals with
  | nil => exact ⟨(add_zero _).symm, rfl⟩
  | cons first rest =>
    simp only [isEmpty_cons, Bool.false_eq_true, ↓reduceIte]
    split
    · rename_i existing hlast
      have hsplit := getLast?_cases events _ hlast
      constructor
      · nth_rewrite 2 [hsplit]
        rw [removed_append, removed_append, add_assoc]
        simp [removed, UtxoChangeEvent.removed, removedCoins_append]
      · nth_rewrite 2 [hsplit]
        rw [inserted_append, inserted_append]
        rfl
    · rw [inserted_append]
      exact ⟨by simp [removed, UtxoChangeEvent.removed], add_zero _⟩

end

lemma follows (before : Multiset UtxoCoin) : Follows eventsSink (fun events s i =>
    removed events + s = inserted events + before ∧ inserted events = i) where
  spend := by
    rintro events removals s i ⟨hs, hi⟩
    obtain ⟨hremoved, hinserted⟩ := pushRemoveBatch_coins events removals
    change removed (pushRemoveBatch events removals) + s = inserted (pushRemoveBatch events removals) + before ∧
      inserted (pushRemoveBatch events removals) = i
    rw [hremoved, hinserted, add_assoc]
    exact ⟨hs, hi⟩
  overwrite := by
    rintro events removal s i ⟨hs, hi⟩
    change removed (events ++ [.removeBatch [removal]]) + s = inserted (events ++ [.removeBatch [removal]]) + before ∧
      inserted (events ++ [.removeBatch [removal]]) = i
    have hone : removed [.removeBatch [removal]] = {removal.coin} := rfl
    have hnone : inserted [.removeBatch [removal]] = 0 := rfl
    rw [removed_append, inserted_append, hnone, add_zero, add_assoc]
    exact ⟨hs, hi⟩
  inserts := by
    rintro events insertions s i ⟨hs, hi⟩
    obtain ⟨hremoved, hinserted⟩ := pushInsertBatch_coins events insertions
    change removed (pushInsertBatch events insertions) + _ = inserted (pushInsertBatch events insertions) + _ ∧
      inserted (pushInsertBatch events insertions) = _
    rw [hremoved, hinserted, hi, add_comm i]
    refine ⟨?_, rfl⟩
    rw [add_left_comm, hs, hi, add_assoc]

end UtxoChangeEvents

namespace CoinStatsDelta

lemma Means.onEvent {ops : MuHashOps} {delta : CoinStatsDelta} {removed inserted : Multiset UtxoCoin}
    (h : Means ops delta removed inserted) (event : UtxoChangeEvent) :
    Means ops (onEvent ops delta event) (removed + event.removed) (inserted + event.inserted) := by
  cases event with
  | insertBatch insertions =>
    rw [show (UtxoChangeEvent.insertBatch insertions).removed = 0 from rfl, add_zero]
    exact h.insertBatch insertions
  | removeBatch removals =>
    rw [show (UtxoChangeEvent.removeBatch removals).inserted = 0 from rfl, add_zero]
    exact h.removeBatch removals

variable (ops : MuHashOps)

lemma fromInsertions_means (insertions : List UtxoInserted) :
    Means ops (fromInsertions ops insertions) 0 (insertedCoins insertions) := by
  have h := (Means.new ops).insertBatch insertions
  rwa [zero_add] at h

lemma fromRemovals_means (removals : List UtxoRemoved) :
    Means ops (fromRemovals ops removals) (removedCoins removals) 0 := by
  have h := (Means.new ops).removeBatch removals
  rwa [zero_add] at h

lemma fromEvent_means (event : UtxoChangeEvent) : Means ops (fromEvent ops event) event.removed event.inserted := by
  have h := (Means.new ops).onEvent event
  rwa [zero_add, zero_add] at h

lemma fromEvents_means (events : UtxoChangeEvents) :
    Means ops (fromEvents ops events) events.removed events.inserted := by
  have hfold (delta : CoinStatsDelta) (removed inserted : Multiset UtxoCoin) (h : Means ops delta removed inserted) :
      Means ops (events.foldl (onEvent ops) delta) (removed + UtxoChangeEvents.removed events)
        (inserted + UtxoChangeEvents.inserted events) := by
    induction events generalizing delta removed inserted with
    | nil => simpa [UtxoChangeEvents.removed, UtxoChangeEvents.inserted] using h
    | cons event rest ih =>
      have hrest := ih _ _ _ (h.onEvent event)
      rwa [add_assoc, add_assoc] at hrest
  have h := hfold _ _ _ (Means.new ops)
  rwa [zero_add, zero_add] at h

end CoinStatsDelta

lemma UtxoChangeEvent.chunked_coins {size : ℕ} (hsize : 0 < size) (event : UtxoChangeEvent) :
    ((event.chunked size).map removed).sum = event.removed ∧
      ((event.chunked size).map inserted).sum = event.inserted := by
  cases event with
  | insertBatch insertions =>
    rw [chunked, map_map, map_map]
    refine ⟨by simp [Function.comp_def, removed], ?_⟩
    rw [show inserted ∘ insertBatch = insertedCoins from rfl, sum_insertedCoins, flatten_chunks hsize]
    rfl
  | removeBatch removals =>
    rw [chunked, map_map]
    refine ⟨?_, by simp [Function.comp_def, inserted]⟩
    rw [show removed ∘ removeBatch = removedCoins from rfl, sum_removedCoins, flatten_chunks hsize]
    rfl

lemma sum_map_flatMap {α β : Type} (f : β → Multiset UtxoCoin) (g : α → List β) (h : α → Multiset UtxoCoin)
    (hg : ∀ a, ((g a).map f).sum = h a) (items : List α) :
    ((items.flatMap g).map f).sum = (items.map h).sum := by
  induction items with
  | nil => rfl
  | cons item rest ih => rw [flatMap_cons, map_append, sum_append, hg, ih, map_cons, sum_cons]

lemma CoinStatsListener.eventChunks_coins (batches : List UtxoChangeEvents) :
    ((eventChunks batches).map UtxoChangeEvent.removed).sum = (batches.map UtxoChangeEvents.removed).sum ∧
      ((eventChunks batches).map UtxoChangeEvent.inserted).sum = (batches.map UtxoChangeEvents.inserted).sum := by
  have hpos (size : ℕ) : 0 < max size 1 := by omega
  constructor
  · refine sum_map_flatMap _ _ _ (fun batch => ?_) batches
    exact sum_map_flatMap _ _ _ (fun event => (event.chunked_coins (hpos _)).1) batch
  · refine sum_map_flatMap _ _ _ (fun batch => ?_) batches
    exact sum_map_flatMap _ _ _ (fun event => (event.chunked_coins (hpos _)).2) batch

end BitcoinRs.Utxo
