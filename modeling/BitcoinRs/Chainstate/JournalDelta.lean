import BitcoinRs.Storage.Record
import BitcoinRs.Utxo.Contract

namespace BitcoinRs.Chainstate

open KeyedList Storage Utxo Fallible List Coin
open LittleEndian (encode)

inductive JournalDeltaError
  | missingSpend (outpoint : OutPoint)
  | duplicateRestore (outpoint : OutPoint)
  | unmatchedRestore (outpoint : OutPoint)

def journalCoin (add : UtxoAdd) : Coin :=
  { outpoint := add.outpoint, txout := add.txout, height := add.height, coinbase := add.coinbase }

/-- The restores by outpoint; the source keeps them in a hash map. -/
def insertRestores (restores : List Coin) : List Coin → Except JournalDeltaError (List Coin)
  | [] => .ok restores
  | coin :: rest =>
    if (lookup Coin.outpoint restores coin.outpoint).isSome then .error (.duplicateRestore coin.outpoint)
    else insertRestores (coin :: restores) rest

def addMutation (add : UtxoAdd) : Option Coin → Mutation
  | some oldCoin => .overwrite oldCoin (journalCoin add)
  | none => .create (journalCoin add)

def addMutations (restores : List Coin) : List UtxoAdd → List Mutation × List Coin
  | [] => ([], restores)
  | add :: rest =>
    let mutation := addMutation add (lookup Coin.outpoint restores add.outpoint)
    let (mutations, restores) := addMutations (eraseKey Coin.outpoint restores add.outpoint) rest
    (mutation :: mutations, restores)

def spendMutations (restores : List Coin) :
    List OutPoint → Except JournalDeltaError (List Mutation × List Coin)
  | [] => .ok ([], restores)
  | outpoint :: rest =>
    match lookup Coin.outpoint restores outpoint with
    | none => .error (.missingSpend outpoint)
    | some coin => do
      let (mutations, restores) ← spendMutations (eraseKey Coin.outpoint restores outpoint) rest
      return (.spend coin :: mutations, restores)

def mutationsForBlock (changes : BlockChanges) (undoCoins : List Coin) :
    Except JournalDeltaError (List Mutation) := do
  let restores ← insertRestores [] undoCoins
  let (created, restores) := addMutations restores changes.adds
  let (spent, restores) ← spendMutations restores changes.removes
  match restores with
  | [] => return created ++ spent
  | coin :: _ => .error (.unmatchedRestore coin.outpoint)

def headerBytes (header : Header) : RawHeader where
  bytes := encode 4 header.version.toUInt32.toNat ++ header.prevBlockhash.bytes ++
    header.merkleRoot.bytes ++ encode 4 header.time.toNat ++ encode 4 header.bits.toNat ++
    encode 4 header.nonce.toNat
  length_bytes := by simp [header.prevBlockhash.length_bytes, header.merkleRoot.length_bytes]

def txCountDeltaFor (block : Block) : UInt64 :=
  if block.txs.length < 2 ^ 64 then UInt64.ofNat block.txs.length else UInt64.ofNat (2 ^ 64 - 1)

def buildJournalRecord (block : Block) (height : UInt32) (blockHash prevHash : Hash256) (undo : UndoBatch)
    (changes : BlockChanges) (coinStatsHeightDelta : Int64) : Option (Except JournalDeltaError JournalRecord) :=
  if height = 0 then none
  else some (do
    let mutations ← mutationsForBlock changes (undo.restores.map journalCoin)
    return { height, blockHash, prevHash, blockTxCount := txCountDeltaFor block, coinStatsHeightDelta,
             rawHeader := headerBytes block.header, mutations })

inductive RangeDefect
  | createOverwritesLiveCoin (height : UInt32)
  | missingCoin (mutation : String) (height : UInt32)
  | coinMismatch (mutation : String) (height : UInt32)
  | overwriteChangesOutpoint (height : UInt32)
  | commitFailed (height : UInt32) (fault : Fault)

/-- `JournalReplayError::CommittedRangeInvalid`, or a panic of the set. -/
inductive ReplayFault
  | committedRangeInvalid (defect : RangeDefect)
  | panic

variable (utxo : UtxoSet)

def liveEntry (outpoint : OutPoint) : Except ReplayFault (Option UtxoCoin) :=
  match utxo.getEntry outpoint with
  | .ok entry => .ok entry
  | .error _ => .error .panic

def requireLiveCoin (coin : Coin) (recordHeight : UInt32) (mutation : String) :
    Except ReplayFault Unit := do
  match ← liveEntry utxo coin.outpoint with
  | none => .error (.committedRangeInvalid (.missingCoin mutation recordHeight))
  | some live =>
    if live.height ≠ coin.height ∨ live.coinbase ≠ coin.coinbase ∨ live.txout ≠ coin.txout then
      .error (.committedRangeInvalid (.coinMismatch mutation recordHeight))
    else .ok ()

def replayAdd (coin : Coin) : UtxoAdd :=
  { outpoint := coin.outpoint, txout := coin.txout, coinbase := coin.coinbase, height := coin.height }

def stageMutation (height : UInt32) (changes : BlockChanges) :
    Mutation → Except ReplayFault BlockChanges
  | .create coin => do
    if (← liveEntry utxo coin.outpoint).isSome then
      .error (.committedRangeInvalid (.createOverwritesLiveCoin height))
    else return { changes with adds := changes.adds ++ [replayAdd coin] }
  | .spend coin => do
    requireLiveCoin utxo coin height "spend"
    return { changes with removes := changes.removes ++ [coin.outpoint] }
  | .overwrite oldCoin newCoin => do
    requireLiveCoin utxo oldCoin height "overwrite"
    if oldCoin.outpoint ≠ newCoin.outpoint then
      .error (.committedRangeInvalid (.overwriteChangesOutpoint height))
    else return { changes with adds := changes.adds ++ [replayAdd newCoin] }

def stageMutations (record : JournalRecord) : Except ReplayFault BlockChanges :=
  record.mutations.foldlM (stageMutation utxo record.height) ⟨[], []⟩

def applyRecordMutations (schedule : Schedule) (utxo : UtxoSet) (record : JournalRecord) :
    UtxoSet × Except ReplayFault Unit :=
  match stageMutations utxo record with
  | .error fault => (utxo, .error fault)
  | .ok changes =>
    match utxo.commitBlock schedule changes with
    | (utxo, .ok ()) => (utxo, .ok ())
    | (utxo, .error .panic) => (utxo, .error .panic)
    | (utxo, .error fault) => (utxo, .error (.committedRangeInvalid (.commitFailed record.height fault)))

variable {S : OutPoint → Option UtxoCoin} {restores : List Coin} {changes : BlockChanges}

lemma insertRestores_eq (restores coins : List Coin) (h : Distinct Coin.outpoint (coins.reverse ++ restores)) :
    insertRestores restores coins = .ok (coins.reverse ++ restores) := by
  induction coins generalizing restores with
  | nil => rfl
  | cons coin rest ih =>
    rw [reverse_cons, append_assoc] at h ⊢
    have htail : Distinct outpoint (coin :: restores) := by
      rw [Distinct, map_append] at h
      exact (nodup_append.mp h).2.1
    rw [insertRestores, htail.lookup_head]
    exact ih (coin :: restores) h

lemma addMutations_eq (adds : List UtxoAdd) (h : Distinct UtxoAdd.outpoint adds) :
    addMutations restores adds =
      (adds.map (fun add => addMutation add (lookup Coin.outpoint restores add.outpoint)),
        restores.filter (fun coin => coin.outpoint ∉ adds.map UtxoAdd.outpoint)) := by
  induction adds generalizing restores with
  | nil => simp [addMutations]
  | cons add rest ih =>
    have hne (other : UtxoAdd) (ho : other ∈ rest) : other.outpoint ≠ add.outpoint := fun he =>
      lookup_eq_none.mp h.lookup_head other ho he
    rw [addMutations, ih h.tail]
    refine Prod.ext (congrArg (_ :: ·) (map_congr_left (fun other ho => ?_))) ?_
    · rw [lookup_eraseKey_of_ne (hne other ho)]
    · rw [eraseKey, filter_filter]
      refine filter_congr (fun coin _ => ?_)
      by_cases hc : coin.outpoint = add.outpoint <;> simp [hc]

lemma spendMutations_eq (restores : List Coin) (removes : List OutPoint) (h : removes.Nodup)
    (hfound : ∀ op ∈ removes, lookup Coin.outpoint restores op ≠ none) :
    spendMutations restores removes =
      .ok (removes.filterMap (fun op => (lookup Coin.outpoint restores op).map Mutation.spend),
        restores.filter (fun coin => coin.outpoint ∉ removes)) := by
  induction removes generalizing restores with
  | nil => simp [spendMutations]
  | cons op rest ih =>
    obtain ⟨hop, hrest⟩ := nodup_cons.mp h
    have hne (other : OutPoint) (ho : other ∈ rest) : other ≠ op := fun he => hop (he ▸ ho)
    have hlater (other : OutPoint) (ho : other ∈ rest) :
        lookup outpoint (eraseKey outpoint restores op) other = lookup outpoint restores other :=
      lookup_eraseKey_of_ne (hne other ho)
    obtain ⟨coin, hcoin⟩ := Option.ne_none_iff_exists'.mp (hfound op mem_cons_self)
    rw [spendMutations, hcoin]
    simp only
    rw [ih _ hrest (fun other ho => by rw [hlater other ho]; exact hfound other (mem_cons_of_mem _ ho)), ok_bind]
    simp only [pure_eq_ok, filterMap_cons, hcoin, Option.map_some, Except.ok.injEq, Prod.mk.injEq, cons.injEq, true_and]
    constructor
    · exact filterMap_congr (fun other ho => by rw [hlater other ho])
    · rw [eraseKey, filter_filter]
      refine filter_congr (fun coin _ => ?_)
      by_cases hc : coin.outpoint = op <;> simp [hc]

def LiveCoin (S : OutPoint → Option UtxoCoin) (coin : Coin) : Prop :=
  ∃ live, S coin.outpoint = some live ∧ live.height = coin.height ∧ live.coinbase = coin.coinbase ∧
    live.txout = coin.txout

section

variable {utxo} (hS : ∀ op, utxo.getEntry op = .ok (S op))

include hS

lemma liveEntry_eq (op : OutPoint) : liveEntry utxo op = .ok (S op) := by
  rw [liveEntry, hS]

lemma requireLiveCoin_of_live {coin : Coin} (h : LiveCoin S coin) (height : UInt32) (mutation : String) :
    requireLiveCoin utxo coin height mutation = .ok () := by
  obtain ⟨live, hlive, hheight, hcoinbase, htxout⟩ := h
  rw [requireLiveCoin, liveEntry_eq hS, hlive, ok_bind]
  simp only
  rw [if_neg (by simp [hheight, hcoinbase, htxout])]

variable (hr : ∀ coin ∈ restores, LiveCoin S coin)

include hr

lemma stageMutations_adds (height : UInt32) (adds : List UtxoAdd)
    (hadds : ∀ add ∈ adds, lookup Coin.outpoint restores add.outpoint = none → S add.outpoint = none)
    (changes : BlockChanges) :
    (adds.map (fun add => addMutation add (lookup Coin.outpoint restores add.outpoint))).foldlM
      (stageMutation utxo height) changes = .ok ⟨changes.adds ++ adds, changes.removes⟩ := by
  induction adds generalizing changes with
  | nil => rw [append_nil]; rfl
  | cons add rest ih =>
    have hstep : stageMutation utxo height changes
        (addMutation add (lookup outpoint restores add.outpoint)) =
          .ok ⟨changes.adds ++ [add], changes.removes⟩ := by
      cases hl : lookup outpoint restores add.outpoint with
      | none =>
        have hdead := hadds add mem_cons_self hl
        have hentry := liveEntry_eq hS (journalCoin add).outpoint
        rw [show (journalCoin add).outpoint = add.outpoint from rfl, hdead] at hentry
        simp only [addMutation, stageMutation]
        rw [show (journalCoin add).outpoint = add.outpoint from rfl, hentry]
        rfl
      | some oldCoin =>
        have hlive := hr oldCoin (mem_of_lookup hl)
        simp only [addMutation, stageMutation]
        rw [requireLiveCoin_of_live hS hlive, if_neg (fun hne => hne (key_of_lookup hl))]
        rfl
    rw [map_cons, foldlM_cons, hstep, ok_bind, ih (fun other ho => hadds other (mem_cons_of_mem _ ho)), append_assoc]
    rfl

lemma stageMutations_spends (height : UInt32) (removes : List OutPoint)
    (hfound : ∀ op ∈ removes, lookup Coin.outpoint restores op ≠ none) (changes : BlockChanges) :
    (removes.filterMap (fun op => (lookup Coin.outpoint restores op).map Mutation.spend)).foldlM
      (stageMutation utxo height) changes = .ok ⟨changes.adds, changes.removes ++ removes⟩ := by
  induction removes generalizing changes with
  | nil => rw [append_nil]; rfl
  | cons op rest ih =>
    obtain ⟨coin, hcoin⟩ := Option.ne_none_iff_exists'.mp (hfound op mem_cons_self)
    have hstep : stageMutation utxo height changes (.spend coin) = .ok ⟨changes.adds, changes.removes ++ [op]⟩ := by
      rw [stageMutation, requireLiveCoin_of_live hS (hr coin (mem_of_lookup hcoin)), key_of_lookup hcoin]
      rfl
    rw [filterMap_cons, hcoin, Option.map_some]
    rw [foldlM_cons, hstep, ok_bind, ih (fun other ho => hfound other (mem_cons_of_mem _ ho)), append_assoc]
    rfl

end

structure Separate (changes : BlockChanges) : Prop where
  adds_distinct : Distinct UtxoAdd.outpoint changes.adds
  removes_nodup : changes.removes.Nodup
  disjoint : ∀ op ∈ changes.removes, op ∉ changes.adds.map UtxoAdd.outpoint

lemma liveCoin_journalCoin {restore : UtxoAdd} (h : S restore.outpoint = some restore.coin) :
    LiveCoin S (journalCoin restore) := ⟨restore.coin, h, rfl, rfl, rfl⟩

structure Restores (S : OutPoint → Option UtxoCoin) (changes : BlockChanges) (restores : List Coin) : Prop where
  distinct : Distinct Coin.outpoint restores
  live : ∀ coin ∈ restores, LiveCoin S coin
  found : ∀ op ∈ changes.removes, lookup Coin.outpoint restores op ≠ none
  dead : ∀ add ∈ changes.adds, lookup Coin.outpoint restores add.outpoint = none → S add.outpoint = none
  matched : ∀ coin ∈ restores, coin.outpoint ∈ changes.adds.map UtxoAdd.outpoint ∨ coin.outpoint ∈ changes.removes

variable {op : OutPoint}

lemma lookup_ne_none (h : op ∈ restores.map Coin.outpoint) : lookup Coin.outpoint restores op ≠ none := by
  obtain ⟨coin, hc, rfl⟩ := mem_map.mp h
  exact fun hn => lookup_eq_none.mp hn coin hc rfl

variable {undo : UndoBatch}

lemma restores_of_staged (hstaged : Staged S changes undo) (hsep : Separate changes) :
    Restores S changes (undo.restores.map journalCoin).reverse := by
  have hkeys : ((undo.restores.map journalCoin).reverse.map outpoint).Perm
      ((changes.adds.map UtxoAdd.outpoint).filter (fun op => (S op).isSome) ++ changes.removes) := by
    refine ((reverse_perm _).map _).trans ?_
    rw [map_map]
    exact hstaged.restores_perm
  refine ⟨?_, ?_, fun op hop => ?_, fun add ha hn => ?_, fun coin hc => ?_⟩
  · rw [Distinct, hkeys.nodup_iff]
    exact nodup_append.mpr ⟨hsep.adds_distinct.filter _, hsep.removes_nodup, fun op ha other hr he =>
      hsep.disjoint op (he ▸ hr) (mem_of_mem_filter ha)⟩
  · intro coin hc
    obtain ⟨restore, hr, rfl⟩ := mem_map.mp (mem_reverse.mp hc)
    exact liveCoin_journalCoin (hstaged.restores_coin restore hr)
  · exact lookup_ne_none (hkeys.mem_iff.mpr (mem_append_right _ hop))
  · by_contra hsome
    have hmem : add.outpoint ∈ (changes.adds.map UtxoAdd.outpoint).filter (fun op => (S op).isSome) :=
      mem_filter.mpr ⟨mem_map_of_mem ha, Option.isSome_iff_ne_none.mpr hsome⟩
    exact lookup_ne_none (hkeys.mem_iff.mpr (mem_append_left _ hmem)) hn
  · rcases mem_append.mp (hkeys.mem_iff.mp (mem_map_of_mem hc)) with ha | hr
    · exact Or.inl (mem_of_mem_filter ha)
    · exact Or.inr hr

def Recorded (S : OutPoint → Option UtxoCoin) (changes : BlockChanges) : Mutation → Prop
  | .create coin => coin.outpoint ∈ changes.adds.map UtxoAdd.outpoint ∧ S coin.outpoint = none
  | .spend coin => coin.outpoint ∈ changes.removes ∧ LiveCoin S coin
  | .overwrite oldCoin newCoin => newCoin.outpoint ∈ changes.adds.map UtxoAdd.outpoint ∧
      oldCoin.outpoint = newCoin.outpoint ∧ LiveCoin S oldCoin

lemma Restores.recorded_add (h : Restores S changes restores) {add : UtxoAdd} (ha : add ∈ changes.adds) :
    Recorded S changes (addMutation add (lookup Coin.outpoint restores add.outpoint)) := by
  have hmem : add.outpoint ∈ changes.adds.map UtxoAdd.outpoint := mem_map_of_mem ha
  cases hl : lookup outpoint restores add.outpoint with
  | none => exact ⟨hmem, h.dead add ha hl⟩
  | some oldCoin => exact ⟨hmem, key_of_lookup hl, h.live oldCoin (mem_of_lookup hl)⟩

lemma Restores.recorded_spend (h : Restores S changes restores) (ho : op ∈ changes.removes)
    {coin : Coin} (hl : lookup Coin.outpoint restores op = some coin) : Recorded S changes (.spend coin) :=
  ⟨key_of_lookup hl ▸ ho, h.live coin (mem_of_lookup hl)⟩

lemma mutationsForBlock_replays (hstaged : Staged S changes undo) (hsep : Separate changes) :
    ∃ mutations, mutationsForBlock changes (undo.restores.map journalCoin) = .ok mutations ∧
      (∀ mutation ∈ mutations, Recorded S changes mutation) ∧
      ∀ utxo : UtxoSet, (∀ op, utxo.getEntry op = .ok (S op)) → ∀ height,
        mutations.foldlM (stageMutation utxo height) ⟨[], []⟩ = .ok changes := by
  have h := restores_of_staged hstaged hsep
  have hinsert := insertRestores_eq [] (undo.restores.map journalCoin) (by
    rw [append_nil]; exact h.distinct)
  rw [append_nil] at hinsert
  generalize (undo.restores.map journalCoin).reverse = restores at h hinsert
  -- the spends find what the adds have left, which is all that they look for
  let kept := restores.filter (fun coin => coin.outpoint ∉ changes.adds.map UtxoAdd.outpoint)
  have hkept (op : OutPoint) (hop : op ∈ changes.removes) : lookup outpoint kept op = lookup outpoint restores op :=
    lookup_filter (p := fun op => decide (op ∉ changes.adds.map UtxoAdd.outpoint))
      (decide_eq_true (hsep.disjoint op hop))
  have hspent := spendMutations_eq kept changes.removes hsep.removes_nodup
    (fun op hop => by rw [hkept op hop]; exact h.found op hop)
  have hleft : kept.filter (fun coin => coin.outpoint ∉ changes.removes) = [] := by
    rw [filter_filter, filter_eq_nil_iff]
    intro coin hc
    rcases h.matched coin hc with ha | hr
    · simp [ha]
    · simp [hr]
  rw [hleft, filterMap_congr (fun op hop => by rw [hkept op hop])] at hspent
  refine ⟨changes.adds.map (fun add => addMutation add (lookup outpoint restores add.outpoint)) ++
    changes.removes.filterMap (fun op => (lookup outpoint restores op).map Mutation.spend), ?_, ?_,
    fun utxo hS height => ?_⟩
  · rw [mutationsForBlock, hinsert, ok_bind, addMutations_eq changes.adds hsep.adds_distinct]
    change (spendMutations kept changes.removes >>= _) = _
    rw [hspent]
    rfl
  · intro mutation hm
    rcases mem_append.mp hm with hm | hm
    · obtain ⟨add, ha, rfl⟩ := mem_map.mp hm
      exact h.recorded_add ha
    · obtain ⟨op, ho, hspend⟩ := mem_filterMap.mp hm
      obtain ⟨coin, hl, rfl⟩ := Option.map_eq_some_iff.mp hspend
      exact h.recorded_spend ho hl
  · rw [foldlM_append, stageMutations_adds hS h.live height changes.adds h.dead, ok_bind,
      stageMutations_spends hS h.live height changes.removes h.found]
    rfl

end BitcoinRs.Chainstate
