import BitcoinRs.Utxo.SetCommit
import Mathlib.Order.Interval.Finset.Nat

namespace BitcoinRs.Utxo

open Batch KeyedList Fallible List Tally
open Function (update)
open Option (map_none map_or or_none none_or)

def coinOf (txid : Hash256) (part : OutputParts) : UtxoCoin :=
  { outpoint := ⟨txid, part.vout⟩, txout := txoutFromParts part.value part.script, coinbase := part.coinbase,
    height := part.height }

lemma coinOf_injective (txid : Hash256) : Function.Injective (coinOf txid) := by
  intro a b h
  obtain ⟨_, _, _, _, _⟩ := a
  obtain ⟨⟨-, rfl⟩, ⟨rfl, rfl⟩, rfl, rfl⟩ := h
  rfl

def coinsOf (M : Outputs) : OutPoint → Option UtxoCoin := fun op => (M op.txid op.vout).map (coinOf op.txid)

lemma coinsOf_injective : Function.Injective coinsOf := by
  intro M N h
  funext x v
  exact Option.map_injective (coinOf_injective x) (congrFun h ⟨x, v⟩)

def UtxoAdd.coin (add : UtxoAdd) : UtxoCoin :=
  { outpoint := add.outpoint, txout := add.txout, coinbase := add.coinbase, height := add.height }

def UtxoAdd.binding (add : UtxoAdd) : OutPoint × UtxoCoin := (add.outpoint, add.coin)

variable {m : UInt32 → Option OutputParts} {record : UtxoRecord} {txid : Hash256} {v : UInt32}

section

variable (h : Stores record txid m)

include h

lemma Stores.findOutput (v : UInt32) : record.findOutput v = .ok (m v) ∧ ∀ part, m v = some part → part.vout = v := by
  obtain ⟨pk, rfl, -, -, -, rfl⟩ := h
  exact ⟨pk.record_findOutput v, fun part hp => key_of_lookup hp⟩

lemma Stores.script_lt {part : OutputParts} (hp : m v = some part) : part.script.length < 2 ^ 16 := by
  obtain ⟨pk, -, -, -, -, rfl⟩ := h
  exact pk.script_lt part (mem_of_lookup hp)

lemma Stores.le_outputCount {n : ℕ} (hn : n ≤ 2 ^ 32) (hlive : ∀ v < n, m (UInt32.ofNat v) ≠ none) :
    ∃ count, record.outputCount = .ok count ∧ n ≤ count ∧ count < 2 ^ 32 := by
  obtain ⟨pk, rfl, -, -, -, rfl⟩ := h
  refine ⟨pk.parts.length, pk.record_outputCount, ?_, pk.length_lt⟩
  have hsub : Finset.range n ⊆ (pk.parts.map (fun part => part.vout.toNat)).toFinset := by
    intro v hv
    obtain ⟨part, hp⟩ := Option.ne_none_iff_exists'.mp (hlive v (Finset.mem_range.mp hv))
    refine mem_toFinset.mpr (mem_map.mpr ⟨part, mem_of_lookup hp, ?_⟩)
    rw [key_of_lookup hp]
    exact UInt32.toNat_ofNat_of_lt' (Nat.lt_of_lt_of_le (Finset.mem_range.mp hv) hn)
  have hcard := (Finset.card_le_card hsub).trans (toFinset_card_le _)
  rwa [Finset.card_range, length_map] at hcard

lemma Stores.room : ∃ v, m v = none := by
  by_contra hfull
  obtain ⟨count, -, hle, hlt⟩ := h.le_outputCount le_rfl (fun v _ he => hfull ⟨_, he⟩)
  exact absurd hlt (Nat.not_lt.mpr hle)

end

lemma Represents.getEntry {table : ShardTable} {M : Outputs} (h : Represents table M) (x : Hash256) (v : UInt32) :
    table.getEntry (UtxoKey.fromTxid x) x v = .ok ((M x v).map (coinOf x)) := by
  have hholds := h.findRecord_holds x
  rw [ShardTable.getEntry]
  cases hf : findRecord table (UtxoKey.fromTxid x) x with
  | none =>
    rw [hf] at hholds
    rw [show M x = _ from hholds]
    rfl
  | some record =>
    rw [hf] at hholds
    obtain ⟨hfind, hkey⟩ := Stores.findOutput hholds v
    simp only
    rw [hfind]
    cases hm : M x v with
    | none => rfl
    | some part =>
      obtain rfl := hkey part hm
      rfl

namespace UtxoSet

variable {set : UtxoSet} {M : Outputs} {adds : List UtxoAdd} {removes : List OutPoint} {op : OutPoint}

/-- The records of every shard store outputs by txid and vout; commits keep this. -/
def WellFormed (set : UtxoSet) : Prop := ∃ M, set.Represents M

def coins (set : UtxoSet) : OutPoint → Option UtxoCoin := fun op =>
  match set.getEntry op with
  | .ok coin => coin
  | .error _ => none

lemma getEntry_eq (h : set.Represents M) (op : OutPoint) : set.getEntry op = .ok (coinsOf M op) := by
  have hentry := (h (shardOfTxid op.txid)).getEntry op.txid op.vout
  rw [shardPart, if_pos rfl] at hentry
  exact hentry

lemma coins_eq (h : set.Represents M) : set.coins = coinsOf M := by
  funext op
  rw [coins, getEntry_eq h]

lemma WellFormed.getEntry_coins (h : set.WellFormed) (op : OutPoint) : set.getEntry op = .ok (set.coins op) := by
  obtain ⟨M, h⟩ := h
  rw [getEntry_eq h, coins_eq h]

lemma Represents.stored_or_dead (h : set.Represents M) (x : Hash256) :
    (M x = fun _ => none) ∨ ∃ record, Stores record x (M x) := by
  have hholds := (h (shardOfTxid x)).findRecord_holds x
  rw [shardPart, if_pos rfl] at hholds
  cases hf : findRecord (set.shards (shardOfTxid x)) (UtxoKey.fromTxid x) x with
  | none =>
    rw [hf] at hholds
    exact Or.inl hholds
  | some record =>
    rw [hf] at hholds
    exact Or.inr ⟨record, hholds⟩

lemma WellFormed.coin (h : set.WellFormed) {coin : UtxoCoin} (hc : set.coins op = some coin) :
    coin.outpoint = op ∧ coin.txout.scriptPubkey.length < 2 ^ 16 := by
  obtain ⟨M, h⟩ := h
  rw [coins_eq h, coinsOf, Option.map_eq_some_iff] at hc
  obtain ⟨part, hp, rfl⟩ := hc
  rcases h.stored_or_dead op.txid with hdead | ⟨record, hs⟩
  · rw [hdead] at hp
    cases hp
  · have hv := (hs.findOutput op.vout).2 part hp
    refine ⟨?_, hs.script_lt hp⟩
    rw [coinOf, hv]

lemma WellFormed.room (h : set.WellFormed) (txid : Hash256) : ∃ vout, set.coins ⟨txid, vout⟩ = none := by
  obtain ⟨M, h⟩ := h
  rw [coins_eq h]
  rcases h.stored_or_dead txid with hdead | ⟨record, hs⟩
  · exact ⟨0, by rw [coinsOf, hdead, map_none]⟩
  · obtain ⟨v, hv⟩ := hs.room
    exact ⟨v, by rw [coinsOf, hv, map_none]⟩

lemma mem_removesAt {x : Hash256} : v ∈ removesAt removes x ↔ ⟨x, v⟩ ∈ removes := by
  simp only [removesAt, valuesAt, mem_map, mem_filter, beq_iff_eq]
  constructor
  · rintro ⟨op, ⟨hop, rfl⟩, rfl⟩
    exact hop
  · exact fun hop => ⟨_, ⟨hop, rfl⟩, rfl⟩

lemma mem_addsAt {x : Hash256} : v ∈ (bindings (addsAt adds x)).map Prod.fst ↔ ⟨x, v⟩ ∈ adds.map UtxoAdd.outpoint := by
  simp only [bindings, addsAt, valuesAt, mem_map, mem_filter, beq_iff_eq]
  constructor
  · rintro ⟨_, ⟨_, ⟨add, ⟨ha, rfl⟩, rfl⟩, rfl⟩, rfl⟩
    exact ⟨add, ha, rfl⟩
  · rintro ⟨add, ha, he⟩
    exact ⟨_, ⟨_, ⟨add, ⟨ha, by rw [he]⟩, rfl⟩, rfl⟩, congrArg OutPoint.vout he⟩

lemma addsAt_cons (add : UtxoAdd) (rest : List UtxoAdd) (x : Hash256) : addsAt (add :: rest) x =
    if add.outpoint.txid = x then payloadParts add.payload :: addsAt rest x else addsAt rest x := by
  by_cases hx : add.outpoint.txid = x <;> simp [addsAt, valuesAt, hx]

lemma lastValue_addsAt (x : Hash256) (v : UInt32) :
    (lastValue (bindings (addsAt adds x)) v).map (coinOf x) = lastValue (adds.map UtxoAdd.binding) ⟨x, v⟩ := by
  induction adds with
  | nil => rfl
  | cons add rest ih =>
    rw [map_cons, UtxoAdd.binding, lastValue, ← ih, addsAt_cons]
    by_cases hop : (⟨x, v⟩ : OutPoint) = add.outpoint
    · have hv : v = (payloadParts add.payload).vout := congrArg OutPoint.vout hop
      rw [if_pos hop, if_pos (congrArg OutPoint.txid hop).symm, bindings, map_cons, lastValue, if_pos hv, map_or]
      rw [show x = add.outpoint.txid from congrArg OutPoint.txid hop]
      rfl
    · rw [if_neg hop, or_none]
      split_ifs with hx
      · have hv : v ≠ (payloadParts add.payload).vout := fun he => hop (by rw [← hx, he]; rfl)
        rw [bindings, map_cons, lastValue, if_neg hv, or_none]
        rfl
      · rfl

lemma coinsOf_specified : coinsOf (specified M (removesAt removes) (addsAt adds)) =
    apply (coinsOf M) removes (adds.map UtxoAdd.binding) := by
  funext op
  have hrem : op.vout ∈ removesAt removes op.txid ↔ op ∈ removes := mem_removesAt
  rw [coinsOf, specified, apply_eq, apply_eq, map_or, lastValue_addsAt]
  by_cases hop : op ∈ removes
  · rw [if_pos hop, if_pos (hrem.mpr hop), map_none]
  · rw [if_neg hop, if_neg (fun hmem => hop (hrem.mp hmem)), coinsOf]

variable {parts : List OutputParts} {vouts : List UInt32}

lemma coalesced_eq_apply_iff :
    coalesced m vouts parts = apply m vouts (bindings parts) ↔
      (∃ v, m v ≠ none) ∨ ∀ v ∈ vouts, v ∉ (bindings parts).map Prod.fst := by
  by_cases hlive : ∃ v, m v ≠ none
  · exact ⟨fun _ => Or.inl hlive, fun _ => coalesced_of_live hlive vouts parts⟩
  · obtain rfl : m = fun _ => none := by
      funext w
      by_contra hw
      exact hlive ⟨w, hw⟩
    rw [coalesced_of_dead, eraseAll_insertAll_eq_apply_iff, or_iff_right hlive]

lemma onTxid_untouched {listening : Bool} (hv : v ∉ vouts)
    (hp : v ∉ (bindings parts).map Prod.fst) : onTxid listening m vouts parts v = m v := by
  have hspec : apply m vouts (bindings parts) v = m v := by
    rw [apply_eq, (lastValue_eq_none _ _).mpr hp, if_neg hv, none_or]
  rw [onTxid, coalesced]
  split_ifs
  · exact hspec
  · exact hspec
  · rw [eraseAll, if_neg hv, insertAll_apply, (lastValue_eq_none _ _).mpr hp, none_or]

lemma committed_eq_specified_iff (listening : Bool) :
    committed listening M adds removes = specified M (removesAt removes) (addsAt adds) ↔ listening = true ∨
      ∀ op ∈ removes, op ∈ adds.map UtxoAdd.outpoint → ∃ vout, M op.txid vout ≠ none := by
  cases listening with
  | true => exact ⟨fun _ => Or.inl rfl, fun _ => rfl⟩
  | false =>
    rw [or_iff_right Bool.false_ne_true]
    constructor
    · intro h op hr ha
      rcases coalesced_eq_apply_iff.mp (congrFun h op.txid) with hlive | hnone
      · exact hlive
      · exact absurd (mem_addsAt.mpr ha) (hnone op.vout (mem_removesAt.mpr hr))
    · intro h
      funext x
      refine coalesced_eq_apply_iff.mpr (or_iff_not_imp_left.mpr (fun hdead v hv ha => hdead ?_))
      exact h ⟨x, v⟩ (mem_removesAt.mp hv) (mem_addsAt.mp ha)

/-- The map that a batch asks for: without the removed outpoints, then with the adds in order. -/
def batchSpec (set : UtxoSet) (adds : List UtxoAdd) (removes : List OutPoint) : OutPoint → Option UtxoCoin :=
  apply set.coins removes (adds.map UtxoAdd.binding)

lemma batchSpec_eq (h : set.Represents M) :
    set.batchSpec adds removes = coinsOf (specified M (removesAt removes) (addsAt adds)) := by
  rw [batchSpec, coins_eq h, coinsOf_specified]

lemma coinsOf_eq_none : coinsOf M op = none ↔ M op.txid op.vout = none := by
  rw [coinsOf, Option.map_eq_none_iff]

lemma scripts_of_ok {schedule : Schedule} (h : (set.commitAddsAndRemoves schedule adds removes).2 = .ok ()) :
    AddsFit adds := by
  rw [commitAddsAndRemoves] at h
  cases hv : validateAdds adds with
  | ok => exact validateAdds_ok.mp hv
  | error fault =>
    rw [hv] at h
    cases h

lemma commit_succeeds (schedule : Schedule) (h : set.WellFormed) (hs : AddsFit adds)
    (hroom : ∀ txid, ∃ vout, set.batchSpec adds removes ⟨txid, vout⟩ = none) :
    (set.commitAddsAndRemoves schedule adds removes).2 = .ok () := by
  obtain ⟨M, h⟩ := h
  refine (commitAddsAndRemoves_commits schedule h hs).succeeds (fun x => ?_)
  obtain ⟨v, hv⟩ := hroom x
  exact ⟨v, coinsOf_eq_none.mp (by rw [← hv, batchSpec_eq h])⟩

section

variable {schedule : Schedule} (h : set.WellFormed) (hok : (set.commitAddsAndRemoves schedule adds removes).2 = .ok ())

include h hok

lemma commit_wellFormed : (set.commitAddsAndRemoves schedule adds removes).1.WellFormed := by
  obtain ⟨M, h⟩ := h
  exact ⟨_, (commitAddsAndRemoves_commits schedule h (scripts_of_ok hok)).represents hok⟩

lemma coins_eq_batchSpec_iff :
    (set.commitAddsAndRemoves schedule adds removes).1.coins = set.batchSpec adds removes ↔
      set.listener.isSome ∨ ∀ op ∈ removes, op ∈ adds.map UtxoAdd.outpoint →
        ∃ vout, set.coins ⟨op.txid, vout⟩ ≠ none := by
  obtain ⟨M, h⟩ := h
  have hafter := (commitAddsAndRemoves_commits schedule h (scripts_of_ok hok)).represents hok
  rw [coins_eq hafter, batchSpec_eq h, coinsOf_injective.eq_iff, committed_eq_specified_iff, coins_eq h]
  simp only [ne_eq, coinsOf_eq_none]

lemma coins_of_disjoint (hd : ∀ op ∈ removes, op ∉ adds.map UtxoAdd.outpoint) :
    (set.commitAddsAndRemoves schedule adds removes).1.coins = set.batchSpec adds removes :=
  (coins_eq_batchSpec_iff h hok).mpr (Or.inr (fun op hr ha => absurd ha (hd op hr)))

lemma coins_of_untouched (hr : op ∉ removes) (ha : op ∉ adds.map UtxoAdd.outpoint) :
    (set.commitAddsAndRemoves schedule adds removes).1.coins op = set.coins op := by
  obtain ⟨M, h⟩ := h
  have hafter := (commitAddsAndRemoves_commits schedule h (scripts_of_ok hok)).represents hok
  rw [coins_eq hafter, coins_eq h, coinsOf, coinsOf, committed, onTxid_untouched]
  · exact fun hv => hr (mem_removesAt.mp hv)
  · exact fun hv => ha (mem_addsAt.mp hv)

end

/-- A commit that succeeds leaves a well-formed set, and leaves the map the batch asks for exactly when a
listener is installed or every outpoint both removed and added belongs to a txid with live outputs. -/
theorem commitAddsAndRemoves_eq_spec_iff (schedule : Schedule) (set : UtxoSet) (hset : set.WellFormed)
    (adds : List UtxoAdd) (removes : List OutPoint) :
    ((∀ add ∈ adds, add.txout.scriptPubkey.length < 2 ^ 16) →
        (∀ txid, ∃ vout, set.batchSpec adds removes ⟨txid, vout⟩ = none) →
        (set.commitAddsAndRemoves schedule adds removes).2 = .ok ()) ∧
      ((set.commitAddsAndRemoves schedule adds removes).2 = .ok () →
        (set.commitAddsAndRemoves schedule adds removes).1.WellFormed ∧
        ((set.commitAddsAndRemoves schedule adds removes).1.coins = set.batchSpec adds removes ↔
          set.listener.isSome ∨ ∀ op ∈ removes, op ∈ adds.map UtxoAdd.outpoint →
            ∃ vout, set.coins ⟨op.txid, vout⟩ ≠ none)) :=
  ⟨commit_succeeds schedule hset, fun hok => ⟨commit_wellFormed hset hok, coins_eq_batchSpec_iff hset hok⟩⟩

lemma represents_new : UtxoSet.new.Represents (fun _ _ => none) := by
  intro s
  have hpart : shardPart (fun _ _ => none) s = fun _ _ => none := by
    funext x
    rw [shardPart, ite_self]
  rw [hpart]
  exact Utxo.Represents.empty

/-- The set that a commit of `adds` alone leaves. -/
def ofAdds (adds : List UtxoAdd) : UtxoSet := (UtxoSet.new.commitAddsAndRemoves .sequential adds []).1

section

variable (hok : (UtxoSet.new.commitAddsAndRemoves .sequential adds []).2 = .ok ())

include hok

lemma ofAdds_wellFormed : (ofAdds adds).WellFormed := commit_wellFormed ⟨_, represents_new⟩ hok

lemma mem_ofAdds {op : OutPoint} {coin : UtxoCoin} (h : (ofAdds adds).coins op = some coin) :
    ∃ add ∈ adds, add.outpoint = op ∧ add.coin = coin := by
  rw [ofAdds, coins_of_disjoint ⟨_, represents_new⟩ hok (fun _ hop => absurd hop not_mem_nil), batchSpec, apply_eq,
    if_neg not_mem_nil, show new.coins op = none from rfl, Option.or_none] at h
  obtain ⟨add, ha, he⟩ := mem_map.mp (mem_of_lastValue _ _ h)
  exact ⟨add, ha, congrArg Prod.fst he, congrArg Prod.snd he⟩

end

end UtxoSet

namespace Sample

open UtxoSet

def spentTxid : Txid := ⟨0 :: 2 :: replicate 30 0, by simp⟩

def coins : List UtxoAdd :=
  [⟨⟨.zero, 0⟩, ⟨50, [0x51]⟩, true, 1⟩, ⟨⟨spentTxid, 0⟩, ⟨7, [0x52]⟩, false, 1⟩,
    ⟨⟨spentTxid, 3⟩, ⟨5, [0x51]⟩, false, 1⟩]

def utxo : UtxoSet := ofAdds coins

lemma utxo_ok : (UtxoSet.new.commitAddsAndRemoves .sequential coins []).2 = .ok () := by decide +kernel

lemma utxo_wellFormed : utxo.WellFormed := ofAdds_wellFormed utxo_ok

def adds : List UtxoAdd := [⟨⟨spentTxid, 0⟩, ⟨8, [0x53]⟩, false, 2⟩, ⟨⟨.zero, 1⟩, ⟨9, [0x54]⟩, false, 2⟩]

def removes : List OutPoint := [⟨.zero, 0⟩, ⟨spentTxid, 0⟩]

lemma room (txid : Txid) : utxo.batchSpec adds removes ⟨txid, 9⟩ = none := by
  have hfresh {items : List UtxoAdd} (h : ∀ add ∈ items, add.outpoint.vout ≠ 9) :
      ⟨txid, 9⟩ ∉ items.map UtxoAdd.outpoint := fun hmem => by
    obtain ⟨add, hadd, he⟩ := mem_map.mp hmem
    exact h add hadd (congrArg OutPoint.vout he)
  have hnone : utxo.coins ⟨txid, 9⟩ = none :=
    coins_of_untouched ⟨_, represents_new⟩ utxo_ok not_mem_nil (hfresh (by decide))
  rw [batchSpec, apply_eq, hnone, ite_self, Option.or_none, lastValue_eq_none, map_map]
  exact hfresh (by decide)

end Sample

namespace UtxoSet

open Sample

theorem commitAddsAndRemoves_spec_sample :
    (utxo.commitAddsAndRemoves .sequential adds removes).2 = .ok () ∧
      (utxo.commitAddsAndRemoves .sequential adds removes).1.coins = utxo.batchSpec adds removes := by
  have h := commitAddsAndRemoves_eq_spec_iff .sequential utxo utxo_wellFormed adds removes
  have hok := h.1 (by decide) (fun txid => ⟨9, room txid⟩)
  have hlive : utxo.coins ⟨spentTxid, 3⟩ ≠ none := by decide +kernel
  refine ⟨hok, (h.2 hok).2.mpr (.inr fun op hop hadd => ?_)⟩
  rcases mem_pair.mp hop with rfl | rfl
  · exact absurd hadd (by decide)
  · exact ⟨3, hlive⟩

def sampleOutPoint : OutPoint := ⟨.zero, 0⟩

def sampleAdd : UtxoAdd :=
  { outpoint := sampleOutPoint, txout := { value := 5, scriptPubkey := [0x51] }, coinbase := false, height := 1 }

/-- Without a record of its txid, an outpoint both removed and added is lost, unless a listener is installed. -/
theorem commitAddsAndRemoves_loses_readded :
    (UtxoSet.new.commitAddsAndRemoves .sequential [sampleAdd] [sampleOutPoint]).2 = .ok () ∧
      (UtxoSet.new.commitAddsAndRemoves .sequential [sampleAdd] [sampleOutPoint]).1.coins sampleOutPoint = none ∧
      ((⟨UtxoSet.new.shards, some []⟩ : UtxoSet).commitAddsAndRemoves .sequential [sampleAdd]
        [sampleOutPoint]).1.coins sampleOutPoint = some sampleAdd.coin ∧
      UtxoSet.new.batchSpec [sampleAdd] [sampleOutPoint] sampleOutPoint = some sampleAdd.coin := by
  decide +kernel

/-- A commit fails in its validation, and then the set and its listener are as they were, or not at all. -/
theorem commit_atomic (schedule : Schedule) (set : UtxoSet) (adds : List UtxoAdd) (removes : List OutPoint) :
    ((∃ add ∈ adds, 65535 < add.txout.scriptPubkey.length) →
        ∃ add ∈ adds, 65535 < add.txout.scriptPubkey.length ∧ set.commitAddsAndRemoves schedule adds removes =
          (set, .error (.error (.scriptTooLarge add.txout.scriptPubkey.length)))) ∧
      (set.WellFormed → (∀ add ∈ adds, validateAdd add = .ok ()) →
        (∀ txid, ∃ vout, set.batchSpec adds removes ⟨txid, vout⟩ = none) →
        (set.commitAddsAndRemoves schedule adds removes).2 = .ok ()) := by
  refine ⟨fun hlong => ?_, fun hset hvalid =>
    commit_succeeds schedule hset fun add hadd => validateAdd_ok.mp (hvalid add hadd)⟩
  rw [commitAddsAndRemoves]
  cases hv : validateAdds adds with
  | ok =>
    obtain ⟨add, hadd, hlen⟩ := hlong
    exact absurd (validateAdds_ok.mp hv add hadd) (by omega)
  | error fault =>
    obtain ⟨add, hadd, hfault⟩ := validateAdds_error hv
    have hlen : ¬ add.txout.scriptPubkey.length < 2 ^ 16 := fun hlt => by
      rw [validateAdd_ok.mpr hlt] at hfault
      cases hfault
    rw [validateAdd, ensure_of_not _ hlen] at hfault
    cases hfault
    exact ⟨add, hadd, by omega, rfl⟩

def oversize : UtxoAdd := ⟨⟨.zero, 2⟩, ⟨1, replicate 65536 0⟩, false, 2⟩

theorem commit_atomic_sample :
    (∃ size, utxo.commitAddsAndRemoves .sequential (adds ++ [oversize]) removes =
      (utxo, .error (.error (.scriptTooLarge size)))) ∧ (utxo.commitAddsAndRemoves .sequential adds removes).2 =
        .ok () := by
  refine ⟨?_, (commit_atomic .sequential utxo adds removes).2 utxo_wellFormed (by decide) fun txid => ⟨9, room txid⟩⟩
  obtain ⟨add, -, -, h⟩ := (commit_atomic .sequential utxo _ removes).1
    ⟨oversize, mem_append_right adds mem_cons_self, (by decide : 65535 < 65536).trans_eq length_replicate.symm⟩
  exact ⟨_, h⟩

end UtxoSet

def UtxoRecord.coins (record : UtxoRecord) : Run (List UtxoCoin) := do
  let txid ← record.ownTxid
  return (← record.outputs).map (coinOf txid)

namespace ShardTable

def coins : ShardTable → Run (List UtxoCoin)
  | [] => .ok []
  | record :: rest => do return (← record.coins) ++ (← coins rest)

end ShardTable

def coinsOfShards (shards : UInt8 → ShardTable) : List UInt8 → Run (List UtxoCoin)
  | [] => .ok []
  | s :: rest => do return (← (shards s).coins) ++ (← coinsOfShards shards rest)

def UtxoSet.forEachCoin (set : UtxoSet) : Run (List UtxoCoin) := coinsOfShards set.shards shardIndexes

lemma enumerates_outputs (txid : Hash256) {parts : List OutputParts} (hd : Distinct OutputParts.vout parts) :
    Enumerates UtxoCoin.outpoint (parts.map (coinOf txid) : Multiset UtxoCoin)
      (coinsOf (update (fun _ _ => none) txid (lookupPart parts))) := by
  refine (Enumerates.of_distinct hd).map (coinOf_injective txid) (fun _ => rfl)
    (fun v => ?_) (fun op hop => ?_)
  · rw [coinsOf, Function.update_self]
  · have hne : op.txid ≠ txid := fun he => hop op.vout (by rw [← he])
    rw [coinsOf, Function.update_of_ne hne, map_none]

lemma enumerates_update {s t : Multiset UtxoCoin} {M : Outputs}
    (hs : Enumerates UtxoCoin.outpoint s (coinsOf (update (fun _ _ => none) txid m)))
    (ht : Enumerates UtxoCoin.outpoint t (coinsOf (update M txid (fun _ => none)))) :
    Enumerates UtxoCoin.outpoint (s + t) (coinsOf (update M txid m)) := by
  refine hs.add ht (fun op => ?_) (fun op => ?_)
  · by_cases hop : op.txid = txid
    · simp [coinsOf, hop]
    · simp [coinsOf, hop]
  · by_cases hop : op.txid = txid
    · exact Or.inr (by simp [coinsOf, hop])
    · exact Or.inl (by simp [coinsOf, hop])

lemma Stores.coins {record : UtxoRecord} (h : Stores record txid m) :
    ∃ coins, record.coins = .ok coins ∧ record.outputCount = .ok coins.length ∧
      Enumerates UtxoCoin.outpoint (coins : Multiset UtxoCoin)
        (coinsOf (update (fun _ _ => none) txid m)) := by
  obtain ⟨pk, rfl, rfl, hd, -, rfl⟩ := h
  refine ⟨pk.parts.map (coinOf pk.txid), ?_, ?_, enumerates_outputs pk.txid hd⟩
  · rw [UtxoRecord.coins, pk.record_ownTxid, ok_bind, pk.record_outputs, ok_bind, pure_eq_ok]
  · rw [pk.record_outputCount, length_map]

lemma Represents.coins {table : ShardTable} {M : Outputs} (h : Represents table M) :
    ∃ coins, table.coins = .ok coins ∧ Enumerates UtxoCoin.outpoint (coins : Multiset UtxoCoin) (coinsOf M) := by
  induction table generalizing M with
  | nil =>
    have hM : coinsOf M = fun _ => none := by
      funext op
      rw [coinsOf, Option.map_eq_none_iff]
      by_contra hlive
      obtain ⟨record, hr, -⟩ := h.complete _ _ hlive
      cases hr
    exact ⟨[], rfl, hM ▸ Enumerates.empty⟩
  | cons record table ih =>
    obtain ⟨txid, hs⟩ := h.stored record mem_cons_self
    obtain ⟨hrest, -⟩ := h.erase hs
    obtain ⟨first, hfirst, -, hone⟩ := hs.coins
    obtain ⟨others, hothers, hmany⟩ := ih hrest
    refine ⟨first ++ others, ?_, ?_⟩
    · rw [ShardTable.coins, hfirst, ok_bind, hothers, ok_bind, pure_eq_ok]
    · have hboth := enumerates_update hone hmany
      rwa [Function.update_eq_self] at hboth

end BitcoinRs.Utxo
