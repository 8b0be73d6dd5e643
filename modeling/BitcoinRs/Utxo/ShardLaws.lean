import BitcoinRs.Utxo.RecordStore
import BitcoinRs.Utxo.Shard

namespace BitcoinRs.Utxo

open KeyedList Batch Fallible List UtxoRecord Function Runs
open Function (update)
open UtxoKey (fromTxid)

abbrev Outputs := Hash256 → UInt32 → Option OutputParts

structure Represents (table : ShardTable) (M : Outputs) : Prop where
  distinct : Distinct UtxoRecord.txid table
  stored : ∀ record ∈ table, ∃ txid, Stores record txid (M txid)
  complete : ∀ txid vout, M txid vout ≠ none → ∃ record ∈ table, record.txid = txid.bytes

variable {m : UInt32 → Option OutputParts} {record : UtxoRecord} {x : Hash256} {table' : ShardTable} {txid : Hash256}

section

variable (h : Stores record txid m)

include h

lemma Stores.txid_eq : record.txid = txid.bytes := by
  obtain ⟨pk, rfl, rfl, -⟩ := h
  exact pk.record_txid

lemma Stores.isFor_iff (x : Hash256) : UtxoRecord.isFor (fromTxid x) x record = true ↔ txid = x := by
  have htake : record.key = record.txid.take 8 := by
    rw [UtxoRecord.txid, take_take]
    rfl
  simp only [UtxoRecord.isFor, Bool.and_eq_true, beq_iff_eq, htake, h.txid_eq, fromTxid]
  exact ⟨fun he => Hash256.bytes_injective he.2, fun he => ⟨by rw [he], by rw [he]⟩⟩

lemma Stores.live : ∃ v, m v ≠ none := by
  obtain ⟨pk, rfl, rfl, hd, hne, rfl⟩ := h
  obtain ⟨part, rest, hparts⟩ := exists_cons_of_ne_nil hne
  refine ⟨part.vout, fun hnone => lookup_eq_none.mp hnone part ?_ rfl⟩
  rw [hparts]
  exact mem_cons_self

end

namespace Represents

variable {table : ShardTable} {M : Outputs}

lemma empty : Represents [] (fun _ _ => none) := ⟨nodup_nil, by simp, by simp⟩

section

variable (h : Represents table M)

include h

lemma find_cases (x : Hash256) :
    (table.findIdx? (UtxoRecord.isFor (fromTxid x) x) = none ∧
        findRecord table (fromTxid x) x = none ∧ (∀ record ∈ table, record.txid ≠ x.bytes) ∧
        M x = fun _ => none) ∨
      ∃ i, ∃ hi : i < table.length,
        table.findIdx? (UtxoRecord.isFor (fromTxid x) x) = some i ∧
        findRecord table (fromTxid x) x = some table[i] ∧ Stores table[i] x (M x) := by
  have hfor (record : UtxoRecord) (hr : record ∈ table) :
      isFor (fromTxid x) x record = true ↔ record.txid = x.bytes := by
    obtain ⟨txid, hs⟩ := h.stored record hr
    rw [hs.isFor_iff, hs.txid_eq]
    exact ⟨fun he => by rw [he], fun he => Hash256.bytes_injective he⟩
  cases hf : table.findIdx? (isFor (fromTxid x) x) with
  | none =>
    rw [findIdx?_eq_none_iff] at hf
    have hnot (record : UtxoRecord) (hr : record ∈ table) : record.txid ≠ x.bytes := fun he => by
      have := (hfor record hr).mpr he
      rw [hf record hr] at this
      cases this
    refine Or.inl ⟨rfl, find?_eq_none.mpr (fun record hr => by rw [hf record hr]; decide), hnot, ?_⟩
    funext v
    by_contra hv
    obtain ⟨record, hr, he⟩ := h.complete x v hv
    exact hnot record hr he
  | some i =>
    obtain ⟨hi, hp, hbefore⟩ := findIdx?_eq_some_iff_getElem.mp hf
    obtain ⟨txid, hs⟩ := h.stored table[i] (getElem_mem hi)
    obtain rfl := (hs.isFor_iff x).mp hp
    exact Or.inr ⟨i, hi, rfl, find?_eq_some_iff_getElem.mpr ⟨hp, i, hi, rfl, by simpa using hbefore⟩, hs⟩

lemma findRecord_holds (x : Hash256) : Holds (findRecord table (fromTxid x) x) x (M x) := by
  rcases h.find_cases x with ⟨-, hfind, -, hm⟩ | ⟨i, hi, -, hfind, hs⟩
  · rw [hfind]
    exact hm
  · rw [hfind]
    exact hs

lemma perm (hp : table.Perm table') : Represents table' M where
  distinct := h.distinct.perm hp
  stored record hr := h.stored record (hp.mem_iff.mpr hr)
  complete txid v hv := by
    obtain ⟨record, hr, he⟩ := h.complete txid v hv
    exact ⟨record, hp.mem_iff.mp hr, he⟩

lemma insert (hs : Stores record x m) (hx : ∀ other ∈ table, other.txid ≠ x.bytes) :
    Represents (record :: table) (update M x m) where
  distinct := h.distinct.cons (lookup_eq_none.mpr (by rwa [hs.txid_eq]))
  stored := by
    refine forall_mem_cons.mpr ⟨⟨x, by rwa [update_self]⟩, fun other hr => ?_⟩
    obtain ⟨txid, ho⟩ := h.stored other hr
    have htxid : txid ≠ x := fun he => hx other hr (by rw [ho.txid_eq, he])
    exact ⟨txid, by rwa [update_of_ne htxid]⟩
  complete txid v hv := by
    by_cases htxid : txid = x
    · exact ⟨record, mem_cons_self, by rw [hs.txid_eq, htxid]⟩
    · rw [update_of_ne htxid] at hv
      obtain ⟨other, hr, he⟩ := h.complete txid v hv
      exact ⟨other, mem_cons_of_mem _ hr, he⟩

end

lemma erase (h : Represents (record :: table) M) (hs : Stores record x (M x)) :
    Represents table (update M x (fun _ => none)) ∧ ∀ other ∈ table, other.txid ≠ x.bytes := by
  have hx : ∀ other ∈ table, other.txid ≠ x.bytes := by
    rw [← hs.txid_eq]
    exact lookup_eq_none.mp h.distinct.lookup_head
  refine ⟨⟨h.distinct.tail, fun other hr => ?_, fun txid v hv => ?_⟩, hx⟩
  · obtain ⟨txid, ho⟩ := h.stored other (mem_cons_of_mem _ hr)
    have htxid : txid ≠ x := fun he => hx other hr (by rw [ho.txid_eq, he])
    exact ⟨txid, by rwa [update_of_ne htxid]⟩
  · by_cases htxid : txid = x
    · rw [htxid, update_self] at hv
      exact absurd rfl hv
    · rw [update_of_ne htxid] at hv
      obtain ⟨other, hr, he⟩ := h.complete txid v hv
      rcases mem_cons.mp hr with rfl | hr
      · rw [hs.txid_eq] at he
        exact absurd (Hash256.bytes_injective he).symm htxid
      · exact ⟨other, hr, he⟩

variable (h : Represents table M)

include h

lemma replaceRecord (hs : Stores record x m) :
    Represents (replaceRecord table (fromTxid x) x record) (update M x m) := by
  rw [Utxo.replaceRecord]
  rcases h.find_cases x with ⟨hidx, -, hnot, -⟩ | ⟨i, hi, hidx, -, hold⟩
  · rw [hidx]
    exact (h.insert hs hnot).perm (perm_append_singleton record table).symm
  · rw [hidx]
    obtain ⟨hrest, hx⟩ := (h.perm (getElem_cons_eraseIdx_perm hi).symm).erase hold
    have hnew := hrest.insert hs hx
    rw [update_idem] at hnew
    exact hnew.perm (set_perm_cons_eraseIdx hi record).symm

lemma removeRecord (x : Hash256) : Represents (removeRecord table (fromTxid x) x) (update M x (fun _ => none)) := by
  rw [Utxo.removeRecord]
  rcases h.find_cases x with ⟨hidx, -, -, hm⟩ | ⟨i, hi, hidx, -, hold⟩
  · rw [hidx, ← hm, update_eq_self]
    exact h
  · rw [hidx]
    exact ((h.perm (getElem_cons_eraseIdx_perm hi).symm).erase hold).1

lemma mutate {out : RemovedRecord} (ho : Outcome out x (M x) m) :
    Represents (applyRecordMutation table (fromTxid x) x out.mutation) (update M x m) := by
  cases out with
  | unchanged =>
    rw [show m = M x from ho, update_eq_self]
    exact h
  | emptied =>
    rw [show m = fun _ => none from ho]
    exact h.removeRecord x
  | replaced record => exact h.replaceRecord ho

end Represents

section

variable {table : ShardTable} {M : Outputs} {parts : List OutputParts} {v : UInt32}

section

variable (h : Represents table M)

include h

lemma applyRemoveByVouts_eq (x : Hash256) (vouts : List UInt32) :
    ∃ table', applyRemoveByVouts table (fromTxid x) x vouts = .ok table' ∧
      Represents table' (update M x (eraseAll (M x) vouts)) := by
  rw [applyRemoveByVouts]
  rcases h.find_cases x with ⟨-, hfind, -, hm⟩ | ⟨i, hi, -, hfind, hs⟩
  · refine ⟨table, by rw [hfind], ?_⟩
    have herase : eraseAll (M x) vouts = M x := by
      rw [hm]
      funext v
      simp [eraseAll]
    rwa [herase, update_eq_self]
  · obtain ⟨out, hrun, hout⟩ := removeRunReplacement_eq hs vouts
    refine ⟨applyRecordMutation table (fromTxid x) x out.mutation, ?_, h.mutate hout⟩
    simp [hfind, hrun]

lemma applyAddByParts_ok (hne : parts ≠ []) (hs : ScriptsFit parts)
    (hrun : applyAddByParts table (fromTxid x) x parts = .ok table') :
    Represents table' (update M x (insertAll (M x) (bindings parts))) := by
  obtain ⟨⟨record, displaced⟩, hrecord, hout⟩ := bind_eq_ok hrun
  cases hout
  exact h.replaceRecord (addRunReplacement_ok (h.findRecord_holds x) hne hs hrecord).1

lemma applyAddByParts_of_missing (x : Hash256)
    (hs : ScriptsFit parts) (hv : insertAll (M x) (bindings parts) v = none) :
    ∃ table', applyAddByParts table (fromTxid x) x parts = .ok table' := by
  obtain ⟨result, hresult⟩ := addRunReplacement_of_missing (h.findRecord_holds x) hs hv
  exact ⟨replaceRecord table (fromTxid x) x result.1, by rw [applyAddByParts, hresult]; rfl⟩

end

noncomputable def coalesced (m : UInt32 → Option OutputParts) (vouts : List UInt32)
    (parts : List OutputParts) : UInt32 → Option OutputParts :=
  @ite _ (∃ v, m v ≠ none) (Classical.propDecidable _) (apply m vouts (bindings parts))
    (eraseAll (insertAll m (bindings parts)) vouts)

lemma coalesced_of_live (h : ∃ v, m v ≠ none) (vouts : List UInt32) (parts : List OutputParts) :
    coalesced m vouts parts = apply m vouts (bindings parts) := if_pos h

section

variable (m) (vouts : List UInt32) (parts)

lemma coalesced_of_dead :
    coalesced (fun _ => none) vouts parts = eraseAll (insertAll (fun _ => none) (bindings parts)) vouts :=
  if_neg (by simp)

lemma eraseAll_dead : eraseAll (fun _ => none : UInt32 → Option OutputParts) vouts = fun _ => none := by
  funext v
  simp [eraseAll]

lemma coalesced_nil_left : coalesced m [] parts = insertAll m (bindings parts) := by
  rw [coalesced, apply, eraseAll_nil, eraseAll_nil, ite_self]

lemma coalesced_nil_right : coalesced m vouts [] = eraseAll m vouts := by
  exact ite_self _

end

variable {vouts : List UInt32}

lemma coalesced_of_apply_none (h : apply m vouts (bindings parts) v = none) : coalesced m vouts parts v = none := by
  by_cases hlive : ∃ v, m v ≠ none
  · rwa [coalesced_of_live hlive]
  · obtain rfl : m = fun _ => none := by
      funext w
      by_contra hw
      exact hlive ⟨w, hw⟩
    rw [apply, eraseAll_dead] at h
    rw [coalesced_of_dead, eraseAll, h, ite_self]

lemma applyCombinedRun_ok (h : Represents table M) (hne : parts ≠ []) (hs : ScriptsFit parts)
    (hrun : applyCombinedRun table (fromTxid x) x vouts parts = .ok table') :
    Represents table' (update M x (coalesced (M x) vouts parts)) := by
  rw [applyCombinedRun] at hrun
  rcases h.find_cases x with ⟨-, hfind, -, hm⟩ | ⟨i, hi, -, hfind, hstored⟩
  · rw [hfind] at hrun
    obtain ⟨⟨fresh, displaced⟩, hfresh, hrest⟩ := bind_eq_ok hrun
    have hstores := (addRunReplacement_ok (holds_none x) hne hs hfresh).1
    obtain ⟨out, hedit, hout⟩ := bind_eq_ok hrest
    have houtcome := editReplacement_ok hstores vouts [] (forall_mem_nil _) hedit
    rw [hm, coalesced_of_dead]
    -- an unchanged fresh record is stored as it was built
    cases out with
    | unchanged =>
      cases hout
      rw [show eraseAll (insertAll (fun _ => none) (bindings parts)) vouts = _ from houtcome]
      exact h.replaceRecord hstores
    | emptied =>
      cases hout
      rw [show eraseAll (insertAll (fun _ => none) (bindings parts)) vouts = _ from houtcome]
      exact h.removeRecord x
    | replaced record =>
      cases hout
      exact h.replaceRecord houtcome
  · rw [hfind] at hrun
    obtain ⟨out, hedit, hout⟩ := bind_eq_ok hrun
    cases hout
    rw [coalesced_of_live hstored.live]
    exact h.mutate (editReplacement_ok hstored vouts parts hs hedit)

lemma applyCombinedRun_of_missing (h : Represents table M) (x : Hash256) (vouts : List UInt32) (hne : parts ≠ [])
    (hs : ScriptsFit parts) (hv : apply (M x) vouts (bindings parts) v = none) :
    ∃ table', applyCombinedRun table (fromTxid x) x vouts parts = .ok table' := by
  rw [applyCombinedRun]
  rcases h.find_cases x with ⟨-, hfind, -, hm⟩ | ⟨i, hi, -, hfind, hstored⟩
  · rw [hm, apply, eraseAll_dead] at hv
    obtain ⟨⟨fresh, displaced⟩, hfresh⟩ := addRunReplacement_of_missing (holds_none x) hs hv
    have hstores := (addRunReplacement_ok (holds_none x) hne hs hfresh).1
    obtain ⟨out, hedit⟩ := editReplacement_of_missing hstores vouts [] (forall_mem_nil _) (by
      rw [show apply (insertAll (fun _ => none) (bindings parts)) vouts (bindings []) = eraseAll _ vouts from rfl,
        eraseAll, hv, ite_self])
    simp only [hfind, hfresh, ok_bind, hedit]
    cases out <;> exact ⟨_, rfl⟩
  · obtain ⟨out, hedit⟩ := editReplacement_of_missing hstored vouts parts hs hv
    simp only [hfind, hedit, ok_bind, pure_eq_ok]
    exact ⟨_, rfl⟩

end

instance : Std.TransCmp compareIdentity :=
  inferInstanceAs (Std.TransCmp (compareLex (compareOn Prod.fst) (compareOn (fun i : Identity => i.2.bytes))))

lemma eq_of_compareIdentity {a b : Identity} (h : compareIdentity a b = .eq) : a = b := by
  obtain ⟨hkey, htxid⟩ := Ordering.then_eq_eq.mp h
  exact Prod.ext (Std.LawfulEqCmp.eq_of_compare hkey)
    (Hash256.bytes_injective (Std.LawfulEqCmp.eq_of_compare htxid))

instance : IsTrans Identity IdentityLe := ⟨fun _ _ _ h₁ h₂ => Std.TransCmp.isLE_trans h₁ h₂⟩

instance : Std.Total IdentityLe := ⟨fun a b => by
  unfold IdentityLe
  rw [show compareIdentity b a = (compareIdentity a b).swap from Std.OrientedCmp.eq_swap]
  cases compareIdentity a b <;> simp⟩

instance : Std.Antisymm IdentityLe :=
  ⟨fun _ _ h₁ h₂ => eq_of_compareIdentity (Std.OrientedCmp.isLE_antisymm h₁ h₂)⟩

lemma IdentityLe.refl (a : Identity) : IdentityLe a a := (total_of IdentityLe a a).elim id id

def identityOf (x : Hash256) : Identity := (UtxoKey.fromTxid x, x)

lemma identityOf_injective : Function.Injective identityOf := fun _ _ h => congrArg Prod.snd h

def valuesAt {α γ : Type} (txid : α → Hash256) (value : α → γ) (items : List α) (x : Hash256) : List γ :=
  (items.filter (fun item => txid item == x)).map value

section

variable {α β γ : Type} {identity : α → Identity} {spans : List (RunSpan α)} {items : List α}

def spanItems (value : α → γ) (spans : List (RunSpan α)) (x : Hash256) : List γ :=
  (spans.filter (fun span => span.identity == identityOf x)).flatMap (fun span => span.items.map value)

structure SpansOk (spans : List (RunSpan α)) : Prop where
  sorted : spans.Pairwise (fun left right => IdentityLe left.identity right.identity)
  canonical : ∀ span ∈ spans, ∃ x, span.identity = identityOf x
  nonempty : ∀ span ∈ spans, span.items ≠ []

lemma SpansOk.sublist {spans rest : List (RunSpan α)} (h : SpansOk spans) (hr : rest.Sublist spans) : SpansOk rest :=
  ⟨h.sorted.sublist hr, fun span hs => h.canonical span (hr.subset hs), fun span hs => h.nonempty span (hr.subset hs)⟩

lemma SpansOk.head_le {first : RunSpan α} (h : SpansOk (first :: spans)) :
    ∀ span ∈ first :: spans, IdentityLe first.identity span.identity :=
  forall_mem_cons.mpr ⟨IdentityLe.refl _, (pairwise_cons.mp h.sorted).1⟩

instance : IsTrans (RunSpan α) (fun left right => IdentityLe left.identity right.identity) :=
  ⟨fun _ _ _ h₁ h₂ => trans_of IdentityLe h₁ h₂⟩

instance : Std.Total (fun left right : RunSpan α => IdentityLe left.identity right.identity) :=
  ⟨fun left right => total_of IdentityLe left.identity right.identity⟩

lemma mem_sortedRunSpans {span : RunSpan α} (h : span ∈ sortedRunSpans items identity) :
    ∃ first ∈ items, ∃ rest, span = { identity := identity first, items := first :: rest } := by
  rw [sortedRunSpans, mem_insertionSort] at h
  obtain ⟨run, hmem, hrun⟩ := mem_filterMap.mp h
  cases run with
  | nil => cases hrun
  | cons first rest =>
    exact ⟨first, mem_of_mem_runs hmem mem_cons_self, rest, (Option.some.inj hrun).symm⟩

def Canonical (identity : α → Identity) (txid : α → Hash256) (items : List α) : Prop :=
  ∀ item ∈ items, identity item = identityOf (txid item)

variable {txid : α → Hash256}

lemma sortedRunSpans_ok (h : Canonical identity txid items) :
    SpansOk (sortedRunSpans items identity) where
  sorted := pairwise_insertionSort _ _
  canonical span hs := by
    obtain ⟨first, hmem, rest, rfl⟩ := mem_sortedRunSpans hs
    exact ⟨txid first, h first hmem⟩
  nonempty span hs := by
    obtain ⟨first, -, rest, rfl⟩ := mem_sortedRunSpans hs
    exact cons_ne_nil _ _

lemma spanItems_runs (identity : α → Identity) (txid : α → Hash256) (value : α → γ) (x : Hash256) (rs : List (List α))
    (hr : ∀ run ∈ rs, ∃ first rest, run = first :: rest ∧ identity first = identityOf (txid first) ∧
      ∀ y ∈ rest, txid y = txid first) :
    spanItems value (rs.filterMap (fun run =>
        run.head?.map (fun first => { identity := identity first, items := run }))) x =
      valuesAt txid value rs.flatten x := by
  induction rs with
  | nil => rfl
  | cons run rs ih =>
    obtain ⟨first, rest, rfl, hcanonical, hsame⟩ := hr run mem_cons_self
    have htail := ih (fun run hrun => hr run (mem_cons_of_mem _ hrun))
    simp only [spanItems, valuesAt] at htail ⊢
    by_cases hx : txid first = x
    · have hall : (first :: rest).filter (fun item => txid item == x) = first :: rest :=
        filter_eq_self.mpr (forall_mem_cons.mpr ⟨by simpa using hx, fun y hy => by
          simpa [hsame y hy] using hx⟩)
      rw [flatten_cons, filter_append, map_append, ← htail, hall]
      simp [hx, hcanonical]
    · have hid : ¬identityOf (txid first) = identityOf x := fun he => hx (identityOf_injective he)
      have hnone : (first :: rest).filter (fun item => txid item == x) = [] :=
        filter_eq_nil_iff.mpr (forall_mem_cons.mpr ⟨by simpa using hx, fun y hy => by
          simpa [hsame y hy] using hx⟩)
      rw [flatten_cons, filter_append, map_append, ← htail, hnone]
      simp [hid, hcanonical]

lemma spanItems_sortedRunSpans (h : Canonical identity txid items) (value : α → γ) (x : Hash256) :
    spanItems value (sortedRunSpans items identity) x = valuesAt txid value items x := by
  have hsort (spans : List (RunSpan α)) : spanItems value (spans.insertionSort
      (fun left right => IdentityLe left.identity right.identity)) x = spanItems value spans x := by
    rw [spanItems, spanItems, Buckets.filter_insertionSort _ _ (fun a b ha hb => ?_)]
    rw [eq_of_beq ha, eq_of_beq hb]
    exact IdentityLe.refl _
  rw [sortedRunSpans, hsort, spanItems_runs identity txid value x _ (fun run hrun => ?_), flatten_runs]
  obtain ⟨first, rest, rfl, hsame⟩ := runs_same _ items run hrun
  have hmem : ∀ y ∈ first :: rest, identity y = identityOf (txid y) := fun y hy => h y (mem_of_mem_runs hrun hy)
  refine ⟨first, rest, rfl, hmem first mem_cons_self, fun y hy => identityOf_injective ?_⟩
  rw [← hmem y (mem_cons_of_mem _ hy), ← hmem first mem_cons_self]
  exact eq_of_beq (hsame y hy)

lemma nextIdentity_cases {removeSpans : List (RunSpan α)} {addSpans : List (RunSpan β)} (hr : SpansOk removeSpans)
    (ha : SpansOk addSpans) :
    (removeSpans = [] ∧ addSpans = [] ∧ nextIdentity removeSpans addSpans = none) ∨
      ∃ x, nextIdentity removeSpans addSpans = some (identityOf x) ∧
        (∀ span ∈ removeSpans, IdentityLe (identityOf x) span.identity) ∧
        (∀ span ∈ addSpans, IdentityLe (identityOf x) span.identity) ∧
        ((∃ span ∈ removeSpans, span.identity = identityOf x) ∨ ∃ span ∈ addSpans, span.identity = identityOf x) := by
  cases removeSpans with
  | nil =>
    cases addSpans with
    | nil => exact Or.inl ⟨rfl, rfl, rfl⟩
    | cons add adds =>
      obtain ⟨x, hx⟩ := ha.canonical add mem_cons_self
      exact Or.inr ⟨x, congrArg some hx, by simp, hx ▸ ha.head_le, Or.inr ⟨add, mem_cons_self, hx⟩⟩
  | cons remove removes =>
    obtain ⟨x, hx⟩ := hr.canonical remove mem_cons_self
    cases addSpans with
    | nil => exact Or.inr ⟨x, congrArg some hx, hx ▸ hr.head_le, by simp, Or.inl ⟨remove, mem_cons_self, hx⟩⟩
    | cons add adds =>
      obtain ⟨y, hy⟩ := ha.canonical add mem_cons_self
      rw [nextIdentity]
      by_cases hle : IdentityLe remove.identity add.identity
      · refine Or.inr ⟨x, by rw [if_pos hle, hx], hx ▸ hr.head_le, fun span hs => ?_,
          Or.inl ⟨remove, mem_cons_self, hx⟩⟩
        rw [← hx]
        exact trans_of IdentityLe hle (ha.head_le span hs)
      · have hge := (total_of IdentityLe remove.identity add.identity).resolve_left hle
        refine Or.inr ⟨y, by rw [if_neg hle, hy], fun span hs => ?_, hy ▸ ha.head_le, Or.inr ⟨add, mem_cons_self, hy⟩⟩
        rw [← hy]
        exact trans_of IdentityLe hge (hr.head_le span hs)

lemma spans_split (h : SpansOk spans) {x₀ : Hash256} (hle : ∀ span ∈ spans, IdentityLe (identityOf x₀) span.identity)
    (value : α → γ) :
    (spans.takeWhile (fun span => span.identity == identityOf x₀)).flatMap (fun span => span.items.map value) =
        spanItems value spans x₀ ∧
      ∀ x, spanItems value (spans.dropWhile (fun span => span.identity == identityOf x₀)) x =
        if x = x₀ then [] else spanItems value spans x := by
  obtain ⟨htake, hdrop⟩ := sorted_split RunSpan.identity IdentityLe spans (identityOf x₀) h.sorted hle
  refine ⟨by rw [htake, spanItems], fun x => ?_⟩
  rw [hdrop, spanItems, filter_filter]
  split_ifs with hx
  · rw [hx, filter_eq_nil_iff.mpr (by simp), flatMap_nil]
  · refine congrArg (flatMap _) (filter_congr (fun span _ => ?_))
    by_cases he : span.identity = identityOf x
    · have hne : ¬identityOf x = identityOf x₀ := fun hid => hx (identityOf_injective hid)
      simp [he, hne]
    · simp [he]

lemma dropWhile_length_lt {id : Identity} (hle : ∀ span ∈ spans, IdentityLe id span.identity) (h : SpansOk spans)
    (hmem : ∃ span ∈ spans, span.identity = id) :
    (spans.dropWhile (fun span => span.identity == id)).length < spans.length := by
  rw [(sorted_split RunSpan.identity IdentityLe spans id h.sorted hle).2]
  obtain ⟨span, hs, hid⟩ := hmem
  exact length_filter_lt_length_iff_exists.mpr ⟨span, hs, by simp [hid]⟩

end

structure Commits (result : ShardTable × Run Unit) (M' : Outputs) (room : Prop) : Prop where
  represents : result.2 = .ok () → Represents result.1 M'
  succeeds : room → result.2 = .ok ()

section

variable {table : ShardTable} {M : Outputs} {parts : List OutputParts}

lemma commitIdentity_ok (h : Represents table M) {x : Hash256} {vouts : List UInt32}
    (hs : ScriptsFit parts) {table' : ShardTable}
    (hrun : commitIdentity table (identityOf x) vouts parts = .ok table') :
    Represents table' (update M x (coalesced (M x) vouts parts)) := by
  cases vouts with
  | nil =>
    rw [coalesced_nil_left]
    cases parts with
    | nil =>
      cases hrun
      rwa [show insertAll (M x) (bindings []) = M x from rfl, update_eq_self]
    | cons part rest => exact applyAddByParts_ok h (cons_ne_nil _ _) hs hrun
  | cons vout vouts =>
    cases parts with
    | nil =>
      obtain ⟨table'', hremove, hrep⟩ := applyRemoveByVouts_eq h x (vout :: vouts)
      rw [show applyRemoveByVouts table (UtxoKey.fromTxid x) x (vout :: vouts) = .ok table' from hrun] at hremove
      cases hremove
      rwa [coalesced_nil_right]
    | cons part rest => exact applyCombinedRun_ok h (cons_ne_nil _ _) hs hrun

lemma commitIdentity_of_missing (h : Represents table M) (x : Hash256) (vouts : List UInt32)
    (hs : ScriptsFit parts) {v : UInt32}
    (hv : apply (M x) vouts (bindings parts) v = none) :
    ∃ table', commitIdentity table (identityOf x) vouts parts = .ok table' := by
  cases vouts with
  | nil =>
    cases parts with
    | nil => exact ⟨table, rfl⟩
    | cons part rest =>
      exact applyAddByParts_of_missing h x hs hv
  | cons vout vouts =>
    cases parts with
    | nil =>
      obtain ⟨table', hremove, -⟩ := applyRemoveByVouts_eq h x (vout :: vouts)
      exact ⟨table', hremove⟩
    | cons part rest => exact applyCombinedRun_of_missing h x _ (cons_ne_nil _ _) hs hv

variable {α β : Type} (voutAt : α → UInt32) (partAt : β → OutputParts)

lemma mergeCommitRuns_commits (fuel : ℕ) {removeSpans : List (RunSpan α)} {addSpans : List (RunSpan β)}
    (hr : SpansOk removeSpans) (ha : SpansOk addSpans) (hf : removeSpans.length + addSpans.length ≤ fuel)
    (h : Represents table M) (hs : ∀ x, ScriptsFit (spanItems partAt addSpans x)) :
    Commits (mergeCommitRuns voutAt partAt fuel table removeSpans addSpans)
      (fun x => coalesced (M x) (spanItems voutAt removeSpans x) (spanItems partAt addSpans x))
      (∀ x, ∃ v, apply (M x) (spanItems voutAt removeSpans x) (bindings (spanItems partAt addSpans x)) v = none) := by
  induction fuel generalizing table M removeSpans addSpans with
  | zero =>
    obtain rfl : removeSpans = [] := length_eq_zero_iff.mp (by omega)
    obtain rfl : addSpans = [] := length_eq_zero_iff.mp (by omega)
    have hsame : (fun x => coalesced (M x) (spanItems voutAt ([] : List (RunSpan α)) x)
        (spanItems partAt ([] : List (RunSpan β)) x)) = M := by
      funext x
      exact coalesced_nil_left (M x) []
    rw [hsame]
    exact ⟨fun _ => h, fun _ => rfl⟩
  | succ fuel ih =>
    rw [mergeCommitRuns]
    rcases nextIdentity_cases hr ha with ⟨rfl, rfl, hnext⟩ | ⟨x₀, hnext, hrle, hale, hmem⟩
    · have hsame : (fun x => coalesced (M x) (spanItems voutAt ([] : List (RunSpan α)) x)
          (spanItems partAt ([] : List (RunSpan β)) x)) = M := by
        funext x
        exact coalesced_nil_left (M x) []
      rw [hsame]
      exact ⟨fun _ => h, fun _ => rfl⟩
    obtain ⟨hvouts, hrest⟩ := spans_split hr hrle voutAt
    obtain ⟨hparts, harest⟩ := spans_split ha hale partAt
    have hpart := hs x₀
    simp only [hnext, spanVouts, spanParts, hvouts, hparts]
    cases hrun : commitIdentity table (identityOf x₀) (spanItems voutAt removeSpans x₀)
        (spanItems partAt addSpans x₀) with
    | error fault =>
      refine ⟨fun hok => (by cases hok), fun hroom => ?_⟩
      obtain ⟨v, hv⟩ := hroom x₀
      obtain ⟨table', hok⟩ := commitIdentity_of_missing h x₀ _ hpart hv
      rw [hrun] at hok
      cases hok
    | ok next =>
      have hstep := commitIdentity_ok h hpart hrun
      have hlen : (removeSpans.dropWhile (fun span => span.identity == identityOf x₀)).length +
          (addSpans.dropWhile (fun span => span.identity == identityOf x₀)).length ≤ fuel := by
        have h₁ := (removeSpans.dropWhile_suffix (fun span => span.identity == identityOf x₀)).length_le
        have h₂ := (addSpans.dropWhile_suffix (fun span => span.identity == identityOf x₀)).length_le
        rcases hmem with hmem | hmem
        · have := dropWhile_length_lt hrle hr hmem
          omega
        · have := dropWhile_length_lt hale ha hmem
          omega
      have hnextSpans := ih (hr.sublist (dropWhile_suffix _).sublist)
        (ha.sublist (dropWhile_suffix _).sublist) hlen hstep (fun x part hp => hs x part (by
          rw [harest x] at hp
          split_ifs at hp
          · cases hp
          · exact hp))
      have hfinal : (fun x => coalesced
          (update M x₀ (coalesced (M x₀) (spanItems voutAt removeSpans x₀) (spanItems partAt addSpans x₀)) x)
          (spanItems voutAt (removeSpans.dropWhile (fun span => span.identity == identityOf x₀)) x)
          (spanItems partAt (addSpans.dropWhile (fun span => span.identity == identityOf x₀)) x)) =
          fun x => coalesced (M x) (spanItems voutAt removeSpans x) (spanItems partAt addSpans x) := by
        funext x
        rw [hrest x, harest x]
        by_cases hx : x = x₀
        · rw [if_pos hx, if_pos hx, hx, update_self]
          exact coalesced_nil_left _ []
        · rw [if_neg hx, if_neg hx, update_of_ne hx]
      rw [hfinal] at hnextSpans
      refine ⟨hnextSpans.represents, fun hroom => hnextSpans.succeeds (fun x => ?_)⟩
      obtain ⟨v, hv⟩ := hroom x
      refine ⟨v, ?_⟩
      rw [hrest x, harest x]
      by_cases hx : x = x₀
      · subst hx
        rw [if_pos rfl, if_pos rfl, update_self]
        exact coalesced_of_apply_none hv
      · rwa [if_neg hx, if_neg hx, update_of_ne hx]

lemma commitCoalesced_commits {removeIdentity : α → Identity} {addIdentity : β → Identity}
    {removeTxid : α → Hash256} {addTxid : β → Hash256} (h : Represents table M) {adds : List β} {removes : List α}
    (hr : Canonical removeIdentity removeTxid removes) (ha : Canonical addIdentity addTxid adds)
    (hs : ∀ add ∈ adds, (partAt add).script.length < 2 ^ 16) :
    Commits (commitCoalesced voutAt partAt removeIdentity addIdentity table adds removes)
      (fun x => coalesced (M x) (valuesAt removeTxid voutAt removes x) (valuesAt addTxid partAt adds x))
      (∀ x, ∃ v, apply (M x) (valuesAt removeTxid voutAt removes x)
        (bindings (valuesAt addTxid partAt adds x)) v = none) := by
  have hscripts (x : Hash256) : ScriptsFit (valuesAt addTxid partAt adds x) := by
    intro part hp
    obtain ⟨add, hadd, rfl⟩ := mem_map.mp hp
    exact hs add (mem_of_mem_filter hadd)
  have hmerge := mergeCommitRuns_commits voutAt partAt _ (sortedRunSpans_ok hr) (sortedRunSpans_ok ha)
    (Nat.le_refl _) h (fun x => by
      rw [spanItems_sortedRunSpans ha]
      exact hscripts x)
  simp only [spanItems_sortedRunSpans ha, spanItems_sortedRunSpans hr] at hmerge
  exact hmerge

end

structure RunEdit (γ : Type) where
  edit : (UInt32 → Option OutputParts) → List γ → UInt32 → Option OutputParts
  fits : (UInt32 → Option OutputParts) → List γ → Prop
  edit_nil : ∀ m, edit m [] = m
  edit_append : ∀ m first rest, edit m (first ++ rest) = edit (edit m first) rest
  fits_append : ∀ m first rest, fits m (first ++ rest) → fits m first ∧ fits (edit m first) rest

def removeEdit : RunEdit UInt32 where
  edit := eraseAll
  fits _ _ := True
  edit_nil := eraseAll_nil
  edit_append := eraseAll_append
  fits_append _ _ _ _ := ⟨trivial, trivial⟩

lemma insertAll_bindings_append (m : UInt32 → Option OutputParts) (first rest : List OutputParts) :
    insertAll m (bindings (first ++ rest)) = insertAll (insertAll m (bindings first)) (bindings rest) := by
  rw [bindings, map_append, insertAll_append]
  rfl

def addEdit : RunEdit OutputParts where
  edit m parts := insertAll m (bindings parts)
  fits m parts := ∃ v, insertAll m (bindings parts) v = none
  edit_nil _ := rfl
  edit_append := insertAll_bindings_append
  fits_append m first rest h := by
    obtain ⟨v, hv⟩ := h
    rw [insertAll_bindings_append] at hv
    have hfirst : insertAll m (bindings first) v = none := by
      rw [insertAll_apply, Option.or_eq_none_iff] at hv
      exact hv.2
    exact ⟨⟨v, hfirst⟩, v, hv⟩

lemma valuesAt_append {α γ : Type} (txid : α → Hash256) (value : α → γ) (xs ys : List α) (x : Hash256) :
    valuesAt txid value (xs ++ ys) x = valuesAt txid value xs x ++ valuesAt txid value ys x := by
  rw [valuesAt, filter_append, map_append]
  rfl

lemma valuesAt_run {α γ : Type} (txid : α → Hash256) (value : α → γ) {run : List α} {x₀ : Hash256}
    (h : ∀ item ∈ run, txid item = x₀) (x : Hash256) :
    valuesAt txid value run x = if x = x₀ then run.map value else [] := by
  rw [valuesAt]
  split_ifs with hx
  · rw [filter_eq_self.mpr (fun item hi => by simp [h item hi, hx])]
  · rw [filter_eq_nil_iff.mpr (fun item hi => by simp [h item hi, Ne.symm hx])]
    rfl

section

variable {α γ σ : Type} (txid : α → Hash256) (value : α → γ) (edit : RunEdit γ) (ok : α → Prop)
  (apply : ShardTable × σ → List α → Run (ShardTable × σ))

def EditsRuns : Prop :=
  ∀ (state : ShardTable × σ) (M : Outputs) (x : Hash256) (run : List α), Represents state.1 M → run ≠ [] →
    (∀ item ∈ run, txid item = x) → (∀ item ∈ run, ok item) →
    (∀ next, apply state run = .ok next →
      Represents next.1 (update M x (edit.edit (M x) (run.map value)))) ∧
    (edit.fits (M x) (run.map value) → ∃ next, apply state run = .ok next)

variable {txid value edit ok apply}

section

variable (hedit : EditsRuns txid value edit ok apply)

include hedit

lemma EditsRuns.comap {β : Type} (f : β → α) :
    EditsRuns (fun item => txid (f item)) (fun item => value (f item)) edit (fun item => ok (f item))
      (fun state run => apply state (run.map f)) := by
  intro state M x run h hne htxid hok
  have hmapped := hedit state M x (run.map f) h (by simpa using hne)
    (forall_mem_map.mpr htxid) (forall_mem_map.mpr hok)
  rwa [map_map] at hmapped

lemma applyEach_commits (rs : List (List α))
    (hrs : ∀ run ∈ rs, ∃ first rest, run = first :: rest ∧ ∀ y ∈ rest, txid y = txid first)
    (hok : ∀ run ∈ rs, ∀ item ∈ run, ok item) {state : ShardTable × σ} {M : Outputs}
    (h : Represents state.1 M) :
    Commits ((applyEach apply state rs).1.1, (applyEach apply state rs).2)
      (fun x => edit.edit (M x) (valuesAt txid value rs.flatten x))
      (∀ x, edit.fits (M x) (valuesAt txid value rs.flatten x)) := by
  induction rs generalizing state M with
  | nil =>
    have hsame : (fun x => edit.edit (M x) (valuesAt txid value ([] : List (List α)).flatten x)) = M := by
      funext x
      exact edit.edit_nil (M x)
    rw [hsame]
    exact ⟨fun _ => h, fun _ => rfl⟩
  | cons run rs ih =>
    obtain ⟨first, rest, rfl, hsame⟩ := hrs run mem_cons_self
    have htxid : ∀ item ∈ first :: rest, txid item = txid first := forall_mem_cons.mpr ⟨rfl, hsame⟩
    obtain ⟨hstep, hgoes⟩ := hedit state M (txid first) (first :: rest) h (cons_ne_nil _ _) htxid
      (hok _ mem_cons_self)
    have hat (x : Hash256) : valuesAt txid value ((first :: rest) :: rs).flatten x =
        (if x = txid first then (first :: rest).map value else []) ++ valuesAt txid value rs.flatten x := by
      rw [flatten_cons, valuesAt_append, valuesAt_run txid value htxid]
    rw [applyEach]
    cases hrun : apply state (first :: rest) with
    | error fault =>
      refine ⟨fun hr => (by cases hr), fun hroom => ?_⟩
      have hfits := hroom (txid first)
      rw [hat, if_pos rfl] at hfits
      obtain ⟨next, hnext⟩ := hgoes (edit.fits_append _ _ _ hfits).1
      rw [hrun] at hnext
      cases hnext
    | ok next =>
      have htail := ih (fun run hr => hrs run (mem_cons_of_mem _ hr))
        (fun run hr => hok run (mem_cons_of_mem _ hr)) (hstep next hrun)
      have hfinal (x : Hash256) : edit.edit
          (update M (txid first) (edit.edit (M (txid first)) ((first :: rest).map value)) x)
          (valuesAt txid value rs.flatten x) =
          edit.edit (M x) (valuesAt txid value ((first :: rest) :: rs).flatten x) := by
        rw [hat x, edit.edit_append]
        by_cases hx : x = txid first
        · rw [if_pos hx, hx, update_self]
        · rw [if_neg hx, update_of_ne hx, edit.edit_nil]
      simp only [hfinal] at htail
      refine ⟨htail.represents, fun hroom => htail.succeeds (fun x => ?_)⟩
      have hfits := hroom x
      rw [hat x] at hfits
      by_cases hx : x = txid first
      · subst hx
        rw [if_pos rfl] at hfits
        rw [update_self]
        exact (edit.fits_append _ _ _ hfits).2
      · rw [if_neg hx] at hfits
        rwa [update_of_ne hx]

lemma forEachRun_commits (sameRun : α → α → Bool)
    (hsame : ∀ a b, sameRun a b = true → txid a = txid b) (items : List α) (hok : ∀ item ∈ items, ok item)
    (state : ShardTable × σ) {M : Outputs} (h : Represents state.1 M) :
    Commits ((forEachRun sameRun apply state items).1.1, (forEachRun sameRun apply state items).2)
      (fun x => edit.edit (M x) (valuesAt txid value items x))
      (∀ x, edit.fits (M x) (valuesAt txid value items x)) := by
  have hrs := applyEach_commits hedit (runs sameRun items)
    (fun run hr => by
      obtain ⟨first, rest, rfl, hs⟩ := runs_same sameRun items run hr
      exact ⟨first, rest, rfl, fun y hy => hsame y first (hs y hy)⟩)
    (fun run hr item hi => hok item (mem_of_mem_runs hr hi)) h
  rwa [flatten_runs] at hrs

end

lemma commits_then {first : (ShardTable × σ) × Run Unit} (second : ShardTable × σ → (ShardTable × σ) × Run Unit)
    {M₁ M₂ : Outputs} {room : Prop} (h₁ : Commits (first.1.1, first.2) M₁ True)
    (h₂ : ∀ state : ShardTable × σ, Represents state.1 M₁ → Commits ((second state).1.1, (second state).2) M₂ room)
    {both : (ShardTable × σ) × Run Unit}
    (hboth : first.2 = .ok () → both = second first.1) : Commits (both.1.1, both.2) M₂ room := by
  have hok := h₁.succeeds trivial
  rw [hboth hok]
  exact h₂ first.1 (h₁.represents hok)

end

section

variable {σ : Type} (sink : CommitSink σ)

lemma applyRemoveRun_edits :
    EditsRuns SpendPayload.txid SpendPayload.vout removeEdit (fun remove => remove.key = fromTxid remove.txid)
      (applyRemoveRun sink) := by
  intro state M x run h hne htxid hok
  obtain ⟨first, rest, rfl⟩ := exists_cons_of_ne_nil hne
  have hfirst := htxid first mem_cons_self
  have hkey : first.key = fromTxid first.txid := hok first mem_cons_self
  have hgoes : ∃ next, applyRemoveRun sink state (first :: rest) = .ok next ∧
      Represents next.1 (update M x (eraseAll (M x) ((first :: rest).map SpendPayload.vout))) := by
    simp only [applyRemoveRun, stageRemove, hkey, hfirst]
    rcases h.find_cases x with ⟨-, hfind, -, hm⟩ | ⟨i, hi, -, hfind, hs⟩
    · simp only [hfind, ok_bind, pure_eq_ok]
      refine ⟨_, rfl, ?_⟩
      rw [hm, eraseAll_dead, ← hm, update_eq_self]
      exact h
    · obtain ⟨out, hrun, hout⟩ := removeRunReplacement_eq hs ((first :: rest).map SpendPayload.vout)
      simp only [hfind, hrun, ok_bind, pure_eq_ok]
      exact ⟨_, rfl, h.mutate hout⟩
  obtain ⟨next, hrun, hrep⟩ := hgoes
  refine ⟨fun next' hnext' => ?_, fun _ => ⟨next, hrun⟩⟩
  rw [hrun] at hnext'
  cases hnext'
  exact hrep

lemma applyAddRun_edits {α : Type} (txid : α → Hash256) (payload : α → BuildPayload) (ok : α → Prop)
    (hok : ∀ item, ok item → (payload item).txout.scriptPubkey.length < 2 ^ 16)
    (apply : ShardTable × σ → List α → Run (ShardTable × σ))
    (happly : ∀ state first rest, ok first → apply state (first :: rest) =
      applyAddRun sink (fromTxid (txid first)) (txid first) state ((first :: rest).map payload)) :
    EditsRuns txid (fun item => payloadParts (payload item)) addEdit ok apply := by
  intro state M x run h hne htxid hall
  obtain ⟨first, rest, rfl⟩ := exists_cons_of_ne_nil hne
  have hs : ∀ part ∈ (first :: rest).map (fun item => payloadParts (payload item)), part.script.length < 2 ^ 16 := by
    intro part hp
    obtain ⟨item, hi, rfl⟩ := mem_map.mp hp
    exact hok item (hall item hi)
  rw [happly state first rest (hall first mem_cons_self), htxid first mem_cons_self, applyAddRun,
    map_map, show payloadParts ∘ payload = fun item => payloadParts (payload item) from rfl]
  refine ⟨fun next hrun => ?_, fun hfits => ?_⟩
  · obtain ⟨⟨record, displaced⟩, hrecord, hnext⟩ := bind_eq_ok hrun
    cases hnext
    exact h.replaceRecord (addRunReplacement_ok (h.findRecord_holds x) (by simp) hs hrecord).1
  · obtain ⟨v, hv⟩ := hfits
    obtain ⟨result, hresult⟩ := addRunReplacement_of_missing (h.findRecord_holds x) hs hv
    rw [hresult]
    exact ⟨_, rfl⟩

end

section

variable {table : ShardTable} {M : Outputs}

def specified (M : Outputs) (vouts : Hash256 → List UInt32) (parts : Hash256 → List OutputParts) : Outputs :=
  fun x => apply (M x) (vouts x) (bindings (parts x))

def addsOfRun {α σ : Type} (sink : CommitSink σ) (key : α → UtxoKey) (txid : α → Hash256) (payload : α → BuildPayload)
    (state : ShardTable × σ) (run : List α) : Run (ShardTable × σ) :=
  match run with
  | [] => .ok state
  | first :: _ => applyAddRun sink (key first) (txid first) state (run.map payload)

lemma commitBatchCollectEvents_commits (h : Represents table M) (adds : List AddPayload)
    (removes : List SpendPayload) (ha : ∀ add ∈ adds, add.1 = fromTxid add.2.1 ∧
      add.2.2.txout.scriptPubkey.length < 2 ^ 16)
    (hr : ∀ remove ∈ removes, remove.key = fromTxid remove.txid) :
    Commits ((commitBatchCollectEvents table adds removes).1.1, (commitBatchCollectEvents table adds removes).2)
      (specified M (valuesAt SpendPayload.txid SpendPayload.vout removes)
        (valuesAt (fun add : AddPayload => add.2.1) (fun add => payloadParts add.2.2) adds))
      (∀ x, ∃ v, specified M (valuesAt SpendPayload.txid SpendPayload.vout removes)
        (valuesAt (fun add : AddPayload => add.2.1) (fun add => payloadParts add.2.2) adds) x v = none) := by
  have hremoves := forEachRun_commits (applyRemoveRun_edits eventsSink)
    (fun remove first => remove.key == first.key && remove.txid == first.txid)
    (fun a b hab => by simp only [Bool.and_eq_true, beq_iff_eq] at hab; exact hab.2) removes hr
    (table, []) h
  refine commits_then (fun state => forEachRun (fun add first => add.1 == first.1 && add.2.1 == first.2.1)
    (addsOfRun eventsSink (fun add => add.1) (fun add => add.2.1) (fun add => add.2.2)) state adds)
    ⟨hremoves.represents, fun _ => hremoves.succeeds (fun _ => trivial)⟩ (fun state hs => ?_)
    (fun hok => ?_)
  · refine forEachRun_commits (applyAddRun_edits eventsSink (fun add : AddPayload => add.2.1) (fun add => add.2.2)
      (fun add => add.1 = fromTxid add.2.1 ∧ add.2.2.txout.scriptPubkey.length < 2 ^ 16)
      (fun item hi => hi.2) _ (fun state first rest hfirst => ?_)) _
      (fun a b hab => by simp only [Bool.and_eq_true, beq_iff_eq] at hab; exact hab.2) adds ha state hs
    rw [addsOfRun, ← hfirst.1]
  · rw [commitBatchCollectEvents]
    generalize forEachRun _ (applyRemoveRun eventsSink) (table, []) removes = first at hok ⊢
    obtain ⟨state, result⟩ := first
    cases hok
    show forEachRun _ _ state adds = forEachRun _ _ state adds
    congr 1
    funext state run
    cases run <;> rfl

abbrev AddsFit (adds : List UtxoAdd) : Prop := ∀ add ∈ adds, add.txout.scriptPubkey.length < 2 ^ 16

lemma commitSingleShardWithListener_commits (h : Represents table M) (calls : List ListenerCall)
    (adds : List UtxoAdd) (removes : List OutPoint) (ha : AddsFit adds) :
    Commits ((commitSingleShardWithListener table calls adds removes).1.1,
        (commitSingleShardWithListener table calls adds removes).2)
      (specified M (valuesAt OutPoint.txid OutPoint.vout removes)
        (valuesAt (fun add : UtxoAdd => add.outpoint.txid) (fun add => payloadParts add.payload) adds))
      (∀ x, ∃ v, specified M (valuesAt OutPoint.txid OutPoint.vout removes)
        (valuesAt (fun add : UtxoAdd => add.outpoint.txid) (fun add => payloadParts add.payload) adds) x v = none) := by
  have hremoves := forEachRun_commits ((applyRemoveRun_edits listenerSink).comap
      (fun op : OutPoint => spendPayload op (fromTxid op.txid)))
    (fun (remove first : OutPoint) => remove.txid == first.txid) (fun a b hab => eq_of_beq hab) removes
    (fun _ _ => rfl) (table, calls) h
  refine commits_then (fun state =>
    forEachRun (fun (add first : UtxoAdd) => add.outpoint.txid == first.outpoint.txid)
      (addsOfRun listenerSink (fun add => fromTxid add.outpoint.txid) (fun add => add.outpoint.txid)
        UtxoAdd.payload) state adds)
    ⟨hremoves.represents, fun _ => hremoves.succeeds (fun _ => trivial)⟩ (fun state hs => ?_)
    (fun hok => ?_)
  · exact forEachRun_commits (applyAddRun_edits listenerSink (fun add : UtxoAdd => add.outpoint.txid) UtxoAdd.payload
      (fun add => add.txout.scriptPubkey.length < 2 ^ 16) (fun item hi => hi) _ (fun state first rest _ => rfl)) _
      (fun a b hab => eq_of_beq hab) adds ha state hs
  · rw [commitSingleShardWithListener]
    generalize forEachRun _ _ (table, calls) removes = first at hok ⊢
    obtain ⟨state, result⟩ := first
    cases hok
    show forEachRun _ _ state adds = forEachRun _ _ state adds
    congr 1
    funext state run
    cases run <;> rfl

end

end BitcoinRs.Utxo
