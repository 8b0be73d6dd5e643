import BitcoinRs.Library.Batch
import BitcoinRs.Library.KeyedList
import BitcoinRs.Utxo.RecordRead

namespace BitcoinRs.Utxo

open KeyedList Batch Function Fallible

abbrev lookupPart (parts : List OutputParts) : UInt32 → Option OutputParts := lookup OutputParts.vout parts

structure Arranged (parts : List OutputParts) (inlineLen : ℕ) : Prop where
  distinct : Distinct OutputParts.vout parts
  inlineLen_le_capacity : inlineLen ≤ inlineCapacity
  inlineLen_le_length : inlineLen ≤ parts.length

structure Editable (parts : List OutputParts) (inlineLen : ℕ) : Prop where
  distinct : Distinct OutputParts.vout parts
  inlineLen_le_capacity : inlineLen ≤ inlineCapacity
  inlineLen_le_length : inlineLen ≤ parts.length
  script_lt : ∀ part ∈ parts, part.script.length < 2 ^ 16

def bindings (additions : List OutputParts) : List (UInt32 × OutputParts) :=
  additions.map (fun part => (part.vout, part))

section

variable (parts : List OutputParts) (inlineLen : ℕ) (part : OutputParts)

lemma pushPart_perm (hl : inlineLen ≤ parts.length) : (pushPart parts inlineLen part).1.Perm (part :: parts) := by
  rw [pushPart]
  split_ifs
  · exact List.perm_insertIdx part parts hl
  · exact List.perm_append_singleton part parts

lemma pushPart_inlineLen (hc : inlineLen ≤ inlineCapacity) (hl : inlineLen ≤ parts.length) :
    (pushPart parts inlineLen part).2 ≤ inlineCapacity ∧
      (pushPart parts inlineLen part).2 ≤ (pushPart parts inlineLen part).1.length := by
  have hlen := (pushPart_perm parts inlineLen part hl).length_eq
  rw [List.length_cons] at hlen
  rw [hlen, pushPart]
  split_ifs <;> constructor <;> simp only <;> omega

lemma swapAt_perm (i j : ℕ) : (swapAt parts i j).Perm parts := by
  rw [swapAt]
  split
  · rename_i a b ha hb
    obtain ⟨hi, rfl⟩ := List.getElem?_eq_some_iff.mp ha
    obtain ⟨hj, rfl⟩ := List.getElem?_eq_some_iff.mp hb
    exact List.set_set_perm hi hj
  · exact List.Perm.refl parts

lemma swapAt_getElem? (i j : ℕ) (hi : i < parts.length) (hj : j < parts.length) :
    (swapAt parts i j)[j]? = some parts[i] := by
  rw [swapAt, List.getElem?_eq_getElem hi]
  simp [hj]

variable (index : ℕ)

lemma removePartAt_perm (hi : index < parts.length) (hl : inlineLen ≤ parts.length) :
    (parts[index] :: (removePartAt parts inlineLen index).1).Perm parts := by
  rw [removePartAt]
  split_ifs with h
  · have hj : inlineLen - 1 < (swapAt parts index (inlineLen - 1)).length := by
      rw [(swapAt_perm _ _ _).length_eq]
      omega
    have hget : (swapAt parts index (inlineLen - 1))[inlineLen - 1] = parts[index] := by
      have := swapAt_getElem? parts index (inlineLen - 1) hi (by omega)
      rwa [List.getElem?_eq_getElem hj, Option.some.injEq] at this
    have hperm := List.getElem_cons_eraseIdx_perm hj
    rw [hget] at hperm
    exact hperm.trans (swapAt_perm _ _ _)
  · have hlast : (swapAt parts index (parts.length - 1)).getLast? = some parts[index] := by
      rw [List.getLast?_eq_getElem?, (swapAt_perm _ _ _).length_eq]
      exact swapAt_getElem? parts index (parts.length - 1) hi (by omega)
    obtain ⟨front, hfront⟩ := List.getLast?_eq_some_iff.mp hlast
    have hswap := swapAt_perm parts index (parts.length - 1)
    rw [hfront] at hswap ⊢
    rw [List.dropLast_concat]
    exact (List.perm_append_singleton _ _).symm.trans hswap

lemma removePartAt_inlineLen (hi : index < parts.length)
    (hc : inlineLen ≤ inlineCapacity) (hl : inlineLen ≤ parts.length) :
    (removePartAt parts inlineLen index).2 ≤ inlineCapacity ∧
      (removePartAt parts inlineLen index).2 ≤ (removePartAt parts inlineLen index).1.length := by
  have hlen := (removePartAt_perm parts inlineLen index hi hl).length_eq
  rw [List.length_cons] at hlen
  have hle : (removePartAt parts inlineLen index).2 ≤ parts.length - 1 ∧
      (removePartAt parts inlineLen index).2 ≤ inlineCapacity := by
    rw [removePartAt]
    split_ifs <;> constructor <;> simp only <;> omega
  omega

lemma positionOf_cases (vout : UInt32) :
    (positionOf parts vout = none ∧ lookupPart parts vout = none) ∨
      ∃ i, ∃ hi : i < parts.length, positionOf parts vout = some i ∧ parts[i].vout = vout ∧
        lookupPart parts vout = some parts[i] := by
  cases hf : positionOf parts vout with
  | none =>
    refine Or.inl ⟨rfl, lookup_eq_none.mpr (fun part hp => ?_)⟩
    simpa using List.findIdx?_eq_none_iff.mp hf part hp
  | some i =>
    obtain ⟨hi, hp, hbefore⟩ := List.findIdx?_eq_some_iff_getElem.mp hf
    refine Or.inr ⟨i, hi, rfl, by simpa using hp, ?_⟩
    exact List.find?_eq_some_iff_getElem.mpr ⟨hp, i, hi, rfl, by simpa using hbefore⟩

end

namespace Arranged

variable {parts : List OutputParts} {inlineLen : ℕ}

lemma nil : Arranged [] 0 := ⟨List.nodup_nil, Nat.zero_le _, le_refl 0⟩

section

variable (h : Arranged parts inlineLen)

include h

lemma push (part : OutputParts) (hnew : lookupPart parts part.vout = none) :
    Arranged (pushPart parts inlineLen part).1 (pushPart parts inlineLen part).2 ∧
      lookupPart (pushPart parts inlineLen part).1 =
        update (lookupPart parts) part.vout (some part) := by
  have hperm := pushPart_perm parts inlineLen part h.inlineLen_le_length
  have hlen := pushPart_inlineLen parts inlineLen part h.inlineLen_le_capacity h.inlineLen_le_length
  have hcons := h.distinct.cons hnew
  refine ⟨⟨hcons.perm hperm.symm, hlen.1, hlen.2⟩, ?_⟩
  funext v
  rw [lookupPart, ← hcons.lookup_perm hperm.symm, lookup_cons, update_apply]
  simp only [eq_comm]

lemma removeAt (i : ℕ) (hi : i < parts.length) :
    Arranged (removePartAt parts inlineLen i).1 (removePartAt parts inlineLen i).2 ∧
      lookupPart (removePartAt parts inlineLen i).1 =
        update (lookupPart parts) parts[i].vout none := by
  have hperm := removePartAt_perm parts inlineLen i hi h.inlineLen_le_length
  have hlen := removePartAt_inlineLen parts inlineLen i hi h.inlineLen_le_capacity h.inlineLen_le_length
  have hcons := h.distinct.perm hperm.symm
  refine ⟨⟨hcons.tail, hlen.1, hlen.2⟩, ?_⟩
  funext v
  rw [update_apply, lookupPart, lookupPart, ← hcons.lookup_perm hperm v, lookup_cons]
  by_cases hv : v = parts[i].vout
  · rw [if_pos hv, hv, hcons.lookup_head]
  · rw [if_neg hv, if_neg (Ne.symm hv)]

lemma removeAll (vouts : List UInt32) :
    ∃ left leftLen, removeParts parts inlineLen vouts = (left, leftLen, takeEach (lookupPart parts) vouts) ∧
      Arranged left leftLen ∧ lookupPart left = eraseAll (lookupPart parts) vouts ∧
      left.length ≤ parts.length := by
  induction vouts generalizing parts inlineLen with
  | nil => exact ⟨parts, inlineLen, rfl, h, (eraseAll_nil _).symm, le_refl _⟩
  | cons vout rest ih =>
    rcases positionOf_cases parts vout with ⟨hpos, hnone⟩ | ⟨i, hi, hpos, hvout, hsome⟩
    · have hsame : update (lookupPart parts) vout none = lookupPart parts := by
        rw [← hnone]
        exact update_eq_self vout (lookupPart parts)
      obtain ⟨left, leftLen, hrun, hedit, hlook, hlen⟩ := ih h
      refine ⟨left, leftLen, ?_, hedit, by rw [eraseAll_cons, hsame, hlook], hlen⟩
      simp only [removeParts, hpos, hrun, takeEach, hnone, hsame]
    · obtain ⟨hstep, hlookup⟩ := h.removeAt i hi
      have hshort := (removePartAt_perm parts inlineLen i hi h.inlineLen_le_length).length_eq
      rw [List.length_cons] at hshort
      obtain ⟨left, leftLen, hrun, hedit, hlook, hlen⟩ := ih hstep
      refine ⟨left, leftLen, ?_, hedit, by rw [hlook, hlookup, hvout, eraseAll_cons], by omega⟩
      simp [removeParts, hpos, hrun, takeEach, hsome, hlookup, hvout]

variable (additions : List OutputParts)

lemma appendAll (hd : Distinct OutputParts.vout additions)
    (hnew : ∀ part ∈ additions, lookupPart parts part.vout = none) :
    ∃ edited editedLen, appendParts parts inlineLen additions = (edited, editedLen) ∧
      Arranged edited editedLen ∧ lookupPart edited = insertAll (lookupPart parts) (bindings additions) := by
  induction additions generalizing parts inlineLen with
  | nil => exact ⟨parts, inlineLen, rfl, h, rfl⟩
  | cons addition rest ih =>
    obtain ⟨hstep, hlookup⟩ := h.push addition (hnew addition (by simp))
    obtain ⟨edited, editedLen, hrun, hedit, hlook⟩ := ih hstep hd.tail
      (fun part hp => by
        have hne : part.vout ≠ addition.vout := fun he =>
          lookup_eq_none.mp hd.lookup_head part hp he
        rw [hlookup, update_of_ne hne]
        exact hnew part (by simp [hp]))
    exact ⟨edited, editedLen, hrun, hedit, by rw [hlook, hlookup]; rfl⟩

lemma overwriteAll :
    ∃ edited editedLen, overwriteParts parts inlineLen additions =
        (edited, editedLen, displaceEach (lookupPart parts) (bindings additions)) ∧
      Arranged edited editedLen ∧ lookupPart edited = insertAll (lookupPart parts) (bindings additions) := by
  induction additions generalizing parts inlineLen with
  | nil => exact ⟨parts, inlineLen, rfl, h, rfl⟩
  | cons addition rest ih =>
    rcases positionOf_cases parts addition.vout with ⟨hpos, hnone⟩ | ⟨i, hi, hpos, hvout, hsome⟩
    · obtain ⟨hstep, hlookup⟩ := h.push addition hnone
      obtain ⟨edited, editedLen, hrun, hedit, hlook⟩ := ih hstep
      refine ⟨edited, editedLen, ?_, hedit, by rw [hlook, hlookup]; rfl⟩
      simp [overwriteParts, hpos, hrun, bindings, displaceEach, hnone, hlookup]
    · obtain ⟨hcleared, hclear⟩ := h.removeAt i hi
      rw [hvout] at hclear
      obtain ⟨hstep, hlookup⟩ := hcleared.push addition (by rw [hclear, update_self])
      rw [hclear, update_idem] at hlookup
      obtain ⟨edited, editedLen, hrun, hedit, hlook⟩ := ih hstep
      refine ⟨edited, editedLen, ?_, hedit, by rw [hlook, hlookup]; rfl⟩
      simp [overwriteParts, hpos, hrun, bindings, displaceEach, hsome, hlookup]

lemma editable (hs : ∀ v part, lookupPart parts v = some part → part.script.length < 2 ^ 16) :
    Editable parts inlineLen :=
  ⟨h.distinct, h.inlineLen_le_capacity, h.inlineLen_le_length,
    fun part hp => hs part.vout part (h.distinct.lookup_eq_some.mpr ⟨hp, rfl⟩)⟩

end

end Arranged

namespace Editable

variable {parts : List OutputParts} {inlineLen : ℕ}

lemma nil : Editable [] 0 := Arranged.nil.editable (by simp)

section

variable (h : Editable parts inlineLen)

include h

lemma arranged : Arranged parts inlineLen := ⟨h.distinct, h.inlineLen_le_capacity, h.inlineLen_le_length⟩

variable {part : OutputParts}

lemma script_lt_of_lookup {v : UInt32} (hv : lookupPart parts v = some part) :
    part.script.length < 2 ^ 16 := h.script_lt part (mem_of_lookup hv)

lemma script_lt_of_insertAll {additions : List OutputParts} (hs : ScriptsFit additions)
    {v : UInt32} (hv : insertAll (lookupPart parts) (bindings additions) v = some part) :
    part.script.length < 2 ^ 16 := by
  rw [insertAll_apply, Option.or_eq_some_iff] at hv
  rcases hv with hv | ⟨-, hv⟩
  · obtain ⟨added, hadded, heq⟩ := List.mem_map.mp (mem_of_lastValue _ _ hv)
    cases heq
    exact hs _ hadded
  · exact h.script_lt_of_lookup hv

lemma removeAll (vouts : List UInt32) :
    ∃ left leftLen, removeParts parts inlineLen vouts = (left, leftLen, takeEach (lookupPart parts) vouts) ∧
      Editable left leftLen ∧ lookupPart left = eraseAll (lookupPart parts) vouts ∧
      left.length ≤ parts.length := by
  obtain ⟨left, leftLen, hrun, hleft, hlook, hlen⟩ := h.arranged.removeAll vouts
  refine ⟨left, leftLen, hrun, hleft.editable fun v part hv => ?_, hlook, hlen⟩
  rw [hlook, eraseAll] at hv
  split_ifs at hv
  exact h.script_lt_of_lookup hv

variable (additions : List OutputParts)

lemma appendAll (hs : ScriptsFit additions)
    (hd : Distinct OutputParts.vout additions) (hnew : ∀ part ∈ additions, lookupPart parts part.vout = none) :
    ∃ edited editedLen, appendParts parts inlineLen additions = (edited, editedLen) ∧
      Editable edited editedLen ∧ lookupPart edited = insertAll (lookupPart parts) (bindings additions) := by
  obtain ⟨edited, editedLen, hrun, hedited, hlook⟩ := h.arranged.appendAll additions hd hnew
  refine ⟨edited, editedLen, hrun, hedited.editable fun v part hv => ?_, hlook⟩
  rw [hlook] at hv
  exact h.script_lt_of_insertAll hs hv

lemma overwriteAll (hs : ScriptsFit additions) :
    ∃ edited editedLen, overwriteParts parts inlineLen additions =
        (edited, editedLen, displaceEach (lookupPart parts) (bindings additions)) ∧
      Editable edited editedLen ∧ lookupPart edited = insertAll (lookupPart parts) (bindings additions) := by
  obtain ⟨edited, editedLen, hrun, hedited, hlook⟩ := h.arranged.overwriteAll additions
  refine ⟨edited, editedLen, hrun, hedited.editable fun v part hv => ?_, hlook⟩
  rw [hlook] at hv
  exact h.script_lt_of_insertAll hs hv

end

end Editable

def Stores (record : UtxoRecord) (txid : Hash256) (m : UInt32 → Option OutputParts) : Prop :=
  ∃ pk : Packing, pk.record = record ∧ pk.txid = txid ∧ Distinct OutputParts.vout pk.parts ∧
    pk.parts ≠ [] ∧ lookupPart pk.parts = m

def Holds (existing : Option UtxoRecord) (txid : Hash256) (m : UInt32 → Option OutputParts) : Prop :=
  match existing with
  | none => m = fun _ => none
  | some record => Stores record txid m

lemma holds_none (txid : Hash256) : Holds none txid (fun _ => none) := rfl

def Outcome (out : RemovedRecord) (txid : Hash256) (m m' : UInt32 → Option OutputParts) : Prop :=
  match out with
  | .unchanged => m' = m
  | .emptied => m' = fun _ => none
  | .replaced record => Stores record txid m'

lemma length_lt_of_missing (n v : ℕ) (xs : List ℕ) (hx : xs.Nodup) (hlt : ∀ x ∈ xs, x < n) (hv : v < n)
    (hm : v ∉ xs) : xs.length < n := by
  have hsub : (v :: xs) ⊆ List.range n := fun x hmem => by
    rcases List.mem_cons.mp hmem with rfl | hmem
    · exact List.mem_range.mpr hv
    · exact List.mem_range.mpr (hlt x hmem)
  have hle := (List.subperm_of_subset (List.nodup_cons.mpr ⟨hm, hx⟩) hsub).length_le
  rwa [List.length_range] at hle

variable {parts : List OutputParts} {v : UInt32}

lemma length_lt_of_lookup_none (hd : Distinct OutputParts.vout parts) (hv : lookupPart parts v = none) :
    parts.length < 2 ^ 32 := by
  have hnodup : (parts.map (fun part => part.vout.toNat)).Nodup := by
    have := List.Nodup.map (fun _ _ he => UInt32.toNat_inj.mp he) hd
    rwa [List.map_map] at this
  have h := length_lt_of_missing (2 ^ 32) v.toNat _ hnodup
    (fun x hx => by
      obtain ⟨part, -, rfl⟩ := List.mem_map.mp hx
      exact part.vout.toNat_lt)
    v.toNat_lt
    (fun hmem => by
      obtain ⟨part, hp, he⟩ := List.mem_map.mp hmem
      exact lookup_eq_none.mp hv part hp (UInt32.toNat_inj.mp he))
  rwa [List.length_map] at h

instance instLawfulOrderMaxUInt32 : Std.LawfulOrderMax UInt32 where
  max_eq_or a b := by
    rw [UInt32.max_def]
    split_ifs <;> simp
  max_le_iff a b c := by
    rw [UInt32.max_def]
    split_ifs with h <;> simp only [UInt32.le_iff_toNat_le] at * <;> omega

lemma voutsAreStrictlyIncreasing_iff (previous : Option UInt32) (vouts : List UInt32) :
    voutsAreStrictlyIncreasing previous vouts = true ↔
      (∀ p ∈ previous, ∀ v ∈ vouts, p < v) ∧ vouts.Pairwise (· < ·) := by
  induction vouts generalizing previous with
  | nil => cases previous <;> simp [voutsAreStrictlyIncreasing]
  | cons vout rest ih =>
    cases previous with
    | none => simp [voutsAreStrictlyIncreasing, ih]
    | some p =>
      rw [voutsAreStrictlyIncreasing]
      by_cases h : vout ≤ p
      · have hp : ¬p < vout := UInt32.not_lt.mpr h
        simp [h, hp]
      · have hp : p < vout := UInt32.not_le.mp h
        simp only [h, ↓reduceIte, ih, Option.mem_some_iff, forall_eq', List.forall_mem_cons, List.pairwise_cons, hp,
          true_and]
        exact ⟨fun ⟨h₁, h₂⟩ => ⟨fun v hv => UInt32.lt_trans hp (h₁ v hv), h₁, h₂⟩, fun ⟨_, h₂⟩ => h₂⟩

variable {additions : List OutputParts}

lemma increasing_fresh
    (h : voutsAreStrictlyIncreasing (parts.map (fun part => part.vout)).max?
      (additions.map (fun part => part.vout)) = true) :
    Distinct OutputParts.vout additions ∧ ∀ part ∈ additions, lookupPart parts part.vout = none := by
  obtain ⟨hmax, hpair⟩ := (voutsAreStrictlyIncreasing_iff _ _).mp h
  refine ⟨hpair.imp (fun hlt => UInt32.ne_of_lt hlt), fun part hp => lookup_eq_none.mpr (fun stored hs he => ?_)⟩
  cases hm : (parts.map (fun part => part.vout)).max? with
  | none =>
    rw [List.max?_eq_none_iff, List.map_eq_nil_iff] at hm
    rw [hm] at hs
    cases hs
  | some p =>
    have hle := (List.max?_eq_some_iff.mp hm).2 stored.vout (List.mem_map_of_mem hs)
    have hlt := hmax p hm part.vout (List.mem_map_of_mem hp)
    rw [he] at hle
    exact UInt32.not_lt.mpr hle hlt

variable (m : UInt32 → Option OutputParts)

lemma displaceEach_of_fresh (additions : List OutputParts)
    (hd : Distinct OutputParts.vout additions) (hnew : ∀ part ∈ additions, m part.vout = none) :
    displaceEach m (bindings additions) = additions.map (fun _ => none) := by
  induction additions generalizing m with
  | nil => rfl
  | cons addition rest ih =>
    have htail := ih (Function.update m addition.vout (some addition)) hd.tail (fun part hp => by
      rw [Function.update_of_ne (fun he => lookup_eq_none.mp hd.lookup_head part hp he)]
      exact hnew part (by simp [hp]))
    simp only [bindings, List.map_cons, displaceEach, hnew addition (by simp)] at htail ⊢
    rw [htail]

section

variable (hd : Distinct OutputParts.vout additions)

include hd

lemma lastValue_bindings (v : UInt32) : lastValue (bindings additions) v = lookupPart additions v := by
  induction additions with
  | nil => rfl
  | cons addition rest ih =>
    simp only [bindings, List.map_cons, lastValue] at ih ⊢
    rw [ih hd.tail, lookupPart, lookupPart, lookup_cons]
    by_cases h : v = addition.vout
    · rw [h, hd.lookup_head, Option.none_or]
    · rw [if_neg h, if_neg (Ne.symm h), Option.or_none]

lemma lookupPart_append (hnew : ∀ part ∈ additions, lookupPart parts part.vout = none) :
    lookupPart (parts ++ additions) = insertAll (lookupPart parts) (bindings additions) := by
  funext v
  rw [insertAll_apply, lastValue_bindings hd, lookupPart, lookup, List.find?_append]
  cases hv : lookupPart additions v with
  | none =>
    exact (congrArg (Option.or _) hv).trans (Option.or_none)
  | some part =>
    have hp := hnew part (mem_of_lookup hv)
    rw [key_of_lookup hv] at hp
    exact (congrArg (fun o => Option.or o _) hp).trans hv

end

lemma distinct_append (hp : Distinct OutputParts.vout parts) (hd : Distinct OutputParts.vout additions)
    (hnew : ∀ part ∈ additions, lookupPart parts part.vout = none) :
    Distinct OutputParts.vout (parts ++ additions) := by
  rw [Distinct, List.map_append]
  refine List.Nodup.append hp hd (fun v hv₁ hv₂ => ?_)
  obtain ⟨part, hpart, rfl⟩ := List.mem_map.mp hv₂
  obtain ⟨stored, hstored, he⟩ := List.mem_map.mp hv₁
  exact lookup_eq_none.mp (hnew part hpart) stored hstored he

lemma insertAll_bindings_ne_none (hne : additions ≠ []) : ∃ v, insertAll m (bindings additions) v ≠ none := by
  obtain ⟨addition, rest, rfl⟩ := List.exists_cons_of_ne_nil hne
  refine ⟨addition.vout, fun hnone => ?_⟩
  rw [insertAll_apply, Option.or_eq_none_iff, lastValue_eq_none] at hnone
  simp [bindings] at hnone

lemma ne_nil_of_lookup (h : lookupPart parts v ≠ none) : parts ≠ [] := by
  rintro rfl
  exact h rfl

namespace UtxoRecord

variable {record : UtxoRecord} {inlineLen : ℕ} {txid : Hash256}

lemma fromOutputParts_ok (he : Editable parts inlineLen) (hne : parts ≠ [])
    (h : fromOutputParts txid inlineLen parts = .ok record) : Stores record txid (lookupPart parts) := by
  obtain ⟨buf, hbuf, hrecord⟩ := bind_eq_ok h
  have hl := (encodeRecord_bounds hbuf).1
  obtain ⟨pk, -, htxid, -, hparts, henc⟩ := encodeRecord_eq txid inlineLen parts he.script_lt hl
    ⟨he.inlineLen_le_capacity, he.inlineLen_le_length⟩
  rw [henc] at hbuf
  cases hbuf
  cases hrecord
  exact ⟨pk, rfl, htxid, hparts ▸ he.distinct, hparts ▸ hne, by rw [hparts]⟩

lemma fromOutputParts_of_missing (txid : Hash256) (he : Editable parts inlineLen)
    (hv : lookupPart parts v = none) : ∃ record, fromOutputParts txid inlineLen parts = .ok record := by
  obtain ⟨pk, -, -, -, -, henc⟩ := encodeRecord_eq txid inlineLen parts he.script_lt
    (length_lt_of_lookup_none he.distinct hv) ⟨he.inlineLen_le_capacity, he.inlineLen_le_length⟩
  exact ⟨⟨pk.image⟩, by rw [fromOutputParts, henc, ok_bind, pure_eq_ok]⟩

lemma editable_packing (pk : Packing) (hd : Distinct OutputParts.vout pk.parts) : Editable pk.parts pk.inlineLen :=
  ⟨hd, pk.inlineLen_le_capacity, pk.inlineLen_le_length, pk.script_lt⟩

lemma startParts_holds {existing : Option UtxoRecord} {m : UInt32 → Option OutputParts} (h : Holds existing txid m) :
    ∃ parts inlineLen, startParts existing = .ok (parts, inlineLen) ∧ Editable parts inlineLen ∧
      lookupPart parts = m := by
  cases existing with
  | none => exact ⟨[], 0, rfl, Editable.nil, (show m = _ from h).symm⟩
  | some record =>
    obtain ⟨pk, rfl, -, hd, -, hm⟩ := h
    refine ⟨pk.parts, pk.inlineLen, ?_, editable_packing pk hd, hm⟩
    rw [startParts, pk.record_outputs, ok_bind, pk.record_header, ok_bind, pure_eq_ok]

section

variable {existing : Option UtxoRecord} {m} {displaced : List (Option OutputParts)}

lemma overwriteRun_ok (h : Holds existing txid m) (hne : additions ≠ []) (hs : ScriptsFit additions)
    (hrun : overwriteRun existing txid additions = .ok (record, displaced)) :
    Stores record txid (insertAll m (bindings additions)) ∧ displaced = displaceEach m (bindings additions) := by
  obtain ⟨parts, inlineLen, hstart, hedit, rfl⟩ := startParts_holds h
  obtain ⟨edited, editedLen, hover, hedited, hlook⟩ := hedit.overwriteAll additions hs
  rw [overwriteRun, hstart, ok_bind] at hrun
  simp only [hover] at hrun
  obtain ⟨built, hbuilt, hpair⟩ := bind_eq_ok hrun
  cases hpair
  obtain ⟨v, hv⟩ := insertAll_bindings_ne_none (lookupPart parts) hne
  rw [← hlook] at hv ⊢
  exact ⟨fromOutputParts_ok hedited (ne_nil_of_lookup hv) hbuilt, rfl⟩

lemma overwriteRun_of_missing (h : Holds existing txid m) (hs : ScriptsFit additions)
    (hv : insertAll m (bindings additions) v = none) : ∃ result, overwriteRun existing txid additions = .ok result := by
  obtain ⟨parts, inlineLen, hstart, hedit, rfl⟩ := startParts_holds h
  obtain ⟨edited, editedLen, hover, hedited, hlook⟩ := hedit.overwriteAll additions hs
  rw [← hlook] at hv
  obtain ⟨record, hrecord⟩ := fromOutputParts_of_missing txid hedited hv
  rw [overwriteRun, hstart]
  simp only [hover, hrecord, ok_bind, pure_eq_ok]
  exact ⟨_, rfl⟩

lemma editable_additions (hs : ScriptsFit additions)
    (hd : Distinct OutputParts.vout additions) : Editable additions (min additions.length inlineCapacity) :=
  ⟨hd, Nat.min_le_right _ _, Nat.min_le_left _ _, hs⟩

lemma lookupPart_of_distinct (hd : Distinct OutputParts.vout additions) :
    lookupPart additions = insertAll (fun _ => none) (bindings additions) :=
  show lookupPart ([] ++ additions) = _ from lookupPart_append hd (fun _ _ => rfl)

section

variable (h : Holds existing txid m)

include h

lemma appendRun_ok (hne : additions ≠ []) (hs : ScriptsFit additions)
    (hd : Distinct OutputParts.vout additions) (hnew : ∀ part ∈ additions, m part.vout = none)
    (hrun : appendRun existing txid additions = .ok (record, displaced)) :
    Stores record txid (insertAll m (bindings additions)) ∧ displaced = displaceEach m (bindings additions) := by
  rw [displaceEach_of_fresh m additions hd hnew]
  cases existing with
  | none =>
    obtain rfl : m = fun _ => none := h
    obtain ⟨built, hbuilt, hpair⟩ := bind_eq_ok hrun
    cases hpair
    rw [← lookupPart_of_distinct hd]
    exact ⟨fromOutputParts_ok (editable_additions hs hd) hne hbuilt, rfl⟩
  | some record =>
    obtain ⟨pk, rfl, rfl, hdistinct, hnonempty, rfl⟩ := id h
    obtain ⟨appended, happended, hrest⟩ := bind_eq_ok hrun
    cases appended with
    | some built =>
      cases hrest
      have hl := (Packing.bounds_of_appendUniqueRun happended).1
      rcases pk.record_appendUniqueRun additions hs hl with hnone | ⟨pk', hsome, htxid, hparts, -, -⟩
      · rw [hnone] at happended
        cases happended
      · rw [hsome] at happended
        cases happended
        refine ⟨⟨pk', rfl, htxid, hparts ▸ distinct_append hdistinct hd hnew, ?_, ?_⟩, rfl⟩
        · rw [hparts]
          exact List.append_ne_nil_of_left_ne_nil hnonempty _
        · rw [hparts, lookupPart_append hd hnew]
    | none =>
      obtain ⟨parts, inlineLen, hstart, hedit, hlookup⟩ := startParts_holds h
      rw [← hlookup] at hnew ⊢
      obtain ⟨edited, editedLen, happ, hedited, hlook⟩ := hedit.appendAll additions hs hd hnew
      simp only [hstart, ok_bind, happ] at hrest
      obtain ⟨built, hbuilt, hpair⟩ := bind_eq_ok hrest
      cases hpair
      obtain ⟨v, hv⟩ := insertAll_bindings_ne_none (lookupPart parts) hne
      rw [← hlook] at hv ⊢
      exact ⟨fromOutputParts_ok hedited (ne_nil_of_lookup hv) hbuilt, rfl⟩

lemma appendRun_of_missing (hs : ScriptsFit additions)
    (hd : Distinct OutputParts.vout additions) (hnew : ∀ part ∈ additions, m part.vout = none)
    (hv : insertAll m (bindings additions) v = none) : ∃ result, appendRun existing txid additions = .ok result := by
  cases existing with
  | none =>
    obtain rfl : m = fun _ => none := h
    rw [← lookupPart_of_distinct hd] at hv
    obtain ⟨record, hrecord⟩ := fromOutputParts_of_missing txid (editable_additions hs hd) hv
    simp only [appendRun, hrecord, ok_bind, pure_eq_ok]
    exact ⟨_, rfl⟩
  | some record =>
    obtain ⟨pk, rfl, rfl, hdistinct, hnonempty, rfl⟩ := id h
    have hl : pk.parts.length + additions.length < 2 ^ 32 := by
      rw [← List.length_append]
      exact length_lt_of_lookup_none (distinct_append hdistinct hd hnew)
        (by rw [lookupPart_append hd hnew, hv])
    simp only [appendRun]
    rcases pk.record_appendUniqueRun additions hs hl with hnone | ⟨pk', hsome, -⟩
    · obtain ⟨parts, inlineLen, hstart, hedit, hlookup⟩ := startParts_holds h
      rw [← hlookup] at hnew hv
      obtain ⟨edited, editedLen, happ, hedited, hlook⟩ := hedit.appendAll additions hs hd hnew
      rw [← hlook] at hv
      obtain ⟨built, hbuilt⟩ := fromOutputParts_of_missing pk.txid hedited hv
      simp only [hnone, ok_bind, hstart, happ, hbuilt, pure_eq_ok]
      exact ⟨_, rfl⟩
    · simp only [hsome, ok_bind, pure_eq_ok]
      exact ⟨_, rfl⟩

lemma previousVout_holds :
    ∃ parts, previousVout existing = .ok (parts.map (fun part => part.vout)).max? ∧ lookupPart parts = m := by
  cases existing with
  | none => exact ⟨[], rfl, (show m = _ from h).symm⟩
  | some record =>
    obtain ⟨pk, rfl, rfl, -, -, rfl⟩ := h
    exact ⟨pk.parts, pk.record_maxVout, rfl⟩

lemma addRunReplacement_ok (hne : additions ≠ []) (hs : ScriptsFit additions)
    (hrun : addRunReplacement existing txid additions = .ok (record, displaced)) :
    Stores record txid (insertAll m (bindings additions)) ∧ displaced = displaceEach m (bindings additions) := by
  obtain ⟨parts, hprevious, rfl⟩ := previousVout_holds h
  obtain ⟨previous, hp, hrest⟩ := bind_eq_ok hrun
  rw [hprevious] at hp
  cases hp
  split_ifs at hrest with hinc
  · obtain ⟨hd, hnew⟩ := increasing_fresh hinc
    exact appendRun_ok h hne hs hd hnew hrest
  · exact overwriteRun_ok h hne hs hrest

lemma addRunReplacement_of_missing (hs : ScriptsFit additions) (hv : insertAll m (bindings additions) v = none) :
    ∃ result, addRunReplacement existing txid additions = .ok result := by
  obtain ⟨parts, hprevious, rfl⟩ := previousVout_holds h
  rw [addRunReplacement, hprevious, ok_bind]
  split_ifs with hinc
  · obtain ⟨hd, hnew⟩ := increasing_fresh hinc
    exact appendRun_of_missing h hs hd hnew hv
  · exact overwriteRun_of_missing h hs hv

end

end

end UtxoRecord

open List

lemma takeEach_of_nodup (m : UInt32 → Option OutputParts) (vouts : List UInt32) (hn : vouts.Nodup) :
    takeEach m vouts = vouts.map m := by
  induction vouts generalizing m with
  | nil => rfl
  | cons vout rest ih =>
    obtain ⟨hmem, hrest⟩ := nodup_cons.mp hn
    rw [takeEach, ih _ hrest]
    refine congrArg _ (map_congr_left (fun v hv => ?_))
    have hne : v ≠ vout := fun he => hmem (he ▸ hv)
    rw [update_of_ne hne]

namespace UtxoRecord

variable (pk : Packing)

lemma fullRemovalLoop_eq (earlier vouts : List UInt32) (outputs : List OutputParts) :
    ∃ result, fullRemovalLoop pk.record earlier vouts outputs = .ok result ∧
      ∀ outs, result = some outs → ∃ found, outs = outputs ++ found ∧
        vouts.map (lookupPart pk.parts) = found.map some ∧ vouts.Nodup ∧ ∀ v ∈ vouts, v ∉ earlier := by
  induction vouts generalizing earlier outputs with
  | nil =>
    refine ⟨some outputs, rfl, fun outs ho => ⟨[], ?_, rfl, nodup_nil, by simp⟩⟩
    rw [append_nil]
    exact (Option.some.inj ho).symm
  | cons vout rest ih =>
    rw [fullRemovalLoop]
    by_cases hmem : earlier.contains vout = true
    · exact ⟨none, by rw [if_pos hmem, pure_eq_ok], by simp⟩
    rw [if_neg hmem, pk.record_findOutput]
    cases hfind : pk.parts.find? (fun part => part.vout == vout) with
    | none => exact ⟨none, rfl, by simp⟩
    | some output =>
      obtain ⟨result, hloop, hres⟩ := ih (earlier ++ [vout]) (outputs ++ [output])
      refine ⟨result, hloop, fun outs ho => ?_⟩
      obtain ⟨found, rfl, hmap, hnodup, hnot⟩ := hres outs ho
      have hnew : vout ∉ earlier := by simpa using hmem
      refine ⟨output :: found, by simp, ?_, nodup_cons.mpr ⟨fun hv => ?_, hnodup⟩, ?_⟩
      · rw [map_cons, hmap]
        exact congrArg (· :: found.map some) hfind
      · exact hnot vout hv (by simp)
      · exact forall_mem_cons.mpr ⟨hnew, fun v hv he => hnot v hv (by simp [he])⟩

lemma fullRemovalOutputs_eq (vouts : List UInt32) :
    ∃ result, pk.record.fullRemovalOutputs vouts = .ok result ∧
      ∀ outs, result = some outs → takeEach (lookupPart pk.parts) vouts = outs.map some ∧
        eraseAll (lookupPart pk.parts) vouts = fun _ => none := by
  rw [fullRemovalOutputs, pk.record_outputCount, ok_bind]
  by_cases hcount : pk.parts.length ≠ vouts.length
  · exact ⟨none, by rw [if_pos hcount, pure_eq_ok], by simp⟩
  rw [if_neg hcount]
  obtain ⟨result, hloop, hres⟩ := fullRemovalLoop_eq pk [] vouts []
  refine ⟨result, hloop, fun outs ho => ?_⟩
  obtain ⟨found, rfl, hmap, hnodup, -⟩ := hres outs ho
  refine ⟨by rw [takeEach_of_nodup _ _ hnodup, hmap], ?_⟩
  have hstored : ∀ v ∈ vouts, v ∈ pk.parts.map OutputParts.vout := fun v hv => by
    obtain ⟨part, -, hpart⟩ : ∃ part ∈ outs, some part = lookupPart pk.parts v := by
      have : lookupPart pk.parts v ∈ outs.map some := hmap ▸ mem_map_of_mem hv
      exact mem_map.mp this
    rw [← key_of_lookup hpart.symm]
    exact mem_map_of_mem (mem_of_lookup hpart.symm)
  have hperm : vouts.Perm (pk.parts.map OutputParts.vout) :=
    (subperm_of_subset hnodup hstored).perm_of_length_le (by
      rw [length_map]
      omega)
  funext v
  rw [eraseAll]
  split_ifs with hv
  · rfl
  · refine lookup_eq_none.mpr (fun part hp he => hv (hperm.mem_iff.mpr ?_))
    rw [← he]
    exact mem_map_of_mem hp

variable {record : UtxoRecord} {txid : Hash256} {m}

lemma removeRunReplacement_eq (h : Stores record txid m) (vouts : List UInt32) :
    ∃ out, record.removeRunReplacement vouts = .ok (out, takeEach m vouts) ∧
      Outcome out txid m (eraseAll m vouts) := by
  obtain ⟨pk, rfl, rfl, hd, hnonempty, rfl⟩ := h
  obtain ⟨result, hfull, hres⟩ := fullRemovalOutputs_eq pk vouts
  rw [removeRunReplacement, hfull, ok_bind]
  cases result with
  | some outs =>
    obtain ⟨htake, herase⟩ := hres outs rfl
    exact ⟨.emptied, by rw [htake]; rfl, herase⟩
  | none =>
    obtain ⟨left, leftLen, hremove, hedit, hlook, hlen⟩ := (editable_packing pk hd).removeAll vouts
    simp only [pk.record_outputs, pk.record_header, ok_bind, hremove]
    by_cases hall : (takeEach (lookupPart pk.parts) vouts).all Option.isNone = true
    · refine ⟨.unchanged, by rw [if_pos hall, pure_eq_ok], eraseAll_of_takeEach _ _ (fun v hv => ?_)⟩
      simpa using all_eq_true.mp hall v hv
    rw [if_neg hall]
    by_cases hempty : left.isEmpty = true
    · refine ⟨.emptied, by rw [if_pos hempty, pure_eq_ok], ?_⟩
      rw [List.isEmpty_iff] at hempty
      rw [← hlook, hempty]
      rfl
    rw [if_neg hempty]
    have hne : left ≠ [] := fun he => hempty (by rw [he]; rfl)
    obtain ⟨pk', -, -, -, -, henc⟩ := encodeRecord_eq pk.txid leftLen left hedit.script_lt
      (lt_of_le_of_lt hlen pk.length_lt) ⟨hedit.inlineLen_le_capacity, hedit.inlineLen_le_length⟩
    have hbuilt : fromOutputParts pk.txid leftLen left = .ok pk'.record := by
      rw [fromOutputParts, henc]
      rfl
    rw [pk.record_ownTxid, ok_bind, hbuilt]
    refine ⟨.replaced pk'.record, rfl, ?_⟩
    rw [← hlook]
    exact fromOutputParts_ok hedit hne hbuilt

lemma editParts_eq {parts : List OutputParts} {inlineLen : ℕ} (h : Editable parts inlineLen)
    (vouts : List UInt32) (additions : List OutputParts) (hs : ScriptsFit additions) :
    Editable (editParts parts inlineLen vouts additions).1 (editParts parts inlineLen vouts additions).2 ∧
      lookupPart (editParts parts inlineLen vouts additions).1 =
        apply (lookupPart parts) vouts (bindings additions) := by
  obtain ⟨left, leftLen, hremove, hedit, hlook, -⟩ := h.removeAll vouts
  simp only [editParts, hremove]
  rw [apply, ← hlook]
  split_ifs with hinc
  · obtain ⟨hd, hnew⟩ := increasing_fresh hinc
    have hfresh : ∀ part ∈ additions, lookupPart left part.vout = none := fun part hp => by
      rw [hlook, eraseAll]
      split_ifs
      · rfl
      · exact hnew part hp
    obtain ⟨edited, editedLen, happ, hedited, hl⟩ := hedit.appendAll additions hs hd hfresh
    rw [happ]
    exact ⟨hedited, hl⟩
  · obtain ⟨edited, editedLen, hover, hedited, hl⟩ := hedit.overwriteAll additions hs
    rw [hover]
    exact ⟨hedited, hl⟩

lemma isFullRemoval_eq (pk : Packing) (vouts : List UInt32) :
    ∃ full, pk.record.isFullRemoval vouts = .ok full ∧
      (full = true → eraseAll (lookupPart pk.parts) vouts = fun _ => none) := by
  obtain ⟨result, hfull, hres⟩ := fullRemovalOutputs_eq pk vouts
  refine ⟨result.isSome, by rw [isFullRemoval, hfull, ok_bind, pure_eq_ok], fun hsome => ?_⟩
  obtain ⟨outs, rfl⟩ := Option.isSome_iff_exists.mp hsome
  exact (hres outs rfl).2

lemma editReplacement_ok (h : Stores record txid m) (vouts : List UInt32) (additions : List OutputParts)
    (hs : ScriptsFit additions) {out : RemovedRecord}
    (hrun : record.editReplacement vouts additions = .ok out) :
    Outcome out txid m (apply m vouts (bindings additions)) := by
  obtain ⟨pk, rfl, rfl, hd, -, rfl⟩ := h
  obtain ⟨full, hfull, hempty⟩ := isFullRemoval_eq pk vouts
  rw [editReplacement, hfull] at hrun
  cases full with
  | true =>
    simp only [↓reduceIte, pk.record_ownTxid, ok_bind] at hrun
    rw [apply, hempty rfl]
    by_cases hadd : additions.isEmpty = true
    · rw [if_pos hadd] at hrun
      cases hrun
      rw [isEmpty_iff.mp hadd]
      rfl
    · rw [if_neg hadd] at hrun
      obtain ⟨⟨built, displaced⟩, hbuilt, hout⟩ := bind_eq_ok hrun
      cases hout
      exact (addRunReplacement_ok (holds_none pk.txid) (fun he => hadd (by rw [he]; rfl)) hs hbuilt).1
  | false =>
    obtain ⟨hedited, hlook⟩ := editParts_eq (editable_packing pk hd) vouts additions hs
    simp only [Bool.false_eq_true, ↓reduceIte, pk.record_outputs, pk.record_header, ok_bind, pk.record_ownTxid] at hrun
    rw [← hlook]
    split_ifs at hrun with hnil
    · cases hrun
      rw [isEmpty_iff.mp hnil]
      rfl
    · obtain ⟨built, hbuilt, hout⟩ := bind_eq_ok hrun
      cases hout
      exact fromOutputParts_ok hedited (fun he => hnil (by rw [he]; rfl)) hbuilt

lemma editReplacement_of_missing (h : Stores record txid m) (vouts : List UInt32) (additions : List OutputParts)
    (hs : ScriptsFit additions) {v : UInt32}
    (hv : apply m vouts (bindings additions) v = none) :
    ∃ out, record.editReplacement vouts additions = .ok out := by
  obtain ⟨pk, rfl, rfl, hd, -, rfl⟩ := h
  obtain ⟨full, hfull, hempty⟩ := isFullRemoval_eq pk vouts
  rw [editReplacement, hfull, ok_bind]
  cases full with
  | true =>
    rw [apply, hempty rfl] at hv
    obtain ⟨result, hresult⟩ := addRunReplacement_of_missing (holds_none pk.txid) hs hv
    simp only [↓reduceIte, pk.record_ownTxid, ok_bind, hresult, pure_eq_ok]
    split_ifs <;> exact ⟨_, rfl⟩
  | false =>
    obtain ⟨hedited, hlook⟩ := editParts_eq (editable_packing pk hd) vouts additions hs
    rw [← hlook] at hv
    obtain ⟨built, hbuilt⟩ := fromOutputParts_of_missing pk.txid hedited hv
    simp only [Bool.false_eq_true, ↓reduceIte, pk.record_outputs, pk.record_header, ok_bind,
      pk.record_ownTxid, hbuilt, pure_eq_ok]
    split_ifs <;> exact ⟨_, rfl⟩

end UtxoRecord

end BitcoinRs.Utxo
