import BitcoinRs.Utxo.RecordCheckLaws
import BitcoinRs.Utxo.Shard

namespace BitcoinRs.Utxo

open KeyedList Batch Fallible

def Packs (record : UtxoRecord) (parts : List OutputParts) : Prop :=
  ∃ pk : Packing, pk.record = record ∧ pk.Tight ∧ Distinct OutputParts.vout pk.parts ∧ pk.parts = parts

def Checked (record : UtxoRecord) : Prop := ∃ parts, Packs record parts

namespace UtxoRecord

section

variable {txid : Hash256} {parts : List OutputParts} {inlineLen : ℕ} {record : UtxoRecord}

lemma fromOutputParts_packs (h : Arranged parts inlineLen) (hbuild : fromOutputParts txid inlineLen parts =
    .ok record) :
    Packs record parts := by
  obtain ⟨buf, hbuf, hrecord⟩ := bind_eq_ok hbuild
  obtain ⟨hcount, hinline, hscripts⟩ := encodeRecord_bounds hbuf
  obtain ⟨pk, htight, -, -, hparts, hencode⟩ := encodeRecord_eq txid inlineLen parts hscripts hcount hinline
  rw [hencode] at hbuf
  cases hbuf
  cases hrecord
  exact ⟨pk, rfl, htight, hparts ▸ h.distinct, hparts⟩

lemma arranged_packing (pk : Packing) (hdistinct : Distinct OutputParts.vout pk.parts) :
    Arranged pk.parts pk.inlineLen := ⟨hdistinct, pk.inlineLen_le_capacity, pk.inlineLen_le_length⟩

lemma fromOwnedOutputs_packs {outputs : List OutputParts} (h : fromOwnedOutputs txid outputs = .ok record) :
    Checked record := by
  obtain ⟨buf, -, h⟩ := bind_eq_ok h
  obtain ⟨pk, rfl, -, htight, hdistinct⟩ := fromEncoded_sound h
  exact ⟨pk.parts, pk, rfl, htight, hdistinct, rfl⟩

lemma startParts_checked {existing : Option UtxoRecord} (h : ∀ record ∈ existing, Checked record) :
    ∃ parts inlineLen, startParts existing = .ok (parts, inlineLen) ∧ Arranged parts inlineLen ∧
      previousVout existing = .ok (parts.map (fun part => part.vout)).max? := by
  cases existing with
  | none => exact ⟨[], 0, rfl, Arranged.nil, rfl⟩
  | some record =>
    obtain ⟨parts, pk, rfl, -, hdistinct, rfl⟩ := h record rfl
    refine ⟨pk.parts, pk.inlineLen, ?_, arranged_packing pk hdistinct, pk.record_maxVout⟩
    rw [startParts, pk.record_outputs, ok_bind, pk.record_header, ok_bind, pure_eq_ok]

end

section

variable {existing : Option UtxoRecord} {txid : Hash256} {additions : List OutputParts} {record : UtxoRecord}
  {displaced : List (Option OutputParts)}

lemma ne_nil_of_insertAll {parts edited : List OutputParts}
    (hlook : lookupPart edited = insertAll (lookupPart parts) (bindings additions)) (hne : additions ≠ []) :
    edited ≠ [] := by
  obtain ⟨vout, hvout⟩ := insertAll_bindings_ne_none (lookupPart parts) hne
  rw [← hlook] at hvout
  exact ne_nil_of_lookup hvout

lemma appendUniqueRun_packs {pk : Packing} (htight : pk.Tight) (hdistinct : Distinct OutputParts.vout pk.parts)
    (hd : Distinct OutputParts.vout additions) (hnew : ∀ part ∈ additions, lookupPart pk.parts part.vout = none)
    (h : pk.record.appendUniqueRun additions = .ok (some record)) : Packs record (pk.parts ++ additions) := by
  obtain ⟨hcount, hscripts⟩ := Packing.bounds_of_appendUniqueRun h
  rcases pk.record_appendUniqueRun additions hscripts hcount with hnone | ⟨pk', hsome, -, hparts, htight', -⟩
  · rw [hnone] at h
    cases h
  · rw [hsome] at h
    cases h
    exact ⟨pk', rfl, htight' htight, hparts ▸ distinct_append hdistinct hd hnew, hparts⟩

/-- A record spliced from the bytes of an old one is the one that is built from its outputs and the additions. -/
theorem append_fast_path_exact (buf : Bytes) (record appended : UtxoRecord) (additions : List OutputParts)
    (hvalid : fromEncoded buf = .ok record) (hrun : record.appendUniqueRun additions = .ok (some appended)) :
    ∃ txid parts inlineLen, record.ownTxid = .ok txid ∧ startParts (some record) = .ok (parts, inlineLen) ∧
      fromOutputParts txid (appendParts parts inlineLen additions).2 (appendParts parts inlineLen additions).1 =
        .ok appended := by
  obtain ⟨pk, rfl, -, htight, -⟩ := fromEncoded_sound hvalid
  obtain ⟨hcount, hscripts⟩ := Packing.bounds_of_appendUniqueRun hrun
  refine ⟨pk.txid, pk.parts, pk.inlineLen, pk.record_ownTxid, ?_, ?_⟩
  · rw [startParts, pk.record_outputs, ok_bind, pk.record_header, ok_bind, pure_eq_ok]
  · rcases pk.record_appendUniqueRun additions hscripts hcount with hnone | ⟨pk', hsome, htxid, -, htight', happend⟩
    · rw [hnone] at hrun
      cases hrun
    · rw [hsome] at hrun
      cases hrun
      rw [happend, fromOutputParts, ← htxid, (htight' htight).encodeRecord_image]
      rfl

def packedSample (inlineLen : ℕ) (outputs : List OutputParts) : UtxoRecord :=
  ⟨((encodeRecord .zero inlineLen outputs).toOption).getD []⟩

def thirdOutput : OutputParts := ⟨301, 7, [0x54], false, 700001⟩

theorem append_fast_path_exact_sample :
    (packedSample 2 sampleOutputs).appendUniqueRun [thirdOutput] =
        .ok (some (packedSample 3 (sampleOutputs ++ [thirdOutput]))) ∧
      ∃ txid parts inlineLen, (packedSample 2 sampleOutputs).ownTxid = .ok txid ∧
        startParts (some (packedSample 2 sampleOutputs)) = .ok (parts, inlineLen) ∧
        fromOutputParts txid (appendParts parts inlineLen [thirdOutput]).2
            (appendParts parts inlineLen [thirdOutput]).1 =
          .ok (packedSample 3 (sampleOutputs ++ [thirdOutput])) := by
  have hvalid : fromEncoded (packedSample 2 sampleOutputs).buf = .ok (packedSample 2 sampleOutputs) := by decide +kernel
  have hrun : (packedSample 2 sampleOutputs).appendUniqueRun [thirdOutput] =
      .ok (some (packedSample 3 (sampleOutputs ++ [thirdOutput]))) := by decide +kernel
  exact ⟨hrun, append_fast_path_exact _ _ _ _ hvalid hrun⟩

variable {parts : List OutputParts} {inlineLen : ℕ}

section

variable (h : ∀ record ∈ existing, Checked record)

include h

lemma appendRun_packs (hstart : startParts existing = .ok (parts, inlineLen)) (harranged : Arranged parts inlineLen)
    (hd : Distinct OutputParts.vout additions) (hnew : ∀ part ∈ additions, lookupPart parts part.vout = none)
    (hrun : appendRun existing txid additions = .ok (record, displaced)) :
    ∃ parts, Packs record parts ∧ (additions ≠ [] → parts ≠ []) := by
  cases existing with
  | none =>
    obtain ⟨fresh, hfresh, hpair⟩ := bind_eq_ok hrun
    cases hpair
    exact ⟨additions, fromOutputParts_packs ⟨hd, Nat.min_le_right _ _, Nat.min_le_left _ _⟩ hfresh, id⟩
  | some old =>
    obtain ⟨appended, happended, hrun⟩ := bind_eq_ok hrun
    cases appended with
    | some built =>
      cases hrun
      obtain ⟨_, pk, rfl, htight, hdistinct, rfl⟩ := h old rfl
      have hparts : pk.parts = parts := by
        rw [startParts, pk.record_outputs, pk.record_header] at hstart
        cases hstart
        rfl
      subst hparts
      exact ⟨pk.parts ++ additions, appendUniqueRun_packs htight hdistinct hd hnew happended,
        List.append_ne_nil_of_right_ne_nil _⟩
    | none =>
      obtain ⟨edited, editedLen, hedit, hedited, hlook⟩ := harranged.appendAll additions hd hnew
      simp only [hstart, ok_bind, hedit] at hrun
      obtain ⟨built, hbuilt, hpair⟩ := bind_eq_ok hrun
      cases hpair
      exact ⟨edited, fromOutputParts_packs hedited hbuilt, ne_nil_of_insertAll hlook⟩

lemma addRunReplacement_packs (hrun : addRunReplacement existing txid additions = .ok (record, displaced)) :
    ∃ parts, Packs record parts ∧ (additions ≠ [] → parts ≠ []) := by
  obtain ⟨parts, inlineLen, hstart, harranged, hprevious⟩ := startParts_checked h
  rw [addRunReplacement, hprevious, ok_bind] at hrun
  split_ifs at hrun with hincreasing
  · obtain ⟨hd, hnew⟩ := increasing_fresh hincreasing
    exact appendRun_packs h hstart harranged hd hnew hrun
  · obtain ⟨edited, editedLen, hedit, hedited, hlook⟩ := harranged.overwriteAll additions
    rw [overwriteRun, hstart, ok_bind] at hrun
    simp only [hedit] at hrun
    obtain ⟨built, hbuilt, hpair⟩ := bind_eq_ok hrun
    cases hpair
    exact ⟨edited, fromOutputParts_packs hedited hbuilt, ne_nil_of_insertAll hlook⟩

end

variable {vouts : List UInt32} {replacement : UtxoRecord}

lemma removeRunReplacement_packs (h : Checked record) {found : List (Option OutputParts)}
    (hrun : record.removeRunReplacement vouts = .ok (.replaced replacement, found)) :
    ∃ parts, Packs replacement parts ∧ parts ≠ [] := by
  obtain ⟨_, pk, rfl, -, hdistinct, rfl⟩ := h
  obtain ⟨left, leftLen, hremove, hleft, -, -⟩ := (arranged_packing pk hdistinct).removeAll vouts
  obtain ⟨full, -, hrun⟩ := bind_eq_ok hrun
  cases full with
  | some outputs => cases hrun
  | none =>
    simp only [pk.record_outputs, pk.record_header, ok_bind, hremove, pk.record_ownTxid] at hrun
    split_ifs at hrun with hall hempty
    · cases hrun
    · cases hrun
    · obtain ⟨built, hbuilt, hpair⟩ := bind_eq_ok hrun
      cases hpair
      exact ⟨left, fromOutputParts_packs hleft hbuilt, fun hnil => hempty (by rw [hnil]; rfl)⟩

lemma arranged_editParts (h : Arranged parts inlineLen) (vouts : List UInt32) (additions : List OutputParts) :
    Arranged (editParts parts inlineLen vouts additions).1 (editParts parts inlineLen vouts additions).2 := by
  obtain ⟨left, leftLen, hremove, hleft, hlook, -⟩ := h.removeAll vouts
  simp only [editParts, hremove]
  split_ifs with hincreasing
  · obtain ⟨hd, hnew⟩ := increasing_fresh hincreasing
    have hfresh : ∀ part ∈ additions, lookupPart left part.vout = none := by
      intro part hpart
      rw [hlook, eraseAll]
      split_ifs
      · rfl
      · exact hnew part hpart
    obtain ⟨edited, editedLen, hedit, hedited, -⟩ := hleft.appendAll additions hd hfresh
    rw [hedit]
    exact hedited
  · obtain ⟨edited, editedLen, hedit, hedited, -⟩ := hleft.overwriteAll additions
    rw [hedit]
    exact hedited

lemma editReplacement_packs (h : Checked record)
    (hrun : record.editReplacement vouts additions = .ok (.replaced replacement)) :
    ∃ parts, Packs replacement parts ∧ parts ≠ [] := by
  obtain ⟨_, pk, rfl, -, hdistinct, rfl⟩ := h
  obtain ⟨full, -, hrun⟩ := bind_eq_ok hrun
  simp only [pk.record_outputs, pk.record_header, pk.record_ownTxid, ok_bind] at hrun
  split_ifs at hrun with hfull hadditions hempty
  · cases hrun
  · obtain ⟨⟨built, displaced⟩, hbuilt, hpair⟩ := bind_eq_ok hrun
    cases hpair
    obtain ⟨parts, hpacks, hne⟩ := addRunReplacement_packs (by simp) hbuilt
    exact ⟨parts, hpacks, hne fun hnil => hadditions (by rw [hnil]; rfl)⟩
  · cases hrun
  · obtain ⟨built, hbuilt, hpair⟩ := bind_eq_ok hrun
    cases hpair
    exact ⟨_, fromOutputParts_packs (arranged_editParts (arranged_packing pk hdistinct) vouts additions) hbuilt,
      fun hnil => hempty (by rw [hnil]; rfl)⟩

end

inductive Reachable : UtxoRecord → Prop
  | built {txid outputs record} : Distinct OutputParts.vout outputs → fromOwnedOutputs txid outputs = .ok record →
      Reachable record
  | added {existing : Option UtxoRecord} {txid additions record displaced} :
      (∀ old ∈ existing, Reachable old) →
      addRunReplacement existing txid additions = .ok (record, displaced) → Reachable record
  | removed {old vouts record found} : Reachable old →
      old.removeRunReplacement vouts = .ok (.replaced record, found) → Reachable record
  | edited {old vouts additions record} : Reachable old →
      old.editReplacement vouts additions = .ok (.replaced record) → Reachable record

lemma Reachable.checked {record : UtxoRecord} (h : Reachable record) : Checked record := by
  induction h with
  | built _ hbuilt => exact fromOwnedOutputs_packs hbuilt
  | added _ hadded ih =>
    obtain ⟨parts, hpacks, -⟩ := addRunReplacement_packs ih hadded
    exact ⟨parts, hpacks⟩
  | removed _ hremoved ih =>
    obtain ⟨parts, hpacks, -⟩ := removeRunReplacement_packs ih hremoved
    exact ⟨parts, hpacks⟩
  | edited _ hedited ih =>
    obtain ⟨parts, hpacks, -⟩ := editReplacement_packs ih hedited
    exact ⟨parts, hpacks⟩

end UtxoRecord

section

variable {parts : List OutputParts} {record : UtxoRecord} (h : Packs record parts)

include h

lemma Packs.validateEncoded_ok :
    ∃ header, validateEncoded record.buf = .ok header ∧ header.outputCount = parts.length := by
  obtain ⟨pk, rfl, htight, hdistinct, rfl⟩ := h
  exact ⟨_, pk.validateEncoded_image htight hdistinct, rfl⟩

lemma Packs.outputs_ok : record.outputs = .ok parts := by
  obtain ⟨pk, rfl, -, -, rfl⟩ := h
  exact pk.record_outputs

lemma Packs.findOutput_ok (vout : UInt32) : record.findOutput vout = .ok (lookupPart parts vout) := by
  obtain ⟨pk, rfl, -, -, rfl⟩ := h
  exact pk.record_findOutput vout

lemma Packs.outputCount_ok : record.outputCount = .ok parts.length := by
  obtain ⟨pk, rfl, -, -, rfl⟩ := h
  exact pk.record_outputCount

end

open Runs List UtxoRecord

def Stocked (table : ShardTable) : Prop := ∀ record ∈ table, ∃ parts, Packs record parts ∧ parts ≠ []

lemma stocked_nil : Stocked [] := by
  intro record hrecord
  cases hrecord

variable {record : UtxoRecord}

namespace Stocked

variable {table : ShardTable} (h : Stocked table) {key : UtxoKey} {txid : Hash256}

include h

lemma checked : ∀ record ∈ findRecord table key txid, Checked record := by
  intro record hrecord
  obtain ⟨parts, hpacks, -⟩ := h record (mem_of_find?_eq_some hrecord)
  exact ⟨parts, hpacks⟩

lemma replaceRecord (hrecord : ∃ parts, Packs record parts ∧ parts ≠ []) :
    Stocked (replaceRecord table key txid record) := by
  unfold Utxo.replaceRecord
  intro stored hstored
  split at hstored
  · rcases mem_or_eq_of_mem_set hstored with hstored | rfl
    · exact h stored hstored
    · exact hrecord
  · rcases mem_append.mp hstored with hstored | hstored
    · exact h stored hstored
    · rw [mem_singleton.mp hstored]
      exact hrecord

lemma removeRecord : Stocked (removeRecord table key txid) := by
  unfold Utxo.removeRecord
  intro stored hstored
  split at hstored
  · exact h stored (mem_of_mem_eraseIdx hstored)
  · exact h stored hstored

lemma mutate {out : RemovedRecord} (hout : ∀ record, out = .replaced record → ∃ parts, Packs record parts ∧
    parts ≠ []) :
    Stocked (applyRecordMutation table key txid out.mutation) := by
  cases out with
  | unchanged => exact h
  | emptied => exact h.removeRecord
  | replaced record => exact h.replaceRecord (hout record rfl)

lemma insertRecord (hrecord : Checked record) {table' : ShardTable} (hrun : table.insertRecord record = .ok table') :
    Stocked table' := by
  obtain ⟨parts, hpacks⟩ := hrecord
  rw [ShardTable.insertRecord, hpacks.outputCount_ok, ok_bind] at hrun
  split_ifs at hrun with hempty
  · cases hrun
    exact h
  · obtain ⟨own, -, hpair⟩ := bind_eq_ok hrun
    cases hpair
    exact h.replaceRecord ⟨parts, hpacks, fun hnil => hempty (by rw [hnil]; rfl)⟩

variable {vouts : List UInt32} {parts : List OutputParts} {table' : ShardTable}

lemma applyRemoveByVouts (hrun : applyRemoveByVouts table key txid vouts = .ok table') : Stocked table' := by
  unfold Utxo.applyRemoveByVouts at hrun
  split at hrun
  · cases hrun
    exact h
  · rename_i record hrecord
    obtain ⟨⟨out, found⟩, hremoved, hpair⟩ := bind_eq_ok hrun
    cases hpair
    apply h.mutate
    rintro replacement rfl
    exact removeRunReplacement_packs (h.checked record hrecord) hremoved

lemma applyAddByParts (hne : parts ≠ []) (hrun : applyAddByParts table key txid parts = .ok table') :
    Stocked table' := by
  obtain ⟨⟨replacement, displaced⟩, hadded, hpair⟩ := bind_eq_ok hrun
  cases hpair
  obtain ⟨held, hpacks, hheld⟩ := addRunReplacement_packs h.checked hadded
  exact h.replaceRecord ⟨held, hpacks, hheld hne⟩

lemma applyCombinedRun (hne : parts ≠ []) (hrun : applyCombinedRun table key txid vouts parts = .ok table') :
    Stocked table' := by
  unfold Utxo.applyCombinedRun at hrun
  split at hrun
  · rename_i record hrecord
    obtain ⟨out, hedited, hpair⟩ := bind_eq_ok hrun
    cases hpair
    apply h.mutate
    rintro replacement rfl
    exact editReplacement_packs (h.checked record hrecord) hedited
  · obtain ⟨⟨fresh, displaced⟩, hadded, hrun⟩ := bind_eq_ok hrun
    obtain ⟨held, hpacks, hheld⟩ := addRunReplacement_packs (by simp) hadded
    obtain ⟨out, hedited, hrun⟩ := bind_eq_ok hrun
    cases out with
    | unchanged =>
      cases hrun
      exact h.replaceRecord ⟨held, hpacks, hheld hne⟩
    | emptied =>
      cases hrun
      exact h.removeRecord
    | replaced replacement =>
      cases hrun
      exact h.replaceRecord (editReplacement_packs ⟨held, hpacks⟩ hedited)

lemma commitIdentity {identity : Identity} (hrun : commitIdentity table identity vouts parts = .ok table') :
    Stocked table' := by
  unfold Utxo.commitIdentity at hrun
  split at hrun
  · rename_i hvouts hparts
    exact h.applyCombinedRun (by simpa using hparts) hrun
  · exact h.applyRemoveByVouts hrun
  · rename_i hvouts hparts
    exact h.applyAddByParts (by simpa using hparts) hrun
  · cases hrun
    exact h

end Stocked

section

variable {table : ShardTable}

lemma stocked_mergeCommitRuns {α β : Type} {voutAt : α → UInt32} {partAt : β → OutputParts} (fuel : ℕ)
    (h : Stocked table) (removeSpans : List (RunSpan α)) (addSpans : List (RunSpan β)) :
    Stocked (mergeCommitRuns voutAt partAt fuel table removeSpans addSpans).1 := by
  induction fuel generalizing table removeSpans addSpans with
  | zero => exact h
  | succ fuel ih =>
    unfold mergeCommitRuns
    split
    · exact h
    · split
      · exact h
      · rename_i hnext
        exact ih (h.commitIdentity hnext) _ _

lemma applyEach_keeps {α σ : Type} {I : σ → Prop} {step : σ → α → Run σ} {items : List α} {state : σ}
    (hstep : ∀ state next, ∀ item ∈ items, I state → step state item = .ok next → I next) (h : I state) :
    I (applyEach step state items).1 := by
  induction items generalizing state with
  | nil => exact h
  | cons item rest ih =>
    unfold applyEach
    split
    · rename_i next hnext
      exact ih (fun state next item hitem => hstep state next item (mem_cons_of_mem _ hitem))
        (hstep state next item mem_cons_self h hnext)
    · exact h

lemma forEachRun_keeps {α σ : Type} (I : σ → Prop) (sameRun : α → α → Bool) (apply : σ → List α → Run σ) {state : σ}
    (hstep : ∀ state next run, run ≠ [] → I state → apply state run = .ok next → I next) (h : I state)
    (items : List α) : I (forEachRun sameRun apply state items).1 := by
  refine applyEach_keeps (fun state next run hrun => hstep state next run ?_) h
  obtain ⟨first, rest, rfl, -⟩ := runs_same _ _ run hrun
  exact cons_ne_nil _ _

def StockedState {σ : Type} (state : ShardTable × σ) : Prop := Stocked state.1

variable {σ : Type} {sink : CommitSink σ} {state next : ShardTable × σ}

lemma stocked_applyRemoveRun {removes : List SpendPayload} (h : Stocked state.1)
    (hrun : applyRemoveRun sink state removes = .ok next) : Stocked next.1 := by
  cases removes with
  | nil =>
    cases hrun
    exact h
  | cons first rest =>
    obtain ⟨staged, hstaged, hpair⟩ := bind_eq_ok hrun
    cases hpair
    unfold stageRemove at hstaged
    split at hstaged
    · cases hstaged
      exact h
    · rename_i record hrecord
      obtain ⟨⟨out, found⟩, hremoved, hpair⟩ := bind_eq_ok hstaged
      cases hpair
      apply h.mutate
      rintro replacement rfl
      exact removeRunReplacement_packs (h.checked record hrecord) hremoved

lemma stocked_applyAddRun {key : UtxoKey} {txid : Hash256} {payloads : List BuildPayload} (hne : payloads ≠ [])
    (h : Stocked state.1) (hrun : applyAddRun sink key txid state payloads = .ok next) : Stocked next.1 := by
  obtain ⟨⟨replacement, overwritten⟩, hadded, hpair⟩ := bind_eq_ok hrun
  cases hpair
  obtain ⟨held, hpacks, hheld⟩ := addRunReplacement_packs h.checked hadded
  exact h.replaceRecord ⟨held, hpacks, hheld (by simpa using hne)⟩

lemma stocked_commitBatchCollectEvents (h : Stocked table) (adds : List AddPayload) (removes : List SpendPayload) :
    Stocked (commitBatchCollectEvents table adds removes).1.1 := by
  have hremoves := forEachRun_keeps StockedState
    (fun (remove first : SpendPayload) => remove.key == first.key && remove.txid == first.txid)
    (applyRemoveRun eventsSink) (fun state next run _ hstate hnext => stocked_applyRemoveRun hstate hnext)
    (show StockedState (table, []) from h) removes
  unfold commitBatchCollectEvents
  generalize forEachRun _ (applyRemoveRun eventsSink) (table, []) removes = removed at hremoves ⊢
  obtain ⟨state, result⟩ := removed
  cases result with
  | error fault => exact hremoves
  | ok =>
    refine forEachRun_keeps StockedState _ _ (fun state next run hrun hstate hnext => ?_) hremoves adds
    obtain ⟨first, rest, rfl⟩ := exists_cons_of_ne_nil hrun
    exact stocked_applyAddRun (by simp) hstate hnext

lemma stocked_commitSingleShardWithListener (h : Stocked table) (calls : List ListenerCall) (adds : List UtxoAdd)
    (removes : List OutPoint) : Stocked (commitSingleShardWithListener table calls adds removes).1.1 := by
  have hremoves := forEachRun_keeps StockedState (fun (remove first : OutPoint) => remove.txid == first.txid)
    (fun state run => applyRemoveRun listenerSink state
      (run.map (fun op => spendPayload op (UtxoKey.fromTxid op.txid))))
    (fun state next run _ hstate hnext => stocked_applyRemoveRun hstate hnext)
    (show StockedState (table, calls) from h) removes
  unfold commitSingleShardWithListener
  generalize forEachRun _ _ (table, calls) removes = removed at hremoves ⊢
  obtain ⟨state, result⟩ := removed
  cases result with
  | error fault => exact hremoves
  | ok =>
    refine forEachRun_keeps StockedState _ _ (fun state next run hrun hstate hnext => ?_) hremoves adds
    obtain ⟨first, rest, rfl⟩ := exists_cons_of_ne_nil hrun
    exact stocked_applyAddRun (by simp) hstate hnext

end

inductive ShardReachable : ShardTable → Prop
  | new : ShardReachable []
  | committedBatch {table} (adds removes) : ShardReachable table →
      ShardReachable (commitBatchCoalesced table adds removes).1
  | committedEvents {table} (adds removes) : ShardReachable table →
      ShardReachable (commitBatchCollectEvents table adds removes).1.1
  | committedSingle {table} (adds removes) : ShardReachable table →
      ShardReachable (commitSingleShardCoalesced table adds removes).1
  | committedListener {table} (calls adds removes) : ShardReachable table →
      ShardReachable (commitSingleShardWithListener table calls adds removes).1.1
  | inserted {table buf record table'} : ShardReachable table → UtxoRecord.fromEncoded buf = .ok record →
      table.insertRecord record = .ok table' → ShardReachable table'

lemma ShardReachable.stocked {table : ShardTable} (h : ShardReachable table) : Stocked table := by
  induction h with
  | new => exact stocked_nil
  | committedBatch adds removes _ ih => exact stocked_mergeCommitRuns _ ih _ _
  | committedEvents adds removes _ ih => exact stocked_commitBatchCollectEvents ih adds removes
  | committedSingle adds removes _ ih => exact stocked_mergeCommitRuns _ ih _ _
  | committedListener calls adds removes _ ih => exact stocked_commitSingleShardWithListener ih calls adds removes
  | inserted _ hrecord hinsert ih =>
    obtain ⟨pk, rfl, -, htight, hdistinct⟩ := fromEncoded_sound hrecord
    exact ih.insertRecord ⟨pk.parts, pk, rfl, htight, hdistinct, rfl⟩ hinsert

structure Readable (record : UtxoRecord) : Prop where
  accepted : ∃ header, validateEncoded record.buf = .ok header
  outputs_return : ∃ outputs, record.outputs = .ok outputs
  findOutput_returns : ∀ vout, ∃ output, record.findOutput vout = .ok output

lemma Packs.readable {parts : List OutputParts} (h : Packs record parts) : Readable record := by
  obtain ⟨header, hheader, -⟩ := h.validateEncoded_ok
  exact ⟨⟨header, hheader⟩, ⟨parts, h.outputs_ok⟩, fun vout => ⟨_, h.findOutput_ok vout⟩⟩

/-- Whatever edits led to it a record stays readable, and those in a shard hold an output at least. -/
theorem records_stay_readable :
    (∀ record, UtxoRecord.Reachable record → Readable record) ∧
      ∀ table, ShardReachable table → ∀ record ∈ table,
        Readable record ∧ ∃ count, record.outputCount = .ok count ∧ count ≠ 0 := by
  refine ⟨fun record h => ?_, fun table h record hrecord => ?_⟩
  · obtain ⟨parts, hpacks⟩ := h.checked
    exact hpacks.readable
  · obtain ⟨parts, hpacks, hne⟩ := h.stocked record hrecord
    exact ⟨hpacks.readable, _, hpacks.outputCount_ok, mt length_eq_zero_iff.mp hne⟩

def sampleAdds : List UtxoAdd := [⟨⟨.zero, 0⟩, ⟨5, [0x51]⟩, true, 1⟩, ⟨⟨.zero, 4⟩, ⟨6, []⟩, false, 2⟩]

theorem records_stay_readable_sample :
    Readable (packedSample 2 (sampleOutputs.drop 1 ++ [thirdOutput])) ∧
      ∃ record ∈ (commitSingleShardCoalesced (commitSingleShardCoalesced [] sampleAdds []).1 [] [⟨.zero, 0⟩]).1,
        Readable record := by
  have hbuilt : fromOwnedOutputs .zero sampleOutputs = .ok (packedSample 2 sampleOutputs) := by decide +kernel
  have hedited : (packedSample 2 sampleOutputs).editReplacement [0] [thirdOutput] =
      .ok (.replaced (packedSample 2 (sampleOutputs.drop 1 ++ [thirdOutput]))) := by decide +kernel
  have hlen : (commitSingleShardCoalesced (commitSingleShardCoalesced [] sampleAdds []).1 [] [⟨.zero, 0⟩]).1.length =
      1 := by decide +kernel
  obtain ⟨record, hone⟩ := length_eq_one_iff.mp hlen
  refine ⟨records_stay_readable.1 _ (.edited (.built (by show Nodup _; decide) hbuilt) hedited), record, ?_⟩
  rw [hone]
  exact ⟨mem_cons_self, (records_stay_readable.2 _ (.committedSingle _ _ (.committedSingle _ _ .new)) record
    (hone ▸ mem_cons_self)).1⟩

end BitcoinRs.Utxo
