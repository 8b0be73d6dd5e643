import BitcoinRs.Consensus.Kernel
import BitcoinRs.Script.SoftFork

namespace BitcoinRs.Consensus

open Interpreter FirstFailure

def saturatingAddU32 (a b : ℕ) : ℕ := min (a + b) (2 ^ 32 - 1)

def saturatingMulU32 (a b : ℕ) : ℕ := min (a * b) (2 ^ 32 - 1)

def opChecksig : UInt8 := 0xac
def opChecksigverify : UInt8 := 0xad
def opCheckmultisig : UInt8 := 0xae
def opCheckmultisigverify : UInt8 := 0xaf

def isChecksig (op : UInt8) : Bool := op = opChecksig || op = opChecksigverify

def isCheckmultisig (op : UInt8) : Bool := op = opCheckmultisig || op = opCheckmultisigverify

section

variable (script : Bytes)

def countLegacy : ℕ :=
  (instructions script).foldl (fun count parsed =>
    match parsed.instruction with
    | some (.op op) =>
      if isChecksig op then saturatingAddU32 count 1
      else if isCheckmultisig op then saturatingAddU32 count 20
      else count
    | some (.pushBytes _) => count
    | none => count) 0

def countAccurate : ℕ :=
  ((instructions script).foldl (fun (state : ℕ × Option UInt8) parsed =>
    let (count, pushnumCache) := state
    match parsed.instruction with
    | some (.op op) =>
      if isChecksig op then (saturatingAddU32 count 1, none)
      else if isCheckmultisig op then (saturatingAddU32 count ((pushnumCache.map UInt8.toNat).getD 20), none)
      else (count, decodePushnum op)
    | some (.pushBytes _) => (count, none)
    | none => (count, pushnumCache)) (0, none)).1

def isP2wpkh : Bool := script.length = 22 && byteAt script 0 = 0x00 && byteAt script 1 = 0x14

def isP2wsh : Bool := script.length = 34 && byteAt script 0 = 0x00 && byteAt script 1 = 0x20

def isWitnessProgram : Bool := (witnessProgram script).isSome

def countSegwit (witness : List Bytes) : ℕ :=
  if isP2wpkh script then 1
  else if !isP2wsh script then 0
  else (witness.getLast?.map countAccurate).getD 0

end

def countTxLegacy (tx : Tx) : ℕ :=
  let count := tx.inputs.foldl (fun count input => saturatingAddU32 count (countLegacy input.scriptSig)) 0
  tx.outputs.foldl (fun count output => saturatingAddU32 count (countLegacy output.scriptPubkey)) count

def lastPush (script : Bytes) : Option Bytes :=
  ((instructions script).foldlM (fun (_ : Option Bytes) (parsed : Parsed) =>
    match parsed.instruction with
    | some (.pushBytes bytes) => some (some bytes)
    | some (.op _) => some none
    | none => none) none).join

/-- The output an input spends, and the next cursor: the row at the cursor, or the first row of its outpoint. -/
def sigopPrevout (prevouts : List (OutPoint × TxOut)) (cursor : ℕ) (outpoint : OutPoint) : Option (TxOut × ℕ) :=
  let indexed := ((prevouts.find? fun row => row.1 = outpoint).map Prod.snd).map (·, cursor)
  match prevouts[cursor]? with
  | some (found, output) => if found = outpoint then some (output, cursor + 1) else indexed
  | none => indexed

def inputSigopCost (cost : ℕ) (flags : VerifyFlags) (input : TxIn) (prevout : TxOut) : ℕ :=
  let redeem :=
    if flags.contains .p2sh && isP2sh prevout.scriptPubkey && isPushOnly input.scriptSig then lastPush input.scriptSig
    else none
  let cost :=
    match redeem with
    | some script => saturatingAddU32 cost (saturatingMulU32 (countAccurate script) 4)
    | none => cost
  if flags.contains .witness then
    let program :=
      if isWitnessProgram prevout.scriptPubkey then some prevout.scriptPubkey else redeem.filter isWitnessProgram
    match program with
    | some program => saturatingAddU32 cost (countSegwit program input.witness)
    | none => cost
  else cost

def transactionSigopCost (tx : Tx) (prevouts : List (OutPoint × TxOut)) (flags : VerifyFlags) : ℕ :=
  let cost := saturatingMulU32 (countTxLegacy tx) 4
  if tx.isCoinbase then cost
  else
    (tx.inputs.foldl (fun (state : ℕ × ℕ) input =>
      match sigopPrevout prevouts state.2 input.previousOutput with
      | none => state
      | some (prevout, cursor) => (inputSigopCost state.1 flags.filled input prevout, cursor)) (cost, 0)).1

def locktimeThreshold : UInt32 := 500000000
def sequenceFinal : UInt32 := 0xffffffff
def minCoinbaseScriptSigSize : ℕ := 2
def maxCoinbaseScriptSigSize : ℕ := 100
def maxBlockSigopsCost : ℕ := 80000
def maxMoney : UInt64 := 21000000 * 100000000

abbrev UtxoView := OutPoint → Option TxOut

def isFinalTx (tx : Tx) (blockHeight locktimeCutoff : UInt32) : Bool :=
  if tx.lockTime = 0 then true
  else
    let threshold := if tx.lockTime < locktimeThreshold then blockHeight else locktimeCutoff
    if tx.lockTime < threshold then true else tx.inputs.all fun input => input.sequence = sequenceFinal

def verifyCoinbaseScriptSigSize (tx : Tx) : Checked Unit :=
  match tx.inputs.head?.filter fun _ => tx.isCoinbase with
  | some input =>
    if minCoinbaseScriptSigSize ≤ input.scriptSig.length ∧ input.scriptSig.length ≤ maxCoinbaseScriptSigSize then .ok ()
    else .error (.coinbaseScriptSigSize input.scriptSig.length)
  | none => .ok ()

def checkOutpoint (seen : List OutPoint) (input : TxIn × ℕ) : Checked (List OutPoint) :=
  if input.1.previousOutput.isNull then .error (.nullPrevout input.2)
  else if input.1.previousOutput ∈ seen then .error (.duplicateInput input.2)
  else .ok (seen ++ [input.1.previousOutput])

def verifyTransactionInputOutpoints (tx : Tx) : Checked Unit :=
  if tx.isCoinbase then .ok ()
  else do
    let _ ← tx.inputs.zipIdx.foldlM checkOutpoint []
    return ()

def totalOutputValue (tx : Tx) : Checked UInt64 :=
  tx.outputs.foldlM (fun sum output =>
    match checkedAddU64 sum output.value with
    | none => .error .outputValueOverflow
    | some next => if maxMoney < next then .error .outputValueOverflow else .ok next) 0

def verifyTransactionStructure (tx : Tx) : Checked UInt64 :=
  if tx.inputs.isEmpty then .error .emptyInputs
  else if tx.outputs.isEmpty then .error .emptyOutputs
  else do
    let outputValue ← totalOutputValue tx
    if tx.isCoinbase then verifyCoinbaseScriptSigSize tx else verifyTransactionInputOutpoints tx
    return outputValue

structure TxPrep where
  prevouts : List (OutPoint × TxOut)
  inputValue : UInt64
  outputValue : UInt64

def lookupInput (lookup : ℕ → OutPoint → Option TxOut) (found : List (OutPoint × TxOut) × UInt64)
    (input : TxIn × ℕ) : Checked (List (OutPoint × TxOut) × UInt64) :=
  match lookup input.2 input.1.previousOutput with
  | none => .error (.missingPrevout input.2)
  | some prevout =>
    match checkedAddU64 found.2 prevout.value with
    | none => .error .outputValueOverflow
    | some inputValue => .ok (found.1 ++ [(input.1.previousOutput, prevout)], inputValue)

def prepareTxChecks (tx : Tx) (height locktimeCutoff : UInt32) (lookup : ℕ → OutPoint → Option TxOut) :
    Checked (Option TxPrep) :=
  if !isFinalTx tx height locktimeCutoff then
    .error (.bip "BIP113" (s!"non-final transaction at height {height} locktime cutoff " ++
      s!"{locktimeCutoff}: locktime {tx.lockTime}"))
  else do
    let outputValue ← verifyTransactionStructure tx
    if tx.isCoinbase then return none
    let (prevouts, inputValue) ← tx.inputs.zipIdx.foldlM (lookupInput lookup) ([], 0)
    return some ⟨prevouts, inputValue, outputValue⟩

def finalizeTxValueAndSigops (tx : Tx) (prep : TxPrep) (flags : VerifyFlags) : Checked Unit :=
  if prep.inputValue < prep.outputValue then .error (.inputsLessThanOutputs prep.inputValue prep.outputValue)
  else
    let sigopCost := transactionSigopCost tx prep.prevouts flags
    if maxBlockSigopsCost < sigopCost then .error (.sigopsLimit sigopCost maxBlockSigopsCost) else .ok ()

def checkedAddUsize (a b : ℕ) : Option ℕ := if a + b < 2 ^ 64 then some (a + b) else none

section

variable (prims : Primitives) {lib : KernelLib}

/-- `verify_transaction_with_locktime_cutoff` without a signature cache. -/
def verifyTransactionWithLocktimeCutoff (lib : KernelLib) (tx : Tx) (view : UtxoView) (height locktimeCutoff : UInt32)
    (flags : VerifyFlags) (engine : Option ValidationEngine) : Checked Unit :=
  match engine.filter fun engine => !engine.isSupported lib with
  | some engine => .error (.unsupportedEngine engine)
  | none => do
    match ← prepareTxChecks tx height locktimeCutoff fun _ outpoint => view outpoint with
    | none => return ()
    | some prep =>
      match engine with
      | some engine => verifyTxScripts prims lib tx prep.prevouts flags engine
      | none => pure ()
      finalizeTxValueAndSigops tx prep flags

def verifyTransaction (lib : KernelLib) (tx : Tx) (view : UtxoView) (height locktimeCutoff : UInt32)
    (flags : VerifyFlags) (engine : ValidationEngine) : Checked Unit :=
  verifyTransactionWithLocktimeCutoff prims lib tx view height locktimeCutoff flags (some engine)

variable (lib) in
structure PreparedTx where
  preError : Option ConsensusError
  postError : Option ConsensusError
  checksStart : ℕ
  checksLen : ℕ
  scriptState : Option (ScriptState lib)

structure InputCheck where
  preparedIndex : ℕ
  inputIndex : ℕ

variable (lib) in
structure BlockScriptChecks where
  prepared : List (PreparedTx lib)
  checks : List InputCheck
  flags : VerifyFlags

structure BatchScriptFailure where
  unit : ℕ
  error : ConsensusError

def inputChecks (preparedIndex inputs : ℕ) : List InputCheck :=
  (List.range inputs).map fun inputIndex => ⟨preparedIndex, inputIndex⟩

/-- The loop of `prepare_block_input_checks` from a transaction on, with what is prepared before it and without a
script cache. A row's outputs are taken once each, so that taking one is reading it. -/
def prepareBlockInputChecks (height locktimeCutoff : UInt32) (flags : VerifyFlags) (source : BlockScriptSource lib) :
    ℕ → List (Tx × List (Option TxOut)) → List (PreparedTx lib) → List InputCheck →
    List (PreparedTx lib) × List InputCheck
  | _, [], prepared, checks => (prepared, checks)
  | txIndex, (tx, resolvedInputs) :: rest, prepared, checks =>
    match prepareTxChecks tx height locktimeCutoff fun inputIndex _ => resolvedInputs[inputIndex]?.join with
    | .error preError => (prepared ++ [⟨some preError, none, checks.length, 0, none⟩], checks)
    | .ok none =>
      prepareBlockInputChecks height locktimeCutoff flags source (txIndex + 1) rest
        (prepared ++ [⟨none, none, checks.length, 0, none⟩]) checks
    | .ok (some prep) =>
      let postError := failure (finalizeTxValueAndSigops tx prep flags)
      match source.prepareTx txIndex tx prep.prevouts with
      | .error setupError => (prepared ++ [⟨some setupError, none, checks.length, 0, none⟩], checks)
      | .ok state =>
        let inputs := inputChecks prepared.length tx.inputs.length
        let prepared := prepared ++ [⟨none, postError, checks.length, tx.inputs.length, some state⟩]
        if postError.isSome then (prepared, checks ++ inputs)
        else
          prepareBlockInputChecks height locktimeCutoff flags source (txIndex + 1) rest prepared (checks ++ inputs)

def prepareBlockScriptChecks (txs : List Tx) (resolved : List (List (Option TxOut))) (height locktimeCutoff : UInt32)
    (flags : VerifyFlags) (source : BlockScriptSource lib) : Checked (BlockScriptChecks lib) :=
  if txs.length ≠ resolved.length then .error (.prevoutMatrixSize txs.length resolved.length)
  else
    let (prepared, checks) := prepareBlockInputChecks height locktimeCutoff flags source 0 (txs.zip resolved) [] []
    .ok ⟨prepared, checks, flags⟩

def checkInput (unit : BlockScriptChecks lib) (check : InputCheck) : Checked Unit :=
  match unit.prepared[check.preparedIndex]?.bind PreparedTx.scriptState with
  | none => .error (.kernel "clean non-coinbase tx lost prepared script state")
  | some state => verifyPreparedInput prims state check.inputIndex unit.flags

def runPreparedChecks (units : List (BlockScriptChecks lib)) : List (Checked Unit) :=
  units.flatMap fun unit => unit.checks.map (checkInput prims unit)

def layoutFailure (unit : ℕ) : BatchScriptFailure :=
  ⟨unit, .kernel "internal: prepared script-check layout does not match its results"⟩

def preparedError (prep : PreparedTx lib) (results : List (Checked Unit)) : Except Unit (Option ConsensusError) :=
  match prep.preError with
  | some error => .ok (some error)
  | none =>
    match (checkedAddUsize prep.checksStart prep.checksLen).bind (slice results prep.checksStart) with
    | none => .error ()
    | some slice => .ok ((first slice).or prep.postError)

def firstPreparedError : List (PreparedTx lib) → List (Checked Unit) → Except Unit (Option ConsensusError)
  | [], _ => .ok none
  | prep :: rest, results =>
    match preparedError prep results with
    | .error () => .error ()
    | .ok (some error) => .ok (some error)
    | .ok none => firstPreparedError rest results

def unitOffsets : ℕ → List (BlockScriptChecks lib) → Except BatchScriptFailure (List ℕ)
  | _, [] => .ok []
  | total, unit :: rest =>
    match checkedAddUsize total unit.checks.length with
    | none => .error (layoutFailure 0)
    | some next => do
      let offsets ← unitOffsets next rest
      return total :: offsets

def scanUnits (results : List (Checked Unit)) : ℕ → List (BlockScriptChecks lib × ℕ) → Except BatchScriptFailure Unit
  | _, [] => .ok ()
  | unitIndex, (unit, start) :: rest =>
    match (checkedAddUsize start unit.checks.length).bind (slice results start) with
    | none => .error (layoutFailure unitIndex)
    | some slice =>
      match firstPreparedError unit.prepared slice with
      | .ok (some error) => .error ⟨unitIndex, error⟩
      | .ok none => scanUnits results (unitIndex + 1) rest
      | .error () => .error (layoutFailure unitIndex)

section

variable (units : List (BlockScriptChecks lib))

def firstUnitFailure (results : List (Checked Unit)) :
    Except BatchScriptFailure Unit := do
  let offsets ← unitOffsets 0 units
  scanUnits results 0 (units.zip offsets)

def verifyPreparedUnits : Except BatchScriptFailure Unit := firstUnitFailure units (runPreparedChecks prims units)

end

def verifyBlockInputScripts (txs : List Tx) (resolved : List (List (Option TxOut))) (height locktimeCutoff : UInt32)
    (flags : VerifyFlags) (source : BlockScriptSource lib) : Checked Unit := do
  let unit ← prepareBlockScriptChecks txs resolved height locktimeCutoff flags source
  let results := runPreparedChecks prims [unit]
  (firstUnitFailure [unit] results).mapError BatchScriptFailure.error

end

open Fallible List PreparedTransaction ConsensusError

/-- A view that answers for the inputs of a transaction what its row of resolved outputs holds. The inputs of a
coinbase, and of a transaction that names an outpoint twice, are not looked up. -/
def Resolves (tx : Tx) (row : List (Option TxOut)) (view : UtxoView) : Prop :=
  tx.isCoinbase = false → (tx.inputs.map TxIn.previousOutput).Nodup →
    ∀ (i : ℕ) (input : TxIn), tx.inputs[i]? = some input → view input.previousOutput = row[i]?.join

def AllResolve : List Tx → List (List (Option TxOut)) → List UtxoView → Prop
  | [], [], [] => True
  | tx :: txs, row :: rows, view :: views => Resolves tx row view ∧ AllResolve txs rows views
  | _, _, _ => False

lemma AllResolve.length_rows : ∀ {txs : List Tx} {rows : List (List (Option TxOut))} {views : List UtxoView},
    AllResolve txs rows views → txs.length = rows.length
  | [], [], [], _ => rfl
  | _ :: _, _ :: _, _ :: _, h => congrArg (· + 1) h.2.length_rows

section

variable {tx : Tx} {row : List (Option TxOut)} {view : UtxoView}

lemma nodup_of_outpoints {u : Unit} (hcoinbase : tx.isCoinbase = false)
    (h : verifyTransactionInputOutpoints tx = .ok u) : (tx.inputs.map TxIn.previousOutput).Nodup := by
  unfold verifyTransactionInputOutpoints at h
  rw [hcoinbase] at h
  obtain ⟨seen, hseen, _⟩ := bind_eq_ok h
  have hpassed := foldlM_invariant
    (I := fun passed seen => seen = passed.map (fun input => input.1.previousOutput) ∧ seen.Nodup) hseen
    ⟨rfl, nodup_nil⟩ ?_
  · obtain ⟨hseen, hnodup⟩ := hpassed
    have hmap : tx.inputs.zipIdx.map (fun input => input.1.previousOutput) = tx.inputs.map TxIn.previousOutput := by
      rw [← zipIdx_map_fst 0 tx.inputs, map_map]
      simp only [zipIdx_map_fst]
      rfl
    rwa [hseen, hmap] at hnodup
  · rintro passed input seen next _ ⟨hmap, hnodup⟩ hstep
    unfold checkOutpoint at hstep
    split at hstep
    · cases hstep
    · split at hstep
      · cases hstep
      · rename_i hfresh
        cases hstep
        refine ⟨by rw [hmap, map_append]; rfl, ?_⟩
        rw [← concat_eq_append]
        exact Nodup.concat hfresh hnodup

lemma nodup_of_structure {value : UInt64} (hcoinbase : tx.isCoinbase = false)
    (h : verifyTransactionStructure tx = .ok value) : (tx.inputs.map TxIn.previousOutput).Nodup := by
  unfold verifyTransactionStructure at h
  rw [hcoinbase] at h
  split at h
  · cases h
  · split at h
    · cases h
    · obtain ⟨_, _, h⟩ := bind_eq_ok h
      obtain ⟨_, houtpoints, _⟩ := bind_eq_ok h
      exact nodup_of_outpoints hcoinbase houtpoints

lemma prepareTxChecks_view (hres : Resolves tx row view) (height locktimeCutoff : UInt32) :
    prepareTxChecks tx height locktimeCutoff (fun _ outpoint => view outpoint) =
      prepareTxChecks tx height locktimeCutoff (fun inputIndex _ => row[inputIndex]?.join) := by
  unfold prepareTxChecks
  split
  · rfl
  · cases hstructure : verifyTransactionStructure tx with
    | error e => rfl
    | ok value =>
      cases hcoinbase : tx.isCoinbase with
      | true => rfl
      | false =>
        have hrow := hres hcoinbase (nodup_of_structure hcoinbase hstructure)
        have hloop : tx.inputs.zipIdx.foldlM (lookupInput fun _ outpoint => view outpoint) ([], 0) =
            tx.inputs.zipIdx.foldlM (lookupInput fun inputIndex _ => row[inputIndex]?.join) ([], 0) := by
          apply foldlM_congr
          intro found input hmem
          unfold lookupInput
          dsimp only
          rw [hrow input.2 input.1 (mem_zipIdx_iff_getElem?.mp hmem)]
        rw [hloop]

end

section

variable (prims : Primitives) {lib : KernelLib} {source : BlockScriptSource lib} {index : ℕ} {tx : Tx}

def inputResults (state : ScriptState lib) (flags : VerifyFlags) (inputs : ℕ) : List (Checked Unit) :=
  (range inputs).map fun inputIndex => verifyPreparedInput prims state inputIndex flags

lemma verifyTxScripts_eq (hreads : source.ReadsAt index tx) (spentOutputs : List (OutPoint × TxOut))
    (flags : VerifyFlags) : verifyTxScripts prims lib tx spentOutputs flags source.engine = (do
      let state ← source.prepareTx index tx spentOutputs
      outcome (first (inputResults prims state flags tx.inputs.length))) := by
  cases source with
  | native =>
    change (new tx spentOutputs).mapError ofPrevoutError >>= _ =
      (do let prepared ← (new tx spentOutputs).mapError ofPrevoutError
          pure (ScriptState.native prepared)) >>= _
    cases hnew : new tx spentOutputs with
    | error e => rfl
    | ok prepared =>
      change spentOutputs.zipIdx.forM _ = outcome (first (inputResults prims (.native prepared) flags _))
      rw [forM_eq_outcome_first, ← length_of_new hnew, map_zipIdx_eq spentOutputs (fun _ _ _ => rfl)]
      rfl
  | kernel compiled block =>
    change (validatePrevouts tx spentOutputs).mapError ofPrevoutError >>= _ =
      ((validatePrevouts tx spentOutputs).mapError ofPrevoutError >>= _) >>= _
    cases hvalid : validatePrevouts tx spentOutputs with
    | error e => rfl
    | ok u =>
      change verifyTxScriptsKernel lib tx spentOutputs flags =
        (orKernel (lib.blockTransaction block index) >>= _) >>= _
      unfold verifyTxScriptsKernel
      rw [if_pos compiled, hreads]
      cases orKernel (lib.transactionNew (encodeTx tx)) with
      | error e => rfl
      | ok kernelTx =>
        rw [ok_bind, ok_bind]
        cases prepareKernelTx lib kernelTx spentOutputs with
        | error e => rfl
        | ok state =>
          rw [ok_bind, ok_bind, pure_eq_ok, ok_bind, forM_eq_outcome_first, ← length_of_validatePrevouts hvalid,
            inputResults, map_zipIdx_eq spentOutputs]
          intro i row hrow
          unfold verifyPreparedInput
          dsimp only
          rw [getElem?_map, hrow]
          rfl

lemma BlockScriptSource.isSupported_engine (source : BlockScriptSource lib) : source.engine.isSupported lib = true := by
  cases source with
  | native => rfl
  | kernel compiled block => exact compiled

lemma verifyTransaction_eq {row : List (Option TxOut)} {view : UtxoView} (hreads : source.ReadsAt index tx)
    (hres : Resolves tx row view) (height locktimeCutoff : UInt32) (flags : VerifyFlags) :
    verifyTransaction prims lib tx view height locktimeCutoff flags source.engine =
      match prepareTxChecks tx height locktimeCutoff fun inputIndex _ => row[inputIndex]?.join with
      | .error e => .error e
      | .ok none => .ok ()
      | .ok (some prep) =>
        match source.prepareTx index tx prep.prevouts with
        | .error e => .error e
        | .ok state =>
          outcome ((first (inputResults prims state flags tx.inputs.length)).or
            (failure (finalizeTxValueAndSigops tx prep flags))) := by
  unfold verifyTransaction verifyTransactionWithLocktimeCutoff
  rw [Option.filter_some, if_neg (by rw [source.isSupported_engine]; decide), ← prepareTxChecks_view hres]
  cases prepareTxChecks tx height locktimeCutoff fun _ outpoint => view outpoint with
  | error e => rfl
  | ok found =>
    rw [ok_bind]
    cases found with
    | none => rfl
    | some prep =>
      dsimp only
      rw [verifyTxScripts_eq prims hreads]
      cases source.prepareTx index tx prep.prevouts with
      | error e => rfl
      | ok state =>
        rw [ok_bind]
        dsimp only
        cases first (inputResults prims state flags tx.inputs.length) with
        | some e => rfl
        | none => exact (outcome_failure _).symm

end

section

variable (prims : Primitives) {lib : KernelLib}

def firstPreparedFailure : ℕ → List (PreparedTx lib) → List (Checked Unit) →
    Except Unit (Option (ℕ × ConsensusError))
  | _, [], _ => .ok none
  | t, prep :: rest, results =>
    match preparedError prep results with
    | .error () => .error ()
    | .ok (some error) => .ok (some (t, error))
    | .ok none => firstPreparedFailure (t + 1) rest results

lemma firstPreparedError_eq (prepared : List (PreparedTx lib)) (results : List (Checked Unit)) (t : ℕ) :
    firstPreparedError prepared results = (firstPreparedFailure t prepared results).map (Option.map Prod.snd) := by
  induction prepared generalizing t with
  | nil => rfl
  | cons prep rest ih =>
    rw [firstPreparedError, firstPreparedFailure]
    cases preparedError prep results with
    | error u => rfl
    | ok found =>
      cases found with
      | some e => rfl
      | none => exact ih (t + 1)

variable {unit : BlockScriptChecks lib} {before after : List InputCheck}

lemma preparedError_unchecked (hchecks : unit.checks = before ++ after) (hfits : before.length < 2 ^ 64)
    (preError : Option ConsensusError) :
    preparedError (⟨preError, none, before.length, 0, none⟩ : PreparedTx lib)
      (unit.checks.map (checkInput prims unit)) = .ok preError := by
  unfold preparedError
  cases preError with
  | some e => rfl
  | none =>
    have hslice := slice_append (before.map (checkInput prims unit)) [] (after.map (checkInput prims unit))
    rw [append_nil, ← map_append, ← hchecks, length_map] at hslice
    rw [checkedAddUsize, if_pos (by omega), Option.bind_some]
    rw [length_nil] at hslice
    rw [hslice]
    rfl

lemma preparedError_checked {state : ScriptState lib} {prepared rest : List (PreparedTx lib)} {inputs : ℕ}
    {postError : Option ConsensusError}
    (hprepared : unit.prepared = prepared ++ ⟨none, postError, before.length, inputs, some state⟩ :: rest)
    (hchecks : unit.checks = before ++ inputChecks prepared.length inputs ++ after)
    (hfits : before.length + inputs < 2 ^ 64) :
    preparedError ⟨none, postError, before.length, inputs, some state⟩ (unit.checks.map (checkInput prims unit)) =
      .ok ((first (inputResults prims state unit.flags inputs)).or postError) := by
  have hresults : (inputChecks prepared.length inputs).map (checkInput prims unit) =
      inputResults prims state unit.flags inputs := by
    rw [inputChecks, map_map]
    apply map_congr_left
    intro inputIndex _
    change checkInput prims unit ⟨prepared.length, inputIndex⟩ = _
    unfold checkInput
    rw [hprepared, getElem?_append_right (Nat.le_refl _), Nat.sub_self]
    rfl
  have hslice := slice_append (before.map (checkInput prims unit)) (inputResults prims state unit.flags inputs)
    (after.map (checkInput prims unit))
  rw [← hresults, ← map_append, ← map_append, ← hchecks, hresults] at hslice
  simp only [inputResults, length_map, length_range] at hslice
  unfold preparedError
  rw [checkedAddUsize, if_pos hfits, Option.bind_some, hslice]
  rfl

end

section

variable (prims : Primitives) {lib : KernelLib} (height locktimeCutoff : UInt32) (flags : VerifyFlags)
variable (source : BlockScriptSource lib)

def verifyInOrder : ℕ → List (Tx × UtxoView) → Except (ℕ × ConsensusError) Unit
  | _, [] => .ok ()
  | t, (tx, view) :: rest =>
    match verifyTransaction prims lib tx view height locktimeCutoff flags source.engine with
    | .error e => .error (t, e)
    | .ok () => verifyInOrder (t + 1) rest

def inputCount (txs : List Tx) : ℕ := (txs.map fun tx => tx.inputs.length).sum

variable {height locktimeCutoff flags source}

lemma firstPreparedFailure_eq {txs : List Tx} {rows : List (List (Option TxOut))} {views : List UtxoView} {t : ℕ}
    {prepared : List (PreparedTx lib)} {checks : List InputCheck} (hres : AllResolve txs rows views)
    (hreads : ∀ (i : ℕ) (tx : Tx), txs[i]? = some tx → source.ReadsAt (t + i) tx)
    (hfits : checks.length + inputCount txs < 2 ^ 64) :
    ∃ newPrepared newChecks,
      prepareBlockInputChecks height locktimeCutoff flags source t (txs.zip rows) prepared checks =
        (prepared ++ newPrepared, checks ++ newChecks) ∧
      newChecks.length ≤ inputCount txs ∧
      ∀ unit : BlockScriptChecks lib, unit.prepared = prepared ++ newPrepared → unit.checks = checks ++ newChecks →
        unit.flags = flags →
        firstPreparedFailure t newPrepared (unit.checks.map (checkInput prims unit)) =
          .ok (failure (verifyInOrder prims height locktimeCutoff flags source t (txs.zip views))) := by
  induction txs generalizing rows views t prepared checks with
  | nil =>
    refine ⟨[], [], ?_, Nat.zero_le _, fun _ _ _ _ => rfl⟩
    rw [append_nil, append_nil]
    rfl
  | cons tx txs ih =>
    obtain ⟨row, rows, rfl⟩ : ∃ row rest, rows = row :: rest := by
      cases rows with
      | nil => exact absurd hres.length_rows (by simp)
      | cons row rest => exact ⟨row, rest, rfl⟩
    obtain ⟨view, views, rfl⟩ : ∃ view rest, views = view :: rest := by
      cases views with
      | nil => exact hres.elim
      | cons view rest => exact ⟨view, rest, rfl⟩
    obtain ⟨hres, hrest⟩ := hres
    have hat : source.ReadsAt t tx := hreads 0 tx rfl
    have hnext : ∀ (i : ℕ) (tx : Tx), txs[i]? = some tx → source.ReadsAt (t + 1 + i) tx := by
      intro i tx htx
      rw [Nat.add_right_comm]
      exact hreads (i + 1) tx htx
    have hcount : inputCount (tx :: txs) = tx.inputs.length + inputCount txs := rfl
    rw [zip_cons_cons, zip_cons_cons, verifyInOrder, verifyTransaction_eq prims hat hres, prepareBlockInputChecks]
    cases prepareTxChecks tx height locktimeCutoff fun inputIndex _ => row[inputIndex]?.join with
    | error e =>
      refine ⟨[⟨some e, none, checks.length, 0, none⟩], [], by rw [append_nil], Nat.zero_le _, ?_⟩
      intro unit _ _ _
      rfl
    | ok found =>
      cases found with
      | none =>
        obtain ⟨newPrepared, newChecks, hrun, hlength, hscan⟩ := @ih rows views (t + 1)
          (prepared ++ [⟨none, none, checks.length, 0, none⟩]) checks hrest hnext (by omega)
        refine ⟨⟨none, none, checks.length, 0, none⟩ :: newPrepared, newChecks, ?_, by omega, ?_⟩
        · rw [append_cons prepared _ newPrepared]
          exact hrun
        · intro unit hprepared hchecks hflags
          rw [firstPreparedFailure, preparedError_unchecked prims hchecks (by omega) none]
          exact hscan unit (by rw [hprepared, append_cons]) hchecks hflags
      | some prep =>
        dsimp only
        cases hstate : source.prepareTx t tx prep.prevouts with
        | error e =>
          refine ⟨[⟨some e, none, checks.length, 0, none⟩], [], by rw [append_nil], Nat.zero_le _, ?_⟩
          intro unit _ _ _
          rfl
        | ok state =>
          dsimp only
          generalize failure (finalizeTxValueAndSigops tx prep flags) = postError
          have hinputs : (inputChecks prepared.length tx.inputs.length).length = tx.inputs.length := by
            rw [inputChecks, length_map, length_range]
          cases postError with
          | some e =>
            refine ⟨[⟨none, some e, checks.length, tx.inputs.length, some state⟩],
              inputChecks prepared.length tx.inputs.length, rfl, by omega, ?_⟩
            intro unit hprepared hchecks hflags
            rw [firstPreparedFailure, preparedError_checked prims hprepared (by rw [hchecks, append_nil]) (by omega),
              hflags]
            cases first (inputResults prims state flags tx.inputs.length) <;> rfl
          | none =>
            obtain ⟨newPrepared, newChecks, hrun, hlength, hscan⟩ := @ih rows views (t + 1)
              (prepared ++ [⟨none, none, checks.length, tx.inputs.length, some state⟩])
              (checks ++ inputChecks prepared.length tx.inputs.length) hrest hnext
              (by rw [length_append]; omega)
            refine ⟨⟨none, none, checks.length, tx.inputs.length, some state⟩ :: newPrepared,
              inputChecks prepared.length tx.inputs.length ++ newChecks, ?_,
              by rw [length_append]; omega, ?_⟩
            · rw [append_cons prepared _ newPrepared, ← append_assoc]
              exact hrun
            · intro unit hprepared hchecks hflags
              rw [← append_assoc] at hchecks
              rw [firstPreparedFailure, preparedError_checked prims hprepared hchecks (by omega), hflags]
              cases first (inputResults prims state flags tx.inputs.length) with
              | some e => rfl
              | none => exact hscan unit (by rw [hprepared, append_cons]) hchecks hflags

end

section

variable (prims : Primitives) {lib : KernelLib} {errors : BlockScriptChecks lib → Option ConsensusError}

def unitsInOrder (errors : BlockScriptChecks lib → Option ConsensusError) :
    ℕ → List (BlockScriptChecks lib) → Except BatchScriptFailure Unit
  | _, [] => .ok ()
  | unitIndex, unit :: rest =>
    match errors unit with
    | some error => .error ⟨unitIndex, error⟩
    | none => unitsInOrder errors (unitIndex + 1) rest

variable {units : List (BlockScriptChecks lib)}

lemma scanUnits_eq (before : List (Checked Unit)) (unitIndex : ℕ)
    (hfits : before.length + (units.map fun unit => unit.checks.length).sum < 2 ^ 64)
    (herrors : ∀ unit ∈ units,
      firstPreparedError unit.prepared (unit.checks.map (checkInput prims unit)) = .ok (errors unit)) :
    ∃ offsets, unitOffsets before.length units = .ok offsets ∧
      scanUnits (before ++ runPreparedChecks prims units) unitIndex (units.zip offsets) =
        unitsInOrder errors unitIndex units := by
  induction units generalizing before unitIndex with
  | nil => exact ⟨[], rfl, rfl⟩
  | cons unit rest ih =>
    obtain ⟨hunit, hrest⟩ := forall_mem_cons.mp herrors
    have hlength : (before ++ unit.checks.map (checkInput prims unit)).length = before.length + unit.checks.length := by
      rw [length_append, length_map]
    rw [map_cons, sum_cons] at hfits
    have hadd : checkedAddUsize before.length unit.checks.length = some (before.length + unit.checks.length) :=
      if_pos (by omega)
    obtain ⟨offsets, hoffsets, hscan⟩ := ih (before ++ unit.checks.map (checkInput prims unit)) (unitIndex + 1)
      (by omega) hrest
    refine ⟨before.length :: offsets, ?_, ?_⟩
    · rw [unitOffsets, hadd]
      dsimp only
      rw [← hlength, hoffsets]
      rfl
    · have hrun : before ++ runPreparedChecks prims (unit :: rest) =
          before ++ unit.checks.map (checkInput prims unit) ++ runPreparedChecks prims rest := by
        rw [append_assoc]
        rfl
      have hslice := slice_append before (unit.checks.map (checkInput prims unit)) (runPreparedChecks prims rest)
      rw [length_map] at hslice
      rw [zip_cons_cons, scanUnits, unitsInOrder, hadd, Option.bind_some, hrun, hslice]
      dsimp only
      rw [hunit]
      cases errors unit with
      | some error => rfl
      | none => exact hscan

lemma verifyPreparedUnits_eq (hfits : (units.map fun unit => unit.checks.length).sum < 2 ^ 64)
    (herrors : ∀ unit ∈ units,
      firstPreparedError unit.prepared (unit.checks.map (checkInput prims unit)) = .ok (errors unit)) :
    verifyPreparedUnits prims units = unitsInOrder errors 0 units := by
  obtain ⟨offsets, hoffsets, hscan⟩ := scanUnits_eq prims [] 0 (by rwa [length_nil, Nat.zero_add]) herrors
  unfold verifyPreparedUnits firstUnitFailure
  rw [length_nil] at hoffsets
  rw [hoffsets]
  exact hscan

end

def rowView (tx : Tx) (row : List (Option TxOut)) : UtxoView := fun outpoint =>
  (tx.inputs.findIdx? fun input => input.previousOutput = outpoint).bind fun i => row[i]?.join

lemma resolves_rowView (tx : Tx) (row : List (Option TxOut)) : Resolves tx row (rowView tx row) := by
  intro _ hnodup i input hinput
  obtain ⟨hi, hget⟩ := List.getElem?_eq_some_iff.mp hinput
  have hfind : (tx.inputs.findIdx? fun other => other.previousOutput = input.previousOutput) = some i := by
    rw [findIdx?_eq_some_iff_getElem]
    refine ⟨hi, by rw [hget, decide_eq_true_eq], ?_⟩
    intro j hj hsame
    rw [decide_eq_true_eq] at hsame
    have hmaps : (tx.inputs.map TxIn.previousOutput)[j]? = (tx.inputs.map TxIn.previousOutput)[i]? := by
      rw [getElem?_map, getElem?_map, hinput, getElem?_eq_getElem (by omega), Option.map_some, hsame, Option.map_some]
    exact absurd ((getElem?_inj (by rw [length_map]; omega) hnodup).mp hmaps) (by omega)
  unfold rowView
  rw [hfind]
  rfl

section

variable (prims : Primitives) {lib : KernelLib} (source : BlockScriptSource lib) (height locktimeCutoff : UInt32)
variable (flags : VerifyFlags)

/-- The checks of a block, run apart and then scanned, end as its transactions verified one after another: with no
error, or at the same transaction with the same error. -/
theorem batched_scripts_in_order (txs : List Tx) (resolved : List (List (Option TxOut))) (views : List UtxoView)
    (hres : AllResolve txs resolved views) (hreads : source.Reads txs) (hfits : inputCount txs < 2 ^ 64) :
    verifyBlockInputScripts prims txs resolved height locktimeCutoff flags source =
        (verifyInOrder prims height locktimeCutoff flags source 0 (txs.zip views)).mapError Prod.snd ∧
      ∃ unit, prepareBlockScriptChecks txs resolved height locktimeCutoff flags source = .ok unit ∧
        firstPreparedFailure 0 unit.prepared (runPreparedChecks prims [unit]) =
          .ok (failure (verifyInOrder prims height locktimeCutoff flags source 0 (txs.zip views))) := by
  have hstart : ∀ (i : ℕ) (tx : Tx), txs[i]? = some tx → source.ReadsAt (0 + i) tx := by
    intro i tx htx
    rw [Nat.zero_add]
    exact hreads i tx htx
  obtain ⟨prepared, checks, hrun, hlength, hscan⟩ := @firstPreparedFailure_eq prims lib height locktimeCutoff flags
    source txs resolved views 0 [] [] hres hstart (by rwa [length_nil, Nat.zero_add])
  rw [nil_append, nil_append] at hrun
  have hunit : prepareBlockScriptChecks txs resolved height locktimeCutoff flags source =
      .ok ⟨prepared, checks, flags⟩ := by
    unfold prepareBlockScriptChecks
    rw [if_neg (not_not.mpr hres.length_rows), hrun]
  have hfailure := hscan ⟨prepared, checks, flags⟩ rfl rfl rfl
  have herror := firstPreparedError_eq prepared (checks.map (checkInput prims ⟨prepared, checks, flags⟩)) 0
  rw [hfailure] at herror
  have hverify : verifyPreparedUnits prims [⟨prepared, checks, flags⟩] = unitsInOrder (fun _ =>
      (failure (verifyInOrder prims height locktimeCutoff flags source 0 (txs.zip views))).map Prod.snd) 0
      [⟨prepared, checks, flags⟩] := by
    apply verifyPreparedUnits_eq
    · exact Nat.lt_of_le_of_lt hlength hfits
    · intro unit hmem
      rw [mem_singleton.mp hmem]
      exact herror
  refine ⟨?_, _, hunit, by simpa [runPreparedChecks] using hfailure⟩
  unfold verifyBlockInputScripts
  rw [hunit]
  change (verifyPreparedUnits prims [⟨prepared, checks, flags⟩]).mapError BatchScriptFailure.error = _
  rw [hverify]
  cases verifyInOrder prims height locktimeCutoff flags source 0 (txs.zip views) <;> rfl

def KernelLib.absent : KernelLib where
  compiled := false
  Block := Unit
  Transaction := Unit
  ScriptPubkey := Unit
  TxOut := Unit
  PrecomputedTransactionData := Unit
  blockTransaction _ _ := .ok ()
  transactionNew _ := .ok ()
  scriptPubkeyNew _ := .ok ()
  txOutNew _ _ := ()
  precomputedNew _ _ := .ok ()
  verify _ _ _ _ _ _ := .ok ()
  invalidText := ""

def overspendTxs : List Tx :=
  [⟨1, [⟨⟨.zero, 0xffffffff⟩, [0x51, 0x51], 0xffffffff, []⟩], [⟨50, [0x51]⟩], 0⟩,
    ⟨1, [⟨⟨.zero, 0⟩, [], 0xffffffff, []⟩, ⟨⟨.zero, 1⟩, [], 0xffffffff, []⟩], [⟨30, [0x51]⟩], 0⟩]

def overspendRows : List (List (Option TxOut)) := [[none], [some ⟨10, [0x51]⟩, some ⟨10, [0x00]⟩]]

theorem batched_scripts_in_order_overspend :
    verifyBlockInputScripts Primitives.rejecting overspendTxs overspendRows 1 0 .none
        (.native : BlockScriptSource .absent) = .error (.script 1 "script failed: EVAL_FALSE" .native) ∧
      verifyInOrder Primitives.rejecting 1 0 .none (.native : BlockScriptSource .absent) 0
        (overspendTxs.zip [rowView overspendTxs[0] overspendRows[0], rowView overspendTxs[1] overspendRows[1]]) =
        .error (1, .script 1 "script failed: EVAL_FALSE" .native) := by
  have horder : verifyInOrder Primitives.rejecting 1 0 .none (.native : BlockScriptSource .absent) 0
      (overspendTxs.zip [rowView overspendTxs[0] overspendRows[0], rowView overspendTxs[1] overspendRows[1]]) =
      .error (1, .script 1 "script failed: EVAL_FALSE" .native) := by decide +kernel
  refine ⟨?_, horder⟩
  rw [(batched_scripts_in_order Primitives.rejecting .native 1 0 .none overspendTxs overspendRows
    [rowView overspendTxs[0] overspendRows[0], rowView overspendTxs[1] overspendRows[1]]
    ⟨resolves_rowView _ _, resolves_rowView _ _, trivial⟩ (fun _ _ _ => trivial) (by decide)).1]
  rfl

end

end BitcoinRs.Consensus
