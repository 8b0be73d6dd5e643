import BitcoinRs.Script.Interpreter

namespace BitcoinRs

namespace Interpreter

def ScriptErrCode.display : ScriptErrCode → String
  | .evalFalse => "EVAL_FALSE"
  | .verify => "VERIFY"
  | .equalVerify => "EQUALVERIFY"
  | .checkMultisigVerify => "CHECKMULTISIGVERIFY"
  | .checkSigVerify => "CHECKSIGVERIFY"
  | .numEqualVerify => "NUMEQUALVERIFY"
  | .scriptSize => "SCRIPT_SIZE"
  | .pushSize => "PUSH_SIZE"
  | .opCount => "OP_COUNT"
  | .stackSize => "STACK_SIZE"
  | .sigCount => "SIG_COUNT"
  | .pubkeyCount => "PUBKEY_COUNT"
  | .badOpcode => "BAD_OPCODE"
  | .disabledOpcode => "DISABLED_OPCODE"
  | .invalidStackOperation => "INVALID_STACK_OPERATION"
  | .invalidAltstackOperation => "INVALID_ALTSTACK_OPERATION"
  | .opReturn => "OP_RETURN"
  | .unbalancedConditional => "UNBALANCED_CONDITIONAL"
  | .negativeLocktime => "NEGATIVE_LOCKTIME"
  | .unsatisfiedLocktime => "UNSATISFIED_LOCKTIME"
  | .sigHashtype => "SIG_HASHTYPE"
  | .sigDer => "SIG_DER"
  | .minimalData => "MINIMALDATA"
  | .sigPushonly => "SIG_PUSHONLY"
  | .sigHighS => "SIG_HIGH_S"
  | .sigNullDummy => "SIG_NULLDUMMY"
  | .minimalIf => "MINIMALIF"
  | .sigNullFail => "SIG_NULLFAIL"
  | .discourageUpgradableNops => "DISCOURAGE_UPGRADABLE_NOPS"
  | .discourageUpgradableWitnessProgram => "DISCOURAGE_UPGRADABLE_WITNESS_PROGRAM"
  | .discourageUpgradableTaprootVersion => "DISCOURAGE_UPGRADABLE_TAPROOT_VERSION"
  | .discourageOpSuccess => "DISCOURAGE_OP_SUCCESS"
  | .discourageUpgradablePubkeyType => "DISCOURAGE_UPGRADABLE_PUBKEYTYPE"
  | .pubkeyType => "PUBKEYTYPE"
  | .cleanStack => "CLEANSTACK"
  | .witnessProgramWrongLength => "WITNESS_PROGRAM_WRONG_LENGTH"
  | .witnessProgramWitnessEmpty => "WITNESS_PROGRAM_WITNESS_EMPTY"
  | .witnessProgramMismatch => "WITNESS_PROGRAM_MISMATCH"
  | .witnessMalleated => "WITNESS_MALLEATED"
  | .witnessMalleatedP2sh => "WITNESS_MALLEATED_P2SH"
  | .witnessUnexpected => "WITNESS_UNEXPECTED"
  | .witnessPubkeyType => "WITNESS_PUBKEYTYPE"
  | .schnorrSigSize => "SCHNORR_SIG_SIZE"
  | .schnorrSigHashtype => "SCHNORR_SIG_HASHTYPE"
  | .schnorrSig => "SCHNORR_SIG"
  | .taprootWrongControlSize => "TAPROOT_WRONG_CONTROL_SIZE"
  | .tapscriptValidationWeight => "TAPSCRIPT_VALIDATION_WEIGHT"
  | .tapscriptCheckMultiSig => "TAPSCRIPT_CHECKMULTISIG"
  | .tapscriptMinimalIf => "TAPSCRIPT_MINIMALIF"
  | .tapscriptEmptyPubkey => "TAPSCRIPT_EMPTY_PUBKEY"
  | .opCodeSeparator => "OP_CODESEPARATOR"
  | .sigFindAndDelete => "SIG_FINDANDDELETE"
  | .scriptNum => "SCRIPTNUM"

def ScriptError.display : ScriptError → String
  | .inputIndexOutOfRange index inputs => s!"input index {index} out of range for {inputs} inputs"
  | .verification reason => s!"script verification failed: {reason}"
  | .taprootPrevoutsUnavailable => "prevout count does not match transaction input count"
  | .invalid code => s!"script failed: {code.display}"

end Interpreter

namespace Consensus

inductive ValidationEngine
  | native
  | kernel
  deriving DecidableEq

inductive ScriptEngine
  | kernel
  | native
  deriving DecidableEq

inductive ConsensusError
  | emptyInputs
  | emptyOutputs
  | coinbaseScriptSigSize (len : ℕ)
  | nullPrevout (inputIndex : ℕ)
  | duplicateInput (inputIndex : ℕ)
  | missingPrevout (inputIndex : ℕ)
  | outputValueOverflow
  | inputsLessThanOutputs (inputValue outputValue : UInt64)
  | script (inputIndex : ℕ) (reason : String) (engine : ScriptEngine)
  | sigopsLimit (cost max : ℕ)
  | bip (bip reason : String)
  | prevoutMatrixSize (expected actual : ℕ)
  | prevoutCount (inputCount prevoutCount : ℕ)
  | prevoutMismatch (inputIndex : ℕ)
  | unsupportedEngine (engine : ValidationEngine)
  | kernel (text : String)
  deriving DecidableEq

abbrev Checked := Except ConsensusError

end Consensus

end BitcoinRs

namespace BitcoinRs.Interpreter

inductive PrevoutError
  | count (inputCount prevoutCount : ℕ)
  | mismatch (inputIndex : ℕ)

def validatePrevouts (tx : Tx) (prevouts : List (OutPoint × TxOut)) : Except PrevoutError Unit :=
  if prevouts.length ≠ tx.inputs.length then .error (.count tx.inputs.length prevouts.length)
  else
    match (tx.inputs.zip prevouts).findIdx? fun (input, row) => input.previousOutput ≠ row.1 with
    | some inputIndex => .error (.mismatch inputIndex)
    | none => .ok ()

lemma length_of_validatePrevouts {tx : Tx} {prevouts : List (OutPoint × TxOut)} {u : Unit}
    (h : validatePrevouts tx prevouts = .ok u) : prevouts.length = tx.inputs.length := by
  unfold validatePrevouts at h
  split at h
  · cases h
  · rename_i hlen
    exact not_not.mp hlen

namespace PreparedTransaction

def new (tx : Tx) (prevouts : List (OutPoint × TxOut)) : Except PrevoutError PreparedTransaction :=
  match h : validatePrevouts tx prevouts with
  | .error e => .error e
  | .ok _ => .ok ⟨tx, prevouts.map Prod.snd, by rw [List.length_map, length_of_validatePrevouts h]⟩

def fromOwned (tx : Tx) (prevouts : List (OutPoint × TxOut)) : Except PrevoutError PreparedTransaction :=
  new tx prevouts

lemma length_of_new {tx : Tx} {prevouts : List (OutPoint × TxOut)} {prepared : PreparedTransaction}
    (h : new tx prevouts = .ok prepared) : prevouts.length = tx.inputs.length := by
  unfold new at h
  split at h
  · cases h
  · rename_i hvalid
    exact length_of_validatePrevouts hvalid

end PreparedTransaction

def VerifyFlags.kernelBits (flags : VerifyFlags) : UInt32 := flags.bits &&& mandatory.bits

end BitcoinRs.Interpreter

namespace BitcoinRs.Consensus

open Interpreter

def ConsensusError.ofPrevoutError : PrevoutError → ConsensusError
  | .count inputs prevouts => .prevoutCount inputs prevouts
  | .mismatch inputIndex => .prevoutMismatch inputIndex

inductive KernelError
  | scriptInvalid
  | other (text : String)

/-- The library behind the feature `kernel`: whether it is compiled in, and its calls, any functions of their
arguments that fail with a text. -/
structure KernelLib where
  compiled : Bool
  Block : Type
  Transaction : Type
  ScriptPubkey : Type
  TxOut : Type
  PrecomputedTransactionData : Type
  blockTransaction : Block → ℕ → Except String Transaction
  transactionNew : Bytes → Except String Transaction
  scriptPubkeyNew : Bytes → Except String ScriptPubkey
  txOutNew : ScriptPubkey → ℤ → TxOut
  precomputedNew : Transaction → List TxOut → Except String PrecomputedTransactionData
  verify : ScriptPubkey → Option ℤ → Transaction → ℕ → Option UInt32 → PrecomputedTransactionData →
    Except KernelError Unit
  invalidText : String

def ValidationEngine.isSupported (lib : KernelLib) : ValidationEngine → Bool
  | .native => true
  | .kernel => lib.compiled

def orKernel {α : Type} : Except String α → Checked α := Except.mapError .kernel

def i64TryFrom (value : UInt64) : Except String ℤ :=
  if value.toNat < 2 ^ 63 then .ok value.toNat else .error "out of range integral type conversion attempted"

def kernelScriptRejectPrefix : String := "kernel script verification failed: "

section

variable (prims : Primitives) (lib : KernelLib)

structure PreparedKernelTx where
  kernelTx : lib.Transaction
  precomputed : lib.PrecomputedTransactionData

def kernelTxout (prevout : TxOut) : Checked lib.TxOut := do
  let script ← orKernel (lib.scriptPubkeyNew prevout.scriptPubkey)
  let amount ← orKernel (i64TryFrom prevout.value)
  return lib.txOutNew script amount

def prepareKernelTx (kernelTx : lib.Transaction) (spentOutputs : List (OutPoint × TxOut)) :
    Checked (PreparedKernelTx lib) := do
  let kernelPrevouts ← spentOutputs.mapM fun row => kernelTxout lib row.2
  let precomputed ← orKernel (lib.precomputedNew kernelTx kernelPrevouts)
  return ⟨kernelTx, precomputed⟩

def verifyPreparedKernelInput (prepared : PreparedKernelTx lib) (prevout : TxOut) (inputIndex : ℕ)
    (flags : VerifyFlags) : Checked Unit := do
  let script ← orKernel (lib.scriptPubkeyNew prevout.scriptPubkey)
  let amount ← orKernel (i64TryFrom prevout.value)
  match lib.verify script (some amount) prepared.kernelTx inputIndex (some flags.filled.kernelBits)
      prepared.precomputed with
  | .ok () => .ok ()
  | .error .scriptInvalid => .error (.script inputIndex (kernelScriptRejectPrefix ++ lib.invalidText) .kernel)
  | .error (.other text) => .error (.kernel text)

def verifyTxScriptsKernel (tx : Tx) (spentOutputs : List (OutPoint × TxOut)) (flags : VerifyFlags) : Checked Unit :=
  if lib.compiled then do
    let kernelTx ← orKernel (lib.transactionNew (encodeTx tx))
    let prepared ← prepareKernelTx lib kernelTx spentOutputs
    spentOutputs.zipIdx.forM fun (row, inputIndex) => verifyPreparedKernelInput lib prepared row.2 inputIndex flags
  else .error (.unsupportedEngine .kernel)

def verifyInputScriptNative (prepared : PreparedTransaction) (inputIndex : ℕ) (flags : VerifyFlags) : Checked Unit :=
  match prepared.verifyInput prims inputIndex flags with
  | .ok _ => .ok ()
  | .error error => .error (.script inputIndex error.display .native)

def verifyTxScripts (tx : Tx) (spentOutputs : List (OutPoint × TxOut)) (flags : VerifyFlags) :
    ValidationEngine → Checked Unit
  | .native => do
    let prepared ← (PreparedTransaction.new tx spentOutputs).mapError .ofPrevoutError
    spentOutputs.zipIdx.forM fun (_, inputIndex) => verifyInputScriptNative prims prepared inputIndex flags
  | .kernel => do
    (validatePrevouts tx spentOutputs).mapError .ofPrevoutError
    verifyTxScriptsKernel lib tx spentOutputs flags

inductive BlockScriptSource
  | native
  | kernel (compiled : lib.compiled = true) (block : lib.Block)

def BlockScriptSource.engine : BlockScriptSource lib → ValidationEngine
  | .native => .native
  | .kernel _ _ => .kernel

inductive ScriptState
  | native (prepared : PreparedTransaction)
  | kernel (state : PreparedKernelTx lib) (spentOutputs : List TxOut)

variable {lib}

def BlockScriptSource.prepareTx (source : BlockScriptSource lib) (index : ℕ) (tx : Tx)
    (spentOutputs : List (OutPoint × TxOut)) : Checked (ScriptState lib) :=
  match source with
  | .native => do
    let prepared ← (PreparedTransaction.fromOwned tx spentOutputs).mapError .ofPrevoutError
    return .native prepared
  | .kernel _ block => do
    (validatePrevouts tx spentOutputs).mapError .ofPrevoutError
    let kernelTx ← orKernel (lib.blockTransaction block index)
    let state ← prepareKernelTx lib kernelTx spentOutputs
    return .kernel state (spentOutputs.map Prod.snd)

def verifyPreparedInput (prepared : ScriptState lib) (inputIndex : ℕ) (flags : VerifyFlags) : Checked Unit :=
  match prepared with
  | .native state => verifyInputScriptNative prims state inputIndex flags
  | .kernel state spentOutputs =>
    match spentOutputs[inputIndex]? with
    | none =>
      .error (.kernel s!"input index {inputIndex} out of range for {spentOutputs.length} spent outputs")
    | some prevout => verifyPreparedKernelInput lib state prevout inputIndex flags

def BlockScriptSource.ReadsAt (index : ℕ) (tx : Tx) : BlockScriptSource lib → Prop
  | .native => True
  | .kernel _ block => lib.blockTransaction block index = lib.transactionNew (encodeTx tx)

def BlockScriptSource.Reads (txs : List Tx) (source : BlockScriptSource lib) : Prop :=
  ∀ (index : ℕ) (tx : Tx), txs[index]? = some tx → source.ReadsAt index tx

end

end BitcoinRs.Consensus
