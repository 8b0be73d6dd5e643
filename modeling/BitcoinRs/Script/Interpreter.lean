import BitcoinRs.Script.Reader
import BitcoinRs.Library.Fallible
import BitcoinRs.Encode

namespace BitcoinRs.Interpreter

open List

inductive SigVersion
  | base
  | witnessV0
  | tapscript
  deriving DecidableEq

structure Primitives where
  ripemd160 : Bytes → Bytes
  sha1 : Bytes → Bytes
  sha256 : Bytes → Bytes
  publicKeyParses : Bytes → Bool
  derLaxParses : Bytes → Bool
  xonlyParses : Bytes → Option String
  schnorrSigParses : Bytes → Bool
  legacySignatureHash : Tx → ℕ → Bytes → UInt8 → Except String Hash256
  segwitV0SignatureHash : Tx → ℕ → Bytes → UInt64 → UInt8 → Except String Hash256
  taprootSignatureHash : Tx → ℕ → List TxOut → Option Bytes → Option (Hash256 × UInt32) → UInt8 → Except String Hash256
  verifyEcdsa : Hash256 → Bytes → Bytes → Bool
  verifySchnorr : Hash256 → Bytes → Bytes → Bool
  tapleafHash : UInt8 → Bytes → Hash256
  tapbranchHash : Bytes → Bytes → Bytes
  taptweakHash : Bytes → Bytes → Bytes
  tweakAddCheck : Bytes → Bytes → Bool → Bytes → Bool

structure TxSignatureChecker where
  tx : Tx
  inputIndex : ℕ
  amount : UInt64
  prevouts : List TxOut
  annex : Option Bytes

def orVerification {α : Type} (x : Except String α) : ScriptResult α :=
  match x with
  | .ok a => .ok a
  | .error reason => .error (.verification reason)

variable (sig : Bytes)

def isValidDerEncoding : Bool :=
  let lenR := (byteAt sig 3).toNat
  let lenS := (byteAt sig (5 + lenR)).toNat
  9 ≤ sig.length && sig.length ≤ 73 && byteAt sig 0 = 0x30 && (byteAt sig 1).toNat = sig.length - 3 &&
    5 + lenR < sig.length && lenR + lenS + 7 = sig.length && byteAt sig 2 = 0x02 && lenR ≠ 0 &&
    byteAt sig 4 &&& 0x80 = 0 && !(1 < lenR && byteAt sig 4 = 0x00 && byteAt sig 5 &&& 0x80 = 0) &&
    byteAt sig (lenR + 4) = 0x02 && lenS ≠ 0 && byteAt sig (lenR + 6) &&& 0x80 = 0 &&
    !(1 < lenS && byteAt sig (lenR + 6) = 0x00 && byteAt sig (lenR + 7) &&& 0x80 = 0)

def halfOrder : Bytes :=
  [0x7f, 0xff, 0xff, 0xff, 0xff, 0xff, 0xff, 0xff, 0xff, 0xff, 0xff, 0xff, 0xff, 0xff, 0xff, 0xff, 0x5d, 0x57, 0x6e,
    0x73, 0x57, 0xa4, 0x50, 0x1d, 0xdf, 0xe9, 0x2f, 0x46, 0x68, 0x1b, 0x20, 0xa0]

def bytesLe : Bytes → Bytes → Bool
  | [], _ => true
  | _ :: _, [] => false
  | a :: as, b :: bs => if a = b then bytesLe as bs else a < b

def isLowDerSignature : Bool :=
  if !isValidDerEncoding sig then false
  else
    let der := sig.dropLast
    let stripped := (der.drop (6 + (byteAt der 3).toNat)).dropWhile fun byte => byte = 0x00
    if stripped.isEmpty then true
    else if 32 < stripped.length then false
    else if stripped.length < 32 then true
    else bytesLe stripped halfOrder

def isDefinedHashtype : Bool :=
  let masked := sig.getLast?.getD 0xff &&& 0x7f
  0x01 ≤ masked && masked ≤ 0x03

variable (pubkey : Bytes)

def isCompressedPubkey : Bool := pubkey.length = 33 && (byteAt pubkey 0 = 0x02 || byteAt pubkey 0 = 0x03)

def isCompressedOrUncompressedPubkey : Bool := isCompressedPubkey pubkey || pubkey.length = 65 && byteAt pubkey 0 = 0x04

def checkSignatureEncoding (flags : VerifyFlags) : ScriptResult Unit :=
  if sig.isEmpty then .ok ()
  else do
    let needsDer := flags.contains .dersig || flags.contains .lowS || flags.contains .strictenc
    require (!(needsDer && !isValidDerEncoding sig)) .sigDer
    require (!(flags.contains .lowS && !isLowDerSignature sig)) .sigHighS
    require (!(flags.contains .strictenc && !isDefinedHashtype sig)) .sigHashtype

def checkPubkeyEncoding (flags : VerifyFlags) (sigversion : SigVersion) : ScriptResult Unit := do
  require (!(flags.contains .strictenc && !isCompressedOrUncompressedPubkey pubkey)) .pubkeyType
  require (!(flags.contains .witnessPubkeytype && sigversion = .witnessV0 && !isCompressedPubkey pubkey))
    .witnessPubkeyType

def isDefinedSchnorrHashtype (hashtype : UInt8) : Bool := hashtype ≤ 0x03 || 0x81 ≤ hashtype && hashtype ≤ 0x83

namespace TxSignatureChecker

variable (prims : Primitives) (checker : TxSignatureChecker)

def ecdsaSighash (scriptCode : Bytes) (hashtype : UInt8) : SigVersion → ScriptResult Hash256
  | .base =>
    orVerification (prims.legacySignatureHash checker.tx checker.inputIndex (removeAll scriptCode [0xab]).1 hashtype)
  | .witnessV0 =>
    orVerification (prims.segwitV0SignatureHash checker.tx checker.inputIndex scriptCode checker.amount hashtype)
  | .tapscript => .error (.verification "ECDSA signature check requested for tapscript")

variable (sig pubkey scriptCode : Bytes) (sigversion : SigVersion)

/-- `check_ecdsa_signature` up to its message, or `none` where it returns false before. -/
def ecdsaMessage (flags : VerifyFlags) :
    ScriptResult (Option Hash256) := do
  checkSignatureEncoding sig flags
  checkPubkeyEncoding pubkey flags sigversion
  match sig.getLast? with
  | none => return none
  | some hashtype =>
    if !prims.publicKeyParses pubkey || !prims.derLaxParses sig.dropLast then return none
    else return some (← checker.ecdsaSighash prims scriptCode hashtype sigversion)

def checkEcdsaSignature (flags : VerifyFlags) :
    ScriptResult Bool := do
  let message ← checker.ecdsaMessage prims sig pubkey scriptCode sigversion flags
  return message.any fun sighash => prims.verifyEcdsa sighash sig.dropLast pubkey

def schnorrMessage (sig pubkey : Bytes) (leafHash : Option Hash256) (codesepPos : UInt32) :
    ScriptResult (Option Hash256) :=
  if sig.isEmpty then return none
  else do
    require (sig.length = 64 || sig.length = 65) .schnorrSigSize
    let hashtype := if sig.length = 65 then byteAt sig 64 else 0x00
    require (!(sig.length = 65 && hashtype = 0x00)) .schnorrSigHashtype
    require (isDefinedSchnorrHashtype hashtype) .schnorrSigHashtype
    orVerification (if pubkey.length ≠ 32 then .error "Schnorr public key must be 32 bytes" else .ok ())
    orVerification (match prims.xonlyParses pubkey with
      | some reason => .error ("invalid Schnorr public key: " ++ reason)
      | none => .ok ())
    require (prims.schnorrSigParses (sig.take 64)) .schnorrSig
    return some (← orVerification (prims.taprootSignatureHash checker.tx checker.inputIndex checker.prevouts
      checker.annex
      (leafHash.map fun hash => (hash, codesepPos)) hashtype))

def checkSchnorrSignature (sig pubkey : Bytes) (leafHash : Option Hash256) (codesepPos : UInt32) :
    ScriptResult Bool := do
  match ← checker.schnorrMessage prims sig pubkey leafHash codesepPos with
  | none => return false
  | some sighash =>
    require (prims.verifySchnorr sighash (sig.take 64) pubkey) .schnorrSig
    return true

def locktimeThreshold : ℤ := 500000000

def checkLocktime (locktime : ℤ) : Bool :=
  let txLocktime : ℤ := checker.tx.lockTime.toNat
  decide (txLocktime < locktimeThreshold) == decide (locktime < locktimeThreshold) && locktime ≤ txLocktime &&
    match checker.tx.inputs[checker.inputIndex]? with
    | some input => input.sequence ≠ 0xffffffff
    | none => false

def sequenceMasked (sequence : ℕ) : ℕ := (sequence / 2 ^ 22 % 2) * 2 ^ 22 + sequence % 2 ^ 16

def checkSequence (sequence : ℤ) : Bool :=
  match checker.tx.inputs[checker.inputIndex]? with
  | none => false
  | some input =>
    let txMasked := sequenceMasked input.sequence.toNat
    let seqMasked := sequenceMasked sequence.toNat
    2 ≤ checker.tx.version && input.sequence &&& 0x80000000 = 0 &&
      decide (txMasked < 2 ^ 22) == decide (seqMasked < 2 ^ 22) && seqMasked ≤ txMasked

end TxSignatureChecker

def maxScriptSize : ℕ := 10000
def maxScriptElementSize : ℕ := 520
def maxOpsPerScript : ℕ := 201
def maxPubkeysPerMultisig : ℤ := 20
def validationWeightPerSigopPassed : ℤ := 50
def validationWeightOffset : ℤ := 50

structure ConditionStack where
  firstFalse : Option ℕ
  size : ℕ
  deriving DecidableEq

namespace ConditionStack

def new : ConditionStack := ⟨none, 0⟩

variable (conditions : ConditionStack)

def allTrue : Bool := conditions.firstFalse.isNone

def isEmpty : Bool := conditions.size = 0

def push (value : Bool) : ConditionStack :=
  ⟨if conditions.firstFalse.isNone && !value then some conditions.size else conditions.firstFalse, conditions.size + 1⟩

def pop : ConditionStack :=
  let size := conditions.size - 1
  ⟨if conditions.firstFalse = some size then none else conditions.firstFalse, size⟩

def toggleTop : ConditionStack :=
  match conditions.firstFalse with
  | none => { conditions with firstFalse := some (conditions.size - 1) }
  | some pos => if pos = conditions.size - 1 then { conditions with firstFalse := none } else conditions

end ConditionStack

structure CodeSeparator where
  opcodePos : UInt32
  byteOffset : Option ℕ
  deriving DecidableEq

structure EvalState where
  stack : Stack
  altstack : Stack
  conditions : ConditionStack
  opCount : ℕ
  validationWeightLeft : Option ℤ
  codeSeparator : CodeSeparator
  opcodePos : UInt32
  deriving DecidableEq

structure EvalEnv where
  prims : Primitives
  script : Bytes
  checker : TxSignatureChecker
  sigversion : SigVersion
  tapleafHash : Option Hash256

variable (op : UInt8)

def isDisabled : Bool := op ∈ [0x7e, 0x7f, 0x80, 0x81, 0x83, 0x84, 0x85, 0x86, 0x8d, 0x8e, 0x95, 0x96, 0x97, 0x98, 0x99]

def isOpSuccess : Bool :=
  op = 80 || op = 98 || 126 ≤ op && op ≤ 129 || 131 ≤ op && op ≤ 134 || 137 ≤ op && op ≤ 138 ||
    141 ≤ op && op ≤ 142 || 149 ≤ op && op ≤ 153 || 187 ≤ op && op ≤ 254

def opSuccessFrom (flags : VerifyFlags) : List Parsed → ScriptResult Bool
  | [] => .ok false
  | parsed :: rest =>
    match parsed.instruction with
    | none => reject .badOpcode
    | some (.pushBytes _) => opSuccessFrom flags rest
    | some (.op op) =>
      if isOpSuccess op then do
        require (!flags.contains .discourageOpSuccess) .discourageOpSuccess
        return true
      else opSuccessFrom flags rest

def tapscriptOpSuccess (script : Bytes) (flags : VerifyFlags) : ScriptResult Bool :=
  opSuccessFrom flags (instructions script)

def handlePushBytes (data : Bytes) (opcode : UInt8) (conditionsTrue : Bool) (flags : VerifyFlags) (stack : Stack) :
    ScriptResult Stack := do
  require (data.length ≤ maxScriptElementSize) .pushSize
  if conditionsTrue then do
    require (!(flags.contains .minimaldata && !minimalPush data opcode)) .minimalData
    pushBytes stack data
  else return stack

def isLimited (sigversion : SigVersion) : Bool := sigversion = .base || sigversion = .witnessV0

def checkOpcodeRules (opcode : UInt8) (sigversion : SigVersion) (flags : VerifyFlags) (opCount : ℕ) : ScriptResult ℕ :=
    do
  let counted := isLimited sigversion && 0x60 < opcode
  let opCount := if counted then opCount + 1 else opCount
  require (!(counted && maxOpsPerScript < opCount)) .opCount
  require (!isDisabled opcode) .disabledOpcode
  require (!(opcode = 0xab && sigversion = .base && flags.contains .constScriptcode)) .opCodeSeparator
  return opCount

def checkStackDepth (stack altstack : Stack) : ScriptResult Unit :=
  require (stack.len + altstack.len ≤ maxStackSize) .stackSize

def stackOp (stack : Stack) : ScriptResult Stack :=
  match op.toNat with
  | 0x6d => do -- OP_2DROP
    let (_, stack) ← popItem stack
    let (_, stack) ← popItem stack
    return stack
  | 0x6e => do -- OP_2DUP
    let second ← peekItem stack 1
    let first ← peekItem stack 0
    pushItem (← pushItem stack second) first
  | 0x6f => do -- OP_3DUP
    let third ← peekItem stack 2
    let second ← peekItem stack 1
    let first ← peekItem stack 0
    pushItem (← pushItem (← pushItem stack third) second) first
  | 0x70 => do -- OP_2OVER
    let pairFirst ← peekItem stack 3
    let pairSecond ← peekItem stack 2
    pushItem (← pushItem stack pairFirst) pairSecond
  | 0x71 => do -- OP_2ROT
    let (topSix, stack) ← orInvalidStack (stack.drain 6)
    (topSix.drop 2 ++ topSix.take 2).foldlM pushItem stack
  | 0x72 => do -- OP_2SWAP
    orInvalidStack ((← orInvalidStack (stack.swapAt 3 1)).swapAt 2 0)
  | 0x73 => do -- OP_IFDUP
    let top ← peekItem stack 0
    if castToBool (itemBytes top) then pushItem stack top else return stack
  | 0x74 => pushBytes stack (scriptNumSerialize stack.len) -- OP_DEPTH
  | 0x75 => do -- OP_DROP
    let (_, stack) ← popItem stack
    return stack
  | 0x76 => do -- OP_DUP
    pushItem stack (← peekItem stack 0)
  | 0x77 => do -- OP_NIP
    let (top, stack) ← popItem stack
    let (_, stack) ← orInvalidStack (stack.removeAt 0)
    pushItem stack top
  | 0x78 => do -- OP_OVER
    pushItem stack (← peekItem stack 1)
  | 0x7b => do -- OP_ROT
    let (x1, stack) ← orInvalidStack (stack.removeAt 2)
    pushItem stack x1
  | 0x7c => orInvalidStack (stack.swapAt 0 1) -- OP_SWAP
  | 0x7d => do -- OP_TUCK
    orInvalidStack (stack.insertAt 2 (← peekItem stack 0))
  | 0x82 => do -- OP_SIZE
    pushBytes stack (scriptNumSerialize (itemBytes (← peekItem stack 0)).length)
  | _ => reject .badOpcode

def isStackOp : Bool := 0x6d ≤ op && op ≤ 0x78 || 0x7b ≤ op && op ≤ 0x7d || op = 0x82

def boolBytes (value : Bool) : Bytes := if value then [1] else []

def boolNum (value : Bool) : ℤ := if value then 1 else 0

def verifyTop (verify success : Bool) (code : ScriptErrCode) (stack : Stack) : ScriptResult Stack :=
  if verify then
    if success then do
      let (_, stack) ← popItem stack
      return stack
    else reject code
  else return stack

def checkedI64 (value : ℤ) : ScriptResult ℤ := if fitsI64 value then .ok value else reject .scriptNum

section

def unaryResult (value : ℤ) : ScriptResult ℤ :=
  match op.toNat with
  | 0x8b => checkedI64 (value + 1)
  | 0x8c => checkedI64 (value - 1)
  | 0x8f => checkedI64 (-value)
  | 0x90 => .ok |value|
  | 0x91 => .ok (boolNum (value = 0))
  | _ => .ok (boolNum (value ≠ 0))

def isUnaryOp : Bool := op ∈ [0x8b, 0x8c, 0x8f, 0x90, 0x91, 0x92]

def binaryResult (b1 b2 : ℤ) : ScriptResult ℤ :=
  match op.toNat with
  | 0x93 => checkedI64 (b1 + b2)
  | 0x94 => checkedI64 (b1 - b2)
  | 0x9a => .ok (boolNum (b1 ≠ 0 && b2 ≠ 0))
  | 0x9b => .ok (boolNum (b1 ≠ 0 || b2 ≠ 0))
  | 0x9c => .ok (boolNum (b1 = b2))
  | 0x9d => .ok (boolNum (b1 = b2))
  | 0x9e => .ok (boolNum (b1 ≠ b2))
  | 0x9f => .ok (boolNum (b1 < b2))
  | 0xa0 => .ok (boolNum (b2 < b1))
  | 0xa1 => .ok (boolNum (b1 ≤ b2))
  | 0xa2 => .ok (boolNum (b2 ≤ b1))
  | 0xa3 => .ok (min b1 b2)
  | _ => .ok (max b1 b2)

def isBinaryOp : Bool := op = 0x93 || op = 0x94 || 0x9a ≤ op && op ≤ 0xa4

end

section

variable (requireMinimal : Bool)

def numOf (maxSize : ℕ) (item : ScriptItem) : ScriptResult ℤ := scriptNum (itemBytes item) requireMinimal maxSize

variable (op : UInt8) (stack : Stack)

def unaryOp : ScriptResult Stack := do
  let (top, stack) ← popItem stack
  let value ← numOf requireMinimal 4 top
  pushBytes stack (scriptNumSerialize (← unaryResult op value))

def binaryOp : ScriptResult Stack := do
  let (second, stack) ← popItem stack
  let (first, stack) ← popItem stack
  let b1 ← numOf requireMinimal 4 first
  let b2 ← numOf requireMinimal 4 second
  let result ← binaryResult op b1 b2
  let stack ← pushBytes stack (scriptNumSerialize result)
  verifyTop (op = 0x9d) (castToBool (scriptNumSerialize result)) .numEqualVerify stack

def withinOp : ScriptResult Stack := do
  let (third, stack) ← popItem stack
  let (second, stack) ← popItem stack
  let (first, stack) ← popItem stack
  let x ← numOf requireMinimal 4 first
  let low ← numOf requireMinimal 4 second
  let high ← numOf requireMinimal 4 third
  pushBytes stack (boolBytes (low ≤ x && x < high))

def pickOrRoll : ScriptResult Stack := do
  let (item, stack) ← popItem stack
  let n ← numOf requireMinimal 4 item
  if n < 0 then invalidStack
  else if stack.len ≤ n.toNat then invalidStack
  else if op = 0x79 then pushItem stack (← peekItem stack n.toNat)
  else orInvalidStack (stack.roll n.toNat)

end

def equalOp (op : UInt8) (stack : Stack) : ScriptResult Stack := do
  let (second, stack) ← popItem stack
  let (first, stack) ← popItem stack
  let equal : Bool := itemBytes first = itemBytes second
  let stack ← pushBytes stack (boolBytes equal)
  verifyTop (op = 0x88) equal .equalVerify stack

def hashBytes (prims : Primitives) (op : UInt8) (data : Bytes) : Bytes :=
  match op.toNat with
  | 0xa6 => prims.ripemd160 data
  | 0xa7 => prims.sha1 data
  | 0xa8 => prims.sha256 data
  | 0xa9 => prims.ripemd160 (prims.sha256 data)
  | _ => prims.sha256 (prims.sha256 data)

def hashOp (prims : Primitives) (op : UInt8) (stack : Stack) : ScriptResult Stack := do
  let (top, stack) ← popItem stack
  pushBytes stack (hashBytes prims op (itemBytes top))

def scriptCode (byteOffset : Option ℕ) (script : Bytes) : Bytes :=
  match byteOffset with
  | none => script
  | some start => script.drop start

section

variable (env : EvalEnv) (flags : VerifyFlags)

def cleanedCode (code sig : Bytes) : ScriptResult Bytes :=
  if env.sigversion = .base then do
    let (cleaned, found) := removeAll code (pushData sig)
    require (!(decide (0 < found) && flags.contains .constScriptcode)) .sigFindAndDelete
    return cleaned
  else return code

variable (sig pubkey : Bytes) (separator : CodeSeparator)

def evalEcdsaChecksig : ScriptResult Bool := do
  let code ← cleanedCode env flags (scriptCode separator.byteOffset env.script) sig
  let success ← env.checker.checkEcdsaSignature env.prims sig pubkey code env.sigversion flags
  require (!(!success && flags.contains .nullfail && !sig.isEmpty)) .sigNullFail
  return success

def spendWeight (sig : Bytes) (weight : Option ℤ) : ScriptResult (Option ℤ) :=
  if sig.isEmpty then return weight
  else
    match weight with
    | none => return none
    | some left => do
      require (0 ≤ left - validationWeightPerSigopPassed) .tapscriptValidationWeight
      return some (left - validationWeightPerSigopPassed)

def tapscriptSuccess : ScriptResult Bool :=
  if pubkey.length = 32 then
    if sig.isEmpty then return false
    else env.checker.checkSchnorrSignature env.prims sig pubkey env.tapleafHash separator.opcodePos
  else do
    require (!flags.contains .discourageUpgradablePubkeytype) .discourageUpgradablePubkeyType
    return !sig.isEmpty

def evalTapscriptChecksig (weight : Option ℤ) :
    ScriptResult (Bool × Option ℤ) := do
  let weight ← spendWeight sig weight
  require (!pubkey.isEmpty) .tapscriptEmptyPubkey
  let success ← tapscriptSuccess env flags sig pubkey separator
  return (success, weight)

def evalChecksig (weight : Option ℤ) : ScriptResult (Bool × Option ℤ) :=
  match env.sigversion with
  | .tapscript => evalTapscriptChecksig env flags sig pubkey separator weight
  | _ => do
    let success ← evalEcdsaChecksig env flags sig pubkey separator
    return (success, weight)

def checksigOp (op : UInt8) (s : EvalState) : ScriptResult EvalState := do
  let (pubkey, stack) ← popItem s.stack
  let (sig, stack) ← popItem stack
  let (success, weight) ← evalChecksig env flags (itemBytes sig) (itemBytes pubkey) s.codeSeparator
    s.validationWeightLeft
  let stack ← pushBytes stack (boolBytes success)
  let stack ← verifyTop (op = 0xad) success .checkSigVerify stack
  return { s with stack, validationWeightLeft := weight }

def checksigaddOp (requireMinimal : Bool) (s : EvalState) : ScriptResult EvalState := do
  require (!isLimited env.sigversion) .badOpcode
  let (pubkey, stack) ← popItem s.stack
  let (num, stack) ← popItem stack
  let (sig, stack) ← popItem stack
  let value ← numOf requireMinimal 4 num
  let (success, weight) ← evalChecksig env flags (itemBytes sig) (itemBytes pubkey) s.codeSeparator
    s.validationWeightLeft
  let result ← checkedI64 (value + boolNum success)
  let stack ← pushBytes stack (scriptNumSerialize result)
  return { s with stack, validationWeightLeft := weight }

def multisigCode (stack : Stack) (keys : ℕ) : ℕ → ℕ → Bytes → ScriptResult Bytes
  | 0, _, code => .ok code
  | left + 1, index, code => do
    let sig ← peekItem stack (keys + 2 + index)
    let code ← cleanedCode env flags code (itemBytes sig)
    multisigCode stack keys left (index + 1) code

def matchSigs (stack : Stack) (code : Bytes) : ℕ → ℕ → ℕ → ℕ → ScriptResult Bool
  | _, 0, _, _ => .ok true
  | 0, _ + 1, _, _ => .ok false
  | keysLeft + 1, sigsLeft + 1, keyDepth, sigDepth => do
    let sig ← peekItem stack sigDepth
    let key ← peekItem stack keyDepth
    let ok ← env.checker.checkEcdsaSignature env.prims (itemBytes sig) (itemBytes key) code env.sigversion flags
    if ok then
      if keysLeft < sigsLeft then return false else matchSigs stack code keysLeft sigsLeft (keyDepth + 1) (sigDepth + 1)
    else
      if keysLeft < sigsLeft + 1 then return false
      else matchSigs stack code keysLeft (sigsLeft + 1) (keyDepth + 1) sigDepth

def popArgs (success : Bool) (sigs : ℕ) : ℕ → Stack → ScriptResult Stack
  | 0, stack => .ok stack
  | args + 1, stack => do
    let (top, rest) ← popItem stack
    require (!(!success && flags.contains .nullfail && decide (args + 1 ≤
      sigs) && !(itemBytes top).isEmpty)) .sigNullFail
    popArgs success sigs args rest

variable (requireMinimal : Bool)

def multisigCounts (stack : Stack) (opCount : ℕ) : ScriptResult (ℕ × ℕ × ℕ) := do
  let nKeys ← numOf requireMinimal 4 (← peekItem stack 0)
  require (0 ≤ nKeys && nKeys ≤ maxPubkeysPerMultisig) .pubkeyCount
  let keys := nKeys.toNat
  let opCount := opCount + keys
  require (opCount ≤ maxOpsPerScript) .opCount
  require (keys + 2 ≤ stack.len) .invalidStackOperation
  let nSigs ← numOf requireMinimal 4 (← peekItem stack (keys + 1))
  require (0 ≤ nSigs && nSigs ≤ nKeys) .sigCount
  let sigs := nSigs.toNat
  require (keys + sigs + 3 ≤ stack.len) .invalidStackOperation
  return (keys, sigs, opCount)

def checkMultisig (verifyOnly : Bool) (s : EvalState) : ScriptResult EvalState := do
  let (keys, sigs, opCount) ← multisigCounts requireMinimal s.stack s.opCount
  let code ← multisigCode env flags s.stack keys sigs 0 (scriptCode s.codeSeparator.byteOffset env.script)
  let success ← matchSigs env flags s.stack code keys sigs 1 (keys + 2)
  let stack ← popArgs flags success sigs (keys + sigs + 2) s.stack
  let (dummy, stack) ← popItem stack
  require (!(flags.contains .nulldummy && !(itemBytes dummy).isEmpty)) .sigNullDummy
  let stack ← pushBytes stack (boolBytes success)
  let stack ← verifyTop verifyOnly success .checkMultisigVerify stack
  return { s with stack, opCount }

def checkMultisigOp (op : UInt8) (s : EvalState) : ScriptResult EvalState := do
  require (env.sigversion ≠ .tapscript) .tapscriptCheckMultiSig
  checkMultisig env flags requireMinimal (op = 0xaf) s

end

section

variable (env : EvalEnv) (flags : VerifyFlags) (requireMinimal : Bool)

def checkLocktimeVerify (s : EvalState) : ScriptResult EvalState :=
  if flags.contains .checklocktimeverify then do
    let locktime ← numOf requireMinimal 5 (← peekItem s.stack 0)
    require (0 ≤ locktime) .negativeLocktime
    require (env.checker.checkLocktime locktime) .unsatisfiedLocktime
    return s
  else return s

def checkSequenceVerify (s : EvalState) : ScriptResult EvalState :=
  if flags.contains .checksequenceverify then do
    let sequence ← numOf requireMinimal 5 (← peekItem s.stack 0)
    require (0 ≤ sequence) .negativeLocktime
    require (!(sequence.toNat / 2 ^ 31 % 2 = 0 && !env.checker.checkSequence sequence)) .unsatisfiedLocktime
    return s
  else return s

def upgradableNop (s : EvalState) : ScriptResult EvalState := do
  require (!flags.contains .discourageUpgradableNops) .discourageUpgradableNops
  return s

def isMinimalIf (bytes : Bytes) : Bool := bytes = [] || bytes = [1]

def takeCondition (negated : Bool) (stack : Stack) : ScriptResult (Bool × Stack) := do
  let (top, stack) ← popItem stack
  let bytes := itemBytes top
  require (!(env.sigversion = .tapscript && !isMinimalIf bytes)) .tapscriptMinimalIf
  require (!(env.sigversion = .witnessV0 && flags.contains .minimalif && !isMinimalIf bytes)) .minimalIf
  return (castToBool bytes != negated, stack)

def ifOp (negated exec : Bool) (s : EvalState) : ScriptResult EvalState :=
  if exec then do
    let (value, stack) ← takeCondition env flags negated s.stack
    return { s with stack, conditions := s.conditions.push value }
  else return { s with conditions := s.conditions.push false }

section

variable (s : EvalState)

def elseOp : ScriptResult EvalState := do
  require (!s.conditions.isEmpty) .unbalancedConditional
  return { s with conditions := s.conditions.toggleTop }

def endifOp : ScriptResult EvalState := do
  require (!s.conditions.isEmpty) .unbalancedConditional
  return { s with conditions := s.conditions.pop }

def verifyOp : ScriptResult EvalState := do
  let (top, stack) ← popItem s.stack
  require (castToBool (itemBytes top)) .verify
  return { s with stack }

def toAltstack : ScriptResult EvalState := do
  let (top, stack) ← popItem s.stack
  match s.altstack.push top with
  | .ok altstack => return { s with stack, altstack }
  | .error _ => reject .invalidAltstackOperation

def fromAltstack : ScriptResult EvalState :=
  match s.altstack.pop with
  | .error _ => reject .invalidAltstackOperation
  | .ok (top, altstack) => do
    let stack ← pushBytes s.stack (itemBytes top)
    return { s with stack, altstack }

def onStack (stack : ScriptResult Stack) : ScriptResult EvalState := do return { s with stack := ← stack }

end

variable (op : UInt8)

def dispatch (exec : Bool) (start : ℕ) (s : EvalState) : ScriptResult EvalState :=
  let requireMinimal := flags.contains .minimaldata
  if op = 0x4f then onStack s (pushBytes s.stack (scriptNumSerialize (-1)))
  else
    match decodePushnum op with
    | some value => onStack s (pushBytes s.stack (scriptNumSerialize value.toNat))
    | none =>
      if op = 0x61 then return s
      else if op = 0xb1 then checkLocktimeVerify env flags requireMinimal s
      else if op = 0xb2 then checkSequenceVerify env flags requireMinimal s
      else if op = 0xb0 || 0xb3 ≤ op && op ≤ 0xb9 then upgradableNop flags s
      else if op = 0x63 || op = 0x64 then ifOp env flags (op = 0x64) exec s
      else if op = 0x67 then elseOp s
      else if op = 0x68 then endifOp s
      else if op = 0x69 then verifyOp s
      else if op = 0x6a then reject .opReturn
      else if op = 0x6b then toAltstack s
      else if op = 0x6c then fromAltstack s
      else if isStackOp op then onStack s (stackOp op s.stack)
      else if op = 0x79 || op = 0x7a then onStack s (pickOrRoll requireMinimal op s.stack)
      else if op = 0x87 || op = 0x88 then onStack s (equalOp op s.stack)
      else if isUnaryOp op then onStack s (unaryOp requireMinimal op s.stack)
      else if isBinaryOp op then onStack s (binaryOp requireMinimal op s.stack)
      else if op = 0xa5 then onStack s (withinOp requireMinimal s.stack)
      else if 0xa6 ≤ op && op ≤ 0xaa then onStack s (hashOp env.prims op s.stack)
      else if op = 0xab then return { s with codeSeparator := ⟨s.opcodePos, some (start + 1)⟩ }
      else if op = 0xac || op = 0xad then checksigOp env flags op s
      else if op = 0xba then checksigaddOp env flags requireMinimal s
      else if op = 0xae || op = 0xaf then checkMultisigOp env flags requireMinimal op s
      else reject .badOpcode

def isConditionalOp : Bool := 0x63 ≤ op && op ≤ 0x68

def evalOp (start : ℕ) (s : EvalState) : ScriptResult EvalState := do
  let opCount ← checkOpcodeRules op env.sigversion flags s.opCount
  let exec := s.conditions.allTrue
  if exec || isConditionalOp op then dispatch env flags op exec start { s with opCount } else return { s with opCount }

def evalInstruction (parsed : Parsed) (s : EvalState) : ScriptResult EvalState :=
  match parsed.instruction with
  | none => reject .badOpcode
  | some (.pushBytes data) =>
    onStack s (handlePushBytes data (byteAt env.script parsed.start) s.conditions.allTrue flags s.stack)
  | some (.op op) => evalOp env flags op parsed.start s

def evalStep (s : EvalState) (parsed : Parsed) : ScriptResult EvalState := do
  let s ← evalInstruction env flags parsed s
  checkStackDepth s.stack s.altstack
  return { s with opcodePos := if s.opcodePos = 0xffffffff then s.opcodePos else s.opcodePos + 1 }

def initialState (stack : Stack) (weight : Option ℤ) : EvalState :=
  ⟨stack, .new, .new, 0, weight, ⟨0xffffffff, none⟩, 0⟩

def evalScript (stack : Stack) (weight : Option ℤ) : ScriptResult (Stack × Option ℤ) := do
  require (!(isLimited env.sigversion && decide (maxScriptSize < env.script.length))) .scriptSize
  let s ← (instructions env.script).foldlM (evalStep env flags) (initialState stack weight)
  require s.conditions.isEmpty .unbalancedConditional
  return (s.stack, s.validationWeightLeft)

end

/-- What the conditional opcodes do to the conditions. The value `OP_IF` and `OP_NOTIF` take from the stack counts
only while the branch around them executes. -/
inductive ConditionOp
  | branch (value : Bool)
  | otherwise
  | endif

namespace ConditionStack

def step (conditions : ConditionStack) : ConditionOp → Option ConditionStack
  | .branch value => some (conditions.push (conditions.allTrue && value))
  | .otherwise => if conditions.isEmpty then none else some conditions.toggleTop
  | .endif => if conditions.isEmpty then none else some conditions.pop

/-- The same operations on an explicit stack of booleans, its top first. -/
def stepBits (bits : List Bool) : ConditionOp → Option (List Bool)
  | .branch value => some ((bits.all id && value) :: bits)
  | .otherwise => bits.head?.map fun bit => (!bit) :: bits.tail
  | .endif => bits.tail?

def ofBits (bits : List Bool) : ConditionStack := ⟨bits.reverse.findIdx? (!·), bits.length⟩

variable (bit : Bool) (bits : List Bool)

lemma ofBits_cons : ofBits (bit :: bits) = (ofBits bits).push bit := by
  cases bit <;> cases h : bits.reverse.findIdx? (!·) <;> simp [ofBits, push, findIdx?_append, h]

lemma firstFalse_lt : ∀ pos ∈ (ofBits bits).firstFalse, pos < (ofBits bits).size := by
  intro pos hpos
  simpa [ofBits] using (findIdx?_eq_some_iff_getElem.mp hpos).1

lemma allTrue_ofBits : (ofBits bits).allTrue = bits.all id := by
  simp [allTrue, ofBits]
  rfl

lemma isEmpty_ofBits : (ofBits bits).isEmpty = bits.isEmpty := by cases bits <;> rfl

lemma pop_ofBits : (ofBits (bit :: bits)).pop = ofBits bits := by
  have hlt := firstFalse_lt bits
  rw [ofBits_cons]
  generalize ofBits bits = conditions at hlt ⊢
  obtain ⟨firstFalse, size⟩ := conditions
  cases bit <;> cases firstFalse <;> simp_all [push, pop]
  all_goals omega

/-- Toggling above a false position changes nothing the representation keeps. -/
lemma toggleTop_ofBits : (ofBits (bit :: bits)).toggleTop = ofBits ((!bit) :: bits) := by
  have hlt := firstFalse_lt bits
  rw [ofBits_cons, ofBits_cons]
  generalize ofBits bits = conditions at hlt ⊢
  obtain ⟨firstFalse, size⟩ := conditions
  cases bit <;> cases firstFalse <;> simp_all [push, toggleTop]
  all_goals omega

lemma step_ofBits (op : ConditionOp) : (ofBits bits).step op = (stepBits bits op).map ofBits := by
  cases op with
  | branch value => simp [step, stepBits, allTrue_ofBits, ofBits_cons]
  | otherwise => cases bits <;> simp [step, stepBits, isEmpty_ofBits, toggleTop_ofBits]
  | endif => cases bits <;> simp [step, stepBits, isEmpty_ofBits, pop_ofBits]

lemma run_ofBits (ops : List ConditionOp) : ops.foldlM step (ofBits bits) = (ops.foldlM stepBits bits).map ofBits := by
  induction ops generalizing bits with
  | nil => rfl
  | cons op ops ih =>
    rw [foldlM_cons, foldlM_cons, step_ofBits]
    cases stepBits bits op with
    | none => rfl
    | some bits => exact ih bits

/-- After any sequence of conditional opcodes the two stacks refuse alike or answer alike. -/
theorem conditions_simulate (ops : List ConditionOp) :
    ops.foldlM step new = (ops.foldlM stepBits []).map ofBits ∧
      ∀ bits, (ofBits bits).allTrue = bits.all id ∧ (ofBits bits).isEmpty = bits.isEmpty ∧
        ∀ bit, (ofBits (bit :: bits)).toggleTop = ofBits ((!bit) :: bits) := by
  refine ⟨run_ofBits [] ops, ?_⟩
  intro bits
  exact ⟨allTrue_ofBits bits, isEmpty_ofBits bits, fun bit => toggleTop_ofBits bit bits⟩

end ConditionStack

variable (env : EvalEnv) (flags : VerifyFlags) (s : EvalState)

lemma ifOp_step (negated : Bool) : Ensures (ifOp env flags negated s.conditions.allTrue s) fun next =>
    ∃ value, s.conditions.step (.branch value) = some next.conditions := by
  refine .ite (fun h => ?_) fun _ => .ok ⟨false, by simp [ConditionStack.step]⟩
  exact .skip fun taken => .ok ⟨taken.1, by simp [ConditionStack.step, h]⟩

lemma elseOp_step : elseOp s = (s.conditions.step .otherwise).elim (reject .unbalancedConditional)
    fun conditions => .ok { s with conditions } := by
  cases h : s.conditions.isEmpty <;> simp [elseOp, ConditionStack.step, h] <;> rfl

lemma endifOp_step : endifOp s = (s.conditions.step .endif).elim (reject .unbalancedConditional)
    fun conditions => .ok { s with conditions } := by
  cases h : s.conditions.isEmpty <;> simp [endifOp, ConditionStack.step, h] <;> rfl

def annexTag : UInt8 := 0x50
def taprootControlBaseSize : ℕ := 33
def taprootControlNodeSize : ℕ := 32
def taprootControlMaxSize : ℕ := taprootControlBaseSize + taprootControlNodeSize * 128
def taprootLeafMask : UInt8 := 0xfe
def taprootLeafTapscript : UInt8 := 0xc0

section

variable (prims : Primitives)

def computeTapbranchHash (a b : Bytes) : Bytes :=
  if bytesLe a b then prims.tapbranchHash a b else prims.tapbranchHash b a

def pathNodes : ℕ → Bytes → List Bytes
  | 0, _ => []
  | fuel + 1, path =>
    if path.length < taprootControlNodeSize then []
    else path.take taprootControlNodeSize :: pathNodes fuel (path.drop taprootControlNodeSize)

def computeTaprootMerkleRoot (control : Bytes) (tapleaf : Hash256) : Bytes :=
  let path := control.drop taprootControlBaseSize
  (pathNodes path.length path).foldl (computeTapbranchHash prims) tapleaf.bytes

def verifyTaprootCommitment (control program : Bytes) (tapleaf : Hash256) : Bool :=
  if control.length < taprootControlBaseSize then false
  else
    let internal := (control.take taprootControlBaseSize).drop 1
    (prims.xonlyParses internal).isNone && (prims.xonlyParses program).isNone &&
      prims.tweakAddCheck internal program (byteAt control 0 &&& 1 ≠ 0)
        (prims.taptweakHash internal (computeTaprootMerkleRoot prims control tapleaf))

end

def requireTrueTop (stack : Stack) : ScriptResult Unit :=
  match stack.peek with
  | .ok top => require (itemIsTrue top) .evalFalse
  | .error _ => reject .evalFalse

def p2wpkhScriptCode (program : Bytes) : Bytes := [0x76, 0xa9, 0x14] ++ program ++ [0x88, 0xac]

def trueStack : Stack := ⟨[.num 1], by decide⟩

def witnessStack (elements : List Bytes) : ScriptResult Stack :=
  elements.foldlM (fun stack element => do
    require (element.length ≤ maxScriptElementSize) .pushSize
    pushBytes stack element) Stack.new

section

variable (prims : Primitives) (checker : TxSignatureChecker) (flags : VerifyFlags)

section

variable (witness : List Bytes)

def witnessV0Script (program : Bytes) : ScriptResult (Bytes × List Bytes) :=
  if program.length = 32 then
    match witness.getLast? with
    | none => reject .witnessProgramWitnessEmpty
    | some script => do
      require (prims.sha256 script = program) .witnessProgramMismatch
      return (script, witness.dropLast)
  else if program.length = 20 then do
    require (witness.length = 2) .witnessProgramMismatch
    return (p2wpkhScriptCode program, witness)
  else reject .witnessProgramWrongLength

def verifyWitnessV0 (program : Bytes) : ScriptResult Stack := do
  let (script, elements) ← witnessV0Script prims witness program
  let stack ← witnessStack elements
  let (stack, _) ← evalScript ⟨prims, script, checker, .witnessV0, none⟩ flags stack none
  require (stack.len = 1) .cleanStack
  requireTrueTop stack
  return stack

def verifyWitnessProgram (version : UInt8) (program : Bytes) : ScriptResult Stack :=
  if version ≠ 0 then do
    require (!flags.contains .discourageUpgradableWitnessProgram) .discourageUpgradableWitnessProgram
    return trueStack
  else verifyWitnessV0 prims checker flags witness program

end

def stripAnnex (stack : List Bytes) : Option Bytes × List Bytes :=
  match stack.getLast? with
  | some last => if 2 ≤ stack.length && last ≠ [] && byteAt last 0 =
      annexTag then (some last, stack.dropLast) else (none, stack)
  | none => (none, stack)

section

variable (witness : List Bytes)

def witnessSerializedSize : ℕ :=
  Varint.encodedLen witness.length + (witness.map fun element => Varint.encodedLen element.length + element.length).sum

def runTapscript (script : Bytes) (elements : List Bytes) (tapleaf : Hash256) :
    ScriptResult Unit := do
  require (elements.length ≤ maxStackSize) .stackSize
  let stack ← witnessStack elements
  let weight := some ((witnessSerializedSize witness : ℤ) + validationWeightOffset)
  let (stack, _) ← evalScript ⟨prims, script, checker, .tapscript, some tapleaf⟩ flags stack weight
  require (stack.len = 1) .cleanStack
  requireTrueTop stack

def verifyLeaf (script control : Bytes) (elements : List Bytes) (tapleaf : Hash256) : ScriptResult Unit :=
  if byteAt control 0 &&& taprootLeafMask ≠ taprootLeafTapscript then
    require (!flags.contains .discourageUpgradableTaprootVersion) .discourageUpgradableTaprootVersion
  else do
    let success ← tapscriptOpSuccess script flags
    if success then return () else runTapscript prims checker flags witness script elements tapleaf

end

def isControlSize (len : ℕ) : Bool :=
  taprootControlBaseSize ≤ len && len ≤ taprootControlMaxSize && (len - taprootControlBaseSize) %
    taprootControlNodeSize = 0

section

variable (program : Bytes)

def verifyTaprootScriptpath (witness stack : List Bytes) : ScriptResult Unit :=
  match stack.reverse with
  | control :: script :: rest => do
    require (isControlSize control.length) .taprootWrongControlSize
    let tapleaf := prims.tapleafHash (byteAt control 0 &&& taprootLeafMask) script
    require (verifyTaprootCommitment prims control program tapleaf) .witnessProgramMismatch
    verifyLeaf prims checker flags witness script control rest.reverse tapleaf
  | _ => reject .witnessProgramWitnessEmpty

variable (witness : List Bytes)

def verifyTaproot : ScriptResult Unit :=
  if witness.isEmpty then reject .witnessProgramWitnessEmpty
  else
    let (annex, stack) := stripAnnex witness
    let checker := { checker with annex }
    match stack with
    | [signature] => do
      require (!signature.isEmpty) .schnorrSigSize
      let success ← checker.checkSchnorrSignature prims signature program none 0xffffffff
      require success .schnorrSig
    | _ => verifyTaprootScriptpath prims checker flags program witness stack

def checkTaproot : ScriptResult Unit :=
  if flags.contains .taproot then verifyTaproot prims checker flags program witness else .ok ()

end

def verifyNative (scriptSig : Bytes) (witness : List Bytes) (version : UInt8) (program : Bytes) : ScriptResult Stack :=
    do
  require scriptSig.isEmpty .witnessMalleated
  if version = 1 && program.length = 32 then do
    checkTaproot prims checker flags program witness
    return trueStack
  else verifyWitnessProgram prims checker flags witness version program

variable (scriptSig scriptPubkey : Bytes) (witness : List Bytes)

def nativeWitness (stack : Stack) : ScriptResult (Bool × Stack) :=
  if flags.contains .witness then
    match witnessProgram scriptPubkey with
    | some (version, program) => do
      let stack ← verifyNative prims checker flags scriptSig witness version program
      return (true, stack)
    | none => return (false, stack)
  else return (false, stack)

def evalBase (script : Bytes) (stack : Stack) : ScriptResult Stack := do
  let (stack, _) ← evalScript ⟨prims, script, checker, .base, none⟩ flags stack none
  return stack

def redeemWitness (scriptSig redeem : Bytes) (witness : List Bytes) (used : Bool) (stack : Stack) :
    ScriptResult (Bool × Stack) :=
  if flags.contains .witness then
    match witnessProgram redeem with
    | some (version, program) => do
      require (scriptSig = pushData redeem) .witnessMalleatedP2sh
      let stack ← verifyWitnessProgram prims checker flags witness version program
      return (true, stack)
    | none => return (used, stack)
  else return (used, stack)

def verifyRedeem (scriptSig : Bytes) (witness : List Bytes) (used : Bool) (redeemStack : Stack) :
    ScriptResult (Bool × Stack) := do
  require (isPushOnly scriptSig) .sigPushonly
  let (top, stack) ← popItem redeemStack
  let redeem := itemBytesOwned top
  let stack ← evalBase prims checker flags redeem stack
  requireTrueTop stack
  redeemWitness prims checker flags scriptSig redeem witness used stack

def scriptHash (redeemStack : Stack) (used : Bool) (stack : Stack) : ScriptResult (Bool × Stack) :=
  if flags.contains .p2sh && isP2sh scriptPubkey then verifyRedeem prims checker flags scriptSig witness used
    redeemStack
  else .ok (used, stack)

def verifyFinal (used : Bool) (stack : Stack) : ScriptResult Unit := do
  require (!(flags.contains .witness && !used && !witness.isEmpty)) .witnessUnexpected
  require (!(flags.contains .cleanstack && (flags.contains .p2sh || flags.contains .witness) && stack.len ≠ 1))
    .cleanStack

def verifyScript : ScriptResult Unit := do
  require (!(flags.contains .sigpushonly && !isPushOnly scriptSig)) .sigPushonly
  let redeemStack ← evalBase prims checker flags scriptSig Stack.new
  let stack ← evalBase prims checker flags scriptPubkey redeemStack
  requireTrueTop stack
  let (used, stack) ← nativeWitness prims checker flags scriptSig scriptPubkey witness stack
  let (used, stack) ← scriptHash prims checker flags scriptSig scriptPubkey witness redeemStack used stack
  verifyFinal flags witness used stack

end

structure PreparedTransaction where
  tx : Tx
  prevouts : List TxOut
  length_prevouts : prevouts.length = tx.inputs.length

namespace PreparedTransaction

variable (prims : Primitives) (prepared : PreparedTransaction) (inputIdx : ℕ)

def executeSpend (input : TxIn) (prevout : TxOut) (flags : VerifyFlags) : ScriptResult Bool := do
  verifyScript prims ⟨prepared.tx, inputIdx, prevout.value, prepared.prevouts, none⟩ flags.filled input.scriptSig
    prevout.scriptPubkey input.witness
  return true

def verifyInput (flags : VerifyFlags) : ScriptResult Bool :=
  match prepared.tx.inputs[inputIdx]?, prepared.prevouts[inputIdx]? with
  | some input, some prevout => prepared.executeSpend prims inputIdx input prevout flags
  | _, _ => .error (.inputIndexOutOfRange inputIdx prepared.tx.inputs.length)

end PreparedTransaction

end BitcoinRs.Interpreter
