import BitcoinRs.Consensus.Kernel
import BitcoinRs.Script.SoftFork

namespace BitcoinRs.Mempool

open Interpreter Consensus Fallible Stack

def maxBareMultisigPubkeys : ℤ := 20
def witnessV0KeyhashSize : ℕ := 20
def witnessV0ScripthashSize : ℕ := 32
def witnessV1TaprootSize : ℕ := 32
def maxStandardP2wshStackItems : ℕ := 100
def maxStandardP2wshStackItemSize : ℕ := 80
def maxStandardTapscriptStackItemSize : ℕ := 80
def maxStandardP2wshScriptSize : ℕ := 3600

inductive StandardnessError
  | nonStandardInput
  | nonStandardWitness
  deriving DecidableEq

def isOpReturn (script : Bytes) : Bool := script.head? = some 0x6a

def pubkeyValidSize : Bytes → Bool
  | [] => false
  | first :: rest =>
    rest.length + 1 = 33 && (first = 0x02 || first = 0x03) ||
      rest.length + 1 = 65 && (first = 0x04 || first = 0x06 || first = 0x07)

section

variable (script : Bytes)

def p2pkPubkeyBytes : Option Bytes :=
  let key :=
    if script.length = 67 && byteAt script 0 = 0x41 && byteAt script 66 = 0xac then some ((script.take 66).drop 1)
    else if script.length = 35 && byteAt script 0 = 0x21 && byteAt script 34 = 0xac then some ((script.take 34).drop 1)
    else none
  key.bind fun key => if pubkeyValidSize key then some key else none

def isP2pk : Bool := (p2pkPubkeyBytes script).isSome

def nextOp (parsed : Parsed) : Option (UInt8 × Bytes) :=
  match parsed.instruction with
  | some (.pushBytes data) => some (byteAt script parsed.start, data)
  | some (.op op) => some (op, [])
  | none => none

end

def minimalScriptNum (data : Bytes) : Option ℤ := (scriptNum data true 4).toOption

def scriptCount (opcode : UInt8) (data : Bytes) (min max : ℤ) : Option ℕ :=
  let count : Option ℤ :=
    match decodePushnum opcode with
    | some pushnum => some pushnum.toNat
    | none => if opcode ≤ 0x4e && minimalPush data opcode then minimalScriptNum data else none
  count.bind fun count => if count < min || max < count then none else some count.toNat

section

variable (script : Bytes)

def skipKeys : ℕ → List Parsed → Option (ℕ × (UInt8 × Bytes) × List Parsed)
  | _, [] => none
  | keys, parsed :: rest =>
    match nextOp script parsed with
    | none => none
    | some (op, data) => if pubkeyValidSize data then skipKeys (keys + 1) rest else some (keys, (op, data), rest)

def multisigKeyCount : Option ℕ :=
  if script.getLast? ≠ some 0xae then none
  else
    match instructions script with
    | [] => none
    | first :: rest => do
      let (op, data) ← nextOp script first
      let required ← scriptCount op data 1 maxBareMultisigPubkeys
      let (keys, (op, data), rest) ← skipKeys script 0 rest
      let declared ← scriptCount op data required maxBareMultisigPubkeys
      if declared ≠ keys then none
      else
        match rest with
        | [last] => if last.instruction = some (.op 0xae) then some declared else none
        | _ => none

def isStandardPrevoutScript : Bool :=
  if isP2pkh script || isP2sh script || isP2pk script || isP2a script then true
  else if isOpReturn script then isPushOnly (script.drop 1)
  else if (multisigKeyCount script).isSome then true
  else
    match witnessProgram script with
    | some (version, program) =>
      version = 0 && (program.length = witnessV0KeyhashSize || program.length = witnessV0ScripthashSize) ||
        version = 1 && program.length = witnessV1TaprootSize
    | none => false

end

inductive StackTop
  | data (bytes : Bytes)
  | smallInt

def pushedItem (instruction : Option Instruction) : Option StackTop :=
  match instruction with
  | some (.pushBytes bytes) => some (.data bytes)
  | some (.op op) => if op = 0x4f || 0x51 ≤ op && op ≤ 0x60 then some .smallInt else none
  | none => none

def pushOnlyStackTop (script : Bytes) : Option StackTop := do
  let pushed ← (instructions script).mapM fun parsed => pushedItem parsed.instruction
  pushed.getLast?

def checkP2wshWitness (witness : List Bytes) : Except StandardnessError Unit :=
  match witness.getLast? with
  | none => .error .nonStandardWitness
  | some witnessScript =>
    if maxStandardP2wshScriptSize < witnessScript.length || maxStandardP2wshStackItems < witness.length - 1 ||
      (witness.take (witness.length - 1)).any fun item => maxStandardP2wshStackItemSize < item.length
    then .error .nonStandardWitness
    else .ok ()

/-- The control block is looked for where the annex was, in the last place. -/
def checkTaprootWitness (witness : List Bytes) : Except StandardnessError Unit :=
  if witness.length = 0 then .error .nonStandardWitness
  else if witness.length = 1 then .ok ()
  else
    let last := witness.getD (witness.length - 1) []
    if !last.isEmpty && byteAt last 0 = annexTag || last.isEmpty then .error .nonStandardWitness
    else if byteAt last 0 &&& taprootLeafMask = taprootLeafTapscript &&
      (witness.take (witness.length - 2)).any fun item => maxStandardTapscriptStackItemSize < item.length
    then .error .nonStandardWitness
    else .ok ()

def unlockedProgram (input : TxIn) (script : Bytes) : Option (UInt8 × Bytes) :=
  if isP2sh script then
    match pushOnlyStackTop input.scriptSig with
    | some (.data redeemScript) => witnessProgram redeemScript
    | _ => none
  else witnessProgram script

def checkInputWitness (prevouts : OutPoint → Option TxOut) (input : TxIn) : Except StandardnessError Unit :=
  if input.witness.isEmpty then .ok ()
  else
    match prevouts input.previousOutput with
    | none => .error .nonStandardWitness
    | some prevout =>
      if isP2a prevout.scriptPubkey then .error .nonStandardWitness
      else
        match unlockedProgram input prevout.scriptPubkey with
        | none => .error .nonStandardWitness
        | some (version, program) => do
          if version = 0 && program.length = witnessV0ScripthashSize then checkP2wshWitness input.witness else .ok ()
          if version = 1 && program.length = witnessV1TaprootSize && !isP2sh prevout.scriptPubkey then
            checkTaprootWitness input.witness
          else .ok ()

def checkWitnessStandardness (tx : Tx) (prevouts : OutPoint → Option TxOut) : Except StandardnessError Unit :=
  tx.inputs.forM (checkInputWitness prevouts)

def p2aScript : Bytes := [0x51, 0x02, 0x4e, 0x73]

structure SpendsAnchor (prepared : PreparedTransaction) (inputIdx : ℕ) (input : TxIn) (prevout : TxOut) : Prop where
  input_eq : prepared.tx.inputs[inputIdx]? = some input
  prevout_eq : prepared.prevouts[inputIdx]? = some prevout
  anchor : isP2a prevout.scriptPubkey = true
  scriptSig_nil : input.scriptSig = []
  witness_nil : input.witness = []

def anchorStack : Stack := ⟨[.bytes [0x4e, 0x73], .bytes [0x01]], by decide⟩

section

variable (prims : Primitives) (checker : TxSignatureChecker) (flags : VerifyFlags)

lemma evalBase_nil : evalBase prims checker flags [] Stack.new = .ok Stack.new := rfl

lemma evalBase_anchor : evalBase prims checker flags p2aScript Stack.new = .ok anchorStack := by
  have hpush (s : EvalState) (hconditions : s.conditions.allTrue = true) (hstack : s.stack =
    ⟨[.bytes [0x01]], by decide⟩)
      (haltstack : s.altstack = new) :
      evalStep ⟨prims, p2aScript, checker, .base, none⟩ flags s ⟨some (.pushBytes [0x4e, 0x73]), 1, 4⟩ =
        .ok { s with stack := anchorStack,
                     opcodePos := if s.opcodePos = 0xffffffff then s.opcodePos else s.opcodePos + 1 } := by
    unfold evalStep evalInstruction
    dsimp only
    rw [hconditions, hstack]
    unfold handlePushBytes
    rw [show minimalPush [0x4e, 0x73] (byteAt p2aScript 1) = true from rfl, Bool.not_true, Bool.and_false]
    show (require (decide (anchorStack.len + s.altstack.len ≤ maxStackSize)) .stackSize >>= fun _ => _) = _
    rw [haltstack]
    rfl
  have hfold : (instructions p2aScript).foldlM (evalStep ⟨prims, p2aScript, checker, .base, none⟩ flags)
      (initialState new none) = .ok { initialState new none with stack := anchorStack, opcodePos := 2 } := by
    show (evalStep ⟨prims, p2aScript, checker, .base, none⟩ flags
      { initialState new none with stack := ⟨[.bytes [0x01]], by decide⟩, opcodePos := 1 }
        ⟨some (.pushBytes [0x4e, 0x73]), 1, 4⟩ >>= pure) = _
    rw [hpush _ rfl rfl rfl]
    rfl
  unfold evalBase evalScript
  rw [hfold]
  rfl

lemma nativeWitness_anchor (stack : Stack) :
    nativeWitness prims checker flags [] p2aScript [] stack =
      if flags.contains .witness then
        if flags.contains .discourageUpgradableWitnessProgram then reject .discourageUpgradableWitnessProgram
        else .ok (true, trueStack)
      else .ok (false, stack) := by
  unfold nativeWitness
  split
  · show (verifyWitnessProgram prims checker flags [] 1 [0x4e, 0x73] >>= fun stack => .ok (true, stack)) = _
    unfold verifyWitnessProgram
    cases flags.contains .discourageUpgradableWitnessProgram <;> rfl
  · rfl

lemma verifyScript_anchor (hfilled : flags.Filled) :
    verifyScript prims checker flags [] p2aScript [] =
      if flags.contains .witness && flags.contains .discourageUpgradableWitnessProgram then
        reject .discourageUpgradableWitnessProgram
      else .ok () := by
  have hpushOnly : require (!(flags.contains .sigpushonly && !isPushOnly [])) .sigPushonly = .ok () := by
    rw [show isPushOnly [] = true from rfl, Bool.not_true, Bool.and_false]
    rfl
  have hhash (used : Bool) (stack : Stack) :
      scriptHash prims checker flags [] p2aScript [] new used stack = .ok (used, stack) := by
    unfold scriptHash
    rw [show isP2sh p2aScript = false from rfl, Bool.and_false]
    rfl
  unfold verifyScript
  rw [hpushOnly, evalBase_nil, ok_bind, ok_bind, evalBase_anchor, ok_bind, nativeWitness_anchor]
  cases hwitness : flags.contains .witness with
  | true =>
    cases flags.contains .discourageUpgradableWitnessProgram with
    | true => rfl
    | false =>
      show (scriptHash prims checker flags [] p2aScript [] new true trueStack >>= _) = _
      rw [hhash]
      simp [verifyFinal, require, trueStack, len]
  | false =>
    have hclean : flags.contains .cleanstack = false := by
      cases hclean : flags.contains .cleanstack with
      | false => rfl
      | true => exact absurd (hfilled.witness_of_cleanstack hclean) (by simp [hwitness])
    show (scriptHash prims checker flags [] p2aScript [] new false anchorStack >>= _) = _
    rw [hhash]
    unfold verifyFinal
    rw [hwitness, hclean]
    rfl

lemma verifyInput_anchor {prepared : PreparedTransaction} {inputIdx : ℕ} {input : TxIn} {prevout : TxOut}
    (h : SpendsAnchor prepared inputIdx input prevout) :
    prepared.verifyInput prims inputIdx flags =
      if flags.filled.contains .witness && flags.filled.contains .discourageUpgradableWitnessProgram then
        reject .discourageUpgradableWitnessProgram
      else .ok true := by
  have hscript : prevout.scriptPubkey = p2aScript := of_decide_eq_true h.anchor
  unfold PreparedTransaction.verifyInput PreparedTransaction.executeSpend
  rw [h.input_eq, h.prevout_eq]
  dsimp only
  rw [h.scriptSig_nil, h.witness_nil, hscript, verifyScript_anchor _ _ _ (VerifyFlags.filled_filled flags)]
  split
  · rfl
  · rfl

end

/-- A spend of an anchor that the mandatory rules let pass is refused under a policy exactly when the policy looks at
witness programs and discourages those of a version it does not know. -/
theorem anchor_relayed_iff (prims : Primitives) (policy : VerifyFlags) (prepared : PreparedTransaction) (inputIdx : ℕ)
    (input : TxIn) (prevout : TxOut) (h : SpendsAnchor prepared inputIdx input prevout) :
    ((prepared.verifyInput prims inputIdx .mandatory = .ok true →
        prepared.verifyInput prims inputIdx policy = .ok true) ↔
      ¬(policy.filled.contains .witness = true ∧
        policy.filled.contains .discourageUpgradableWitnessProgram = true)) ∧
    (policy.filled.contains .witness ∧ policy.filled.contains .discourageUpgradableWitnessProgram →
      ∀ lib spent, PreparedTransaction.new prepared.tx spent = .ok prepared →
        verifyTxScripts prims lib prepared.tx spent policy .native ≠ .ok ()) := by
  have hmandatory : prepared.verifyInput prims inputIdx .mandatory = .ok true := by
    rw [verifyInput_anchor prims _ h]
    rfl
  rw [verifyInput_anchor prims policy h, ← Bool.and_eq_true]
  refine ⟨⟨fun hrelayed hboth => ?_, fun hnot _ => ?_⟩, fun hboth lib spent hnew hok => ?_⟩
  · have hok := hrelayed hmandatory
    rw [if_pos hboth] at hok
    cases hok
  · rw [if_neg hnot]
  · rw [verifyTxScripts, hnew] at hok
    have hlt := (List.getElem?_eq_some_iff.mp h.input_eq).1
    rw [← PreparedTransaction.length_of_new hnew] at hlt
    have hinput := ok_of_forM hok _ (List.mk_mem_zipIdx_iff_getElem?.mpr (List.getElem?_eq_getElem hlt))
    simp only [verifyInputScriptNative, verifyInput_anchor prims policy h, if_pos hboth] at hinput
    cases hinput

theorem anchor_relayed_cleanstack :
    SpendsAnchor (bareSpend p2aScript) 0 ⟨⟨default, 0⟩, [], 0xffffffff, []⟩ ⟨1000, p2aScript⟩ ∧
      ((bareSpend p2aScript).verifyInput .rejecting 0 .mandatory = .ok true →
        (bareSpend p2aScript).verifyInput .rejecting 0 .cleanstack = .ok true) := by
  have h : SpendsAnchor (bareSpend p2aScript) 0 ⟨⟨default, 0⟩, [], 0xffffffff, []⟩ ⟨1000, p2aScript⟩ :=
    ⟨rfl, rfl, rfl, rfl, rfl⟩
  exact ⟨h, (anchor_relayed_iff .rejecting .cleanstack _ 0 _ _ h).1.mpr (by decide)⟩

/-- The checks on the spent outputs pass the spend, the mandatory rules pass it, and the standard ones do not. -/
theorem standard_refuses_anchor :
    isStandardPrevoutScript p2aScript = true ∧
      checkWitnessStandardness (bareSpend p2aScript).tx (fun _ => some ⟨1000, p2aScript⟩) = .ok () ∧
      (bareSpend p2aScript).verifyInput .rejecting 0 .mandatory = .ok true ∧
      (bareSpend p2aScript).verifyInput .rejecting 0 .standard =
        .error (.invalid .discourageUpgradableWitnessProgram) := by
  decide +kernel

end BitcoinRs.Mempool
