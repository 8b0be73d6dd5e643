import BitcoinRs.Script.Interpreter
import Mathlib.Data.Nat.Bitwise

namespace BitcoinRs.Interpreter

open Tighter

def VerifyFlags.Within (loose tight : VerifyFlags) : Prop := tight.contains loose = true

lemma VerifyFlags.Within.contains {loose tight : VerifyFlags} (h : loose.Within tight) {flag : VerifyFlags}
    (hflag : loose.contains flag = true) : tight.contains flag = true :=
  contains_trans h hflag

lemma require_tighter {c c' : Bool} (code : ScriptErrCode) (h : c = true → c' = true) :
    Tighter (require c code) (require c' code) := by
  cases c with
  | false => exact .error _ _
  | true =>
    rw [h rfl]

section

variable {loose tight : VerifyFlags} (h : loose.Within tight)

include h

variable (flag : VerifyFlags)

lemma rule_tighter (broken : Bool) (code : ScriptErrCode) :
    Tighter (require (!(tight.contains flag && broken)) code) (require (!(loose.contains flag && broken)) code) := by
  apply require_tighter
  intro hkept
  cases hloose : loose.contains flag with
  | false => rfl
  | true =>
    rw [h.contains hloose] at hkept
    exact hkept

lemma flag_tighter (code : ScriptErrCode) :
    Tighter (require (!tight.contains flag) code) (require (!loose.contains flag) code) := by
  have hrule := rule_tighter h flag true code
  rwa [Bool.and_true, Bool.and_true] at hrule

lemma numOf_tighter (maxSize : ℕ) (item : ScriptItem) :
    Tighter (numOf (tight.contains .minimaldata) maxSize item) (numOf (loose.contains .minimaldata) maxSize item) := by
  cases hloose : loose.contains .minimaldata with
  | true =>
    rw [h.contains hloose]
  | false =>
    apply Tighter.ite (Tighter.refl _)
    cases (itemBytes item).getLast? with
    | none => rfl
    | some last =>
      dsimp only
      split
      · exact .error _ _
      · rfl

lemma checkSignatureEncoding_tighter (sig : Bytes) :
    Tighter (checkSignatureEncoding sig tight) (checkSignatureEncoding sig loose) := by
  apply Tighter.ite (Tighter.refl _)
  apply Tighter.bind
  · apply require_tighter
    intro hkept
    cases hder : isValidDerEncoding sig with
    | true => simp
    | false =>
      rw [hder] at hkept
      simp only [Bool.not_false, Bool.and_true, Bool.not_eq_true', Bool.or_eq_false_iff] at hkept ⊢
      obtain ⟨⟨h₁, h₂⟩, h₃⟩ := hkept
      have hoff : ∀ flag, tight.contains flag = false → loose.contains flag = false := by
        intro flag hflag
        cases hloose : loose.contains flag with
        | false => rfl
        | true => exact absurd (h.contains hloose) (by simp [hflag])
      exact ⟨⟨hoff _ h₁, hoff _ h₂⟩, hoff _ h₃⟩
  · intro _
    refine .bind (rule_tighter h _ _ _) fun _ => ?_
    exact rule_tighter h _ _ _

lemma checkPubkeyEncoding_tighter (pubkey : Bytes) (sigversion : SigVersion) :
    Tighter (checkPubkeyEncoding pubkey tight sigversion) (checkPubkeyEncoding pubkey loose sigversion) := by
  refine .bind (rule_tighter h _ _ _) fun _ => ?_
  rw [Bool.and_assoc, Bool.and_assoc]
  exact rule_tighter h _ _ _

lemma checkEcdsaSignature_tighter (prims : Primitives) (checker : TxSignatureChecker) (sig pubkey code : Bytes)
    (sigversion : SigVersion) :
    Tighter (checker.checkEcdsaSignature prims sig pubkey code sigversion tight)
      (checker.checkEcdsaSignature prims sig pubkey code sigversion loose) := by
  refine .bind ?_ fun _ => .refl _
  refine .bind (checkSignatureEncoding_tighter h sig) fun _ => ?_
  refine .bind (checkPubkeyEncoding_tighter h pubkey sigversion) fun _ => ?_
  rfl

section

variable (env : EvalEnv) (sig pubkey : Bytes) (separator : CodeSeparator)

lemma cleanedCode_tighter (code sig : Bytes) :
    Tighter (cleanedCode env tight code sig) (cleanedCode env loose code sig) := by
  apply Tighter.ite _ (Tighter.refl _)
  apply Tighter.bind
  · rw [Bool.and_comm, Bool.and_comm (decide _)]
    exact rule_tighter h _ _ _
  · intro _
    rfl

lemma evalEcdsaChecksig_tighter :
    Tighter (evalEcdsaChecksig env tight sig pubkey separator) (evalEcdsaChecksig env loose sig pubkey separator) := by
  refine .bind (cleanedCode_tighter h env _ sig) fun code => ?_
  refine .bind (checkEcdsaSignature_tighter h env.prims env.checker sig pubkey code env.sigversion) fun success => ?_
  apply Tighter.bind
  · rw [Bool.and_comm (!success), Bool.and_comm (!success), Bool.and_assoc, Bool.and_assoc]
    exact rule_tighter h _ _ _
  · intro _
    rfl

variable (weight : Option ℤ)

lemma evalTapscriptChecksig_tighter :
    Tighter (evalTapscriptChecksig env tight sig pubkey separator weight)
      (evalTapscriptChecksig env loose sig pubkey separator weight) := by
  apply bind_same
  intro weight
  apply bind_same
  intro _
  apply Tighter.bind
  · apply Tighter.ite (Tighter.refl _)
    refine .bind (flag_tighter h _ _) fun _ => ?_
    rfl
  · intro _
    rfl

lemma evalChecksig_tighter :
    Tighter (evalChecksig env tight sig pubkey separator weight)
      (evalChecksig env loose sig pubkey separator weight) := by
  unfold evalChecksig
  split
  · exact evalTapscriptChecksig_tighter h env sig pubkey separator weight
  · refine .bind (evalEcdsaChecksig_tighter h env sig pubkey separator) fun _ => ?_
    rfl

lemma checksigOp_tighter (op : UInt8) (s : EvalState) :
    Tighter (checksigOp env tight op s) (checksigOp env loose op s) := by
  apply bind_same
  rintro ⟨pubkey, stack⟩
  apply bind_same
  rintro ⟨sig, stack⟩
  apply bind (evalChecksig_tighter h env _ _ _ _)
  rintro ⟨success, weight⟩
  rfl

lemma checksigaddOp_tighter (s : EvalState) :
    Tighter (checksigaddOp env tight (tight.contains .minimaldata) s)
      (checksigaddOp env loose (loose.contains .minimaldata) s) := by
  apply bind_same
  intro _
  apply bind_same
  rintro ⟨pubkey, stack⟩
  apply bind_same
  rintro ⟨num, stack⟩
  apply bind_same
  rintro ⟨sig, stack⟩
  refine .bind (numOf_tighter h 4 num) fun value => ?_
  apply bind (evalChecksig_tighter h env _ _ _ _)
  rintro ⟨success, weight⟩
  rfl

variable (stack : Stack)

lemma multisigCode_tighter (keys left index : ℕ) (code : Bytes) :
    Tighter (multisigCode env tight stack keys left index code)
      (multisigCode env loose stack keys left index code) := by
  induction left generalizing index code with
  | zero => rfl
  | succ left ih =>
    apply bind_same
    intro sig
    refine .bind (cleanedCode_tighter h env code _) fun code => ?_
    exact ih (index + 1) code

lemma matchSigs_tighter (code : Bytes) (keysLeft sigsLeft keyDepth sigDepth : ℕ) :
    Tighter (matchSigs env tight stack code keysLeft sigsLeft keyDepth sigDepth)
      (matchSigs env loose stack code keysLeft sigsLeft keyDepth sigDepth) := by
  induction keysLeft generalizing sigsLeft keyDepth sigDepth with
  | zero =>
    cases sigsLeft with
    | zero => rfl
    | succ sigsLeft => rfl
  | succ keysLeft ih =>
    cases sigsLeft with
    | zero => rfl
    | succ sigsLeft =>
      apply bind_same
      intro sig
      apply bind_same
      intro key
      refine .bind (checkEcdsaSignature_tighter h env.prims env.checker _ _ code env.sigversion) fun ok => ?_
      apply Tighter.ite
      · exact .ite (Tighter.refl _) (ih _ _ _)
      · exact .ite (Tighter.refl _) (ih _ _ _)

omit env in
lemma popArgs_tighter (success : Bool) (sigs args : ℕ) (stack : Stack) :
    Tighter (popArgs tight success sigs args stack) (popArgs loose success sigs args stack) := by
  induction args generalizing stack with
  | zero => rfl
  | succ args ih =>
    unfold popArgs
    apply bind_same
    rintro ⟨top, rest⟩
    apply Tighter.bind
    · rw [Bool.and_comm (!success), Bool.and_comm (!success), Bool.and_assoc, Bool.and_assoc, Bool.and_assoc,
        Bool.and_assoc]
      exact rule_tighter h _ _ _
    · intro _
      exact ih rest

omit env in
lemma multisigCounts_tighter (stack : Stack) (opCount : ℕ) :
    Tighter (multisigCounts (tight.contains .minimaldata) stack opCount)
      (multisigCounts (loose.contains .minimaldata) stack opCount) := by
  unfold multisigCounts
  apply bind_same
  intro top
  refine .bind (numOf_tighter h 4 top) fun nKeys => ?_
  apply bind_same
  intro _
  apply bind_same
  intro _
  apply bind_same
  intro _
  apply bind_same
  intro item
  refine .bind (numOf_tighter h 4 item) fun nSigs => ?_
  rfl

lemma checkMultisigOp_tighter (op : UInt8) (s : EvalState) :
    Tighter (checkMultisigOp env tight (tight.contains .minimaldata) op s)
      (checkMultisigOp env loose (loose.contains .minimaldata) op s) := by
  apply bind_same
  intro _
  apply bind (multisigCounts_tighter h s.stack s.opCount)
  rintro ⟨keys, sigs, opCount⟩
  refine .bind (multisigCode_tighter h env s.stack keys sigs 0 _) fun code => ?_
  refine .bind (matchSigs_tighter h env s.stack code keys sigs 1 (keys + 2)) fun success => ?_
  refine .bind (popArgs_tighter h success sigs _ s.stack) fun stack => ?_
  apply bind_same
  rintro ⟨dummy, stack⟩
  refine .bind (rule_tighter h _ _ _) fun _ => ?_
  rfl

end

section

variable (env : EvalEnv) (s : EvalState)

lemma lockRule_tighter {flag : VerifyFlags} {check : ℤ → ScriptResult EvalState}
    (hcheck : ∀ n, Tighter (check n) (.ok s)) :
    Tighter (if tight.contains flag then peekItem s.stack 0 >>= fun top =>
        numOf (tight.contains .minimaldata) 5 top >>= check else .ok s)
      (if loose.contains flag then peekItem s.stack 0 >>= fun top =>
        numOf (loose.contains .minimaldata) 5 top >>= check else .ok s) := by
  cases hloose : loose.contains flag with
  | true =>
    rw [h.contains hloose]
    apply bind_same
    intro top
    refine .bind (numOf_tighter h 5 top) fun n => ?_
    rfl
  | false =>
    split
    · apply drop
      intro top
      apply drop
      intro n
      exact hcheck n
    · rfl

lemma checkLocktimeVerify_tighter :
    Tighter (checkLocktimeVerify env tight (tight.contains .minimaldata) s)
      (checkLocktimeVerify env loose (loose.contains .minimaldata) s) := by
  apply lockRule_tighter h s
  intro locktime
  apply drop
  intro _
  apply drop
  intro _
  rfl

lemma checkSequenceVerify_tighter :
    Tighter (checkSequenceVerify env tight (tight.contains .minimaldata) s)
      (checkSequenceVerify env loose (loose.contains .minimaldata) s) := by
  apply lockRule_tighter h s
  intro sequence
  apply drop
  intro _
  apply drop
  intro _
  rfl

lemma ifOp_tighter (negated exec : Bool) : Tighter (ifOp env tight negated exec s) (ifOp env loose negated exec s) := by
  apply Tighter.ite _ (Tighter.refl _)
  apply Tighter.bind
  · apply bind_same
    rintro ⟨top, stack⟩
    apply bind_same
    intro _
    apply Tighter.bind
    · rw [Bool.and_comm (decide _), Bool.and_comm (decide _), Bool.and_assoc, Bool.and_assoc]
      exact rule_tighter h _ _ _
    · intro _
      rfl
  · rintro ⟨value, stack⟩
    rfl

omit h in
lemma onStack_tighter {x y : ScriptResult Stack} (hxy : Tighter x y) : Tighter (onStack s x) (onStack s y) :=
  bind hxy fun _ => .refl _

omit s in
lemma unaryOp_tighter (op : UInt8) (stack : Stack) :
    Tighter (unaryOp (tight.contains .minimaldata) op stack) (unaryOp (loose.contains .minimaldata) op stack) := by
  unfold unaryOp
  apply bind_same
  rintro ⟨top, stack⟩
  refine .bind (numOf_tighter h 4 top) fun value => ?_
  rfl

omit s in
lemma binaryOp_tighter (op : UInt8) (stack : Stack) :
    Tighter (binaryOp (tight.contains .minimaldata) op stack) (binaryOp (loose.contains .minimaldata) op stack) := by
  unfold binaryOp
  apply bind_same
  rintro ⟨second, stack⟩
  apply bind_same
  rintro ⟨first, stack⟩
  refine .bind (numOf_tighter h 4 first) fun b1 => ?_
  refine .bind (numOf_tighter h 4 second) fun b2 => ?_
  rfl

omit s in
lemma withinOp_tighter (stack : Stack) :
    Tighter (withinOp (tight.contains .minimaldata) stack) (withinOp (loose.contains .minimaldata) stack) := by
  unfold withinOp
  apply bind_same
  rintro ⟨third, stack⟩
  apply bind_same
  rintro ⟨second, stack⟩
  apply bind_same
  rintro ⟨first, stack⟩
  refine .bind (numOf_tighter h 4 first) fun x => ?_
  refine .bind (numOf_tighter h 4 second) fun low => ?_
  refine .bind (numOf_tighter h 4 third) fun high => ?_
  rfl

omit s in
lemma pickOrRoll_tighter (op : UInt8) (stack : Stack) :
    Tighter (pickOrRoll (tight.contains .minimaldata) op stack)
      (pickOrRoll (loose.contains .minimaldata) op stack) := by
  unfold pickOrRoll
  apply bind_same
  rintro ⟨item, stack⟩
  refine .bind (numOf_tighter h 4 item) fun n => ?_
  rfl

lemma dispatch_tighter (op : UInt8) (exec : Bool) (start : ℕ) :
    Tighter (dispatch env tight op exec start s) (dispatch env loose op exec start s) := by
  apply Tighter.ite (Tighter.refl _)
  cases decodePushnum op with
  | some value => rfl
  | none =>
    apply Tighter.ite (Tighter.refl _)
    apply Tighter.ite (checkLocktimeVerify_tighter h env s)
    apply Tighter.ite (checkSequenceVerify_tighter h env s)
    apply Tighter.ite (Tighter.bind (flag_tighter h _ _) fun _ => .refl _)
    apply Tighter.ite (ifOp_tighter h env s _ exec)
    iterate 7 apply Tighter.ite (Tighter.refl _)
    apply Tighter.ite (onStack_tighter s (pickOrRoll_tighter h op s.stack))
    apply Tighter.ite (Tighter.refl _)
    apply Tighter.ite (onStack_tighter s (unaryOp_tighter h op s.stack))
    apply Tighter.ite (onStack_tighter s (binaryOp_tighter h op s.stack))
    apply Tighter.ite (onStack_tighter s (withinOp_tighter h s.stack))
    iterate 2 apply Tighter.ite (Tighter.refl _)
    apply Tighter.ite (checksigOp_tighter h env op s)
    apply Tighter.ite (checksigaddOp_tighter h env s)
    exact .ite (checkMultisigOp_tighter h env op s) (Tighter.refl _)

omit s in
lemma checkOpcodeRules_tighter (op : UInt8) (sigversion : SigVersion) (opCount : ℕ) :
    Tighter (checkOpcodeRules op sigversion tight opCount) (checkOpcodeRules op sigversion loose opCount) := by
  unfold checkOpcodeRules
  apply bind_same
  intro _
  apply bind_same
  intro _
  apply Tighter.bind
  · rw [Bool.and_comm, Bool.and_comm (decide _ && decide _)]
    exact rule_tighter h _ _ _
  · intro _
    rfl

omit s in
lemma handlePushBytes_tighter (data : Bytes) (op : UInt8) (conditionsTrue : Bool) (stack : Stack) :
    Tighter (handlePushBytes data op conditionsTrue tight stack)
      (handlePushBytes data op conditionsTrue loose stack) := by
  unfold handlePushBytes
  apply bind_same
  intro _
  apply Tighter.ite _ (Tighter.refl _)
  refine .bind (rule_tighter h _ _ _) fun _ => ?_
  rfl

lemma evalOp_tighter (op : UInt8) (start : ℕ) :
    Tighter (evalOp env tight op start s) (evalOp env loose op start s) := by
  refine .bind (checkOpcodeRules_tighter h op env.sigversion s.opCount) fun opCount => ?_
  exact .ite (dispatch_tighter h env _ op _ start) (refl _)

variable (parsed : Parsed)

lemma evalInstruction_tighter : Tighter (evalInstruction env tight parsed s) (evalInstruction env loose parsed s) := by
  unfold evalInstruction
  split
  · rfl
  · exact onStack_tighter s (handlePushBytes_tighter h _ _ _ _)
  · exact evalOp_tighter h env s _ _

lemma evalStep_tighter : Tighter (evalStep env tight s parsed) (evalStep env loose s parsed) := by
  refine .bind (evalInstruction_tighter h env s parsed) fun s' => ?_
  rfl

omit s in
lemma evalScript_tighter (stack : Stack) (weight : Option ℤ) :
    Tighter (evalScript env tight stack weight) (evalScript env loose stack weight) := by
  unfold evalScript
  apply bind_same
  intro _
  refine .bind (foldlM (evalStep_tighter h env) _ _) fun s => ?_
  rfl

end

lemma tapscriptOpSuccess_tighter (script : Bytes) :
    Tighter (tapscriptOpSuccess script tight) (tapscriptOpSuccess script loose) := by
  unfold tapscriptOpSuccess
  induction instructions script with
  | nil => rfl
  | cons parsed rest ih =>
    unfold opSuccessFrom
    split
    · rfl
    · exact ih
    · refine .ite ?_ ih
      refine .bind (flag_tighter h _ _) fun _ => ?_
      rfl

section

variable (prims : Primitives) (checker : TxSignatureChecker) (program : Bytes) (witness : List Bytes)

lemma evalBase_tighter (script : Bytes) (stack : Stack) :
    Tighter (evalBase prims checker tight script stack) (evalBase prims checker loose script stack) :=
  bind (evalScript_tighter h _ stack none) fun _ => .refl _

lemma verifyWitnessProgram_tighter (version : UInt8) (program : Bytes) :
    Tighter (verifyWitnessProgram prims checker tight witness version program)
      (verifyWitnessProgram prims checker loose witness version program) := by
  apply Tighter.ite
  · refine .bind (flag_tighter h _ _) fun _ => ?_
    rfl
  · apply bind_same
    rintro ⟨script, elements⟩
    apply bind_same
    intro stack
    refine .bind (evalScript_tighter h _ stack none) fun _ => ?_
    rfl

lemma verifyLeaf_tighter (script control : Bytes) (elements : List Bytes) (tapleaf : Hash256) :
    Tighter (verifyLeaf prims checker tight witness script control elements tapleaf)
      (verifyLeaf prims checker loose witness script control elements tapleaf) := by
  apply Tighter.ite (flag_tighter h _ _)
  refine .bind (tapscriptOpSuccess_tighter h script) fun success => ?_
  apply Tighter.ite (Tighter.refl _)
  apply bind_same
  intro _
  apply bind_same
  intro stack
  refine .bind (evalScript_tighter h _ stack _) fun _ => ?_
  rfl

lemma verifyTaprootScriptpath_tighter (witness stack : List Bytes) :
    Tighter (verifyTaprootScriptpath prims checker tight program witness stack)
      (verifyTaprootScriptpath prims checker loose program witness stack) := by
  unfold verifyTaprootScriptpath
  split
  · apply bind_same
    intro _
    apply bind_same
    intro _
    exact verifyLeaf_tighter h prims checker _ _ _ _ _
  · rfl

lemma verifyTaproot_tighter :
    Tighter (verifyTaproot prims checker tight program witness)
      (verifyTaproot prims checker loose program witness) := by
  apply Tighter.ite (Tighter.refl _)
  dsimp only
  split
  · rfl
  · exact verifyTaprootScriptpath_tighter h prims _ program witness _

lemma checkTaproot_tighter :
    Tighter (checkTaproot prims checker tight program witness) (checkTaproot prims checker loose program witness) := by
  unfold checkTaproot
  cases hloose : loose.contains .taproot with
  | true =>
    rw [h.contains hloose]
    exact verifyTaproot_tighter h prims checker program witness
  | false => exact unit _

lemma verifyNative_tighter (scriptSig : Bytes) (witness : List Bytes) (version : UInt8) (program : Bytes) :
    Tighter (verifyNative prims checker tight scriptSig witness version program)
      (verifyNative prims checker loose scriptSig witness version program) := by
  apply bind_same
  intro _
  apply Tighter.ite
  · refine .bind (checkTaproot_tighter h prims checker program witness) fun _ => ?_
    rfl
  · exact verifyWitnessProgram_tighter h prims checker witness version program

lemma nativeWitness_tighter (hwitness : loose.contains .witness = true) (scriptSig scriptPubkey : Bytes)
    (witness : List Bytes) (stack : Stack) :
    Tighter (nativeWitness prims checker tight scriptSig scriptPubkey witness stack)
      (nativeWitness prims checker loose scriptSig scriptPubkey witness stack) := by
  unfold nativeWitness
  rw [if_pos hwitness, if_pos (h.contains hwitness)]
  split
  · refine .bind (verifyNative_tighter h prims checker scriptSig witness _ _) fun _ => ?_
    rfl
  · rfl

lemma redeemWitness_tighter (hwitness : loose.contains .witness = true) (scriptSig redeem : Bytes)
    (witness : List Bytes) (used : Bool) (stack : Stack) :
    Tighter (redeemWitness prims checker tight scriptSig redeem witness used stack)
      (redeemWitness prims checker loose scriptSig redeem witness used stack) := by
  unfold redeemWitness
  rw [if_pos hwitness, if_pos (h.contains hwitness)]
  split
  · apply bind_same
    intro _
    refine .bind (verifyWitnessProgram_tighter h prims checker witness _ _) fun _ => ?_
    rfl
  · rfl

variable (hp2sh : loose.contains .p2sh = true)

include hp2sh

lemma scriptHash_tighter (hwitness : loose.contains .witness = true)
    (scriptSig scriptPubkey : Bytes) (witness : List Bytes) (redeemStack : Stack) (used : Bool) (stack : Stack) :
    Tighter (scriptHash prims checker tight scriptSig scriptPubkey witness redeemStack used stack)
      (scriptHash prims checker loose scriptSig scriptPubkey witness redeemStack used stack) := by
  unfold scriptHash
  rw [hp2sh, h.contains hp2sh]
  refine .ite ?_ (refl _)
  apply bind_same
  intro _
  apply bind_same
  rintro ⟨top, stack⟩
  refine .bind (evalBase_tighter h prims checker _ stack) fun stack => ?_
  apply bind_same
  intro _
  exact redeemWitness_tighter h prims checker hwitness scriptSig _ witness used stack

lemma verifyFinal_tighter (witness : List Bytes) (used : Bool) (stack : Stack) :
    Tighter (verifyFinal tight witness used stack) (verifyFinal loose witness used stack) := by
  apply Tighter.bind
  · rw [Bool.and_assoc, Bool.and_assoc]
    exact rule_tighter h _ _ _
  · intro _
    rw [hp2sh, h.contains hp2sh, Bool.and_assoc, Bool.and_assoc]
    exact rule_tighter h _ _ _

end

end

namespace VerifyFlags

def has (flags : VerifyFlags) (n : ℕ) : Bool := flags.bits.toNat.testBit n

lemma has_union (a b : VerifyFlags) (n : ℕ) : (a.union b).has n = (a.has n || b.has n) := by
  unfold has union
  rw [UInt32.toNat_or, Nat.testBit_or]

section

variable (flags : VerifyFlags) {mask : VerifyFlags} {n : ℕ} (hmask : mask.bits.toNat = 2 ^ n)

include hmask

lemma toNat_and_mask : (flags.bits &&& mask.bits).toNat = (flags.has n).toNat * 2 ^ n := by
  rw [UInt32.toNat_and, hmask, Nat.and_two_pow]
  rfl

lemma and_mask_ne_zero : flags.bits &&& mask.bits ≠ 0 ↔ flags.has n = true := by
  rw [ne_eq, ← UInt32.toNat_inj, toNat_and_mask flags hmask]
  cases flags.has n <;> simp

lemma contains_mask : flags.contains mask = flags.has n := by
  rw [Bool.eq_iff_iff, contains, beq_iff_eq, ← UInt32.toNat_inj, toNat_and_mask flags hmask, hmask]
  cases flags.has n with
  | false =>
    have := Nat.two_pow_pos n
    simp only [Bool.toNat_false, Nat.zero_mul, Bool.false_eq_true, iff_false]
    omega
  | true => simp

end

/-- The flags that `filled` may not leave out: a clean stack comes with the witness rules, and these with the
script-hash rules. -/
structure Filled (flags : VerifyFlags) : Prop where
  witness_of_cleanstack : flags.contains .cleanstack = true → flags.contains .witness = true
  p2sh_of_witness : flags.contains .witness = true → flags.contains .p2sh = true

lemma filled_filled (flags : VerifyFlags) : flags.filled.Filled := by
  have h0 : p2sh.bits.toNat = 2 ^ 0 := rfl
  have h8 : cleanstack.bits.toNat = 2 ^ 8 := rfl
  have h11 : witness.bits.toNat = 2 ^ 11 := rfl
  have witness_has : witness.has 11 = true ∧ witness.has 8 = false := by decide
  have p2sh_has : p2sh.has 0 = true ∧ p2sh.has 11 = false ∧ p2sh.has 8 = false := by decide
  constructor
  · rw [contains_mask _ h8, contains_mask _ h11, filled]
    simp only [and_mask_ne_zero _ h8, and_mask_ne_zero _ h11]
    split <;> split <;> simp_all [has_union]
  · rw [contains_mask _ h11, contains_mask _ h0, filled]
    simp only [and_mask_ne_zero _ h8, and_mask_ne_zero _ h11]
    split <;> split <;> simp_all [has_union]

end VerifyFlags

section

variable {loose tight : VerifyFlags} (h : loose.Within tight) (hfilled : loose.Filled)
  (prims : Primitives) (checker : TxSignatureChecker)

include h hfilled

lemma afterBase_tighter_of_noWitness (hwitness : loose.contains .witness = false) (scriptSig scriptPubkey : Bytes)
    (witness : List Bytes) (redeemStack : Stack) (used used' : Bool) (stack stack' : Stack) :
    Tighter (scriptHash prims checker tight scriptSig scriptPubkey witness redeemStack used stack >>= fun r =>
        verifyFinal tight witness r.1 r.2)
      (scriptHash prims checker loose scriptSig scriptPubkey witness redeemStack used' stack' >>= fun r =>
        verifyFinal loose witness r.1 r.2) := by
  have hclean : loose.contains .cleanstack = false := by
    cases hloose : loose.contains .cleanstack with
    | false => rfl
    | true => exact absurd (hfilled.witness_of_cleanstack hloose) (by simp [hwitness])
  have hfinal (used : Bool) (stack : Stack) : verifyFinal loose witness used stack = .ok () := by
    unfold verifyFinal
    rw [hwitness, hclean]
    rfl
  have hredeem (redeem : Bytes) (stack : Stack) :
      redeemWitness prims checker loose scriptSig redeem witness used' stack = .ok (used', stack) := by
    unfold redeemWitness
    rw [hwitness]
    rfl
  simp only [hfinal]
  unfold scriptHash
  cases hp2sh : loose.contains .p2sh with
  | false => exact unit _
  | true =>
    rw [h.contains hp2sh]
    split
    · unfold verifyRedeem
      simp only [bind_assoc]
      apply bind_same
      intro _
      apply bind_same
      rintro ⟨top, stack⟩
      apply bind (evalBase_tighter h prims checker _ stack)
      intro stack
      apply bind_same
      intro _
      rw [hredeem]
      exact unit _
    · exact unit _

lemma verifyScript_tighter (scriptSig scriptPubkey : Bytes) (witness : List Bytes) :
    Tighter (verifyScript prims checker tight scriptSig scriptPubkey witness)
      (verifyScript prims checker loose scriptSig scriptPubkey witness) := by
  apply bind (rule_tighter h _ _ _)
  intro _
  apply bind (evalBase_tighter h prims checker scriptSig Stack.new)
  intro redeemStack
  apply bind (evalBase_tighter h prims checker scriptPubkey redeemStack)
  intro stack
  apply bind_same
  intro _
  cases hwitness : loose.contains .witness with
  | true =>
    have hp2sh := hfilled.p2sh_of_witness hwitness
    apply bind (nativeWitness_tighter h prims checker hwitness scriptSig scriptPubkey witness stack)
    rintro ⟨used, stack⟩
    apply bind (scriptHash_tighter h prims checker hp2sh hwitness scriptSig scriptPubkey witness redeemStack used stack)
    rintro ⟨used, stack⟩
    exact verifyFinal_tighter h hp2sh witness used stack
  | false =>
    apply drop
    rintro ⟨used, stack'⟩
    rw [nativeWitness, hwitness]
    exact afterBase_tighter_of_noWitness h hfilled prims checker hwitness scriptSig scriptPubkey witness redeemStack
      used false stack' stack

end

/-- An input that is accepted under some flags is accepted under fewer. -/
theorem verifyInput_of_more_flags (prims : Primitives) (prepared : PreparedTransaction) (inputIdx : ℕ)
    (loose tight : VerifyFlags) (h : loose.filled.Within tight.filled)
    (hok : prepared.verifyInput prims inputIdx tight = .ok true) :
    prepared.verifyInput prims inputIdx loose = .ok true := by
  revert hok
  unfold PreparedTransaction.verifyInput
  split
  · apply bind (verifyScript_tighter h (VerifyFlags.filled_filled loose) prims _ _ _ _)
    intro _
    exact refl _
  · exact id

def Primitives.rejecting : Primitives where
  ripemd160 := id
  sha1 := id
  sha256 := id
  publicKeyParses _ := false
  derLaxParses _ := false
  xonlyParses _ := some "invalid"
  schnorrSigParses _ := false
  legacySignatureHash _ _ _ _ := .error "unavailable"
  segwitV0SignatureHash _ _ _ _ _ := .error "unavailable"
  taprootSignatureHash _ _ _ _ _ _ := .error "unavailable"
  verifyEcdsa _ _ _ := false
  verifySchnorr _ _ _ := false
  tapleafHash _ _ := default
  tapbranchHash a _ := a
  taptweakHash a _ := a
  tweakAddCheck _ _ _ _ := false

def bareSpend (scriptPubkey : Bytes) : PreparedTransaction :=
  ⟨⟨2, [⟨⟨default, 0⟩, [], 0xffffffff, []⟩], [], 0⟩, [⟨1000, scriptPubkey⟩], rfl⟩

theorem verifyInput_mandatory_of_standard :
    VerifyFlags.mandatory.filled.Within VerifyFlags.standard.filled ∧
      (bareSpend [0x51, 0x76, 0x93, 0x52, 0x87]).verifyInput .rejecting 0 .standard = .ok true ∧
      (bareSpend [0x51, 0x76, 0x93, 0x52, 0x87]).verifyInput .rejecting 0 .mandatory = .ok true := by
  have hwithin : VerifyFlags.mandatory.filled.Within VerifyFlags.standard.filled := rfl
  have hok : (bareSpend [0x51, 0x76, 0x93, 0x52, 0x87]).verifyInput .rejecting 0 .standard =
    .ok true := by decide +kernel
  exact ⟨hwithin, hok, verifyInput_of_more_flags _ _ 0 .mandatory .standard hwithin hok⟩

end BitcoinRs.Interpreter
