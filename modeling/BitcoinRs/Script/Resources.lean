import BitcoinRs.Script.SoftFork
import Mathlib.Data.List.InsertIdx

namespace BitcoinRs.Interpreter

open List

open Ensures (branch)

section

lemma length_magnitudeBytes (fuel n : ℕ) : (magnitudeBytes fuel n).length ≤ fuel := by
  induction fuel generalizing n with
  | zero => exact Nat.le_refl 0
  | succ fuel ih =>
    unfold magnitudeBytes
    split
    · exact Nat.zero_le _
    · exact Nat.succ_le_succ (ih _)

lemma length_signBytes (negative : Bool) (bytes : Bytes) : (signBytes negative bytes).length ≤ bytes.length + 1 := by
  unfold signBytes
  split
  · exact Nat.le_succ _
  · split
    · rw [length_append, length_singleton]
    · split
      · rw [length_append, length_singleton, length_dropLast]
        omega
      · exact Nat.le_succ _

lemma length_scriptNumSerialize (value : ℤ) : (scriptNumSerialize value).length ≤ maxScriptElementSize := by
  have hsign := length_signBytes (value < 0) (magnitudeBytes 8 value.natAbs)
  have hmagnitude := length_magnitudeBytes 8 value.natAbs
  unfold scriptNumSerialize maxScriptElementSize
  omega

lemma length_boolBytes (value : Bool) : (boolBytes value).length ≤ maxScriptElementSize := by
  cases value <;> decide

def SmallItem (item : ScriptItem) : Prop := (itemBytes item).length ≤ maxScriptElementSize

structure Primitives.ShortDigests (prims : Primitives) : Prop where
  ripemd160 : ∀ data, (prims.ripemd160 data).length = 20
  sha1 : ∀ data, (prims.sha1 data).length = 20
  sha256 : ∀ data, (prims.sha256 data).length = 32

lemma length_hashBytes {prims : Primitives} (h : prims.ShortDigests) (op : UInt8) (data : Bytes) :
    (hashBytes prims op data).length ≤ maxScriptElementSize := by
  unfold hashBytes maxScriptElementSize
  split
  · rw [h.ripemd160]
    omega
  · rw [h.sha1]
    omega
  · rw [h.sha256]
    omega
  · rw [h.ripemd160]
    omega
  · rw [h.sha256]
    omega

end

lemma require_ensures (condition : Bool) (code : ScriptErrCode) :
    Ensures (require condition code) fun _ => condition = true := by
  exact .ite (fun htrue => .ok htrue) fun _ => .error _

def Stack.Small (stack : Stack) : Prop := ∀ item ∈ stack.items, SmallItem item

section

variable {stack : Stack} (h : stack.Small) (depth : ℕ)

include h

variable {item : ScriptItem}

lemma pushItem_small (hitem : SmallItem item) : Ensures (pushItem stack item) Stack.Small := by
  unfold pushItem Stack.push
  split_ifs
  · exact .ok (forall_mem_cons.mpr ⟨hitem, h⟩)
  · exact .error _

lemma pushBytes_small {data : Bytes} (hdata : data.length ≤ maxScriptElementSize) :
    Ensures (pushBytes stack data) Stack.Small :=
  pushItem_small h hdata

lemma popItem_small : Ensures (popItem stack) fun r => SmallItem r.1 ∧ r.2.Small := by
  obtain ⟨items, hlength⟩ := stack
  cases items with
  | nil => exact .error _
  | cons item items => exact .ok (forall_mem_cons.mp h)

lemma pop_then {β : Type} {f : ScriptItem × Stack → ScriptResult β} {P : β → Prop}
    (hf : ∀ item rest, SmallItem item → rest.Small → Ensures (f (item, rest)) P) :
    Ensures (popItem stack >>= f) P := by
  refine .bind (popItem_small h) ?_
  rintro ⟨item, rest⟩ ⟨hitem, hrest⟩
  exact hf item rest hitem hrest

lemma peekItem_small : Ensures (peekItem stack depth) SmallItem := by
  unfold peekItem Stack.peekAt
  cases hitem : stack.items[depth]? with
  | none => exact .error _
  | some item => exact .ok (h item (mem_of_getElem? hitem))

lemma removeAt_small : Ensures (orInvalidStack (stack.removeAt depth)) fun r => SmallItem r.1 ∧ r.2.Small := by
  unfold Stack.removeAt
  cases hitem : stack.items[depth]? with
  | none => exact .error _
  | some item =>
    exact .ok ⟨h item (mem_of_getElem? hitem), fun other hother => h other (mem_of_mem_eraseIdx hother)⟩

lemma insertAt_small (hitem : SmallItem item) : Ensures (orInvalidStack (stack.insertAt depth item)) Stack.Small := by
  unfold Stack.insertAt
  split_ifs with hdepth hfull
  · exact .error _
  · refine .ok fun other hother => ?_
    rcases eq_or_mem_of_mem_insertIdx hother with rfl | hmem
    · exact hitem
    · exact h other hmem
  · exact .error _

lemma swapAt_small (depthA depthB : ℕ) : Ensures (orInvalidStack (stack.swapAt depthA depthB)) Stack.Small := by
  unfold Stack.swapAt
  split
  · rename_i a b ha hb
    refine .ok fun other hother => ?_
    rcases mem_or_eq_of_mem_set hother with hmem | rfl
    · rcases mem_or_eq_of_mem_set hmem with hmem | rfl
      · exact h other hmem
      · exact h other (mem_of_getElem? hb)
    · exact h other (mem_of_getElem? ha)
  · exact .error _

lemma roll_small : Ensures (orInvalidStack (stack.roll depth)) Stack.Small := by
  unfold Stack.roll Stack.removeAt
  cases hitem : stack.items[depth]? with
  | none => exact .error _
  | some item =>
    have hrest : ∀ other ∈ stack.items.eraseIdx depth, SmallItem other :=
      fun other hother => h other (mem_of_mem_eraseIdx hother)
    dsimp only
    unfold Stack.push
    split_ifs
    · exact .ok (forall_mem_cons.mpr ⟨h item (mem_of_getElem? hitem), hrest⟩)
    · exact .error _

lemma drain_small (count : ℕ) :
    Ensures (orInvalidStack (stack.drain count)) fun r => (∀ item ∈ r.1, SmallItem item) ∧ r.2.Small := by
  unfold Stack.drain
  split_ifs
  · exact .error _
  · refine .ok ⟨fun item hitem => ?_, fun item hitem => h item (mem_of_mem_drop hitem)⟩
    exact h item (mem_of_mem_take (mem_reverse.mp hitem))

lemma pushAll_small {items : List ScriptItem} (hitems : ∀ item ∈ items, SmallItem item) :
    Ensures (items.foldlM pushItem stack) Stack.Small :=
  .foldlM h fun _ hstack item hitem => pushItem_small hstack (hitems item hitem)

end

section

variable {stack : Stack} (h : stack.Small)

include h

lemma stackOp_small (op : UInt8) : Ensures (stackOp op stack) Stack.Small := by
  unfold stackOp
  split
  · refine pop_then h ?_
    intro _ stack _ hstack
    refine pop_then hstack ?_
    intro _ stack _ hstack
    exact .ok hstack
  · refine .bind (peekItem_small h 1) ?_
    intro second hsecond
    refine .bind (peekItem_small h 0) ?_
    intro first hfirst
    refine .bind (pushItem_small h hsecond) ?_
    intro stack hstack
    exact pushItem_small hstack hfirst
  · refine .bind (peekItem_small h 2) ?_
    intro third hthird
    refine .bind (peekItem_small h 1) ?_
    intro second hsecond
    refine .bind (peekItem_small h 0) ?_
    intro first hfirst
    refine .bind (pushItem_small h hthird) ?_
    intro stack hstack
    refine .bind (pushItem_small hstack hsecond) ?_
    intro stack hstack
    exact pushItem_small hstack hfirst
  · refine .bind (peekItem_small h 3) ?_
    intro pairFirst hpairFirst
    refine .bind (peekItem_small h 2) ?_
    intro pairSecond hpairSecond
    refine .bind (pushItem_small h hpairFirst) ?_
    intro stack hstack
    exact pushItem_small hstack hpairSecond
  · refine .bind (drain_small h 6) ?_
    rintro ⟨topSix, stack⟩ ⟨htopSix, hstack⟩
    refine pushAll_small hstack fun item hitem => ?_
    rcases mem_append.mp hitem with hitem | hitem
    · exact htopSix item (mem_of_mem_drop hitem)
    · exact htopSix item (mem_of_mem_take hitem)
  · refine .bind (swapAt_small h 3 1) ?_
    intro stack hstack
    exact swapAt_small hstack 2 0
  · refine .bind (peekItem_small h 0) ?_
    intro top htop
    exact .ite (fun _ => pushItem_small h htop) fun _ => .ok h
  · exact pushBytes_small h (length_scriptNumSerialize _)
  · refine pop_then h ?_
    intro _ stack _ hstack
    exact .ok hstack
  · refine .bind (peekItem_small h 0) ?_
    intro top htop
    exact pushItem_small h htop
  · refine pop_then h ?_
    intro top stack htop hstack
    refine .bind (removeAt_small hstack 0) ?_
    rintro ⟨_, stack⟩ ⟨-, hstack⟩
    exact pushItem_small hstack htop
  · refine .bind (peekItem_small h 1) ?_
    intro second hsecond
    exact pushItem_small h hsecond
  · refine .bind (removeAt_small h 2) ?_
    rintro ⟨third, stack⟩ ⟨hthird, hstack⟩
    exact pushItem_small hstack hthird
  · exact swapAt_small h 0 1
  · refine .bind (peekItem_small h 0) ?_
    intro top htop
    exact insertAt_small h 2 htop
  · refine .skip ?_
    intro top
    exact pushBytes_small h (length_scriptNumSerialize _)
  · exact .error _

lemma verifyTop_small (verify success : Bool) (code : ScriptErrCode) :
    Ensures (verifyTop verify success code stack) Stack.Small := by
  refine .ite (fun _ => .ite (fun _ => ?_) fun _ => .error _) fun _ => .ok h
  refine pop_then h ?_
  intro _ stack _ hstack
  exact .ok hstack

lemma pushVerify_small {data : Bytes} (hdata : data.length ≤ maxScriptElementSize) (verify success : Bool)
    (code : ScriptErrCode) :
    Ensures (pushBytes stack data >>= fun stack => verifyTop verify success code stack) Stack.Small :=
  .bind (pushBytes_small h hdata) fun _ hstack => verifyTop_small hstack verify success code

variable (requireMinimal : Bool) (op : UInt8)

lemma unaryOp_small : Ensures (unaryOp requireMinimal op stack) Stack.Small := by
  refine pop_then h ?_
  intro top stack _ hstack
  refine .skip ?_
  intro value
  refine .skip ?_
  intro result
  exact pushBytes_small hstack (length_scriptNumSerialize result)

lemma binaryOp_small : Ensures (binaryOp requireMinimal op stack) Stack.Small := by
  refine pop_then h ?_
  intro second stack _ hstack
  refine pop_then hstack ?_
  intro first stack _ hstack
  refine .skip ?_
  intro b1
  refine .skip ?_
  intro b2
  refine .skip ?_
  intro result
  exact pushVerify_small hstack (length_scriptNumSerialize result) _ _ _

lemma withinOp_small : Ensures (withinOp requireMinimal stack) Stack.Small := by
  refine pop_then h ?_
  intro third stack _ hstack
  refine pop_then hstack ?_
  intro second stack _ hstack
  refine pop_then hstack ?_
  intro first stack _ hstack
  refine .skip ?_
  intro x
  refine .skip ?_
  intro low
  refine .skip ?_
  intro high
  exact pushBytes_small hstack (length_boolBytes _)

lemma pickOrRoll_small : Ensures (pickOrRoll requireMinimal op stack) Stack.Small := by
  refine pop_then h ?_
  intro item stack _ hstack
  refine .skip ?_
  intro n
  refine .ite (fun _ => .error _) fun _ =>
    .ite (fun _ => .error _) fun _ => .ite (fun _ => ?_) fun _ => roll_small hstack _
  refine .bind (peekItem_small hstack n.toNat) ?_
  intro picked hpicked
  exact pushItem_small hstack hpicked

lemma equalOp_small : Ensures (equalOp op stack) Stack.Small := by
  refine pop_then h ?_
  intro second stack _ hstack
  refine pop_then hstack ?_
  intro first stack _ hstack
  exact pushVerify_small hstack (length_boolBytes _) _ _ _

lemma hashOp_small {prims : Primitives} (hprims : prims.ShortDigests) :
    Ensures (hashOp prims op stack) Stack.Small := by
  refine pop_then h ?_
  intro top stack _ hstack
  exact pushBytes_small hstack (length_hashBytes hprims op _)

lemma popArgs_small (flags : VerifyFlags) (success : Bool) (sigs args : ℕ) :
    Ensures (popArgs flags success sigs args stack) Stack.Small := by
  induction args generalizing stack with
  | zero => exact .ok h
  | succ args ih =>
    refine pop_then h ?_
    intro top rest _ hrest
    refine .skip ?_
    intro _
    exact ih hrest

end

section

structure EvalState.Bounded (sigversion : SigVersion) (s : EvalState) : Prop where
  stack : s.stack.Small
  altstack : s.altstack.Small
  opCount : isLimited sigversion = true → s.opCount ≤ maxOpsPerScript

open EvalState (Bounded)

variable {env : EvalEnv} {flags : VerifyFlags} {s : EvalState} (h : s.Bounded env.sigversion) (requireMinimal : Bool)

include h

lemma onStack_bounded {result : ScriptResult Stack} (hresult : Ensures result Stack.Small) :
    Ensures (onStack s result) (Bounded env.sigversion) :=
  .bind hresult fun _ hstack => .ok ⟨hstack, h.altstack, h.opCount⟩

lemma checksigOp_bounded (op : UInt8) : Ensures (checksigOp env flags op s) (Bounded env.sigversion) := by
  refine pop_then h.stack ?_
  intro pubkey stack _ hstack
  refine pop_then hstack ?_
  intro sig stack _ hstack
  refine .skip ?_
  rintro ⟨success, weight⟩
  refine .bind (pushBytes_small hstack (length_boolBytes success)) ?_
  intro stack hstack
  refine .bind (verifyTop_small hstack _ _ _) ?_
  intro stack hstack
  exact .ok ⟨hstack, h.altstack, h.opCount⟩

lemma checksigaddOp_bounded : Ensures (checksigaddOp env flags requireMinimal s) (Bounded env.sigversion) := by
  refine .skip ?_
  intro _
  refine pop_then h.stack ?_
  intro pubkey stack _ hstack
  refine pop_then hstack ?_
  intro num stack _ hstack
  refine pop_then hstack ?_
  intro sig stack _ hstack
  refine .skip ?_
  intro value
  refine .skip ?_
  rintro ⟨success, weight⟩
  refine .skip ?_
  intro result
  refine .bind (pushBytes_small hstack (length_scriptNumSerialize result)) ?_
  intro stack hstack
  exact .ok ⟨hstack, h.altstack, h.opCount⟩

omit h in
lemma multisigCounts_bounded (stack : Stack) (opCount : ℕ) :
    Ensures (multisigCounts requireMinimal stack opCount) fun r => r.2.2 ≤ maxOpsPerScript := by
  unfold multisigCounts
  refine .skip fun item => .skip fun nKeys => .skip fun _ => ?_
  refine .bind (require_ensures _ _) fun _ hcount => ?_
  refine .skip fun _ => .skip fun item => .skip fun nSigs => .skip fun _ => ?_
  exact .skip fun _ => .ok (decide_eq_true_eq.mp hcount)

lemma checkMultisig_bounded (requireMinimal verifyOnly : Bool) :
    Ensures (checkMultisig env flags requireMinimal verifyOnly s) (Bounded env.sigversion) := by
  refine .bind (multisigCounts_bounded requireMinimal s.stack s.opCount) ?_
  rintro ⟨keys, sigs, opCount⟩ hcount
  refine .skip fun code => .skip fun success => ?_
  refine .bind (popArgs_small h.stack flags success sigs _) fun stack hstack => ?_
  refine pop_then hstack ?_
  intro dummy stack _ hstack
  refine .skip fun _ => ?_
  refine .bind (pushBytes_small hstack (length_boolBytes success)) fun stack hstack => ?_
  refine .bind (verifyTop_small hstack _ _ _) fun stack hstack => ?_
  exact .ok ⟨hstack, h.altstack, fun _ => hcount⟩

lemma same_bounded (result : ScriptResult Unit) : Ensures (result >>= fun _ => pure s) (Bounded env.sigversion) :=
  .skip fun _ => .ok h

lemma checkLocktimeVerify_bounded :
    Ensures (checkLocktimeVerify env flags requireMinimal s) (Bounded env.sigversion) := by
  refine .ite (fun _ => ?_) fun _ => .ok h
  exact .skip fun item => .skip fun locktime => .skip fun _ => same_bounded h _

lemma checkSequenceVerify_bounded :
    Ensures (checkSequenceVerify env flags requireMinimal s) (Bounded env.sigversion) := by
  refine .ite (fun _ => ?_) fun _ => .ok h
  exact .skip fun item => .skip fun sequence => .skip fun _ => same_bounded h _

lemma ifOp_bounded (negated exec : Bool) : Ensures (ifOp env flags negated exec s) (Bounded env.sigversion) := by
  refine .ite (fun _ => ?_) fun _ => .ok ⟨h.stack, h.altstack, h.opCount⟩
  refine .bind ?_ fun r hstack => .ok ⟨hstack, h.altstack, h.opCount⟩
  refine pop_then h.stack ?_
  intro top stack _ hstack
  exact .skip fun _ => .skip fun _ => .ok hstack

lemma verifyOp_bounded : Ensures (verifyOp s) (Bounded env.sigversion) := by
  refine pop_then h.stack ?_
  intro top stack _ hstack
  exact .skip fun _ => .ok ⟨hstack, h.altstack, h.opCount⟩

lemma toAltstack_bounded : Ensures (toAltstack s) (Bounded env.sigversion) := by
  refine pop_then h.stack ?_
  intro top stack htop hstack
  unfold Stack.push
  split_ifs
  · exact .ok ⟨hstack, forall_mem_cons.mpr ⟨htop, h.altstack⟩, h.opCount⟩
  · exact .error _

lemma fromAltstack_bounded : Ensures (fromAltstack s) (Bounded env.sigversion) := by
  unfold fromAltstack
  have halt := popItem_small h.altstack
  unfold popItem at halt
  cases hpop : s.altstack.pop with
  | error e => exact .error _
  | ok r =>
    obtain ⟨top, altstack⟩ := r
    rw [hpop] at halt
    obtain ⟨htop, haltstack⟩ := halt (top, altstack) rfl
    refine .bind (pushBytes_small h.stack htop) fun stack hstack => ?_
    exact .ok ⟨hstack, haltstack, h.opCount⟩

lemma dispatch_bounded (hprims : env.prims.ShortDigests) (op : UInt8) (exec : Bool) (start : ℕ) :
    Ensures (dispatch env flags op exec start s) (Bounded env.sigversion) := by
  have hsmall := h.stack
  refine branch (onStack_bounded h (pushBytes_small hsmall (length_scriptNumSerialize _))) ?_
  cases decodePushnum op with
  | some value => exact onStack_bounded h (pushBytes_small hsmall (length_scriptNumSerialize _))
  | none =>
    refine branch (.ok h) ?_
    refine branch (checkLocktimeVerify_bounded h _) ?_
    refine branch (checkSequenceVerify_bounded h _) ?_
    refine branch (same_bounded h _) ?_
    refine branch (ifOp_bounded h _ exec) ?_
    refine branch (.skip fun _ => .ok ⟨hsmall, h.altstack, h.opCount⟩) ?_
    refine branch (.skip fun _ => .ok ⟨hsmall, h.altstack, h.opCount⟩) ?_
    refine branch (verifyOp_bounded h) ?_
    refine branch (.error _) ?_
    refine branch (toAltstack_bounded h) ?_
    refine branch (fromAltstack_bounded h) ?_
    refine branch (onStack_bounded h (stackOp_small hsmall op)) ?_
    refine branch (onStack_bounded h (pickOrRoll_small hsmall _ op)) ?_
    refine branch (onStack_bounded h (equalOp_small hsmall op)) ?_
    refine branch (onStack_bounded h (unaryOp_small hsmall _ op)) ?_
    refine branch (onStack_bounded h (binaryOp_small hsmall _ op)) ?_
    refine branch (onStack_bounded h (withinOp_small hsmall _)) ?_
    refine branch (onStack_bounded h (hashOp_small hsmall op hprims)) ?_
    refine branch (.ok ⟨hsmall, h.altstack, h.opCount⟩) ?_
    refine branch (checksigOp_bounded h op) ?_
    refine branch (checksigaddOp_bounded h _) ?_
    refine branch (.skip fun _ => checkMultisig_bounded h _ _) ?_
    exact .error _

omit h in
lemma checkOpcodeRules_bounded (op : UInt8) {sigversion : SigVersion} {opCount : ℕ}
    (hcount : isLimited sigversion = true → opCount ≤ maxOpsPerScript) :
    Ensures (checkOpcodeRules op sigversion flags opCount) fun next =>
      isLimited sigversion = true → next ≤ maxOpsPerScript := by
  unfold checkOpcodeRules
  refine .bind (require_ensures _ _) fun _ hrule => ?_
  refine .skip fun _ => .skip fun _ => .ok fun hlimited => ?_
  rw [hlimited, Bool.true_and] at hrule ⊢
  cases hcounted : decide (0x60 < op) with
  | false => exact hcount hlimited
  | true =>
    rw [hcounted] at hrule
    simpa using hrule

lemma evalOp_bounded (hprims : env.prims.ShortDigests) (op : UInt8) (start : ℕ) :
    Ensures (evalOp env flags op start s) (Bounded env.sigversion) := by
  refine .bind (checkOpcodeRules_bounded op h.opCount) fun opCount hcount => ?_
  have hnext : Bounded env.sigversion { s with opCount } := ⟨h.stack, h.altstack, hcount⟩
  exact .ite (fun _ => dispatch_bounded hnext hprims op _ start) fun _ => .ok hnext

lemma handlePushBytes_small (data : Bytes) (opcode : UInt8) (conditionsTrue : Bool) :
    Ensures (handlePushBytes data opcode conditionsTrue flags s.stack) Stack.Small := by
  refine .bind (require_ensures _ _) fun _ hdata => ?_
  refine .ite (fun _ => .skip fun _ => ?_) fun _ => .ok h.stack
  exact pushBytes_small h.stack (decide_eq_true_eq.mp hdata)

variable (hprims : env.prims.ShortDigests)

include hprims

variable (parsed : Parsed)

lemma evalInstruction_bounded : Ensures (evalInstruction env flags parsed s) (Bounded env.sigversion) := by
  unfold evalInstruction
  split
  · exact .error _
  · exact onStack_bounded h (handlePushBytes_small h _ _ _)
  · exact evalOp_bounded h hprims _ _

lemma evalStep_bounded :
    Ensures (evalStep env flags s parsed) fun next =>
      next.Bounded env.sigversion ∧ next.stack.len + next.altstack.len ≤ maxStackSize := by
  refine .bind (evalInstruction_bounded h hprims parsed) fun next hnext => ?_
  refine .bind (require_ensures _ _) fun _ hdepth => ?_
  exact .ok ⟨⟨hnext.stack, hnext.altstack, hnext.opCount⟩, decide_eq_true_eq.mp hdepth⟩

end

/-- After every instruction of a script that starts from small elements: at most 1000 elements on both stacks, none of
them longer than 520 bytes, and at most 201 counted operations where they are limited. -/
theorem script_resources_bounded (env : EvalEnv) (flags : VerifyFlags) (hprims : env.prims.ShortDigests) (stack : Stack)
    (hstack : ∀ item ∈ stack.items, (itemBytes item).length ≤ maxScriptElementSize) (weight : Option ℤ)
    (passed : List Parsed) (_ : passed <+: instructions env.script) (s : EvalState)
    (hrun : passed.foldlM (evalStep env flags) (initialState stack weight) = .ok s) :
    s.stack.len + s.altstack.len ≤ maxStackSize ∧
      (∀ item ∈ s.stack.items ++ s.altstack.items, (itemBytes item).length ≤ maxScriptElementSize) ∧
      (env.sigversion = .base ∨ env.sigversion = .witnessV0 → s.opCount ≤ maxOpsPerScript) := by
  have hstart : (initialState stack weight).Bounded env.sigversion :=
    ⟨hstack, fun item hitem => absurd hitem not_mem_nil, fun _ => Nat.zero_le _⟩
  have hend : s.Bounded env.sigversion ∧ s.stack.len + s.altstack.len ≤ maxStackSize := by
    refine Ensures.foldlM (R := fun s => s.Bounded env.sigversion ∧ s.stack.len + s.altstack.len ≤ maxStackSize)
      ⟨hstart, stack.length_le⟩ (fun s hs parsed _ => ?_) s hrun
    exact evalStep_bounded hs.1 hprims parsed
  obtain ⟨hbounded, hdepth⟩ := hend
  refine ⟨hdepth, fun item hitem => ?_, fun hversion => hbounded.opCount ?_⟩
  · rcases mem_append.mp hitem with hitem | hitem
    · exact hbounded.stack item hitem
    · exact hbounded.altstack item hitem
  · rcases hversion with hversion | hversion
    · rw [hversion]
      rfl
    · rw [hversion]
      rfl

def padTo (n : ℕ) (bytes : Bytes) : Bytes := (bytes ++ replicate n 0).take n

lemma length_padTo (n : ℕ) (bytes : Bytes) : (padTo n bytes).length = n := by simp [padTo]

def hashingEnv : EvalEnv where
  prims := { Primitives.rejecting with ripemd160 := padTo 20, sha1 := padTo 20, sha256 := padTo 32 }
  script := [0x51, 0x76, 0x6b, 0xa8]
  checker := ⟨⟨2, [], [], 0⟩, 0, 0, [], none⟩
  sigversion := .base
  tapleafHash := none

def hashedState : EvalState :=
  ⟨⟨[.bytes (1 :: replicate 31 0)], by decide⟩, ⟨[.bytes [1]], by decide⟩, .new, 3, none, ⟨0xffffffff, none⟩, 4⟩

theorem script_resources_bounded_hashing :
    (instructions hashingEnv.script).foldlM (evalStep hashingEnv .none) (initialState .new none) = .ok hashedState ∧
      hashedState.stack.len + hashedState.altstack.len ≤ maxStackSize ∧ hashedState.opCount ≤ maxOpsPerScript := by
  have hprims : hashingEnv.prims.ShortDigests := ⟨length_padTo 20, length_padTo 20, length_padTo 32⟩
  have hrun : (instructions hashingEnv.script).foldlM (evalStep hashingEnv .none) (initialState .new none) =
      .ok hashedState := by decide +kernel
  obtain ⟨hdepth, -, hcount⟩ := script_resources_bounded hashingEnv .none hprims .new
    (fun item hitem => absurd hitem not_mem_nil) none _ (prefix_refl _) hashedState hrun
  exact ⟨hrun, hdepth, hcount (.inl rfl)⟩

end BitcoinRs.Interpreter
