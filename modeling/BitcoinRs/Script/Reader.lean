import BitcoinRs.Primitives
import Mathlib.Data.List.Chain

namespace BitcoinRs.Interpreter

open List
open LittleEndian (decode encode)
open UInt8 (ofNat)

structure VerifyFlags where
  bits : UInt32

namespace VerifyFlags

def bit (n : UInt32) : VerifyFlags := ⟨1 <<< n⟩

def none : VerifyFlags := ⟨0⟩
def p2sh : VerifyFlags := .bit 0
def strictenc : VerifyFlags := .bit 1
def dersig : VerifyFlags := .bit 2
def lowS : VerifyFlags := .bit 3
def nulldummy : VerifyFlags := .bit 4
def sigpushonly : VerifyFlags := .bit 5
def minimaldata : VerifyFlags := .bit 6
def discourageUpgradableNops : VerifyFlags := .bit 7
def cleanstack : VerifyFlags := .bit 8
def checklocktimeverify : VerifyFlags := .bit 9
def checksequenceverify : VerifyFlags := .bit 10
def witness : VerifyFlags := .bit 11
def discourageUpgradableWitnessProgram : VerifyFlags := .bit 12
def minimalif : VerifyFlags := .bit 13
def nullfail : VerifyFlags := .bit 14
def witnessPubkeytype : VerifyFlags := .bit 15
def constScriptcode : VerifyFlags := .bit 16
def taproot : VerifyFlags := .bit 17
def discourageUpgradableTaprootVersion : VerifyFlags := .bit 18
def discourageOpSuccess : VerifyFlags := .bit 19
def discourageUpgradablePubkeytype : VerifyFlags := .bit 20

def union (a b : VerifyFlags) : VerifyFlags := ⟨a.bits ||| b.bits⟩

def unions (flags : List VerifyFlags) : VerifyFlags := flags.foldl union none

def mandatory : VerifyFlags :=
  unions [p2sh, dersig, nulldummy, checklocktimeverify, checksequenceverify, witness, taproot]

def standard : VerifyFlags :=
  unions [mandatory, strictenc, lowS, minimaldata, discourageUpgradableNops, cleanstack,
    discourageUpgradableWitnessProgram, minimalif, nullfail, witnessPubkeytype, constScriptcode,
    discourageUpgradableTaprootVersion, discourageOpSuccess, discourageUpgradablePubkeytype]

def contains (flags other : VerifyFlags) : Bool := flags.bits &&& other.bits == other.bits

def filled (flags : VerifyFlags) : VerifyFlags :=
  let withWitness := if flags.bits &&& cleanstack.bits ≠ 0 then flags.union witness else flags
  if withWitness.bits &&& witness.bits ≠ 0 then withWitness.union p2sh else withWitness

lemma contains_trans {a b c : VerifyFlags} (hab : a.contains b = true) (hbc : b.contains c = true) :
    a.contains c = true := by
  unfold contains at hab hbc ⊢
  rw [beq_iff_eq] at hab hbc ⊢
  rw [← hbc, ← UInt32.and_assoc, hab]

end VerifyFlags

inductive ScriptErrCode
  | evalFalse
  | verify
  | equalVerify
  | checkMultisigVerify
  | checkSigVerify
  | numEqualVerify
  | scriptSize
  | pushSize
  | opCount
  | stackSize
  | sigCount
  | pubkeyCount
  | badOpcode
  | disabledOpcode
  | invalidStackOperation
  | invalidAltstackOperation
  | opReturn
  | unbalancedConditional
  | negativeLocktime
  | unsatisfiedLocktime
  | sigHashtype
  | sigDer
  | minimalData
  | sigPushonly
  | sigHighS
  | sigNullDummy
  | minimalIf
  | sigNullFail
  | discourageUpgradableNops
  | discourageUpgradableWitnessProgram
  | discourageUpgradableTaprootVersion
  | discourageOpSuccess
  | discourageUpgradablePubkeyType
  | pubkeyType
  | cleanStack
  | witnessProgramWrongLength
  | witnessProgramWitnessEmpty
  | witnessProgramMismatch
  | witnessMalleated
  | witnessMalleatedP2sh
  | witnessUnexpected
  | witnessPubkeyType
  | schnorrSigSize
  | schnorrSigHashtype
  | schnorrSig
  | taprootWrongControlSize
  | tapscriptValidationWeight
  | tapscriptCheckMultiSig
  | tapscriptMinimalIf
  | tapscriptEmptyPubkey
  | opCodeSeparator
  | sigFindAndDelete
  | scriptNum
  deriving DecidableEq

inductive ScriptError
  | inputIndexOutOfRange (index inputs : ℕ)
  | verification (reason : String)
  | taprootPrevoutsUnavailable
  | invalid (code : ScriptErrCode)
  deriving DecidableEq

abbrev ScriptResult := Except ScriptError

def reject {α : Type} (code : ScriptErrCode) : ScriptResult α := .error (.invalid code)

def require (condition : Bool) (code : ScriptErrCode) : ScriptResult Unit :=
  if condition then .ok () else reject code

inductive ScriptItem
  | num (value : ℤ)
  | bytes (data : Bytes)
  deriving DecidableEq

def maxStackSize : ℕ := 1000

structure Stack where
  items : List ScriptItem
  length_le : items.length ≤ maxStackSize
  deriving DecidableEq

inductive StackError
  | overflow
  | underflow

namespace Stack

def new : Stack := ⟨[], Nat.zero_le _⟩

variable (stack : Stack)

def len : ℕ := stack.items.length

def push (item : ScriptItem) : Except StackError Stack :=
  if h : stack.items.length < maxStackSize then .ok ⟨item :: stack.items, h⟩ else .error .overflow

def pop : Except StackError (ScriptItem × Stack) :=
  match stack with
  | ⟨[], _⟩ => .error .underflow
  | ⟨item :: items, h⟩ => .ok (item, ⟨items, Nat.le_of_succ_le h⟩)

variable (depth : ℕ)

def peekAt : Except StackError ScriptItem :=
  match stack.items[depth]? with
  | some item => .ok item
  | none => .error .underflow

def peek : Except StackError ScriptItem := stack.peekAt 0

def removeAt : Except StackError (ScriptItem × Stack) :=
  match stack.items[depth]? with
  | some item =>
    .ok (item, ⟨stack.items.eraseIdx depth, Nat.le_trans (length_eraseIdx_le stack.items depth) stack.length_le⟩)
  | none => .error .underflow

def insertAt (item : ScriptItem) : Except StackError Stack :=
  if stack.items.length < depth then .error .underflow
  else if h : stack.items.length < maxStackSize then
    .ok ⟨stack.items.insertIdx depth item, Nat.le_trans length_insertIdx_le_succ h⟩
  else .error .overflow

def swapAt (depthA depthB : ℕ) : Except StackError Stack :=
  match stack.items[depthA]?, stack.items[depthB]? with
  | some a, some b => .ok ⟨(stack.items.set depthA b).set depthB a, by simpa using stack.length_le⟩
  | _, _ => .error .underflow

def roll : Except StackError Stack :=
  match stack.removeAt depth with
  | .ok (item, stack) => stack.push item
  | .error e => .error e

def drain (count : ℕ) : Except StackError (List ScriptItem × Stack) :=
  if stack.items.length < count then .error .underflow
  else .ok ((stack.items.take count).reverse,
    ⟨stack.items.drop count, Nat.le_trans (by rw [length_drop]; omega) stack.length_le⟩)

end Stack

def invalidStack {α : Type} : ScriptResult α := reject .invalidStackOperation

def orInvalidStack {α : Type} (x : Except StackError α) : ScriptResult α :=
  match x with
  | .ok a => .ok a
  | .error _ => invalidStack

section

variable (stack : Stack)

def pushItem (item : ScriptItem) : ScriptResult Stack :=
  match stack.push item with
  | .ok stack => .ok stack
  | .error _ => reject .stackSize

def pushBytes (data : Bytes) : ScriptResult Stack := pushItem stack (.bytes data)

def popItem : ScriptResult (ScriptItem × Stack) := orInvalidStack stack.pop

def peekItem (depth : ℕ) : ScriptResult ScriptItem := orInvalidStack (stack.peekAt depth)

end

inductive Instruction
  | op (opcode : UInt8)
  | pushBytes (data : Bytes)
  deriving DecidableEq

/-- An instruction with its place in the script; an instruction cut short has none and takes the rest. -/
structure Parsed where
  instruction : Option Instruction
  start : ℕ
  stop : ℕ

def decodePushnum (opcode : UInt8) : Option UInt8 :=
  if 0x51 ≤ opcode && opcode ≤ 0x60 then some (opcode - 0x51 + 1) else none

def takeSlice (lenBytes : ℕ) (len : ℕ) (rest : Bytes) : Option (Bytes × ℕ) :=
  if rest.length < lenBytes + len then none else some ((rest.drop lenBytes).take len, lenBytes + len)

def takeLenSlice (lenBytes : ℕ) (rest : Bytes) : Option (Bytes × ℕ) :=
  if rest.length < lenBytes then none else takeSlice lenBytes (decode (rest.take lenBytes)) rest

def nextInstruction (opcode : UInt8) (rest : Bytes) : Option (Instruction × ℕ) :=
  if 0x01 ≤ opcode && opcode ≤ 0x4b then (takeSlice 0 opcode.toNat rest).map fun r => (.pushBytes r.1, r.2)
  else if opcode = 0x4c then (takeLenSlice 1 rest).map fun r => (.pushBytes r.1, r.2)
  else if opcode = 0x4d then (takeLenSlice 2 rest).map fun r => (.pushBytes r.1, r.2)
  else if opcode = 0x4e then (takeLenSlice 4 rest).map fun r => (.pushBytes r.1, r.2)
  else if opcode = 0x00 then some (.pushBytes [], 0)
  else some (.op opcode, 0)

def instructionsFrom : ℕ → ℕ → Bytes → List Parsed
  | 0, _, _ => []
  | _ + 1, _, [] => []
  | fuel + 1, start, opcode :: rest =>
    match nextInstruction opcode rest with
    | none => [⟨none, start, start + 1 + rest.length⟩]
    | some (instruction, taken) =>
      ⟨some instruction, start, start + 1 + taken⟩ ::
        instructionsFrom fuel (start + 1 + taken) (rest.drop taken)

section

variable (script : Bytes)

def instructions : List Parsed := instructionsFrom script.length 0 script

def isPushOnly : Bool :=
  (instructions script).all fun parsed =>
    match parsed.instruction with
    | some (.pushBytes _) => true
    | some (.op op) => op ≤ 0x60
    | none => false

def byteAt (i : ℕ) : UInt8 := script.getD i 0

def isP2pkh : Bool :=
  script.length = 25 && byteAt script 0 = 0x76 && byteAt script 1 = 0xa9 && byteAt script 2 = 0x14 &&
    byteAt script 23 = 0x88 && byteAt script 24 = 0xac

def isP2sh : Bool := script.length = 23 && byteAt script 0 = 0xa9 && byteAt script 1 = 0x14 && byteAt script 22 = 0x87

def isP2a : Bool := script = [0x51, 0x02, 0x4e, 0x73]

def witnessProgram : Option (UInt8 × Bytes) :=
  if script.length < 4 || 42 < script.length then none
  else
    match if byteAt script 0 = 0x00 then some 0 else decodePushnum (byteAt script 0) with
    | none => none
    | some version =>
      let programLen := (byteAt script 1).toNat
      if programLen < 2 || 40 < programLen || script.length - 2 ≠ programLen then none
      else some (version, script.drop 2)

end

def minimalPush (data : Bytes) (opcode : UInt8) : Bool :=
  match data with
  | [] => opcode = 0x00
  | first :: rest =>
    if rest = [] && ((1 ≤ first && first ≤ 16) || first = 0x81) then false
    else if data.length ≤ 75 then opcode.toNat = data.length
    else if data.length ≤ 255 then opcode = 0x4c
    else if data.length ≤ 65535 then opcode = 0x4d
    else true

def pushData (data : Bytes) : Bytes :=
  if data.length < 76 then ofNat data.length :: data
  else if data.length < 2 ^ 8 then 0x4c :: (encode 1 data.length ++ data)
  else if data.length < 2 ^ 16 then 0x4d :: (encode 2 data.length ++ data)
  else 0x4e :: (encode 4 data.length ++ data)

def magnitudeBytes : ℕ → ℕ → Bytes
  | 0, _ => []
  | fuel + 1, n => if n = 0 then [] else ofNat (n % 256) :: magnitudeBytes fuel (n / 256)

def signBytes (negative : Bool) (bytes : Bytes) : Bytes :=
  match bytes.getLast? with
  | none => bytes
  | some last =>
    if last &&& 0x80 ≠ 0 then bytes ++ [if negative then 0x80 else 0x00]
    else if negative then bytes.dropLast ++ [last ||| 0x80]
    else bytes

variable (value : ℤ)

def scriptNumSerialize : Bytes := signBytes (value < 0) (magnitudeBytes 8 value.natAbs)

def pushInt : Bytes :=
  if value = 0 then [0x00]
  else if value = -1 then [0x4f]
  else if 1 ≤ value && value ≤ 16 then [0x51 + (ofNat value.toNat - 1)]
  else pushData (scriptNumSerialize value)

def fitsI64 : Bool := -2 ^ 63 ≤ value && value < 2 ^ 63

def scriptNum (bytes : Bytes) (requireMinimal : Bool) (maxSize : ℕ) : ScriptResult ℤ :=
  if maxSize < bytes.length then reject .scriptNum
  else
    match bytes.getLast? with
    | none => .ok 0
    | some last =>
      let secondToLastSignificant := 1 < bytes.length && (bytes.getD (bytes.length - 2) 0) &&& 0x80 ≠ 0
      if requireMinimal && last &&& 0x7f = 0 && (bytes.length = 1 || !secondToLastSignificant) then reject .scriptNum
      else
        let value := decode bytes
        let magnitude := if last &&& 0x80 ≠ 0 then value - 0x80 * 256 ^ (bytes.length - 1) else value
        if 2 ^ 63 ≤ magnitude then reject .scriptNum
        else .ok (if last &&& 0x80 ≠ 0 then -(magnitude : ℤ) else magnitude)

def castToBool : Bytes → Bool
  | [] => false
  | byte :: rest => if byte ≠ 0 then !(rest = [] && byte = 0x80) else castToBool rest

def itemBytes : ScriptItem → Bytes
  | .num value => scriptNumSerialize value
  | .bytes data => data

def itemIsTrue (item : ScriptItem) : Bool := castToBool (itemBytes item)

def itemBytesOwned : ScriptItem → Bytes
  | .num value => pushInt value
  | .bytes data => data

/-- One round of `removeAll`. -/
def removeStep (haystack needle : Bytes) (acc : Bytes × ℕ) (parsed : Parsed) : Bytes × ℕ :=
  let piece := (haystack.take parsed.stop).drop parsed.start
  if piece = needle then (acc.1, acc.2 + 1) else (acc.1 ++ piece, acc.2)

def removeAll (haystack needle : Bytes) : Bytes × ℕ :=
  if needle.isEmpty then (haystack, 0) else (instructions haystack).foldl (removeStep haystack needle) ([], 0)

/-- What is read does not depend on what follows it. -/
def Stable {α : Type} (take : Bytes → Option (α × ℕ)) : Prop :=
  ∀ rest r tail, take rest = some r → r.2 ≤ rest.length ∧ take (rest ++ tail) = some r

lemma Stable.map {α β : Type} {take : Bytes → Option (α × ℕ)} (h : Stable take) (f : α → β) :
    Stable fun rest => (take rest).map fun r => (f r.1, r.2) := by
  intro rest r tail hr
  obtain ⟨r', hr', rfl⟩ := Option.map_eq_some_iff.mp hr
  obtain ⟨hle, happend⟩ := h rest r' tail hr'
  exact ⟨hle, congrArg _ happend⟩

lemma stable_takeSlice (lenBytes len : ℕ) : Stable (takeSlice lenBytes len) := by
  intro rest r tail hr
  unfold takeSlice at hr ⊢
  split_ifs at hr with hshort
  cases hr
  refine ⟨Nat.not_lt.mp hshort, ?_⟩
  rw [if_neg (by simp; omega), drop_append_of_le_length (by omega), take_append_of_le_length (by simp; omega)]

lemma stable_takeLenSlice (lenBytes : ℕ) : Stable (takeLenSlice lenBytes) := by
  intro rest r tail hr
  unfold takeLenSlice at hr ⊢
  split_ifs at hr with hshort
  rw [if_neg (by simp; omega), take_append_of_le_length (by omega)]
  exact stable_takeSlice _ _ rest r tail hr

lemma stable_nextInstruction (opcode : UInt8) : Stable (nextInstruction opcode) := by
  intro rest r tail hr
  unfold nextInstruction at hr ⊢
  split_ifs at hr ⊢
  · exact (stable_takeSlice _ _).map .pushBytes rest r tail hr
  · exact (stable_takeLenSlice 1).map .pushBytes rest r tail hr
  · exact (stable_takeLenSlice 2).map .pushBytes rest r tail hr
  · exact (stable_takeLenSlice 4).map .pushBytes rest r tail hr
  · cases hr
    exact ⟨Nat.zero_le _, rfl⟩
  · cases hr
    exact ⟨Nat.zero_le _, rfl⟩

/-- The iterator's run over the bytes from `start` on. -/
inductive Tiles : ℕ → Bytes → List Parsed → Prop
  | done (start : ℕ) : Tiles start [] []
  | fail {start : ℕ} {opcode : UInt8} {rest : Bytes} (h : nextInstruction opcode rest = none) :
      Tiles start (opcode :: rest) [⟨none, start, start + 1 + rest.length⟩]
  | next {start taken : ℕ} {opcode : UInt8} {rest : Bytes} {instruction : Instruction} {parsed : List Parsed}
      (h : nextInstruction opcode rest = some (instruction, taken))
      (htail : Tiles (start + 1 + taken) (rest.drop taken) parsed) :
      Tiles start (opcode :: rest) (⟨some instruction, start, start + 1 + taken⟩ :: parsed)

variable {rest : Bytes}

lemma tiles_instructionsFrom {fuel : ℕ} (hfuel : rest.length ≤ fuel) (start : ℕ) :
    Tiles start rest (instructionsFrom fuel start rest) := by
  induction fuel generalizing start rest with
  | zero =>
    rw [length_eq_zero_iff.mp (Nat.le_zero.mp hfuel)]
    exact .done start
  | succ fuel ih =>
    cases rest with
    | nil => exact .done start
    | cons opcode rest =>
      rw [length_cons] at hfuel
      unfold instructionsFrom
      cases h : nextInstruction opcode rest with
      | none => exact .fail h
      | some r => exact .next h (ih (by rw [length_drop]; omega) _)

variable {start : ℕ} {parsed : List Parsed}

lemma Tiles.chain (h : Tiles start rest parsed) :
    parsed.IsChain (fun p q => p.instruction.isSome ∧ p.stop = q.start) ∧ (∀ p ∈ parsed.head?, p.start = start) ∧
      parsed.getLast?.elim start Parsed.stop = start + rest.length ∧ ∀ p ∈ parsed, p.start < p.stop := by
  induction h with
  | done start => simp
  | fail h => simpa using by omega
  | @next start taken opcode rest instruction parsed h htail ih =>
    obtain ⟨hchain, hhead, hlast, hpos⟩ := ih
    have htaken := (stable_nextInstruction opcode rest _ [] h).1
    refine ⟨hchain.cons fun p hp => ⟨rfl, (hhead p hp).symm⟩, by simp, ?_, forall_mem_cons.mpr ⟨?_, hpos⟩⟩
    swap
    · change start < start + 1 + taken
      omega
    rw [length_drop] at hlast
    rw [getLast?_cons, length_cons, Option.elim_some]
    cases hend : parsed.getLast? with
    | none =>
      rw [hend, Option.elim_none] at hlast
      simp only [Option.getD_none]
      omega
    | some p =>
      rw [hend, Option.elim_some] at hlast
      simp only [Option.getD_some]
      omega

def Instruction.bytes : Instruction → Bytes
  | .op opcode => [opcode]
  | .pushBytes data => pushData data

/-- A non-push opcode, or data that `push_data` takes. -/
def Instruction.Serializable : Instruction → Prop
  | .op opcode => 0x4e < opcode
  | .pushBytes data => data.length < 2 ^ 32

lemma takeLenSlice_encode {lenBytes : ℕ} {data : Bytes} (h : data.length < 256 ^ lenBytes) :
    takeLenSlice lenBytes (encode lenBytes data.length ++ data) = some (data, lenBytes + data.length) := by
  have hlen := LittleEndian.length_encode lenBytes data.length
  rw [takeLenSlice, if_neg (by simp), take_left' hlen, LittleEndian.decode_encode _ _ h, takeSlice, if_neg (by simp),
    drop_left' hlen, take_length]

lemma nextInstruction_bytes {instruction : Instruction} (h : instruction.Serializable) :
    ∃ opcode rest, instruction.bytes = opcode :: rest ∧ nextInstruction opcode rest =
      some (instruction, rest.length) := by
  cases instruction with
  | op opcode =>
    refine ⟨opcode, [], rfl, ?_⟩
    have hlt : 0x4e < opcode.toNat := h
    have hne {byte : UInt8} (hbyte : byte.toNat ≤ 0x4e) : opcode ≠ byte := by
      rintro rfl
      omega
    have hpush : ¬opcode ≤ 0x4b := fun hle => absurd (UInt8.le_iff_toNat_le.mp hle) (by simpa using by omega)
    simp [nextInstruction, hpush, hne]
  | pushBytes data =>
    have hdata : data.length < 2 ^ 32 := h
    rw [Instruction.bytes, pushData]
    split_ifs with h76 h8 h16
    · refine ⟨_, data, rfl, ?_⟩
      have hbyte : (ofNat data.length).toNat = data.length := UInt8.toNat_ofNat_of_lt' (h76.trans (by decide))
      by_cases hempty : data = []
      · rw [hempty]
        rfl
      · have hpos : 0 < data.length := length_pos_iff.mpr hempty
        have hdirect : (0x01 ≤ ofNat data.length && ofNat data.length ≤ 0x4b) = true := by
          simp [UInt8.le_iff_toNat_le, hbyte]
          omega
        rw [nextInstruction, if_pos hdirect, takeSlice, hbyte, if_neg (by simp), drop_zero, take_length, Nat.zero_add]
        rfl
    · exact ⟨_, _, rfl, by simp [nextInstruction, takeLenSlice_encode (show data.length < 256 ^ 1 from h8)]⟩
    · exact ⟨_, _, rfl, by simp [nextInstruction, takeLenSlice_encode (show data.length < 256 ^ 2 from h16)]⟩
    · exact ⟨_, _, rfl, by simp [nextInstruction, takeLenSlice_encode (show data.length < 256 ^ 4 from hdata)]⟩

lemma Tiles.of_bytes {items : List Instruction} (hitems : ∀ item ∈ items, item.Serializable)
    (h : Tiles start (items.flatMap Instruction.bytes) parsed) : parsed.map Parsed.instruction = items.map some := by
  induction items generalizing start parsed with
  | nil =>
    cases h
    rfl
  | cons item items ih =>
    obtain ⟨opcode, rest, hbytes, hnext⟩ := nextInstruction_bytes (hitems item mem_cons_self)
    have htail := (stable_nextInstruction opcode rest _ (items.flatMap Instruction.bytes) hnext).2
    rw [flatMap_cons, hbytes, cons_append] at h
    cases h with
    | fail hfail =>
      rw [htail] at hfail
      cases hfail
    | next hread hparsed =>
      rw [htail] at hread
      cases hread
      rw [drop_left] at hparsed
      rw [map_cons, map_cons, ih (fun other hother => hitems other (mem_cons_of_mem _ hother)) hparsed]

/-- Serialized instructions are read back; on any bytes the items follow one another from the first byte to the last,
and an instruction cut short is the last item. -/
theorem instructions_read_back (items : List Instruction) (hitems : ∀ item ∈ items, item.Serializable) (script :
    Bytes) :
    (instructions (items.flatMap Instruction.bytes)).map Parsed.instruction = items.map some ∧
      (instructions script).IsChain (fun p q => p.instruction.isSome ∧ p.stop = q.start) ∧
      (∀ p ∈ (instructions script).head?, p.start = 0) ∧
      (instructions script).getLast?.elim 0 Parsed.stop = script.length ∧
      ∀ p ∈ instructions script, p.start < p.stop := by
  have h := (tiles_instructionsFrom (le_refl script.length) 0).chain
  rw [Nat.zero_add] at h
  exact ⟨(tiles_instructionsFrom le_rfl 0).of_bytes hitems, h⟩

theorem instructions_read_back_sample : (instructions [0x02, 0xaa, 0xbb, 0xac]).map Parsed.instruction =
    [some (.pushBytes [0xaa, 0xbb]), some (.op 0xac)] ∧ ∀ p ∈ instructions [0xac, 0x02, 0x01], p.start < p.stop := by
  obtain ⟨hread, -, -, -, hpos⟩ := instructions_read_back [.pushBytes [0xaa, 0xbb], .op 0xac]
    (by simp [Instruction.Serializable]) [0xac, 0x02, 0x01]
  exact ⟨hread, hpos⟩

/-- The reference: at each boundary remove the needle as often as it stands there, else copy an instruction. -/
def findAndDelete (needle : Bytes) : ℕ → Bytes → Bytes × ℕ
  | 0, script => (script, 0)
  | fuel + 1, script =>
    if needle.isPrefixOf script then
      let (out, removed) := findAndDelete needle fuel (script.drop needle.length)
      (out, removed + 1)
    else
      match script with
      | [] => ([], 0)
      | opcode :: rest =>
        match nextInstruction opcode rest with
        | none => (script, 0)
        | some (_, taken) =>
          let (out, removed) := findAndDelete needle fuel (rest.drop taken)
          (opcode :: rest.take taken ++ out, removed)

lemma removeStep_eq {haystack before rest : Bytes} {opcode : UInt8} (needle : Bytes)
    (hay : haystack = before ++ opcode :: rest) (hstart : start = before.length) (taken : ℕ)
    (instruction : Option Instruction) (acc : Bytes × ℕ) :
    removeStep haystack needle acc ⟨instruction, start, start + 1 + taken⟩ =
      if opcode :: rest.take taken = needle then (acc.1, acc.2 + 1)
      else (acc.1 ++ opcode :: rest.take taken, acc.2) := by
  have hpiece : (haystack.take (start + 1 + taken)).drop start = opcode :: rest.take taken := by
    rw [hay, hstart, Nat.add_assoc, take_length_add_append, drop_left, Nat.add_comm, take_succ_cons]
  simp only [removeStep, hpiece]

section

variable {opcode : UInt8} {data : Bytes} (hpush : nextInstruction opcode rest = some (.pushBytes data, rest.length))

include hpush

/-- At a boundary the needle stands exactly where it is the instruction that is read. -/
lemma needle_at_boundary {opcode' : UInt8} {rest' : Bytes} (h : (opcode :: rest).isPrefixOf (opcode' :: rest') = true) :
    nextInstruction opcode' rest' = some (.pushBytes data, rest.length) ∧
      opcode' :: rest'.take rest.length = opcode :: rest := by
  obtain ⟨tail, htail⟩ := isPrefixOf_iff_prefix.mp h
  cases htail
  exact ⟨(stable_nextInstruction opcode rest _ tail hpush).2, by simp⟩

lemma foldl_removeAll {start fuel : ℕ} {script haystack before : Bytes} {parsed : List Parsed}
    (h : Tiles start script parsed) (hfuel : script.length ≤ fuel) (hay : haystack = before ++ script)
    (hstart : start = before.length) (out : Bytes) (removed : ℕ) :
    parsed.foldl (removeStep haystack (opcode :: rest)) (out, removed) =
      (out ++ (findAndDelete (opcode :: rest) fuel script).1,
        removed + (findAndDelete (opcode :: rest) fuel script).2) := by
  induction h generalizing fuel before out removed with
  | done start => cases fuel <;> simp [findAndDelete]
  | @fail start opcode' rest' hfail =>
    obtain ⟨fuel, rfl⟩ := Nat.exists_eq_add_one.mpr (Nat.zero_lt_of_lt hfuel)
    have hnone : ¬(opcode :: rest).isPrefixOf (opcode' :: rest') = true := fun hstands => by
      rw [(needle_at_boundary hpush hstands).1] at hfail
      cases hfail
    have hne : opcode' :: rest' ≠ opcode :: rest := fun heq => hnone (by simp [heq])
    have hpiece := removeStep_eq (opcode :: rest) hay hstart rest'.length none (out, removed)
    rw [take_length, if_neg hne] at hpiece
    rw [foldl_cons, hpiece, findAndDelete, if_neg hnone]
    simp [hfail]
  | @next start taken opcode' rest' instruction parsed hread htail ih =>
    obtain ⟨fuel, rfl⟩ := Nat.exists_eq_add_one.mpr (Nat.zero_lt_of_lt hfuel)
    have hle : rest'.length - taken ≤ fuel := by
      rw [length_cons] at hfuel
      omega
    have htaken := (stable_nextInstruction _ _ _ [] hread).1
    have hrest := @ih fuel (before ++ opcode' :: rest'.take taken) (by simpa using hle) (by simp [hay])
      (by simp [hstart]; omega)
    rw [foldl_cons, removeStep_eq _ hay hstart, findAndDelete]
    by_cases hstands : (opcode :: rest).isPrefixOf (opcode' :: rest') = true
    · obtain ⟨hread', hsame⟩ := needle_at_boundary hpush hstands
      rw [hread] at hread'
      cases hread'
      rw [if_pos hsame, if_pos hstands, hrest]
      simp [Nat.add_assoc, Nat.add_comm]
    · have hne : opcode' :: rest'.take taken ≠ opcode :: rest := by
        intro heq
        rw [← heq] at hstands
        apply hstands
        exact isPrefixOf_iff_prefix.mpr ⟨rest'.drop taken, by simp⟩
      rw [if_neg hne, if_neg hstands, hrest]
      simp [hread]

end

/-- For a needle that is one push, `remove_all` is the reference. -/
theorem removeAll_eq_findAndDelete (script : Bytes) (opcode : UInt8) (rest data : Bytes)
    (hpush : nextInstruction opcode rest = some (.pushBytes data, rest.length)) :
    removeAll script (opcode :: rest) = findAndDelete (opcode :: rest) script.length script := by
  have h := foldl_removeAll hpush (tiles_instructionsFrom (le_refl script.length) 0) le_rfl (nil_append script).symm
    rfl [] 0
  rw [Nat.zero_add] at h
  exact h

theorem removeAll_eq_findAndDelete_sample : removeAll [0xac, 0x01, 0xaa, 0x01, 0xaa, 0x02, 0x01] [0x01, 0xaa] =
    ([0xac, 0x02, 0x01], 2) :=
  (removeAll_eq_findAndDelete _ 0x01 [0xaa] [0xaa] rfl).trans (by decide)

end BitcoinRs.Interpreter
