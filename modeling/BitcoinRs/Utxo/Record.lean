import BitcoinRs.Library.Fallible
import BitcoinRs.Utxo.Compress

namespace BitcoinRs.Utxo

open LittleEndian (decode encode)

/-- How a record operation can fail to return: an error value, or a panic of the code. -/
inductive Fault
  | error (e : UtxoError)
  | panic
  deriving DecidableEq

abbrev Run := Except Fault

variable {α : Type} (e : UtxoError)

def okOr (e : UtxoError) : Option α → Run α
  | some a => .ok a
  | none => .error (.error e)

def lift : Except UtxoError α → Run α
  | .ok a => .ok a
  | .error e => .error (.error e)

def ensure (p : Prop) [Decidable p] (e : UtxoError) : Run Unit :=
  if p then .ok () else .error (.error e)

/-- `match .. { Err(error) => panic!(..) }` around a fallible reader. -/
def orPanic : Run α → Run α
  | .ok a => .ok a
  | .error _ => .error .panic

variable (a : α)

@[simp] lemma okOr_some : okOr e (some a) = .ok a := rfl

@[simp] lemma lift_ok : lift (.ok a : Except UtxoError α) = .ok a := rfl

@[simp] lemma orPanic_ok : orPanic (.ok a : Run α) = .ok a := rfl

variable {p : Prop}

lemma ensure_of [Decidable p] (h : p) : ensure p e = .ok () := if_pos h

lemma ensure_of_not [Decidable p] (h : ¬p) :
    ensure p e = .error (.error e) := if_neg h

lemma ensure_ok [Decidable p] {e : UtxoError} (h : ensure p e = .ok ()) : p := by
  by_contra hp
  simp [ensure, hp] at h

def txidLen : ℕ := 32
def outputCountOffset : ℕ := txidLen
def inlineLenOffset : ℕ := outputCountOffset + 4
def recordHeaderLen : ℕ := inlineLenOffset + 1
def payloadPrologueMaxLen : ℕ := varintMaxLen + 8 + 5
def widthsOffset : ℕ := recordHeaderLen
def v5BodyOffset : ℕ := widthsOffset + 1
def maxDirWidth : ℕ := 4
def inlineCapacity : ℕ := 8
def amountEscape : ℕ := 2 ^ 64 - 1
def isizeMax : ℕ := 2 ^ 63 - 1

def widthFor (value : ℕ) : ℕ :=
  if value ≤ 0xff then 1 else if value ≤ 0xffff then 2 else if value ≤ 0x00ffffff then 3 else maxDirWidth

def slice (bytes : Bytes) (start stop : ℕ) : Option Bytes :=
  if start ≤ stop ∧ stop ≤ bytes.length then some ((bytes.drop start).take (stop - start)) else none

def readWidth (bytes : Bytes) (offset width : ℕ) : Option ℕ :=
  (checkedAdd offset width).bind (fun stop => (slice bytes offset stop).map decode)

structure V5Layout where
  count : ℕ
  voutWidth : ℕ
  lenWidth : ℕ
  voutDir : ℕ
  lenDir : ℕ
  payloads : ℕ

namespace V5Layout

def new (count voutWidth lenWidth : ℕ) : Run V5Layout := do
  let voutDir := v5BodyOffset
  let lenDir ← okOr .corruptRecord ((checkedMul count voutWidth).bind (checkedAdd voutDir))
  let payloads ← okOr .corruptRecord ((checkedMul count lenWidth).bind (checkedAdd lenDir))
  return { count, voutWidth, lenWidth, voutDir, lenDir, payloads }

variable (bytes : Bytes)

def read (count : ℕ) : Run V5Layout := do
  let widths ← okOr .corruptRecord bytes[widthsOffset]?
  let voutWidth := widths.toNat % 16
  let lenWidth := widths.toNat / 16
  ensure ((1 ≤ voutWidth ∧ voutWidth ≤ maxDirWidth) ∧ (1 ≤ lenWidth ∧ lenWidth ≤ maxDirWidth))
    .corruptRecord
  new count voutWidth lenWidth

variable (layout : V5Layout)

def voutAt (index : ℕ) : Run UInt32 := do
  let offset ← okOr .corruptRecord
    ((checkedMul index layout.voutWidth).bind (checkedAdd layout.voutDir))
  let raw ← okOr .corruptRecord (readWidth bytes offset layout.voutWidth)
  ensure (raw < 2 ^ 32) .corruptRecord
  return UInt32.ofNat raw

def payloadLenAt (index : ℕ) : Run ℕ := do
  let offset ← okOr .corruptRecord
    ((checkedMul index layout.lenWidth).bind (checkedAdd layout.lenDir))
  okOr .corruptRecord (readWidth bytes offset layout.lenWidth)

end V5Layout

def packWidths (voutWidth lenWidth : ℕ) : UInt8 := UInt8.ofNat (lenWidth * 16 + voutWidth)

def packHeight (height : UInt32) (coinbase : Bool) : ℕ := 2 * height.toNat + coinbase.toNat

/-- `OneUtxoOut`, `OutputParts` and `OwnedUtxoOut` differ in who owns the script only. -/
structure OutputParts where
  vout : UInt32
  value : UInt64
  script : Script
  coinbase : Bool
  height : UInt32

def amountParts (value : UInt64) : ℕ × Bool :=
  match compressAmount value.toNat with
  | .ok compressed => (compressed, false)
  | .error _ => (amountEscape, true)

def OutputParts.payloadLen (part : OutputParts) : Run ℕ := do
  let scriptLen := part.script.length
  ensure (scriptLen < 2 ^ 16) (.scriptTooLarge scriptLen)
  let (amount, escaped) := amountParts part.value
  let prologue := varintLen amount + (if escaped then 8 else 0) +
    varintLen (packHeight part.height part.coinbase)
  okOr (.recordTooLarge scriptLen) (checkedAdd prologue scriptLen)

structure UtxoRecord where
  buf : Bytes
  deriving DecidableEq

structure RecordHeader where
  txid : Hash256
  outputCount : ℕ
  inlineLen : ℕ

inductive RemovedRecord
  | unchanged
  | emptied
  | replaced (record : UtxoRecord)
  deriving DecidableEq

section

variable (bytes : Bytes)

def readU32 (offset : ℕ) : Option ℕ := (checkedAdd offset 4).bind (fun stop => (slice bytes offset stop).map decode)

def hash256OfBytes : Option Hash256 :=
  if h : bytes.length = 32 then some ⟨bytes, h⟩ else none

def decodeHeader : Run RecordHeader := do
  let txid ← okOr .corruptRecord ((slice bytes 0 txidLen).bind hash256OfBytes)
  let outputCount ← okOr .corruptRecord (readU32 bytes outputCountOffset)
  let inlineLen := (← okOr .corruptRecord bytes[inlineLenOffset]?).toNat
  ensure (inlineLen ≤ inlineCapacity ∧ inlineLen ≤ outputCount) .corruptRecord
  return { txid, outputCount, inlineLen }

variable (layout : V5Layout)

def payloadOffsetLoop : List ℕ → ℕ → Run ℕ
  | [], offset => .ok offset
  | earlier :: rest, offset => do
    let len ← layout.payloadLenAt bytes earlier
    let offset ← okOr .corruptRecord (checkedAdd offset len)
    payloadOffsetLoop rest offset

def payloadOffset (index : ℕ) : Run ℕ := payloadOffsetLoop bytes layout (List.range index) layout.payloads

end

def decodeAmount (body : Bytes) : Run (ℕ × ℕ) := do
  let (amount, cursor) ← lift (readVarint body 0)
  if amount = amountEscape then
    let stop ← okOr .corruptRecord (checkedAdd cursor 8)
    let raw ← okOr .corruptRecord (slice body cursor stop)
    let value := decode raw
    ensure (maxCompressibleAmount < value) .corruptRecord
    return (value, stop)
  else
    return (← okOr .corruptRecord (decompressAmount amount), cursor)

def decodeOutputAt (bytes : Bytes) (layout : V5Layout) (index payload : ℕ) :
    Run (OutputParts × ℕ) := do
  let vout ← layout.voutAt bytes index
  let len ← layout.payloadLenAt bytes index
  let next ← okOr .corruptRecord (checkedAdd payload len)
  let body ← okOr .corruptRecord (slice bytes payload next)
  let (value, cursor) ← decodeAmount body
  let (packed, cursor) ← lift (readVarint body cursor)
  ensure (packed / 2 < 2 ^ 32) .corruptRecord
  let script ← okOr .corruptRecord (slice body cursor body.length)
  ensure (script.length < 2 ^ 16) .corruptRecord
  return ({ vout, value := UInt64.ofNat value, script, coinbase := packed % 2 == 1,
            height := UInt32.ofNat (packed / 2) }, next)

def pushDirEntry (buf : Bytes) (value width : ℕ) : Run Bytes :=
  if width ≤ 8 then .ok (buf ++ (encode 8 value).take width)
  else .error (.error .corruptRecord)

def pushDirEntries (width : ℕ) : List ℕ → Bytes → Run Bytes
  | [], buf => .ok buf
  | value :: rest, buf => do pushDirEntries width rest (← pushDirEntry buf value width)

def writeRawAmount (escaped : Bool) (value : UInt64) (prologue : Bytes) (cursor : ℕ) : Run (Bytes × ℕ) :=
  if escaped then do
    let stop ← okOr .corruptRecord (checkedAdd cursor 8)
    let _ ← okOr .corruptRecord (slice prologue cursor stop)
    return (prologue.take cursor ++ encode 8 value.toNat ++ prologue.drop stop, stop)
  else .ok (prologue, cursor)

/-- `varint(amount) [|| raw amount] || varint(height << 1 | coinbase) || script`. -/
def writePayload (buf : Bytes) (part : OutputParts) : Run Bytes := do
  let scriptLen := part.script.length
  ensure (scriptLen < 2 ^ 16) (.scriptTooLarge scriptLen)
  let (amount, escaped) := amountParts part.value
  let prologue := List.replicate payloadPrologueMaxLen (0 : UInt8)
  let (prologue, at₁) ← okOr .corruptRecord (writeVarintAt varintMaxLen amount prologue 0)
  let (prologue, at₂) ← writeRawAmount escaped part.value prologue at₁
  let (prologue, at₃) ← okOr .corruptRecord
    (writeVarintAt varintMaxLen (packHeight part.height part.coinbase) prologue at₂)
  let prologue ← okOr .corruptRecord (slice prologue 0 at₃)
  return buf ++ prologue ++ part.script

def writePayloads : List OutputParts → Bytes → Run Bytes
  | [], buf => .ok buf
  | part :: rest, buf => do writePayloads rest (← writePayload buf part)

def measureOutputs : List OutputParts → List ℕ → ℕ → ℕ → ℕ → Run (List ℕ × ℕ × ℕ × ℕ)
  | [], lens, total, maxVout, maxLen => .ok (lens, total, maxVout, maxLen)
  | output :: rest, lens, total, maxVout, maxLen => do
    let len ← output.payloadLen
    let newTotal ← okOr (.recordTooLarge total) (checkedAdd total len)
    ensure (len < 2 ^ 32) (.recordTooLarge len)
    measureOutputs rest (lens ++ [len]) newTotal (max maxVout output.vout.toNat) (max maxLen len)

def encodeRecord (txid : Hash256) (inlineLen : ℕ) (outputs : List OutputParts) : Run Bytes := do
  ensure (outputs.length < 2 ^ 32) (.recordTooLarge outputs.length)
  ensure (inlineLen ≤ inlineCapacity ∧ inlineLen ≤ outputs.length) .corruptRecord
  let (payloadLens, payloadTotal, maxVout, maxLen) ← measureOutputs outputs [] 0 0 0
  let voutWidth := widthFor maxVout
  let lenWidth := widthFor maxLen
  let layout ← V5Layout.new outputs.length voutWidth lenWidth
  let payloadLen ← okOr (.recordTooLarge payloadTotal) (checkedAdd layout.payloads payloadTotal)
  ensure (payloadLen ≤ isizeMax) (.recordTooLarge payloadLen)
  let buf := txid.bytes ++ encode 4 outputs.length ++ [UInt8.ofNat inlineLen] ++
    [packWidths voutWidth lenWidth]
  let buf ← pushDirEntries voutWidth (outputs.map (fun output => output.vout.toNat)) buf
  let buf ← pushDirEntries lenWidth payloadLens buf
  let buf ← writePayloads outputs buf
  ensure (buf.length = payloadLen) .corruptRecord
  return buf

section

variable (parts : List OutputParts)

def pushPart (inlineLen : ℕ) (part : OutputParts) : List OutputParts × ℕ :=
  if inlineLen < inlineCapacity then (parts.insertIdx inlineLen part, inlineLen + 1)
  else (parts ++ [part], inlineLen)

def swapAt (i j : ℕ) : List OutputParts :=
  match parts[i]?, parts[j]? with
  | some a, some b => (parts.set i b).set j a
  | _, _ => parts

def removePartAt (inlineLen index : ℕ) : List OutputParts × ℕ :=
  if index < inlineLen then
    let lastInline := inlineLen - 1
    ((swapAt parts index lastInline).eraseIdx lastInline, inlineLen - 1)
  else ((swapAt parts index (parts.length - 1)).dropLast, inlineLen)

def positionOf (vout : UInt32) : Option ℕ := parts.findIdx? (fun part => part.vout == vout)

end

def voutsAreStrictlyIncreasing : Option UInt32 → List UInt32 → Bool
  | _, [] => true
  | none, vout :: rest => voutsAreStrictlyIncreasing (some vout) rest
  | some previous, vout :: rest =>
    if vout ≤ previous then false else voutsAreStrictlyIncreasing (some vout) rest

def appendParts : List OutputParts → ℕ → List OutputParts → List OutputParts × ℕ
  | parts, inlineLen, [] => (parts, inlineLen)
  | parts, inlineLen, addition :: rest =>
    let (parts, inlineLen) := pushPart parts inlineLen addition
    appendParts parts inlineLen rest

def overwriteParts : List OutputParts → ℕ → List OutputParts →
    List OutputParts × ℕ × List (Option OutputParts)
  | parts, inlineLen, [] => (parts, inlineLen, [])
  | parts, inlineLen, addition :: rest =>
    let previous := positionOf parts addition.vout
    let (cleared, clearedLen) := match previous with
      | some index => removePartAt parts inlineLen index
      | none => (parts, inlineLen)
    let (pushed, pushedLen) := pushPart cleared clearedLen addition
    let (result, resultLen, displaced) := overwriteParts pushed pushedLen rest
    (result, resultLen, previous.bind (fun index => parts[index]?) :: displaced)

def removeParts : List OutputParts → ℕ → List UInt32 →
    List OutputParts × ℕ × List (Option OutputParts)
  | parts, inlineLen, [] => (parts, inlineLen, [])
  | parts, inlineLen, vout :: rest =>
    match positionOf parts vout with
    | some index =>
      let (removed, removedLen) := removePartAt parts inlineLen index
      let (result, resultLen, found) := removeParts removed removedLen rest
      (result, resultLen, parts[index]? :: found)
    | none =>
      let (result, resultLen, found) := removeParts parts inlineLen rest
      (result, resultLen, none :: found)

def editParts (parts : List OutputParts) (inlineLen : ℕ) (vouts : List UInt32)
    (additions : List OutputParts) : List OutputParts × ℕ :=
  let appends := voutsAreStrictlyIncreasing (parts.map (fun part => part.vout)).max?
    (additions.map (fun part => part.vout))
  let (left, leftLen, _) := removeParts parts inlineLen vouts
  if appends then appendParts left leftLen additions
  else
    let (edited, editedLen, _) := overwriteParts left leftLen additions
    (edited, editedLen)

def outputsLoop (bytes : Bytes) (layout : V5Layout) : ℕ → ℕ → ℕ → Run (List OutputParts)
  | 0, _, _ => .ok []
  | remaining + 1, index, payload => do
    let (output, next) ← orPanic (decodeOutputAt bytes layout index payload)
    return output :: (← outputsLoop bytes layout remaining (index + 1) next)

namespace UtxoRecord

variable (record : UtxoRecord)

def key : Bytes := record.buf.take 8

def txid : Bytes := record.buf.take txidLen

def header : Run RecordHeader := orPanic (decodeHeader record.buf)

def layout : Run V5Layout := do
  V5Layout.read record.buf (← record.header).outputCount

def outputCount : Run ℕ := do return (← record.header).outputCount

def outputs : Run (List OutputParts) := do
  let layout ← orPanic record.layout
  outputsLoop record.buf layout layout.count 0 layout.payloads

def findOutput (vout : UInt32) : Run (Option OutputParts) := do
  let header ← record.header
  match V5Layout.read record.buf header.outputCount with
  | .error _ => return none
  | .ok layout =>
    match (List.range layout.count).find? (fun index =>
      (layout.voutAt record.buf index).toOption == some vout) with
    | none => return none
    | some index =>
      match payloadOffset record.buf layout index with
      | .error _ => return none
      | .ok payload => return some (← orPanic (decodeOutputAt record.buf layout index payload)).1

def maxVout : Run (Option UInt32) := do
  let header ← record.header
  match V5Layout.read record.buf header.outputCount with
  | .error _ => return none
  | .ok layout =>
    return ((List.range layout.count).filterMap (fun index =>
      (layout.voutAt record.buf index).toOption)).max?

def fromOutputParts (txid : Hash256) (inlineLen : ℕ) (outputs : List OutputParts) : Run UtxoRecord := do
  return ⟨← encodeRecord txid inlineLen outputs⟩

/-- Lengths of additions that fit the old directory widths; `none` sends the caller to a rebuild. -/
def additionLens (old : V5Layout) : List OutputParts → ℕ → Run (Option ℕ)
  | [], total => .ok (some total)
  | addition :: rest, total => do
    let payloadLen ← addition.payloadLen
    if old.voutWidth < widthFor addition.vout.toNat ∨ old.lenWidth < widthFor payloadLen then
      return none
    let total ← okOr (.recordTooLarge total) (checkedAdd total payloadLen)
    additionLens old rest total

def pushAdditionLens (width : ℕ) : List OutputParts → Bytes → Run Bytes
  | [], buf => .ok buf
  | addition :: rest, buf => do
    let len ← addition.payloadLen
    pushAdditionLens width rest (← pushDirEntry buf len width)

def appendUniqueRun (additions : List OutputParts) : Run (Option UtxoRecord) := do
  let header ← record.header
  if ¬(header.outputCount = header.inlineLen ∨ header.inlineLen = inlineCapacity) then return none
  let old ← record.layout
  let bytes := record.buf
  let newCount ← okOr (.recordTooLarge header.outputCount)
    (checkedAdd header.outputCount additions.length)
  ensure (newCount < 2 ^ 32) (.recordTooLarge newCount)
  let inlineLen := min (header.inlineLen + additions.length) inlineCapacity
  match ← additionLens old additions 0 with
  | none => return none
  | some additionsLen =>
    let dirGrowth ← okOr (.recordTooLarge additions.length)
      (checkedMul additions.length (old.voutWidth + old.lenWidth))
    let payloadLen ← okOr (.recordTooLarge additionsLen)
      ((checkedAdd bytes.length additionsLen).bind (fun len => checkedAdd len dirGrowth))
    ensure (payloadLen ≤ isizeMax) (.recordTooLarge payloadLen)
    let buf := header.txid.bytes ++ encode 4 newCount ++ [UInt8.ofNat inlineLen] ++
      [packWidths old.voutWidth old.lenWidth]
    let buf := buf ++ (← okOr .corruptRecord (slice bytes old.voutDir old.lenDir))
    let buf ← pushDirEntries old.voutWidth (additions.map (fun addition => addition.vout.toNat)) buf
    let buf := buf ++ (← okOr .corruptRecord (slice bytes old.lenDir old.payloads))
    let buf ← pushAdditionLens old.lenWidth additions buf
    let buf := buf ++ (← okOr .corruptRecord (slice bytes old.payloads bytes.length))
    let buf ← writePayloads additions buf
    ensure (buf.length = payloadLen) .corruptRecord
    return some ⟨buf⟩

def startParts : Option UtxoRecord → Run (List OutputParts × ℕ)
  | some record => do return (← record.outputs, (← record.header).inlineLen)
  | none => .ok ([], 0)

section

variable (existing : Option UtxoRecord) (txid : Hash256) (additions : List OutputParts)

def appendRun :
    Run (UtxoRecord × List (Option OutputParts)) := do
  let appended ← match existing with
    | some record => record.appendUniqueRun additions
    | none => do
      pure (some (← fromOutputParts txid (min additions.length inlineCapacity) additions))
  match appended with
  | some record => return (record, additions.map (fun _ => none))
  | none =>
    let (parts, inlineLen) ← startParts existing
    let (parts, inlineLen) := appendParts parts inlineLen additions
    return (← fromOutputParts txid inlineLen parts, additions.map (fun _ => none))

def overwriteRun :
    Run (UtxoRecord × List (Option OutputParts)) := do
  let (parts, inlineLen) ← startParts existing
  let (parts, inlineLen, displaced) := overwriteParts parts inlineLen additions
  return (← fromOutputParts txid inlineLen parts, displaced)

end

def previousVout : Option UtxoRecord → Run (Option UInt32)
  | some record => record.maxVout
  | none => .ok none

/-- The second component is what an `overwritten` sink receives. -/
def addRunReplacement (existing : Option UtxoRecord) (txid : Hash256) (additions : List OutputParts) :
    Run (UtxoRecord × List (Option OutputParts)) := do
  let previous ← previousVout existing
  if voutsAreStrictlyIncreasing previous (additions.map (fun part => part.vout)) then
    appendRun existing txid additions
  else overwriteRun existing txid additions

def fullRemovalLoop (record : UtxoRecord) : List UInt32 → List UInt32 → List OutputParts →
    Run (Option (List OutputParts))
  | _, [], outputs => .ok (some outputs)
  | earlier, vout :: rest, outputs => do
    if earlier.contains vout then return none
    match ← record.findOutput vout with
    | none => return none
    | some output => fullRemovalLoop record (earlier ++ [vout]) rest (outputs ++ [output])

def fullRemovalOutputs (vouts : List UInt32) :
    Run (Option (List OutputParts)) := do
  if (← record.outputCount) ≠ vouts.length then return none
  fullRemovalLoop record [] vouts []

def isFullRemoval (vouts : List UInt32) : Run Bool := do
  return (← record.fullRemovalOutputs vouts).isSome

def ownTxid : Run Hash256 := do return (← record.header).txid

variable (vouts : List UInt32)

/-- The second component is what a `removed` sink receives. -/
def removeRunReplacement :
    Run (RemovedRecord × List (Option OutputParts)) := do
  match ← record.fullRemovalOutputs vouts with
  | some outputs => return (.emptied, outputs.map some)
  | none =>
    let parts ← record.outputs
    let (left, inlineLen, found) := removeParts parts (← record.header).inlineLen vouts
    if found.all Option.isNone then return (.unchanged, found)
    if left.isEmpty then return (.emptied, found)
    return (.replaced (← fromOutputParts (← record.ownTxid) inlineLen left), found)

def editReplacement (additions : List OutputParts) :
    Run RemovedRecord := do
  if ← record.isFullRemoval vouts then
    if additions.isEmpty then return .emptied
    return .replaced (← addRunReplacement none (← record.ownTxid) additions).1
  let (edited, editedLen) := editParts (← record.outputs) (← record.header).inlineLen vouts additions
  if edited.isEmpty then return .emptied
  return .replaced (← fromOutputParts (← record.ownTxid) editedLen edited)

end UtxoRecord

structure Scan where
  seen : Option (List UInt32)
  maxVout : ℕ
  maxLen : ℕ
  cursor : ℕ

def Scan.start (layout : V5Layout) : Scan :=
  { seen := if 16 < layout.count then some [] else none, maxVout := 0, maxLen := 0, cursor := layout.payloads }

variable (layout : V5Layout)

@[simp] lemma Scan.start_cursor : (Scan.start layout).cursor = layout.payloads := rfl

section

variable (bytes : Bytes)

section

variable (layout : V5Layout)

def rejectPrior (vout : UInt32) : List ℕ → Run Unit
  | [] => .ok ()
  | prior :: rest => do
    ensure ((← layout.voutAt bytes prior) ≠ vout) .corruptRecord
    rejectPrior vout rest

def rejectRepeated (seen : Option (List UInt32)) (index : ℕ) (vout : UInt32) : Run (Option (List UInt32)) :=
  match seen with
  | some set => do
    ensure (vout ∉ set) .corruptRecord
    return some (vout :: set)
  | none => do
    rejectPrior bytes layout vout (List.range index)
    return none

def validateOutput (scan : Scan) (index : ℕ) : Run Scan := do
  let vout ← layout.voutAt bytes index
  let seen ← rejectRepeated bytes layout scan.seen index vout
  let len ← layout.payloadLenAt bytes index
  let (_, next) ← decodeOutputAt bytes layout index scan.cursor
  return { seen, maxVout := max scan.maxVout vout.toNat, maxLen := max scan.maxLen len, cursor := next }

def validateLoop : ℕ → ℕ → Scan → Run Scan
  | 0, _, scan => .ok scan
  | remaining + 1, index, scan => do
    validateLoop remaining (index + 1) (← validateOutput bytes layout scan index)

end

def validateEncoded : Run RecordHeader := do
  let header ← decodeHeader bytes
  let layout ← V5Layout.read bytes header.outputCount
  let scan ← validateLoop bytes layout layout.count 0 (Scan.start layout)
  ensure (widthFor scan.maxVout = layout.voutWidth ∧ widthFor scan.maxLen = layout.lenWidth) .corruptRecord
  ensure (scan.cursor = bytes.length) .corruptRecord
  return header

end

namespace UtxoRecord

def fromEncoded (buf : Bytes) : Run UtxoRecord := do
  let _ ← validateEncoded buf
  return ⟨buf⟩

def fromOwnedOutputs (txid : Hash256) (outputs : List OutputParts) : Run UtxoRecord := do
  fromEncoded (← encodeRecord txid (min outputs.length inlineCapacity) outputs)

end UtxoRecord

end BitcoinRs.Utxo
