import BitcoinRs.Chain.Deployment
import Mathlib.Data.Nat.Bitwise

namespace BitcoinRs.Chain

def saturatingMulU32 (a b : UInt32) : UInt32 := UInt32.ofNat (min (a.toNat * b.toNat) (2 ^ 32 - 1))

def saturatingAddU32 (a b : UInt32) : UInt32 := UInt32.ofNat (min (a.toNat + b.toNat) (2 ^ 32 - 1))

namespace Network

def maxTarget : Network → ChainWork
  | .signet => 0x00000377ae000000000000000000000000000000000000000000000000000000
  | .regtest => 0x7fffffffffffffffffffffffffffffffffffffffffffffffffffffffffffffff
  | .mainnet | .testnet3 | .testnet4 => 0x00000000ffffffffffffffffffffffffffffffffffffffffffffffffffffffff

def retargetInterval : Network → UInt32
  | .regtest => 144
  | .mainnet | .testnet3 | .testnet4 | .signet => 2016

def targetSpacingSeconds (_ : Network) : UInt32 := 10 * 60

def targetTimespanSeconds (network : Network) : UInt32 :=
  saturatingMulU32 network.retargetInterval network.targetSpacingSeconds

def allowMinDifficultyBlocks : Network → Bool
  | .testnet3 | .testnet4 | .regtest => true
  | .mainnet | .signet => false

def powNoRetargeting : Network → Bool
  | .regtest => true
  | .mainnet | .testnet3 | .testnet4 | .signet => false

def enforceBip94 : Network → Bool
  | .testnet4 => true
  | .mainnet | .testnet3 | .signet | .regtest => false

end Network

section

/-- The first 64-bit limb, narrowed to 32 bits; the source falls back to 0 where it does not fit. -/
def limbU32 (limb : UInt64) : UInt32 := if limb.toNat < 2 ^ 32 then UInt32.ofNat limb.toNat else 0

section

variable (target : ChainWork)

def firstLimb : UInt64 := UInt64.ofNat target.toNat

def byteLen : ℕ := (Nat.log2 target.toNat + 1 + 7) / 8

def getCompact : UInt32 :=
  if target = 0 then 0
  else
    let size := byteLen target
    let compact :=
      if size ≤ 3 then limbU32 (firstLimb target <<< UInt64.ofNat (8 * (3 - size)))
      else limbU32 (firstLimb (target >>> (8 * (size - 3))))
    let negative : Bool := compact &&& 0x00800000 != 0
    let compact := if negative then compact >>> 8 else compact
    let size := if negative then size + 1 else size
    compact ||| (UInt32.ofNat size <<< 24)

def targetToCompact : UInt32 := getCompact target

end

def workOfHash (hash : Hash256) : ChainWork := BitVec.ofNat 256 (LittleEndian.decode hash.bytes)

def compactIsMetBy (bits : UInt32) (hash : Hash256) : Bool :=
  let target := compactToTarget bits
  target != 0 && decide (workOfHash hash ≤ target)

end

inductive PowError
  | targetBitsOverflow (bits : UInt32)
  | zeroTarget (hash : Hash256)
  | targetExceedsLimit (hash : Hash256) (target maxTarget : ChainWork)
  | invalidPow (hash : Hash256) (target : ChainWork)
  deriving DecidableEq

def validatePow (header : Header) (hash : Hash256) (network : Network) : Except PowError Unit :=
  if compactOverflows header.bits then .error (.targetBitsOverflow header.bits)
  else
    let target := compactToTarget header.bits
    if target = 0 then .error (.zeroTarget hash)
    else if network.maxTarget < target then .error (.targetExceedsLimit hash target network.maxTarget)
    else if ¬ compactIsMetBy header.bits hash then .error (.invalidPow hash target)
    else .ok ()

def isRetargetHeight (network : Network) (height : UInt32) : Bool :=
  network.retargetInterval != 0 && height % network.retargetInterval == 0

section

variable (network : Network) (tree : BlockTree)

def powLimitBits : UInt32 := targetToCompact network.maxTarget

/-- The loop back to the last block that was not mined at the limit; it takes each node at most once. -/
def lastSpecialBits : ℕ → NodeId → Except ChainError UInt32
  | 0, cursorId => do return (← tree.node cursorId).header.bits
  | fuel + 1, cursorId => do
    let cursor ← tree.node cursorId
    if isRetargetHeight network cursor.height || cursor.header.bits != powLimitBits network then
      return cursor.header.bits
    else
      match cursor.parent with
      | none => return cursor.header.bits
      | some previousId => lastSpecialBits fuel previousId

def minDifficultyTime (parentTime : UInt32) : UInt32 :=
  saturatingAddU32 parentTime (saturatingMulU32 network.targetSpacingSeconds 2)

variable (parentId : NodeId) (candidateTime : UInt32)

def expectedNonRetargetBits : Except ChainError UInt32 := do
  let parent ← tree.node parentId
  if ¬ network.allowMinDifficultyBlocks then return parent.header.bits
  else if minDifficultyTime network parent.header.time < candidateTime then return powLimitBits network
  else lastSpecialBits network tree (tree.nodes.length + 1) parentId

variable (a b : ChainWork)

def checkedMulWork : Option ChainWork :=
  if a.toNat * b.toNat < 2 ^ 256 then some (a * b) else none

def saturatingMulWork : ChainWork := BitVec.ofNat 256 (min (a.toNat * b.toNat) (2 ^ 256 - 1))

def saturatingAddWork : ChainWork := BitVec.ofNat 256 (min (a.toNat + b.toNat) (2 ^ 256 - 1))

def minWork : ChainWork := if a ≤ b then a else b

def scaledTargetBits (baseBits timespan expected : UInt32) : UInt32 :=
  let prevTarget := compactToTarget baseBits
  let actual : ChainWork := BitVec.ofNat 256 timespan.toNat
  let expected : ChainWork := BitVec.ofNat 256 expected.toNat
  let quotient := prevTarget / expected
  let remainder := prevTarget % expected
  match checkedMulWork quotient actual with
  | none => powLimitBits network
  | some scaledQuotient =>
    let scaledRemainder := saturatingMulWork remainder actual / expected
    targetToCompact (minWork (saturatingAddWork scaledQuotient scaledRemainder) network.maxTarget)

def clampedTimespan (expected actual : UInt32) : UInt32 :=
  let minTimespan := expected / 4
  let maxTimespan := saturatingMulU32 expected 4
  if actual < minTimespan then minTimespan else if maxTimespan < actual then maxTimespan else actual

def actualTimespan (prevTime anchorTime : UInt32) : UInt32 := if prevTime < anchorTime then 0 else prevTime - anchorTime

def expectedRetargetBits : Except ChainError UInt32 := do
  let prevNode ← tree.node parentId
  if network.powNoRetargeting then return prevNode.header.bits
  else if prevNode.height.toNat + 1 = 2 ^ 32 then .error (.heightOverflow parentId)
  else if prevNode.height + 1 < network.retargetInterval then return prevNode.header.bits
  else
    match tree.nodeAtHeightFrom parentId (prevNode.height + 1 - network.retargetInterval) with
    | none => return prevNode.header.bits
    | some anchorId =>
      let anchorNode ← tree.node anchorId
      if network.targetTimespanSeconds = 0 then return prevNode.header.bits
      else
        let baseBits := if network.enforceBip94 then anchorNode.header.bits else prevNode.header.bits
        let timespan := actualTimespan prevNode.header.time anchorNode.header.time
        return scaledTargetBits network baseBits (clampedTimespan network.targetTimespanSeconds timespan)
          network.targetTimespanSeconds

def nextWorkRequired : Except ChainError UInt32 := do
  let parent ← tree.node parentId
  if parent.height.toNat + 1 = 2 ^ 32 then .error (.heightOverflow parentId)
  else if isRetargetHeight network (parent.height + 1) then expectedRetargetBits network tree parentId
  else expectedNonRetargetBits network tree parentId candidateTime

inductive NbitsError
  | chain (error : ChainError)
  | nbitsMismatch (actual expected height : UInt32)

def validateHeaderNbits (header : Header) : Except NbitsError Unit :=
  match nextWorkRequired network tree parentId header.time with
  | .error error => .error (.chain error)
  | .ok expected =>
    if header.bits = expected then .ok ()
    else
      match tree.node parentId with
      | .error error => .error (.chain error)
      | .ok parent =>
        if parent.height.toNat + 1 = 2 ^ 32 then .error (.chain (.heightOverflow parentId))
        else .error (.nbitsMismatch header.bits expected (parent.height + 1))

end

def permittedDifficultyTransition (network : Network) (height oldBits newBits : UInt32) : Bool :=
  if network.allowMinDifficultyBlocks then true
  else if ¬ isRetargetHeight network height then oldBits == newBits
  else
    let powLimit := network.maxTarget
    let oldTarget := compactToTarget oldBits
    let observed := compactToTarget newBits
    let largest := minWork ((checkedMulWork oldTarget 4).getD powLimit) powLimit
    let smallest := minWork (oldTarget / 4) powLimit
    if compactToTarget (targetToCompact largest) < observed then false
    else decide (compactToTarget (targetToCompact smallest) ≤ observed)

open Nat
open UInt32 (toNat_and toNat_shiftRight)

section

def pack (mantissa size : ℕ) : UInt32 := UInt32.ofNat mantissa ||| (UInt32.ofNat size <<< 24)

variable {mantissa size : ℕ} (hm : mantissa < 2 ^ 23) (hs : size < 2 ^ 8)

include hm hs

lemma toNat_pack : (pack mantissa size).toNat = size * 2 ^ 24 + mantissa := by
  have hmantissa : (UInt32.ofNat mantissa).toNat = mantissa := UInt32.toNat_ofNat_of_lt' (by rw [UInt32.size]; omega)
  have hsize : (UInt32.ofNat size <<< 24).toNat = size * 2 ^ 24 := by
    rw [UInt32.toNat_shiftLeft, UInt32.toNat_ofNat_of_lt' (by rw [UInt32.size]; omega), shiftLeft_eq]
    exact Nat.mod_eq_of_lt (by simp; omega)
  rw [pack, UInt32.toNat_or, hmantissa, hsize, Nat.or_comm, Nat.mul_comm, two_pow_add_eq_or_of_lt (by omega)]

lemma size_pack : (pack mantissa size >>> 24).toNat = size := by
  rw [toNat_shiftRight, toNat_pack hm hs]
  simp
  omega

lemma word_pack : (pack mantissa size &&& 0x007fffff).toNat = mantissa := by
  rw [toNat_and, toNat_pack hm hs, show (0x007fffff : UInt32).toNat = 2 ^ 23 - 1 from rfl, and_two_pow_sub_one_eq_mod]
  omega

lemma sign_pack : pack mantissa size &&& 0x00800000 = 0 := by
  apply UInt32.toNat_inj.mp
  have hbit : (size * 2 ^ 24 + mantissa).testBit 23 = false := by
    rw [testBit_eq_decide_div_mod_eq]
    exact decide_eq_false (by omega)
  rw [toNat_and, toNat_pack hm hs, show (0x00800000 : UInt32).toNat = 2 ^ 23 from rfl, and_two_pow, hbit]
  rfl

lemma compactToTarget_pack : (compactToTarget (pack mantissa size)).toNat =
    if size ≤ 3 then mantissa / 256 ^ (3 - size) else mantissa * 256 ^ (size - 3) % 2 ^ 256 := by
  have hpow (k : ℕ) : (2 : ℕ) ^ (8 * k) = 256 ^ k := pow_mul 2 8 k
  have hsign : (decodeCompact (pack mantissa size)).negative = false := by
    simp [decodeCompact, sign_pack hm hs]
  rw [compactToTarget, hsign, if_neg Bool.false_ne_true, decodeCompact]
  simp only [size_pack hm hs]
  by_cases hsmall : size ≤ 3
  · simp only [if_pos hsmall]
    have hshift : (UInt32.ofNat (8 * (3 - size))).toNat = 8 * (3 - size) :=
      UInt32.toNat_ofNat_of_lt' (by rw [UInt32.size]; omega)
    have hless : 8 * (3 - size) % 32 = 8 * (3 - size) := mod_eq_of_lt (by omega)
    rw [toNat_shiftRight, word_pack hm hs, hshift, hless, shiftRight_eq_div_pow, hpow]
    exact mod_eq_of_lt ((div_le_self _ _).trans_lt (hm.trans (by decide)))
  · simp only [if_neg hsmall, word_pack hm hs]
    have hmod : mantissa % 2 ^ 256 = mantissa := mod_eq_of_lt (hm.trans (by decide))
    split_ifs with hfits
    · rw [BitVec.toNat_shiftLeft, BitVec.toNat_ofNat, hmod, shiftLeft_eq, hpow]
    · have hdvd : 2 ^ 256 ∣ mantissa * 256 ^ (size - 3) := by
        rw [← hpow]
        exact (pow_dvd_pow 2 (not_lt.mp hfits)).mul_left mantissa
      exact (mod_eq_zero_of_dvd hdvd).symm

end

variable (bits : UInt32)

lemma word_lt : (bits &&& 0x007fffff).toNat < 2 ^ 23 := by
  rw [toNat_and, show (0x007fffff : UInt32).toNat = 2 ^ 23 - 1 from rfl, and_two_pow_sub_one_eq_mod]
  exact mod_lt _ (by decide)

lemma size_lt : (bits >>> 24).toNat < 2 ^ 8 := by
  have hlt := bits.toNat_lt
  rw [toNat_shiftRight, shiftRight_eq_div_pow]
  exact (div_lt_iff_lt_mul (by decide)).mpr hlt

lemma compactToTarget_mantissa : ∃ m j, m < 2 ^ 23 ∧ (compactToTarget bits).toNat = m * 256 ^ j := by
  have hpow (k : ℕ) : (2 : ℕ) ^ (8 * k) = 256 ^ k := pow_mul 2 8 k
  have hword := word_lt bits
  have hzero : ∃ m j, m < 2 ^ 23 ∧ (0 : ChainWork).toNat = m * 256 ^ j := ⟨0, 0, by decide, rfl⟩
  rw [compactToTarget]
  split_ifs with hsign
  · exact hzero
  · rw [decodeCompact]
    dsimp only
    split_ifs with hsmall hfits
    · have hshifted : ((bits &&& 0x007fffff) >>> UInt32.ofNat (8 * (3 - (bits >>> 24).toNat))).toNat < 2 ^ 23 := by
        rw [toNat_shiftRight, shiftRight_eq_div_pow]
        exact (div_le_self _ _).trans_lt hword
      refine ⟨_, 0, hshifted, ?_⟩
      rw [BitVec.toNat_ofNat, mod_eq_of_lt (hshifted.trans (by decide)), pow_zero, mul_one]
    · refine ⟨(bits &&& 0x007fffff).toNat % 2 ^ (256 - 8 * ((bits >>> 24).toNat - 3)), (bits >>> 24).toNat - 3,
        (mod_le _ _).trans_lt hword, ?_⟩
      rw [BitVec.toNat_shiftLeft, BitVec.toNat_ofNat, Nat.mod_eq_of_lt (hword.trans (by decide)), Nat.shiftLeft_eq,
        ← hpow, ← mul_mod_mul_right, ← Nat.pow_add, Nat.sub_add_cancel hfits.le]
    · exact hzero

section

variable {target : ChainWork} (h : target ≠ 0)

include h

lemma byteLen_spec : 1 ≤ byteLen target ∧ byteLen target ≤ 32 ∧ 256 ^ (byteLen target - 1) ≤ target.toNat ∧
    target.toNat < 256 ^ byteLen target := by
  have hpow (k : ℕ) : 256 ^ k = (2 : ℕ) ^ (8 * k) := (pow_mul 2 8 k).symm
  have hne : target.toNat ≠ 0 := fun hzero => h (BitVec.eq_of_toNat_eq hzero)
  have hlow := log2_self_le hne
  have hhigh := lt_log2_self (n := target.toNat)
  have hlog : log2 target.toNat < 256 := (log2_lt hne).mpr target.isLt
  rw [byteLen]
  refine ⟨by omega, by omega, ?_, ?_⟩
  · rw [hpow]
    exact (Nat.pow_le_pow_right (by decide) (by omega)).trans hlow
  · rw [hpow]
    exact hhigh.trans_le (Nat.pow_le_pow_right (by decide) (by omega))

omit h in
lemma toNat_limbU32 {limb : UInt64} (hlimb : limb.toNat < 2 ^ 32) : (limbU32 limb).toNat = limb.toNat := by
  rw [limbU32, if_pos hlimb, UInt32.toNat_ofNat_of_lt' hlimb]

def leading (target : ChainWork) : UInt32 :=
  if byteLen target ≤ 3 then limbU32 (firstLimb target <<< UInt64.ofNat (8 * (3 - byteLen target)))
  else limbU32 (firstLimb (target >>> (8 * (byteLen target - 3))))

lemma toNat_leading : (leading target).toNat < 2 ^ 24 ∧ (leading target).toNat =
    if byteLen target ≤ 3 then target.toNat * 256 ^ (3 - byteLen target)
    else target.toNat / 256 ^ (byteLen target - 3) := by
  have hpow (k : ℕ) : (2 : ℕ) ^ (8 * k) = 256 ^ k := pow_mul 2 8 k
  obtain ⟨-, -, -, hhigh⟩ := byteLen_spec h
  unfold leading
  split_ifs with hsmall
  · have hle : target.toNat * 256 ^ (3 - byteLen target) < 2 ^ 24 := by
      calc target.toNat * 256 ^ (3 - byteLen target)
          < 256 ^ byteLen target * 256 ^ (3 - byteLen target) :=
            Nat.mul_lt_mul_of_pos_right hhigh (Nat.pow_pos (by decide))
        _ = 2 ^ 24 := by rw [← Nat.pow_add, Nat.add_sub_cancel' hsmall]; rfl
    have hlimb : (firstLimb target).toNat = target.toNat := by
      refine UInt64.toNat_ofNat_of_lt' (hhigh.trans_le ?_)
      exact (Nat.pow_le_pow_right (by decide) hsmall).trans (by decide)
    have hshift : (firstLimb target <<< UInt64.ofNat (8 * (3 - byteLen target))).toNat =
        target.toNat * 256 ^ (3 - byteLen target) := by
      have hamount : (UInt64.ofNat (8 * (3 - byteLen target))).toNat = 8 * (3 - byteLen target) :=
        UInt64.toNat_ofNat_of_lt' (by rw [UInt64.size]; omega)
      have hless : 8 * (3 - byteLen target) % 64 = 8 * (3 - byteLen target) := mod_eq_of_lt (by omega)
      rw [UInt64.toNat_shiftLeft, hlimb, hamount, hless, shiftLeft_eq, hpow]
      exact mod_eq_of_lt (hle.trans (by decide))
    rw [toNat_limbU32 (by omega), hshift]
    exact ⟨hle, rfl⟩
  · have hlt : target.toNat / 256 ^ (byteLen target - 3) < 2 ^ 24 := by
      rw [Nat.div_lt_iff_lt_mul (Nat.pow_pos (by decide)), show 2 ^ 24 = 256 ^ 3 from rfl, ← Nat.pow_add,
        Nat.add_sub_cancel' (by omega)]
      exact hhigh
    have hlimb : (firstLimb (target >>> (8 * (byteLen target - 3)))).toNat =
      target.toNat / 256 ^ (byteLen target - 3) := by
      rw [firstLimb, BitVec.toNat_ushiftRight, shiftRight_eq_div_pow, hpow]
      exact UInt64.toNat_ofNat_of_lt' (hlt.trans (by decide))
    rw [toNat_limbU32 (by omega), hlimb]
    exact ⟨hlt, rfl⟩

omit h in
lemma signed_iff {c : UInt32} (hc : c.toNat < 2 ^ 24) : (c &&& 0x00800000 != 0) = decide (2 ^ 23 ≤ c.toNat) := by
  have hbit : c.toNat.testBit 23 = decide (2 ^ 23 ≤ c.toNat) := by
    rw [testBit_eq_decide_div_mod_eq]
    congr 1
    exact propext (by omega)
  have hand : (c &&& 0x00800000).toNat = (decide (2 ^ 23 ≤ c.toNat)).toNat * 2 ^ 23 := by
    rw [toNat_and, show (0x00800000 : UInt32).toNat = 2 ^ 23 from rfl, and_two_pow, hbit]
  by_cases hle : 2 ^ 23 ≤ c.toNat
  · rw [decide_eq_true hle] at hand ⊢
    have hne : c &&& 0x00800000 ≠ 0 := fun hzero => absurd (hzero ▸ hand) (by decide)
    exact bne_iff_ne.mpr hne
  · rw [decide_eq_false hle] at hand ⊢
    have hzero : c &&& 0x00800000 = 0 := UInt32.toNat_inj.mp hand
    rw [hzero]
    rfl

lemma targetToCompact_eq : targetToCompact target =
    if 2 ^ 23 ≤ (leading target).toNat then pack ((leading target).toNat / 256) (byteLen target + 1)
    else pack (leading target).toNat (byteLen target) := by
  have hlt := (toNat_leading h).1
  rw [targetToCompact, getCompact, if_neg h]
  dsimp only
  rw [show (if byteLen target ≤ 3 then limbU32 (firstLimb target <<< UInt64.ofNat (8 * (3 - byteLen target)))
    else limbU32 (firstLimb (target >>> (8 * (byteLen target - 3))))) = leading target from rfl, signed_iff hlt]
  have hofNat : UInt32.ofNat ((leading target).toNat / 256) = leading target >>> 8 := by
    apply UInt32.toNat_inj.mp
    rw [UInt32.toNat_ofNat_of_lt' (by rw [UInt32.size]; omega), toNat_shiftRight, shiftRight_eq_div_pow]
    rfl
  by_cases hsigned : 2 ^ 23 ≤ (leading target).toNat
  · simp only [decide_eq_true hsigned, if_true, if_pos hsigned, pack, hofNat]
  · simp only [decide_eq_false hsigned, Bool.false_eq_true, if_false, if_neg hsigned, pack, UInt32.ofNat_toNat]

end

lemma truncates_compact (target : ChainWork) :
    Truncates 256 (2 ^ 23) target.toNat (compactToTarget (targetToCompact target)).toNat := by
  by_cases hzero : target = 0
  · subst hzero
    exact ⟨0, by decide, fun j hj => absurd hj (not_lt_zero j), by decide⟩
  obtain ⟨hone, hmax, hlow, hhigh⟩ := byteLen_spec hzero
  obtain ⟨hlt, hleading⟩ := toNat_leading hzero
  have hmod (k : ℕ) : target.toNat / 256 ^ k * 256 ^ k % 2 ^ 256 = target.toNat / 256 ^ k * 256 ^ k :=
    mod_eq_of_lt ((div_mul_le_self _ _).trans_lt target.isLt)
  have hscale {k : ℕ} (hk : target.toNat / 256 ^ k < 2 ^ 23) (hmin : ∀ j < k, 2 ^ 23 ≤ target.toNat / 256 ^ j) :
      Truncates 256 (2 ^ 23) target.toNat (target.toNat / 256 ^ k * 256 ^ k) := ⟨k, hk, hmin, rfl⟩
  have hall (hshort : target.toNat < 2 ^ 23) : Truncates 256 (2 ^ 23) target.toNat target.toNat := by
    have hself := Truncates.of_mantissa (by decide : 0 < 256) hshort 0
    rwa [pow_zero, mul_one] at hself
  have hquotient {k j : ℕ} (hj : j ≤ k) : target.toNat / 256 ^ k ≤ target.toNat / 256 ^ j :=
    div_le_div_left (Nat.pow_le_pow_right (by decide) hj) (Nat.pow_pos (by decide))
  rw [targetToCompact_eq hzero]
  split_ifs with hsigned
  · rw [compactToTarget_pack (by omega) (by omega)]
    by_cases hsmall : byteLen target ≤ 2
    · -- one or two bytes, all kept
      rw [if_pos (by omega), hleading, if_pos (by omega), Nat.div_div_eq_div_mul, ← Nat.pow_succ',
        show (3 - (byteLen target + 1)).succ = 3 - byteLen target by omega,
          Nat.mul_div_cancel _ (Nat.pow_pos (by decide))]
      exact hall (hhigh.trans_le ((Nat.pow_le_pow_right (by decide) hsmall).trans (by decide)))
    · -- the sign bit is in the way, so two bytes are kept
      have hlead : (leading target).toNat = target.toNat / 256 ^ (byteLen target - 3) := by
        rw [hleading]
        split_ifs with hthree
        · rw [show byteLen target - 3 = 0 by omega, show 3 - byteLen target = 0 by omega, Nat.pow_zero, Nat.mul_one,
            Nat.div_one]
        · rfl
      have hdiv : (leading target).toNat / 256 = target.toNat / 256 ^ (byteLen target + 1 - 3) := by
        rw [hlead, Nat.div_div_eq_div_mul, ← Nat.pow_succ, show (byteLen target - 3).succ =
          byteLen target + 1 - 3 by omega]
      rw [if_neg (by omega), hdiv, hmod]
      refine hscale (by omega) (fun j hj => ?_)
      rw [hlead] at hsigned
      exact hsigned.trans (hquotient (by omega))
  · rw [compactToTarget_pack (by omega) (by omega)]
    by_cases hsmall : byteLen target ≤ 3
    · rw [hleading, if_pos hsmall] at hsigned
      rw [if_pos hsmall, hleading, if_pos hsmall, Nat.mul_div_cancel _ (Nat.pow_pos (by decide))]
      exact hall ((Nat.le_mul_of_pos_right _ (Nat.pow_pos (by decide))).trans_lt (Nat.not_le.mp hsigned))
    · rw [hleading, if_neg hsmall] at hsigned
      rw [if_neg hsmall, hleading, if_neg hsmall, hmod]
      refine hscale (not_le.mp hsigned) (fun j hj => ?_)
      have hbytes : 256 ^ 3 ≤ target.toNat / 256 ^ j := by
        rw [Nat.le_div_iff_mul_le (Nat.pow_pos (by decide)), ← Nat.pow_add]
        exact (Nat.pow_le_pow_right (by decide) (by omega)).trans hlow
      exact (by decide : 2 ^ 23 ≤ 256 ^ 3).trans hbytes

def rounded (target : ChainWork) : ChainWork := compactToTarget (targetToCompact target)

lemma rounded_mono {a b : ChainWork} (h : a.toNat ≤ b.toNat) : (rounded a).toNat ≤ (rounded b).toNat :=
  (truncates_compact a).mono (by decide) (by decide) (truncates_compact b) h

lemma rounded_compactToTarget : rounded (compactToTarget bits) = compactToTarget bits := by
  obtain ⟨m, j, hm, heq⟩ := compactToTarget_mantissa bits
  have hself := Truncates.of_mantissa (by decide : 0 < 256) hm j
  rw [← heq] at hself
  exact BitVec.eq_of_toNat_eq ((truncates_compact _).unique (by decide) (by decide) hself)

section

variable {target target' : ChainWork}

lemma leading_ge (h : target ≠ 0) : 2 ^ 16 ≤ (leading target).toNat := by
  obtain ⟨hone, -, hlow, -⟩ := byteLen_spec h
  rw [(toNat_leading h).2, show 2 ^ 16 = 256 ^ 2 from rfl]
  split_ifs with hsmall
  · calc 256 ^ 2 = 256 ^ (byteLen target - 1) * 256 ^ (3 - byteLen target) := by
          rw [← pow_add, show byteLen target - 1 + (3 - byteLen target) = 2 by omega]
      _ ≤ target.toNat * 256 ^ (3 - byteLen target) := Nat.mul_le_mul_right _ hlow
  · rw [Nat.le_div_iff_mul_le (Nat.pow_pos (by decide)), ← Nat.pow_add,
      show 2 + (byteLen target - 3) = byteLen target - 1 by omega]
    exact hlow

lemma toNat_targetToCompact (h : target ≠ 0) : (targetToCompact target).toNat =
    if 2 ^ 23 ≤ (leading target).toNat then (byteLen target + 1) * 2 ^ 24 + (leading target).toNat / 256
    else byteLen target * 2 ^ 24 + (leading target).toNat := by
  obtain ⟨-, hmax, -, -⟩ := byteLen_spec h
  have hlt := (toNat_leading h).1
  rw [targetToCompact_eq h]
  split_ifs with hsigned
  · exact toNat_pack (by omega) (by omega)
  · exact toNat_pack (by omega) (by omega)

lemma targetToCompact_mono (hle : target.toNat ≤ target'.toNat) :
    (targetToCompact target).toNat ≤ (targetToCompact target').toNat := by
  by_cases h : target = 0
  · subst h
    exact zero_le _
  have h' : target' ≠ 0 := by
    rintro rfl
    exact h (BitVec.eq_of_toNat_eq (le_zero.mp hle))
  obtain ⟨hone, -, hlow, -⟩ := byteLen_spec h
  obtain ⟨-, -, -, hhigh⟩ := byteLen_spec h'
  obtain ⟨hlt, heq⟩ := toNat_leading h
  obtain ⟨hlt', heq'⟩ := toNat_leading h'
  have hge := leading_ge h'
  have hlen : byteLen target ≤ byteLen target' := by
    have hpow := (Nat.pow_lt_pow_iff_right (by decide : 1 < 256)).mp ((hlow.trans hle).trans_lt hhigh)
    omega
  rw [toNat_targetToCompact h, toNat_targetToCompact h']
  rcases lt_or_eq_of_le hlen with hless | hsame
  · split_ifs <;> omega
  · have hleading : (leading target).toNat ≤ (leading target').toNat := by
      rw [heq, heq', hsame]
      split_ifs
      · exact Nat.mul_le_mul_right _ hle
      · exact Nat.div_le_div_right hle
    split_ifs <;> omega

end

section

/-- The mantissa has no leading byte to spare, and loses nothing when it is shifted. -/
def CanonicalBits (bits : UInt32) : Prop :=
  bits = 0 ∨ 2 ^ 15 ≤ (bits &&& 0x007fffff).toNat ∧ 256 ^ (3 - (bits >>> 24).toNat) ∣ (bits &&& 0x007fffff).toNat

lemma pack_fields {bits : UInt32} (h : bits &&& 0x00800000 = 0) :
    pack (bits &&& 0x007fffff).toNat (bits >>> 24).toNat = bits := by
  have hsize : (bits >>> 24).toNat = bits.toNat / 2 ^ 24 := by
    rw [toNat_shiftRight, shiftRight_eq_div_pow]
    rfl
  have hword : (bits &&& 0x007fffff).toNat = bits.toNat % 2 ^ 23 := by
    rw [toNat_and, show (0x007fffff : UInt32).toNat = 2 ^ 23 - 1 from rfl, and_two_pow_sub_one_eq_mod]
  have hsign : bits.toNat.testBit 23 = false := by
    have hand := congrArg UInt32.toNat h
    rw [toNat_and, show (0x00800000 : UInt32).toNat = 2 ^ 23 from rfl, and_two_pow] at hand
    cases hbit : bits.toNat.testBit 23 with
    | false => rfl
    | true =>
      rw [hbit] at hand
      exact absurd hand (by decide)
  rw [testBit_eq_decide_div_mod_eq, decide_eq_false_iff_not] at hsign
  have hlt := bits.toNat_lt
  apply UInt32.toNat_inj.mp
  rw [toNat_pack (by omega) (by omega)]
  omega

lemma overflows_iff : compactOverflows bits = false ↔ (bits &&& 0x007fffff).toNat = 0 ∨
    (bits >>> 24).toNat ≤ 34 ∧ ((bits &&& 0x007fffff).toNat ≤ 0xff ∨ (bits >>> 24).toNat ≤ 33) ∧
      ((bits &&& 0x007fffff).toNat ≤ 0xffff ∨ (bits >>> 24).toNat ≤ 32) := by
  simp only [compactOverflows, Bool.and_eq_false_iff, Bool.or_eq_false_iff, bne_eq_false_iff_eq,
    decide_eq_false_iff_not,
    gt_iff_lt, UInt32.lt_iff_toNat_lt, ← UInt32.toNat_inj, not_lt, and_assoc]
  rfl

lemma leading_of_scale {target : ChainWork} (h : target ≠ 0) {x : ℕ}
    (hx : target.toNat * 256 ^ 3 = x * 256 ^ byteLen target) : (leading target).toNat = x := by
  rw [(toNat_leading h).2]
  split_ifs with hsmall
  · refine eq_of_mul_eq_mul_right (Nat.pow_pos (n := byteLen target) (by decide : 0 < 256)) ?_
    rw [← hx, Nat.mul_assoc, ← Nat.pow_add, Nat.sub_add_cancel hsmall]
  · have hsplit : byteLen target = byteLen target - 3 + 3 := by omega
    rw [hsplit, Nat.pow_add, ← Nat.mul_assoc] at hx
    rw [eq_of_mul_eq_mul_right (by decide) hx, Nat.mul_div_cancel _ (Nat.pow_pos (by decide))]

lemma compactToTarget_scale {bits : UInt32} (hsign : bits &&& 0x00800000 = 0) (hfits : compactOverflows bits = false)
    (hcanonical : 2 ^ 15 ≤ (bits &&& 0x007fffff).toNat)
    (hdvd : 256 ^ (3 - (bits >>> 24).toNat) ∣ (bits &&& 0x007fffff).toNat) :
    (compactToTarget bits).toNat * 256 ^ 3 = (bits &&& 0x007fffff).toNat * 256 ^ (bits >>> 24).toNat := by
  have hword := word_lt bits
  have hsize := size_lt bits
  have hlimits := (overflows_iff bits).mp hfits
  nth_rewrite 1 [← pack_fields hsign]
  rw [compactToTarget_pack hword hsize]
  generalize (bits &&& 0x007fffff).toNat = m at *
  generalize (bits >>> 24).toNat = s at *
  split_ifs with hsmall
  · rw [show 3 = 3 - s + s by omega, Nat.pow_add, ← Nat.mul_assoc, show 3 - s + s - s = 3 - s by omega,
      Nat.div_mul_cancel hdvd]
  · have hlt : m * 256 ^ (s - 3) < 2 ^ 256 := by
      have hcases : m < 256 ^ 2 ∧ s - 3 ≤ 30 ∨ m < 256 ^ 3 ∧ s - 3 ≤ 29 := by omega
      rcases hcases with ⟨hm, hs⟩ | ⟨hm, hs⟩
      · calc m * 256 ^ (s - 3) < 256 ^ 2 * 256 ^ 30 :=
              Nat.mul_lt_mul_of_lt_of_le hm (Nat.pow_le_pow_right (by decide) hs) (Nat.pow_pos (by decide))
          _ = 2 ^ 256 := by decide
      · calc m * 256 ^ (s - 3) < 256 ^ 3 * 256 ^ 29 :=
              Nat.mul_lt_mul_of_lt_of_le hm (Nat.pow_le_pow_right (by decide) hs) (Nat.pow_pos (by decide))
          _ = 2 ^ 256 := by decide
    rw [Nat.mod_eq_of_lt hlt, Nat.mul_assoc, ← Nat.pow_add, Nat.sub_add_cancel (by omega)]

lemma targetToCompact_compactToTarget {bits : UInt32} (hsign : bits &&& 0x00800000 = 0)
    (hfits : compactOverflows bits = false) (hcanonical : CanonicalBits bits) :
    targetToCompact (compactToTarget bits) = bits := by
  rcases hcanonical with rfl | ⟨hlow, hdvd⟩
  · decide
  have hscale := compactToTarget_scale hsign hfits hlow hdvd
  have hword := word_lt bits
  have hpack := pack_fields hsign
  generalize compactToTarget bits = target at *
  generalize (bits &&& 0x007fffff).toNat = m at *
  generalize (bits >>> 24).toNat = s at *
  have hne : target ≠ 0 := by
    rintro rfl
    have hpos := mul_pos (show 0 < m by omega) (pow_pos (n := s) (by decide : 0 < 256))
    rw [← hscale] at hpos
    exact absurd hpos (by decide)
  obtain ⟨hone, -, hmin, hmax⟩ := byteLen_spec hne
  have hlower := mul_le_mul_right (256 ^ 3) hmin
  have hupper := mul_lt_mul_of_pos_right hmax (show 0 < 256 ^ 3 by decide)
  rw [hscale, ← Nat.pow_add] at hlower hupper
  have hbelow {a b : ℕ} : 256 ^ a < 256 ^ b → a < b := (Nat.pow_lt_pow_iff_right (by decide)).mp
  rw [targetToCompact_eq hne]
  by_cases hlong : 2 ^ 16 ≤ m
  · have hfirst := hbelow (hlower.trans_lt (show m * 256 ^ s < 256 ^ (3 + s) by
      rw [Nat.pow_add]
      exact Nat.mul_lt_mul_of_pos_right (by omega) (Nat.pow_pos (by decide))))
    have hlast := hbelow ((show 256 ^ (2 + s) ≤ m * 256 ^ s by
      rw [Nat.pow_add]
      exact mul_le_mul_right _ (by omega)).trans_lt hupper)
    have hlen : byteLen target = s := by omega
    rw [leading_of_scale hne (by rw [hscale, hlen]), if_neg (by omega), hlen, hpack]
  · have hfirst := hbelow (hlower.trans_lt (show m * 256 ^ s < 256 ^ (2 + s) by
      rw [Nat.pow_add]
      exact Nat.mul_lt_mul_of_pos_right (by omega) (Nat.pow_pos (by decide))))
    have hlast := hbelow ((show 256 ^ (1 + s) ≤ m * 256 ^ s by
      rw [Nat.pow_add]
      exact mul_le_mul_right _ (by omega)).trans_lt hupper)
    obtain rfl : s = byteLen target + 1 := by omega
    have hleading := leading_of_scale hne (x := m * 256) (by rw [hscale]; ring)
    rw [hleading, if_pos (by omega), Nat.mul_div_cancel _ (by decide), hpack]

lemma targetToCompact_canonical (target : ChainWork) : targetToCompact target &&& 0x00800000 = 0 ∧
    compactOverflows (targetToCompact target) = false ∧ CanonicalBits (targetToCompact target) := by
  by_cases h : target = 0
  · subst h
    exact ⟨by decide, by decide, .inl rfl⟩
  obtain ⟨hone, hmax, -, -⟩ := byteLen_spec h
  obtain ⟨hlt, heq⟩ := toNat_leading h
  have hge := leading_ge h
  have hpacked {m s : ℕ} (hm : m < 2 ^ 23) (hlow : 2 ^ 15 ≤ m) (hs : s ≤ 32 ∨ m < 2 ^ 16 ∧ s = 33)
      (hdvd : 256 ^ (3 - s) ∣ m) : pack m s &&& 0x00800000 = 0 ∧ compactOverflows (pack m s) = false ∧
      CanonicalBits (pack m s) := by
    have hs' : s < 2 ^ 8 := by omega
    refine ⟨sign_pack hm hs', (overflows_iff _).mpr (.inr ?_), .inr ?_⟩
    · rw [size_pack hm hs', word_pack hm hs']
      omega
    · rw [size_pack hm hs', word_pack hm hs']
      exact ⟨hlow, hdvd⟩
  rw [targetToCompact_eq h]
  split_ifs with hsigned
  · refine hpacked (by omega) (by omega) (by omega) ?_
    by_cases hsmall : byteLen target ≤ 2
    · rw [heq, if_pos (by omega), show 3 - byteLen target = 3 - (byteLen target + 1) + 1 by omega, Nat.pow_succ,
        ← Nat.mul_assoc, Nat.mul_div_cancel _ (by decide)]
      exact Nat.dvd_mul_left _ _
    · rw [show 3 - (byteLen target + 1) = 0 by omega]
      exact one_dvd _
  · refine hpacked (by omega) (by omega) (by omega) ?_
    by_cases hsmall : byteLen target ≤ 3
    · rw [heq, if_pos hsmall]
      exact dvd_mul_left _ _
    · rw [show 3 - byteLen target = 0 by omega]
      exact one_dvd _

end

lemma blockWork_eq {header : Header} (h : compactToTarget header.bits ≠ 0)
    (hfits : compactOverflows header.bits = false) :
    (compactToTarget header.bits + 1).toNat = (compactToTarget header.bits).toNat + 1 ∧
      (blockWork header).toNat = 2 ^ 256 / ((compactToTarget header.bits).toNat + 1) := by
  obtain ⟨m, j, hm, heq⟩ := compactToTarget_mantissa header.bits
  rw [blockWork]
  simp only [h, hfits, decide_false, Bool.or_self, Bool.false_eq_true, if_false]
  generalize compactToTarget header.bits = target at *
  have hpos : target.toNat ≠ 0 := fun hzero => h (BitVec.eq_of_toNat_eq hzero)
  have hsucc : target.toNat + 1 < 2 ^ 256 := by
    cases j with
    | zero => omega
    | succ j =>
      rw [pow_succ, ← mul_assoc] at heq
      omega
  have hone : (target + 1).toNat = target.toNat + 1 := by
    exact mod_eq_of_lt hsucc
  refine ⟨hone, ?_⟩
  have hwork : 2 ^ 256 / (target.toNat + 1) = (2 ^ 256 - 1 - target.toNat) / (target.toNat + 1) + 1 := by
    rw [← add_div_right _ (succ_pos _)]
    congr 1
    omega
  have hhalf : 2 ^ 256 / (target.toNat + 1) ≤ 2 ^ 256 / 2 := div_le_div_left (by omega) (by decide)
  rw [BitVec.toNat_add, BitVec.toNat_udiv, BitVec.toNat_not, hone, hwork, show (1 : ChainWork).toNat = 1 from rfl]
  exact mod_eq_of_lt (by omega)

/-- Compact targets round down, in the order of the targets; the canonical ones are those that come back; the work
of a header is the quotient where its bits do not overflow. -/
theorem compact_targets_round_down :
    (∀ target, (compactToTarget (targetToCompact target)).toNat ≤ target.toNat ∧
      ∀ bits, (compactToTarget bits).toNat ≤ target.toNat →
        (compactToTarget bits).toNat ≤ (compactToTarget (targetToCompact target)).toNat) ∧
    (∀ a b : ChainWork, a.toNat ≤ b.toNat → targetToCompact a ≤ targetToCompact b) ∧
    (∀ bits, targetToCompact (compactToTarget bits) = bits ↔
      bits &&& 0x00800000 = 0 ∧ compactOverflows bits = false ∧ CanonicalBits bits) ∧
    ∀ header, (compactOverflows header.bits = true → blockWork header = 0) ∧
      (compactToTarget header.bits ≠ 0 → compactOverflows header.bits = false →
        (compactToTarget header.bits + 1).toNat = (compactToTarget header.bits).toNat + 1 ∧
          (blockWork header).toNat = 2 ^ 256 / ((compactToTarget header.bits).toNat + 1)) := by
  refine ⟨fun target => ⟨?_, fun bits hle => ?_⟩, fun a b hle => ?_, fun bits => ⟨fun h => ?_, ?_⟩,
    fun header => ⟨fun hover => ?_, blockWork_eq⟩⟩
  · obtain ⟨k, -, -, heq⟩ := (truncates_compact target).exists_scale
    rw [heq]
    exact div_mul_le_self _ _
  · rw [← rounded_compactToTarget bits]
    exact rounded_mono hle
  · exact UInt32.le_iff_toNat_le.mpr (targetToCompact_mono hle)
  · rw [← h]
    exact targetToCompact_canonical _
  · rintro ⟨hsign, hfits, hcanonical⟩
    exact targetToCompact_compactToTarget hsign hfits hcanonical
  · rw [blockWork, hover, Bool.or_true, if_pos rfl]

/-- Bits that overflow but leave a target have no work. -/
theorem overflowing_bits_have_no_work :
    let header : Header := ⟨1, .zero, .zero, 0, 0x22000101, 0⟩
    compactToTarget header.bits ≠ 0 ∧
      (blockWork header).toNat ≠ 2 ^ 256 / ((compactToTarget header.bits).toNat + 1) := by
  decide +kernel

end BitcoinRs.Chain
