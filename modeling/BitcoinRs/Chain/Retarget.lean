import BitcoinRs.Chain.HeaderSync

namespace BitcoinRs.Chain

open Fallible BitVec Nat

section

lemma toNat_minWork (a b : ChainWork) : (minWork a b).toNat = min a.toNat b.toNat := by
  rw [minWork]
  split_ifs with hle
  · exact (Nat.min_eq_left hle).symm
  · exact (Nat.min_eq_right (Nat.le_of_not_le hle)).symm

end

section

lemma div_add_mod_scaled (old a e : ℕ) (he : 0 < e) : old / e * a + old % e * a / e = old * a / e := by
  have hsplit : old * a = e * (old / e * a) + old % e * a := by
    nth_rewrite 1 [← div_add_mod old e]
    ring
  rw [hsplit, mul_add_div he]

variable {network : Network} {bits timespan expected : UInt32}

variable (network) in
lemma scaledTargetBits_eq (he : 0 < expected.toNat)
    (hfits : (compactToTarget bits).toNat * timespan.toNat / expected.toNat < 2 ^ 256) :
    ∃ target : ChainWork, scaledTargetBits network bits timespan expected =
        targetToCompact (minWork target network.maxTarget) ∧
      target.toNat = (compactToTarget bits).toNat * timespan.toNat / expected.toNat := by
  have htimespan : (BitVec.ofNat 256 timespan.toNat).toNat = timespan.toNat := by
    rw [toNat_ofNat]
    exact mod_eq_of_lt (timespan.toNat_lt.trans (by decide))
  have hexpected : (BitVec.ofNat 256 expected.toNat).toNat = expected.toNat := by
    rw [toNat_ofNat]
    exact mod_eq_of_lt (expected.toNat_lt.trans (by decide))
  generalize hnew : compactToTarget bits = old at hfits ⊢
  generalize hn : old.toNat = n at hfits ⊢
  generalize hActual : (BitVec.ofNat 256 timespan.toNat : ChainWork) = actual at htimespan
  generalize hExpected : (BitVec.ofNat 256 expected.toNat : ChainWork) = divisor at hexpected
  have hscaled := div_add_mod_scaled n timespan.toNat expected.toNat he
  have hpart : n / expected.toNat * timespan.toNat < 2 ^ 256 := ((le_add_right _ _).trans hscaled.le).trans_lt hfits
  have hquotient : checkedMulWork (old / divisor) actual = some ((old / divisor) * actual) := by
    refine if_pos ?_
    rwa [toNat_udiv, hexpected, htimespan, hn]
  have hproduct : ((old / divisor) * actual).toNat = n / expected.toNat * timespan.toNat := by
    rw [toNat_mul, toNat_udiv, hexpected, htimespan, hn]
    exact mod_eq_of_lt hpart
  have hremainder : (saturatingMulWork (old % divisor) actual / divisor).toNat =
      n % expected.toNat * timespan.toNat / expected.toNat := by
    have hsmall : n % expected.toNat * timespan.toNat < 2 ^ 32 * 2 ^ 32 :=
      mul_lt_mul'' ((mod_lt n he).trans expected.toNat_lt) timespan.toNat_lt
    rw [toNat_udiv, saturatingMulWork, toNat_umod, hexpected, htimespan, hn, toNat_ofNat,
      min_eq_left (by omega), mod_eq_of_lt (by omega)]
  refine ⟨saturatingAddWork ((old / divisor) * actual) (saturatingMulWork (old % divisor) actual / divisor), ?_, ?_⟩
  · rw [scaledTargetBits]
    dsimp only
    rw [hnew, hActual, hExpected, hquotient]
  · rw [saturatingAddWork, hproduct, hremainder, hscaled, toNat_ofNat, min_eq_left (by omega)]
    exact mod_eq_of_lt hfits

lemma scaled_le (n : ℕ) (hmax : timespan.toNat ≤ 4 * expected.toNat) : n * timespan.toNat / expected.toNat ≤ 4 * n := by
  apply Nat.div_le_of_le_mul
  calc n * timespan.toNat ≤ n * (4 * expected.toNat) := Nat.mul_le_mul_left n hmax
    _ = expected.toNat * (4 * n) := by ring

lemma scaledTargetBits_bounds (hold : 4 * (compactToTarget bits).toNat < 2 ^ 256) (he : 0 < expected.toNat)
    (hdvd : 4 ∣ expected.toNat) (hmin : expected.toNat / 4 ≤ timespan.toNat)
    (hmax : timespan.toNat ≤ 4 * expected.toNat) :
    ∃ target : ChainWork, scaledTargetBits network bits timespan expected =
        targetToCompact (minWork target network.maxTarget) ∧
      (compactToTarget bits).toNat / 4 ≤ target.toNat ∧ target.toNat ≤ 4 * (compactToTarget bits).toNat := by
  have hle := scaled_le (compactToTarget bits).toNat hmax
  obtain ⟨target, hbits, heq⟩ := scaledTargetBits_eq network he (hle.trans_lt hold)
  refine ⟨target, hbits, ?_, heq ▸ hle⟩
  rw [heq, le_div_iff_mul_le he]
  obtain ⟨c, hc⟩ := hdvd
  rw [hc, Nat.mul_div_cancel_left _ (by decide)] at hmin
  calc (compactToTarget bits).toNat / 4 * expected.toNat = (compactToTarget bits).toNat / 4 * 4 * c := by
        rw [hc, Nat.mul_assoc]
    _ ≤ (compactToTarget bits).toNat * timespan.toNat := Nat.mul_le_mul (div_mul_le_self _ 4) hmin

lemma clampedTimespan_eq (h : 4 * expected.toNat < 2 ^ 32) (actual : UInt32) :
    (clampedTimespan expected actual).toNat = max (expected.toNat / 4) (min (4 * expected.toNat) actual.toNat) := by
  have hmin : (expected / 4).toNat = expected.toNat / 4 := UInt32.toNat_div expected 4
  have hmax : (saturatingMulU32 expected 4).toNat = 4 * expected.toNat := by
    rw [saturatingMulU32, show (4 : UInt32).toNat = 4 from rfl, min_eq_left (by omega), mul_comm]
    exact UInt32.toNat_ofNat_of_lt' h
  rw [clampedTimespan]
  split_ifs with hlow hhigh <;> simp only [UInt32.lt_iff_toNat_lt] at * <;> omega

lemma toNat_actualTimespan (prevTime anchorTime : UInt32) :
    (actualTimespan prevTime anchorTime).toNat = prevTime.toNat - anchorTime.toNat := by
  rw [actualTimespan]
  split_ifs with hlt
  · exact (Nat.sub_eq_zero_of_le (UInt32.lt_iff_toNat_lt.mp hlt).le).symm
  · exact UInt32.toNat_sub_of_le _ _ (UInt32.not_lt.mp hlt)

end

section

variable {network : Network} {tree : BlockTree}

lemma target_le_of_validatePow {header : Header} {hash : Hash256} (h : validatePow header hash network = .ok ()) :
    (compactToTarget header.bits).toNat ≤ network.maxTarget.toNat := by
  unfold validatePow at h
  dsimp only at h
  split_ifs at h with hoverflow hzero hlimit
  exact not_lt.mp hlimit

lemma retargets_of_strict (h : network.allowMinDifficultyBlocks = false) : network.powNoRetargeting = false := by
  cases network <;> first | rfl | cases h

lemma four_mul_maxTarget (h : network.powNoRetargeting = false) : 4 * network.maxTarget.toNat < 2 ^ 256 := by
  cases network <;> first | decide | cases h

lemma targetTimespanSeconds_eq (h : network.powNoRetargeting = false) :
    network.targetTimespanSeconds.toNat = 1209600 := by
  cases network <;> first | decide | cases h

lemma permitted_of_bounds {height oldBits newBits : UInt32} {target : ChainWork}
    (hheight : isRetargetHeight network height = true)
    (hsmall : 4 * (compactToTarget oldBits).toNat < 2 ^ 256)
    (hnew : compactToTarget newBits = rounded (minWork target network.maxTarget))
    (hlow : (compactToTarget oldBits).toNat / 4 ≤ target.toNat)
    (hhigh : target.toNat ≤ 4 * (compactToTarget oldBits).toNat) :
    permittedDifficultyTransition network height oldBits newBits = true := by
  have hmul : checkedMulWork (compactToTarget oldBits) 4 = some (compactToTarget oldBits * 4) := by
    refine if_pos ?_
    rw [mul_comm]
    exact hsmall
  have hfour : (compactToTarget oldBits * 4).toNat = 4 * (compactToTarget oldBits).toNat := by
    rw [toNat_mul, mul_comm]
    exact mod_eq_of_lt hsmall
  have hquarter : (compactToTarget oldBits / 4).toNat = (compactToTarget oldBits).toNat / 4 := toNat_udiv
  have hlargest : (minWork target network.maxTarget).toNat ≤
      (minWork (compactToTarget oldBits * 4) network.maxTarget).toNat := by
    rw [toNat_minWork, toNat_minWork, hfour]
    exact min_le_min_right _ hhigh
  have hsmallest : (minWork (compactToTarget oldBits / 4) network.maxTarget).toNat ≤
      (minWork target network.maxTarget).toNat := by
    rw [toNat_minWork, toNat_minWork]
    exact min_le_min_right _ hlow
  rw [permittedDifficultyTransition]
  by_cases hmin : network.allowMinDifficultyBlocks = true
  · rw [if_pos hmin]
  · rw [if_neg hmin, if_neg (not_not.mpr hheight)]
    dsimp only
    have hupper : ¬ rounded (minWork (compactToTarget oldBits * 4) network.maxTarget) <
        rounded (minWork target network.maxTarget) := not_lt.mpr (rounded_mono hlargest)
    rw [hmul, hnew]
    exact (if_neg hupper).trans (decide_eq_true (rounded_mono hsmallest))

lemma permitted_self {height bits : UInt32} (hsmall : 4 * (compactToTarget bits).toNat < 2 ^ 256)
    (hlimit : (compactToTarget bits).toNat ≤ network.maxTarget.toNat) :
    permittedDifficultyTransition network height bits bits = true := by
  by_cases hheight : isRetargetHeight network height = true
  · have hself : minWork (compactToTarget bits) network.maxTarget = compactToTarget bits := if_pos hlimit
    refine permitted_of_bounds hheight hsmall (by rw [hself, rounded_compactToTarget]) (div_le_self _ _) ?_
    omega
  · rw [permittedDifficultyTransition]
    split_ifs
    · rfl
    · exact beq_self_eq_true bits

variable {parent : BlockTreeNode} {parentId : NodeId} (hnetwork : network.allowMinDifficultyBlocks = false)

include hnetwork

variable (hparent : tree.node parentId = .ok parent)

include hparent

lemma permitted_expectedRetargetBits (hlimit : (compactToTarget parent.header.bits).toNat ≤ network.maxTarget.toNat)
    (hheight : isRetargetHeight network (parent.height + 1) = true) {bits : UInt32}
    (h : expectedRetargetBits network tree parentId = .ok bits) :
    permittedDifficultyTransition network (parent.height + 1) parent.header.bits bits = true := by
  have hfour := four_mul_maxTarget (retargets_of_strict hnetwork)
  have hsmall : 4 * (compactToTarget parent.header.bits).toNat < 2 ^ 256 := by omega
  have hkeep : permittedDifficultyTransition network (parent.height + 1) parent.header.bits parent.header.bits = true :=
    permitted_self hsmall hlimit
  have htimespan := targetTimespanSeconds_eq (retargets_of_strict hnetwork)
  have hbip94 : network.enforceBip94 = false := by cases network <;> first | rfl | cases hnetwork
  have hspan : network.targetTimespanSeconds ≠ 0 := fun hzero => absurd (hzero ▸ htimespan) (by decide)
  simp only [expectedRetargetBits, hparent, ok_bind, hbip94, hspan, Bool.false_eq_true, if_false] at h
  split_ifs at h with hfixed hoverflow hearly
  · cases h
    exact hkeep
  · cases h
    exact hkeep
  · split at h
    · cases h
      exact hkeep
    · obtain ⟨anchor, -, h⟩ := bind_eq_ok h
      cases h
      have hclamp := clampedTimespan_eq (show 4 * network.targetTimespanSeconds.toNat <
        2 ^ 32 by rw [htimespan]; decide)
        (actualTimespan parent.header.time anchor.header.time)
      obtain ⟨target, hbits, hlow, hhigh⟩ := scaledTargetBits_bounds hsmall
        (by rw [htimespan]; decide) (by rw [htimespan]; decide)
        (hclamp ▸ le_max_left _ _) (hclamp ▸ max_le (by omega) (min_le_left _ _))
      refine permitted_of_bounds hheight hsmall ?_ hlow hhigh
      rw [hbits]
      rfl

lemma next_work_permitted (hpow : validatePow parent.header parent.hash network = .ok ()) {candidateTime bits : UInt32}
    (h : nextWorkRequired network tree parentId candidateTime = .ok bits) :
    permittedDifficultyTransition network (parent.height + 1) parent.header.bits bits = true := by
  have hlimit := target_le_of_validatePow hpow
  have hfour := four_mul_maxTarget (retargets_of_strict hnetwork)
  rw [nextWorkRequired, hparent, ok_bind] at h
  split_ifs at h with hoverflow hheight
  · exact permitted_expectedRetargetBits hnetwork hparent hlimit hheight h
  · simp only [expectedNonRetargetBits, hparent, ok_bind, hnetwork, Bool.false_eq_true, not_false_eq_true, if_true] at h
    cases h
    exact permitted_self (by omega) hlimit

end

/-- Presync never refuses the bits that the rules require, nor a header that passes the check of its bits. -/
theorem presync_difficulty_sound (network : Network) (hnetwork : network.allowMinDifficultyBlocks = false)
    (tree : BlockTree) (parentId : NodeId)
    (hpow : ∀ parent, tree.node parentId = .ok parent → validatePow parent.header parent.hash network = .ok ()) :
    (∀ candidateTime bits, nextWorkRequired network tree parentId candidateTime = .ok bits →
      ∃ parent, tree.node parentId = .ok parent ∧ parent.height.toNat + 1 < 2 ^ 32 ∧
        permittedDifficultyTransition network (parent.height + 1) parent.header.bits bits = true) ∧
      ∀ header, validateHeaderNbits network tree parentId header = .ok () →
        ∃ parent, tree.node parentId = .ok parent ∧
          permittedDifficultyTransition network (parent.height + 1) parent.header.bits header.bits = true := by
  have hrequired : ∀ candidateTime bits, nextWorkRequired network tree parentId candidateTime = .ok bits →
      ∃ parent, tree.node parentId = .ok parent ∧ parent.height.toNat + 1 < 2 ^ 32 ∧
        permittedDifficultyTransition network (parent.height + 1) parent.header.bits bits = true := by
    intro candidateTime bits h
    obtain ⟨parent, hparent, hrest⟩ := bind_eq_ok h
    refine ⟨parent, hparent, ?_, next_work_permitted hnetwork hparent (hpow parent hparent) h⟩
    have hlt := parent.height.toNat_lt
    split_ifs at hrest <;> omega
  refine ⟨hrequired, fun header h => ?_⟩
  unfold validateHeaderNbits at h
  split at h
  · cases h
  · rename_i expected hexpected
    split_ifs at h with hbits
    · obtain ⟨parent, hparent, -, hpermitted⟩ := hrequired header.time expected hexpected
      exact ⟨parent, hparent, by rw [hbits]; exact hpermitted⟩
    · split at h
      · cases h
      · split_ifs at h

def slowPeriod : BlockTree :=
  let header (time bits : UInt32) : Header :=
    { version := 4, prevBlockhash := .zero, merkleRoot := .zero, time, bits, nonce := 0 }
  let node (parent : Option NodeId) (height time bits : UInt32) : BlockTreeNode :=
    ⟨parent, height, .zero, header time bits, 0, none, .headerValid⟩
  ⟨[node none 0 1000 0x1d00ffff, node (some 0) 2015 2420200 0x1b0404cb], [], .new, none, []⟩

theorem presync_difficulty_sound_slow :
    nextWorkRequired .mainnet slowPeriod 1 2420800 = .ok 0x1b080996 ∧
      permittedDifficultyTransition .mainnet 2016 0x1b0404cb 0x1b080996 = true := by
  have hrequired : nextWorkRequired .mainnet slowPeriod 1 2420800 = .ok 0x1b080996 := by decide +kernel
  have hpow : ∀ parent, slowPeriod.node 1 = .ok parent → validatePow parent.header parent.hash .mainnet = .ok () := by
    intro parent hparent
    cases hparent
    decide +kernel
  obtain ⟨parent, hparent, -, hpermitted⟩ :=
    (presync_difficulty_sound .mainnet rfl slowPeriod 1 hpow).1 2420800 _ hrequired
  cases hparent
  exact ⟨hrequired, hpermitted⟩

def clampSeconds (span : ℕ) (actual : ℤ) : ℕ := (max (span / 4 : ℤ) (min (4 * span : ℤ) actual)).toNat

def retargeted (network : Network) (bits firstTime lastTime : UInt32) : ChainWork :=
  BitVec.ofNat 256 (min network.maxTarget.toNat ((compactToTarget bits).toNat *
    clampSeconds network.targetTimespanSeconds.toNat (lastTime.toNat - firstTime.toNat) /
      network.targetTimespanSeconds.toNat))

/-- Where difficulty is retargeted, the bits after a period are those of the clamped quotient. -/
theorem retarget_bits_exact (network : Network) (tree : BlockTree) (parentId : NodeId) (parent : BlockTreeNode)
    (hparent : tree.node parentId = .ok parent) :
    (network.powNoRetargeting = true → expectedRetargetBits network tree parentId = .ok parent.header.bits) ∧
    (network.powNoRetargeting = false → parent.height.toNat + 1 < 2 ^ 32 →
      network.retargetInterval ≤ parent.height + 1 → ∀ firstId first, tree.node firstId = .ok first →
      tree.nodeAtHeightFrom parentId (parent.height + 1 - network.retargetInterval) = some firstId →
      let bits := if network.enforceBip94 then first.header.bits else parent.header.bits
      (compactToTarget bits).toNat ≤ network.maxTarget.toNat →
        expectedRetargetBits network tree parentId =
          .ok (targetToCompact (retargeted network bits first.header.time parent.header.time))) := by
  refine ⟨fun hkeeps => ?_, fun hretargets hheight hperiod firstId first hnode hfirst => ?_⟩
  · rw [expectedRetargetBits, hparent, ok_bind, if_pos hkeeps]
    rfl
  intro bits hlimit
  have htimespan := targetTimespanSeconds_eq hretargets
  have hspan : network.targetTimespanSeconds ≠ 0 := fun hzero => absurd (hzero ▸ htimespan) (by decide)
  have hfour := four_mul_maxTarget hretargets
  have hclamp := clampedTimespan_eq (show 4 * network.targetTimespanSeconds.toNat < 2 ^ 32 by rw [htimespan]; decide)
    (actualTimespan parent.header.time first.header.time)
  have hle := scaled_le (compactToTarget bits).toNat (show (clampedTimespan network.targetTimespanSeconds
    (actualTimespan parent.header.time first.header.time)).toNat ≤ 4 * network.targetTimespanSeconds.toNat by omega)
  obtain ⟨target, hbits, htarget⟩ := scaledTargetBits_eq network (by rw [htimespan]; decide)
    (hle.trans_lt (show 4 * (compactToTarget bits).toNat < 2 ^ 256 by omega))
  have hmin : minWork target network.maxTarget = retargeted network bits first.header.time parent.header.time := by
    apply eq_of_toNat_eq
    rw [toNat_minWork, htarget, hclamp, toNat_actualTimespan, retargeted, toNat_ofNat, mod_eq_of_lt
      ((min_le_left _ _).trans_lt network.maxTarget.isLt), min_comm]
    congr 4
    rw [clampSeconds]
    omega
  have hnotOver : parent.height.toNat + 1 ≠ 2 ^ 32 := hheight.ne
  have hnotEarly : ¬ parent.height + 1 < network.retargetInterval := UInt32.not_lt.mpr hperiod
  simp only [expectedRetargetBits, hparent, ok_bind, hretargets, Bool.false_eq_true, if_false, hnotOver, hnotEarly,
    hfirst, hnode, hspan]
  exact congrArg Except.ok (hbits.trans (congrArg targetToCompact hmin))

theorem retarget_bits_exact_slow : ∃ parent first, slowPeriod.node 1 = .ok parent ∧ slowPeriod.node 0 = .ok first ∧
    expectedRetargetBits .mainnet slowPeriod 1 = .ok (targetToCompact
      (retargeted .mainnet parent.header.bits first.header.time parent.header.time)) := by
  have hfirst : slowPeriod.nodeAtHeightFrom 1 0 = some 0 := by decide +kernel
  have hlimit : (compactToTarget 0x1b0404cb).toNat ≤ Network.mainnet.maxTarget.toNat := by decide +kernel
  refine ⟨_, _, rfl, rfl, ?_⟩
  exact (retarget_bits_exact .mainnet slowPeriod 1 _ rfl).2 rfl (by decide) (by decide) 0 _ rfl hfirst hlimit

def fastRegtest : BlockTree :=
  let node (height : ℕ) : BlockTreeNode := ⟨if height = 0 then none else some (UInt32.ofNat (height - 1)),
    UInt32.ofNat height, .zero, ⟨4, .zero, .zero, 1296688602, 0x207fffff, 0⟩, 0, none, .headerValid⟩
  ⟨(List.range 144).map node, [], .new, none, []⟩

theorem regtest_keeps_bits : fastRegtest.nodeAtHeightFrom 143 0 = some 0 ∧
    expectedRetargetBits .regtest fastRegtest 143 = .ok 0x207fffff ∧
    targetToCompact (retargeted .regtest 0x207fffff 1296688602 1296688602) = 0x201fffff := by
  decide +kernel

end BitcoinRs.Chain
