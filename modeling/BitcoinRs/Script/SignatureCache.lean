import BitcoinRs.Script.SoftFork

namespace BitcoinRs.Interpreter

abbrev Slice := { bytes : Bytes // bytes.length < 2 ^ 64 }

inductive SignatureAlgorithm
  | ecdsa
  | schnorr

structure SignatureTuple where
  algorithm : SignatureAlgorithm
  message : Hash256
  sig : Slice
  pubkey : Slice

/-- At most `capacity` keys; the source has room for 64. -/
structure SignatureCache (capacity : ℕ) where
  keys : List Bytes
  length_le : keys.length ≤ capacity

namespace SignatureCache

variable {capacity : ℕ}

def new : SignatureCache capacity := ⟨[], Nat.zero_le _⟩

section

variable (cache : SignatureCache capacity)

def contains (key : Bytes) : Bool := key ∈ cache.keys

def insert (key : Bytes) : SignatureCache capacity :=
  if cache.contains key then cache
  else if h : cache.keys.length < capacity then ⟨key :: cache.keys, h⟩
  else cache

end

/-- `b"btcrs-sigcache-v1\0"` -/
def domain : Bytes :=
  [0x62, 0x74, 0x63, 0x72, 0x73, 0x2d, 0x73, 0x69, 0x67, 0x63, 0x61, 0x63, 0x68, 0x65, 0x2d, 0x76, 0x31, 0x00]

/-- `b"ecdsa-v1\0"` -/
def tagEcdsa : Bytes := [0x65, 0x63, 0x64, 0x73, 0x61, 0x2d, 0x76, 0x31, 0x00]

/-- `b"schnorr-v1\0"` -/
def tagSchnorr : Bytes := [0x73, 0x63, 0x68, 0x6e, 0x6f, 0x72, 0x72, 0x2d, 0x76, 0x31, 0x00]

def keyPreimage (tag : Bytes) (message : Hash256) (sig pubkey : Bytes) : Bytes :=
  domain ++ (tag ++ (message.bytes ++ (LittleEndian.encode 8 (min sig.length (2 ^ 64 - 1)) ++ (sig ++
    (LittleEndian.encode 8 (min pubkey.length (2 ^ 64 - 1)) ++ pubkey)))))

variable (prims : Primitives)

def cacheKey (tag : Bytes) (message : Hash256) (sig pubkey : Bytes) : Bytes :=
  prims.sha256 (keyPreimage tag message sig pubkey)

variable (message : Hash256)

def ecdsaKey (sig pubkey : Bytes) : Bytes := cacheKey prims tagEcdsa message sig pubkey

def schnorrKey (sig pubkey : Bytes) : Bytes := cacheKey prims tagSchnorr message sig pubkey

end SignatureCache

open SignatureCache List LittleEndian

def SignatureAlgorithm.tag : SignatureAlgorithm → Bytes
  | .ecdsa => tagEcdsa
  | .schnorr => tagSchnorr

namespace SignatureTuple

def preimage (tuple : SignatureTuple) : Bytes :=
  keyPreimage tuple.algorithm.tag tuple.message tuple.sig.val tuple.pubkey.val

variable (prims : Primitives) (tuple : SignatureTuple)

def key : Bytes := cacheKey prims tuple.algorithm.tag tuple.message tuple.sig.val tuple.pubkey.val

def verifies : Bool :=
  match tuple.algorithm with
  | .ecdsa => prims.verifyEcdsa tuple.message tuple.sig.val.dropLast tuple.pubkey.val
  | .schnorr => prims.verifySchnorr tuple.message (tuple.sig.val.take 64) tuple.pubkey.val

end SignatureTuple

namespace TxSignatureChecker

variable (prims : Primitives) (checker : TxSignatureChecker) {capacity : ℕ}

def checkEcdsaSignatureCached (sig pubkey scriptCode : Bytes) (sigversion : SigVersion) (flags : VerifyFlags)
    (cache : SignatureCache capacity) : ScriptResult Bool × SignatureCache capacity :=
  match checker.ecdsaMessage prims sig pubkey scriptCode sigversion flags with
  | .error e => (.error e, cache)
  | .ok none => (.ok false, cache)
  | .ok (some sighash) =>
    let key := ecdsaKey prims sighash sig pubkey
    if cache.contains key then (.ok true, cache)
    else
      let verified := prims.verifyEcdsa sighash sig.dropLast pubkey
      (.ok verified, if verified then cache.insert key else cache)

def checkSchnorrSignatureCached (sig pubkey : Bytes) (leafHash : Option Hash256) (codesepPos : UInt32)
    (cache : SignatureCache capacity) : ScriptResult Bool × SignatureCache capacity :=
  match checker.schnorrMessage prims sig pubkey leafHash codesepPos with
  | .error e => (.error e, cache)
  | .ok none => (.ok false, cache)
  | .ok (some sighash) =>
    let key := schnorrKey prims sighash sig pubkey
    if cache.contains key then (.ok true, cache)
    else if prims.verifySchnorr sighash (sig.take 64) pubkey then (.ok true, cache.insert key)
    else (reject .schnorrSig, cache)

lemma checkSchnorrSignature_eq (sig pubkey : Bytes) (leafHash : Option Hash256) (codesepPos : UInt32) :
    checker.checkSchnorrSignature prims sig pubkey leafHash codesepPos =
      checker.schnorrMessage prims sig pubkey leafHash codesepPos >>= fun message =>
        match message with
        | none => .ok false
        | some sighash =>
          if prims.verifySchnorr sighash (sig.take 64) pubkey then .ok true else reject .schnorrSig := by
  unfold checkSchnorrSignature
  congr 1
  funext message
  cases message with
  | none => rfl
  | some sighash =>
    dsimp only
    cases prims.verifySchnorr sighash (sig.take 64) pubkey <;> rfl

end TxSignatureChecker

inductive SignatureCheck
  | ecdsa (checker : TxSignatureChecker) (sig pubkey : Slice) (scriptCode : Bytes) (sigversion : SigVersion)
      (flags : VerifyFlags)
  | schnorr (checker : TxSignatureChecker) (sig pubkey : Slice) (leafHash : Option Hash256) (codesepPos : UInt32)

namespace SignatureCheck

variable (prims : Primitives) {capacity : ℕ}

def uncached : SignatureCheck → ScriptResult Bool
  | .ecdsa checker sig pubkey scriptCode sigversion flags =>
    checker.checkEcdsaSignature prims sig.val pubkey.val scriptCode sigversion flags
  | .schnorr checker sig pubkey leafHash codesepPos =>
    checker.checkSchnorrSignature prims sig.val pubkey.val leafHash codesepPos

def cached (cache : SignatureCache capacity) : SignatureCheck → ScriptResult Bool × SignatureCache capacity
  | .ecdsa checker sig pubkey scriptCode sigversion flags =>
    checker.checkEcdsaSignatureCached prims sig.val pubkey.val scriptCode sigversion flags cache
  | .schnorr checker sig pubkey leafHash codesepPos =>
    checker.checkSchnorrSignatureCached prims sig.val pubkey.val leafHash codesepPos cache

def tuple : SignatureCheck → Option SignatureTuple
  | .ecdsa checker sig pubkey scriptCode sigversion flags =>
    match checker.ecdsaMessage prims sig.val pubkey.val scriptCode sigversion flags with
    | .ok (some sighash) => some ⟨.ecdsa, sighash, sig, pubkey⟩
    | _ => none
  | .schnorr checker sig pubkey leafHash codesepPos =>
    match checker.schnorrMessage prims sig.val pubkey.val leafHash codesepPos with
    | .ok (some sighash) => some ⟨.schnorr, sighash, sig, pubkey⟩
    | _ => none

def runCached : SignatureCache capacity → List SignatureCheck → List (ScriptResult Bool)
  | _, [] => []
  | cache, check :: rest => (check.cached prims cache).1 :: runCached (check.cached prims cache).2 rest

lemma cached_cases (check : SignatureCheck) (cache : SignatureCache capacity) :
    check.tuple prims = none ∧ check.cached prims cache = (check.uncached prims, cache) ∨
      ∃ tuple, check.tuple prims = some tuple ∧ (tuple.verifies prims = true → check.uncached prims = .ok true) ∧
        check.cached prims cache =
          if cache.contains (tuple.key prims) then (.ok true, cache)
          else (check.uncached prims, if tuple.verifies prims then cache.insert (tuple.key prims) else cache) := by
  cases check with
  | ecdsa checker sig pubkey scriptCode sigversion flags =>
    unfold tuple cached uncached TxSignatureChecker.checkEcdsaSignatureCached
    dsimp only
    rw [TxSignatureChecker.checkEcdsaSignature]
    cases checker.ecdsaMessage prims sig.val pubkey.val scriptCode sigversion flags with
    | error e => exact .inl ⟨rfl, rfl⟩
    | ok message =>
      cases message with
      | none => exact .inl ⟨rfl, rfl⟩
      | some sighash => exact .inr ⟨_, rfl, fun hverifies => congrArg Except.ok hverifies, rfl⟩
  | schnorr checker sig pubkey leafHash codesepPos =>
    unfold tuple cached uncached TxSignatureChecker.checkSchnorrSignatureCached
    dsimp only
    rw [checker.checkSchnorrSignature_eq]
    cases checker.schnorrMessage prims sig.val pubkey.val leafHash codesepPos with
    | error e => exact .inl ⟨rfl, rfl⟩
    | ok message =>
      cases message with
      | none => exact .inl ⟨rfl, rfl⟩
      | some sighash =>
        refine .inr ⟨_, rfl, fun hverifies => ?_, ?_⟩
        · exact if_pos hverifies
        · have hkey : SignatureTuple.key prims ⟨.schnorr, sighash, sig, pubkey⟩ =
              schnorrKey prims sighash sig.val pubkey.val := rfl
          rw [hkey]
          dsimp only [SignatureTuple.verifies]
          by_cases hverifies : prims.verifySchnorr sighash (sig.val.take 64) pubkey.val = true
          · simp [hverifies]
          · simp [hverifies]

end SignatureCheck

section

lemma length_eq_of_encode {a b : Slice}
    (h : LittleEndian.encode 8 (min a.val.length (2 ^ 64 - 1)) =
      LittleEndian.encode 8 (min b.val.length (2 ^ 64 - 1))) :
    a.val.length = b.val.length := by
  have hmin := encode_injective 8 _ _ (by omega) (by omega) h
  omega

lemma SignatureTuple.preimage_injective : Function.Injective preimage := by
  rintro ⟨algorithm, message, sig, pubkey⟩ ⟨algorithm', message', sig', pubkey'⟩ h
  unfold preimage keyPreimage at h
  dsimp only at h
  have htail := append_cancel_left h
  have halgorithm : algorithm = algorithm' := by
    cases algorithm <;> cases algorithm' <;> first | rfl | (simp [SignatureAlgorithm.tag, tagEcdsa,
      tagSchnorr] at htail)
  subst halgorithm
  -- each part has the same length on both sides, the signature by the length before it
  obtain ⟨hmessage, hrest⟩ := append_inj (append_cancel_left htail)
    (by rw [message.length_bytes, message'.length_bytes])
  obtain ⟨hsigLen, hrest⟩ := append_inj hrest (by rw [length_encode, length_encode])
  obtain ⟨hsig, hrest⟩ := append_inj hrest (length_eq_of_encode hsigLen)
  obtain ⟨-, hpubkey⟩ := append_inj hrest (by rw [length_encode, length_encode])
  rw [Hash256.bytes_injective hmessage, Subtype.ext hsig, Subtype.ext hpubkey]

end

section

variable {prims : Primitives} {capacity : ℕ} {cache : SignatureCache capacity} {tuples : List SignatureTuple}

def SignatureCache.Sound (prims : Primitives) (tuples : List SignatureTuple) (cache : SignatureCache capacity) : Prop :=
  ∀ key ∈ cache.keys, ∃ tuple ∈ tuples, tuple.key prims = key ∧ tuple.verifies prims = true

lemma SignatureCache.Sound.insert (h : cache.Sound prims tuples) {tuple : SignatureTuple} (hmem : tuple ∈ tuples)
    (hverifies : tuple.verifies prims = true) : (cache.insert (tuple.key prims)).Sound prims tuples := by
  unfold SignatureCache.insert
  split_ifs
  · exact h
  · exact forall_mem_cons.mpr ⟨⟨tuple, hmem, rfl, hverifies⟩, h⟩
  · exact h

def CollisionFree (prims : Primitives) (tuples : List SignatureTuple) : Prop :=
  ∀ a ∈ tuples, ∀ b ∈ tuples, prims.sha256 a.preimage = prims.sha256 b.preimage → a.preimage = b.preimage

lemma CollisionFree.eq_of_key (h : CollisionFree prims tuples) {a b : SignatureTuple} (ha : a ∈ tuples)
    (hb : b ∈ tuples) (hkey : a.key prims = b.key prims) : a = b :=
  SignatureTuple.preimage_injective (h a ha b hb hkey)

lemma cached_sound (hfree : CollisionFree prims tuples) (h : cache.Sound prims tuples) (check : SignatureCheck)
    (htuple : ∀ tuple, check.tuple prims = some tuple → tuple ∈ tuples) :
    (check.cached prims cache).1 = check.uncached prims ∧ (check.cached prims cache).2.Sound prims tuples := by
  rcases check.cached_cases prims cache with ⟨-, hcached⟩ | ⟨tuple, hsome, hverified, hcached⟩
  · rw [hcached]
    exact ⟨rfl, h⟩
  · rw [hcached]
    have hmem := htuple tuple hsome
    split_ifs with hhit hverifies
    · obtain ⟨stored, hstored, hkey, hverifies⟩ := h _ (decide_eq_true_eq.mp hhit)
      rw [hfree.eq_of_key hstored hmem hkey] at hverifies
      exact ⟨(hverified hverifies).symm, h⟩
    · exact ⟨rfl, h.insert hmem hverifies⟩
    · exact ⟨rfl, h⟩

lemma runCached_eq (hfree : CollisionFree prims tuples) (h : cache.Sound prims tuples) (checks : List SignatureCheck)
    (htuples : ∀ check ∈ checks, ∀ tuple, check.tuple prims = some tuple → tuple ∈ tuples) :
    SignatureCheck.runCached prims cache checks = checks.map fun check => check.uncached prims := by
  induction checks generalizing cache with
  | nil => rfl
  | cons check rest ih =>
    obtain ⟨hfirst, hrest⟩ := forall_mem_cons.mp htuples
    obtain ⟨hresult, hsound⟩ := cached_sound hfree h check hfirst
    rw [SignatureCheck.runCached, map_cons, hresult, ih hsound hrest]

/-- Checks that share a cache give what they give without one, and no two tuples share a key, if SHA-256 has no
collision among the preimages of their keys. -/
theorem signature_cache_transparent (prims : Primitives) (capacity : ℕ) (checks : List SignatureCheck)
    (hfree : CollisionFree prims (checks.filterMap fun check => check.tuple prims)) :
    SignatureCheck.runCached prims (.new : SignatureCache capacity) checks =
        checks.map (fun check => check.uncached prims) ∧
      ∀ a ∈ checks.filterMap (fun check => check.tuple prims), ∀ b ∈ checks.filterMap (fun check => check.tuple prims),
        a ≠ b → a.key prims ≠ b.key prims := by
  constructor
  · refine runCached_eq hfree (fun key hkey => absurd hkey not_mem_nil) checks fun check hcheck tuple htuple => ?_
    exact mem_filterMap.mpr ⟨check, hcheck, htuple⟩
  · exact fun a ha b hb hne hkey => hne (hfree.eq_of_key ha hb hkey)

def repeatedCheck : SignatureCheck :=
  .ecdsa ⟨⟨2, [], [], 0⟩, 0, 0, [], none⟩ ⟨[0x30, 0x01], by decide⟩ ⟨[0x02], by decide⟩ [] .base .none

def acceptingPrims : Primitives :=
  { Primitives.rejecting with
    publicKeyParses := fun _ => true
    derLaxParses := fun _ => true
    legacySignatureHash := fun _ _ _ _ => .ok default
    verifyEcdsa := fun _ _ _ => true }

theorem signature_cache_transparent_repeated :
    ((repeatedCheck.cached acceptingPrims (.new : SignatureCache 64)).2.keys.length = 1 ∧
      repeatedCheck.uncached acceptingPrims = .ok true) ∧
    SignatureCheck.runCached acceptingPrims (.new : SignatureCache 64) [repeatedCheck, repeatedCheck] =
      [repeatedCheck, repeatedCheck].map fun check => check.uncached acceptingPrims :=
  ⟨by decide +kernel, (signature_cache_transparent acceptingPrims 64 _ fun _ _ _ _ hsame => hsame).1⟩

end

end BitcoinRs.Interpreter
