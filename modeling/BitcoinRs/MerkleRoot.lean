import BitcoinRs.Library.PairTree
import BitcoinRs.Sha256d64

namespace BitcoinRs.Merkle

open PairTree List
open Hash256 (zero)

variable (doubleSha256 : Bytes → Hash256)

def hashMerklePair (left right : Txid) : Txid := doubleSha256 (left.bytes ++ right.bytes)

def lanes : ℕ := 8

/-- The AVX2 token with the one thing its kernel does: eight 64-byte messages at a time. -/
structure Avx2Sha256d64 where
  transform8way : List Bytes → List Hash256
  transform8way_eq : ∀ input, input.length = lanes → (∀ message ∈ input, message.length = 64) →
    transform8way input = input.map doubleSha256

def avx2 : Avx2Sha256d64 Sha256d64.doubleSha256 := ⟨Sha256d64.transform8way, Sha256d64.transform8way_eq⟩

def avx2MerkleMinLeaves : ℕ := lanes * 2

/-- One leaf carried up the spine; `none` is the index panic past the last slot. -/
def spinePush : List (Option Txid) → Txid → Bool → Option (List (Option Txid) × Bool)
  | [], _, _ => none
  | none :: rest, current, mutated => some (some current :: rest, mutated)
  | some left :: rest, current, mutated =>
    (spinePush rest (hashMerklePair doubleSha256 left current) (mutated || left == current)).map
      (fun s => (none :: s.1, s.2))

def spineFill : List Txid → List (Option Txid) → Bool → Option (List (Option Txid) × Bool)
  | [], spine, mutated => some (spine, mutated)
  | leaf :: leaves, spine, mutated =>
    (spinePush doubleSha256 spine leaf mutated).bind (fun s => spineFill leaves s.1 s.2)

def promote : ℕ → Txid → Txid
  | 0, right => right
  | steps + 1, right => promote steps (hashMerklePair doubleSha256 right right)

def spineCarry : ℕ → List (Option Txid) → Option (Txid × ℕ) → Bool → Option (Txid × ℕ) × Bool
  | _, [], carry, mutated => (carry, mutated)
  | height, none :: rest, carry, mutated => spineCarry (height + 1) rest carry mutated
  | height, some node :: rest, none, mutated =>
    spineCarry (height + 1) rest (some (node, height)) mutated
  | height, some node :: rest, some (accumulated, accumulatedHeight), mutated =>
    let right := promote doubleSha256 (height - accumulatedHeight) accumulated
    spineCarry (height + 1) rest (some (hashMerklePair doubleSha256 node right, height + 1))
      (mutated || node == right)

def merkleRootSpine (txids : List Txid) : Option (Txid × Bool) :=
  if txids.isEmpty then none
  else
    (spineFill doubleSha256 txids (replicate 64 none) false).bind (fun s =>
      match spineCarry doubleSha256 0 s.1 none s.2 with
      | (some (root, _), mutated) => some (root, mutated)
      | (none, _) => none)

def parentAt (level : List Txid) (originalLen pos : ℕ) : Txid :=
  hashMerklePair doubleSha256 (level.getD (2 * pos) zero)
    (level.getD (min (2 * pos + 1) (originalLen - 1)) zero)

variable {doubleSha256} in
def hashAvx2ParentBatches (kernel : Avx2Sha256d64 doubleSha256) (pairCount : ℕ) :
    ℕ → ℕ → List Txid → List Txid × ℕ
  | 0, idx, level => (level, idx)
  | fuel + 1, idx, level =>
    if idx + lanes ≤ pairCount then
      let input := (range lanes).map (fun lane =>
        (level.getD (2 * (idx + lane)) zero).bytes ++
          (level.getD (2 * (idx + lane) + 1) zero).bytes)
      let output := kernel.transform8way input
      let level := (range lanes).foldl
        (fun level lane => level.set (idx + lane) (output.getD lane zero)) level
      hashAvx2ParentBatches kernel pairCount fuel (idx + lanes) level
    else (level, idx)

section

variable (kernel : Option (Avx2Sha256d64 doubleSha256))

def foldParentLevel (level : List Txid) : List Txid :=
  let originalLen := level.length
  let newLen := (originalLen + 1) / 2
  let pairCount := originalLen / 2
  let (level, start) := match kernel with
    | some kernel => hashAvx2ParentBatches kernel pairCount pairCount 0 level
    | none => (level, 0)
  let level := (range' start (newLen - start)).foldl
    (fun level pos => level.set pos (parentAt doubleSha256 level originalLen pos)) level
  level.take newLen

def merkleLevels :
    ℕ → List Txid → Bool → Option (Txid × Bool)
  | fuel + 1, hashes, mutated =>
    if 1 < hashes.length then
      merkleLevels fuel (foldParentLevel doubleSha256 kernel hashes)
        (mutated || PairTree.twin hashes)
    else hashes.head?.map (fun root => (root, mutated))
  | 0, hashes, mutated => hashes.head?.map (fun root => (root, mutated))

def merkleRootAndMutation (hashes : List Txid) : Option (Txid × Bool) :=
  if hashes.isEmpty then none
  else if hashes.length == 1 then hashes.head?.map (fun root => (root, false))
  else merkleLevels doubleSha256 kernel hashes.length hashes false

/-- `detect_avx2()` is the argument `kernel`. -/
def merkleRootAndMutationBorrowed (txids : List Txid) : Option (Txid × Bool) :=
  if avx2MerkleMinLeaves ≤ txids.length && kernel.isSome then
    merkleRootAndMutation doubleSha256 kernel txids
  else merkleRootSpine doubleSha256 txids

end

inductive ConsensusError
  | merkleRoot
  | merkleMutation
  deriving DecidableEq

def verifyMerkleRootWithTxids (kernel : Option (Avx2Sha256d64 doubleSha256)) (block : Block)
    (txids : List Txid) : Except ConsensusError Unit :=
  match merkleRootAndMutationBorrowed doubleSha256 kernel txids with
  | none => .error .merkleRoot
  | some (root, mutated) =>
    if block.header.merkleRoot ≠ root then .error .merkleRoot
    else if mutated then .error .merkleMutation
    else .ok ()

variable (level : List Txid)

lemma parentAt_foldedUpTo (pos : ℕ) (hp : pos < (level.length + 1) / 2) :
    parentAt doubleSha256 (foldedUpTo (hashMerklePair doubleSha256) pos level) level.length pos =
      hashMerklePair doubleSha256 (level.getD (2 * pos) zero)
        (level.getD (min (2 * pos + 1) (level.length - 1)) zero) := by
  rw [parentAt, getD_foldedUpTo _ _ _ _ _ (by omega) (by omega), getD_foldedUpTo _ _ _ _ _ (by omega) (by omega)]

lemma foldl_parentAt (n start : ℕ) (h : start + n ≤ (level.length + 1) / 2) :
    (range' start n).foldl
        (fun l pos => l.set pos (parentAt doubleSha256 l level.length pos))
        (foldedUpTo (hashMerklePair doubleSha256) start level) =
      foldedUpTo (hashMerklePair doubleSha256) (start + n) level := by
  induction n generalizing start with
  | zero => rfl
  | succ n ih =>
    rw [range'_succ, foldl_cons, parentAt_foldedUpTo _ _ _ (by omega),
      set_foldedUpTo _ _ _ _ (by omega), ih (start + 1) (by omega)]
    congr 1
    omega

variable {doubleSha256} in
lemma foldl_lanes (idx n : ℕ) (output : List Txid) (h : idx + n ≤ (level.length + 1) / 2)
    (ho : ∀ lane < n, output.getD lane zero =
      hashMerklePair doubleSha256 (level.getD (2 * (idx + lane)) zero)
        (level.getD (min (2 * (idx + lane) + 1) (level.length - 1)) zero)) :
    (range n).foldl (fun l lane => l.set (idx + lane) (output.getD lane zero))
        (foldedUpTo (hashMerklePair doubleSha256) idx level) =
      foldedUpTo (hashMerklePair doubleSha256) (idx + n) level := by
  induction n with
  | zero => rfl
  | succ n ih =>
    rw [range_succ, foldl_append, ih (by omega) (fun lane hl => ho lane (by omega)),
      foldl_cons, foldl_nil, ho n (by omega), set_foldedUpTo _ _ _ _ (by omega)]
    rfl

lemma hashAvx2ParentBatches_eq (kernel : Avx2Sha256d64 doubleSha256) (level : List Txid)
    (fuel idx : ℕ) (hi : idx ≤ level.length / 2) :
    ∃ idx' ≤ level.length / 2,
      hashAvx2ParentBatches kernel (level.length / 2) fuel idx
        (foldedUpTo (hashMerklePair doubleSha256) idx level) =
        (foldedUpTo (hashMerklePair doubleSha256) idx' level, idx') := by
  induction fuel generalizing idx with
  | zero => exact ⟨idx, hi, rfl⟩
  | succ fuel ih =>
    rw [hashAvx2ParentBatches]
    split_ifs with hb
    · obtain ⟨idx', hi', he⟩ := ih (idx + lanes) hb
      refine ⟨idx', hi', ?_⟩
      simp only
      rw [foldl_lanes level idx lanes _ (by omega), he]
      intro lane hl
      rw [kernel.transform8way_eq _ (by simp) (by simp [Hash256.length_bytes]), getD_eq_getElem _ _ (by simpa using hl)]
      simp only [getElem_map, getElem_range]
      rw [getD_foldedUpTo _ _ _ _ _ (by omega) (by omega),
        getD_foldedUpTo _ _ _ _ _ (by omega) (by omega),
        show min (2 * (idx + lane) + 1) (level.length - 1) = 2 * (idx + lane) + 1 by omega]
      rfl
    · exact ⟨idx, hi, rfl⟩

variable (kernel : Option (Avx2Sha256d64 doubleSha256))

lemma foldParentLevel_eq : foldParentLevel doubleSha256 kernel level = parents (hashMerklePair doubleSha256) level := by
  have hfold (start : ℕ) (hs : start ≤ level.length / 2) :
      ((range' start ((level.length + 1) / 2 - start)).foldl
        (fun l pos => l.set pos (parentAt doubleSha256 l level.length pos))
        (foldedUpTo (hashMerklePair doubleSha256) start level)).take ((level.length + 1) / 2) =
      parents (hashMerklePair doubleSha256) level := by
    rw [foldl_parentAt _ _ _ _ (by omega),
      show start + ((level.length + 1) / 2 - start) = (level.length + 1) / 2 by omega,
      take_foldedUpTo]
  cases kernel with
  | none =>
    have h := hfold 0 (by omega)
    exact h
  | some kernel =>
    obtain ⟨idx, hi, he⟩ := hashAvx2ParentBatches_eq doubleSha256 kernel level (level.length / 2) 0
      (by omega)
    rw [foldedUpTo_zero] at he
    simp only [foldParentLevel, he]
    exact hfold idx hi

lemma merkleLevels_root (fuel : ℕ) (hashes : List Txid) (mutated : Bool) (hf : hashes.length ≤ fuel + 1)
    (hne : hashes ≠ []) :
    ∃ d r m, d ≤ fuel ∧ Root (hashMerklePair doubleSha256) d hashes r m ∧
      merkleLevels doubleSha256 kernel fuel hashes mutated = some (r, mutated || m) := by
  induction fuel generalizing hashes mutated with
  | zero =>
    match hashes, hne with
    | [a], _ => exact ⟨0, a, false, le_refl 0, .single a, by simp [merkleLevels]⟩
    | a :: b :: rest, _ => simp at hf
  | succ fuel ih =>
    match hashes, hne with
    | [a], _ => exact ⟨0, a, false, by omega, .single a, by simp [merkleLevels]⟩
    | a :: b :: rest, _ =>
      have hl : (parents (hashMerklePair doubleSha256) (a :: b :: rest)).length ≤ fuel + 1 := by
        simp only [length_parents, length_cons] at hf ⊢; omega
      obtain ⟨d, r, m, hd, hr, he⟩ := ih _ (mutated || twin (a :: b :: rest)) hl
        (by simp [parents, levelPairs])
      refine ⟨d + 1, r, _, by omega, .level hr, ?_⟩
      rw [merkleLevels, if_pos (by simp), foldParentLevel_eq, he, Bool.or_assoc]

inductive Spine : List (Option Txid) → List Txid → Bool → Prop
  | nil : Spine [] [] false
  | clear {rest : List (Option Txid)} {xs : List Txid} {m : Bool} (he : xs.length % 2 = 0)
      (h : Spine rest (parents (hashMerklePair doubleSha256) xs) m) :
      Spine (none :: rest) xs (twin xs || m)
  | set {rest : List (Option Txid)} {xs : List Txid} {m : Bool} (a : Txid) (he : xs.length % 2 = 0)
      (h : Spine rest (parents (hashMerklePair doubleSha256) xs) m) :
      Spine (some a :: rest) (xs ++ [a]) (twin xs || m)

lemma spine_replicate (n : ℕ) : Spine doubleSha256 (replicate n none) [] false := by
  induction n with
  | zero => exact .nil
  | succ n ih => exact .clear rfl ih

variable {doubleSha256} {s s' : List (Option Txid)} {xs : List Txid} {m : Bool} (txids : List Txid)

lemma Spine.push {a : Txid} {m acc acc' : Bool} (h : Spine doubleSha256 s xs m)
    (hp : spinePush doubleSha256 s a acc = some (s', acc')) :
    ∃ δ, acc' = (acc || δ) ∧ Spine doubleSha256 s' (xs ++ [a]) (m || δ) := by
  induction h generalizing s' a acc with
  | nil => simp [spinePush] at hp
  | clear he h ih =>
    obtain ⟨rfl, rfl⟩ := hp
    exact ⟨false, by simp, by simpa using Spine.set a he h⟩
  | @set rest xs m left he h ih =>
    simp only [spinePush, Option.map_eq_some_iff, Prod.mk.injEq] at hp
    obtain ⟨⟨rest', acc''⟩, hp, rfl, rfl⟩ := hp
    obtain ⟨δ, rfl, hs⟩ := ih hp
    refine ⟨left == a || δ, by rw [Bool.or_assoc], ?_⟩
    have heven : (xs ++ [left] ++ [a]).length % 2 = 0 := by simp; omega
    have hparents : parents (hashMerklePair doubleSha256) (xs ++ [left] ++ [a]) =
        parents (hashMerklePair doubleSha256) xs ++ [hashMerklePair doubleSha256 left a] := by
      rw [append_assoc, parents_append _ _ _ he]
      rfl
    have htwin : twin (xs ++ [left] ++ [a]) = (twin xs || left == a) := by
      rw [append_assoc, twin_append _ _ he]
      simp [twin]
    have hnew : Spine doubleSha256 (none :: rest') _ _ := Spine.clear heven (hparents ▸ hs)
    rw [htwin] at hnew
    convert hnew using 1
    cases twin xs <;> cases m <;> cases left == a <;> cases δ <;> rfl

lemma Spine.fill {xs leaves : List Txid} {m m' : Bool}
    (h : Spine doubleSha256 s xs m) (hf : spineFill doubleSha256 leaves s m = some (s', m')) :
    Spine doubleSha256 s' (xs ++ leaves) m' := by
  induction leaves generalizing s xs m with
  | nil =>
    obtain ⟨rfl, rfl⟩ := hf
    simpa using h
  | cons leaf leaves ih =>
    simp only [spineFill, Option.bind_eq_some_iff] at hf
    obtain ⟨⟨s₁, m₁⟩, hp, hf⟩ := hf
    obtain ⟨δ, rfl, hs⟩ := h.push hp
    simpa using ih hs hf

lemma promote_succ (n : ℕ) (r : Txid) :
    promote doubleSha256 (n + 1) r =
      hashMerklePair doubleSha256 (promote doubleSha256 n r) (promote doubleSha256 n r) := by
  induction n generalizing r with
  | zero => rfl
  | succ n ih =>
    rw [promote, ih]
    rfl

lemma Spine.carry_nil (h : Spine doubleSha256 s xs m) (hx : xs = []) (k : ℕ) (carry : Option (Txid × ℕ)) (acc : Bool) :
    m = false ∧ spineCarry doubleSha256 k s carry acc = (carry, acc) := by
  induction h generalizing k with
  | nil => exact ⟨rfl, by simp [spineCarry]⟩
  | clear he h ih =>
    subst hx
    obtain ⟨rfl, hc⟩ := ih rfl (k + 1)
    exact ⟨rfl, by simpa [spineCarry] using hc⟩
  | set a he h ih => simp at hx

section

variable (hs : Spine doubleSha256 s xs m)

include hs

lemma Spine.carry_some (hx : xs ≠ []) (k h : ℕ) (hk : h ≤ k) (node : Txid) (acc : Bool) :
    ∃ d r e δ, Root (hashMerklePair doubleSha256) d (xs ++ [promote doubleSha256 (k - h) node]) r (m || δ) ∧
      spineCarry doubleSha256 k s (some (node, h)) acc = (some (r, e), acc || δ) := by
  induction hs generalizing k h node acc with
  | nil => exact absurd rfl hx
  | @clear rest xs m he hs ih =>
    obtain ⟨d, r, e, δ, hr, hc⟩ := ih (parents_ne_nil _ hx) (k + 1) h (by omega) node acc
    refine ⟨d + 1, r, e, δ, ?_, by simpa [spineCarry] using hc⟩
    have hlen : 0 < xs.length := length_pos_iff.mpr hx
    have hparents : parents (hashMerklePair doubleSha256) (xs ++ [promote doubleSha256 (k - h) node]) =
        parents (hashMerklePair doubleSha256) xs ++ [promote doubleSha256 (k + 1 - h) node] := by
      rw [parents_append _ _ _ he, show k + 1 - h = k - h + 1 by omega, promote_succ]
      rfl
    have hstep := Root.step (by simp; omega) (hparents ▸ hr)
    rw [twin_append _ _ he] at hstep
    simpa [twin, Bool.or_assoc] using hstep
  | @set rest xs m a he hs ih =>
    let right := promote doubleSha256 (k - h) node
    have htwin : twin (xs ++ [a] ++ [right]) = (twin xs || a == right) := by
      rw [append_assoc, twin_append _ _ he]
      simp [twin]
    have hparents : parents (hashMerklePair doubleSha256) (xs ++ [a] ++ [right]) =
        parents (hashMerklePair doubleSha256) xs ++ [hashMerklePair doubleSha256 a right] := by
      rw [append_assoc, parents_append _ _ _ he]
      rfl
    have hlen : 2 ≤ (xs ++ [a] ++ [right]).length := by simp
    by_cases h0 : xs = []
    · subst h0
      obtain ⟨rfl, hc⟩ := hs.carry_nil rfl (k + 1)
        (some (hashMerklePair doubleSha256 a right, k + 1)) (acc || a == right)
      have hstep := Root.step hlen
        (Root.single (hashMerklePair doubleSha256 a right))
      refine ⟨1, _, k + 1, a == right, ?_, by simpa [spineCarry] using hc⟩
      simpa [twin] using hstep
    · obtain ⟨d, r, e, δ, hr, hc⟩ := ih (parents_ne_nil _ h0) (k + 1) (k + 1) (le_refl _)
        (hashMerklePair doubleSha256 a right) (acc || a == right)
      rw [Nat.sub_self] at hr
      have hstep := Root.step hlen (hparents ▸ hr)
      refine ⟨d + 1, r, e, a == right || δ, ?_, ?_⟩
      · convert hstep using 1
        rw [htwin]
        cases twin xs <;> cases m <;> cases a == right <;> cases δ <;> rfl
      · simpa [spineCarry, Bool.or_assoc] using hc

lemma Spine.carry_none (hx : xs ≠ []) (k : ℕ) (acc : Bool) :
    ∃ d r e δ, Root (hashMerklePair doubleSha256) d xs r (m || δ) ∧
      spineCarry doubleSha256 k s none acc = (some (r, e), acc || δ) := by
  induction hs generalizing k acc with
  | nil => exact absurd rfl hx
  | @clear rest xs m he hs ih =>
    have hlen : 0 < xs.length := length_pos_iff.mpr hx
    obtain ⟨d, r, e, δ, hr, hc⟩ := ih (parents_ne_nil _ hx) (k + 1) acc
    refine ⟨d + 1, r, e, δ, ?_, by simpa [spineCarry] using hc⟩
    simpa [Bool.or_assoc] using Root.step (by omega) hr
  | @set rest xs m a he hs ih =>
    by_cases h0 : xs = []
    · subst h0
      obtain ⟨rfl, hc⟩ := hs.carry_nil rfl (k + 1) (some (a, k)) acc
      exact ⟨0, a, k, false, by simpa [twin] using Root.single a, by simpa [spineCarry] using hc⟩
    · have hlen : 0 < xs.length := length_pos_iff.mpr h0
      obtain ⟨d, r, e, δ, hr, hc⟩ := hs.carry_some (parents_ne_nil _ h0) (k + 1) k (by omega) a acc
      refine ⟨d + 1, r, e, δ, ?_, by simpa [spineCarry] using hc⟩
      have hparents : parents (hashMerklePair doubleSha256) (xs ++ [a]) =
          parents (hashMerklePair doubleSha256) xs ++ [promote doubleSha256 (k + 1 - k) a] := by
        rw [parents_append _ _ _ he, show k + 1 - k = 1 by omega]
        rfl
      have hstep := Root.step (by simp; omega) (hparents ▸ hr)
      rw [twin_append _ _ he] at hstep
      simpa [twin, Bool.or_assoc] using hstep

lemma spinePush_isSome (hx : xs.length + 1 < 2 ^ s.length) (a : Txid) (acc : Bool) :
    ∃ s' acc', spinePush doubleSha256 s a acc = some (s', acc') ∧ s'.length = s.length := by
  induction hs generalizing a acc with
  | nil => simp at hx
  | @clear rest xs m he hs ih => exact ⟨some a :: rest, acc, rfl, rfl⟩
  | @set rest xs m left he hs ih =>
    obtain ⟨s', acc', hp, hl⟩ := ih (by
      simp only [length_parents, length_append, length_cons, length_nil, Nat.pow_succ] at hx ⊢
      omega) (hashMerklePair doubleSha256 left a) (acc || left == a)
    exact ⟨none :: s', acc', by simp [spinePush, hp], by simp [hl]⟩

end

lemma spineFill_isSome (leaves : List Txid) (hs : Spine doubleSha256 s xs m)
    (hx : xs.length + leaves.length < 2 ^ s.length) : (spineFill doubleSha256 leaves s m).isSome := by
  induction leaves generalizing s xs m with
  | nil => rfl
  | cons leaf leaves ih =>
    simp only [length_cons] at hx
    obtain ⟨s', m', hp, hl⟩ := spinePush_isSome hs (by omega) leaf m
    obtain ⟨δ, rfl, hs'⟩ := hs.push hp
    have hrest := ih hs' (by simp only [length_append, length_cons, length_nil, hl]; omega)
    simpa [spineFill, hp] using hrest

lemma merkleRootSpine_root (r : Txid) (m : Bool) (h : merkleRootSpine doubleSha256 txids = some (r, m)) :
    ∃ d, Root (hashMerklePair doubleSha256) d txids r m := by
  rw [merkleRootSpine] at h
  split_ifs at h with he
  obtain ⟨⟨s, m'⟩, hf, hc⟩ := Option.bind_eq_some_iff.mp h
  have hs : Spine doubleSha256 s txids m' := by simpa using (spine_replicate doubleSha256 64).fill hf
  obtain ⟨d, r', e, δ, hr, hcarry⟩ := hs.carry_none (by simpa using he) 0 m'
  simp only [hcarry, Option.some.injEq, Prod.mk.injEq] at hc
  obtain ⟨rfl, rfl⟩ := hc
  exact ⟨d, hr⟩

lemma merkleRootSpine_isSome (hne : txids ≠ []) (hl : txids.length < 2 ^ 64) :
    (merkleRootSpine doubleSha256 txids).isSome := by
  have hfill := spineFill_isSome txids (spine_replicate doubleSha256 64) (by simpa using hl)
  obtain ⟨⟨s, m⟩, hf⟩ := Option.isSome_iff_exists.mp hfill
  have hs : Spine doubleSha256 s txids m := by simpa using (spine_replicate doubleSha256 64).fill hf
  obtain ⟨d, r, e, δ, hr, hcarry⟩ := hs.carry_none hne 0 m
  rw [merkleRootSpine, if_neg (by simpa using hne), hf]
  simp [hcarry]

lemma merkleRootAndMutation_root (hne : txids ≠ []) :
    ∃ d r m, Root (hashMerklePair doubleSha256) d txids r m ∧
      merkleRootAndMutation doubleSha256 kernel txids = some (r, m) := by
  match txids, hne with
  | [a], _ => exact ⟨0, a, false, .single a, rfl⟩
  | a :: b :: rest, hne =>
    obtain ⟨d, r, m, _, hr, he⟩ := merkleLevels_root doubleSha256 kernel (a :: b :: rest).length
      (a :: b :: rest) false (by omega) hne
    exact ⟨d, r, m, hr, by simpa [merkleRootAndMutation] using he⟩

/-- The spine and the level fold find one root and one flag, and the kernel folds a level as scalar pairing does. -/
theorem merkle_algorithms_agree (hl : txids.length < 2 ^ 64) (batched : Avx2Sha256d64 doubleSha256) (level :
    List Txid) :
    merkleRootSpine doubleSha256 txids = merkleRootAndMutation doubleSha256 kernel txids ∧
      foldParentLevel doubleSha256 (some batched) level = foldParentLevel doubleSha256 none level ∧
      foldParentLevel Sha256d64.doubleSha256 (some avx2) level = foldParentLevel Sha256d64.doubleSha256 none level := by
  refine ⟨?_, by rw [foldParentLevel_eq, foldParentLevel_eq], by rw [foldParentLevel_eq, foldParentLevel_eq]⟩
  by_cases hne : txids = []
  · rw [hne]
    rfl
  · obtain ⟨⟨r, m⟩, hspine⟩ := Option.isSome_iff_exists.mp (merkleRootSpine_isSome txids hne hl)
    obtain ⟨d, hroot⟩ := merkleRootSpine_root txids r m hspine
    obtain ⟨e, r', m', hroot', hlevels⟩ := merkleRootAndMutation_root kernel txids hne
    obtain ⟨rfl, rfl⟩ := hroot.unique hroot'
    rw [hspine, hlevels]

def sampleLeaves : List Txid := (range 17).map fun n => ⟨replicate 32 (UInt8.ofNat n), length_replicate⟩

theorem merkle_algorithms_agree_sample : merkleRootSpine Sha256d64.doubleSha256 sampleLeaves =
    merkleRootAndMutation Sha256d64.doubleSha256 (some avx2) sampleLeaves :=
  (merkle_algorithms_agree (some avx2) sampleLeaves (by decide) avx2 sampleLeaves).1

lemma merkleRootAndMutationBorrowed_root (r : Txid) (m : Bool)
    (h : merkleRootAndMutationBorrowed doubleSha256 kernel txids = some (r, m)) :
    ∃ d, Root (hashMerklePair doubleSha256) d txids r m := by
  rw [merkleRootAndMutationBorrowed] at h
  split_ifs at h with hk
  · have hne : txids ≠ [] := by
      rintro rfl
      simp [avx2MerkleMinLeaves, lanes] at hk
    obtain ⟨d, r', m', hr, he⟩ := merkleRootAndMutation_root kernel txids hne
    rw [he] at h
    obtain ⟨rfl, rfl⟩ := h
    exact ⟨d, hr⟩
  · exact merkleRootSpine_root txids r m h

lemma merkleRootAndMutationBorrowed_isSome (hne : txids ≠ []) (hl : txids.length < 2 ^ 64) :
    (merkleRootAndMutationBorrowed doubleSha256 kernel txids).isSome := by
  rw [merkleRootAndMutationBorrowed]
  split_ifs with hk
  · obtain ⟨d, r, m, _, he⟩ := merkleRootAndMutation_root kernel txids hne
    simp [he]
  · exact merkleRootSpine_isSome txids hne hl

lemma verifyMerkleRootWithTxids_ok (block : Block) (txids : List Txid)
    (h : verifyMerkleRootWithTxids doubleSha256 kernel block txids = .ok ()) :
    ∃ r, merkleRootAndMutationBorrowed doubleSha256 kernel txids = some (r, false) ∧
      block.header.merkleRoot = r := by
  rw [verifyMerkleRootWithTxids] at h
  split at h
  · cases h
  · next r mutated he =>
    split_ifs at h with hroot hm
    exact ⟨r, by simpa [hm] using he, not_not.mp hroot⟩

variable (doubleSha256)

def merklePairs (txids : List Txid) : List (Txid × Txid) :=
  combinedPairs (hashMerklePair doubleSha256) txids.length txids

/-- Injectivity of the pair hash is asked of the pairs the two trees hash, and a txid may differ
from the pair hashes of the two trees only: a 32-byte digest cannot be injective on all pairs. -/
theorem mutation_flagged_of_equal_roots (kernel : Option (Avx2Sha256d64 doubleSha256))
    (xs ys : List Txid) (hne : xs ≠ ys)
    (hinj : SeparatesOn (hashMerklePair doubleSha256)
      (merklePairs doubleSha256 xs ++ merklePairs doubleSha256 ys))
    (hleaf : ∀ t ∈ xs ++ ys, ∀ p ∈ merklePairs doubleSha256 xs ++ merklePairs doubleSha256 ys,
      t ≠ hashMerklePair doubleSha256 p.1 p.2) :
    (xs ≠ [] → xs.length < 2 ^ 64 → (merkleRootAndMutationBorrowed doubleSha256 kernel xs).isSome) ∧
    (∀ r m m', merkleRootAndMutationBorrowed doubleSha256 kernel xs = some (r, m) →
      merkleRootAndMutationBorrowed doubleSha256 kernel ys = some (r, m') → m = true ∨ m' = true) ∧
    (∀ b b' : Block, b.header = b'.header →
      verifyMerkleRootWithTxids doubleSha256 kernel b xs = .ok () →
      verifyMerkleRootWithTxids doubleSha256 kernel b' ys ≠ .ok ()) := by
  have hflag (r : Txid) (m m' : Bool)
      (hx : merkleRootAndMutationBorrowed doubleSha256 kernel xs = some (r, m))
      (hy : merkleRootAndMutationBorrowed doubleSha256 kernel ys = some (r, m')) :
      m = true ∨ m' = true := by
    obtain ⟨d, hd⟩ := merkleRootAndMutationBorrowed_root kernel xs r m hx
    obtain ⟨e, he⟩ := merkleRootAndMutationBorrowed_root kernel ys r m' hy
    exact hd.twin_of_ne he hd.depth_lt.le he.depth_lt.le hinj hleaf hne
  refine ⟨merkleRootAndMutationBorrowed_isSome kernel xs, hflag, ?_⟩
  intro b b' hb hx hy
  obtain ⟨r, hrx, hr⟩ := verifyMerkleRootWithTxids_ok kernel b xs hx
  obtain ⟨r', hry, hr'⟩ := verifyMerkleRootWithTxids_ok kernel b' ys hy
  rw [hb, hr'] at hr
  subst hr
  simpa using hflag _ _ _ hrx hry

def sampleHash (message : Bytes) : Hash256 :=
  ⟨(0xff :: message.take 15 ++ (message.drop 32).take 16 ++ replicate 32 0).take 32, by simp; omega⟩

def sampleBlock : Block :=
  ⟨⟨1, .zero, (merkleRootSpine sampleHash (sampleLeaves.take 3)).elim .zero Prod.fst, 0, 0, 0⟩, []⟩

theorem mutation_flagged_sample :
    verifyMerkleRootWithTxids sampleHash none sampleBlock (sampleLeaves.take 3) = .ok () ∧
      verifyMerkleRootWithTxids sampleHash none sampleBlock (sampleLeaves.take 3 ++ [sampleLeaves.getD 2 .zero]) ≠
        .ok () := by
  have hx : verifyMerkleRootWithTxids sampleHash none sampleBlock (sampleLeaves.take 3) = .ok () := by decide +kernel
  refine ⟨hx, (mutation_flagged_of_equal_roots sampleHash none _ _ (by decide +kernel) ?_ ?_).2.2 _ _ rfl hx⟩
  · rw [SeparatesOn]
    decide +kernel
  · decide +kernel

end BitcoinRs.Merkle
