import BitcoinRs.Library.Sha256
import BitcoinRs.Primitives

namespace BitcoinRs.Sha256d64

open List
open Sha256 (State Word readWord wordBytes)

/-- A `__m256i`, as its eight 32-bit lanes. -/
abbrev Lanes := Fin 8 → Word

def initialState : State Word :=
  ⟨0x6a09e667, 0xbb67ae85, 0x3c6ef372, 0xa54ff53a, 0x510e527f, 0x9b05688c, 0x1f83d9ab, 0x5be0cd19⟩

def roundConstants : List Word :=
  [0x428a2f98, 0x71374491, 0xb5c0fbcf, 0xe9b5dba5, 0x3956c25b, 0x59f111f1, 0x923f82a4, 0xab1c5ed5, 0xd807aa98,
   0x12835b01, 0x243185be, 0x550c7dc3, 0x72be5d74, 0x80deb1fe, 0x9bdc06a7, 0xc19bf174, 0xe49b69c1, 0xefbe4786,
   0x0fc19dc6, 0x240ca1cc, 0x2de92c6f, 0x4a7484aa, 0x5cb0a9dc, 0x76f988da, 0x983e5152, 0xa831c66d, 0xb00327c8,
   0xbf597fc7, 0xc6e00bf3, 0xd5a79147, 0x06ca6351, 0x14292967, 0x27b70a85, 0x2e1b2138, 0x4d2c6dfc, 0x53380d13,
   0x650a7354, 0x766a0abb, 0x81c2c92e, 0x92722c85, 0xa2bfe8a1, 0xa81a664b, 0xc24b8b70, 0xc76c51a3, 0xd192e819,
   0xd6990624, 0xf40e3585, 0x106aa070, 0x19a4c116, 0x1e376c08, 0x2748774c, 0x34b0bcb5, 0x391c0cb3, 0x4ed8aa4a,
   0x5b9cca4f, 0x682e6ff3, 0x748f82ee, 0x78a5636f, 0x84c87814, 0x8cc70208, 0x90befffa, 0xa4506ceb, 0xbef9a3f7,
   0xc67178f2]

def set1 (word : Word) : Lanes := fun _ => word

variable (x y : Lanes)

def xor : Lanes := fun lane => x lane ^^^ y lane

def and : Lanes := fun lane => x lane &&& y lane

def or : Lanes := fun lane => x lane ||| y lane

def srli (n : ℕ) (x : Lanes) : Lanes := fun lane => x lane >>> n

def slli (n : ℕ) (x : Lanes) : Lanes := fun lane => x lane <<< n

def add2 (a b : Lanes) : Lanes := fun lane => a lane + b lane

def add4 (a b c d : Lanes) : Lanes := add2 (add2 a b) (add2 c d)

def add5 (first second third fourth fifth : Lanes) : Lanes := add2 (add4 first second third fourth) fifth

variable (z : Lanes)

def choose : Lanes := xor z (and x (xor y z))

def majority : Lanes := or (and x y) (and z (or x y))

def bigSigma0 : Lanes := xor (xor (or (srli 2 x) (slli 30 x)) (or (srli 13 x) (slli 19 x))) (or (srli 22 x) (slli 10 x))

def bigSigma1 : Lanes := xor (xor (or (srli 6 x) (slli 26 x)) (or (srli 11 x) (slli 21 x))) (or (srli 25 x) (slli 7 x))

def smallSigma0 : Lanes := xor (xor (or (srli 7 x) (slli 25 x)) (or (srli 18 x) (slli 14 x))) (srli 3 x)

def smallSigma1 : Lanes := xor (xor (or (srli 17 x) (slli 15 x)) (or (srli 19 x) (slli 13 x))) (srli 10 x)

def extend (schedule : List Lanes) (index : ℕ) : List Lanes :=
  schedule ++ [add4 (smallSigma1 (schedule.getD (index - 2) (set1 0))) (schedule.getD (index - 7) (set1 0))
    (smallSigma0 (schedule.getD (index - 15) (set1 0))) (schedule.getD (index - 16) (set1 0))]

def round (schedule : List Lanes) (s : State Lanes) (index : ℕ) : State Lanes :=
  let round1 := add5 s.h (bigSigma1 s.e) (choose s.e s.f s.g) (set1 (roundConstants.getD index 0))
    (schedule.getD index (set1 0))
  let round2 := add2 (bigSigma0 s.a) (majority s.a s.b s.c)
  ⟨add2 round1 round2, s.a, s.b, s.c, add2 s.d round1, s.e, s.f, s.g⟩

def compress (state : State Lanes) (block : List Lanes) : State Lanes :=
  state.zipWith add2 ((range 64).foldl (round ((range' 16 48).foldl extend block)) state)

variable (input : List Bytes)

def firstState : State Lanes :=
  let firstBlock : List Lanes := (range 16).map fun word lane => readWord (input.getD lane []) (word * 4)
  compress (compress (initialState.map set1) firstBlock) (set1 0x80000000 :: replicate 14 (set1 0) ++ [set1 512])

def secondState (state : State Lanes) : State Lanes :=
  compress (initialState.map set1) (state.words ++ set1 0x80000000 :: replicate 6 (set1 0) ++ [set1 256])

def transform8way : List Hash256 :=
  let state := secondState (firstState input)
  (finRange 8).map fun lane => ⟨state.words.flatMap fun value => wordBytes (value lane), rfl⟩

def doubleSha256 (message : Bytes) : Hash256 := ⟨Sha256.sha256 (Sha256.sha256 message), Sha256.length_digest _⟩

lemma initialState_eq : initialState = Sha256.initial := by decide +kernel

lemma roundConstants_eq : roundConstants = Sha256.roundConstants := by decide +kernel

variable (lane : Fin 8)

lemma choose_lane : choose x y z lane = Sha256.ch (x lane) (y lane) (z lane) := by
  ext i
  simp only [choose, xor, and, Sha256.ch, BitVec.getElem_xor, BitVec.getElem_and, BitVec.getElem_not]
  cases (x lane)[i] <;> cases (y lane)[i] <;> simp

lemma majority_lane : majority x y z lane = Sha256.maj (x lane) (y lane) (z lane) := by
  ext i
  simp only [majority, or, and, Sha256.maj, BitVec.getElem_xor, BitVec.getElem_and, BitVec.getElem_or]
  cases (x lane)[i] <;> cases (y lane)[i] <;> simp

lemma getD_lane (xs : List Lanes) (index : ℕ) : (xs.map (· lane)).getD index 0 = xs.getD index (set1 0) lane := by
  rw [getD_eq_getElem?_getD, getD_eq_getElem?_getD, getElem?_map]
  cases xs[index]? <;> rfl

lemma extend_lane (schedule : List Lanes) (index : ℕ) :
    Sha256.extend (schedule.map (· lane)) index = (extend schedule index).map (· lane) := by
  simp only [Sha256.extend, extend, getD_lane, map_append, map_cons, map_nil, add4, add2, BitVec.add_assoc]
  rfl

lemma round_lane (schedule : List Lanes) (s : State Lanes) (index : ℕ) :
    Sha256.round (schedule.map (· lane)) (s.map (· lane)) index = (round schedule s index).map (· lane) := by
  simp only [Sha256.round, round, State.map, getD_lane, ← roundConstants_eq, add5, add4, add2, choose_lane,
    majority_lane, BitVec.add_assoc]
  rfl

lemma compress_lane (state : State Lanes) (block : List Lanes) :
    (compress state block).map (· lane) = Sha256.compress (state.map (· lane)) (block.map (· lane)) := by
  rw [Sha256.compress, Sha256.schedule, foldl_hom (map fun x : Lanes => x lane) (extend_lane lane),
    foldl_hom (State.map fun x : Lanes => x lane) (round_lane lane _)]
  rfl

lemma firstState_lane {input : List Bytes} (h : (input.getD lane []).length = 64) :
    Sha256.digest ((firstState input).map (· lane)) = Sha256.sha256 (input.getD lane []) := by
  rw [Sha256.sha256_of_block h, firstState, compress_lane, compress_lane, ← initialState_eq, map_map]
  rfl

lemma secondState_lane (state : State Lanes) :
    Sha256.digest ((secondState state).map (· lane)) = Sha256.sha256 (Sha256.digest (state.map (· lane))) := by
  rw [Sha256.sha256_digest, secondState, compress_lane, ← initialState_eq]
  rfl

/-- Each lane of the kernel is the double SHA-256 of its message. -/
lemma transform8way_eq (hcount : input.length = 8) (hsize : ∀ message ∈ input, message.length = 64) :
    transform8way input = input.map doubleSha256 := by
  refine ext_getElem (by simp [transform8way, hcount]) fun index _ hright => Hash256.ext ?_
  have hindex : index < input.length := by simpa using hright
  let lane : Fin 8 := ⟨index, hindex.trans_eq hcount⟩
  have hmessage : input.getD lane [] = input[index] := by simp [lane, hindex]
  have hfirst := firstState_lane lane (hmessage ▸ hsize _ (getElem_mem hindex))
  have hlane := secondState_lane lane (firstState input)
  rw [hfirst, hmessage] at hlane
  simp only [transform8way, doubleSha256, getElem_map, getElem_finRange]
  exact hlane

end BitcoinRs.Sha256d64
