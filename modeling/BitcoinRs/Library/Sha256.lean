import BitcoinRs.Library.Bytes

/-!
SHA-256 as the standard, FIPS 180-4, defines it.
-/

namespace Sha256

open List
open LittleEndian (decode encode)

abbrev Word := BitVec 32

structure State (α : Type) where
  (a b c d e f g h : α)
  deriving DecidableEq

namespace State

variable {α β γ : Type}

def words (s : State α) : List α := [s.a, s.b, s.c, s.d, s.e, s.f, s.g, s.h]

def map (k : α → β) (s : State α) : State β := ⟨k s.a, k s.b, k s.c, k s.d, k s.e, k s.f, k s.g, k s.h⟩

def zipWith (k : α → β → γ) (s : State α) (t : State β) : State γ :=
  ⟨k s.a t.a, k s.b t.b, k s.c t.c, k s.d t.d, k s.e t.e, k s.f t.f, k s.g t.g, k s.h t.h⟩

end State

def ch (x y z : Word) : Word := (x &&& y) ^^^ (~~~x &&& z)

def maj (x y z : Word) : Word := (x &&& y) ^^^ (x &&& z) ^^^ (y &&& z)

variable (x : Word)

def bigSigma0 : Word := x.rotateRight 2 ^^^ x.rotateRight 13 ^^^ x.rotateRight 22

def bigSigma1 : Word := x.rotateRight 6 ^^^ x.rotateRight 11 ^^^ x.rotateRight 25

def smallSigma0 : Word := x.rotateRight 7 ^^^ x.rotateRight 18 ^^^ x >>> 3

def smallSigma1 : Word := x.rotateRight 17 ^^^ x.rotateRight 19 ^^^ x >>> 10

/-- The first 32 bits of the fraction of the `k`-th root of `n`, found bit by bit. -/
def rootBits (k n : ℕ) : Word :=
  BitVec.ofNat 32 ((range 40).reverse.foldl
    (fun r i => if (r + 2 ^ i) ^ k ≤ n * 2 ^ (32 * k) then r + 2 ^ i else r) 0)

def primes : List ℕ := (range' 2 310).filter fun n => (range' 2 (n - 2)).all fun d => n % d ≠ 0

def initial : State Word :=
  ⟨rootBits 2 2, rootBits 2 3, rootBits 2 5, rootBits 2 7, rootBits 2 11, rootBits 2 13, rootBits 2 17, rootBits 2 19⟩

def roundConstants : List Word := primes.map (rootBits 3)

def extend (w : List Word) (t : ℕ) : List Word :=
  w ++ [smallSigma1 (w.getD (t - 2) 0) + w.getD (t - 7) 0 + smallSigma0 (w.getD (t - 15) 0) + w.getD (t - 16) 0]

def schedule (block : List Word) : List Word := (range' 16 48).foldl extend block

def round (w : List Word) (s : State Word) (t : ℕ) : State Word :=
  let t1 := s.h + bigSigma1 s.e + ch s.e s.f s.g + roundConstants.getD t 0 + w.getD t 0
  let t2 := bigSigma0 s.a + maj s.a s.b s.c
  ⟨t1 + t2, s.a, s.b, s.c, s.d + t1, s.e, s.f, s.g⟩

variable (s : State Word)

def compress (block : List Word) : State Word := s.zipWith (· + ·) ((range 64).foldl (round (schedule block)) s)

def readWord (bytes : List UInt8) (offset : ℕ) : Word := BitVec.ofNat 32 (decode ((bytes.drop offset).take 4).reverse)

def wordBytes (w : Word) : List UInt8 := (encode 4 w.toNat).reverse

def blockWords (bytes : List UInt8) : List Word := (range 16).map fun word => readWord bytes (word * 4)

/-- The message, a one bit, zeros up to the last eight bytes of a block, and there the number of bits. -/
def pad (message : List UInt8) : List UInt8 :=
  message ++ (0x80 :: replicate ((119 - message.length % 64) % 64) 0 ++
    (encode 8 (8 * message.length)).reverse)

def compressBlocks : ℕ → State Word → List UInt8 → State Word
  | 0, s, _ => s
  | n + 1, s, bytes => compressBlocks n (compress s (blockWords bytes)) (bytes.drop 64)

def digest : List UInt8 := s.words.flatMap wordBytes

def sha256 (message : List UInt8) : List UInt8 :=
  digest (compressBlocks ((pad message).length / 64) initial (pad message))

example : decode (sha256 [0x61, 0x62, 0x63]).reverse =
    0xba7816bf8f01cfea414140de5dae2223b00361a396177a9cb410ff61f20015ad := by decide +kernel

lemma length_digest : (digest s).length = 32 := rfl

lemma length_wordBytes (w : Word) : (wordBytes w).length = 4 := rfl

lemma blockWords_flatMap {ws : List Word} (h : ws.length = 16) : blockWords (ws.flatMap wordBytes) = ws := by
  refine ext_getElem (by simp [blockWords, h]) fun i _ hi => ?_
  simp only [blockWords, getElem_map, getElem_range]
  rw [readWord, ByteTable.drop_flatMap_fixed _ 4 length_wordBytes, drop_eq_getElem_cons hi, flatMap_cons,
    take_left' (length_wordBytes _), wordBytes, reverse_reverse,
    LittleEndian.decode_encode _ _ (BitVec.isLt _), BitVec.ofNat_toNat, BitVec.setWidth_eq]

lemma blockWords_append {block rest : List UInt8} (h : block.length = 64) :
    blockWords (block ++ rest) = blockWords block := by
  refine map_congr_left fun word hword => ?_
  have hlt := mem_range.mp hword
  rw [readWord, drop_append_of_le_length (by omega), take_append_of_le_length (by rw [length_drop]; omega), readWord]

lemma sha256_of_block {message : List UInt8} (h : message.length = 64) :
    sha256 message = digest (compress (compress initial (blockWords message))
      (0x80000000 :: replicate 14 0 ++ [512])) := by
  have hpad : pad message = message ++ (0x80 :: replicate 55 0 ++ (encode 8 512).reverse) := by
    rw [pad, h]
  have hlength : (pad message).length / 64 = 2 := by
    rw [hpad, length_append, h]
    rfl
  rw [sha256, hlength, compressBlocks, compressBlocks, compressBlocks, hpad, blockWords_append h, drop_left' h]
  rfl

lemma sha256_digest :
    sha256 (digest s) = digest (compress initial (s.words ++ 0x80000000 :: replicate 6 0 ++ [256])) := by
  have hpad : pad (digest s) = (s.words ++ (0x80000000 :: replicate 6 0 ++ [256])).flatMap wordBytes := by
    rw [flatMap_append, pad, length_digest]
    rfl
  have hlength : (pad (digest s)).length / 64 = 1 := by
    rw [pad, length_append, length_digest]
    rfl
  rw [sha256, hlength, compressBlocks, compressBlocks, hpad, blockWords_flatMap rfl, append_assoc]

end Sha256
