import BitcoinRs.Utxo.CoreSnapshot

namespace BitcoinRs.Utxo

open Fallible List Msb128 Nat
open UInt8 (ofNat)
open Option (bind_some getD_some)

variable {value : ℕ}

section

lemma coreVarintLoop_marked {fuel value : ℕ} (h : value < 128 ^ (fuel + 1)) (byte : UInt8) (buf : Bytes) :
    coreVarintLoop (fuel + 1) value (byte :: buf) = Msb128.marked value ++ byte :: buf := by
  induction fuel generalizing value byte buf with
  | zero =>
    rw [coreVarintLoop, if_pos (by omega), marked_of_lt (by omega), mod_eq_of_lt (by omega)]
    rfl
  | succ fuel ih =>
    rw [coreVarintLoop]
    by_cases hv : value ≤ 0x7f
    · rw [if_pos hv, marked_of_lt (by omega), mod_eq_of_lt (by omega)]
      rfl
    · have hq : value / 128 - 1 < 128 ^ (fuel + 1) := by
        omega
      have hv' : 128 ≤ value := Nat.lt_of_not_le hv
      rw [if_neg hv, ih hq, marked_of_le hv', append_assoc]
      rfl

lemma writeCoreVarint_eq (h : value < 2 ^ 64) : writeCoreVarint value = Msb128.encode value := by
  rw [writeCoreVarint, coreVarintLoop]
  by_cases hv : value ≤ 0x7f
  · rw [if_pos hv, encode_of_lt (by omega), mod_eq_of_lt (by omega)]
    rfl
  · rw [if_neg hv, coreVarintLoop_marked (by omega), encode_of_le (by omega)]
    rfl

lemma length_writeCoreVarint (h : value < 2 ^ 64) : (writeCoreVarint value).length ≤ 10 := by
  rw [writeCoreVarint_eq h]
  exact length_encode_le (by omega)

end

namespace CoreSnapshot

def Takes {α : Type} (budget : ℕ) (p : Decode α) (bytes : Bytes) (cost : ℕ) (a : α) : Prop :=
  ∀ (rest : Bytes) (consumed maxBytes spent : ℕ), consumed + bytes.length ≤ maxBytes → maxBytes < 2 ^ 64 →
    spent + cost ≤ budget → budget < 2 ^ 64 →
    p ⟨bytes ++ rest, consumed, maxBytes, spent⟩ =
      .ok (a, ⟨rest, consumed + bytes.length, maxBytes, spent + cost⟩)

namespace Takes

variable {α β : Type} {budget : ℕ} {p : Decode α} {f : α → Decode β} {xs ys : Bytes} {m n : ℕ} {a : α} {b : β}

lemma pure (a : α) : Takes budget (pure a) [] 0 a := fun _ _ _ _ _ _ _ _ => rfl

lemma bind (hp : Takes budget p xs m a) (hf : Takes budget (f a) ys n b) :
    Takes budget (p >>= f) (xs ++ ys) (m + n) b := by
  intro rest consumed maxBytes spent hlimit hmax hbudget hsmall
  rw [length_append] at hlimit ⊢
  have hfirst := hp (ys ++ rest) consumed maxBytes spent (by omega) hmax (by omega) hsmall
  have hsecond := hf rest (consumed + xs.length) maxBytes (spent + m) (by omega) hmax (by omega) hsmall
  rw [append_assoc, ← add_assoc, ← add_assoc, ← hsecond]
  change (p _ >>= fun (x, s) => f x s) = _
  rw [hfirst]
  rfl

lemma map (hp : Takes budget p xs m a) (g : α → β) : Takes budget (p >>= fun x => Pure.pure (g x)) xs m (g a) := by
  have h := hp.bind (f := fun x => (Pure.pure (g x) : Decode β)) (Takes.pure (g a))
  rwa [append_nil] at h

lemma bind_of_eq (hp : p = Pure.pure a) (hf : Takes budget (f a) xs m b) : Takes budget (p >>= f) xs m b := by
  rw [hp]
  exact hf

end Takes

section

variable {budget : ℕ} {bytes : Bytes}

lemma takes_readInto {n : ℕ} (h : bytes.length = n) : Takes budget (readInto n) bytes 0 bytes := by
  intro rest consumed maxBytes spent hlimit hmax _ _
  have hshort : ¬ (bytes ++ rest).length < n := by
    rw [length_append]
    omega
  rw [readInto]
  dsimp only
  rw [if_neg (by omega), checkLimit, if_neg (by omega), if_neg hshort, take_left' h, drop_left' h, h]
  rfl

lemma takes_readByte (byte : UInt8) : Takes budget readByte [byte] 0 byte :=
  (takes_readInto (rfl : [byte].length = 1)).map _

lemma compactSize_encode (h : value < 2 ^ 64) :
    ∃ first rest, Varint.encode value = first :: rest ∧ rest.length = compactSizeLen first - 1 := by
  rw [Varint.encode]
  split_ifs with h1 h2 h3
  · refine ⟨ofNat (value % 256), [], rfl, ?_⟩
    have hfirst : (ofNat (value % 256)).toNat = value := by
      rw [UInt8.toNat_ofNat']
      omega
    have hne (byte : UInt8) (hbyte : 0xfc < byte.toNat) : ofNat (value % 256) ≠ byte := by
      intro he
      rw [← he] at hbyte
      omega
    rw [compactSizeLen, if_neg (hne _ (by decide)), if_neg (hne _ (by decide)), if_neg (hne _ (by decide))]
    rfl
  · exact ⟨0xfd, _, rfl, LittleEndian.length_encode 2 value⟩
  · exact ⟨0xfe, _, rfl, LittleEndian.length_encode 4 value⟩
  · exact ⟨0xff, _, rfl, LittleEndian.length_encode 8 value⟩

lemma takes_compactSize (h : value ≤ maxCompactSize) : Takes budget compactSize (Varint.encode value) 0 value := by
  have hvalue : value < 2 ^ 64 := lt_of_le_of_lt h (by decide)
  obtain ⟨first, rest, hencode, hrest⟩ := compactSize_encode hvalue
  have hdecode := Varint.decode_encode value [] hvalue
  rw [append_nil] at hdecode
  have hbytes : Takes budget compactSize ([first] ++ (rest ++ [])) (0 + (0 + 0)) value := by
    refine (takes_readByte first).bind ((takes_readInto hrest).bind ?_)
    rw [← hencode, hdecode]
    dsimp only
    rw [if_neg (not_lt.mpr h)]
    exact Takes.pure value
  rwa [append_nil, singleton_append, ← hencode] at hbytes

lemma takes_marked {maximum v fuel : ℕ} (hmax : maximum < 2 ^ 64) (hv : v + 1 ≤ maximum)
    {result : ℕ} (h : Takes budget (coreVarintLoopRead maximum fuel (v + 1)) bytes 0 result) :
    Takes budget (coreVarintLoopRead maximum ((Msb128.marked v).length + fuel) 0) (Msb128.marked v ++ bytes) 0
      result := by
  induction v using Nat.strongRecOn generalizing fuel bytes with
  | ind v ih =>
    have hstep (value digit : ℕ) (hdigit : digit < 128) (hvalue : value * 128 + digit = v) :
        Takes budget (coreVarintLoopRead maximum (fuel + 1) value) ([ofNat (digit + 128)] ++ bytes) 0 result := by
      have hbyte : (ofNat (digit + 128)).toNat = digit + 128 := mod_eq_of_lt (by omega)
      have hmod : (digit + 128) % 128 = digit := by omega
      have hmul : checkedMul value 128 = some (value * 128) := if_pos (by omega)
      have hadd : checkedAdd (value * 128) digit = some v := by rw [checkedAdd, if_pos (by omega), hvalue]
      have hsucc : checkedAdd v 1 = some (v + 1) := if_pos (by omega)
      refine Takes.bind (n := 0) (takes_readByte _) ?_
      rw [hbyte, hmod, hmul, bind_some, hadd]
      dsimp only
      rw [if_neg (by omega), hsucc]
      dsimp only
      rwa [if_neg (by omega)]
    by_cases hsmall : v < 128
    · rw [marked_of_lt hsmall, add_comm]
      exact hstep 0 v hsmall (by omega)
    · rw [marked_of_le (not_lt.mp hsmall), length_append, append_assoc, add_assoc, length_singleton, add_comm 1]
      refine ih (v / 128 - 1) (by omega) (by omega) ?_
      rw [show v / 128 - 1 + 1 = v / 128 by omega]
      exact hstep (v / 128) (v % 128) (mod_lt _ (by decide)) (by omega)

lemma takes_coreVarint {maximum v : ℕ} (hmax : maximum < 2 ^ 64) (hv : v ≤ maximum) :
    Takes budget (coreVarint maximum) (writeCoreVarint v) 0 v := by
  have hlast (fuel value digit : ℕ) (hdigit : digit < 128) (hvalue : value * 128 + digit = v) :
      Takes budget (coreVarintLoopRead maximum (fuel + 1) value) [ofNat digit] 0 v := by
    have hbyte : (ofNat digit).toNat = digit := mod_eq_of_lt (by omega)
    have hmul : checkedMul value 128 = some (value * 128) := if_pos (by omega)
    have hadd : checkedAdd (value * 128) digit = some v := by rw [checkedAdd, if_pos (by omega), hvalue]
    refine Takes.bind (n := 0) (takes_readByte _) ?_
    rw [hbyte, mod_eq_of_lt hdigit, hmul, bind_some, hadd]
    dsimp only
    rw [if_pos hdigit, if_pos hv]
    exact Takes.pure v
  rw [writeCoreVarint_eq (by omega), coreVarint]
  by_cases hsmall : v < 128
  · rw [encode_of_lt hsmall]
    exact hlast 9 0 v hsmall (by omega)
  · have hlen : (marked (v / 128 - 1)).length ≤ 9 := length_marked_le (by omega)
    obtain ⟨fuel, hfuel⟩ : ∃ fuel, 10 = (marked (v / 128 - 1)).length + (fuel + 1) :=
      ⟨9 - (marked (v / 128 - 1)).length, by omega⟩
    rw [encode_of_le (not_lt.mp hsmall), hfuel]
    refine takes_marked hmax (by omega) ?_
    rw [show v / 128 - 1 + 1 = v / 128 by omega]
    exact hlast fuel (v / 128) (v % 128) (mod_lt _ (by decide)) (by omega)

end

section

variable (secp : Secp)

def DecompressInverse : Prop :=
  ∀ x y : Bytes, x.length = 32 → y.length = 32 → (secp.fromSlice (0x04 :: (x ++ y))).isSome →
    ∃ point, secp.fromSlice (ofNat (2 + (y.getD 31 0).toNat % 2) :: x) = some point ∧
      secp.serializeUncompressed point = 0x04 :: (x ++ y)

lemma drop_eq_cons {xs : Bytes} {n : ℕ} {y : UInt8} (h : xs[n]? = some y) : xs.drop n = y :: xs.drop (n + 1) := by
  obtain ⟨hn, rfl⟩ := List.getElem?_eq_some_iff.mp h
  exact drop_eq_getElem_cons hn

lemma drop_split (xs : Bytes) (n k : ℕ) : xs.drop n = (xs.drop n).take k ++ xs.drop (n + k) := by
  rw [← drop_drop, take_append_drop]

lemma length_slice {xs : Bytes} {n k : ℕ} (h : n + k ≤ xs.length) : ((xs.drop n).take k).length = k := by
  rw [length_take, length_drop]
  omega

variable {script : Script}

lemma isP2pkh_eq (h : isP2pkh script = true) :
    script.length = 25 ∧ script = [0x76, 0xa9, 0x14] ++ ((script.drop 3).take 20 ++ [0x88, 0xac]) := by
  simp only [isP2pkh, Bool.and_eq_true, beq_iff_eq] at h
  obtain ⟨⟨⟨⟨⟨hlen, h0⟩, h1⟩, h2⟩, h23⟩, h24⟩ := h
  refine ⟨hlen, ?_⟩
  have hend : script.drop 25 = [] := drop_eq_nil_of_le (by omega)
  calc script = script.drop 0 := rfl
    _ = 0x76 :: 0xa9 :: 0x14 :: script.drop 3 := by rw [drop_eq_cons h0, drop_eq_cons h1, drop_eq_cons h2]
    _ = 0x76 :: 0xa9 :: 0x14 :: ((script.drop 3).take 20 ++ script.drop 23) := by rw [← drop_split script 3 20]
    _ = _ := by rw [drop_eq_cons h23, drop_eq_cons h24, hend]; rfl

lemma isP2sh_eq (h : isP2sh script = true) :
    script.length = 23 ∧ script = [0xa9, 0x14] ++ ((script.drop 2).take 20 ++ [0x87]) := by
  simp only [isP2sh, Bool.and_eq_true, beq_iff_eq] at h
  obtain ⟨⟨⟨hlen, h0⟩, h1⟩, h22⟩ := h
  refine ⟨hlen, ?_⟩
  have hend : script.drop 23 = [] := drop_eq_nil_of_le (by omega)
  calc script = script.drop 0 := rfl
    _ = 0xa9 :: 0x14 :: script.drop 2 := by rw [drop_eq_cons h0, drop_eq_cons h1]
    _ = 0xa9 :: 0x14 :: ((script.drop 2).take 20 ++ script.drop 22) := by rw [← drop_split script 2 20]
    _ = _ := by rw [drop_eq_cons h22, hend]; rfl

lemma isCompressedP2pk_eq (h : isCompressedP2pk script = true) :
    script.length = 35 ∧ (script.getD 1 0 = 0x02 ∨ script.getD 1 0 = 0x03) ∧
      script = [0x21, script.getD 1 0] ++ ((script.drop 2).take 32 ++ [0xac]) := by
  simp only [isCompressedP2pk, Bool.and_eq_true, Bool.or_eq_true, beq_iff_eq] at h
  obtain ⟨⟨⟨hlen, h0⟩, hkey⟩, h34⟩ := h
  have hend : script.drop 35 = [] := drop_eq_nil_of_le (by omega)
  have hbody (byte : UInt8) (h1 : script[1]? = some byte) :
      script = [0x21, byte] ++ ((script.drop 2).take 32 ++ [0xac]) :=
    calc script = script.drop 0 := rfl
      _ = 0x21 :: byte :: script.drop 2 := by rw [drop_eq_cons h0, drop_eq_cons h1]
      _ = 0x21 :: byte :: ((script.drop 2).take 32 ++ script.drop 34) := by rw [← drop_split script 2 32]
      _ = _ := by rw [drop_eq_cons h34, hend]; rfl
  rcases hkey with h1 | h1
  · have hget : script.getD 1 0 = 0x02 := by rw [getD_eq_getElem?_getD, h1, getD_some]
    rw [hget]
    exact ⟨hlen, .inl rfl, hbody _ h1⟩
  · have hget : script.getD 1 0 = 0x03 := by rw [getD_eq_getElem?_getD, h1, getD_some]
    rw [hget]
    exact ⟨hlen, .inr rfl, hbody _ h1⟩

lemma isUncompressedP2pk_eq {secp : Secp} (h : isUncompressedP2pk secp script = true) :
    ∃ x y : Bytes, x.length = 32 ∧ y.length = 32 ∧ (secp.fromSlice (0x04 :: (x ++ y))).isSome ∧
      (script.drop 2).take 32 = x ∧ script.getD 65 0 = y.getD 31 0 ∧ script.length = 67 ∧
      script = [0x41] ++ ((0x04 :: (x ++ y)) ++ [0xac]) := by
  simp only [isUncompressedP2pk, Bool.and_eq_true, beq_iff_eq] at h
  obtain ⟨⟨⟨⟨hlen, h0⟩, h1⟩, h66⟩, hparse⟩ := h
  have hx : ((script.drop 2).take 32).length = 32 := length_slice (by omega)
  have hy : ((script.drop 34).take 32).length = 32 := length_slice (by omega)
  have hend : script.drop 67 = [] := drop_eq_nil_of_le (by omega)
  have hkey : script.drop 1 = (0x04 :: ((script.drop 2).take 32 ++ (script.drop 34).take 32)) ++ [0xac] :=
    calc script.drop 1 = 0x04 :: script.drop 2 := drop_eq_cons h1
      _ = 0x04 :: ((script.drop 2).take 32 ++ script.drop 34) := by rw [← drop_split script 2 32]
      _ = 0x04 :: ((script.drop 2).take 32 ++ ((script.drop 34).take 32 ++ script.drop 66)) := by
        rw [← drop_split script 34 32]
      _ = _ := by rw [drop_eq_cons h66, hend, cons_append, append_assoc]
  have htake : (script.drop 1).take 65 = 0x04 :: ((script.drop 2).take 32 ++ (script.drop 34).take 32) := by
    rw [hkey]
    exact take_left' (by rw [length_cons, length_append, hx, hy])
  refine ⟨_, _, hx, hy, by rwa [← htake], rfl, ?_, hlen, ?_⟩
  · rw [getD_eq_getElem?_getD, getD_eq_getElem?_getD, getElem?_take_of_lt (by decide), getElem?_drop]
  · calc script = script.drop 0 := rfl
      _ = 0x41 :: script.drop 1 := drop_eq_cons h0
      _ = _ := by rw [hkey]; rfl

def scriptParts (script : Script) : ℕ × Bytes := (compressScript secp script).getD (script.length + 6, script)

def putScript (script : Script) : Bytes := writeCoreVarint (scriptParts secp script).1 ++ (scriptParts secp script).2

variable {secp}

lemma takes_uncompressed {code : ℕ} {x : Bytes} {point : secp.Point} (hcode : code = 4 ∨ code = 5)
    (hx : x.length = 32) (hpoint : secp.fromSlice (ofNat (code - 2) :: x) = some point) (budget : ℕ) :
    Takes budget (scriptBody secp code) x 0 ([0x41] ++ (secp.serializeUncompressed point ++ [0xac])) := by
  have hread : Takes budget (scriptBody secp code) (x ++ []) (0 + 0)
      ([0x41] ++ (secp.serializeUncompressed point ++ [0xac])) := by
    rcases hcode with rfl | rfl
    all_goals
      refine (takes_readInto hx).bind ?_
      rw [hpoint]
      exact Takes.pure _
  rwa [append_nil] at hread

variable (hsecp : DecompressInverse secp) (h : script.length ≤ maxScriptBytes)

include hsecp h

lemma scriptParts_spec (budget : ℕ) :
    (scriptParts secp script).1 ≤ maxScriptBytes + 6 ∧ (scriptParts secp script).2.length ≤ maxScriptBytes ∧
      scriptLength (scriptParts secp script).1 = script.length ∧
      Takes budget (scriptBody secp (scriptParts secp script).1) (scriptParts secp script).2 0 script := by
  have hspecial (code : ℕ) (hcode : code ≤ 5) : code ≤ maxScriptBytes + 6 := hcode.trans (by decide)
  rw [scriptParts, compressScript]
  split_ifs with hp2pkh hp2sh hcompressed huncompressed
  · obtain ⟨hlen, heq⟩ := isP2pkh_eq hp2pkh
    have hpayload : ((script.drop 3).take 20).length = 20 := length_slice (by omega)
    refine ⟨hspecial 0 (by decide), by rw [getD_some, hpayload]; decide, hlen.symm, ?_⟩
    have htake : Takes budget (readInto 20) _ 0 _ := takes_readInto hpayload
    have hread := htake.map
      (fun payload => ([0x76, 0xa9, 0x14] ++ (payload ++ [0x88, 0xac]) : Script))
    rwa [← heq] at hread
  · obtain ⟨hlen, heq⟩ := isP2sh_eq hp2sh
    have hpayload : ((script.drop 2).take 20).length = 20 := length_slice (by omega)
    refine ⟨hspecial 1 (by decide), by rw [getD_some, hpayload]; decide, hlen.symm, ?_⟩
    have htake : Takes budget (readInto 20) _ 0 _ := takes_readInto hpayload
    have hread := htake.map
      (fun payload => ([0xa9, 0x14] ++ (payload ++ [0x87]) : Script))
    rwa [← heq] at hread
  · obtain ⟨hlen, hkey, heq⟩ := isCompressedP2pk_eq hcompressed
    have hpayload : ((script.drop 2).take 32).length = 32 := length_slice (by omega)
    have htake : Takes budget (readInto 32) _ 0 _ := takes_readInto hpayload
    rcases hkey with hkey | hkey <;> rw [hkey] at heq ⊢
    · refine ⟨hspecial 2 (by decide), by rw [getD_some, hpayload]; decide, hlen.symm, ?_⟩
      have hread := htake.map
        (fun payload => ([0x21, 0x02] ++ (payload ++ [0xac]) : Script))
      rwa [← heq] at hread
    · refine ⟨hspecial 3 (by decide), by rw [getD_some, hpayload]; decide, hlen.symm, ?_⟩
      have hread := htake.map
        (fun payload => ([0x21, 0x03] ++ (payload ++ [0xac]) : Script))
      rwa [← heq] at hread
  · obtain ⟨x, y, hx, hy, hparse, hslice, hlast, hlen, heq⟩ := isUncompressedP2pk_eq huncompressed
    obtain ⟨point, hpoint, hserialize⟩ := hsecp x y hx hy hparse
    rw [hslice, hlast, getD_some]
    have hparity : (y.getD 31 0).toNat % 2 = 0 ∨ (y.getD 31 0).toNat % 2 = 1 := by omega
    rcases hparity with hparity | hparity <;> rw [hparity] at hpoint ⊢
    · have hread := takes_uncompressed (.inl rfl) hx hpoint budget
      rw [hserialize, ← heq] at hread
      exact ⟨hspecial 4 (by decide), by rw [hx]; decide, hlen.symm, hread⟩
    · have hread := takes_uncompressed (.inr rfl) hx hpoint budget
      rw [hserialize, ← heq] at hread
      exact ⟨hspecial 5 (by decide), by rw [hx]; decide, hlen.symm, hread⟩
  · have hcode : scriptLength (script.length + 6) = script.length := rfl
    refine ⟨Nat.add_le_add_right h 6, h, hcode, ?_⟩
    exact (takes_readInto hcode.symm : Takes budget (readInto _) script 0 script)

lemma takes_script (budget : ℕ) :
    Takes budget (CoreSnapshot.script secp budget) (putScript secp script) script.length script := by
  obtain ⟨hcode, -, hlength, hbody⟩ := scriptParts_spec hsecp h budget
  have hvarint : Takes budget (coreVarint (2 ^ 32 - 1)) (writeCoreVarint (scriptParts secp script).1) 0 _ :=
    takes_coreVarint (by decide) (hcode.trans (by decide))
  have hcharge : Takes budget (chargeScript script.length budget) [] script.length () := by
    intro rest consumed maxBytes spent _ _ hbudget hsmall
    rw [chargeScript]
    dsimp only
    rw [if_neg (by omega), checkLimit, if_neg (by omega)]
    rfl
  have hread : Takes budget (CoreSnapshot.script secp budget) (putScript secp script) (0 + (script.length + 0))
    script := by
    refine hvarint.bind ?_
    rw [hlength, if_neg (not_lt.mpr h)]
    exact hcharge.bind hbody
  rwa [zero_add] at hread

end

structure Fits (baseHeight : UInt32) (output : OutputParts) : Prop where
  value_le : output.value.toNat ≤ maxCompressibleAmount
  script_le : output.script.length ≤ maxScriptBytes
  height_le : output.height ≤ baseHeight
  height_lt : output.height.toNat < 2 ^ 31
  vout_le : output.vout.toNat ≤ maxCompactSize

def heightCode (output : OutputParts) : ℕ := 2 * output.height.toNat + if output.coinbase then 1 else 0

def amountCode (output : OutputParts) : ℕ := (compressAmount output.value.toNat).toOption.getD 0

def putEntry (secp : Secp) (output : OutputParts) : Bytes :=
  Varint.encode output.vout.toNat ++ (writeCoreVarint (heightCode output) ++
    (writeCoreVarint (amountCode output) ++ putScript secp output.script))

variable {secp : Secp} {baseHeight : UInt32} {output : OutputParts}

namespace Fits

variable (h : Fits baseHeight output)

include h

lemma heightCode_lt : heightCode output < 2 ^ 32 := by
  have hheight := h.height_lt
  rw [heightCode]
  split_ifs <;> omega

lemma amountCode_spec :
    compressAmount output.value.toNat = .ok (amountCode output) ∧ amountCode output < 2 ^ 64 ∧
      decompressAmount (amountCode output) = some output.value.toNat := by
  obtain ⟨c, hc, hlt, hdecompress⟩ := compressAmount_spec output.value.toNat h.value_le
  have hcode : amountCode output = c := by
    rw [amountCode, hc]
    rfl
  rw [hcode]
  exact ⟨hc, by omega, hdecompress⟩

end Fits

lemma heightCode_div (output : OutputParts) : heightCode output / 2 = output.height.toNat := by
  rw [heightCode]
  split_ifs <;> omega

lemma heightCode_mod (output : OutputParts) : (heightCode output % 2 != 0) = output.coinbase := by
  rw [heightCode]
  cases output.coinbase with
  | true =>
    rw [mul_add_mod_self_left]
    rfl
  | false =>
    rw [if_neg Bool.false_ne_true, add_zero, mul_mod_right]
    rfl

lemma takes_decodeCoin (hsecp : DecompressInverse secp) (h : Fits baseHeight output) (limits : SnapshotLimits) :
    Takes limits.maxScriptBytes.toNat (decodeCoin secp baseHeight limits) (putEntry secp output) output.script.length
      output := by
  obtain ⟨-, hamount, hdecompress⟩ := h.amountCode_spec
  have hvout := h.vout_le
  have hbound : output.vout.toNat < 2 ^ 32 - 1 := lt_of_le_of_lt hvout (by decide)
  have hcode := h.heightCode_lt
  have hheight : ¬ baseHeight < UInt32.ofNat (heightCode output / 2) := by
    rw [heightCode_div, UInt32.ofNat_toNat, UInt32.not_lt]
    exact h.height_le
  have hread : Takes limits.maxScriptBytes.toNat (decodeCoin secp baseHeight limits) (putEntry secp output)
      (0 + (0 + (0 + output.script.length))) output := by
    refine (takes_compactSize hvout).bind ?_
    rw [if_neg (not_le.mpr hbound)]
    refine (takes_coreVarint (by decide) (by omega)).bind ?_
    rw [if_neg hheight]
    refine (takes_coreVarint (by decide) (by omega)).bind ?_
    rw [hdecompress]
    dsimp only
    have hscript := (takes_script hsecp h.script_le limits.maxScriptBytes.toNat).map
      (fun script => ({ vout := UInt32.ofNat output.vout.toNat, value := UInt64.ofNat output.value.toNat, script,
                        coinbase := heightCode output % 2 != 0,
                        height := UInt32.ofNat (heightCode output / 2) } : OutputParts))
    rw [heightCode_mod, heightCode_div, UInt32.ofNat_toNat, UInt32.ofNat_toNat, UInt64.ofNat_toNat] at hscript ⊢
    exact hscript
  rwa [zero_add, zero_add, zero_add] at hread

lemma checkedAddOr_ok {a b : ℕ} (h : a + b < 2 ^ 64) : checkedAddOr a b = .ok (a + b) := if_pos h

section

variable (hsecp : DecompressInverse secp)

include hsecp

variable {script : Script}

lemma length_putScript_le (h : script.length ≤ maxScriptBytes) : (putScript secp script).length ≤ 10010 := by
  obtain ⟨hcode, hpayload, -⟩ := scriptParts_spec hsecp h 0
  have hvarint : (writeCoreVarint (scriptParts secp script).1).length ≤ 10 :=
    length_writeCoreVarint (lt_of_le_of_lt hcode (by decide))
  rw [putScript, length_append]
  rw [maxScriptBytes] at hpayload
  omega

lemma writeScriptEntry_eq (h : script.length ≤ maxScriptBytes) :
    writeScriptEntry secp script = .ok (putScript secp script, (putScript secp script).length) := by
  have hlen := length_putScript_le hsecp h
  rw [putScript, length_append] at hlen
  rw [writeScriptEntry, putScript]
  rw [scriptParts] at hlen ⊢
  cases hcompress : compressScript secp script with
  | none =>
    rw [hcompress, Option.getD_none] at hlen
    rw [maxScriptBytes] at h
    dsimp only at hlen ⊢
    rw [writeRawScriptEntry, maxScriptBytes, if_neg (not_lt.mpr h), checkedAddOr_ok (by omega)]
    dsimp only
    rw [ok_bind, checkedAddOr_ok (by omega), length_append]
    rfl
  | some parts =>
    rw [hcompress, getD_some] at hlen
    dsimp only
    rw [checkedAddOr_ok (by omega), length_append]
    rfl

lemma length_putEntry_le (h : Fits baseHeight output) : (putEntry secp output).length ≤ 10040 := by
  have hscript := length_putScript_le hsecp h.script_le
  have hheight : (writeCoreVarint (heightCode output)).length ≤ 10 :=
    length_writeCoreVarint (h.heightCode_lt.trans (by decide))
  have hamount := length_writeCoreVarint h.amountCode_spec.2.1
  have hvout : (Varint.encode output.vout.toNat).length ≤ 9 := by
    rw [Varint.length_encode, Varint.encodedLen]
    split_ifs <;> omega
  rw [putEntry, length_append, length_append, length_append]
  omega

end

lemma entryCode_eq (h : Fits baseHeight output) : entryCode output baseHeight = .ok (heightCode output) := by
  have hvout : output.vout.toNat ≠ 2 ^ 32 - 1 := Nat.ne_of_lt (Nat.lt_of_le_of_lt h.vout_le (by decide))
  rw [entryCode, if_neg hvout, if_neg (UInt32.not_lt.mpr h.height_le)]
  exact if_pos h.heightCode_lt

lemma writeOutputEntry_eq (hsecp : DecompressInverse secp) (h : Fits baseHeight output) :
    writeOutputEntry secp output baseHeight = .ok (putEntry secp output, (putEntry secp output).length) := by
  have hlen := length_putEntry_le hsecp h
  rw [putEntry, length_append, length_append, length_append] at hlen
  rw [writeOutputEntry, entryCode_eq h, ok_bind]
  dsimp only
  rw [checkedAddOr_ok (by omega), ok_bind, checkedAddOr_ok (by omega), ok_bind, h.amountCode_spec.1, liftAmount,
    ok_bind, checkedAddOr_ok (by omega), ok_bind, writeScriptEntry_eq hsecp h.script_le, ok_bind]
  rw [checkedAddOr_ok (by omega), ok_bind, pure_eq_ok, putEntry, length_append, length_append,
    length_append, zero_add, add_assoc, add_assoc]

end CoreSnapshot

end BitcoinRs.Utxo
