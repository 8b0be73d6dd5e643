import BitcoinRs.Library.Bytes

namespace BitcoinRs

abbrev Bytes := List UInt8

def checkedAddU64 (a b : UInt64) : Option UInt64 := if a.toNat + b.toNat < 2 ^ 64 then some (a + b) else none

@[ext] structure Hash256 where
  bytes : Bytes
  length_bytes : bytes.length = 32
  deriving DecidableEq

namespace Hash256

def zero : Hash256 := ⟨List.replicate 32 0, by simp⟩

instance : Inhabited Hash256 := ⟨zero⟩

lemma bytes_injective : Function.Injective bytes := fun _ _ h => Hash256.ext h

end Hash256

abbrev Txid := Hash256
abbrev BlockHash := Hash256

abbrev Script := Bytes

structure OutPoint where
  txid : Txid
  vout : UInt32
  deriving DecidableEq

lemma nodup_vouts {n : ℕ} (hn : n ≤ 2 ^ 32) : ((List.range n).map UInt32.ofNat).Nodup := by
  refine List.Nodup.map_on (fun a ha b hb hab => ?_) List.nodup_range
  have hvout := congrArg UInt32.toNat hab
  rwa [UInt32.toNat_ofNat_of_lt' ((List.mem_range.mp ha).trans_le hn),
    UInt32.toNat_ofNat_of_lt' ((List.mem_range.mp hb).trans_le hn)] at hvout

def OutPoint.isNull (op : OutPoint) : Bool := op.vout == 0xffffffff && op.txid.bytes.all (fun byte => byte == 0)

structure TxIn where
  previousOutput : OutPoint
  scriptSig : Script
  sequence : UInt32
  witness : List Bytes
  deriving DecidableEq

structure TxOut where
  value : UInt64
  scriptPubkey : Script
  deriving DecidableEq

structure Tx where
  version : UInt32
  inputs : List TxIn
  outputs : List TxOut
  lockTime : UInt32
  deriving DecidableEq

def Tx.isCoinbase (tx : Tx) : Bool :=
  match tx.inputs with
  | [input] => input.previousOutput.isNull
  | _ => false

structure Header where
  version : Int32
  prevBlockhash : BlockHash
  merkleRoot : Hash256
  time : UInt32
  bits : UInt32
  nonce : UInt32
  deriving DecidableEq

structure Block where
  header : Header
  txs : List Tx
  deriving DecidableEq

end BitcoinRs
