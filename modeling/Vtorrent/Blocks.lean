import Vtorrent.DuplicatingMerkle
import Vtorrent.FiniteMapTotals
import Vtorrent.ScriptForms

/-!
# Transactions, blocks and their hashes

Transactions and headers are hashed over their bincode serialization: integers
are little-endian, sequences and strings carry a 64-bit length, options a
one-byte tag and enum variants a 32-bit index.
-/

namespace Vtorrent

open PrefixCode

/-- An output reference: transaction id and output number. -/
structure OutPoint where
  txid : Hash
  vout : Nat
  deriving DecidableEq

instance : Ord OutPoint :=
  ⟨compareLex (compareOn OutPoint.txid) (compareOn OutPoint.vout)⟩

instance : Std.TransOrd OutPoint :=
  inferInstanceAs
    (Std.TransCmp (compareLex (compareOn OutPoint.txid) (compareOn OutPoint.vout)))

instance : Std.LawfulEqOrd OutPoint where
  eq_of_compare {first second} equal := by
    change ((compare first.txid second.txid).then
      (compare first.vout second.vout)) = .eq at equal
    rw [Ordering.then_eq_eq] at equal
    cases first
    cases second
    simp only [Std.LawfulEqOrd.compare_eq_iff_eq] at equal
    rw [equal.1, equal.2]

structure TxInput where
  prevTxid : Hash
  prevVout : UInt32
  scriptSig : Bytes
  sequence : UInt32
  deriving DecidableEq

def TxInput.outPoint (input : TxInput) : OutPoint :=
  ⟨input.prevTxid, input.prevVout.toNat⟩

structure TxOutput where
  value : UInt64
  scriptPubkey : Bytes
  deriving DecidableEq

inductive TxType where
  | standard
  | coinbase
  | coinstake
  | legacyClaim
  | atomicSwap
  | torrentIncentive
  deriving DecidableEq

def TxType.index : TxType → Nat
  | .standard => 0
  | .coinbase => 1
  | .coinstake => 2
  | .legacyClaim => 3
  | .atomicSwap => 4
  | .torrentIncentive => 5

structure Transaction where
  version : UInt32
  txType : TxType
  inputs : List TxInput
  outputs : List TxOutput
  lockTime : UInt32
  claimAddress : Option String
  claimSignature : Option Bytes
  deriving DecidableEq

def encodeU32 (value : UInt32) : Bytes := leBytes 4 value.toNat
def encodeU64 (value : UInt64) : Bytes := leBytes 8 value.toNat

/-- `Vec<u8>`. -/
def encodeBytes (bytes : Bytes) : Bytes := sequence (fun byte => [byte]) bytes

/-- `str::as_bytes`. -/
def stringBytes (text : String) : Bytes := text.toByteArray.data.toList

/-- `String`. -/
def encodeString (text : String) : Bytes := encodeBytes (stringBytes text)

def TxInput.encode (input : TxInput) : Bytes :=
  input.prevTxid.toList ++ (encodeU32 input.prevVout ++
    (encodeBytes input.scriptSig ++ encodeU32 input.sequence))

def TxOutput.encode (output : TxOutput) : Bytes :=
  encodeU64 output.value ++ encodeBytes output.scriptPubkey

namespace Transaction

/-- `bincode::serialize`. -/
def encode (tx : Transaction) : Bytes :=
  encodeU32 tx.version ++ (leBytes 4 tx.txType.index ++
    (PrefixCode.sequence TxInput.encode tx.inputs ++
      (PrefixCode.sequence TxOutput.encode tx.outputs ++
        (encodeU32 tx.lockTime ++
          (optional encodeString tx.claimAddress ++
            optional encodeBytes tx.claimSignature)))))

/-- `serialized_size`. -/
def serializedSize (tx : Transaction) : Nat := tx.encode.length

def txid (crypto : Crypto) (tx : Transaction) : Hash :=
  crypto.sha256d tx.encode

/-- Clear every input's script except the one at `index`, which becomes the
subscript. -/
def withSubscript (tx : Transaction) (index : Nat) (subscript : Bytes) : Transaction :=
  { tx with
    inputs := tx.inputs.mapIdx fun i input =>
      { input with scriptSig := if i = index then subscript else [] } }

/-- The `SIGHASH_ALL` signature hash of one input. -/
def sighash (crypto : Crypto) (tx : Transaction) (index : Nat) (subscript : Bytes) :
    Hash :=
  crypto.sha256d ((tx.withSubscript index subscript).encode ++ leBytes 4 1)

def isCoinbase (tx : Transaction) : Bool := tx.txType == .coinbase
def isCoinstake (tx : Transaction) : Bool := tx.txType == .coinstake
def isLegacyClaim (tx : Transaction) : Bool := tx.txType == .legacyClaim

def totalOutput (tx : Transaction) : UInt64 :=
  saturatingSum (tx.outputs.map TxOutput.value)

end Transaction

structure BlockHeader where
  version : UInt32
  prevBlockHash : Hash
  merkleRoot : Hash
  utxoRoot : Hash
  timestamp : UInt32
  bits : UInt32
  nonce : UInt32
  stakeModifier : UInt64
  deriving DecidableEq

namespace BlockHeader

def encode (header : BlockHeader) : Bytes :=
  encodeU32 header.version ++ (header.prevBlockHash.toList ++
    (header.merkleRoot.toList ++ (header.utxoRoot.toList ++
      (encodeU32 header.timestamp ++ (encodeU32 header.bits ++
        (encodeU32 header.nonce ++ encodeU64 header.stakeModifier))))))

def hash (crypto : Crypto) (header : BlockHeader) : Hash :=
  crypto.sha256d header.encode

def isPos (header : BlockHeader) : Bool := header.nonce == 0

end BlockHeader

structure Block where
  header : BlockHeader
  transactions : List Transaction
  deriving DecidableEq

def combineHashes (crypto : Crypto) (left right : Hash) : Hash :=
  crypto.sha256d (left.toList ++ right.toList)

/-- `compute_merkle_root_from_txids`, and the same tree over UTXO leaves. -/
def computeMerkleRootFromTxids (crypto : Crypto) (txids : List Hash) : Hash :=
  DuplicatingMerkle.root (combineHashes crypto) zeroHash txids

namespace Block

def encode (block : Block) : Bytes :=
  block.header.encode ++ PrefixCode.sequence Transaction.encode block.transactions

def hash (crypto : Crypto) (block : Block) : Hash :=
  block.header.hash crypto

def computeMerkleRoot (crypto : Crypto) (block : Block) : Hash :=
  computeMerkleRootFromTxids crypto (block.transactions.map (Transaction.txid crypto))

def height (block : Block) : UInt32 :=
  match block.transactions with
  | [] => 0
  | first :: _ => first.lockTime

end Block

/-- An unspent transaction output. -/
structure Utxo where
  txid : Hash
  vout : Nat
  value : UInt64
  scriptPubkey : Bytes
  height : Nat
  timestamp : UInt32
  deriving DecidableEq

/-- The unspent outputs by reference, in `(txid, vout)` order. -/
abbrev UtxoSet := Std.ExtTreeMap OutPoint Utxo

/-- A Bitcoin variable-length integer. -/
def encodeVarint (number : Nat) : Bytes :=
  if number < 0xfd then leBytes 1 number
  else if number ≤ 0xffff then 0xfd :: leBytes 2 number
  else if number ≤ 0xffffffff then 0xfe :: leBytes 4 number
  else 0xff :: leBytes 8 number

/-- The leaf hash of an unspent output in the UTXO commitment. -/
def hashUtxo (crypto : Crypto) (utxo : Utxo) : Hash :=
  crypto.sha256d (utxo.txid.toList ++ leBytes 4 utxo.vout ++ encodeU64 utxo.value ++
    encodeVarint utxo.scriptPubkey.length ++ utxo.scriptPubkey ++
    leBytes 4 utxo.height ++ encodeU32 utxo.timestamp)

def recomputeUtxoRoot (crypto : Crypto) (utxos : UtxoSet) : Hash :=
  computeMerkleRootFromTxids crypto ((FiniteMap.values utxos).map (hashUtxo crypto))

/-- Whether an output enters the UTXO set: data carriers do not, apart from
the claim markers of the genesis distribution. -/
def isUtxoEligible (output : TxOutput) (tx : Transaction) (height : Nat) : Bool :=
  if scriptTypeOf output.scriptPubkey = some .opReturn then
    height == 0 && tx.isLegacyClaim
  else true

/-- The value a coinstake sends away from the staked script, given the script
that decides whether the stake is delegated. -/
def p2csRedirectedValueWithRedeem (stakedScript p2csScript : Bytes)
    (outputs : List TxOutput) : UInt64 :=
  match scriptTypeOf p2csScript with
  | some (.p2cs _ _ _) =>
      saturatingSum ((outputs.filter fun output =>
        decide (output.value > 0 ∧ output.scriptPubkey ≠ stakedScript)).map
          TxOutput.value)
  | _ => 0

end Vtorrent
