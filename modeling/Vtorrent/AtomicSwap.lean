import Vtorrent.Consensus
import Vtorrent.ScriptEngine

/-!
# Script builders with time locks

The builders of hash time-locked contracts and of pay-to-cold-stake scripts.  Both
write the lock as four little-endian bytes behind a push.
-/

namespace Vtorrent

namespace Script

def maxPushSize : Nat := 520

/-- `Script::new`. -/
def empty : Script := ⟨[]⟩

def pushOpcode (script : Script) (opcode : UInt8) : Script := ⟨script.bytes ++ [opcode]⟩

/-- Append data behind the shortest push opcode; below the size limit two length bytes
are always enough. -/
def pushData (script : Script) (data : Bytes) : Except ScriptError Script :=
  if data.length > maxPushSize then .error (.pushTooLarge data.length)
  else if data.length ≤ 75 then
    .ok ⟨script.bytes ++ UInt8.ofNat data.length :: data⟩
  else if data.length ≤ 255 then
    .ok ⟨script.bytes ++ 0x4c :: UInt8.ofNat data.length :: data⟩
  else .ok ⟨script.bytes ++ 0x4d :: leBytes 2 data.length ++ data⟩

def pushSerialized (script : Script) (data : Bytes) : Except ScriptError Script :=
  (script.pushData data).mapError fun error => .serialization error.message

end Script

/-- `build_p2cs`. -/
def buildP2cs (stakingPubkeyHash spendingPubkeyHash : ByteVector 20) (locktime : UInt32) :
    Except ScriptError Script := do
  let script := Script.empty.pushOpcode 0x63
  let script := script.pushOpcode 0x76
  let script := script.pushOpcode 0xa9
  let script ← script.pushSerialized stakingPubkeyHash.toList
  let script := script.pushOpcode 0x88
  let script := script.pushOpcode 0xac
  let script := script.pushOpcode 0x67
  let script ← script.pushSerialized (encodeU32 locktime)
  let script := script.pushOpcode 0xb1
  let script := script.pushOpcode 0x75
  let script := script.pushOpcode 0x76
  let script := script.pushOpcode 0xa9
  let script ← script.pushSerialized spendingPubkeyHash.toList
  let script := script.pushOpcode 0x88
  let script := script.pushOpcode 0xac
  let script := script.pushOpcode 0x68
  pure script

inductive CoreError where
  | invalidAddress (reason : String)
  | invalidWif (reason : String)
  | checksumMismatch
  | secp256k1 (reason : String)
  deriving DecidableEq

/-- A Base58Check address: version byte and public key hash. -/
structure Address where
  hash : ByteVector 20
  version : UInt8
  deriving DecidableEq

section Address

variable (crypto : Crypto) (decodeBase58 : String → Option Bytes)

/-- `Address::parse`; `decodeBase58` is `bs58::decode`. -/
def Address.parse (text : String) : Except CoreError Address :=
  match decodeBase58 text with
  | none => .error (.invalidAddress text)
  | some decoded =>
      if sized : decoded.length = 25 then
        if decoded.drop 21 ≠ crypto.checksum (decoded.take 21) then
          .error .checksumMismatch
        else
          .ok {
            hash := ⟨(decoded.drop 1).take 20, by simp [sized]⟩
            version := decoded.headD 0 }
      else
        .error (.invalidAddress ("Expected 25 bytes, got " ++ toString decoded.length))

def pubkeyAddressPrefix : UInt8 := 70

def validateP2pkh (text : String) : Except CoreError Address := do
  let address ← Address.parse crypto decodeBase58 text
  rejectIf (address.version != pubkeyAddressPrefix)
    (CoreError.invalidAddress ("not a vTorrent mainnet address (version byte " ++
      toString address.version ++ ")"))
  pure address

def addressToHash160 (text : String) : Option (ByteVector 20) :=
  match Address.parse crypto decodeBase58 text with
  | .ok address => some address.hash
  | .error _ => none

end Address

/-- A hash time-locked contract. -/
structure Htlc where
  hashLock : Hash
  recipient : String
  refundAddress : String
  expiry : UInt32
  amount : UInt64
  fundingTxid : Option Hash

namespace Htlc

variable (crypto : Crypto) (decodeBase58 : String → Option Bytes)

def withExpiry (hashLock : Hash) (recipient refundAddress : String) (expiry : UInt32)
    (amount : UInt64) : Except NodeError Htlc := do
  rejectIf (amount == 0) (NodeError.atomicSwap "HTLC amount cannot be zero")
  rejectIf (!Engine.isOk (validateP2pkh crypto decodeBase58 recipient))
    (NodeError.atomicSwap ("Invalid recipient address: " ++ recipient))
  rejectIf (!Engine.isOk (validateP2pkh crypto decodeBase58 refundAddress))
    (NodeError.atomicSwap ("Invalid refund address: " ++ refundAddress))
  pure { hashLock, recipient, refundAddress, expiry, amount, fundingTxid := none }

def claimBytes (hashLock : Hash) (recipientHash : ByteVector 20) : Bytes :=
  [0x63, 0x82, 0x01, 0x20, 0x88, 0xa8] ++ 0x20 :: hashLock.toList ++
    [0x88, 0x76, 0xa9] ++ 0x14 :: recipientHash.toList ++ [0x88, 0xac]

/-- The refund branch: the lock and a signature by the refund key. -/
def refundBytes (expiry : UInt32) (refundHash : ByteVector 20) : Bytes :=
  0x67 :: 0x04 :: encodeU32 expiry ++ [0xb1, 0x75, 0x76, 0xa9] ++
    0x14 :: refundHash.toList ++ [0x88, 0xac, 0x68]

def buildScript (htlc : Htlc) : Except NodeError Bytes :=
  match addressToHash160 crypto decodeBase58 htlc.recipient with
  | none => .error (.atomicSwap ("invalid recipient address: " ++ htlc.recipient))
  | some recipientHash =>
      match addressToHash160 crypto decodeBase58 htlc.refundAddress with
      | none => .error (.atomicSwap ("invalid refund address: " ++ htlc.refundAddress))
      | some refundHash =>
          .ok (claimBytes htlc.hashLock recipientHash ++
            refundBytes htlc.expiry refundHash)

/-- `p2pkh_script` of an address. -/
def p2pkhScript (text : String) : Option Bytes :=
  (addressToHash160 crypto decodeBase58 text).map fun hash =>
    [0x76, 0xa9, 0x14] ++ hash.toList ++ [0x88, 0xac]

def spendingInput (fundingTxid : Hash) (sequence : UInt32) : TxInput where
  prevTxid := fundingTxid
  prevVout := 0
  scriptSig := []
  sequence := sequence

def buildRefundTxUnsigned (htlc : Htlc) (fundingTxid : Hash) (fee : UInt64) :
    Except NodeError Transaction :=
  match p2pkhScript crypto decodeBase58 htlc.refundAddress with
  | none => throw (NodeError.atomicSwap ("invalid refund address: " ++ htlc.refundAddress))
  | some script =>
      pure {
        version := 1
        txType := .atomicSwap
        inputs := [spendingInput fundingTxid 0xfffffffe]
        outputs := [⟨saturatingSub htlc.amount fee, script⟩]
        lockTime := htlc.expiry
        claimAddress := some htlc.refundAddress
        claimSignature := none }

end Htlc

end Vtorrent
