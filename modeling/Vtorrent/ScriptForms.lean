import Vtorrent.RetainedState
import Vtorrent.Primitives

/-!
# Scripts: items, well-formed pushes and standard forms

A script is a byte string read as opcodes and data pushes.  The iterator stops
silently at a truncated push, while `validate` reports it.  The classifier
recognizes the standard output forms by their exact byte layout.
-/

namespace Vtorrent

inductive ScriptError where
  | emptyStack
  | verifyFailed
  | invalidOpcode (op : UInt8)
  | stackOverflow
  | unbalancedConditional
  | invalidSignature
  | invalidPublicKey
  | signatureVerification
  | scriptTooLarge (size : Nat)
  | truncatedPush
  | pushTooLarge (size : Nat)
  | multisigKeyCount (sigs keys : Nat)
  | invalidScriptNumber
  | htlcLocktimeNotExpired
  | negativeLocktime
  | unsatisfiedLocktime
  | unsatisfiedSequence
  | negativeSequence
  | opReturnUnspendable
  | serialization (reason : String)
  deriving DecidableEq, Repr

/-- The `Display` text of an error. -/
def ScriptError.message : ScriptError → String
  | .emptyStack => "Script execution failed: stack is empty"
  | .verifyFailed => "Script execution failed: top of stack is false"
  | .invalidOpcode op => "Invalid opcode: 0x" ++ hexEncode [op]
  | .stackOverflow => "Stack overflow (max depth exceeded)"
  | .unbalancedConditional => "Unbalanced conditional (IF/ELSE/ENDIF mismatch)"
  | .invalidSignature => "Invalid signature encoding"
  | .invalidPublicKey => "Invalid public key encoding"
  | .signatureVerification => "Signature verification failed"
  | .scriptTooLarge size =>
      "Script too large (" ++ toString size ++ " bytes, max 10000)"
  | .truncatedPush => "Truncated push: length prefix exceeds script bounds"
  | .pushTooLarge size =>
      "Stack item too large (" ++ toString size ++ " bytes, max 520)"
  | .multisigKeyCount sigs keys =>
      "Multisig: " ++ toString sigs ++ " signatures required but only " ++
        toString keys ++ " keys provided"
  | .invalidScriptNumber => "Invalid script number"
  | .htlcLocktimeNotExpired => "HTLC: locktime has not expired"
  | .negativeLocktime => "OP_CHECKLOCKTIMEVERIFY: negative locktime"
  | .unsatisfiedLocktime =>
      "OP_CHECKLOCKTIMEVERIFY: unsatisfied (final input or type mismatch)"
  | .unsatisfiedSequence =>
      "OP_CHECKSEQUENCEVERIFY: unsatisfied (final input, type mismatch, " ++
        "or insufficient age)"
  | .negativeSequence => "OP_CHECKSEQUENCEVERIFY: negative locktime"
  | .opReturnUnspendable => "OP_RETURN output is unspendable"
  | .serialization reason => "Serialization error: " ++ reason

structure Script where
  bytes : Bytes
  deriving DecidableEq, Repr

namespace Script

def maxScriptSize : Nat := 10000

/-- Wrap raw bytes, rejecting scripts above the size limit. -/
def fromBytes (bytes : Bytes) : Except ScriptError Script :=
  if bytes.length > maxScriptSize then .error (.scriptTooLarge bytes.length)
  else .ok ⟨bytes⟩

/-- An item yielded by the script iterator. -/
inductive Item where
  | opcode (op : UInt8)
  | pushData (data : Bytes)
  deriving DecidableEq, Repr

/-- Split a push of `length` bytes off the remaining script. -/
def takePush (length : Nat) (rest : Bytes) : Option (Item × Bytes) :=
  if rest.length < length then none
  else some (.pushData (rest.take length), rest.drop length)

def nextItem : Bytes → Option (Item × Bytes)
  | [] => none
  | byte :: rest =>
      if byte = 0x00 then some (.pushData [], rest)
      else if byte.toNat ≤ 75 then takePush byte.toNat rest
      else if byte = 0x4c then
        match rest with
        | [] => none
        | length :: rest => takePush length.toNat rest
      else if byte = 0x4d then
        if rest.length < 2 then none
        else takePush (leValue (rest.take 2)) (rest.drop 2)
      else if byte = 0x4e then
        if rest.length < 4 then none
        else takePush (leValue (rest.take 4)) (rest.drop 4)
      else some (.opcode byte, rest)

/-- The items of a byte string; every item takes at least one byte, so the
length of the string bounds the number of steps. -/
def itemsWithin : Nat → Bytes → List Item
  | 0, _ => []
  | fuel + 1, bytes =>
      match nextItem bytes with
      | none => []
      | some (item, rest) => item :: itemsWithin fuel rest

/-- `Script::iter`, collected. -/
def items (script : Script) : List Item :=
  itemsWithin script.bytes.length script.bytes

def pushes (script : Script) : List Bytes :=
  script.items.filterMap fun item =>
    match item with
    | .pushData data => some data
    | .opcode _ => none

/-- Check that every push fits, walking the script by its length prefixes. -/
def validateWithin : Nat → Bytes → Except ScriptError Unit
  | 0, _ => .ok ()
  | _ + 1, [] => .ok ()
  | fuel + 1, byte :: rest =>
      let skip (length : Nat) (rest : Bytes) : Except ScriptError Unit :=
        if rest.length < length then .error .truncatedPush
        else validateWithin fuel (rest.drop length)
      if byte = 0x00 then validateWithin fuel rest
      else if byte.toNat ≤ 75 then skip byte.toNat rest
      else if byte = 0x4c then
        match rest with
        | [] => .error .truncatedPush
        | length :: rest => skip length.toNat rest
      else if byte = 0x4d then
        if rest.length < 2 then .error .truncatedPush
        else skip (leValue (rest.take 2)) (rest.drop 2)
      else if byte = 0x4e then
        if rest.length < 4 then .error .truncatedPush
        else skip (leValue (rest.take 4)) (rest.drop 4)
      else validateWithin fuel rest

/-- `Script::validate`. -/
def validate (script : Script) : Except ScriptError Unit :=
  validateWithin script.bytes.length script.bytes

end Script

/-- The standard forms of an output script. -/
inductive ScriptType where
  | p2pkh
  | p2pk
  | p2sh
  | p2ms (m n : UInt8)
  | htlc
  | p2cs (stakingHash spendingHash : Bytes) (locktime : UInt32)
  | opReturn
  | nonStandard
  deriving DecidableEq, Repr

abbrev byteAt (bytes : Bytes) (index : Nat) (value : UInt8) : Prop :=
  bytes[index]? = some value

/-- The exact pay-to-cold-stake layout, with the two key hashes and the
locktime it carries. -/
def parseP2cs (b : Bytes) : Option (Bytes × Bytes × UInt32) :=
  if b.length = 60 ∧
      byteAt b 0 0x63 ∧ byteAt b 1 0x76 ∧ byteAt b 2 0xa9 ∧ byteAt b 3 0x14 ∧
      byteAt b 24 0x88 ∧ byteAt b 25 0xac ∧ byteAt b 26 0x67 ∧ byteAt b 27 0x04 ∧
      byteAt b 32 0xb1 ∧ byteAt b 33 0x75 ∧ byteAt b 34 0x76 ∧ byteAt b 35 0xa9 ∧
      byteAt b 36 0x14 ∧
      byteAt b 57 0x88 ∧ byteAt b 58 0xac ∧ byteAt b 59 0x68 then
    some ((b.drop 4).take 20, (b.drop 37).take 20,
      UInt32.ofNat (leValue ((b.drop 28).take 4)))
  else none

/-- `OP_M … OP_N OP_CHECKMULTISIG` with `M ≤ N`. -/
def parseP2ms (b : Bytes) : Option (UInt8 × UInt8) :=
  let first := b.getD 0 0
  let count := b.getD (b.length - 2) 0
  if b.length ≥ 3 ∧ 0x51 ≤ first ∧ first ≤ 0x60 ∧ b.getLast? = some 0xae ∧
      0x51 ≤ count ∧ count ≤ 0x60 ∧ first - 0x50 ≤ count - 0x50 then
    some (first - 0x50, count - 0x50)
  else none

/-- Classify an output script; the order of the tests is the source's. -/
def classifyScript (script : Script) : ScriptType :=
  let b := script.bytes
  if b.length = 25 ∧ byteAt b 0 0x76 ∧ byteAt b 1 0xa9 ∧ byteAt b 2 0x14 ∧
      byteAt b 23 0x88 ∧ byteAt b 24 0xac then .p2pkh
  else if b.length = 23 ∧ byteAt b 0 0xa9 ∧ byteAt b 1 0x14 ∧
      byteAt b 22 0x87 then .p2sh
  else if (b.length = 35 ∧ byteAt b 0 33 ∧ byteAt b 34 0xac) ∨
      (b.length = 67 ∧ byteAt b 0 65 ∧ byteAt b 66 0xac) then .p2pk
  else if byteAt b 0 0x6a then .opReturn
  else
    match parseP2ms b with
    | some (m, n) => .p2ms m n
    | none =>
        match parseP2cs b with
        | some (stakingHash, spendingHash, locktime) =>
            .p2cs stakingHash spendingHash locktime
        | none =>
            if b.length > 5 ∧ byteAt b 0 0x63 ∧ byteAt b 1 0xa8 then .htlc
            else .nonStandard

/-- The form of raw output bytes, when they are within the size limit. -/
def scriptTypeOf (bytes : Bytes) : Option ScriptType :=
  match Script.fromBytes bytes with
  | .ok script => some (classifyScript script)
  | .error _ => none

end Vtorrent
