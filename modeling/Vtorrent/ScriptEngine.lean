import Vtorrent.ScriptForms

/-!
# The stack-based script engine

The engine runs the input's script, then the output's script on the stack it
left, and for a pay-to-script-hash output finally the script that was on top of
that stack.  Stacks are lists with the top first.
-/

namespace Vtorrent

/-- What context-dependent opcodes read. -/
structure ScriptEnv where
  txHash : Hash
  blockHeight : Nat
  blockTime : UInt32
  txLockTime : UInt32
  inputSequence : UInt32
  utxoHeight : Nat
  utxoTimestamp : UInt32

namespace Engine

def maxStackDepth : Nat := 1000
def maxArithNumLen : Nat := 4
def maxScriptExecSteps : Nat := 200

structure Stacks where
  stack : List Bytes
  altStack : List Bytes
  deriving DecidableEq, Repr

/-- The stacks together with the conditional state of a running script. -/
structure RunState extends Stacks where
  executing : Bool
  ifStack : List Bool
  deriving DecidableEq, Repr

/-- Script truth: some byte is set, the sign bit of the last one aside. -/
def isTrue (bytes : Bytes) : Bool :=
  match bytes.reverse with
  | [] => false
  | last :: initial => last &&& 0x7f != 0 || initial.any (· != 0)

def boolToBytes : Bool → Bytes
  | true => [1]
  | false => []

/-- Decode a sign-magnitude script number of at most `maxLen` bytes. -/
def decodeScriptNum (bytes : Bytes) (maxLen : Nat) : Except ScriptError Int :=
  match bytes.getLast? with
  | none => .ok 0
  | some last =>
      if bytes.length > maxLen then .error .invalidScriptNumber
      else
        let magnitude := leValue (bytes.dropLast ++ [last &&& 0x7f])
        if magnitude > 2 ^ 63 - 1 then .error .invalidScriptNumber
        else if last &&& 0x80 != 0 then .ok (-(magnitude : Int))
        else .ok magnitude

/-- Minimal little-endian bytes of a magnitude that fits 64 bits. -/
def magnitudeBytes : Nat → Nat → Bytes
  | 0, _ => []
  | fuel + 1, number =>
      if number = 0 then []
      else UInt8.ofNat number :: magnitudeBytes fuel (number / 256)

def intToBytes (number : Int) : Bytes :=
  let result := magnitudeBytes 8 number.natAbs
  match result.getLast? with
  | none => []
  | some last =>
      if last &&& 0x80 != 0 then result ++ [if number < 0 then 0x80 else 0x00]
      else if number < 0 then result.dropLast ++ [last ||| 0x80]
      else result

def checkSig (crypto : Crypto) (env : ScriptEnv) (sig pubkey : Bytes) :
    Except ScriptError Unit := do
  rejectIf (sig.getLast? != some 0x01) ScriptError.invalidSignature
  rejectIf (!crypto.signatureFromDer sig.dropLast) ScriptError.invalidSignature
  rejectIf (!crypto.publicKeyFromSlice pubkey) ScriptError.invalidPublicKey
  rejectIf (!crypto.verifyEcdsa env.txHash sig.dropLast pubkey)
    ScriptError.signatureVerification

def isOk {ε α : Type} : Except ε α → Bool
  | .ok _ => true
  | .error _ => false

def pop : List Bytes → Except ScriptError (Bytes × List Bytes)
  | [] => .error .emptyStack
  | top :: rest => .ok (top, rest)

def popNum (stack : List Bytes) : Except ScriptError (Int × List Bytes) := do
  let (top, rest) ← pop stack
  let number ← decodeScriptNum top maxArithNumLen
  pure (number, rest)

/-- Pop the two operands `a` and `b` of a binary opcode, `b` on top. -/
def popNums (stack : List Bytes) : Except ScriptError (Int × Int × List Bytes) := do
  let (b, rest) ← popNum stack
  let (a, rest) ← popNum rest
  pure (a, b, rest)

/-- Pop a count that may not exceed the depth of the remaining stack. -/
def popIndex (stack : List Bytes) (bounded : Int → Nat → Bool) :
    Except ScriptError (Nat × List Bytes) := do
  let (number, rest) ← popNum stack
  rejectIf (number < 0 || bounded number rest.length) ScriptError.invalidScriptNumber
  pure (number.toNat, rest)

def pushArith (rest : List Bytes) (result : Option Int) :
    Except ScriptError (List Bytes) :=
  match result with
  | none => .error .invalidScriptNumber
  | some number =>
      let bytes := intToBytes number
      if bytes.length > maxArithNumLen then .error .invalidScriptNumber
      else .ok (bytes :: rest)

/-- Opcodes that replace the top number by a checked result. -/
def unaryArith (operation : Int → Int) (stack : List Bytes) :
    Except ScriptError (List Bytes) := do
  let (a, rest) ← popNum stack
  pushArith rest (checkedI64 (operation a))

/-- Opcodes that replace the top two numbers by a checked result. -/
def binaryArith (operation : Int → Int → Option Int) (stack : List Bytes) :
    Except ScriptError (List Bytes) := do
  let (a, b, rest) ← popNums stack
  pushArith rest ((operation a b).bind checkedI64)

/-- Opcodes that compare the top two numbers. -/
def binaryTest (test : Int → Int → Bool) (stack : List Bytes) :
    Except ScriptError (List Bytes) := do
  let (a, b, rest) ← popNums stack
  pure (boolToBytes (test a b) :: rest)

def hashTop (digest : Bytes → Bytes) (stack : List Bytes) :
    Except ScriptError (List Bytes) := do
  let (top, rest) ← pop stack
  pure (digest top :: rest)

def countValidSigs (valid : Bytes → Bytes → Bool) : List Bytes → List Bytes → Nat
  | [], _ => 0
  | sig :: sigs, keys =>
      match keys.dropWhile fun key => !valid sig key with
      | [] => 0
      | _ :: keys => 1 + countValidSigs valid sigs keys

/-- `OP_CHECKMULTISIG` and its verifying form; both push the outcome. -/
def checkMultisig (crypto : Crypto) (env : ScriptEnv) (verify : Bool)
    (stack : List Bytes) : Except ScriptError (List Bytes) := do
  let (keyCount, rest) ← popIndex stack fun n depth => n.toNat > depth
  let keys := rest.take keyCount
  let (sigCount, rest) ← popIndex (rest.drop keyCount) fun n depth => n.toNat > depth
  let sigs := rest.take sigCount
  let rest := (rest.drop sigCount).drop 1
  rejectIf (sigCount > keyCount) (ScriptError.multisigKeyCount sigCount keyCount)
  let valid := countValidSigs (fun sig key => isOk (checkSig crypto env sig key)) sigs keys
  let success := decide (valid ≥ sigCount)
  rejectIf (verify && !success) ScriptError.signatureVerification
  pure (boolToBytes success :: rest)

/-- `OP_CHECKLOCKTIMEVERIFY`: the top item is inspected, not removed. -/
def checkLockTime (env : ScriptEnv) (stack : List Bytes) :
    Except ScriptError (List Bytes) := do
  let (top, _) ← pop stack
  let number ← decodeScriptNum top 5
  rejectIf (number < 0) ScriptError.negativeLocktime
  rejectIf (number > 2 ^ 32 - 1) ScriptError.unsatisfiedLocktime
  rejectIf (number > 0x7FFFFFFF) ScriptError.unsatisfiedLocktime
  let locktime := number.toNat
  rejectIf (env.inputSequence == 0xffffffff) ScriptError.unsatisfiedLocktime
  let locktimeIsTime := decide (locktime ≥ 500000000)
  let txIsTime := decide (env.txLockTime.toNat ≥ 500000000)
  rejectIf (locktimeIsTime != txIsTime) ScriptError.unsatisfiedLocktime
  rejectIf (env.txLockTime.toNat < locktime) ScriptError.htlcLocktimeNotExpired
  let chainReached :=
    if locktimeIsTime then decide (env.blockTime.toNat ≥ locktime)
    else decide (env.blockHeight ≥ locktime)
  rejectIf (!chainReached) ScriptError.htlcLocktimeNotExpired
  pure stack

/-- `OP_CHECKSEQUENCEVERIFY`: the top item is inspected, not removed. -/
def checkSequence (env : ScriptEnv) (stack : List Bytes) :
    Except ScriptError (List Bytes) := do
  let (top, _) ← pop stack
  let number ← decodeScriptNum top 5
  rejectIf (number < 0) ScriptError.negativeSequence
  rejectIf (number > 2 ^ 32 - 1) ScriptError.unsatisfiedSequence
  let seq := UInt32.ofNat number.toNat
  if seq &&& 0x80000000 != 0 then pure stack
  else do
    rejectIf (env.inputSequence == 0xffffffff) ScriptError.unsatisfiedSequence
    let seqIsTime := seq &&& 0x00400000 != 0
    let inputIsTime := env.inputSequence &&& 0x00400000 != 0
    rejectIf (seqIsTime != inputIsTime) ScriptError.unsatisfiedSequence
    let arg := (seq &&& 0x0000ffff).toNat
    let input := (env.inputSequence &&& 0x0000ffff).toNat
    rejectIf (input < arg) ScriptError.unsatisfiedSequence
    let ageSatisfied :=
      if seqIsTime then
        decide (input * 512 ≥ arg * 512 ∧
          env.blockTime.toNat - env.utxoTimestamp.toNat ≥ arg * 512)
      else decide (env.blockHeight - env.utxoHeight ≥ arg)
    rejectIf (!ageSatisfied) ScriptError.unsatisfiedSequence
    pure stack

/-- The opcodes that only rearrange, test or compute on the main stack. -/
def execStack (crypto : Crypto) (env : ScriptEnv) (op : UInt8)
    (stack : List Bytes) : Except ScriptError (List Bytes) :=
  match op.toNat with
  | 0x69 => do
      let (top, rest) ← pop stack
      rejectIf (!isTrue top) ScriptError.verifyFailed
      pure rest
  | 0x76 => do
      let (top, _) ← pop stack
      pure (top :: stack)
  | 0x75 => do
      let (_, rest) ← pop stack
      pure rest
  | 0x7c =>
      match stack with
      | a :: b :: rest => .ok (b :: a :: rest)
      | _ => .error .emptyStack
  | 0x79 =>
      match stack with
      | a :: b :: rest => .ok (b :: a :: b :: rest)
      | _ => .error .emptyStack
  | 0x7b =>
      match stack with
      | a :: b :: c :: rest => .ok (c :: a :: b :: rest)
      | _ => .error .emptyStack
  | 0x6e =>
      match stack with
      | b :: a :: rest => .ok (b :: a :: b :: a :: rest)
      | _ => .error .emptyStack
  | 0x6d =>
      match stack with
      | _ :: _ :: rest => .ok rest
      | _ => .error .emptyStack
  | 0x73 => do
      let (top, _) ← pop stack
      pure (if isTrue top then top :: stack else stack)
  | 0x6f =>
      match stack with
      | c :: b :: a :: rest => .ok (c :: b :: a :: c :: b :: a :: rest)
      | _ => .error .emptyStack
  | 0x70 =>
      match stack with
      | d :: c :: b :: a :: rest => .ok (b :: a :: d :: c :: b :: a :: rest)
      | _ => .error .emptyStack
  | 0x71 =>
      match stack with
      | f :: e :: d :: c :: b :: a :: rest => .ok (b :: a :: f :: e :: d :: c :: rest)
      | _ => .error .emptyStack
  | 0x72 =>
      match stack with
      | d :: c :: b :: a :: rest => .ok (b :: a :: d :: c :: rest)
      | _ => .error .emptyStack
  | 0x74 => .ok (intToBytes stack.length :: stack)
  | 0x77 =>
      match stack with
      | a :: _ :: rest => .ok (a :: rest)
      | _ => .error .emptyStack
  | 0x7a => do
      let (index, rest) ← popIndex stack fun n depth => n.toNat ≥ depth
      pure (rest.getD index [] :: rest.eraseIdx index)
  | 0x78 => do
      let (index, rest) ← popIndex stack fun n depth => n.toNat ≥ depth
      pure (rest.getD index [] :: rest)
  | 0x7d =>
      match stack with
      | a :: b :: rest => .ok (a :: b :: a :: rest)
      | _ => .error .emptyStack
  | 0x87 =>
      match stack with
      | b :: a :: rest => .ok (boolToBytes (a == b) :: rest)
      | _ => .error .emptyStack
  | 0x88 =>
      match stack with
      | b :: a :: rest => if a = b then .ok rest else .error .verifyFailed
      | _ => .error .emptyStack
  | 0xa7 => hashTop (fun top => (crypto.sha1 top).toList) stack
  | 0xa8 => hashTop (fun top => (crypto.sha256 top).toList) stack
  | 0xa9 => hashTop (fun top => (crypto.hash160 top).toList) stack
  | 0xaa => hashTop (fun top => (crypto.sha256d top).toList) stack
  | 0xa6 => hashTop (fun top => (crypto.ripemd160 top).toList) stack
  | 0xac =>
      match stack with
      | pubkey :: sig :: rest =>
          .ok (boolToBytes (isOk (checkSig crypto env sig pubkey)) :: rest)
      | _ => .error .emptyStack
  | 0xad =>
      match stack with
      | pubkey :: sig :: rest => do
          checkSig crypto env sig pubkey
          pure rest
      | _ => .error .emptyStack
  | 0xae => checkMultisig crypto env false stack
  | 0xaf => checkMultisig crypto env true stack
  | 0xb1 => checkLockTime env stack
  | 0xb2 => checkSequence env stack
  | 0x93 => binaryArith (fun a b => some (a + b)) stack
  | 0x94 => binaryArith (fun a b => some (a - b)) stack
  | 0x95 => binaryArith (fun a b => some (a * b)) stack
  | 0x96 => binaryArith (fun a b => if b = 0 then none else some (a.tdiv b)) stack
  | 0x97 => binaryArith (fun a b => if b = 0 then none else some (a.tmod b)) stack
  | 0x8b => unaryArith (· + 1) stack
  | 0x8c => unaryArith (· - 1) stack
  | 0x8f => unaryArith (-·) stack
  | 0x90 => unaryArith (fun a => (a.natAbs : Int)) stack
  | 0x91 => do
      let (top, rest) ← pop stack
      pure (boolToBytes (!isTrue top) :: rest)
  | 0x92 => do
      let (number, rest) ← popNum stack
      pure (boolToBytes (number != 0) :: rest)
  | 0x9a =>
      match stack with
      | b :: a :: rest => .ok (boolToBytes (isTrue a && isTrue b) :: rest)
      | _ => .error .emptyStack
  | 0x9b =>
      match stack with
      | b :: a :: rest => .ok (boolToBytes (isTrue a || isTrue b) :: rest)
      | _ => .error .emptyStack
  | 0x9c => binaryTest (fun a b => a == b) stack
  | 0x9d => do
      let (a, b, rest) ← popNums stack
      rejectIf (a != b) ScriptError.verifyFailed
      pure rest
  | 0x9e => binaryTest (fun a b => a != b) stack
  | 0x9f => binaryTest (fun a b => decide (a < b)) stack
  | 0xa0 => binaryTest (fun a b => decide (a > b)) stack
  | 0xa1 => binaryTest (fun a b => decide (a ≤ b)) stack
  | 0xa2 => binaryTest (fun a b => decide (a ≥ b)) stack
  | 0xa3 => do
      let (a, b, rest) ← popNums stack
      pure (intToBytes (min a b) :: rest)
  | 0xa4 => do
      let (a, b, rest) ← popNums stack
      pure (intToBytes (max a b) :: rest)
  | 0xa5 => do
      let (upper, rest) ← popNum stack
      let (lower, rest) ← popNum rest
      let (x, rest) ← popNum rest
      pure (boolToBytes (decide (x ≥ lower ∧ x < upper)) :: rest)
  | 0x4f => .ok ([0x81] :: stack)
  | 0x82 => do
      let (top, _) ← pop stack
      pure (intToBytes top.length :: stack)
  | number =>
      if 0x51 ≤ number ∧ number ≤ 0x60 then .ok ([op - 0x50] :: stack)
      else .error (.invalidOpcode op)

/-- One opcode.  Conditionals and `OP_RETURN` act in skipped branches too. -/
def execOpcode (crypto : Crypto) (env : ScriptEnv) (op : UInt8)
    (state : RunState) : Except ScriptError RunState :=
  match op.toNat with
  | 0x63 =>
      if state.executing then do
        let (top, rest) ← pop state.stack
        pure { state with
          stack := rest
          executing := isTrue top
          ifStack := true :: state.ifStack }
      else .ok { state with ifStack := false :: state.ifStack }
  | 0x64 =>
      if state.executing then do
        let (top, rest) ← pop state.stack
        pure { state with
          stack := rest
          executing := !isTrue top
          ifStack := true :: state.ifStack }
      else .ok { state with ifStack := false :: state.ifStack }
  | 0x67 => .ok { state with
      executing := state.ifStack.headD true && !state.executing }
  | 0x68 => .ok { state with
      executing := state.ifStack.headD true
      ifStack := state.ifStack.tail }
  | 0x61 => .ok state
  | 0x6a => .error .opReturnUnspendable
  | 0xab => .ok state
  | 0x6b =>
      if state.executing then do
        let (top, rest) ← pop state.stack
        pure { state with stack := rest, altStack := top :: state.altStack }
      else .ok state
  | 0x6c =>
      if state.executing then do
        let (top, rest) ← pop state.altStack
        pure { state with stack := top :: state.stack, altStack := rest }
      else .ok state
  | _ =>
      if state.executing then do
        let stack ← execStack crypto env op state.stack
        pure { state with stack := stack }
      else .ok state

def execItem (crypto : Crypto) (env : ScriptEnv) (item : Script.Item)
    (state : RunState) : Except ScriptError RunState :=
  match item with
  | .pushData data =>
      if state.executing then
        if state.stack.length ≥ maxStackDepth then .error .stackOverflow
        else .ok { state with stack := data :: state.stack }
      else .ok state
  | .opcode op => execOpcode crypto env op state

def runItems (crypto : Crypto) (env : ScriptEnv) :
    Nat → List Script.Item → RunState → Except ScriptError RunState
  | _, [], state => .ok state
  | steps, item :: items, state =>
      if steps + 1 > maxScriptExecSteps then .error .stackOverflow
      else do
        let state ← execItem crypto env item state
        runItems crypto env (steps + 1) items state

def run (crypto : Crypto) (env : ScriptEnv) (script : Script) (start : Stacks) :
    Except ScriptError Stacks := do
  script.validate
  let state ← runItems crypto env 0 script.items
    { toStacks := start, executing := true, ifStack := [] }
  rejectIf (!state.ifStack.isEmpty) ScriptError.unbalancedConditional
  pure state.toStacks

/-- The run succeeded only if it left a true value on top. -/
def requireTop (stack : List Bytes) : Except ScriptError Unit := do
  let (top, _) ← pop stack
  rejectIf (!isTrue top) ScriptError.verifyFailed

def isP2sh (script : Script) : Bool :=
  decide (script.bytes.length = 23 ∧ byteAt script.bytes 0 0xa9 ∧
    byteAt script.bytes 1 0x14 ∧ byteAt script.bytes 22 0x87)

def runSig (crypto : Crypto) (env : ScriptEnv) (scriptSig : Script) :
    Except ScriptError Stacks :=
  run crypto env scriptSig ⟨[], []⟩

def runRedeem (crypto : Crypto) (env : ScriptEnv) (stackAfterSig altStack : List Bytes) :
    Except ScriptError Unit := do
  let (redeem, rest) ← pop stackAfterSig
  let script ← Script.fromBytes redeem
  let final ← run crypto env script ⟨rest, altStack⟩
  requireTop final.stack

def execute (crypto : Crypto) (env : ScriptEnv) (scriptSig scriptPubkey : Script) :
    Except ScriptError Unit := do
  let afterSig ← runSig crypto env scriptSig
  let afterPubkey ← run crypto env scriptPubkey afterSig
  requireTop afterPubkey.stack
  if isP2sh scriptPubkey then
    runRedeem crypto env afterSig.stack afterPubkey.altStack
  else pure ()

end Engine

end Vtorrent
