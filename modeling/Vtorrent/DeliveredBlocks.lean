import Vtorrent.Chain

/-!
# Delivering blocks

Blocks arrive one after the other, each with the clock and the map order of the call
that delivers it, and the chain keeps what every call leaves behind.
-/

namespace Vtorrent

open Retained

structure Delivery where
  call : CallContext
  block : Block

namespace Chain

/-- The chain after a delivery, whatever the answer. -/
def deliver (network : Network) (chain : Chain) (delivery : Delivery) : Chain :=
  final (addBlock network delivery.call delivery.block) chain

def deliverAll (network : Network) (deliveries : List Delivery) (chain : Chain) : Chain :=
  deliveries.foldl (deliver network) chain

end Chain

/-!
## A regression-test network

A network small enough to evaluate: its digests are polynomials over the message
bytes, its snapshot has one address, and its blocks hold only a coinbase.
-/

namespace Regtest

/-- A polynomial over the bytes of a message, in `width` bytes. -/
def digest (width : Nat) (message : Bytes) : ByteVector width :=
  ⟨leBytes width (message.foldl (fun value byte =>
    (value * 257 + byte.toNat + 1) % 2 ^ 64) 7), by simp⟩

def crypto : Crypto where
  sha256 := digest 32
  sha1 := digest 20
  ripemd160 := digest 20
  signatureFromDer _ := true
  publicKeyFromSlice _ := true
  verifyEcdsa _ _ _ := true
  recoverableFromCompact _ := .ok ()
  recoverEcdsa _ _ _ := .ok ⟨[], []⟩
  base58 bytes := hexEncode bytes

def network : Network := ⟨crypto, [("V1", 500)]⟩

/-- Proof-of-work blocks are permitted and governance is off. -/
def options : ChainOptions := ⟨true, none, none⟩

def coinbase (height : Nat) : Transaction where
  version := 1
  txType := .coinbase
  inputs := []
  outputs := [⟨1, [0x6a]⟩]
  lockTime := UInt32.ofNat height
  claimAddress := none
  claimSignature := none

/-- The block at a height on top of a parent, with further transactions after its
coinbase; the nonce tells siblings apart. -/
def mine (parent : BlockHeader) (height : Nat) (nonce : UInt32)
    (further : List Transaction) : Block where
  header := {
    version := 1
    prevBlockHash := parent.hash crypto
    merkleRoot := computeMerkleRootFromTxids crypto
      ((coinbase height :: further).map (Transaction.txid crypto))
    utxoRoot := zeroHash
    timestamp := parent.timestamp + 1
    bits := parent.bits
    nonce := nonce
    stakeModifier := computeStakeModifier crypto parent.stakeModifier (parent.hash crypto) }
  transactions := coinbase height :: further

/-- A branch of `count` blocks above a parent at a height. -/
def branch (nonce : UInt32) : Nat → Nat → BlockHeader → List Block
  | 0, _, _ => []
  | count + 1, height, parent =>
      let block := mine parent (height + 1) nonce []
      block :: branch nonce count (height + 1) block.header

/-- A call long after genesis that walks maps in key order. -/
def call : CallContext := ⟨2000000000, ⟨id, fun _ => List.Perm.refl _⟩⟩

def deliveries (blocks : List Block) : List Delivery := blocks.map (⟨call, ·⟩)

def rivals : List Block :=
  branch 1 1 0 network.genesisBlock.header ++ branch 2 2 0 network.genesisBlock.header

def unfunded : Transaction where
  version := 1
  txType := .standard
  inputs := [⟨zeroHash, 0, [], 0⟩]
  outputs := [⟨1, [0x51]⟩]
  lockTime := 0
  claimAddress := none
  claimSignature := none

/-- The heavier branch's last block, with a transaction that cannot be applied. -/
def tampered : Block :=
  mine (mine network.genesisBlock.header 1 2 []).header 2 2 [unfunded]

def freshOn (network : Network) : Chain :=
  match Chain.newWith network options with
  | .ok chain => chain
  | .error _ => .blank true

theorem newWith_freshOn {network : Network}
    (made : (Chain.newWith network options).isOk = true) :
    Chain.newWith network options = .ok (freshOn network) := by
  unfold freshOn
  cases created : Chain.newWith network options with
  | error error => simp [created, Except.isOk, Except.toBool] at made
  | ok chain => rfl

def fresh : Chain :=
  match Chain.newWith network options with
  | .ok chain => chain
  | .error _ => .blank true

theorem newWith_eq : Chain.newWith network options = .ok fresh :=
  newWith_freshOn (by decide +kernel)

/-- A hundred blocks, a sibling of the last one and a child of the sibling. -/
def trunk : List Block :=
  let shared := branch 1 99 0 network.genesisBlock.header
  let fork := (shared.getLast?.map Block.header).getD network.genesisBlock.header
  shared ++ branch 1 1 99 fork ++ branch 2 2 99 fork

def usurpers : List Block := branch 3 102 0 network.genesisBlock.header

def depthOf : EStateM.Result NodeError Chain BlockAcceptance → Option Nat
  | .ok (.reorg _ _ depth _) _ => some depth
  | _ => none

theorem of_depthOf {answer : EStateM.Result NodeError Chain BlockAcceptance} {depth : Nat}
    (reported : depthOf answer = some depth) :
    ∃ oldTip newTip report after, answer = .ok (.reorg oldTip newTip depth report) after := by
  unfold depthOf at reported
  split at reported
  · cases reported
    exact ⟨_, _, _, _, rfl⟩
  · cases reported

def besieged : Chain := fresh.deliverAll network (deliveries (trunk ++ usurpers.dropLast))

theorem depthOf_usurpers :
    (usurpers.getLast?.bind fun block => depthOf (Chain.addBlock network call block besieged)) =
      some 101 := by
  decide +kernel

end Regtest

end Vtorrent
