import Vtorrent.Consensus

/-!
# The genesis block

Genesis carries a message coinbase and one distribution transaction with an
unspendable claim marker for every address of the legacy snapshot.
-/

namespace Vtorrent

/-- The fixed data of a network: the cryptographic functions and the legacy
snapshot of addresses and balances. -/
structure Network where
  crypto : Crypto
  legacySnapshot : List (String × UInt64)

def genesisMessage : String :=
  "vTorrent 2.0 - Revived 2025 - Old holders made whole - No exchange needed"

def genesisTimestamp : UInt32 := 1700000000
def genesisBits : UInt32 := 0x1e0fffff
def legacySnapshotHeight : UInt32 := 1680456

/-- The data-carrier script of a distribution output. -/
def addressToScript (address : String) : Bytes :=
  let addressBytes := stringBytes address
  0x6a :: UInt8.ofNat addressBytes.length :: addressBytes

def genesisCoinbase : Transaction where
  version := 1
  txType := .coinbase
  inputs := []
  outputs := [⟨0, stringBytes genesisMessage⟩]
  lockTime := 0
  claimAddress := none
  claimSignature := none

namespace Network

def legacyDistribution (network : Network) : Transaction where
  version := 1
  txType := .legacyClaim
  inputs := []
  outputs := network.legacySnapshot.map fun entry =>
    ⟨entry.2, addressToScript entry.1⟩
  lockTime := legacySnapshotHeight
  claimAddress := none
  claimSignature := none

def genesisUtxos (network : Network) (tx : Transaction) : List Utxo :=
  tx.outputs.mapIdx fun vout output =>
    { txid := tx.txid network.crypto
      vout := vout
      value := output.value
      scriptPubkey := output.scriptPubkey
      height := 0
      timestamp := genesisTimestamp }

/-- The commitment root over a list of unspent outputs, sorted by reference. -/
def computeUtxoRootSorted (network : Network) (utxos : List Utxo) : Hash :=
  let sorted := utxos.insertionSort fun first second =>
    (compare (OutPoint.mk first.txid first.vout)
      (OutPoint.mk second.txid second.vout)).isLE
  computeMerkleRootFromTxids network.crypto (sorted.map (hashUtxo network.crypto))

/-- `create_genesis_block`. -/
def genesisBlock (network : Network) : Block :=
  let transactions := [genesisCoinbase, network.legacyDistribution]
  { header := {
      version := 1
      prevBlockHash := zeroHash
      merkleRoot := computeMerkleRootFromTxids network.crypto
        (transactions.map (Transaction.txid network.crypto))
      utxoRoot := network.computeUtxoRootSorted
        (network.genesisUtxos genesisCoinbase ++
          network.genesisUtxos network.legacyDistribution)
      timestamp := genesisTimestamp
      bits := genesisBits
      nonce := 0
      stakeModifier := 0 }
    transactions := transactions }

/-- The claimable balance of a legacy address; the first entry counts. -/
def getLegacyBalance (network : Network) (address : String) : UInt64 :=
  match network.legacySnapshot.find? fun entry => entry.1 == address with
  | some entry => entry.2
  | none => 0

end Network

end Vtorrent
