import Vtorrent.BanDurations
import Vtorrent.BlockLeases
import Vtorrent.BlockLocators
import Vtorrent.BodyCommitment
import Vtorrent.ClaimBumps
import Vtorrent.ClaimMessages
import Vtorrent.CoinSelection
import Vtorrent.ColdStaking
import Vtorrent.Deliveries
import Vtorrent.FeeFloor
import Vtorrent.FiniteMapFilters
import Vtorrent.FiniteMapTotals
import Vtorrent.ForkChoice
import Vtorrent.GuardedWalks
import Vtorrent.HashTimeLock
import Vtorrent.HeaderLineages
import Vtorrent.IncentiveTotals
import Vtorrent.InclusionProofs
import Vtorrent.LegacyAmounts
import Vtorrent.MempoolRuns
import Vtorrent.MerkleBuilders
import Vtorrent.MetadataFetch
import Vtorrent.MultisigScripts
import Vtorrent.OrderIds
import Vtorrent.OrphanPool
import Vtorrent.OrphanedEntries
import Vtorrent.PaymentFees
import Vtorrent.PaymentUris
import Vtorrent.PeerWire
import Vtorrent.PosRewards
import Vtorrent.PostApplyLeaves
import Vtorrent.PrunedForks
import Vtorrent.RejectedAdmissions
import Vtorrent.ReorgDepth
import Vtorrent.ReplacementFees
import Vtorrent.ReplayGuard
import Vtorrent.ReplayedState
import Vtorrent.RequestLimits
import Vtorrent.RetainedState
import Vtorrent.SessionSlots
import Vtorrent.SignatureHashes
import Vtorrent.SpentCoins
import Vtorrent.SpvHeaders
import Vtorrent.StakedBlocks
import Vtorrent.StakedSupply
import Vtorrent.TimedSpends
import Vtorrent.TransactionEffects
import Vtorrent.UploadSlots
import Vtorrent.VerifyForms
import Vtorrent.WalletRescan
