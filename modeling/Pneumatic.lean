import Pneumatic.Proofs.BlockCommit
import Pneumatic.Proofs.CommitOnce
import Pneumatic.Proofs.Confirmations
import Pneumatic.Proofs.DataDurability
import Pneumatic.Proofs.DataRefinement
import Pneumatic.Proofs.EnvelopeBinding
import Pneumatic.Proofs.EpochAtomic
import Pneumatic.Proofs.EpochRace
import Pneumatic.Proofs.ExecutorEvidence
import Pneumatic.Proofs.GasDebit
import Pneumatic.Proofs.GossipOrder
import Pneumatic.Proofs.HashAgreement
import Pneumatic.Proofs.HybridIdentity
import Pneumatic.Proofs.LeaderBatch
import Pneumatic.Proofs.OneBlock
import Pneumatic.Proofs.PathAgreement
import Pneumatic.Proofs.PinnedCalls
import Pneumatic.Proofs.PoolDurability
import Pneumatic.Proofs.PoolTokens
import Pneumatic.Proofs.ProofBinding
import Pneumatic.Proofs.QuorumStability
import Pneumatic.Proofs.RegistryErrors
import Pneumatic.Proofs.RegistryRaces
import Pneumatic.Proofs.Rejections
import Pneumatic.Proofs.Selections
import Pneumatic.Proofs.Serializability
import Pneumatic.Proofs.SharedSpend
import Pneumatic.Proofs.ShieldedQuorum
import Pneumatic.Proofs.SigningPurposes
import Pneumatic.Proofs.StorageOverlay
import Pneumatic.Proofs.Submitters
import Pneumatic.Proofs.TransactionQueue
import Pneumatic.Proofs.VoteAttempted
import Pneumatic.Proofs.VotesKept
import Pneumatic.Proofs.DigestInputs
import Pneumatic.Proofs.NullifierBinding
import Pneumatic.Proofs.LoopNesting
import Pneumatic.Proofs.OwnKey
import Pneumatic.Proofs.PeerLiveness
import Pneumatic.Proofs.UpgradeAuthority
import Pneumatic.Proofs.UpgradeReplay
