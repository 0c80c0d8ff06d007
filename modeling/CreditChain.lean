import CreditChain.Accumulator.Inclusion
import CreditChain.Aggregator.AggregatorV1
import CreditChain.BlockExecutor.HotState
import CreditChain.BlockStorage.RoundIndex
import CreditChain.Consensus.QuorumCertificates
import CreditChain.Consensus.TimeoutCertificate
import CreditChain.Dkg.Thresholds
import CreditChain.Framework.Math
import CreditChain.Framework.RateLimiter
import CreditChain.Governance.Approvals
import CreditChain.LightClient.TrustedState
import CreditChain.MVHashMap.Commit
import CreditChain.MVHashMap.PushValidation
import CreditChain.Market.Cleanup
import CreditChain.Market.PreCancellation
import CreditChain.Network.Stream
import CreditChain.OrderBook.Runs
import CreditChain.Pipeline.BufferItem
import CreditChain.QuorumStore.Pulls
import CreditChain.SafetyRules.Agreement
import CreditChain.Staking.Chain
import CreditChain.Staking.ContractRuns
import CreditChain.Tokens.Freeze
import CreditChain.Types.SparseMerkle
