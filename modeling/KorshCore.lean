import KorshCore.Pow.DarkGravityWave
import KorshCore.Sapling.Witness
import KorshCore.Script.SignatureHash
import KorshCore.Evo.CreditPoolLimits
import KorshCore.Masternode.FillPayments
import KorshCore.Evo.PaymentRounds
import KorshCore.Evo.Collaterals
import KorshCore.Mempool.IndexRuns
import KorshCore.Chain.UndoBlock
import KorshCore.EvoDb.Refinement
import KorshCore.Llmq.UndoCommitments
import KorshCore.Llmq.MinedCache
import KorshCore.Llmq.RotationMembers
import KorshCore.Evo.BestChainlock
import KorshCore.Util.RangesRuns
import KorshCore.Chain.ValueBalance
import KorshCore.Evo.ListUpdates
import KorshCore.Wallet.RebuildTwice
import KorshCore.Evo.SimplifiedList
import KorshCore.Consensus.PartialMerkleTree
import KorshCore.Evo.StateVersions
import KorshCore.Chain.Locator
import KorshCore.Util.UnorderedLruCache
import KorshCore.Net.Spork
import KorshCore.Wallet.CoinSelection
import KorshCore.Coins.Compression
import KorshCore.Pow.ChainWork
