import BitcoinRs.Chain.DeploymentStatus
import BitcoinRs.Chain.Reorg
import BitcoinRs.Chain.Retarget
import BitcoinRs.Chainstate.UndoAccept
import BitcoinRs.Chainstate.WindowPrepare
import BitcoinRs.Consensus.BatchedScripts
import BitcoinRs.Consensus.BlockView
import BitcoinRs.Index.Reset
import BitcoinRs.Mempool.Anchor
import BitcoinRs.Mempool.DiagramCompare
import BitcoinRs.Mempool.OrphanRuns
import BitcoinRs.Mempool.Publish
import BitcoinRs.Mining.Outbox
import BitcoinRs.Mining.RewardSplit
import BitcoinRs.P2p.GarbageScan
import BitcoinRs.P2p.HeadersPresync
import BitcoinRs.Script.Resources
import BitcoinRs.Script.SignatureCache
import BitcoinRs.Utxo.CoinStatsCoherent
import BitcoinRs.Utxo.CoreSnapshotFaithful
import BitcoinRs.Utxo.RecordReach
