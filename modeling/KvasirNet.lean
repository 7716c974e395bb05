import KvasirNet.TableSum
import KvasirNet.Runs
import KvasirNet.GridRound
import KvasirNet.ByteFormat
import KvasirNet.DoubleNat
import KvasirNet.Utf8Text
import KvasirNet.ChunkFeed
import KvasirNet.WireEvent
import KvasirNet.WireSpelling
import KvasirNet.WireHop
import KvasirNet.WireRoundTrip
import KvasirNet.WireCanonical
import KvasirNet.OuterClient
import KvasirNet.GatewayConfig
import KvasirNet.GatewayStore
import KvasirNet.GatewayNodes
import KvasirNet.GatewayChain
import KvasirNet.GatewayPricing
import KvasirNet.GatewayCredits
import KvasirNet.GatewayRequests
import KvasirNet.GatewayWrites
import KvasirNet.GatewayTasks
import KvasirNet.GatewaySystem
import KvasirNet.GatewayCoherence
import KvasirNet.GatewayMoves
import KvasirNet.GatewayMigration
import KvasirNet.GatewayBalances
import KvasirNet.GatewayPurses
import KvasirNet.GatewaySerial
import KvasirNet.GatewayPayouts
import KvasirNet.GatewaySignatures
import KvasirNet.GatewayRetries
import KvasirNet.GatewaySolvency
import KvasirNet.GatewayDurability
import KvasirNet.GatewayContributions
import KvasirNet.GatewayRewards
import KvasirNet.GatewayCreditIdentity
import KvasirNet.GatewaySpendGate
import KvasirNet.GatewayMirrors
import KvasirNet.OuterFraming
import KvasirNet.OuterDelivery
import KvasirNet.OuterFailures
import KvasirNet.SlidingWindow
import KvasirNet.BridgeSystem
import KvasirNet.BridgeMoves
import KvasirNet.Arena
import KvasirNet.BridgeWiring
import KvasirNet.BridgeHolding
import KvasirNet.BridgeDials
import KvasirNet.BridgeSockets
import KvasirNet.BridgePipelines
import KvasirNet.GatewayTwoFactor
import KvasirNet.GatewayFaucet
import KvasirNet.MarketSystem
import KvasirNet.MarketMoves
import KvasirNet.MarketBooks
import KvasirNet.MarketBytes
import KvasirNet.MarketOwners
import KvasirNet.MarketLedger
import KvasirNet.MarketTokens
import KvasirNet.TextCodec
import KvasirNet.MoeDispatch
import KvasirNet.MoeRounds
import KvasirNet.MoeReduce
import KvasirNet.MoeWire
import KvasirNet.MoeSockets
import KvasirNet.Binary64
import KvasirNet.GgufFormat
import KvasirNet.GgufTopology
import KvasirNet.GgufModel
import KvasirNet.GgufAgreement
import KvasirNet.GgufWrite
import KvasirNet.ShardFile
import KvasirNet.RingLockstep
import KvasirNet.ToolConnections
import KvasirNet.ParticipationLoop
import KvasirNet.AdmissionRequests
import KvasirNet.ProcessSupervisors
import KvasirNet.TunnelRegistry
import KvasirNet.ExpertHost
import KvasirNet.SealedWallet
import KvasirNet.SignedTexts
import KvasirNet.SocketChunks
import KvasirNet.RelayFrames
import KvasirNet.TunnelStreams
import KvasirNet.WalletSends
import KvasirNet.NodeTokens
import KvasirNet.LentMemory
import KvasirNet.ShardCache
import KvasirNet.ExpertFrames
import KvasirNet.RelaySockets
import KvasirNet.DirectRelay
import KvasirNet.CudaPack
import KvasirNet.CudaPackResume
import KvasirNet.Failover
import KvasirNet.MoeFailover
import KvasirNet.HotCache
import KvasirNet.CheckedBuffers
import KvasirNet.ExpertWorker
import KvasirNet.ExpertWorkerSafety
import KvasirNet.MoeReconcile
import KvasirNet.Kvr1Frames
import KvasirNet.GatewayUnstake
import KvasirNet.GridSums
import KvasirNet.GatewaySplits
import KvasirNet.GatewayUptime
import KvasirNet.GatewayPayers
import KvasirNet.GatewayFiles
import KvasirNet.TableRenaming
import KvasirNet.GatewayPrototypes
import KvasirNet.GatewaySessions
import KvasirNet.Incremental
import KvasirNet.RingGeneration
import KvasirNet.Base58
import KvasirNet.Radix
import KvasirNet.CatalogServing
import KvasirNet.AdmittedWallets
import KvasirNet.ExactNat
import KvasirNet.ExpertBlocks
import KvasirNet.EqualRuns
import KvasirNet.MarketCoverage
import KvasirNet.FirstBest
import KvasirNet.MarketWindows
import KvasirNet.MarketPromises
import KvasirNet.Rollcall
import KvasirNet.StageReadiness
import KvasirNet.GenerateUsage
import KvasirNet.GenerateOrder
import KvasirNet.Interleaving
import KvasirNet.StreamDecoder
import KvasirNet.CompletionStream
import KvasirNet.RingWiring
import KvasirNet.RelayCallbacks
import KvasirNet.NodeChallenges
import KvasirNet.SlotPacking
import KvasirNet.ShardReader
import KvasirNet.ShardMetadata
import KvasirNet.NetworkPlan
import KvasirNet.RecoveryPhrase
import KvasirNet.GatewayNetworkGates
import KvasirNet.LiveRing
import KvasirNet.CommitWatch
import KvasirNet.PathText
import KvasirNet.ZipArchive
import KvasirNet.ZipExtraction
import KvasirNet.ZipRoundTrip
import KvasirNet.RingBundle
import KvasirNet.RingExecutor
import KvasirNet.RingVerified
import KvasirNet.PromiseJobs
import KvasirNet.KeyLock
import KvasirNet.GgufPrefix
import KvasirNet.Gregorian
import KvasirNet.CalendarFeed
import KvasirNet.CalendarRule
import KvasirNet.LoadGenerations
import KvasirNet.ChatCompletions
import KvasirNet.CatalogLoads
import KvasirNet.RingPlans
