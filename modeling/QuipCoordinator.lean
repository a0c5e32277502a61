import QuipCoordinator.FoundationMachine
import QuipCoordinator.FoundationTable
import QuipCoordinator.Crates
import QuipCoordinator.Topology
import QuipCoordinator.Producer
import QuipCoordinator.Router
import QuipCoordinator.RouterMoves
import QuipCoordinator.RouterConservation
import QuipCoordinator.RouterCredits
import QuipCoordinator.Stash
import QuipCoordinator.Feeder
import QuipCoordinator.LiveJobs
import QuipCoordinator.CriticalSections
import QuipCoordinator.InflightLedger
import QuipCoordinator.Generations
import QuipCoordinator.SaltLedger
import QuipCoordinator.GraphAgreement
import QuipCoordinator.CancelOrder
import QuipCoordinator.StashRounds
import QuipCoordinator.RoundBest
import QuipCoordinator.RequirementsFirst
import QuipCoordinator.FoundationPick
import QuipCoordinator.SelectedProofs
import QuipCoordinator.SessionIsolation
import QuipCoordinator.FoundationSorted
import QuipCoordinator.RetainedWinners
import QuipCoordinator.WinTime
import QuipCoordinator.Orphans
import QuipCoordinator.Teardown
import QuipCoordinator.HungryQueues
import QuipCoordinator.Wakeups
import QuipCoordinator.FoundationLog
import QuipCoordinator.JobCopies
import QuipCoordinator.SettlementLog
import QuipCoordinator.Settlements
import QuipCoordinator.DrawRoots
import QuipCoordinator.ProofEncoding
import QuipCoordinator.ProofNaming
import QuipCoordinator.AccountNonces
import QuipCoordinator.FoundationFallible
import QuipCoordinator.PoolJudge
import QuipCoordinator.PoolWatch
import QuipCoordinator.PoolStops
import QuipCoordinator.FoundationCodec
import QuipCoordinator.PoolDecoding
import QuipCoordinator.Confirmations
import QuipCoordinator.OrderAnswers
import QuipCoordinator.Placements
import QuipCoordinator.Supervisors
import QuipCoordinator.Participation
import QuipCoordinator.SaltRanges
import QuipCoordinator.MinerCredits
import QuipCoordinator.MockMiner
import QuipCoordinator.FlowControl
import QuipCoordinator.FoundationTopK
import QuipCoordinator.StashBest
import QuipCoordinator.StashEntries
import QuipCoordinator.DispatchOrder
import QuipCoordinator.FlipSymmetry
import QuipCoordinator.OrderEnergies
import QuipCoordinator.ViabilitySearch
import QuipCoordinator.LeaseEndings
import QuipCoordinator.FeederRounds
import QuipCoordinator.RoundHistory
import QuipCoordinator.RoundWalks
import QuipCoordinator.DriveAccounts
import QuipCoordinator.DriveReports
import QuipCoordinator.CapabilityChecks
import QuipCoordinator.RestartBudget
import QuipCoordinator.SubmitLedger
import QuipCoordinator.TopologyIdentity
import QuipCoordinator.TopologySpec
import QuipCoordinator.CredentialScan
import QuipCoordinator.DescriptorPayload
import QuipCoordinator.Funding
import QuipCoordinator.SyncGate
import QuipCoordinator.AttemptLog
import QuipCoordinator.DashboardClock
import QuipCoordinator.DashboardNumbers
import QuipCoordinator.ListText
import QuipCoordinator.StorageKeys
import QuipCoordinator.AttemptStore
import QuipCoordinator.ChainCalls
import QuipCoordinator.ChainReaders
import QuipCoordinator.ChainRounds
import QuipCoordinator.ClientOutcomes
import QuipCoordinator.FoundationRetry
import QuipCoordinator.MempoolOrders
import QuipCoordinator.Readiness
import QuipCoordinator.FoundationVariants
import QuipCoordinator.ScaleTypes
import QuipCoordinator.StorageLayout
import QuipCoordinator.FoundationCursor
import QuipCoordinator.FoundationSlot
import QuipCoordinator.SnapshotReads
import QuipCoordinator.FoundationDrain
import QuipCoordinator.DriveSources
import QuipCoordinator.SeedChain
import QuipCoordinator.Keystore
