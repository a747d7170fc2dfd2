import Omniscient.Lib.Outcome
import Omniscient.Lib.Word
import Omniscient.Lib.Run
import Omniscient.Lib.Totals
import Omniscient.Lib.SortedMap
import Omniscient.Lib.Postings
import Omniscient.Lib.Program
import Omniscient.Lib.Reorder
import Omniscient.Lib.Cells
import Omniscient.Lib.Greedy
import Omniscient.Lib.Text
import Omniscient.Lib.Json
import Omniscient.Evm
import Omniscient.Proofs.AbiWords
import Omniscient.Custody
import Omniscient.Erc20
import Omniscient.Proofs.CustodyCalls
import Omniscient.Proofs.CustodySolvency
import Omniscient.Proofs.EscapeHatch
import Omniscient.Proofs.Conservation
import Omniscient.SettlementExchange
import Omniscient.Erc1155
import Omniscient.Proofs.SettlementCalls
import Omniscient.Proofs.OrderLifetime
import Omniscient.Proofs.SettlementErrors
import Omniscient.Proofs.DeliveryVersusPayment
import Omniscient.Proofs.SettlementLegs
import Omniscient.Proofs.ProtocolFees
import Omniscient.Proofs.SignedBalances
import Omniscient.Proofs.Withdrawals
import Omniscient.Proofs.ShareTransfers
import Omniscient.Proofs.BatchOrder
import Omniscient.Proofs.DeltaList
import Omniscient.Oracle
import Omniscient.Proofs.OracleCalls
import Omniscient.Proofs.OracleBonds
import Omniscient.Proofs.OracleProtocol
import Omniscient.Proofs.DisputeWindows
import Omniscient.Domain
import Omniscient.Proofs.ReservedCollateral
import Omniscient.Proofs.SignedBytes
import Omniscient.Identifiers
import Omniscient.Proofs.IdentifierGrammar
import Omniscient.OrderJson
import Omniscient.Proofs.OrderJson
import Omniscient.OrderBook
import Omniscient.Proofs.FeeMath
import Omniscient.Matcher
import Omniscient.Proofs.Matching
import Omniscient.Proofs.BookInvariant
import Omniscient.Proofs.Removal
import Omniscient.Proofs.FillAccounting
import Omniscient.Proofs.PositionIndependence
import Omniscient.Proofs.GreedyMatching
import Omniscient.Schema
import Omniscient.Infra
import Omniscient.Service
import Omniscient.Failures
import Omniscient.Proofs.MatcherCommands
import Omniscient.Proofs.SettledPrices
import Omniscient.Proofs.Requests
import Omniscient.Proofs.GatewaySteps
import Omniscient.Proofs.Restart
import Omniscient.Proofs.CrashRecovery
import Omniscient.Proofs.FinalStatus
import Omniscient.Proofs.PersistedFills
import Omniscient.Proofs.Acceptance
import Omniscient.Proofs.Cancellation
import Omniscient.Proofs.Overmatching
import Omniscient.Proofs.HeldCollateral
import Omniscient.Proofs.DoubleSpend
import Omniscient.Proofs.RejectedOrders
import Omniscient.Proofs.AcceptedOrders
import Omniscient.Proofs.SignedOrders
import Omniscient.Proofs.MatchedSettlement
import Omniscient.Proofs.BatchLedger
import Omniscient.Proofs.ResolutionProgress
import Omniscient.Proofs.SignatureBinding
import Omniscient.Proofs.ReconcileTransport
import Omniscient.Proofs.OrderAnswers
import Omniscient.Proofs.LiveFeed
import Omniscient.Proofs.Workload
import Omniscient.Proofs.MatcherRefinement
import Omniscient.Proofs.OpenOrders
import Omniscient.Chain
import Omniscient.Handlers
import Omniscient.Proofs.NonceEpochs
import Omniscient.Indexer
import Omniscient.Proofs.Indexing
import Omniscient.Proofs.Turn
import Omniscient.Proofs.LostEvents
import Omniscient.Proofs.AppliedOnce
import Omniscient.Proofs.PhantomEvents
import Omniscient.Events
import Omniscient.Proofs.EventTables
import Omniscient.Reconcile
import Omniscient.Emissions
import Omniscient.AbiDecoding
import Omniscient.Proofs.AbiDecoding
import Omniscient.Proofs.Columns
import Omniscient.Proofs.Deposits
import Omniscient.Proofs.RetryOrder
import Omniscient.Proofs.ContractLogs
import Omniscient.Proofs.IndexedLedger
import Omniscient.Proofs.IndexedMarkets
import Omniscient.Proofs.Rollback
import Omniscient.IndexerProcess
import Omniscient.Proofs.CursorOrder
import Omniscient.Proofs.Finality
import Omniscient.Proofs.CatchUp
