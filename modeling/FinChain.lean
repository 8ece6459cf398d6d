import FinChain.App.SyncReply
import FinChain.Chain.AccountMembers
import FinChain.Chain.Agreement
import FinChain.Chain.AmountStrings
import FinChain.Chain.ApprovalIndex
import FinChain.Chain.BlockAccepted
import FinChain.Chain.BlockMap
import FinChain.Chain.ExecutedOnce
import FinChain.Chain.FailedSwitch
import FinChain.Chain.ForkPoint
import FinChain.Chain.Irreversible
import FinChain.Chain.MerkleRoot
import FinChain.Chain.NextMaintenance
import FinChain.Chain.PopBlock
import FinChain.Chain.ReindexAgrees
import FinChain.Chain.UndoHistory
import FinChain.Chain.VoteCounter
import FinChain.Chain.WitnessSchedule
import FinChain.Db.ModifyThrow
import FinChain.Db.UniqueKeys
import FinChain.Ledger.BuybackRuns
import FinChain.Ledger.ComputedFees
import FinChain.Ledger.ConfidentialBacking
import FinChain.Ledger.Conservation
import FinChain.Ledger.CurrentFeed
import FinChain.Ledger.ExhaustedMargins
import FinChain.Ledger.InterestLower
import FinChain.Ledger.LazyVesting
import FinChain.Ledger.LinearVesting
import FinChain.Ledger.Payroll
import FinChain.Ledger.PriceRounding
import FinChain.Ledger.Reopened
import FinChain.Ledger.WithdrawStart
import FinChain.Net.Framing
import FinChain.Net.Inventory
import FinChain.Plugins.HistoryAnswers
import FinChain.Plugins.MarketPruning
import FinChain.Protocol.AccountName
import FinChain.Protocol.AddressChecks
import FinChain.Protocol.Extension
import FinChain.Protocol.MinimizeSignatures
