import ZcashMiningPool.Library.Table
import ZcashMiningPool.Library.Run
import ZcashMiningPool.Library.Pacing
import ZcashMiningPool.Library.Buckets
import ZcashMiningPool.Library.Postings
import ZcashMiningPool.Library.Rounding
import ZcashMiningPool.Library.Smoothing
import ZcashMiningPool.Library.Apportion
import ZcashMiningPool.Library.BoundedFifo
import ZcashMiningPool.Library.Text
import ZcashMiningPool.Library.Lines
import ZcashMiningPool.Library.MerkleTree
import ZcashMiningPool.Library.Transaction
import ZcashMiningPool.Library.Checked
import ZcashMiningPool.Library.Scripts
import ZcashMiningPool.Library.SqlNumber
import ZcashMiningPool.Db.Schema
import ZcashMiningPool.Db.Credits
import ZcashMiningPool.Db.Costs
import ZcashMiningPool.Db.Payouts
import ZcashMiningPool.Db.Shares
import ZcashMiningPool.Db.Blocks
import ZcashMiningPool.Db.Op
import ZcashMiningPool.Db.Stored
import ZcashMiningPool.Db.Retention
import ZcashMiningPool.Db.Migrations
import ZcashMiningPool.Ledger.Accounts
import ZcashMiningPool.Ledger.Settlement
import ZcashMiningPool.Ledger.SettleOnce
import ZcashMiningPool.Ledger.Holdings
import ZcashMiningPool.Ledger.StoredBooks
import ZcashMiningPool.Ledger.StoredRuns
import ZcashMiningPool.Ledger.Credits
import ZcashMiningPool.Ledger.Maturity
import ZcashMiningPool.Ledger.Costs
import ZcashMiningPool.Ledger.AllOrNothing
import ZcashMiningPool.Rewards.Pplns
import ZcashMiningPool.Rewards.Books
import ZcashMiningPool.Rewards.Window
import ZcashMiningPool.Rewards.RetainedWindow
import ZcashMiningPool.Rewards.DelayedSplit
import ZcashMiningPool.Rewards.FairSplit
import ZcashMiningPool.PoolCore.Difficulty
import ZcashMiningPool.PoolCore.Vardiff
import ZcashMiningPool.PoolCore.VardiffDirection
import ZcashMiningPool.PoolCore.VardiffBounds
import ZcashMiningPool.PoolCore.Target
import ZcashMiningPool.PoolCore.Job
import ZcashMiningPool.PoolCore.Acceptance
import ZcashMiningPool.PoolCore.Session
import ZcashMiningPool.PoolCore.Share
import ZcashMiningPool.Stratum.Messages
import ZcashMiningPool.Stratum.Codec
import ZcashMiningPool.Stratum.Server
import ZcashMiningPool.Stratum.Connections
import ZcashMiningPool.Stratum.Identities
import ZcashMiningPool.PoolCore.Validator
import ZcashMiningPool.PoolCore.Replay
import ZcashMiningPool.PoolCore.Retarget
import ZcashMiningPool.PoolCore.CreditedWork
import ZcashMiningPool.PoolCore.TargetChannel
import ZcashMiningPool.PoolCore.BlockLife
import ZcashMiningPool.PoolCore.PhantomCredits
import ZcashMiningPool.PoolCore.BestChain
import ZcashMiningPool.PoolCore.MatureBooks
import ZcashMiningPool.PoolCore.Coinbase
import ZcashMiningPool.PoolCore.JobManager
import ZcashMiningPool.PoolCore.CleanJobs
import ZcashMiningPool.PoolCore.IssuedJobs
import ZcashMiningPool.PoolCore.Lag
import ZcashMiningPool.PoolCore.TemplateLoop
import ZcashMiningPool.PoolCore.Repolling
import ZcashMiningPool.PoolCore.LoopPace
import ZcashMiningPool.PoolCore.Accounting
import ZcashMiningPool.PoolCore.BlockRoots
import ZcashMiningPool.PoolCore.HeaderRoot
import ZcashMiningPool.PoolCore.HeaderInput
import ZcashMiningPool.PoolCore.SolutionBytes
import ZcashMiningPool.PoolCore.TagPanics
import ZcashMiningPool.PoolCore.TagEdit
import ZcashMiningPool.Stratum.Wire
import ZcashMiningPool.CpuMiner.Program
import ZcashMiningPool.CpuMiner.Shares
import ZcashMiningPool.CpuMiner.Nonces
import ZcashMiningPool.Dashboard.Payouts
import ZcashMiningPool.Dashboard.DoublePay
import ZcashMiningPool.Dashboard.Addresses
import ZcashMiningPool.Dashboard.Selection
import ZcashMiningPool.Dashboard.SharedSend
import ZcashMiningPool.Dashboard.ImmediatePayouts
import ZcashMiningPool.Dashboard.RoundBudget
import ZcashMiningPool.Dashboard.LateFinalisation
import ZcashMiningPool.Dashboard.CoinbaseCheck
import ZcashMiningPool.Dashboard.InvariantDrift
import ZcashMiningPool.Dashboard.InvariantSweep
import ZcashMiningPool.PoolApi.ZebraMetrics
import ZcashMiningPool.PoolApi.Readings
import ZcashMiningPool.PoolApi.StreamedMetrics
import ZcashMiningPool.PoolApi.Admin
import ZcashMiningPool.PoolApi.Logins
import ZcashMiningPool.Dashboard.AttemptRows
import ZcashMiningPool.Dashboard.StaleAttempts
