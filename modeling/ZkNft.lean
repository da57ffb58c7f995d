import ZkNft.Lib.Bytes
import ZkNft.Lib.Exec
import ZkNft.Lib.Origin
import ZkNft.Lib.StorageMap
import ZkNft.Lib.KeyedFold
import ZkNft.MantaPay.Config
import ZkNft.MantaPay.Types
import ZkNft.Primitives.Assets
import ZkNft.MantaPay.Errors
import ZkNft.MantaPay.Events
import ZkNft.MantaPay.Ledger
import ZkNft.MantaPay.TransferLedger
import ZkNft.MantaPay.Pallet
import ZkNft.MantaPay.Nullifiers
import ZkNft.MantaPay.ShardTree
import ZkNft.MantaPay.Shards
import ZkNft.MantaPay.Batch
import ZkNft.Lib.Run
import ZkNft.MantaPay.Posting
import ZkNft.MantaPay.Dispatch
import ZkNft.MantaPay.History
import ZkNft.MantaPay.Verdict
import ZkNft.MantaPay.Admission
import ZkNft.MantaPay.Sample
import ZkNft.MantaPay.Authorization
import ZkNft.MantaPay.ErrorConversion
import ZkNft.MantaPay.NullifierHistory
import ZkNft.MantaPay.Panics
import ZkNft.MantaPay.Payments
import ZkNft.MantaPay.ShardHistory
import ZkNft.MantaPay.Registration
import ZkNft.MantaPay.Effects
import ZkNft.MantaPay.Solvency
import ZkNft.MantaPay.Books
import ZkNft.MantaPay.Custody
import ZkNft.MantaPay.Pull
import ZkNft.Lib.Paging
import ZkNft.MantaPay.Sync
import ZkNft.Lib.Roundtrip
import ZkNft.MantaPay.LedgerTotal
import ZkNft.MantaPay.PostCodec
import ZkNft.Lib.Json
import ZkNft.Sdk.Api
import ZkNft.Sdk.Wallet
import ZkNft.AssetManager.Pallet
import ZkNft.AssetManager.Coherence
import ZkNft.AssetManager.Sample
import ZkNft.AssetManager.Locations
import ZkNft.AssetManager.Backing
import ZkNft.Lib.BinarySearch
import ZkNft.Staking.Pallet
import ZkNft.Staking.Calls
import ZkNft.Lib.Exchange
import ZkNft.Staking.Lists
import ZkNft.Staking.Candidate
import ZkNft.Staking.Adjust
import ZkNft.Staking.Books
import ZkNft.Staking.Locks
import ZkNft.Staking.Delegators
import ZkNft.Staking.Add
import ZkNft.Staking.Effects
import ZkNft.Staking.Tally
import ZkNft.Staking.Leaving
import ZkNft.Staking.Requests
import ZkNft.Staking.Delegating
import ZkNft.Staking.Agreement
import ZkNft.Staking.Supply
import ZkNft.Staking.Soundness
import ZkNft.Staking.Totals
import ZkNft.Staking.Sample
import ZkNft.Primitives.Trader
import ZkNft.Primitives.Fees
import ZkNft.AssetManager.Destinations
import ZkNft.Lib.Frame
import ZkNft.Staking.Pool
import ZkNft.Staking.Mirror
import ZkNft.Staking.Staked
import ZkNft.Staking.Pending
import ZkNft.Staking.Waiting
import ZkNft.Staking.Delays
import ZkNft.Lib.PerThing
import ZkNft.Staking.Blocks
import ZkNft.Staking.Rounds
import ZkNft.Staking.Returns
import ZkNft.Staking.Payout
import ZkNft.Staking.Selection
import ZkNft.Staking.Panics
import ZkNft.Staking.Bank
import ZkNft.Staking.Draws
import ZkNft.Staking.Shares
import ZkNft.Staking.Minting
import ZkNft.CollatorSelection.Pallet
import ZkNft.CollatorSelection.Sessions
import ZkNft.Staking.Onboarding
import ZkNft.Sdk.CreateNft
import ZkNft.MantaPay.Greedy
import ZkNft.Lib.Double
import ZkNft.Lib.Script
import ZkNft.Sdk.TransferPost
import ZkNft.Lib.Hex
import ZkNft.Sdk.AssetIds
import ZkNft.Lib.Compact
import ZkNft.Sdk.RemoteTransact
import ZkNft.Sdk.Signing
import ZkNft.Lib.Utf8
import ZkNft.Sdk.AssetStrings
import ZkNft.Lib.TopN
import ZkNft.Staking.TopCandidates
import ZkNft.Staking.Exposure
import ZkNft.Primitives.Reserve
import ZkNft.Primitives.Barrier
import ZkNft.Staking.Insertion
import ZkNft.Staking.Inflation
import ZkNft.AssetManager.Prices
import ZkNft.AssetManager.Adapter
import ZkNft.AssetManager.Flows
import ZkNft.Lib.LastWrite
import ZkNft.Lib.Fixed
import ZkNft.TxPause.Pallet
import ZkNft.TxPause.History
import ZkNft.CollatorSelection.Authored
import ZkNft.CollatorSelection.Deposits
import ZkNft.CollatorSelection.Eviction
import ZkNft.Staking.Deposits
import ZkNft.Staking.Departing
import ZkNft.Staking.Retiring
import ZkNft.MantaPay.Concurrency
import ZkNft.Staking.Undoing
