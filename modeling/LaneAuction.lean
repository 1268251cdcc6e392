import LaneAuction.Config.Json
import LaneAuction.Engine
import LaneAuction.Ledger.Outage
import LaneAuction.Wire.Item
import LaneAuction.Proofs.Bytes.Hex
import LaneAuction.Proofs.Wire.Reads
import LaneAuction.Proofs.Wire.Cursor
import LaneAuction.Proofs.Wire.Transaction
import LaneAuction.Proofs.Wire.Truncation
import LaneAuction.Proofs.Digits
import LaneAuction.Proofs.Coin.Text
import LaneAuction.Proofs.Decimal
import LaneAuction.Proofs.Decimal.Text
import LaneAuction.Proofs.Json.Token
import LaneAuction.Proofs.Json.Parse
import LaneAuction.Proofs.OrderedMap
import LaneAuction.Proofs.Pool.Arena
import LaneAuction.Proofs.Pool.Index
import LaneAuction.Proofs.Pool.Invariant
import LaneAuction.Proofs.Pool.Operations
import LaneAuction.Proofs.Pool.Run
import LaneAuction.Proofs.Pool.Rollback
import LaneAuction.Proofs.Pool.Arrival
import LaneAuction.Proofs.Pool.Increment
import LaneAuction.Proofs.Auction.Admission
import LaneAuction.Proofs.Auction.Rules
import LaneAuction.Proofs.Auction.Nonces
import LaneAuction.Proofs.Auction.ClearedBids
import LaneAuction.Proofs.Auction.Settlement
import LaneAuction.Proofs.Auction.Payout
import LaneAuction.Proofs.Auction.Soundness
import LaneAuction.Proofs.Config
import LaneAuction.Proofs.Config.Json
import LaneAuction.Proofs.Ledger.Funds
import LaneAuction.Proofs.Ledger.Overlay
import LaneAuction.Proofs.Ledger.Outage
import LaneAuction.Proofs.Ledger.Payments
import LaneAuction.Proofs.Ledger.Simulation
import LaneAuction.Proofs.Ledger.Buffer
import LaneAuction.Proofs.Lane.Validity
import LaneAuction.Proofs.Lane.Genesis
import LaneAuction.Proofs.Lane.Changes
import LaneAuction.Proofs.Block.Grammar
import LaneAuction.Proofs.Block.Selection
import LaneAuction.Proofs.Block.Greedy
import LaneAuction.Proofs.Block.Filling
import LaneAuction.Proofs.Block.Assembly
import LaneAuction.Proofs.Block.Limits
import LaneAuction.Proofs.Block.Shares
import LaneAuction.Proofs.Block.Bids
import LaneAuction.Proofs.Block.Refusals
import LaneAuction.Proofs.Block.Clearing
import LaneAuction.Proofs.Block.Timeouts
import LaneAuction.Proofs.Engine.Run
import LaneAuction.Proofs.Engine.Chain
import LaneAuction.Proofs.Engine.Admitted
import LaneAuction.Proofs.Engine.Submission
import LaneAuction.Proofs.Engine.Commit
import LaneAuction.Proofs.Engine.Governance
import LaneAuction.Proofs.Engine.Limits
import LaneAuction.Proofs.Engine.Settlement
import LaneAuction.Proofs.Engine.Agreement
import LaneAuction.Proofs.Engine.History
import LaneAuction.Proofs.Engine.Restart
import LaneAuction.Proofs.Engine.Pending
import LaneAuction.Proofs.Engine.Arrival
import LaneAuction.Proofs.Engine.Clearing
import LaneAuction.Proofs.Engine.Construction
import LaneAuction.Proofs.Engine.Timeouts
import LaneAuction.Proofs.Engine.Resubmission
import LaneAuction.Proofs.Engine.Fallback
import LaneAuction.Proofs.Engine.Rebuilding
import LaneAuction.Proofs.Engine.Shares
import LaneAuction.Proofs.Wire.Cursor
