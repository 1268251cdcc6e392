import LaneAuction.Auction.Admission
import LaneAuction.BlockSpace
import LaneAuction.Config

/-!
# What lanes read

Building and checking a block read the same things: the configuration, the parameters and the
history of cleared bids in force, and a view of the ledger. Only when building are transactions
pending that a bundle must not hold.
-/

namespace LaneAuction

/-- What the lanes of a block depend on. -/
structure LaneContext where
  height : UInt64
  config : Config
  params : AuctionParams
  cleared : ClearedBids
  ledger : LedgerView
  /-- True if a transaction is signed. -/
  isSigned : Transaction → Bool
  /-- True of the hashes that are pending on their own. -/
  isPending : Hash → Bool

namespace LaneContext

/-- The message types without a fee. -/
def exempt (ctx : LaneContext) : List String := ctx.config.free.exempt

/-- What the admission of a bid depends on. -/
def toBidContext (ctx : LaneContext) : BidContext where
  height := ctx.height
  params := ctx.params
  ledger := ctx.ledger
  exempt := ctx.exempt
  isSigned := ctx.isSigned
  isPending := ctx.isPending

/-- The most transactions of a lane in one block; `none` for any number. -/
def cap (ctx : LaneContext) : LaneKind → Option Nat
  | .auction => some (ctx.params.maxBundleSize.toNat + 1)
  | .free => limit ctx.config.free.maxTxs
  | .base => limit ctx.config.base.maxTxs
where
  /-- A limit of which zero stands for none. -/
  limit (n : UInt64) : Option Nat := if n = 0 then none else some n.toNat

end LaneContext

/-- A registered lane and the kind that is bound to it. A lane of no kind holds its place but takes
no transaction. -/
structure PlannedLane where
  lane : Lane
  kind : Option LaneKind
deriving DecidableEq, Repr

end LaneAuction
