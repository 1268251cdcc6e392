import LaneAuction.Block.Context

/-!
# What a lane accepts

A received block is checked lane by lane. Each lane takes the longest run of transactions at the
front of the rest that it owns, its segment, and checks it under the same rules that it selects by.
-/

namespace LaneAuction

/-- A transaction of a received block, decoded. -/
structure ReceivedTx where
  block : BlockTx
  tx : Transaction
deriving DecidableEq

/-- Decodes a transaction of a received block. -/
def ReceivedTx.decode (raw : Bytes) : Except Wire.Error ReceivedTx := do
  let tx ← Transaction.decode raw
  return ⟨.ofRaw raw tx.body.gas, tx⟩

/-- Why a lane does not accept its segment. -/
inductive SegmentFault where
  /-- The bid at the front is not admissible. -/
  | bid (cause : Rejection)
  /-- The bid is not followed by the transactions of its bundle. -/
  | bundleMissing
  | aboveCap (count cap : Nat)
  | aboveBudget (used budget : BlockSpace)
  /-- A fee ranks above the one before it. -/
  | feesOutOfOrder (position : Nat) (fee previous : Nat) (denom : Denom)
deriving DecidableEq, Repr

/-- The wording of a fault in a segment. -/
def SegmentFault.message : SegmentFault → String
  | .bid cause => cause.message
  | .bundleMissing => "bid transaction is not followed by exactly its bundle"
  | .aboveCap count cap => s!"{count} transactions exceed the lane cap of {cap}"
  | .aboveBudget used budget =>
    s!"lane uses {used.bytes} bytes / {used.gas} gas, "
      ++ s!"budget is {budget.bytes} bytes / {budget.gas} gas"
  | .feesOutOfOrder position fee previous denom =>
    s!"base transaction {position} pays {fee}{denom} after one paying {previous}{denom}"

/-- The front of a block that a lane takes. -/
structure Segment where
  length : Nat
  used : BlockSpace
deriving DecidableEq, Repr, Inhabited

namespace Segment

/-- Nothing. -/
def empty : Segment := ⟨0, .zero⟩

/-- Checks a run of transactions against the cap and the budget of its lane. -/
def ofTxs (budget : BlockSpace) (cap : Option Nat) (txs : List ReceivedTx) :
    Except SegmentFault Segment := do
  if let some cap := cap then
    if cap < txs.length then throw (.aboveCap txs.length cap)
  let used := BlockSpace.ofTxs (txs.map ReceivedTx.block)
  if !used.fits budget then throw (.aboveBudget used budget)
  return ⟨txs.length, used⟩

end Segment

/-- Checks that no fee from position `position` on ranks above the one before it. -/
def checkFees (denom : Denom) : (position : Nat) → List ReceivedTx → Except SegmentFault Unit
  | position, a :: b :: txs =>
    let previous := feeRank a.tx.body.fee denom
    let fee := feeRank b.tx.body.fee denom
    if previous < fee then .error (.feesOutOfOrder position fee previous denom)
    else checkFees denom (position + 1) (b :: txs)
  | _, _ => .ok ()

namespace LaneContext

/-- The run of transactions at the front that a kind of lane owns. -/
def ownRun (ctx : LaneContext) (kind : LaneKind) (txs : List ReceivedTx) : List ReceivedTx :=
  txs.takeWhile fun t => kind.owns ctx.exempt t.tx

/-- Checks the bid at the front, if there is one, and that its bundle follows. -/
def takeBid (ctx : LaneContext) (budget : BlockSpace) (txs : List ReceivedTx) :
    Except SegmentFault Segment := do
  match txs with
  | [] => return .empty
  | first :: _ =>
    if !LaneKind.auction.owns ctx.exempt first.tx then return .empty
    let bid ← (BidCandidate.ofTransaction first.block.hash first.block.raw first.tx).mapError .bid
    (ctx.cleared.check bid.offer ctx.params.increment).mapError .bid
    let chunk ← (ctx.toBidContext.accept bid).mapError .bid
    -- The chunk is recomputed from the bid itself and must stand in front, in order.
    let run := txs.take chunk.length
    if run.map (fun t => t.block.hash) ≠ chunk.map BlockTx.hash then throw .bundleMissing
    Segment.ofTxs budget (ctx.cap .auction) run

/-- The segment that a lane of some kind takes from the front of a block. -/
def take (ctx : LaneContext) (kind : LaneKind) (budget : BlockSpace) (txs : List ReceivedTx) :
    Except SegmentFault Segment :=
  match kind with
  | .auction => ctx.takeBid budget txs
  | .free => Segment.ofTxs budget (ctx.cap .free) (ctx.ownRun .free txs)
  | .base => do
    -- Only the order of fees is asked for: equal fees may come in any order.
    let run := ctx.ownRun .base txs
    checkFees ctx.config.feeDenom 1 run
    Segment.ofTxs budget (ctx.cap .base) run

end LaneContext

end LaneAuction
