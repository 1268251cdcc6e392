import LaneAuction.Block.Context
import LaneAuction.Pool

/-!
# What a lane selects

Free and base lanes take their pending transactions in order and skip those that no longer fit. The
auction lane takes at most one bid: the first that is admissible, fits, and holds no transaction
that the block has already. Bids before it that are not admissible are to be dropped from the pool.
-/

namespace LaneAuction

/-- What a lane selects for a block. -/
structure Selection where
  txs : List BlockTx
  used : BlockSpace
  /-- The pending transactions that were refused, with the reason. -/
  refused : List (Hash × Rejection)
deriving DecidableEq, Inhabited

namespace Selection

/-- Nothing. -/
def empty : Selection := ⟨[], .zero, []⟩

end Selection

/-- A pending transaction as part of a block. -/
def PendingTx.toBlockTx (r : PendingTx) : BlockTx := ⟨r.hash, r.raw, r.tx.body.gas⟩

/-- True if `count` transactions are as many as the cap allows. -/
def reachesCap (cap : Option Nat) (count : Nat) : Bool := cap.any (· ≤ count)

/-- Takes candidates in order, behind those already taken, as long as the cap allows; skips those
that the block has already or that do not fit. -/
def fillFrom (budget : BlockSpace) (cap : Option Nat) (included : List Hash) :
    (count : Nat) → (used : BlockSpace) → List PendingTx → List BlockTx × BlockSpace
  | _, used, [] => ([], used)
  | count, used, r :: rs =>
    if reachesCap cap count then ([], used)
    else if included.contains r.hash then fillFrom budget cap included count used rs
    else
      -- A candidate that does not fit is skipped; smaller ones behind it may still fit.
      let next := used.add (.ofTx r.toBlockTx)
      if next.fits budget then
        let (txs, total) := fillFrom budget cap included (count + 1) next rs
        (r.toBlockTx :: txs, total)
      else fillFrom budget cap included count used rs

/-- Takes candidates in order, as long as the cap and the budget allow. -/
def fill (budget : BlockSpace) (cap : Option Nat) (included : List Hash)
    (candidates : List PendingTx) : Selection :=
  let (txs, used) := fillFrom budget cap included 0 .zero candidates
  ⟨txs, used, []⟩

namespace LaneContext

/-- The chunk of a pending bid, if it is admissible at this height. -/
def chunk (ctx : LaneContext) (bid : BidCandidate) : Except Rejection (List BlockTx) := do
  ctx.cleared.check bid.offer ctx.params.increment
  ctx.toBidContext.accept bid

/-- The chunk of a pending transaction, which must be an admissible bid. -/
def pendingChunk (ctx : LaneContext) (r : PendingTx) : Except Rejection (List BlockTx) := do
  ctx.chunk (← BidCandidate.ofTransaction r.hash r.raw r.tx)

/-- True if a chunk fits the budget and the cap, and the block has none of it yet. -/
def canPlace (ctx : LaneContext) (budget : BlockSpace) (included : List Hash)
    (chunk : List BlockTx) : Bool :=
  !(ctx.cap .auction).any (· < chunk.length) && (BlockSpace.ofTxs chunk).fits budget
    && !chunk.any fun tx => included.contains tx.hash

/-- Clears the auction: takes the chunk of the first candidate that is admissible and can be placed.
A fatal rejection stops the search; any other is noted. -/
def clear (ctx : LaneContext) (budget : BlockSpace) (included : List Hash) :
    List PendingTx → Except Rejection Selection
  | [] => .ok .empty
  | r :: rs =>
    match ctx.pendingChunk r with
    | .ok chunk =>
      -- An admissible bid that cannot be placed stays pending for another block.
      if ctx.canPlace budget included chunk then .ok ⟨chunk, .ofTxs chunk, []⟩
      else ctx.clear budget included rs
    | .error e =>
      if e.isFatal then .error e
      else do
        let s ← ctx.clear budget included rs
        return { s with refused := (r.hash, e) :: s.refused }

/-- What a lane of some kind selects among candidates in its order. -/
def select (ctx : LaneContext) (kind : LaneKind) (budget : BlockSpace) (included : List Hash)
    (candidates : List PendingTx) : Except Rejection Selection :=
  match kind with
  | .auction => ctx.clear budget included candidates
  | .free | .base => .ok (fill budget (ctx.cap kind) included candidates)

end LaneContext

end LaneAuction
