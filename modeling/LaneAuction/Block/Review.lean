import LaneAuction.Block.Segment

/-!
# Checking a block

A received block is accepted if its transactions are well formed, signed and distinct, if it keeps
within the limits, and if the lanes take it completely, each its segment in turn.
-/

namespace LaneAuction

/-- Why a received block is not accepted. -/
inductive BlockFault where
  | undecodable (index : Nat) (cause : Wire.Error)
  | twice (index : Nat) (hash : Hash)
  | badSignature (index : Nat)
  | aboveLimits (used limits : BlockSpace)
  | segment (lane : String) (fault : SegmentFault)
  /-- Some transactions at the end are taken by no lane. -/
  | leftOver (count position : Nat)
deriving DecidableEq, Repr

/-- The wording of a fault in a block. -/
def BlockFault.message : BlockFault → String
  | .undecodable index cause =>
    s!"invalid proposal: transaction {index}: {(Rejection.malformed (.undecodable cause)).message}"
  | .twice index hash => s!"invalid proposal: transaction {index} ({hash.short}) appears twice"
  | .badSignature index => s!"invalid proposal: transaction {index}: invalid signature"
  | .aboveLimits used limits =>
    s!"invalid proposal: block uses {used.bytes} bytes / {used.gas} gas, "
      ++ s!"limit is {limits.bytes} bytes / {limits.gas} gas"
  | .segment lane fault => "invalid proposal: lane " ++ Text.quote lane ++ s!": {fault.message}"
  | .leftOver count position =>
    s!"invalid proposal: {count} transactions after position {position} belong to no lane"

namespace LaneContext

/-- Decodes a received block from position `index` on, behind transactions with the given hashes. -/
def receive (ctx : LaneContext) (seen : List Hash) :
    (index : Nat) → List Bytes → Except BlockFault (List ReceivedTx)
  | _, [] => .ok []
  | index, raw :: raws => do
    let t ← (ReceivedTx.decode raw).mapError (.undecodable index)
    if seen.contains t.block.hash then throw (.twice index t.block.hash)
    if !ctx.isSigned t.tx then throw (.badSignature index)
    let rest ← ctx.receive (t.block.hash :: seen) (index + 1) raws
    return t :: rest

/-- Lets the remaining lanes of a plan take their segments, and returns what no lane takes. -/
def consume (ctx : LaneContext) (limits : BlockSpace) :
    (used : BlockSpace) → List PlannedLane → List ReceivedTx → Except BlockFault (List ReceivedTx)
  | _, [], txs => .ok txs
  | used, ⟨_, none⟩ :: plan, txs => ctx.consume limits used plan txs
  | used, ⟨lane, some kind⟩ :: plan, txs => do
    let budget := BlockSpace.budget limits used lane.fraction
    let s ← (ctx.take kind budget txs).mapError (.segment lane.id)
    ctx.consume limits (used.add s.used) plan (txs.drop s.length)

/-- Accepts a block, or says why not. -/
def review (ctx : LaneContext) (limits : BlockSpace) (plan : List PlannedLane)
    (raws : List Bytes) : Except BlockFault Unit := do
  let txs ← ctx.receive [] 0 raws
  let used := BlockSpace.ofTxs (txs.map ReceivedTx.block)
  if !used.fits limits then throw (.aboveLimits used limits)
  let left ← ctx.consume limits .zero plan txs
  if !left.isEmpty then throw (.leftOver left.length (txs.length - left.length))

end LaneContext

end LaneAuction
