import LaneAuction.Block.Selection

/-!
# Building a block

Lanes are filled in their order. Each may use its share of the block, as far as earlier lanes left
it free, and no transaction is taken twice.
-/

namespace LaneAuction

/-- Why a block cannot be built: a lane met a fatal rejection. -/
structure AssemblyError where
  lane : String
  cause : Rejection
deriving DecidableEq, Repr

/-- The wording of an assembly error. -/
def AssemblyError.message (e : AssemblyError) : String :=
  "proposal construction failed: lane " ++ Text.quote e.lane ++ s!": {e.cause.message}"

namespace LaneContext

/-- Fills the remaining lanes of a plan, behind the transactions that the block has already. -/
def assembleFrom (ctx : LaneContext) (limits : BlockSpace) (pending : LaneKind → List PendingTx) :
    (filled : Selection) → List PlannedLane → Except AssemblyError Selection
  | filled, [] => .ok filled
  | filled, ⟨_, none⟩ :: plan => ctx.assembleFrom limits pending filled plan
  | filled, ⟨lane, some kind⟩ :: plan => do
    let budget := BlockSpace.budget limits filled.used lane.fraction
    let s ← (ctx.select kind budget (filled.txs.map BlockTx.hash) (pending kind)).mapError
      (⟨lane.id, ·⟩)
    ctx.assembleFrom limits pending
      ⟨filled.txs ++ s.txs, filled.used.add s.used, filled.refused ++ s.refused⟩ plan

/-- Builds a block from the pending transactions of each kind of lane, in their order. -/
def assemble (ctx : LaneContext) (limits : BlockSpace) (pending : LaneKind → List PendingTx)
    (plan : List PlannedLane) : Except AssemblyError Selection :=
  ctx.assembleFrom limits pending .empty plan

end LaneContext

end LaneAuction
