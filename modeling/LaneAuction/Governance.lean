import LaneAuction.Auction.Params
import LaneAuction.Lane

/-!
# Governance

Only the authority may change the lanes and the parameters of the auction. Whoever else calls is
refused, whatever else is wrong with the call.
-/

namespace LaneAuction

/-- Why a governance call is refused. -/
inductive GovernanceError where
  | unauthorized (caller : Address)
  | lane (fault : LaneFault)
  | params (fault : ParamsFault)
  /-- No lane has this id. -/
  | notFound (id : String)
  /-- The order of a lane cannot change. -/
  | orderFixed (id : String) (stored submitted : UInt32)
deriving DecidableEq, Repr

/-- The wording of a governance error. -/
def GovernanceError.message : GovernanceError → String
  | .unauthorized caller => s!"unauthorized: {caller.short} is not the authority"
  | .lane fault => s!"invalid lane: {fault.message}"
  | .params fault => s!"invalid auction params: {fault.message}"
  | .notFound id => "not found: lane " ++ Text.quote id
  | .orderFixed id stored submitted =>
    "lane " ++ Text.quote id
      ++ s!": order is immutable (stored {stored.toNat}, submitted {submitted.toNat})"

/-- Refuses everyone but the authority. -/
def authorize (authority caller : Address) : Except GovernanceError Unit :=
  if caller = authority then .ok () else .error (.unauthorized caller)

end LaneAuction
