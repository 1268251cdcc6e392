import LaneAuction.Bytes.Hex
import LaneAuction.Decimal

/-!
# Auction parameters

What the authority sets for the auction: the size of bundles, the reserve, the increment, and who is
paid. All bids are paid in the denomination of the reserve.
-/

namespace LaneAuction

/-- What is wrong with a set of parameters. -/
inductive ParamsFault where
  | zeroBundleSize
  | reserveDenom (denom : Denom)
  | denomsDiffer (reserve increment : Denom)
  | zeroRetention
  | feeAboveOne (fee : Decimal)
  /-- The proposer's share is out of range. -/
  | shareOverflow
deriving DecidableEq, Repr

/-- The wording of a fault in the parameters. -/
def ParamsFault.message : ParamsFault → String
  | .zeroBundleSize => "max_bundle_size must be positive"
  | .reserveDenom denom => "invalid reserve fee denom " ++ Text.quote denom
  | .denomsDiffer reserve increment =>
    "reserve fee denom " ++ Text.quote reserve ++ " differs from min bid increment denom "
      ++ Text.quote increment
  | .zeroRetention => "cleared_bid_retention must be positive"
  | .feeAboveOne fee => s!"proposer fee {fee} outside [0, 1]"
  | .shareOverflow => "proposer share overflows"

/-- The parameters of the auction. -/
structure AuctionParams where
  /-- The most transactions a bundle may have. -/
  maxBundleSize : UInt32
  /-- The least price of a bid. -/
  reserve : Coin
  /-- What a bid must add to an earlier one on the same bundle. -/
  increment : Coin
  /-- The proposer's share of the winning price. -/
  proposerFee : Decimal
  /-- Who receives the rest of the winning price. -/
  escrow : Address
  /-- Refuse bundles that wrap other signers' transactions. -/
  frontRunningProtection : Bool
  /-- The blocks for which a cleared bid still binds the increment. -/
  retention : UInt64
deriving DecidableEq, Repr

namespace AuctionParams

/-- The parameters of a chain that sets none. -/
def default : AuctionParams where
  maxBundleSize := 2
  reserve := ⟨⟨1, by decide⟩, "stake"⟩
  increment := ⟨⟨1, by decide⟩, "stake"⟩
  proposerFee := .zero
  escrow := .zero
  frontRunningProtection := true
  retention := 1000

instance : Inhabited AuctionParams := ⟨default⟩

/-- The denomination of all bids. -/
def denom (p : AuctionParams) : Denom := p.reserve.denom

/-- Checks the parameters; the first fault is reported. -/
def validate (p : AuctionParams) : Except ParamsFault Unit := do
  if p.maxBundleSize = 0 then throw .zeroBundleSize
  if !p.reserve.isValid then throw (.reserveDenom p.reserve.denom)
  if p.reserve.denom ≠ p.increment.denom then
    throw (.denomsDiffer p.reserve.denom p.increment.denom)
  if p.retention = 0 then throw .zeroRetention
  if !p.proposerFee.isFraction then throw (.feeAboveOne p.proposerFee)

end AuctionParams

end LaneAuction
