import LaneAuction.Auction.Params
import LaneAuction.Rejection

/-!
# Settlement

The price of a winning bid is split between the proposer and the escrow account and moved out of the
bidder's balance. Either both parts move or neither does: if the second move fails, the first is
taken back.
-/

namespace LaneAuction

/-- The two parts of a price. -/
structure Split where
  escrow : Coin
  proposer : Coin
deriving DecidableEq, Repr

/-- The proposer receives the whole part of its share, the escrow account the rest. -/
def distribute (price : Coin) (fee : Decimal) : Except ParamsFault Split :=
  if fee.isFraction then
    match fee.mulFloor price.amount with
    | none => .error .shareOverflow
    -- A share of at most one never exceeds the price.
    | some share =>
      match price.amount.sub? share with
      | none => .error .shareOverflow
      | some rest => .ok ⟨⟨rest, price.denom⟩, ⟨share, price.denom⟩⟩
  else .error (.feeAboveOne fee)

/-- Why a winning bid is not settled. -/
inductive SettlementError where
  /-- The parameters split no price. -/
  | params (fault : ParamsFault)
  /-- The ledger did not move a part. -/
  | ledger (cause : LedgerError)
deriving DecidableEq, Repr

/-- The wording of a settlement error. -/
def SettlementError.message : SettlementError → String
  | .params fault => s!"invalid auction params: {fault.message}"
  | .ledger cause => (Rejection.ofLedger cause).message

/-- Moves a coin unless it is empty. -/
def transferPart {σ : Type} [Bank σ] (source target : Address) (coin : Coin) :
    LedgerAction σ Unit :=
  if coin.isZero then pure () else Bank.transfer source target coin

/-- Moves both parts of a price; if the second part does not move, the first moves back. -/
def transferSplit {σ : Type} [Bank σ] (bidder escrow proposer : Address) (split : Split) :
    LedgerAction σ Unit := do
  transferPart bidder escrow split.escrow
  tryCatch (transferPart bidder proposer split.proposer) fun e => do
    -- The first part goes back, and the first failure is the one that is reported.
    transferPart escrow bidder split.escrow
    throw e

/-- Checks that the bidder covers the price, and moves its parts. -/
def pay {σ : Type} [Bank σ] (bidder : Address) (price : Coin) (escrow proposer : Address)
    (split : Split) : LedgerAction σ Unit := do
  let available ← (Bank.view (← get)).balance bidder price.denom
  if available < price.amount then
    throw (.insufficientFunds bidder price.denom available price.amount)
  transferSplit bidder escrow proposer split

/-- Pays a winning bid out of the bidder's balance. -/
def settle {σ : Type} [Bank σ] (params : AuctionParams) (bidder : Address) (price : Coin)
    (proposer : Address) (ledger : σ) : Except SettlementError Split × σ :=
  match distribute price params.proposerFee with
  | .error fault => (.error (.params fault), ledger)
  | .ok split =>
    match (pay bidder price params.escrow proposer split).run.run ledger with
    | (.ok (), ledger) => (.ok split, ledger)
    | (.error cause, ledger) => (.error (.ledger cause), ledger)

end LaneAuction
