import LaneAuction.Ledger
import LaneAuction.Wire

/-!
# Why a transaction is refused

A rejection names its cause; the wording is in one place. Rejections that come from a ledger out of
reach are fatal: they say nothing about the transaction, so building a block stops at them instead
of dropping the transaction.
-/

namespace LaneAuction

/-- What is wrong with the form of a transaction. -/
inductive Malformed where
  /-- The bytes are not those of a transaction. -/
  | undecodable (cause : Wire.Error)
  /-- The signer did not sign. -/
  | badSignature
  /-- A bid was expected. -/
  | notABid
  /-- The bid is one of several messages. -/
  | notSoleMessage
  /-- The bid is signed by someone else than the bidder. -/
  | foreignBidder
  /-- The bid places no transaction. -/
  | emptyBundle
  /-- The bytes of a bundled transaction are not those of a transaction. -/
  | undecodableBundled (index : Nat) (cause : Wire.Error)
  /-- The signer of a bundled transaction did not sign. -/
  | badBundledSignature (index : Nat)
deriving DecidableEq, Repr

/-- The wording of a fault in a transaction's form. -/
def Malformed.message : Malformed → String
  | .undecodable cause => cause.message
  | .badSignature => "invalid signature"
  | .notABid => "not a bid transaction"
  | .notSoleMessage => "a bid must be the only message of its transaction"
  | .foreignBidder => "bidder must sign the bid transaction"
  | .emptyBundle => "bundle is empty"
  | .undecodableBundled index cause => s!"bundle transaction {index}: {cause.message}"
  | .badBundledSignature index => s!"bundle transaction {index}: invalid signature"

/-- How a transaction repeats another. -/
inductive Repeated where
  /-- It is pending. -/
  | pending (hash : Hash)
  /-- A pending bundle holds it. -/
  | claimed (hash : Hash)
  /-- Its bundle holds a pending transaction. -/
  | bundledPending (hash : Hash)
  /-- Its bundle holds a transaction twice. -/
  | bundledTwice (index : Nat)
  /-- Its bundle holds a pending transaction, named by position. -/
  | bundledPendingAt (index : Nat)
  /-- Two transactions of the chunk have the same signer and nonce. -/
  | nonceTwice (index : Nat) (nonce : UInt64)
  /-- The account is past the nonce. -/
  | nonceUsed (index : Nat) (nonce sequence : UInt64)
deriving DecidableEq, Repr

/-- The wording of a repetition. -/
def Repeated.message : Repeated → String
  | .pending hash => s!"{hash.short} is already pending"
  | .claimed hash => s!"{hash.short} is claimed by a pending bundle"
  | .bundledPending hash => s!"bundled {hash.short} is already pending on its own"
  | .bundledTwice index => s!"bundle transaction {index} appears twice"
  | .bundledPendingAt index => s!"bundle transaction {index} is already pending on its own"
  | .nonceTwice index nonce => s!"bundle transaction {index} repeats nonce {nonce}"
  | .nonceUsed index nonce sequence =>
    s!"bundle transaction {index} replays nonce {nonce} (account at {sequence})"

/-- Why a transaction is refused. -/
inductive Rejection where
  | malformed (fault : Malformed)
  /-- The bid may no longer be included at the height. -/
  | expired (timeout height : UInt64)
  | bundleTooLarge (size : Nat) (limit : UInt32)
  /-- A bundled transaction carries a bid. -/
  | nestedBid (index : Nat)
  | repeated (how : Repeated)
  /-- The bidder signs a bundled transaction behind another signer's. -/
  | sandwich (index : Nat)
  | belowReserve (price reserve : Coin)
  /-- The bid does not clear an earlier one on the same bundle by the increment. -/
  | belowIncrement (price previous increment : Coin)
  | insufficientFunds (account : Address) (denom : Denom) (available required : Amount)
  /-- The lane already holds as many pending transactions as it may. -/
  | laneFull (lane : String)
  /-- No lane has this id. -/
  | noLane (id : String)
  /-- The ledger failed for another reason than missing funds. -/
  | ledger (cause : LedgerError)
deriving DecidableEq, Repr

namespace Rejection

/-- The wording of a rejection. -/
def message : Rejection → String
  | .malformed fault => s!"malformed transaction: {fault.message}"
  | .expired timeout height => s!"bid expired: timeout height {timeout} <= {height}"
  | .bundleTooLarge size limit => s!"bundle too large: {size} transactions, max {limit}"
  | .nestedBid index => s!"bundle transaction {index} carries a nested auction bid"
  | .repeated how => s!"duplicate transaction: {how.message}"
  | .sandwich index => s!"sandwich detected: bidder reappears at bundle index {index}"
  | .belowReserve price reserve => s!"bid {price} is below the reserve fee {reserve}"
  | .belowIncrement price previous increment =>
    s!"bid {price} must be at least {previous} + {increment}"
  | .insufficientFunds account denom available required =>
    (LedgerError.insufficientFunds account denom available required).message
  | .laneFull lane => "lane " ++ Text.quote lane ++ " is full"
  | .noLane id => "not found: lane " ++ Text.quote id
  | .ledger cause => s!"ledger error: {cause.message}"

/-- Missing funds are the transaction's fault; all else is the ledger's. -/
def ofLedger : LedgerError → Rejection
  | .insufficientFunds account denom available required =>
    .insufficientFunds account denom available required
  | cause => .ledger cause

/-- True of a failure that says nothing about the transaction. -/
def isFatal : Rejection → Bool
  | .ledger _ => true
  | _ => false

end Rejection

end LaneAuction
