import LaneAuction.Auction.Bid
import LaneAuction.Auction.Params
import LaneAuction.Block
import LaneAuction.Lane.Kind
import LaneAuction.Ledger.Overlay

/-!
# Which bids are admissible

A bid is admissible if it is in time, its bundle is well formed and repeats nothing, no bundled
transaction of the bidder comes behind another signer's, its price is at least the reserve, and the
price, the fees and the transfers of the whole chunk can be paid in order. The checks run in this
order and the first failure is reported.
-/

namespace LaneAuction

/-- What admission depends on besides the bid. -/
structure BidContext where
  /-- The height of the block that would hold the bid. -/
  height : UInt64
  params : AuctionParams
  ledger : LedgerView
  /-- The message types without a fee. -/
  exempt : List String
  /-- True if a transaction is signed. -/
  isSigned : Transaction → Bool
  /-- True of the hashes that are pending on their own. -/
  isPending : Hash → Bool

/-- A transaction of a bundle, decoded. -/
structure Bundled where
  hash : Hash
  raw : Bytes
  tx : Transaction
deriving DecidableEq

/-- A bundled transaction as part of a block. -/
def Bundled.toBlockTx (b : Bundled) : BlockTx := ⟨b.hash, b.raw, b.tx.body.gas⟩

namespace BidContext

/-- Decodes a bundle from position `index` on; every transaction must be signed and carry no bid. -/
def openBundle (ctx : BidContext) : (index : Nat) → List Bytes → Except Rejection (List Bundled)
  | _, [] => .ok []
  | index, raw :: raws => do
    let tx ← (Transaction.decode raw).mapError fun e => .malformed (.undecodableBundled index e)
    -- A bundle may not hold another auction.
    if tx.containsBid then throw (.nestedBid index)
    if !ctx.isSigned tx then throw (.malformed (.badBundledSignature index))
    let rest ← ctx.openBundle (index + 1) raws
    return ⟨Transaction.hash raw, raw, tx⟩ :: rest

/-- Checks the bidder and the size of the bundle, and decodes it. -/
def checkStructure (ctx : BidContext) (bid : BidCandidate) : Except Rejection (List Bundled) := do
  if bid.offer.bidder ≠ bid.tx.body.signer then throw (.malformed .foreignBidder)
  if bid.offer.bundle.isEmpty then throw (.malformed .emptyBundle)
  let limit := ctx.params.maxBundleSize
  if limit.toNat < bid.offer.bundle.length then
    throw (.bundleTooLarge bid.offer.bundle.length limit)
  ctx.openBundle 0 bid.offer.bundle

/-- Checks from position `index` on that no transaction comes twice or is pending on its own, and
that no signer's nonce comes twice or is used up. -/
def checkRepeats (ctx : BidContext) (hashes : List Hash) (nonces : List (Address × UInt64)) :
    (index : Nat) → List Bundled → Except Rejection Unit
  | _, [] => .ok ()
  | index, b :: bs => do
    if hashes.contains b.hash then throw (.repeated (.bundledTwice index))
    if ctx.isPending b.hash then throw (.repeated (.bundledPendingAt index))
    let signer := b.tx.body.signer
    let nonce := b.tx.body.nonce
    if nonces.contains (signer, nonce) then throw (.repeated (.nonceTwice index nonce))
    let sequence ← (ctx.ledger.sequence signer).mapError .ofLedger
    if nonce < sequence then throw (.repeated (.nonceUsed index nonce sequence))
    ctx.checkRepeats (b.hash :: hashes) ((signer, nonce) :: nonces) (index + 1) bs

/-- Checks from position `index` on that the bidder signs nothing behind another signer. -/
def checkSandwich (bidder : Address) :
    (othersSeen : Bool) → (index : Nat) → List Bundled → Except Rejection Unit
  | _, _, [] => .ok ()
  | othersSeen, index, b :: bs =>
    if b.tx.body.signer = bidder then
      -- The bidder would follow a transaction of someone else.
      if othersSeen then .error (.sandwich index) else checkSandwich bidder false (index + 1) bs
    else checkSandwich bidder true (index + 1) bs

/-- Moves the coins of a transaction's messages. -/
def payMessages (signer : Address) (messages : List Message) : LedgerAction Overlay Unit :=
  messages.forM fun m =>
    match m.transfer? with
    | some (target, coin) => Overlay.transfer signer target coin
    | none => pure ()

/-- Pays the fee of a bundled transaction, unless it is exempt, and moves its coins. -/
def payBundled (exempt : List String) (b : Bundled) : LedgerAction Overlay Unit := do
  if !b.tx.isFree exempt then Overlay.debit b.tx.body.signer b.tx.body.fee
  payMessages b.tx.body.signer b.tx.body.messages

/-- Pays the price, the fee of the bid's transaction, and then the bundle in order. -/
def payChunk (exempt : List String) (bid : BidCandidate) (bundle : List Bundled) :
    LedgerAction Overlay Unit := do
  Overlay.debit bid.offer.bidder bid.offer.price
  -- The carrier is never exempt from its fee.
  Overlay.debit bid.offer.bidder bid.tx.body.fee
  bundle.forM (payBundled exempt)

/-- Checks that the whole chunk can be paid, in simulation. -/
def checkSolvency (ctx : BidContext) (bid : BidCandidate) (bundle : List Bundled) :
    Except Rejection Unit :=
  ((payChunk ctx.exempt bid bundle).run.run (.ofView ctx.ledger)).1.mapError .ofLedger

/-- Accepts an admissible bid, and returns what it places in the block: its own transaction, then
the bundle. -/
def accept (ctx : BidContext) (bid : BidCandidate) : Except Rejection (List BlockTx) := do
  if bid.tx.body.timeout ≤ ctx.height then throw (.expired bid.tx.body.timeout ctx.height)
  -- Cheap checks come first; the ledger is read only for bundles that are well formed.
  let bundle ← ctx.checkStructure bid
  ctx.checkRepeats [] [(bid.tx.body.signer, bid.tx.body.nonce)] 0 bundle
  if ctx.params.frontRunningProtection then checkSandwich bid.offer.bidder false 0 bundle
  -- The price has to be in the denomination of the auction, whatever its amount.
  let price := bid.offer.price
  let reserve := ctx.params.reserve
  if price.denom ≠ ctx.params.denom ∨ price.amount < reserve.amount then
    throw (.belowReserve price reserve)
  ctx.checkSolvency bid bundle
  return .ofRaw bid.raw bid.tx.body.gas :: bundle.map Bundled.toBlockTx

end BidContext

end LaneAuction
