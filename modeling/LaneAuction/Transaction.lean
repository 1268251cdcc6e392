import LaneAuction.Digest.Blake3
import LaneAuction.Wire

/-!
# Transactions

A transaction is a body of one or more messages, signed by one account. It travels as bytes: the
body, then 64 bytes of signature, and nothing after them. A bundle bid is a message that offers a
price for placing a list of other raw transactions right behind its own.
-/

namespace LaneAuction

/-- An offer of `price` for placing `bundle`, in its order, behind the bid. -/
structure BundleBid where
  bidder : Address
  price : Coin
  bundle : List Bytes
deriving DecidableEq, Repr, Inhabited

/-- One action of a transaction. -/
inductive Message where
  | send (target : Address) (amount : Coin)
  | delegate (validator : Address) (amount : Coin)
  | redelegate (source target : Address) (amount : Coin)
  | bid (offer : BundleBid)
deriving DecidableEq, Repr

namespace Message

/-- The type of messages that send coins. -/
def sendUrl : String := "/bank.MsgSend"

/-- The type of messages that delegate. -/
def delegateUrl : String := "/staking.MsgDelegate"

/-- The type of messages that redelegate. -/
def redelegateUrl : String := "/staking.MsgBeginRedelegate"

/-- The type of bundle bids. -/
def bidUrl : String := "/auction.MsgAuctionBid"

/-- The name of the message's type. -/
def typeUrl : Message → String
  | .send .. => sendUrl
  | .delegate .. => delegateUrl
  | .redelegate .. => redelegateUrl
  | .bid .. => bidUrl

/-- The coin that the message moves out of its signer, and the account it lands on. Redelegation
moves what is already bonded, and the price of a bid is settled on its own. -/
def transfer? : Message → Option (Address × Coin)
  | .send target amount => some (target, amount)
  | .delegate validator amount => some (validator, amount)
  | .redelegate .. => none
  | .bid _ => none

/-- True of a bundle bid. -/
def isBid : Message → Bool
  | .bid _ => true
  | _ => false

/-- The wire form: a tag and the fields. -/
def write : Message → Bytes
  | .send target amount => Wire.Write.u8 1 ++ target.toList ++ Wire.Write.coin amount
  | .delegate validator amount => Wire.Write.u8 2 ++ validator.toList ++ Wire.Write.coin amount
  | .redelegate source target amount =>
    Wire.Write.u8 3 ++ source.toList ++ target.toList ++ Wire.Write.coin amount
  | .bid offer =>
    Wire.Write.u8 4 ++ offer.bidder.toList ++ Wire.Write.coin offer.price
      ++ Wire.Write.count offer.bundle.length ++ offer.bundle.flatMap Wire.Write.varBytes

/-- Reads a message by its tag. -/
def read : Wire.Reader Message := do
  match ← Wire.Read.u8 with
  | 1 => return .send (← Wire.Read.bytes32) (← Wire.Read.coin)
  | 2 => return .delegate (← Wire.Read.bytes32) (← Wire.Read.coin)
  | 3 => return .redelegate (← Wire.Read.bytes32) (← Wire.Read.bytes32) (← Wire.Read.coin)
  | 4 =>
    let bidder ← Wire.Read.bytes32
    let price ← Wire.Read.coin
    let count ← Wire.Read.count
    let bundle ← Wire.Read.replicate Wire.Read.varBytes count
    return .bid ⟨bidder, price, bundle⟩
  | tag => throw (.unknownMessage tag)

end Message

/-- What a transaction's signature covers. -/
structure Transaction.Body where
  signer : Address
  nonce : UInt64
  fee : Coin
  gas : UInt64
  /-- The first height at which the transaction may no longer be included; `0` for none. -/
  timeout : UInt64
  messages : List Message
deriving DecidableEq, Repr, Inhabited

/-- A decoded transaction, with the bytes that its signature covers. -/
structure Transaction where
  body : Transaction.Body
  signature : Signature
  signed : Bytes
deriving DecidableEq, Inhabited

namespace Transaction

/-- The most messages a transaction may have. -/
def maxMessages : Nat := 64

/-- The wire form of a body. -/
def Body.write (b : Body) : Bytes :=
  b.signer.toList ++ Wire.Write.u64 b.nonce ++ Wire.Write.coin b.fee ++ Wire.Write.u64 b.gas
    ++ Wire.Write.u64 b.timeout ++ Wire.Write.count b.messages.length
    ++ b.messages.flatMap Message.write

/-- Reads a body, which has at least one message. -/
def Body.read : Wire.Reader Body := do
  let signer ← Wire.Read.bytes32
  let nonce ← Wire.Read.u64
  let fee ← Wire.Read.coin
  let gas ← Wire.Read.u64
  let timeout ← Wire.Read.u64
  let count ← Wire.Read.count
  if count = 0 ∨ maxMessages < count then throw (.messageCount count maxMessages)
  let messages ← Wire.Read.replicate Message.read count
  return ⟨signer, nonce, fee, gas, timeout, messages⟩

/-- The raw bytes of a body under a secret seed. -/
def Body.sign (b : Body) (seed : Bytes32) : Bytes :=
  b.write ++ (Ed25519.sign seed b.write).toList

/-- Reads a whole transaction that starts with the given bytes. -/
def read (raw : Bytes) : Wire.Reader Transaction := do
  let body ← Body.read
  let left ← get
  let signature ← Wire.Read.signature
  Wire.Read.finish
  return ⟨body, signature, raw.take (raw.length - left.length)⟩

/-- Decodes raw bytes, all of them. -/
def decode (raw : Bytes) : Except Wire.Error Transaction := ((read raw).take raw).1

/-- The hash that names a raw transaction. -/
def hash (raw : Bytes) : Hash := Blake3.hash raw

/-- True if the signer's key signed the body. -/
def isSigned (tx : Transaction) : Bool :=
  Ed25519.verify tx.signed tx.signature tx.body.signer

/-- The bid of a transaction whose only message is one. -/
def bid? (tx : Transaction) : Option BundleBid :=
  match tx.body.messages with
  | [.bid offer] => some offer
  | _ => none

/-- True if any message is a bid. -/
def containsBid (tx : Transaction) : Bool := tx.body.messages.any Message.isBid

end Transaction

end LaneAuction
