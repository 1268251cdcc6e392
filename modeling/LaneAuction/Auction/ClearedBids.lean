import LaneAuction.Auction.Bid
import LaneAuction.Saturating

/-!
# The history of cleared bids

For every bid that was included in a block: the highest price it cleared at, and the height of the
last block that held it. For a number of blocks after that, a bid under the same key must raise the
price. The history is part of the chain's state.
-/

namespace LaneAuction

/-- One entry of the history, as it is exported. -/
structure ClearedBid where
  bidder : Address
  digest : Hash
  price : Coin
  /-- The last height at which the bid was cleared. -/
  height : UInt64
deriving DecidableEq, Repr

/-- The key of an entry. -/
def ClearedBid.key (b : ClearedBid) : BidKey := ⟨b.bidder, b.digest⟩

/-- The price and the last height of a cleared bid. -/
structure Clearing where
  price : Coin
  height : UInt64
deriving DecidableEq, Repr

/-- The later height, and the higher price if it is in the same denomination. -/
def Clearing.join (old new : Clearing) : Clearing where
  price :=
    if old.price.denom = new.price.denom ∧ old.price.amount < new.price.amount then new.price
    else old.price
  height := if old.height < new.height then new.height else old.height

/-- The clearing of every key in the history. -/
structure ClearedBids where
  entries : Std.ExtTreeMap BidKey Clearing
deriving DecidableEq

namespace ClearedBids

/-- Nothing was cleared. -/
def empty : ClearedBids := ⟨∅⟩

instance : Inhabited ClearedBids := ⟨empty⟩

/-- Records that a bid was cleared. -/
def record (h : ClearedBids) (key : BidKey) (clearing : Clearing) : ClearedBids :=
  ⟨h.entries.alter key fun
    | none => some clearing
    | some old => some (old.join clearing)⟩

/-- The history of a list of entries. -/
def ofList (bids : List ClearedBid) : ClearedBids :=
  bids.foldl (fun h b => h.record b.key ⟨b.price, b.height⟩) empty

/-- The price at which a key was cleared. -/
def price? (h : ClearedBids) (key : BidKey) : Option Coin := h.entries[key]?.map Clearing.price

/-- Keeps what was cleared less than `retention` blocks before `height`. -/
def prune (h : ClearedBids) (height retention : UInt64) : ClearedBids :=
  ⟨h.entries.filter fun _ clearing => height < clearing.height.addSat retention⟩

/-- The entries in the order of their keys. -/
def toList (h : ClearedBids) : List ClearedBid :=
  h.entries.toList.map fun (key, clearing) =>
    ⟨key.bidder, key.digest, clearing.price, clearing.height⟩

/-- The number of entries. -/
def size (h : ClearedBids) : Nat := h.entries.size

/-- Checks a bid against the price at which its key was cleared. -/
def check (h : ClearedBids) (offer : BundleBid) (increment : Coin) : Except Rejection Unit :=
  match h.price? offer.key with
  | some previous => checkIncrement offer.price previous increment
  | none => .ok ()

end ClearedBids

end LaneAuction
