import LaneAuction.Auction.Bid
import LaneAuction.Lane
import Std.Data.ExtTreeSet

/-!
# Pending transactions

All pending transactions by hash, whatever their lane. Two more maps follow from the records and are
kept beside them: which pending bids hold a hash in their bundle, and which pending bid has a key. A
transaction is never pending on its own and at the same time part of a pending bundle.
-/

namespace LaneAuction

/-- A set of hashes. -/
abbrev Hashes := Std.ExtTreeSet Hash

/-- What the pool keeps of a pending bid. -/
structure PendingBid where
  bidder : Address
  price : Coin
  /-- The hashes of the bundled transactions, in their order. -/
  bundle : List Hash
  /-- The digest of the bundle. -/
  digest : Hash
deriving DecidableEq, Repr

/-- The key of a pending bid. -/
def PendingBid.key (b : PendingBid) : BidKey := ⟨b.bidder, b.digest⟩

/-- The pending form of a bid. -/
def PendingBid.ofOffer (offer : BundleBid) : PendingBid :=
  ⟨offer.bidder, offer.price, offer.hashes, offer.digest⟩

/-- One pending transaction. -/
structure PendingTx where
  hash : Hash
  raw : Bytes
  tx : Transaction
  lane : LaneKind
  /-- The number of its arrival. -/
  arrival : Nat
  bid : Option PendingBid
deriving DecidableEq

/-- The hashes that a transaction's bundle holds; none if it is no bid. -/
def PendingTx.bundle (r : PendingTx) : List Hash := (r.bid.map PendingBid.bundle).getD []

/-- All pending transactions. -/
structure Arena where
  records : Std.ExtTreeMap Hash PendingTx
  /-- For every bundled hash, the pending bids that hold it. -/
  claims : Std.ExtTreeMap Hash Hashes
  /-- For every key, the hash of the pending bid. -/
  bids : Std.ExtTreeMap BidKey Hash
  /-- The number of the next arrival. -/
  next : Nat

namespace Arena

/-- Nothing is pending. -/
def empty : Arena := ⟨∅, ∅, ∅, 0⟩

instance : Inhabited Arena := ⟨empty⟩

/-- The number of pending transactions. -/
def size (a : Arena) : Nat := a.records.size

/-- The pending transaction with a hash. -/
def get? (a : Arena) (hash : Hash) : Option PendingTx := a.records[hash]?

/-- True if a hash is pending on its own. -/
def isPending (a : Arena) (hash : Hash) : Bool := a.records.contains hash

/-- True if a pending bundle holds a hash. -/
def isClaimed (a : Arena) (hash : Hash) : Bool := a.claims.contains hash

/-- The pending bid with a key. -/
def bid? (a : Arena) (key : BidKey) : Option PendingTx := a.bids[key]?.bind a.get?

/-- Adds a bid to those that hold a hash. -/
def claim (bid : Hash) (claims : Std.ExtTreeMap Hash Hashes) (hash : Hash) :
    Std.ExtTreeMap Hash Hashes :=
  claims.alter hash fun bids => some ((bids.getD ∅).insert bid)

/-- Takes a bid from those that hold a hash. -/
def release (bid : Hash) (claims : Std.ExtTreeMap Hash Hashes) (hash : Hash) :
    Std.ExtTreeMap Hash Hashes :=
  claims.alter hash fun bids => (bids.map (·.erase bid)).filter fun left => !left.isEmpty

/-- Adds a transaction under the number that its record has. -/
def add (a : Arena) (r : PendingTx) : Except Rejection Arena := do
  -- Nothing is changed before the last check is passed.
  if a.isPending r.hash then throw (.repeated (.pending r.hash))
  if a.isClaimed r.hash then throw (.repeated (.claimed r.hash))
  let records := a.records.insert r.hash r
  match r.bid with
  | none => return { a with records }
  | some bid =>
    -- The first bundled transaction that is pending on its own is named.
    match bid.bundle.find? a.isPending with
    | some hash => throw (.repeated (.bundledPending hash))
    | none =>
      return { a with
        records
        claims := bid.bundle.foldl (claim r.hash) a.claims
        bids := a.bids.insert bid.key r.hash }

/-- Adds a transaction under the next number. -/
def insert (a : Arena) (r : PendingTx) : Except Rejection Arena := do
  let a' ← a.add { r with arrival := a.next }
  return { a' with next := a.next + 1 }

/-- Puts back a transaction that was taken out, under its old number. -/
def restore (a : Arena) (r : PendingTx) : Except Rejection Arena := a.add r

/-- Forgets a pending transaction. -/
def forget (a : Arena) (r : PendingTx) : Arena :=
  let records := a.records.erase r.hash
  match r.bid with
  | none => { a with records }
  | some bid =>
    { a with
      records
      claims := bid.bundle.foldl (release r.hash) a.claims
      -- A later bid under the same key keeps its entry.
      bids := if a.bids[bid.key]? = some r.hash then a.bids.erase bid.key else a.bids }

/-- Takes out the transaction with a hash. -/
def remove (a : Arena) (hash : Hash) : Option (PendingTx × Arena) :=
  (a.get? hash).map fun r => (r, a.forget r)

/-- The pending bids whose bundle holds one of the hashes, in the order of their hashes. -/
def overlapping (a : Arena) (hashes : List Hash) : List Hash :=
  let bids := hashes.foldl (fun bids hash => bids ∪ (a.claims[hash]?).getD ∅) (∅ : Hashes)
  bids.toList

/-- The pending bids that may no longer be included at a height, in the order of their hashes. -/
def expired (a : Arena) (height : UInt64) : List Hash :=
  (a.records.values.filter fun r => r.bid.isSome && r.tx.body.timeout ≤ height).map
    PendingTx.hash

end Arena

end LaneAuction
