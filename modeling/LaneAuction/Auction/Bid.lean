import LaneAuction.Rejection
import LaneAuction.Transaction

/-!
# Bids

A bid is known by its bidder and by the digest of its bundle: the ordered hashes of the bundled
transactions. A second bid under the same key has to raise the price by the increment.
-/

namespace LaneAuction

/-- What a bid is known by: who bids, on which bundle. -/
structure BidKey where
  bidder : Address
  digest : Hash
deriving DecidableEq, Repr

namespace BidKey

/-- Keys are ordered by bidder, then by digest. -/
instance : Ord BidKey := ⟨compareLex (compareOn bidder) (compareOn digest)⟩

instance : Std.TransOrd BidKey :=
  inferInstanceAs (Std.TransCmp (compareLex (compareOn bidder) (compareOn digest)))

instance : Std.LawfulEqOrd BidKey where
  eq_of_compare {a b} h := by
    have h' := compareLex_eq_eq.1 h
    cases a; cases b
    rw [BidKey.mk.injEq]
    exact ⟨Std.LawfulEqOrd.eq_of_compare h'.1, Std.LawfulEqOrd.eq_of_compare h'.2⟩

end BidKey

namespace BundleBid

/-- The hashes of the bundled transactions, in their order. -/
def hashes (b : BundleBid) : List Hash := b.bundle.map Transaction.hash

/-- The digest of the bundle. -/
def digest (b : BundleBid) : Hash := Sha2.orderedDigest b.hashes

/-- The key of the bid. -/
def key (b : BundleBid) : BidKey := ⟨b.bidder, b.digest⟩

end BundleBid

/-- A transaction whose only message is a bid, under its hash. -/
structure BidCandidate where
  hash : Hash
  raw : Bytes
  tx : Transaction
  offer : BundleBid
deriving DecidableEq

/-- Takes the bid out of a transaction. -/
def BidCandidate.ofTransaction (hash : Hash) (raw : Bytes) (tx : Transaction) :
    Except Rejection BidCandidate :=
  match tx.bid? with
  | some offer => .ok ⟨hash, raw, tx, offer⟩
  | none => .error (.malformed .notSoleMessage)

/-- Checks that a price clears a previous one by the increment, in one denomination. Where the sum
is out of range, the largest amount is asked for. -/
def checkIncrement (price previous increment : Coin) : Except Rejection Unit :=
  if price.denom ≠ previous.denom ∨ price.amount < previous.amount.addSat increment.amount then
    .error (.belowIncrement price previous increment)
  else .ok ()

end LaneAuction
