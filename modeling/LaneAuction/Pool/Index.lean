import LaneAuction.Config
import LaneAuction.Lane.Kind
import LaneAuction.Pool.Arena

/-!
# The order of a lane

Every pending transaction has a position in its lane: higher ranks come first, and among equal ranks
either the earlier arrival or the lower hash. An index keeps the hashes of a lane by position.
-/

namespace LaneAuction

/-- Where a transaction stands in its lane. -/
structure Position where
  /-- The price of a bid or the rank of a fee. -/
  rank : Nat
  /-- The hash, if that breaks ties. -/
  hash : Option Hash
  /-- The number of arrival, if that breaks ties. -/
  arrival : Nat
deriving DecidableEq, Repr

namespace Position

/-- Higher ranks come first; then positions by arrival, in that order, and positions by hash. -/
instance : Ord Position :=
  ⟨compareLex (fun p q => compareOn rank q p) (compareLex (compareOn hash) (compareOn arrival))⟩

instance : Std.TransOrd Position :=
  inferInstanceAs (Std.TransCmp
    (compareLex (fun p q => compareOn rank q p) (compareLex (compareOn hash) (compareOn arrival))))

instance : Std.LawfulEqOrd Position where
  eq_of_compare {p q} h := by
    have h' := compareLex_eq_eq.1 h
    have h'' := compareLex_eq_eq.1 h'.2
    cases p; cases q
    rw [Position.mk.injEq]
    exact ⟨(Std.LawfulEqOrd.eq_of_compare (α := Nat) h'.1).symm,
      Std.LawfulEqOrd.eq_of_compare h''.1, Std.LawfulEqOrd.eq_of_compare h''.2⟩

end Position

/-- How lanes rank their transactions. -/
structure Ranking where
  feeDenom : Denom
  auctionTie : TieBreak
  baseTie : TieBreak
deriving DecidableEq, Repr, Inhabited

/-- The ranking that a configuration asks for. -/
def Ranking.ofConfig (c : Config) : Ranking := ⟨c.feeDenom, c.auction.tieBreak, c.base.tieBreak⟩

/-- The position with a rank and a way to break ties. -/
def PendingTx.positionBy (r : PendingTx) (rank : Nat) : TieBreak → Position
  | .firstSeen => ⟨rank, none, r.arrival⟩
  | .bidHash => ⟨rank, some r.hash, 0⟩

/-- The position of a transaction: bids rank by price, base transactions by fee, and free ones only
by arrival. -/
def Ranking.position (ranking : Ranking) (r : PendingTx) : Position :=
  match r.lane with
  | .auction =>
    r.positionBy ((r.bid.map fun b => b.price.amount.toNat).getD 0) ranking.auctionTie
  | .base => r.positionBy (feeRank r.tx.body.fee ranking.feeDenom) ranking.baseTie
  | .free => r.positionBy 0 .firstSeen

/-- The hashes of a lane by position, and their positions. -/
structure LaneIndex where
  order : Std.ExtTreeMap Position Hash
  positions : Std.ExtTreeMap Hash Position

namespace LaneIndex

/-- Nothing stands in the lane. -/
def empty : LaneIndex := ⟨∅, ∅⟩

instance : Inhabited LaneIndex := ⟨empty⟩

/-- The number of hashes that have a position. -/
def size (i : LaneIndex) : Nat := i.positions.size

/-- Puts a hash at a position. -/
def insert (i : LaneIndex) (position : Position) (hash : Hash) : LaneIndex :=
  ⟨i.order.insert position hash, i.positions.insert hash position⟩

/-- Takes a hash from its position. -/
def erase (i : LaneIndex) (hash : Hash) : LaneIndex :=
  match i.positions[hash]? with
  | some position => ⟨i.order.erase position, i.positions.erase hash⟩
  | none => i

/-- The hashes in the order of the lane. -/
def toList (i : LaneIndex) : List Hash := i.order.values

end LaneIndex

end LaneAuction
