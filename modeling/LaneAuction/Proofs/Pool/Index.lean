import LaneAuction.Pool.Index
import LaneAuction.Proofs.OrderedMap

/-!
# Indexes and the order they keep

An index is valid for a partial map from hashes to positions (`LaneIndex.Valid`) if its two maps are
that map and its inverse. Inserting and erasing change the partial map at one hash.

The order of positions is the order that the ranking asks for: `Ranking.Before` says it of the
transactions.
-/

namespace LaneAuction

namespace Ranking

/-- What a lane ranks a transaction by. -/
def rank (ranking : Ranking) (r : PendingTx) : Nat :=
  match r.lane with
  | .auction => (r.bid.map fun b => b.price.amount.toNat).getD 0
  | .base => feeRank r.tx.body.fee ranking.feeDenom
  | .free => 0

/-- How a kind of lane breaks ties. -/
def tie (ranking : Ranking) : LaneKind → TieBreak
  | .auction => ranking.auctionTie
  | .base => ranking.baseTie
  | .free => .firstSeen

/-- One transaction of a lane stands before another: its rank is higher, or the ranks are equal and
it came first, or has the lower hash. -/
def Before (ranking : Ranking) (r s : PendingTx) : Prop :=
  ranking.rank s < ranking.rank r ∨ ranking.rank r = ranking.rank s ∧
    match ranking.tie r.lane with
    | .firstSeen => r.arrival < s.arrival
    | .bidHash => compare r.hash s.hash = .lt

variable {ranking : Ranking} {r s : PendingTx}

/-- A position is made of the rank and what breaks ties in the lane. -/
private theorem position_eq :
    ranking.position r = r.positionBy (ranking.rank r) (ranking.tie r.lane) := by
  unfold position rank tie
  cases r.lane <;> rfl

/-- The order of positions is the order that the ranking asks for. -/
theorem compare_position_eq_lt_iff (h : r.lane = s.lane) :
    compare (ranking.position r) (ranking.position s) = .lt ↔ ranking.Before r s := by
  have hcompare : ∀ p q : Position, compare p q = .lt ↔
      q.rank < p.rank ∨ p.rank = q.rank ∧
        (compare p.hash q.hash = .lt ∨ p.hash = q.hash ∧ p.arrival < q.arrival) := by
    intro p q
    show compareLex _ _ p q = _ ↔ _
    simp only [compareLex, compareOn, Ordering.then_eq_lt, Std.compare_eq_iff_eq,
      Nat.compare_eq_lt, @eq_comm _ p.rank]
  rw [hcompare, position_eq, position_eq, ← h, Before]
  cases ranking.tie r.lane with
  | firstSeen => simp [PendingTx.positionBy, Std.ReflOrd.compare_self]
  | bidHash => simp [PendingTx.positionBy, compare]

/-- Two transactions of a lane with one position have one hash or one arrival. -/
theorem hash_eq_or_arrival_eq (h : r.lane = s.lane)
    (hpos : ranking.position r = ranking.position s) : r.hash = s.hash ∨ r.arrival = s.arrival := by
  rw [position_eq, position_eq, ← h] at hpos
  cases htie : ranking.tie r.lane with
  | firstSeen =>
    rw [htie] at hpos
    exact .inr (congrArg Position.arrival hpos)
  | bidHash =>
    rw [htie] at hpos
    exact .inl (Option.some.inj (congrArg Position.hash hpos))

/-- Whoever comes first has no lower rank. -/
theorem Before.rank_le (h : ranking.Before r s) : ranking.rank s ≤ ranking.rank r := by
  obtain h | ⟨h, -⟩ := h
  · exact Nat.le_of_lt h
  · exact Nat.le_of_eq h.symm

/-- Nothing comes before itself. -/
theorem Before.ne (h : ranking.Before r s) : r ≠ s := by
  intro heq
  subst heq
  obtain h | ⟨-, h⟩ := h
  · omega
  · cases htie : ranking.tie r.lane with
    | firstSeen =>
      rw [htie] at h
      exact absurd h (Nat.lt_irrefl _)
    | bidHash =>
      rw [htie] at h
      simp [Std.ReflOrd.compare_self] at h

/-- No two transactions of a lane stand before each other. -/
theorem Before.asymm (h : ranking.Before r s) (hlane : r.lane = s.lane) : ¬ ranking.Before s r := by
  rw [← compare_position_eq_lt_iff hlane.symm]
  rw [← compare_position_eq_lt_iff hlane] at h
  intro h'
  exact Std.OrientedCmp.not_lt_of_lt h h'

end Ranking

namespace LaneIndex

variable {i : LaneIndex} {place? : Hash → Option Position} {position : Position} {hash : Hash}

/-- The two maps of an index are the given partial map and its inverse. -/
structure Valid (i : LaneIndex) (place? : Hash → Option Position) : Prop where
  positions_eq : ∀ hash, i.positions[hash]? = place? hash
  order_iff : ∀ {position hash}, i.order[position]? = some hash ↔ place? hash = some position

/-- The empty index has no positions. -/
theorem valid_empty : empty.Valid fun _ => none where
  positions_eq hash := by simp [empty]
  order_iff := by simp [empty]

namespace Valid

/-- Two hashes do not share a position. -/
private theorem inj (hi : i.Valid place?) {hash' : Hash} (h : place? hash = some position)
    (h' : place? hash' = some position) : hash = hash' := by
  have heq := hi.order_iff.mpr h
  rw [hi.order_iff.mpr h'] at heq
  exact (Option.some.inj heq).symm

/-- Inserting a new hash at a free position gives it that position. -/
theorem insert (hi : i.Valid place?) (hnew : place? hash = none)
    (hfree : ∀ hash', place? hash' ≠ some position) :
    (i.insert position hash).Valid fun hash' =>
      if hash = hash' then some position else place? hash' where
  positions_eq hash' := by
    simp only [LaneIndex.insert, Std.ExtTreeMap.getElem?_insert, Std.compare_eq_iff_eq,
      hi.positions_eq]
  order_iff {position' hash'} := by
    simp only [LaneIndex.insert, Std.ExtTreeMap.getElem?_insert, Std.compare_eq_iff_eq]
    by_cases hhash : hash = hash'
    · subst hhash
      by_cases hposition : position = position'
      · simp [hposition]
      · simp [hposition, hi.order_iff, hnew]
    · by_cases hposition : position = position'
      · -- Nothing else stands at the position that is taken.
        subst hposition
        simp [hhash, hfree]
      · simp [hhash, hposition, hi.order_iff]

/-- Erasing a hash takes its position away. -/
theorem erase (hi : i.Valid place?) (hash : Hash) :
    (i.erase hash).Valid fun hash' => if hash = hash' then none else place? hash' := by
  cases hplace : place? hash with
  | none =>
    -- A hash without a position is not there to be erased.
    have hsame : (fun hash' => if hash = hash' then none else place? hash') = place? := by
      funext hash'
      split
      · next h => rw [← h, hplace]
      · rfl
    rw [hsame]
    simpa [LaneIndex.erase, hi.positions_eq, hplace] using hi
  | some position =>
    simp only [LaneIndex.erase, hi.positions_eq, hplace]
    constructor
    case positions_eq =>
      intro hash'
      simp only [Std.ExtTreeMap.getElem?_erase, Std.compare_eq_iff_eq, hi.positions_eq]
    -- Positions and hashes are given up in pairs.
    case order_iff =>
      intro position' hash'
      simp only [Std.ExtTreeMap.getElem?_erase, Std.compare_eq_iff_eq]
      by_cases hhash : hash = hash'
      · subst hhash
        by_cases hposition : position = position'
        · simp [hposition]
        · simp [hposition, hi.order_iff, hplace]
      · by_cases hposition : position = position'
        · -- The position that is given up belonged to no other hash.
          subst hposition
          simp only [hhash, if_true, if_false, reduceCtorEq, false_iff]
          exact fun h => hhash (hi.inj hplace h)
        · simp [hhash, hposition, hi.order_iff]

/-- Erasing a hash and inserting it where it was gives the index as it was. -/
theorem insert_erase (hi : i.Valid place?) (h : place? hash = some position) :
    (i.erase hash).insert position hash = i := by
  have horder : i.order[position]? = some hash := hi.order_iff.mpr h
  have hpositions : i.positions[hash]? = some position := by rw [hi.positions_eq, h]
  simp only [LaneIndex.erase, hpositions, LaneIndex.insert,
    Std.ExtTreeMap.insert_erase horder, Std.ExtTreeMap.insert_erase hpositions]

end Valid

end LaneIndex

end LaneAuction
