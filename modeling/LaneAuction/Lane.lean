import LaneAuction.Decimal

/-!
# Lanes

A lane is a part of the block, with a share of its space and a place in its order. What a lane is
for is its kind: bundle bids, fee-exempt transactions, or all others.
-/

namespace LaneAuction

/-- What a lane is for. -/
inductive LaneKind where
  | auction
  | free
  | base
deriving DecidableEq, Repr, Inhabited

/-- One part of the block. -/
structure Lane where
  id : String
  /-- The share of the block that the lane may fill; zero stands for all that is free. -/
  fraction : Decimal
  /-- The place in the block; lower orders come first. -/
  order : UInt32
deriving DecidableEq, Repr, Inhabited

/-- What is wrong with a lane, or with a set of lanes. -/
inductive LaneFault where
  | emptyId
  | longId (id : String)
  /-- The id has a character outside its alphabet. -/
  | badId (id : String)
  | fractionAboveOne (id : String) (fraction : Decimal)
  | repeatedId (id : String)
  /-- The orders, sorted, are not `0, 1, 2, …`. -/
  | gapInOrders (orders : List UInt32)
  /-- The sum of all fractions is out of range. -/
  | fractionsOverflow
  | fractionsAboveOne (sum : Decimal)
  /-- A new lane has the id of an old one. -/
  | registered (id : String)
  /-- A new lane does not take the next order. -/
  | notNext (id : String) (order : UInt32) (next : Nat)
deriving DecidableEq, Repr

/-- The most bytes a lane id may have. -/
def Lane.maxIdLength : Nat := 32

/-- The wording of a fault in a lane. -/
def LaneFault.message : LaneFault → String
  | .emptyId => "lane id is empty"
  | .longId id => "lane id " ++ Text.quote id ++ s!" longer than {Lane.maxIdLength} chars"
  | .badId id => "lane id " ++ Text.quote id ++ " must match [a-z0-9_-]"
  | .fractionAboveOne id fraction =>
    "lane " ++ Text.quote id ++ s!": block space fraction {fraction} outside [0, 1]"
  | .repeatedId id => "duplicate lane id " ++ Text.quote id
  | .gapInOrders orders =>
    "lane orders must be contiguous from 0, found "
      ++ Text.bracketed (orders.map fun order => toString order.toNat)
  | .fractionsOverflow => "block space fractions overflow"
  | .fractionsAboveOne sum => s!"block space fractions sum to {sum}, above 1"
  | .registered id => "lane " ++ Text.quote id ++ " already registered"
  | .notNext id order next =>
    "lane " ++ Text.quote id
      ++ s!": order {order.toNat} breaks contiguity, next order is {next}"

namespace Lane

/-- The alphabet of lane ids. -/
def isIdChar (c : Char) : Bool := c.isLower || c.isDigit || c == '_' || c == '-'

/-- Checks what can be said of a lane on its own. -/
def validate (lane : Lane) : Except LaneFault Unit := do
  if lane.id.isEmpty then throw .emptyId
  if maxIdLength < lane.id.utf8ByteSize then throw (.longId lane.id)
  if !lane.id.toList.all isIdChar then throw (.badId lane.id)
  if !lane.fraction.isFraction then throw (.fractionAboveOne lane.id lane.fraction)

end Lane

end LaneAuction
