import LaneAuction.Governance

/-!
# The registry of lanes

The lanes of a chain in their order. Ids are unique, orders are `0, 1, 2, …` and the fractions sum
to at most one: `ofLanes` accepts exactly such sets of lanes, and every later change keeps them so.
Only the authority may add a lane at the end or change the fraction of one.
-/

namespace LaneAuction

/-- Lanes in their order. -/
structure Registry where
  lanes : List Lane
deriving DecidableEq, Repr, Inhabited

namespace Registry

/-- The sum of the fractions, in units. -/
def sumOfFractions (lanes : List Lane) : Nat :=
  lanes.foldl (fun sum lane => sum + lane.fraction.atomics.toNat) 0

/-- Checks that the fractions sum to at most one. -/
def checkFractions (lanes : List Lane) : Except LaneFault Unit :=
  match Decimal.ofAtomics? (sumOfFractions lanes) with
  | none => .error .fractionsOverflow
  | some sum => if sum.isFraction then .ok () else .error (.fractionsAboveOne sum)

/-- Checks each lane, and that no id comes twice. -/
def checkEach : (seen : List String) → List Lane → Except LaneFault Unit
  | _, [] => .ok ()
  | seen, lane :: lanes => do
    lane.validate
    if seen.contains lane.id then throw (.repeatedId lane.id)
    checkEach (lane.id :: seen) lanes

/-- Lanes sorted by order. -/
def sorted (lanes : List Lane) : List Lane :=
  lanes.mergeSort fun a b => a.order ≤ b.order

/-- True if the orders are `0, 1, 2, …`. -/
def areContiguous (orders : List UInt32) : Bool :=
  orders.map UInt32.toNat == List.range orders.length

/-- Takes a complete set of lanes, in any order. -/
def ofLanes (lanes : List Lane) : Except LaneFault Registry := do
  checkEach [] lanes
  let lanes := sorted lanes
  let orders := lanes.map Lane.order
  if !areContiguous orders then throw (.gapInOrders orders)
  checkFractions lanes
  return ⟨lanes⟩

/-- The lane with an id. -/
def find? (r : Registry) (id : String) : Option Lane := r.lanes.find? (·.id == id)

/-- The lane with an id, or an error. -/
def get (r : Registry) (id : String) : Except GovernanceError Lane :=
  match r.find? id with
  | some lane => .ok lane
  | none => .error (.notFound id)

/-- Adds a lane behind all others. -/
def register (r : Registry) (authority caller : Address) (lane : Lane) :
    Except GovernanceError Registry := do
  authorize authority caller
  lane.validate.mapError .lane
  if (r.find? lane.id).isSome then throw (.lane (.registered lane.id))
  if lane.order.toNat ≠ r.lanes.length then
    throw (.lane (.notNext lane.id lane.order r.lanes.length))
  let lanes := r.lanes ++ [lane]
  (checkFractions lanes).mapError .lane
  return ⟨lanes⟩

/-- Changes the fraction of a lane. -/
def update (r : Registry) (authority caller : Address) (lane : Lane) :
    Except GovernanceError Registry := do
  authorize authority caller
  lane.validate.mapError .lane
  let stored ← r.get lane.id
  if stored.order ≠ lane.order then throw (.orderFixed lane.id stored.order lane.order)
  let lanes := r.lanes.map fun old => if old.id = lane.id then lane else old
  (checkFractions lanes).mapError .lane
  return ⟨lanes⟩

/-- The lanes sorted by id. -/
def byId (r : Registry) : List Lane := r.lanes.mergeSort fun a b => a.id ≤ b.id

end Registry

end LaneAuction
