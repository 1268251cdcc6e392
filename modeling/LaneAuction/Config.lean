import LaneAuction.Auction.ClearedBids
import LaneAuction.Lane.Registry

/-!
# Configuration

What an engine is started from: the authority, the chain state of the genesis, and the settings of
the three lanes that have a kind.
-/

namespace LaneAuction

/-- Who comes first among transactions of equal rank. -/
inductive TieBreak where
  /-- The one that arrived first. -/
  | firstSeen
  /-- The one with the lower hash, which is the same on every node. -/
  | bidHash
deriving DecidableEq, Repr, Inhabited

/-- The state that a chain starts from. -/
structure Genesis where
  lanes : List Lane
  params : AuctionParams
  clearedBids : List ClearedBid
deriving DecidableEq, Repr

/-- The settings of the lane for bundle bids. -/
structure AuctionSettings where
  /-- The registered lane that takes the bids. -/
  id : String
  tieBreak : TieBreak
  /-- The most pending bids; zero for any number. -/
  maxPending : UInt64
deriving DecidableEq, Repr

/-- The settings of the lane for fee-exempt transactions. -/
structure FreeSettings where
  id : String
  /-- The message types without a fee. -/
  exempt : List String
  /-- The most transactions in a block; zero for any number. -/
  maxTxs : UInt64
deriving DecidableEq, Repr

/-- The settings of the lane for all other transactions. -/
structure BaseSettings where
  id : String
  /-- The most transactions in a block; zero for any number. -/
  maxTxs : UInt64
  tieBreak : TieBreak
deriving DecidableEq, Repr

/-- The configuration of an engine. -/
structure Config where
  authority : Address
  genesis : Genesis
  /-- The denomination that ranks fees. -/
  feeDenom : Denom
  auction : AuctionSettings
  free : FreeSettings
  base : BaseSettings
deriving DecidableEq, Repr

/-- One fifth, the share of the auction and of the free lane by default. -/
def Decimal.fifth : Decimal := ⟨⟨200000000000000000, by decide⟩⟩

def Genesis.default : Genesis where
  lanes := [⟨"mev", .fifth, 0⟩, ⟨"free", .fifth, 1⟩, ⟨"default", .zero, 2⟩]
  params := .default
  clearedBids := []

def AuctionSettings.default : AuctionSettings := ⟨"mev", .firstSeen, 0⟩

def FreeSettings.default : FreeSettings :=
  ⟨"free", [Message.delegateUrl, Message.redelegateUrl], 0⟩

def BaseSettings.default : BaseSettings := ⟨"default", 0, .firstSeen⟩

/-- What is wrong with a configuration. -/
inductive ConfigFault where
  | params (fault : ParamsFault)
  | lanes (fault : LaneFault)
  /-- The denomination of a cleared bid is not well formed. -/
  | clearedPrice (price : Coin)
  /-- Two cleared bids have the same key. -/
  | clearedTwice
  | feeDenom (denom : Denom)
  /-- Two kinds of lane are bound to one id. -/
  | sharedIds (ids : List String)
  /-- Bids are listed as exempt from fees. -/
  | bidsExempt
deriving DecidableEq, Repr

/-- The wording of a fault in a configuration. -/
def ConfigFault.message : ConfigFault → String
  | .params fault => s!"invalid config: invalid auction params: {fault.message}"
  | .lanes fault => s!"invalid config: invalid lane: {fault.message}"
  | .clearedPrice price => s!"invalid config: invalid cleared bid amount {price}"
  | .clearedTwice => "invalid config: duplicate cleared bid entry"
  | .feeDenom denom => "invalid config: invalid fee denom " ++ Text.quote denom
  | .sharedIds ids =>
    "invalid config: auction, free and base lanes need distinct ids, got "
      ++ Text.bracketed (ids.map Text.quote)
  | .bidsExempt => "invalid config: auction bids cannot be fee exempt"

namespace Config

/-- The configuration of an engine that sets nothing. -/
def default : Config where
  authority := .zero
  genesis := .default
  feeDenom := "stake"
  auction := .default
  free := .default
  base := .default

instance : Inhabited Config := ⟨default⟩

/-- Checks the denominations of cleared bids, and that no key comes twice. -/
def checkCleared : (seen : List BidKey) → List ClearedBid → Except ConfigFault Unit
  | _, [] => .ok ()
  | seen, bid :: bids => do
    if !bid.price.isValid then throw (.clearedPrice bid.price)
    if seen.contains bid.key then throw .clearedTwice
    checkCleared (bid.key :: seen) bids

/-- Checks a configuration; the first fault is reported. -/
def validate (c : Config) : Except ConfigFault Unit := do
  c.genesis.params.validate.mapError .params
  let _ ← (Registry.ofLanes c.genesis.lanes).mapError .lanes
  checkCleared [] c.genesis.clearedBids
  if !Denom.isValid c.feeDenom then throw (.feeDenom c.feeDenom)
  let ids := [c.auction.id, c.free.id, c.base.id]
  if ¬ ids.Nodup then throw (.sharedIds ids)
  if c.free.exempt.contains Message.bidUrl then throw .bidsExempt

/-- The id that a kind of lane is bound to. -/
def laneId (c : Config) : LaneKind → String
  | .auction => c.auction.id
  | .free => c.free.id
  | .base => c.base.id

/-- The kind of lane that is bound to an id. -/
def kindOf? (c : Config) (id : String) : Option LaneKind :=
  if id = c.auction.id then some .auction
  else if id = c.free.id then some .free
  else if id = c.base.id then some .base
  else none

end Config

end LaneAuction
