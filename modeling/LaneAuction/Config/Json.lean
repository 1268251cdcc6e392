import LaneAuction.Config
import LaneAuction.Json.Parse
import LaneAuction.Json.Print

/-!
# The JSON form of configurations

Records are objects with their fields in a fixed order; coins, decimals, addresses and hashes are
strings. When a configuration is read, what it leaves out has the default value, fields with other
names are skipped, and the result is validated.
-/

namespace LaneAuction

open Json (Value need needOr)

/-- The text of a value, if it is a string that some reader accepts. -/
def Json.Value.textBy? {ε α : Type} (read : String → Except ε α) (v : Value) : Option α :=
  v.text?.bind fun text => (read text).toOption

/-- Reads a coin from its text. -/
def Coin.ofJson? : Value → Option Coin := Value.textBy? Coin.ofText

/-- Reads a decimal from its text. -/
def Decimal.ofJson? : Value → Option Decimal := Value.textBy? Decimal.ofText

/-- Reads an address or a hash from its digits. -/
def Bytes32.ofJson? (v : Value) : Option Bytes32 := v.text?.bind Bytes32.ofHex?

namespace TieBreak

/-- The name of a way to break ties. -/
def name : TieBreak → String
  | .firstSeen => "first_seen"
  | .bidHash => "bid_hash"

/-- The way to break ties with a name. -/
def ofName? (name : String) : Option TieBreak :=
  if name = "first_seen" then some .firstSeen
  else if name = "bid_hash" then some .bidHash
  else none

/-- Reads a name, which may also be the only member of an object, with the value null. -/
def ofJson? : Value → Option TieBreak
  | .object [(name, .null)] => name.text?.bind ofName?
  | v => v.text?.bind ofName?

end TieBreak

namespace Lane

def toJson (lane : Lane) : Value :=
  .ofFields [("id", .ofText lane.id), ("block_space_fraction", .ofText lane.fraction.toText),
    ("order", .ofNat lane.order.toNat)]

def ofJson? (v : Value) : Option Lane := do
  let f ← v.fields? ["id", "block_space_fraction", "order"]
  return {
    id := ← need f "id" Value.text?
    fraction := ← need f "block_space_fraction" Decimal.ofJson?
    order := ← need f "order" Value.word32? }

/-- Lanes as members of an object, each under the name beside it. -/
def mapToJson (lanes : List (String × Lane)) : Value :=
  .ofFields (lanes.map fun (name, lane) => (name, lane.toJson))

/-- Reads lanes by name, in the order of their names. Of several lanes of one name the last one
counts. -/
def mapOfJson? (v : Value) : Option (List (String × Lane)) := do
  let lanes ← (← v.members?).mapM fun (name, v) => return (name, ← ofJson? v)
  return (Std.ExtTreeMap.ofList lanes).toList

end Lane

namespace AuctionParams

def toJson (p : AuctionParams) : Value :=
  .ofFields [("max_bundle_size", .ofNat p.maxBundleSize.toNat),
    ("reserve_fee", .ofText p.reserve.toText),
    ("min_bid_increment", .ofText p.increment.toText),
    ("proposer_fee", .ofText p.proposerFee.toText),
    ("escrow_account", .ofText p.escrow.toHex),
    ("front_running_protection", .bool p.frontRunningProtection),
    ("cleared_bid_retention", .ofNat p.retention.toNat)]

def ofJson? (v : Value) : Option AuctionParams := do
  let f ← v.fields? ["max_bundle_size", "reserve_fee", "min_bid_increment", "proposer_fee",
    "escrow_account", "front_running_protection", "cleared_bid_retention"]
  return {
    maxBundleSize := ← need f "max_bundle_size" Value.word32?
    reserve := ← need f "reserve_fee" Coin.ofJson?
    increment := ← need f "min_bid_increment" Coin.ofJson?
    proposerFee := ← need f "proposer_fee" Decimal.ofJson?
    escrow := ← need f "escrow_account" Bytes32.ofJson?
    frontRunningProtection := ← need f "front_running_protection" Value.bool?
    retention := ← needOr f "cleared_bid_retention" default.retention Value.word64? }

end AuctionParams

namespace ClearedBid

def toJson (b : ClearedBid) : Value :=
  .ofFields [("bidder", .ofText b.bidder.toHex), ("bundle_digest", .ofText b.digest.toHex),
    ("amount", .ofText b.price.toText), ("height", .ofNat b.height.toNat)]

def ofJson? (v : Value) : Option ClearedBid := do
  let f ← v.fields? ["bidder", "bundle_digest", "amount", "height"]
  return {
    bidder := ← need f "bidder" Bytes32.ofJson?
    digest := ← need f "bundle_digest" Bytes32.ofJson?
    price := ← need f "amount" Coin.ofJson?
    height := ← need f "height" Value.word64? }

end ClearedBid

namespace Genesis

def toJson (g : Genesis) : Value :=
  .ofFields [("lanes", .list (g.lanes.map Lane.toJson)), ("params", g.params.toJson),
    ("cleared_bids", .list (g.clearedBids.map ClearedBid.toJson))]

def ofJson? (v : Value) : Option Genesis := do
  let f ← v.fields? ["lanes", "params", "cleared_bids"]
  return {
    lanes := ← need f "lanes" (Value.list? Lane.ofJson?)
    params := ← need f "params" AuctionParams.ofJson?
    clearedBids := ← needOr f "cleared_bids" [] (Value.list? ClearedBid.ofJson?) }

end Genesis

namespace AuctionSettings

def toJson (s : AuctionSettings) : Value :=
  .ofFields [("id", .ofText s.id), ("tie_break", .ofText s.tieBreak.name),
    ("max_pending_bids", .ofNat s.maxPending.toNat)]

def ofJson? (v : Value) : Option AuctionSettings := do
  let f ← v.fields? ["id", "tie_break", "max_pending_bids"]
  return {
    id := ← needOr f "id" default.id Value.text?
    tieBreak := ← needOr f "tie_break" default.tieBreak TieBreak.ofJson?
    maxPending := ← needOr f "max_pending_bids" default.maxPending Value.word64? }

end AuctionSettings

namespace FreeSettings

def toJson (s : FreeSettings) : Value :=
  .ofFields [("id", .ofText s.id), ("exempt_msg_types", .list (s.exempt.map Value.ofText)),
    ("max_txs", .ofNat s.maxTxs.toNat)]

def ofJson? (v : Value) : Option FreeSettings := do
  let f ← v.fields? ["id", "exempt_msg_types", "max_txs"]
  return {
    id := ← needOr f "id" default.id Value.text?
    exempt := ← needOr f "exempt_msg_types" default.exempt (Value.list? Value.text?)
    maxTxs := ← needOr f "max_txs" default.maxTxs Value.word64? }

end FreeSettings

namespace BaseSettings

def toJson (s : BaseSettings) : Value :=
  .ofFields [("id", .ofText s.id), ("max_txs", .ofNat s.maxTxs.toNat),
    ("tie_break", .ofText s.tieBreak.name)]

def ofJson? (v : Value) : Option BaseSettings := do
  let f ← v.fields? ["id", "max_txs", "tie_break"]
  return {
    id := ← needOr f "id" default.id Value.text?
    maxTxs := ← needOr f "max_txs" default.maxTxs Value.word64?
    tieBreak := ← needOr f "tie_break" default.tieBreak TieBreak.ofJson? }

end BaseSettings

/-- Why a text is not that of a configuration. -/
inductive ConfigError where
  /-- The text is not JSON, or not of the form of a configuration. -/
  | unreadable
  | invalid (fault : ConfigFault)
deriving DecidableEq, Repr

namespace Config

def toJson (c : Config) : Value :=
  .ofFields [("authority", .ofText c.authority.toHex), ("genesis", c.genesis.toJson),
    ("fee_denom", .ofText c.feeDenom), ("auction_lane", c.auction.toJson),
    ("free_lane", c.free.toJson), ("base_lane", c.base.toJson)]

def ofJson? (v : Value) : Option Config := do
  let f ← v.fields? ["authority", "genesis", "fee_denom", "auction_lane", "free_lane", "base_lane"]
  return {
    authority := ← needOr f "authority" default.authority Bytes32.ofJson?
    genesis := ← needOr f "genesis" default.genesis Genesis.ofJson?
    feeDenom := ← needOr f "fee_denom" default.feeDenom Value.text?
    auction := ← needOr f "auction_lane" default.auction AuctionSettings.ofJson?
    free := ← needOr f "free_lane" default.free FreeSettings.ofJson?
    base := ← needOr f "base_lane" default.base BaseSettings.ofJson? }

/-- The text of a configuration. -/
def toText (c : Config) : String := c.toJson.toLines

/-- Reads and validates a configuration. -/
def ofText (text : String) : Except ConfigError Config :=
  match (Value.parse? text).bind ofJson? with
  | none => .error .unreadable
  | some c => (c.validate.mapError .invalid).map fun _ => c

end Config

end LaneAuction
