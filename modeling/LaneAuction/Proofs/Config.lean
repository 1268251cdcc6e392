import LaneAuction.Config
import LaneAuction.Proofs.Except

/-!
# Valid configurations

The checks of the parameters and of a configuration, as the conditions that they stand for.
-/

namespace LaneAuction

/-- What valid parameters are. -/
structure AuctionParams.Valid (p : AuctionParams) : Prop where
  bundleSize : p.maxBundleSize ≠ 0
  reserve : p.reserve.isValid
  denoms : p.reserve.denom = p.increment.denom
  retention : p.retention ≠ 0
  proposerFee : p.proposerFee.isFraction

/-- Parameters pass the check if and only if they are valid. -/
theorem AuctionParams.validate_eq_ok_iff {p : AuctionParams} : p.validate = .ok () ↔ p.Valid := by
  simp only [validate, Except.check_eq_ok_iff, Except.last_check_eq_ok_iff, Bool.not_eq_true',
    Bool.not_eq_false, ne_eq, Decidable.not_not]
  constructor
  · intro h
    obtain ⟨hsize, hreserve, hdenoms, hretention, hfee⟩ := h
    exact ⟨hsize, hreserve, hdenoms, hretention, hfee⟩
  · intro h
    exact ⟨h.bundleSize, h.reserve, h.denoms, h.retention, h.proposerFee⟩

namespace Config

variable {c : Config} {seen : List BidKey} {bids : List ClearedBid}

/-- Cleared bids pass the check if their prices are valid and their keys are new and distinct. -/
theorem checkCleared_eq_ok_iff : checkCleared seen bids = .ok () ↔
    (∀ bid ∈ bids, bid.price.isValid) ∧ (bids.map ClearedBid.key).Nodup ∧
      ∀ bid ∈ bids, bid.key ∉ seen := by
  -- For whatever keys were seen in front.
  induction bids generalizing seen with
  | nil => simp [checkCleared]
  | cons bid bids ih =>
    simp only [checkCleared, Except.check_eq_ok_iff, ih, Bool.not_eq_true', Bool.not_eq_false,
      List.contains_iff_mem]
    rw [List.forall_mem_cons, List.nodup_map_cons_and_new_iff]
    constructor
    · intro h
      obtain ⟨hprice, hkey, hprices, hrest⟩ := h
      exact ⟨⟨hprice, hprices⟩, hkey, hrest⟩
    · intro h
      obtain ⟨⟨hprice, hprices⟩, hkey, hrest⟩ := h
      exact ⟨hprice, hkey, hprices, hrest⟩

/-- What a valid configuration is. -/
structure Valid (c : Config) : Prop where
  params : c.genesis.params.validate = .ok ()
  lanes : ∃ registry, Registry.ofLanes c.genesis.lanes = .ok registry
  prices : ∀ bid ∈ c.genesis.clearedBids, bid.price.isValid
  keys : (c.genesis.clearedBids.map ClearedBid.key).Nodup
  feeDenom : Denom.isValid c.feeDenom
  ids : [c.auction.id, c.free.id, c.base.id].Nodup
  bids : Message.bidUrl ∉ c.free.exempt

/-- A configuration passes the check if and only if it is valid. -/
theorem validate_eq_ok_iff : c.validate = .ok () ↔ c.Valid := by
  simp only [validate, Except.check_eq_ok_iff, Except.last_check_eq_ok_iff, Except.bind_eq_ok_iff,
    Except.mapError_eq_ok_iff, Decidable.not_not, Bool.not_eq_true', Bool.not_eq_false,
    List.contains_iff_mem]
  constructor
  · intro h
    obtain ⟨_, hparams, registry, hlanes, _, hcleared, hdenom, hids, hbids⟩ := h
    obtain ⟨hprices, hkeys, -⟩ := checkCleared_eq_ok_iff.mp hcleared
    exact ⟨hparams, ⟨registry, hlanes⟩, hprices, hkeys, hdenom, hids, hbids⟩
  · intro h
    obtain ⟨registry, hlanes⟩ := h.lanes
    have hcleared : checkCleared [] c.genesis.clearedBids = .ok () :=
      checkCleared_eq_ok_iff.mpr ⟨h.prices, h.keys, by simp⟩
    exact ⟨(), h.params, registry, hlanes, (), hcleared, h.feeDenom, h.ids, h.bids⟩

end Config

end LaneAuction
