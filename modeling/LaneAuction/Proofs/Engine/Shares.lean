import LaneAuction.Proofs.Auction.Settlement
import LaneAuction.Proofs.Engine.Governance
import LaneAuction.Proofs.Engine.Limits

/-!
# Shares are exact and safe

A share of an amount is the exact product with a decimal, rounded down once. A fraction of the whole
has a share of every amount and of every capacity, so a dimension of block space is never left whole
because its share could not be computed: not for any lane of an engine, whatever calls it has had.
The price of a bid is split by the fractions of the whole and by no other decimal, and the two parts
add up to the price (`shares_exact`).
-/

namespace LaneAuction

variable {fraction fee : Decimal} {price : Coin}

/-- Both dimensions of a share of block space were computed. -/
structure BlockSpace.SharedBy (space : BlockSpace) (fraction : Decimal) : Prop where
  bytes : fraction.mulFloor64 space.bytes = some (space.share fraction).bytes
  gas : fraction.mulFloor64 space.gas = some (space.share fraction).gas

/-- A fraction of the whole has an exact share of every space. -/
private theorem BlockSpace.sharedBy_of_isFraction (h : fraction.isFraction) (space : BlockSpace) :
    space.SharedBy fraction := by
  obtain ⟨bytes, hbytes, -⟩ := Decimal.mulFloor64_eq_some h space.bytes
  obtain ⟨gas, hgas, -⟩ := Decimal.mulFloor64_eq_some h space.gas
  constructor
  · rw [share, hbytes]
    rfl
  · rw [share, hgas]
    rfl

/-- A decimal splits every price if and only if it is at most one. -/
private theorem exists_distribute_iff :
    (∃ split, distribute price fee = .ok split) ↔ fee ≤ .one := by
  rw [← Decimal.isFraction_iff_le_one]
  constructor
  · rintro ⟨split, h⟩
    exact (distribute_eq_ok_iff.mp h).1
  · intro h
    obtain ⟨split, hsplit, -⟩ := exists_distribute h price
    exact ⟨split, hsplit⟩

namespace Engine

/-- What is computed as a share is the exact product, rounded down; a fraction of the whole has a
share of everything, which is no larger than the whole; and a price is split into its share and the
rest of it by such a fraction only. -/
theorem shares_exact :
    (∀ (d : Decimal) (amount product : Amount), d.mulFloor amount = some product →
      product.toNat = amount.toNat * d.atomics.toNat / Decimal.scale) ∧
    (∀ (d : Decimal) (capacity share : UInt64), d.mulFloor64 capacity = some share →
      share.toNat = capacity.toNat * d.atomics.toNat / Decimal.scale) ∧
    (∀ d : Decimal, d ≤ .one →
      (∀ amount, ∃ product, d.mulFloor amount = some product ∧ product ≤ amount) ∧
      (∀ capacity, ∃ share, d.mulFloor64 capacity = some share ∧ share ≤ capacity) ∧
      ∀ space : BlockSpace, space.SharedBy d) ∧
    (∀ config isSigned start calls only l, ofConfig config isSigned = .ok start →
      l ∈ (start.after calls).plan only → ∀ space : BlockSpace, space.SharedBy l.lane.fraction) ∧
    (∀ fee : Decimal, (∀ price, ∃ split, distribute price fee = .ok split) ↔ fee ≤ .one) ∧
    (∀ (price : Coin) (fee : Decimal) (split : Split), distribute price fee = .ok split ↔
      fee ≤ .one ∧ split.IsOf price ∧
        split.proposer.amount.toNat = price.amount.toNat * fee.atomics.toNat / Decimal.scale) ∧
    ∀ fee : Decimal, fee ≤ .one → ∀ price : Amount,
      ∃ share rest, fee.mulFloor price = some share ∧ price.sub? share = some rest := by
  refine ⟨?_, ?_, ?_, ?_, ?_, ?_, ?_⟩
  · exact fun d amount product h => Decimal.toNat_of_mulFloor h
  · exact fun d capacity share h => Decimal.toNat_of_mulFloor64 h
  · -- Up to one, the product is no larger than what it is a share of, so it is in range.
    intro d hd
    have hd := Decimal.isFraction_iff_le_one.mpr hd
    refine ⟨fun amount => ?_, fun capacity => ?_, BlockSpace.sharedBy_of_isFraction hd⟩
    · obtain ⟨product, hproduct, hfloor⟩ := Decimal.mulFloor_eq_some hd amount
      refine ⟨product, hproduct, ?_⟩
      rw [Amount.le_def, hfloor]
      exact Decimal.floorOf_le hd _
    · obtain ⟨share, hshare, hfloor⟩ := Decimal.mulFloor64_eq_some hd capacity
      refine ⟨share, hshare, ?_⟩
      rw [UInt64.le_iff_toNat_le, hfloor]
      exact Decimal.floorOf_le hd _
  -- The registry keeps every share at one or below, so the lanes in use are such shares.
  · intro config isSigned start calls only l hstart hl
    have he := (chainValid_ofConfig hstart).after calls
    exact BlockSpace.sharedBy_of_isFraction (he.isFraction hl)
  -- A price is split exactly when the fee is a share of it.
  · intro fee
    constructor
    · exact fun h => exists_distribute_iff.mp (h (.zero "stake"))
    · exact fun h price => exists_distribute_iff.mpr h
  · intro price fee split
    rw [← Decimal.isFraction_iff_le_one]
    exact distribute_eq_ok_iff
  · intro fee hfee price
    have hfraction := Decimal.isFraction_iff_le_one.mpr hfee
    obtain ⟨share, rest, hshare, -, hrest⟩ := Decimal.exists_share_and_rest hfraction price
    exact ⟨share, rest, hshare, hrest⟩

/-- All but the last unit of one. -/
def almostOne : Decimal := ⟨⟨999999999999999999, by decide⟩⟩

/-- The largest price is split by a fraction that does not divide it, and a lane of an engine that
was governed has a share of an odd block. -/
theorem shares_exact_almostOne : almostOne ≤ .one ∧
    (∃ split, distribute ⟨.largest, "stake"⟩ almostOne = .ok split ∧
      split.proposer.amount.toNat = 340282366920938463123092240510829747991 ∧
      split.escrow.amount.toNat = 340282366920938463464) ∧
    ⟨⟨"mev", .fifth, 0⟩, some .auction⟩ ∈ (plain.after spareCalls).plan none ∧
    ((⟨999, 101⟩ : BlockSpace).share .fifth).bytes.toNat = 199 := by
  have hone : almostOne ≤ .one := by decide
  have hlane : ⟨⟨"mev", .fifth, 0⟩, some .auction⟩ ∈ (plain.after spareCalls).plan none := by
    decide
  obtain ⟨-, hexact, -, hlanes, hsplits, hsplit, -⟩ := shares_exact
  refine ⟨hone, ?_, hlane, ?_⟩
  · obtain ⟨split, hdistribute⟩ := (hsplits almostOne).mpr hone ⟨.largest, "stake"⟩
    obtain ⟨-, hof, hfloor⟩ := (hsplit _ _ _).mp hdistribute
    have hproposer : split.proposer.amount.toNat = 340282366920938463123092240510829747991 :=
      hfloor.trans (by decide)
    have hprice : (⟨.largest, "stake"⟩ : Coin).amount.toNat =
        340282366920938463463374607431768211455 := by decide
    -- The escrow has what the fee leaves of the price.
    have hsum := hof.sum
    rw [hproposer, hprice] at hsum
    exact ⟨split, hdistribute, hproposer, by omega⟩
  · have hshared := hlanes _ _ _ spareCalls none _ ofConfig_default hlane ⟨999, 101⟩
    exact (hexact _ _ _ hshared.bytes).trans (by decide)

end Engine

end LaneAuction
