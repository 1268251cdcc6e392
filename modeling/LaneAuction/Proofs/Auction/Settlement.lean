import LaneAuction.Auction.Settlement
import LaneAuction.Proofs.Auction.Admission
import LaneAuction.Proofs.Decimal
import LaneAuction.Proofs.Ledger.Overlay

/-!
# Settlement pays what was simulated

Admission simulates a chunk on balances that nobody receives the price on; settlement pays it to two
accounts that may take part in the bundle. So after settlement every account holds at least what it
held in the simulation, and what is left to pay of the chunk succeeds there as well
(`exists_run_payBehindPrice`).
-/

namespace LaneAuction

/-- The two parts are those of a price. -/
structure Split.IsOf (split : Split) (price : Coin) : Prop where
  escrow : split.escrow.denom = price.denom
  proposer : split.proposer.denom = price.denom
  sum : split.escrow.amount.toNat + split.proposer.amount.toNat = price.amount.toNat

/-- One part says what the other is. -/
theorem Split.IsOf.unique {split split' : Split} {price : Coin} (h : split.IsOf price)
    (h' : split'.IsOf price)
    (hproposer : split.proposer.amount.toNat = split'.proposer.amount.toNat) : split = split' := by
  have hescrow : split.escrow.amount.toNat = split'.escrow.amount.toNat := by
    have hsum := h.sum
    have hsum' := h'.sum
    omega
  have hescrowDenom := h.escrow.trans h'.escrow.symm
  have hproposerDenom := h.proposer.trans h'.proposer.symm
  obtain ⟨⟨rest, _⟩, ⟨share, _⟩⟩ := split
  obtain ⟨⟨rest', _⟩, ⟨share', _⟩⟩ := split'
  simp only [Split.mk.injEq, Coin.mk.injEq]
  exact ⟨⟨Amount.ext hescrow, hescrowDenom⟩, Amount.ext hproposer, hproposerDenom⟩

/-- With a fraction of the whole, every price is split, and only the proposer's part is rounded. -/
theorem exists_distribute {fee : Decimal} (hfee : fee.isFraction) (price : Coin) :
    ∃ split, distribute price fee = .ok split ∧ split.IsOf price ∧
      split.proposer.amount.toNat = fee.floorOf price.amount.toNat := by
  obtain ⟨share, rest, hshare, hfloor, hrest⟩ := Decimal.exists_share_and_rest hfee price.amount
  refine ⟨⟨⟨rest, price.denom⟩, ⟨share, price.denom⟩⟩, ?_, ⟨rfl, rfl, ?_⟩, hfloor⟩
  · rw [distribute, if_pos hfee, hshare]
    simp only [hrest]
  · exact (Amount.sub?_eq_some_iff.mp hrest).symm

/-- A price is split by a fraction of the whole only, and in one way. -/
theorem distribute_eq_ok_iff {price : Coin} {fee : Decimal} {split : Split} :
    distribute price fee = .ok split ↔ fee.isFraction ∧ split.IsOf price ∧
      split.proposer.amount.toNat = fee.floorOf price.amount.toNat := by
  constructor
  · intro h
    have hfee : fee.isFraction := by
      by_contra hfee
      rw [distribute, if_neg hfee] at h
      cases h
    obtain ⟨split', hsplit', hof⟩ := exists_distribute hfee price
    rw [h] at hsplit'
    rw [Except.ok.inj hsplit']
    exact ⟨hfee, hof⟩
  · rintro ⟨hfee, hof, hfloor⟩
    obtain ⟨split', hsplit', hof', hfloor'⟩ := exists_distribute hfee price
    rw [hsplit', hof'.unique hof (hfloor'.trans hfloor.symm)]

/-- The parts that a price is split into are parts of that price. -/
theorem Split.isOf_of_distribute {price : Coin} {fee : Decimal} {split : Split}
    (h : distribute price fee = .ok split) : split.IsOf price :=
  (distribute_eq_ok_iff.mp h).2.1

namespace Funds

variable {x y z : Funds} {source : Address} {coin coin' : Coin}

/-- At most a coin was taken, and from no other account. -/
def TakesAtMost (source : Address) (coin : Coin) (x y : Funds) : Prop :=
  ∀ h, (x h).toNat ≤ (y h).toNat + if h = ⟨source, coin.denom⟩ then coin.amount.toNat else 0

/-- What was taken in two parts was taken as their sum. -/
private theorem TakesAtMost.trans {price : Coin} (h : TakesAtMost source coin x y)
    (h' : TakesAtMost source coin' y z) (hdenom : coin.denom = price.denom)
    (hdenom' : coin'.denom = price.denom)
    (hsum : coin.amount.toNat + coin'.amount.toNat = price.amount.toNat) :
    TakesAtMost source price x z := by
  intro holding
  have hfirst := h holding
  have hsecond := h' holding
  rw [hdenom] at hfirst
  rw [hdenom'] at hsecond
  split <;> simp_all <;> omega

end Funds

namespace Split

variable {split : Split} {bidder escrow proposer : Address} {price : Coin} {x y : Funds}

/-- Both parts were moved out of the bidder's account, one after the other, and nothing else. -/
def PaidOut (split : Split) (bidder escrow proposer : Address) (x y : Funds) : Prop :=
  ∃ z, Funds.Moved bidder escrow split.escrow x z ∧ Funds.Moved bidder proposer split.proposer z y

/-- A payout keeps every supply within range. -/
theorem PaidOut.bounded (h : split.PaidOut bidder escrow proposer x y) (hx : x.Bounded) :
    y.Bounded := by
  obtain ⟨_, hescrow, hproposer⟩ := h
  exact hproposer.bounded (hescrow.bounded hx)

/-- A payout takes no more than the price, and nothing but from the bidder. -/
theorem PaidOut.takesAtMost (h : split.PaidOut bidder escrow proposer x y)
    (hsplit : split.IsOf price) : Funds.TakesAtMost bidder price x y := by
  obtain ⟨_, hescrow, hproposer⟩ := h
  exact Funds.TakesAtMost.trans hescrow.le_add hproposer.le_add hsplit.escrow hsplit.proposer
    hsplit.sum

end Split

namespace Accounts

variable {l : Accounts} {source target bidder : Address} {coin price : Coin}

/-- Where no supply is too large, a part that is covered is moved. An empty part is, without a
call. -/
private theorem exists_run_transferPart (hbounded : l.funds.Bounded) (target : Address)
    (hcovered : coin.amount ≤ l.funds ⟨source, coin.denom⟩) :
    ∃ l', (transferPart source target coin).run.run l = (.ok (), l') ∧
      Funds.Moved source target coin l.funds l'.funds := by
  rw [transferPart]
  split
  · next hzero => exact ⟨l, rfl, Funds.moved_of_isZero hzero source target l.funds⟩
  · obtain ⟨y, hmoved⟩ := Funds.exists_moved hbounded target hcovered
    obtain ⟨l', hrun, rfl⟩ := exists_run_transfer hmoved
    exact ⟨l', hrun, hmoved⟩

/-- A price that the bidder covers is split and paid out, whichever of the accounts coincide. -/
theorem exists_settle {params : AuctionParams} (hfee : params.proposerFee.isFraction)
    (hbounded : l.funds.Bounded) (hcovered : price.amount ≤ l.funds ⟨bidder, price.denom⟩)
    (proposer : Address) :
    ∃ split l', settle params bidder price proposer l = (.ok split, l') ∧
      distribute price params.proposerFee = .ok split ∧
      split.PaidOut bidder params.escrow proposer l.funds l'.funds := by
  obtain ⟨split, hdistribute, hsplit, -⟩ := exists_distribute hfee price
  have hsum := hsplit.sum
  have hcovered' := Amount.le_def.mp hcovered
  -- The two parts sum to the price, so the escrow part alone is covered.
  have hescrowCovered : split.escrow.amount ≤ l.funds ⟨bidder, split.escrow.denom⟩ := by
    rw [hsplit.escrow, Amount.le_def]
    omega
  obtain ⟨l₁, hescrow, hmoved₁⟩ :=
    exists_run_transferPart hbounded params.escrow hescrowCovered
  -- The first part leaves enough for the second.
  have hproposerCovered : split.proposer.amount ≤ l₁.funds ⟨bidder, split.proposer.denom⟩ := by
    have htakes := hmoved₁.le_add ⟨bidder, price.denom⟩
    rw [hsplit.escrow, if_pos rfl] at htakes
    rw [hsplit.proposer, Amount.le_def]
    omega
  obtain ⟨l₂, hproposer, hmoved₂⟩ :=
    exists_run_transferPart (hmoved₁.bounded hbounded) proposer hproposerCovered
  refine ⟨split, l₂, ?_, hdistribute, l₁.funds, hmoved₁, hmoved₂⟩
  -- Neither part fails, so nothing is taken back.
  have hpay : (pay bidder price params.escrow proposer split).run.run l = (.ok (), l₂) := by
    have hnot : ¬ l.balance bidder price.denom < price.amount := Nat.not_lt.mpr hcovered
    have hview : (Bank.view l).balance bidder price.denom = .ok (l.balance bidder price.denom) :=
      rfl
    simp only [pay, transferSplit, ExceptT.run_run_bind, ExceptT.run_run_get,
      ExceptT.run_run_liftM, ExceptT.run_run_tryCatch, hview, hnot, if_false, hescrow, hproposer]
  simp only [settle, hdistribute, hpay]

end Accounts

namespace BidContext

variable {ctx : BidContext} {bid : BidCandidate} {bundle : List Bundled} {l l' : Accounts}

/-- What is left to pay of a chunk once its price is settled: the fee of the bid's transaction, and
then the bundle in order. -/
def payBehindPrice (exempt : List String) (bid : BidCandidate) (bundle : List Bundled) :
    LedgerAction Overlay Unit := do
  Overlay.debit bid.offer.bidder bid.tx.body.fee
  bundle.forM (payBundled exempt)

/-- Paying for a bundled transaction succeeds where more is held, too. -/
private theorem carriesOver_payBundled (exempt : List String) (b : Bundled) :
    Overlay.CarriesOver (payBundled exempt b) := by
  have hmessages : Overlay.CarriesOver (payMessages b.tx.body.signer b.tx.body.messages) := by
    refine Overlay.CarriesOver.forM fun m _ => ?_
    split
    · exact Overlay.carriesOver_transfer _ _ _
    · exact Overlay.carriesOver_pure
  rw [payBundled]
  split
  · exact (Overlay.carriesOver_debit _ _).bind hmessages
  · exact hmessages

/-- Paying what is left of a chunk succeeds where more is held, too. -/
private theorem carriesOver_payBehindPrice (exempt : List String) (bid : BidCandidate)
    (bundle : List Bundled) : Overlay.CarriesOver (payBehindPrice exempt bid bundle) :=
  (Overlay.carriesOver_debit _ _).bind
    (Overlay.CarriesOver.forM fun b _ => carriesOver_payBundled exempt b)

/-- A solvent bid covers its price, and without it what is left of the chunk. -/
theorem exists_left_of_checkSolvency (h : ctx.checkSolvency bid bundle = .ok ())
    (hledger : ctx.ledger = l.view) :
    ∃ left o p, (l.funds ⟨bid.offer.bidder, bid.offer.price.denom⟩).sub? bid.offer.price.amount =
        some left ∧
      o.Shows (Function.update l.funds ⟨bid.offer.bidder, bid.offer.price.denom⟩ left) ∧
      (payBehindPrice ctx.exempt bid bundle).run.run o = (.ok (), p) := by
  rw [checkSolvency, hledger, Except.mapError_eq_ok_iff] at h
  -- In the simulation, too, the price is the first thing to be paid.
  have hsplit : payChunk ctx.exempt bid bundle =
      (do Overlay.debit bid.offer.bidder bid.offer.price
          payBehindPrice ctx.exempt bid bundle) := rfl
  rw [hsplit, ExceptT.run_run_bind] at h
  rcases hdebit : (Overlay.debit bid.offer.bidder bid.offer.price).run.run (.ofView l.view) with
    ⟨cause | ⟨⟩, o⟩
  · rw [hdebit] at h
    exact nomatch h
  rw [hdebit] at h
  obtain ⟨left, hleft, ho⟩ := Overlay.exists_of_run_debit (Overlay.shows_ofView l) hdebit
  exact ⟨left, o, _, hleft, ho, Prod.ext h rfl⟩

/-- Once the price is taken, and at most that, what is left of a solvent chunk can be paid. -/
theorem exists_run_payBehindPrice (h : ctx.checkSolvency bid bundle = .ok ())
    (hledger : ctx.ledger = l.view) (hbounded : l'.funds.Bounded)
    (htakes : Funds.TakesAtMost bid.offer.bidder bid.offer.price l.funds l'.funds) :
    ∃ p, (payBehindPrice ctx.exempt bid bundle).run.run (.ofView l'.view) = (.ok (), p) := by
  obtain ⟨left, o, p, hleft, ho, hrun⟩ := exists_left_of_checkSolvency h hledger
  have hleft := Amount.sub?_eq_some_iff.mp hleft
  -- Every account holds at least what it was left with in the simulation.
  have hcovers : (Overlay.ofView l'.view).Covers o := by
    refine ⟨_, l'.funds, ho, Overlay.shows_ofView l', ?_, hbounded⟩
    intro holding
    have hholding := htakes holding
    -- The simulation took the price from the bidder, and `l'` did not take more.
    by_cases heq : holding = ⟨bid.offer.bidder, bid.offer.price.denom⟩
    · subst heq
      rw [if_pos rfl] at hholding
      rw [Function.update_self, Amount.le_def]
      omega
    · rw [if_neg heq] at hholding
      rwa [Function.update_of_ne heq]
  obtain ⟨p', hrun', -⟩ := carriesOver_payBehindPrice ctx.exempt bid bundle o _ p hcovers hrun
  exact ⟨p', hrun'⟩

end BidContext

end LaneAuction
