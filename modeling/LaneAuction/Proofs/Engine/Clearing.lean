import LaneAuction.Proofs.Block.Clearing
import LaneAuction.Proofs.Engine.Admitted
import LaneAuction.Proofs.Engine.Settlement

/-!
# The best admissible bid is cleared

The auction lane lists its bids by price. So whoever bids more than the winner stands in front of
it and was passed over, whatever calls the engine has had (`auction_clears_best_bid`).
-/

namespace LaneAuction

variable {ctx : LaneContext} {budget : BlockSpace} {included : List Hash} {s : Selection}
  {winner r : PendingTx} {hash : Hash}

/-- The winner is one of the candidates. -/
private theorem LaneContext.Clears.mem {candidates : List PendingTx}
    (h : ctx.Clears budget included candidates (some winner) s) : winner ∈ candidates := by
  cases h with
  | winner heq => simp [heq]

/-- A pending bid stands in the auction lane, by its price. -/
private theorem Pool.Filed.rank_of_bid {p : Pool} {bid : PendingBid} (hp : p.Filed)
    (hr : p.arena.get? hash = some r) (hbid : r.bid = some bid) :
    r ∈ p.ordered .auction ∧ p.ranking.rank r = bid.price.amount.toNat := by
  have hlane : r.lane = .auction := hp.arena.lane_eq hr (by rw [hbid]; rfl)
  obtain rfl := hp.arena.hash_eq hr
  refine ⟨hp.mem_ordered_iff.mpr ⟨hr, hlane⟩, ?_⟩
  rw [Ranking.rank, hlane]
  simp only [hbid, Option.map_some, Option.getD_some]

/-- A pending bid of a higher price than the winner's loses. -/
private theorem Pool.Filed.loses {p : Pool} {winning bid : PendingBid} (hp : p.Filed)
    (h : ctx.Clears budget included (p.ordered .auction) (some winner) s)
    (hwinning : winner.bid = some winning) (hr : p.arena.get? hash = some r)
    (hbid : r.bid = some bid) (hlt : winning.price.amount < bid.price.amount) :
    ctx.Loses budget included s r := by
  obtain ⟨hmem, hrank⟩ := hp.rank_of_bid hr hbid
  obtain ⟨-, hwinnerRank⟩ := hp.rank_of_bid (hp.mem_ordered_iff.mp h.mem).1 hwinning
  have hrank : p.ranking.rank winner < p.ranking.rank r := by
    rwa [hrank, hwinnerRank, ← Amount.lt_def]
  refine h.loses hp.pairwise_ordered hmem ?_ ?_
  · intro heq
    subst heq
    exact Nat.lt_irrefl _ hrank
  · intro hbefore
    exact absurd hbefore.rank_le (Nat.not_le.mpr hrank)

namespace Engine

variable {start : Engine} {config : Config} {isSigned : Transaction → Bool}

/-- The auction selects the chunk of the first candidate that is admissible and can be placed, and
evicts those in front of it that fail; a fatal failure in front of it ends the search. Hence in the
pool of an engine, whatever calls it has had, every bid of a higher price than the winner's
loses; and so it does in every other pool that operations lead to. -/
theorem auction_clears_best_bid (hstart : ofConfig config isSigned = .ok start)
    (calls : List Call) (ctx : LaneContext) (budget : BlockSpace) (included : List Hash) :
    (∀ candidates s, ctx.select .auction budget included candidates = .ok s ↔
      ∃ winner, ctx.Clears budget included candidates winner s) ∧
    (∀ candidates e, ctx.select .auction budget included candidates = .error e ↔
      ctx.Aborts budget included candidates e) ∧
    (∀ winner s, ctx.Clears budget included ((start.after calls).pool.ordered .auction)
        (some winner) s →
      ∀ winning, winner.tx.bid? = some winning →
      ∀ hash r offer, (start.after calls).pool.arena.get? hash = some r → r.tx.bid? = some offer →
        winning.price.amount < offer.price.amount → ctx.Loses budget included s r) ∧
    ∀ (ranking : Ranking) (steps : List Pool.Step), (∀ step ∈ steps, step.IsProper) →
      ∀ winner s, ctx.Clears budget included ((Pool.ofSteps ranking steps).ordered .auction)
        (some winner) s →
      ∀ winning, winner.bid = some winning →
      ∀ hash r bid, (Pool.ofSteps ranking steps).arena.get? hash = some r → r.bid = some bid →
        winning.price.amount < bid.price.amount → ctx.Loses budget included s r := by
  refine ⟨fun _ _ => LaneContext.clear_eq_ok_iff, fun _ _ => LaneContext.clear_eq_error_iff, ?_, ?_⟩
  · intro winner s hclears winning hwinning hash r offer hr hoffer hlt
    have he := (filed_ofConfig hstart).after calls
    -- A pending bid is kept under the price that it offers.
    have hbid : ∀ {hash r offer}, (start.after calls).pool.arena.get? hash = some r →
        r.tx.bid? = some offer → r.bid = some (.ofOffer offer) := by
      intro hash r offer hr hoffer
      rw [(he.admitted hash r hr).bid_eq, hoffer, Option.map_some]
    have hwinner := (he.pool.mem_ordered_iff.mp hclears.mem).1
    exact he.pool.loses hclears (hbid hwinner hwinning) hr (hbid hr hoffer) hlt
  -- A pool by itself keeps bids under the price that they were inserted with.
  · intro ranking steps hproper winner s hclears winning hwinning hash r bid hr hbid hlt
    exact (Pool.valid_ofSteps hproper).loses hclears hwinning hr hbid hlt

open Transaction

/-- A transaction that is pending under a high price but is no bid. -/
def pretender : PendingTx where
  hash := .replicate 2
  raw := []
  tx := default
  lane := .auction
  arrival := 0
  bid := some ⟨.zero, ⟨⟨300, by decide⟩, "stake"⟩, [], .zero⟩

/-- A pending bid. -/
def contender : PendingTx where
  hash := .replicate 3
  raw := rawOfBody bidding
  tx := ofBody bidding
  lane := .auction
  arrival := 1
  bid := some ⟨.zero, biddingOffer.price, [.replicate 4], .replicate 4⟩

/-- Both are inserted. -/
def contest : List Pool.Step :=
  [pretender, contender].map fun r => .insertBid r AuctionParams.default.increment 0

/-- The pretender bids more, so it comes first. -/
private theorem ordered_contest :
    (Pool.ofSteps default contest).ordered .auction = [pretender, contender] := by
  rfl

/-- The pretender is no sole message and is evicted; the contender wins. -/
private theorem clears_contest :
    LaneContext.endowed.Clears (.ofLimits 4000 0) [] [pretender, contender]
      (some contender) ⟨[.ofRaw contender.raw 100, LaneContext.bundledPayment.toBlockTx],
        .ofTxs [.ofRaw contender.raw 100, LaneContext.bundledPayment.toBlockTx],
        [(pretender.hash, .malformed .notSoleMessage)]⟩ := by
  have hbid := LaneContext.admissible_bidding.withHash contender.hash
  have hadmits : LaneContext.endowed.Admits contender
      [.ofRaw contender.raw 100, LaneContext.bundledPayment.toBlockTx] :=
    ⟨biddingOffer, rfl, rfl, BidContext.accept_eq_ok_iff.mpr ⟨_, hbid, rfl⟩⟩
  have hsplit : [pretender, contender] = [pretender] ++ contender :: [] := rfl
  exact .winner hsplit (.evict (.notSole rfl) rfl .nil) hadmits
    ⟨by decide +kernel, by simp⟩

/-- A higher bid that is not admissible is refused, and so loses to a lower one that is. -/
theorem auction_clears_best_bid_contest : ofConfig .default (fun _ => true) = .ok plain ∧
    (∀ step ∈ contest, step.IsProper) ∧
    (∃ s, LaneContext.endowed.select .auction (.ofLimits 4000 0) []
      ((Pool.ofSteps default contest).ordered .auction) = .ok s ∧
      s.refused = [(pretender.hash, .malformed .notSoleMessage)] ∧
      LaneContext.endowed.Loses (.ofLimits 4000 0) [] s pretender) := by
  have hproper : ∀ step ∈ contest, step.IsProper := by decide
  obtain ⟨hok, -, -, hpool⟩ := auction_clears_best_bid ofConfig_default [] LaneContext.endowed
    (.ofLimits 4000 0) []
  have hclears := clears_contest
  rw [← ordered_contest] at hclears
  exact ⟨ofConfig_default, hproper, _, (hok _ _).mpr ⟨_, hclears⟩, rfl,
    hpool default contest hproper _ _ hclears _ rfl pretender.hash pretender _ rfl rfl (by decide)⟩

end Engine

end LaneAuction
