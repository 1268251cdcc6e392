import LaneAuction.Proofs.Auction.Payout
import LaneAuction.Proofs.Block.Bids
import LaneAuction.Proofs.Engine.Chain

/-!
# Accepted bids can be paid

On the ledger that a block was accepted with, the price of its bid can be settled: its two parts and
nothing else leave the bidder's account, for the escrow account and the proposer. Then all that is
left of the bid's chunk can be paid (`accepted_bid_paid`).
-/

namespace LaneAuction

namespace Engine

variable {start : Engine} {config : Config} {isSigned : Transaction → Bool}

/-- A block that is accepted has no bid, and nothing is settled; or the bid at the head of the
auction's segment is settled, in two parts that make up its price, and what is left of its chunk can
be paid. Settling moves the two parts out of the bidder's account, one to the escrow account and one
to the proposer, whichever of the three coincide, and no account holds anything else than before. -/
theorem accepted_bid_paid (hstart : ofConfig config isSigned = .ok start) (calls : List Call)
    {ledger : Accounts} (hsupply : ∀ denom, ledger.exactSupply denom ≤ Amount.largest.toNat)
    {raws : List Bytes} {maxBytes maxGas height : UInt64}
    (haccept : (start.after calls).process raws maxBytes maxGas height ledger.view = .ok ())
    (proposer : Address) :
    ∃ cut : List (List ReceivedTx), raws.map ReceivedTx.decode = cut.flatten.map .ok ∧
      ((start.after calls).context height ledger.view fun _ => false).IsCut
        (.ofLimits maxBytes maxGas) .zero ((start.after calls).plan none) cut ∧
      ((∀ t ∈ cut.flatten, t.tx.containsBid = false) ∧
          (start.after calls).settleWinner raws proposer ledger = (.ok none, ledger) ∨
        ∃ lane first rest offer bundle split settled,
          ((start.after calls).context height ledger.view fun _ => false).Wins
            ((start.after calls).plan none) cut lane first rest offer ∧
          List.Forall₂ ((start.after calls).context height ledger.view
            fun _ => false).toBidContext.Opens offer.bundle bundle ∧
          (start.after calls).settleWinner raws proposer ledger = (.ok (some split), settled) ∧
          settle (start.after calls).params offer.bidder offer.price proposer ledger =
            (.ok split, settled) ∧
          distribute offer.price (start.after calls).params.proposerFee = .ok split ∧
          split.IsOf offer.price ∧
          (∀ h, ((settled.funds h).toNat : Int) = (ledger.funds h).toNat +
            (⟨offer.bidder, split.escrow, some (start.after calls).params.escrow⟩ : Payment).change
              h +
            (⟨offer.bidder, split.proposer, some proposer⟩ : Payment).change h) ∧
          ∃ overlay, (BidContext.payBehindPrice (start.after calls).config.free.exempt
              ⟨first.block.hash, first.block.raw, first.tx, offer⟩ bundle).run.run
              (.ofView settled.view) = (.ok (), overlay)) := by
  have hvalid := (chainValid_ofConfig hstart).after calls
  have hbounded := Accounts.bounded_funds hsupply
  obtain ⟨txs, hdecode, -, -, -, cut, rfl, hcut⟩ := LaneContext.exists_isCut_of_review haccept
  have hwinner := winningBid?_eq_findSome? hdecode
  refine ⟨cut, hdecode, hcut, ?_⟩
  obtain hnone | ⟨lane, first, rest, offer, hwins⟩ := hcut.winner_cases
  · -- The settlement finds no bid either.
    rw [LaneContext.findSome?_bid?_eq_none hnone] at hwinner
    refine .inl ⟨hnone, ?_⟩
    simp only [settleWinner, hwinner]
  · rw [hwins.firstBid] at hwinner
    obtain ⟨chunk, haccepted⟩ := hwins.accepted
    obtain ⟨bundle, hbid, -⟩ := BidContext.accept_eq_ok_iff.mp haccepted
    -- What was simulated covers the price, so it is settled.
    obtain ⟨left, -, -, hleft, -⟩ := BidContext.exists_left_of_checkSolvency hbid.solvent rfl
    have hcovered : offer.price.amount ≤ ledger.funds ⟨offer.bidder, offer.price.denom⟩ := by
      have hleft := Amount.sub?_eq_some_iff.mp hleft
      have hcovered : offer.price.amount.toNat ≤
          (ledger.funds ⟨offer.bidder, offer.price.denom⟩).toNat := hleft ▸ Nat.le_add_left _ _
      exact hcovered
    have hfee := (AuctionParams.validate_eq_ok_iff.mp hvalid.params).proposerFee
    obtain ⟨split, settled, hsettle, hdistribute, hpaid⟩ :=
      Accounts.exists_settle hfee hbounded hcovered proposer
    have hsplit := Split.isOf_of_distribute hdistribute
    -- Nobody is left with less than in the simulation, so the rest of the chunk is paid, too.
    have hrest := BidContext.exists_run_payBehindPrice hbid.solvent rfl (hpaid.bounded hbounded)
      (hpaid.takesAtMost hsplit)
    refine .inr ⟨lane, first, rest, offer, bundle, split, settled, hwins, hbid.opens, ?_,
      hsettle, hdistribute, hsplit, hpaid.eq_add_change, hrest⟩
    simp only [settleWinner, hwinner, hsettle]
    rfl

end Engine

/-! ### A block with a bid -/

/-- A ledger with one holding, which covers the bid and its bundle. -/
def Accounts.endowed : Accounts := empty.setBalance .zero ⟨⟨2000, by decide⟩, "stake"⟩

/-- The supply of the ledger is in range in every denomination. -/
theorem Accounts.exactSupply_endowed_le (denom : Denom) :
    endowed.exactSupply denom ≤ Amount.largest.toNat := by
  have hentries : endowed.balances.toList = [(⟨.zero, "stake"⟩, ⟨2000, by decide⟩)] := rfl
  have hle : 2000 ≤ Amount.largest.toNat := by decide
  rw [exactSupply, hentries]
  by_cases hdenom : "stake" = denom <;> simp [hdenom, hle]

open Transaction

/-- A bid and its bundle. -/
def biddingBlock : List Bytes := [rawOfBody bidding, rawOfBody payment]

/-- The hash of the bid's transaction. -/
theorem toHex_hash_bidding : (Transaction.hash (rawOfBody bidding)).toHex =
    "0x136a1aa5aae28f7604870c2f153d833c021b4554f2c0f5b3337f5bd25adf170b" := by
  decide +kernel

/-- The bid's transaction and the payment in its bundle have different hashes. -/
theorem nodup_hashes_biddingBlock : (biddingBlock.map Transaction.hash).Nodup := by
  have hne := hash_ne_of_toHex toHex_hash_bidding toHex_hash_payment (by decide)
  simpa [biddingBlock] using hne

/-- What a node makes of the block. -/
def receivedBidding : List ReceivedTx :=
  [⟨.ofRaw (rawOfBody bidding) 100, ofBody bidding⟩,
    ⟨.ofRaw (rawOfBody payment) 100, ofBody payment⟩]

/-- The block decodes to what a node makes of it. -/
private theorem map_decode_biddingBlock :
    biddingBlock.map ReceivedTx.decode = receivedBidding.map .ok := by
  simp only [biddingBlock, List.map_cons, List.map_nil, ReceivedTx.decode,
    decode_rawOfBody bidding_wellFormed, decode_rawOfBody payment_wellFormed]
  rfl

namespace LaneContext

/-- The default configuration on a ledger that covers the bid. -/
def endowed : LaneContext := { plain with ledger := Accounts.endowed.view }

/-- The same, with some fee for the proposer and somebody to receive the rest. -/
def paying (fee : Decimal) (escrow : Address) : LaneContext :=
  { endowed with params := { AuctionParams.default with proposerFee := fee, escrow } }

/-- The bid of the block. -/
def biddingCandidate : BidCandidate where
  hash := Transaction.hash (rawOfBody bidding)
  raw := rawOfBody bidding
  tx := ofBody bidding
  offer := biddingOffer

/-- Its bundle, opened. -/
def bundledPayment : Bundled where
  hash := Transaction.hash (rawOfBody payment)
  raw := rawOfBody payment
  tx := ofBody payment

/-- Who is paid, and how much of the price, plays no part in admission. -/
private theorem admissible_paying (fee : Decimal) (escrow : Address) :
    (paying fee escrow).toBidContext.Admissible biddingCandidate [bundledPayment] where
  inTime := by
    show (1 : UInt64) < bidding.timeout
    decide
  bidder := rfl
  nonempty := by simp [biddingCandidate, biddingOffer]
  size := by
    show biddingOffer.bundle.length ≤ AuctionParams.default.maxBundleSize.toNat
    decide
  opens := .cons ⟨decode_rawOfBody payment_wellFormed, rfl, rfl, rfl, rfl⟩ .nil
  -- One payment, which is not the bid, and its signer has not used the nonce.
  fresh :=
    { hashes_nodup := by simp
      hashes_new := by simp
      notPending := fun _ _ => rfl
      nonces_nodup := by simp
      nonces_new := by decide
      unused := by
        intro b hb
        obtain rfl := List.mem_singleton.mp hb
        exact ⟨0, rfl, by decide⟩ }
  sandwich := fun _ => by decide
  denom := rfl
  reserve := by
    show AuctionParams.default.reserve.amount ≤ biddingOffer.price.amount
    decide
  -- The simulated payments take no more than the one account of the ledger has.
  solvent := rfl

/-- The bid is admissible under the default parameters. -/
theorem admissible_bidding : endowed.toBidContext.Admissible biddingCandidate [bundledPayment] :=
  admissible_paying .zero .zero

/-- A block of the bid and its bundle is accepted. -/
theorem review_biddingBlock (fee : Decimal) (escrow : Address) :
    (paying fee escrow).review (.ofLimits 4000 0) plainPlan biddingBlock = .ok () := by
  have haccept := BidContext.accept_eq_ok_iff.mpr ⟨_, admissible_paying fee escrow, rfl⟩
  have hcut : (paying fee escrow).IsCut (.ofLimits 4000 0) .zero plainPlan
      [receivedBidding, [], [], []] := by
    refine ⟨⟨?_, ?_, by decide +kernel⟩, isSegment_nil, isSegment_nil, rfl, trivial⟩
    · exact .inr ⟨_, _, biddingOffer, rfl, rfl, rfl, ⟨_, haccept⟩, rfl⟩
    · rintro _ ⟨⟩
      show receivedBidding.length ≤ AuctionParams.default.maxBundleSize.toNat + 1
      decide
  exact review_of_isCut (by decide) map_decode_biddingBlock (fun _ _ => rfl)
    nodup_hashes_biddingBlock (by decide +kernel) rfl hcut

end LaneContext

namespace Engine

/-- A lane is registered, and prices are to be paid in halves. -/
def halvingCalls : List Call :=
  [.registerLane .zero ⟨"spare", .zero, 3⟩, .updateParams .zero RemoteLedger.halves]

/-- Half of the price of the bid. -/
def halfPrice : Coin := ⟨⟨125, by decide⟩, "stake"⟩

/-- The price of an accepted bid is 250. It leaves the bidder's account; half of it arrives at the
escrow account and half at the proposer. The three accounts are different. -/
theorem accepted_bid_paid_bidding :
    (∀ denom, Accounts.endowed.exactSupply denom ≤ Amount.largest.toNat) ∧
      (plain.after halvingCalls).process biddingBlock 4000 0 1 Accounts.endowed.view = .ok () ∧
      [biddingOffer.bidder, RemoteLedger.halves.escrow, .replicate 3].Nodup ∧
      ∃ settled, (plain.after halvingCalls).settleWinner biddingBlock (.replicate 3)
          Accounts.endowed = (.ok (some ⟨halfPrice, halfPrice⟩), settled) ∧
        (settled.balance biddingOffer.bidder "stake").toNat = 1750 ∧
        (settled.balance RemoteLedger.halves.escrow "stake").toNat = 125 ∧
        (settled.balance (.replicate 3) "stake").toNat = 125 := by
  have haccept : (plain.after halvingCalls).process biddingBlock 4000 0 1 Accounts.endowed.view =
      .ok () := LaneContext.review_biddingBlock _ _
  refine ⟨Accounts.exactSupply_endowed_le, haccept, by decide, ?_⟩
  obtain ⟨cut, hdecode, -, hpaid⟩ := accepted_bid_paid ofConfig_default _
    Accounts.exactSupply_endowed_le haccept (.replicate 3)
  rw [map_decode_biddingBlock] at hdecode
  have hcut : receivedBidding = cut.flatten :=
    List.map_injective_iff.mpr (fun _ _ h => Except.ok.inj h) hdecode
  obtain ⟨hnone, -⟩ | ⟨lane, first, rest, offer, bundle, split, settled, hwins, -, hsettled, -,
    hdistribute, -, hfunds, -⟩ := hpaid
  · -- The block has a bid.
    rw [← hcut] at hnone
    have hbid := hnone _ List.mem_cons_self
    exact absurd hbid (by decide)
  · have hoffer := hwins.firstBid
    rw [← hcut] at hoffer
    obtain rfl := Option.some.inj hoffer
    -- The fee takes a half of the price.
    have hhalves : distribute biddingOffer.price RemoteLedger.halves.proposerFee =
        .ok ⟨halfPrice, halfPrice⟩ := by decide
    obtain rfl := Except.ok.inj (hhalves.symm.trans hdistribute)
    -- The two payments change the balances of the three by numbers that are known.
    refine ⟨settled, hsettled, ?_, ?_, ?_⟩
    · exact Int.ofNat_inj.mp ((hfunds ⟨biddingOffer.bidder, "stake"⟩).trans (by decide))
    · exact Int.ofNat_inj.mp ((hfunds ⟨RemoteLedger.halves.escrow, "stake"⟩).trans (by decide))
    · exact Int.ofNat_inj.mp ((hfunds ⟨.replicate 3, "stake"⟩).trans (by decide))

end Engine

end LaneAuction
