import LaneAuction.Proofs.Auction.Rules
import LaneAuction.Proofs.Wire.Transaction

/-!
# The nonces of a chunk

What a chunk uses up is one nonce of the bidder, for the bid's own transaction, and one for every
bundled transaction. Admission keeps all of them apart, and asks the ledger for the sequence of who
signs a bundled transaction. It does not ask for the bidder's: so nothing in an accepted chunk is a
replay if and only if the bid's own transaction happens to be none (`accepted_nonces`), and that may
be one (`accept_replayed`).
-/

namespace LaneAuction

/-- A nonce that an account has used up, as far as the ledger says. -/
def LedgerView.Replays (ledger : LedgerView) (key : Address × UInt64) : Prop :=
  ∃ sequence, ledger.sequence key.1 = .ok sequence ∧ key.2 < sequence

/-- Whether and how a payment fails depends on balances. -/
private theorem Payment.Fails.withSequence {ledger : LedgerView} {done : List Payment} {p : Payment}
    {e : LedgerError} (h : p.Fails ledger done e)
    (sequence : Address → Except LedgerError UInt64) :
    p.Fails { ledger with sequence } done e := by
  cases h with
  | unread hasks hread => exact .unread hasks hread
  | short hasks hheld hlt => exact .short hasks hheld hlt
  | targetUnread hasks hheld hle htarget hne hread =>
    exact .targetUnread hasks hheld hle htarget hne hread
  | overflow hasks hheld hle htarget hne hcurrent hlt =>
    exact .overflow hasks hheld hle htarget hne hcurrent hlt

namespace BidContext

variable {ctx : BidContext} {bid : BidCandidate} {bundle : List Bundled} {chunk : List BlockTx}
  {sequence : Address → Except LedgerError UInt64}

/-- The account and the nonce that the bid's own transaction uses up. -/
def carrierKey (bid : BidCandidate) : Address × UInt64 := (bid.tx.body.signer, bid.tx.body.nonce)

/-- What a chunk uses up, in the order of the block. -/
def chunkKeys (bid : BidCandidate) (bundle : List Bundled) : List (Address × UInt64) :=
  carrierKey bid :: bundle.map nonceKey

/-! ### Which sequences are read -/

/-- The same context with other sequences. -/
def withSequence (ctx : BidContext) (sequence : Address → Except LedgerError UInt64) : BidContext :=
  { ctx with ledger := { ctx.ledger with sequence } }

/-- The form of a bid does not depend on the sequences of the ledger. -/
private theorem checkStructure_withSequence :
    (ctx.withSequence sequence).checkStructure bid = ctx.checkStructure bid := by
  have hopen : ∀ index raws, (ctx.withSequence sequence).openBundle index raws =
      ctx.openBundle index raws := openBundle_congr rfl
  simp only [checkStructure, hopen]
  rfl

/-- What a bid can pay does not depend on the sequences of the ledger. -/
private theorem checkSolvency_withSequence :
    (ctx.withSequence sequence).checkSolvency bid bundle = ctx.checkSolvency bid bundle := by
  cases h : ctx.checkSolvency bid bundle with
  | ok _ =>
    have hcovered : List.AllPass (Payment.Covered ctx.ledger) [] (payments ctx.exempt bid bundle) :=
      checkSolvency_eq_ok_iff.mp h
    exact checkSolvency_eq_ok_iff.mpr hcovered
  | error e =>
    obtain ⟨cause, ⟨before, p, after, heq, hcovered, hfails⟩, hcause⟩ :=
      checkSolvency_eq_error_iff.mp h
    exact checkSolvency_eq_error_iff.mpr
      ⟨cause, ⟨before, p, after, heq, hcovered, hfails.withSequence sequence⟩, hcause⟩

/-- Of the bid's own transaction, the price and the fee are paid. -/
private theorem checkSolvency_congr {bid' : BidCandidate} (hoffer : bid.offer = bid'.offer)
    (hfee : bid.tx.body.fee = bid'.tx.body.fee) :
    ctx.checkSolvency bid bundle = ctx.checkSolvency bid' bundle := by
  simp only [checkSolvency, payChunk, hoffer, hfee]

/-- The verdict on a bid, be it accepted or rejected, depends on the sequences of those who sign its
bundle and on no others. -/
theorem accept_withSequence
    (h : ∀ bundle, List.Forall₂ ctx.Opens bid.offer.bundle bundle →
      ∀ b ∈ bundle, sequence b.tx.body.signer = ctx.ledger.sequence b.tx.body.signer) :
    (ctx.withSequence sequence).accept bid = ctx.accept bid := by
  rw [accept, accept, checkStructure_withSequence]
  cases hstructure : ctx.checkStructure bid with
  | error e => rfl
  | ok bundle =>
    have hagree := h bundle (checkStructure_eq_ok_iff.mp hstructure).opens
    have hrepeats : ∀ hashes nonces index, (ctx.withSequence sequence).checkRepeats hashes nonces
        index bundle = ctx.checkRepeats hashes nonces index bundle :=
      fun _ _ _ => checkRepeats_congr rfl hagree
    simp only [Except.ok_bind, hrepeats, checkSolvency_withSequence]
    rfl

/-! ### What is accepted -/

/-- Behind a fresh bundle, the pairs of signer and nonce of the whole chunk are distinct. -/
private theorem Fresh.nodup_chunkKeys (h : ctx.Fresh [] [carrierKey bid] bundle) :
    (chunkKeys bid bundle).Nodup := by
  refine List.nodup_cons.mpr ⟨fun hmem => ?_, h.nonces_nodup⟩
  obtain ⟨b, hb, heq⟩ := List.mem_map.mp hmem
  exact h.nonces_new b hb (List.mem_singleton.mpr heq)

/-- The bid's own transaction is the only one that may be a replay. -/
private theorem Fresh.not_replays_iff (h : ctx.Fresh [] [carrierKey bid] bundle) :
    (∀ key ∈ chunkKeys bid bundle, ¬ ctx.ledger.Replays key) ↔
      ¬ ctx.ledger.Replays (carrierKey bid) := by
  have hbundle : ∀ key ∈ bundle.map nonceKey, ¬ ctx.ledger.Replays key := by
    intro key hmem hreplays
    obtain ⟨b, hb, rfl⟩ := List.mem_map.mp hmem
    obtain ⟨sequence, hsequence, hunused⟩ := h.unused b hb
    obtain ⟨sequence', hsequence', hused⟩ := hreplays
    obtain rfl := Except.ok.inj (hsequence.symm.trans hsequence')
    exact UInt64.not_lt.mpr hunused hused
  rw [chunkKeys, List.forall_mem_cons]
  exact and_iff_left hbundle

/-- Replay protection covers the bundle, and the bid's own transaction only against the bundle. The
nonces of an accepted chunk are pairwise distinct, and those of the bundled transactions are still
to be used. So the whole chunk is free of replays if and only if the bid's own transaction is none;
and that was not asked, as the bid is accepted whatever the sequences of all accounts are that do
not sign in its bundle. -/
theorem accepted_nonces (h : ctx.accept bid = .ok chunk) :
    ∃ bundle, List.Forall₂ ctx.Opens bid.offer.bundle bundle ∧
      chunk = .ofRaw bid.raw bid.tx.body.gas :: bundle.map Bundled.toBlockTx ∧
      (chunkKeys bid bundle).Nodup ∧
      (∀ b ∈ bundle, ∃ sequence, ctx.ledger.sequence b.tx.body.signer = .ok sequence ∧
        sequence ≤ b.tx.body.nonce) ∧
      ((∀ key ∈ chunkKeys bid bundle, ¬ ctx.ledger.Replays key) ↔
        ¬ ctx.ledger.Replays (carrierKey bid)) ∧
      ∀ sequence : Address → Except LedgerError UInt64,
        (∀ b ∈ bundle, sequence b.tx.body.signer = ctx.ledger.sequence b.tx.body.signer) →
        (ctx.withSequence sequence).accept bid = .ok chunk := by
  -- All but the last part is read off the rules that an accepted bid keeps.
  obtain ⟨bundle, hbid, hchunk⟩ := accept_eq_ok_iff.mp h
  refine ⟨bundle, hbid.opens, hchunk, hbid.fresh.nodup_chunkKeys, hbid.fresh.unused,
    hbid.fresh.not_replays_iff, fun sequence hagree => ?_⟩
  rw [accept_withSequence, h]
  -- The bundle is opened in one way only.
  intro bundle' hopens
  have hopened : ctx.openBundle 0 bid.offer.bundle = .ok bundle :=
    openBundle_eq_ok_iff.mpr hbid.opens
  rw [openBundle_eq_ok_iff.mpr hopens] at hopened
  exact Except.ok.inj hopened ▸ hagree

/-! ### A bid behind its bidder's payment -/

open Transaction

/-- A ledger on which every account holds enough and has made one transaction. -/
def madeOne : LedgerView := ⟨fun _ _ => .ok ⟨4000, by decide⟩, fun _ => .ok 1⟩

/-- The default parameters on that ledger. -/
def afterOne : BidContext where
  height := 1
  params := .default
  ledger := madeOne
  exempt := []
  isSigned := fun _ => true
  isPending := fun _ => false

/-- A transaction with a bid on the bidder's second payment, under some nonce. -/
def carrying (nonce : UInt64) : Body :=
  { bidding with
    nonce
    messages := [.bid { biddingOffer with bundle := [rawOfBody laterPayment] }] }

/-- The carrier is well formed under every nonce. -/
private theorem carrying_wellFormed (nonce : UInt64) : (carrying nonce).WellFormed := by
  have hcount : 1 ≤ 1 ∧ 1 ≤ maxMessages := by decide
  refine ⟨bidding_wellFormed.fee, hcount, ?_⟩
  intro m hm
  obtain rfl := List.mem_singleton.mp hm
  have hlength : (rawOfBody laterPayment).length ≤ Wire.maxCount := by decide +kernel
  exact ⟨by decide, by decide, by simpa [Message.carried] using hlength⟩

/-- The bid in such a transaction. -/
def carried (nonce : UInt64) : BidCandidate where
  hash := Transaction.hash (rawOfBody (carrying nonce))
  raw := rawOfBody (carrying nonce)
  tx := ofBody (carrying nonce)
  offer := { biddingOffer with bundle := [rawOfBody laterPayment] }

/-- The second payment, opened. -/
def secondPayment : Bundled where
  hash := Transaction.hash (rawOfBody laterPayment)
  raw := rawOfBody laterPayment
  tx := ofBody laterPayment

/-- The bid is admissible under every nonce but the payment's. -/
private theorem admissible_carried {nonce : UInt64} (h : nonce ≠ 1) :
    afterOne.Admissible (carried nonce) [secondPayment] := by
  have hsize : 1 ≤ AuctionParams.default.maxBundleSize.toNat := by decide
  have hreserve : AuctionParams.default.reserve.amount ≤ biddingOffer.price.amount := by decide
  -- What is paid is the same under every nonce.
  have hpaid : afterOne.checkSolvency (carried 0) [secondPayment] = .ok () := rfl
  have hsolvent : afterOne.checkSolvency (carried nonce) [secondPayment] =
      afterOne.checkSolvency (carried 0) [secondPayment] := checkSolvency_congr rfl rfl
  refine ⟨?_, rfl, by simp [carried], hsize,
    .cons ⟨decode_rawOfBody laterPayment_wellFormed, rfl, rfl, rfl, rfl⟩ .nil, ?_, fun _ => rfl,
    rfl, hreserve, hsolvent.trans hpaid⟩
  · simp [afterOne, carried, ofBody, carrying, bidding]
  · refine ⟨by simp, by simp, fun _ _ => rfl, by simp, ?_, ?_⟩
    · intro b hb hmem
      obtain rfl := List.mem_singleton.mp hb
      exact h (congrArg Prod.snd (List.mem_singleton.mp hmem)).symm
    · intro b hb
      obtain rfl := List.mem_singleton.mp hb
      exact ⟨1, rfl, by decide⟩

/-- The carrier is accepted under every nonce but the one that its bundle uses. -/
private theorem accept_carried {nonce : UInt64} (h : nonce ≠ 1) : afterOne.accept (carried nonce) =
    .ok [.ofRaw (carried nonce).raw 100, secondPayment.toBlockTx] :=
  accept_eq_ok_iff.mpr ⟨_, admissible_carried h, rfl⟩

/-- Behind the payment nothing is replayed. -/
theorem accepted_nonces_carried :
    ∃ bundle, [BlockTx.ofRaw (carried 2).raw 100, secondPayment.toBlockTx] =
        .ofRaw (carried 2).raw 100 :: bundle.map Bundled.toBlockTx ∧
      ∀ key ∈ chunkKeys (carried 2) bundle, ¬ madeOne.Replays key := by
  have haccept := accept_carried (show (2 : UInt64) ≠ 1 by decide)
  obtain ⟨bundle, -, hchunk, -, -, hreplays, -⟩ := accepted_nonces haccept
  refine ⟨bundle, hchunk, hreplays.mpr ?_⟩
  rintro ⟨sequence, hsequence, hused⟩
  obtain rfl := Except.ok.inj hsequence
  exact absurd hused (by decide)

/-- The nonce that the bidder has used up is accepted again, in front of the second payment. -/
theorem accept_replayed :
    decode (rawOfBody (carrying 0)) = .ok (ofBody (carrying 0)) ∧
      BidCandidate.ofTransaction (Transaction.hash (rawOfBody (carrying 0)))
        (rawOfBody (carrying 0)) (ofBody (carrying 0)) = .ok (carried 0) ∧
      (∃ chunk, afterOne.accept (carried 0) = .ok chunk) ∧
      madeOne.Replays (carrierKey (carried 0)) := by
  refine ⟨decode_rawOfBody (carrying_wellFormed 0), rfl, ⟨_, accept_carried (by decide)⟩, ?_⟩
  exact ⟨1, rfl, by decide⟩

end BidContext

end LaneAuction
