import LaneAuction.Proofs.Block.Timeouts
import LaneAuction.Proofs.Engine.Agreement
import LaneAuction.Proofs.Engine.History
import LaneAuction.Proofs.Engine.Settlement

/-!
# Which timeouts an engine honours

Every bid of a block that an engine builds or accepts is in time, an accepted one at most behind a
hash that two raw transactions share. No other timeout is read, so a block honours all timeouts if
and only if the transactions without a bid happen to (`bids_in_time`): a payment that is overdue is
accepted (`overdue_payment_accepted`).
-/

namespace LaneAuction

namespace Engine

variable {e start : Engine} {config : Config} {isSigned : Transaction → Bool} {height : UInt64}
  {raws : List Bytes}

/-- The bids of a block have later timeouts than a height. -/
def BidsInTime (height : UInt64) (raws : List Bytes) : Prop :=
  ∀ raw ∈ raws, ∀ tx, Transaction.decode raw = .ok tx → tx.containsBid → height < tx.body.timeout

/-- No transaction of a block is past its timeout. -/
def AllCurrent (height : UInt64) (raws : List Bytes) : Prop :=
  ∀ raw ∈ raws, ∀ tx, Transaction.decode raw = .ok tx → tx.IsCurrent height

/-- No transaction of a block without a bid is past its timeout. -/
def OthersCurrent (height : UInt64) (raws : List Bytes) : Prop :=
  ∀ raw ∈ raws, ∀ tx, Transaction.decode raw = .ok tx → tx.containsBid = false →
    tx.IsCurrent height

/-- Where the bids are in time, the other transactions decide. -/
private theorem BidsInTime.allCurrent_iff (h : BidsInTime height raws) :
    AllCurrent height raws ↔ OthersCurrent height raws := by
  constructor
  · intro hall raw hraw tx hdecode _
    exact hall raw hraw tx hdecode
  · intro hothers raw hraw tx hdecode
    cases hbid : tx.containsBid with
    | true => exact .inr (h raw hraw tx hdecode hbid)
    | false => exact hothers raw hraw tx hdecode hbid

/-- An engine selects the same at every height at which its pending bids are in time. -/
private theorem selection_eq {height' : UInt64}
    (h : ∀ r ∈ e.pool.ordered .auction, height < r.tx.body.timeout ∧ height' < r.tx.body.timeout)
    (maxBytes maxGas : UInt64) (ledger : LedgerView) :
    e.selection maxBytes maxGas height' ledger = e.selection maxBytes maxGas height ledger := by
  have hassemble : ∀ plan,
      (e.context height' ledger e.pool.arena.isPending).assemble (.ofLimits maxBytes maxGas)
          e.pool.ordered plan =
        (e.context height ledger e.pool.arena.isPending).assemble (.ofLimits maxBytes maxGas)
          e.pool.ordered plan :=
    fun _ => (e.context height ledger e.pool.arena.isPending).assemble_withHeight h
  simp only [selection, hassemble]

/-- The bids of a proposal and of an accepted block are in time, apart from a collision; so the
other transactions alone decide if all timeouts are honoured. A proposal is the same, and an
accepted block is accepted, at every other height at which the bids are in time. -/
theorem bids_in_time (hstart : ofConfig config isSigned = .ok start) (calls : List Call)
    (maxBytes maxGas : UInt64) (ledger : LedgerView) :
    (∀ height, BidsInTime height
        ((start.after calls).prepare maxBytes maxGas height ledger).1.rawTxs ∧
      (AllCurrent height ((start.after calls).prepare maxBytes maxGas height ledger).1.rawTxs ↔
        OthersCurrent height
          ((start.after calls).prepare maxBytes maxGas height ledger).1.rawTxs)) ∧
    (∀ height height', (∀ r ∈ (start.after calls).pool.ordered .auction,
        height < r.tx.body.timeout ∧ height' < r.tx.body.timeout) →
      ((start.after calls).prepare maxBytes maxGas height ledger).1.rawTxs =
        ((start.after calls).prepare maxBytes maxGas height' ledger).1.rawTxs) ∧
    ∀ height raws, (start.after calls).process raws maxBytes maxGas height ledger = .ok () →
      (∀ raw ∈ raws, ∀ tx, Transaction.decode raw = .ok tx → tx.containsBid →
        height < tx.body.timeout ∨ BundlesCollision raws raw) ∧
      ((∀ raw ∈ raws, ¬ BundlesCollision raws raw) →
        (AllCurrent height raws ↔ OthersCurrent height raws)) ∧
      ∀ height', BidsInTime height' raws →
        (start.after calls).process raws maxBytes maxGas height' ledger = .ok () := by
  have he := (filed_ofConfig hstart).after calls
  refine ⟨fun height => ?_, fun height height' hbids => ?_, fun height raws hprocess => ?_⟩
  -- What is built was accepted bid by bid, and the rules ask for the timeout.
  · have hbids : BidsInTime height
        ((start.after calls).prepare maxBytes maxGas height ledger).1.rawTxs :=
      fun raw hraw tx hdecode hbid => (he.takesBid_of_prepare hraw hdecode hbid).inTime
    exact ⟨hbids, hbids.allCurrent_iff⟩
  · -- A proposal names its height, but its transactions do not show it.
    rw [prepare_eq, prepare_eq]
    show List.map _ (Selection.txs _) = List.map _ (Selection.txs _)
    rw [selection_eq hbids]
  · have hbids : ∀ raw ∈ raws, ∀ tx, Transaction.decode raw = .ok tx → tx.containsBid →
        height < tx.body.timeout ∨ BundlesCollision raws raw := by
      intro raw hraw tx hdecode hbid
      exact (takesBid_of_process hprocess hraw hdecode hbid).imp_left fun htakes => htakes.inTime
    refine ⟨hbids, fun hnone => ?_, fun height' hbids' => ?_⟩
    · have hbids : BidsInTime height raws := fun raw hraw tx hdecode hbid =>
        (hbids raw hraw tx hdecode hbid).resolve_right (hnone raw hraw)
      exact hbids.allCurrent_iff
    · -- Nothing else that is checked depends on the height.
      exact LaneContext.review_withHeight he.nodup_kinds hprocess hbids'

open Transaction

/-- A block that is accepted at height 1 with a bid that times out at height 10 is accepted at
height 9 too. -/
theorem bids_in_time_bidding : ofConfig .default (fun _ => true) = .ok plain ∧
    BidsInTime 9 biddingBlock ∧
    (plain.after [.registerLane .zero ⟨"spare", .zero, 3⟩]).process biddingBlock 4000 0 9
      Accounts.endowed.view = .ok () := by
  have haccept : (plain.after [.registerLane .zero ⟨"spare", .zero, 3⟩]).process biddingBlock 4000 0
      1 Accounts.endowed.view = .ok () := LaneContext.review_biddingBlock .zero .zero
  have hbids : BidsInTime 9 biddingBlock := by
    intro raw hraw tx hdecode hbid
    obtain rfl | rfl : raw = _ ∨ raw = _ := by simpa [biddingBlock] using hraw
    · rw [decode_rawOfBody bidding_wellFormed] at hdecode
      obtain rfl := Except.ok.inj hdecode
      decide
    · rw [decode_rawOfBody payment_wellFormed] at hdecode
      obtain rfl := Except.ok.inj hdecode
      exact absurd hbid (by decide)
  obtain ⟨-, -, hprocess⟩ := bids_in_time ofConfig_default
    [.registerLane .zero ⟨"spare", .zero, 3⟩] 4000 0 Accounts.endowed.view
  exact ⟨ofConfig_default, hbids, (hprocess 1 biddingBlock haccept).2.2 9 hbids⟩

/-! ### An overdue payment -/

/-- A payment that may be included below height 5. -/
def overdue : Body := { payment with timeout := 5 }

/-- The overdue payment is well formed. -/
private theorem overdue_wellFormed : overdue.WellFormed :=
  ⟨by decide, by decide, payment_wellFormed.messages⟩

/-- A block at height 10 with the payment is accepted. -/
private theorem process_overdue :
    plain.process [rawOfBody overdue] 1000 0 10 LaneContext.plain.ledger = .ok () := by
  let t : ReceivedTx := ⟨.ofRaw (rawOfBody overdue) 100, ofBody overdue⟩
  have hdecode : [rawOfBody overdue].map ReceivedTx.decode = [t].map .ok := by
    simp only [List.map_cons, List.map_nil, ReceivedTx.decode, decode_rawOfBody overdue_wellFormed]
    rfl
  have hfits : (BlockSpace.ofTxs [t.block]).fits (.ofLimits 1000 0) := by decide +kernel
  have hbudget : (BlockSpace.ofTxs [t.block]).fits
      (.budget (.ofLimits 1000 0) .zero .zero) := by decide +kernel
  have hcut : (plain.context 10 LaneContext.plain.ledger fun _ => false).IsCut (.ofLimits 1000 0)
      .zero (plain.plan none) [[], [], [t]] := by
    refine ⟨LaneContext.isSegment_nil, LaneContext.isSegment_nil,
      ⟨⟨?_, List.pairwise_singleton _ _⟩, by decide, hbudget⟩, trivial⟩
    intro t' ht'
    obtain rfl := List.mem_singleton.mp ht'
    exact ⟨by decide, by decide⟩
  exact LaneContext.review_of_isCut (filed_ofConfig ofConfig_default).nodup_kinds hdecode
    (fun _ _ => rfl) (List.nodup_singleton _) hfits rfl hcut

/-- What is accepted at height 10 was to be included below height 5. -/
theorem overdue_payment_accepted :
    plain.process [rawOfBody overdue] 1000 0 10 LaneContext.plain.ledger = .ok () ∧
      ¬ AllCurrent 10 [rawOfBody overdue] := by
  refine ⟨process_overdue, fun hall => ?_⟩
  have hcurrent := hall _ (List.mem_singleton_self _) _ (decode_rawOfBody overdue_wellFormed)
  exact absurd hcurrent (by decide)

end Engine

end LaneAuction
