import LaneAuction.Proofs.Block.Assembly
import LaneAuction.Proofs.Block.Bids

/-!
# Only the timeouts of bids are read

The height of a block is compared with the timeout of its bid and with no other. So a bid that is
included is in time (`LaneContext.TakesBid.inTime`); and as long as its bids stay in time, a block
is built in the same way and accepted at every other height, whatever the timeouts of its other
transactions are (`LaneContext.assemble_withHeight`, `LaneContext.review_withHeight`).
-/

namespace LaneAuction

/-- A transaction may be included at a height: it has no timeout, or a later one. -/
def Transaction.IsCurrent (tx : Transaction) (height : UInt64) : Prop :=
  tx.body.timeout = 0 ∨ height < tx.body.timeout

instance (tx : Transaction) (height : UInt64) : Decidable (tx.IsCurrent height) :=
  inferInstanceAs (Decidable (_ ∨ _))

namespace BidContext

variable {ctx : BidContext} {bid : BidCandidate}

/-- The same context for a block at another height. -/
def withHeight (ctx : BidContext) (height : UInt64) : BidContext := { ctx with height }

/-- A bid that is in time at two heights is checked alike at both. -/
theorem accept_withHeight {height : UInt64} (hold : ctx.height < bid.tx.body.timeout)
    (hnew : height < bid.tx.body.timeout) :
    (ctx.withHeight height).accept bid = ctx.accept bid := by
  have hnew : ¬ bid.tx.body.timeout ≤ (ctx.withHeight height).height := UInt64.not_le.mpr hnew
  have hopen : ∀ index raws, (ctx.withHeight height).openBundle index raws =
      ctx.openBundle index raws := openBundle_congr rfl
  have hrepeats : ∀ hashes nonces index bundle, (ctx.withHeight height).checkRepeats hashes nonces
      index bundle = ctx.checkRepeats hashes nonces index bundle :=
    fun _ _ _ _ => checkRepeats_congr rfl fun _ _ => rfl
  simp only [accept, checkStructure, UInt64.not_le.mpr hold, hnew, if_false, hopen, hrepeats]
  rfl

end BidContext

namespace LaneContext

variable {ctx : LaneContext} {height : UInt64} {limits used budget : BlockSpace}
  {included : List Hash} {plan : List PlannedLane} {pending : LaneKind → List PendingTx}
  {filled : Selection} {kind : LaneKind} {run : List ReceivedTx} {cut : List (List ReceivedTx)}

/-- The same context for a block at another height. -/
def withHeight (ctx : LaneContext) (height : UInt64) : LaneContext := { ctx with height }

/-- The height of a block is the height that its bids are admitted at. -/
private theorem toBidContext_withHeight (height : UInt64) :
    (ctx.withHeight height).toBidContext = ctx.toBidContext.withHeight height := rfl

/-- A bid that passes every check is in time. -/
theorem TakesBid.inTime {tx : Transaction} (h : ctx.TakesBid tx) :
    ctx.height < tx.body.timeout := by
  obtain ⟨bid, chunk, rfl, -, -, haccept⟩ := h
  obtain ⟨bundle, hbid, -⟩ := BidContext.accept_eq_ok_iff.mp haccept
  exact hbid.inTime

/-! ### Building -/

/-- Every candidate is in time at both heights. -/
def InTime (ctx : LaneContext) (height : UInt64) (candidates : List PendingTx) : Prop :=
  ∀ r ∈ candidates, ctx.height < r.tx.body.timeout ∧ height < r.tx.body.timeout

/-- A bid that is in time at both heights yields the same at both. -/
private theorem pendingChunk_withHeight {r : PendingTx} (hold : ctx.height < r.tx.body.timeout)
    (hnew : height < r.tx.body.timeout) :
    (ctx.withHeight height).pendingChunk r = ctx.pendingChunk r := by
  rw [pendingChunk, pendingChunk, BidCandidate.ofTransaction]
  cases r.tx.bid? with
  | none => rfl
  | some offer =>
    let bid : BidCandidate := ⟨r.hash, r.raw, r.tx, offer⟩
    have haccept : (ctx.toBidContext.withHeight height).accept bid = ctx.toBidContext.accept bid :=
      BidContext.accept_withHeight hold hnew
    rw [Except.ok_bind, Except.ok_bind, chunk, chunk, toBidContext_withHeight, haccept]
    rfl

/-- An auction of candidates that are in time at both heights is cleared the same at both. -/
private theorem clear_withHeight {candidates : List PendingTx} (h : ctx.InTime height candidates) :
    (ctx.withHeight height).clear budget included candidates =
      ctx.clear budget included candidates := by
  induction candidates with
  | nil => rfl
  | cons r rs ih =>
    obtain ⟨⟨hold, hnew⟩, hrest⟩ := List.forall_mem_cons.mp h
    simp only [clear, pendingChunk_withHeight hold hnew, ih hrest]
    rfl

/-- Only the auction lane reads the height. -/
private theorem select_withHeight {candidates : List PendingTx}
    (h : kind = .auction → ctx.InTime height candidates) :
    (ctx.withHeight height).select kind budget included candidates =
      ctx.select kind budget included candidates := by
  cases kind with
  | auction => exact clear_withHeight (h rfl)
  | free => rfl
  | base => rfl

/-- Lanes are filled the same at two heights at which all bids are in time. -/
private theorem assembleFrom_withHeight (h : ctx.InTime height (pending .auction)) :
    (ctx.withHeight height).assembleFrom limits pending filled plan =
      ctx.assembleFrom limits pending filled plan := by
  induction plan generalizing filled with
  | nil => rfl
  | cons planned plan ih =>
    obtain ⟨lane, kind⟩ := planned
    cases kind with
    | none => exact ih
    | some kind =>
      have hselect : ∀ budget included,
          (ctx.withHeight height).select kind budget included (pending kind) =
            ctx.select kind budget included (pending kind) :=
        fun _ _ => select_withHeight fun hkind => hkind ▸ h
      simp only [assembleFrom, hselect, ih]

/-- A block is built in the same way at every height at which the pending bids are in time. -/
theorem assemble_withHeight (ctx : LaneContext) (h : ctx.InTime height (pending .auction)) :
    (ctx.withHeight height).assemble limits pending plan = ctx.assemble limits pending plan :=
  assembleFrom_withHeight h

/-! ### Checking -/

/-- A run with bids that are in time at another height is one at that height. -/
private theorem IsRun.withHeight (h : ctx.IsRun run kind)
    (hbids : ∀ t ∈ run, t.tx.containsBid → height < t.tx.body.timeout) :
    (ctx.withHeight height).IsRun run kind := by
  cases kind with
  | free => exact h
  | base => exact h
  | auction =>
    obtain rfl | ⟨first, rest, offer, rfl, hoffer, hcheck, ⟨chunk, haccept⟩, hbundle⟩ := h
    · exact .inl rfl
    · have hnew := hbids first List.mem_cons_self (Transaction.containsBid_of_bid? hoffer)
      obtain ⟨bundle, hbid, -⟩ := BidContext.accept_eq_ok_iff.mp haccept
      refine .inr ⟨first, rest, offer, rfl, hoffer, hcheck, ⟨chunk, ?_⟩, hbundle⟩
      rw [toBidContext_withHeight, BidContext.accept_withHeight hbid.inTime hnew, haccept]

/-- A block with bids that are in time at another height is cut the same at that height. -/
private theorem IsCut.withHeight (h : ctx.IsCut limits used plan cut)
    (hbids : ∀ t ∈ cut.flatten, t.tx.containsBid → height < t.tx.body.timeout) :
    (ctx.withHeight height).IsCut limits used plan cut := by
  induction h using IsCut.induction with
  | nil => trivial
  | skip _ ih => exact ⟨rfl, ih hbids⟩
  | segment hsegment _ ih =>
    rw [List.flatten_cons] at hbids
    obtain ⟨hrun, hrest⟩ := List.forall_mem_append.mp hbids
    exact ⟨⟨hsegment.isRun.withHeight hrun, hsegment.cap, hsegment.fits⟩, ih hrest⟩

/-- An accepted block is accepted at every height at which its bids are in time. -/
theorem review_withHeight {raws : List Bytes} (hplan : (plan.filterMap PlannedLane.kind).Nodup)
    (h : ctx.review limits plan raws = .ok ())
    (hbids : ∀ raw ∈ raws, ∀ tx, Transaction.decode raw = .ok tx → tx.containsBid →
      height < tx.body.timeout) :
    (ctx.withHeight height).review limits plan raws = .ok () := by
  obtain ⟨txs, hdecode, hsigned, hnodup, hfits, cut, rfl, hcut⟩ := exists_isCut_of_review h
  refine review_of_isCut hplan hdecode hsigned hnodup hfits rfl (hcut.withHeight ?_)
  intro t ht hbid
  obtain ⟨raw, hraw, hreceived⟩ := ReceivedTx.exists_raw_of_mem hdecode ht
  exact hbids raw hraw t.tx (ReceivedTx.decode_eq_ok_iff.mp hreceived).1 hbid

end LaneContext

end LaneAuction
