import LaneAuction.Block.Review
import LaneAuction.Proofs.Auction.Admission
import LaneAuction.Proofs.Block.Space
import LaneAuction.Proofs.Wire.Transaction
import Mathlib.Data.List.TakeWhile

/-!
# Which blocks are accepted

A block is accepted if it can be cut into segments, one for each lane of the plan in their order,
such that each lane's rules hold of its segment (`LaneContext.IsCut`). The check itself never looks
for a cut: every lane takes as much as it can. That is no restriction, because a lane stops only at
a transaction of another kind, and the first transaction of a later segment is of the kind of its
lane, which no earlier lane is bound to.
-/

namespace LaneAuction

namespace LaneKind

variable {exempt : List String} {tx : Transaction}

/-- The auction lane takes the transactions that contain a bid. -/
theorem ofTransaction_eq_auction_iff : ofTransaction exempt tx = .auction ↔ tx.containsBid := by
  cases hbid : tx.containsBid <;> cases hfree : tx.isFree exempt <;>
    simp [ofTransaction, hbid, hfree]

/-- The free lane takes the transactions without a bid that are exempt from fees. -/
theorem ofTransaction_eq_free_iff :
    ofTransaction exempt tx = .free ↔ tx.containsBid = false ∧ tx.isFree exempt := by
  cases hbid : tx.containsBid <;> cases hfree : tx.isFree exempt <;>
    simp [ofTransaction, hbid, hfree]

/-- The base lane takes all other transactions. -/
theorem ofTransaction_eq_base_iff :
    ofTransaction exempt tx = .base ↔ tx.containsBid = false ∧ tx.isFree exempt = false := by
  cases hbid : tx.containsBid <;> cases hfree : tx.isFree exempt <;>
    simp [ofTransaction, hbid, hfree]

end LaneKind

/-- A transaction has a bid if and only if that is its only message. -/
theorem Transaction.bid?_eq_some_iff {tx : Transaction} {offer : BundleBid} :
    tx.bid? = some offer ↔ tx.body.messages = [.bid offer] := by
  unfold bid?
  split
  · next hmessages => simp [hmessages]
  · next hother => exact ⟨nofun, fun h => absurd h (hother offer)⟩

/-- A transaction whose only message is a bid contains a bid. -/
theorem Transaction.containsBid_of_bid? {tx : Transaction} {offer : BundleBid}
    (h : tx.bid? = some offer) : tx.containsBid := by
  simp [containsBid, bid?_eq_some_iff.mp h, Message.isBid]

/-- Only the auction has transactions whose only message is a bid. -/
theorem LaneKind.bid?_eq_none_of_ne_auction {exempt : List String} {tx : Transaction}
    (h : LaneKind.ofTransaction exempt tx ≠ .auction) : tx.bid? = none := by
  rw [Option.eq_none_iff_forall_ne_some]
  intro offer hoffer
  exact h (LaneKind.ofTransaction_eq_auction_iff.mpr (Transaction.containsBid_of_bid? hoffer))

/-- A candidate is made of a transaction if and only if it has a bid. -/
theorem BidCandidate.ofTransaction_eq_ok_iff {hash : Hash} {raw : Bytes} {tx : Transaction}
    {bid : BidCandidate} :
    ofTransaction hash raw tx = .ok bid ↔
      ∃ offer, tx.bid? = some offer ∧ bid = ⟨hash, raw, tx, offer⟩ := by
  unfold ofTransaction
  cases tx.bid? <;> simp [eq_comm]

/-- A raw transaction is received if and only if it decodes, with the space of its bytes and gas. -/
theorem ReceivedTx.decode_eq_ok_iff {raw : Bytes} {t : ReceivedTx} : decode raw = .ok t ↔
    Transaction.decode raw = .ok t.tx ∧ t.block = .ofRaw raw t.tx.body.gas := by
  simp only [decode, Except.bind_eq_ok_iff, Except.pure_eq_ok, Except.ok.injEq]
  constructor
  · rintro ⟨tx, htx, rfl⟩
    exact ⟨htx, rfl⟩
  · rintro ⟨htx, hblock⟩
    exact ⟨t.tx, htx, by rw [← hblock]⟩

namespace Segment

variable {budget : BlockSpace} {cap : Option Nat} {run : List ReceivedTx} {s : Segment}

/-- A run is taken whole if and only if it keeps within the cap and fits the budget. -/
theorem ofTxs_eq_ok_iff : ofTxs budget cap run = .ok s ↔
    (∀ n, cap = some n → run.length ≤ n) ∧
      (BlockSpace.ofTxs (run.map ReceivedTx.block)).fits budget ∧
      s = ⟨run.length, .ofTxs (run.map ReceivedTx.block)⟩ := by
  cases cap with
  | none =>
    simp only [ofTxs, Except.check_eq_ok_iff]
    simp [@eq_comm _ s]
  | some n =>
    simp only [ofTxs, Except.check_eq_ok_iff]
    simp [@eq_comm _ s]

end Segment

/-- Fees are in order if none ranks above an earlier one. -/
theorem checkFees_eq_ok_iff {denom : Denom} {position : Nat} {run : List ReceivedTx} :
    checkFees denom position run = .ok () ↔
      run.Pairwise fun a b => feeRank b.tx.body.fee denom ≤ feeRank a.tx.body.fee denom := by
  -- Neighbours are compared only, which is enough as the order is transitive.
  rw [← List.isChain_iff_pairwise]
  induction run generalizing position with
  | nil => simp [checkFees]
  | cons a run ih =>
    cases run with
    | nil => simp [checkFees]
    | cons b run =>
      rw [List.isChain_cons_cons, ← @ih (position + 1), checkFees]
      split
      · next h => simp [Nat.not_le.mpr h]
      · next h => simp [Nat.not_lt.mp h]

namespace LaneContext

variable {ctx : LaneContext} {kind : LaneKind} {budget limits used : BlockSpace}
  {run rest txs left : List ReceivedTx} {t : ReceivedTx} {s : Segment} {plan : List PlannedLane}
  {cut : List (List ReceivedTx)}

/-! ### The rules of a segment -/

/-- What a lane of some kind takes. The auction takes nothing, or an admissible bid that is followed
by exactly its bundle; free and base lanes take any number of their transactions, base lanes in the
order of fees. -/
def IsRun (ctx : LaneContext) (run : List ReceivedTx) : LaneKind → Prop
  | .auction => run = [] ∨ ∃ first rest offer, run = first :: rest ∧
      first.tx.bid? = some offer ∧ ctx.cleared.check offer ctx.params.increment = .ok () ∧
      (∃ chunk, ctx.toBidContext.accept ⟨first.block.hash, first.block.raw, first.tx, offer⟩ =
        .ok chunk) ∧
      rest.map (fun t => t.block.hash) = offer.hashes
  | .free => ∀ t ∈ run, t.tx.containsBid = false ∧ t.tx.isFree ctx.exempt
  | .base => (∀ t ∈ run, t.tx.containsBid = false ∧ t.tx.isFree ctx.exempt = false) ∧
      run.Pairwise fun a b =>
        feeRank b.tx.body.fee ctx.config.feeDenom ≤ feeRank a.tx.body.fee ctx.config.feeDenom

/-- What a lane of some kind takes, within its cap and its budget. -/
structure IsSegment (ctx : LaneContext) (kind : LaneKind) (budget : BlockSpace)
    (run : List ReceivedTx) : Prop where
  isRun : ctx.IsRun run kind
  cap : ∀ cap, ctx.cap kind = some cap → run.length ≤ cap
  fits : (BlockSpace.ofTxs (run.map ReceivedTx.block)).fits budget

/-- A list of segments, one for each lane of a plan. A lane of no kind has an empty one. -/
def IsCut (ctx : LaneContext) (limits : BlockSpace) :
    (used : BlockSpace) → List PlannedLane → List (List ReceivedTx) → Prop
  | _, [], [] => True
  | used, ⟨_, none⟩ :: plan, run :: cut => run = [] ∧ ctx.IsCut limits used plan cut
  | used, ⟨lane, some kind⟩ :: plan, run :: cut =>
    ctx.IsSegment kind (BlockSpace.budget limits used lane.fraction) run ∧
      ctx.IsCut limits (used.add (.ofTxs (run.map ReceivedTx.block))) plan cut
  | _, _, _ => False

/-- Nothing is a segment of every lane. -/
theorem isSegment_nil {kind : LaneKind} {budget : BlockSpace} : ctx.IsSegment kind budget [] where
  isRun := by
    cases kind with
    | auction => exact .inl rfl
    | free => simp [IsRun]
    | base => simp [IsRun]
  cap := by simp
  fits := BlockSpace.zero_fits budget

/-- The induction over a cut: a lane of no kind is passed over, any other takes its segment. -/
theorem IsCut.induction
    {motive : (used : BlockSpace) → (plan : List PlannedLane) → (cut : List (List ReceivedTx)) →
      ctx.IsCut limits used plan cut → Prop}
    (nil : ∀ {used}, motive used [] [] trivial)
    (skip : ∀ {used lane plan cut} (h : ctx.IsCut limits used plan cut), motive used plan cut h →
      motive used (⟨lane, none⟩ :: plan) ([] :: cut) ⟨rfl, h⟩)
    (segment : ∀ {used lane kind plan run cut}
      (hrun : ctx.IsSegment kind (BlockSpace.budget limits used lane.fraction) run)
      (h : ctx.IsCut limits (used.add (.ofTxs (run.map ReceivedTx.block))) plan cut),
      motive (used.add (.ofTxs (run.map ReceivedTx.block))) plan cut h →
      motive used (⟨lane, some kind⟩ :: plan) (run :: cut) ⟨hrun, h⟩)
    {used : BlockSpace} {plan : List PlannedLane} {cut : List (List ReceivedTx)}
    (h : ctx.IsCut limits used plan cut) : motive used plan cut h := by
  -- `IsCut` is a recursive definition, so its cases are found by those of the plan and the cut.
  induction plan generalizing used cut with
  | nil =>
    cases cut with
    | nil => exact nil
    | cons run cut => exact nomatch h
  | cons planned plan ih =>
    obtain ⟨lane, kind⟩ := planned
    cases cut with
    | nil => cases kind <;> exact nomatch h
    | cons run cut =>
      cases kind with
      | none =>
        obtain ⟨rfl, h⟩ := h
        exact skip h (ih h)
      | some kind =>
        obtain ⟨hrun, h⟩ := h
        exact segment hrun h (ih h)

/-- The kind of a segment is that of its first transaction. -/
private theorem ofTransaction_of_isRun (h : ctx.IsRun (t :: run) kind) :
    LaneKind.ofTransaction ctx.exempt t.tx = kind := by
  cases kind with
  | auction =>
    obtain h | ⟨first, rest, offer, heq, hbid, -⟩ := h
    · exact nomatch h
    · obtain ⟨rfl, rfl⟩ := List.cons.inj heq
      exact LaneKind.ofTransaction_eq_auction_iff.mpr (Transaction.containsBid_of_bid? hbid)
  | free => exact LaneKind.ofTransaction_eq_free_iff.mpr (h t List.mem_cons_self)
  | base => exact LaneKind.ofTransaction_eq_base_iff.mpr (h.1 t List.mem_cons_self)

/-! ### The segment that a lane takes -/

/-- A lane that takes all that it owns stops in front of a transaction of another kind. -/
private theorem ownRun_append (hrun : ∀ t ∈ run, LaneKind.ofTransaction ctx.exempt t.tx = kind)
    (hrest : ∀ t ∈ rest.head?, LaneKind.ofTransaction ctx.exempt t.tx ≠ kind) :
    ctx.ownRun kind (run ++ rest) = run := by
  have hall : ∀ t ∈ run, kind.owns ctx.exempt t.tx := by
    intro t ht
    exact LaneKind.owns_iff.mpr (hrun t ht).symm
  have hstop : ctx.ownRun kind rest = [] := by
    cases rest with
    | nil => rfl
    | cons t rest =>
      have hnot : ¬ kind.owns ctx.exempt t.tx := by
        intro h
        exact hrest t rfl (LaneKind.owns_iff.mp h).symm
      simp [ownRun, hnot]
  rw [ownRun, List.takeWhile_append_of_pos hall]
  rw [ownRun] at hstop
  rw [hstop, List.append_nil]

/-- What a lane takes for its own is of its kind. -/
private theorem ofTransaction_of_mem_ownRun (h : t ∈ ctx.ownRun kind txs) :
    LaneKind.ofTransaction ctx.exempt t.tx = kind := by
  rw [ownRun] at h
  have hown := List.mem_takeWhile_imp h
  exact (LaneKind.owns_iff.mp hown).symm

/-- An auction lane takes nothing if there is no bid at the front. -/
private theorem takeBid_eq_empty
    (h : ∀ t ∈ txs.head?, LaneKind.ofTransaction ctx.exempt t.tx ≠ .auction) :
    ctx.takeBid budget txs = .ok .empty := by
  cases txs with
  | nil => rfl
  | cons first txs =>
    have hnot : LaneKind.auction.owns ctx.exempt first.tx = false := by
      rw [Bool.eq_false_iff]
      exact fun hown => h first rfl (LaneKind.owns_iff.mp hown).symm
    simp only [takeBid, hnot, Bool.not_false, if_true]
    rfl

/-- With a bid at the front, an auction lane takes it if it is admissible, and exactly its
bundle. -/
private theorem takeBid_cons_eq_ok_iff {first : ReceivedTx}
    (hhash : first.block.hash = Transaction.hash first.block.raw)
    (hkind : LaneKind.ofTransaction ctx.exempt first.tx = .auction) :
    ctx.takeBid budget (first :: txs) = .ok s ↔
      ∃ run rest, txs = run ++ rest ∧ ctx.IsRun (first :: run) .auction ∧
        Segment.ofTxs budget (ctx.cap .auction) (first :: run) = .ok s := by
  have hown : LaneKind.auction.owns ctx.exempt first.tx := LaneKind.owns_iff.mpr hkind.symm
  simp only [takeBid, hown, Bool.not_true, Bool.false_eq_true, if_false, Except.bind_eq_ok_iff,
    Except.mapError_eq_ok_iff, Except.check_eq_ok_iff, ne_eq, not_not]
  constructor
  · intro h
    obtain ⟨bid, hbid, _, hcheck, chunk, hchunk, hrun, hs⟩ := h
    obtain ⟨offer, hoffer, rfl⟩ := BidCandidate.ofTransaction_eq_ok_iff.mp hbid
    -- The chunk is the bid and its bundle, so the lane takes as many transactions.
    have hhashes := BidContext.hashes_of_accept hchunk
    have hlength := congrArg List.length hhashes
    simp only [List.length_map, List.length_cons] at hlength
    rw [hhashes, hlength, List.take_succ_cons, List.map_cons] at hrun
    rw [hlength, List.take_succ_cons] at hs
    refine ⟨_, _, (List.take_append_drop offer.hashes.length txs).symm, ?_, hs⟩
    exact .inr ⟨first, _, offer, rfl, hoffer, hcheck, ⟨chunk, hchunk⟩, (List.cons.inj hrun).2⟩
  · intro h
    obtain ⟨run, rest, rfl, hrun, hs⟩ := h
    obtain hrun | ⟨_, _, offer, heq, hbid, hcheck, ⟨chunk, hchunk⟩, hbundle⟩ := hrun
    · exact nomatch hrun
    · -- The bundle has as many transactions as the run, so the chunk ends where the run does.
      obtain ⟨rfl, rfl⟩ := List.cons.inj heq
      have hhashes := BidContext.hashes_of_accept hchunk
      have hlength := congrArg List.length hhashes
      rw [← hbundle] at hlength
      simp only [List.length_map, List.length_cons] at hlength
      have htake : (first :: (run ++ rest)).take chunk.length = first :: run := by
        rw [hlength, List.take_succ_cons, List.take_left]
      -- The hashes agree, as the first one is that of its bytes.
      refine ⟨_, BidCandidate.ofTransaction_eq_ok_iff.mpr ⟨offer, hbid, rfl⟩, (), hcheck, chunk,
        hchunk, ?_, ?_⟩
      · rw [htake, hhashes, List.map_cons, hhash, hbundle]
      · rw [htake, hs]

/-- What a lane takes is a segment by its rules. -/
theorem isSegment_of_take (h : ctx.take kind budget txs = .ok s)
    (hhash : ∀ t ∈ txs, t.block.hash = Transaction.hash t.block.raw) :
    ∃ run rest, txs = run ++ rest ∧ ctx.IsSegment kind budget run ∧
      s = ⟨run.length, .ofTxs (run.map ReceivedTx.block)⟩ := by
  cases kind with
  | auction =>
    -- Only a bid at the front makes the auction take something.
    by_cases hfront : ∀ t ∈ txs.head?, LaneKind.ofTransaction ctx.exempt t.tx ≠ .auction
    · rw [take, takeBid_eq_empty hfront] at h
      exact ⟨[], txs, rfl, isSegment_nil, (Except.ok.inj h).symm⟩
    · cases txs with
      | nil => simp at hfront
      | cons first txs =>
        have hkind : LaneKind.ofTransaction ctx.exempt first.tx = .auction := by simpa using hfront
        obtain ⟨run, rest, rfl, hrun, hofTxs⟩ :=
          (takeBid_cons_eq_ok_iff (hhash first List.mem_cons_self) hkind).mp h
        obtain ⟨hcap, hfits, hs⟩ := Segment.ofTxs_eq_ok_iff.mp hofTxs
        exact ⟨first :: run, rest, rfl, ⟨hrun, hcap, hfits⟩, hs⟩
  -- A lane that takes its own run takes all of it, so the run is the segment.
  | free =>
    obtain ⟨hcap, hfits, hs⟩ := Segment.ofTxs_eq_ok_iff.mp h
    refine ⟨_, _, List.takeWhile_append_dropWhile.symm, ⟨?_, hcap, hfits⟩, hs⟩
    intro t ht
    exact LaneKind.ofTransaction_eq_free_iff.mp (ofTransaction_of_mem_ownRun ht)
  | base =>
    simp only [take, Except.bind_eq_ok_iff] at h
    obtain ⟨_, hfees, hofTxs⟩ := h
    obtain ⟨hcap, hfits, hs⟩ := Segment.ofTxs_eq_ok_iff.mp hofTxs
    refine ⟨_, _, List.takeWhile_append_dropWhile.symm,
      ⟨⟨?_, checkFees_eq_ok_iff.mp hfees⟩, hcap, hfits⟩, hs⟩
    intro t ht
    exact LaneKind.ofTransaction_eq_base_iff.mp (ofTransaction_of_mem_ownRun ht)

/-- A segment is what its lane takes, if another kind of transaction is behind it. -/
private theorem take_append (h : ctx.IsSegment kind budget run)
    (hhash : ∀ t ∈ run, t.block.hash = Transaction.hash t.block.raw)
    (hrest : ∀ t ∈ rest.head?, LaneKind.ofTransaction ctx.exempt t.tx ≠ kind) :
    ctx.take kind budget (run ++ rest) =
      .ok ⟨run.length, .ofTxs (run.map ReceivedTx.block)⟩ := by
  have hofTxs : Segment.ofTxs budget (ctx.cap kind) run =
      .ok ⟨run.length, .ofTxs (run.map ReceivedTx.block)⟩ :=
    Segment.ofTxs_eq_ok_iff.mpr ⟨h.cap, h.fits, rfl⟩
  cases kind with
  -- A segment of the auction is empty or opens with the bid that the lane looks for.
  | auction =>
    cases run with
    | nil => exact takeBid_eq_empty hrest
    | cons first run =>
      rw [take, List.cons_append, takeBid_cons_eq_ok_iff (hhash first List.mem_cons_self)
        (ofTransaction_of_isRun h.isRun)]
      exact ⟨run, rest, rfl, h.isRun, hofTxs⟩
  | free =>
    -- The lane takes all that it owns, and the first transaction behind the run is not its own.
    have hown : ∀ t ∈ run, LaneKind.ofTransaction ctx.exempt t.tx = .free := fun t ht =>
      LaneKind.ofTransaction_eq_free_iff.mpr (h.isRun t ht)
    rw [take, ownRun_append hown hrest, hofTxs]
  | base =>
    obtain ⟨hall, hfees⟩ := h.isRun
    have hown : ∀ t ∈ run, LaneKind.ofTransaction ctx.exempt t.tx = .base := fun t ht =>
      LaneKind.ofTransaction_eq_base_iff.mpr (hall t ht)
    simp only [take, ownRun_append hown hrest, checkFees_eq_ok_iff.mpr hfees, Except.ok_bind,
      hofTxs]

/-! ### Cuts -/

/-- The first transaction of what is cut belongs to a lane of the plan. -/
private theorem IsCut.head?_mem_kinds (h : ctx.IsCut limits used plan cut)
    (ht : t ∈ cut.flatten.head?) :
    LaneKind.ofTransaction ctx.exempt t.tx ∈ plan.filterMap PlannedLane.kind := by
  induction h using IsCut.induction with
  | nil => simp at ht
  | skip _ ih => exact ih ht
  | @segment _ _ _ _ run _ hrun _ ih =>
    -- The first segment that is not empty decides.
    cases run with
    | nil => exact List.mem_cons_of_mem _ (ih ht)
    | cons first run =>
      obtain rfl : first = t := by simpa using ht
      rw [ofTransaction_of_isRun hrun.isRun]
      exact List.mem_cons_self

/-- The lanes take the segments of a cut. -/
theorem IsCut.consume_eq (h : ctx.IsCut limits used plan cut)
    (hplan : (plan.filterMap PlannedLane.kind).Nodup)
    (hhash : ∀ t ∈ cut.flatten, t.block.hash = Transaction.hash t.block.raw) :
    ctx.consume limits used plan cut.flatten = .ok [] := by
  induction h using IsCut.induction with
  | nil => rfl
  | skip _ ih => exact ih hplan hhash
  | @segment _ _ kind _ run cut hrun h ih =>
    rw [List.flatten_cons] at hhash
    obtain ⟨hown, hleft⟩ := List.forall_mem_append.mp hhash
    obtain ⟨hkind, hplan⟩ := List.nodup_cons.mp hplan
    -- No later lane is of this kind, so what is behind the segment is of another one.
    have hrest : ∀ t ∈ cut.flatten.head?, LaneKind.ofTransaction ctx.exempt t.tx ≠ kind := by
      intro t ht heq
      exact hkind (heq ▸ h.head?_mem_kinds ht)
    have htake := take_append hrun hown hrest
    simp only [consume, List.flatten_cons, htake, Except.mapError_ok, Except.ok_bind,
      List.drop_left]
    exact ih hplan hleft

/-- What the lanes take is a cut. -/
theorem exists_isCut_of_consume (h : ctx.consume limits used plan txs = .ok left)
    (hhash : ∀ t ∈ txs, t.block.hash = Transaction.hash t.block.raw) :
    ∃ cut, ctx.IsCut limits used plan cut ∧ txs = cut.flatten ++ left := by
  induction plan generalizing used txs with
  | nil => exact ⟨[], trivial, Except.ok.inj h⟩
  | cons planned plan ih =>
    obtain ⟨lane, kind⟩ := planned
    cases kind with
    | none =>
      obtain ⟨cut, hcut, htxs⟩ := ih h hhash
      exact ⟨[] :: cut, ⟨rfl, hcut⟩, htxs⟩
    | some kind =>
      simp only [consume, Except.bind_eq_ok_iff, Except.mapError_eq_ok_iff] at h
      obtain ⟨s, htake, h⟩ := h
      -- What a lane takes is its segment, and the rest is for the lanes behind it.
      obtain ⟨run, rest, rfl, hrun, rfl⟩ := isSegment_of_take htake hhash
      rw [List.drop_left] at h
      obtain ⟨cut, hcut, rfl⟩ := ih h fun t ht => hhash t (List.mem_append_right run ht)
      exact ⟨run :: cut, ⟨hrun, hcut⟩, by simp⟩

/-! ### The theorem -/

/-- A block is received if its transactions are decoded, signed and distinct. -/
theorem receive_eq_ok_iff {seen : List Hash} {index : Nat} {raws : List Bytes} :
    ctx.receive seen index raws = .ok txs ↔
      raws.map ReceivedTx.decode = txs.map .ok ∧ (∀ t ∈ txs, ctx.isSigned t.tx) ∧
        (txs.map fun t => t.block.hash).Nodup ∧ ∀ t ∈ txs, t.block.hash ∉ seen := by
  -- Whatever was seen in front; one step adds a hash to it.
  induction raws generalizing seen index txs with
  | nil => cases txs <;> simp [receive]
  | cons raw raws ih =>
    simp only [receive, Except.bind_eq_ok_iff, Except.mapError_eq_ok_iff, Except.check_eq_ok_iff,
      ih, Except.pure_eq_ok, Except.ok.injEq]
    constructor
    · intro h
      obtain ⟨t, ht, hseen, hsigned, rest, ⟨hdecode, hall, hhashes⟩, rfl⟩ := h
      have hseen : t.block.hash ∉ seen := by simpa using hseen
      refine ⟨by rw [List.map_cons, List.map_cons, ht, hdecode], ?_, ?_⟩
      · exact List.forall_mem_cons.mpr ⟨by simpa using hsigned, hall⟩
      · exact List.nodup_map_cons_and_new_iff.mpr ⟨hseen, hhashes⟩
    · intro h
      obtain ⟨hdecode, hall, hhashes⟩ := h
      -- Some transaction was received, as the first bytes decode to one.
      cases txs with
      | nil => exact nomatch hdecode
      | cons t rest =>
        obtain ⟨ht, hdecode⟩ := List.cons.inj hdecode
        obtain ⟨hsigned, hall⟩ := List.forall_mem_cons.mp hall
        obtain ⟨hseen, hhashes⟩ := List.nodup_map_cons_and_new_iff.mp hhashes
        exact ⟨t, ht, by simpa using hseen, by simp [hsigned], rest, ⟨hdecode, hall, hhashes⟩, rfl⟩

/-- A received transaction is known by the hash of its bytes. -/
theorem hash_eq_of_decode {raw : Bytes} (h : ReceivedTx.decode raw = .ok t) :
    t.block.hash = Transaction.hash t.block.raw := by
  rw [(ReceivedTx.decode_eq_ok_iff.mp h).2]
  rfl

/-- All received transactions of a block are known by the hashes of their bytes. -/
private theorem hash_eq_of_map_decode {raws : List Bytes}
    (h : raws.map ReceivedTx.decode = txs.map .ok) :
    ∀ t ∈ txs, t.block.hash = Transaction.hash t.block.raw := by
  intro t ht
  have hmem : .ok t ∈ raws.map ReceivedTx.decode := h ▸ List.mem_map_of_mem ht
  obtain ⟨raw, -, hraw⟩ := List.mem_map.mp hmem
  exact hash_eq_of_decode hraw

/-- A block that can be cut is accepted. -/
theorem review_of_isCut {raws : List Bytes} (hplan : (plan.filterMap PlannedLane.kind).Nodup)
    (hdecode : raws.map ReceivedTx.decode = txs.map .ok) (hsigned : ∀ t ∈ txs, ctx.isSigned t.tx)
    (hnodup : (txs.map fun t => t.block.hash).Nodup)
    (hfits : (BlockSpace.ofTxs (txs.map ReceivedTx.block)).fits limits)
    (htxs : cut.flatten = txs) (hcut : ctx.IsCut limits .zero plan cut) :
    ctx.review limits plan raws = .ok () := by
  have hreceive : ctx.receive [] 0 raws = .ok txs :=
    receive_eq_ok_iff.mpr ⟨hdecode, hsigned, hnodup, by simp⟩
  have hconsume := hcut.consume_eq hplan (htxs ▸ hash_eq_of_map_decode hdecode)
  rw [htxs] at hconsume
  simp [review, hreceive, hfits, hconsume]

/-- An accepted block can be cut. -/
theorem exists_isCut_of_review {raws : List Bytes} (h : ctx.review limits plan raws = .ok ()) :
    ∃ txs : List ReceivedTx, raws.map ReceivedTx.decode = txs.map .ok ∧
      (∀ t ∈ txs, ctx.isSigned t.tx) ∧ (txs.map fun t => t.block.hash).Nodup ∧
      (BlockSpace.ofTxs (txs.map ReceivedTx.block)).fits limits ∧
      ∃ cut : List (List ReceivedTx), cut.flatten = txs ∧ ctx.IsCut limits .zero plan cut := by
  simp only [review, Except.bind_eq_ok_iff, Except.check_eq_ok_iff] at h
  obtain ⟨txs, hreceive, hfits, left, hconsume, hleft⟩ := h
  obtain ⟨hdecode, hsigned, hnodup, -⟩ := receive_eq_ok_iff.mp hreceive
  obtain ⟨cut, hcut, htxs⟩ := exists_isCut_of_consume hconsume (hash_eq_of_map_decode hdecode)
  -- Nothing may be left behind the last lane.
  have hnil : left = [] := by
    split at hleft
    · exact nomatch hleft
    · next hempty => simpa using hempty
  rw [hnil, List.append_nil] at htxs
  exact ⟨txs, hdecode, hsigned, hnodup, by simpa using hfits, cut, htxs.symm, hcut⟩

/-- Lane by lane, as much as each lane can take: that accepts exactly the blocks that can be cut. -/
theorem review_eq_ok_iff {raws : List Bytes} (hplan : (plan.filterMap PlannedLane.kind).Nodup) :
    ctx.review limits plan raws = .ok () ↔
      ∃ txs : List ReceivedTx, raws.map ReceivedTx.decode = txs.map .ok ∧
        (∀ t ∈ txs, ctx.isSigned t.tx) ∧ (txs.map fun t => t.block.hash).Nodup ∧
        (BlockSpace.ofTxs (txs.map ReceivedTx.block)).fits limits ∧
        ∃ cut : List (List ReceivedTx), cut.flatten = txs ∧ ctx.IsCut limits .zero plan cut := by
  constructor
  · exact exists_isCut_of_review
  · intro h
    obtain ⟨txs, hdecode, hsigned, hnodup, hfits, cut, htxs, hcut⟩ := h
    exact review_of_isCut hplan hdecode hsigned hnodup hfits htxs hcut

/-- The default configuration on a ledger that holds nothing, with every transaction taken as
signed. -/
def plain : LaneContext where
  height := 1
  config := .default
  params := .default
  cleared := .empty
  ledger := ⟨fun _ _ => .ok .zero, fun _ => .ok 0⟩
  isSigned _ := true
  isPending _ := false

/-- The lanes of the default configuration, in front of one that nothing is bound to. -/
def plainPlan : List PlannedLane :=
  [⟨⟨"mev", .fifth, 0⟩, some .auction⟩, ⟨⟨"free", .fifth, 1⟩, some .free⟩,
    ⟨⟨"default", .zero, 2⟩, some .base⟩, ⟨⟨"spare", .zero, 3⟩, none⟩]

/-- A block of one payment, in the base lane, is accepted. -/
theorem review_eq_ok_iff_payment : (plainPlan.filterMap PlannedLane.kind).Nodup ∧
    plain.review ⟨.largest, .largest⟩ plainPlan [Transaction.payment.sign .zero] = .ok () := by
  have hplan : (plainPlan.filterMap PlannedLane.kind).Nodup := by decide
  refine ⟨hplan, (review_eq_ok_iff hplan).mpr ?_⟩
  -- No space exceeds the largest words.
  have hfits : ∀ space : BlockSpace, space.fits ⟨.largest, .largest⟩ := by
    intro space
    have hbytes := space.bytes.toNat_lt
    have hgas := space.gas.toNat_lt
    simp only [BlockSpace.fits, UInt64.le_iff_toNat_le, UInt64.toNat_largest, UInt64.size,
      Bool.and_eq_true, decide_eq_true_eq]
    omega
  let tx : Transaction := ⟨Transaction.payment, Ed25519.sign .zero Transaction.payment.write,
    Transaction.payment.write⟩
  have hdecode : Transaction.decode (Transaction.payment.sign .zero) = .ok tx :=
    Transaction.decode_eq_ok_iff.mpr ⟨Transaction.payment_wellFormed, rfl, rfl⟩
  let t : ReceivedTx := ⟨.ofRaw (Transaction.payment.sign .zero) 100, tx⟩
  have hreceived : ReceivedTx.decode (Transaction.payment.sign .zero) = .ok t := by
    rw [ReceivedTx.decode, hdecode]
    rfl
  -- The cut: the first two lanes and the last take nothing, the base lane takes the payment.
  refine ⟨[t], congrArg (fun x => [x]) hreceived, fun _ _ => rfl, by simp, hfits _,
    [[], [], [t], []], rfl, ?_, ?_, ?_, rfl, trivial⟩
  · exact isSegment_nil
  · exact isSegment_nil
  · refine ⟨⟨?_, by simp⟩, by decide, hfits _⟩
    intro t' ht'
    obtain rfl := List.mem_singleton.mp ht'
    exact ⟨by decide, by decide⟩

end LaneContext

end LaneAuction
