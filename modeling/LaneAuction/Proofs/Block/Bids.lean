import LaneAuction.Engine
import LaneAuction.Proofs.Block.Limits

/-!
# The bids of a block

A block that is accepted holds no bid, or one at the head of the auction's segment, which no other
bid comes before. All bids of blocks, built or accepted, pass every check (`LaneContext.TakesBid`).
An accepted block can hide another bid only behind a hash that two raw transactions share
(`SharesBundledHash`); a block that is built cannot even then, as it holds what bundles hold.
-/

namespace LaneAuction

/-- The first bid of a block is the first that its decoded transactions have. -/
theorem winningBid?_eq_findSome? {raws : List Bytes} {txs : List ReceivedTx}
    (h : raws.map ReceivedTx.decode = txs.map .ok) :
    winningBid? raws = txs.findSome? fun t => t.tx.bid? := by
  induction raws generalizing txs with
  | nil =>
    cases txs with
    | nil => rfl
    | cons t txs => exact nomatch h
  | cons raw raws ih =>
    cases txs with
    | nil => exact nomatch h
    | cons t txs =>
      obtain ⟨hraw, hraws⟩ := List.cons.inj h
      have ih := ih hraws
      rw [winningBid?] at ih
      rw [winningBid?, List.findSome?_cons, List.findSome?_cons,
        (ReceivedTx.decode_eq_ok_iff.mp hraw).1, ih]
      rfl

/-- Every raw transaction of a decoded block is decoded to one of the received ones. -/
theorem ReceivedTx.exists_of_mem_raws {raws : List Bytes} {txs : List ReceivedTx} {raw : Bytes}
    (h : raws.map decode = txs.map .ok) (hraw : raw ∈ raws) : ∃ t ∈ txs, decode raw = .ok t := by
  have hmem : decode raw ∈ txs.map .ok := h ▸ List.mem_map_of_mem hraw
  obtain ⟨t, ht, heq⟩ := List.mem_map.mp hmem
  exact ⟨t, ht, heq.symm⟩

/-- Every received transaction of a decoded block comes from a raw one. -/
theorem ReceivedTx.exists_raw_of_mem {raws : List Bytes} {txs : List ReceivedTx} {t : ReceivedTx}
    (h : raws.map decode = txs.map .ok) (ht : t ∈ txs) : ∃ raw ∈ raws, decode raw = .ok t := by
  have hmem : .ok t ∈ raws.map decode := h ▸ List.mem_map_of_mem ht
  exact List.mem_map.mp hmem

namespace Transaction

variable {tx : Transaction} {offer winner : BundleBid}

/-- A transaction with a bid among its messages contains a bid. -/
theorem containsBid_of_mem (h : Message.bid offer ∈ tx.body.messages) : tx.containsBid :=
  List.any_eq_true.mpr ⟨_, h, rfl⟩

/-- The bid of a transaction is one of its messages. -/
theorem mem_of_bid? (h : tx.bid? = some offer) : Message.bid offer ∈ tx.body.messages := by
  rw [bid?_eq_some_iff.mp h]
  exact List.mem_singleton_self _

/-- A transaction whose only message is a bid has no other. -/
theorem eq_of_mem_of_bid? (h : tx.bid? = some winner)
    (hoffer : Message.bid offer ∈ tx.body.messages) : offer = winner := by
  rw [bid?_eq_some_iff.mp h] at hoffer
  exact Message.bid.inj (List.mem_singleton.mp hoffer)

end Transaction

namespace LaneContext

variable {ctx : LaneContext} {limits used budget : BlockSpace} {plan : List PlannedLane}
  {cut : List (List ReceivedTx)} {run txs : List ReceivedTx} {t : ReceivedTx} {kind : LaneKind}
  {offer : BundleBid}

/-- Where no transaction contains a bid, none is found. -/
theorem findSome?_bid?_eq_none (h : ∀ t ∈ txs, t.tx.containsBid = false) :
    txs.findSome? (fun t => t.tx.bid?) = none := by
  rw [List.findSome?_eq_none_iff]
  intro t ht
  rw [Option.eq_none_iff_forall_ne_some]
  intro offer hoffer
  have hbid := Transaction.containsBid_of_bid? hoffer
  rw [h t ht] at hbid
  exact nomatch hbid

/-- A bid at the head of the auction's segment, admissible and followed by its bundle, which no
other bid of the block comes before. -/
structure Wins (ctx : LaneContext) (plan : List PlannedLane) (cut : List (List ReceivedTx))
    (lane : Lane) (first : ReceivedTx) (rest : List ReceivedTx) (offer : BundleBid) : Prop where
  segment : (⟨lane, some .auction⟩, first :: rest) ∈ plan.zip cut
  offer_eq : first.tx.bid? = some offer
  increment : ctx.cleared.check offer ctx.params.increment = .ok ()
  accepted : ∃ chunk,
    ctx.toBidContext.accept ⟨first.block.hash, first.block.raw, first.tx, offer⟩ = .ok chunk
  bundle : rest.map (fun t => t.block.hash) = offer.hashes
  firstBid : cut.flatten.findSome? (fun t => t.tx.bid?) = some offer

/-- A segment without bids in front of a block does not change which bid wins. -/
private theorem Wins.cons {lane : Lane} {first : ReceivedTx} {rest : List ReceivedTx}
    {offer : BundleBid} (h : ctx.Wins plan cut lane first rest offer) (planned : PlannedLane)
    (hrun : ∀ t ∈ run, t.tx.containsBid = false) :
    ctx.Wins (planned :: plan) (run :: cut) lane first rest offer :=
  { h with
    segment := List.mem_cons_of_mem _ h.segment
    firstBid := by
      rw [List.flatten_cons, List.findSome?_append, findSome?_bid?_eq_none hrun, h.firstBid]
      rfl }

/-- In what is cut there is no bid, or the first one is at the head of the auction's segment. -/
theorem IsCut.winner_cases (h : ctx.IsCut limits used plan cut) :
    (∀ t ∈ cut.flatten, t.tx.containsBid = false) ∨
      ∃ lane first rest offer, ctx.Wins plan cut lane first rest offer := by
  -- A segment that holds no bid leaves it to the later ones.
  have hlater : ∀ {plan cut run} (planned : PlannedLane),
      ((∀ t ∈ cut.flatten, t.tx.containsBid = false) ∨
        ∃ lane first rest offer, ctx.Wins plan cut lane first rest offer) →
      (∀ t ∈ run, t.tx.containsBid = false) →
      (∀ t ∈ (run :: cut).flatten, t.tx.containsBid = false) ∨
        ∃ lane first rest offer,
          ctx.Wins (planned :: plan) (run :: cut) lane first rest offer := by
    intro plan cut run planned hcases hrun
    obtain hnone | ⟨lane, first, rest, offer, hwins⟩ := hcases
    · rw [List.flatten_cons]
      exact .inl (List.forall_mem_append.mpr ⟨hrun, hnone⟩)
    · exact .inr ⟨lane, first, rest, offer, hwins.cons planned hrun⟩
  induction h using IsCut.induction with
  | nil => exact .inl (by simp)
  | skip _ ih => exact hlater _ ih (by simp)
  | @segment _ lane kind _ _ _ hrun _ ih =>
    cases kind with
    | auction =>
      obtain rfl | ⟨first, rest, offer, rfl, hoffer, hcheck, haccept, hbundle⟩ := hrun.isRun
      · exact hlater _ ih (by simp)
      · -- The segment opens with a bid, which is then the first bid of the block.
        refine .inr ⟨lane, first, rest, offer, List.mem_cons_self, hoffer, hcheck, haccept,
          hbundle, ?_⟩
        rw [List.flatten_cons, List.cons_append, List.findSome?_cons, hoffer]
    | free => exact hlater _ ih fun t ht => (hrun.isRun t ht).1
    | base => exact hlater _ ih fun t ht => (hrun.isRun.1 t ht).1

/-! ### Every bid -/

/-- A received transaction has the hash of another raw transaction, which a bid among `txs`
bundles. -/
def SharesBundledHash (txs : List ReceivedTx) (t : ReceivedTx) : Prop :=
  ∃ first ∈ txs, ∃ offer, first.tx.bid? = some offer ∧
    ∃ raw ∈ offer.bundle, raw ≠ t.block.raw ∧ Transaction.hash raw = t.block.hash

/-- A hash that is shared with some transactions is shared with more. -/
private theorem SharesBundledHash.mono {txs' : List ReceivedTx} (h : SharesBundledHash txs t)
    (hsub : txs ⊆ txs') : SharesBundledHash txs' t := by
  obtain ⟨first, hfirst, hrest⟩ := h
  exact ⟨first, hsub hfirst, hrest⟩

/-- The bid of a transaction passes every check: it is the only message, it clears the history, and
it is accepted. -/
def TakesBid (ctx : LaneContext) (tx : Transaction) : Prop :=
  ∃ bid chunk, bid.tx = tx ∧ tx.bid? = some bid.offer ∧
    ctx.cleared.check bid.offer ctx.params.increment = .ok () ∧
    ctx.toBidContext.accept bid = .ok chunk

/-- A bid that is taken passes the increment over what was cleared. -/
theorem TakesBid.check {tx : Transaction} (h : ctx.TakesBid tx)
    (hoffer : Message.bid offer ∈ tx.body.messages) :
    ctx.cleared.check offer ctx.params.increment = .ok () := by
  obtain ⟨bid, chunk, -, hbid, hcheck, -⟩ := h
  rwa [Transaction.eq_of_mem_of_bid? hbid hoffer]

/-- The bids of a segment pass every check, except for one that is taken for a bundled
transaction. -/
private theorem IsRun.takesBid_or_shares (h : ctx.IsRun run kind)
    (hdecode : ∀ t ∈ run, Transaction.decode t.block.raw = .ok t.tx) (ht : t ∈ run)
    (hbid : t.tx.containsBid) : ctx.TakesBid t.tx ∨ SharesBundledHash run t := by
  -- Free and base segments hold no bids.
  cases kind with
  | free =>
    rw [(h t ht).1] at hbid
    exact nomatch hbid
  | base =>
    rw [(h.1 t ht).1] at hbid
    exact nomatch hbid
  | auction =>
    obtain rfl | ⟨first, rest, winner, rfl, hwinner, hcheck, ⟨chunk, haccept⟩, hbundle⟩ := h
    · exact nomatch ht
    obtain rfl | hrest := List.mem_cons.mp ht
    · exact .inl ⟨_, chunk, rfl, hwinner, hcheck, haccept⟩
    · -- A bundled transaction is no bid, so only its hash can be that of one.
      have hmem : t.block.hash ∈ winner.hashes := hbundle ▸ List.mem_map_of_mem hrest
      obtain ⟨raw, hraw, hhash⟩ := List.mem_map.mp hmem
      refine .inr ⟨first, List.mem_cons_self, winner, hwinner, raw, hraw, fun heq => ?_, hhash⟩
      obtain ⟨bundle, hadmissible, -⟩ := BidContext.accept_eq_ok_iff.mp haccept
      obtain ⟨b, hopens⟩ := BidContext.exists_opens_of_mem_raws hadmissible.opens hraw
      have htx := hopens.decode
      rw [heq, hdecode t ht] at htx
      rw [Except.ok.inj htx, hopens.noBid] at hbid
      exact nomatch hbid

/-- The runs of a cut block are empty, or runs of some kind. -/
private theorem IsCut.isRun_of_mem (h : ctx.IsCut limits used plan cut) (hrun : run ∈ cut) :
    run = [] ∨ ∃ kind, ctx.IsRun run kind := by
  induction h using IsCut.induction with
  | nil => exact nomatch hrun
  | skip _ ih =>
    obtain rfl | hrun := List.mem_cons.mp hrun
    · exact .inl rfl
    · exact ih hrun
  | segment hfirst _ ih =>
    obtain rfl | hrun := List.mem_cons.mp hrun
    · exact .inr ⟨_, hfirst.isRun⟩
    · exact ih hrun

/-- The bids of a received block pass every check, except for one that is taken for a bundled
transaction. -/
theorem IsCut.takesBid_or_shares (h : ctx.IsCut limits used plan cut)
    (hdecode : ∀ t ∈ cut.flatten, Transaction.decode t.block.raw = .ok t.tx)
    (ht : t ∈ cut.flatten) (hbid : t.tx.containsBid) :
    ctx.TakesBid t.tx ∨ SharesBundledHash cut.flatten t := by
  obtain ⟨run, hrun, ht⟩ := List.mem_flatten.mp ht
  have hsub : run ⊆ cut.flatten := fun t ht => List.mem_flatten.mpr ⟨run, hrun, ht⟩
  obtain rfl | ⟨kind, hrule⟩ := h.isRun_of_mem hrun
  · exact nomatch ht
  · obtain htakes | hshares :=
      hrule.takesBid_or_shares (fun t ht => hdecode t (hsub ht)) ht hbid
    · exact .inl htakes
    · exact .inr (hshares.mono hsub)

/-! ### Built blocks -/

/-- What a lane may select among: decoded transactions of its kind. -/
def Sorted (ctx : LaneContext) (kind : LaneKind) (candidates : List PendingTx) : Prop :=
  ∀ r ∈ candidates, Transaction.decode r.raw = .ok r.tx ∧
    LaneKind.ofTransaction ctx.exempt r.tx = kind

/-- The bids that a lane selects pass every check. -/
private theorem takesBid_of_mem_select {candidates : List PendingTx} {included : List Hash}
    {s : Selection} {b : BlockTx} {tx : Transaction} (hcandidates : ctx.Sorted kind candidates)
    (h : ctx.select kind budget included candidates = .ok s) (hb : b ∈ s.txs)
    (htx : Transaction.decode b.raw = .ok tx) (hbid : tx.containsBid) : ctx.TakesBid tx := by
  -- A lane that is filled holds transactions of its own kind, and none of those is a bid.
  have hfill : ∀ cap, kind ≠ .auction → fill budget cap included candidates ≠ s := by
    intro cap hkind heq
    obtain ⟨picked, hpicks, hfill⟩ := exists_picks_of_fill budget cap included candidates
    rw [← heq, hfill] at hb
    obtain ⟨r, hr, rfl⟩ := List.mem_map.mp hb
    obtain ⟨hdecode, hrkind⟩ := hcandidates r (hpicks.sublist.subset hr)
    obtain rfl : r.tx = tx := Except.ok.inj (hdecode.symm.trans htx)
    exact hkind (hrkind.symm.trans (LaneKind.ofTransaction_eq_auction_iff.mpr hbid))
  cases kind with
  | free => exact absurd (Except.ok.inj h) (hfill _ (by decide))
  | base => exact absurd (Except.ok.inj h) (hfill _ (by decide))
  | auction =>
    obtain ⟨htxs, -⟩ | ⟨r, hr, ⟨winner, hwinner, hcheck, haccept⟩, -, -⟩ := clear_cases h
    · rw [htxs] at hb
      cases hb
    obtain ⟨bundle, hadmissible, hs⟩ := BidContext.accept_eq_ok_iff.mp haccept
    rw [hs] at hb
    obtain rfl | hb := List.mem_cons.mp hb
    · -- The bid itself.
      obtain rfl : r.tx = tx := Except.ok.inj ((hcandidates r hr).1.symm.trans htx)
      exact ⟨_, _, rfl, hwinner, hcheck, haccept⟩
    · -- No bundled transaction is a bid.
      obtain ⟨bundled, hbundled, rfl⟩ := List.mem_map.mp hb
      obtain ⟨raw, hopens⟩ := BidContext.exists_opens_of_mem hadmissible.opens hbundled
      have htx : Transaction.decode bundled.raw = .ok tx := htx
      rw [hopens.raw_eq, hopens.decode] at htx
      rw [← Except.ok.inj htx, hopens.noBid] at hbid
      cases hbid

/-- The bids of a block that was built pass every check. -/
theorem Fills.takesBid_of_mem {pending : LaneKind → List PendingTx} {txs : List BlockTx}
    {runs : List (List BlockTx)} {b : BlockTx} {tx : Transaction}
    (h : ctx.Fills limits pending txs plan runs) (hpending : ∀ kind, ctx.Sorted kind (pending kind))
    (hb : b ∈ runs.flatten) (htx : Transaction.decode b.raw = .ok tx) (hbid : tx.containsBid) :
    ctx.TakesBid tx := by
  induction h using Fills.induction with
  | nil => exact nomatch hb
  | skip _ ih => exact ih hb
  | @select _ _ kind _ _ _ _ hselect _ ih =>
    rw [List.flatten_cons, List.mem_append] at hb
    obtain hb | hb := hb
    · exact takesBid_of_mem_select (hpending kind) hselect hb htx hbid
    · exact ih hb

end LaneContext

end LaneAuction
