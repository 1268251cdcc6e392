import LaneAuction.Proofs.Block.Refusals
import LaneAuction.Proofs.Engine.Fallback

/-!
# Building the same block again

Building a block drops the bids that it refuses from the pool, and the pool decides what a bundle
may hold. So the next block is built of fewer candidates, under looser rules. But what is dropped is
what had failed: nobody who was skipped or won is missing, whoever was admissible is so where less
is pending, and the lanes that are no auction list what they listed before. The search passes over
the same candidates without those that were evicted (`PassesOver.again`) and ends at the same
winner. So building again gives the same block, and nothing is left to drop
(`Engine.prepare_again`).
-/

namespace LaneAuction

/-- The candidates whose hash is not dropped. -/
def without (dropped : List Hash) (candidates : List PendingTx) : List PendingTx :=
  candidates.filter fun r => r.hash ∉ dropped

section

variable {dropped : List Hash} {candidates candidates' : List PendingTx} {r : PendingTx}

/-- A candidate that was dropped is left out. -/
private theorem without_cons_of_mem (h : r.hash ∈ dropped) :
    without dropped (r :: candidates) = without dropped candidates :=
  List.filter_cons_of_neg (by simpa using h)

/-- A candidate that was not dropped is kept. -/
private theorem without_cons_of_notMem (h : r.hash ∉ dropped) :
    without dropped (r :: candidates) = r :: without dropped candidates :=
  List.filter_cons_of_pos (by simpa using h)

/-- Candidates are left out of each part of a list. -/
private theorem without_append : without dropped (candidates ++ candidates') =
    without dropped candidates ++ without dropped candidates' :=
  List.filter_append ..

/-- Where nothing was dropped, nothing is left out. -/
private theorem without_eq_self (h : ∀ r ∈ candidates, r.hash ∉ dropped) :
    without dropped candidates = candidates :=
  List.filter_eq_self.mpr fun r hr => decide_eq_true (h r hr)

end

namespace LaneContext

variable {ctx : LaneContext} {kind : LaneKind} {budget limits : BlockSpace} {included : List Hash}
  {candidates before : List PendingTx} {evicted : List (Hash × Rejection)} {r : PendingTx}
  {chunk : List BlockTx} {cause : Rejection} {winner : Option PendingTx} {filled s : Selection}
  {pending : LaneKind → List PendingTx} {plan : List PlannedLane} {dropped : List Hash}
  {isPending : Hash → Bool}

/-! ### Where less is pending -/

/-- Whatever is pending counts against a bundle only. -/
private theorem Admits.of_pending (h : ctx.Admits r chunk)
    (hless : ∀ hash, isPending hash → ctx.isPending hash) :
    { ctx with isPending }.Admits r chunk := by
  obtain ⟨offer, hoffer, hcheck, haccept⟩ := h
  exact ⟨offer, hoffer, hcheck, BidContext.accept_of_accept hless haccept⟩

/-- Without those that were evicted, the others are passed over, and nobody else is evicted. -/
private theorem PassesOver.again (h : ctx.PassesOver budget included before evicted)
    (hless : ∀ hash, isPending hash → ctx.isPending hash)
    (hevicted : ∀ entry ∈ evicted, entry.1 ∈ dropped) :
    { ctx with isPending }.PassesOver budget included (without dropped before) [] := by
  induction h with
  | nil => exact .nil
  | @evict r e rs evicted hfails hfatal hrest ih =>
    obtain ⟨hr, hevicted⟩ := List.forall_mem_cons.mp hevicted
    rw [without_cons_of_mem hr]
    exact ih hevicted
  | @skip r chunk rs evicted hadmits hplaces hrest ih =>
    -- It has the same chunk as before, and there is no more room for it.
    by_cases hr : r.hash ∈ dropped
    · rw [without_cons_of_mem hr]
      exact ih hevicted
    · rw [without_cons_of_notMem hr]
      exact .skip (hadmits.of_pending hless) hplaces (ih hevicted)

/-- Then the search ends at the same winner. -/
private theorem Clears.again (h : ctx.Clears budget included candidates winner s)
    (hless : ∀ hash, isPending hash → ctx.isPending hash)
    (hrefused : ∀ entry ∈ s.refused, entry.1 ∈ dropped)
    (hfails : ∀ r ∈ candidates, r.hash ∈ dropped → ∃ cause, ctx.Fails r cause) :
    { ctx with isPending }.Clears budget included (without dropped candidates) winner
      { s with refused := [] } := by
  cases h with
  | @winner before after r chunk evicted heq hbefore hadmits hplaces =>
    subst heq
    -- The winner is admissible, so it was not dropped.
    have hr : r.hash ∉ dropped := by
      intro hmem
      obtain ⟨cause, hfails⟩ := hfails r (by simp) hmem
      exact hfails.not_admits hadmits
    have heq : without dropped (before ++ r :: after) =
        without dropped before ++ r :: without dropped after := by
      rw [without_append, without_cons_of_notMem hr]
    exact .winner heq (hbefore.again hless hrefused) (hadmits.of_pending hless) hplaces
  | nobody hall => exact .nobody (hall.again hless hrefused)

/-! ### Lanes without what was dropped -/

/-- Nothing is dropped but candidates of the auction that fail. -/
def DropsFailed (ctx : LaneContext) (pending : LaneKind → List PendingTx) (dropped : List Hash) :
    Prop :=
  ∀ kind, ∀ r ∈ pending kind, r.hash ∈ dropped → kind = .auction ∧ ∃ cause, ctx.Fails r cause

/-- Every lane selects again what it has selected. -/
theorem select_again (hdrops : ctx.DropsFailed pending dropped)
    (hless : ∀ hash, isPending hash → ctx.isPending hash)
    (h : ctx.select kind budget included (pending kind) = .ok s)
    (hrefused : ∀ entry ∈ s.refused, entry.1 ∈ dropped) :
    { ctx with isPending }.select kind budget included (without dropped (pending kind)) =
      .ok { s with refused := [] } := by
  have hkept : kind ≠ .auction → without dropped (pending kind) = pending kind := fun hkind =>
    without_eq_self fun r hr hmem => hkind (hdrops kind r hr hmem).1
  cases kind with
  | auction =>
    obtain ⟨winner, hclears⟩ := clear_eq_ok_iff.mp h
    have hfails : ∀ r ∈ pending .auction, r.hash ∈ dropped → ∃ cause, ctx.Fails r cause :=
      fun r hr hmem => (hdrops .auction r hr hmem).2
    exact clear_eq_ok_iff.mpr ⟨winner, hclears.again hless hrefused hfails⟩
  | free | base =>
    -- Nothing of it is dropped.
    rw [hkept (by decide)]
    obtain rfl := Except.ok.inj h
    rfl

/-- What earlier lanes refused stays noted. -/
private theorem subset_refused_of_assembleFrom
    (h : ctx.assembleFrom limits pending filled plan = .ok s) : filled.refused ⊆ s.refused := by
  induction h using assembleFrom_induction with
  | nil => exact List.Subset.refl _
  | skip _ ih => exact ih
  | select _ _ ih => exact fun entry hentry => ih (List.mem_append_left _ hentry)

/-- The lanes are filled again as they were, and nothing is refused. -/
theorem assembleFrom_again (hdrops : ctx.DropsFailed pending dropped)
    (hless : ∀ hash, isPending hash → ctx.isPending hash)
    (h : ctx.assembleFrom limits pending filled plan = .ok s)
    (hrefused : ∀ entry ∈ s.refused, entry.1 ∈ dropped) :
    { ctx with isPending }.assembleFrom limits (fun kind => without dropped (pending kind))
      { filled with refused := [] } plan = .ok { s with refused := [] } := by
  -- Along the plan, both blocks hold the same; they differ in what is noted as refused.
  induction h using assembleFrom_induction with
  | nil => rfl
  | skip _ ih => exact ih
  | @select filled lane _ _ selected hselect h ih =>
    have hselected : ∀ entry ∈ selected.refused, entry.1 ∈ dropped := fun entry hentry =>
      hrefused entry (subset_refused_of_assembleFrom h (List.mem_append_right _ hentry))
    have hselect := select_again hdrops hless hselect hselected
    rw [assembleFrom_cons_of_select { filled with refused := [] } lane hselect]
    exact ih

end LaneContext

namespace Engine

variable {e start : Engine} {config : Config} {isSigned : Transaction → Bool}
  {maxBytes maxGas height : UInt64} {ledger : LedgerView} {cause : AssemblyError}
  {built : Proposal × Engine}

/-! ### The second block -/

/-- What is left in a pool is listed in the same order. -/
private theorem Filed.ordered_eraseAll (he : e.Filed) (dropped : List Hash) (kind : LaneKind) :
    (e.pool.eraseAll dropped).ordered kind = without dropped (e.pool.ordered kind) := by
  refine he.pool.ordered_eq_filter (he.pool.eraseAll dropped) Pool.ranking_eraseAll ?_ kind
  intro hash r
  rw [he.pool.get?_eraseAll_eq_some_iff, and_comm]
  refine and_congr_right fun hr => ?_
  rw [he.pool.arena.hash_eq hr]

/-- What is pending behind dropped transactions was pending in front of them. -/
private theorem Filed.isPending_of_eraseAll (he : e.Filed) {dropped : List Hash} {hash : Hash}
    (h : (e.pool.eraseAll dropped).arena.isPending hash) : e.pool.arena.isPending hash := by
  obtain ⟨r, hr⟩ := Arena.isPending_iff.mp h
  exact Arena.isPending_iff.mpr ⟨r, (he.pool.get?_eraseAll_eq_some_iff.mp hr).2⟩

/-- The bids that are refused while a block is built are no others than bids that fail. -/
private theorem Filed.dropsFailed (he : e.Filed) {plan : List PlannedLane} {s : Selection}
    {limits : BlockSpace} (hs : (e.context height ledger e.pool.arena.isPending).assemble limits
      e.pool.ordered plan = .ok s) :
    (e.context height ledger e.pool.arena.isPending).DropsFailed e.pool.ordered
      (s.refused.map Prod.fst) := by
  intro kind r hr hmem
  obtain ⟨⟨hash, cause⟩, hrefused, rfl⟩ := List.mem_map.mp hmem
  obtain ⟨r', hr', hhash, hrefuses⟩ :=
    (LaneContext.exists_refuses_of_assembleFrom hs hrefused).resolve_left List.not_mem_nil
  -- One transaction is pending under the hash.
  obtain ⟨hget, hlane⟩ := he.pool.mem_ordered_iff.mp hr
  obtain ⟨hget', hlane'⟩ := he.pool.mem_ordered_iff.mp hr'
  rw [hhash, hget] at hget'
  obtain rfl := Option.some.inj hget'
  exact ⟨hlane.symm.trans hlane', cause, LaneContext.pendingChunk_eq_error_iff.mp hrefuses.1⟩

/-- A block that is built of all lanes is built of all lanes again, and drops nothing. -/
theorem Filed.tryPrepare_again (he : e.Filed)
    (h : e.tryPrepare maxBytes maxGas height ledger = .ok built) :
    built.2.tryPrepare maxBytes maxGas height ledger = .ok built := by
  obtain ⟨s, hs, rfl⟩ := build_eq_ok_iff.mp h
  let dropped := s.refused.map Prod.fst
  have hordered : (e.pool.eraseAll dropped).ordered =
      fun kind => without dropped (e.pool.ordered kind) := funext (he.ordered_eraseAll dropped)
  have hassemble : (e.context height ledger (e.pool.eraseAll dropped).arena.isPending).assemble
      (.ofLimits maxBytes maxGas) (e.pool.eraseAll dropped).ordered (e.plan none) =
        .ok { s with refused := [] } := by
    rw [hordered]
    exact LaneContext.assembleFrom_again (he.dropsFailed hs)
      (fun _ => he.isPending_of_eraseAll) hs fun _ => List.mem_map_of_mem
  exact build_eq_ok_iff.mpr ⟨_, hassemble, rfl⟩

/-- Whatever calls an engine has had: building a block a second time, with the same limits, at the
same height and with the same ledger, gives the same block and leaves the engine as the first time
did. -/
theorem prepare_again (hstart : ofConfig config isSigned = .ok start) (calls : List Call)
    (maxBytes maxGas height : UInt64) (ledger : LedgerView) :
    let first := (start.after calls).prepare maxBytes maxGas height ledger
    first.2.prepare maxBytes maxGas height ledger = first := by
  intro first
  have he : (start.after calls).Filed := (filed_ofConfig hstart).after calls
  cases htry : (start.after calls).tryPrepare maxBytes maxGas height ledger with
  | ok built =>
    have hfirst : first = built := by simp only [first, prepare, htry]
    rw [hfirst, prepare, he.tryPrepare_again htry]
  | error cause =>
    -- The base lane refuses nothing, so that the second call is on the same engine.
    obtain ⟨txs, htxs⟩ := (start.after calls).exists_selectsBase (.ofLimits maxBytes maxGas)
    have hbuild := htxs.build_eq (nodup_kindIds_after hstart calls) he.ids height ledger
    have hfirst : first = (⟨height, txs⟩, start.after calls) := by
      simp only [first, prepare, htry, hbuild]
    rw [hfirst]
    exact hfirst

open Transaction

/-- The bid has expired at its timeout. -/
private theorem fails_expired {increment : Amount} {pool : Pool} (ledger : LedgerView)
    (isPending : Hash → Bool) :
    ((raisedBy increment pool).context 10 ledger isPending).Fails pendingBidding
      (.expired 10 10) := by
  have hoffer : pendingBidding.tx.bid? = some biddingOffer := rfl
  have hrejects : ((raisedBy increment pool).context 10 ledger isPending).toBidContext.Rejects
      ⟨pendingBidding.hash, pendingBidding.raw, pendingBidding.tx, biddingOffer⟩
      (.expired 10 10) := .expired (UInt64.le_refl _)
  exact .notAccepted hoffer rfl (BidContext.accept_eq_error_iff.mpr hrejects)

/-- Nothing waits in the free lane. -/
private theorem ordered_free_waitingPool (hp : waitingPool.Filed) :
    waitingPool.ordered .free = [] := by
  rw [List.eq_nil_iff_forall_not_mem]
  intro r hr
  obtain ⟨hget, hlane⟩ := hp.mem_ordered_iff.mp hr
  obtain rfl | rfl := get?_waitingPool_cases hget
  · exact nomatch hlane
  · exact nomatch hlane

/-- What each lane selects: the auction evicts the expired bid, and the base lane takes the
payment. -/
private theorem tryPrepare_waitingPool (hp : waitingPool.Filed) (ledger : LedgerView) :
    (raisedBy ⟨1, by decide⟩ waitingPool).tryPrepare 4000 0 10 ledger =
      .ok (⟨10, [pendingLater.toBlockTx]⟩,
        raisedBy ⟨1, by decide⟩ (waitingPool.eraseAll [pendingBidding.hash])) := by
  let ctx := (raisedBy ⟨1, by decide⟩ waitingPool).context 10 ledger waitingPool.arena.isPending
  have hplan : (raisedBy ⟨1, by decide⟩ waitingPool).plan none =
      [⟨⟨"mev", .fifth, 0⟩, some .auction⟩, ⟨⟨"free", .fifth, 1⟩, some .free⟩,
        ⟨⟨"default", .zero, 2⟩, some .base⟩] := rfl
  obtain ⟨hauction, hbase⟩ := ordered_waitingPool hp
  -- The auction has one candidate, which is evicted; the free lane has none.
  have hevicts : ctx.Clears (.budget (.ofLimits 4000 0) .zero .fifth) [] [pendingBidding] none
      ⟨[], .zero, [(pendingBidding.hash, .expired 10 10)]⟩ :=
    .nobody (.evict (fails_expired ledger _) rfl .nil)
  have hmev : ctx.select .auction (.budget (.ofLimits 4000 0) .zero .fifth) []
      (waitingPool.ordered .auction) =
        .ok ⟨[], .zero, [(pendingBidding.hash, .expired 10 10)]⟩ := by
    rw [hauction]
    exact hevicts.clear_eq
  have hfree : ∀ budget included, ctx.select .free budget included (waitingPool.ordered .free) =
      .ok .empty := by
    intro budget included
    rw [ordered_free_waitingPool hp]
    rfl
  -- The payment fits the base lane, whose budget is all that is left.
  have hdefault : ctx.select .base (.budget (.ofLimits 4000 0) .zero .zero) []
      (waitingPool.ordered .base) = .ok ⟨[pendingLater.toBlockTx], spaceOf [pendingLater], []⟩ := by
    rw [hbase]
    exact congrArg Except.ok greedy_pendingLater.fill_eq
  -- Lane by lane, what is selected is added up.
  have hassemble : ctx.assemble (.ofLimits 4000 0) waitingPool.ordered
      ((raisedBy ⟨1, by decide⟩ waitingPool).plan none) =
        .ok ⟨[pendingLater.toBlockTx], spaceOf [pendingLater],
          [(pendingBidding.hash, .expired 10 10)]⟩ := by
    rw [hplan, LaneContext.assemble,
      LaneContext.assembleFrom_cons_of_select .empty ⟨"mev", .fifth, 0⟩ hmev,
      LaneContext.assembleFrom_cons_of_select _ _ (hfree _ _)]
    simp only [Selection.empty, List.nil_append, BlockSpace.zero_add, List.append_nil]
    rw [LaneContext.assembleFrom_cons_of_select ⟨[], .zero, _⟩ ⟨"default", .zero, 2⟩ hdefault,
      LaneContext.assembleFrom]
    simp only [List.nil_append, List.append_nil, BlockSpace.zero_add]
  exact build_eq_ok_iff.mpr ⟨_, hassemble, rfl⟩

/-- The bid has expired: the first block drops it and holds the payment behind it, and so does the
second. -/
theorem prepare_again_expired : ofConfig .default (fun _ => true) = .ok plain ∧
    (plain.after bidAndLater).pool.arena.isPending pendingBidding.hash ∧
    let first := (plain.after bidAndLater).prepare 4000 0 10 Accounts.endowed.view
    first.1 = ⟨10, [pendingLater.toBlockTx]⟩ ∧
    first.2.pool.arena.isPending pendingBidding.hash = false ∧
    first.2.prepare 4000 0 10 Accounts.endowed.view = first := by
  have he := (filed_ofConfig ofConfig_default).after bidAndLater
  have hagain := prepare_again ofConfig_default bidAndLater 4000 0 10 Accounts.endowed.view
  rw [after_bidAndLater] at he hagain ⊢
  have hp : waitingPool.Filed := he.pool
  -- The expired bid is gone with the first call, and the block holds the payment.
  have hprepare : (raisedBy ⟨1, by decide⟩ waitingPool).prepare 4000 0 10 Accounts.endowed.view =
      (⟨10, [pendingLater.toBlockTx]⟩,
        raisedBy ⟨1, by decide⟩ (waitingPool.eraseAll [pendingBidding.hash])) := by
    rw [prepare, tryPrepare_waitingPool hp]
  rw [hprepare] at hagain ⊢
  refine ⟨ofConfig_default, ?_, rfl, ?_, hagain⟩
  · have hpending := (ordered_waitingPool hp).1 ▸ List.mem_singleton_self pendingBidding
    exact Arena.isPending_iff.mpr ⟨_, (hp.mem_ordered_iff.mp hpending).1⟩
  · rw [Arena.isPending_eq_false_iff, pool_raisedBy, hp.get?_eraseAll,
      if_pos (List.mem_singleton_self _)]

end Engine

end LaneAuction
