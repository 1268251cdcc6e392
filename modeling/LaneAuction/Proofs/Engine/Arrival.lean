import LaneAuction.Proofs.Engine.Pending
import LaneAuction.Proofs.Pool.Arrival

/-!
# Blocks do not show when transactions arrived

What a lane selects does not depend on the numbers of its candidates, only on their order
(`LaneContext.select_congr`). If ties are broken by the hash, two engines that agree but for the
numbers of what is pending list the same candidates, so they build the same blocks and drop the same
bids (`proposals_independent_of_arrival`).

Engines agree in that way if they were given the same transactions, all of which were admitted to
stay, and the free ones came in the same order (`sameUpToArrival_of_perm`).
-/

namespace LaneAuction

namespace LaneContext

variable {ctx : LaneContext} {kind : LaneKind} {budget limits : BlockSpace} {included : List Hash}
  {candidates candidates' : List PendingTx} {pending pending' : LaneKind → List PendingTx}

/-- Filling a lane does not read the numbers of arrival. -/
private theorem fillFrom_map_unnumbered (cap : Option Nat) (count : Nat) (used : BlockSpace) :
    fillFrom budget cap included count used (candidates.map PendingTx.unnumbered) =
      fillFrom budget cap included count used candidates := by
  induction candidates generalizing count used with
  | nil => rfl
  | cons r rs ih =>
    have htx : r.unnumbered.toBlockTx = r.toBlockTx := rfl
    simp only [List.map_cons, fillFrom, PendingTx.hash_unnumbered, htx, ih]

/-- Clearing an auction does not read the numbers of arrival. -/
private theorem clear_map_unnumbered :
    ctx.clear budget included (candidates.map PendingTx.unnumbered) =
      ctx.clear budget included candidates := by
  induction candidates with
  | nil => rfl
  | cons r rs ih =>
    have hchunk : ctx.pendingChunk r.unnumbered = ctx.pendingChunk r := rfl
    simp only [List.map_cons, clear, PendingTx.hash_unnumbered, hchunk, ih]

/-- The numbers of the candidates make no difference. -/
private theorem select_map_unnumbered :
    ctx.select kind budget included (candidates.map PendingTx.unnumbered) =
      ctx.select kind budget included candidates := by
  cases kind with
  | auction => exact clear_map_unnumbered
  | free | base => simp only [select, fill, fillFrom_map_unnumbered]

/-- Candidates that are the same up to their numbers are selected the same. -/
private theorem select_congr
    (h : candidates'.map PendingTx.unnumbered = candidates.map PendingTx.unnumbered) :
    ctx.select kind budget included candidates' = ctx.select kind budget included candidates := by
  rw [← select_map_unnumbered, h, select_map_unnumbered]

/-- Lanes with candidates that are the same up to their numbers are filled the same. -/
private theorem assembleFrom_congr
    (h : ∀ kind, (pending' kind).map PendingTx.unnumbered =
      (pending kind).map PendingTx.unnumbered)
    (filled : Selection) (plan : List PlannedLane) :
    ctx.assembleFrom limits pending' filled plan = ctx.assembleFrom limits pending filled plan := by
  induction plan generalizing filled with
  | nil => rfl
  | cons planned plan ih =>
    obtain ⟨lane, kind⟩ := planned
    cases kind with
    | none => exact ih filled
    | some kind => simp only [assembleFrom, select_congr (h kind), ih]

end LaneContext

namespace Engine

variable {e e' start : Engine} {config : Config} {isSigned : Transaction → Bool}

/-- The engines agree but for the numbers of what is pending. -/
structure SameUpToArrival (e e' : Engine) : Prop where
  config : e'.config = e.config
  isSigned : e'.isSigned = e.isSigned
  registry : e'.registry = e.registry
  params : e'.params = e.params
  cleared : e'.cleared = e.cleared
  pool : e.pool.SameUpToArrival e'.pool

namespace SameUpToArrival

/-- The engines build a block of the same transactions and refuse the same bids. -/
theorem selection_eq (h : e.SameUpToArrival e') (he : e.Filed) (he' : e'.Filed)
    (hauction : e.config.auction.tieBreak = .bidHash) (hbase : e.config.base.tieBreak = .bidHash)
    (maxBytes maxGas height : UInt64) (ledger : LedgerView) :
    e'.selection maxBytes maxGas height ledger = e.selection maxBytes maxGas height ledger := by
  have hcontext : e'.context height ledger e'.pool.arena.isPending =
      e.context height ledger e.pool.arena.isPending := by
    simp only [context, h.config, h.params, h.cleared, h.isSigned, h.pool.isPending_eq]
  have hplan : e'.plan = e.plan := by
    funext only
    simp only [plan, h.registry, h.config]
  have hranking : e'.pool.ranking = e.pool.ranking := by
    rw [he'.ranking, he.ranking, h.config]
  have hordered := h.pool.map_ordered_eq (by rw [he.ranking]; exact hauction)
    (by rw [he.ranking]; exact hbase) he.pool he'.pool hranking
  simp only [selection, LaneContext.assemble, hcontext, hplan,
    LaneContext.assembleFrom_congr hordered]

end SameUpToArrival

/-! ### Engines that were given the same transactions -/

/-- A raw transaction, and when it is submitted. -/
structure Submission where
  raw : Bytes
  height : UInt64
  ledger : LedgerView

/-- The call that submits it. -/
def Submission.call (s : Submission) : Call := .submit s.raw s.height s.ledger

/-- The submissions are admitted one after another, and none takes the place of a pending bid. -/
def Gathers (e : Engine) : List Submission → Prop
  | [] => True
  | s :: rest =>
    (∃ hash, ((submit s.raw s.height s.ledger).run.run e).1 = .ok hash) ∧
      (∀ hash r, e.pool.arena.get? hash = some r → ¬ s.call.Takes e r) ∧
      (s.call.apply e).Gathers rest

/-- What a raw transaction is pending as, but for its number. -/
def form? (e : Engine) (raw : Bytes) : Option PendingTx :=
  (Transaction.decode raw).toOption.map (e.record raw)

variable {given given' : List Submission} {raw : Bytes} {hash : Hash} {height : UInt64}
  {ledger : LedgerView} {r : PendingTx} {rs : List PendingTx}

/-- What is admitted is known from its bytes, but for its number. -/
private theorem Admitted.form?_eq (h : Admitted e.config isSigned r) :
    e.form? r.raw = some r.unnumbered := by
  rw [form?, h.decode]
  obtain ⟨hash, raw, tx, lane, arrival, bid⟩ := r
  obtain rfl : hash = Transaction.hash raw := h.hash_eq
  obtain rfl : lane = LaneKind.ofTransaction e.config.free.exempt tx := h.lane_eq
  obtain rfl : bid = tx.bid?.map PendingBid.ofOffer := h.bid_eq
  rfl

/-- A submission that is admitted and replaces nothing enlists its record. -/
private theorem Filed.exists_enlist_of_submit (he : e.Filed)
    (hsubmit : ((submit raw height ledger).run.run e).1 = .ok hash)
    (hkeeps : ∀ hash r, e.pool.arena.get? hash = some r →
      ¬ (Call.submit raw height ledger).Takes e r) :
    ∃ tx, e.pool.CanEnlist (e.record raw tx) ∧
      ((Call.submit raw height ledger).apply e).pool = e.pool.enlist (e.record raw tx) := by
  rw [Call.apply]
  obtain ⟨cause, heq⟩ | ⟨tx, hadmitted, ⟨hcan, heq⟩ | ⟨old, key, hold, hkey, hrkey, -, heq⟩⟩ :=
    he.submit_cases raw height ledger
  · rw [heq] at hsubmit
    cases hsubmit
  · exact ⟨tx, hcan, by rw [heq]⟩
  · obtain ⟨offer, hoffer, rfl⟩ := key?_record_eq_some_iff.mp hrkey
    exact absurd ⟨tx, offer, hadmitted.decode, hoffer, hkey, by rw [heq]⟩ (hkeeps _ _ hold)

/-- What was given in a row is pending in a row. -/
private theorem Filed.exists_lists_of_gathers (he : e.Filed) (hrs : e.pool.Lists rs)
    (h : e.Gathers given) : ∃ rs', (e.after (given.map Submission.call)).pool.Lists rs' ∧
      rs'.map PendingTx.raw = rs.map PendingTx.raw ++ given.map Submission.raw := by
  induction given generalizing e rs with
  | nil => exact ⟨rs, hrs, (List.append_nil _).symm⟩
  | cons s rest ih =>
    obtain ⟨⟨hash, hsubmit⟩, hkeeps, hrest⟩ := h
    obtain ⟨tx, hcan, hpool⟩ := he.exists_enlist_of_submit hsubmit hkeeps
    have hlists := hrs.enlist he.pool hcan
    rw [← hpool] at hlists
    obtain ⟨rs', hrs', hraws⟩ := ih (he.apply s.call) hlists hrest
    refine ⟨rs', hrs', ?_⟩
    rw [hraws, List.map_append, List.append_assoc]
    rfl

/-- Submissions change the pool only. -/
private theorem exists_after_submissions_eq (e : Engine) (given : List Submission) :
    ∃ pool, e.after (given.map Submission.call) = { e with pool } := by
  induction given generalizing e with
  | nil => exact ⟨e.pool, rfl⟩
  | cons s rest ih =>
    obtain ⟨pool, hpool⟩ := changesPoolOnly_submit s.raw s.height s.ledger e
    obtain ⟨pool', hpool'⟩ := ih (s.call.apply e)
    refine ⟨pool', hpool'.trans ?_⟩
    show { (Call.submit s.raw s.height s.ledger).apply e with pool := pool' } = _
    rw [Call.apply, hpool]

/-- What is pending in the end are the forms of what was given, in its order. -/
private theorem exists_forms_of_gathers (hstart : ofConfig config isSigned = .ok start)
    (h : start.Gathers given) : ∃ rs, (start.after (given.map Submission.call)).pool.Lists rs ∧
      rs.map PendingTx.unnumbered = (given.map Submission.raw).filterMap start.form? := by
  have hstartFiled := filed_ofConfig hstart
  have hempty : start.pool.Lists [] := by
    rw [pool_ofConfig hstart]
    exact Pool.lists_ofRanking _
  obtain ⟨rs, hrs, hraws⟩ := hstartFiled.exists_lists_of_gathers hempty h
  refine ⟨rs, hrs, ?_⟩
  rw [List.map_nil, List.nil_append] at hraws
  rw [← hraws, List.filterMap_map, ← List.filterMap_eq_map]
  apply List.filterMap_congr
  intro r hr
  have hadmitted := (hstartFiled.after _).admitted _ _ (hrs.mem_iff.mp hr)
  rw [config_after] at hadmitted
  exact hadmitted.form?_eq.symm

/-- Engines that have gathered the same transactions, the free ones in the same order, agree but for
the numbers of what is pending. -/
private theorem sameUpToArrival_of_perm (hstart : ofConfig config isSigned = .ok start)
    (h : start.Gathers given) (h' : start.Gathers given')
    (hperm : (given'.map Submission.raw).Perm (given.map Submission.raw))
    (hfree : ((given'.map Submission.raw).filterMap start.form?).filter (fun r => r.lane = .free) =
      ((given.map Submission.raw).filterMap start.form?).filter fun r => r.lane = .free) :
    (start.after (given.map Submission.call)).SameUpToArrival
      (start.after (given'.map Submission.call)) := by
  have hstartFiled := filed_ofConfig hstart
  obtain ⟨rs, hrs, hrsForms⟩ := exists_forms_of_gathers hstart h
  obtain ⟨rs', hrs', hrsForms'⟩ := exists_forms_of_gathers hstart h'
  -- All but the pools is as it was at the start.
  obtain ⟨pool, hpool⟩ := start.exists_after_submissions_eq given
  obtain ⟨pool', hpool'⟩ := start.exists_after_submissions_eq given'
  constructor
  -- The records are those of the forms that were submitted, in another order.
  case pool =>
    apply hrs.sameUpToArrival hrs' (hstartFiled.after _).pool (hstartFiled.after _).pool
    · rw [hrsForms, hrsForms']
      exact hperm.filterMap _
    · rw [Pool.freeOf, Pool.freeOf, hrsForms, hrsForms']
      exact hfree
  all_goals rw [hpool, hpool']

/-- Where no bid is pending, a new transaction that is no bid is enlisted. -/
private theorem Filed.run_submit_of_welcomes (he : e.Filed)
    (hbids : ∀ hash r, e.pool.arena.get? hash = some r → r.bid = none)
    (hnew : e.pool.arena.get? (Transaction.hash raw) = none) (hwelcome : e.Welcomes raw)
    (height : UInt64) (ledger : LedgerView) :
    ∃ tx, (e.record raw tx).bid = none ∧ e.pool.CanEnlist (e.record raw tx) ∧
      (submit raw height ledger).run.run e =
        (.ok (Transaction.hash raw), { e with pool := e.pool.enlist (e.record raw tx) }) := by
  have hclaimed : e.pool.arena.isClaimed (Transaction.hash raw) = false := by
    rw [Bool.eq_false_iff]
    intro hclaimed
    obtain ⟨bid, r, hr, hmem⟩ := he.pool.arena.isClaimed_iff.mp hclaimed
    rw [PendingTx.bundle_of_bid_eq_none (hbids bid r hr)] at hmem
    exact absurd hmem List.not_mem_nil
  exact hwelcome.run_submit (Arena.isPending_eq_false_iff.mpr hnew) hclaimed height ledger

/-- Where no bid is pending, transactions that are no bids are gathered in any order. -/
theorem Filed.gathers_of_welcomes (he : e.Filed)
    (hbids : ∀ hash r, e.pool.arena.get? hash = some r → r.bid = none)
    (hnew : ∀ s ∈ given, e.pool.arena.get? (Transaction.hash s.raw) = none)
    (hnodup : (given.map fun s => Transaction.hash s.raw).Nodup)
    (hgiven : ∀ s ∈ given, e.Welcomes s.raw) : e.Gathers given := by
  -- From any engine without bids; the first submission adds its record and leaves such an engine.
  induction given generalizing e with
  | nil => trivial
  | cons s rest ih =>
    obtain ⟨hfirst, hnew⟩ := List.forall_mem_cons.mp hnew
    obtain ⟨hwelcome, hgiven⟩ := List.forall_mem_cons.mp hgiven
    obtain ⟨honce, hnodup⟩ := List.nodup_cons.mp hnodup
    obtain ⟨tx, hbid, hcan, hrun⟩ :=
      he.run_submit_of_welcomes hbids hfirst hwelcome s.height s.ledger
    have happly : s.call.apply e = { e with pool := e.pool.enlist (e.record s.raw tx) } := by
      rw [Submission.call, Call.apply, hrun]
    refine ⟨⟨_, by rw [hrun]⟩, ?_, ?_⟩
    · -- What is pending is still there, so the submission has not taken it.
      intro hash r hr
      obtain rfl := he.pool.arena.hash_eq hr
      apply (he.get?_apply_iff hr s.call).mp
      rw [happly]
      exact hcan.get?_enlist_of_get? hr
    · -- The rest finds one more record, which is no bid and has another hash.
      have hfiled := he.apply s.call
      rw [happly] at hfiled ⊢
      refine ih hfiled ?_ ?_ hnodup hgiven
      · intro hash r hr
        obtain hr | rfl := Pool.get?_enlist_cases hr
        · exact hbids hash r hr
        · exact hbid
      · intro s' hs'
        show (e.pool.enlist _).arena.get? _ = none
        rw [Pool.get?_enlist, if_neg]
        · exact hnew s' hs'
        · intro heq
          exact honce (List.mem_map.mpr ⟨s', hs', heq.symm⟩)

/-! ### The theorem -/

/-- If ties are broken by the hash, engines that agree but for the numbers of what is pending
propose the same transactions and drop the same bids, and so agree again but for the numbers. -/
theorem proposals_independent_of_arrival (hstart : ofConfig config isSigned = .ok start)
    (hauction : config.auction.tieBreak = .bidHash) (hbase : config.base.tieBreak = .bidHash)
    (calls calls' : List Call) (hsame : (start.after calls).SameUpToArrival (start.after calls'))
    (maxBytes maxGas height : UInt64) (ledger : LedgerView) :
    ((start.after calls').prepare maxBytes maxGas height ledger).1 =
        ((start.after calls).prepare maxBytes maxGas height ledger).1 ∧
      ((start.after calls').selection maxBytes maxGas height ledger).refused =
        ((start.after calls).selection maxBytes maxGas height ledger).refused ∧
      ((start.after calls).prepare maxBytes maxGas height ledger).2.SameUpToArrival
        ((start.after calls').prepare maxBytes maxGas height ledger).2 := by
  have he := (filed_ofConfig hstart).after calls
  have he' := (filed_ofConfig hstart).after calls'
  have hconfig : (start.after calls).config = config :=
    (config_after start calls).trans (config_ofConfig hstart)
  -- Both engines make the same selection, and the proposal and what is dropped are read off it.
  have hselection := hsame.selection_eq he he' (hconfig ▸ hauction) (hconfig ▸ hbase)
    maxBytes maxGas height ledger
  rw [prepare_eq, prepare_eq, hselection]
  exact ⟨rfl, rfl, { hsame with pool := hsame.pool.eraseAll he.pool he'.pool _ }⟩

end Engine

/-! ### Two payments in two orders -/

/-- The default configuration, except that the hash breaks ties. -/
def Config.byHash : Config :=
  { Config.default with auction.tieBreak := .bidHash, base.tieBreak := .bidHash }

namespace Engine

/-- A new engine of that configuration. -/
def byHash : Engine := { plain with config := .byHash, pool := .ofRanking (.ofConfig .byHash) }

/-- An engine is started from the configuration in which hashes break ties. -/
private theorem ofConfig_byHash : ofConfig .byHash (fun _ => true) = .ok byHash := by
  have hlanes : Registry.ofLanes Config.byHash.genesis.lanes = .ok ⟨Genesis.default.lanes⟩ :=
    Registry.ofLanes_default
  have hvalid : Config.byHash.validate = .ok () := by
    rw [Config.validate, hlanes]
    decide
  rw [ofConfig, hvalid, hlanes]
  rfl

open Transaction

/-- Two payments of one signer. -/
def payments : List Submission :=
  [⟨rawOfBody payment, 1, LaneContext.plain.ledger⟩,
    ⟨rawOfBody laterPayment, 1, LaneContext.plain.ledger⟩]

/-- The two payments are gathered in both orders. -/
private theorem gathers_payments (given : List Submission) (hperm : given.Perm payments) :
    byHash.Gathers given := by
  have hne := hash_ne_of_toHex toHex_hash_payment toHex_hash_laterPayment (by decide)
  have hgiven : ∀ s ∈ payments, byHash.Welcomes s.raw := by
    intro s hs
    obtain rfl | rfl : s = _ ∨ s = _ := by simpa [payments] using hs
    · exact ⟨_, decode_rawOfBody payment_wellFormed, rfl, by decide, by decide⟩
    · exact ⟨_, decode_rawOfBody laterPayment_wellFormed, rfl, by decide, by decide⟩
  apply (filed_ofConfig ofConfig_byHash).gathers_of_welcomes
  · intro hash r hr
    simp [byHash, Pool.ofRanking, Arena.empty, Arena.get?] at hr
  · intro s _
    simp [byHash, Pool.ofRanking, Arena.empty, Arena.get?]
  · rw [(hperm.map _).nodup_iff]
    simpa [payments] using hne
  · intro s hs
    exact hgiven s (hperm.mem_iff.mp hs)

/-- Neither of the two payments is free. -/
private theorem filter_free_payments (given : List Submission) (hperm : given.Perm payments) :
    ((given.map Submission.raw).filterMap byHash.form?).filter (fun r => r.lane = .free) = [] := by
  have hbase : ∀ s ∈ payments, ∀ r, byHash.form? s.raw = some r → r.lane = .base := by
    intro s hs r hr
    obtain rfl | rfl : s = _ ∨ s = _ := by simpa [payments] using hs
    · rw [form?, decode_rawOfBody payment_wellFormed] at hr
      obtain rfl := Option.some.inj hr
      rfl
    · rw [form?, decode_rawOfBody laterPayment_wellFormed] at hr
      obtain rfl := Option.some.inj hr
      rfl
  rw [List.filter_eq_nil_iff]
  intro r hr hfree
  obtain ⟨raw, hraw, hform⟩ := List.mem_filterMap.mp hr
  obtain ⟨s, hs, rfl⟩ := List.mem_map.mp hraw
  have hlane := hbase s (hperm.mem_iff.mp hs) r hform
  rw [of_decide_eq_true hfree] at hlane
  cases hlane

/-- Two nodes that get two payments in different orders propose the same block. -/
theorem proposals_independent_of_arrival_payments :
    (byHash.after (payments.map Submission.call)).SameUpToArrival
        (byHash.after (payments.reverse.map Submission.call)) ∧
      ((byHash.after (payments.reverse.map Submission.call)).prepare 1000 0 1
          LaneContext.plain.ledger).1 =
        ((byHash.after (payments.map Submission.call)).prepare 1000 0 1
          LaneContext.plain.ledger).1 := by
  have hreverse : payments.reverse.Perm payments := List.reverse_perm payments
  have hsame : (byHash.after (payments.map Submission.call)).SameUpToArrival
      (byHash.after (payments.reverse.map Submission.call)) := by
    apply sameUpToArrival_of_perm ofConfig_byHash
    · exact gathers_payments _ (.refl _)
    · exact gathers_payments _ hreverse
    · exact hreverse.map _
    · rw [filter_free_payments _ hreverse, filter_free_payments _ (.refl _)]
  exact ⟨hsame, (proposals_independent_of_arrival ofConfig_byHash rfl rfl _ _ hsame 1000 0 1
    LaneContext.plain.ledger).1⟩

end Engine

end LaneAuction
