import LaneAuction.Ledger.Outage
import LaneAuction.Proofs.Auction.Rules
import LaneAuction.Proofs.Block.Clearing
import LaneAuction.Proofs.Block.Greedy
import LaneAuction.Proofs.Block.Shares
import LaneAuction.Proofs.Engine.Admitted
import LaneAuction.Proofs.Engine.Chain
import LaneAuction.Proofs.Engine.Resubmission

/-!
# Blocks of the base lane alone

A block cannot be built of all lanes if the ledger fails on a pending bid (`Halts`). Then lanes in
front are filled already and bids in front are marked as refused, and none of this may show: the
pool is as before, and the block is what the base lane selects as if it were the only lane
(`fallback_keeps_pool`). The other lanes are in the plan, but use nothing of the block.
-/

namespace LaneAuction

namespace LaneContext

variable {ctx : LaneContext} {kind : LaneKind} {limits : BlockSpace}
  {pending : LaneKind → List PendingTx} {filled : Selection} {plan before behind : List PlannedLane}
  {cause : AssemblyError}

/-- Lanes of no kind take nothing and use nothing. -/
private theorem assembleFrom_of_inert (h : ∀ l ∈ plan, l.kind = none) :
    ctx.assembleFrom limits pending filled plan = .ok filled := by
  induction plan with
  | nil => rfl
  | cons planned plan ih =>
    obtain ⟨lane, kind⟩ := planned
    obtain ⟨rfl, hplan⟩ := List.forall_mem_cons.mp h
    exact ih hplan

/-- Where one lane alone is of some kind, the block is what it selects with its share of an unused
block. -/
private theorem assemble_sole (hbefore : ∀ l ∈ before, l.kind = none)
    (hbehind : ∀ l ∈ behind, l.kind = none) (lane : Lane) (kind : LaneKind) :
    ctx.assemble limits pending (before ++ ⟨lane, some kind⟩ :: behind) =
      (ctx.select kind (.budget limits .zero lane.fraction) [] (pending kind)).mapError
        (⟨lane.id, ·⟩) := by
  rw [assemble, assembleFrom_append, assembleFrom_of_inert hbefore, Except.ok_bind, assembleFrom]
  -- Nothing is in the block in front of the lane.
  show ((ctx.select kind (.budget limits .zero lane.fraction) [] (pending kind)).mapError _ >>= _) =
    _
  cases ctx.select kind (.budget limits .zero lane.fraction) [] (pending kind) with
  | error cause => rfl
  | ok s =>
    rw [Except.mapError_ok, Except.ok_bind, assembleFrom_of_inert hbehind]
    simp [Selection.empty]

/-- Building fails at the lane that cannot select, behind lanes that are filled. -/
theorem assembleFrom_eq_error_iff : ctx.assembleFrom limits pending filled plan = .error cause ↔
    ∃ before lane kind behind s, plan = before ++ ⟨lane, some kind⟩ :: behind ∧
      lane.id = cause.lane ∧ ctx.assembleFrom limits pending filled before = .ok s ∧
      ctx.select kind (.budget limits s.used lane.fraction) (s.txs.map BlockTx.hash)
        (pending kind) = .error cause.cause := by
  constructor
  · intro h
    induction plan generalizing filled with
    | nil => exact nomatch h
    | cons planned plan ih =>
      obtain ⟨lane, kind⟩ := planned
      cases kind with
      | none =>
        obtain ⟨before, lane', kind, behind, s, rfl, hlane, hbefore, hselect⟩ := ih h
        exact ⟨⟨lane, none⟩ :: before, lane', kind, behind, s, rfl, hlane, hbefore, hselect⟩
      | some kind =>
        rw [assembleFrom, Except.bind_eq_error_iff, Except.mapError_eq_error_iff] at h
        -- This lane cannot select, or one behind it cannot.
        obtain ⟨cause, hselect, rfl⟩ | ⟨s, hs, h⟩ := h
        · exact ⟨[], lane, kind, plan, filled, rfl, rfl, rfl, hselect⟩
        · obtain ⟨before, lane', kind', behind, s', rfl, hlane, hbefore, hselect⟩ := ih h
          refine ⟨⟨lane, some kind⟩ :: before, lane', kind', behind, s', rfl, hlane, ?_, hselect⟩
          rw [assembleFrom, hs]
          exact hbefore
  · -- The other way, the lanes in front of it select, and it stops the plan.
    intro h
    obtain ⟨before, lane, kind, behind, s, rfl, hlane, hbefore, hselect⟩ := h
    rw [assembleFrom_append, hbefore, Except.ok_bind, assembleFrom, hselect]
    show Except.error _ = Except.error _
    rw [hlane]

end LaneContext

namespace Engine

variable {e start : Engine} {config : Config} {isSigned : Transaction → Bool} {kind : LaneKind}
  {limits : BlockSpace} {maxBytes maxGas height : UInt64} {ledger : LedgerView}
  {cause : AssemblyError} {txs : List BlockTx}

/-! ### Blocks that cannot be built -/

/-- Building a block of all lanes halts at the lane of the auction: what is in front of it is
filled, some of its bids are passed over or marked as refused, and the next one fails fatally. -/
def Halts (e : Engine) (limits : BlockSpace) (height : UInt64) (ledger : LedgerView)
    (cause : AssemblyError) : Prop :=
  ∃ before lane behind s, e.plan none = before ++ ⟨lane, some .auction⟩ :: behind ∧
    lane.id = cause.lane ∧
    (e.context height ledger e.pool.arena.isPending).assembleFrom limits e.pool.ordered .empty
      before = .ok s ∧
    (e.context height ledger e.pool.arena.isPending).Aborts
      (.budget limits s.used lane.fraction) (s.txs.map BlockTx.hash) (e.pool.ordered .auction)
      cause.cause

/-- The auction is the only lane at which building can fail. -/
theorem tryPrepare_eq_error_iff : e.tryPrepare maxBytes maxGas height ledger = .error cause ↔
    e.Halts (.ofLimits maxBytes maxGas) height ledger cause := by
  simp only [tryPrepare, build, LaneContext.assemble, Except.bind_eq_error_iff, Except.pure_eq_ok,
    reduceCtorEq, and_false, exists_false, or_false, LaneContext.assembleFrom_eq_error_iff]
  constructor
  · intro h
    obtain ⟨before, lane, kind, behind, s, hplan, hlane, hbefore, hselect⟩ := h
    cases kind with
    | auction =>
      exact ⟨before, lane, behind, s, hplan, hlane, hbefore,
        LaneContext.clear_eq_error_iff.mp hselect⟩
    -- The other lanes ask nothing of the ledger.
    | free | base => cases hselect
  · intro h
    obtain ⟨before, lane, behind, s, hplan, hlane, hbefore, haborts⟩ := h
    exact ⟨before, lane, .auction, behind, s, hplan, hlane, hbefore, haborts.clear_eq⟩

/-- The engine after trying to build a block of all lanes, whatever comes of it. -/
def afterTry (e : Engine) (maxBytes maxGas height : UInt64) (ledger : LedgerView) : Engine :=
  ((e.tryPrepare maxBytes maxGas height ledger).map Prod.snd).toOption.getD e

/-! ### The base lane alone -/

/-- What the base lane selects alone: nothing if it is not registered, and else what is chosen
greedily of all that is pending in it, with the share of the lane in an unused block. -/
def SelectsBase (e : Engine) (limits : BlockSpace) (txs : List BlockTx) : Prop :=
  match e.registry.find? (e.config.laneId .base) with
  | none => txs = []
  | some lane => ∃ chosen, txs = chosen.map PendingTx.toBlockTx ∧
      Greedy (.budget limits .zero lane.fraction) (LaneContext.cap.limit e.config.base.maxTxs) [] []
        (e.pool.ordered .base) chosen

/-- The base lane selects one list. -/
private theorem SelectsBase.unique {txs' : List BlockTx} (h : e.SelectsBase limits txs)
    (h' : e.SelectsBase limits txs') : txs = txs' := by
  rw [SelectsBase] at h h'
  cases hfind : e.registry.find? (e.config.laneId .base) with
  | none =>
    rw [hfind] at h h'
    exact h.trans h'.symm
  | some lane =>
    rw [hfind] at h h'
    obtain ⟨chosen, rfl, hchosen⟩ := h
    obtain ⟨chosen', rfl, hchosen'⟩ := h'
    rw [hchosen.unique hchosen']

/-- The base lane always selects something. -/
theorem exists_selectsBase (e : Engine) (limits : BlockSpace) :
    ∃ txs, e.SelectsBase limits txs := by
  simp only [SelectsBase]
  cases e.registry.find? (e.config.laneId .base) with
  | none => exact ⟨[], rfl⟩
  | some lane =>
    obtain ⟨chosen, hchosen⟩ := exists_greedy (.budget limits .zero lane.fraction)
      (LaneContext.cap.limit e.config.base.maxTxs) [] [] (e.pool.ordered .base)
    exact ⟨_, chosen, rfl, hchosen⟩

/-- Of the lanes of a plan for one kind, only the one that is bound to it has a kind. -/
private theorem plan_some_eq
    (hids : [e.config.auction.id, e.config.free.id, e.config.base.id].Nodup)
    (kind : LaneKind) : e.plan (some kind) = e.registry.lanes.map fun lane =>
      ⟨lane, if lane.id = e.config.laneId kind then some kind else none⟩ := by
  refine List.map_congr_left fun lane _ => ?_
  have hkind' : ∀ {kind'}, e.config.kindOf? lane.id = some kind' ↔
      lane.id = e.config.laneId kind' := Config.kindOf?_eq_some_iff hids
  congr 1
  split
  · next hid =>
    rw [hkind'.mpr hid]
    simp
  · next hid =>
    -- Whatever kind is bound to another id, the filter drops it.
    rw [Option.filter_eq_none_iff]
    intro kind' hbound hsame
    simp only [Option.all_some, beq_iff_eq] at hsame
    exact hid (hkind'.mp (hsame ▸ hbound))

/-- Where no lane has the id, no lane of the plan has the kind. -/
private theorem kind_eq_none_of_ne {lanes : List Lane} {id : String}
    (h : ∀ lane ∈ lanes, lane.id ≠ id) :
    ∀ l ∈ lanes.map fun lane => (⟨lane, if lane.id = id then some kind else none⟩ : PlannedLane),
      l.kind = none := by
  intro l hl
  obtain ⟨lane, hlane, rfl⟩ := List.mem_map.mp hl
  exact if_neg (h lane hlane)

/-- The lanes of a plan for the base lane give what it selects, and refuse nothing. -/
theorem SelectsBase.exists_assemble (h : e.SelectsBase limits txs)
    (hids : [e.config.auction.id, e.config.free.id, e.config.base.id].Nodup)
    (hlanes : (e.registry.lanes.map Lane.id).Nodup) (height : UInt64) (ledger : LedgerView) :
    ∃ used, (e.context height ledger e.pool.arena.isPending).assemble limits e.pool.ordered
      (e.plan (some .base)) = .ok ⟨txs, used, []⟩ := by
  rw [plan_some_eq hids]
  -- The plan is as long as ever; what matters is where its one kind stands.
  rw [SelectsBase] at h
  cases hfind : e.registry.find? (e.config.laneId .base) with
  -- Without the lane, no planned lane has a kind, and the block is empty.
  | none =>
    rw [hfind] at h
    obtain rfl := h
    have hnone : ∀ lane ∈ e.registry.lanes, lane.id ≠ e.config.laneId .base := by
      simpa using List.find?_eq_none.mp hfind
    exact ⟨.zero, LaneContext.assembleFrom_of_inert (kind_eq_none_of_ne hnone)⟩
  | some lane =>
    rw [hfind] at h
    obtain ⟨chosen, rfl, hchosen⟩ := h
    -- No lane in front of it has its id, and none behind it as ids are distinct.
    obtain ⟨hid, before, behind, hsplit, hbefore⟩ := List.find?_eq_some_iff_append.mp hfind
    have hid : lane.id = e.config.laneId .base := by simpa using hid
    have hbefore : ∀ other ∈ before, other.id ≠ e.config.laneId .base := by simpa using hbefore
    have hbehind : ∀ other ∈ behind, other.id ≠ e.config.laneId .base := by
      rw [hsplit, List.map_append, List.map_cons, List.nodup_append, List.nodup_cons] at hlanes
      obtain ⟨-, ⟨hnew, -⟩, -⟩ := hlanes
      intro other hother heq
      rw [hid, ← heq] at hnew
      exact hnew (List.mem_map_of_mem hother)
    rw [hsplit, List.map_append, List.map_cons, if_pos hid, LaneContext.assemble_sole
      (kind_eq_none_of_ne hbefore) (kind_eq_none_of_ne hbehind)]
    exact ⟨spaceOf chosen, congrArg _ (congrArg Except.ok hchosen.fill_eq)⟩

/-- The base lane alone is always built, and nothing is dropped from the pool for it. -/
theorem SelectsBase.build_eq (h : e.SelectsBase (.ofLimits maxBytes maxGas) txs)
    (hids : [e.config.auction.id, e.config.free.id, e.config.base.id].Nodup)
    (hlanes : (e.registry.lanes.map Lane.id).Nodup) (height : UInt64) (ledger : LedgerView) :
    e.build maxBytes maxGas height ledger (some .base) = .ok (⟨height, txs⟩, e) := by
  obtain ⟨used, hassemble⟩ := h.exists_assemble hids hlanes height ledger
  exact build_eq_ok_iff.mpr ⟨_, hassemble, rfl⟩

/-- The kinds of lanes have distinct ids, whatever calls an engine has had. -/
theorem nodup_kindIds_after (hstart : ofConfig config isSigned = .ok start) (calls : List Call) :
    [(start.after calls).config.auction.id, (start.after calls).config.free.id,
      (start.after calls).config.base.id].Nodup := by
  rw [config_after, config_ofConfig hstart]
  exact (Config.validate_eq_ok_iff.mp (ofConfig_eq_ok_iff.mp hstart).1).ids

/-- Whatever calls an engine has had, and at every height and with every ledger: if a block cannot
be built of all lanes, then nothing changes wherever it halts, and the block is what the base lane
selects alone. If it can be built of all lanes, it is that block. Building a block of the base lane
does not fail. -/
theorem fallback_keeps_pool (hstart : ofConfig config isSigned = .ok start) (calls : List Call)
    (maxBytes maxGas : UInt64) :
    let e := start.after calls
    ∃ txs, e.SelectsBase (.ofLimits maxBytes maxGas) txs ∧ ∀ height ledger,
      (∀ cause, e.tryPrepare maxBytes maxGas height ledger = .error cause →
        e.Halts (.ofLimits maxBytes maxGas) height ledger cause ∧
        e.afterTry maxBytes maxGas height ledger = e ∧
        e.prepare maxBytes maxGas height ledger = (⟨height, txs⟩, e)) ∧
      (∀ built, e.tryPrepare maxBytes maxGas height ledger = .ok built →
        e.prepare maxBytes maxGas height ledger = built) ∧
      e.build maxBytes maxGas height ledger (some .base) = .ok (⟨height, txs⟩, e) := by
  intro e
  have hids := nodup_kindIds_after hstart calls
  -- The base lane selects the same whether the other lanes failed or not.
  obtain ⟨txs, htxs⟩ := e.exists_selectsBase (.ofLimits maxBytes maxGas)
  have hbase := htxs.build_eq hids ((filed_ofConfig hstart).after calls).ids
  refine ⟨txs, htxs, fun height ledger => ⟨fun cause htry =>
    ⟨tryPrepare_eq_error_iff.mp htry, ?_, ?_⟩, fun built htry => ?_, hbase height ledger⟩⟩
  · rw [afterTry, htry]
    rfl
  · rw [prepare, htry]
    simp only [hbase height ledger]
  · rw [prepare, htry]

/-! ### An outage -/

open Transaction

/-- The pool that holds the bid and behind it a payment. -/
def waitingPool : Pool :=
  biddingPool.enlist (plain.record (rawOfBody laterPayment) (ofBody laterPayment))

/-- What the payment is pending as. -/
def pendingLater : PendingTx :=
  { plain.record (rawOfBody laterPayment) (ofBody laterPayment) with
    arrival := biddingPool.arena.next }

/-- The bid is submitted, and then the later payment. -/
def bidAndLater : List Call := bidOnce ++ [.submit (rawOfBody laterPayment) 1 Accounts.endowed.view]

/-- The later payment is neither the bid nor the payment in its bundle. -/
private theorem hash_laterPayment_ne :
    Transaction.hash (rawOfBody bidding) ≠ Transaction.hash (rawOfBody laterPayment) ∧
      Transaction.hash (rawOfBody payment) ≠ Transaction.hash (rawOfBody laterPayment) :=
  ⟨hash_ne_of_toHex toHex_hash_bidding toHex_hash_laterPayment (by decide),
    hash_ne_of_toHex toHex_hash_payment toHex_hash_laterPayment (by decide)⟩

/-- Only the bid is pending at first. -/
private theorem get?_biddingPool_cases {hash : Hash} {r : PendingTx}
    (h : biddingPool.arena.get? hash = some r) : r = pendingBidding := by
  rw [biddingPool] at h
  obtain h | rfl := Pool.get?_enlist_cases h
  · cases h
  · rfl

/-- Only the bid and the later payment are pending then. -/
theorem get?_waitingPool_cases {hash : Hash} {r : PendingTx}
    (h : waitingPool.arena.get? hash = some r) : r = pendingBidding ∨ r = pendingLater := by
  rw [waitingPool] at h
  obtain h | rfl := Pool.get?_enlist_cases h
  · exact .inl (get?_biddingPool_cases h)
  · exact .inr rfl

/-- The payment is neither pending with the bid nor part of its bundle. -/
private theorem biddingPool_new_laterPayment (hp : biddingPool.Filed) :
    biddingPool.arena.isPending (Transaction.hash (rawOfBody laterPayment)) = false ∧
      biddingPool.arena.isClaimed (Transaction.hash (rawOfBody laterPayment)) = false := by
  obtain ⟨hbidding, hpayment⟩ := hash_laterPayment_ne
  constructor
  · rw [Arena.isPending_eq_false_iff, biddingPool, Pool.get?_enlist]
    exact if_neg hbidding
  · rw [Bool.eq_false_iff, ne_eq, hp.arena.isClaimed_iff]
    intro hclaimed
    obtain ⟨hash, r, hr, hmem⟩ := hclaimed
    obtain rfl := get?_biddingPool_cases hr
    exact hpayment (List.mem_singleton.mp hmem).symm

/-- Both submissions are admitted. -/
theorem after_bidAndLater : plain.after bidAndLater = raisedBy ⟨1, by decide⟩ waitingPool := by
  -- The payment comes behind the bid, to a pool that holds the bid alone.
  have hsplit : plain.after bidAndLater = (Call.submit (rawOfBody laterPayment) 1
      Accounts.endowed.view).apply (plain.after bidOnce) := by
    rw [bidAndLater, after, List.foldl_append, List.foldl_cons, List.foldl_nil, ← after]
  have he := (filed_ofConfig ofConfig_default).after bidOnce
  have he' := (filed_ofConfig ofConfig_default).after bidAndLater
  rw [hsplit] at he' ⊢
  rw [after_bidOnce] at he he' ⊢
  have hdecode := decode_rawOfBody laterPayment_wellFormed
  have hwelcome : (raisedBy ⟨1, by decide⟩ biddingPool).Welcomes (rawOfBody laterPayment) :=
    ⟨_, hdecode, rfl, by decide, by decide⟩
  obtain ⟨hnew, hclaimed⟩ := biddingPool_new_laterPayment he.pool
  obtain ⟨tx, -, -, hrun⟩ := hwelcome.run_submit hnew hclaimed 1 Accounts.endowed.view
  rw [record_raisedBy, pool_raisedBy] at hrun
  rw [Call.apply, hrun] at he' ⊢
  -- What was admitted was read from the bytes.
  have hadmitted := he'.admitted _ _ ((Pool.get?_enlist (p := biddingPool)
    (r := plain.record (rawOfBody laterPayment) tx)).trans (if_pos (hash_record ..)))
  obtain rfl := Except.ok.inj (hdecode.symm.trans hadmitted.decode)
  rfl

/-- The payment in the bundle is not pending on its own. -/
private theorem isPending_waitingPool :
    waitingPool.arena.isPending (Transaction.hash (rawOfBody payment)) = false := by
  rw [Arena.isPending_eq_false_iff, waitingPool, Pool.get?_enlist, hash_record,
    if_neg (Ne.symm hash_laterPayment_ne.2)]
  exact Arena.isPending_eq_false_iff.mp isPending_biddingPool

/-- The bid waits in the auction lane, and the payment in the base lane. -/
theorem ordered_waitingPool (hp : waitingPool.Filed) :
    waitingPool.ordered .auction = [pendingBidding] ∧
      waitingPool.ordered .base = [pendingLater] := by
  have hhash : pendingBidding.hash = Transaction.hash (rawOfBody bidding) := rfl
  have hlater : pendingLater.hash = Transaction.hash (rawOfBody laterPayment) := rfl
  constructor
  · refine hp.ordered_eq_singleton (r := pendingBidding) ?_ fun hash s hs hlane => ?_
    · rw [waitingPool, Pool.get?_enlist, hhash, hash_record,
        if_neg (Ne.symm hash_laterPayment_ne.1)]
      exact get?_biddingPool
    · obtain rfl | rfl := get?_waitingPool_cases hs
      · rfl
      · exact nomatch hlane
  · refine hp.ordered_eq_singleton (r := pendingLater) ?_ fun hash s hs hlane => ?_
    · rw [waitingPool, Pool.get?_enlist, hlater, hash_record, if_pos rfl]
      rfl
    · obtain rfl | rfl := get?_waitingPool_cases hs
      · exact nomatch hlane
      · rfl

/-- A ledger that reads no sequence. -/
def outOfReach : RemoteLedger :=
  (RemoteLedger.ofAccounts .endowed).setOutage ⟨none, some ⟨"down", none⟩, []⟩

/-- The bid cannot be checked where the sequence of its bundled signer is not read. -/
private theorem fails_bidding {increment : Amount} {pool : Pool} {isPending : Hash → Bool}
    {failure : LedgerError} (hbundled : isPending (Transaction.hash (rawOfBody payment)) = false)
    (hsequence : ledger.sequence .zero = .error failure) :
    ((raisedBy increment pool).context 1 ledger isPending).Fails pendingBidding
      (.ofLedger failure) := by
  let ctx := (raisedBy increment pool).context 1 ledger isPending
  have hbid := LaneContext.admissible_bidding
  have hformed : ctx.toBidContext.WellFormed LaneContext.biddingCandidate
      [LaneContext.bundledPayment] :=
    ⟨hbid.bidder, hbid.nonempty, hbid.size, hbid.opens.imp fun _ _ h => h.of_isSigned rfl⟩
  have hunread : ctx.toBidContext.Repeats (bidding.signer, bidding.nonce) []
      LaneContext.bundledPayment (.ofLedger failure) :=
    .unread List.not_mem_nil hbundled (by decide) hsequence
  have hrejects : ctx.toBidContext.Rejects LaneContext.biddingCandidate (.ofLedger failure) :=
    .repeated hbid.inTime hformed (List.firstFails_cons_iff.mpr (.inl hunread))
  have hoffer : pendingBidding.tx.bid? = some biddingOffer := rfl
  exact .notAccepted hoffer rfl (BidContext.accept_eq_error_iff.mpr hrejects)

/-- Then no block is built of all lanes. -/
private theorem halts_waitingPool (hp : waitingPool.Filed) :
    (raisedBy ⟨1, by decide⟩ waitingPool).Halts (.ofLimits 4000 0) 1 outOfReach.view
      ⟨"mev", .ledger (.unavailable "down")⟩ := by
  have hsequence : outOfReach.view.sequence .zero = .error (.unavailable "down") := rfl
  have hfails : ((raisedBy ⟨1, by decide⟩ waitingPool).context 1 outOfReach.view
      waitingPool.arena.isPending).Fails pendingBidding (.ledger (.unavailable "down")) :=
    fails_bidding isPending_waitingPool hsequence
  exact ⟨[], ⟨"mev", .fifth, 0⟩, _, .empty, rfl, rfl, rfl, [], pendingBidding, [], [],
    (ordered_waitingPool hp).1, .nil, hfails, rfl⟩

/-- The base lane takes the payment. -/
theorem greedy_pendingLater : Greedy (.budget (.ofLimits 4000 0) .zero .zero) none [] []
    [pendingLater] [pendingLater] := by
  have hfits : (BlockSpace.ofTxs [.ofRaw (rawOfBody laterPayment) 100]).fits
      (.budget (.ofLimits 4000 0) .zero .zero) := by decide +kernel
  exact .take ⟨List.not_mem_nil, nofun, hfits⟩ .nil

/-- The base lane alone selects the payment. -/
private theorem selectsBase_waitingPool (hp : waitingPool.Filed) :
    (raisedBy ⟨1, by decide⟩ waitingPool).SelectsBase (.ofLimits 4000 0)
      [pendingLater.toBlockTx] := by
  show ∃ chosen, [pendingLater.toBlockTx] = chosen.map PendingTx.toBlockTx ∧
    Greedy (.budget (.ofLimits 4000 0) .zero .zero) none [] [] (waitingPool.ordered .base) chosen
  rw [(ordered_waitingPool hp).2]
  exact ⟨[pendingLater], rfl, greedy_pendingLater⟩

/-- A node that has a bid and a payment pending, and whose ledger is out of reach: the block is the
payment, and the bid is pending as before. -/
theorem fallback_keeps_pool_outage : ofConfig .default (fun _ => true) = .ok plain ∧
    (∃ cause, (plain.after bidAndLater).tryPrepare 4000 0 1 outOfReach.view = .error cause) ∧
    (plain.after bidAndLater).prepare 4000 0 1 outOfReach.view =
      (⟨1, [pendingLater.toBlockTx]⟩, plain.after bidAndLater) := by
  have he := (filed_ofConfig ofConfig_default).after bidAndLater
  have hall := fallback_keeps_pool ofConfig_default bidAndLater 4000 0
  rw [after_bidAndLater] at he hall ⊢
  obtain ⟨txs, htxs, hall⟩ := hall
  obtain ⟨hfails, -⟩ := hall 1 outOfReach.view
  have htry := tryPrepare_eq_error_iff.mpr (halts_waitingPool he.pool)
  obtain ⟨-, -, hprepare⟩ := hfails _ htry
  rw [htxs.unique (selectsBase_waitingPool he.pool)] at hprepare
  exact ⟨ofConfig_default, ⟨_, htry⟩, hprepare⟩

end Engine

end LaneAuction
