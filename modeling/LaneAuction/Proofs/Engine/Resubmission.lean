import LaneAuction.Proofs.Block.Clearing
import LaneAuction.Proofs.Engine.Settlement
import LaneAuction.Proofs.Engine.Submission
import LaneAuction.Proofs.Pool.Increment

/-!
# Submissions of what is pending

What is pending is refused when it is submitted again, and then nothing is changed. The exception is
a bid: it comes under the key of its own pending copy, and it is compared with it before anything
looks for its hash. So it takes the place of the copy if it raises its own price
(`resubmission_refused`), which needs that there is no increment or that the price is the largest
one. What was pending first is last then (`resubmission_reorders`).
-/

namespace LaneAuction

namespace Pool

variable {p : Pool} {r s : PendingTx} {bid : PendingBid} {increment : Coin}

/-- A pending bid that raises its own price takes its own place, under a new number. -/
private theorem Filed.run_insertBid_renew (hp : p.Filed) (hr : p.arena.get? r.hash = some r)
    (hrbid : r.bid = some bid) (hprice : bid.price.Raises bid.price increment)
    (hhash : s.hash = r.hash) (hbid : s.bid = r.bid) (hlane : s.lane = r.lane) (maxPending : Nat) :
    (insertBid s increment maxPending).run.run p =
      (.ok (some r.hash), (p.erase r.hash).enlist s) := by
  have hauction : r.lane = .auction := hp.arena.lane_eq hr (by rw [hrbid]; rfl)
  have hkey : p.arena.bid? bid.key = some r :=
    hp.arena.bid?_eq_some_iff.mpr ⟨hr, by rw [PendingTx.key?, hrbid, Option.map_some]⟩
  -- Once it is taken out, it is admitted like any other.
  have hadmits : (p.erase r.hash).arena.Admits s := by
    have hforget := hp.arena.admits_forget hr
    rw [erase_of_get?_eq_some hr, arena_setIndex]
    refine ⟨hhash ▸ hforget.notPending, hhash ▸ hforget.notClaimed, ?_⟩
    rw [PendingTx.bundle, hbid]
    exact hforget.bundle
  have hplaced := run_place_insert_of_admits hadmits
  rw [hlane, hauction] at hplaced
  rw [run_insertBid_of_pending (hbid.trans hrbid) hkey hrbid, checkIncrement_eq_ok_iff.mpr hprice]
  simp only [hp.run_replaceBid_of_placed hr hauction hplaced]

end Pool

namespace Engine

variable {e start : Engine} {config : Config} {isSigned : Transaction → Bool} {r : PendingTx}
  {raw : Bytes} {tx : Transaction} {height : UInt64} {ledger : LedgerView}

/-- A raw transaction is a bid under the key of a pending one, and raises its price. -/
def Outbids (e : Engine) (raw : Bytes) (r : PendingTx) : Prop :=
  ∃ tx offer previous, Transaction.decode raw = .ok tx ∧ tx.bid? = some offer ∧
    r.bid = some previous ∧ previous.key = offer.key ∧
    offer.price.Raises previous.price e.params.increment

/-- Only a bid outbids. -/
private theorem Outbids.containsBid (h : e.Outbids raw r)
    (hdecode : Transaction.decode raw = .ok tx) : tx.containsBid := by
  obtain ⟨tx', offer, -, hdecode', hoffer, -⟩ := h
  obtain rfl := Except.ok.inj (hdecode.symm.trans hdecode')
  exact Transaction.containsBid_of_bid? hoffer

/-- A bid is submitted successfully in the place of a pending one only if it outbids it. -/
private theorem Filed.outbids_of_submit (he : e.Filed) {key : BidKey} {hash : Hash}
    (hdecode : Transaction.decode raw = .ok tx) (hr : e.pool.arena.get? r.hash = some r)
    (hkey : r.key? = some key) (hrecord : (e.record raw tx).key? = some key)
    (h : ((submit raw height ledger).run.run e).1 = .ok hash) : e.Outbids raw r := by
  obtain ⟨offer, hoffer, rfl⟩ := key?_record_eq_some_iff.mp hrecord
  obtain ⟨previous, hprevious, hsame⟩ := Option.map_eq_some_iff.mp hkey
  refine ⟨tx, offer, previous, hdecode, hoffer, hprevious, hsame, ?_⟩
  -- A price that does not raise the pending one would have been refused by the pool.
  by_contra hprice
  have hbid : (e.record raw tx).bid = some (.ofOffer offer) := by
    rw [record, hoffer, Option.map_some]
  have hrefused := Pool.run_insertBid_of_not_raises hbid
    (he.pool.arena.bid?_eq_some_iff.mpr ⟨hr, hkey⟩) hprevious hprice
    e.config.auction.maxPending.toNat
  obtain ⟨-, cause, heq⟩ | ⟨-, heq⟩ :=
    run_submit_bid_cases hdecode (Transaction.containsBid_of_bid? hoffer)
  -- An engine that refuses the bytes, or a pool that refuses the record, gives no hash.
  · rw [heq] at h
    cases h
  · rw [heq, hrefused] at h
    cases h

/-- A submission under a pending hash fails and changes nothing, or outbids what is pending under
it and adds its record. -/
theorem Filed.submit_pending_cases (he : e.Filed)
    (hr : e.pool.arena.get? (Transaction.hash raw) = some r) (height : UInt64)
    (ledger : LedgerView) :
    (∃ cause, (submit raw height ledger).run.run e = (.error cause, e)) ∨
      e.Outbids raw r ∧ ∃ tx, Transaction.decode raw = .ok tx ∧
        (submit raw height ledger).run.run e = (.ok (Transaction.hash raw),
          { e with pool := (e.pool.erase r.hash).enlist (e.record raw tx) }) := by
  have hhash := he.pool.arena.hash_eq hr
  obtain herror | ⟨tx, hadmitted, ⟨hcan, -⟩ | ⟨old, key, hold, hkey, hrecord, hcan, heq⟩⟩ :=
    he.submit_cases raw height ledger
  · exact .inl herror
  · -- Nothing is enlisted under a hash that is pending.
    have hnone := Arena.isPending_eq_false_iff.mp hcan.admits.notPending
    rw [record, hr] at hnone
    cases hnone
  · -- What is taken out is what is pending under the hash, as this is free then.
    have hnone := Arena.isPending_eq_false_iff.mp hcan.admits.notPending
    have hsame : old.hash = r.hash := by
      by_contra hne
      have hleft := he.pool.get?_erase_eq_some_iff.mpr ⟨hhash ▸ hne, hr⟩
      rw [record, hleft] at hnone
      cases hnone
    rw [hsame, hhash, hr] at hold
    obtain rfl := Option.some.inj hold
    refine .inr ⟨?_, tx, hadmitted.decode, heq⟩
    exact he.outbids_of_submit hadmitted.decode (hhash ▸ hr) hkey hrecord (congrArg Prod.fst heq)

/-- The same bytes outbid what they are pending as if the price raises itself. -/
private theorem Admitted.outbids_iff (hr : Admitted e.config e.isSigned r) :
    e.Outbids r.raw r ↔ ∃ bid, r.bid = some bid ∧
      (e.params.increment.amount = .zero ∨ bid.price.amount = .largest) := by
  constructor
  · rintro ⟨tx, offer, bid, hdecode, hoffer, hbid, -, hprice⟩
    obtain rfl := Except.ok.inj (hr.decode.symm.trans hdecode)
    have hsame := hr.bid_eq
    rw [hoffer, hbid, Option.map_some] at hsame
    obtain rfl := Option.some.inj hsame
    exact ⟨_, hbid, Coin.raises_self_iff.mp hprice⟩
  · rintro ⟨bid, hbid, hprice⟩
    have hsame := hr.bid_eq
    rw [hbid] at hsame
    obtain ⟨offer, hoffer, rfl⟩ := Option.map_eq_some_iff.mp hsame.symm
    exact ⟨r.tx, offer, _, hr.decode, hoffer, hbid, rfl, Coin.raises_self_iff.mpr hprice⟩

/-- A pending bid that outbids itself and passes the checks in front of the pool once more takes its
own place. -/
private theorem Filed.run_submit_renew (he : e.Filed) (hr : e.pool.arena.get? r.hash = some r)
    (houtbids : e.Outbids r.raw r) (hreaches : e.ReachesPool r.raw r.tx height ledger) :
    (submit r.raw height ledger).run.run e = (.ok (Transaction.hash r.raw),
      { e with pool := (e.pool.erase r.hash).enlist (e.record r.raw r.tx) }) := by
  have hadmitted := he.admitted r.hash r hr
  obtain ⟨bid, hbid, hprice⟩ := hadmitted.outbids_iff.mp houtbids
  have hrenew := he.pool.run_insertBid_renew (s := e.record r.raw r.tx) hr hbid
    (Coin.raises_self_iff.mpr hprice) hadmitted.hash_eq.symm hadmitted.bid_eq.symm
    hadmitted.lane_eq.symm e.config.auction.maxPending.toNat
  have hcontains := houtbids.containsBid hadmitted.decode
  obtain ⟨hnot, -⟩ | ⟨-, heq⟩ := run_submit_bid_cases hadmitted.decode hcontains
  · exact absurd hreaches hnot
  · rw [heq, hrenew]

/-- Whatever calls an engine has had, and at every height and with every ledger: to submit a raw
transaction under a pending hash fails and changes nothing, unless it is a bid that outbids the one
that is pending. The bytes that are pending themselves do so only if there is no increment or if
their price is the largest one, and they are then submitted successfully if they pass the checks in
front of the pool once more. What is pending under the hash has the next number afterwards. -/
theorem resubmission_refused (hstart : ofConfig config isSigned = .ok start) (calls : List Call)
    (hpending : (start.after calls).pool.arena.get? (Transaction.hash raw) = some r)
    (height : UInt64) (ledger : LedgerView) :
    let e := start.after calls
    let outcome := (submit raw height ledger).run.run e
    ((∃ cause, outcome = (.error cause, e)) ∨
      e.Outbids raw r ∧ outcome.1 = .ok (Transaction.hash raw) ∧
        ∃ tx, Transaction.decode raw = .ok tx ∧ e.Adds (e.record raw tx) outcome.2) ∧
    (r.raw = raw →
      (e.Outbids raw r ↔ ∃ bid, r.bid = some bid ∧
        (e.params.increment.amount = .zero ∨ bid.price.amount = .largest)) ∧
      (outcome.1 = .ok (Transaction.hash raw) ↔
        e.Outbids raw r ∧ e.ReachesPool raw r.tx height ledger)) := by
  intro e outcome
  have he : e.Filed := (filed_ofConfig hstart).after calls
  have hhash := he.pool.arena.hash_eq hpending
  refine ⟨?_, ?_⟩
  · -- An admission adds one record and keeps the rest, whichever bytes were pending under the hash.
    obtain herror | ⟨houtbids, tx, hdecode, heq⟩ := he.submit_pending_cases hpending height ledger
    · exact .inl herror
    have hok : outcome.1 = .ok (Transaction.hash raw) := congrArg Prod.fst heq
    obtain ⟨cause, herror⟩ | ⟨tx', e', hdecode', hadds, heq'⟩ := he.submit_adds raw height ledger
    · exact nomatch hok.symm.trans (congrArg Prod.fst herror)
    · have hafter : outcome.2 = e' := congrArg Prod.snd heq'
      exact .inr ⟨houtbids, hok, tx', hdecode', hafter ▸ hadds⟩
  · -- The pending bytes once more: they find their own bid under the key.
    rintro rfl
    have hr : e.pool.arena.get? r.hash = some r := hhash ▸ hpending
    have hadmitted := he.admitted _ r hr
    refine ⟨hadmitted.outbids_iff, ?_⟩
    constructor
    · intro hok
      obtain ⟨cause, herror⟩ | ⟨houtbids, -⟩ := he.submit_pending_cases hpending height ledger
      · exact nomatch hok.symm.trans (congrArg Prod.fst herror)
      · have hcontains := houtbids.containsBid hadmitted.decode
        exact ⟨houtbids, reachesPool_of_submit hadmitted.decode hcontains hok⟩
    · rintro ⟨houtbids, hreaches⟩
      exact congrArg Prod.fst (he.run_submit_renew hr houtbids hreaches)

/-! ### A bid without an increment -/

/-- A bid under a new key that the pool has room for and admits is enlisted. -/
theorem ReachesPool.run_submit {offer : BundleBid} (h : e.ReachesPool raw tx height ledger)
    (hdecode : Transaction.decode raw = .ok tx) (hoffer : tx.bid? = some offer)
    (hkey : e.pool.arena.bid? offer.key = none)
    (hroom : 0 < e.config.auction.maxPending.toNat →
      e.pool.auction.size < e.config.auction.maxPending.toNat)
    (hadmits : e.pool.arena.Admits (e.record raw tx)) :
    (submit raw height ledger).run.run e =
      (.ok (Transaction.hash raw), { e with pool := e.pool.enlist (e.record raw tx) }) := by
  have hcontains := Transaction.containsBid_of_bid? hoffer
  have hbid : (e.record raw tx).bid = some (.ofOffer offer) := by
    rw [record, hoffer, Option.map_some]
  have hlane : (e.record raw tx).lane = .auction :=
    LaneKind.ofTransaction_eq_auction_iff.mpr hcontains
  have hplaced := Pool.run_place_insert_of_admits hadmits
  rw [hlane] at hplaced
  obtain ⟨hnot, -⟩ | ⟨-, heq⟩ := run_submit_bid_cases hdecode hcontains
  · exact absurd h hnot
  · rw [heq, Pool.run_insertBid_of_new hbid hkey, if_neg (by omega), hplaced]

open Transaction

/-- The default engine with another increment and another pool. -/
def raisedBy (increment : Amount) (pool : Pool) : Engine :=
  { plain with params := { AuctionParams.default with increment := ⟨increment, "stake"⟩ }, pool }

/-- The pool of the raised engine is the given one. -/
theorem pool_raisedBy (increment : Amount) (pool : Pool) : (raisedBy increment pool).pool = pool :=
  rfl

/-- What a transaction is pending as does not depend on the increment or the pool. -/
theorem record_raisedBy (increment : Amount) (pool : Pool) (raw : Bytes) (tx : Transaction) :
    (raisedBy increment pool).record raw tx = plain.record raw tx := rfl

/-- The bid passes the checks in front of the pool if the payment in its bundle is not pending. -/
private theorem reachesPool_bidding {increment : Amount} {pool : Pool}
    (hbundled : pool.arena.isPending (Transaction.hash (rawOfBody payment)) = false) :
    (raisedBy increment pool).ReachesPool (rawOfBody bidding) (ofBody bidding) 1
      Accounts.endowed.view := by
  have hlane : (plain.registry.find? (plain.config.laneId .auction)).isSome := by decide
  have hbid := LaneContext.admissible_bidding
  have hfresh := hbid.fresh
  let ctx := (raisedBy increment pool).context 1 Accounts.endowed.view pool.arena.isPending
  have hadmissible : ctx.toBidContext.Admissible LaneContext.biddingCandidate
      [LaneContext.bundledPayment] := by
    refine ⟨hbid.inTime, hbid.bidder, hbid.nonempty, hbid.size,
      hbid.opens.imp fun _ _ h => h.of_isSigned rfl, ?_, hbid.sandwich, hbid.denom, hbid.reserve,
      hbid.solvent⟩
    refine ⟨hfresh.hashes_nodup, hfresh.hashes_new, fun b hb => ?_, hfresh.nonces_nodup,
      hfresh.nonces_new, hfresh.unused⟩
    obtain rfl := List.mem_singleton.mp hb
    exact hbundled
  have haccept := BidContext.accept_eq_ok_iff.mpr ⟨_, hadmissible, rfl⟩
  exact ⟨rfl, hlane, _, LaneContext.pendingChunk_eq_ok_iff.mpr ⟨biddingOffer, rfl, rfl, haccept⟩⟩

/-- What the bid is pending as. -/
def pendingBidding : PendingTx := plain.record (rawOfBody bidding) (ofBody bidding)

/-- The pool that holds the bid. -/
def biddingPool : Pool := plain.pool.enlist pendingBidding

/-- The bid is admitted to the empty pool. -/
private theorem run_submit_bidding (increment : Amount) :
    (submit (rawOfBody bidding) 1 Accounts.endowed.view).run.run (raisedBy increment plain.pool) =
      (.ok (Transaction.hash (rawOfBody bidding)), raisedBy increment biddingPool) := by
  have hreaches : (raisedBy increment plain.pool).ReachesPool (rawOfBody bidding) (ofBody bidding) 1
      Accounts.endowed.view := reachesPool_bidding rfl
  have hadmits : plain.pool.arena.Admits pendingBidding := ⟨rfl, rfl, fun _ _ => rfl⟩
  exact hreaches.run_submit (decode_rawOfBody bidding_wellFormed) rfl rfl nofun hadmits

/-- The bid is pending in its pool. -/
theorem get?_biddingPool :
    biddingPool.arena.get? (Transaction.hash (rawOfBody bidding)) = some pendingBidding := by
  have hhash : pendingBidding.hash = Transaction.hash (rawOfBody bidding) := rfl
  rw [biddingPool, Pool.get?_enlist, if_pos hhash]
  rfl

/-- The payment in the bundle is not pending next to the bid. -/
theorem isPending_biddingPool :
    biddingPool.arena.isPending (Transaction.hash (rawOfBody payment)) = false := by
  have hhash : pendingBidding.hash = Transaction.hash (rawOfBody bidding) := rfl
  have hne : pendingBidding.hash ≠ Transaction.hash (rawOfBody payment) := by
    have hnodup := nodup_hashes_biddingBlock
    rw [biddingBlock, List.map_cons, List.nodup_cons, List.map_cons, List.map_nil,
      List.mem_singleton] at hnodup
    rw [hhash]
    exact hnodup.1
  rw [Arena.isPending_eq_false_iff, biddingPool, Pool.get?_enlist, if_neg hne]
  rfl

/-- The bid is submitted. -/
def bidOnce : List Call := [.submit (rawOfBody bidding) 1 Accounts.endowed.view]

/-- One submission leads to the pool that holds the bid. -/
theorem after_bidOnce : plain.after bidOnce = raisedBy ⟨1, by decide⟩ biddingPool := by
  have hplain : raisedBy ⟨1, by decide⟩ plain.pool = plain := rfl
  have hrun := run_submit_bidding ⟨1, by decide⟩
  rw [hplain] at hrun
  rw [bidOnce, after, List.foldl_cons, List.foldl_nil, Call.apply, hrun]

/-- With the default increment, the bid is refused when it comes again. -/
theorem resubmission_refused_bidding :
    (plain.after bidOnce).pool.arena.get? (Transaction.hash (rawOfBody bidding)) =
        some pendingBidding ∧
      ∃ cause, (submit (rawOfBody bidding) 1 Accounts.endowed.view).run.run (plain.after bidOnce) =
        (.error cause, plain.after bidOnce) := by
  have hpending : (plain.after bidOnce).pool.arena.get? (Transaction.hash (rawOfBody bidding)) =
      some pendingBidding := by
    rw [after_bidOnce]
    exact get?_biddingPool
  obtain ⟨hcases, hsame⟩ := resubmission_refused ofConfig_default bidOnce hpending 1
    Accounts.endowed.view
  refine ⟨hpending, hcases.resolve_right fun h => ?_⟩
  obtain ⟨bid, hbid, hprice⟩ := (hsame rfl).1.mp h.1
  obtain rfl := Option.some.inj hbid
  rw [after_bidOnce] at hprice
  exact absurd hprice (by decide)

/-- The authority takes the increment away, and then the bid is submitted. -/
def bidOnceFree : List Call :=
  .updateParams .zero { AuctionParams.default with increment := ⟨.zero, "stake"⟩ } :: bidOnce

/-- Without an increment, one submission leads to the same pool. -/
private theorem after_bidOnceFree : plain.after bidOnceFree = raisedBy .zero biddingPool := by
  have hfree : (Call.updateParams .zero
      { AuctionParams.default with increment := ⟨.zero, "stake"⟩ }).apply plain =
        raisedBy .zero plain.pool := rfl
  rw [bidOnceFree, bidOnce, after, List.foldl_cons, List.foldl_cons, List.foldl_nil, hfree,
    Call.apply, run_submit_bidding]

/-- Without an increment, the pending bid is accepted once more, and takes another number. -/
theorem resubmission_reorders :
    (plain.after bidOnceFree).pool.arena.get? (Transaction.hash (rawOfBody bidding)) =
        some pendingBidding ∧
      ∃ e, (submit (rawOfBody bidding) 1 Accounts.endowed.view).run.run (plain.after bidOnceFree) =
          (.ok (Transaction.hash (rawOfBody bidding)), e) ∧
        e.pool.arena.get? (Transaction.hash (rawOfBody bidding)) =
          some { pendingBidding with arrival := pendingBidding.arrival + 1 } := by
  have he := (filed_ofConfig ofConfig_default).after bidOnceFree
  rw [after_bidOnceFree] at he ⊢
  have hhash : pendingBidding.hash = Transaction.hash (rawOfBody bidding) := rfl
  have hraw : pendingBidding.raw = rawOfBody bidding := rfl
  have htx : pendingBidding.tx = ofBody bidding := rfl
  have hrecord : (raisedBy .zero biddingPool).record (rawOfBody bidding) (ofBody bidding) =
      pendingBidding := rfl
  have harrival : plain.pool.arena.next = pendingBidding.arrival := rfl
  have hpending : (raisedBy .zero biddingPool).pool.arena.get? pendingBidding.hash =
      some pendingBidding := by
    rw [hhash]
    exact get?_biddingPool
  -- Its own bytes pass all checks in front of the pool, as they did the first time.
  have hreaches : (raisedBy .zero biddingPool).ReachesPool pendingBidding.raw pendingBidding.tx 1
      Accounts.endowed.view := by
    rw [hraw, htx]
    exact reachesPool_bidding isPending_biddingPool
  -- With no increment a bid outbids itself, and it is enlisted under the next number.
  have houtbids := (he.admitted _ _ hpending).outbids_iff.mpr ⟨_, rfl, .inl rfl⟩
  have hrun := he.run_submit_renew hpending houtbids hreaches
  rw [hraw, htx, hrecord, ← hhash] at hrun
  rw [← hhash]
  refine ⟨hpending, _, hrun, ?_⟩
  rw [Pool.get?_enlist, if_pos rfl, Pool.next_erase, pool_raisedBy, biddingPool, Pool.next_enlist,
    harrival]

end Engine

end LaneAuction
