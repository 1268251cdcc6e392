import LaneAuction.Proofs.Engine.Admitted

/-!
# What a block changes

A committed block takes three kinds of transactions out of the pool, one kind after the other: what
it holds, then the bids whose bundle it overlaps, then the bids that are too late for the next
block. The last two are looked up in a pool that the steps before have changed, but what is left in
the end depends only on the block and on the transaction itself (`PendingTx.Survives`). The history
of cleared bids records the first bid of the block (`FirstBid`). There is no other effect
(`commits_commit`).
-/

namespace LaneAuction

/-- What stays pending when a block is committed: what the block does not hold; of the bids only
those of whose bundle the block holds nothing, and that may still be included in a later block. -/
structure PendingTx.Survives (r : PendingTx) (height : UInt64) (raws : List Bytes) : Prop where
  notHeld : r.hash ∉ raws.map Transaction.hash
  notOverlapped : ∀ hash ∈ r.bundle, hash ∉ raws.map Transaction.hash
  inTime : r.bid.isSome → height.addSat 1 < r.tx.body.timeout

instance (height : UInt64) (raws : List Bytes) :
    DecidablePred fun r : PendingTx => r.Survives height raws := fun r =>
  decidable_of_iff (r.hash ∉ raws.map Transaction.hash ∧
      (∀ hash ∈ r.bundle, hash ∉ raws.map Transaction.hash) ∧
      (r.bid.isSome → height.addSat 1 < r.tx.body.timeout))
    ⟨fun ⟨h, h', h''⟩ => ⟨h, h', h''⟩, fun ⟨h, h', h''⟩ => ⟨h, h', h''⟩⟩

/-- The time that a bid needs, in exact numbers. -/
theorem PendingTx.addSat_lt_timeout_iff {r : PendingTx} {height : UInt64} :
    height.addSat 1 < r.tx.body.timeout ↔ height.toNat + 1 < r.tx.body.timeout.toNat := by
  have hlt := r.tx.body.timeout.toNat_lt
  rw [UInt64.lt_iff_toNat_lt, UInt64.toNat_addSat]
  show min (height.toNat + 1) (UInt64.size - 1) < _ ↔ _
  rw [UInt64.size]
  omega

namespace Engine

/-- What a committed block does to an engine. -/
structure Commits (e : Engine) (height : UInt64) (raws : List Bytes) (e' : Engine) : Prop where
  rest : e' = { e with pool := e'.pool, cleared := e'.cleared }
  /-- What survives is pending as before, under the number of its arrival. -/
  pending : ∀ hash r, e'.pool.arena.get? hash = some r ↔
    e.pool.arena.get? hash = some r ∧ r.Survives height raws
  next : e'.pool.arena.next = e.pool.arena.next
  ordered : ∀ kind, e'.pool.ordered kind =
    (e.pool.ordered kind).filter fun r => r.Survives height raws
  claimed : ∀ hash, e'.pool.arena.isClaimed hash ↔
    ∃ r, e.pool.arena.get? r.hash = some r ∧ r.Survives height raws ∧ hash ∈ r.bundle
  recorded : ∀ offer, FirstBid raws offer → e'.cleared =
    (e.cleared.record offer.key ⟨offer.price, height⟩).prune height e.params.retention
  unrecorded : (∀ offer, ¬ FirstBid raws offer) →
    e'.cleared = e.cleared.prune height e.params.retention

variable {e start : Engine} {config : Config} {isSigned : Transaction → Bool} {r : PendingTx}
  {hash : Hash} {height : UInt64} {raws : List Bytes}

/-- What is pending after a block. -/
theorem Filed.get?_poolAfter_iff (he : e.Filed) :
    (e.poolAfter height raws).arena.get? hash = some r ↔
      e.pool.arena.get? hash = some r ∧ r.Survives height raws := by
  -- Three passes over the pool, each over what the one before has left: what the block holds, the
  -- bids whose bundles overlap with it, and the bids that have expired by the next one.
  have hremoved := he.pool.eraseAll (raws.map Transaction.hash)
  have hdropped : ((e.pool.eraseAll (raws.map Transaction.hash)).dropOverlapping
      (raws.map Transaction.hash)).Filed := by
    rw [hremoved.dropOverlapping_eq_eraseAll]
    exact hremoved.eraseAll _
  rw [poolAfter, hdropped.get?_dropExpired_eq_some_iff, hremoved.get?_dropOverlapping_eq_some_iff,
    he.pool.get?_eraseAll_eq_some_iff]
  -- The passes look a record up under its own hash.
  constructor
  · rintro ⟨⟨⟨hnot, hr⟩, hbundle⟩, htime⟩
    obtain rfl := he.pool.arena.hash_eq hr
    refine ⟨hr, hnot, fun hash hmem hblock => hbundle hash hblock hmem, fun hbid => ?_⟩
    exact UInt64.not_le.mp fun hle => htime ⟨hbid, hle⟩
  · rintro ⟨hr, hnot, hbundle, htime⟩
    obtain rfl := he.pool.arena.hash_eq hr
    refine ⟨⟨⟨hnot, hr⟩, fun hash hblock hmem => hbundle hash hmem hblock⟩, ?_⟩
    rintro ⟨hbid, hle⟩
    exact UInt64.not_le.mpr (htime hbid) hle

/-- The pool behind a block is filed. -/
private theorem Filed.filed_poolAfter (he : e.Filed) (height : UInt64) (raws : List Bytes) :
    (e.poolAfter height raws).Filed := by
  obtain ⟨hashes, heq⟩ := he.exists_poolAfter_eq height raws
  exact heq ▸ he.pool.eraseAll hashes

/-- A commit has the exact effect that is said of it. -/
theorem Filed.commits_commit (he : e.Filed) (height : UInt64) (raws : List Bytes) :
    e.Commits height raws (e.commit height raws) := by
  have hafter := he.filed_poolAfter height raws
  obtain ⟨hashes, herased⟩ := he.exists_poolAfter_eq height raws
  constructor
  case rest => rfl
  case pending => exact fun hash r => he.get?_poolAfter_iff
  case next =>
    show (e.poolAfter height raws).arena.next = _
    rw [herased, Pool.next_eraseAll]
  case ordered =>
    refine he.pool.ordered_eq_filter hafter ?_ fun hash r => he.get?_poolAfter_iff
    rw [herased, Pool.ranking_eraseAll]
  case claimed =>
    -- Who claims a hash is pending, so it was pending before and has survived.
    intro hash
    show (e.poolAfter height raws).arena.isClaimed hash ↔ _
    rw [hafter.arena.isClaimed_iff]
    constructor
    · rintro ⟨bid, r, hr, hmem⟩
      obtain rfl := hafter.arena.hash_eq hr
      -- A claim is lost only with its bid.
      obtain ⟨hr, hsurvives⟩ := he.get?_poolAfter_iff.mp hr
      exact ⟨r, hr, hsurvives, hmem⟩
    · rintro ⟨r, hr, hsurvives, hmem⟩
      exact ⟨r.hash, r, he.get?_poolAfter_iff.mpr ⟨hr, hsurvives⟩, hmem⟩
  -- The history has an entry for the first bid of the block, if there is one.
  case recorded =>
    intro offer hfirst
    show e.clearedAfter height raws = _
    rw [clearedAfter, winningBid?_eq_some_iff.mpr hfirst]
  case unrecorded =>
    intro hnone
    have hwinner : winningBid? raws = none := by
      rw [Option.eq_none_iff_forall_ne_some]
      exact fun offer h => hnone offer (winningBid?_eq_some_iff.mp h)
    show e.clearedAfter height raws = _
    rw [clearedAfter, hwinner]

/-- The exact effect of a commit, on an engine that has had any calls: pending is what was pending
before and survives the block, in the same order and under the same numbers, claimed is what the
surviving bids bundle, and the history records the first bid of the block and drops what has become
too old. -/
theorem commit_keeps_survivors (hstart : ofConfig config isSigned = .ok start) (calls : List Call)
    (height : UInt64) (raws : List Bytes) :
    (start.after calls).Commits height raws ((start.after calls).commit height raws) :=
  ((filed_ofConfig hstart).after calls).commits_commit height raws

open Transaction

/-- A payment that became pending is in the next block, behind a bid and bytes that are no
transaction. -/
theorem commit_keeps_survivors_payment :
    let e := plain.after [.submit (rawOfBody payment) 1 LaneContext.plain.ledger]
    let e' := e.commit 5 [[], rawOfBody bidding, rawOfBody payment]
    e.pool.arena.isPending (Transaction.hash (rawOfBody payment)) ∧
      e'.pool.arena.get? (Transaction.hash (rawOfBody payment)) = none ∧
      e'.pool.arena.next = 1 ∧
      e'.cleared = (ClearedBids.empty.record biddingOffer.key ⟨biddingOffer.price, 5⟩).prune 5
        e.params.retention := by
  intro e e'
  have hwelcome : plain.Welcomes (rawOfBody payment) :=
    ⟨_, decode_rawOfBody payment_wellFormed, rfl, by decide, by decide⟩
  obtain ⟨tx, -, -, hrun⟩ := hwelcome.run_submit rfl rfl 1 LaneContext.plain.ledger
  have he : e = { plain with pool := plain.pool.enlist (plain.record (rawOfBody payment) tx) } := by
    show ((submit (rawOfBody payment) 1 LaneContext.plain.ledger).run.run plain).2 = _
    rw [hrun]
  have h : e.Commits 5 [[], rawOfBody bidding, rawOfBody payment] e' :=
    commit_keeps_survivors ofConfig_default _ _ _
  refine ⟨?_, Option.eq_none_iff_forall_ne_some.mpr fun r hr => ?_, ?_, ?_⟩
  · rw [he, Arena.isPending_iff]
    exact ⟨_, by rw [Pool.get?_enlist]; exact if_pos rfl⟩
  · -- A record with this hash would have survived the block that holds it.
    obtain ⟨hpending, hsurvives⟩ := (h.pending _ r).mp hr
    have hfiled : e.Filed := (filed_ofConfig ofConfig_default).after _
    have hhash : r.hash = Transaction.hash (rawOfBody payment) := hfiled.pool.arena.hash_eq hpending
    exact hsurvives.notHeld (by rw [hhash]; simp)
  · rw [h.next, he]
    exact Pool.next_enlist
  · -- The bytes in front of the bid do not decode, so it is the first bid of the block.
    rw [h.recorded biddingOffer, he]
    · rfl
    · refine ⟨[[]], rawOfBody bidding, _, rfl, ⟨_, decode_rawOfBody bidding_wellFormed, rfl⟩, ?_⟩
      rintro other hother offer' ⟨tx', hdecode, -⟩
      rw [List.mem_singleton.mp hother] at hdecode
      exact nomatch hdecode

end Engine

end LaneAuction
