import LaneAuction.Proofs.Block.Refusals
import LaneAuction.Proofs.Engine.Commit

/-!
# Nothing pending is lost

What ends the time of a pending transaction is said of each kind of call (`Call.Takes`): a block
that holds it; for a bid also a block that holds a transaction of its bundle or after which it can
no longer be included, the admission of a bid on the same bundle by the same bidder, and a proposal
for which it is not admissible. A call takes a transaction out of the pool if and only if it is one
of these (`Filed.get?_apply_iff`), so a transaction that was admitted is pending, under the same
number, exactly as long as no call has taken it (`pending_until_taken`).
-/

namespace LaneAuction

namespace Engine

variable {e start : Engine} {config : Config} {isSigned : Transaction → Bool} {call : Call}
  {calls : List Call} {r s : PendingTx} {hash : Hash} {height : UInt64} {ledger : LedgerView}

/-- The ways in which a call takes a pending transaction out of the pool. A bundle is known by its
digest. -/
def Call.Takes (e : Engine) (r : PendingTx) : Call → Prop
  | commit height raws => r.hash ∈ raws.map Transaction.hash ∨
      r.bid.isSome ∧ ((∃ hash ∈ r.bundle, hash ∈ raws.map Transaction.hash) ∨
        r.tx.body.timeout.toNat ≤ height.toNat + 1)
  | submit raw height ledger => ∃ tx offer, Transaction.decode raw = .ok tx ∧
      tx.bid? = some offer ∧ r.key? = some offer.key ∧
      ((Engine.submit raw height ledger).run.run e).1 = .ok (Transaction.hash raw)
  | prepare maxBytes maxGas height ledger => ∃ offer cause, r.tx.bid? = some offer ∧
      (r.hash, cause) ∈ (e.selection maxBytes maxGas height ledger).refused ∧
      cause.isFatal = false ∧
      (e.cleared.check offer e.params.increment = .error cause ∨
        (e.context height ledger e.pool.arena.isPending).toBidContext.accept
          ⟨r.hash, r.raw, r.tx, offer⟩ = .error cause)
  | registerLane _ _ | updateLane _ _ | updateParams _ _ => False

/-- One of the calls takes the transaction, in the engine that the calls before it lead to. -/
def Taken (e : Engine) (r : PendingTx) (calls : List Call) : Prop :=
  ∃ before call behind, calls = before ++ call :: behind ∧ call.Takes (e.after before) r

/-- A transaction is taken by a call, or by one of those behind it. -/
private theorem taken_cons_iff :
    e.Taken r (call :: calls) ↔ call.Takes e r ∨ (call.apply e).Taken r calls := by
  constructor
  · rintro ⟨before, call', behind, heq, htakes⟩
    cases before with
    | nil =>
      obtain ⟨rfl, rfl⟩ := List.cons.inj heq
      exact .inl htakes
    | cons first before =>
      obtain ⟨rfl, rfl⟩ := List.cons.inj heq
      exact .inr ⟨before, call', behind, rfl, htakes⟩
  · rintro (htakes | ⟨before, call', behind, rfl, htakes⟩)
    · exact ⟨[], call, calls, rfl, htakes⟩
    · exact ⟨call :: before, call', behind, rfl, htakes⟩

/-! ### One call -/

/-- A block takes what it holds, and the bids that it rules out. -/
theorem Filed.get?_commit_iff (he : e.Filed) (hr : e.pool.arena.get? r.hash = some r)
    (height : UInt64) (raws : List Bytes) :
    ((Call.commit height raws).apply e).pool.arena.get? r.hash = some r ↔
      ¬ (Call.commit height raws).Takes e r := by
  show (e.poolAfter height raws).arena.get? r.hash = some r ↔ _
  rw [he.get?_poolAfter_iff, and_iff_right hr, Call.Takes, ← Nat.not_lt,
    ← PendingTx.addSat_lt_timeout_iff]
  -- Who does not survive is held by the block, overlaps with it or is out of time.
  constructor
  · rintro ⟨hnot, hbundle, htime⟩ (hmem | ⟨hsome, ⟨hash, hmem, hblock⟩ | hle⟩)
    · exact hnot hmem
    · exact hbundle hash hmem hblock
    · exact hle (htime hsome)
  · intro h
    rw [not_or] at h
    obtain ⟨hnot, hbids⟩ := h
    refine ⟨hnot, fun hash hmem hblock => ?_, fun hsome => ?_⟩
    · -- What bundles something is a bid.
      refine hbids ⟨?_, .inl ⟨hash, hmem, hblock⟩⟩
      rw [Option.isSome_iff_ne_none]
      intro hnone
      rw [PendingTx.bundle_of_bid_eq_none hnone] at hmem
      exact absurd hmem List.not_mem_nil
    · exact not_not.mp fun hle => hbids ⟨hsome, .inr hle⟩

/-- A pending bid is refused for a cause that is one of its two checks'. -/
private theorem Filed.check_of_refuses (he : e.Filed) {cause : Rejection}
    (hr : r ∈ e.pool.ordered .auction)
    (hrefuses : (e.context height ledger e.pool.arena.isPending).Refuses r cause) :
    ∃ offer, r.tx.bid? = some offer ∧ cause.isFatal = false ∧
      (e.cleared.check offer e.params.increment = .error cause ∨
        (e.context height ledger e.pool.arena.isPending).toBidContext.accept
          ⟨r.hash, r.raw, r.tx, offer⟩ = .error cause) := by
  obtain ⟨hget, hlane⟩ := he.pool.mem_ordered_iff.mp hr
  have hadmitted := he.admitted _ _ hget
  have hbid := hadmitted.isSome_bid hlane
  rw [hadmitted.bid_eq, Option.isSome_map, Option.isSome_iff_exists] at hbid
  obtain ⟨offer, hoffer⟩ := hbid
  obtain ⟨hchunk, hfatal⟩ := hrefuses
  cases LaneContext.pendingChunk_eq_error_iff.mp hchunk with
  | notSole hnone => exact nomatch hnone.symm.trans hoffer
  | notCleared hoffer hcheck => exact ⟨_, hoffer, hfatal, .inl hcheck⟩
  | notAccepted hoffer _ haccept => exact ⟨_, hoffer, hfatal, .inr haccept⟩

/-- What a block refuses was refused by the auction. -/
private theorem exists_refuses_of_selection {maxBytes maxGas : UInt64} {cause : Rejection}
    (hmem : (hash, cause) ∈ (e.selection maxBytes maxGas height ledger).refused) :
    ∃ r ∈ e.pool.ordered .auction, r.hash = hash ∧
      (e.context height ledger e.pool.arena.isPending).Refuses r cause := by
  have hempty : (hash, cause) ∉ Selection.empty.refused := List.not_mem_nil
  rw [selection] at hmem
  split at hmem
  · next s hs =>
    exact (LaneContext.exists_refuses_of_assembleFrom hs hmem).resolve_left hempty
  · split at hmem
    · next s hs =>
      exact (LaneContext.exists_refuses_of_assembleFrom hs hmem).resolve_left hempty
    · exact absurd hmem hempty

/-- A proposal takes the bids that it refuses. -/
theorem Filed.get?_prepare_iff (he : e.Filed) (hr : e.pool.arena.get? r.hash = some r)
    (maxBytes maxGas height : UInt64) (ledger : LedgerView) :
    ((Call.prepare maxBytes maxGas height ledger).apply e).pool.arena.get? r.hash = some r ↔
      ¬ (Call.prepare maxBytes maxGas height ledger).Takes e r := by
  rw [Call.apply, prepare_eq]
  show (e.pool.eraseAll _).arena.get? r.hash = some r ↔ _
  rw [he.pool.get?_eraseAll_eq_some_iff, and_iff_left hr, not_iff_not, List.mem_map]
  constructor
  · intro h
    obtain ⟨⟨hash, cause⟩, hmem, rfl⟩ := h
    obtain ⟨r', hr', hhash, hrefuses⟩ := exists_refuses_of_selection hmem
    -- The refused candidate is the transaction itself.
    obtain rfl : r' = r := by
      have hget := (he.pool.mem_ordered_iff.mp hr').1
      rw [hhash, hr] at hget
      exact (Option.some.inj hget).symm
    obtain ⟨offer, hoffer, hfatal, hcheck⟩ := he.check_of_refuses hr' hrefuses
    exact ⟨offer, cause, hoffer, hmem, hfatal, hcheck⟩
  · intro h
    obtain ⟨offer, cause, -, hmem, -⟩ := h
    exact ⟨_, hmem, rfl⟩

/-- A bid that is admitted takes the pending bid on the same bundle by the same bidder. -/
theorem Filed.get?_submit_iff (he : e.Filed) (hr : e.pool.arena.get? r.hash = some r)
    (raw : Bytes) (height : UInt64) (ledger : LedgerView) :
    ((Call.submit raw height ledger).apply e).pool.arena.get? r.hash = some r ↔
      ¬ (Call.submit raw height ledger).Takes e r := by
  rw [Call.apply, Call.Takes]
  obtain ⟨cause, heq⟩ | ⟨tx, hadmitted, ⟨hcan, heq⟩ |
    ⟨old, key, hold, hkey, hnewKey, hcan, heq⟩⟩ := he.submit_cases raw height ledger
  · -- A refused submission takes nothing.
    simp [heq, hr]
  · -- No pending bid has the key of the new one.
    rw [heq]
    refine iff_of_true (hcan.get?_enlist_of_get? hr) ?_
    rintro ⟨tx', offer, hdecode, hoffer, hrkey, -⟩
    obtain rfl : tx = tx' := Except.ok.inj (hadmitted.decode.symm.trans hdecode)
    have hfree := hcan.key offer.key (key?_record_eq_some_iff.mpr ⟨offer, hoffer, rfl⟩)
    rw [he.pool.arena.bids_iff.mpr ⟨r, hr, hrkey⟩] at hfree
    cases hfree
  · rw [heq]
    obtain ⟨offer, hoffer, rfl⟩ := key?_record_eq_some_iff.mp hnewKey
    by_cases hsame : old = r
    · -- The new record has a number of its own, even under the hash of the old one.
      subst hsame
      refine iff_of_false ?_ (not_not.mpr ⟨tx, offer, hadmitted.decode, hoffer, hkey, rfl⟩)
      intro h
      obtain h | h := Pool.get?_enlist_cases h
      · exact (he.pool.get?_erase_eq_some_iff.mp h).1 rfl
      · have hnumber := congrArg PendingTx.arrival h
        rw [Pool.next_erase] at hnumber
        exact absurd hnumber (Nat.ne_of_lt (he.pool.arena.arrival_lt hr))
    · -- Another bid was under the key.
      have hne : old.hash ≠ r.hash := by
        intro hhash
        rw [hhash, hr] at hold
        exact hsame (Option.some.inj hold).symm
      refine iff_of_true (hcan.get?_enlist_of_get?
        (he.pool.get?_erase_eq_some_iff.mpr ⟨hne, hr⟩)) ?_
      rintro ⟨tx', offer', hdecode, hoffer', hrkey, -⟩
      obtain rfl : tx = tx' := Except.ok.inj (hadmitted.decode.symm.trans hdecode)
      obtain rfl := Option.some.inj (hoffer.symm.trans hoffer')
      exact hne (he.pool.key_inj hold hr hkey hrkey)

/-- A call takes a pending transaction out of the pool in one of the ways that are named, and in no
other. -/
theorem Filed.get?_apply_iff (he : e.Filed) (hr : e.pool.arena.get? r.hash = some r)
    (call : Call) : (call.apply e).pool.arena.get? r.hash = some r ↔ ¬ call.Takes e r := by
  cases call with
  | submit raw height ledger => exact he.get?_submit_iff hr raw height ledger
  | prepare maxBytes maxGas height ledger =>
    exact he.get?_prepare_iff hr maxBytes maxGas height ledger
  | commit height raws => exact he.get?_commit_iff hr height raws
  | registerLane caller lane => simp [hr, Call.Takes]
  | updateLane caller lane => simp [hr, Call.Takes]
  | updateParams caller params => simp [hr, Call.Takes]

/-! ### A run -/

/-- Numbers are given out in order, and what is newly pending has one that was not given out. -/
private theorem Filed.apply_fresh (he : e.Filed) (call : Call) :
    e.pool.arena.next ≤ (call.apply e).pool.arena.next ∧
      ∀ hash s, (call.apply e).pool.arena.get? hash = some s →
        e.pool.arena.get? hash = some s ∨ e.pool.arena.next ≤ s.arrival := by
  obtain ⟨hashes, heq | ⟨raw, height, ledger, tx, -, -, -, heq⟩⟩ := he.pool_apply_cases call
  · rw [heq, Pool.next_eraseAll]
    refine ⟨Nat.le_refl _, fun hash s hs => ?_⟩
    exact .inl (he.pool.get?_eraseAll_eq_some_iff.mp hs).2
  · rw [heq]
    constructor
    · rw [Pool.next_enlist, Pool.next_eraseAll]
      exact Nat.le_succ _
    · intro hash s hs
      obtain hs | rfl := Pool.get?_enlist_cases hs
      · exact .inl (he.pool.get?_eraseAll_eq_some_iff.mp hs).2
      · exact .inr (Nat.le_of_eq Pool.next_eraseAll.symm)

/-- A record whose number was given out is not pending again once it is gone. -/
private theorem Filed.get?_after_ne (he : e.Filed) (hr : r.arrival < e.pool.arena.next)
    (hgone : e.pool.arena.get? r.hash ≠ some r) (calls : List Call) :
    (e.after calls).pool.arena.get? r.hash ≠ some r := by
  induction calls generalizing e with
  | nil => exact hgone
  | cons call calls ih =>
    obtain ⟨hnext, hfresh⟩ := he.apply_fresh call
    apply ih (he.apply call) (Nat.lt_of_lt_of_le hr hnext)
    intro h
    obtain h | h := hfresh _ _ h
    · exact hgone h
    · exact absurd hr (Nat.not_lt.mpr h)

/-- What is pending stays pending as long as no call takes it, and is gone for good after that. -/
theorem Filed.get?_after_iff (he : e.Filed) (hr : e.pool.arena.get? r.hash = some r)
    (calls : List Call) :
    (e.after calls).pool.arena.get? r.hash = some r ↔ ¬ e.Taken r calls := by
  induction calls generalizing e with
  | nil => exact iff_of_true hr (by simp [Taken])
  | cons call calls ih =>
    rw [taken_cons_iff, not_or, ← he.get?_apply_iff hr call]
    by_cases hstays : (call.apply e).pool.arena.get? r.hash = some r
    · rw [and_iff_right hstays]
      exact ih (he.apply call) hstays
    · obtain ⟨hnext, -⟩ := he.apply_fresh call
      have hgiven := Nat.lt_of_lt_of_le (he.pool.arena.arrival_lt hr) hnext
      exact iff_of_false ((he.apply call).get?_after_ne hgiven hstays calls) fun h => hstays h.1

/-- What is no bid is taken by the block that holds it and by nothing else. -/
private theorem Call.Takes.of_bid_eq_none (h : call.Takes e r) (hbid : r.bid = none)
    (htx : r.tx.bid? = none) :
    ∃ height raws, call = .commit height raws ∧ r.hash ∈ raws.map Transaction.hash := by
  cases call with
  | commit height raws =>
    obtain h | ⟨hsome, -⟩ := h
    · exact ⟨height, raws, rfl, h⟩
    · simp [hbid] at hsome
  | submit raw height ledger =>
    obtain ⟨tx, offer, -, -, hkey, -⟩ := h
    simp [PendingTx.key?, hbid] at hkey
  | prepare maxBytes maxGas height ledger =>
    obtain ⟨offer, cause, hoffer, -⟩ := h
    rw [htx] at hoffer
    cases hoffer
  | registerLane caller lane => exact h.elim
  | updateLane caller lane => exact h.elim
  | updateParams caller params => exact h.elim

/-- What a submission answers is the hash of its record, which is pending under the next number. -/
private theorem Filed.exists_of_submit (he : e.Filed) {raw : Bytes}
    (hsubmit : ((submit raw height ledger).run.run e).1 = .ok hash) :
    ∃ r, r.hash = hash ∧ r.raw = raw ∧ r.arrival = e.pool.arena.next ∧
      Admitted e.config e.isSigned r ∧
      ((Call.submit raw height ledger).apply e).pool.arena.get? hash = some r := by
  rw [Call.apply]
  -- The number is the same with and without the bid that is taken out.
  have hpending : ∀ (p : Pool) (tx : Transaction), p.arena.next = e.pool.arena.next →
      (p.enlist (e.record raw tx)).arena.get? (Transaction.hash raw) =
        some { e.record raw tx with arrival := e.pool.arena.next } := by
    intro p tx hnext
    have hhash : (e.record raw tx).hash = Transaction.hash raw := rfl
    rw [Pool.get?_enlist, if_pos hhash, hnext]
  obtain ⟨cause, heq⟩ | ⟨tx, hadmitted, ⟨-, heq⟩ | ⟨old, key, -, -, -, -, heq⟩⟩ :=
    he.submit_cases raw height ledger
  · -- Nothing was admitted, which is not how it went.
    rw [heq] at hsubmit
    cases hsubmit
  · rw [heq] at hsubmit ⊢
    obtain rfl := Except.ok.inj hsubmit
    exact ⟨_, rfl, rfl, rfl, hadmitted.withArrival _, hpending _ tx rfl⟩
  · rw [heq] at hsubmit ⊢
    obtain rfl := Except.ok.inj hsubmit
    exact ⟨_, rfl, rfl, rfl, hadmitted.withArrival _, hpending _ tx Pool.next_erase⟩

/-- A transaction that was admitted is pending, under the number that it came with, exactly as long
as no call has taken it. What is no bid is taken only by a block that holds it. -/
theorem pending_until_taken (hstart : ofConfig config isSigned = .ok start) (calls : List Call)
    {raw : Bytes}
    (hsubmit : ((submit raw height ledger).run.run (start.after calls)).1 = .ok hash) :
    ∃ r, r.hash = hash ∧ r.raw = raw ∧ r.arrival = (start.after calls).pool.arena.next ∧
      Admitted config isSigned r ∧
      (∀ more, ((start.after (calls ++ .submit raw height ledger :: more)).pool.arena.get? hash =
          some r ↔ ¬ (start.after (calls ++ [.submit raw height ledger])).Taken r more) ∧
        (r ∈ (start.after (calls ++ .submit raw height ledger :: more)).pool.ordered r.lane ↔
          ¬ (start.after (calls ++ [.submit raw height ledger])).Taken r more)) ∧
      (r.lane ≠ .auction → ∀ (e : Engine) (call : Call), call.Takes e r →
        ∃ height raws, call = .commit height raws ∧ hash ∈ raws.map Transaction.hash) := by
  have he := (filed_ofConfig hstart).after calls
  obtain ⟨r, rfl, hraw, harrival, hadmitted, hr⟩ := he.exists_of_submit hsubmit
  rw [config_after, config_ofConfig hstart, isSigned_after, isSigned_ofConfig hstart] at hadmitted
  refine ⟨r, rfl, hraw, harrival, hadmitted, fun more => ?_, fun hlane e call htakes => ?_⟩
  · have hafter : ∀ more, start.after (calls ++ .submit raw height ledger :: more) =
        ((Call.submit raw height ledger).apply (start.after calls)).after more := by
      intro more
      rw [after, List.foldl_append]
      rfl
    -- From the submission on, every call takes the transaction or leaves it.
    have hiff := (he.apply (.submit raw height ledger)).get?_after_iff hr more
    have hfiled := (he.apply (.submit raw height ledger)).after more
    rw [hafter more, hafter [], hfiled.pool.mem_ordered_iff, and_iff_left rfl]
    exact ⟨hiff, hiff⟩
  · -- Only bids are taken by a building engine or for another submission.
    have htx := LaneKind.bid?_eq_none_of_ne_auction (hadmitted.lane_eq ▸ hlane)
    have hbid : r.bid = none := by rw [hadmitted.bid_eq, htx]; rfl
    exact htakes.of_bid_eq_none hbid htx

open Transaction

/-- A payment is not lost by building a block, and is gone with the block that holds it. -/
theorem pending_until_taken_payment :
    ((submit (rawOfBody payment) 1 LaneContext.plain.ledger).run.run plain).1 =
        .ok (Transaction.hash (rawOfBody payment)) ∧
      ∃ r, r.raw = rawOfBody payment ∧ r.arrival = 0 ∧
        (plain.after [.submit (rawOfBody payment) 1 LaneContext.plain.ledger,
          .prepare 1000 0 1 LaneContext.plain.ledger, .commit 1 []]).pool.arena.get?
            (Transaction.hash (rawOfBody payment)) = some r ∧
        (plain.after [.submit (rawOfBody payment) 1 LaneContext.plain.ledger,
          .commit 1 [rawOfBody payment]]).pool.arena.get?
            (Transaction.hash (rawOfBody payment)) ≠ some r := by
  have hdecode := decode_rawOfBody payment_wellFormed
  have hwelcome : plain.Welcomes (rawOfBody payment) := ⟨_, hdecode, rfl, by decide, by decide⟩
  obtain ⟨tx, -, -, hrun⟩ := hwelcome.run_submit rfl rfl 1 LaneContext.plain.ledger
  have hsubmit : ((submit (rawOfBody payment) 1 LaneContext.plain.ledger).run.run plain).1 =
      .ok (Transaction.hash (rawOfBody payment)) := by rw [hrun]
  obtain ⟨r, hhash, hraw, harrival, hadmitted, hpending, hother⟩ :=
    pending_until_taken ofConfig_default [] hsubmit
  refine ⟨hsubmit, r, hraw, harrival, (hpending _).1.mpr ?_, fun h => (hpending _).1.mp h ?_⟩
  · -- Outside the auction, only a block that holds the transaction takes it.
    rintro ⟨before, call, behind, heq, htakes⟩
    have hlane : r.lane = .base := by
      have htx := hadmitted.decode
      rw [hraw, hdecode] at htx
      rw [hadmitted.lane_eq, ← Except.ok.inj htx]
      rfl
    obtain ⟨height, raws, rfl, hmem⟩ := hother (by simp [hlane]) _ _ htakes
    -- The only block that is committed is empty.
    have hcall : Call.commit height raws ∈ before ++ .commit height raws :: behind := by simp
    rw [← heq] at hcall
    simp only [List.mem_cons, reduceCtorEq, Call.commit.injEq, List.not_mem_nil, false_or,
      or_false] at hcall
    rw [hcall.2] at hmem
    exact absurd hmem List.not_mem_nil
  · exact ⟨[], .commit 1 [rawOfBody payment], [], rfl, .inl (by rw [hhash]; simp)⟩

end Engine

end LaneAuction
