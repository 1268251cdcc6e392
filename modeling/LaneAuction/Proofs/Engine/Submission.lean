import LaneAuction.Proofs.Engine.Admitted
import LaneAuction.Proofs.Pool.Rollback

/-!
# What a submission changes

A submission that fails changes nothing, and one that succeeds adds one record and takes out at most
one bid, the pending one by the same bidder on the same bundle (`failed_admission_changes_nothing`).
-/

namespace LaneAuction

namespace Engine

variable {e e' start : Engine} {config : Config} {isSigned : Transaction → Bool} {r : PendingTx}
  {hash : Hash} {height : UInt64} {ledger : LedgerView}

/-- The pending bid that a transaction supersedes: the one by its bidder on its bundle. -/
def superseded? (e : Engine) (r : PendingTx) : Option PendingTx := r.key?.bind e.pool.arena.bid?

/-- One transaction became pending, under the next number, and the bid that it supersedes is gone.
Nothing else was changed, and the lanes list what is pending. -/
structure Adds (e : Engine) (r : PendingTx) (e' : Engine) : Prop where
  rest : e' = { e with pool := e'.pool }
  next : e'.pool.arena.next = e.pool.arena.next + 1
  pending : ∀ hash s, e'.pool.arena.get? hash = some s ↔
    hash = r.hash ∧ s = { r with arrival := e.pool.arena.next } ∨
      hash ≠ r.hash ∧ e.pool.arena.get? hash = some s ∧ e.superseded? r ≠ some s
  listed : ∀ kind s, s ∈ e'.pool.ordered kind ↔
    s.lane = kind ∧ s = { r with arrival := e.pool.arena.next } ∨
      s ∈ e.pool.ordered kind ∧ s.hash ≠ r.hash ∧ e.superseded? r ≠ some s

/-- Enlisting adds a transaction, if all that is taken out before is the bid that it supersedes. -/
private theorem adds_of_enlist {p : Pool} (hp : p.Filed) (he : e.pool.Filed) (hr : p.CanEnlist r)
    (hnext : p.arena.next = e.pool.arena.next)
    (hget : ∀ hash s, p.arena.get? hash = some s ↔
      e.pool.arena.get? hash = some s ∧ e.superseded? r ≠ some s) :
    e.Adds r { e with pool := p.enlist r } := by
  have hpending : ∀ hash s, (p.enlist r).arena.get? hash = some s ↔
      hash = r.hash ∧ s = { r with arrival := e.pool.arena.next } ∨
        hash ≠ r.hash ∧ e.pool.arena.get? hash = some s ∧ e.superseded? r ≠ some s := by
    intro hash s
    rw [Pool.enlist, Pool.arena_put, Arena.get?_put_eq_some_iff, hnext, hget]
  refine ⟨rfl, by rw [Pool.next_enlist, hnext], hpending, fun kind s => ?_⟩
  show s ∈ (p.enlist r).ordered kind ↔ _
  rw [(hp.enlist hr).mem_ordered_iff, hpending, he.mem_ordered_iff]
  -- A lane has the new record, or what it had less what the new bid supersedes.
  constructor
  · rintro ⟨⟨-, heq⟩ | ⟨hne, hs, hkept⟩, hlane⟩
    · exact .inl ⟨hlane, heq⟩
    · exact .inr ⟨⟨hs, hlane⟩, hne, hkept⟩
  · rintro (⟨hlane, heq⟩ | ⟨⟨hs, hlane⟩, hne, hkept⟩)
    · exact ⟨.inl ⟨by rw [heq], heq⟩, hlane⟩
    · exact ⟨.inr ⟨hne, hs, hkept⟩, hlane⟩

/-- A submission fails and changes nothing, or adds its record. -/
theorem Filed.submit_adds (he : e.Filed) (raw : Bytes) (height : UInt64) (ledger : LedgerView) :
    (∃ cause, (submit raw height ledger).run.run e = (.error cause, e)) ∨
      ∃ tx e', Transaction.decode raw = .ok tx ∧ e.Adds (e.record raw tx) e' ∧
        (submit raw height ledger).run.run e = (.ok (Transaction.hash raw), e') := by
  obtain herror | ⟨tx, hadmitted, ⟨hcan, heq⟩ | ⟨old, key, hold, hkey, hrkey, hcan, heq⟩⟩ :=
    he.submit_cases raw height ledger
  · exact .inl herror
  · -- No pending bid has its key.
    refine .inr ⟨tx, _, hadmitted.decode, adds_of_enlist he.pool he.pool hcan rfl ?_, heq⟩
    have hnone : e.superseded? (e.record raw tx) = none := by
      rw [superseded?, Option.bind_eq_none_iff]
      intro key hkey
      exact he.pool.arena.bid?_eq_none_iff.mpr (hcan.key key hkey)
    simp [hnone]
  · -- The bid under its key is taken out, and is the one that is superseded.
    have hsuperseded : e.superseded? (e.record raw tx) = some old := by
      rw [superseded?, hrkey]
      exact he.pool.arena.bid?_eq_some_iff.mpr ⟨hold, hkey⟩
    refine .inr ⟨tx, _, hadmitted.decode,
      adds_of_enlist (he.pool.erase old.hash) he.pool hcan Pool.next_erase fun hash s => ?_, heq⟩
    rw [he.pool.get?_erase_eq_some_iff, hsuperseded, and_comm]
    refine and_congr_right fun hs => not_congr ?_
    constructor
    · rintro rfl
      rw [hs] at hold
      exact hold.symm
    · rintro ⟨⟩
      exact he.pool.arena.hash_eq hs

/-- An admission that fails changes nothing. In every pool that operations lead to, that holds of
every transaction: also of a bid that is refused after the pending one that it supersedes was taken
out, as that one can always go back. So a submission to an engine, whatever calls it has had, fails
and leaves the engine as it was, or it adds its record and takes out at most the one bid that this
supersedes. -/
theorem failed_admission_changes_nothing :
    (∀ (ranking : Ranking) (steps : List Pool.Step), (∀ step ∈ steps, step.IsProper) →
      ∀ (r : PendingTx) (increment : Coin) (maxPending : Nat),
        let p := Pool.ofSteps ranking steps
        Pool.KeepsOnFailure (Pool.insert r) p ∧
        Pool.KeepsOnFailure (Pool.insertBid r increment maxPending) p ∧
        ∀ bid old cause q, r.bid = some bid → p.arena.bid? bid.key = some old →
          (Pool.place .auction r.hash ((p.dropBid old.hash).arena.insert r)).run.run
            (p.dropBid old.hash) = (.error cause, q) →
          (Pool.place .auction old.hash (q.arena.restore old)).run.run q = (.ok (), p)) ∧
    ∀ (config : Config) (isSigned : Transaction → Bool) (start : Engine),
      ofConfig config isSigned = .ok start →
      ∀ (calls : List Call) (raw : Bytes) (height : UInt64) (ledger : LedgerView),
        let e := start.after calls
        let outcome := (submit raw height ledger).run.run e
        (∀ cause, outcome.1 = .error cause → outcome.2 = e) ∧
        ∀ hash, outcome.1 = .ok hash → hash = Transaction.hash raw ∧
          ∃ tx, Transaction.decode raw = .ok tx ∧ e.Adds (e.record raw tx) outcome.2 := by
  constructor
  · -- The pool by itself, where a refused bid has its predecessor restored.
    intro ranking steps hproper r increment maxPending p
    have hp : p.Filed := (Pool.valid_ofSteps hproper).toFiled
    exact ⟨Pool.keepsOnFailure_insert r p, hp.keepsOnFailure_insertBid r increment maxPending,
      fun bid old cause q _ hold hrefused => hp.run_restore_of_refused hold hrefused⟩
  · -- The engine changes its pool only, and only by an admission.
    intro config isSigned start hstart calls raw height ledger e outcome
    have he : e.Filed := (filed_ofConfig hstart).after calls
    obtain ⟨cause, heq⟩ | ⟨tx, e', hdecode, hadds, heq⟩ := he.submit_adds raw height ledger
    · have houtcome : outcome = (.error cause, e) := heq
      rw [houtcome]
      exact ⟨fun _ _ => rfl, fun _ hok => nomatch hok⟩
    · have houtcome : outcome = (.ok (Transaction.hash raw), e') := heq
      rw [houtcome]
      constructor
      · exact fun _ herror => nomatch herror
      · exact fun hash hok => ⟨(Except.ok.inj hok).symm, tx, hdecode, hadds⟩

/-- A bid that outbids the one in the second step of `outbid`, under the hash of the transaction in
the first. -/
def clashing : PendingTx :=
  { hash := .replicate 1
    raw := []
    tx := default
    lane := .auction
    arrival := 0
    bid := some ⟨.zero, ⟨⟨175, by decide⟩, "stake"⟩, [.replicate 7, .replicate 7], .zero⟩ }

open Transaction

/-- The pending bid is back after its successor was refused, bytes that are no transaction are
refused, and a payment is added. -/
theorem failed_admission_changes_nothing_clashing :
    let p := Pool.ofSteps default (Pool.outbid.take 2)
    let paid := (submit (rawOfBody payment) 1 LaneContext.plain.ledger).run.run plain
    (Pool.insertBid clashing ⟨⟨50, by decide⟩, "stake"⟩ 1).run.run p =
        (.error (.repeated (.pending (.replicate 1))), p) ∧
      (∃ cause, (submit [] 1 LaneContext.plain.ledger).run.run plain = (.error cause, plain)) ∧
      paid.1 = .ok (Transaction.hash (rawOfBody payment)) ∧
      ∃ tx, plain.Adds (plain.record (rawOfBody payment) tx) paid.2 := by
  obtain ⟨hpool, hengine⟩ := failed_admission_changes_nothing
  -- The new bid outbids the pending one, but its hash is that of the free transaction.
  have hproper : ∀ step ∈ Pool.outbid.take 2, step.IsProper := by decide
  have hwelcome : plain.Welcomes (rawOfBody payment) :=
    ⟨_, decode_rawOfBody payment_wellFormed, rfl, by decide, by decide⟩
  obtain ⟨_, -, -, hrun⟩ := hwelcome.run_submit rfl rfl 1 LaneContext.plain.ledger
  have hadded : ((submit (rawOfBody payment) 1 LaneContext.plain.ledger).run.run plain).1 =
      .ok (Transaction.hash (rawOfBody payment)) := by rw [hrun]
  refine ⟨?_, ?_, hadded, ?_⟩
  · have hkeeps := (hpool default _ hproper clashing ⟨⟨50, by decide⟩, "stake"⟩ 1).2.1
    have hcause : ((Pool.insertBid clashing ⟨⟨50, by decide⟩, "stake"⟩ 1).run.run
      (Pool.ofSteps default (Pool.outbid.take 2))).1 =
        .error (.repeated (.pending (.replicate 1))) := rfl
    exact Prod.ext hcause (hkeeps _ _ (Prod.ext hcause rfl))
  · -- The empty bytes are no transaction.
    have hkeeps := (hengine _ _ _ ofConfig_default [] [] 1 LaneContext.plain.ledger).1
    exact ⟨_, Prod.ext rfl (hkeeps _ rfl)⟩
  · have hadds := (hengine _ _ _ ofConfig_default [] _ 1 LaneContext.plain.ledger).2 _ hadded
    obtain ⟨-, tx, -, hadds⟩ := hadds
    exact ⟨tx, hadds⟩

end Engine

end LaneAuction
