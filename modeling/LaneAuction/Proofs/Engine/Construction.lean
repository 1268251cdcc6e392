import LaneAuction.Proofs.Auction.Soundness
import LaneAuction.Proofs.Block.Clearing
import LaneAuction.Proofs.Engine.Limits
import LaneAuction.Proofs.Engine.Settlement

/-!
# Blocks are always built on a sound ledger

Only a fatal refusal of a pending bid keeps a block from being built of all lanes. On a ledger of
which no supply is above the largest amount there is none, whatever is pending
(`sound_ledger_builds`).
-/

namespace LaneAuction

/-- A price that does not clear an earlier one is the bid's fault. -/
private theorem ClearedBids.isFatal_eq_false_of_check {h : ClearedBids} {offer : BundleBid}
    {increment : Coin} {cause : Rejection} (hcheck : h.check offer increment = .error cause) :
    cause.isFatal = false := by
  rw [check] at hcheck
  split at hcheck
  · rw [checkIncrement] at hcheck
    split at hcheck
    · rw [← Except.error.inj hcheck]
      rfl
    · cases hcheck
  · cases hcheck

namespace LaneContext

variable {ctx : LaneContext} {r : PendingTx} {cause : Rejection} {l : Accounts}

/-- On a sound ledger, a candidate only fails for a reason of its own. -/
private theorem Fails.isFatal_eq_false (h : ctx.Fails r cause) (hledger : ctx.ledger = l.view)
    (hsupply : ∀ denom, l.exactSupply denom ≤ Amount.largest.toNat) : cause.isFatal = false := by
  cases h with
  | notSole _ => rfl
  | notCleared _ hcheck => exact ClearedBids.isFatal_eq_false_of_check hcheck
  | notAccepted _ _ haccept =>
    exact BidContext.isFatal_eq_false_of_accept hledger hsupply haccept

/-- Every lane can select, whatever its candidates. -/
theorem exists_select (hledger : ctx.ledger = l.view)
    (hsupply : ∀ denom, l.exactSupply denom ≤ Amount.largest.toNat) (kind : LaneKind)
    (budget : BlockSpace) (included : List Hash) (candidates : List PendingTx) :
    ∃ s, ctx.select kind budget included candidates = .ok s := by
  by_cases hkind : kind = .auction
  · subst hkind
    obtain ⟨winner, s, hclears⟩ | ⟨cause, _, _, _, _, -, -, hfails, hfatal⟩ :=
      clears_or_aborts ctx budget included candidates
    · exact ⟨s, hclears.clear_eq⟩
    · rw [hfails.isFatal_eq_false hledger hsupply] at hfatal
      exact nomatch hfatal
  · exact ctx.exists_select_of_ne_auction hkind budget included candidates

end LaneContext

namespace Engine

/-- Bids cannot keep a block from being built on a sound ledger, whatever the state of the engine.
No bid is refused for a fatal cause, in any context that reads the ledger; in simulation, no balance
leaves its range. So a block is built of all lanes, and that is the block that is proposed. -/
theorem sound_ledger_builds (e : Engine) {l : Accounts}
    (hsupply : ∀ denom, l.exactSupply denom ≤ Amount.largest.toNat) :
    (∀ (ctx : BidContext) (bid : BidCandidate), ctx.ledger = l.view →
      (∀ cause, ctx.accept bid = .error cause → cause.isFatal = false) ∧
      ∀ bundle cause, ((BidContext.payChunk ctx.exempt bid bundle).run.run
          (.ofView ctx.ledger)).1 = .error cause →
        ∃ account denom available required,
          cause = .insufficientFunds account denom available required) ∧
    ∀ maxBytes maxGas height, ∃ built,
      e.tryPrepare maxBytes maxGas height l.view = .ok built ∧
      e.prepare maxBytes maxGas height l.view = built := by
  refine ⟨fun ctx bid hledger => ⟨fun cause => ?_, fun bundle cause hrun => ?_⟩,
    fun maxBytes maxGas height => ?_⟩
  · exact BidContext.isFatal_eq_false_of_accept hledger hsupply
  · rw [hledger] at hrun
    exact BidContext.exists_eq_insufficientFunds_of_payChunk hsupply hrun
  · -- No lane fails to select, so the build succeeds whatever is pending.
    obtain ⟨built, hbuilt⟩ := e.exists_build maxBytes maxGas height l.view
      fun kind _ budget included => LaneContext.exists_select rfl hsupply kind budget included _
    have htry : e.tryPrepare maxBytes maxGas height l.view = .ok built := hbuilt
    exact ⟨built, htry, by rw [prepare, htry]⟩

open Transaction

/-- A bid above all that its bidder has is not paid, and the block is built. -/
theorem sound_ledger_builds_endowed :
    let bid : BidCandidate := { LaneContext.biddingCandidate with
      offer := { biddingOffer with price := ⟨⟨3000, by decide⟩, "stake"⟩ } }
    (∃ cause, ((BidContext.payChunk [] bid []).run.run (.ofView Accounts.endowed.view)).1 =
        .error cause ∧
      ∃ account denom available required,
        cause = .insufficientFunds account denom available required) ∧
    ∃ built, (plain.after [.submit (rawOfBody bidding) 1 Accounts.endowed.view]).tryPrepare 4000 0 1
        Accounts.endowed.view = .ok built ∧
      (plain.after [.submit (rawOfBody bidding) 1 Accounts.endowed.view]).prepare 4000 0 1
        Accounts.endowed.view = built := by
  intro bid
  obtain ⟨hbids, hbuilds⟩ := sound_ledger_builds
    (plain.after [.submit (rawOfBody bidding) 1 Accounts.endowed.view])
    Accounts.exactSupply_endowed_le
  have hshort : ((BidContext.payChunk [] bid []).run.run (.ofView Accounts.endowed.view)).1 =
      .error (.insufficientFunds .zero "stake" ⟨2000, by decide⟩ ⟨3000, by decide⟩) := by decide
  have hcontext := (hbids LaneContext.endowed.toBidContext bid rfl).2 [] _ hshort
  exact ⟨⟨_, hshort, hcontext⟩, hbuilds 4000 0 1⟩

end Engine

end LaneAuction
