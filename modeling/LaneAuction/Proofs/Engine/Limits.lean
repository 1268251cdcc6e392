import LaneAuction.Proofs.Block.Limits
import LaneAuction.Proofs.Engine.Agreement
import LaneAuction.Proofs.Engine.Chain

/-!
# Blocks keep within their limits

Whatever calls an engine has had, the blocks that it builds and the blocks that it accepts keep
within the limits in exact arithmetic, and so does each lane with a fraction within its share
(`block_space_safe`). All that this asks of the calls is that the fractions in force are at most
one, which every registry keeps.
-/

namespace LaneAuction

namespace Engine

variable {e start : Engine} {config : Config} {isSigned : Transaction → Bool}
  {maxBytes maxGas height : UInt64} {ledger : LedgerView}

/-- Each lane with a fraction keeps within its exact share of the limits. -/
def LanesKeepWithin (maxBytes maxGas : UInt64) (plan : List PlannedLane)
    (runs : List (List BlockTx)) : Prop :=
  List.Forall₂ (fun l run => l.lane.fraction.isZero = false →
    KeepsWithin maxBytes maxGas l.lane.fraction.floorOf run) plan runs

/-- Every planned lane has a fraction of at most one. -/
theorem ChainValid.isFraction (he : e.ChainValid) {only : Option LaneKind} {l : PlannedLane}
    (hl : l ∈ e.plan only) : l.lane.fraction.isFraction := by
  obtain ⟨lane, hlane, rfl⟩ := List.mem_map.mp hl
  exact Lane.isFraction_of_validate (he.registry.lanes lane hlane)

/-- Runs that fit the budgets of their lanes keep within the shares of the lanes. -/
private theorem ChainValid.lanesKeepWithin (he : e.ChainValid) (hbytes : maxBytes < .largest)
    {only : Option LaneKind} {runs : List (List BlockTx)}
    (h : List.Forall₂ (fun l run => ∃ used, (BlockSpace.ofTxs run).fits
      (BlockSpace.budget (.ofLimits maxBytes maxGas) used l.lane.fraction)) (e.plan only) runs) :
    LanesKeepWithin maxBytes maxGas (e.plan only) runs := by
  have hmem := (List.forall₂_and_left _ _).mpr ⟨fun l hl => he.isFraction hl, h⟩
  refine hmem.imp fun l run hrun hzero => ?_
  obtain ⟨hfraction, used, hfits⟩ := hrun
  exact BlockSpace.keepsWithin_of_fits_budget hbytes hfraction hzero hfits

/-- A proposal is what all lanes select, or the base lane alone. -/
theorem exists_fills_of_prepare (e : Engine) (maxBytes maxGas height : UInt64)
    (ledger : LedgerView) :
    ∃ only runs, (e.context height ledger e.pool.arena.isPending).Fills
        (.ofLimits maxBytes maxGas) e.pool.ordered [] (e.plan only) runs ∧
      (e.prepare maxBytes maxGas height ledger).1.txs = runs.flatten := by
  obtain ⟨only, hbuild⟩ := e.exists_build_eq_prepare maxBytes maxGas height ledger
  obtain ⟨s, hassemble, hs⟩ := build_eq_ok_iff.mp hbuild
  have hempty : Selection.empty.used = .ofTxs Selection.empty.txs := rfl
  obtain ⟨runs, hruns, htxs⟩ := LaneContext.exists_fills_of_assembleFrom hempty hassemble
  exact ⟨only, runs, hruns, hs ▸ htxs⟩

/-- Every block that is built or accepted keeps within the limits, and each lane with a fraction
within its share, in exact arithmetic and whatever gas is declared. -/
theorem block_space_safe (hstart : ofConfig config isSigned = .ok start) (calls : List Call)
    (hbytes : maxBytes < .largest) (maxGas height : UInt64) (ledger : LedgerView) :
    (∃ only runs, ((start.after calls).context height ledger
          (start.after calls).pool.arena.isPending).Fills (.ofLimits maxBytes maxGas)
          (start.after calls).pool.ordered [] ((start.after calls).plan only) runs ∧
        ((start.after calls).prepare maxBytes maxGas height ledger).1.txs = runs.flatten ∧
        KeepsWithin maxBytes maxGas (fun limit => limit) runs.flatten ∧
        LanesKeepWithin maxBytes maxGas ((start.after calls).plan only) runs) ∧
      ∀ raws, (start.after calls).process raws maxBytes maxGas height ledger = .ok () →
        ∃ cut : List (List ReceivedTx), raws.map ReceivedTx.decode = cut.flatten.map .ok ∧
          ((start.after calls).context height ledger fun _ => false).IsCut
            (.ofLimits maxBytes maxGas) .zero ((start.after calls).plan none) cut ∧
          KeepsWithin maxBytes maxGas (fun limit => limit) (cut.flatten.map ReceivedTx.block) ∧
          LanesKeepWithin maxBytes maxGas ((start.after calls).plan none)
            (cut.map fun run => run.map ReceivedTx.block) := by
  have he := (chainValid_ofConfig hstart).after calls
  constructor
  · -- Budgets are checked on saturated sums; below the largest word the exact sums fit, too.
    obtain ⟨only, runs, hruns, htxs⟩ :=
      (start.after calls).exists_fills_of_prepare maxBytes maxGas height ledger
    have hfits := hruns.fits (BlockSpace.zero_fits _)
    exact ⟨only, runs, hruns, htxs, BlockSpace.keepsWithin_of_fits hbytes hfits,
      he.lanesKeepWithin hbytes hruns.forall₂_fits⟩
  · intro raws hprocess
    obtain ⟨txs, hdecode, -, -, hfits, cut, rfl, hcut⟩ :=
      LaneContext.exists_isCut_of_review hprocess
    exact ⟨cut, hdecode, hcut, BlockSpace.keepsWithin_of_fits hbytes hfits,
      he.lanesKeepWithin hbytes hcut.forall₂_fits⟩

open Transaction

/-- A block of one payment is built and accepted. Its bytes are within the limit, as are those of
every block that is accepted. -/
theorem block_space_safe_payment : (1000 : UInt64) < .largest ∧
    ((plain.after paymentCalls).prepare 1000 0 1 LaneContext.plain.ledger).1.txs =
      [.ofRaw (rawOfBody payment) payment.gas] ∧
    exactBytes ((plain.after paymentCalls).prepare 1000 0 1 LaneContext.plain.ledger).1.txs ≤
      1000 ∧
    (plain.after paymentCalls).process [rawOfBody payment] 1000 0 1 LaneContext.plain.ledger =
      .ok () ∧
    ∀ raws, (plain.after paymentCalls).process raws 1000 0 1 LaneContext.plain.ledger = .ok () →
      ∃ cut : List (List ReceivedTx), raws.map ReceivedTx.decode = cut.flatten.map .ok ∧
        exactBytes (cut.flatten.map ReceivedTx.block) ≤ 1000 := by
  have hbytes : (1000 : UInt64) < .largest := by decide
  obtain ⟨⟨only, runs, -, htxs, hbuilt, -⟩, hprocess⟩ :=
    block_space_safe ofConfig_default paymentCalls hbytes 0 1 LaneContext.plain.ledger
  -- The block that was built is the one that is accepted.
  have haccept := ((valid_ofConfig ofConfig_default).after isProper_paymentCalls).process_prepare
    rfl rfl rfl rfl rfl 1000 0 1 LaneContext.plain.ledger
  rw [Proposal.rawTxs, txs_prepare_paymentCalls] at haccept
  refine ⟨hbytes, txs_prepare_paymentCalls, htxs ▸ hbuilt.bytes, haccept, fun raws hok => ?_⟩
  obtain ⟨cut, hdecode, -, hwithin, -⟩ := hprocess raws hok
  exact ⟨cut, hdecode, hwithin.bytes⟩

end Engine

end LaneAuction
