import LaneAuction.Proofs.Engine.Chain
import LaneAuction.Proofs.Lane.Changes

/-!
# What governance can do

A chain starts from every well-formed set of lanes and from no other, and whatever calls are made,
by whomever, its lanes stay well formed and its parameters pass their check. Nobody but the
authority changes anything.
-/

namespace LaneAuction

namespace Engine

variable {e : Engine} {caller : Address}

/-- Nobody but the authority has a governance call answered, whatever else is wrong with it. -/
private theorem governance_of_ne (h : caller ≠ e.config.authority) (lane : Lane)
    (params : AuctionParams) : e.registerLane caller lane = .error (.unauthorized caller) ∧
      e.updateLane caller lane = .error (.unauthorized caller) ∧
      e.updateParams caller params = .error (.unauthorized caller) := by
  refine ⟨?_, ?_, ?_⟩
  · rw [registerLane, Registry.register_of_ne h, Except.error_bind]
  · rw [updateLane, Registry.update_of_ne h, Except.error_bind]
  · rw [updateParams, authorize_of_ne h, Except.error_bind]

/-- The lanes of a chain are well formed after any calls, and its parameters pass their check. Of
the lanes that a chain is to start from, exactly the well-formed sets are taken, in any order. -/
theorem governance_keeps_well_formed :
    (∀ lanes, (∃ r, Registry.ofLanes lanes = .ok r) ↔ Registry.WellFormed lanes) ∧
      (∀ lanes lanes', lanes.Perm lanes' →
        (Registry.ofLanes lanes').toOption = (Registry.ofLanes lanes).toOption) ∧
      (∀ lanes, Registry.ofLanes lanes ≠ .error .fractionsOverflow) ∧
      (∀ lanes start changes, Registry.ofLanes lanes = .ok start →
        (start.after changes).Governed) ∧
      ∀ config isSigned start calls, ofConfig config isSigned = .ok start →
        (start.after calls).registry.Governed ∧
          (start.after calls).params.validate = .ok () ∧
          ∀ caller lane params, caller ≠ config.authority →
            (start.after calls).registerLane caller lane = .error (.unauthorized caller) ∧
            (start.after calls).updateLane caller lane = .error (.unauthorized caller) ∧
            (start.after calls).updateParams caller params = .error (.unauthorized caller) := by
  refine ⟨?_, ?_, ?_, ?_, ?_⟩
  · exact fun lanes => Registry.exists_ofLanes_iff
  · exact fun lanes lanes' hperm => Registry.toOption_ofLanes_perm hperm
  · exact Registry.ofLanes_ne_overflow
  · exact fun lanes start changes hstart =>
      ((Registry.valid_of_ofLanes hstart).after changes).governed
  · -- The authority is fixed at the start, so no call can make another account one.
    intro config isSigned start calls hstart
    have he := (chainValid_ofConfig hstart).after calls
    refine ⟨he.registry.governed, he.params, fun caller lane params hcaller => ?_⟩
    have hconfig : (start.after calls).config = config :=
      (config_after start calls).trans (config_ofConfig hstart)
    exact governance_of_ne (hconfig ▸ hcaller) lane params

/-- A lane is added to those of the default configuration. That it has the whole block is refused,
and so are parameters without retention. -/
def spareCalls : List Call :=
  [.registerLane .zero ⟨"spare", .zero, 3⟩, .updateLane .zero ⟨"spare", .one, 3⟩,
    .updateParams .zero { AuctionParams.default with retention := 0 }]

/-- A registered lane is kept with the others, in order and with their fractions. -/
theorem governance_keeps_well_formed_spare : ofConfig .default (fun _ => true) = .ok plain ∧
    (plain.after spareCalls).registry.lanes = Genesis.default.lanes ++ [⟨"spare", .zero, 3⟩] ∧
    Registry.WellFormed (Genesis.default.lanes ++ [⟨"spare", .zero, 3⟩]) ∧
    (plain.after spareCalls).params.validate = .ok () := by
  have hlanes : (plain.after spareCalls).registry.lanes =
      Genesis.default.lanes ++ [⟨"spare", .zero, 3⟩] := by decide
  obtain ⟨-, -, -, -, hengine⟩ := governance_keeps_well_formed
  obtain ⟨hgoverned, hparams, -⟩ := hengine _ _ _ spareCalls ofConfig_default
  exact ⟨ofConfig_default, hlanes, hlanes ▸ hgoverned.wellFormed, hparams⟩

end Engine

end LaneAuction
