import LaneAuction.Proofs.Block.Assembly

/-!
# What is refused while a block is built

Only the auction refuses anything, and only candidates of its own that are not admissible for a
reason that is not fatal.
-/

namespace LaneAuction

namespace LaneContext

variable {ctx : LaneContext} {kind : LaneKind} {budget limits : BlockSpace} {included : List Hash}
  {candidates : List PendingTx} {pending : LaneKind → List PendingTx} {plan : List PlannedLane}
  {filled s : Selection} {hash : Hash} {cause : Rejection}

/-- A candidate is refused for a cause that is not fatal. -/
def Refuses (ctx : LaneContext) (r : PendingTx) (cause : Rejection) : Prop :=
  ctx.pendingChunk r = .error cause ∧ cause.isFatal = false

/-- A lane refuses candidates only if it is an auction. -/
private theorem exists_refuses_of_select (h : ctx.select kind budget included candidates = .ok s)
    (hmem : (hash, cause) ∈ s.refused) :
    kind = .auction ∧ ∃ r ∈ candidates, r.hash = hash ∧ ctx.Refuses r cause := by
  cases kind with
  | auction =>
    obtain ⟨r, hr, hhash, hfails, hfatal⟩ := exists_fails_of_clear h hmem
    exact ⟨rfl, r, hr, hhash, pendingChunk_eq_error_iff.mpr hfails, hfatal⟩
  | free | base =>
    obtain rfl := Except.ok.inj h
    exact nomatch hmem

/-- What is refused over all lanes is refused by the auction. -/
theorem exists_refuses_of_assembleFrom (h : ctx.assembleFrom limits pending filled plan = .ok s)
    (hmem : (hash, cause) ∈ s.refused) :
    (hash, cause) ∈ filled.refused ∨
      ∃ r ∈ pending .auction, r.hash = hash ∧ ctx.Refuses r cause := by
  induction h using assembleFrom_induction with
  | nil => exact .inl hmem
  | skip _ ih => exact ih
  | select hselect _ ih =>
    obtain hrefused | hrefused := ih
    · obtain hold | hnew := List.mem_append.mp hrefused
      · exact .inl hold
      · obtain ⟨rfl, hrefuses⟩ := exists_refuses_of_select hselect hnew
        exact .inr hrefuses
    · exact .inr hrefused

end LaneContext

end LaneAuction
