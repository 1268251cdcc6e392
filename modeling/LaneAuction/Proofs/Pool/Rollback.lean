import LaneAuction.Proofs.Pool.Run

/-!
# Admissions that fail

An admission that fails keeps the very pool that it was given (`KeepsOnFailure`), whatever is to be
admitted. Mostly nothing is changed before the last check. But a bid that raises the price of a
pending one takes that one out first; if it is refused after that, the pending bid goes back to
where it was, and nothing can be in its way (`Filed.run_restore_of_refused`).
-/

namespace LaneAuction

namespace Pool

variable {p q : Pool} {r old : PendingTx} {key : BidKey} {cause : Rejection}

/-- A step that keeps the pool when it fails. -/
def KeepsOnFailure {α : Type} (action : PoolAction α) (p : Pool) : Prop :=
  ∀ cause q, action.run.run p = (.error cause, q) → q = p

/-- Only what is to be placed can fail to be. -/
private theorem run_place_cases (kind : LaneKind) (hash : Hash) (added : Except Rejection Arena)
    (p : Pool) :
    (∃ cause, (place kind hash added).run.run p = (.error cause, p)) ∨
      ∃ q, (place kind hash added).run.run p = (.ok (), q) := by
  cases added with
  | error cause => exact .inl ⟨cause, run_place_error kind cause⟩
  | ok a => exact .inr ⟨_, rfl⟩

/-- Placing a transaction fails only as the arena does, before anything is changed. -/
private theorem keepsOnFailure_place (kind : LaneKind) (hash : Hash)
    (added : Except Rejection Arena) (p : Pool) : KeepsOnFailure (place kind hash added) p := by
  intro cause q hrun
  obtain ⟨_, heq⟩ | ⟨_, heq⟩ := run_place_cases kind hash added p
  · rw [heq] at hrun
    exact (Prod.mk.inj hrun).2.symm
  · rw [heq] at hrun
    exact nomatch hrun

/-- An insertion that fails leaves the pool as it was. -/
theorem keepsOnFailure_insert (r : PendingTx) (p : Pool) : KeepsOnFailure (insert r) p := by
  intro cause q hrun
  rw [run_insert_eq] at hrun
  exact keepsOnFailure_place _ _ _ p cause q hrun

/-- A pending bid that was taken out for another one goes back when that one is refused. -/
theorem Filed.run_restore_of_refused (hp : p.Filed) (h : p.arena.bid? key = some old)
    (hrefused : (place .auction r.hash ((p.dropBid old.hash).arena.insert r)).run.run
      (p.dropBid old.hash) = (.error cause, q)) :
    (place .auction old.hash (q.arena.restore old)).run.run q = (.ok (), p) := by
  obtain ⟨hold, hlane, -⟩ := hp.exists_of_bid? h
  obtain rfl := keepsOnFailure_place _ _ _ _ _ _ hrefused
  rw [hp.dropBid_eq_erase_of_get? hold hlane]
  exact hp.run_place_restore hold hlane

/-- A replacement that fails leaves the pool as it was: the old bid is put back. -/
private theorem Filed.keepsOnFailure_replaceBid (hp : p.Filed) (h : p.arena.bid? key = some old)
    (r : PendingTx) : KeepsOnFailure (replaceBid r old) p := by
  intro cause q hrun
  obtain ⟨hold, hlane, -⟩ := hp.exists_of_bid? h
  obtain ⟨_, hrefused⟩ | ⟨_, hplaced⟩ := run_place_cases .auction r.hash
    ((p.erase old.hash).arena.insert r) (p.erase old.hash)
  · rw [hp.run_replaceBid_of_refused hold hlane hrefused] at hrun
    exact (Prod.mk.inj hrun).2.symm
  · rw [hp.run_replaceBid_of_placed hold hlane hplaced] at hrun
    cases hrun

/-- A bid that is refused leaves the pool as it was, at whatever point it is refused. -/
theorem Filed.keepsOnFailure_insertBid (hp : p.Filed) (r : PendingTx) (increment : Coin)
    (maxPending : Nat) : KeepsOnFailure (insertBid r increment maxPending) p := by
  intro cause q hrun
  -- A refusal in front of the replacement is one that has changed nothing.
  cases hbid : r.bid with
  | none =>
    rw [run_insertBid_of_none hbid] at hrun
    exact (Prod.mk.inj hrun).2.symm
  | some bid =>
    cases hkey : p.arena.bid? bid.key with
    | none =>
      -- A new key: the lane may be full, or the record may not be placed.
      rw [run_insertBid_of_new hbid hkey] at hrun
      split at hrun
      · exact (Prod.mk.inj hrun).2.symm
      · obtain ⟨_, heq⟩ | ⟨_, heq⟩ := run_place_cases .auction r.hash (p.arena.insert r) p
        · rw [heq] at hrun
          exact (Prod.mk.inj hrun).2.symm
        · rw [heq] at hrun
          cases hrun
    | some old =>
      obtain ⟨-, -, -, previous, hprevious, -⟩ := hp.exists_of_bid? hkey
      rw [run_insertBid_of_pending hbid hkey hprevious] at hrun
      cases hcheck : checkIncrement bid.price previous.price increment with
      | error e =>
        rw [hcheck] at hrun
        exact (Prod.mk.inj hrun).2.symm
      | ok _ =>
        rw [hcheck] at hrun
        -- Only here was the pool changed before the bid was refused.
        rcases hreplace : (replaceBid r old).run.run p with ⟨cause' | ⟨⟩, q'⟩
        · simp only [hreplace] at hrun
          obtain rfl := (Prod.mk.inj hrun).2
          exact hp.keepsOnFailure_replaceBid hkey r cause' _ hreplace
        · simp only [hreplace] at hrun
          cases hrun

end Pool

end LaneAuction
