import LaneAuction.Block.Selection
import LaneAuction.Proofs.Block.Space

/-!
# What filling a lane chooses

A lane is filled greedily: it goes along its candidates once and takes each one that can be taken
behind those chosen before (`CanTake`). The choice is determined by that rule (`Greedy.unique`), and
filling makes it (`Greedy.fill_eq`). The rule looks at the transactions chosen so far, and not at a
count and a sum that are carried along.
-/

namespace LaneAuction

/-- The space of pending transactions in a block. -/
def spaceOf (rs : List PendingTx) : BlockSpace := .ofTxs (rs.map PendingTx.toBlockTx)

/-- The space of one more transaction is added to that of the others. -/
theorem spaceOf_concat (rs : List PendingTx) (r : PendingTx) :
    spaceOf (rs ++ [r]) = (spaceOf rs).add (.ofTx r.toBlockTx) := by
  have hsingle : BlockSpace.ofTxs [r.toBlockTx] = .ofTx r.toBlockTx := BlockSpace.zero_add
  rw [spaceOf, List.map_append, BlockSpace.ofTxs_append, List.map_singleton, hsingle, spaceOf]

/-- A candidate can be taken behind others: the block does not have it, the cap leaves room for one
more, and it fits the budget together with them. -/
structure CanTake (budget : BlockSpace) (cap : Option Nat) (included : List Hash)
    (taken : List PendingTx) (r : PendingTx) : Prop where
  new : r.hash ∉ included
  room : ∀ n, cap = some n → taken.length < n
  fits : (spaceOf (taken ++ [r])).fits budget

/-- The candidates that are chosen behind those already taken: each in its turn, if it can be. -/
inductive Greedy (budget : BlockSpace) (cap : Option Nat) (included : List Hash) :
    (taken candidates chosen : List PendingTx) → Prop where
  | nil {taken : List PendingTx} : Greedy budget cap included taken [] []
  | take {taken rs chosen : List PendingTx} {r : PendingTx}
      (htake : CanTake budget cap included taken r)
      (hrest : Greedy budget cap included (taken ++ [r]) rs chosen) :
      Greedy budget cap included taken (r :: rs) (r :: chosen)
  | skip {taken rs chosen : List PendingTx} {r : PendingTx}
      (hskip : ¬ CanTake budget cap included taken r)
      (hrest : Greedy budget cap included taken rs chosen) :
      Greedy budget cap included taken (r :: rs) chosen

variable {budget : BlockSpace} {cap : Option Nat} {included : List Hash}
  {taken candidates chosen chosen' : List PendingTx} {r : PendingTx}

/-- A cap is reached if there is one and it is not above the count. -/
private theorem reachesCap_iff {count : Nat} :
    reachesCap cap count ↔ ∃ n, cap = some n ∧ n ≤ count := by
  simp [reachesCap, Option.any_eq_true]

/-- The rule, as it is checked with a count and a sum. -/
theorem canTake_iff : CanTake budget cap included taken r ↔
    ¬ reachesCap cap taken.length ∧ r.hash ∉ included ∧
      ((spaceOf taken).add (.ofTx r.toBlockTx)).fits budget := by
  rw [reachesCap_iff, ← spaceOf_concat]
  constructor
  · intro h
    refine ⟨?_, h.new, h.fits⟩
    rintro ⟨n, hcap, hle⟩
    exact Nat.not_lt.mpr hle (h.room n hcap)
  · rintro ⟨hroom, hnew, hfits⟩
    refine ⟨hnew, fun n hcap => ?_, hfits⟩
    exact Nat.lt_of_not_le fun hle => hroom ⟨n, hcap, hle⟩

namespace Greedy

/-- Nothing is chosen behind as many as the cap allows. -/
private theorem eq_nil_of_reachesCap (h : Greedy budget cap included taken candidates chosen)
    (hcap : reachesCap cap taken.length) : chosen = [] := by
  induction h with
  | nil => rfl
  | take htake _ _ => exact absurd hcap (canTake_iff.mp htake).1
  | skip _ _ ih => exact ih hcap

/-- There is one way to choose. -/
theorem unique (h : Greedy budget cap included taken candidates chosen)
    (h' : Greedy budget cap included taken candidates chosen') : chosen = chosen' := by
  induction h generalizing chosen' with
  | nil =>
    cases h'
    rfl
  | take htake _ ih =>
    cases h' with
    | take _ hrest => rw [ih hrest]
    | skip hskip _ => exact absurd htake hskip
  | skip hskip _ ih =>
    cases h' with
    | take htake _ => exact absurd htake hskip
    | skip _ hrest => exact ih hrest

end Greedy

/-- There is always a choice. -/
theorem exists_greedy (budget : BlockSpace) (cap : Option Nat) (included : List Hash)
    (taken candidates : List PendingTx) :
    ∃ chosen, Greedy budget cap included taken candidates chosen := by
  induction candidates generalizing taken with
  | nil => exact ⟨[], .nil⟩
  | cons r rs ih =>
    by_cases htake : CanTake budget cap included taken r
    · obtain ⟨chosen, hrest⟩ := ih (taken ++ [r])
      exact ⟨r :: chosen, .take htake hrest⟩
    · obtain ⟨chosen, hrest⟩ := ih taken
      exact ⟨chosen, .skip htake hrest⟩

namespace Greedy

/-- Filling a lane behind transactions that were taken already makes the choice. -/
private theorem fillFrom_eq (h : Greedy budget cap included taken candidates chosen) :
    fillFrom budget cap included taken.length (spaceOf taken) candidates =
      (chosen.map PendingTx.toBlockTx, spaceOf (taken ++ chosen)) := by
  induction h with
  | nil => rw [fillFrom, List.append_nil, List.map_nil]
  | @take taken rs chosen r htake _ ih =>
    obtain ⟨hroom, hnew, hfits⟩ := canTake_iff.mp htake
    have hnew : included.contains r.hash = false := by simpa using hnew
    have hroom : reachesCap cap taken.length = false := by simpa using hroom
    rw [List.length_append, List.length_singleton, spaceOf_concat, List.append_assoc,
      List.singleton_append] at ih
    simp only [fillFrom, hroom, hnew, hfits, ih, Bool.false_eq_true, if_false, if_true,
      List.map_cons]
  -- A candidate that is passed over had no room in the count, was included or did not fit.
  | @skip taken rs chosen r hskip hrest ih =>
    rw [fillFrom]
    by_cases hroom : reachesCap cap taken.length
    · -- Nothing behind is chosen either.
      rw [if_pos hroom, hrest.eq_nil_of_reachesCap hroom, List.append_nil, List.map_nil]
    rw [if_neg hroom]
    by_cases hnew : included.contains r.hash
    · rw [if_pos hnew, ih]
    rw [if_neg hnew]
    have hfits : ¬ ((spaceOf taken).add (.ofTx r.toBlockTx)).fits budget := fun hfits =>
      hskip (canTake_iff.mpr ⟨hroom, by simpa using hnew, hfits⟩)
    simp only [hfits, Bool.false_eq_true, if_false, ih]

/-- Filling a lane chooses among its candidates. -/
theorem fill_eq (h : Greedy budget cap included [] candidates chosen) :
    fill budget cap included candidates = ⟨chosen.map PendingTx.toBlockTx, spaceOf chosen, []⟩ := by
  have hfill : fillFrom budget cap included 0 .zero candidates =
      (chosen.map PendingTx.toBlockTx, spaceOf chosen) := h.fillFrom_eq
  rw [fill, hfill]

end Greedy

end LaneAuction
