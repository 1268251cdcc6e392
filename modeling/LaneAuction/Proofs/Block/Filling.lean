import LaneAuction.Proofs.Block.Greedy
import LaneAuction.Proofs.Block.Limits
import Mathlib.Algebra.Order.BigOperators.Group.List
import Mathlib.Algebra.Order.Group.Nat
import Mathlib.Data.List.Perm.Basic

/-!
# What filling a lane leaves out

Filling looks at a candidate once, with what is chosen in front of it, and does not come back. What
is chosen in front is a part of what is chosen in the end, and space is only ever added; so a
candidate that did not fit in its turn does not fit behind the whole choice either. The choice is
therefore exact, candidate by candidate, and maximal as a whole (`fill_exact_and_maximal`), also
where a sum of space has reached the largest word.
-/

/-- The members of a sublist are met in its order. -/
private theorem List.Sublist.filter_mem_eq {α : Type} [DecidableEq α] {l l' : List α}
    (h : l.Sublist l') (hnodup : l'.Nodup) : l'.filter (· ∈ l) = l := by
  rw [← hnodup.perm_iff_eq_of_sublist List.filter_sublist h,
    List.perm_ext_iff_of_nodup (hnodup.filter _) (hnodup.sublist h)]
  intro a
  rw [List.mem_filter, decide_eq_true_iff]
  exact and_iff_right_of_imp fun hmem => h.subset hmem

namespace LaneAuction

/-- The bytes and the gas of transactions, each added up to the largest word, are within a
budget. -/
structure FitTogether (budget : BlockSpace) (rs : List PendingTx) : Prop where
  bytes : min (rs.map fun r => r.raw.length).sum (UInt64.size - 1) ≤ budget.bytes.toNat
  gas : min (rs.map fun r => r.tx.body.gas.toNat).sum (UInt64.size - 1) ≤ budget.gas.toNat

instance (budget : BlockSpace) (rs : List PendingTx) : Decidable (FitTogether budget rs) :=
  decidable_of_iff (_ ∧ _) ⟨fun ⟨hbytes, hgas⟩ => ⟨hbytes, hgas⟩, fun h => ⟨h.bytes, h.gas⟩⟩

/-- A cap leaves room for one more transaction behind some others. The cap zero is none. -/
def LeavesRoom (maxTxs : UInt64) (count : Nat) : Prop := maxTxs = 0 ∨ count < maxTxs.toNat

instance (maxTxs : UInt64) (count : Nat) : Decidable (LeavesRoom maxTxs count) :=
  inferInstanceAs (Decidable (_ ∨ _))

variable {budget : BlockSpace} {cap : Option Nat} {maxTxs : UInt64} {included : List Hash}
  {taken candidates chosen before behind rs ss : List PendingTx} {r : PendingTx}

/-- The space of transactions is the sums of their bytes and gas, each up to the largest word. -/
private theorem spaceOf_eq (rs : List PendingTx) : spaceOf rs =
    ⟨.clamp (rs.map fun r => r.raw.length).sum,
      .clamp (rs.map fun r => r.tx.body.gas.toNat).sum⟩ := by
  rw [spaceOf, BlockSpace.ofTxs_eq, exactBytes, exactGas, List.map_map, List.map_map]
  rfl

/-- The space of transactions fits a budget if and only if they fit together. -/
private theorem spaceOf_fits_iff : (spaceOf rs).fits budget ↔ FitTogether budget rs := by
  rw [spaceOf_eq, BlockSpace.fits_iff, UInt64.le_iff_toNat_le, UInt64.le_iff_toNat_le,
    UInt64.toNat_clamp, UInt64.toNat_clamp]
  exact ⟨fun ⟨hbytes, hgas⟩ => ⟨hbytes, hgas⟩, fun ⟨hbytes, hgas⟩ => ⟨hbytes, hgas⟩⟩

/-- A part of what fits together fits. -/
private theorem FitTogether.sublist (h : FitTogether budget ss) (hsub : rs.Sublist ss) :
    FitTogether budget rs where
  bytes := by
    have hsum := (hsub.map fun r => r.raw.length).sum_le_sum fun _ _ => Nat.zero_le _
    have hbytes := h.bytes
    omega
  gas := by
    have hsum := (hsub.map fun r => r.tx.body.gas.toNat).sum_le_sum fun _ _ => Nat.zero_le _
    have hgas := h.gas
    omega

/-- Below every cap there is means that the cap leaves room. -/
private theorem forall_limit_lt_iff {count : Nat} :
    (∀ n, LaneContext.cap.limit maxTxs = some n → count < n) ↔ LeavesRoom maxTxs count := by
  rw [LaneContext.cap.limit, LeavesRoom]
  by_cases hzero : maxTxs = 0
  · simp [hzero]
  · simp [hzero]

/-- The rule of the choice, said of the exact sums. -/
private theorem canTake_limit_iff : CanTake budget (LaneContext.cap.limit maxTxs) included taken r ↔
    r.hash ∉ included ∧ LeavesRoom maxTxs taken.length ∧ FitTogether budget (taken ++ [r]) := by
  rw [← forall_limit_lt_iff, ← spaceOf_fits_iff]
  exact ⟨fun h => ⟨h.new, h.room, h.fits⟩, fun ⟨hnew, hroom, hfits⟩ => ⟨hnew, hroom, hfits⟩⟩

namespace Greedy

/-- The choice among the candidates in front is made first. -/
private theorem exists_append (h : Greedy budget cap included taken (before ++ behind) chosen) :
    ∃ front rest, chosen = front ++ rest ∧ Greedy budget cap included taken before front ∧
      Greedy budget cap included (taken ++ front) behind rest := by
  induction before generalizing taken chosen with
  | nil => exact ⟨[], chosen, rfl, .nil, by rwa [List.append_nil]⟩
  | cons r before ih =>
    cases h with
    | take htake hrest =>
      obtain ⟨front, rest, rfl, hfront, hrest⟩ := ih hrest
      refine ⟨r :: front, rest, rfl, .take htake hfront, ?_⟩
      rwa [List.append_assoc, List.singleton_append] at hrest
    | skip hskip hrest =>
      obtain ⟨front, rest, rfl, hfront, hrest⟩ := ih hrest
      exact ⟨front, rest, rfl, .skip hskip hfront, hrest⟩

/-- What is chosen comes in the order of the candidates. -/
private theorem sublist (h : Greedy budget cap included taken candidates chosen) :
    chosen.Sublist candidates := by
  induction h with
  | nil => exact .slnil
  | take _ _ ih => exact ih.cons_cons _
  | skip _ _ ih => exact ih.cons _

/-- Of distinct candidates, one is chosen if and only if it can be taken behind the chosen ones in
front of it. -/
theorem mem_iff_canTake (h : Greedy budget cap included [] (before ++ r :: behind) chosen)
    (hnodup : (before ++ r :: behind).Nodup) :
    r ∈ chosen ↔ CanTake budget cap included (before.filter (· ∈ chosen)) r := by
  obtain ⟨front, rest, rfl, hfront, hrest⟩ := h.exists_append
  rw [List.nil_append] at hrest
  obtain ⟨hbefore, hbehind, hnew⟩ := List.nodup_append.mp hnodup
  obtain ⟨hr, -⟩ := List.nodup_cons.mp hbehind
  have hapart : ∀ s ∈ rest, s ∉ before := fun s hs hmem =>
    hnew s hmem s (hrest.sublist.subset hs) rfl
  -- The chosen ones in front are the choice that was made in front.
  have hfilter : before.filter (· ∈ front ++ rest) = front := by
    have hmem : ∀ s ∈ before, decide (s ∈ front ++ rest) = decide (s ∈ front) := fun s hs => by
      rw [decide_eq_decide, List.mem_append, or_iff_left fun hmem => hapart s hmem hs]
    rw [List.filter_congr hmem, hfront.sublist.filter_mem_eq hbefore]
  have hrfront : r ∉ front := fun hmem =>
    hnew r (hfront.sublist.subset hmem) r List.mem_cons_self rfl
  rw [hfilter, List.mem_append, or_iff_right hrfront]
  -- The next choice is about this candidate.
  cases hrest with
  | take htake _ => exact iff_of_true List.mem_cons_self htake
  | skip hskip hrest => exact iff_of_false (fun hmem => hr (hrest.sublist.subset hmem)) hskip

/-- What is chosen fits together. -/
theorem fitTogether (h : Greedy budget cap included [] candidates chosen) :
    FitTogether budget chosen := by
  have hfits : (BlockSpace.zero.add (spaceOf chosen)).fits budget :=
    (h.picks (BlockSpace.zero_fits budget)).fits
  rw [BlockSpace.zero_add] at hfits
  exact spaceOf_fits_iff.mp hfits

/-- If the cap leaves room for more, what is left out does not fit behind the choice. -/
theorem not_fitTogether (h : Greedy budget (LaneContext.cap.limit maxTxs) included [] candidates
    chosen) (hnodup : candidates.Nodup) (hroom : LeavesRoom maxTxs chosen.length)
    (hr : r ∈ candidates) (hleft : r ∉ chosen) (hnew : r.hash ∉ included) :
    ¬ FitTogether budget (chosen ++ [r]) := by
  obtain ⟨before, behind, rfl⟩ := List.append_of_mem hr
  intro hfits
  -- In its turn it had more room.
  have hfront : (before.filter (· ∈ chosen)).Sublist chosen := by
    have hsub := (List.sublist_append_left before (r :: behind)).filter (· ∈ chosen)
    rwa [h.sublist.filter_mem_eq hnodup] at hsub
  have hearlier : LeavesRoom maxTxs (before.filter (· ∈ chosen)).length :=
    hroom.imp_right (Nat.lt_of_le_of_lt hfront.length_le)
  refine hleft ((h.mem_iff_canTake hnodup).mpr (canTake_limit_iff.mpr ⟨hnew, hearlier, ?_⟩))
  exact hfits.sublist (hfront.append_right [r])

end Greedy

/-- Of candidates with distinct hashes, filling a lane chooses some in their order and reports the
sums of their bytes and gas, up to the largest word, which fit the budget. A candidate is chosen if
and only if it is not included already, the cap leaves room behind the chosen ones in front of it,
and it fits together with them. If the cap leaves room in the end, nothing that is left out and not
included already fits together with all that is chosen. -/
theorem fill_exact_and_maximal (budget : BlockSpace) (maxTxs : UInt64) (included : List Hash)
    (hnodup : (candidates.map PendingTx.hash).Nodup) :
    let s := fill budget (LaneContext.cap.limit maxTxs) included candidates
    ∃ chosen, chosen.Sublist candidates ∧ s.txs = chosen.map PendingTx.toBlockTx ∧
      s.refused = [] ∧
      s.used = ⟨.clamp (chosen.map fun r => r.raw.length).sum,
        .clamp (chosen.map fun r => r.tx.body.gas.toNat).sum⟩ ∧
      s.used.fits budget ∧
      (∀ before r behind, candidates = before ++ r :: behind →
        (r ∈ chosen ↔ r.hash ∉ included ∧
          LeavesRoom maxTxs (before.filter (· ∈ chosen)).length ∧
          FitTogether budget (before.filter (· ∈ chosen) ++ [r]))) ∧
      (LeavesRoom maxTxs chosen.length →
        ∀ r ∈ candidates, r ∉ chosen → r.hash ∉ included →
          ¬ FitTogether budget (chosen ++ [r])) := by
  intro s
  have hdistinct : candidates.Nodup :=
    (List.pairwise_map.mp hnodup).imp fun hne heq => hne (congrArg PendingTx.hash heq)
  obtain ⟨chosen, hchosen⟩ :=
    exists_greedy budget (LaneContext.cap.limit maxTxs) included [] candidates
  have hs : s = ⟨chosen.map PendingTx.toBlockTx, spaceOf chosen, []⟩ := hchosen.fill_eq
  rw [hs]
  refine ⟨chosen, hchosen.sublist, rfl, rfl, spaceOf_eq chosen,
    spaceOf_fits_iff.mpr hchosen.fitTogether, ?_, ?_⟩
  · -- Exactness: a candidate is chosen iff it can be taken behind those chosen in front of it.
    intro before r behind hsplit
    subst hsplit
    rw [hchosen.mem_iff_canTake hdistinct, canTake_limit_iff]
  · -- Maximality: while there is room in the count, nothing that was left would fit at the end.
    intro hroom r hr hleft hnew
    exact hchosen.not_fitTogether hdistinct hroom hr hleft hnew

/-- A pending transaction of some size. -/
def sized (number : UInt8) (bytes : Nat) : PendingTx where
  hash := .replicate number
  raw := List.replicate bytes number
  tx := default
  lane := .base
  arrival := number.toNat
  bid := none

/-- The second of three transactions is skipped, and the third fills the budget. -/
theorem fill_exact_and_maximal_skipping :
    ([sized 1 60, sized 2 50, sized 3 40].map PendingTx.hash).Nodup ∧
      ∃ chosen : List PendingTx, (fill ⟨100, 100⟩ (LaneContext.cap.limit 0) []
        [sized 1 60, sized 2 50, sized 3 40]).txs = chosen.map PendingTx.toBlockTx ∧
        sized 1 60 ∈ chosen ∧ sized 2 50 ∉ chosen ∧ sized 3 40 ∈ chosen := by
  have hnodup : ([sized 1 60, sized 2 50, sized 3 40].map PendingTx.hash).Nodup := by decide
  obtain ⟨chosen, -, htxs, -, -, -, hiff, -⟩ := fill_exact_and_maximal ⟨100, 100⟩ 0 [] hnodup
  -- The first takes 60 of the 100, so the second has no room and the third just fits.
  have hfirst : sized 1 60 ∈ chosen := by
    rw [hiff [] _ _ rfl, List.filter_nil]
    decide
  have hsecond : sized 2 50 ∉ chosen := by
    rw [hiff [sized 1 60] _ _ rfl, List.filter_singleton, decide_eq_true hfirst]
    decide
  have hthird : sized 3 40 ∈ chosen := by
    rw [hiff [sized 1 60, sized 2 50] _ _ rfl, List.filter_cons_of_pos (by simpa using hfirst),
      List.filter_singleton, decide_eq_false hsecond]
    decide
  exact ⟨hnodup, chosen, htxs, hfirst, hsecond, hthird⟩

end LaneAuction
