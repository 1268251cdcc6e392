import LaneAuction.BlockSpace

/-!
# Adding up block space

Space is added up to the largest word. Sums of lists can be split anywhere (`ofTxs_append`), and
what fits the budget of a lane fits the block together with what is used already
(`fits_add_of_budget`): within the limits no sum ever reaches the end of its range.
-/

namespace UInt64

/-- Saturating sums are associative. -/
private theorem addSat_assoc (a b c : UInt64) : (a.addSat b).addSat c = a.addSat (b.addSat c) := by
  apply UInt64.toNat_inj.mp
  simp only [toNat_addSat, Nat.min_def]
  split <;> split <;> split <;> split <;> omega

/-- Nothing is added in front. -/
private theorem zero_addSat (a : UInt64) : (0 : UInt64).addSat a = a := by
  have := a.toNat_lt
  apply UInt64.toNat_inj.mp
  simp only [toNat_addSat, UInt64.toNat_zero, Nat.min_def, size]
  split <;> omega

/-- Nothing is added behind. -/
private theorem addSat_zero (a : UInt64) : a.addSat 0 = a := by
  have := a.toNat_lt
  apply UInt64.toNat_inj.mp
  simp only [toNat_addSat, UInt64.toNat_zero, Nat.min_def, size]
  split <;> omega

/-- What is at most the difference can be added back. -/
private theorem addSat_le_of_le_subSat {a b c : UInt64} (hb : b ≤ c.subSat a) (ha : a ≤ c) :
    a.addSat b ≤ c := by
  simp only [le_iff_toNat_le, toNat_subSat, toNat_addSat, Nat.min_def] at *
  split <;> omega

/-- Below the largest word a sum is exceeded if and only if the exact sum is. -/
theorem lt_addSat_iff {a b c : UInt64} (ha : a < largest) :
    a < b.addSat c ↔ a.toNat < b.toNat + c.toNat := by
  simp only [lt_iff_toNat_lt, toNat_addSat, toNat_largest, Nat.min_def] at *
  split <;> omega

end UInt64

namespace LaneAuction

namespace BlockSpace

variable {a b c limits used space : BlockSpace}

/-- Space may be added up in any grouping. -/
theorem add_assoc : (a.add b).add c = a.add (b.add c) := by
  simp only [add, UInt64.addSat_assoc]

@[simp] theorem zero_add : zero.add a = a := by
  simp only [add, zero, UInt64.zero_addSat]

@[simp] theorem add_zero : a.add zero = a := by
  simp only [add, zero, UInt64.addSat_zero]

/-- Space fits if its bytes and its gas do. -/
theorem fits_iff : space.fits limits ↔ space.bytes ≤ limits.bytes ∧ space.gas ≤ limits.gas := by
  simp only [fits, Bool.and_eq_true, decide_eq_true_eq]

@[simp] theorem zero_fits (limit : BlockSpace) : zero.fits limit := by
  simp [fits, zero]

/-- A list of transactions is added to what its front takes. -/
private theorem foldl_add (txs : List BlockTx) :
    txs.foldl (fun space tx => space.add (ofTx tx)) space = space.add (ofTxs txs) := by
  induction txs generalizing space with
  | nil => exact add_zero.symm
  | cons tx txs ih =>
    rw [ofTxs, List.foldl_cons, List.foldl_cons, ih, @ih (zero.add _), zero_add, add_assoc]

/-- The space of a list is added up over its parts. -/
theorem ofTxs_append (txs txs' : List BlockTx) :
    ofTxs (txs ++ txs') = (ofTxs txs).add (ofTxs txs') := by
  rw [ofTxs, List.foldl_append, foldl_add]
  rfl

/-- The space of a list is that of its first transaction and the rest. -/
theorem ofTxs_cons (tx : BlockTx) (txs : List BlockTx) :
    ofTxs (tx :: txs) = (ofTx tx).add (ofTxs txs) := by
  rw [ofTxs, List.foldl_cons, foldl_add, zero_add]

/-- A budget is at most what is free. -/
private theorem fits_free_of_budget {fraction : Decimal}
    (h : space.fits (budget limits used fraction)) : space.fits (limits.sub used) := by
  rw [budget] at h
  split at h
  · exact h
  · simp only [fits_iff, min] at h ⊢
    obtain ⟨hbytes, hgas⟩ := h
    constructor
    · split at hbytes
      · next hle => exact UInt64.le_trans hbytes hle
      · exact hbytes
    · split at hgas
      · next hle => exact UInt64.le_trans hgas hle
      · exact hgas

/-- What fits the budget of a lane fits the limits of the block, with what is used already. -/
theorem fits_add_of_budget {fraction : Decimal} (hused : used.fits limits)
    (h : space.fits (budget limits used fraction)) : (used.add space).fits limits := by
  have hfree := fits_free_of_budget h
  simp only [fits_iff, sub, add] at hused hfree ⊢
  exact ⟨UInt64.addSat_le_of_le_subSat hfree.1 hused.1,
    UInt64.addSat_le_of_le_subSat hfree.2 hused.2⟩

end BlockSpace

end LaneAuction
