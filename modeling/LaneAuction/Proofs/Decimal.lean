import LaneAuction.Decimal

/-!
# The whole part of a share

A product that is found is the exact one, rounded down once (`Decimal.toNat_of_mulFloor`). For a
fraction of the whole it is found, for every amount and every capacity, because no partial product
is out of range (`Decimal.mulFloor_eq_some`).
-/

namespace LaneAuction

namespace Decimal

variable {d : Decimal} {amount product : Amount} {capacity share : UInt64}

/-- The exact product of a number and a decimal, rounded down. -/
def floorOf (d : Decimal) (n : Nat) : Nat := n * d.atomics.toNat / scale

/-- A fraction is at most the scale in units. -/
theorem isFraction_iff : d.isFraction ↔ d.atomics.toNat ≤ scale := by
  rw [isFraction, decide_eq_true_eq]

/-- A fraction is at most one. -/
theorem isFraction_iff_le_one : d.isFraction ↔ d ≤ one := isFraction_iff

/-- The scale can be divided by. -/
theorem scale_pos : 0 < scale := by decide

/-- A share of a number is at most the number. -/
theorem floorOf_le (hd : d.isFraction) (n : Nat) : d.floorOf n ≤ n := by
  rw [floorOf]
  apply Nat.div_le_of_le_mul
  rw [Nat.mul_comm scale]
  exact Nat.mul_le_mul_left n (isFraction_iff.mp hd)

/-- Only the rest below a multiple of the scale is rounded. -/
private theorem floorOf_eq_high_add_low (d : Decimal) (n : Nat) :
    d.floorOf n = n / scale * d.atomics.toNat + n % scale * d.atomics.toNat / scale := by
  have hsplit : n * d.atomics.toNat =
      scale * (n / scale * d.atomics.toNat) + n % scale * d.atomics.toNat := by
    rw [← Nat.mul_assoc, ← Nat.add_mul, Nat.div_add_mod]
  rw [floorOf, hsplit, Nat.mul_add_div scale_pos]

/-- Whatever the decimal, a product that is found is rounded down once, and nothing is lost. -/
theorem toNat_of_mulFloor (h : d.mulFloor amount = some product) :
    product.toNat = d.floorOf amount.toNat := by
  simp only [mulFloor, bind, Option.bind_eq_some_iff, Amount.ofNat?_eq_some_iff] at h
  obtain ⟨high, hhigh, low, hlow, hsum⟩ := h
  rw [floorOf_eq_high_add_low, hhigh, hlow, hsum]

/-- A share of a word that is found is the floor of the exact share. -/
theorem toNat_of_mulFloor64 (h : d.mulFloor64 capacity = some share) :
    share.toNat = d.floorOf capacity.toNat := by
  simp only [mulFloor64, bind, Option.bind_eq_some_iff, Amount.ofNat?_eq_some_iff] at h
  obtain ⟨amount, hamount, product, hproduct, hshare⟩ := h
  split at hshare
  · next hsize =>
    rw [← Option.some.inj hshare, UInt64.toNat_ofNat_of_lt' hsize, toNat_of_mulFloor hproduct,
      hamount]
  · exact nomatch hshare

/-- A share of an amount by a fraction is always found, and is the floor of the exact share. -/
theorem mulFloor_eq_some (hd : d.isFraction) (amount : Amount) :
    ∃ product, d.mulFloor amount = some product ∧ product.toNat = d.floorOf amount.toNat := by
  have hle := floorOf_le hd amount.toNat
  have hlt := amount.toNat_lt
  have hsum := floorOf_eq_high_add_low d amount.toNat
  -- Both partial products are in range: the high one is part of the result, the low one is a
  -- product of two numbers that are at most the scale.
  have hhigh : amount.toNat / scale * d.atomics.toNat ≤ d.floorOf amount.toNat := by
    rw [hsum]
    exact Nat.le_add_right _ _
  have hlow : amount.toNat % scale * d.atomics.toNat ≤ scale * scale :=
    Nat.mul_le_mul (Nat.le_of_lt (Nat.mod_lt _ scale_pos)) (isFraction_iff.mp hd)
  have hsquare : scale * scale < 0x1_00000000_00000000_00000000_00000000 := by decide
  let high : Amount := ⟨amount.toNat / scale * d.atomics.toNat, by omega⟩
  let low : Amount := ⟨amount.toNat % scale * d.atomics.toNat, by omega⟩
  let product : Amount := ⟨d.floorOf amount.toNat, by omega⟩
  have hhigh : Amount.ofNat? (amount.toNat / scale * d.atomics.toNat) = some high :=
    Amount.ofNat?_toNat high
  have hlow : Amount.ofNat? (amount.toNat % scale * d.atomics.toNat) = some low :=
    Amount.ofNat?_toNat low
  refine ⟨product, ?_, rfl⟩
  rw [mulFloor, hhigh, hlow]
  show Amount.ofNat? (high.toNat + low.toNat / scale) = some product
  exact Amount.ofNat?_eq_some_iff.mpr hsum.symm

/-- A share can be taken out of what it is a share of. -/
theorem exists_share_and_rest (hd : d.isFraction) (amount : Amount) :
    ∃ share rest, d.mulFloor amount = some share ∧ share.toNat = d.floorOf amount.toNat ∧
      amount.sub? share = some rest := by
  obtain ⟨share, hshare, hfloor⟩ := mulFloor_eq_some hd amount
  have hle : share ≤ amount := by
    rw [Amount.le_def, hfloor]
    exact floorOf_le hd _
  exact ⟨share, _, hshare, hfloor, if_pos hle⟩

/-- A share of a word by a fraction is always found, and is the floor of the exact share. -/
theorem mulFloor64_eq_some (hd : d.isFraction) (capacity : UInt64) :
    ∃ share, d.mulFloor64 capacity = some share ∧ share.toNat = d.floorOf capacity.toNat := by
  have hlt := capacity.toNat_lt
  let amount : Amount := ⟨capacity.toNat, by omega⟩
  have hamount : Amount.ofNat? capacity.toNat = some amount := Amount.ofNat?_toNat amount
  obtain ⟨product, hproduct, hfloor⟩ := mulFloor_eq_some hd amount
  have hle : d.floorOf capacity.toNat ≤ capacity.toNat := floorOf_le hd capacity.toNat
  have hfloor : product.toNat = d.floorOf capacity.toNat := hfloor
  have hsize : product.toNat < UInt64.size := by
    rw [hfloor, UInt64.size]
    omega
  refine ⟨.ofNat product.toNat, ?_, ?_⟩
  · rw [mulFloor64, hamount]
    show (d.mulFloor amount >>= _) = _
    rw [hproduct]
    exact if_pos hsize
  · rw [UInt64.toNat_ofNat_of_lt' hsize, hfloor]

end Decimal

end LaneAuction
