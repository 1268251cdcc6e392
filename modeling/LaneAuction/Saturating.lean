/-!
# Saturating 64-bit words

Sums and differences of block space and heights stop at the ends of the 64-bit range. Each
operation is determined by its value as a natural number.
-/

namespace UInt64

/-- The largest word. -/
def largest : UInt64 := 18446744073709551615

/-- The word of a natural number, or the largest word if there is none. -/
def clamp (n : Nat) : UInt64 := UInt64.ofNat (Nat.min n (UInt64.size - 1))

/-- The sum, or the largest word if the sum is out of range. -/
def addSat (a b : UInt64) : UInt64 := clamp (a.toNat + b.toNat)

/-- The difference, or zero if it is negative. -/
def subSat (a b : UInt64) : UInt64 := clamp (a.toNat - b.toNat)

@[simp] theorem toNat_largest : largest.toNat = UInt64.size - 1 := rfl

/-- A number is cut at the largest word. -/
theorem toNat_clamp (n : Nat) : (clamp n).toNat = Nat.min n (UInt64.size - 1) := by
  simp only [clamp, UInt64.toNat_ofNat', Nat.min_def, size]
  split <;> omega

/-- A saturating sum is the sum of the numbers, cut at the largest word. -/
theorem toNat_addSat (a b : UInt64) :
    (a.addSat b).toNat = Nat.min (a.toNat + b.toNat) (UInt64.size - 1) := toNat_clamp _

/-- A saturating difference is that of the numbers, cut at zero. -/
theorem toNat_subSat (a b : UInt64) : (a.subSat b).toNat = a.toNat - b.toNat := by
  have := a.toNat_lt
  simp only [subSat, toNat_clamp, Nat.min_def, size]
  split <;> omega

end UInt64
