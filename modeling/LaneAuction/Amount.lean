/-!
# Amounts

An `Amount` counts indivisible units and is below `2 ^ 128`. Its operations are those of the
natural numbers, cut at that bound: the checked ones fail where the exact result is out of range,
the saturating one stops at the largest amount.
-/

namespace LaneAuction

/-- A count of units below `2 ^ 128`. -/
structure Amount where
  toNat : Nat
  toNat_lt : toNat < 0x1_00000000_00000000_00000000_00000000
deriving DecidableEq

namespace Amount

/-- Amounts are equal if they count the same. -/
@[ext] theorem ext {a b : Amount} (h : a.toNat = b.toNat) : a = b := by
  cases a; cases b; simp_all

instance : Repr Amount := ⟨fun a _ => repr a.toNat⟩

instance : ToString Amount := ⟨fun a => toString a.toNat⟩

/-- No units. -/
def zero : Amount := ⟨0, by decide⟩

/-- The largest amount. -/
def largest : Amount := ⟨0xffffffff_ffffffff_ffffffff_ffffffff, by decide⟩

instance : Inhabited Amount := ⟨zero⟩

/-- The amount of `n` units, if there is one. -/
def ofNat? (n : Nat) : Option Amount :=
  if h : n < 0x1_00000000_00000000_00000000_00000000 then some ⟨n, h⟩ else none

instance : LE Amount := ⟨fun a b => a.toNat ≤ b.toNat⟩
instance : LT Amount := ⟨fun a b => a.toNat < b.toNat⟩
instance : DecidableLE Amount := fun a b => inferInstanceAs (Decidable (a.toNat ≤ b.toNat))
instance : DecidableLT Amount := fun a b => inferInstanceAs (Decidable (a.toNat < b.toNat))
instance : Ord Amount := ⟨compareOn toNat⟩

/-- Amounts are compared as numbers. -/
theorem le_def {a b : Amount} : a ≤ b ↔ a.toNat ≤ b.toNat := Iff.rfl
/-- Amounts are compared as numbers, strictly too. -/
theorem lt_def {a b : Amount} : a < b ↔ a.toNat < b.toNat := Iff.rfl

/-- The sum, unless it is out of range. -/
def add? (a b : Amount) : Option Amount := ofNat? (a.toNat + b.toNat)

/-- The difference, unless it is below zero. -/
def sub? (a b : Amount) : Option Amount :=
  if b ≤ a then some ⟨a.toNat - b.toNat, Nat.lt_of_le_of_lt (Nat.sub_le ..) a.toNat_lt⟩ else none

/-- The product, unless it is out of range. -/
def mul? (a b : Amount) : Option Amount := ofNat? (a.toNat * b.toNat)

/-- The sum, or the largest amount if the sum is out of range. -/
def addSat (a b : Amount) : Amount := (a.add? b).getD largest

/-- True of the empty amount. -/
def isZero (a : Amount) : Bool := a.toNat == 0

@[simp] theorem toNat_zero : zero.toNat = 0 := rfl

/-- Every number in range is counted by an amount. -/
theorem exists_toNat_eq {n : Nat} (h : n < 0x1_00000000_00000000_00000000_00000000) :
    ∃ a : Amount, a.toNat = n := ⟨⟨n, h⟩, rfl⟩

/-- A number of units is an amount if and only if it is what the amount counts. -/
theorem ofNat?_eq_some_iff {n : Nat} {a : Amount} : ofNat? n = some a ↔ n = a.toNat := by
  unfold ofNat?
  split
  · exact ⟨by rintro ⟨⟩; rfl, fun h => congrArg some (ext h)⟩
  · exact ⟨nofun, fun h => absurd (h ▸ a.toNat_lt) ‹_›⟩

/-- There is no amount of `2 ^ 128` units or more. -/
theorem ofNat?_eq_none_iff {n : Nat} :
    ofNat? n = none ↔ 0x1_00000000_00000000_00000000_00000000 ≤ n := by
  unfold ofNat?
  split
  · exact ⟨nofun, fun h => by omega⟩
  · exact ⟨fun _ => by omega, fun _ => rfl⟩

@[simp] theorem ofNat?_toNat (a : Amount) : ofNat? a.toNat = some a := ofNat?_eq_some_iff.2 rfl

/-- A checked sum is the sum of the numbers, where it is found. -/
theorem add?_eq_some_iff {a b c : Amount} : a.add? b = some c ↔ a.toNat + b.toNat = c.toNat :=
  ofNat?_eq_some_iff

/-- A checked product is the product of the numbers, where it is found. -/
theorem mul?_eq_some_iff {a b c : Amount} : a.mul? b = some c ↔ a.toNat * b.toNat = c.toNat :=
  ofNat?_eq_some_iff

/-- A checked difference gives the larger amount back when the smaller one is added again. -/
theorem sub?_eq_some_iff {a b c : Amount} : a.sub? b = some c ↔ a.toNat = c.toNat + b.toNat := by
  unfold sub?
  split
  · rename_i h
    rw [le_def] at h
    constructor
    · rintro ⟨⟩; simp only; omega
    · intro e; exact congrArg some (ext (by simp only; omega))
  · rename_i h
    rw [le_def] at h
    exact ⟨nofun, fun e => absurd (by omega) h⟩

/-- A checked sum fails above the largest amount, and only there. -/
theorem add?_eq_none_iff {a b : Amount} :
    a.add? b = none ↔ largest.toNat < a.toNat + b.toNat := ofNat?_eq_none_iff

/-- A checked difference fails if more is taken than there is, and only then. -/
theorem sub?_eq_none_iff {a b : Amount} : a.sub? b = none ↔ a < b := by
  unfold sub?
  split
  · rename_i h
    exact ⟨nofun, fun h' => absurd h (Nat.not_le.mpr h')⟩
  · rename_i h
    exact ⟨fun _ => Nat.lt_of_not_le h, fun _ => rfl⟩

/-- A saturating sum is the sum of the numbers, cut at the largest amount. -/
theorem toNat_addSat (a b : Amount) :
    (a.addSat b).toNat = Nat.min (a.toNat + b.toNat) largest.toNat := by
  unfold addSat
  rcases h : a.add? b with _ | c
  · have := ofNat?_eq_none_iff.1 h
    exact (Nat.min_eq_right (Nat.le_trans (by decide) this)).symm
  · have := add?_eq_some_iff.1 h
    have hlt := c.toNat_lt
    exact this ▸ (Nat.min_eq_left (Nat.le_of_lt_succ hlt)).symm

end Amount

end LaneAuction
