import LaneAuction.Config
import LaneAuction.Proofs.Lane.Validity
import Mathlib.Algebra.Ring.Nat

/-!
# Which sets of lanes a chain can start from

A set of lanes is well formed if the ids are short words in their alphabet, no two of them the same,
the orders are those of the places, and the fractions sum to at most one. A registry is taken from
exactly these sets (`exists_ofLanes_iff`), in whatever order the lanes come: it is the one valid
registry with these lanes (`ofLanes_eq_ok_iff`). A sum of fractions is never out of range, because
an order is a 32-bit word, so that there are not enough places for so many fractions.
-/

namespace LaneAuction

/-! ### One lane -/

/-- What can be said of a lane on its own. -/
structure Lane.WellFormed (lane : Lane) : Prop where
  nonempty : lane.id ≠ ""
  length : lane.id.utf8ByteSize ≤ 32
  alphabet : ∀ c ∈ lane.id.toList, 'a' ≤ c ∧ c ≤ 'z' ∨ '0' ≤ c ∧ c ≤ '9' ∨ c = '_' ∨ c = '-'
  fraction : lane.fraction.atomics.toNat ≤ Decimal.scale

/-- The characters of an id are lower-case letters, digits, the underscore and the hyphen. -/
private theorem Lane.isIdChar_iff {c : Char} :
    isIdChar c ↔ 'a' ≤ c ∧ c ≤ 'z' ∨ '0' ≤ c ∧ c ≤ '9' ∨ c = '_' ∨ c = '-' := by
  have hlower : c.isLower = (decide ('a' ≤ c) && decide (c ≤ 'z')) := rfl
  simp [isIdChar, hlower, Char.isDigit, Char.le_def, or_assoc]

/-- What is wrong with one lane is never a sum. -/
theorem Lane.validate_ne_overflow (lane : Lane) : lane.validate ≠ .error .fractionsOverflow := by
  simp only [validate, Except.throw_eq_error, Except.error_bind]
  split_ifs <;> simp

/-- A lane passes the check if and only if it is well formed. -/
theorem Lane.validate_eq_ok_iff {lane : Lane} : lane.validate = .ok () ↔ lane.WellFormed := by
  simp only [validate, Except.check_eq_ok_iff, Except.last_check_eq_ok_iff, maxIdLength,
    Bool.not_eq_true', Bool.not_eq_false, String.isEmpty_iff, Nat.not_lt, List.all_eq_true,
    Decimal.isFraction, decide_eq_true_eq, isIdChar_iff]
  constructor
  · intro h
    obtain ⟨hempty, hlength, halphabet, hfraction⟩ := h
    exact ⟨hempty, hlength, halphabet, hfraction⟩
  · intro h
    exact ⟨h.nonempty, h.length, h.alphabet, h.fraction⟩

namespace Registry

variable {r r' : Registry} {lanes lanes' : List Lane}

/-! ### Sums of fractions -/

/-- The sum is that of the fractions in units. -/
private theorem sumOfFractions_eq (lanes : List Lane) :
    sumOfFractions lanes = (lanes.map fun lane => lane.fraction.atomics.toNat).sum := by
  rw [sumOfFractions, List.sum_eq_foldl, List.foldl_map]

/-- Fractions of at most one sum to at most their number. -/
private theorem sum_fractions_le (h : ∀ lane ∈ lanes, lane.fraction.atomics.toNat ≤ Decimal.scale) :
    (lanes.map fun lane => lane.fraction.atomics.toNat).sum ≤ lanes.length * Decimal.scale := by
  induction lanes with
  | nil => simp
  | cons lane lanes ih =>
    obtain ⟨hlane, hlanes⟩ := List.forall_mem_cons.mp h
    have hrest := ih hlanes
    simp only [List.map_cons, List.sum_cons, List.length_cons, Nat.add_mul]
    omega

/-- The fractions pass the check if and only if their sum is at most one. -/
theorem checkFractions_eq_ok_iff : checkFractions lanes = .ok () ↔
    (lanes.map fun lane => lane.fraction.atomics.toNat).sum ≤ Decimal.scale := by
  have hscale : Decimal.scale < 0x1_00000000_00000000_00000000_00000000 := by decide
  rw [checkFractions, sumOfFractions_eq, Decimal.ofAtomics?, Amount.ofNat?]
  split
  · next hnone =>
    -- What is out of range is above one.
    split at hnone
    · cases hnone
    · simp only [reduceCtorEq, false_iff]
      omega
  · next sum hsum =>
    split at hsum
    · obtain rfl := Option.some.inj hsum
      simp [Decimal.isFraction]
    · cases hsum

/-- There are not as many lanes as it takes for their fractions to be out of range. -/
theorem checkFractions_ne_overflow
    (h : ∀ lane ∈ lanes, lane.fraction.atomics.toNat ≤ Decimal.scale)
    (hlength : lanes.length ≤ UInt32.size + 1) :
    checkFractions lanes ≠ .error .fractionsOverflow := by
  have hrange : (UInt32.size + 1) * Decimal.scale < 0x1_00000000_00000000_00000000_00000000 := by
    decide
  have hsum := Nat.lt_of_le_of_lt
    (Nat.le_trans (sum_fractions_le h) (Nat.mul_le_mul_right _ hlength)) hrange
  rw [checkFractions, sumOfFractions_eq, Decimal.ofAtomics?, Amount.ofNat?, dif_pos hsum]
  simp only [Option.map_some]
  split <;> simp

/-- The check of each lane never reports an overflow of the sum. -/
private theorem checkEach_ne_overflow (seen : List String) (lanes : List Lane) :
    checkEach seen lanes ≠ .error .fractionsOverflow := by
  induction lanes generalizing seen with
  | nil => simp [checkEach]
  | cons lane lanes ih =>
    rw [checkEach]
    cases hlane : lane.validate with
    | error fault =>
      intro h
      exact lane.validate_ne_overflow (hlane.trans h)
    | ok _ =>
      rw [Except.ok_bind]
      split
      · simp
      · exact ih (lane.id :: seen)

/-- A word has a place for each of its values. -/
theorem length_le_of_areContiguous (h : areContiguous (lanes.map Lane.order)) :
    lanes.length ≤ UInt32.size := by
  have horders := areContiguous_iff.mp h
  rw [List.length_map] at horders
  by_contra hmore
  have hmem : UInt32.size ∈ List.range lanes.length := List.mem_range.mpr (Nat.not_le.mp hmore)
  rw [← horders] at hmem
  obtain ⟨order, -, heq⟩ := List.mem_map.mp hmem
  exact Nat.lt_irrefl _ (heq ▸ order.toNat_lt)

/-! ### A set of lanes -/

/-- What a chain can start from, in whatever order the lanes come. -/
structure WellFormed (lanes : List Lane) : Prop where
  each : ∀ lane ∈ lanes, lane.WellFormed
  ids : (lanes.map Lane.id).Nodup
  orders : (lanes.map fun lane => lane.order.toNat).Perm (List.range lanes.length)
  fractions : (lanes.map fun lane => lane.fraction.atomics.toNat).sum ≤ Decimal.scale

/-- Lanes in another order are as well formed. -/
theorem WellFormed.perm (h : WellFormed lanes) (hperm : lanes.Perm lanes') :
    WellFormed lanes' where
  each lane hlane := h.each lane (hperm.mem_iff.mpr hlane)
  ids := (hperm.map Lane.id).nodup_iff.mp h.ids
  orders := by
    have horders := (hperm.map fun lane => lane.order.toNat).symm.trans h.orders
    rwa [hperm.length_eq] at horders
  fractions := by
    rw [← (hperm.map fun lane => lane.fraction.atomics.toNat).sum_nat]
    exact h.fractions

/-- A valid registry holds a well-formed set of lanes, each at the place that its order says. -/
theorem valid_iff : r.Valid ↔
    WellFormed r.lanes ∧
      (r.lanes.map fun lane => lane.order.toNat) = List.range r.lanes.length := by
  have horders : areContiguous (r.lanes.map Lane.order) ↔
      (r.lanes.map fun lane => lane.order.toNat) = List.range r.lanes.length := by
    rw [areContiguous_iff, List.map_map, List.length_map]
    rfl
  constructor
  · intro h
    have hplaces := horders.mp h.orders
    refine ⟨⟨?_, h.ids, ?_, checkFractions_eq_ok_iff.mp h.fractions⟩, hplaces⟩
    · exact fun lane hlane => Lane.validate_eq_ok_iff.mp (h.lanes lane hlane)
    · rw [hplaces]
  · intro h
    obtain ⟨hwell, hplaces⟩ := h
    exact ⟨fun lane hlane => Lane.validate_eq_ok_iff.mpr (hwell.each lane hlane), hwell.ids,
      horders.mpr hplaces, checkFractions_eq_ok_iff.mpr hwell.fractions⟩

/-- Sorting brings the lanes of a well-formed set to their places. -/
private theorem WellFormed.valid_sorted (h : WellFormed lanes) : Valid ⟨sorted lanes⟩ := by
  have hperm : (sorted lanes).Perm lanes := List.mergeSort_perm lanes _
  have hsorted : (sorted lanes).Pairwise fun a b => decide (a.order ≤ b.order) := by
    apply List.pairwise_mergeSort
    · intro a b c hab hbc
      simp only [decide_eq_true_eq, UInt32.le_iff_toNat_le] at *
      exact Nat.le_trans hab hbc
    · intro a b
      simp only [Bool.or_eq_true, decide_eq_true_eq, UInt32.le_iff_toNat_le]
      exact Nat.le_total _ _
  have horders : ((sorted lanes).map fun lane => lane.order.toNat).Pairwise (· ≤ ·) :=
    List.pairwise_map.mpr
      (hsorted.imp fun hle => UInt32.le_iff_toNat_le.mp (of_decide_eq_true hle))
  have hplaces : (List.range (sorted lanes).length).Pairwise (· ≤ ·) :=
    List.pairwise_lt_range.imp Nat.le_of_lt
  have hwell := h.perm hperm.symm
  -- Two sorted lists with the same elements are the same.
  exact valid_iff.mpr ⟨hwell, List.Perm.eq_of_pairwise (fun a b _ _ => Nat.le_antisymm)
    horders hplaces hwell.orders⟩

/-- Two valid registries with the same lanes are the same. -/
theorem Valid.eq_of_perm (hr : r.Valid) (hr' : r'.Valid) (hperm : r.lanes.Perm r'.lanes) :
    r = r' := by
  have hsorted : ∀ {r : Registry}, r.Valid →
      r.lanes.Pairwise fun a b => a.order.toNat < b.order.toNat := by
    intro r hr
    apply List.pairwise_map.mp
    rw [(valid_iff.mp hr).2]
    exact List.pairwise_lt_range
  have hlanes : r.lanes = r'.lanes := by
    apply List.Perm.eq_of_pairwise ?_ (hsorted hr) (hsorted hr') hperm
    intro a b _ _ hab hba
    omega
  obtain ⟨lanes⟩ := r
  obtain ⟨lanes'⟩ := r'
  exact congrArg Registry.mk hlanes

/-- What is taken from a set of lanes is the valid registry that has these lanes. -/
theorem ofLanes_eq_ok_iff : ofLanes lanes = .ok r ↔ r.Valid ∧ r.lanes.Perm lanes := by
  have hperm : (sorted lanes).Perm lanes := List.mergeSort_perm lanes _
  constructor
  · intro h
    refine ⟨valid_of_ofLanes h, ?_⟩
    simp only [ofLanes, Except.bind_eq_ok_iff, Except.check_eq_ok_iff, Except.pure_eq_ok,
      Except.ok.injEq] at h
    obtain ⟨_, -, -, _, -, rfl⟩ := h
    exact hperm
  · intro h
    obtain ⟨hr, hlanes⟩ := h
    have hwell := (valid_iff.mp hr).1.perm hlanes
    have hsorted := hwell.valid_sorted
    have heach : checkEach [] lanes = .ok () := by
      refine checkEach_eq_ok_iff.mpr ⟨fun lane hlane => ?_, hwell.ids, by simp⟩
      exact Lane.validate_eq_ok_iff.mpr (hwell.each lane hlane)
    rw [hr.eq_of_perm hsorted (hlanes.trans hperm.symm)]
    simp only [ofLanes, heach, hsorted.orders, hsorted.fractions, Except.ok_bind, Bool.not_true]
    rfl

/-- Lanes make a registry if and only if they are well formed. -/
theorem exists_ofLanes_iff : (∃ r, ofLanes lanes = .ok r) ↔ WellFormed lanes := by
  constructor
  · intro h
    obtain ⟨r, h⟩ := h
    obtain ⟨hr, hperm⟩ := ofLanes_eq_ok_iff.mp h
    exact (valid_iff.mp hr).1.perm hperm
  · intro h
    exact ⟨_, ofLanes_eq_ok_iff.mpr ⟨h.valid_sorted, List.mergeSort_perm lanes _⟩⟩

/-- The order in which lanes come makes no difference. -/
theorem toOption_ofLanes_perm (h : lanes.Perm lanes') :
    (ofLanes lanes').toOption = (ofLanes lanes).toOption := by
  have hiff : ∀ r, ofLanes lanes' = .ok r ↔ ofLanes lanes = .ok r := by
    intro r
    rw [ofLanes_eq_ok_iff, ofLanes_eq_ok_iff]
    exact and_congr_right fun _ => ⟨fun hr => hr.trans h.symm, fun hr => hr.trans h⟩
  cases hlanes : ofLanes lanes with
  | ok r => rw [(hiff r).mpr hlanes]
  | error fault =>
    cases hlanes' : ofLanes lanes' with
    | ok r =>
      have hok := (hiff r).mp hlanes'
      rw [hlanes] at hok
      exact nomatch hok
    | error fault' => rfl

/-- The fractions of lanes with orders of their own are never so many that their sum is out of
range. -/
theorem ofLanes_ne_overflow (lanes : List Lane) : ofLanes lanes ≠ .error .fractionsOverflow := by
  intro h
  cases heach : checkEach [] lanes with
  | error fault =>
    rw [ofLanes, heach, Except.error_bind, Except.error.injEq] at h
    exact checkEach_ne_overflow [] lanes (h ▸ heach)
  | ok _ =>
    obtain ⟨hvalid, -, -⟩ := checkEach_eq_ok_iff.mp heach
    simp only [ofLanes, heach, Except.ok_bind] at h
    split at h
    · simp at h
    · next horders =>
      -- There are at most as many lanes as orders, and each share is one at most.
      cases hfractions : checkFractions (sorted lanes) with
      | ok _ => simp [hfractions] at h
      | error fault =>
        rw [hfractions] at h
        obtain rfl := Except.error.inj h
        refine checkFractions_ne_overflow ?_ ?_ hfractions
        · intro lane hlane
          have hlane := (List.mergeSort_perm lanes _).mem_iff.mp hlane
          exact (Lane.validate_eq_ok_iff.mp (hvalid lane hlane)).fraction
        · -- Each lane has an order of its own.
          have hlength : (sorted lanes).length ≤ UInt32.size :=
            length_le_of_areContiguous (by simpa using horders)
          omega

/-- The lanes that a chain has by default. -/
theorem ofLanes_default : ofLanes Genesis.default.lanes = .ok ⟨Genesis.default.lanes⟩ := by
  apply Valid.ofLanes_eq
  constructor <;> decide

end Registry

end LaneAuction
