import LaneAuction.Proofs.Lane.Registry

/-!
# What every registry keeps

A registry is valid if a chain could start from its lanes: each lane is well formed, no id comes
twice, the orders are `0, 1, 2, …` and the fractions sum to at most one. A registry that is taken
from lanes is valid, every change keeps it so, and the lanes of a valid registry give the very
registry back (`Valid.ofLanes_eq`).
-/

namespace LaneAuction

/-- A lane that passes the check has a fraction of at most one. -/
theorem Lane.isFraction_of_validate {lane : Lane} (h : lane.validate = .ok ()) :
    lane.fraction.isFraction := by
  simp only [validate, Except.check_eq_ok_iff, Except.last_check_eq_ok_iff] at h
  simpa using h.2.2.2

namespace Registry

variable {r r' : Registry} {lanes : List Lane} {lane : Lane} {authority caller : Address}

/-- What a chain can start from. -/
structure Valid (r : Registry) : Prop where
  lanes : ∀ lane ∈ r.lanes, lane.validate = .ok ()
  ids : (r.lanes.map Lane.id).Nodup
  orders : areContiguous (r.lanes.map Lane.order)
  fractions : checkFractions r.lanes = .ok ()

/-- Orders are contiguous if they count up from zero. -/
theorem areContiguous_iff {orders : List UInt32} :
    areContiguous orders ↔ orders.map UInt32.toNat = List.range orders.length := by
  rw [areContiguous, beq_iff_eq]

/-- Lanes of a genesis make a valid registry. -/
theorem valid_of_ofLanes (h : ofLanes lanes = .ok r) : r.Valid := by
  simp only [ofLanes, Except.bind_eq_ok_iff, Except.check_eq_ok_iff, Except.pure_eq_ok,
    Except.ok.injEq] at h
  obtain ⟨_, heach, horders, _, hfractions, rfl⟩ := h
  obtain ⟨hvalid, hids, -⟩ := checkEach_eq_ok_iff.mp heach
  have hperm : (sorted lanes).Perm lanes := List.mergeSort_perm lanes _
  constructor
  case lanes => exact fun lane hlane => hvalid lane (hperm.mem_iff.mp hlane)
  case ids => exact (hperm.map Lane.id).nodup_iff.mpr hids
  case orders => simpa using horders
  case fractions => exact hfractions

/-- The lanes of a valid registry are sorted by their orders. -/
private theorem Valid.sorted_eq (hr : r.Valid) : sorted r.lanes = r.lanes := by
  have horders := areContiguous_iff.mp hr.orders
  have hlt : (r.lanes.map Lane.order).Pairwise fun a b => a.toNat < b.toNat := by
    rw [← List.pairwise_map (f := UInt32.toNat), horders]
    exact List.pairwise_lt_range
  apply List.mergeSort_of_pairwise
  refine (List.pairwise_map.mp hlt).imp fun h => ?_
  exact decide_eq_true (UInt32.le_iff_toNat_le.mpr (Nat.le_of_lt h))

/-- A chain that starts from the lanes of a valid registry has that registry. -/
theorem Valid.ofLanes_eq (hr : r.Valid) : ofLanes r.lanes = .ok r := by
  have heach : checkEach [] r.lanes = .ok () :=
    checkEach_eq_ok_iff.mpr ⟨hr.lanes, hr.ids, by simp⟩
  simp only [ofLanes, heach, hr.sorted_eq, hr.orders, hr.fractions, Except.ok_bind, Bool.not_true]
  rfl

/-- Registering a lane keeps a registry valid. -/
theorem Valid.register (hr : r.Valid) (h : r.register authority caller lane = .ok r') :
    r'.Valid := by
  have hids := nodup_ids_of_register h hr.ids
  simp only [Registry.register, Except.bind_eq_ok_iff, Except.check_eq_ok_iff,
    Except.mapError_eq_ok_iff, Except.pure_eq_ok, Except.ok.injEq] at h
  obtain ⟨_, -, _, hlane, -, horder, _, hfractions, rfl⟩ := h
  constructor
  case lanes => exact List.forall_mem_append.mpr ⟨hr.lanes, List.forall_mem_singleton.mpr hlane⟩
  case ids => exact hids
  case orders =>
    have horders := areContiguous_iff.mp hr.orders
    have hnext : lane.order.toNat = r.lanes.length := by simpa using horder
    rw [areContiguous_iff]
    simp only [List.map_append, List.length_append, List.length_map, List.map_cons, List.map_nil,
      List.length_singleton, List.range_succ] at horders ⊢
    rw [horders, hnext]
  case fractions => exact hfractions

/-- Updating a lane keeps a registry valid. -/
theorem Valid.update (hr : r.Valid) (h : r.update authority caller lane = .ok r') :
    r'.Valid := by
  have hids := nodup_ids_of_update h hr.ids
  simp only [Registry.update, Registry.get, Except.bind_eq_ok_iff, Except.check_eq_ok_iff,
    Except.mapError_eq_ok_iff, Except.pure_eq_ok, Except.ok.injEq] at h
  obtain ⟨_, -, _, hlane, stored, hstored, horder, _, hfractions, rfl⟩ := h
  -- The update was not refused, so the lane was found.
  have hfind : r.find? lane.id = some stored := by
    split at hstored
    · next heq => rw [heq, Except.ok.inj hstored]
    · cases hstored
  have horder : lane.order = stored.order := by simpa [eq_comm] using horder
  -- The lane that is replaced is the stored one, and its order stays.
  have hsame : ∀ old ∈ r.lanes, (if old.id = lane.id then lane else old).order = old.order := by
    intro old hold
    split
    · next hid =>
      have hmem := List.mem_of_find?_eq_some hfind
      have hstoredId : stored.id = lane.id := by simpa using List.find?_some hfind
      have heq : old = stored :=
        List.inj_on_of_nodup_map hr.ids hold hmem (hid.trans hstoredId.symm)
      rw [heq, horder]
    · rfl
  constructor
  case lanes =>
    intro lane' hlane'
    obtain ⟨old, hold, rfl⟩ := List.mem_map.mp hlane'
    split
    · exact hlane
    · exact hr.lanes old hold
  case ids => exact hids
  -- The orders are checked as a list, and the replaced lane is in the place of the old one.
  case orders =>
    have horders : (r.lanes.map fun old => if old.id = lane.id then lane else old).map Lane.order =
        r.lanes.map Lane.order := by
      rw [List.map_map]
      exact List.map_congr_left hsame
    simp only [horders]
    exact hr.orders
  case fractions => exact hfractions

end Registry

end LaneAuction
