import LaneAuction.Proofs.Lane.Genesis

/-!
# Changing the lanes

Lanes are added and their fractions changed by calls, of which anyone may make any. What a call does
to a valid registry is said exactly: the authority may put a lane behind all others or change the
fraction of one, wherever the lanes are well formed afterwards (`Valid.register_eq_ok_iff`,
`Valid.update_eq_ok_iff`), and nobody may do anything else. So a registry is valid after any calls
(`Valid.after`).
-/

namespace LaneAuction

/-- The authority is authorized, and nobody else. -/
theorem authorize_eq_ok_iff {authority caller : Address} :
    authorize authority caller = .ok () ↔ caller = authority := by
  rw [authorize]
  split <;> simp_all

/-- Everybody else is refused as unauthorized. -/
theorem authorize_of_ne {authority caller : Address} (h : caller ≠ authority) :
    authorize authority caller = .error (.unauthorized caller) := if_neg h

/-- Who calls has nothing to do with faults of a lane. -/
private theorem authorize_ne_lane {authority caller : Address} {fault : LaneFault} :
    authorize authority caller ≠ .error (.lane fault) := by
  rw [authorize]
  split <;> simp

namespace Registry

/-- A call that changes the lanes. -/
inductive Change where
  | register (authority caller : Address) (lane : Lane)
  | update (authority caller : Address) (lane : Lane)

namespace Change

/-- The one who may change the lanes. -/
def authority : Change → Address
  | register authority _ _ => authority
  | update authority _ _ => authority

/-- The one who asks for the change. -/
def caller : Change → Address
  | register _ caller _ => caller
  | update _ caller _ => caller

/-- The registry that a call asks for, or why it is refused. -/
def run (r : Registry) : Change → Except GovernanceError Registry
  | register authority caller lane => r.register authority caller lane
  | update authority caller lane => r.update authority caller lane

/-- The registry after a call; one that is refused changes nothing. -/
def apply (r : Registry) (change : Change) : Registry := (change.run r).toOption.getD r

end Change

/-- The registry that calls lead to. -/
def after (r : Registry) (changes : List Change) : Registry := changes.foldl Change.apply r

variable {r r' : Registry} {lane : Lane} {authority caller : Address}

/-! ### What a call does -/

/-- Nobody but the authority registers a lane, whatever is wrong with the lane. -/
theorem register_of_ne (h : caller ≠ authority) :
    r.register authority caller lane = .error (.unauthorized caller) := by
  rw [register, authorize_of_ne h, Except.error_bind]

/-- Nobody but the authority updates a lane, whatever is wrong with the lane. -/
theorem update_of_ne (h : caller ≠ authority) :
    r.update authority caller lane = .error (.unauthorized caller) := by
  rw [update, authorize_of_ne h, Except.error_bind]

/-- The lane with another fraction. -/
def withFraction (id : String) (fraction : Decimal) (lane : Lane) : Lane :=
  if lane.id = id then { lane with fraction } else lane

/-- The authority adds a lane behind all others if the lanes are well formed with it. -/
theorem Valid.register_eq_ok_iff (hr : r.Valid) : r.register authority caller lane = .ok r' ↔
    caller = authority ∧ r'.lanes = r.lanes ++ [lane] ∧ r'.Valid := by
  constructor
  · intro h
    have hr' := hr.register h
    simp only [Registry.register, Except.bind_eq_ok_iff, Except.check_eq_ok_iff,
      Except.mapError_eq_ok_iff, Except.pure_eq_ok, Except.ok.injEq] at h
    obtain ⟨_, hcaller, _, -, -, -, _, -, rfl⟩ := h
    exact ⟨authorize_eq_ok_iff.mp hcaller, rfl, hr'⟩
  · intro h
    obtain ⟨rfl, hlanes, hr'⟩ := h
    obtain ⟨lanes'⟩ := r'
    obtain rfl : lanes' = r.lanes ++ [lane] := hlanes
    have hlane : lane.validate = .ok () := hr'.lanes lane (by simp)
    -- The result is valid, so no lane in front has the new id.
    have hnew : r.find? lane.id = none := by
      have hids := hr'.ids
      rw [List.map_append, List.nodup_append] at hids
      rw [find?, List.find?_eq_none]
      intro old hold heq
      exact hids.2.2 old.id (List.mem_map_of_mem hold) lane.id (by simp) (by simpa using heq)
    -- Lanes are numbered without gaps, so the last one has the number of those in front.
    have horder : lane.order.toNat = r.lanes.length := by
      have hplaces := (valid_iff.mp hr').2
      have hlast := congrArg List.getLast? hplaces
      simpa [List.range_succ] using hlast
    have hfractions : checkFractions (r.lanes ++ [lane]) = .ok () := hr'.fractions
    simp [Registry.register, authorize_eq_ok_iff.mpr, hlane, hnew, horder, hfractions]

/-- The lane with an id is the one that is found under it. -/
private theorem Valid.find?_eq_some_iff {id : String} {old : Lane} (hr : r.Valid) :
    r.find? id = some old ↔ old ∈ r.lanes ∧ old.id = id := by
  constructor
  · intro h
    exact ⟨List.mem_of_find?_eq_some h, by simpa using List.find?_some h⟩
  · intro h
    obtain ⟨hold, rfl⟩ := h
    cases hfind : r.find? old.id with
    | none =>
      have hnone := List.find?_eq_none.mp hfind old hold
      simp at hnone
    | some found =>
      have hfound : found.id = old.id := by simpa using List.find?_some hfind
      rw [List.inj_on_of_nodup_map hr.ids (List.mem_of_find?_eq_some hfind) hold hfound]

/-- Putting in a lane under the id and the order of an old one changes the fraction of that lane. -/
private theorem Valid.map_replace_eq {old : Lane} (hr : r.Valid) (hold : old ∈ r.lanes)
    (hid : old.id = lane.id) (horder : old.order = lane.order) :
    (r.lanes.map fun other => if other.id = lane.id then lane else other) =
      r.lanes.map (withFraction lane.id lane.fraction) := by
  apply List.map_congr_left
  intro other hother
  rw [withFraction]
  split
  · next heq =>
    obtain rfl := List.inj_on_of_nodup_map hr.ids hother hold (heq.trans hid.symm)
    obtain ⟨id, fraction, order⟩ := lane
    simp_all
  · rfl

/-- The authority changes the fraction of a lane, named with its order, if the lanes are well formed
with it. -/
theorem Valid.update_eq_ok_iff (hr : r.Valid) : r.update authority caller lane = .ok r' ↔
    caller = authority ∧ (∃ old ∈ r.lanes, old.id = lane.id ∧ old.order = lane.order) ∧
      r'.lanes = r.lanes.map (withFraction lane.id lane.fraction) ∧ r'.Valid := by
  constructor
  · intro h
    have hr' := hr.update h
    simp only [Registry.update, Registry.get, Except.bind_eq_ok_iff, Except.check_eq_ok_iff,
      Except.mapError_eq_ok_iff, Except.pure_eq_ok, Except.ok.injEq] at h
    obtain ⟨_, hcaller, _, -, old, hold, horder, _, -, rfl⟩ := h
    -- Only a lane that is registered is updated.
    split at hold
    · next hfind =>
      obtain rfl := Except.ok.inj hold
      obtain ⟨hmem, hid⟩ := hr.find?_eq_some_iff.mp hfind
      have horder := Decidable.not_not.mp horder
      exact ⟨authorize_eq_ok_iff.mp hcaller, ⟨_, hmem, hid, horder⟩,
        hr.map_replace_eq hmem hid horder, hr'⟩
    · cases hold
  · intro h
    obtain ⟨rfl, ⟨old, hmem, hid, horder⟩, hlanes, hr'⟩ := h
    obtain ⟨lanes'⟩ := r'
    obtain rfl : lanes' = r.lanes.map (withFraction lane.id lane.fraction) := hlanes
    -- The id is registered, and under one lane only.
    have hfind : r.find? lane.id = some old := hr.find?_eq_some_iff.mpr ⟨hmem, hid⟩
    -- The lane that is asked for is the one that is in force afterwards, and that one is valid.
    have hlane : lane.validate = .ok () := by
      apply hr'.lanes
      refine List.mem_map.mpr ⟨old, hmem, ?_⟩
      obtain ⟨id, fraction, order⟩ := lane
      simp_all [withFraction]
    have hfractions : checkFractions (r.lanes.map (withFraction lane.id lane.fraction)) = .ok () :=
      hr'.fractions
    simp [Registry.update, Registry.get, authorize_eq_ok_iff.mpr, hlane, hfind, horder,
      hr.map_replace_eq hmem hid horder, hfractions]

/-! ### What no call answers -/

/-- A valid registry has at most as many lanes as there are orders. -/
private theorem Valid.length_le (hr : r.Valid) : r.lanes.length ≤ UInt32.size :=
  length_le_of_areContiguous hr.orders

/-- No fraction of a valid registry is above one, since their sum is not. -/
theorem Valid.fraction_le (hr : r.Valid) :
    ∀ lane ∈ r.lanes, lane.fraction.atomics.toNat ≤ Decimal.scale :=
  fun lane hlane => ((valid_iff.mp hr).1.each lane hlane).fraction

/-- A lane whose fraction is looked at behind its own check has a fraction of at most one. -/
private theorem fraction_le_of_mapError (h : lane.validate.mapError GovernanceError.lane = .ok ()) :
    lane.fraction.atomics.toNat ≤ Decimal.scale :=
  (Lane.validate_eq_ok_iff.mp (Except.mapError_eq_ok_iff.mp h)).fraction

/-- The sum of fractions never overflows when a lane is registered: all terms are at most one. -/
theorem Valid.register_ne_overflow (hr : r.Valid) :
    r.register authority caller lane ≠ .error (.lane .fractionsOverflow) := by
  intro h
  simp only [Registry.register, Except.bind_eq_error_iff, Except.check_eq_error_iff,
    Except.mapError_eq_error_iff, Except.pure_eq_ok, GovernanceError.lane.injEq, reduceCtorEq,
    and_false, false_or, or_false, exists_const] at h
  obtain hcaller | ⟨_, -, ⟨fault, hfault, rfl⟩ | ⟨_, hlane, -, -, fault, hfault, rfl⟩⟩ := h
  · exact authorize_ne_lane hcaller
  · exact lane.validate_ne_overflow hfault
  · refine checkFractions_ne_overflow ?_ ?_ hfault
    · exact List.forall_mem_append.mpr
        ⟨hr.fraction_le, List.forall_mem_singleton.mpr (fraction_le_of_mapError hlane)⟩
    · have hlength := hr.length_le
      rw [List.length_append, List.length_singleton]
      omega

/-- Looking up a lane finds no fault with one. -/
private theorem get_ne_lane {id : String} {fault : LaneFault} :
    r.get id ≠ .error (.lane fault) := by
  rw [get]
  split <;> simp

/-- The sum of fractions never overflows when a lane is updated: all terms are at most one. -/
theorem Valid.update_ne_overflow (hr : r.Valid) :
    r.update authority caller lane ≠ .error (.lane .fractionsOverflow) := by
  intro h
  simp only [Registry.update, Except.bind_eq_error_iff, Except.check_eq_error_iff,
    Except.mapError_eq_error_iff, Except.pure_eq_ok, GovernanceError.lane.injEq, reduceCtorEq,
    and_false, false_or, or_false, exists_const] at h
  -- Neither the caller, the lane nor the lookup has an overflow to report; the sum of the shares is
  -- left.
  obtain hcaller | ⟨_, -, ⟨fault, hfault, rfl⟩ |
    ⟨_, hlane, hget | ⟨stored, -, -, fault, hfault, rfl⟩⟩⟩ := h
  · exact authorize_ne_lane hcaller
  · exact lane.validate_ne_overflow hfault
  · exact get_ne_lane hget
  · refine checkFractions_ne_overflow ?_ ?_ hfault
    · intro other hother
      obtain ⟨old, hold, rfl⟩ := List.mem_map.mp hother
      split
      · exact fraction_le_of_mapError hlane
      · exact hr.fraction_le old hold
    · have hlength := hr.length_le
      rw [List.length_map]
      omega

/-! ### Any calls -/

/-- A change that succeeds leads to the registry that it returns. -/
private theorem Change.apply_of_ok {change : Change} (h : change.run r = .ok r') :
    change.apply r = r' := by
  rw [apply, h]
  rfl

/-- A change that fails leaves the registry as it was. -/
private theorem Change.apply_of_error {change : Change} {cause : GovernanceError}
    (h : change.run r = .error cause) : change.apply r = r := by
  rw [apply, h]
  rfl

/-- A change keeps a registry valid, whether it succeeds or not. -/
theorem Valid.apply (hr : r.Valid) (change : Change) : (change.apply r).Valid := by
  cases h : change.run r with
  | error cause => rwa [Change.apply_of_error h]
  | ok r' =>
    rw [Change.apply_of_ok h]
    cases change with
    | register authority caller lane => exact hr.register h
    | update authority caller lane => exact hr.update h

/-- Changes keep a registry valid. -/
theorem Valid.after (hr : r.Valid) (changes : List Change) : (r.after changes).Valid := by
  induction changes generalizing r with
  | nil => exact hr
  | cons change changes ih => exact ih (hr.apply change)

/-- What a registry is and what calls do to it: its lanes are a well-formed set in their places,
only the authority changes them, and only in the ways that are named. -/
structure Governed (r : Registry) : Prop where
  wellFormed : WellFormed r.lanes
  places : ∀ (i : Nat) (lane : Lane), r.lanes[i]? = some lane → lane.order.toNat = i
  restored : ofLanes r.lanes = .ok r
  unauthorized : ∀ change : Change, change.caller ≠ change.authority →
    change.run r = .error (.unauthorized change.caller)
  unchanged : ∀ (change : Change) (cause : GovernanceError), change.run r = .error cause →
    change.apply r = r
  inRange : ∀ change : Change, change.run r ≠ .error (.lane .fractionsOverflow)
  /-- A new lane is put behind all others, which stay as they are. -/
  registered : ∀ authority caller lane r', r.register authority caller lane = .ok r' →
    r'.lanes = r.lanes ++ [lane]
  /-- One lane has a new fraction, and all others stay as they are. -/
  updated : ∀ authority caller lane r', r.update authority caller lane = .ok r' →
    (∃ old ∈ r.lanes, old.id = lane.id ∧ old.order = lane.order) ∧
      r'.lanes = r.lanes.map (withFraction lane.id lane.fraction)

/-- The lanes of a valid registry are governed. -/
theorem Valid.governed (hr : r.Valid) : r.Governed := by
  obtain ⟨hwell, hplaces⟩ := valid_iff.mp hr
  constructor
  case wellFormed => exact hwell
  -- The orders are the places, counted from zero.
  case places =>
    intro i lane hlane
    have hplace := congrArg (·[i]?) hplaces
    obtain ⟨hi, rfl⟩ := List.getElem?_eq_some_iff.mp hlane
    simpa [hi] using hplace
  case restored => exact hr.ofLanes_eq
  case unauthorized =>
    intro change hcaller
    cases change with
    | register authority caller lane => exact register_of_ne hcaller
    | update authority caller lane => exact update_of_ne hcaller
  case unchanged => exact fun change cause h => Change.apply_of_error h
  -- A change adds or replaces one lane, and a valid registry has room for its share.
  case inRange =>
    intro change
    cases change with
    | register authority caller lane => exact hr.register_ne_overflow
    | update authority caller lane => exact hr.update_ne_overflow
  case registered =>
    intro authority caller lane r' h
    exact (hr.register_eq_ok_iff.mp h).2.1
  case updated =>
    intro authority caller lane r' h
    obtain ⟨-, hold, hlanes, -⟩ := hr.update_eq_ok_iff.mp h
    exact ⟨hold, hlanes⟩

end Registry

end LaneAuction
