import LaneAuction.Config
import LaneAuction.Proofs.Except
import Mathlib.Data.List.Nodup

/-!
# The ids of registered lanes

No two lanes of a registry have one id, whatever set of lanes it is started from and however it is
changed. So a kind of lane is bound to one lane at most.
-/

namespace LaneAuction

namespace Registry

variable {r r' : Registry} {lanes : List Lane} {lane : Lane} {authority caller : Address}

/-- Each lane passes the check if all are valid and their ids are new and distinct. -/
theorem checkEach_eq_ok_iff {seen : List String} : checkEach seen lanes = .ok () ↔
    (∀ lane ∈ lanes, lane.validate = .ok ()) ∧ (lanes.map Lane.id).Nodup ∧
      ∀ lane ∈ lanes, lane.id ∉ seen := by
  induction lanes generalizing seen with
  | nil => simp [checkEach]
  | cons lane lanes ih =>
    simp only [checkEach, Except.bind_eq_ok_iff, Except.check_eq_ok_iff, ih]
    constructor
    · intro h
      obtain ⟨_, hlane, hseen, hlanes, hids⟩ := h
      have hseen : lane.id ∉ seen := by simpa using hseen
      exact ⟨List.forall_mem_cons.mpr ⟨hlane, hlanes⟩,
        List.nodup_map_cons_and_new_iff.mpr ⟨hseen, hids⟩⟩
    · intro h
      obtain ⟨hvalid, hids⟩ := h
      obtain ⟨hlane, hlanes⟩ := List.forall_mem_cons.mp hvalid
      obtain ⟨hseen, hids⟩ := List.nodup_map_cons_and_new_iff.mp hids
      exact ⟨(), hlane, by simpa using hseen, hlanes, hids⟩

/-- No two lanes of a registry from a genesis have one id. -/
theorem nodup_ids_of_ofLanes (h : ofLanes lanes = .ok r) : (r.lanes.map Lane.id).Nodup := by
  simp only [ofLanes, Except.bind_eq_ok_iff, Except.check_eq_ok_iff, Except.pure_eq_ok,
    Except.ok.injEq] at h
  obtain ⟨_, hcheck, -, _, -, rfl⟩ := h
  have hnodup := (checkEach_eq_ok_iff.mp hcheck).2.1
  exact ((List.mergeSort_perm lanes _).map Lane.id).nodup_iff.mpr hnodup

/-- Registering a lane keeps ids distinct. -/
theorem nodup_ids_of_register (h : r.register authority caller lane = .ok r')
    (hr : (r.lanes.map Lane.id).Nodup) : (r'.lanes.map Lane.id).Nodup := by
  simp only [register, Except.bind_eq_ok_iff, Except.check_eq_ok_iff, Except.pure_eq_ok,
    Except.ok.injEq] at h
  obtain ⟨_, -, _, -, hnew, -, _, -, rfl⟩ := h
  have hnew : ∀ old ∈ r.lanes, ¬ old.id = lane.id := by simpa [find?] using hnew
  rw [List.map_append, List.nodup_append]
  refine ⟨hr, List.nodup_singleton _, ?_⟩
  intro id hid id' hid' heq
  obtain ⟨old, hold, rfl⟩ := List.mem_map.mp hid
  rw [List.map_singleton, List.mem_singleton] at hid'
  exact hnew old hold (heq.trans hid')

/-- Updating a lane keeps ids distinct. -/
theorem nodup_ids_of_update (h : r.update authority caller lane = .ok r')
    (hr : (r.lanes.map Lane.id).Nodup) : (r'.lanes.map Lane.id).Nodup := by
  simp only [update, Except.bind_eq_ok_iff, Except.check_eq_ok_iff, Except.pure_eq_ok,
    Except.ok.injEq] at h
  obtain ⟨_, -, _, -, _, -, -, _, -, rfl⟩ := h
  have hsame : ∀ old : Lane, (if old.id = lane.id then lane else old).id = old.id := by
    intro old
    split
    · next heq => exact heq.symm
    · rfl
  rw [List.map_map]
  have hids : (Lane.id ∘ fun old => if old.id = lane.id then lane else old) = Lane.id :=
    funext hsame
  rwa [hids]

end Registry

namespace Config

variable {c : Config} {id id' : String} {kind : LaneKind}

/-- A kind is bound to the id of that kind. -/
private theorem eq_laneId_of_kindOf? (h : c.kindOf? id = some kind) : id = c.laneId kind := by
  unfold kindOf? at h
  split at h
  · next heq => cases h; exact heq
  split at h
  · next heq => cases h; exact heq
  split at h
  · next heq => cases h; exact heq
  · exact nomatch h

/-- An id is bound to at most one kind of lane, and a kind to one id. -/
theorem kindOf?_inj (h : c.kindOf? id = some kind) (h' : c.kindOf? id' = some kind) : id = id' := by
  rw [eq_laneId_of_kindOf? h, eq_laneId_of_kindOf? h']

/-- Where no two kinds of lanes share an id, a kind is bound to its own. -/
theorem kindOf?_eq_some_iff (hids : [c.auction.id, c.free.id, c.base.id].Nodup) :
    c.kindOf? id = some kind ↔ id = c.laneId kind := by
  refine ⟨eq_laneId_of_kindOf?, ?_⟩
  rintro rfl
  simp only [List.nodup_cons, List.mem_cons, List.not_mem_nil, or_false, not_or] at hids
  obtain ⟨⟨hfree, hbase⟩, hbase', -⟩ := hids
  cases kind with
  | auction => rw [kindOf?, laneId, if_pos rfl]
  | free => rw [kindOf?, laneId, if_neg (Ne.symm hfree), if_pos rfl]
  | base => rw [kindOf?, laneId, if_neg (Ne.symm hbase), if_neg (Ne.symm hbase'), if_pos rfl]

end Config

end LaneAuction
