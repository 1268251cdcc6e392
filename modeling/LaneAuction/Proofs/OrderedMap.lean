import Mathlib.Data.List.Perm.Subperm
import Std.Data.ExtTreeMap

/-!
# Values of ordered maps

The values of an ordered map come in the order of their keys. What is read off the map at every key
is therefore known of every value (`mem_values_iff`), and a relation that follows the order of the
keys holds along the list of values (`pairwise_values`).
-/

namespace Std.ExtTreeMap

variable {α β : Type} {cmp : α → α → Ordering} [TransCmp cmp] {m : ExtTreeMap α β cmp}

/-- The values of a map are those of its entries, in order. -/
private theorem values_eq_map_snd : m.values = m.toList.map Prod.snd := by
  have hfold : m.values = m.foldr (fun _ v l => v :: l) [] := by
    rcases m with ⟨⟨m⟩⟩
    rfl
  rw [hfold, foldr_eq_foldr_toList]
  induction m.toList with
  | nil => rfl
  | cons entry rest ih => rw [List.foldr_cons, ih, List.map_cons]

/-- A list of keys without repetitions is at most as long as the map is large. -/
theorem length_le_size [LawfulEqCmp cmp] {ks : List α} (hnodup : ks.Nodup)
    (hks : ∀ k ∈ ks, k ∈ m) : ks.length ≤ m.size := by
  have hsub : ks ⊆ m.keys := fun k hk => mem_keys.mpr (hks k hk)
  rw [← length_keys]
  exact (List.subperm_of_subset hnodup hsub).length_le

variable [LawfulEqCmp cmp]

/-- The values of a map are those of its keys. -/
theorem mem_values_iff {v : β} : v ∈ m.values ↔ ∃ k : α, m[k]? = some v := by
  simp only [values_eq_map_snd, List.mem_map, Prod.exists, exists_eq_right,
    mem_toList_iff_getElem?_eq_some]

/-- Erasing a key and inserting what it had gives the map as it was. -/
theorem insert_erase {k : α} {v : β} (h : m[k]? = some v) : (m.erase k).insert k v = m := by
  apply ext_getElem?
  intro k'
  rw [getElem?_insert, getElem?_erase]
  split
  · next heq => rw [← LawfulEqCmp.eq_of_compare heq, h]
  · rfl

/-- A relation that holds between the values of any two keys in order holds along the values. -/
theorem pairwise_values {R : β → β → Prop}
    (h : ∀ (k k' : α) (v v' : β), m[k]? = some v → m[k']? = some v' → cmp k k' = .lt → R v v') :
    m.values.Pairwise R := by
  rw [values_eq_map_snd, List.pairwise_map]
  refine ordered_keys_toList.imp_of_mem ?_
  intro a b ha hb hlt
  exact h a.1 b.1 a.2 b.2 (mem_toList_iff_getElem?_eq_some.mp ha)
    (mem_toList_iff_getElem?_eq_some.mp hb) hlt

end Std.ExtTreeMap
