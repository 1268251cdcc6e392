import LaneAuction.Pool.Arena
import LaneAuction.Proofs.OrderedMap

/-!
# Who holds a hash

The claims of the arena map a bundled hash to the pending bids that hold it. They are read through
`holders`, which is empty where there is no entry; as no entry is ever empty (`Tight`), the holders
determine the claims.

Claiming and releasing a whole bundle change the holders as a set: a hash that the bundle repeats
counts once (`mem_holders_foldl_claim`, `mem_holders_foldl_release`).
-/

namespace LaneAuction

namespace Arena

/-- The pending bids that hold a hash in their bundle. -/
def holders (claims : Std.ExtTreeMap Hash Hashes) (hash : Hash) : Hashes :=
  (claims[hash]?).getD ∅

/-- No hash is kept for which there are no holders. -/
def Tight (claims : Std.ExtTreeMap Hash Hashes) : Prop :=
  ∀ (hash : Hash) (bids : Hashes), claims[hash]? = some bids → bids ≠ ∅

/-- Tight claims are determined by the holders. -/
theorem Tight.ext {claims claims' : Std.ExtTreeMap Hash Hashes} (h : Tight claims)
    (h' : Tight claims')
    (hmem : ∀ hash bid, bid ∈ holders claims hash ↔ bid ∈ holders claims' hash) :
    claims = claims' := by
  apply Std.ExtTreeMap.ext_getElem?
  intro hash
  have heq : holders claims hash = holders claims' hash := Std.ExtTreeSet.ext_mem (hmem hash)
  -- An entry without holders is the same as none, but there are no empty entries.
  simp only [holders] at heq
  cases hc : claims[hash]? with
  | none =>
    cases hc' : claims'[hash]? with
    | none => rfl
    -- Only two entries are left, and these are their holders.
    | some bids' =>
      rw [hc, hc', Option.getD_none, Option.getD_some] at heq
      exact absurd heq.symm (h' hash bids' hc')
  | some bids =>
    cases hc' : claims'[hash]? with
    | none =>
      rw [hc, hc', Option.getD_none, Option.getD_some] at heq
      exact absurd heq (h hash bids hc)
    | some bids' =>
      rw [hc, hc', Option.getD_some, Option.getD_some] at heq
      rw [heq]

/-- A hash is claimed if it has a holder. -/
theorem Tight.contains_iff {claims : Std.ExtTreeMap Hash Hashes} (h : Tight claims) {hash : Hash} :
    claims.contains hash ↔ ∃ bid, bid ∈ holders claims hash := by
  rw [Std.ExtTreeMap.contains_eq_isSome_getElem?, holders]
  cases hc : claims[hash]? with
  | none => simp
  | some bids =>
    simp only [Option.isSome_some, Option.getD_some, true_iff]
    -- Without a holder the entry would be empty, which no entry is.
    by_contra hnone
    apply h hash bids hc
    apply Std.ExtTreeSet.ext_mem
    intro bid
    simpa using fun hbid => hnone ⟨bid, hbid⟩

/-- Claiming a hash adds one holder of that hash. -/
private theorem mem_holders_claim {claims : Std.ExtTreeMap Hash Hashes}
    {bid first hash other : Hash} : other ∈ holders (claim bid claims first) hash ↔
      (hash = first ∧ other = bid) ∨ other ∈ holders claims hash := by
  simp only [holders, claim, Std.ExtTreeMap.getElem?_alter, Std.compare_eq_iff_eq]
  by_cases hfirst : first = hash
  · subst hfirst
    simp [@eq_comm _ other bid]
  · have hne : hash ≠ first := fun e => hfirst e.symm
    simp [hfirst, hne]

/-- Dropping an empty set of holders changes no holder. -/
private theorem getD_filter_isEmpty (bids : Option Hashes) :
    (bids.filter fun left => !left.isEmpty).getD ∅ = bids.getD ∅ := by
  cases bids with
  | none => rfl
  | some bids =>
    by_cases hempty : bids.isEmpty
    · simp [Option.filter, Std.ExtTreeSet.isEmpty_iff.mp hempty]
    · simp [Option.filter, hempty]

/-- Releasing a hash drops one holder of that hash. -/
private theorem mem_holders_release {claims : Std.ExtTreeMap Hash Hashes}
    {bid first hash other : Hash} : other ∈ holders (release bid claims first) hash ↔
      other ∈ holders claims hash ∧ ¬ (hash = first ∧ other = bid) := by
  simp only [holders, release, Std.ExtTreeMap.getElem?_alter, Std.compare_eq_iff_eq]
  by_cases hfirst : first = hash
  · subst hfirst
    -- The entry is dropped with its last holder, but that is not seen through `holders`.
    rw [if_pos rfl, getD_filter_isEmpty]
    cases claims[first]? with
    | none => simp
    | some bids => simp [@eq_comm _ other bid, and_comm]
  · have hne : hash ≠ first := fun e => hfirst e.symm
    simp [hfirst, hne]

/-- Claiming leaves no entry without a holder. -/
private theorem Tight.claim {claims : Std.ExtTreeMap Hash Hashes} (h : Tight claims)
    (bid first : Hash) : Tight (Arena.claim bid claims first) := by
  intro hash bids hbids
  rw [Arena.claim, Std.ExtTreeMap.getElem?_alter] at hbids
  split at hbids
  · obtain rfl := Option.some.inj hbids
    exact Std.ExtTreeSet.insert_ne_empty
  · exact h hash bids hbids

/-- Releasing leaves no entry without a holder. -/
private theorem Tight.release {claims : Std.ExtTreeMap Hash Hashes} (h : Tight claims)
    (bid first : Hash) : Tight (Arena.release bid claims first) := by
  intro hash bids hbids
  rw [Arena.release, Std.ExtTreeMap.getElem?_alter] at hbids
  split at hbids
  · obtain ⟨-, hne⟩ := Option.filter_eq_some_iff.mp hbids
    intro hempty
    simp [hempty] at hne
  · exact h hash bids hbids

/-- Claiming a bundle adds a holder of each of its hashes. -/
theorem mem_holders_foldl_claim {claims : Std.ExtTreeMap Hash Hashes} {bid hash other : Hash}
    {bundle : List Hash} :
    other ∈ holders (bundle.foldl (claim bid) claims) hash ↔
      (hash ∈ bundle ∧ other = bid) ∨ other ∈ holders claims hash := by
  induction bundle generalizing claims with
  | nil => simp
  | cons first rest ih =>
    rw [List.foldl_cons, ih, mem_holders_claim, List.mem_cons]
    tauto

/-- Releasing a bundle drops a holder of each of its hashes. -/
theorem mem_holders_foldl_release {claims : Std.ExtTreeMap Hash Hashes} {bid hash other : Hash}
    {bundle : List Hash} :
    other ∈ holders (bundle.foldl (release bid) claims) hash ↔
      other ∈ holders claims hash ∧ ¬ (hash ∈ bundle ∧ other = bid) := by
  induction bundle generalizing claims with
  | nil => simp
  | cons first rest ih =>
    rw [List.foldl_cons, ih, mem_holders_release, List.mem_cons]
    tauto

/-- Claiming a bundle leaves no entry without a holder. -/
theorem Tight.foldl_claim {claims : Std.ExtTreeMap Hash Hashes} (h : Tight claims) (bid : Hash)
    (bundle : List Hash) : Tight (bundle.foldl (Arena.claim bid) claims) := by
  induction bundle generalizing claims with
  | nil => exact h
  | cons first rest ih => exact ih (h.claim bid first)

/-- Releasing a bundle leaves no entry without a holder. -/
theorem Tight.foldl_release {claims : Std.ExtTreeMap Hash Hashes} (h : Tight claims) (bid : Hash)
    (bundle : List Hash) : Tight (bundle.foldl (Arena.release bid) claims) := by
  induction bundle generalizing claims with
  | nil => exact h
  | cons first rest ih => exact ih (h.release bid first)

end Arena

end LaneAuction
