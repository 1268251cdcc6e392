import LaneAuction.Pool
import LaneAuction.Proofs.Pool.Arena
import LaneAuction.Proofs.Pool.Index

/-!
# The pool and its invariant

A pool is filed if its arena is and the index of each kind of lane is the map from the transactions
pending in that lane to their positions. Whatever a pool does comes down to two changes, one
transaction put in (`Pool.put`) and pending ones taken out (`Pool.eraseAll`), and both keep it
filed.

A filed pool is valid if no pending bid is part of its own bundle. What is pending is then part of
no pending bundle at all.
-/

namespace LaneAuction

namespace Pool

variable {p : Pool} {r s : PendingTx} {kind kind' : LaneKind} {hash hash' : Hash}
  {position : Position}

@[simp] theorem arena_setIndex (i : LaneIndex) : (p.setIndex kind i).arena = p.arena := by
  cases kind <;> rfl

@[simp] theorem ranking_setIndex (i : LaneIndex) : (p.setIndex kind i).ranking = p.ranking := by
  cases kind <;> rfl

@[simp] theorem index_auction : p.index .auction = p.auction := rfl

/-- Replacing the index of a lane leaves those of the other lanes. -/
private theorem index_setIndex (a : Arena) (i : LaneIndex) :
    ({ p with arena := a }.setIndex kind i).index kind' =
      if kind = kind' then i else p.index kind' := by
  cases kind <;> cases kind' <;> rfl

/-- The position of a transaction that is pending in a lane. -/
def place? (p : Pool) (kind : LaneKind) (hash : Hash) : Option Position :=
  (p.arena.get? hash).bind fun r => if r.lane = kind then some (p.ranking.position r) else none

/-- A position in a lane is that of something that is pending there. -/
theorem place?_eq_some_iff : p.place? kind hash = some position ↔
    ∃ r, p.arena.get? hash = some r ∧ r.lane = kind ∧ p.ranking.position r = position := by
  simp [place?, Option.bind_eq_some_iff]

/-- The arena is filed, and each index holds what is pending in its lane. -/
structure Filed (p : Pool) : Prop where
  arena : p.arena.Filed
  index : ∀ kind, (p.index kind).Valid (p.place? kind)

/-- The pool is filed, and no pending bid bundles itself. -/
structure Valid (p : Pool) : Prop extends p.Filed where
  notOwn : ∀ {hash r}, p.arena.get? hash = some r → hash ∉ r.bundle

/-- A pool that was started is filed: nothing is pending. -/
theorem filed_ofRanking (ranking : Ranking) : (ofRanking ranking).Filed where
  arena := Arena.filed_empty
  index kind := by cases kind <;> exact LaneIndex.valid_empty

/-- A pool that was started is valid: nothing is pending. -/
theorem valid_ofRanking (ranking : Ranking) : (ofRanking ranking).Valid where
  toFiled := filed_ofRanking ranking
  notOwn h := by simp [ofRanking, Arena.get?, Arena.empty] at h

/-- In a valid pool no pending transaction is part of a pending bundle. -/
theorem Valid.notMem_bundle {bid : Hash} (hp : p.Valid) (hr : p.arena.get? bid = some r)
    (hs : p.arena.get? hash = some s) : hash ∉ r.bundle := by
  intro hmem
  obtain rfl := hp.arena.own hr hs hmem
  exact hp.notOwn hr hmem

/-- The pool with one more transaction at its position. -/
def put (p : Pool) (r : PendingTx) : Pool :=
  { p with arena := p.arena.put r }.setIndex r.lane
    ((p.index r.lane).insert (p.ranking.position r) r.hash)

@[simp] theorem arena_put : (p.put r).arena = p.arena.put r := by
  simp [put]

@[simp] theorem ranking_put : (p.put r).ranking = p.ranking := by
  simp [put]

/-- Erasing what is pending forgets it and takes it out of its lane. -/
theorem erase_of_get?_eq_some (h : p.arena.get? hash = some r) :
    p.erase hash = { p with arena := p.arena.forget r }.setIndex r.lane
      ((p.index r.lane).erase hash) := by
  simp [erase, remove?, Arena.remove, h]

/-- Erasing what is not pending changes nothing. -/
theorem erase_of_get?_eq_none (h : p.arena.get? hash = none) : p.erase hash = p := by
  simp [erase, remove?, Arena.remove, h]

@[simp] theorem ranking_erase : (p.erase hash).ranking = p.ranking := by
  cases h : p.arena.get? hash with
  | none => rw [erase_of_get?_eq_none h]
  | some r => simp [erase_of_get?_eq_some h]

@[simp] theorem next_erase : (p.erase hash).arena.next = p.arena.next := by
  cases h : p.arena.get? hash with
  | none => rw [erase_of_get?_eq_none h]
  | some r => simp [erase_of_get?_eq_some h]

namespace Filed

/-- Erasing takes out what is pending under one hash. -/
theorem get?_erase (hp : p.Filed) :
    (p.erase hash).arena.get? hash' = if hash = hash' then none else p.arena.get? hash' := by
  cases h : p.arena.get? hash with
  | none =>
    rw [erase_of_get?_eq_none h]
    split
    · next heq => rw [← heq, h]
    · rfl
  | some r => simp [erase_of_get?_eq_some h, Arena.get?_forget, hp.arena.hash_eq h]

/-- Behind erasing one, a pending transaction is another one. -/
theorem get?_erase_eq_some_iff (hp : p.Filed) :
    (p.erase hash).arena.get? hash' = some r ↔ hash ≠ hash' ∧ p.arena.get? hash' = some r := by
  rw [hp.get?_erase]
  by_cases h : hash = hash' <;> simp [h]

/-- Taking out a transaction keeps the pool filed. -/
theorem erase (hp : p.Filed) (hash : Hash) : (p.erase hash).Filed := by
  cases h : p.arena.get? hash with
  | none =>
    rw [erase_of_get?_eq_none h]
    exact hp
  | some r =>
    obtain rfl := hp.arena.hash_eq h
    constructor
    case arena =>
      rw [erase_of_get?_eq_some h, arena_setIndex]
      exact hp.arena.forget h
    -- Only the index of the transaction's lane is changed, and loses its position.
    case index =>
      intro kind
      have hplace : (p.erase r.hash).place? kind = fun hash' =>
          if r.hash = hash' then none else p.place? kind hash' := by
        funext hash'
        rw [place?, hp.get?_erase, ranking_erase]
        split <;> rfl
      rw [hplace, erase_of_get?_eq_some h, index_setIndex]
      split
      · next heq => exact heq ▸ (hp.index r.lane).erase r.hash
      · next hne =>
        -- A transaction of another lane has no position in this one.
        have hnone : p.place? kind r.hash = none := by simp [place?, h, hne]
        convert hp.index kind using 2 with hash'
        split
        · next heq => rw [← heq, hnone]
        · rfl

/-- Putting a transaction in keeps the pool filed if it keeps the arena filed. -/
theorem put (hp : p.Filed) (harena : (p.arena.put r).Filed)
    (hnew : p.arena.isPending r.hash = false) : (p.put r).Filed := by
  have hget : p.arena.get? r.hash = none := Arena.isPending_eq_false_iff.mp hnew
  constructor
  case arena => rwa [arena_put]
  case index =>
    intro kind
    -- The new transaction has the position of its rank in its own lane, and none elsewhere.
    have hplace : (p.put r).place? kind = fun hash' =>
        if r.hash = hash' then (if r.lane = kind then some (p.ranking.position r) else none)
        else p.place? kind hash' := by
      funext hash'
      rw [place?, arena_put, Arena.get?_put, ranking_put]
      split <;> rfl
    rw [hplace, Pool.put, index_setIndex]
    split
    · next heq =>
      subst heq
      apply (hp.index r.lane).insert
      · simp [place?, hget]
      · -- Who stands at the position has the hash or the arrival of the new transaction.
        intro hash' h
        obtain ⟨s, hs, hlane, hposition⟩ := place?_eq_some_iff.mp h
        have hs' : (p.arena.put r).get? hash' = some s := by
          rw [Arena.get?_put_eq_some_iff]
          refine .inr ⟨fun heq => ?_, hs⟩
          rw [heq, hget] at hs
          exact nomatch hs
        have hr' : (p.arena.put r).get? r.hash = some r := by simp [Arena.get?_put]
        have heq : hash' = r.hash := by
          obtain heq | heq := Ranking.hash_eq_or_arrival_eq hlane hposition
          · rw [← heq, hp.arena.hash_eq hs]
          · exact harena.arrival_inj hs' hr' heq
        rw [heq, hget] at hs
        exact nomatch hs
    -- The index of another lane is not touched.
    · convert hp.index kind using 2 with hash'
      split
      · next heq => simp [← heq, place?, hget]
      · rfl

end Filed

end Pool

end LaneAuction
