import LaneAuction.Proofs.Pool.Run
import Mathlib.Data.List.Pairwise

/-!
# Pools that differ in the numbers of arrival

Two nodes that admit the same transactions number them as they come. If ties are broken by the hash,
the order of a lane does not show the numbers: pools with the same records up to the numbers list
the same transactions in the same order (`SameUpToArrival.map_ordered_eq`). The free lane has no
other order than that of arrival, so there the records must have come in the same order. Pools that
were filled with the same transactions are of this kind (`Lists.sameUpToArrival`).
-/

namespace List.Pairwise

/-- Two functions that number a list in its order say the same of which element comes first. -/
private theorem lt_iff_lt {α : Type} {l : List α} {f g : α → Nat} {a b : α}
    (hf : l.Pairwise fun a b => f a < f b) (hg : l.Pairwise fun a b => g a < g b)
    (ha : a ∈ l) (hb : b ∈ l) : f a < f b ↔ g a < g b := by
  let Agree (a b : α) : Prop := (f a < f b ↔ g a < g b) ∧ (f b < f a ↔ g b < g a)
  have hsymm : Std.Symm Agree := ⟨fun _ _ h => h.symm⟩
  have hagree : l.Pairwise Agree := (hf.and hg).imp fun h => by constructor <;> omega
  have hself : ∀ a ∈ l, Agree a a := fun _ _ => by simp [Agree]
  exact (hagree.forall_of_forall hself ha hb).1

end List.Pairwise

namespace LaneAuction

namespace PendingTx

/-- The transaction without the number of its arrival. -/
def unnumbered (r : PendingTx) : PendingTx := { r with arrival := 0 }

@[simp] theorem hash_unnumbered (r : PendingTx) : r.unnumbered.hash = r.hash := rfl

@[simp] theorem lane_unnumbered (r : PendingTx) : r.unnumbered.lane = r.lane := rfl

/-- The number is no part of the lane. -/
private theorem lane_eq_of_unnumbered_eq {r s : PendingTx} (h : r.unnumbered = s.unnumbered) :
    r.lane = s.lane := by
  rw [← r.lane_unnumbered, h, s.lane_unnumbered]

end PendingTx

namespace Ranking

variable {ranking : Ranking} {r s : PendingTx}

/-- The rank of a transaction does not depend on its number. -/
private theorem rank_unnumbered : ranking.rank r.unnumbered = ranking.rank r := rfl

end Ranking

namespace Pool

variable {p p' : Pool} {r s r' s' : PendingTx} {kind : LaneKind} {hash hash' : Hash}

/-- The same records are pending, apart from their numbers, and those of the free lane have come in
the same order. -/
structure SameUpToArrival (p p' : Pool) : Prop where
  records : ∀ hash, (p'.arena.get? hash).map PendingTx.unnumbered =
    (p.arena.get? hash).map PendingTx.unnumbered
  free : ∀ {hash hash' r s r' s'}, p.arena.get? hash = some r → p.arena.get? hash' = some s →
    p'.arena.get? hash = some r' → p'.arena.get? hash' = some s' → r.lane = .free →
    s.lane = .free → (r'.arrival < s'.arrival ↔ r.arrival < s.arrival)

namespace SameUpToArrival

/-- What is pending in one pool is pending in the other. -/
theorem exists_get? (h : p.SameUpToArrival p') (hr : p.arena.get? hash = some r) :
    ∃ r', p'.arena.get? hash = some r' ∧ r'.unnumbered = r.unnumbered := by
  have hrecord := h.records hash
  rw [hr, Option.map_some, Option.map_eq_some_iff] at hrecord
  exact hrecord

/-- What is pending in both pools is the same up to its number. -/
theorem unnumbered_eq (h : p.SameUpToArrival p') (hr : p.arena.get? hash = some r)
    (hr' : p'.arena.get? hash = some r') : r'.unnumbered = r.unnumbered := by
  have hrecord := h.records hash
  rw [hr, hr'] at hrecord
  exact Option.some.inj hrecord

/-- Pools are the same up to their numbers in both directions. -/
theorem symm (h : p.SameUpToArrival p') : p'.SameUpToArrival p where
  records hash := (h.records hash).symm
  free {hash hash' r' s' r s} hr' hs' hr hs hrlane hslane := by
    rw [PendingTx.lane_eq_of_unnumbered_eq (h.unnumbered_eq hr hr')] at hrlane
    rw [PendingTx.lane_eq_of_unnumbered_eq (h.unnumbered_eq hs hs')] at hslane
    exact (h.free hr hs hr' hs' hrlane hslane).symm

/-- The same hashes are pending in both pools. -/
theorem isPending_eq (h : p.SameUpToArrival p') : p'.arena.isPending = p.arena.isPending := by
  funext hash
  have hrecord := congrArg Option.isSome (h.records hash)
  rw [Option.isSome_map, Option.isSome_map] at hrecord
  rw [Arena.isPending, Arena.isPending, Std.ExtTreeMap.contains_eq_isSome_getElem?,
    Std.ExtTreeMap.contains_eq_isSome_getElem?]
  exact hrecord

/-- The same transactions are taken out of both. -/
theorem eraseAll (h : p.SameUpToArrival p') (hp : p.Filed) (hp' : p'.Filed) (hashes : List Hash) :
    (p.eraseAll hashes).SameUpToArrival (p'.eraseAll hashes) where
  records hash := by
    rw [hp.get?_eraseAll, hp'.get?_eraseAll]
    split
    · rfl
    · exact h.records hash
  free hr hs hr' hs' :=
    h.free (hp.get?_eraseAll_eq_some_iff.mp hr).2 (hp.get?_eraseAll_eq_some_iff.mp hs).2
      (hp'.get?_eraseAll_eq_some_iff.mp hr').2 (hp'.get?_eraseAll_eq_some_iff.mp hs').2

end SameUpToArrival

/-! ### The order of a lane -/

/-- One hash stands before another in the order of some lane. -/
def Precedes (p : Pool) (hash hash' : Hash) : Prop :=
  ∃ r s, p.arena.get? hash = some r ∧ p.arena.get? hash' = some s ∧ r.lane = s.lane ∧
    p.ranking.Before r s

/-- No two transactions precede each other. -/
private theorem Precedes.asymm (h : p.Precedes hash hash') : ¬ p.Precedes hash' hash := by
  obtain ⟨r, s, hr, hs, hlane, hbefore⟩ := h
  rintro ⟨s', r', hs', hr', -, hbefore'⟩
  obtain rfl := Option.some.inj (hr.symm.trans hr')
  obtain rfl := Option.some.inj (hs.symm.trans hs')
  exact hbefore.asymm hlane hbefore'

/-- The hashes of a lane are those of what is pending in it. -/
private theorem Filed.mem_map_hash_ordered_iff (hp : p.Filed) :
    hash ∈ (p.ordered kind).map PendingTx.hash ↔
      ∃ r, p.arena.get? hash = some r ∧ r.lane = kind := by
  rw [List.mem_map]
  constructor
  · intro h
    obtain ⟨r, hr, rfl⟩ := h
    exact ⟨r, hp.mem_ordered_iff.mp hr⟩
  · intro h
    obtain ⟨r, hr, hlane⟩ := h
    obtain rfl := hp.arena.hash_eq hr
    exact ⟨r, hp.mem_ordered_iff.mpr ⟨hr, hlane⟩, rfl⟩

/-- A lane is ordered as its transactions precede each other. -/
private theorem Filed.pairwise_precedes (hp : p.Filed) (kind : LaneKind) :
    ((p.ordered kind).map PendingTx.hash).Pairwise p.Precedes := by
  rw [List.pairwise_map]
  refine hp.pairwise_ordered.imp_of_mem fun {r s} hr hs hbefore => ?_
  obtain ⟨hr, hrlane⟩ := hp.mem_ordered_iff.mp hr
  obtain ⟨hs, hslane⟩ := hp.mem_ordered_iff.mp hs
  exact ⟨r, s, hr, hs, hrlane.trans hslane.symm, hbefore⟩

namespace SameUpToArrival

variable (hauction : p.ranking.auctionTie = .bidHash) (hbase : p.ranking.baseTie = .bidHash)
include hauction hbase

/-- Two transactions of a lane stand in the same order in both pools. -/
private theorem before_iff (h : p.SameUpToArrival p') (hr : p.arena.get? hash = some r)
    (hs : p.arena.get? hash' = some s) (hr' : p'.arena.get? hash = some r')
    (hs' : p'.arena.get? hash' = some s') (hlane : r.lane = s.lane) :
    p.ranking.Before r' s' ↔ p.ranking.Before r s := by
  have hru := h.unnumbered_eq hr hr'
  have hsu := h.unnumbered_eq hs hs'
  -- Rank, hash and lane do not depend on the arrival number.
  have hrank : p.ranking.rank r' = p.ranking.rank r := by
    rw [← Ranking.rank_unnumbered, hru, Ranking.rank_unnumbered]
  have hrank' : p.ranking.rank s' = p.ranking.rank s := by
    rw [← Ranking.rank_unnumbered, hsu, Ranking.rank_unnumbered]
  have hhash : r'.hash = r.hash := by rw [← r'.hash_unnumbered, hru, r.hash_unnumbered]
  have hhash' : s'.hash = s.hash := by rw [← s'.hash_unnumbered, hsu, s.hash_unnumbered]
  have hrlane : r'.lane = r.lane := PendingTx.lane_eq_of_unnumbered_eq hru
  rw [Ranking.Before, Ranking.Before, hrank, hrank', hrlane]
  -- In the free lane the order is that of the numbers, which is the same in both.
  cases hkind : r.lane with
  | auction => simp only [Ranking.tie, hauction, hhash, hhash']
  | base => simp only [Ranking.tie, hbase, hhash, hhash']
  | free =>
    have hfree : s.lane = .free := hlane.symm.trans hkind
    simp only [Ranking.tie, h.free hr hs hr' hs' hkind hfree]

/-- What precedes in one pool precedes in the other. -/
private theorem precedes_of_precedes (h : p.SameUpToArrival p') (hranking : p'.ranking = p.ranking)
    (hprecedes : p'.Precedes hash hash') : p.Precedes hash hash' := by
  obtain ⟨r', s', hr', hs', hlane, hbefore⟩ := hprecedes
  obtain ⟨r, hr, hru⟩ := h.symm.exists_get? hr'
  obtain ⟨s, hs, hsu⟩ := h.symm.exists_get? hs'
  have hlane' : r.lane = s.lane := by
    rw [PendingTx.lane_eq_of_unnumbered_eq hru, PendingTx.lane_eq_of_unnumbered_eq hsu, hlane]
  rw [hranking, h.before_iff hauction hbase hr hs hr' hs' hlane'] at hbefore
  exact ⟨r, s, hr, hs, hlane', hbefore⟩

/-- Both pools list the same hashes in the same order. -/
private theorem map_hash_ordered_eq (h : p.SameUpToArrival p') (hp : p.Filed) (hp' : p'.Filed)
    (hranking : p'.ranking = p.ranking) (kind : LaneKind) :
    (p'.ordered kind).map PendingTx.hash = (p.ordered kind).map PendingTx.hash := by
  -- Both are ordered by the one strict order, and hold the same hashes once each.
  apply List.Perm.eq_of_pairwise
  · intro hash hash' _ _ (hle : p.Precedes hash hash') hge
    exact absurd hge hle.asymm
  · exact (hp'.pairwise_precedes kind).imp
      (h.precedes_of_precedes hauction hbase hranking)
  · exact hp.pairwise_precedes kind
  · rw [List.perm_ext_iff_of_nodup hp'.nodup_hashes_ordered hp.nodup_hashes_ordered]
    intro hash
    rw [hp'.mem_map_hash_ordered_iff, hp.mem_map_hash_ordered_iff]
    constructor
    · -- Either pool has the record of the other, up to its number.
      intro hmem
      obtain ⟨r', hr', rfl⟩ := hmem
      obtain ⟨r, hr, hru⟩ := h.symm.exists_get? hr'
      exact ⟨r, hr, PendingTx.lane_eq_of_unnumbered_eq hru⟩
    · intro hmem
      obtain ⟨r, hr, rfl⟩ := hmem
      obtain ⟨r', hr', hru⟩ := h.exists_get? hr
      exact ⟨r', hr', PendingTx.lane_eq_of_unnumbered_eq hru⟩

/-- Both pools list the same transactions in the same order. -/
theorem map_ordered_eq (h : p.SameUpToArrival p') (hp : p.Filed) (hp' : p'.Filed)
    (hranking : p'.ranking = p.ranking) (kind : LaneKind) :
    (p'.ordered kind).map PendingTx.unnumbered = (p.ordered kind).map PendingTx.unnumbered := by
  -- The list is the one of the hashes, looked up.
  have hlookup : ∀ q : Pool, q.Filed → (q.ordered kind).map PendingTx.unnumbered =
      ((q.ordered kind).map PendingTx.hash).filterMap
        fun hash => (q.arena.get? hash).map PendingTx.unnumbered := by
    intro q hq
    rw [List.filterMap_map, ← List.filterMap_eq_map]
    apply List.filterMap_congr
    intro r hr
    rw [Function.comp, Function.comp, (hq.mem_ordered_iff.mp hr).1]
    rfl
  rw [hlookup p' hp', hlookup p hp, h.map_hash_ordered_eq hauction hbase hp hp' hranking,
    funext h.records]

end SameUpToArrival

/-! ### Pools that were filled alike -/

/-- The list of what is pending, in the order of arrival. -/
structure Lists (p : Pool) (rs : List PendingTx) : Prop where
  mem_iff : ∀ {r}, r ∈ rs ↔ p.arena.get? r.hash = some r
  pairwise : rs.Pairwise fun r s => r.arrival < s.arrival

variable {rs rs' : List PendingTx}

/-- A pool that was started lists nothing. -/
theorem lists_ofRanking (ranking : Ranking) : (ofRanking ranking).Lists [] where
  mem_iff := by simp [ofRanking, Arena.empty, Arena.get?]
  pairwise := .nil

/-- What is admitted comes behind all others. -/
theorem Lists.enlist (h : p.Lists rs) (hp : p.Filed) (hr : p.CanEnlist r) :
    (p.enlist r).Lists (rs ++ [{ r with arrival := p.arena.next }]) where
  mem_iff {s} := by
    rw [List.mem_append, List.mem_singleton, h.mem_iff, get?_enlist]
    split
    · next heq =>
      have hnone := Arena.isPending_eq_false_iff.mp hr.admits.notPending
      rw [← heq, hnone, Option.some.injEq, @eq_comm _ s]
      simp
    · next hne =>
      rw [or_iff_left]
      rintro rfl
      exact hne rfl
  pairwise := by
    rw [List.pairwise_append]
    -- The new number is above all that were given out.
    refine ⟨h.pairwise, List.pairwise_singleton _ _, fun s hs t ht => ?_⟩
    rw [List.mem_singleton.mp ht]
    exact hp.arena.arrival_lt (h.mem_iff.mp hs)

/-- What is pending under a hash is what is listed under it. -/
private theorem Lists.map_get?_eq_some_iff (h : p.Lists rs) (hp : p.Filed) :
    (p.arena.get? hash).map PendingTx.unnumbered = some r ↔
      r ∈ rs.map PendingTx.unnumbered ∧ r.hash = hash := by
  rw [Option.map_eq_some_iff, List.mem_map]
  constructor
  · intro hget
    obtain ⟨s, hs, rfl⟩ := hget
    obtain rfl := hp.arena.hash_eq hs
    exact ⟨⟨s, h.mem_iff.mpr hs, rfl⟩, rfl⟩
  · intro hmem
    obtain ⟨⟨s, hs, rfl⟩, rfl⟩ := hmem
    exact ⟨s, h.mem_iff.mp hs, rfl⟩

/-- The number of what is pending under a hash. -/
def numberOf (p : Pool) (hash : Hash) : Nat := ((p.arena.get? hash).map PendingTx.arrival).getD 0

/-- A pending transaction has its own number. -/
private theorem numberOf_eq (hr : p.arena.get? hash = some r) : p.numberOf hash = r.arrival := by
  rw [numberOf, hr]
  rfl

/-- The free transactions of a list, without their numbers. -/
def freeOf (rs : List PendingTx) : List PendingTx :=
  (rs.map PendingTx.unnumbered).filter fun r => r.lane = .free

/-- Free transactions are listed in the order of their numbers. -/
private theorem Lists.pairwise_numberOf (h : p.Lists rs) :
    (freeOf rs).Pairwise fun r s => p.numberOf r.hash < p.numberOf s.hash := by
  apply List.Pairwise.filter
  rw [List.pairwise_map]
  refine h.pairwise.imp_of_mem fun {r s} hr hs hlt => ?_
  rw [r.hash_unnumbered, s.hash_unnumbered, numberOf_eq (h.mem_iff.mp hr),
    numberOf_eq (h.mem_iff.mp hs)]
  exact hlt

/-- Pools that list the same transactions, the free ones in the same order, are the same up to the
numbers. -/
theorem Lists.sameUpToArrival (h : p.Lists rs) (h' : p'.Lists rs') (hp : p.Filed) (hp' : p'.Filed)
    (hperm : (rs'.map PendingTx.unnumbered).Perm (rs.map PendingTx.unnumbered))
    (hfree : freeOf rs' = freeOf rs) : p.SameUpToArrival p' where
  records hash := by
    ext r
    rw [h'.map_get?_eq_some_iff hp', h.map_get?_eq_some_iff hp, hperm.mem_iff]
  free {hash hash' r s r' s'} hr hs hr' hs' hrlane hslane := by
    have hmem : ∀ {hash r}, p.arena.get? hash = some r → r.lane = .free →
        r.unnumbered ∈ freeOf rs := by
      intro hash r hr hlane
      obtain rfl := hp.arena.hash_eq hr
      exact List.mem_filter.mpr
        ⟨List.mem_map_of_mem (h.mem_iff.mpr hr), decide_eq_true hlane⟩
    -- In both lists a lower number means an earlier place among the free transactions.
    have hiff := (hfree ▸ h'.pairwise_numberOf).lt_iff_lt h.pairwise_numberOf
      (hmem hr hrlane) (hmem hs hslane)
    rw [r.hash_unnumbered, s.hash_unnumbered, hp.arena.hash_eq hr, hp.arena.hash_eq hs,
      numberOf_eq hr, numberOf_eq hs, numberOf_eq hr', numberOf_eq hs'] at hiff
    exact hiff

end Pool

end LaneAuction
