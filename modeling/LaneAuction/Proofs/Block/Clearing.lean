import LaneAuction.Block.Selection
import LaneAuction.Proofs.Auction.Admission

/-!
# Which bid is cleared

The auction goes through its candidates in order. A candidate that fails is evicted, an admissible
one that cannot be placed is skipped, and both are passed over (`LaneContext.PassesOver`); the
first that can be placed wins, and a fatal failure in front of it ends the search. These are all
the ways a search can go (`LaneContext.clears_or_aborts`), so clearing is characterised by them in
both directions (`LaneContext.clear_eq_ok_iff`, `LaneContext.clear_eq_error_iff`).
-/

namespace LaneAuction

/-- A chunk fits the budget, and the block has none of it yet. -/
structure Places (budget : BlockSpace) (included : List Hash) (chunk : List BlockTx) : Prop where
  fits : (BlockSpace.ofTxs chunk).fits budget
  new : ∀ tx ∈ chunk, tx.hash ∉ included

namespace LaneContext

variable {ctx : LaneContext} {budget : BlockSpace} {included : List Hash} {r : PendingTx}
  {chunk : List BlockTx} {e : Rejection} {candidates before rest : List PendingTx}
  {evicted : List (Hash × Rejection)} {s : Selection}

/-! ### One candidate -/

/-- A candidate is an admissible bid with the given chunk: the bid is its only message, it clears
the history, and it is accepted. -/
def Admits (ctx : LaneContext) (r : PendingTx) (chunk : List BlockTx) : Prop :=
  ∃ offer, r.tx.bid? = some offer ∧ ctx.cleared.check offer ctx.params.increment = .ok () ∧
    ctx.toBidContext.accept ⟨r.hash, r.raw, r.tx, offer⟩ = .ok chunk

/-- The ways in which a candidate fails to be an admissible bid, each with its reason. -/
inductive Fails (ctx : LaneContext) (r : PendingTx) : Rejection → Prop where
  | notSole (h : r.tx.bid? = none) : ctx.Fails r (.malformed .notSoleMessage)
  | notCleared {offer : BundleBid} {e : Rejection} (hoffer : r.tx.bid? = some offer)
      (hcheck : ctx.cleared.check offer ctx.params.increment = .error e) : ctx.Fails r e
  | notAccepted {offer : BundleBid} {e : Rejection} (hoffer : r.tx.bid? = some offer)
      (hcheck : ctx.cleared.check offer ctx.params.increment = .ok ())
      (haccept : ctx.toBidContext.accept ⟨r.hash, r.raw, r.tx, offer⟩ = .error e) : ctx.Fails r e

/-- What is pending yields a chunk if and only if the auction admits it with that chunk. -/
theorem pendingChunk_eq_ok_iff : ctx.pendingChunk r = .ok chunk ↔ ctx.Admits r chunk := by
  rw [pendingChunk, BidCandidate.ofTransaction, Admits]
  cases r.tx.bid? with
  | none => simp
  | some offer =>
    simp only [Except.ok_bind, LaneContext.chunk, Except.bind_eq_ok_iff, Option.some.injEq]
    constructor
    · intro h
      obtain ⟨_, hcheck, haccept⟩ := h
      exact ⟨offer, rfl, hcheck, haccept⟩
    · intro h
      obtain ⟨_, rfl, hcheck, haccept⟩ := h
      exact ⟨(), hcheck, haccept⟩

/-- What is pending yields an error if and only if the auction fails on it so. -/
theorem pendingChunk_eq_error_iff : ctx.pendingChunk r = .error e ↔ ctx.Fails r e := by
  rw [pendingChunk, BidCandidate.ofTransaction]
  constructor
  · intro h
    -- Reading the offer, the check of its clearing and the rules, in this order.
    cases hoffer : r.tx.bid? with
    | none =>
      rw [hoffer] at h
      obtain rfl := Except.error.inj h
      exact .notSole hoffer
    | some offer =>
      rw [hoffer, Except.ok_bind, LaneContext.chunk, Except.bind_eq_error_iff] at h
      obtain hcheck | ⟨_, hcheck, haccept⟩ := h
      · exact .notCleared hoffer hcheck
      · exact .notAccepted hoffer hcheck haccept
  · intro h
    cases h with
    | notSole hoffer => rw [hoffer]; rfl
    | notCleared hoffer hcheck =>
      rw [hoffer, Except.ok_bind, LaneContext.chunk, hcheck, Except.error_bind]
    | notAccepted hoffer hcheck haccept =>
      rw [hoffer, Except.ok_bind, LaneContext.chunk, hcheck, Except.ok_bind, haccept]

/-- No candidate both fails and is admitted. -/
theorem Fails.not_admits (h : ctx.Fails r e) : ¬ ctx.Admits r chunk := by
  intro hadmits
  rw [← pendingChunk_eq_error_iff] at h
  exact nomatch h.symm.trans (pendingChunk_eq_ok_iff.mpr hadmits)

/-- A bundle keeps within its size, so a chunk keeps within the cap of the auction. -/
theorem Admits.length_le (h : ctx.Admits r chunk) :
    chunk.length ≤ ctx.params.maxBundleSize.toNat + 1 := by
  obtain ⟨offer, -, -, haccept⟩ := h
  obtain ⟨bundle, hbid, rfl⟩ := BidContext.accept_eq_ok_iff.mp haccept
  have hsize := hbid.size
  rw [hbid.opens.length_eq] at hsize
  rw [List.length_cons, List.length_map]
  exact Nat.succ_le_succ hsize

/-- The cap asks nothing more of an admissible bid. -/
private theorem Admits.canPlace_iff (h : ctx.Admits r chunk) :
    ctx.canPlace budget included chunk ↔ Places budget included chunk := by
  have hcap : ¬ ctx.params.maxBundleSize.toNat + 1 < chunk.length := Nat.not_lt.mpr h.length_le
  simp only [canPlace, cap, Option.any_some, hcap, decide_false, Bool.not_false, Bool.true_and,
    Bool.and_eq_true, Bool.not_eq_true', List.any_eq_false, List.contains_iff_mem]
  exact ⟨fun ⟨hfits, hnew⟩ => ⟨hfits, hnew⟩, fun ⟨hfits, hnew⟩ => ⟨hfits, hnew⟩⟩

/-! ### Candidates that do not win -/

/-- Candidates that do not win and do not end the search, and those of them that are evicted: the
ones that fail, in their order and each for its own reason. What is admissible but cannot be placed
is not evicted. -/
inductive PassesOver (ctx : LaneContext) (budget : BlockSpace) (included : List Hash) :
    List PendingTx → List (Hash × Rejection) → Prop where
  | nil : ctx.PassesOver budget included [] []
  | evict {r : PendingTx} {e : Rejection} {rs : List PendingTx} {evicted : List (Hash × Rejection)}
      (hfails : ctx.Fails r e) (hfatal : e.isFatal = false)
      (hrest : ctx.PassesOver budget included rs evicted) :
      ctx.PassesOver budget included (r :: rs) ((r.hash, e) :: evicted)
  | skip {r : PendingTx} {chunk : List BlockTx} {rs : List PendingTx}
      {evicted : List (Hash × Rejection)} (hadmits : ctx.Admits r chunk)
      (hplaces : ¬ Places budget included chunk)
      (hrest : ctx.PassesOver budget included rs evicted) :
      ctx.PassesOver budget included (r :: rs) evicted

/-- What a candidate was passed over for. -/
private theorem PassesOver.cases_of_mem (h : ctx.PassesOver budget included before evicted)
    (hr : r ∈ before) : (∃ e, ctx.Fails r e ∧ (r.hash, e) ∈ evicted) ∨
      ∃ chunk, ctx.Admits r chunk ∧ ¬ Places budget included chunk := by
  induction h with
  | nil => exact nomatch hr
  | evict hfails _ _ ih =>
    obtain rfl | hr := List.mem_cons.mp hr
    · exact .inl ⟨_, hfails, List.mem_cons_self⟩
    · obtain ⟨e, he, hmem⟩ | hskipped := ih hr
      · exact .inl ⟨e, he, List.mem_cons_of_mem _ hmem⟩
      · exact .inr hskipped
  | skip hadmits hplaces _ ih =>
    obtain rfl | hr := List.mem_cons.mp hr
    · exact .inr ⟨_, hadmits, hplaces⟩
    · exact ih hr

/-- Only candidates that fail are evicted, and not for a fatal failure. -/
private theorem PassesOver.exists_fails_of_mem (h : ctx.PassesOver budget included before evicted)
    {hash : Hash} (hmem : (hash, e) ∈ evicted) :
    ∃ r ∈ before, r.hash = hash ∧ ctx.Fails r e ∧ e.isFatal = false := by
  induction h with
  | nil => exact nomatch hmem
  | evict hfails hfatal _ ih =>
    obtain heq | hmem := List.mem_cons.mp hmem
    · obtain ⟨rfl, rfl⟩ := Prod.mk.inj heq
      exact ⟨_, List.mem_cons_self, rfl, hfails, hfatal⟩
    · obtain ⟨r, hr, hfails⟩ := ih hmem
      exact ⟨r, List.mem_cons_of_mem _ hr, hfails⟩
  | skip _ _ _ ih =>
    obtain ⟨r, hr, hfails⟩ := ih hmem
    exact ⟨r, List.mem_cons_of_mem _ hr, hfails⟩

/-- Candidates that are passed over leave the search to those behind them. -/
private theorem PassesOver.clear_append (h : ctx.PassesOver budget included before evicted)
    (rest : List PendingTx) : ctx.clear budget included (before ++ rest) =
      (ctx.clear budget included rest).map fun s => { s with refused := evicted ++ s.refused } := by
  induction h with
  | nil =>
    cases hclear : ctx.clear budget included rest <;> simp [Except.map, hclear]
  | evict hfails hfatal _ ih =>
    -- The eviction is noted in front of whatever the rest of the search gives.
    rw [List.cons_append, clear, pendingChunk_eq_error_iff.mpr hfails]
    simp only [hfatal, Bool.false_eq_true, if_false, ih]
    cases ctx.clear budget included rest <;> rfl
  | skip hadmits hplaces _ ih =>
    rw [List.cons_append, clear, pendingChunk_eq_ok_iff.mpr hadmits]
    simp only [hadmits.canPlace_iff, hplaces, if_false, ih]

/-! ### The search -/

/-- A candidate that is admitted and can be placed wins. -/
private theorem clear_cons_of_admits (hadmits : ctx.Admits r chunk)
    (hplaces : Places budget included chunk) :
    ctx.clear budget included (r :: rest) = .ok ⟨chunk, .ofTxs chunk, []⟩ := by
  rw [clear, pendingChunk_eq_ok_iff.mpr hadmits]
  simp only [hadmits.canPlace_iff, hplaces, if_true]

/-- A fatal failure ends the auction. -/
private theorem clear_cons_of_fails (hfails : ctx.Fails r e) (hfatal : e.isFatal) :
    ctx.clear budget included (r :: rest) = .error e := by
  rw [clear, pendingChunk_eq_error_iff.mpr hfails]
  simp only [hfatal, if_true]

/-- What clearing a list of candidates selects: the chunk of a winner, behind candidates that are
passed over, or nothing if all are; and the evicted ones among those passed over. -/
inductive Clears (ctx : LaneContext) (budget : BlockSpace) (included : List Hash)
    (candidates : List PendingTx) : Option PendingTx → Selection → Prop where
  | winner {before after : List PendingTx} {r : PendingTx} {chunk : List BlockTx}
      {evicted : List (Hash × Rejection)} (heq : candidates = before ++ r :: after)
      (hbefore : ctx.PassesOver budget included before evicted) (hadmits : ctx.Admits r chunk)
      (hplaces : Places budget included chunk) :
      ctx.Clears budget included candidates (some r) ⟨chunk, .ofTxs chunk, evicted⟩
  | nobody {evicted : List (Hash × Rejection)}
      (hall : ctx.PassesOver budget included candidates evicted) :
      ctx.Clears budget included candidates none ⟨[], .zero, evicted⟩

/-- A candidate fails fatally, and those in front of it are passed over. -/
def Aborts (ctx : LaneContext) (budget : BlockSpace) (included : List Hash)
    (candidates : List PendingTx) (e : Rejection) : Prop :=
  ∃ before r after evicted, candidates = before ++ r :: after ∧
    ctx.PassesOver budget included before evicted ∧ ctx.Fails r e ∧ e.isFatal

/-- The relation says what clearing an auction returns. -/
theorem Clears.clear_eq {winner : Option PendingTx}
    (h : ctx.Clears budget included candidates winner s) :
    ctx.clear budget included candidates = .ok s := by
  cases h with
  | winner heq hbefore hadmits hplaces =>
    rw [heq, hbefore.clear_append, clear_cons_of_admits hadmits hplaces]
    simp [Except.map]
  | nobody hall =>
    have hclear := hall.clear_append []
    rw [List.append_nil] at hclear
    rw [hclear]
    simp [Except.map, clear, Selection.empty]

/-- The relation says how clearing an auction fails. -/
theorem Aborts.clear_eq (h : ctx.Aborts budget included candidates e) :
    ctx.clear budget included candidates = .error e := by
  obtain ⟨before, r, after, evicted, rfl, hbefore, hfails, hfatal⟩ := h
  rw [hbefore.clear_append, clear_cons_of_fails hfails hfatal]
  rfl

/-- A candidate that is passed over does not change how the search goes on. -/
private theorem clears_or_aborts_cons
    (hcons : ∀ {before evicted}, ctx.PassesOver budget included before evicted →
      ∃ evicted', ctx.PassesOver budget included (r :: before) evicted')
    (hrest : (∃ winner s, ctx.Clears budget included rest winner s) ∨
      ∃ e, ctx.Aborts budget included rest e) :
    (∃ winner s, ctx.Clears budget included (r :: rest) winner s) ∨
      ∃ e, ctx.Aborts budget included (r :: rest) e := by
  obtain ⟨winner, s, hclears⟩ | ⟨e, before, r', after, evicted, rfl, hbefore, hfails, hfatal⟩ :=
    hrest
  · cases hclears with
    | winner heq hbefore hadmits hplaces =>
      obtain ⟨evicted, hbefore⟩ := hcons hbefore
      exact .inl ⟨_, _, .winner (by rw [heq, List.cons_append]) hbefore hadmits hplaces⟩
    | nobody hall =>
      obtain ⟨evicted, hall⟩ := hcons hall
      exact .inl ⟨none, _, .nobody hall⟩
  · obtain ⟨evicted, hbefore⟩ := hcons hbefore
    exact .inr ⟨e, r :: before, r', after, evicted, rfl, hbefore, hfails, hfatal⟩

/-- There is no other way for a search to go. -/
theorem clears_or_aborts (ctx : LaneContext) (budget : BlockSpace) (included : List Hash)
    (candidates : List PendingTx) : (∃ winner s, ctx.Clears budget included candidates winner s) ∨
      ∃ e, ctx.Aborts budget included candidates e := by
  -- Only the first candidate decides whether the search goes on to the others.
  induction candidates with
  | nil => exact .inl ⟨none, _, .nobody .nil⟩
  | cons r rs ih =>
    cases hchunk : ctx.pendingChunk r with
    | ok chunk =>
      have hadmits := pendingChunk_eq_ok_iff.mp hchunk
      by_cases hplaces : Places budget included chunk
      · exact .inl ⟨some r, _, .winner (List.nil_append _).symm .nil hadmits hplaces⟩
      · exact clears_or_aborts_cons (fun h => ⟨_, .skip hadmits hplaces h⟩) ih
    | error e =>
      have hfails := pendingChunk_eq_error_iff.mp hchunk
      cases hfatal : e.isFatal with
      | true => exact .inr ⟨e, [], r, rs, [], rfl, .nil, hfails, hfatal⟩
      | false => exact clears_or_aborts_cons (fun h => ⟨_, .evict hfails hfatal h⟩) ih

/-- An auction is cleared if and only if it has a winner or nobody wins, and returns what they say.
-/
theorem clear_eq_ok_iff : ctx.clear budget included candidates = .ok s ↔
    ∃ winner, ctx.Clears budget included candidates winner s := by
  constructor
  · intro h
    obtain ⟨winner, s', hclears⟩ | ⟨e, haborts⟩ := clears_or_aborts ctx budget included candidates
    · rw [hclears.clear_eq] at h
      exact ⟨winner, Except.ok.inj h ▸ hclears⟩
    · rw [haborts.clear_eq] at h
      exact nomatch h
  · intro h
    obtain ⟨winner, hclears⟩ := h
    exact hclears.clear_eq

/-- Clearing the auction finds nothing, or the chunk of an admissible bid that can be placed. -/
theorem clear_cases (h : ctx.clear budget included candidates = .ok s) :
    s.txs = [] ∧ s.used = .zero ∨ ∃ r ∈ candidates, ctx.Admits r s.txs ∧
      Places budget included s.txs ∧ s.used = .ofTxs s.txs := by
  obtain ⟨winner, hclears⟩ := clear_eq_ok_iff.mp h
  cases hclears with
  | winner heq _ hadmits hplaces => exact .inr ⟨_, by simp [heq], hadmits, hplaces, rfl⟩
  | nobody => exact .inl ⟨rfl, rfl⟩

/-- What is evicted is a candidate that fails. -/
theorem exists_fails_of_clear (h : ctx.clear budget included candidates = .ok s) {hash : Hash}
    (hmem : (hash, e) ∈ s.refused) :
    ∃ r ∈ candidates, r.hash = hash ∧ ctx.Fails r e ∧ e.isFatal = false := by
  obtain ⟨winner, hclears⟩ := clear_eq_ok_iff.mp h
  cases hclears with
  | winner heq hbefore =>
    obtain ⟨r, hr, hfails⟩ := hbefore.exists_fails_of_mem hmem
    exact ⟨r, by simp [heq, hr], hfails⟩
  | nobody hall => exact hall.exists_fails_of_mem hmem

/-- An auction fails if and only if a candidate fails for a reason that is not its own. -/
theorem clear_eq_error_iff : ctx.clear budget included candidates = .error e ↔
    ctx.Aborts budget included candidates e := by
  constructor
  · intro h
    obtain ⟨winner, s', hclears⟩ | ⟨e', haborts⟩ := clears_or_aborts ctx budget included candidates
    · rw [hclears.clear_eq] at h
      exact nomatch h
    · rw [haborts.clear_eq] at h
      exact Except.error.inj h ▸ haborts
  · exact Aborts.clear_eq

/-! ### Candidates that lose -/

/-- How a candidate loses to a winner behind it: it fails and is evicted for it, or it is admissible
but too large, or the block has some of it already. -/
inductive Loses (ctx : LaneContext) (budget : BlockSpace) (included : List Hash) (s : Selection)
    (r : PendingTx) : Prop where
  | evicted {e : Rejection} (hfails : ctx.Fails r e) (hmem : (r.hash, e) ∈ s.refused)
  | tooLarge {chunk : List BlockTx} (hadmits : ctx.Admits r chunk)
      (hfits : ¬ (BlockSpace.ofTxs chunk).fits budget)
  | overlaps {chunk : List BlockTx} {tx : BlockTx} (hadmits : ctx.Admits r chunk)
      (htx : tx ∈ chunk) (hmem : tx.hash ∈ included)

/-- Whoever does not come behind the winner, and is not the winner, loses. -/
theorem Clears.loses {winner : PendingTx} {Before : PendingTx → PendingTx → Prop}
    (h : ctx.Clears budget included candidates (some winner) s)
    (hsorted : candidates.Pairwise Before) (hr : r ∈ candidates) (hne : r ≠ winner)
    (hbehind : ¬ Before winner r) : ctx.Loses budget included s r := by
  cases h with
  | winner heq hbefore hadmits hplaces =>
    subst heq
    obtain ⟨-, hafter, -⟩ := List.pairwise_append.mp hsorted
    -- It stands in front of the winner: all others come behind.
    have hr : r ∈ _ := (List.mem_append.mp hr).resolve_right fun hmem =>
      (List.mem_cons.mp hmem).elim hne fun hmem =>
        hbehind ((List.pairwise_cons.mp hafter).1 r hmem)
    obtain ⟨e, hfails, hmem⟩ | ⟨chunk, hadmits, hplaces⟩ := hbefore.cases_of_mem hr
    · exact .evicted hfails hmem
    · -- A bid that was admitted did not place, for its size or for what it overlaps with.
      by_cases hfits : (BlockSpace.ofTxs chunk).fits budget
      · have hoverlap : ∃ tx ∈ chunk, tx.hash ∈ included := by
          by_contra hnone
          exact hplaces ⟨hfits, fun tx htx hmem => hnone ⟨tx, htx, hmem⟩⟩
        obtain ⟨tx, htx, hmem⟩ := hoverlap
        exact .overlaps hadmits htx hmem
      · exact .tooLarge hadmits hfits

end LaneContext

end LaneAuction
