import LaneAuction.Block.Assembly
import LaneAuction.Proofs.Block.Selection

/-!
# Built blocks are accepted

The selections that a block is built of are the segments of a cut, so that the block is accepted
wherever the same rules are in force (`LaneContext.review_of_assemble`). A block that was built from
some of the lanes only is a cut too, with empty segments for the others.
-/

namespace LaneAuction

namespace LaneContext

variable {ctx : LaneContext} {limits used : BlockSpace} {included : List Hash}
  {run run' : List ReceivedTx} {plan : List PlannedLane} {cut : List (List ReceivedTx)}
  {pending : LaneKind → List PendingTx} {filled s : Selection}

/-! ### Lane by lane -/

/-- What a lane selects is added to the block, and then the lanes behind it are filled. -/
theorem assembleFrom_cons_of_select {kind : LaneKind} (filled : Selection) (lane : Lane)
    (h : ctx.select kind (.budget limits filled.used lane.fraction) (filled.txs.map BlockTx.hash)
      (pending kind) = .ok s) :
    ctx.assembleFrom limits pending filled (⟨lane, some kind⟩ :: plan) =
      ctx.assembleFrom limits pending
        ⟨filled.txs ++ s.txs, filled.used.add s.used, filled.refused ++ s.refused⟩ plan := by
  rw [assembleFrom, h]
  rfl

/-- The induction over the lanes that a block is built of: a lane of no kind is passed over, any
other adds what it selects. -/
theorem assembleFrom_induction
    {motive : (filled : Selection) → (plan : List PlannedLane) →
      ctx.assembleFrom limits pending filled plan = .ok s → Prop}
    (nil : motive s [] rfl)
    (skip : ∀ {filled lane plan} (h : ctx.assembleFrom limits pending filled plan = .ok s),
      motive filled plan h → motive filled (⟨lane, none⟩ :: plan) h)
    (select : ∀ {filled lane kind plan selected}
      (hselect : ctx.select kind (.budget limits filled.used lane.fraction)
        (filled.txs.map BlockTx.hash) (pending kind) = .ok selected)
      (h : ctx.assembleFrom limits pending ⟨filled.txs ++ selected.txs,
        filled.used.add selected.used, filled.refused ++ selected.refused⟩ plan = .ok s),
      motive _ plan h → motive filled (⟨lane, some kind⟩ :: plan)
        ((assembleFrom_cons_of_select filled lane hselect).trans h))
    {filled : Selection} {plan : List PlannedLane}
    (h : ctx.assembleFrom limits pending filled plan = .ok s) : motive filled plan h := by
  induction plan generalizing filled with
  | nil =>
    obtain rfl := Except.ok.inj h
    exact nil
  | cons planned plan ih =>
    obtain ⟨lane, kind⟩ := planned
    cases kind with
    | none =>
      have hrest : ctx.assembleFrom limits pending filled plan = .ok s := h
      exact skip hrest (ih hrest)
    | some kind =>
      -- The case is stated about the whole plan, so `h` stays as it is.
      have hcons := h
      simp only [assembleFrom, Except.bind_eq_ok_iff, Except.mapError_eq_ok_iff] at hcons
      obtain ⟨selected, hselect, hrest⟩ := hcons
      exact select hselect hrest (ih hrest)

/-! ### What is built is a cut -/

/-- What arrives behind transactions that arrived arrives with them. -/
private theorem Arrives.append (h : ctx.Arrives included run)
    (h' : ctx.Arrives (included ++ run.map fun t => t.block.hash) run') :
    ctx.Arrives included (run ++ run') where
  decode := List.forall_mem_append.mpr ⟨h.decode, h'.decode⟩
  signed := List.forall_mem_append.mpr ⟨h.signed, h'.signed⟩
  nodup := by
    rw [List.map_append, List.nodup_append]
    refine ⟨h.nodup, h'.nodup, ?_⟩
    intro hash hmem hash' hmem' heq
    obtain ⟨t, ht, rfl⟩ := List.mem_map.mp hmem'
    exact h'.new t ht (List.mem_append_right _ (heq ▸ hmem))
  new := by
    refine List.forall_mem_append.mpr ⟨h.new, fun t ht hmem => ?_⟩
    exact h'.new t ht (List.mem_append_left _ hmem)

/-- A cut that gives nothing to some lanes is a cut for all of them. -/
private theorem IsCut.of_filter {p : LaneKind → Bool}
    (h : ctx.IsCut limits used (plan.map fun l => ⟨l.lane, l.kind.filter p⟩) cut) :
    ctx.IsCut limits used plan cut := by
  induction plan generalizing used cut with
  | nil => exact h
  | cons planned plan ih =>
    obtain ⟨lane, kind⟩ := planned
    cases cut with
    | nil => cases hkind : kind.filter p <;> simp [hkind, IsCut] at h
    | cons run cut =>
      cases kind with
      | none =>
        obtain ⟨hrun, h⟩ := h
        exact ⟨hrun, ih h⟩
      | some kind =>
        by_cases hp : p kind
        · -- The lane takes part in both plans, with the same segment.
          simp only [List.map_cons, Option.filter_some, hp, if_true] at h
          exact ⟨h.1, ih h.2⟩
        · -- The lane was left out, which is an empty segment of it.
          simp only [List.map_cons, Option.filter_some, hp] at h
          obtain ⟨rfl, h⟩ := h
          refine ⟨isSegment_nil, ?_⟩
          rw [List.map_nil, BlockSpace.ofTxs, List.foldl_nil, BlockSpace.add_zero]
          exact ih h

/-- Filling the lanes of a plan adds the segments of a cut to the block. -/
theorem exists_cut_of_assembleFrom (hoffers : ∀ kind, ctx.Offers kind (pending kind))
    (hfilled : filled.used.fits limits)
    (h : ctx.assembleFrom limits pending filled plan = .ok s) :
    ∃ cut, s.txs = filled.txs ++ cut.flatten.map ReceivedTx.block ∧
      ctx.unpending.IsCut limits filled.used plan cut ∧
      ctx.Arrives (filled.txs.map BlockTx.hash) cut.flatten ∧
      (filled.used.add (.ofTxs (cut.flatten.map ReceivedTx.block))).fits limits := by
  -- From any selection that fits the block; a lane adds a segment, which may be empty.
  induction h using assembleFrom_induction with
  | nil =>
    refine ⟨[], by simp, trivial, by constructor <;> simp, ?_⟩
    simpa [BlockSpace.ofTxs] using hfilled
  | skip _ ih =>
    obtain ⟨cut, htxs, hcut, harrives, hfits⟩ := ih hfilled
    exact ⟨[] :: cut, htxs, ⟨rfl, hcut⟩, harrives, hfits⟩
  | @select _ _ kind _ _ hselect _ ih =>
    obtain ⟨run, hrun, hused, hsegment, harrives⟩ := exists_run_of_select (hoffers kind) hselect
    -- The budget of the lane is part of what is free, so the block still fits.
    have hfilled := BlockSpace.fits_add_of_budget hfilled hsegment.fits
    rw [← hused] at hfilled
    obtain ⟨cut, htxs, hcut, hrest, hfits⟩ := ih hfilled
    simp only [hused, hrun, BlockSpace.add_assoc] at htxs hcut hrest hfits
    refine ⟨run :: cut, ?_, ⟨hsegment, hcut⟩, ?_, ?_⟩
    · rw [htxs, List.flatten_cons, List.map_append, List.append_assoc]
    · apply harrives.append
      rwa [List.map_append, List.map_map] at hrest
    · rwa [List.flatten_cons, List.map_append, BlockSpace.ofTxs_append]

/-- A block that was built, from all lanes of a plan or some, is accepted by all of them. -/
theorem review_of_assemble {p : LaneKind → Bool}
    (hoffers : ∀ kind, ctx.Offers kind (pending kind))
    (hplan : (plan.filterMap PlannedLane.kind).Nodup)
    (h : ctx.assemble limits pending (plan.map fun l => ⟨l.lane, l.kind.filter p⟩) = .ok s) :
    ctx.unpending.review limits plan (s.txs.map BlockTx.raw) = .ok () := by
  obtain ⟨cut, htxs, hcut, harrives, hfits⟩ :=
    exists_cut_of_assembleFrom hoffers (BlockSpace.zero_fits limits) h
  have htxs : s.txs = cut.flatten.map ReceivedTx.block := htxs
  refine review_of_isCut hplan ?_ harrives.signed harrives.nodup ?_ rfl hcut.of_filter
  · rw [htxs, List.map_map, List.map_map]
    exact List.map_congr_left harrives.decode
  · rwa [Selection.empty, BlockSpace.zero_add] at hfits

/-! ### When a block can be built -/

/-- Filling lanes only fails where selecting for one does. -/
theorem exists_ok_of_assembleFrom (ctx : LaneContext) (limits : BlockSpace)
    (pending : LaneKind → List PendingTx) (filled : Selection)
    (hselect : ∀ kind ∈ plan.filterMap PlannedLane.kind, ∀ budget included,
      ∃ s, ctx.select kind budget included (pending kind) = .ok s) :
    ∃ s, ctx.assembleFrom limits pending filled plan = .ok s := by
  induction plan generalizing filled with
  | nil => exact ⟨filled, rfl⟩
  | cons planned plan ih =>
    obtain ⟨lane, kind⟩ := planned
    cases kind with
    | none => exact ih filled hselect
    | some kind =>
      have hkinds : (⟨lane, some kind⟩ :: plan).filterMap PlannedLane.kind =
          kind :: plan.filterMap PlannedLane.kind := List.filterMap_cons_some rfl
      rw [hkinds, List.forall_mem_cons] at hselect
      obtain ⟨s, hs⟩ := hselect.1 (BlockSpace.budget limits filled.used lane.fraction)
        (filled.txs.map BlockTx.hash)
      rw [assembleFrom, hs]
      exact ih _ hselect.2

/-- Free and base lanes ask nothing of the ledger. -/
theorem exists_select_of_ne_auction (ctx : LaneContext) {kind : LaneKind} (hkind : kind ≠ .auction)
    (budget : BlockSpace) (included : List Hash) (candidates : List PendingTx) :
    ∃ s, ctx.select kind budget included candidates = .ok s := by
  cases kind with
  | auction => exact absurd rfl hkind
  | free => exact ⟨_, rfl⟩
  | base => exact ⟨_, rfl⟩

end LaneContext

end LaneAuction
