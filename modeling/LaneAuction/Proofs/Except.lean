/-!
# Steps that can fail

A sequence of steps succeeds if every step does, each on the result of the one before. A step that
also works on a state is run on one; what it did to the state stays when it fails.

A check goes along a list and stops at the first element that fails (`List.FirstFails`). A check
that nothing comes twice keeps what it has seen (`List.nodup_map_cons_and_new_iff` is one step of
it).
-/

/-- Nothing of a list comes twice or was seen before, if that holds of the front and then of the
rest, with the front seen. -/
theorem List.nodup_map_cons_and_new_iff {α β : Type} {f : α → β} {first : α} {rest : List α}
    {seen : List β} :
    ((first :: rest).map f).Nodup ∧ (∀ a ∈ first :: rest, f a ∉ seen) ↔
      f first ∉ seen ∧ (rest.map f).Nodup ∧ ∀ a ∈ rest, f a ∉ f first :: seen := by
  rw [List.map_cons, List.nodup_cons, List.forall_mem_cons]
  constructor
  · intro h
    obtain ⟨⟨honce, hnodup⟩, hfirst, hrest⟩ := h
    refine ⟨hfirst, hnodup, ?_⟩
    intro a ha hmem
    obtain heq | hmem := List.mem_cons.mp hmem
    · exact honce (List.mem_map.mpr ⟨a, ha, heq⟩)
    · exact hrest a ha hmem
  · intro h
    obtain ⟨hfirst, hnodup, hrest⟩ := h
    -- What is new behind `f first :: seen` is both new and not `f first`.
    have honce : f first ∉ rest.map f := by
      intro hmem
      obtain ⟨a, ha, heq⟩ := List.mem_map.mp hmem
      exact hrest a ha (List.mem_cons.mpr (.inl heq))
    have hnew : ∀ a ∈ rest, f a ∉ seen := by
      intro a ha hmem
      exact hrest a ha (List.mem_cons_of_mem _ hmem)
    exact ⟨⟨honce, hnodup⟩, hfirst, hnew⟩

namespace List

variable {α ε : Type} {Passes : List α → α → Prop} {Fails : List α → α → ε → Prop}
  {done rest : List α} {first : α} {e : ε}

/-- Every element passes behind those in front of it, `done` in front of all. -/
def AllPass (Passes : List α → α → Prop) (done rest : List α) : Prop :=
  ∀ before a after, rest = before ++ a :: after → Passes (done ++ before) a

/-- An element fails behind others that all pass. -/
def FirstFails (Passes : List α → α → Prop) (Fails : List α → α → ε → Prop) (done rest : List α)
    (e : ε) : Prop :=
  ∃ before a after, rest = before ++ a :: after ∧ AllPass Passes done before ∧
    Fails (done ++ before) a e

@[simp] theorem allPass_nil : AllPass Passes done [] := by
  intro before a after heq
  simp at heq

@[simp] theorem not_firstFails_nil : ¬ FirstFails Passes Fails done [] e := by
  intro h
  obtain ⟨before, a, after, heq, -⟩ := h
  simp at heq

/-- All pass if the first does, and the rest do behind it. -/
theorem allPass_cons_iff : AllPass Passes done (first :: rest) ↔
    Passes done first ∧ AllPass Passes (done ++ [first]) rest := by
  constructor
  · intro h
    have hfirst := h [] first rest rfl
    rw [append_nil] at hfirst
    refine ⟨hfirst, fun before a after heq => ?_⟩
    rw [append_assoc]
    exact h (first :: before) a after (congrArg (first :: ·) heq)
  · intro h before a after heq
    obtain ⟨hfirst, hrest⟩ := h
    cases before with
    | nil =>
      obtain ⟨rfl, rfl⟩ := cons.inj heq
      rwa [append_nil]
    | cons b before =>
      obtain ⟨rfl, hrest'⟩ := cons.inj heq
      have h := hrest before a after hrest'
      rwa [append_assoc] at h

/-- The first fails, or passes and the first failure is among the rest. -/
theorem firstFails_cons_iff : FirstFails Passes Fails done (first :: rest) e ↔
    Fails done first e ∨ Passes done first ∧ FirstFails Passes Fails (done ++ [first]) rest e := by
  constructor
  · intro h
    obtain ⟨before, a, after, heq, hpass, hfails⟩ := h
    -- The one that fails is the first, or it stands in the rest behind one more that passes.
    cases before with
    | nil =>
      obtain ⟨rfl, rfl⟩ := cons.inj heq
      rw [append_nil] at hfails
      exact .inl hfails
    | cons b before =>
      obtain ⟨rfl, hrest⟩ := cons.inj heq
      obtain ⟨hfirst, hpass⟩ := allPass_cons_iff.mp hpass
      refine .inr ⟨hfirst, before, a, after, hrest, hpass, ?_⟩
      rwa [append_assoc]
  · intro h
    obtain hfails | ⟨hfirst, before, a, after, rfl, hpass, hfails⟩ := h
    · refine ⟨[], first, rest, rfl, allPass_nil, ?_⟩
      rwa [append_nil]
    · refine ⟨first :: before, a, after, rfl, allPass_cons_iff.mpr ⟨hfirst, hpass⟩, ?_⟩
      rwa [append_assoc] at hfails

end List

namespace Except

variable {ε ε' α β : Type}

@[simp] theorem pure_eq_ok (a : α) : (pure a : Except ε α) = .ok a := rfl

@[simp] theorem throw_eq_error (e : ε) : (throw e : Except ε α) = .error e := rfl

@[simp] theorem ok_bind (a : α) (f : α → Except ε β) : (.ok a >>= f) = f a := rfl

@[simp] theorem error_bind (e : ε) (f : α → Except ε β) : (.error e >>= f) = .error e := rfl

@[simp] theorem mapError_ok (f : ε → ε') (a : α) : (.ok a : Except ε α).mapError f = .ok a := rfl

@[simp] theorem mapError_error (f : ε → ε') (e : ε) :
    (.error e : Except ε α).mapError f = .error (f e) := rfl

/-- A sequence succeeds if both steps do, the second on what the first returns. -/
theorem bind_eq_ok_iff {x : Except ε α} {f : α → Except ε β} {b : β} :
    (x >>= f) = .ok b ↔ ∃ a, x = .ok a ∧ f a = .ok b := by
  cases x <;> simp

/-- Mapping the error keeps a success as it is. -/
theorem mapError_eq_ok_iff {x : Except ε α} {f : ε → ε'} {a : α} :
    x.mapError f = .ok a ↔ x = .ok a := by
  cases x <;> simp

/-- A check in front of further steps is passed if its fault is absent. -/
theorem check_eq_ok_iff {c : Prop} [Decidable c] {e : ε} {f : α → Except ε β} {x : Except ε β}
    {b : β} : (if c then throw e >>= f else x) = .ok b ↔ ¬ c ∧ x = .ok b := by
  by_cases hc : c <;> simp [hc]

/-- A sequence fails on the first step, or on the second if the first succeeds. -/
theorem bind_eq_error_iff {x : Except ε α} {f : α → Except ε β} {e : ε} :
    (x >>= f) = .error e ↔ x = .error e ∨ ∃ a, x = .ok a ∧ f a = .error e := by
  cases x <;> simp

/-- Mapping the error changes the error and nothing else. -/
theorem mapError_eq_error_iff {x : Except ε α} {f : ε → ε'} {e : ε'} :
    x.mapError f = .error e ↔ ∃ cause, x = .error cause ∧ f cause = e := by
  cases x <;> simp

/-- A check in front of further steps fails with its fault, or lets one of theirs through. -/
theorem check_eq_error_iff {c : Prop} [Decidable c] {e e' : ε} {f : α → Except ε β}
    {x : Except ε β} :
    (if c then throw e >>= f else x) = .error e' ↔ c ∧ e = e' ∨ ¬ c ∧ x = .error e' := by
  by_cases hc : c <;> simp [hc]

/-- A check behind which nothing follows. -/
theorem last_check_eq_ok_iff {c : Prop} [Decidable c] {e : ε} :
    (if c then throw e else pure PUnit.unit : Except ε PUnit.{1}) = .ok PUnit.unit ↔ ¬ c := by
  by_cases hc : c <;> simp [hc]

/-- A step in front of further steps that is taken on a condition only. -/
theorem ite_bind_eq_ok_iff {c : Prop} [Decidable c] {x : Except ε α} {y : Except ε β} {b : β} :
    (if c then x >>= fun _ => y else y) = .ok b ↔ (c → ∃ a, x = .ok a) ∧ y = .ok b := by
  by_cases hc : c <;> simp [hc, bind_eq_ok_iff]

/-- Behind a check that is made on a condition: the check is made and fails, or what follows does.
-/
theorem ite_bind_eq_error_iff {c : Prop} [Decidable c] {x : Except ε α} {y : Except ε β} {e : ε} :
    (if c then x >>= fun _ => y else y) = .error e ↔
      c ∧ x = .error e ∨ (c → ∃ a, x = .ok a) ∧ y = .error e := by
  by_cases hc : c <;> simp [hc, bind_eq_error_iff]

end Except

namespace ExceptT

variable {ε σ α β : Type} {s : σ}

@[simp] theorem run_run_throw (e : ε) :
    (throw e : ExceptT ε (StateM σ) α).run.run s = (.error e, s) := rfl

@[simp] theorem run_run_get : (get : ExceptT ε (StateM σ) σ).run.run s = (.ok s, s) := rfl

@[simp] theorem run_run_set (s' : σ) :
    (set s' : ExceptT ε (StateM σ) PUnit).run.run s = (.ok ⟨⟩, s') := rfl

@[simp] theorem run_run_modify (f : σ → σ) :
    (modify f : ExceptT ε (StateM σ) PUnit).run.run s = (.ok ⟨⟩, f s) := rfl

@[simp] theorem run_run_liftM (x : Except ε α) :
    (liftM x : ExceptT ε (StateM σ) α).run.run s = (x, s) := by
  cases x <;> rfl

/-- A sequence runs the second step on what the first returns and in the state that it leaves; an
error of the first ends it. -/
theorem run_run_bind (x : ExceptT ε (StateM σ) α) (f : α → ExceptT ε (StateM σ) β) :
    (x >>= f).run.run s = match x.run.run s with
      | (.ok a, s') => (f a).run.run s'
      | (.error e, s') => (.error e, s') := by
  rw [run_bind, StateT.run_bind]
  rcases x.run.run s with ⟨_ | _, _⟩ <;> rfl

/-- A check ends the sequence if its condition holds, and else changes nothing. -/
theorem run_run_check {c : Prop} [Decidable c] (e : ε) (f : α → ExceptT ε (StateM σ) β)
    (x : ExceptT ε (StateM σ) β) :
    (if c then throw e >>= f else x).run.run s = if c then (.error e, s) else x.run.run s := by
  split
  · rw [run_run_bind, run_run_throw]
  · rfl

/-- A handler runs on the error of a step, in the state that the step leaves. -/
theorem run_run_tryCatch (x : ExceptT ε (StateM σ) α) (f : ε → ExceptT ε (StateM σ) α) :
    (tryCatch x f).run.run s = match x.run.run s with
      | (.ok a, s') => (.ok a, s')
      | (.error e, s') => (f e).run.run s' := by
  rw [run_tryCatch, StateT.run_bind]
  rcases x.run.run s with ⟨_ | _, _⟩ <;> rfl

end ExceptT
