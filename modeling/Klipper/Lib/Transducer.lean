import Mathlib.Logic.Basic

/-
  Machines that emit a list of outputs on each input, and how a run of one refines a run of
  another.

  `run` runs a total machine; `runUntil` runs one whose steps may fail, keeping the outputs of
  the steps before the first failure.  A concrete machine refines an abstract one when each of
  its steps stands for a list of abstract inputs (`f`), which from the abstract image of the
  state leads to the image of the next state and emits the concrete outputs, seen through
  `view`.  `runUntil_refines` lifts that from one step to every run, along an invariant `I` of
  the concrete states.

  For total machines, `run_inv` is the invariant rule, and `run_simulates` the simulation rule
  for an abstract machine whose state is not a function of the concrete one: the two states are
  related by `R`, and what the abstract machine emits is what a function `g` observes of each
  concrete step, collected over the run by `inputs`.
-/

namespace Transducer

variable {σ τ α β ο ο' ε : Type*}

/-- The state a total machine reaches from `s` on the inputs `as`, and what it emits. -/
def run (step : σ → α → σ × List ο) : σ → List α → σ × List ο
  | s, [] => (s, [])
  | s, a :: as =>
    let r := run step (step s a).1 as
    (r.1, (step s a).2 ++ r.2)

@[simp] theorem run_nil (step : σ → α → σ × List ο) (s : σ) : run step s [] = (s, []) := rfl

@[simp] theorem run_cons (step : σ → α → σ × List ο) (s : σ) (a : α) (as : List α) :
    run step s (a :: as) =
      ((run step (step s a).1 as).1, (step s a).2 ++ (run step (step s a).1 as).2) := rfl

theorem run_append (step : σ → α → σ × List ο) (s : σ) (as bs : List α) :
    run step s (as ++ bs) =
      ((run step (run step s as).1 bs).1, (run step s as).2 ++ (run step (run step s as).1 bs).2) := by
  induction as generalizing s with
  | nil => simp
  | cons a as ih => simp [ih]

/-- **Invariant rule.**  What holds initially and is kept by every allowed step holds after
    every run of allowed steps. -/
theorem run_inv {step : σ → α → σ × List ο} {ok : α → Prop} {I : σ → Prop}
    (h : ∀ s a, ok a → I s → I (step s a).1) {s : σ} (hs : I s) (as : List α)
    (hok : ∀ a ∈ as, ok a) : I (run step s as).1 := by
  induction as generalizing s with
  | nil => exact hs
  | cons a as ih =>
    exact ih (h s a (hok a List.mem_cons_self) hs) fun b hb => hok b (List.mem_cons_of_mem a hb)

/-- The abstract inputs the steps of a run of a total machine stand for. -/
def inputs (step : σ → α → σ × List ο) (f : σ → α → List β) : σ → List α → List β
  | _, [] => []
  | s, a :: as => f s a ++ inputs step f (step s a).1 as

@[simp] theorem inputs_nil (step : σ → α → σ × List ο) (f : σ → α → List β) (s : σ) :
    inputs step f s [] = [] := rfl

@[simp] theorem inputs_cons (step : σ → α → σ × List ο) (f : σ → α → List β) (s : σ) (a : α)
    (as : List α) : inputs step f s (a :: as) = f s a ++ inputs step f (step s a).1 as := rfl

/-- What a run emits, seen through `view`, is what its steps emit, seen through `view`. -/
theorem inputs_filterMap (step : σ → α → σ × List ο) (view : ο → Option ο') (s : σ)
    (as : List α) :
    inputs step (fun s a => (step s a).2.filterMap view) s as = (run step s as).2.filterMap view := by
  induction as generalizing s with
  | nil => rfl
  | cons a as ih => simp [ih, List.filterMap_append]

section Simulation

variable {step : σ → α → σ × List ο} {astep : τ → β → τ × List ο'} {f : σ → α → List β}
  {g : σ → α → List ο'} {ok : α → Prop} {R : σ → τ → Prop}

/-- **Simulation rule.**  When each allowed step from states related by `R` is matched by the
    abstract run of the inputs it stands for (`f`), which keeps `R` and emits what `g` observes
    of the step, every run of allowed steps is matched by the abstract run of the inputs the
    whole run stands for. -/
theorem run_simulates
    (h : ∀ s t a, ok a → R s t →
      R (step s a).1 (run astep t (f s a)).1 ∧ (run astep t (f s a)).2 = g s a)
    {s : σ} {t : τ} (hst : R s t) (as : List α) (hok : ∀ a ∈ as, ok a) :
    R (run step s as).1 (run astep t (inputs step f s as)).1 ∧
      (run astep t (inputs step f s as)).2 = inputs step g s as := by
  induction as generalizing s t with
  | nil => exact ⟨hst, rfl⟩
  | cons a as ih =>
    obtain ⟨hR, hout⟩ := h s t a (hok a List.mem_cons_self) hst
    obtain ⟨hR', hout'⟩ := ih hR fun b hb => hok b (List.mem_cons_of_mem a hb)
    refine ⟨by simpa [run_append] using hR', ?_⟩
    simp only [inputs_cons, run_append, hout, hout']

end Simulation

/-- A run of a machine whose steps may fail: the state it stops in, the outputs of the steps
    that succeeded, and the failure that stopped it, if any. -/
def runUntil (step : σ → α → Except ε (σ × List ο)) : σ → List α → σ × List ο × Option ε
  | s, [] => (s, [], none)
  | s, a :: as =>
    match step s a with
    | .error e => (s, [], some e)
    | .ok (s', o) =>
      let r := runUntil step s' as
      (r.1, o ++ r.2.1, r.2.2)

/-- The abstract inputs the steps of a run stand for, up to the first failure. -/
def absInputs (step : σ → α → Except ε (σ × List ο)) (f : σ → α → List β) :
    σ → List α → List β
  | _, [] => []
  | s, a :: as =>
    match step s a with
    | .error _ => []
    | .ok (s', _) => f s a ++ absInputs step f s' as

/-- Each abstract input of a run is one that a step of the run stands for. -/
theorem mem_absInputs {step : σ → α → Except ε (σ × List ο)} {f : σ → α → List β} {b : β}
    {s : σ} {as : List α} (h : b ∈ absInputs step f s as) : ∃ s' a, a ∈ as ∧ b ∈ f s' a := by
  induction as generalizing s with
  | nil => simp [absInputs] at h
  | cons a as ih =>
    unfold absInputs at h
    split at h
    · simp at h
    · rcases List.mem_append.mp h with h | h
      · exact ⟨s, a, List.mem_cons_self, h⟩
      · obtain ⟨s', a', ha', hb⟩ := ih h
        exact ⟨s', a', List.mem_cons_of_mem a ha', hb⟩

section Refinement

variable {step : σ → α → Except ε (σ × List ο)} {astep : τ → β → τ × List ο'}
  {abs : σ → τ} {view : ο → ο'} {f : σ → α → List β} {I : σ → Prop}

/-- **Refinement rule.**  When every step from a state in `I` stays in `I` and is matched by the
    abstract run of the inputs it stands for, every run is: the abstract machine, run on the
    inputs the concrete run stands for, ends in the image of its last state and emits its
    outputs. -/
theorem runUntil_refines
    (h : ∀ s a s' o, I s → step s a = .ok (s', o) →
      I s' ∧ run astep (abs s) (f s a) = (abs s', o.map view))
    {s : σ} (hs : I s) (as : List α) :
    let r := runUntil step s as
    I r.1 ∧ run astep (abs s) (absInputs step f s as) = (abs r.1, r.2.1.map view) := by
  induction as generalizing s with
  | nil => exact ⟨hs, rfl⟩
  | cons a as ih =>
    unfold runUntil absInputs
    split
    · exact ⟨hs, rfl⟩
    · rename_i s' o hstep
      obtain ⟨hs', hrun⟩ := h s a s' o hs hstep
      obtain ⟨hI, hrest⟩ := ih hs'
      refine ⟨hI, ?_⟩
      rw [run_append, hrun]
      simp only [hrest, List.map_append]

end Refinement

end Transducer
