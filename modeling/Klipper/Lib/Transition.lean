import Mathlib.Logic.Relation

/-
  Transition systems: the states reachable from an initial condition, and the rule that proves
  an invariant of every reachable state from one base case and one step case.

  A system is an initial predicate `init` and a step relation `next`; a component with commands
  and events is turned into one by `ofStep`, which lets any enabled action fire.  Properties that
  hold only "while" some observed quantity stays in a range are stated over `within G`, the
  system whose every step must land in `G`: its reachable states are exactly the ends of runs that
  never leave `G`, and an invariant of it may use `G` at the state a step starts from.  A system
  refines another when a map sends each of its runs to a run of the other (`Reachable.map`);
  what holds in every reachable state of the other then holds of the image.
-/

namespace Transition

variable {σ α : Type*}

/-- The states reachable from a state satisfying `init` along steps of `next`. -/
inductive Reachable (init : σ → Prop) (next : σ → σ → Prop) : σ → Prop
  | init {s : σ} : init s → Reachable init next s
  | step {s s' : σ} : Reachable init next s → next s s' → Reachable init next s'

/-- The step relation of a partial transition function: some action is enabled and leads
    from `s` to `s'`. -/
def ofStep (step : σ → α → Option σ) (s s' : σ) : Prop := ∃ a, step s a = some s'

/-- The step relation of a partial transition function whose actions are limited by `ok`: some
    action that `ok` allows in `s` leads from `s` to `s'`.  This is how an environment's promises
    about the actions it takes enter a system. -/
def ofStepIf (ok : σ → α → Prop) (step : σ → α → Option σ) (s s' : σ) : Prop :=
  ∃ a, ok s a ∧ step s a = some s'

/-- The actions `as` one after another from `s`, each one that `ok` allows and that is enabled;
    `none` once one is not.  A concrete run to a reachable state, for tests. -/
def runIf (ok : σ → α → Prop) [∀ s a, Decidable (ok s a)] (step : σ → α → Option σ) :
    σ → List α → Option σ
  | s, [] => some s
  | s, a :: as => if ok s a then (step s a).bind fun s' => runIf ok step s' as else none

/-- The runs that stay in `G`: a step is allowed only when it lands in `G`. -/
def within (G : σ → Prop) (next : σ → σ → Prop) (s s' : σ) : Prop := next s s' ∧ G s'

section Rules

variable {init : σ → Prop} {next : σ → σ → Prop}

/-- **Invariant rule.**  A predicate that holds initially and is kept by every step holds in
    every reachable state. -/
theorem Reachable.inv {I : σ → Prop} (hinit : ∀ s, init s → I s)
    (hstep : ∀ s s', I s → next s s' → I s') {s : σ} (h : Reachable init next s) : I s := by
  induction h with
  | init hs => exact hinit _ hs
  | step _ hn ih => exact hstep _ _ ih hn

/-- A reachable state of a system restricted to `G`, started in `G`, is in `G`. -/
theorem Reachable.guard {G : σ → Prop} {s : σ}
    (h : Reachable (fun s => init s ∧ G s) (within G next) s) : G s := by
  cases h with
  | init hs => exact hs.2
  | step _ hn => exact hn.2

/-- **Invariant rule within a guard.**  The step case may assume the guard at both ends of the
    step: the invariant needs to hold only along runs that stay in `G`. -/
theorem Reachable.inv_within {G I : σ → Prop} (hinit : ∀ s, init s → G s → I s)
    (hstep : ∀ s s', I s → G s → next s s' → G s' → I s') {s : σ}
    (h : Reachable (fun s => init s ∧ G s) (within G next) s) : I s ∧ G s := by
  refine Reachable.inv (I := fun s => I s ∧ G s) ?_ ?_ h
  · rintro s ⟨hi, hg⟩
    exact ⟨hinit s hi hg, hg⟩
  · rintro s s' ⟨hI, hG⟩ ⟨hn, hG'⟩
    exact ⟨hstep s s' hI hG hn hG', hG'⟩

/-- Every run `runIf` completes ends in a reachable state. -/
theorem Reachable.runIf {ok : σ → α → Prop} [∀ s a, Decidable (ok s a)]
    {step : σ → α → Option σ} {init : σ → Prop} {s s' : σ}
    (h : Reachable init (ofStepIf ok step) s) (as : List α)
    (hrun : Transition.runIf ok step s as = some s') : Reachable init (ofStepIf ok step) s' := by
  induction as generalizing s with
  | nil =>
    cases hrun
    exact h
  | cons a as ih =>
    simp only [Transition.runIf] at hrun
    split at hrun
    · rename_i hok
      obtain ⟨s1, hs1, hrest⟩ := Option.bind_eq_some_iff.mp hrun
      exact ih (.step h ⟨a, hok, hs1⟩) hrest
    · cases hrun

/-- Reachable states are closed under runs of the same system. -/
theorem Reachable.steps {s s' : σ} (h : Reachable init next s)
    (hs : Relation.ReflTransGen next s s') : Reachable init next s' := by
  induction hs with
  | refl => exact h
  | tail _ hn ih => exact .step ih hn

/-- **Simulation rule.**  A map that takes initial states to initial states, and every step from
    a reachable state to a run of the other system (possibly empty), takes reachable states to
    reachable states. -/
theorem Reachable.map {τ : Type*} {init' : τ → Prop} {next' : τ → τ → Prop} (f : σ → τ)
    (hinit : ∀ s, init s → init' (f s))
    (hstep : ∀ s s', Reachable init next s → next s s' → Relation.ReflTransGen next' (f s) (f s'))
    {s : σ} (h : Reachable init next s) : Reachable init' next' (f s) := by
  induction h with
  | init hs => exact .init (hinit _ hs)
  | step hr hn ih => exact ih.steps (hstep _ _ hr hn)

end Rules

end Transition
