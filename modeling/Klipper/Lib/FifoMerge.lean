import Mathlib.Logic.Function.Basic
import Klipper.Lib.Transition

/-
  Merging first-in first-out sources into one log.

  Several sources, named by `ι`, are handed items in batches; an item leaves a source only from
  its front, and is appended to one common log tagged with its source.  The sources may be
  interleaved in any order, so the log as a whole says little; what a merge promises is about
  one source at a time: the log read back for source `i` (`proj i`), followed by what `i` still
  holds, is exactly what `i` was handed.  Items keep their order within a source, and none is
  lost, repeated or invented.

  `Step` is the abstract system with its two moves, `give` and `take`, and `State.Fifo` the
  promise, which every reachable state keeps (`fifo_of_reachable`).  A concrete scheduler is
  shown to keep it by mapping its states onto `State` so that each of its steps becomes a run of
  `Step` (`Transition.Reachable.map`).
-/

namespace FifoMerge

variable {ι α : Type*} [DecidableEq ι]

/-- The items of source `i` in a tagged log, in log order. -/
def proj (i : ι) (log : List (ι × α)) : List α :=
  log.filterMap fun p => if p.1 = i then some p.2 else none

@[simp] theorem proj_nil (i : ι) : proj i ([] : List (ι × α)) = [] := rfl

@[simp] theorem proj_append (i : ι) (l₁ l₂ : List (ι × α)) :
    proj i (l₁ ++ l₂) = proj i l₁ ++ proj i l₂ :=
  List.filterMap_append

@[simp] theorem proj_singleton_self (i : ι) (x : α) : proj i [(i, x)] = [x] := by
  simp [proj]

@[simp] theorem proj_singleton_of_ne {i j : ι} (h : j ≠ i) (x : α) : proj i [(j, x)] = [] := by
  simp [proj, h]

/-- A state of a merge: what each source holds, the log, and what each source was handed. -/
structure State (ι α : Type*) where
  held : ι → List α
  log : List (ι × α)
  given : ι → List α

/-- Nothing handed over yet. -/
def State.init : State ι α := ⟨fun _ => [], [], fun _ => []⟩

/-- The two moves of a merge: a source is handed a batch at its back, or the front item of a
    source goes to the log. -/
inductive Step : State ι α → State ι α → Prop
  | give (s : State ι α) (i : ι) (xs : List α) :
      Step s ⟨Function.update s.held i (s.held i ++ xs), s.log,
        Function.update s.given i (s.given i ++ xs)⟩
  | take (s : State ι α) (i : ι) (x : α) (rest : List α) (h : s.held i = x :: rest) :
      Step s ⟨Function.update s.held i rest, s.log ++ [(i, x)], s.given⟩

/-- **The promise of a merge**: per source, the log and what is still held make up exactly what
    was handed over, in order. -/
def State.Fifo (s : State ι α) : Prop := ∀ i, proj i s.log ++ s.held i = s.given i

theorem fifo_init : (State.init : State ι α).Fifo := fun _ => rfl

/-- Both moves keep the promise; a move on one source leaves every other source as it was. -/
theorem State.Fifo.step {s s' : State ι α} (h : s.Fifo) (hs : Step s s') : s'.Fifo := by
  cases hs with
  | give i xs =>
    intro j
    by_cases hj : j = i
    · subst hj
      simp [← h j]
    · simp [Function.update_of_ne hj, h j]
  | take i x rest hx =>
    intro j
    by_cases hj : j = i
    · subst hj
      have hj := h j
      rw [hx] at hj
      simp [← hj]
    · simp [Function.update_of_ne hj, Ne.symm hj, h j]

/-- **Every reachable state keeps the promise.** -/
theorem fifo_of_reachable {s : State ι α}
    (h : Transition.Reachable (· = State.init) Step s) : s.Fifo :=
  Transition.Reachable.inv (fun _ hi => hi ▸ fifo_init) (fun _ _ hs hn => hs.step hn) h

end FifoMerge
