import Mathlib

/-
  The backward walk of a look-ahead planner.

  A path is a list of segments, and the walk goes from its end to its start.  The value at the
  start of a segment `a` is the smallest of its cap `cap a` and the value at its end raised by
  `delta a`; after the last segment the value is `z`.  For a speed planner the value is a squared
  speed, the cap the segment's limit, the delta what the segment's acceleration can add, and `z`
  the speed the path must end with.

  1. The walk over a concatenation is the walk over the front from the value the back gives
     (`backReach_append`); it is monotone in the end value, the caps and the deltas
     (`backReach_le_backReach`), and never above the first cap (`backReach_cons_le_cap`).
  2. **Capped segments.**  Where the walk meets a segment's cap, a higher end value changes
     nothing before it (`backReach_eq_of_capped`): the segments that a path's extension adds
     cannot raise a value the cap already holds.
-/

namespace BackPass

variable {α β : Type*} [AddCommMonoid β] [LinearOrder β] [IsOrderedAddMonoid β]

/-- The value at the start of the path `l` when it must end at `z`. -/
def backReach (cap delta : α → β) (z : β) (l : List α) : β :=
  l.foldr (fun a v => min (cap a) (v + delta a)) z

variable {cap delta cap' delta' : α → β} {z z' : β} {a : α} {l l' : List α}

omit [IsOrderedAddMonoid β] in
@[simp] theorem backReach_nil : backReach cap delta z [] = z := rfl

omit [IsOrderedAddMonoid β] in
@[simp] theorem backReach_cons :
    backReach cap delta z (a :: l) = min (cap a) (backReach cap delta z l + delta a) := rfl

omit [IsOrderedAddMonoid β] in
theorem backReach_append :
    backReach cap delta z (l ++ l') = backReach cap delta (backReach cap delta z l') l := by
  simp [backReach, List.foldr_append]

omit [IsOrderedAddMonoid β] in
theorem backReach_cons_le_cap : backReach cap delta z (a :: l) ≤ cap a := min_le_left _ _

/-- The walk is monotone in everything it reads. -/
theorem backReach_le_backReach (hcap : ∀ a ∈ l, cap a ≤ cap' a)
    (hdelta : ∀ a ∈ l, delta a ≤ delta' a) (hz : z ≤ z') :
    backReach cap delta z l ≤ backReach cap' delta' z' l := by
  induction l with
  | nil => exact hz
  | cons a l ih =>
    have ih' := ih (fun b hb => hcap b (List.mem_cons_of_mem a hb))
      (fun b hb => hdelta b (List.mem_cons_of_mem a hb))
    simp only [backReach_cons]
    exact min_le_min (hcap a List.mem_cons_self)
      (add_le_add ih' (hdelta a List.mem_cons_self))

theorem backReach_mono (hz : z ≤ z') : backReach cap delta z l ≤ backReach cap delta z' l :=
  backReach_le_backReach (fun _ _ => le_rfl) (fun _ _ => le_rfl) hz

theorem backReach_nonneg (hcap : ∀ a ∈ l, 0 ≤ cap a) (hdelta : ∀ a ∈ l, 0 ≤ delta a)
    (hz : 0 ≤ z) : 0 ≤ backReach cap delta z l := by
  induction l with
  | nil => exact hz
  | cons a l ih =>
    have ih' := ih (fun b hb => hcap b (List.mem_cons_of_mem a hb))
      (fun b hb => hdelta b (List.mem_cons_of_mem a hb))
    exact le_min (hcap a List.mem_cons_self)
      (add_nonneg ih' (hdelta a List.mem_cons_self))

/-! ## Capped segments -/

/-- A walk that meets the cap of its first segment stays there for any higher end value. -/
theorem backReach_eq_of_capped (h : backReach cap delta z (a :: l) = cap a) (hz : z ≤ z') :
    backReach cap delta z' (a :: l) = cap a :=
  le_antisymm backReach_cons_le_cap (h ▸ backReach_mono hz)

/-- Segments in front of a capped one see the same walk for any higher end value. -/
theorem backReach_append_eq_of_capped (h : backReach cap delta z (a :: l) = cap a)
    (hz : z ≤ z') (pre : List α) :
    backReach cap delta z' (pre ++ a :: l) = backReach cap delta z (pre ++ a :: l) := by
  rw [backReach_append, backReach_append, backReach_eq_of_capped h hz, h]

end BackPass
