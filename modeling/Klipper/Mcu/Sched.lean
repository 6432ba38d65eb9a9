import Mathlib.Logic.Function.Basic
import Klipper.Lib.Transition
import Klipper.Mcu.Board

/-
  The timer list of the MCU scheduler (`src/sched.c`).

  Timers are kept in one singly linked list, `SchedStatus.timer_list`, sorted by waketime.  The
  list always holds `periodic_timer`, which reschedules itself every 100 ms, and ends at
  `sentinel_timer`, whose waketime is kept `2^31` ticks after the periodic one, so that every
  walk that looks for a waketime stops before running off its end.  A timer deleted while it is
  the head is replaced by the stand-in `deleted_timer`, and `SchedStatus.last_insert` remembers
  the timer rescheduled last, from which the next reschedule starts its walk.

  The model is the heap itself: every timer has a `next` pointer (`none` is NULL) and a waketime,
  and the four operations of `sched.c` rewrite them as the C code does.  The walks of
  `insert_timer` and `sched_del_timer` follow at most `fuel` links; the firmware's walks are
  unbounded, and a walk that needs more links, or that reaches a NULL `next`, is a step the
  model does not take.

  This fork's `sched_add_timer` differs from upstream: a timer added for a time that has
  already passed is moved to two microseconds after the current time and still put at the head
  of the list, without comparing it with the timer that was at the head.  When that timer is due
  sooner, the list is no longer sorted (`schedAddTimer_late_unordered`).
-/

namespace Klipper.Sched

open Function Transition

/-- The timers the scheduler links: the three of `sched.c` and the user timers, named by `ι`. -/
inductive TimerId (ι : Type)
  | periodic
  | sentinel
  | deleted
  | user (i : ι)
deriving DecidableEq, Repr

variable {ι : Type} [DecidableEq ι]

/-- The scheduler's timer heap: the `next` pointer and `waketime` of every `struct timer`, and
    the two pointers of `SchedStatus`. -/
structure SchedState (ι : Type) where
  next : TimerId ι → Option (TimerId ι)
  waketime : TimerId ι → UInt32
  timerList : TimerId ι
  lastInsert : TimerId ι

/-- The state at reset: the static initialisers of the three timers and of `SchedStatus`.  User
    timers are not linked; their waketime is set by their owner before each `sched_add_timer`. -/
def schedInit : SchedState ι where
  next t := if t = .periodic then some .sentinel else none
  waketime t := if t = .sentinel then 0x80000000 else 0
  timerList := .periodic
  lastInsert := .periodic

/-! ## The operations of `sched.c` -/

/-- `periodic_event`: move the periodic timer 100 ms on and the sentinel `2^31` ticks after it. -/
def periodicEvent (timerFromUs : UInt32 → UInt32) (s : SchedState ι) : SchedState ι :=
  let w := s.waketime .periodic + timerFromUs 100000
  { s with waketime := update (update s.waketime .periodic w) .sentinel (w + 0x80000000) }

/-- `insert_timer(pos, t, waketime)`: walk from `pos` to the first timer that `waketime` is
    before, and link `t` in front of it. -/
def insertTimer (s : SchedState ι) : Nat → TimerId ι → TimerId ι → UInt32 → Option (SchedState ι)
  | 0, _, _, _ => none
  | fuel + 1, prev, t, waketime =>
    match s.next prev with
    | none => none
    | some pos =>
      if timerIsBefore waketime (s.waketime pos) then
        -- t->next = pos; prev->next = t;
        some { s with next := update (update s.next t (some pos)) prev (some t) }
      else insertTimer s fuel pos t waketime

/-- `sched_add_timer(add)`, with `now` the value `timer_read_time` returns.  A timer due before
    the head goes to the front, behind a `deleted_timer` that carries its waketime; one whose
    time has passed is first moved to `now + timer_from_us(2)` (`addTimerWaketime`). -/
def schedAddTimer (timerFromUs : UInt32 → UInt32) (fuel : Nat) (s : SchedState ι) (add : TimerId ι)
    (now : UInt32) : Option (SchedState ι) :=
  let tl := s.timerList
  if timerIsBefore (s.waketime add) (s.waketime tl) then
    let waketime := addTimerWaketime timerFromUs (s.waketime tl) now (s.waketime add)
    let addNext := if tl = .deleted then s.next .deleted else some tl
    some { s with next := update (update s.next add addNext) .deleted (some add),
                  waketime := update (update s.waketime add waketime) .deleted waketime,
                  timerList := .deleted }
  else insertTimer s fuel tl add (s.waketime add)

/-- The loop of `sched_del_timer` when `del` is not the head: walk until the `next` of `pos` is
    `del` and unlink it, or until a NULL `next` (`del` was not on the list). -/
def delWalk (s : SchedState ι) (del : TimerId ι) : Nat → TimerId ι → Option (SchedState ι)
  | 0, _ => none
  | fuel + 1, pos =>
    match s.next pos with
    | none => some s
    | some p =>
      if p = del then some { s with next := update s.next pos (s.next del) }
      else delWalk s del fuel p

/-- `sched_del_timer(del)`: a head timer is replaced by `deleted_timer`, any other is unlinked;
    a deleted `last_insert` falls back to the periodic timer. -/
def schedDelTimer (fuel : Nat) (s : SchedState ι) (del : TimerId ι) : Option (SchedState ι) := do
  let s ← if s.timerList = del then
      some { s with waketime := update s.waketime .deleted (s.waketime del),
                    next := update s.next .deleted (s.next del),
                    timerList := .deleted }
    else delWalk s del fuel s.timerList
  some { s with lastInsert := if s.lastInsert = del then .periodic else s.lastInsert }

/-- The callback `sched_timer_dispatch` runs for the head timer: the three timers of `sched.c`
    run their own (`sentinel_event` shuts down, which the model has as no step), and a user
    timer returns `res` after setting its waketime to `waketime`. -/
def runCallback (timerFromUs : UInt32 → UInt32) (s : SchedState ι) (res : SchedResult)
    (waketime : UInt32) : Option (SchedState ι × SchedResult) :=
  match s.timerList with
  | .periodic => some (periodicEvent timerFromUs s, .reschedule)
  | .sentinel => none
  | .deleted => some (s, .done)
  | .user i => some ({ s with waketime := update s.waketime (.user i) waketime }, res)

/-- `sched_timer_dispatch`: run the head timer, then drop it (`SF_DONE`) or, when its new
    waketime is not before its successor's, reinsert it, walking from `last_insert` unless the
    new waketime is before that timer's. -/
def schedTimerDispatch (timerFromUs : UInt32 → UInt32) (fuel : Nat) (s : SchedState ι)
    (res : SchedResult) (waketime : UInt32) : Option (SchedState ι) := do
  let t := s.timerList
  let (s, res) ← runCallback timerFromUs s res waketime
  let updated := s.waketime t
  let tn ← s.next t
  match res with
  | .done =>
    some { s with timerList := tn, lastInsert := if s.lastInsert = t then tn else s.lastInsert }
  | .reschedule =>
    if timerIsBefore updated (s.waketime tn) then some s
    else
      let pos := if timerIsBefore updated (s.waketime s.lastInsert) then tn else s.lastInsert
      let s' ← insertTimer { s with timerList := tn } fuel pos t updated
      some { s' with lastInsert := t }

/-- `sched_timer_reset`: drop every user timer, leaving `deleted_timer` (at the periodic timer's
    waketime), the periodic timer and the sentinel. -/
def schedTimerReset (s : SchedState ι) : SchedState ι :=
  { s with timerList := .deleted,
           waketime := update s.waketime .deleted (s.waketime .periodic),
           next := update (update s.next .deleted (some .periodic)) .periodic (some .sentinel),
           lastInsert := .periodic }

/-! ## The scheduler as a transition system -/

/-- What can happen to the timer list: a user timer added with the waketime its owner set (at
    the time `now`), a user timer deleted, the head timer dispatched (a user callback's result
    and new waketime given), or a reset. -/
inductive SchedAct (ι : Type)
  | add (t : ι) (waketime now : UInt32)
  | del (t : ι)
  | dispatch (res : SchedResult) (waketime : UInt32)
  | reset

/-- One step of the scheduler. -/
def SchedState.step (timerFromUs : UInt32 → UInt32) (fuel : Nat) (s : SchedState ι) :
    SchedAct ι → Option (SchedState ι)
  | .add t waketime now =>
    schedAddTimer timerFromUs fuel { s with waketime := update s.waketime (.user t) waketime }
      (.user t) now
  | .del t => schedDelTimer fuel s (.user t)
  | .dispatch res waketime => schedTimerDispatch timerFromUs fuel s res waketime
  | .reset => some (schedTimerReset s)

/-- The timers on the list from `t`, following at most `fuel` links (the walk stops at a NULL
    `next`). -/
def SchedState.chain (s : SchedState ι) : Nat → TimerId ι → List (TimerId ι)
  | 0, _ => []
  | fuel + 1, t => t :: match s.next t with
    | none => []
    | some t' => s.chain fuel t'

/-- What the owners of timers promise: a timer is added only when it is not on the list, and a
    user callback that reschedules moves its timer less than `2^31` ticks on. -/
def SchedOk (fuel : Nat) (s : SchedState ι) : SchedAct ι → Prop
  | .add t _ _ => .user t ∉ s.chain fuel s.timerList
  | .dispatch .reschedule waketime =>
    match s.timerList with
    | .user _ => (waketime - s.waketime s.timerList).toNat < 2 ^ 31
    | _ => True
  | _ => True

/-- The list from the head is sorted as the scheduler reads it: the waketimes, taken as offsets
    from the head's, do not decrease along it. -/
def SchedState.Ordered (s : SchedState ι) (fuel : Nat) : Prop :=
  ((s.chain fuel s.timerList).map fun t => s.waketime t - s.waketime s.timerList).IsChain (· ≤ ·)

instance (s : SchedState ι) (fuel : Nat) : Decidable (s.Ordered fuel) :=
  inferInstanceAs (Decidable (List.IsChain _ _))

/-! ## A late timer breaks the order

  At a 16 MHz clock: the periodic timer fires at time 0 and moves to 1600000; at time 900 timer
  `A` (`false`) is added for 1001 and goes to the head; at time 1000 timer `B` (`true`) is added
  for 990, ten ticks late.  `B` is moved to 1032 and put at the head, in front of `A`, which is
  due at 1001. -/

/-- **This fork's late-timer branch breaks the timer list's order.**  A run of the scheduler
    in which every owner keeps its promises ends with the list `deleted_timer` (1032), `B`
    (1032), `A` (1001), `periodic_timer`, `sentinel_timer`: acyclic and ending at the sentinel,
    but not sorted. -/
theorem schedAddTimer_late_unordered :
    ∃ s : SchedState Bool,
      Reachable (· = schedInit) (ofStepIf (SchedOk 8) (SchedState.step (· * 16) 8)) s ∧
      s.chain 8 s.timerList = [.deleted, .user true, .user false, .periodic, .sentinel] ∧
      timerIsBefore (s.waketime (.user false)) (s.waketime (.user true)) ∧
      ¬ s.Ordered 8 := by
  refine ⟨_, .step (.step (.step (.init rfl) ⟨.dispatch .done 0, trivial, rfl⟩)
    ⟨.add false 1001 900, by simp only [SchedOk]; decide, rfl⟩)
    ⟨.add true 990 1000, by simp only [SchedOk]; decide, rfl⟩, ?_, ?_, ?_⟩
  all_goals decide

end Klipper.Sched
