import Mathlib
import Klipper.Mcu.StepperPosition
import Klipper.Host.StepHistory

/-
  When the MCU's optimized step paths step, and how that meets the host's `check_line`.

  The host sends a move as `queue_step` with an `interval`, a `count` and an `add`: its steps
  come `interval` ticks after the last step, and each interval `add` longer than the one before.
  `check_line` of `klippy/chelper/stepcompress.c` accepts a move only when every step of that
  schedule, `stepTimes`, lands in the window of the step time it stands for.  On the MCU the
  stepper's timer runs the schedule: with `HAVE_EDGE_OPTIMIZATION` or `HAVE_AVR_OPTIMIZATION`,
  `stepper_event` adds `interval` to the waketime and `add` to `interval` at every step, and
  `stepper_load_next` starts the next move from the time of the last step.

  1. **Runs** (`eventTimes`): the scheduler runs the stepper's timer at its waketime, again and
     again, until the callback returns `SF_DONE`; each handler reads `timer_read_time()` some
     latency after its waketime, which the optimized paths never read.
  2. **Events** (`stepperEvent_inside`, `stepperEvent_load`, `stepperEvent_last`): one lemma per
     kind of event of a running stepper (`Running`), for both optimized builds.
  3. **Schedule** (`eventTimes_running`, `stepper_queue_step_times`): from any running state,
     the events are at the step times of the current move and then of each queued move in turn,
     and the timer stops after the last one; after `reset_step_clock` and a run of `queue_step`
     commands, these are the step times of the commanded moves.
  4. **Windows** (`stepper_steps_in_check_line_windows`): a move that `check_line` accepted,
     loaded by the MCU when its clock of the last step is the host's `last_step_clock`, steps
     inside every window.
  5. **Lock step** (`stepper_last_step_at_last_step_clock`): the last step of that move is at
     the `last_step_clock` that `add_move` records, as long as `count * (count - 1)` fits the
     `int` that `add_move` computes it in or `add` is zero; so the host and the MCU agree again
     on the clock the next move starts from.  The proof reads both sides as residues modulo
     `2^32` (`IntBits.wordRes`).
-/

namespace Klipper.Stepper

open StepCompress (stepTimes checkLine minmaxPoint)
open IntBits (wordRes)

/-! ## Runs of the stepper's timer -/

/-- The times at which the scheduler runs the stepper's timer, one event for each of the
    latencies `lats` at most: each event runs at the waketime it was scheduled for, its handler
    reads `timer_read_time()` the latency later, and the timer leaves the list when the callback
    returns `SF_DONE` or shuts down. -/
def eventTimes (b : Build) (timerFromUs : UInt32 → UInt32) : List UInt32 → Stepper → List UInt32
  | [], _ => []
  | l :: lats, s =>
    s.waketime :: match stepperEvent b timerFromUs (s.waketime + l) s with
      | (.ok .reschedule, s', _) => eventTimes b timerFromUs lats s'
      | _ => []

/-- The time of the last of the `n` steps after the step at `p`, the first `interval` ticks
    later and each interval `add` longer than the one before; `p` when there are none. -/
def lastStepTime (add : UInt32) : Nat → UInt32 → UInt32 → UInt32
  | 0, p, _ => p
  | n + 1, p, interval => lastStepTime add n (p + interval) (interval + add)

/-- The step times of queued moves, each move's steps after the last step of the one before. -/
def movesStepTimes (p : UInt32) : List StepperMove → List UInt32
  | [] => []
  | m :: ms => stepTimes (addTicks m.add) m.count.toNat p m.interval ++
      movesStepTimes (lastStepTime (addTicks m.add) m.count.toNat p m.interval) ms

/-- The steps left: the current move's and the queued moves'. -/
def stepsLeft (s : Stepper) : Nat := s.count.toNat + (s.mq.map fun m => m.count.toNat).sum

/-- An optimized stepper in the middle of its moves: a step is due at `waketime`, `count` of them
    are left in the current move (in the low half, where the AVR path decrements it), the AVR
    path's `SF_HAVE_ADD` says whether `add` is nonzero, and no queued move is empty
    (`command_queue_step` refuses a zero count). -/
structure Running (b : Build) (s : Stepper) : Prop where
  optimized : s.flags.optimizedPath = true
  count_pos : 0 < s.count.toNat
  count_lt : s.count.toNat < 2 ^ 16
  haveAdd : b = .avr → s.flags.haveAdd = (s.add != 0)
  queued : ∀ m ∈ s.mq, m.count ≠ 0

/-! ## The schedule of a move -/

section Schedule

variable (add : UInt32)

@[simp] theorem stepTimes_zero (p interval : UInt32) : stepTimes add 0 p interval = [] := rfl

theorem stepTimes_succ (n : Nat) (p interval : UInt32) :
    stepTimes add (n + 1) p interval =
      (p + interval) :: stepTimes add n (p + interval) (interval + add) := rfl

@[simp] theorem length_stepTimes (n : Nat) (p interval : UInt32) :
    (stepTimes add n p interval).length = n := by
  induction n generalizing p interval with
  | zero => rfl
  | succ n ih => simp [stepTimes_succ, ih]

/-- The schedule from `p` is the schedule from `0` moved by `p`. -/
theorem stepTimes_eq_map (n : Nat) (p interval : UInt32) :
    stepTimes add n p interval = (stepTimes add n 0 interval).map (p + ·) := by
  induction n generalizing p interval with
  | zero => rfl
  | succ n ih =>
    rw [stepTimes_succ, stepTimes_succ, ih, ih (0 + interval), List.map_cons, List.map_map]
    congr 1
    · rw [zero_add]
    · congr 1
      funext x
      simp only [Function.comp_apply, zero_add, add_assoc]

/-- The last step of a nonempty schedule is `lastStepTime`. -/
theorem getLast?_stepTimes (n : Nat) (p interval : UInt32) (hn : n ≠ 0) :
    (stepTimes add n p interval).getLast? = some (lastStepTime add n p interval) := by
  induction n generalizing p interval with
  | zero => exact absurd rfl hn
  | succ n ih =>
    rw [stepTimes_succ, lastStepTime]
    cases n with
    | zero => rfl
    | succ n =>
      rw [List.getLast?_cons, ih (p + interval) (interval + add) (Nat.succ_ne_zero n)]
      rfl

/-- Modulo `2^32`, the last of `n` steps is `n` intervals and `n * (n - 1) / 2` additions of
    `add` after `p`. -/
theorem wordRes_lastStepTime (n : Nat) (p interval : UInt32) :
    wordRes (lastStepTime add n p interval) =
      wordRes p + n * wordRes interval + (n * (n - 1) / 2 : Nat) * wordRes add := by
  induction n generalizing p interval with
  | zero => simp [lastStepTime]
  | succ n ih =>
    rw [lastStepTime, ih, IntBits.wordRes_add, IntBits.wordRes_add, Nat.triangle_succ]
    push_cast
    ring

end Schedule

/-! ## The events of a running stepper -/

section Events

variable {b : Build} {s : Stepper} (timerFromUs : UInt32 → UInt32) (curtime : UInt32)

theorem addTicks_zero : addTicks 0 = 0 := rfl

/-- An optimized stepper runs the edge or the AVR callback, by build. -/
theorem stepperEvent_optimized (hb : b.haveOptimizedPath = true)
    (ho : s.flags.optimizedPath = true) :
    stepperEvent b timerFromUs curtime s =
      (.ok (if b = .edge then stepperEventEdge b s else stepperEventAvr b s).1,
        (if b = .edge then stepperEventEdge b s else stepperEventAvr b s).2.1,
        (if b = .edge then stepperEventEdge b s else stepperEventAvr b s).2.2) := by
  simp only [stepperEvent, hb, ho, Bool.and_self, if_true]

/-- `stepper_load_next` on an optimized stepper: the move's first step is its `interval` after
    the last one, and the next interval already has its `add`. -/
theorem stepperLoadNext_optimized {m : StepperMove} {ms : List StepperMove}
    (hb : b.haveOptimizedPath = true) (ho : s.flags.optimizedPath = true) (hq : s.mq = m :: ms) :
    (stepperLoadNext b s).1 = .reschedule ∧
      (stepperLoadNext b s).2.1.waketime = s.waketime + m.interval ∧
      (stepperLoadNext b s).2.1.interval = m.interval + addTicks m.add ∧
      (stepperLoadNext b s).2.1.count = m.count.toUInt32 ∧
      (stepperLoadNext b s).2.1.add = m.add ∧ (stepperLoadNext b s).2.1.mq = ms ∧
      (stepperLoadNext b s).2.1.flags.optimizedPath = true ∧
      (b = .avr → (stepperLoadNext b s).2.1.flags.haveAdd = (m.add != 0)) := by
  have hopt : (b.haveOptimizedPath && s.flags.optimizedPath) = true := by simp [hb, ho]
  unfold stepperLoadNext
  rw [hq]
  dsimp only
  split_ifs <;> simp_all

/-- A loaded move makes a running stepper. -/
theorem Running.of_load {m : StepperMove} {ms : List StepperMove} {s' : Stepper}
    (hm : m.count ≠ 0) (hms : ∀ m' ∈ ms, m'.count ≠ 0) (ho : s'.flags.optimizedPath = true)
    (hc : s'.count = m.count.toUInt32) (hadd : s'.add = m.add) (hq : s'.mq = ms)
    (hha : b = .avr → s'.flags.haveAdd = (m.add != 0)) : Running b s' where
  optimized := ho
  count_pos := by
    rw [hc, UInt16.toNat_toUInt32]
    exact Nat.pos_of_ne_zero fun h => hm (UInt16.toNat_inj.mp (by simpa using h))
  count_lt := by
    rw [hc, UInt16.toNat_toUInt32]
    exact UInt16.toNat_lt _
  haveAdd hav := by rw [hadd]; exact hha hav
  queued := hq ▸ hms

/-- **An event inside a move** steps, and schedules the next step an interval later, with the
    interval grown by `add`. -/
theorem stepperEvent_inside (hb : b.haveOptimizedPath = true) (hs : Running b s)
    (hc : 2 ≤ s.count.toNat) :
    ∃ s' ops, stepperEvent b timerFromUs curtime s = (.ok .reschedule, s', ops) ∧ Running b s' ∧
      s'.waketime = s.waketime + s.interval ∧ s'.interval = s.interval + addTicks s.add ∧
      s'.count.toNat = s.count.toNat - 1 ∧ s'.add = s.add ∧ s'.mq = s.mq := by
  rw [stepperEvent_optimized timerFromUs curtime hb hs.optimized]
  have hne : s.count ≠ 0 := fun h => by rw [h] at hc; simp at hc
  have hsub := toNat_sub_one hne
  have hrun : ∀ s' : Stepper, s'.flags = s.flags → s'.count = s.count - 1 → s'.add = s.add →
      s'.mq = s.mq → Running b s' := fun s' hf hc' ha hq =>
    { optimized := hf ▸ hs.optimized
      count_pos := by rw [hc', hsub]; omega
      count_lt := by rw [hc', hsub]; have := hs.count_lt; omega
      haveAdd := by rw [hf, ha]; exact hs.haveAdd
      queued := hq ▸ hs.queued }
  cases b with
  | generic => cases hb
  | edge =>
    have hstep : (s.count - 1 != 0) = true := by
      simp only [bne_iff_ne, ne_eq]
      intro h0
      rw [h0] at hsub
      simp at hsub
      omega
    simp only [if_true, stepperEventEdge, hstep]
    exact ⟨_, _, rfl, hrun _ rfl rfl rfl rfl, rfl, rfl, hsub, rfl, rfl⟩
  | avr =>
    -- the 16-bit decrement of the low half is a decrement of `count`
    have hsub16 := toNat_toUInt16_sub_one hs.count_lt hne
    have hstep : (s.count.toUInt16 - 1 != 0) = true := by
      simp only [bne_iff_ne, ne_eq]
      intro h0
      rw [h0] at hsub16
      simp at hsub16
      omega
    have hinterval : (if s.flags.haveAdd then s.interval + addTicks s.add else s.interval) =
        s.interval + addTicks s.add := by
      rw [hs.haveAdd rfl]
      by_cases ha : s.add = 0
      · simp [ha, addTicks_zero]
      · simp [ha]
    simp only [show (Build.avr = Build.edge) = False from by simp, if_false, stepperEventAvr,
      hstep, if_true, hinterval, avr_count hs.count_lt hne]
    exact ⟨_, _, rfl, hrun _ rfl rfl rfl rfl, rfl, rfl, hsub, rfl, rfl⟩

/-- **The last event of a move** steps and loads the next move, whose first step is its
    `interval` after this one. -/
theorem stepperEvent_load {m : StepperMove} {ms : List StepperMove}
    (hb : b.haveOptimizedPath = true) (hs : Running b s) (hc : s.count.toNat = 1)
    (hq : s.mq = m :: ms) :
    ∃ s' ops, stepperEvent b timerFromUs curtime s = (.ok .reschedule, s', ops) ∧ Running b s' ∧
      s'.waketime = s.waketime + m.interval ∧ s'.interval = m.interval + addTicks m.add ∧
      s'.count.toNat = m.count.toNat ∧ s'.add = m.add ∧ s'.mq = ms := by
  rw [stepperEvent_optimized timerFromUs curtime hb hs.optimized]
  have hone : s.count = 1 := UInt32.toNat_inj.mp hc
  obtain ⟨hres, hw, hi, hcnt, hadd, hmq, ho, hha⟩ := stepperLoadNext_optimized hb hs.optimized hq
  have hrun : Running b (stepperLoadNext b s).2.1 :=
    Running.of_load (hs.queued m (by simp [hq])) (fun m' h => hs.queued m' (by simp [hq, h]))
      ho hcnt hadd hmq hha
  have hcntNat : (stepperLoadNext b s).2.1.count.toNat = m.count.toNat := by
    rw [hcnt, UInt16.toNat_toUInt32]
  cases b with
  | generic => cases hb
  | edge =>
    simp only [if_true, stepperEventEdge, hone, sub_self, bne_self_eq_false, Bool.false_eq_true,
      if_false, hres]
    exact ⟨_, _, rfl, hrun, hw, hi, hcntNat, hadd, hmq⟩
  | avr =>
    simp only [show (Build.avr = Build.edge) = False from by simp, if_false, stepperEventAvr,
      hone, show (1 : UInt32).toUInt16 - 1 = 0 from rfl, bne_self_eq_false, Bool.false_eq_true,
      hres]
    exact ⟨_, _, rfl, hrun, hw, hi, hcntNat, hadd, hmq⟩

/-- **The last event of the last move** steps and stops the timer. -/
theorem stepperEvent_last (hb : b.haveOptimizedPath = true) (hs : Running b s)
    (hc : s.count.toNat = 1) (hq : s.mq = []) :
    (stepperEvent b timerFromUs curtime s).1 = .ok .done := by
  rw [stepperEvent_optimized timerFromUs curtime hb hs.optimized]
  have hone : s.count = 1 := UInt32.toNat_inj.mp hc
  cases b with
  | generic => cases hb
  | edge =>
    simp [stepperEventEdge, hone, stepperLoadNext, hq]
  | avr =>
    simp [stepperEventAvr, hone, stepperLoadNext, hq]

end Events

/-! ## The schedule of the run -/

/-- The run of a running optimized stepper, with an event for each step left, whatever the
    latencies of the handlers.  The induction is on the latencies; each event is one of the three
    event lemmas, and the schedule unfolds by one step of `stepTimes` or by one move of
    `movesStepTimes`. -/
theorem eventTimes_running {b : Build} (hb : b.haveOptimizedPath = true)
    (timerFromUs : UInt32 → UInt32) :
    ∀ (lats : List UInt32) (s : Stepper), Running b s → stepsLeft s ≤ lats.length →
      eventTimes b timerFromUs lats s =
        s.waketime :: stepTimes (addTicks s.add) (s.count.toNat - 1) s.waketime s.interval ++
          movesStepTimes
            (lastStepTime (addTicks s.add) (s.count.toNat - 1) s.waketime s.interval) s.mq
  | [], s, hs, hn => by
    have := hs.count_pos
    unfold stepsLeft at hn
    simp at hn
    omega
  | l :: lats, s, hs, hn => by
    rw [eventTimes]
    unfold stepsLeft at hn
    rw [List.length_cons] at hn
    by_cases hc : 2 ≤ s.count.toNat
    · -- a step inside the current move
      obtain ⟨s', ops, he, hs', hw, hi, hcnt, hadd, hmq⟩ :=
        stepperEvent_inside timerFromUs (s.waketime + l) hb hs hc
      have hn' : stepsLeft s' ≤ lats.length := by
        unfold stepsLeft
        rw [hcnt, hmq]
        omega
      obtain ⟨k, hk⟩ : ∃ k, s.count.toNat - 1 = k + 1 := ⟨s.count.toNat - 2, by omega⟩
      have hk' : s'.count.toNat - 1 = k := by omega
      rw [he]
      dsimp only
      rw [eventTimes_running hb timerFromUs lats s' hs' hn', hw, hi, hk', hadd, hmq, hk,
        stepTimes_succ, lastStepTime]
      simp only [List.cons_append]
    · have hone : s.count.toNat = 1 := by
        have := hs.count_pos
        omega
      cases hq : s.mq with
      | nil =>
        -- the last step of the last move: the timer stops
        have hl := stepperEvent_last timerFromUs (s.waketime + l) hb hs hone hq
        rcases he : stepperEvent b timerFromUs (s.waketime + l) s with ⟨r, s', ops⟩
        rw [he] at hl
        dsimp only at hl
        subst hl
        simp [hone, movesStepTimes]
      | cons m ms =>
        -- the last step of a move loads the next
        obtain ⟨s', ops, he, hs', hw, hi, hcnt, hadd, hmq⟩ :=
          stepperEvent_load timerFromUs (s.waketime + l) hb hs hone hq
        have hn' : stepsLeft s' ≤ lats.length := by
          unfold stepsLeft
          rw [hcnt, hmq]
          rw [hq, hone] at hn
          simp only [List.map_cons, List.sum_cons] at hn
          omega
        obtain ⟨k, hk⟩ : ∃ k, m.count.toNat = k + 1 :=
          ⟨m.count.toNat - 1, by
            have := hs.queued m (by simp [hq])
            have : m.count.toNat ≠ 0 := fun h => this (UInt16.toNat_inj.mp (by simpa using h))
            omega⟩
        rw [he]
        dsimp only
        rw [eventTimes_running hb timerFromUs lats s' hs' hn', hw, hi, hcnt, hadd, hmq, hone, hk,
          Nat.add_sub_cancel]
        simp only [Nat.sub_self, movesStepTimes, hk, stepTimes_succ, lastStepTime, stepTimes_zero,
          List.nil_append, List.cons_append]

/-- The run from the last step of a move with one move queued: that step, then the queued
    move's steps, and the timer stops. -/
theorem eventTimes_last_move {b : Build} (hb : b.haveOptimizedPath = true)
    (timerFromUs : UInt32 → UInt32) {s : Stepper} (hs : Running b s) (hlast : s.count.toNat = 1)
    {m : StepperMove} (hq : s.mq = [m]) {lats : List UInt32} (hn : 1 + m.count.toNat ≤ lats.length) :
    eventTimes b timerFromUs lats s =
      s.waketime :: stepTimes (addTicks m.add) m.count.toNat s.waketime m.interval := by
  have hevents : stepsLeft s ≤ lats.length := by
    unfold stepsLeft
    simp only [hlast, hq, List.map_cons, List.map_nil, List.sum_cons, List.sum_nil, add_zero]
    exact hn
  rw [eventTimes_running hb timerFromUs lats s hs hevents, hlast, hq]
  simp only [Nat.sub_self, stepTimes_zero, lastStepTime, movesStepTimes, List.append_nil,
    List.singleton_append]

/-! ## From the host's commands to the steps -/

/-- The arguments of a `queue_step` command as the parser delivers them
    (`interval=%u count=%hu add=%hi taskline=%u`). -/
structure QueueStep where
  interval : UInt32
  count : UInt32
  add : UInt32
  taskline : UInt32

/-- The move `command_queue_step` fills in from its arguments, in the direction `dir`. -/
def QueueStep.toMove (q : QueueStep) (dir : Bool) : StepperMove :=
  { interval := q.interval, taskline := q.taskline, add := q.add.toUInt16.toInt16,
    count := q.count.toUInt16, dir := dir }

/-- `command_queue_step` for each command in turn, each finding a free move; `head` and `now`
    are what `sched_add_timer` reads when a command finds the stepper idle. -/
def queueSteps (b : Build) (timerFromUs : UInt32 → UInt32) (head now : UInt32) :
    List QueueStep → Stepper → Except String Stepper
  | [], s => .ok s
  | q :: qs, s =>
    match commandQueueStep b timerFromUs true head now q.interval q.count q.add q.taskline s with
    | .ok (s', _) => queueSteps b timerFromUs head now qs s'
    | .error e => .error e

section Commands

variable {b : Build} {timerFromUs : UInt32 → UInt32} {head now : UInt32} {s s' : Stepper}

/-- The step times of moves depend on their intervals, counts and adds only. -/
theorem movesStepTimes_congr (p : UInt32) :
    ∀ {ms ms' : List StepperMove},
      List.Forall₂ (fun m m' => m.interval = m'.interval ∧ m.count = m'.count ∧ m.add = m'.add)
        ms ms' → movesStepTimes p ms = movesStepTimes p ms'
  | [], [], .nil => rfl
  | m :: ms, m' :: ms', .cons ⟨hi, hc, ha⟩ hrest => by
    simp only [movesStepTimes, hi, hc, ha, movesStepTimes_congr _ hrest]

/-- `command_queue_step` on a running stepper: the move joins the queue and nothing else of the
    schedule changes. -/
theorem commandQueueStep_running (hs : Running b s) {q : QueueStep} {ops : List (GpioOp Pin)}
    (h : commandQueueStep b timerFromUs true head now q.interval q.count q.add q.taskline s =
      .ok (s', ops)) :
    Running b s' ∧ s'.waketime = s.waketime ∧ s'.interval = s.interval ∧ s'.count = s.count ∧
      s'.add = s.add ∧ ∃ dir, s'.mq = s.mq ++ [q.toMove dir] := by
  have hbusy : (s.count != 0) = true := by
    simp only [bne_iff_ne, ne_eq]
    intro h0
    have := hs.count_pos
    rw [h0] at this
    simp at this
  unfold commandQueueStep at h
  by_cases hc : q.count.toUInt16 = 0
  · simp [hc] at h
  -- the direction of the move only changes the flags' `SF_LAST_DIR`
  generalize hrev : (s.flags.lastDir != s.flags.nextDir) = rev at h
  cases rev <;>
    simp only [Bool.not_true, Bool.false_eq_true, if_false, if_true, hc, hbusy,
      Except.ok.injEq, Prod.mk.injEq] at h <;>
    obtain ⟨rfl, rfl⟩ := h <;>
    exact ⟨⟨hs.optimized, hs.count_pos, hs.count_lt, hs.haveAdd, fun m hm =>
      (List.mem_append.mp hm).elim (hs.queued m) fun hm => (List.mem_singleton.mp hm) ▸ hc⟩,
      rfl, rfl, rfl, rfl, _, rfl⟩

/-- `command_queue_step` on an idle optimized stepper that needs no reset: the move is loaded
    at once, its first step `interval` after the step clock, unless `sched_add_timer` finds that
    time already past. -/
theorem commandQueueStep_idle (hb : b.haveOptimizedPath = true) (ho : s.flags.optimizedPath = true)
    (hidle : s.count = 0) (hreset : s.flags.needReset = false) (hmq : s.mq = []) {q : QueueStep}
    {ops : List (GpioOp Pin)}
    (h : commandQueueStep b timerFromUs true head now q.interval q.count q.add q.taskline s =
      .ok (s', ops)) :
    Running b s' ∧ s'.waketime = addTimerWaketime timerFromUs head now (s.waketime + q.interval) ∧
      s'.interval = q.interval + addTicks q.add.toUInt16.toInt16 ∧
      s'.count.toNat = q.count.toUInt16.toNat ∧ s'.add = q.add.toUInt16.toInt16 ∧ s'.mq = [] := by
  unfold commandQueueStep at h
  by_cases hc : q.count.toUInt16 = 0
  · simp [hc] at h
  generalize hrev : (s.flags.lastDir != s.flags.nextDir) = rev at h
  -- the stepper `stepper_load_next` leaves, whatever the direction of the move
  have hload : ∀ s0 : Stepper, s0.flags.optimizedPath = true → s0.mq = [q.toMove rev] →
      Running b (stepperLoadNext b s0).2.1 ∧
        (stepperLoadNext b s0).2.1.waketime = s0.waketime + q.interval ∧
        (stepperLoadNext b s0).2.1.interval = q.interval + addTicks q.add.toUInt16.toInt16 ∧
        (stepperLoadNext b s0).2.1.count.toNat = q.count.toUInt16.toNat ∧
        (stepperLoadNext b s0).2.1.add = q.add.toUInt16.toInt16 ∧
        (stepperLoadNext b s0).2.1.mq = [] := by
    intro s0 hf hq0
    obtain ⟨-, hw, hi, hcnt, hadd, hmq', ho', hha⟩ :=
      stepperLoadNext_optimized hb hf hq0
    refine ⟨Running.of_load hc (by simp) ho' hcnt hadd hmq' hha, hw, hi, ?_, hadd, hmq'⟩
    rw [hcnt, UInt16.toNat_toUInt32]
    rfl
  have hnb : (s.count != 0) = false := by simp [hidle]
  cases rev <;>
    simp only [Bool.not_true, Bool.false_eq_true, if_false, if_true, hc, hnb] at h
  · rw [if_neg (by simp [hreset])] at h
    obtain ⟨rfl, rfl⟩ := Prod.mk.inj (Except.ok.inj h)
    obtain ⟨hr, hw, hi, hcnt, hadd, hmq'⟩ :=
      hload { s with mq := s.mq ++ [q.toMove false] } ho (by simp [hmq])
    exact ⟨⟨hr.optimized, hr.count_pos, hr.count_lt, hr.haveAdd, hr.queued⟩,
      congrArg (addTimerWaketime timerFromUs head now) hw, hi, hcnt, hadd, hmq'⟩
  · rw [if_neg (by simp [hreset])] at h
    obtain ⟨rfl, rfl⟩ := Prod.mk.inj (Except.ok.inj h)
    obtain ⟨hr, hw, hi, hcnt, hadd, hmq'⟩ :=
      hload { s with flags := { s.flags with lastDir := !s.flags.lastDir },
                     mq := s.mq ++ [q.toMove true] } ho (by simp [hmq])
    exact ⟨⟨hr.optimized, hr.count_pos, hr.count_lt, hr.haveAdd, hr.queued⟩,
      congrArg (addTimerWaketime timerFromUs head now) hw, hi, hcnt, hadd, hmq'⟩

/-- A queued move made from a command: its interval, count and add are the command's. -/
def MadeFrom (m : StepperMove) (q : QueueStep) : Prop :=
  m.interval = q.interval ∧ m.count = q.count.toUInt16 ∧ m.add = q.add.toUInt16.toInt16

theorem sum_count_of_madeFrom :
    ∀ {ms : List StepperMove} {qs : List QueueStep}, List.Forall₂ MadeFrom ms qs →
      (ms.map fun m => m.count.toNat).sum = (qs.map fun q => q.count.toUInt16.toNat).sum
  | [], [], .nil => rfl
  | _ :: _, _ :: _, .cons ⟨_, hc, _⟩ hrest => by
    simp only [List.map_cons, List.sum_cons, hc, sum_count_of_madeFrom hrest]

theorem movesStepTimes_of_madeFrom (p : UInt32) {ms : List StepperMove} {qs : List QueueStep}
    (h : List.Forall₂ MadeFrom ms qs) :
    movesStepTimes p ms = movesStepTimes p (qs.map (QueueStep.toMove · false)) :=
  movesStepTimes_congr p (List.forall₂_map_right_iff.mpr (h.imp fun _ _ hm => hm))

/-- Commands to a running stepper queue their moves behind the current one, in order.  The
    induction is on the commands, each one `commandQueueStep_running`. -/
theorem queueSteps_running :
    ∀ {qs : List QueueStep} {s s' : Stepper}, Running b s →
      queueSteps b timerFromUs head now qs s = .ok s' →
      Running b s' ∧ s'.waketime = s.waketime ∧ s'.interval = s.interval ∧ s'.count = s.count ∧
        s'.add = s.add ∧ ∃ ms, s'.mq = s.mq ++ ms ∧ List.Forall₂ MadeFrom ms qs
  | [], s, s', hs, h => by
    obtain rfl := Except.ok.inj h
    exact ⟨hs, rfl, rfl, rfl, rfl, [], by simp, .nil⟩
  | q :: qs, s, s', hs, h => by
    rw [queueSteps] at h
    rcases hq : commandQueueStep b timerFromUs true head now q.interval q.count q.add q.taskline s
      with e | ⟨s1, ops⟩
    · rw [hq] at h
      cases h
    rw [hq] at h
    obtain ⟨hs1, hw1, hi1, hc1, ha1, dir, hmq1⟩ := commandQueueStep_running hs hq
    obtain ⟨hs', hw, hi, hc, ha, ms, hmq, hms⟩ := queueSteps_running hs1 h
    refine ⟨hs', hw.trans hw1, hi.trans hi1, hc.trans hc1, ha.trans ha1, q.toMove dir :: ms, ?_,
      .cons ⟨rfl, rfl, rfl⟩ hms⟩
    rw [hmq, hmq1, List.append_assoc, List.singleton_append]

end Commands

/-- **From `queue_step` commands to the steps.**  On an idle stepper of an optimized build,
    after `reset_step_clock` to `clock` and a run of `queue_step` commands, the stepper's timer
    fires at the step times of the commanded moves, one move after another from `clock`, and
    stops after the last step.  The one condition is that the first step is not already past
    when the first command arrives: this fork's `sched_add_timer` would move it. -/
theorem stepper_queue_step_times (b : Build) (hb : b.haveOptimizedPath = true)
    (timerFromUs : UInt32 → UInt32) (s0 s1 s : Stepper) (ho : s0.flags.optimizedPath = true)
    (hidle : s0.count = 0) (hmq : s0.mq = []) (clock head now : UInt32) (q : QueueStep)
    (qs : List QueueStep) (hreset : commandResetStepClock clock s0 = .ok s1)
    (hqueue : queueSteps b timerFromUs head now (q :: qs) s1 = .ok s)
    (hlate : timerIsBefore (clock + q.interval) now = false) (lats : List UInt32)
    (hn : ((q :: qs).map fun q => q.count.toUInt16.toNat).sum ≤ lats.length) :
    eventTimes b timerFromUs lats s =
      movesStepTimes clock ((q :: qs).map (QueueStep.toMove · false)) := by
  -- `reset_step_clock` sets the step clock of the idle stepper
  unfold commandResetStepClock at hreset
  rw [if_neg (by simp [hidle])] at hreset
  have hs1 := (Except.ok.inj hreset).symm
  have ho1 : s1.flags.optimizedPath = true := by rw [hs1]; exact ho
  have hidle1 : s1.count = 0 := by rw [hs1]; exact hidle
  have hreset1 : s1.flags.needReset = false := by rw [hs1]
  have hmq1 : s1.mq = [] := by rw [hs1]; exact hmq
  have hw1 : s1.waketime = clock := by rw [hs1]
  -- the first command loads its move at once, the others queue behind it
  rw [queueSteps] at hqueue
  rcases hq : commandQueueStep b timerFromUs true head now q.interval q.count q.add q.taskline s1
    with e | ⟨s2, ops⟩
  · rw [hq] at hqueue
    cases hqueue
  rw [hq] at hqueue
  obtain ⟨hs2, hw2, hi2, hc2, ha2, hmq2⟩ := commandQueueStep_idle hb ho1 hidle1 hreset1 hmq1 hq
  rw [hw1] at hw2
  obtain ⟨hs, hw, hi, hc, ha, ms, hmq', hms⟩ := queueSteps_running hs2 hqueue
  rw [hmq2, List.nil_append] at hmq'
  rw [addTimerWaketime_of_not_before hlate] at hw2
  obtain ⟨k, hk⟩ : ∃ k, q.count.toUInt16.toNat = k + 1 := ⟨q.count.toUInt16.toNat - 1, by
    have := hs2.count_pos
    omega⟩
  have hevents : stepsLeft s ≤ lats.length := by
    unfold stepsLeft
    rw [hc, hc2, hmq', sum_count_of_madeFrom hms]
    simpa using hn
  rw [eventTimes_running hb timerFromUs lats s hs hevents, hw, hi, hc, ha, hmq', hw2, hi2, hc2, ha2,
    hk, Nat.add_sub_cancel, movesStepTimes_of_madeFrom _ hms]
  simp only [List.map_cons, movesStepTimes, QueueStep.toMove, hk, stepTimes_succ, lastStepTime,
    List.cons_append]

/-- An edge-stepping driver at 16 MHz, whose handlers run up to 30 ticks late: a slowing move of
    three steps from `1000`, then two steps 150 ticks apart. -/
theorem stepper_queue_step_times_ramp :
    ∃ s1 s, commandResetStepClock 1000 (commandConfigStepper .edge 100 0xff 10) = .ok s1 ∧
      queueSteps .edge (· * 16) 0 0 [⟨200, 3, 0xfffffffb, 0⟩, ⟨150, 2, 0, 0⟩] s1 = .ok s ∧
      eventTimes .edge (· * 16) [4, 0, 30, 7, 1] s = [1200, 1395, 1585, 1735, 1885] := by
  have key := fun s1 s
      (h1 : commandResetStepClock 1000 (commandConfigStepper .edge 100 0xff 10) = .ok s1)
      (h2 : queueSteps .edge (· * 16) 0 0 [⟨200, 3, 0xfffffffb, 0⟩, ⟨150, 2, 0, 0⟩] s1 = .ok s) =>
    And.intro h1 (And.intro h2 (stepper_queue_step_times .edge rfl (· * 16)
      (commandConfigStepper .edge 100 0xff 10) s1 s (by decide) rfl rfl 1000 0 0
      ⟨200, 3, 0xfffffffb, 0⟩ [⟨150, 2, 0, 0⟩] h1 h2 (by decide) [4, 0, 30, 7, 1] (by decide)))
  obtain ⟨h1, h2, h3⟩ := key _ _ rfl rfl
  exact ⟨_, _, h1, h2, h3.trans (by decide)⟩

/-! ## The windows of `check_line` -/

/-- **A move that `check_line` accepted steps inside its windows.**  When the MCU's last step
    before the move is at the host's `last_step_clock` (in the low 32 bits), the optimized step
    path takes the move's steps at the times of `check_line`'s schedule, so each lands in the
    window of the step time it stands for, measured from `last_step_clock` as `check_line`
    measures it: not after the queued time (`maxp`), and at most the allowed error before it
    (`minp`). -/
theorem stepper_steps_in_check_line_windows (b : Build) (hb : b.haveOptimizedPath = true)
    (timerFromUs : UInt32 → UInt32) (sc : StepCompress.Stepcompress)
    (move : StepCompress.StepMove) (hcheck : checkLine sc move = .ok ()) (s : Stepper)
    (hs : Running b s) (hlast : s.count.toNat = 1) (m : StepperMove) (hq : s.mq = [m])
    (hint : m.interval = move.interval) (hcount : m.count = move.count) (hadd : m.add = move.add)
    (hclock : s.waketime = sc.lastStepClock.toUInt32) (lats : List UInt32)
    (hn : 1 + move.count.toNat ≤ lats.length) :
    ∃ ts, eventTimes b timerFromUs lats s = s.waketime :: ts ∧ ts.length = move.count.toNat ∧
      ∀ k t, ts[k]? = some t →
        (minmaxPoint sc k).minp.toUInt32 ≤ t - sc.lastStepClock.toUInt32 ∧
          t - sc.lastStepClock.toUInt32 ≤ (minmaxPoint sc k).maxp.toUInt32 := by
  have hrun := eventTimes_last_move hb timerFromUs hs hlast hq
    (show 1 + m.count.toNat ≤ lats.length by rw [hcount]; exact hn)
  refine ⟨_, hrun, by simp [hcount], fun k t ht => ?_⟩
  -- the schedule from the last step is `check_line`'s schedule from zero, moved there
  rw [stepTimes_eq_map, List.getElem?_map] at ht
  obtain ⟨t0, ht0, rfl⟩ := Option.map_eq_some_iff.mp ht
  obtain ⟨-, -, -, hwin⟩ := StepCompress.checkLine_ok hcheck
  rw [hint, hcount, hadd] at ht0
  rw [← hclock, add_sub_cancel_left]
  exact hwin k t0 ht0

/-- The last step of a slowing move at `1000`, with the next move (`interval=200 count=3 add=-5`)
    queued, which `check_line` accepted with windows of ten ticks. -/
theorem stepper_steps_in_check_line_windows_ramp :
    ∃ ts, eventTimes .edge (· * 16) [0, 12, 3, 0]
        ⟨1000, true, 0, 0, 1, 0, 0, 0, [⟨200, 0, -5, 3, false⟩],
          ⟨false, false, false, false, true, true, false⟩⟩ = 1000 :: ts ∧ ts.length = 3 ∧
      ∀ k t, ts[k]? = some t →
        (minmaxPoint ⟨[1200, 1395, 1585], 10, 1000, 0⟩ k).minp.toUInt32 ≤ t - 1000 ∧
          t - 1000 ≤ (minmaxPoint ⟨[1200, 1395, 1585], 10, 1000, 0⟩ k).maxp.toUInt32 :=
  stepper_steps_in_check_line_windows .edge rfl (· * 16) ⟨[1200, 1395, 1585], 10, 1000, 0⟩
    ⟨200, 3, -5, 0⟩ (by decide) _ ⟨rfl, by decide, by decide, (fun h => by cases h), by decide⟩
    (by decide) ⟨200, 0, -5, 3, false⟩ rfl rfl rfl rfl rfl [0, 12, 3, 0] (by decide)

/-! ## The host's `last_step_clock` -/

/-- `add_move`'s `last_step_clock`, in its low 32 bits, is the MCU's time of the move's last step
    from the previous `last_step_clock`, as long as `count * (count - 1)` fits the `int` that
    `add_move` computes `addfactor` in or `add` is zero.  Past that (`count ≥ 46342`), an odd
    `add` puts the two `2^31` ticks apart. -/
theorem addMove_lastStepClock (st : StepCompress.StepcompressState)
    (move : StepCompress.StepMove) (hc : move.count ≠ 0)
    (hfactor : move.add = 0 ∨ move.count.toNat * (move.count.toNat - 1) < 2 ^ 31) :
    (StepCompress.addMove st (st.comp.lastStepClock + move.interval.toUInt64)
        move).comp.lastStepClock.toUInt32 =
      lastStepTime (addTicks move.add) move.count.toNat st.comp.lastStepClock.toUInt32
        move.interval := by
  have hn := move.count.toNat_lt
  have h1 : 1 ≤ move.count.toNat :=
    Nat.one_le_iff_ne_zero.mpr fun h => hc (UInt16.toNat_inj.mp (by rw [h]; rfl))
  have hC : move.count.toUInt32.toInt32.toInt = move.count.toNat := by
    rw [StepCompress.toInt_toInt32_of_lt (by rw [UInt16.toNat_toUInt32]; omega),
      UInt16.toNat_toUInt32]
  -- `add * addfactor` keeps the residue of the exact product
  have hfac : ((move.add.toInt32 * (move.count.toUInt32.toInt32 *
        (move.count.toUInt32.toInt32 - 1) / 2)).toInt : ZMod (2 ^ 32)) =
      (move.add.toInt : ZMod (2 ^ 32)) *
        ((move.count.toNat * (move.count.toNat - 1) / 2 : Nat) : ZMod (2 ^ 32)) := by
    rw [IntBits.intCast_toInt_mul, Int16.toInt_toInt32]
    rcases hfactor with ha | hs
    · rw [ha]
      simp
    · rw [StepCompress.addfactor_toInt hC h1 hn hs]
      push_cast
      rfl
  have hN : wordRes move.count.toUInt32 = move.count.toNat := by
    rw [wordRes, UInt16.toNat_toUInt32]
  apply IntBits.wordRes_injective
  simp only [StepCompress.addMove, UInt64.toUInt32_add, UInt32.toUInt32_toUInt64,
    IntBits.wordRes_add, IntBits.wordRes_mul, IntBits.wordRes_sub, IntBits.wordRes_toUInt32,
    IntBits.wordRes_one, hN, hfac, wordRes_lastStepTime, addTicks, Int16.toInt_toInt32]
  ring

/-- **The host and the MCU stay in lock step.**  When the MCU's last step before a move is at
    the host's `last_step_clock`, the move's last step on the MCU is at the `last_step_clock`
    that `add_move` records for it, so the condition holds again for the next move; the one
    limit is the overflow of `addfactor` in `add_move`. -/
theorem stepper_last_step_at_last_step_clock (b : Build) (hb : b.haveOptimizedPath = true)
    (timerFromUs : UInt32 → UInt32) (st : StepCompress.StepcompressState)
    (move : StepCompress.StepMove)
    (hfactor : move.add = 0 ∨ move.count.toNat * (move.count.toNat - 1) < 2 ^ 31) (s : Stepper)
    (hs : Running b s) (hlast : s.count.toNat = 1) (m : StepperMove) (hq : s.mq = [m])
    (hint : m.interval = move.interval) (hcount : m.count = move.count) (hadd : m.add = move.add)
    (hclock : s.waketime = st.comp.lastStepClock.toUInt32) (lats : List UInt32)
    (hn : 1 + move.count.toNat ≤ lats.length) :
    (eventTimes b timerFromUs lats s).getLast? =
      some (StepCompress.addMove st (st.comp.lastStepClock + move.interval.toUInt64)
        move).comp.lastStepClock.toUInt32 := by
  have hc : move.count ≠ 0 := hcount ▸ hs.queued m (by simp [hq])
  have hcn : move.count.toNat ≠ 0 := fun h => hc (UInt16.toNat_inj.mp (by rw [h]; rfl))
  rw [eventTimes_last_move hb timerFromUs hs hlast hq
    (show 1 + m.count.toNat ≤ lats.length by rw [hcount]; exact hn), hint, hcount,
    hadd, List.getLast?_cons, getLast?_stepTimes _ _ _ _ hcn, Option.getD_some, hclock,
    addMove_lastStepClock st move hc hfactor]

/-- The slowing move of `stepper_steps_in_check_line_windows_ramp`: its last step on the MCU,
    at `1585`, is where `add_move` puts the host's `last_step_clock`. -/
theorem stepper_last_step_at_last_step_clock_ramp :
    (eventTimes .edge (· * 16) [0, 12, 3, 0]
        ⟨1000, true, 0, 0, 1, 0, 0, 0, [⟨200, 0, -5, 3, false⟩],
          ⟨false, false, false, false, true, true, false⟩⟩).getLast? =
      some (StepCompress.addMove ⟨⟨[1200, 1395, 1585], 10, 1000, 0⟩, 0, 0, 1, 0, 0, 0, [], 16000000⟩
        (1000 + (200 : UInt32).toUInt64) ⟨200, 3, -5, 0⟩).comp.lastStepClock.toUInt32 :=
  stepper_last_step_at_last_step_clock .edge rfl (· * 16)
    ⟨⟨[1200, 1395, 1585], 10, 1000, 0⟩, 0, 0, 1, 0, 0, 0, [], 16000000⟩ ⟨200, 3, -5, 0⟩
    (.inr (by decide)) _ ⟨rfl, by decide, by decide, (fun h => by cases h), by decide⟩
    (by decide) ⟨200, 0, -5, 3, false⟩ rfl rfl rfl rfl rfl [0, 12, 3, 0] (by decide)

end Klipper.Stepper
