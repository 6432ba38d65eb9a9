import Mathlib
import Klipper.Mcu.StepperTiming

/-
  The fully scheduled step path steps when the optimized paths step.

  A stepper that `config_stepper` did not put on an optimized path (every stepper of a build
  without `HAVE_OPTIMIZED_PATH`) is run by `stepper_event_full`: each timer event is one edge of
  the step pin, and unless `SF_SINGLE_SCHED` is set the edge that ends a pulse is an event of its
  own.  The step edges follow `next_step_time`, which advances by `interval`, with `add` added to
  `interval` at every step, just as the optimized paths advance `waketime`.  The handler reads
  `timer_read_time()` when it runs, some latency after its waketime: the end of a pulse is due
  `step_pulse_ticks` after that reading, and a step edge is pushed back only when it would come
  less than `step_pulse_ticks` after the reading of the event before it.  So the step edges keep
  their times as long as every gap leaves room for the latencies, and the ends of the pulses
  move with the latencies of the step edges.

  1. **Edges** (`edgeCount`, `fullEdges`, `GapOk`, `stepGaps`): the events of the steps at given
     times under given latencies, the gaps that leave room for latencies up to a bound, and the
     gaps of the steps a stepper has left.
  2. **Events** (`stepperEventFull_pulse`, `stepperEventFull_advance`, `stepperEventFull_load`,
     `stepperEventFull_done`): one lemma per kind of event of `stepper_event_full`.
  3. **Steps** (`eventTimes_full_inside`, `eventTimes_full_load`, `eventTimes_full_last`): the
     events of one step of a running stepper (`RunningFull`), one or two by `SF_SINGLE_SCHED`,
     for all latencies up to the bound (`StepsTo`).
  4. **Schedule** (`eventTimes_full`): when every gap is `GapOk`, the events are the edges of the
     steps of `stepSchedule`, the schedule that `eventTimes_running` gives the optimized paths.
  5. **Agreement** (`stepper_full_path_steps_as_optimized`): a fully scheduled stepper and an
     optimized one with the same moves ahead step at the same times, whatever the latencies of
     either's handlers.
-/

namespace Klipper.Stepper

open StepCompress (stepTimes)

/-! ## Edges and gaps -/

/-- The timer events of one step on the fully scheduled path: two when the end of the pulse is an
    event of its own. -/
def edgeCount (singleSched : Bool) : Nat := if singleSched then 1 else 2

/-- The timer events of the steps at the times `ts` on the fully scheduled path, whose handlers
    read the clock the latencies `lats` after their waketimes, in turn: each step edge at its
    time and, unless `SF_SINGLE_SCHED` is set, the end of its pulse `step_pulse_ticks` after the
    step's handler read the clock. -/
def fullEdges (singleSched : Bool) (stepPulseTicks : UInt32) :
    List UInt32 → List UInt32 → List UInt32
  | [], _ => []
  | t :: ts, lats =>
    if singleSched then t :: fullEdges singleSched stepPulseTicks ts (lats.drop 1)
    else t :: (t + lats.headD 0 + stepPulseTicks) ::
      fullEdges singleSched stepPulseTicks ts (lats.drop 2)

/-- A gap before a step edge that `stepper_event_full` keeps when every handler reads the clock
    at most `lat` ticks late: a pulse after the reading of each event of the step before, and
    well inside the `2^31` ticks that `timer_is_before` compares. -/
def GapOk (singleSched : Bool) (stepPulseTicks : UInt32) (lat : Nat) (i : UInt32) : Prop :=
  edgeCount singleSched * (stepPulseTicks.toNat + lat) ≤ i.toNat ∧ i.toNat < 2 ^ 31

instance decGapOk (singleSched : Bool) (stepPulseTicks : UInt32) (lat : Nat) (i : UInt32) :
    Decidable (GapOk singleSched stepPulseTicks lat i) := by
  unfold GapOk
  infer_instance

/-- The `n` gaps between the steps of a move, from `interval` on, each `add` longer. -/
def moveIntervals (add : UInt32) : Nat → UInt32 → List UInt32
  | 0, _ => []
  | n + 1, interval => interval :: moveIntervals add n (interval + add)

/-- The steps a stepper has left from the step due at `waketime`: `k` steps of the current move,
    this one included, then the steps of every queued move. -/
def stepSchedule (k : Nat) (s : Stepper) : List UInt32 :=
  s.waketime :: stepTimes (addTicks s.add) (k - 1) s.waketime s.interval ++
    movesStepTimes (lastStepTime (addTicks s.add) (k - 1) s.waketime s.interval) s.mq

/-- The gaps before the steps left after the current one: those of the current move, then those
    of every queued move, the first of them from the last step of the move before. -/
def stepGaps (k : Nat) (s : Stepper) : List UInt32 :=
  moveIntervals (addTicks s.add) (k - 1) s.interval ++
    s.mq.flatMap fun m => moveIntervals (addTicks m.add) m.count.toNat m.interval

/-- A stepper on the fully scheduled path with a step edge due at `waketime`, which is
    `next_step_time`: `k` steps of the current move are left, the due one included, and `count`
    counts them once each, or twice when the end of each pulse is an event.  No queued move is
    empty. -/
structure RunningFull (b : Build) (k : Nat) (s : Stepper) : Prop where
  full : (b.haveOptimizedPath && s.flags.optimizedPath) = false
  steps_pos : 0 < k
  count_eq : s.count.toNat = if s.flags.singleSched then k else 2 * k
  atStep : s.waketime = s.nextStepTime
  queued : ∀ m ∈ s.mq, m.count ≠ 0

/-- The edges of the steps at `t :: ts` are those of the step at `t`, then those of the rest under
    the latencies its events leave. -/
theorem fullEdges_cons (singleSched : Bool) (stepPulseTicks t : UInt32) (ts lats : List UInt32) :
    fullEdges singleSched stepPulseTicks (t :: ts) lats =
      fullEdges singleSched stepPulseTicks [t] lats ++
        fullEdges singleSched stepPulseTicks ts (lats.drop (edgeCount singleSched)) := by
  cases singleSched <;> simp [fullEdges, edgeCount]

/-- A time no earlier than another and less than `2^31` ticks from zero is not before it. -/
theorem timerIsBefore_eq_false_of_le {x y : UInt32} (hle : y.toNat ≤ x.toNat)
    (hx : x.toNat < 2 ^ 31) : timerIsBefore x y = false := by
  have hsub : (x - y).toNat = x.toNat - y.toNat :=
    UInt32.toNat_sub_of_le _ _ (UInt32.le_iff_toNat_le.mpr hle)
  rw [← Bool.not_eq_true, timerIsBefore_iff, hsub]
  omega

/-- A gap that leaves room for one late handler is not before the pulse after its reading. -/
theorem GapOk.single {stepPulseTicks i a : UInt32} {lat : Nat}
    (h : GapOk true stepPulseTicks lat i) (ha : a.toNat ≤ lat) :
    timerIsBefore i (a + stepPulseTicks) = false := by
  obtain ⟨hle, hlt⟩ := h
  simp only [edgeCount, if_true, one_mul] at hle
  apply timerIsBefore_eq_false_of_le _ hlt
  rw [UInt32.toNat_add]
  omega

/-- A gap that leaves room for two late handlers is not before the pulse after the second
    reading, when the first was a pulse after the step's. -/
theorem GapOk.double {stepPulseTicks i a c : UInt32} {lat : Nat}
    (h : GapOk false stepPulseTicks lat i) (ha : a.toNat ≤ lat) (hc : c.toNat ≤ lat) :
    timerIsBefore i (a + stepPulseTicks + c + stepPulseTicks) = false := by
  obtain ⟨hle, hlt⟩ := h
  simp only [edgeCount, Bool.false_eq_true, if_false] at hle
  apply timerIsBefore_eq_false_of_le _ hlt
  simp only [UInt32.toNat_add]
  omega

/-! ## The events of `stepper_event_full` -/

section Events

variable {b : Build} (timerFromUs : UInt32 → UInt32) (curtime : UInt32)

/-- The wrapped comparison does not move when both times move by the same amount. -/
theorem timerIsBefore_add_add (t x y : UInt32) :
    timerIsBefore (t + x) (t + y) = timerIsBefore x y := by
  rw [timerIsBefore, timerIsBefore, add_sub_add_left_eq_sub]

/-- A step edge that leaves an odd count schedules the end of its pulse. -/
theorem stepperEventFull_pulse {u : Stepper} (hodd : (u.count - 1) &&& 1 ≠ 0)
    (hs : u.flags.singleSched = false) :
    stepperEventFull b timerFromUs curtime u =
      (.ok .reschedule,
        { u with count := u.count - 1, waketime := curtime + u.stepPulseTicks }, [.toggle .step]) := by
  simp [stepperEventFull, hodd, hs]

/-- An edge that leaves a nonzero count and no pulse to end moves to the next step, at
    `next_step_time + interval` when that is not too close. -/
theorem stepperEventFull_advance {u : Stepper}
    (hev : (u.count - 1) &&& 1 = 0 ∨ u.flags.singleSched = true) (hnz : u.count - 1 ≠ 0)
    (hgap : timerIsBefore (u.nextStepTime + u.interval) (curtime + u.stepPulseTicks) = false) :
    stepperEventFull b timerFromUs curtime u =
      (.ok .reschedule,
        { u with count := u.count - 1, nextStepTime := u.nextStepTime + u.interval,
                 interval := u.interval + addTicks u.add,
                 waketime := u.nextStepTime + u.interval }, [.toggle .step]) := by
  have hpulse : ((u.count - 1) &&& 1 != 0 && !u.flags.singleSched) = false := by
    rcases hev with h | h <;> simp [h]
  simp only [stepperEventFull]
  rw [if_neg (by simp [hpulse]), if_pos (by simpa using hnz), if_neg (by simp [hgap])]

/-- `stepper_load_next` on the fully scheduled path: the move's first step is its `interval`
    after `next_step_time`, and `count` counts its steps once or twice by `SF_SINGLE_SCHED`. -/
theorem stepperLoadNext_full {u : Stepper} {m : StepperMove} {ms : List StepperMove}
    (hq : u.mq = m :: ms) (hfull : (b.haveOptimizedPath && u.flags.optimizedPath) = false) :
    (stepperLoadNext b u).1 = .reschedule ∧
      (stepperLoadNext b u).2.1.nextStepTime = u.nextStepTime + m.interval ∧
      (stepperLoadNext b u).2.1.waketime = u.nextStepTime + m.interval ∧
      (stepperLoadNext b u).2.1.interval = m.interval + addTicks m.add ∧
      (stepperLoadNext b u).2.1.add = m.add ∧
      (stepperLoadNext b u).2.1.count =
        (if u.flags.singleSched then m.count.toUInt32 else m.count.toUInt32 * 2) ∧
      (stepperLoadNext b u).2.1.mq = ms ∧ (stepperLoadNext b u).2.1.flags = u.flags ∧
      (stepperLoadNext b u).2.1.stepPulseTicks = u.stepPulseTicks := by
  unfold stepperLoadNext
  rw [hq]
  dsimp only
  split_ifs <;> simp_all

/-- On the fully scheduled path `stepper_load_next` sets the waketime from `next_step_time`, so
    the waketime it starts from does not matter. -/
theorem stepperLoadNext_full_waketime {u : Stepper} {m : StepperMove} {ms : List StepperMove}
    (hq : u.mq = m :: ms) (hfull : (b.haveOptimizedPath && u.flags.optimizedPath) = false)
    (x : UInt32) : stepperLoadNext b { u with waketime := x } = stepperLoadNext b u := by
  simp only [stepperLoadNext, hq, hfull, Bool.false_eq_true, if_false]

/-- The last edge of a move, with a move queued, loads it; its first step is kept when it is not
    too close. -/
theorem stepperEventFull_load {u : Stepper} {m : StepperMove} {ms : List StepperMove}
    (hz : u.count - 1 = 0) (hq : u.mq = m :: ms)
    (hfull : (b.haveOptimizedPath && u.flags.optimizedPath) = false)
    (hgap : timerIsBefore (u.nextStepTime + m.interval) (curtime + u.stepPulseTicks) = false) :
    stepperEventFull b timerFromUs curtime u =
      (.ok .reschedule, (stepperLoadNext b { u with count := 0 }).2.1,
        .toggle .step :: (stepperLoadNext b { u with count := 0 }).2.2) := by
  obtain ⟨hres, -, hwake, -⟩ := stepperLoadNext_full (u := { u with count := 0 }) hq hfull
  simp only [stepperEventFull, hz]
  rw [if_neg (by simp), if_neg (by simp), hres, if_pos (by simp [hwake, hgap])]

/-- The last edge of the last move stops the timer. -/
theorem stepperEventFull_done {u : Stepper} (hz : u.count - 1 = 0) (hq : u.mq = []) :
    (stepperEventFull b timerFromUs curtime u).1 = .ok .done := by
  simp [stepperEventFull, hz, stepperLoadNext, hq]

end Events

/-! ## The events of one step -/

section Steps

variable {b : Build} (timerFromUs : UInt32 → UInt32) {k : Nat} {s : Stepper}

/-- A stepper off the optimized path is run by `stepper_event_full`. -/
theorem stepperEvent_full (hfull : (b.haveOptimizedPath && s.flags.optimizedPath) = false)
    (curtime : UInt32) :
    stepperEvent b timerFromUs curtime s = stepperEventFull b timerFromUs curtime s := by
  simp only [stepperEvent, hfull, Bool.false_eq_true, if_false]

theorem and_one_eq_zero (y : UInt32) : y &&& 1 = 0 ↔ y.toNat % 2 = 0 := by
  rw [← not_iff_not, ← ne_eq, and_one_ne_zero]
  omega

/-- `s` fires the edges of its step at `waketime` and goes on as `s'`, whatever the latencies up
    to `lat` of the handlers. -/
def StepsTo (b : Build) (timerFromUs : UInt32 → UInt32) (lat : Nat) (s s' : Stepper) : Prop :=
  ∀ lats : List UInt32, (∀ l ∈ lats, l.toNat ≤ lat) → edgeCount s.flags.singleSched ≤ lats.length →
    eventTimes b timerFromUs lats s =
      fullEdges s.flags.singleSched s.stepPulseTicks [s.waketime] lats ++
        eventTimes b timerFromUs (lats.drop (edgeCount s.flags.singleSched)) s'

/-- Latencies for the two events of a step whose pulse ends in an event of its own. -/
theorem exists_cons_cons_of_edgeCount_le {lats : List UInt32} (h : edgeCount false ≤ lats.length) :
    ∃ a c rest, lats = a :: c :: rest := by
  rcases lats with _ | ⟨a, _ | ⟨c, rest⟩⟩
  · simp [edgeCount] at h
  · simp [edgeCount] at h
  · exact ⟨a, c, rest, rfl⟩

/-- A latency for the step edge. -/
theorem exists_cons_of_edgeCount_le {singleSched : Bool} {lats : List UInt32}
    (h : edgeCount singleSched ≤ lats.length) : ∃ a rest, lats = a :: rest := by
  rcases lats with _ | ⟨a, rest⟩
  · cases singleSched <;> simp [edgeCount] at h
  · exact ⟨a, rest, rfl⟩

/-- The step edge of a stepper whose pulse ends in an event of its own: that event is due
    `step_pulse_ticks` after the handler read the clock. -/
theorem eventTimes_pulse (hfull : (b.haveOptimizedPath && s.flags.optimizedPath) = false)
    (hsingle : s.flags.singleSched = false) (hodd : (s.count - 1) &&& 1 ≠ 0) (a : UInt32)
    (lats : List UInt32) :
    eventTimes b timerFromUs (a :: lats) s =
      s.waketime :: eventTimes b timerFromUs lats
        { s with count := s.count - 1, waketime := s.waketime + a + s.stepPulseTicks } := by
  rw [eventTimes, stepperEvent_full timerFromUs hfull,
    stepperEventFull_pulse timerFromUs _ hodd hsingle]

/-- The reading of the end of a pulse, a pulse after the step's reading, is a gap `i` before the
    next step edge when the gap is `GapOk`. -/
theorem timerIsBefore_pulse_end {w i a c P : UInt32} {lat : Nat} (h : GapOk false P lat i)
    (ha : a.toNat ≤ lat) (hc : c.toNat ≤ lat) :
    timerIsBefore (w + i) (w + a + P + c + P) = false := by
  rw [show w + a + P + c + P = w + (a + P + c + P) by simp only [add_assoc],
    timerIsBefore_add_add]
  exact h.double ha hc

/-- A step inside the current move: its edges, then the next step of the move, `interval`
    later. -/
theorem eventTimes_full_inside (hs : RunningFull b k s) (hk : 2 ≤ k) {lat : Nat}
    (hgap : GapOk s.flags.singleSched s.stepPulseTicks lat s.interval) :
    ∃ s', RunningFull b (k - 1) s' ∧ s'.waketime = s.waketime + s.interval ∧
      s'.interval = s.interval + addTicks s.add ∧ s'.add = s.add ∧ s'.mq = s.mq ∧
      s'.flags = s.flags ∧ s'.stepPulseTicks = s.stepPulseTicks ∧
      StepsTo b timerFromUs lat s s' := by
  have hc := hs.count_eq
  have hz : s.count ≠ 0 := fun h => by rw [h] at hc; split_ifs at hc <;> simp at hc <;> omega
  have hc1 := toNat_sub_one hz
  -- the state after the step is the same whatever the latencies: `next_step_time` carries it
  refine ⟨{ s with count := s.count - 1 - (if s.flags.singleSched then 0 else 1),
                   nextStepTime := s.nextStepTime + s.interval,
                   interval := s.interval + addTicks s.add,
                   waketime := s.nextStepTime + s.interval },
    ⟨hs.full, by omega, ?_, rfl, hs.queued⟩, by simp [hs.atStep], rfl, rfl, rfl, rfl, rfl,
    fun lats hlat hlen => ?_⟩
  · cases hsingle : s.flags.singleSched
    · rw [hsingle, if_neg (by simp)] at hc
      have hz1 : s.count - 1 ≠ 0 := fun h => by rw [h] at hc1; simp at hc1; omega
      simp only [Bool.false_eq_true, if_false, toNat_sub_one hz1, hc1, hc]
      omega
    · rw [hsingle, if_pos rfl] at hc
      simp only [if_true, sub_zero, hc1, hc]
  cases hsingle : s.flags.singleSched
  · -- two events: the step edge, then the end of the pulse, which moves to the next step
    rw [hsingle, if_neg (by simp)] at hc
    rw [hsingle] at hgap hlen
    obtain ⟨a, c, rest, rfl⟩ := exists_cons_cons_of_edgeCount_le hlen
    have hodd : (s.count - 1) &&& 1 ≠ 0 := by rw [and_one_ne_zero, hc1, hc]; omega
    have hz1 : s.count - 1 ≠ 0 := fun h => by rw [h] at hc1; simp at hc1; omega
    have hc2 := toNat_sub_one hz1
    have hz2 : s.count - 1 - 1 ≠ 0 := fun h => by rw [h] at hc2; simp at hc2; omega
    set u : Stepper := { s with count := s.count - 1, waketime := s.waketime + a + s.stepPulseTicks }
      with hu
    have hadv := stepperEventFull_advance (b := b) timerFromUs (u.waketime + c) (u := u)
      (.inl (by rw [and_one_eq_zero, hc2, hc1, hc]; omega)) hz2
      (by rw [hu, ← hs.atStep]
          exact timerIsBefore_pulse_end hgap (hlat a (by simp)) (hlat c (by simp)))
    rw [eventTimes_pulse timerFromUs hs.full hsingle hodd, eventTimes,
      stepperEvent_full (s := u) timerFromUs hs.full, hadv]
    simp [fullEdges, edgeCount, hu]
  · -- one event: the step edge moves to the next step
    rw [hsingle, if_pos rfl] at hc
    rw [hsingle] at hgap hlen
    obtain ⟨a, rest, rfl⟩ := exists_cons_of_edgeCount_le hlen
    have hz1 : s.count - 1 ≠ 0 := fun h => by rw [h] at hc1; simp at hc1; omega
    have hadv := stepperEventFull_advance (b := b) timerFromUs (s.waketime + a) (u := s)
      (.inr hsingle) hz1
      (by rw [← hs.atStep, add_assoc, timerIsBefore_add_add]
          exact hgap.single (hlat a (by simp)))
    rw [eventTimes, stepperEvent_full timerFromUs hs.full, hadv]
    simp [fullEdges, edgeCount]

/-- A move loaded on the fully scheduled path makes a running stepper. -/
theorem RunningFull.of_load {u : Stepper} {m : StepperMove} {ms : List StepperMove}
    (hfull : (b.haveOptimizedPath && u.flags.optimizedPath) = false) (hq : u.mq = m :: ms)
    (hm : m.count ≠ 0) (hms : ∀ m' ∈ ms, m'.count ≠ 0) :
    RunningFull b m.count.toNat (stepperLoadNext b u).2.1 := by
  obtain ⟨-, hn, hw, -, -, hc, hmq, hf, -⟩ := stepperLoadNext_full hq hfull
  have hm0 : m.count.toNat ≠ 0 := fun h => hm (UInt16.toNat_inj.mp (by rw [h]; rfl))
  have hlt := m.count.toNat_lt
  refine ⟨by rw [hf]; exact hfull, by omega, ?_, by rw [hw, hn], by rw [hmq]; exact hms⟩
  rw [hc, hf]
  split_ifs
  · exact UInt16.toNat_toUInt32 m.count
  · rw [UInt32.toNat_mul, UInt16.toNat_toUInt32]
    simp only [UInt32.reduceToNat]
    omega

/-- The last step of a move with another queued: its edges, then the first step of that move,
    its `interval` later. -/
theorem eventTimes_full_load {m : StepperMove} {ms : List StepperMove} (hs : RunningFull b 1 s)
    (hq : s.mq = m :: ms) {lat : Nat}
    (hgap : GapOk s.flags.singleSched s.stepPulseTicks lat m.interval) :
    ∃ s', RunningFull b m.count.toNat s' ∧ s'.waketime = s.waketime + m.interval ∧
      s'.interval = m.interval + addTicks m.add ∧ s'.add = m.add ∧ s'.mq = ms ∧
      s'.flags = s.flags ∧ s'.stepPulseTicks = s.stepPulseTicks ∧
      StepsTo b timerFromUs lat s s' := by
  have hc := hs.count_eq
  have hm : m.count ≠ 0 := hs.queued m (by simp [hq])
  have hms : ∀ m' ∈ ms, m'.count ≠ 0 := fun m' h => hs.queued m' (by simp [hq, h])
  have hc1 := toNat_sub_one (fun h => by rw [h] at hc; split_ifs at hc <;> simp at hc : s.count ≠ 0)
  -- whatever the latencies, the loaded state is the one `stepper_load_next` makes from `s`
  obtain ⟨-, -, hw, hi, ha, -, hmq, hf, hp⟩ :=
    stepperLoadNext_full (b := b) (u := { s with count := 0 }) hq hs.full
  refine ⟨_, RunningFull.of_load (u := { s with count := 0 }) hs.full hq hm hms,
    by rw [hw, hs.atStep], hi, ha, hmq, hf, hp, fun lats hlat hlen => ?_⟩
  cases hsingle : s.flags.singleSched
  · -- two events: the step edge, then the end of the pulse, which loads the move
    rw [hsingle, if_neg (by simp)] at hc
    rw [hsingle] at hgap hlen
    obtain ⟨a, c, rest, rfl⟩ := exists_cons_cons_of_edgeCount_le hlen
    have hodd : (s.count - 1) &&& 1 ≠ 0 := by rw [and_one_ne_zero, hc1, hc]
    have hz1 : s.count - 1 ≠ 0 := fun h => by rw [h] at hc1; simp at hc1; omega
    set u : Stepper := { s with count := s.count - 1, waketime := s.waketime + a + s.stepPulseTicks }
      with hu
    have hz2 : u.count - 1 = 0 :=
      UInt32.toNat_inj.mp (by rw [toNat_sub_one hz1, hc1, hc]; rfl)
    have hload := stepperEventFull_load (b := b) timerFromUs (u.waketime + c) (u := u) hz2 hq
      hs.full (by rw [hu, ← hs.atStep]
                  exact timerIsBefore_pulse_end hgap (hlat a (by simp)) (hlat c (by simp)))
    have hsame : stepperLoadNext b { u with count := 0 } = stepperLoadNext b { s with count := 0 } :=
      stepperLoadNext_full_waketime (u := { s with count := 0 }) hq hs.full u.waketime
    rw [eventTimes_pulse timerFromUs hs.full hsingle hodd, eventTimes,
      stepperEvent_full (s := u) timerFromUs hs.full, hload, hsame]
    simp [fullEdges, edgeCount]
  · -- one event: the step edge loads the move
    rw [hsingle, if_pos rfl] at hc
    rw [hsingle] at hgap hlen
    obtain ⟨a, rest, rfl⟩ := exists_cons_of_edgeCount_le hlen
    have hz1 : s.count - 1 = 0 := UInt32.toNat_inj.mp (by rw [hc1, hc]; rfl)
    have hload := stepperEventFull_load (b := b) timerFromUs (s.waketime + a) (u := s) hz1 hq
      hs.full (by rw [← hs.atStep, add_assoc, timerIsBefore_add_add]
                  exact hgap.single (hlat a (by simp)))
    rw [eventTimes, stepperEvent_full timerFromUs hs.full, hload]
    simp [fullEdges, edgeCount]

/-- The last step of the last move: its edges, and the timer stops. -/
theorem eventTimes_full_last (hs : RunningFull b 1 s) (hq : s.mq = []) (lats : List UInt32)
    (hlen : edgeCount s.flags.singleSched ≤ lats.length) :
    eventTimes b timerFromUs lats s =
      fullEdges s.flags.singleSched s.stepPulseTicks [s.waketime] lats := by
  have hc := hs.count_eq
  have hc1 := toNat_sub_one (fun h => by rw [h] at hc; split_ifs at hc <;> simp at hc : s.count ≠ 0)
  cases hsingle : s.flags.singleSched
  · -- two events: the step edge, then the end of the pulse, which finds the queue empty
    rw [hsingle, if_neg (by simp)] at hc
    rw [hsingle] at hlen
    obtain ⟨a, c, rest, rfl⟩ := exists_cons_cons_of_edgeCount_le hlen
    have hodd : (s.count - 1) &&& 1 ≠ 0 := by rw [and_one_ne_zero, hc1, hc]
    have hz1 : s.count - 1 ≠ 0 := fun h => by rw [h] at hc1; simp at hc1; omega
    set u : Stepper := { s with count := s.count - 1, waketime := s.waketime + a + s.stepPulseTicks }
      with hu
    have hz2 : u.count - 1 = 0 :=
      UInt32.toNat_inj.mp (by rw [toNat_sub_one hz1, hc1, hc]; rfl)
    have hdone := stepperEventFull_done (b := b) timerFromUs (u.waketime + c) hz2 hq
    rw [eventTimes_pulse timerFromUs hs.full hsingle hodd, eventTimes,
      stepperEvent_full (s := u) timerFromUs hs.full]
    rcases he : stepperEventFull b timerFromUs (u.waketime + c) u with ⟨r, s', ops⟩
    rw [he] at hdone
    dsimp only at hdone
    subst hdone
    simp [fullEdges]
  · -- one event: the step edge finds the queue empty
    rw [hsingle, if_pos rfl] at hc
    rw [hsingle] at hlen
    obtain ⟨a, rest, rfl⟩ := exists_cons_of_edgeCount_le hlen
    have hz1 : s.count - 1 = 0 := UInt32.toNat_inj.mp (by rw [hc1, hc]; rfl)
    have hdone := stepperEventFull_done (b := b) timerFromUs (s.waketime + a) hz1 hq
    rw [eventTimes, stepperEvent_full timerFromUs hs.full]
    rcases he : stepperEventFull b timerFromUs (s.waketime + a) s with ⟨r, s', ops⟩
    rw [he] at hdone
    dsimp only at hdone
    subst hdone
    simp [fullEdges]

end Steps

/-! ## The schedule of the run -/

section Schedule

variable {k : Nat} {s s' : Stepper}

/-- After a step inside the current move, the schedule is the rest of this move's. -/
theorem stepSchedule_inside (hk : 2 ≤ k) (hw : s'.waketime = s.waketime + s.interval)
    (hi : s'.interval = s.interval + addTicks s.add) (ha : s'.add = s.add) (hq : s'.mq = s.mq) :
    stepSchedule k s = s.waketime :: stepSchedule (k - 1) s' ∧
      stepGaps k s = s.interval :: stepGaps (k - 1) s' := by
  obtain ⟨j, rfl⟩ : ∃ j, k = j + 2 := ⟨k - 2, by omega⟩
  constructor
  · simp only [stepSchedule, Nat.add_sub_cancel, show j + 2 - 1 = j + 1 by omega, stepTimes_succ,
      lastStepTime, hw, hi, ha, hq, List.cons_append]
  · simp only [stepGaps, show j + 2 - 1 = j + 1 by omega, Nat.add_sub_cancel, moveIntervals,
      hi, ha, hq, List.cons_append]

/-- After the last step of a move, the schedule is the next move's and those after it. -/
theorem stepSchedule_load {m : StepperMove} {ms : List StepperMove} (hq : s.mq = m :: ms)
    (hm : m.count.toNat ≠ 0) (hw : s'.waketime = s.waketime + m.interval)
    (hi : s'.interval = m.interval + addTicks m.add) (ha : s'.add = m.add) (hq' : s'.mq = ms) :
    stepSchedule 1 s = s.waketime :: stepSchedule m.count.toNat s' ∧
      stepGaps 1 s = m.interval :: stepGaps m.count.toNat s' := by
  obtain ⟨j, hj⟩ : ∃ j, m.count.toNat = j + 1 := ⟨m.count.toNat - 1, by omega⟩
  constructor
  · simp only [stepSchedule, Nat.sub_self, stepTimes_zero, lastStepTime, hq, movesStepTimes, hj,
      Nat.add_sub_cancel, stepTimes_succ, hw, hi, ha, hq', List.nil_append, List.cons_append]
  · simp only [stepGaps, Nat.sub_self, moveIntervals, hq, List.flatMap_cons, hj,
      Nat.add_sub_cancel, hi, ha, hq', List.nil_append, List.cons_append]

/-- The last step of the last move is the whole schedule. -/
theorem stepSchedule_last (hq : s.mq = []) : stepSchedule 1 s = [s.waketime] := by
  simp [stepSchedule, hq, movesStepTimes]

theorem length_movesStepTimes (p : UInt32) (ms : List StepperMove) :
    (movesStepTimes p ms).length = (ms.map fun m => m.count.toNat).sum := by
  induction ms generalizing p with
  | nil => rfl
  | cons m ms ih => simp [movesStepTimes, ih]

/-- The schedule has one entry per step left. -/
theorem length_stepSchedule (hk : 0 < k) :
    (stepSchedule k s).length = k + (s.mq.map fun m => m.count.toNat).sum := by
  simp only [stepSchedule, List.length_cons, List.length_append, length_stepTimes,
    length_movesStepTimes]
  omega

/-- One step of the run: a stepper that fires its step at `t` and goes on as `s'`, which runs
    the edges of the rest of the schedule, runs the edges of the whole of it. -/
theorem eventTimes_full_cons {b : Build} {timerFromUs : UInt32 → UInt32} {lat : Nat}
    {ts lats : List UInt32} (hstep : StepsTo b timerFromUs lat s s')
    (hlat : ∀ l ∈ lats, l.toNat ≤ lat)
    (hn : edgeCount s.flags.singleSched * (ts.length + 1) ≤ lats.length)
    (hrest : ∀ lats' : List UInt32, (∀ l ∈ lats', l.toNat ≤ lat) →
      edgeCount s.flags.singleSched * ts.length ≤ lats'.length →
      eventTimes b timerFromUs lats' s' = fullEdges s.flags.singleSched s.stepPulseTicks ts lats') :
    eventTimes b timerFromUs lats s =
      fullEdges s.flags.singleSched s.stepPulseTicks (s.waketime :: ts) lats := by
  rw [Nat.mul_succ] at hn
  rw [hstep lats hlat (by omega), fullEdges_cons _ _ s.waketime ts,
    hrest _ (fun l hl => hlat l (List.mem_of_mem_drop hl)) (by rw [List.length_drop]; omega)]

/-- **The run of the fully scheduled path.**  From a step edge of a running stepper, with an
    event for each edge of its steps and every gap `GapOk` for latencies up to `lat`, the timer
    fires at the edges of the steps of `stepSchedule` and stops after the last.  The induction is
    on the steps left; each step is one of the three step lemmas and peels one step off the
    schedule. -/
theorem eventTimes_full {b : Build} (timerFromUs : UInt32 → UInt32) (lat : Nat) (n : Nat) :
    ∀ (k : Nat) (s : Stepper) (lats : List UInt32), RunningFull b k s →
      (stepSchedule k s).length ≤ n →
      (∀ i ∈ stepGaps k s, GapOk s.flags.singleSched s.stepPulseTicks lat i) →
      (∀ l ∈ lats, l.toNat ≤ lat) →
      edgeCount s.flags.singleSched * (stepSchedule k s).length ≤ lats.length →
      eventTimes b timerFromUs lats s =
        fullEdges s.flags.singleSched s.stepPulseTicks (stepSchedule k s) lats := by
  induction n with
  | zero =>
    intro k s lats _ hsteps
    simp [stepSchedule] at hsteps
  | succ n ih =>
  intro k s lats hs hsteps hgap hlat hn
  by_cases hk : 2 ≤ k
  · -- a step inside the current move
    have hgap0 := hgap s.interval
      (by simp [stepGaps, show k - 1 = k - 2 + 1 by omega, moveIntervals])
    obtain ⟨s', hs', hw, hi, ha, hq, hf, hp, hstep⟩ := eventTimes_full_inside timerFromUs hs hk hgap0
    obtain ⟨hsched, hgaps⟩ := stepSchedule_inside hk hw hi ha hq
    rw [hsched] at hsteps hn ⊢
    rw [List.length_cons] at hsteps hn
    refine eventTimes_full_cons hstep hlat hn fun lats' hlat' hn' => ?_
    rw [← hf, ← hp]
    exact ih (k - 1) s' lats' hs' (by omega)
      (fun i hi => by rw [hf, hp]; exact hgap i (by rw [hgaps]; exact List.mem_cons_of_mem _ hi))
      hlat' (by rw [hf]; exact hn')
  · have hk1 : k = 1 := by have := hs.steps_pos; omega
    subst hk1
    cases hq : s.mq with
    | nil =>
      -- the last step of the last move
      rw [stepSchedule_last hq] at hn ⊢
      exact eventTimes_full_last timerFromUs hs hq lats (by simpa using hn)
    | cons m ms =>
      -- the last step of a move loads the next
      have hm : m.count.toNat ≠ 0 := fun h =>
        hs.queued m (by simp [hq]) (UInt16.toNat_inj.mp (by rw [h]; rfl))
      obtain ⟨j, hj⟩ : ∃ j, m.count.toNat = j + 1 := ⟨m.count.toNat - 1, by omega⟩
      have hgap0 := hgap m.interval (by simp [stepGaps, hq, hj, moveIntervals])
      obtain ⟨s', hs', hw, hi, ha, hq', hf, hp, hstep⟩ :=
        eventTimes_full_load timerFromUs hs hq hgap0
      obtain ⟨hsched, hgaps⟩ := stepSchedule_load hq hm hw hi ha hq'
      rw [hsched] at hsteps hn ⊢
      rw [List.length_cons] at hsteps hn
      refine eventTimes_full_cons hstep hlat hn fun lats' hlat' hn' => ?_
      rw [← hf, ← hp]
      exact ih m.count.toNat s' lats' hs' (by omega)
        (fun i hi => by rw [hf, hp]; exact hgap i (by rw [hgaps]; exact List.mem_cons_of_mem _ hi))
        hlat' (by rw [hf]; exact hn')

end Schedule

/-! ## The full path steps as the optimized paths do -/

/-- **The optimized step paths keep the plain path's step times.**  Take a stepper running on
    the edge or the AVR path and one running on `stepper_event_full`, each at a step edge with
    the same steps ahead: the same time, interval, `add`, steps left of the current move and
    queued moves.  Let the handlers of the full path read the clock at most `lat` ticks late,
    and let every gap of the schedule be `GapOk` for that bound.  Then the full path fires at
    the optimized path's step times, whatever the latencies of either, each step followed, unless
    `SF_SINGLE_SCHED` is set, by the end of its pulse `step_pulse_ticks` after its handler read
    the clock. -/
theorem stepper_full_path_steps_as_optimized (b1 : Build) (hb1 : b1.haveOptimizedPath = true)
    (b2 : Build) (timerFromUs : UInt32 → UInt32) (s1 s2 : Stepper) (h1 : Running b1 s1)
    (h2 : RunningFull b2 s1.count.toNat s2) (hw : s2.waketime = s1.waketime)
    (hi : s2.interval = s1.interval) (ha : s2.add = s1.add) (hq : s2.mq = s1.mq) (lat : Nat)
    (hgap : ∀ i ∈ stepGaps s1.count.toNat s2, GapOk s2.flags.singleSched s2.stepPulseTicks lat i)
    (lats1 lats2 : List UInt32) (hn1 : stepsLeft s1 ≤ lats1.length)
    (hlat : ∀ l ∈ lats2, l.toNat ≤ lat)
    (hn2 : edgeCount s2.flags.singleSched * stepsLeft s1 ≤ lats2.length) :
    eventTimes b2 timerFromUs lats2 s2 =
      fullEdges s2.flags.singleSched s2.stepPulseTicks (eventTimes b1 timerFromUs lats1 s1) lats2 := by
  -- both runs follow one schedule: the optimized one is it, the full one its edges
  have hsched : stepSchedule s1.count.toNat s2 = stepSchedule s1.count.toNat s1 := by
    simp only [stepSchedule, hw, hi, ha, hq]
  have hlen : (stepSchedule s1.count.toNat s2).length = stepsLeft s1 := by
    rw [length_stepSchedule h2.steps_pos, hq]
    rfl
  rw [eventTimes_running hb1 timerFromUs lats1 s1 h1 hn1, ← stepSchedule, ← hsched]
  exact eventTimes_full timerFromUs lat _ _ s2 lats2 h2 le_rfl hgap hlat (by rw [hlen]; exact hn2)

/-- The slowing move of `stepper_steps_in_check_line_windows_ramp` on the edge path and on the
    plain path of a generic build, with a pulse of 20 ticks and handlers up to 5 ticks late on
    the plain path and 30 on the edge path: the plain path fires at each step and 20 ticks after
    its handler read the clock. -/
theorem stepper_full_path_steps_as_optimized_ramp :
    eventTimes .generic (· * 16) [3, 5, 0, 2, 4, 1, 0, 0]
        ⟨1000, true, 0, 0, 2, 1000, 20, 0, [⟨200, 0, -5, 3, false⟩],
          ⟨false, false, false, false, false, false, false⟩⟩ =
      fullEdges false 20
        (eventTimes .edge (· * 16) [30, 0, 12, 7]
          ⟨1000, true, 0, 0, 1, 0, 0, 0, [⟨200, 0, -5, 3, false⟩],
            ⟨false, false, false, false, true, true, false⟩⟩) [3, 5, 0, 2, 4, 1, 0, 0] ∧
    eventTimes .generic (· * 16) [3, 5, 0, 2, 4, 1, 0, 0]
        ⟨1000, true, 0, 0, 2, 1000, 20, 0, [⟨200, 0, -5, 3, false⟩],
          ⟨false, false, false, false, false, false, false⟩⟩ =
      [1000, 1023, 1200, 1220, 1395, 1419, 1585, 1605] :=
  ⟨stepper_full_path_steps_as_optimized .edge rfl .generic (· * 16)
    ⟨1000, true, 0, 0, 1, 0, 0, 0, [⟨200, 0, -5, 3, false⟩],
      ⟨false, false, false, false, true, true, false⟩⟩
    ⟨1000, true, 0, 0, 2, 1000, 20, 0, [⟨200, 0, -5, 3, false⟩],
      ⟨false, false, false, false, false, false, false⟩⟩
    ⟨rfl, by decide, by decide, (fun h => by cases h), by decide +kernel⟩
    ⟨rfl, by decide, by decide, rfl, by decide⟩ rfl rfl rfl rfl 5
    (by simp [stepGaps, moveIntervals, GapOk, edgeCount, addTicks]; decide)
    [30, 0, 12, 7] [3, 5, 0, 2, 4, 1, 0, 0] (by decide) (by simp) (by decide), by decide⟩

end Klipper.Stepper
