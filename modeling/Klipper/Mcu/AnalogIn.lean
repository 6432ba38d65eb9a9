import Mathlib
import Klipper.Lib.Transition

/-
  Analog inputs (`src/adccmds.c`) and the part of the scheduler they run in (`src/sched.c`).

  `query_analog_in` arms an analog input's timer at `clock`.  Each event of the timer
  (`analog_in_event`) starts a conversion or, once `gpio_adc_sample` says it is done, adds
  `gpio_adc_read` to the 16-bit sum `value` and counts it in the 8-bit `state`.  After
  `sample_count` conversions the group is complete: its sum is checked against
  `[min_value, max_value]`, `range_check_count` groups out of range in a row call
  `try_shutdown("ADC out of range")`, the task is woken and the next group is `rest_ticks`
  after the last one began.  `analog_in_task` reports each complete group once, as
  `analog_in_state`, and moves `state` past `sample_count`; the next conversion then starts a
  group afresh.

  The MCU is a state machine over the oid table, the task's wake flag, the shutdown status and
  the position of the task's `foreach_oid` loop.  Its steps are the timer of one analog input,
  the scheduler calling `analog_in_task`, one turn of that task's loop (interrupts are off
  while it looks at an object, so a timer can come between turns but not within one), the two
  commands and a shutdown from elsewhere.  Three things of the C code shape the model:
  - `try_shutdown` returns only when the MCU is already shut down; otherwise it jumps to
    `run_shutdown`, so the rest of `analog_in_event` does not run and the task the timer
    interrupted is abandoned;
  - `run_shutdown` empties the timer list before the shutdown handlers run, and
    `analog_in_shutdown` adds back the timers of the inputs that have a sample count;
  - the command handlers run from the command task, never inside `analog_in_task`, and the
    dispatcher rejects `query_analog_in` while the MCU is shut down.

  The ADC is the model's input: a step of a timer carries what `gpio_adc_sample` and
  `gpio_adc_read` return.  The waketimes are kept as the code computes them; `sched_add_timer`
  moving a past waketime forward (`Klipper.addTimerWaketime`) is left out.

  What is proved is that each report is one group.  A history variable `Run.since` records, for
  every oid, the readings its input converted since its last report; `GroupOk` says what the
  fields `state` and `value` tell about them, every step keeps it (`Run.Inv.step`), and so in
  every run each `analog_in_state` carries the 16-bit sum of the `sample_count` most recent
  readings, all taken after the previous report (`analog_in_reports_group`).  That needs
  `sample_count` below 255: at 255 the report's `state++` wraps to 0, and the next group adds
  onto the sum just reported (`analogInEvent_after_report_wraps`).
-/

namespace Klipper.AdcCmds

/-! ## One analog input -/

/-- The `struct analog_in` fields (the pin is the ADC, whose answers are inputs), and whether
    its timer is in the scheduler's list. -/
structure AnalogIn where
  waketime : UInt32
  restTime : UInt32
  sampleTime : UInt32
  nextBeginTime : UInt32
  value : UInt16
  minValue : UInt16
  maxValue : UInt16
  invalidCount : UInt8
  rangeCheckCount : UInt8
  state : UInt8
  sampleCount : UInt8
  scheduled : Bool
deriving DecidableEq, Repr

/-- What `analog_in_event` does besides updating the struct. -/
inductive EventResult
  /-- It returned `SF_RESCHEDULE`, after `sched_wake_task(&analog_wake)` or not. -/
  | reschedule (wake : Bool)
  /-- `try_shutdown` found the MCU running and jumped to the shutdown code. -/
  | shutdown
deriving DecidableEq, Repr

/-- The message of the range check's `try_shutdown`. -/
def adcOutOfRange : String := "ADC out of range"

/-- The end of `analog_in_event` after a complete group: wake the task, and set the timer for
    the next group, `rest_time` after this one began. -/
def analogInGroupDone (a : AnalogIn) : AnalogIn × EventResult :=
  let next := a.nextBeginTime + a.restTime
  ({ a with nextBeginTime := next, waketime := next }, .reschedule true)

/-- `analog_in_event`: `gpio_adc_sample` asks for `sampleDelay` more ticks (zero once the
    conversion is done) and `gpio_adc_read` gives `reading`; `isShutdown` is the scheduler's
    shutdown status, which decides whether `try_shutdown` returns. -/
def analogInEvent (isShutdown : Bool) (a : AnalogIn) (sampleDelay : UInt32) (reading : UInt16) :
    AnalogIn × EventResult :=
  if sampleDelay ≠ 0 then ({ a with waketime := a.waketime + sampleDelay }, .reschedule false)
  else
    -- a state at or past `sample_count` starts a new group with this reading
    let fresh := decide (a.sampleCount ≤ a.state)
    let a := { a with value := if fresh then reading else reading + a.value,
                      state := (if fresh then 0 else a.state) + 1 }
    if a.state < a.sampleCount then
      ({ a with waketime := a.waketime + a.sampleTime }, .reschedule false)
    else if a.minValue ≤ a.value ∧ a.value ≤ a.maxValue then
      analogInGroupDone { a with invalidCount := 0 }
    else
      let a := { a with invalidCount := a.invalidCount + 1 }
      if a.rangeCheckCount ≤ a.invalidCount then
        if isShutdown then analogInGroupDone { a with invalidCount := 0 } else (a, .shutdown)
      else analogInGroupDone a

/-- One turn of `analog_in_task`'s loop at the object `a`, as it runs with interrupts off: a
    complete group moves the state past `sample_count` and is reported with the time the next
    group begins. -/
def analogInTaskVisit (a : AnalogIn) : AnalogIn × Option (UInt32 × UInt16) :=
  if a.state ≠ a.sampleCount then (a, none)
  else ({ a with state := a.state + 1 }, some (a.nextBeginTime, a.value))

/-- The arguments of `query_analog_in` after its oid, as `command_parsef` hands them over. -/
structure QueryArgs where
  clock : UInt32
  sampleTicks : UInt32
  sampleCount : UInt32
  restTicks : UInt32
  minValue : UInt32
  maxValue : UInt32
  rangeCheckCount : UInt32
deriving DecidableEq, Repr

/-- `command_query_analog_in` on the object `a`: `sched_del_timer`, the fields, each truncated to
    its C type, and `sched_add_timer` unless the sample count is zero. -/
def commandQueryAnalogIn (a : AnalogIn) (q : QueryArgs) : AnalogIn :=
  let sampleCount := q.sampleCount.toUInt8
  { a with nextBeginTime := q.clock, waketime := q.clock, sampleTime := q.sampleTicks,
           sampleCount := sampleCount, state := sampleCount + 1, restTime := q.restTicks,
           minValue := q.minValue.toUInt16, maxValue := q.maxValue.toUInt16,
           rangeCheckCount := q.rangeCheckCount.toUInt8, scheduled := sampleCount ≠ 0 }

/-- The object `command_config_analog_in` allocates: `oid_alloc` zeroes it and the state is set
    to 1; its timer is not added. -/
def commandConfigAnalogIn : AnalogIn :=
  { waketime := 0, restTime := 0, sampleTime := 0, nextBeginTime := 0, value := 0,
    minValue := 0, maxValue := 0, invalidCount := 0, rangeCheckCount := 0, state := 1,
    sampleCount := 0, scheduled := false }

/-- `sched_timer_reset` and then `analog_in_shutdown` at one object: the timer leaves the list,
    and an input with a sample count comes back for its next group. -/
def analogInShutdown (a : AnalogIn) : AnalogIn :=
  if a.sampleCount ≠ 0 then
    let next := a.nextBeginTime + a.restTime
    { a with state := a.sampleCount + 1, nextBeginTime := next, waketime := next,
             scheduled := true }
  else { a with scheduled := false }

/-! ## The MCU -/

/-- The messages the analog inputs and the shutdown make the MCU send. -/
inductive Msg
  /-- `analog_in_state oid=%c next_clock=%u value=%hu` -/
  | analogInState (oid : Nat) (nextClock : UInt32) (value : UInt16)
  /-- `shutdown clock=%u static_string_id=%hu`, with the recorded reason. -/
  | shutdown (reason : String)
deriving DecidableEq, Repr

/-- The MCU as the analog inputs see it. -/
structure Adc where
  /-- The oid table: the analog inputs at their oids, `none` for other objects. -/
  oids : List (Option AnalogIn)
  /-- `analog_wake` -/
  wake : Bool
  /-- `SchedStatus.shutdown_status` with `shutdown_reason`: the reason while shut down. -/
  shutdown : Option String
  /-- The oid `analog_in_task`'s `foreach_oid` loop looks at next, while the task runs. -/
  loop : Option Nat

/-- What can happen to the analog inputs. -/
inductive Op
  /-- The timer of the analog input at `oid` fires, and the ADC answers. -/
  | timer (oid : Nat) (sampleDelay : UInt32) (reading : UInt16)
  /-- The scheduler calls `analog_in_task`. -/
  | task
  /-- The running `analog_in_task` takes the next oid of its loop. -/
  | taskNext
  /-- The command task runs `command_query_analog_in`. -/
  | query (oid : Nat) (q : QueryArgs)
  /-- Other code calls `shutdown(reason)`. -/
  | shutdown (reason : String)
  /-- The command task runs `command_clear_shutdown`. -/
  | clearShutdown

/-- The MCU after its configuration: `config_analog_in` at the oids marked `true`. -/
def Adc.boot (table : List Bool) : Adc :=
  { oids := table.map fun b => if b then some commandConfigAnalogIn else none, wake := false,
    shutdown := none, loop := none }

/-- `run_shutdown reason`: the reason is recorded only when the MCU was running, the timer list
    is emptied, the shutdown handlers run, and whatever task was running is abandoned. -/
def Adc.runShutdown (s : Adc) (reason : String) : Adc × List Msg :=
  let reason := s.shutdown.getD reason
  ({ oids := s.oids.map (Option.map analogInShutdown), wake := s.wake, shutdown := some reason,
     loop := none }, [.shutdown reason])

/-- One step of the MCU.  A step that cannot happen (a timer that is not in the list, a command
    while the task's loop runs, a query the dispatcher rejects in shutdown) changes nothing. -/
def Adc.step (s : Adc) : Op → Adc × List Msg
  | .timer oid sampleDelay reading =>
    match s.oids[oid]? with
    | some (some a) =>
      if a.scheduled then
        match analogInEvent s.shutdown.isSome a sampleDelay reading with
        | (a', .reschedule wake) =>
          ({ s with oids := s.oids.set oid (some a'), wake := s.wake || wake }, [])
        | (a', .shutdown) => Adc.runShutdown { s with oids := s.oids.set oid (some a') } adcOutOfRange
      else (s, [])
    | _ => (s, [])
  | .task =>
    -- `sched_check_wake`: the task does nothing unless it was woken, and clears the flag
    if s.loop = none ∧ s.wake then ({ s with wake := false, loop := some 0 }, []) else (s, [])
  | .taskNext =>
    match s.loop with
    | none => (s, [])
    | some oid =>
      match s.oids[oid]? with
      | none => ({ s with loop := none }, [])
      | some none => ({ s with loop := some (oid + 1) }, [])
      | some (some a) =>
        let r := analogInTaskVisit a
        ({ s with oids := s.oids.set oid (some r.1), loop := some (oid + 1) },
          (r.2.map fun (t, v) => Msg.analogInState oid t v).toList)
  | .query oid q =>
    if s.loop ≠ none ∨ s.shutdown ≠ none then (s, [])
    else
      -- `oid_lookup` shuts the MCU down on an oid that is not an analog input
      match s.oids[oid]? with
      | some (some a) => ({ s with oids := s.oids.set oid (some (commandQueryAnalogIn a q)) }, [])
      | _ => s.runShutdown "Invalid oid type"
  | .shutdown reason => s.runShutdown reason
  | .clearShutdown =>
    if s.loop ≠ none then (s, [])
    else
      -- `sched_clear_shutdown`
      match s.shutdown with
      | none => s.runShutdown "Shutdown cleared when not shutdown"
      | some _ => ({ s with shutdown := none }, [])

/-! ## A group's readings -/

/-- `state + 1` in 8 bits does not wrap below 255. -/
theorem toNat_add_one_of_ne {x : UInt8} (h : x ≠ 255) : (x + 1).toNat = x.toNat + 1 := by
  have hx : x.toNat ≠ 255 := fun he => h (UInt8.toNat_inj.mp he)
  have := x.toNat_lt
  rw [UInt8.toNat_add]
  simp only [UInt8.toNat_one]
  omega

/-- What an analog input's fields say about `hist`, the readings of its conversions since its
    last report, the most recent first.  The timer runs only with a sample count, without one
    the state stays past it, and while a group is being gathered (`state ≤ sample_count`) it is
    the `state` most recent readings and `value` is their sum in 16 bits. -/
structure GroupOk (a : AnalogIn) (hist : List UInt16) : Prop where
  scheduled : a.scheduled = true → a.sampleCount ≠ 0
  idle : a.sampleCount = 0 → a.state ≠ 0
  state_le : a.state.toNat ≤ a.sampleCount.toNat + 1
  group : a.state ≤ a.sampleCount →
    a.state.toNat ≤ hist.length ∧ a.value = (hist.take a.state.toNat).sum

/-- `GroupOk` reads only the timer's flag, the sample count, the state and the value. -/
theorem GroupOk.congr {a b : AnalogIn} {hist : List UInt16} (h : GroupOk a hist)
    (hsch : b.scheduled = a.scheduled) (hsc : b.sampleCount = a.sampleCount)
    (hst : b.state = a.state) (hv : b.value = a.value) : GroupOk b hist where
  scheduled := hsch ▸ hsc ▸ h.scheduled
  idle := hsc ▸ hst ▸ h.idle
  state_le := hsc ▸ hst ▸ h.state_le
  group := hsc ▸ hst ▸ hv ▸ h.group

/-- An input whose state is one past its sample count waits for a fresh group, whatever its
    readings so far. -/
theorem groupOk_of_past {a : AnalogIn} (hist : List UInt16) (hsc : a.sampleCount ≠ 255)
    (hst : a.state = a.sampleCount + 1) (hsch : a.scheduled = true → a.sampleCount ≠ 0) :
    GroupOk a hist where
  scheduled := hsch
  idle := fun h0 => by simp [hst, h0]
  state_le := by rw [hst, toNat_add_one_of_ne hsc]
  group := fun hle => by
    rw [hst, UInt8.le_iff_toNat_le, toNat_add_one_of_ne hsc] at hle
    omega

theorem groupOk_commandConfigAnalogIn (hist : List UInt16) :
    GroupOk commandConfigAnalogIn hist :=
  groupOk_of_past hist (by decide) rfl (by simp [commandConfigAnalogIn])

theorem GroupOk.query {a : AnalogIn} {q : QueryArgs} (hist : List UInt16)
    (hsc : (commandQueryAnalogIn a q).sampleCount ≠ 255) :
    GroupOk (commandQueryAnalogIn a q) hist :=
  groupOk_of_past hist hsc rfl (by simp [commandQueryAnalogIn])

theorem GroupOk.shutdown {a : AnalogIn} {hist : List UInt16} (h : GroupOk a hist)
    (hsc : a.sampleCount ≠ 255) : GroupOk (analogInShutdown a) hist := by
  by_cases h0 : a.sampleCount = 0
  · have hs : analogInShutdown a = { a with scheduled := false } := by
      simp [analogInShutdown, h0]
    rw [hs]
    exact { h.congr rfl rfl rfl rfl with scheduled := fun hf => by cases hf }
  · exact groupOk_of_past hist (by simpa [analogInShutdown, h0] using hsc)
      (by simp [analogInShutdown, h0]) (by simp [analogInShutdown, h0])

/-- `analog_in_event` leaves the timer on the list and the sample count as they are. -/
theorem analogInEvent_keeps (isShutdown : Bool) (a : AnalogIn) (sampleDelay : UInt32)
    (reading : UInt16) :
    (analogInEvent isShutdown a sampleDelay reading).1.scheduled = a.scheduled ∧
      (analogInEvent isShutdown a sampleDelay reading).1.sampleCount = a.sampleCount := by
  simp only [analogInEvent, analogInGroupDone]
  split_ifs <;> simp

/-- A conversion still running moves only the waketime. -/
theorem analogInEvent_busy (isShutdown : Bool) {a : AnalogIn} {sampleDelay : UInt32}
    (reading : UInt16) (hd : sampleDelay ≠ 0) :
    (analogInEvent isShutdown a sampleDelay reading).1.state = a.state ∧
      (analogInEvent isShutdown a sampleDelay reading).1.value = a.value := by
  simp [analogInEvent, hd]

/-- A finished conversion at a state at or past the sample count starts a group afresh. -/
theorem analogInEvent_fresh (isShutdown : Bool) {a : AnalogIn} (reading : UInt16)
    (hf : a.sampleCount ≤ a.state) :
    (analogInEvent isShutdown a 0 reading).1.state = 1 ∧
      (analogInEvent isShutdown a 0 reading).1.value = reading := by
  simp only [analogInEvent, analogInGroupDone, ne_eq, not_true_eq_false,
    decide_eq_true hf, ↓reduceIte]
  split_ifs <;> simp

/-- A finished conversion inside a group adds its reading to the group's sum. -/
theorem analogInEvent_gather (isShutdown : Bool) {a : AnalogIn} (reading : UInt16)
    (hlt : a.state < a.sampleCount) :
    (analogInEvent isShutdown a 0 reading).1.state = a.state + 1 ∧
      (analogInEvent isShutdown a 0 reading).1.value = reading + a.value := by
  simp only [analogInEvent, analogInGroupDone, ne_eq, not_true_eq_false,
    decide_eq_false (UInt8.not_le.mpr hlt), Bool.false_eq_true, ↓reduceIte]
  split_ifs <;> simp

/-- **A conversion keeps `GroupOk`**, the reading joining the input's history when the
    conversion is done. -/
theorem GroupOk.event {a : AnalogIn} {hist : List UInt16} (h : GroupOk a hist)
    (hs : a.scheduled = true) (isShutdown : Bool)
    (sampleDelay : UInt32) (reading : UInt16) :
    GroupOk (analogInEvent isShutdown a sampleDelay reading).1
      (if sampleDelay = 0 then reading :: hist else hist) := by
  obtain ⟨hsch, hsc'⟩ := analogInEvent_keeps isShutdown a sampleDelay reading
  have hsc0 := h.scheduled hs
  by_cases hd : sampleDelay = 0
  · subst hd
    rw [if_pos rfl]
    by_cases hf : a.sampleCount ≤ a.state
    -- the reading starts a group of its own
    · obtain ⟨hst, hv⟩ := analogInEvent_fresh isShutdown reading hf
      refine ⟨fun _ => by rw [hsc']; exact hsc0, fun h0 => by simp [hst], ?_, fun _ => ?_⟩
      · rw [hst, hsc']
        simp
      · simp [hst, hv]
    -- the reading joins the group being gathered
    · have hlt : a.state < a.sampleCount := UInt8.not_le.mp hf
      obtain ⟨hst, hv⟩ := analogInEvent_gather isShutdown reading hlt
      have hlt' := UInt8.lt_iff_toNat_lt.mp hlt
      have hne : a.state ≠ 255 := fun he => by
        have := a.sampleCount.toNat_lt
        rw [he] at hlt'
        simp only [UInt8.reduceToNat] at hlt'
        omega
      obtain ⟨hlen, hsum⟩ := h.group (UInt8.le_of_lt hlt)
      refine ⟨fun _ => by rw [hsc']; exact hsc0, fun h0 => absurd (hsc' ▸ h0) hsc0, ?_, fun _ => ?_⟩
      · rw [hst, hsc', toNat_add_one_of_ne hne]
        omega
      · rw [hst, hv, toNat_add_one_of_ne hne, List.take_succ_cons, List.sum_cons, hsum]
        exact ⟨by simp; omega, rfl⟩
  · rw [if_neg hd]
    obtain ⟨hst, hv⟩ := analogInEvent_busy isShutdown reading hd
    exact h.congr hsch hsc' hst hv

/-- **A report is one group**: when `analog_in_task` finds the state at the sample count, the
    sample count is not zero and `value` is the sum of that many most recent readings. -/
theorem GroupOk.report {a : AnalogIn} {hist : List UInt16} (h : GroupOk a hist)
    (hst : a.state = a.sampleCount) :
    0 < a.sampleCount.toNat ∧ a.sampleCount.toNat ≤ hist.length ∧
      a.value = (hist.take a.sampleCount.toNat).sum := by
  have hne : a.sampleCount ≠ 0 := fun h0 => h.idle h0 (hst.trans h0)
  have hpos : 0 < a.sampleCount.toNat :=
    Nat.pos_of_ne_zero fun h0 => hne (UInt8.toNat_inj.mp h0)
  obtain ⟨hlen, hsum⟩ := h.group (UInt8.le_iff_toNat_le.mpr (le_of_eq (congrArg UInt8.toNat hst)))
  rw [hst] at hlen hsum
  exact ⟨hpos, hlen, hsum⟩

/-- The task's visit keeps `GroupOk`; after a report the input's history starts afresh. -/
theorem GroupOk.visit {a : AnalogIn} {hist : List UInt16} (h : GroupOk a hist)
    (hsc : a.sampleCount ≠ 255) :
    GroupOk (analogInTaskVisit a).1 (if (analogInTaskVisit a).2.isSome then [] else hist) := by
  by_cases hst : a.state = a.sampleCount
  · simp only [analogInTaskVisit, hst, ne_eq, not_true_eq_false, if_false, Option.isSome_some,
      if_true]
    exact groupOk_of_past [] hsc rfl h.scheduled
  · simpa [analogInTaskVisit, hst] using h

/-- With `sample_count` 255 a report does not end the group: the visit's `state++` wraps from 255
    to 0, so the next finished conversion adds its reading to the sum just reported instead of
    starting a group afresh. -/
theorem analogInEvent_after_report_wraps {a : AnalogIn} (hsc : a.sampleCount = 255)
    (hst : a.state = 255) (isShutdown : Bool) (reading : UInt16) :
    (analogInTaskVisit a).2 = some (a.nextBeginTime, a.value) ∧
      (analogInEvent isShutdown (analogInTaskVisit a).1 0 reading).1.state = 1 ∧
      (analogInEvent isShutdown (analogInTaskVisit a).1 0 reading).1.value =
        reading + a.value := by
  have hvisit : analogInTaskVisit a = ({ a with state := 0 }, some (a.nextBeginTime, a.value)) := by
    simp only [analogInTaskVisit, hst, hsc]
    rfl
  have hlt : ({ a with state := 0 } : AnalogIn).state < a.sampleCount := by simp [hsc]
  obtain ⟨hs, hv⟩ := analogInEvent_gather isShutdown reading hlt
  rw [hvisit]
  exact ⟨rfl, hs, hv⟩

/-! ## Every run -/

@[simp] theorem analogInShutdown_sampleCount (a : AnalogIn) :
    (analogInShutdown a).sampleCount = a.sampleCount := by
  unfold analogInShutdown
  split_ifs <;> rfl

@[simp] theorem analogInTaskVisit_sampleCount (a : AnalogIn) :
    (analogInTaskVisit a).1.sampleCount = a.sampleCount := by
  unfold analogInTaskVisit
  split_ifs <;> rfl

/-- Every analog input of the oid table keeps `GroupOk` with its readings since its last report,
    unless its sample count is 255. -/
def SlotsOk (oids : List (Option AnalogIn)) (since : Nat → List UInt16) : Prop :=
  ∀ oid a, oids[oid]? = some (some a) → a.sampleCount ≠ 255 → GroupOk a (since oid)

section Slots

variable {oids : List (Option AnalogIn)} {since : Nat → List UInt16}

/-- Storing an input at an oid, with the history it goes on with. -/
theorem SlotsOk.set (h : SlotsOk oids since) {oid : Nat} {a : AnalogIn} {hist : List UInt16}
    (ha : a.sampleCount ≠ 255 → GroupOk a hist) :
    SlotsOk (oids.set oid (some a)) (Function.update since oid hist) := by
  intro o b hb hsc
  by_cases ho : oid = o
  · subst ho
    rw [List.getElem?_set, if_pos rfl] at hb
    split_ifs at hb
    · cases hb
      rw [Function.update_self]
      exact ha hsc
  · rw [List.getElem?_set_ne ho] at hb
    rw [Function.update_of_ne (Ne.symm ho)]
    exact h o b hb hsc

/-- `run_shutdown` keeps every input's `GroupOk`. -/
theorem SlotsOk.shutdown (h : SlotsOk oids since) :
    SlotsOk (oids.map (Option.map analogInShutdown)) since := by
  intro o b hb hsc
  rw [List.getElem?_map] at hb
  obtain ⟨x, hx, hxb⟩ := Option.map_eq_some_iff.mp hb
  obtain ⟨a, rfl, rfl⟩ := Option.map_eq_some_iff.mp hxb
  rw [analogInShutdown_sampleCount] at hsc
  exact (h o a hx hsc).shutdown hsc

end Slots

/-- A run of the MCU with a history variable: for every oid, the readings its input converted
    since its last report, the most recent first.  The history is not state of the firmware; it
    records what the run did. -/
structure Run where
  mcu : Adc
  since : Nat → List UInt16

/-- The conversion a step finishes: the timer event of a scheduled input whose `gpio_adc_sample`
    says it is done, with the oid and the reading. -/
def Adc.conversion (s : Adc) : Op → Option (Nat × UInt16)
  | .timer oid sampleDelay reading =>
    match s.oids[oid]? with
    | some (some a) => if a.scheduled ∧ sampleDelay = 0 then some (oid, reading) else none
    | _ => none
  | _ => none

/-- Whether a message reports the input at `oid`. -/
def Msg.reports (oid : Nat) : Msg → Bool
  | .analogInState o _ _ => o == oid
  | .shutdown _ => false

/-- The histories after a step that finished the conversion `conv` and sent `msgs`: the reading
    joins its input's history, and a report starts the reported input's history afresh. -/
def record (since : Nat → List UInt16) (conv : Option (Nat × UInt16)) (msgs : List Msg) :
    Nat → List UInt16 :=
  let since := match conv with
    | some (oid, reading) => Function.update since oid (reading :: since oid)
    | none => since
  fun oid => if msgs.any (Msg.reports oid) then [] else since oid

/-- One step of the MCU, with the histories it leaves. -/
def Run.step (r : Run) (op : Op) : Run :=
  { mcu := (r.mcu.step op).1, since := record r.since (r.mcu.conversion op) (r.mcu.step op).2 }

/-- The MCU after its configuration, with no reading yet. -/
def Run.boot (table : List Bool) : Run := ⟨Adc.boot table, fun _ => []⟩

def Run.Init (r : Run) : Prop := ∃ table, r = Run.boot table

def Run.next : Run → Run → Prop := Transition.ofStep fun r op => some (r.step op)

/-- The steps `ops` one after another. -/
def Run.run (r : Run) (ops : List Op) : Run := ops.foldl Run.step r

theorem Run.reachable_run {r : Run} (h : Transition.Reachable Run.Init Run.next r)
    (ops : List Op) : Transition.Reachable Run.Init Run.next (r.run ops) := by
  induction ops generalizing r with
  | nil => exact h
  | cons op ops ih => exact ih (.step h ⟨op, rfl⟩)

/-! ### The histories a step leaves -/

section Record

variable {since : Nat → List UInt16}

theorem record_none_nil : record since none [] = since := by
  funext oid
  simp [record]

theorem record_some_nil (oid : Nat) (reading : UInt16) :
    record since (some (oid, reading)) [] = Function.update since oid (reading :: since oid) := by
  funext o
  simp [record]

/-- The shutdown message reports no input. -/
theorem record_shutdown (conv : Option (Nat × UInt16)) (reason : String) :
    record since conv [.shutdown reason] = record since conv [] := by
  funext o
  simp [record, Msg.reports]

/-- The visit of `analog_in_task` at `oid` starts its history afresh when it reports. -/
theorem record_visit (oid : Nat) (o : Option (UInt32 × UInt16)) :
    record since none (o.map fun (t, v) => Msg.analogInState oid t v).toList =
      Function.update since oid (if o.isSome then [] else since oid) := by
  funext o'
  rcases o with _ | ⟨t, v⟩
  · simp [record]
  · by_cases ho : oid = o'
    · subst ho
      simp [record, Msg.reports]
    · simp [record, Msg.reports, ho, Function.update_of_ne (Ne.symm ho)]

end Record

/-! ### Every step keeps the groups -/

section Steps

variable {s : Adc} {since : Nat → List UInt16}

/-- `run_shutdown` after a step whose conversion leaves the histories `since'`. -/
theorem SlotsOk.runShutdown {since' : Nat → List UInt16} (h : SlotsOk s.oids since')
    {conv : Option (Nat × UInt16)} (hconv : record since conv [] = since') (reason : String) :
    SlotsOk (s.runShutdown reason).1.oids (record since conv (s.runShutdown reason).2) := by
  rw [show (s.runShutdown reason).2 = [.shutdown (s.shutdown.getD reason)] from rfl,
    record_shutdown, hconv]
  exact h.shutdown

/-- The timer event of the input at `oid`. -/
theorem SlotsOk.timer (h : SlotsOk s.oids since) (oid : Nat) (sampleDelay : UInt32)
    (reading : UInt16) :
    SlotsOk (s.step (.timer oid sampleDelay reading)).1.oids
      (record since (s.conversion (.timer oid sampleDelay reading))
        (s.step (.timer oid sampleDelay reading)).2) := by
  rcases ha : s.oids[oid]? with _ | _ | a
  · simpa [Adc.step, Adc.conversion, ha, record_none_nil] using h
  · simpa [Adc.step, Adc.conversion, ha, record_none_nil] using h
  by_cases hs : a.scheduled = true
  · -- the input's new fields and its history with the reading, if the conversion is done
    have hkeep := analogInEvent_keeps s.shutdown.isSome a sampleDelay reading
    have hset : SlotsOk (s.oids.set oid (some (analogInEvent s.shutdown.isSome a sampleDelay reading).1))
        (Function.update since oid (if sampleDelay = 0 then reading :: since oid else since oid)) :=
      h.set fun hsc => (h oid a ha (hkeep.2 ▸ hsc)).event hs s.shutdown.isSome sampleDelay reading
    have hrec : record since (s.conversion (.timer oid sampleDelay reading)) [] =
        Function.update since oid (if sampleDelay = 0 then reading :: since oid else since oid) := by
      by_cases hd : sampleDelay = 0
      · simp [Adc.conversion, ha, hs, hd, record_some_nil]
      · simp [Adc.conversion, ha, hs, hd, record_none_nil]
    rcases he : analogInEvent s.shutdown.isSome a sampleDelay reading with ⟨a', _ | _⟩
    all_goals
      rw [he] at hset
      simp only [Adc.step, ha, hs, he, if_true]
    · rw [hrec]
      exact hset
    -- the range check shut the MCU down
    · exact SlotsOk.runShutdown (s := { s with oids := s.oids.set oid (some a') }) hset hrec _
  · simpa [Adc.step, Adc.conversion, ha, hs, record_none_nil] using h

/-- One turn of `analog_in_task`'s loop. -/
theorem SlotsOk.taskNext (h : SlotsOk s.oids since) :
    SlotsOk (s.step .taskNext).1.oids (record since (s.conversion .taskNext) (s.step .taskNext).2) := by
  rcases hl : s.loop with _ | oid
  · simpa [Adc.step, Adc.conversion, hl, record_none_nil] using h
  rcases ha : s.oids[oid]? with _ | _ | a
  · simpa [Adc.step, Adc.conversion, hl, ha, record_none_nil] using h
  · simpa [Adc.step, Adc.conversion, hl, ha, record_none_nil] using h
  simp only [Adc.step, Adc.conversion, hl, ha]
  rw [record_visit]
  exact h.set fun hsc => by
    rw [analogInTaskVisit_sampleCount] at hsc
    exact (h oid a ha hsc).visit hsc

/-- **Every step keeps the groups.** -/
theorem SlotsOk.step (h : SlotsOk s.oids since) (op : Op) :
    SlotsOk (s.step op).1.oids (record since (s.conversion op) (s.step op).2) := by
  cases op with
  | timer oid sampleDelay reading => exact h.timer oid sampleDelay reading
  | task =>
    simp only [Adc.step, Adc.conversion]
    split_ifs <;> simpa [record_none_nil] using h
  | taskNext => exact h.taskNext
  | query oid q =>
    simp only [Adc.step, Adc.conversion]
    split_ifs
    · simpa [record_none_nil] using h
    rcases ha : s.oids[oid]? with _ | _ | a
    · exact h.runShutdown record_none_nil _
    · exact h.runShutdown record_none_nil _
    · rw [record_none_nil, ← Function.update_eq_self oid since]
      exact h.set fun hsc => GroupOk.query _ hsc
  | shutdown reason => exact h.runShutdown record_none_nil reason
  | clearShutdown =>
    simp only [Adc.step, Adc.conversion]
    split_ifs
    · simpa [record_none_nil] using h
    rcases hsd : s.shutdown with _ | reason
    · exact h.runShutdown record_none_nil _
    · simpa [record_none_nil] using h

end Steps

/-- The invariant of a run: every input keeps `GroupOk` with its history. -/
def Run.Inv (r : Run) : Prop := SlotsOk r.mcu.oids r.since

theorem Run.inv_boot (table : List Bool) : (Run.boot table).Inv := by
  intro oid a ha _
  simp only [Run.boot, Adc.boot, List.getElem?_map] at ha
  obtain ⟨b, -, hb⟩ := Option.map_eq_some_iff.mp ha
  cases b
  · cases hb
  · cases hb
    exact groupOk_commandConfigAnalogIn _

theorem Run.inv_of_reachable {r : Run} (h : Transition.Reachable Run.Init Run.next r) : r.Inv := by
  refine Transition.Reachable.inv ?_ ?_ h
  · rintro r ⟨table, rfl⟩
    exact Run.inv_boot table
  · rintro r r' hi ⟨op, hop⟩
    cases hop
    exact SlotsOk.step hi op

/-! ## Reports -/

/-- Only a turn of `analog_in_task`'s loop sends `analog_in_state`, for an input whose state is at
    its sample count, with the time its next group begins and its sum. -/
theorem Adc.mem_step_analogInState {s : Adc} {op : Op} {oid : Nat} {t : UInt32} {v : UInt16}
    (hm : Msg.analogInState oid t v ∈ (s.step op).2) :
    ∃ a, s.oids[oid]? = some (some a) ∧ a.state = a.sampleCount ∧ t = a.nextBeginTime ∧
      v = a.value := by
  cases op with
  | taskNext =>
    simp only [Adc.step] at hm
    rcases hl : s.loop with _ | o
    · simp [hl] at hm
    rcases ha : s.oids[o]? with _ | _ | a
    · simp [hl, ha] at hm
    · simp [hl, ha] at hm
    simp only [hl, ha] at hm
    by_cases hst : a.state = a.sampleCount
    · simp only [analogInTaskVisit, hst, ne_eq, not_true_eq_false, if_false, Option.map_some,
        Option.toList_some, List.mem_singleton, Msg.analogInState.injEq] at hm
      obtain ⟨rfl, rfl, rfl⟩ := hm
      exact ⟨a, ha, hst, rfl, rfl⟩
    · simp [analogInTaskVisit, hst] at hm
  | timer oid' sampleDelay reading =>
    simp only [Adc.step] at hm
    split at hm
    · split at hm
      · split at hm <;> simp [Adc.runShutdown] at hm
      · simp at hm
    · simp at hm
  | task =>
    simp only [Adc.step] at hm
    split_ifs at hm <;> simp at hm
  | query oid' q =>
    simp only [Adc.step] at hm
    split_ifs at hm
    · simp at hm
    · split at hm <;> simp [Adc.runShutdown] at hm
  | shutdown reason => simp [Adc.step, Adc.runShutdown] at hm
  | clearShutdown =>
    simp only [Adc.step] at hm
    split_ifs at hm
    · simp at hm
    · split at hm <;> simp [Adc.runShutdown] at hm

/-- **Each report is one group.**  In every state a run reaches, an `analog_in_state` the next
    step sends is about the input at its oid, carries the time that input's next group begins,
    and, unless the input's sample count is 255, the 16-bit sum of its `sample_count` most recent
    readings, all taken after its previous report. -/
theorem analog_in_reports_group {r : Run} (hr : Transition.Reachable Run.Init Run.next r)
    {op : Op} {oid : Nat} {t : UInt32} {v : UInt16}
    (hmsg : Msg.analogInState oid t v ∈ (r.mcu.step op).2) :
    ∃ a, r.mcu.oids[oid]? = some (some a) ∧ t = a.nextBeginTime ∧
      (a.sampleCount ≠ 255 → 0 < a.sampleCount.toNat ∧
        a.sampleCount.toNat ≤ (r.since oid).length ∧
        v = ((r.since oid).take a.sampleCount.toNat).sum) := by
  obtain ⟨a, ha, hst, ht, hv⟩ := Adc.mem_step_analogInState hmsg
  refine ⟨a, ha, ht, fun hsc => ?_⟩
  obtain ⟨hpos, hlen, hsum⟩ := (Run.inv_of_reachable hr oid a ha hsc).report hst
  exact ⟨hpos, hlen, hv.trans hsum⟩

/-- One input sampled three times a group, the ADC asking for 7 more ticks at the second
    conversion, until the task runs. -/
def threeSamples : Run :=
  (Run.boot [true]).run [.query 0 ⟨1000, 50, 3, 20000, 0, 65535, 0⟩, .timer 0 0 5,
    .timer 0 7 0, .timer 0 0 6, .timer 0 0 9, .task]

theorem analog_in_reports_group_three :
    ∃ a, threeSamples.mcu.oids[0]? = some (some a) ∧ (21000 : UInt32) = a.nextBeginTime ∧
      (a.sampleCount ≠ 255 → 0 < a.sampleCount.toNat ∧
        a.sampleCount.toNat ≤ (threeSamples.since 0).length ∧
        (20 : UInt16) = ((threeSamples.since 0).take a.sampleCount.toNat).sum) :=
  @analog_in_reports_group threeSamples (Run.reachable_run (.init ⟨[true], rfl⟩) _) .taskNext 0
    21000 20 (by decide)

end Klipper.AdcCmds
