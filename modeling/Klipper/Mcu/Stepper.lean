import Klipper.Mcu.Board

/-
  The MCU stepper driver, `src/stepper.c`, as functions on an explicit `Stepper` record.

  1. **State** — `Stepper` holds the fields of `struct stepper` that the code reads and writes,
     the queue of `struct stepper_move` as a list (push at the back, pop at the front), and
     whether its timer is on the scheduler's list.  The `flags` byte is a record of its seven
     bits.  Pin levels are not part of the record: every function returns the pin operations it
     performed, in order (see `Klipper.Mcu.Board`).

  2. **Code** — one definition per C function, under its name: `stepperLoadNext`, the three
     step callbacks `stepperEventEdge`, `stepperEventAvr`, `stepperEventFull` and their
     dispatcher `stepperEvent`, the command handlers, `stepperGetPosition`, `stepperStop` and
     `stepperShutdown`.  A `shutdown(...)` is an `Except` error carrying its message; in
     `stepperEventFull` the shutdown comes after the callback changed the stepper, so that
     callback returns the changed record beside its `Except` result.

  3. **Build options** — `HAVE_EDGE_OPTIMIZATION` / `HAVE_AVR_OPTIMIZATION` are the `Build`
     parameter; the board's `timer_from_us` and `EDGE_STEP_TICKS` (derived from the clock
     frequency) are parameters too.  What other code decides at run time (whether `move_alloc`
     finds a free move, the clock, the head of the timer list) enters as an argument.

  The position bookkeeping these functions keep is proved in `Klipper.Mcu.StepperPosition`.
-/

namespace Klipper.Stepper

/-! ## Build options and constants -/

/-- The optimized step path the firmware is built with: `HAVE_EDGE_OPTIMIZATION`,
    `HAVE_AVR_OPTIMIZATION`, or neither. -/
inductive Build
  | generic
  | edge
  | avr
deriving DecidableEq, Repr

/-- `HAVE_OPTIMIZED_PATH` -/
def Build.haveOptimizedPath : Build → Bool
  | .generic => false
  | .edge => true
  | .avr => true

/-- `POSITION_BIAS` -/
def positionBias : UInt32 := 0x40000000

/-- `AVR_STEP_TICKS` -/
def avrStepTicks : UInt32 := 40

/-! ## State -/

/-- `struct stepper_move`.  Its `flags` byte has one bit, `MF_DIR`: the move reverses the
    direction pin. -/
structure StepperMove where
  interval : UInt32
  taskline : UInt32
  add : Int16
  count : UInt16
  dir : Bool
deriving DecidableEq, Repr

/-- The `flags` byte of `struct stepper`, bit by bit: `SF_LAST_DIR`, `SF_NEXT_DIR`,
    `SF_INVERT_STEP`, `SF_NEED_RESET`, `SF_SINGLE_SCHED`, `SF_OPTIMIZED_PATH`, `SF_HAVE_ADD`. -/
structure Flags where
  lastDir : Bool
  nextDir : Bool
  invertStep : Bool
  needReset : Bool
  singleSched : Bool
  optimizedPath : Bool
  haveAdd : Bool
deriving DecidableEq, Repr

/-- The two output pins of a stepper. -/
inductive Pin
  | step
  | dir
deriving DecidableEq, Repr

end Klipper.Stepper

namespace Klipper

/-- `struct stepper`: `waketime` is `time.waketime`, `scheduled` says whether `time` is on the
    scheduler's list, `mq` is the move queue from first to last. -/
structure Stepper where
  waketime : UInt32
  scheduled : Bool
  interval : UInt32
  add : Int16
  count : UInt32
  nextStepTime : UInt32
  stepPulseTicks : UInt32
  position : UInt32
  mq : List Stepper.StepperMove
  flags : Stepper.Flags
deriving DecidableEq, Repr

end Klipper

namespace Klipper.Stepper

/-- A signed 16-bit `add` as C adds it to a `uint32_t`: sign-extended, then taken modulo
    `2^32`. -/
def addTicks (add : Int16) : UInt32 := add.toInt32.toUInt32

/-! ## Loading moves and the step callbacks -/

/-- `stepper_load_next`: pop the next move and set up the stepper for it.  The whole move is
    added to `position` at once (negating it first when the move reverses direction); the steps
    not yet taken are recovered from `count` by `stepperGetPosition`. -/
def stepperLoadNext (b : Build) (s : Stepper) : SchedResult × Stepper × List (GpioOp Pin) :=
  match s.mq with
  | [] => (.done, { s with count := 0 }, [])
  | m :: mq =>
    let s := { s with mq := mq, add := m.add, interval := m.interval + addTicks m.add }
    let s :=
      if b.haveOptimizedPath && s.flags.optimizedPath then
        { s with
          waketime := s.waketime + m.interval
          flags := if b = .avr then { s.flags with haveAdd := m.add != 0 } else s.flags
          count := m.count.toUInt32 }
      else
        -- unstep events are scheduled too, so a pulse takes two events
        { s with
          nextStepTime := s.nextStepTime + m.interval
          waketime := s.nextStepTime + m.interval
          count := if s.flags.singleSched then m.count.toUInt32 else m.count.toUInt32 * 2 }
    if m.dir then
      (.reschedule, { s with position := -s.position + m.count.toUInt32 }, [.toggle .dir])
    else
      (.reschedule, { s with position := s.position + m.count.toUInt32 }, [])

/-- `stepper_event_edge`: one step on each edge of the step pin. -/
def stepperEventEdge (b : Build) (s : Stepper) : SchedResult × Stepper × List (GpioOp Pin) :=
  let count := s.count - 1
  if count != 0 then
    (.reschedule,
      { s with count := count, waketime := s.waketime + s.interval,
               interval := s.interval + addTicks s.add },
      [.toggle .step])
  else
    let loaded := stepperLoadNext b s
    (loaded.1, loaded.2.1, .toggle .step :: loaded.2.2)

/-- `stepper_event_avr`: the pulse and its end in one event.  The count is decremented through a
    `uint16_t` pointer to `s->count`, that is in its low half. -/
def stepperEventAvr (b : Build) (s : Stepper) : SchedResult × Stepper × List (GpioOp Pin) :=
  let count := s.count.toUInt16 - 1
  if count != 0 then
    (.reschedule,
      { s with count := (s.count &&& 0xffff0000) ||| count.toUInt32,
               waketime := s.waketime + s.interval,
               interval := if s.flags.haveAdd then s.interval + addTicks s.add else s.interval },
      [.toggle .step, .toggle .step])
  else
    let loaded := stepperLoadNext b s
    (loaded.1, loaded.2.1, .toggle .step :: loaded.2.2 ++ [.toggle .step])

/-- `stepper_event_full`: one event per edge, the unstep edge scheduled `step_pulse_ticks` after
    the step edge.  `curtime` is `timer_read_time()`; "Stepper too far in past" shuts down after
    the new move has been loaded. -/
def stepperEventFull (b : Build) (timerFromUs : UInt32 → UInt32) (curtime : UInt32)
    (s : Stepper) : Except String SchedResult × Stepper × List (GpioOp Pin) :=
  let minNextTime := curtime + s.stepPulseTicks
  let s := { s with count := s.count - 1 }
  if s.count &&& 1 != 0 && !s.flags.singleSched then
    -- schedule the unstep event
    (.ok .reschedule, { s with waketime := minNextTime }, [.toggle .step])
  else if s.count != 0 then
    let s := { s with nextStepTime := s.nextStepTime + s.interval,
                      interval := s.interval + addTicks s.add }
    if timerIsBefore s.nextStepTime minNextTime then
      -- the next step event is too close: push it back
      (.ok .reschedule, { s with waketime := minNextTime }, [.toggle .step])
    else
      (.ok .reschedule, { s with waketime := s.nextStepTime }, [.toggle .step])
  else
    let loaded := stepperLoadNext b s
    let ops := .toggle .step :: loaded.2.2
    if loaded.1 = .done || !timerIsBefore loaded.2.1.waketime minNextTime then
      (.ok loaded.1, loaded.2.1, ops)
    else
      -- the next step event is too close to the last unstep
      let diff := (loaded.2.1.waketime - minNextTime).toInt32
      if diff < (-timerFromUs 1000).toInt32 then
        (.error "Stepper too far in past", loaded.2.1, ops)
      else
        (.ok .reschedule, { loaded.2.1 with waketime := minNextTime }, ops)

/-- The stepper's timer callback.  An optimized stepper leaves `time.func` unset and is run by
    `stepper_event` (the edge or the AVR callback, by build); every other stepper has
    `time.func = stepper_event_full`. -/
def stepperEvent (b : Build) (timerFromUs : UInt32 → UInt32) (curtime : UInt32) (s : Stepper) :
    Except String SchedResult × Stepper × List (GpioOp Pin) :=
  if b.haveOptimizedPath && s.flags.optimizedPath then
    let res := if b = .edge then stepperEventEdge b s else stepperEventAvr b s
    (.ok res.1, res.2.1, res.2.2)
  else
    stepperEventFull b timerFromUs curtime s

/-! ## Commands -/

/-- `command_config_stepper` with its arguments `invert_step` and `step_pulse_ticks`: a fresh
    (zeroed) stepper with the position at `-POSITION_BIAS`.  `invert_step` is read as an
    `int_fast8_t`. -/
def commandConfigStepper (b : Build) (edgeStepTicks : UInt32) (invertStep stepPulseTicks : UInt32) :
    Stepper :=
  let invertStep := invertStep.toUInt8.toInt8
  let flags : Flags :=
    { lastDir := false, nextDir := false, invertStep := decide (invertStep > 0),
      needReset := false, singleSched := decide (invertStep < 0), optimizedPath := false,
      haveAdd := false }
  let flags :=
    match b with
    | .edge =>
      if invertStep < 0 ∧ stepPulseTicks ≤ edgeStepTicks then { flags with optimizedPath := true }
      else flags
    | .avr =>
      if invertStep ≥ 0 ∧ stepPulseTicks ≤ avrStepTicks then
        { flags with singleSched := true, optimizedPath := true }
      else flags
    | .generic => flags
  { waketime := 0, scheduled := false, interval := 0, add := 0, count := 0, nextStepTime := 0,
    stepPulseTicks := stepPulseTicks, position := -positionBias, mq := [], flags := flags }

/-- `command_queue_step` with its arguments `interval`, `count`, `add`, `taskline` as the parser
    delivers them.  `moveAvailable` is whether `move_alloc` finds a free move in the pool shared
    by all steppers; `head` and `now` are what `sched_add_timer` reads when the stepper was
    idle. -/
def commandQueueStep (b : Build) (timerFromUs : UInt32 → UInt32) (moveAvailable : Bool)
    (head now : UInt32) (interval count add taskline : UInt32) (s : Stepper) :
    Except String (Stepper × List (GpioOp Pin)) :=
  if !moveAvailable then .error "Move queue overflow"
  else if count.toUInt16 = 0 then .error "Invalid count parameter"
  else
    -- a change of direction against the last queued move reverses the pin when it is loaded
    let reverse := s.flags.lastDir != s.flags.nextDir
    let flags := if reverse then { s.flags with lastDir := !s.flags.lastDir } else s.flags
    let m : StepperMove :=
      { interval := interval, taskline := taskline, add := add.toUInt16.toInt16,
        count := count.toUInt16, dir := reverse }
    if s.count != 0 then .ok ({ s with flags := flags, mq := s.mq ++ [m] }, [])
    else if flags.needReset then .ok (s, [])
    else
      -- an idle stepper loads the move at once; the result of the load is not used
      let loaded := stepperLoadNext b { s with flags := flags, mq := s.mq ++ [m] }
      .ok ({ loaded.2.1 with
              scheduled := true,
              waketime := addTimerWaketime timerFromUs head now loaded.2.1.waketime },
        loaded.2.2)

/-- `command_set_next_step_dir` -/
def commandSetNextStepDir (dir : UInt32) (s : Stepper) : Stepper :=
  { s with flags := { s.flags with nextDir := dir != 0 } }

/-- `command_reset_step_clock` -/
def commandResetStepClock (clock : UInt32) (s : Stepper) : Except String Stepper :=
  if s.count != 0 then .error "Can't reset time when stepper active"
  else .ok { s with nextStepTime := clock, waketime := clock,
                    flags := { s.flags with needReset := false } }

/-! ## Position and stopping -/

/-- `stepper_get_position`: subtract the steps of the current move not yet taken (`count`, or
    `count / 2` when each pulse takes two events), then undo the negation that marks the reverse
    direction, flagged by the top bit. -/
def stepperGetPosition (s : Stepper) : UInt32 :=
  let position := if s.flags.singleSched then s.position - s.count else s.position - s.count / 2
  if position &&& 0x80000000 != 0 then -position else position

/-- The `pos` that `command_stepper_get_position` sends (as `%i`). -/
def stepperPositionReport (s : Stepper) : UInt32 := stepperGetPosition s - positionBias

/-- `stepper_stop`: drop the timer and the queue, store the current position in the
    forward-direction encoding, set the direction pin low and, unless each edge is a step, the
    step pin to its idle level. -/
def stepperStop (b : Build) (s : Stepper) : Stepper × List (GpioOp Pin) :=
  let flags : Flags :=
    { lastDir := false, nextDir := false, invertStep := s.flags.invertStep, needReset := true,
      singleSched := s.flags.singleSched, optimizedPath := s.flags.optimizedPath,
      haveAdd := false }
  let s' :=
    { s with scheduled := false, nextStepTime := 0, waketime := 0,
             position := -stepperGetPosition s, count := 0, flags := flags, mq := [] }
  let unstep : List (GpioOp Pin) :=
    if !flags.singleSched || (b = .avr && flags.optimizedPath) then
      [.write .step flags.invertStep]
    else []
  (s', .write .dir false :: unstep)

/-- `stepper_shutdown`, run for every stepper when the MCU shuts down. -/
def stepperShutdown (b : Build) (s : Stepper) : Stepper × List (GpioOp Pin) :=
  stepperStop b { s with mq := [] }

end Klipper.Stepper
