import Klipper.Mcu.Board

/-
  The `digital_out` object of `src/gpiocmds.c`: an output pin driven by a queue of timed
  updates, each either a level or a software PWM duty (`on_ticks` of every `cycle_ticks`), with
  a safety bound `max_duration` on how long the pin may stay away from its default level without
  a new update.

  The object and its timer are one record: `waketime` and `func` are the fields of its
  `struct timer`, and `scheduled` says whether the timer is on the scheduler's list.  The two
  timer callbacks return, like the stepper's, the pin operations they performed;
  `digital_load_event` can shut down, so it returns an `Except`.  The commands take what they
  read from the rest of the firmware as arguments: `move_alloc`'s answer, and the head of the
  timer list and the time that `sched_add_timer` reads.

  `digital_load_event` is split along the blocks of its source: the setting of the popped update
  (`loadSetting`), the look at the next queued update (`nextEnd`), and the choice of the next
  event (`loadSchedule`).
-/

namespace Klipper.GpioCmds

/-- `struct digital_move`: one queued update. -/
structure DigitalMove where
  waketime : UInt32
  onDuration : UInt32
deriving DecidableEq, Repr

/-- The bits of `digital_out_s.flags`: `DF_ON`, `DF_TOGGLING`, `DF_CHECK_END`, `DF_DEFAULT_ON`. -/
structure DigitalFlags where
  on : Bool
  toggling : Bool
  checkEnd : Bool
  defaultOn : Bool
deriving DecidableEq, Repr

/-- The callback in the object's timer: `digital_load_event` or `digital_toggle_event`. -/
inductive DigitalFunc
  | load
  | toggle
deriving DecidableEq, Repr

/-- `struct digital_out_s`, with its timer's `waketime` and `func`, and whether the timer is
    queued. -/
structure DigitalOut where
  waketime : UInt32
  scheduled : Bool
  func : DigitalFunc
  onDuration : UInt32
  offDuration : UInt32
  endTime : UInt32
  maxDuration : UInt32
  cycleTime : UInt32
  mq : List DigitalMove
  flags : DigitalFlags
deriving DecidableEq, Repr

/-- The operations on the object's one pin. -/
abbrev PinOp := GpioOp Unit

/-! ## Timer callbacks -/

/-- `digital_toggle_event`: toggle the pin and wait the on or off part of the cycle; at
    `end_time` the next event loads the next update instead. -/
def digitalToggleEvent (d : DigitalOut) : SchedResult × DigitalOut × List PinOp :=
  let flags := { d.flags with on := !d.flags.on }
  let waketime := if flags.on then d.waketime + d.onDuration else d.waketime + d.offDuration
  if flags.checkEnd && !timerIsBefore waketime d.endTime then
    (.reschedule, { d with flags := flags, func := .load, waketime := d.endTime }, [.toggle ()])
  else
    (.reschedule, { d with flags := flags, waketime := waketime }, [.toggle ()])

/-- The flags and `end_time` that a loaded `on_duration` calls for, before the next queued update
    is looked at: a level away from the default, or any toggling, is bounded by
    `max_duration` from this event. -/
def loadSetting (d : DigitalOut) (onDuration : UInt32) : DigitalFlags × UInt32 :=
  let on := onDuration != 0
  if !on || onDuration ≥ d.cycleTime then
    -- always on or always off
    if ((!on) != !d.flags.defaultOn) && d.maxDuration != 0 then
      (⟨on, false, true, d.flags.defaultOn⟩, d.waketime + d.maxDuration)
    else (⟨on, false, false, d.flags.defaultOn⟩, 0)
  else if d.maxDuration != 0 then
    (⟨on, true, true, d.flags.defaultOn⟩, d.waketime + d.maxDuration)
  else (⟨on, true, false, d.flags.defaultOn⟩, 0)

/-- The next queued update ends the loaded setting; under `DF_CHECK_END` it must come no later
    than `end_time`. -/
def nextEnd (flags : DigitalFlags) (endTime : UInt32) :
    List DigitalMove → Except String (DigitalFlags × UInt32)
  | [] => .ok (flags, endTime)
  | n :: _ =>
    if flags.checkEnd && timerIsBefore endTime n.waketime then
      .error "Scheduled digital out event will exceed max_duration"
    else .ok ({ flags with checkEnd := true }, n.waketime)

/-- "Schedule next event": nothing, the load at `end_time`, or the first toggle. -/
def loadSchedule (d : DigitalOut) (onDuration : UInt32) : SchedResult × DigitalOut :=
  if !d.flags.toggling then
    if !d.flags.checkEnd then (.done, d)
    else (.reschedule, { d with waketime := d.endTime })
  else
    let waketime := d.waketime + onDuration
    if d.flags.checkEnd && !timerIsBefore waketime d.endTime then
      (.reschedule, { d with waketime := d.endTime })
    else
      (.reschedule, { d with func := .toggle, waketime := waketime, onDuration := onDuration,
                             offDuration := d.cycleTime - onDuration })

/-- `digital_load_event`: apply the next update and remove it from the queue. -/
def digitalLoadEvent (d : DigitalOut) : Except String (SchedResult × DigitalOut × List PinOp) :=
  match d.mq with
  | [] => .error "Missed scheduling of next digital out event"
  | m :: mq =>
    let setting := loadSetting d m.onDuration
    match nextEnd setting.1 setting.2 mq with
    | .error e => .error e
    | .ok fe =>
      let r := loadSchedule { d with mq := mq, endTime := fe.2, flags := fe.1 } m.onDuration
      .ok (r.1, r.2, [.write () setting.1.on])

/-- The object's timer fires: the callback in `func`. -/
def digitalEvent (d : DigitalOut) : Except String (SchedResult × DigitalOut × List PinOp) :=
  match d.func with
  | .load => digitalLoadEvent d
  | .toggle => .ok (digitalToggleEvent d)

/-! ## Commands -/

/-- `command_config_digital_out` with its arguments `value`, `default_value` and `max_duration`:
    the pin starts at `value`.  The timer's callback is set before the timer is first added. -/
def commandConfigDigitalOut (value defaultValue maxDuration : UInt32) : DigitalOut :=
  { waketime := 0, scheduled := false, func := .load, onDuration := 0, offDuration := 0,
    endTime := 0, maxDuration := maxDuration, cycleTime := 0, mq := [],
    flags := ⟨value != 0, false, false, defaultValue != 0⟩ }

/-- `command_set_digital_out_pwm_cycle`. -/
def commandSetDigitalOutPwmCycle (cycleTicks : UInt32) (d : DigitalOut) :
    Except String DigitalOut :=
  if d.mq ≠ [] then .error "Can not set soft pwm cycle ticks while updates pending"
  else .ok { d with cycleTime := cycleTicks }

/-- `command_queue_digital_out` with its arguments `clock` and `on_ticks`.  An update behind
    others only joins the queue.  The first one ends the current setting, so it must come no
    later than `end_time`; it is loaded by its own timer event unless the pin is toggling with a
    toggle due before it, which hands over to the load itself. -/
def commandQueueDigitalOut (timerFromUs : UInt32 → UInt32) (moveAvailable : Bool)
    (head now : UInt32) (clock onTicks : UInt32) (d : DigitalOut) : Except String DigitalOut :=
  if !moveAvailable then .error "Move queue overflow"
  else
    let m : DigitalMove := ⟨clock, onTicks⟩
    if d.mq ≠ [] then .ok { d with mq := d.mq ++ [m] }
    else if d.flags.checkEnd && timerIsBefore d.endTime clock then
      .error "Scheduled digital out event will exceed max_duration"
    else
      let d' := { d with mq := [m], endTime := clock, flags := { d.flags with checkEnd := true } }
      if d.flags.toggling && timerIsBefore d.waketime clock then .ok d'
      else
        .ok { d' with waketime := addTimerWaketime timerFromUs head now clock, func := .load,
                      scheduled := true }

/-- `command_update_digital_out` with its argument `value`, read as a byte: set the pin now; a
    level away from the default is bounded by `max_duration` from now. -/
def commandUpdateDigitalOut (timerFromUs : UInt32 → UInt32) (head now : UInt32) (value : UInt32)
    (d : DigitalOut) : Except String (DigitalOut × List PinOp) :=
  let d := { d with scheduled := false }
  if d.mq ≠ [] then .error "update_digital_out not valid with active queue"
  else
    let on := value.toUInt8 != 0
    let ops := [GpioOp.write () on]
    if ((!on) != !d.flags.defaultOn) && d.maxDuration != 0 then
      .ok ({ d with waketime := addTimerWaketime timerFromUs head now (now + d.maxDuration),
                    endTime := now + d.maxDuration, func := .load,
                    flags := ⟨on, false, true, d.flags.defaultOn⟩, scheduled := true }, ops)
    else .ok ({ d with flags := ⟨on, false, false, d.flags.defaultOn⟩ }, ops)

/-- `digital_out_shutdown`: the pin back to its default level and the queue cleared.  (The
    scheduler drops every timer on shutdown.) -/
def digitalOutShutdown (d : DigitalOut) : DigitalOut × List PinOp :=
  ({ d with flags := ⟨d.flags.defaultOn, false, false, d.flags.defaultOn⟩, mq := [] },
    [.write () d.flags.defaultOn])

end Klipper.GpioCmds
