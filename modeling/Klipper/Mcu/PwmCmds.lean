import Klipper.Mcu.Board

/-
  The `pwm_out` object of `src/pwmcmds.c`: a hardware PWM pin driven by a queue of timed duty
  values, with a safety bound `max_duration` on how long a value other than `default_value` may
  stay without a new update.

  As for `digital_out`, the object and its timer are one record, and the callbacks return the
  values they wrote to the pin.  `pwm_event` pops the queue without looking: it is only ever
  scheduled with an update queued, so the model takes the popped update as an argument and the
  system that runs it does so only when the queue has one.
-/

namespace Klipper.PwmCmds

/-- `struct pwm_move`: one queued update. -/
structure PwmMove where
  waketime : UInt32
  value : UInt16
deriving DecidableEq, Repr

/-- The callback in the object's timer: `pwm_event` or `pwm_end_event`. -/
inductive PwmFunc
  | event
  | endEvent
deriving DecidableEq, Repr

/-- `struct pwm_out_s`, with its timer's `waketime` and `func`, and whether the timer is
    queued. -/
structure PwmOut where
  waketime : UInt32
  scheduled : Bool
  func : PwmFunc
  maxDuration : UInt32
  defaultValue : UInt16
  mq : List PwmMove
deriving DecidableEq, Repr

/-! ## Timer callbacks -/

/-- `pwm_event` on the queue `m :: mq`: write `m`'s value; with nothing more queued a value other
    than the default arms the safety timeout `max_duration` from now, and otherwise the next
    update must come within `max_duration`. -/
def pwmEvent (p : PwmOut) (m : PwmMove) (mq : List PwmMove) :
    Except String (SchedResult × PwmOut × List UInt16) :=
  let value := m.value
  match mq with
  | [] =>
    if value == p.defaultValue || p.maxDuration == 0 then .ok (.done, { p with mq := [] }, [value])
    else
      .ok (.reschedule, { p with mq := [], waketime := p.waketime + p.maxDuration,
                                 func := .endEvent }, [value])
  | n :: _ =>
    if value != p.defaultValue && p.maxDuration != 0 &&
        timerIsBefore (p.waketime + p.maxDuration) n.waketime then
      .error "Scheduled pwm event will exceed max_duration"
    else .ok (.reschedule, { p with mq := mq, waketime := n.waketime }, [value])

/-- `pwm_end_event`: the safety timeout ran out. -/
def pwmEndEvent : Except String (SchedResult × PwmOut × List UInt16) :=
  .error "Missed scheduling of next hard pwm event"

/-- The object's timer fires: the callback in `func`.  `pwm_event` is never queued with an empty
    queue, where it would pop nothing; that case has no result. -/
def pwmTimerEvent (p : PwmOut) : Option (Except String (SchedResult × PwmOut × List UInt16)) :=
  match p.func, p.mq with
  | .endEvent, _ => some pwmEndEvent
  | .event, m :: mq => some (pwmEvent p m mq)
  | .event, [] => none

/-! ## Commands -/

/-- `command_config_pwm_out` with its arguments `default_value` and `max_duration`. -/
def commandConfigPwmOut (defaultValue : UInt32) (maxDuration : UInt32) : PwmOut :=
  { waketime := 0, scheduled := false, func := .event, maxDuration := maxDuration,
    defaultValue := defaultValue.toUInt16, mq := [] }

/-- `command_queue_pwm_out` with its arguments `clock` and `value`.  An update behind others only
    joins the queue; the first one is loaded by the timer at `clock`, and must come before a
    running safety timeout ends. -/
def commandQueuePwmOut (timerFromUs : UInt32 → UInt32) (moveAvailable : Bool) (head now : UInt32)
    (clock value : UInt32) (p : PwmOut) : Except String PwmOut :=
  if !moveAvailable then .error "Move queue overflow"
  else
    let m : PwmMove := ⟨clock, value.toUInt16⟩
    if p.mq ≠ [] then .ok { p with mq := p.mq ++ [m] }
    else if p.func = .endEvent && timerIsBefore p.waketime clock then
      .error "Scheduled pwm event will exceed max_duration"
    else
      .ok { p with mq := [m], func := .event, waketime := addTimerWaketime timerFromUs head now clock,
                   scheduled := true }

/-- `pwm_shutdown`: the default value written and the queue cleared.  (The scheduler drops every
    timer on shutdown.) -/
def pwmShutdown (p : PwmOut) : PwmOut × List UInt16 :=
  ({ p with func := .event, mq := [] }, [p.defaultValue])

end Klipper.PwmCmds
