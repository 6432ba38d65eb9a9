import Mathlib.Data.Int.Bitwise
import Klipper.Lib.WrapClock

/-
  The board interface the MCU code is written against: the wrapping 32-bit clock and its
  comparison `timer_is_before` (`src/generic/timer_irq.c`), the waketime `sched_add_timer`
  (`src/sched.c`) gives a timer it adds, the result a timer callback hands
  back to the scheduler (`src/sched.h`), and the output-pin operations of `board/gpio.h`.

  Timer callbacks and command handlers are modelled as functions that return, besides the new
  state, the list of pin operations they performed in order; the levels of the pins are then
  the hardware's state, and whatever a property observes on a pin (a step pulse, a heater held on)
  is read off that list.  `timer_from_us` and the clock frequency differ between boards and are
  parameters of the models that use them.
-/

namespace Klipper

/-! ## The clock -/

/-- `timer_is_before`: `time1` is before `time2` when the wrapped difference is negative as a
    signed 32-bit number, so the comparison looks at most `2^31` ticks either way. -/
def timerIsBefore (time1 time2 : UInt32) : Bool :=
  (time1 - time2).toInt32 < 0

/-- `timer_is_before` as arithmetic: the wrapped difference has its top bit set. -/
theorem timerIsBefore_iff (time1 time2 : UInt32) :
    timerIsBefore time1 time2 = true ↔ 2 ^ 31 ≤ (time1 - time2).toNat := by
  rw [timerIsBefore, decide_eq_true_iff, Int32.lt_iff_toInt_lt, Int32.toInt_zero, Int32.toInt,
    UInt32.toBitVec_toInt32, BitVec.toInt_eq_toNat_cond, UInt32.toNat_toBitVec]
  have := UInt32.toNat_lt (time1 - time2)
  split_ifs <;> omega

/-- `timer_is_before` is the sign of the wrapped difference. -/
theorem timerIsBefore_iff_ticks (time1 time2 : UInt32) :
    timerIsBefore time1 time2 = true ↔ WrapClock.ticks time2 time1 < 0 := by
  rw [timerIsBefore, decide_eq_true_iff, Int32.lt_iff_toInt_lt, Int32.toInt_zero, Int32.toInt,
    UInt32.toBitVec_toInt32]
  rfl

/-- **`timer_is_before` against real time**: it orders the real times of two readings that are
    less than `2^31` ticks apart. -/
theorem timerIsBefore_iff_realOf {now : Nat} {time1 time2 : UInt32}
    (h1 : WrapClock.realOf now time1 - WrapClock.realOf now time2 < 2 ^ 31)
    (h2 : WrapClock.realOf now time2 - WrapClock.realOf now time1 ≤ 2 ^ 31) :
    timerIsBefore time1 time2 = true ↔
      WrapClock.realOf now time1 < WrapClock.realOf now time2 :=
  (timerIsBefore_iff_ticks time1 time2).trans (WrapClock.ticks_neg_iff h1 h2)

/-- Two readings of times at or after `now` are compared by `timer_is_before` as their real
    times. -/
theorem timerIsBefore_iff_of_le {now : Nat} {time1 time2 : UInt32}
    (h1 : (now : Int) ≤ WrapClock.realOf now time1) (h2 : (now : Int) ≤ WrapClock.realOf now time2) :
    timerIsBefore time1 time2 = true ↔
      WrapClock.realOf now time1 < WrapClock.realOf now time2 := by
  have b1 := WrapClock.realOf_bounds now time1
  have b2 := WrapClock.realOf_bounds now time2
  exact timerIsBefore_iff_realOf (by omega) (by omega)

/-- What `timer_is_before` puts first is earlier in real time, unless it is `2^31` ticks or more
    after the other: a wrong answer can only come from that side. -/
theorem realOf_lt_of_timerIsBefore {now : Nat} {time1 time2 : UInt32}
    (h : timerIsBefore time1 time2 = true)
    (hd : WrapClock.realOf now time1 - WrapClock.realOf now time2 < 2 ^ 31) :
    WrapClock.realOf now time1 < WrapClock.realOf now time2 := by
  by_contra hle
  have := (timerIsBefore_iff_realOf hd (by omega)).mp h
  omega

/-- What `timer_is_before` does not put before another is not earlier in real time, when the
    other is at most `2^31` ticks after it. -/
theorem realOf_le_of_not_timerIsBefore {now : Nat} {time1 time2 : UInt32}
    (h : timerIsBefore time1 time2 = false)
    (hd : WrapClock.realOf now time2 - WrapClock.realOf now time1 ≤ 2 ^ 31) :
    WrapClock.realOf now time2 ≤ WrapClock.realOf now time1 := by
  by_contra hlt
  have := (timerIsBefore_iff_realOf (by omega) hd).mpr (by omega)
  rw [h] at this
  cases this

/-- The waketime `sched_add_timer` leaves on a timer it adds: one due before the head of the
    timer list (`head`) and already past at `now` is moved to two microseconds from `now`
    (and "Timer too close" is reported). -/
def addTimerWaketime (timerFromUs : UInt32 → UInt32) (head now waketime : UInt32) : UInt32 :=
  if timerIsBefore waketime head && timerIsBefore waketime now then now + timerFromUs 2
  else waketime

/-- A timer added for a time that has not passed keeps its waketime. -/
theorem addTimerWaketime_of_not_before {timerFromUs : UInt32 → UInt32} {head now waketime : UInt32}
    (h : timerIsBefore waketime now = false) :
    addTimerWaketime timerFromUs head now waketime = waketime := by
  simp [addTimerWaketime, h]

/-- A timer added at real time `now` for a time no earlier and less than `2^31` ticks ahead keeps
    its waketime. -/
theorem addTimerWaketime_clockAt {timerFromUs : UInt32 → UInt32} {head : UInt32} {now time : Nat}
    (h1 : now ≤ time) (h2 : time < now + 2 ^ 31) :
    addTimerWaketime timerFromUs head (WrapClock.clockAt now) (WrapClock.clockAt time) =
      WrapClock.clockAt time := by
  apply addTimerWaketime_of_not_before
  have hR := @WrapClock.realOf_clockAt now time (by omega) h2
  have hN := WrapClock.realOf_clockAt_self now
  have := (@timerIsBefore_iff_of_le now (WrapClock.clockAt time) (WrapClock.clockAt now)
    (by omega) (by omega)).not.mpr (by omega)
  simpa using this

/-! ## Timer callbacks -/

/-- What a timer callback returns to `sched_timer_dispatch`: `SF_DONE` (drop the timer) or
    `SF_RESCHEDULE` (put it back at its new `waketime`). -/
inductive SchedResult
  | done
  | reschedule
deriving DecidableEq, Repr

/-! ## Output pins -/

/-- An operation on one of a component's output pins, named by `π`:
    `gpio_out_toggle_noirq` or `gpio_out_write`. -/
inductive GpioOp (π : Type)
  | toggle (pin : π)
  | write (pin : π) (level : Bool)
deriving DecidableEq, Repr

end Klipper
