import Klipper.Mcu.GpioCmds
import Klipper.Lib.Transition
import Klipper.Lib.WrapClock

/-
  The `max_duration` safety of `digital_out`: while the pin is away from its default level or
  toggling, the object's timer is queued to fire no later than `max_duration` ticks after the
  event that applied the setting, and it is a load there, which applies the next update or
  shuts down.

  1. **System** — `DigitalMachine` is one object in real time: the firmware record, the level of
     its pin, the real time `now`, and the real time `applied` of the event that applied the
     current setting.  `now` advances by `wait`, which cannot pass the object's queued timer; the
     timer fires (`event`) when it is due, which after an update queued out of order may be at
     once.  A command or a callback that shuts down runs `digital_out_shutdown` and freezes the
     machine.  Readings of the 32-bit clock stand for real times by `WrapClock.realOf`.

  2. **Host** — `HostOk window` is what klippy promises about its commands: each update is queued
     for a time at or after the MCU's current time and less than `window` ticks ahead, in any
     order, and the PWM cycle is below `window` ticks; at configuration the start value is the
     default and `max_duration` is below `2^31` (`mcu.py`).  The result takes `window = 2^30`.

  3. **Invariant** — `DigitalInv`: the pin follows `DF_ON`; every queued update lies less than
     `2^30` ticks from now either way and less than `2^30` before every update queued after it;
     the timer is queued exactly while an update is queued or the setting is bounded (`pending`),
     and then it is less than `2^30` ticks late, not after `end_time`, a load at `end_time` or a
     toggle before it; `end_time` is the first queued update, and in a bounded setting it is no
     later than the deadline.  With these distances every `timer_is_before` the code makes
     answers as the real times compare, or errs on the side of a shutdown.  One lemma per action
     keeps the invariant (`DigitalMachine.Ok.step`).

  4. **Result** — `digital_out` keeps the deadline along every run the host's promises allow
     (`DigitalMachine.ok_of_reachable`, `DigitalMachine.Ok.safe`).  Without the promise that
     updates are on time it does not: `sched_add_timer` moves a timer added for a past time to
     two microseconds after the command, which can be past the deadline
     (`digitalDeadline_missed`).  Nor with updates out of order up to `2^31` ticks ahead: a
     load that runs late bounds its setting from its own waketime, and an update `2^31` ticks
     after that looks earlier to `timer_is_before` (`digitalDeadline_missed_wide`).
-/

namespace Klipper.GpioCmds

open WrapClock

/-! ## The system -/

/-- The level of the pin after some operations on it. -/
def applyOps (pin : Bool) (ops : List PinOp) : Bool :=
  ops.foldl (fun p op => match op with
    | .toggle _ => !p
    | .write _ level => level) pin

@[simp] theorem applyOps_write (pin level : Bool) : applyOps pin [.write () level] = level := rfl

@[simp] theorem applyOps_toggle (pin : Bool) : applyOps pin [.toggle ()] = !pin := rfl

/-- One `digital_out` object in real time. -/
structure DigitalMachine where
  out : DigitalOut
  pin : Bool
  now : Nat
  applied : Nat
  isShutdown : Bool

/-- What can happen to the object: time passes, its timer fires, or one of its commands runs
    (`queue_digital_out` for real time `time`, `update_digital_out`,
    `set_digital_out_pwm_cycle`), with the environment's answers to `move_alloc` and the head of
    the timer list. -/
inductive DigitalAct
  | wait (ticks : Nat)
  | event
  | queue (moveAvailable : Bool) (head : UInt32) (time : Nat) (onTicks : UInt32)
  | update (head : UInt32) (value : UInt32)
  | setCycle (cycleTicks : UInt32)

/-- A shutdown: `digital_out_shutdown` runs and the scheduler drops the timer. -/
def DigitalMachine.halt (m : DigitalMachine) : DigitalMachine :=
  { m with out := { (digitalOutShutdown m.out).1 with scheduled := false },
           pin := applyOps m.pin (digitalOutShutdown m.out).2, isShutdown := true }

/-- One action on a machine that has not shut down. -/
def DigitalMachine.stepLive (timerFromUs : UInt32 → UInt32) (m : DigitalMachine) :
    DigitalAct → Option DigitalMachine
  | .wait ticks =>
    if m.out.scheduled && decide (realOf m.now m.out.waketime < m.now + ticks) then none
    else some { m with now := m.now + ticks }
  | .event =>
    if m.out.scheduled && decide (realOf m.now m.out.waketime ≤ m.now) then
      match digitalEvent m.out with
      | .ok r =>
        some { m with out := { r.2.1 with scheduled := r.1 == .reschedule },
                      pin := applyOps m.pin r.2.2,
                      applied := if m.out.func = .load then m.now else m.applied }
      | .error _ => some m.halt
    else none
  | .queue moveAvailable head time onTicks =>
    match commandQueueDigitalOut timerFromUs moveAvailable head (clockAt m.now) (clockAt time)
        onTicks m.out with
    | .ok d => some { m with out := d }
    | .error _ => some m.halt
  | .update head value =>
    match commandUpdateDigitalOut timerFromUs head (clockAt m.now) value m.out with
    | .ok r => some { m with out := r.1, pin := applyOps m.pin r.2, applied := m.now }
    | .error _ => some m.halt
  | .setCycle cycleTicks =>
    match commandSetDigitalOutPwmCycle cycleTicks m.out with
    | .ok d => some { m with out := d }
    | .error _ => some m.halt

/-- One action; a shut-down machine takes none. -/
def DigitalMachine.step (timerFromUs : UInt32 → UInt32) (m : DigitalMachine) (a : DigitalAct) :
    Option DigitalMachine :=
  if m.isShutdown then none else m.stepLive timerFromUs a

/-- The object as `config_digital_out` leaves it at real time `now`. -/
def configDigitalMachine (now : Nat) (value defaultValue maxDuration : UInt32) : DigitalMachine :=
  { out := commandConfigDigitalOut value defaultValue maxDuration, pin := value != 0, now := now,
    applied := now, isShutdown := false }

/-- The host's promises about the commands it sends: each update is for a time at or after the
    MCU's current time and less than `window` ticks ahead, and the PWM cycle is below `window`
    ticks. -/
def DigitalMachine.HostOk (window : Nat) (m : DigitalMachine) : DigitalAct → Prop
  | .queue _ _ time _ => m.now ≤ time ∧ time < m.now + window
  | .setCycle cycleTicks => cycleTicks.toNat < window
  | _ => True

instance DigitalMachine.decHostOk (window : Nat) (m : DigitalMachine) (a : DigitalAct) :
    Decidable (m.HostOk window a) := by
  cases a <;> unfold DigitalMachine.HostOk <;> infer_instance

/-- The host's promises at configuration: the start value is the default, and `max_duration` is
    set and below `2^31`. -/
def ConfigOk (value defaultValue maxDuration : UInt32) : Prop :=
  (value != 0) = (defaultValue != 0) ∧ 0 < maxDuration.toNat ∧ maxDuration.toNat < 2 ^ 31

/-! ## The invariant -/

/-- The setting is bounded by `max_duration`: the pin is away from its default level, or it is
    toggling. -/
def DigitalMachine.active (m : DigitalMachine) : Prop :=
  m.out.flags.toggling = true ∨ m.pin ≠ m.out.flags.defaultOn

instance DigitalMachine.decActive (m : DigitalMachine) : Decidable m.active := by
  unfold DigitalMachine.active
  infer_instance

/-- An update is queued or the setting is bounded: the timer must be queued. -/
def DigitalMachine.pending (m : DigitalMachine) : Prop := m.out.mq ≠ [] ∨ m.active

/-- The deadline of the current setting. -/
def DigitalMachine.deadline (m : DigitalMachine) : Int := m.applied + m.out.maxDuration.toNat

/-- The timer of a pending object: queued, less than `2^30` ticks late, not after `end_time`; a
    load at `end_time`, or a toggle before it with durations that fit the window. -/
structure DigitalTimer (m : DigitalMachine) : Prop where
  scheduled : m.out.scheduled = true
  checkEnd : m.out.flags.checkEnd = true
  lag : (m.now : Int) < realOf m.now m.out.waketime + 2 ^ 30
  beforeEnd : realOf m.now m.out.waketime ≤ realOf m.now m.out.endTime
  load : m.out.func = .load → m.out.waketime = m.out.endTime
  toggle : m.out.func = .toggle → m.out.flags.toggling = true ∧
    m.out.onDuration.toNat < 2 ^ 31 ∧ m.out.offDuration.toNat < 2 ^ 31 ∧
    realOf m.now m.out.waketime < realOf m.now m.out.endTime

/-- The invariant of a live `digital_out` object. -/
structure DigitalInv (m : DigitalMachine) : Prop where
  pin : m.pin = m.out.flags.on
  maxDuration : 0 < m.out.maxDuration.toNat ∧ m.out.maxDuration.toNat < 2 ^ 31
  cycle : m.out.cycleTime.toNat < 2 ^ 30
  applied : m.applied ≤ m.now
  queue : ∀ mv ∈ m.out.mq, (m.now : Int) < realOf m.now mv.waketime + 2 ^ 30 ∧
    realOf m.now mv.waketime < m.now + 2 ^ 30
  window : (m.out.mq.map fun mv => realOf m.now mv.waketime).Pairwise fun a b => a < b + 2 ^ 30
  scheduled : m.out.scheduled = true → m.pending
  timer : m.pending → DigitalTimer m
  head : ∀ mv rest, m.out.mq = mv :: rest → realOf m.now m.out.endTime = realOf m.now mv.waketime
  deadline : m.active → realOf m.now m.out.endTime ≤ m.deadline

/-- Every state of a run: shut down with the pin at its default level and no toggling, or live
    with the invariant. -/
def DigitalMachine.Ok (m : DigitalMachine) : Prop :=
  (m.isShutdown = true ∧ m.pin = m.out.flags.defaultOn ∧ m.out.flags.toggling = false) ∨
    (m.isShutdown = false ∧ DigitalInv m)

/-! ## Loading an update -/

section Load

variable {d : DigitalOut} {onDuration : UInt32}

/-- What `loadSetting` decides when `max_duration` is set: the level of the update, toggling only
    for a duty strictly inside the cycle, the deadline checked exactly when the setting is
    bounded, and then `max_duration` from the event. -/
theorem loadSetting_spec (hM : d.maxDuration ≠ 0) :
    (loadSetting d onDuration).1.on = (onDuration != 0) ∧
      (loadSetting d onDuration).1.defaultOn = d.flags.defaultOn ∧
      ((loadSetting d onDuration).1.toggling = true → onDuration ≠ 0 ∧ onDuration < d.cycleTime) ∧
      ((loadSetting d onDuration).1.checkEnd = true ↔
        ((loadSetting d onDuration).1.toggling = true ∨ (onDuration != 0) ≠ d.flags.defaultOn)) ∧
      ((loadSetting d onDuration).1.checkEnd = true →
        (loadSetting d onDuration).2 = d.waketime + d.maxDuration) := by
  have hM' : (d.maxDuration != 0) = true := by simpa using hM
  dsimp only [loadSetting]
  split_ifs with h1 h2
  · -- a level away from the default
    simp only [hM', Bool.and_true, bne_iff_ne, ne_eq] at h2
    refine ⟨rfl, rfl, by simp, ?_, fun _ => rfl⟩
    cases hon : onDuration != 0 <;> cases hdef : d.flags.defaultOn <;> simp_all
  · -- a level at the default
    simp only [hM', Bool.and_true, bne_iff_ne, ne_eq, not_not] at h2
    refine ⟨rfl, rfl, by simp, ?_, by simp⟩
    cases hon : onDuration != 0 <;> cases hdef : d.flags.defaultOn <;> simp_all
  · -- a duty inside the cycle
    simp only [Bool.or_eq_true, Bool.not_eq_true', bne_eq_false_iff_eq, ge_iff_le, decide_eq_true_eq,
      not_or] at h1
    refine ⟨rfl, rfl, fun _ => ⟨by simpa using h1.1, by simpa using h1.2⟩, by simp, fun _ => rfl⟩

/-- What `loadSchedule` leaves: the queue, the flags and `end_time` as they were, and either
    nothing queued (neither toggling nor checked), a load at `end_time`, or a toggle `on_duration`
    later, before `end_time` when that is checked. -/
theorem loadSchedule_spec (d : DigitalOut) (onDuration : UInt32) :
    let r := loadSchedule d onDuration
    r.2.mq = d.mq ∧ r.2.flags = d.flags ∧ r.2.endTime = d.endTime ∧
      r.2.maxDuration = d.maxDuration ∧ r.2.cycleTime = d.cycleTime ∧
      (r.1 = .done → d.flags.toggling = false ∧ d.flags.checkEnd = false ∧ r.2 = d) ∧
      (r.1 = .reschedule →
        (r.2.func = d.func ∧ r.2.waketime = d.endTime ∧
          (d.flags.toggling = true ∨ d.flags.checkEnd = true)) ∨
        (r.2.func = .toggle ∧ r.2.waketime = d.waketime + onDuration ∧ d.flags.toggling = true ∧
          (d.flags.checkEnd = true → timerIsBefore (d.waketime + onDuration) d.endTime = true) ∧
          r.2.onDuration = onDuration ∧ r.2.offDuration = d.cycleTime - onDuration)) := by
  dsimp only [loadSchedule]
  split_ifs with h1 h2 h3
  · simp_all
  · simp_all
  · refine ⟨rfl, rfl, rfl, rfl, rfl, by simp, fun _ => .inl ⟨rfl, rfl, by simp_all⟩⟩
  · refine ⟨rfl, rfl, rfl, rfl, rfl, by simp, fun _ => .inr ⟨rfl, rfl, by simpa using h1,
      fun hc => ?_, rfl, rfl⟩⟩
    simpa [hc] using h3

/-- `nextEnd` changes only `DF_CHECK_END`, which it sets when an update is queued. -/
theorem nextEnd_flags {f f' : DigitalFlags} {e e' : UInt32} {rest : List DigitalMove}
    (h : nextEnd f e rest = .ok (f', e')) :
    f' = { f with checkEnd := f.checkEnd || rest ≠ [] } := by
  cases rest with
  | nil => cases h; simp
  | cons n rest =>
    simp only [nextEnd] at h
    split at h
    · cases h
    · cases h; simp

end Load

/-! ## The timer callbacks -/

section Events

variable {m : DigitalMachine}

theorem DigitalInv.maxDuration_ne_zero (h : DigitalInv m) : m.out.maxDuration ≠ 0 := by
  intro h0
  have := h.maxDuration.1
  simp [h0] at this

/-- **A load keeps the invariant.**  The update at the head of the queue is due, perhaps late;
    the setting it brings is bounded from its waketime, and the next queued update, if any, must
    come within that bound. -/
theorem DigitalInv.load (h : DigitalInv m) (hsch : m.out.scheduled = true)
    (hdue : realOf m.now m.out.waketime ≤ m.now) (hf : m.out.func = .load)
    {r : SchedResult × DigitalOut × List PinOp} (hr : digitalLoadEvent m.out = .ok r) :
    DigitalInv { m with out := { r.2.1 with scheduled := r.1 == .reschedule },
                        pin := applyOps m.pin r.2.2, applied := m.now } := by
  have hT := h.timer (h.scheduled hsch)
  have hlag := hT.lag
  have hM := h.maxDuration_ne_zero
  obtain ⟨hM0, hM31⟩ := h.maxDuration
  -- the deadline of the new setting: `max_duration` from the timer's waketime
  have hE0 : realOf m.now (m.out.waketime + m.out.maxDuration) =
      realOf m.now m.out.waketime + m.out.maxDuration.toNat :=
    realOf_add _ (by omega)
  cases hq : m.out.mq with
  | nil => simp [digitalLoadEvent, hq] at hr
  | cons mv rest =>
  -- the update loaded is the one at the timer, and every later one is less than `2^30` before it
  have hw : realOf m.now m.out.waketime = realOf m.now mv.waketime := by
    rw [hT.load hf]
    exact h.head mv rest hq
  have hqueue : ∀ n ∈ rest, (m.now : Int) < realOf m.now n.waketime + 2 ^ 30 ∧
      realOf m.now n.waketime < m.now + 2 ^ 30 :=
    fun n hn => h.queue n (by simp [hq, hn])
  have hwin := h.window
  rw [hq, List.map_cons, List.pairwise_cons] at hwin
  have hafter : ∀ n ∈ rest, realOf m.now m.out.waketime < realOf m.now n.waketime + 2 ^ 30 :=
    fun n hn => hw ▸ hwin.1 _ (List.mem_map_of_mem hn)
  obtain ⟨hon, hdef, htog, hchk, hS2⟩ := @loadSetting_spec m.out mv.onDuration hM
  simp only [digitalLoadEvent, hq] at hr
  split at hr
  · cases hr
  rename_i fe hne
  obtain ⟨f', e'⟩ := fe
  cases hr
  have hf' := nextEnd_flags hne
  -- `end_time` after the look at the next update
  have hend : f'.checkEnd = true → (m.now : Int) < realOf m.now e' + 2 ^ 30 ∧
      realOf m.now m.out.waketime < realOf m.now e' + 2 ^ 30 ∧
      ((loadSetting m.out mv.onDuration).1.checkEnd = true →
        realOf m.now e' ≤ m.now + m.out.maxDuration.toNat) ∧
      (∀ n rest', rest = n :: rest' → e' = n.waketime) := by
    intro hc
    cases hrest : rest with
    | nil =>
      rw [hrest] at hne hf'
      simp only [nextEnd, Except.ok.injEq, Prod.mk.injEq] at hne
      obtain ⟨rfl, rfl⟩ := hne
      have hc' : (loadSetting m.out mv.onDuration).1.checkEnd = true := by simpa using hc
      rw [hS2 hc', hE0]
      exact ⟨by omega, by omega, fun _ => by omega, fun _ _ h => by cases h⟩
    | cons n rest' =>
      rw [hrest] at hne
      have hn := hqueue n (by simp [hrest])
      have hn' := hafter n (by simp [hrest])
      simp only [nextEnd] at hne
      split at hne
      · cases hne
      rename_i hchk'
      simp only [Except.ok.injEq, Prod.mk.injEq] at hne
      obtain ⟨-, rfl⟩ := hne
      refine ⟨hn.1, hn', fun hc' => ?_, fun _ _ h => ?_⟩
      · -- the next update is checked against the new deadline, less than `2^31` before it
        have hnb : timerIsBefore (loadSetting m.out mv.onDuration).2 n.waketime = false := by
          simpa [hc'] using hchk'
        rw [hS2 hc'] at hnb
        have := realOf_le_of_not_timerIsBefore hnb (by rw [hE0]; omega)
        omega
      · rw [List.cons.injEq] at h
        rw [h.1]
  -- the new setting is bounded exactly when `DF_CHECK_END` came from it
  have hact : ∀ pin', pin' = (mv.onDuration != 0) →
      (f'.toggling = true ∨ pin' ≠ f'.defaultOn ↔
        (loadSetting m.out mv.onDuration).1.checkEnd = true) := by
    rintro pin' rfl
    rw [hf', hchk, hon]
    simp [hdef]
  generalize hres : loadSchedule { m.out with mq := rest, endTime := e', flags := f' }
    mv.onDuration = res
  obtain ⟨hmq, hfl, hE, hmax, hcyc, hdone, hresch⟩ :=
    loadSchedule_spec { m.out with mq := rest, endTime := e', flags := f' } mv.onDuration
  rw [hres] at hmq hfl hE hmax hcyc hdone hresch
  obtain ⟨res1, d2⟩ := res
  dsimp only at hmq hfl hE hmax hcyc hdone hresch
  -- an update is queued or the new setting is bounded exactly when `DF_CHECK_END` is set
  have hc_iff : (rest ≠ [] ∨ f'.toggling = true ∨ (mv.onDuration != 0) ≠ f'.defaultOn) ↔
      f'.checkEnd = true := by
    rw [hact _ rfl, hf']
    simp only [Bool.or_eq_true, decide_eq_true_eq]
    exact or_comm
  have htc : f'.toggling = true → f'.checkEnd = true := fun ht =>
    hc_iff.mp (.inr (.inl ht))
  have hr1 : f'.checkEnd = true → res1 = .reschedule := by
    intro hc
    cases res1 with
    | done => exact absurd (hdone rfl).2.1 (by simp [hc])
    | reschedule => rfl
  -- the same in terms of the level written to the pin
  have hc_pin : (rest ≠ [] ∨ f'.toggling = true ∨
      (loadSetting m.out mv.onDuration).1.on ≠ f'.defaultOn) ↔ f'.checkEnd = true := by
    rw [hon]
    exact hc_iff
  have hS_pin : (f'.toggling = true ∨ (loadSetting m.out mv.onDuration).1.on ≠ f'.defaultOn) →
      f'.checkEnd = true ∧ (loadSetting m.out mv.onDuration).1.checkEnd = true := fun ha =>
    ⟨hc_pin.mp (.inr ha), (hact _ hon).mp ha⟩
  refine ⟨?_, ?_, ?_, ?_, ?_, ?_, fun hs => ?_, fun hp => ?_, fun n rest' hn => ?_,
    fun ha => ?_⟩
  · show applyOps m.pin [.write () (loadSetting m.out mv.onDuration).1.on] = d2.flags.on
    rw [applyOps_write, hfl, hf']
  · show 0 < d2.maxDuration.toNat ∧ _
    rw [hmax]
    exact ⟨hM0, hM31⟩
  · show d2.cycleTime.toNat < _
    rw [hcyc]
    exact h.cycle
  · exact Nat.le_refl _
  · show ∀ mv ∈ d2.mq, _
    rw [hmq]
    exact hqueue
  · show (d2.mq.map _).Pairwise _
    rw [hmq]
    exact hwin.2
  · -- the timer stays queued only for a toggle, or for a checked `end_time`
    have hr : res1 = .reschedule := by simpa using hs
    show d2.mq ≠ [] ∨ d2.flags.toggling = true ∨
      applyOps m.pin [.write () (loadSetting m.out mv.onDuration).1.on] ≠ d2.flags.defaultOn
    rw [hmq, hfl, applyOps_write]
    refine hc_pin.mpr ?_
    rcases hresch hr with ⟨-, -, h1 | h1⟩ | ⟨-, -, h1, -⟩
    · exact htc h1
    · exact h1
    · exact htc h1
  · -- the timer: a load at the checked `end_time`, or the first toggle before it
    have hp' : d2.mq ≠ [] ∨ d2.flags.toggling = true ∨
        applyOps m.pin [.write () (loadSetting m.out mv.onDuration).1.on] ≠ d2.flags.defaultOn := hp
    rw [hmq, hfl, applyOps_write] at hp'
    have hc := hc_pin.mp hp'
    have hr := hr1 hc
    obtain ⟨hnow, hwe, -, -⟩ := hend hc
    rcases hresch hr with ⟨hfunc, hwake, -⟩ | ⟨hfunc, hwake, htg, hbefore, hon', hoff'⟩
    · refine ⟨by simp [hr], by simpa [hfl] using hc, ?_, ?_, fun _ => ?_, fun ht => ?_⟩
      · show (m.now : Int) < realOf m.now d2.waketime + 2 ^ 30
        exact hwake ▸ hnow
      · show realOf m.now d2.waketime ≤ realOf m.now d2.endTime
        exact Int.le_of_eq (by rw [hwake, hE])
      · show d2.waketime = d2.endTime
        rw [hwake, hE]
      · have ht' : d2.func = .toggle := ht
        rw [hfunc, hf] at ht'
        cases ht'
    · -- the first toggle is a duty of a cycle below `2^30` ticks after the late waketime
      obtain ⟨-, hlt⟩ := htog (by rw [hf'] at htg; exact htg)
      have hlt' : mv.onDuration.toNat < m.out.cycleTime.toNat := UInt32.lt_iff_toNat_lt.mp hlt
      have hcyc30 := h.cycle
      have hR : realOf m.now (m.out.waketime + mv.onDuration) =
          realOf m.now m.out.waketime + mv.onDuration.toNat :=
        realOf_add _ (by omega)
      have hbe : realOf m.now (m.out.waketime + mv.onDuration) < realOf m.now e' :=
        realOf_lt_of_timerIsBefore (hbefore hc) (by rw [hR]; omega)
      refine ⟨by simp [hr], by simpa [hfl] using hc, ?_, ?_, fun hl => ?_,
        fun _ => ⟨?_, ?_, ?_, ?_⟩⟩
      · show (m.now : Int) < realOf m.now d2.waketime + 2 ^ 30
        rw [hwake, hR]
        omega
      · show realOf m.now d2.waketime ≤ realOf m.now d2.endTime
        rw [hwake, hE]
        exact Int.le_of_lt hbe
      · have hl' : d2.func = .load := hl
        rw [hfunc] at hl'
        cases hl'
      · show d2.flags.toggling = true
        rw [hfl]
        exact htg
      · show d2.onDuration.toNat < 2 ^ 31
        rw [hon']
        omega
      · show d2.offDuration.toNat < 2 ^ 31
        rw [hoff', UInt32.toNat_sub_of_le _ _ (UInt32.le_of_lt hlt)]
        omega
      · show realOf m.now d2.waketime < realOf m.now d2.endTime
        rw [hwake, hE]
        exact hbe
  · -- `end_time` is the next update
    have hn' : rest = n :: rest' := by rw [← hmq]; exact hn
    show realOf m.now d2.endTime = realOf m.now n.waketime
    rw [hE, (hend (hc_iff.mp (.inl (by simp [hn'])))).2.2.2 n rest' hn']
  · -- a bounded setting ends within `max_duration` of this event
    have ha' : d2.flags.toggling = true ∨
        applyOps m.pin [.write () (loadSetting m.out mv.onDuration).1.on] ≠ d2.flags.defaultOn := ha
    rw [hfl, applyOps_write] at ha'
    obtain ⟨hc, hS⟩ := hS_pin ha'
    show realOf m.now d2.endTime ≤ (m.now : Int) + d2.maxDuration.toNat
    rw [hE, hmax]
    exact (hend hc).2.2.1 hS

/-- **A toggle keeps the invariant.**  It is due, before `end_time`; the next toggle comes a
    part of the cycle after its waketime, unless that reaches `end_time`, where the load takes
    over. -/
theorem DigitalInv.toggle (h : DigitalInv m) (hsch : m.out.scheduled = true)
    (hdue : realOf m.now m.out.waketime ≤ m.now) (hf : m.out.func = .toggle) :
    DigitalInv { m with out := { (digitalToggleEvent m.out).2.1 with scheduled := true },
                        pin := applyOps m.pin (digitalToggleEvent m.out).2.2 } := by
  have hT := h.timer (h.scheduled hsch)
  have hlag := hT.lag
  obtain ⟨htg, hon, hoff, hbe⟩ := hT.toggle hf
  -- the next toggle, a part of the cycle later
  have hnext : ∀ dur : UInt32, dur.toNat < 2 ^ 31 →
      realOf m.now (m.out.waketime + dur) = realOf m.now m.out.waketime + dur.toNat :=
    fun dur hd => realOf_add _ (by omega)
  have hact : m.active := .inl htg
  -- what every outcome of the toggle shares: the flags but `DF_ON`, the queue, `end_time`
  have hkeep : ∀ (d' : DigitalOut), d'.mq = m.out.mq → d'.endTime = m.out.endTime →
      d'.maxDuration = m.out.maxDuration → d'.cycleTime = m.out.cycleTime →
      d'.flags = { m.out.flags with on := !m.out.flags.on } →
      (d'.scheduled = true → DigitalTimer { m with out := d', pin := !m.pin }) →
      d'.scheduled = true → DigitalInv { m with out := d', pin := !m.pin } := by
    intro d' hmq hE' hmax hcyc hfl htimer hs
    have ha' : DigitalMachine.active { m with out := d', pin := !m.pin } := by
      show d'.flags.toggling = true ∨ _
      rw [hfl]
      exact .inl htg
    refine ⟨?_, ?_, ?_, h.applied, ?_, ?_, fun _ => .inr ha', fun _ => htimer hs, ?_, ?_⟩
    · show (!m.pin) = d'.flags.on
      rw [hfl, h.pin]
    · show 0 < d'.maxDuration.toNat ∧ _
      rw [hmax]
      exact h.maxDuration
    · show d'.cycleTime.toNat < _
      rw [hcyc]
      exact h.cycle
    · show ∀ mv ∈ d'.mq, _
      rw [hmq]
      exact h.queue
    · show (d'.mq.map _).Pairwise _
      rw [hmq]
      exact h.window
    · intro mv rest hq
      show realOf m.now d'.endTime = _
      rw [hE']
      exact h.head mv rest (hmq ▸ hq)
    · intro _
      show realOf m.now d'.endTime ≤ (m.applied : Int) + d'.maxDuration.toNat
      rw [hE', hmax]
      exact h.deadline hact
  -- the toggle that reaches `end_time` hands over to the load there
  have hload : DigitalInv { m with out := { m.out with flags := { m.out.flags with on := !m.out.flags.on },
                                                       func := .load, waketime := m.out.endTime,
                                                       scheduled := true },
                                   pin := !m.pin } :=
    hkeep _ rfl rfl rfl rfl rfl
      (fun _ => ⟨rfl, hT.checkEnd, by show (m.now : Int) < realOf m.now m.out.endTime + 2 ^ 30; omega,
        Int.le_refl _, fun _ => rfl, fun h => nomatch h⟩) rfl
  -- the next toggle, a part of the cycle later and before `end_time`
  have hnext' : ∀ dur : UInt32, dur.toNat < 2 ^ 31 →
      timerIsBefore (m.out.waketime + dur) m.out.endTime = true →
      DigitalInv { m with out := { m.out with flags := { m.out.flags with on := !m.out.flags.on },
                                              waketime := m.out.waketime + dur,
                                              scheduled := true },
                          pin := !m.pin } := by
    intro dur hd hb
    have hR := hnext dur hd
    have hlt := realOf_lt_of_timerIsBefore hb (by rw [hR]; omega)
    refine hkeep _ rfl rfl rfl rfl rfl (fun _ => ⟨rfl, hT.checkEnd, ?_, Int.le_of_lt hlt,
      fun hl => ?_, fun _ => ⟨htg, hon, hoff, hlt⟩⟩) rfl
    · show (m.now : Int) < realOf m.now (m.out.waketime + dur) + 2 ^ 30
      rw [hR]
      omega
    · rw [hf] at hl
      cases hl
  -- which part of the cycle comes next depends on the level after the toggle
  dsimp only [digitalToggleEvent]
  split_ifs with hpin hc hc
  · exact hload
  · exact hnext' _ hon (by simpa [hT.checkEnd] using hc)
  · exact hload
  · exact hnext' _ hoff (by simpa [hT.checkEnd] using hc)

end Events

/-! ## Commands and time -/

section Commands

variable {m : DigitalMachine}

/-- The timer of a machine whose timer-side fields are those of a pending `m`. -/
theorem DigitalTimer.congr {m m' : DigitalMachine} (hT : DigitalTimer m) (hnow : m'.now = m.now)
    (hs : m'.out.scheduled = m.out.scheduled) (hf : m'.out.flags = m.out.flags)
    (hw : m'.out.waketime = m.out.waketime) (hE : m'.out.endTime = m.out.endTime)
    (hfn : m'.out.func = m.out.func) (hon : m'.out.onDuration = m.out.onDuration)
    (hoff : m'.out.offDuration = m.out.offDuration) : DigitalTimer m' := by
  obtain ⟨h1, h2, h3, h4, h5, h6⟩ := hT
  constructor <;> simp only [hnow, hs, hf, hw, hE, hfn, hon, hoff] <;> assumption

/-- An update the host queues on time stands for its own time. -/
theorem realOf_queued {time : Nat} (hok : m.now ≤ time ∧ time < m.now + 2 ^ 30) :
    realOf m.now (clockAt time) = time :=
  realOf_clockAt (by omega) (by omega)

/-- **Queueing an update keeps the invariant.**  Behind other updates it only joins the queue.
    As the first one it ends the current setting, no later than its deadline or the firmware shuts
    down; on time, `sched_add_timer` leaves its timer where it was asked. -/
theorem DigitalInv.queueDigitalOut (h : DigitalInv m) {timerFromUs : UInt32 → UInt32} {moveAvailable : Bool}
    {head : UInt32} {time : Nat} {onTicks : UInt32}
    (hok : m.now ≤ time ∧ time < m.now + 2 ^ 30) {d : DigitalOut}
    (hq : commandQueueDigitalOut timerFromUs moveAvailable head (clockAt m.now) (clockAt time)
      onTicks m.out = .ok d) :
    DigitalInv { m with out := d } := by
  have hR := realOf_queued hok
  obtain ⟨hok1, hok2⟩ := hok
  unfold commandQueueDigitalOut at hq
  by_cases hmv : (!moveAvailable) = true
  · rw [if_pos hmv] at hq
    cases hq
  rw [if_neg hmv] at hq
  dsimp only at hq
  by_cases hne : m.out.mq ≠ []
  · -- behind other updates: the queue grows at its end
    rw [if_pos hne] at hq
    cases hq
    have hp : m.pending := .inl hne
    refine ⟨h.pin, h.maxDuration, h.cycle, h.applied, ?_, ?_, fun _ => .inl (by simp),
      fun _ => (h.timer hp).congr rfl rfl rfl rfl rfl rfl rfl rfl, ?_, h.deadline⟩
    · intro mv hmv'
      dsimp only
      rcases List.mem_append.mp hmv' with hmv' | hmv'
      · exact h.queue mv hmv'
      · rw [List.mem_singleton.mp hmv', hR]
        exact ⟨by omega, by omega⟩
    · -- every earlier update is less than `2^30` ahead of now, so of this one
      show ((m.out.mq ++ _).map _).Pairwise _
      rw [List.map_append, List.pairwise_append]
      refine ⟨h.window, by simp, fun a ha b hb => ?_⟩
      obtain ⟨mv, hmv', rfl⟩ := List.mem_map.mp ha
      simp only [List.map_cons, List.map_nil, List.mem_singleton] at hb
      rw [hb, hR]
      have := h.queue mv hmv'
      dsimp only
      omega
    · intro mv rest hq
      obtain ⟨mv0, rest0, hq0⟩ := List.exists_cons_of_ne_nil hne
      rw [hq0, List.cons_append, List.cons.injEq] at hq
      rw [← hq.1]
      exact h.head mv0 rest0 hq0
  rw [if_neg hne] at hq
  by_cases hchk : (m.out.flags.checkEnd && timerIsBefore m.out.endTime (clockAt time)) = true
  · rw [if_pos hchk] at hq
    cases hq
  rw [if_neg hchk] at hq
  have hmq : m.out.mq = [] := not_not.mp hne
  -- the first update must come no later than the current `end_time`
  have hnb : m.out.flags.checkEnd = true → timerIsBefore m.out.endTime (clockAt time) = false := by
    intro hc
    simpa [hc] using hchk
  -- in a bounded setting `end_time` is at most the deadline, so the update comes within it
  have hdl : m.active → realOf m.now (clockAt time) ≤ m.deadline := by
    intro ha
    have hT := h.timer (.inr ha)
    have := hT.lag
    have := hT.beforeEnd
    have := realOf_le_of_not_timerIsBefore (hnb hT.checkEnd) (by rw [hR]; omega)
    have := h.deadline ha
    omega
  have hq1 : ∀ mv ∈ [(⟨clockAt time, onTicks⟩ : DigitalMove)],
      (m.now : Int) < realOf m.now mv.waketime + 2 ^ 30 ∧
        realOf m.now mv.waketime < m.now + 2 ^ 30 := by
    intro mv hmv'
    rw [List.mem_singleton.mp hmv', hR]
    exact ⟨by omega, by omega⟩
  by_cases htw : (m.out.flags.toggling && timerIsBefore m.out.waketime (clockAt time)) = true
  · -- a toggle comes first: it hands over to the load at the new `end_time`
    rw [if_pos htw] at hq
    cases hq
    obtain ⟨htg, hbw⟩ := Bool.and_eq_true _ _ ▸ htw
    have ha : m.active := .inl htg
    have hT := h.timer (.inr ha)
    -- the timer is never `2^31` ticks ahead of now, so not of the update
    have hlt := realOf_lt_of_timerIsBefore hbw
      (by have := realOf_bounds m.now m.out.waketime; rw [hR]; omega)
    refine ⟨h.pin, h.maxDuration, h.cycle, h.applied, hq1, by simp, fun _ => .inl (by simp),
      fun _ => ⟨hT.scheduled, rfl, hT.lag, Int.le_of_lt hlt, fun hl => ?_,
        fun ht => ⟨htg, (hT.toggle ht).2.1, (hT.toggle ht).2.2.1, hlt⟩⟩,
      fun mv rest hq => ?_, fun _ => hdl ha⟩
    · rw [hT.load hl, hnb hT.checkEnd] at hbw
      cases hbw
    · rw [List.cons.injEq] at hq
      rw [← hq.1]
  · -- the load is queued at the update's time: on time, `sched_add_timer` keeps it there
    rw [if_neg htw] at hq
    cases hq
    have hnow : timerIsBefore (clockAt time) (clockAt m.now) = false := by
      have := (@timerIsBefore_iff_of_le m.now (clockAt time) (clockAt m.now) (by omega) (Int.le_of_eq (realOf_clockAt_self m.now).symm)).not.mpr
        (by rw [realOf_clockAt_self]; omega)
      simpa using this
    refine ⟨h.pin, h.maxDuration, h.cycle, h.applied, hq1, by simp, fun _ => .inl (by simp),
      fun _ => ⟨rfl, rfl, ?_, ?_, fun _ => ?_, fun ht => nomatch ht⟩,
      fun mv rest hq => ?_, fun ha => hdl ha⟩
    · show (m.now : Int) < realOf m.now (addTimerWaketime timerFromUs head (clockAt m.now)
        (clockAt time)) + 2 ^ 30
      rw [addTimerWaketime_of_not_before hnow, hR]
      omega
    · show realOf m.now (addTimerWaketime timerFromUs head (clockAt m.now) (clockAt time)) ≤ _
      exact Int.le_of_eq (by rw [addTimerWaketime_of_not_before hnow])
    · exact addTimerWaketime_of_not_before hnow
    · rw [List.cons.injEq] at hq
      rw [← hq.1]

/-- **`update_digital_out` keeps the invariant.**  It is refused while updates are queued; a
    level away from the default is bounded from now, and on time `sched_add_timer` leaves the
    load at that deadline. -/
theorem DigitalInv.updateDigitalOut (h : DigitalInv m) {timerFromUs : UInt32 → UInt32}
    {head value : UInt32} {r : DigitalOut × List PinOp}
    (hu : commandUpdateDigitalOut timerFromUs head (clockAt m.now) value m.out = .ok r) :
    DigitalInv { m with out := r.1, pin := applyOps m.pin r.2, applied := m.now } := by
  obtain ⟨hM0, hM31⟩ := h.maxDuration
  have hM : (m.out.maxDuration != 0) = true := by simpa using h.maxDuration_ne_zero
  unfold commandUpdateDigitalOut at hu
  by_cases hne : m.out.mq ≠ []
  · rw [if_pos hne] at hu
    cases hu
  rw [if_neg hne] at hu
  have hmq : m.out.mq = [] := not_not.mp hne
  by_cases hb : ((!(value.toUInt8 != 0)) != !m.out.flags.defaultOn &&
      m.out.maxDuration != 0) = true
  · -- a level away from the default: the load at `max_duration` from now
    rw [if_pos hb] at hu
    cases hu
    have hR : realOf m.now (clockAt m.now + m.out.maxDuration) = m.now + m.out.maxDuration.toNat := by
      rw [realOf_add _ (by rw [realOf_clockAt_self]; omega), realOf_clockAt_self]
    have hnow : timerIsBefore (clockAt m.now + m.out.maxDuration) (clockAt m.now) = false := by
      have := (@timerIsBefore_iff_of_le m.now (clockAt m.now + m.out.maxDuration) (clockAt m.now)
        (by rw [hR]; omega)
        (Int.le_of_eq (realOf_clockAt_self m.now).symm)).not.mpr
        (by rw [realOf_clockAt_self, hR]; omega)
      simpa using this
    have hw := @addTimerWaketime_of_not_before timerFromUs head _ _ hnow
    have hon : (value.toUInt8 != 0) ≠ m.out.flags.defaultOn := by
      intro he
      simp [he] at hb
    refine ⟨rfl, ⟨hM0, hM31⟩, h.cycle, Nat.le_refl _, fun mv hmv => ?_, ?_,
      fun _ => .inr (.inr hon), fun _ => ⟨rfl, rfl, ?_, ?_, fun _ => hw, fun ht => (nomatch ht)⟩,
      fun _ _ hq => (nomatch hmq.symm.trans hq), fun _ => ?_⟩
    · dsimp only at hmv
      simp [hmq] at hmv
    · dsimp only
      simp [hmq]
    · show (m.now : Int) < realOf m.now (addTimerWaketime timerFromUs head (clockAt m.now)
        (clockAt m.now + m.out.maxDuration)) + 2 ^ 30
      rw [hw, hR]
      omega
    · show realOf m.now (addTimerWaketime timerFromUs head (clockAt m.now)
        (clockAt m.now + m.out.maxDuration)) ≤ _
      exact Int.le_of_eq (by rw [hw])
    · show realOf m.now (clockAt m.now + m.out.maxDuration) ≤ (m.now : Int) + m.out.maxDuration.toNat
      exact Int.le_of_eq hR
  · -- the default level: nothing to bound, the timer stays deleted
    rw [if_neg hb] at hu
    cases hu
    have hon : (value.toUInt8 != 0) = m.out.flags.defaultOn := by
      rw [hM, Bool.and_true, bne_iff_ne, ne_eq, not_not] at hb
      cases h1 : value.toUInt8 != 0 <;> cases h2 : m.out.flags.defaultOn <;> simp_all
    have hna : ¬DigitalMachine.active
        { m with out := { m.out with scheduled := false, flags := ⟨value.toUInt8 != 0, false, false,
                                                                    m.out.flags.defaultOn⟩ },
                 pin := applyOps m.pin [.write () (value.toUInt8 != 0)], applied := m.now } := by
      rintro (ht | hp)
      · cases ht
      · exact hp hon
    refine ⟨rfl, ⟨hM0, hM31⟩, h.cycle, Nat.le_refl _, fun mv hmv => ?_, ?_,
      fun hs => (nomatch hs), fun hp => ?_, fun _ _ hq => (nomatch hmq.symm.trans hq),
      fun ha => absurd ha hna⟩
    · dsimp only at hmv
      simp [hmq] at hmv
    · dsimp only
      simp [hmq]
    rcases hp with hp | hp
    · exact absurd hmq hp
    · exact absurd hp hna

/-- `set_digital_out_pwm_cycle` changes only the cycle, and only with the queue empty. -/
theorem DigitalInv.setDigitalOutPwmCycle (h : DigitalInv m) {cycleTicks : UInt32}
    (hc : cycleTicks.toNat < 2 ^ 30) {d : DigitalOut}
    (hs : commandSetDigitalOutPwmCycle cycleTicks m.out = .ok d) :
    DigitalInv { m with out := d } := by
  unfold commandSetDigitalOutPwmCycle at hs
  split_ifs at hs
  cases hs
  exact ⟨h.pin, h.maxDuration, hc, h.applied, h.queue, h.window, h.scheduled,
    fun hp => (h.timer hp).congr rfl rfl rfl rfl rfl rfl rfl rfl, h.head, h.deadline⟩

/-- Every time the invariant reads is less than `2^30` ticks before the queued timer: `end_time`
    is not before it, and every queued update lies less than `2^30` before the first. -/
theorem DigitalInv.waketime_lt (h : DigitalInv m) (hp : m.pending) :
    realOf m.now m.out.waketime ≤ realOf m.now m.out.endTime ∧
      ∀ mv ∈ m.out.mq, realOf m.now m.out.waketime < realOf m.now mv.waketime + 2 ^ 30 := by
  have hT := h.timer hp
  have hwE := hT.beforeEnd
  refine ⟨hwE, fun mv hmv => ?_⟩
  obtain ⟨mv0, rest, hq⟩ := List.exists_cons_of_ne_nil (List.ne_nil_of_mem hmv)
  have hE := h.head mv0 rest hq
  have hw := h.window
  rw [hq, List.map_cons, List.pairwise_cons] at hw
  rw [hq, List.mem_cons] at hmv
  rcases hmv with rfl | hmv
  · omega
  · have := hw.1 _ (List.mem_map_of_mem hmv)
    omega

/-- **Time passing keeps the invariant**: it cannot pass the queued timer, so every time the
    invariant reads stays in the window and keeps its meaning. -/
theorem DigitalInv.wait (h : DigitalInv m) (k : Nat)
    (hk : ¬(m.out.scheduled = true ∧ realOf m.now m.out.waketime < m.now + k)) :
    DigitalInv { m with now := m.now + k } := by
  by_cases hs : m.out.scheduled = true
  · have hp := h.scheduled hs
    have hT := h.timer hp
    have hwk : (m.now : Int) + k ≤ realOf m.now m.out.waketime := by
      have := not_and.mp hk hs
      omega
    obtain ⟨hwE, hwq⟩ := h.waketime_lt hp
    -- a time less than `2^30` before the timer keeps its meaning
    have hadv : ∀ x, realOf m.now m.out.waketime < realOf m.now x + 2 ^ 30 →
        realOf (m.now + k) x = realOf m.now x := fun x hx =>
      realOf_advance k (by omega)
    have hw := hadv m.out.waketime (by omega)
    have hE := hadv m.out.endTime (by omega)
    have hmap : (m.out.mq.map fun mv => realOf (m.now + k) mv.waketime) =
        m.out.mq.map fun mv => realOf m.now mv.waketime :=
      List.map_congr_left fun mv hmv => hadv _ (hwq mv hmv)
    have happ := h.applied
    refine ⟨h.pin, h.maxDuration, h.cycle, by dsimp only; omega, fun mv hmv => ?_, ?_,
      fun _ => hp, fun _ => ⟨hT.scheduled, hT.checkEnd, ?_, ?_, hT.load, fun ht => ?_⟩,
      fun mv rest hq => ?_, fun ha => ?_⟩ <;> dsimp only
    · rw [hadv _ (hwq mv hmv)]
      have := h.queue mv hmv
      have := hwq mv hmv
      omega
    · rw [hmap]
      exact h.window
    · rw [hw]
      omega
    · rw [hw, hE]
      exact hT.beforeEnd
    · rw [hw, hE]
      exact hT.toggle ht
    · have hq' : m.out.mq = mv :: rest := hq
      rw [hE, hadv _ (hwq mv (by simp [hq']))]
      exact h.head mv rest hq'
    · rw [hE]
      exact h.deadline ha
  · -- no timer: nothing is queued and the setting is not bounded
    have hnp : ¬m.pending := fun hp => hs (h.timer hp).scheduled
    have hmq : m.out.mq = [] := by
      by_contra hne
      exact hnp (.inl hne)
    have hna : ¬m.active := fun ha => hnp (.inr ha)
    have happ := h.applied
    refine ⟨h.pin, h.maxDuration, h.cycle, by dsimp only; omega, fun mv hmv => ?_, ?_,
      fun hs' => absurd hs' hs, fun hp => absurd hp hnp, fun _ _ hq => (nomatch hmq.symm.trans hq),
      fun ha => absurd ha hna⟩
    · dsimp only at hmv
      simp [hmq] at hmv
    · dsimp only
      simp [hmq]

end Commands

/-! ## Runs -/

section Runs

variable {timerFromUs : UInt32 → UInt32}

/-- Every toggle reschedules. -/
theorem digitalToggleEvent_fst (d : DigitalOut) : (digitalToggleEvent d).1 = .reschedule := by
  dsimp only [digitalToggleEvent]
  split_ifs <;> rfl

/-- A shutdown leaves the pin at its default level and nothing toggling. -/
theorem DigitalMachine.halt_ok (m : DigitalMachine) : m.halt.isShutdown = true ∧
    m.halt.pin = m.halt.out.flags.defaultOn ∧ m.halt.out.flags.toggling = false :=
  ⟨rfl, rfl, rfl⟩

/-- **The timer event keeps the invariant**: a load or a toggle, as `func` says. -/
theorem DigitalInv.event {m : DigitalMachine} (h : DigitalInv m) (hsch : m.out.scheduled = true)
    (hdue : realOf m.now m.out.waketime ≤ m.now) {r : SchedResult × DigitalOut × List PinOp}
    (hr : digitalEvent m.out = .ok r) :
    DigitalInv { m with out := { r.2.1 with scheduled := r.1 == .reschedule },
                        pin := applyOps m.pin r.2.2,
                        applied := if m.out.func = .load then m.now else m.applied } := by
  cases hf : m.out.func with
  | load =>
    rw [digitalEvent, hf] at hr
    rw [if_pos rfl]
    exact h.load hsch hdue hf hr
  | toggle =>
    rw [digitalEvent, hf] at hr
    cases hr
    rw [if_neg (fun h => nomatch h), digitalToggleEvent_fst]
    exact h.toggle hsch hdue hf

/-- **One action keeps the invariant**, for every action the host's promises allow. -/
theorem DigitalMachine.Ok.step {m m' : DigitalMachine} {a : DigitalAct} (hm : m.Ok)
    (hok : m.HostOk (2 ^ 30) a) (hs : m.step timerFromUs a = some m') : m'.Ok := by
  unfold DigitalMachine.step at hs
  split at hs
  · cases hs
  rename_i hsd
  have hlive : m.isShutdown = false := by simpa using hsd
  have h : DigitalInv m := by
    rcases hm with hm | hm
    · exact absurd hm.1 hsd
    · exact hm.2
  cases a with
  | wait k =>
    simp only [DigitalMachine.stepLive] at hs
    split at hs
    · cases hs
    · rename_i hk
      cases hs
      exact .inr ⟨hlive, h.wait k (by simpa using hk)⟩
  | event =>
    simp only [DigitalMachine.stepLive] at hs
    split at hs
    · rename_i hdue
      obtain ⟨hsch, hdue⟩ : m.out.scheduled = true ∧ realOf m.now m.out.waketime ≤ m.now := by
        simpa using hdue
      split at hs
      · rename_i r hr
        cases hs
        exact .inr ⟨hlive, h.event hsch hdue hr⟩
      · cases hs
        exact .inl m.halt_ok
    · cases hs
  | queue moveAvailable head time onTicks =>
    simp only [DigitalMachine.stepLive] at hs
    split at hs
    · rename_i d hq
      cases hs
      exact .inr ⟨hlive, h.queueDigitalOut hok hq⟩
    · cases hs
      exact .inl m.halt_ok
  | update head value =>
    simp only [DigitalMachine.stepLive] at hs
    split at hs
    · rename_i r hu
      cases hs
      exact .inr ⟨hlive, h.updateDigitalOut hu⟩
    · cases hs
      exact .inl m.halt_ok
  | setCycle cycleTicks =>
    simp only [DigitalMachine.stepLive] at hs
    split at hs
    · rename_i d hc
      cases hs
      exact .inr ⟨hlive, h.setDigitalOutPwmCycle hok hc⟩
    · cases hs
      exact .inl m.halt_ok

/-- `config_digital_out` as the host sends it: a start value at the default, and
    `max_duration` set and below `2^31`. -/
def DigitalMachine.Init (m : DigitalMachine) : Prop :=
  ∃ now value defaultValue maxDuration, ConfigOk value defaultValue maxDuration ∧
    m = configDigitalMachine now value defaultValue maxDuration

/-- The configured object: idle at its default level. -/
theorem DigitalInv.config {now : Nat} {value defaultValue maxDuration : UInt32}
    (hc : ConfigOk value defaultValue maxDuration) :
    DigitalInv (configDigitalMachine now value defaultValue maxDuration) := by
  have hna : ¬(configDigitalMachine now value defaultValue maxDuration).active := by
    rintro (ht | hp)
    · cases ht
    · exact hp hc.1
  refine ⟨rfl, hc.2, (by show (0 : UInt32).toNat < 2 ^ 30; decide), Nat.le_refl _,
    fun _ hmv => (nomatch hmv), List.Pairwise.nil, fun hs => (nomatch hs), fun hp => ?_,
    fun _ _ hq => (nomatch hq), fun ha => absurd ha hna⟩
  rcases hp with hp | hp
  · exact absurd rfl hp
  · exact absurd hp hna

/-- **The run lemma.**  Every state of every run the host's promises allow is shut down at the
    default level, or live with the invariant. -/
theorem DigitalMachine.ok_of_reachable {m : DigitalMachine}
    (h : Transition.Reachable DigitalMachine.Init
      (Transition.ofStepIf (DigitalMachine.HostOk (2 ^ 30)) (DigitalMachine.step timerFromUs)) m) :
    m.Ok := by
  refine Transition.Reachable.inv (fun m hi => ?_) (fun m m' hm hn => ?_) h
  · obtain ⟨now, value, defaultValue, maxDuration, hc, rfl⟩ := hi
    exact .inr ⟨rfl, DigitalInv.config hc⟩
  · obtain ⟨a, hok, hs⟩ := hn
    exact hm.step hok hs

end Runs

/-! ## The deadline -/

section Deadline

variable {timerFromUs : UInt32 → UInt32}

/-- The load pops the first queued update and writes its level, unless it shuts down. -/
theorem digitalLoadEvent_applies {d : DigitalOut} {r : SchedResult × DigitalOut × List PinOp}
    (hr : digitalLoadEvent d = .ok r) :
    ∃ mv, d.mq = mv :: r.2.1.mq ∧ r.2.2 = [.write () (mv.onDuration != 0)] := by
  cases hq : d.mq with
  | nil => simp [digitalLoadEvent, hq] at hr
  | cons mv rest =>
    simp only [digitalLoadEvent, hq] at hr
    split at hr
    · cases hr
    · rename_i fe hne
      cases hr
      refine ⟨mv, by rw [(loadSchedule_spec _ _).1], ?_⟩
      have hon : (loadSetting d mv.onDuration).1.on = (mv.onDuration != 0) := by
        dsimp only [loadSetting]
        split_ifs <;> rfl
      rw [hon]

/-- **`max_duration` in a state.**  While the setting is bounded, the object is live and its
    timer queued no later than the deadline; the event at the deadline is a load, and a load
    applies the next update or shuts down; with no update queued, `DF_CHECK_END` is set with
    `end_time` at or before the deadline, and an update for a later time (less than `2^30` ticks
    ahead) shuts down. -/
structure DigitalMachine.Safe (timerFromUs : UInt32 → UInt32) (m : DigitalMachine) : Prop where
  timer : m.active → m.isShutdown = false ∧ m.out.scheduled = true ∧
    realOf m.now m.out.waketime ≤ m.deadline
  load : m.active → realOf m.now m.out.waketime = m.deadline → m.out.func = .load
  fires : m.out.func = .load → ∀ m', m.step timerFromUs .event = some m' →
    m'.isShutdown = true ∨
      ∃ mv, m.out.mq = mv :: m'.out.mq ∧ m'.pin = (mv.onDuration != 0) ∧ m'.applied = m.now
  checkEnd : m.active → m.out.mq = [] →
    m.out.flags.checkEnd = true ∧ realOf m.now m.out.endTime ≤ m.deadline
  rejects : m.active → m.out.mq = [] → ∀ (moveAvailable : Bool) (head : UInt32) (time : Nat)
    (onTicks : UInt32) (m' : DigitalMachine), m.deadline < time → time < m.now + 2 ^ 30 →
    m.step timerFromUs (.queue moveAvailable head time onTicks) = some m' → m'.isShutdown = true

/-- In a bounded setting with nothing queued, an update for a time past the deadline is
    refused. -/
theorem DigitalInv.queue_past_deadline {m : DigitalMachine} (h : DigitalInv m) (ha : m.active)
    (hmq : m.out.mq = []) (moveAvailable : Bool) (head : UInt32) (time : Nat) (onTicks : UInt32)
    (hd : m.deadline < time) (ht : time < m.now + 2 ^ 30) :
    ∃ e, commandQueueDigitalOut timerFromUs moveAvailable head (clockAt m.now) (clockAt time)
      onTicks m.out = .error e := by
  have hT := h.timer (.inr ha)
  have hE := h.deadline ha
  have := hT.lag
  have := hT.beforeEnd
  unfold DigitalMachine.deadline at hd hE
  have hR : realOf m.now (clockAt time) = time := realOf_clockAt (by omega) (by omega)
  -- `end_time` is less than `2^30` ticks late, so the update is less than `2^31` after it
  have hb : timerIsBefore m.out.endTime (clockAt time) = true :=
    (timerIsBefore_iff_realOf (by rw [hR]; omega) (by rw [hR]; omega)).mpr (by rw [hR]; omega)
  unfold commandQueueDigitalOut
  by_cases hmv : (!moveAvailable) = true
  · exact ⟨"Move queue overflow", if_pos hmv⟩
  refine ⟨"Scheduled digital out event will exceed max_duration", ?_⟩
  rw [if_neg hmv]
  dsimp only
  rw [if_neg (not_not.mpr hmq), if_pos (by simp [hT.checkEnd, hb])]

/-- **A reachable state keeps `max_duration`.** -/
theorem DigitalMachine.Ok.safe {m : DigitalMachine} (hm : m.Ok) : m.Safe timerFromUs := by
  rcases hm with ⟨hsd, hpin, htg⟩ | ⟨hlive, h⟩
  · -- shut down: the pin is at its default level and no step is taken
    have hna : ¬m.active := by
      rintro (ht | hp)
      · rw [htg] at ht
        cases ht
      · exact hp hpin
    have hnone : ∀ a, m.step timerFromUs a = none := fun a => by simp [DigitalMachine.step, hsd]
    refine ⟨fun ha => absurd ha hna, fun ha => absurd ha hna, fun _ m' hs => ?_,
      fun ha => absurd ha hna, fun ha => absurd ha hna⟩
    rw [hnone] at hs
    cases hs
  · refine ⟨fun ha => ?_, fun ha hw => ?_, fun hf m' hs => ?_, fun ha hmq => ?_,
      fun ha hmq mv head time onTicks m' hd ht hs => ?_⟩
    · have hT := h.timer (.inr ha)
      exact ⟨hlive, hT.scheduled, Int.le_trans hT.beforeEnd (h.deadline ha)⟩
    · -- a toggle is strictly before `end_time`, so not at the deadline
      have hT := h.timer (.inr ha)
      cases hfn : m.out.func with
      | load => rfl
      | toggle =>
        have := (hT.toggle hfn).2.2.2
        have := h.deadline ha
        omega
    · unfold DigitalMachine.step at hs
      rw [if_neg (by simp [hlive])] at hs
      simp only [DigitalMachine.stepLive] at hs
      split at hs
      · split at hs
        · rename_i r hr
          cases hs
          rw [digitalEvent, hf] at hr
          obtain ⟨mv, hmv, hops⟩ := digitalLoadEvent_applies hr
          refine .inr ⟨mv, hmv, ?_, rfl⟩
          show applyOps m.pin r.2.2 = _
          rw [hops, applyOps_write]
        · cases hs
          exact .inl rfl
      · cases hs
    · exact ⟨(h.timer (.inr ha)).checkEnd, h.deadline ha⟩
    · obtain ⟨e, he⟩ := @DigitalInv.queue_past_deadline timerFromUs m h ha hmq mv head time
        onTicks hd ht
      unfold DigitalMachine.step at hs
      rw [if_neg (by simp [hlive])] at hs
      simp only [DigitalMachine.stepLive, he] at hs
      cases hs
      rfl

end Deadline

/-! ## Without the host's promise of timely updates -/

/-- **The deadline is missed when an update comes late.**  A `queue_digital_out` processed at
    real time 109 for the already passed time 50 ends a setting whose deadline is 110:
    `sched_add_timer` finds the time passed and moves the load to two microseconds after 109
    (at 16 ticks per microsecond), while the pin stays on.  Everything else the host promises
    holds on this run. -/
theorem digitalDeadline_missed : ∃ m, Transition.Reachable DigitalMachine.Init
    (Transition.ofStep (DigitalMachine.step fun us => us * 16)) m ∧ m.active ∧
      m.deadline < realOf m.now m.out.waketime := by
  refine ⟨_, .step (.step (.step (.step (.step (.init ⟨0, 0, 0, 100, ⟨rfl, by decide, by decide⟩, rfl⟩)
    ⟨.queue true 0 10 1, rfl⟩) ⟨.wait 10, rfl⟩) ⟨.event, rfl⟩) ⟨.wait 99, rfl⟩)
    ⟨.queue true 110 50 0, rfl⟩, ?_, ?_⟩
  · unfold DigitalMachine.active
    decide
  · decide

/-- **The deadline is missed when updates come out of order up to `2^31` ticks ahead.**  At real
    time 0 the host queues an update to the default level for 1000000 and one to the other level
    for 5; at 1000000 it queues one for `2^31 - 1` ticks later.  The load at 1000000 leaves the
    timer at 5, which runs at once: its setting is bounded from its waketime, to 105, and the third
    update, more than `2^31` ticks after that, looks earlier to `timer_is_before`, so the pin
    stays on until it. -/
theorem digitalDeadline_missed_wide : ∃ m, Transition.Reachable DigitalMachine.Init
    (Transition.ofStepIf (DigitalMachine.HostOk (2 ^ 31)) (DigitalMachine.step fun us => us * 16))
      m ∧ m.active ∧ m.deadline < realOf m.now m.out.waketime := by
  have hs : ((Transition.runIf (DigitalMachine.HostOk (2 ^ 31))
      (DigitalMachine.step fun us => us * 16) (configDigitalMachine 0 0 0 100)
      [.queue true 0 1000000 0, .queue true 0 5 1, .wait 1000000,
        .queue true 0 (1000000 + 2 ^ 31 - 1) 0, .event, .event]).map fun m =>
        decide m.active && decide (m.deadline < realOf m.now m.out.waketime)) = some true := by
    decide +kernel
  obtain ⟨m, hm, hp⟩ := Option.map_eq_some_iff.mp hs
  simp only [Bool.and_eq_true, decide_eq_true_eq] at hp
  exact ⟨m, Transition.Reachable.runIf (.init ⟨0, 0, 0, 100, ⟨rfl, by decide, by decide⟩, rfl⟩) _
    hm, hp⟩

end Klipper.GpioCmds
