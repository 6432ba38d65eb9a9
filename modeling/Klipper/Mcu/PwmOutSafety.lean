import Klipper.Mcu.PwmCmds
import Klipper.Mcu.DigitalOutSafety

/-
  The `max_duration` safety of `pwm_out`, and with `digital_out` the safety of both kinds of
  output.

  The system is built as for `digital_out` (`Klipper.Mcu.DigitalOutSafety`): `PwmMachine` is one
  object in real time with the value on its pin and the real time `applied` of the event that
  wrote it; the host queues each update on time and less than `window` ticks ahead, in any order.
  The invariant `PwmInv` says: queued updates lie less than `2^30` ticks from now and less than
  `2^30` before every later one; the timer is queued exactly while an update is queued or the
  value is not the default, and is less than `2^30` ticks late; a queued `pwm_event` fires for
  the first queued update; `pwm_end_event` is queued only with nothing queued and a value other
  than the default, no later than its deadline; and a value other than the default has its timer
  no later than its deadline.
-/

namespace Klipper.PwmCmds

open WrapClock

/-! ## The system -/

/-- The value on the pin after some writes. -/
def writeAll (pin : UInt16) (values : List UInt16) : UInt16 := values.foldl (fun _ v => v) pin

@[simp] theorem writeAll_single (pin value : UInt16) : writeAll pin [value] = value := rfl

/-- One `pwm_out` object in real time. -/
structure PwmMachine where
  out : PwmOut
  pin : UInt16
  now : Nat
  applied : Nat
  isShutdown : Bool

/-- What can happen to the object: time passes, its timer fires, or `queue_pwm_out` runs for
    real time `time`. -/
inductive PwmAct
  | wait (ticks : Nat)
  | event
  | queue (moveAvailable : Bool) (head : UInt32) (time : Nat) (value : UInt32)

/-- A shutdown: `pwm_shutdown` runs and the scheduler drops the timer. -/
def PwmMachine.halt (m : PwmMachine) : PwmMachine :=
  { m with out := { (pwmShutdown m.out).1 with scheduled := false },
           pin := writeAll m.pin (pwmShutdown m.out).2, isShutdown := true }

/-- One action on a machine that has not shut down. -/
def PwmMachine.stepLive (timerFromUs : UInt32 → UInt32) (m : PwmMachine) :
    PwmAct → Option PwmMachine
  | .wait ticks =>
    if m.out.scheduled && decide (realOf m.now m.out.waketime < m.now + ticks) then none
    else some { m with now := m.now + ticks }
  | .event =>
    if m.out.scheduled && decide (realOf m.now m.out.waketime ≤ m.now) then
      match pwmTimerEvent m.out with
      | some (.ok r) =>
        some { m with out := { r.2.1 with scheduled := r.1 == .reschedule },
                      pin := writeAll m.pin r.2.2, applied := m.now }
      | some (.error _) => some m.halt
      | none => none
    else none
  | .queue moveAvailable head time value =>
    match commandQueuePwmOut timerFromUs moveAvailable head (clockAt m.now) (clockAt time) value
        m.out with
    | .ok p => some { m with out := p }
    | .error _ => some m.halt

/-- One action; a shut-down machine takes none. -/
def PwmMachine.step (timerFromUs : UInt32 → UInt32) (m : PwmMachine) (a : PwmAct) :
    Option PwmMachine :=
  if m.isShutdown then none else m.stepLive timerFromUs a

/-- The object as `config_pwm_out` leaves it at real time `now`, with the start `value`. -/
def configPwmMachine (now : Nat) (value defaultValue maxDuration : UInt32) : PwmMachine :=
  { out := commandConfigPwmOut defaultValue maxDuration, pin := value.toUInt16, now := now,
    applied := now, isShutdown := false }

/-- The host's promise about the updates it queues: each is for a time at or after the MCU's
    current time and less than `window` ticks ahead. -/
def PwmMachine.HostOk (window : Nat) (m : PwmMachine) : PwmAct → Prop
  | .queue _ _ time _ => m.now ≤ time ∧ time < m.now + window
  | _ => True

instance PwmMachine.decHostOk (window : Nat) (m : PwmMachine) (a : PwmAct) :
    Decidable (m.HostOk window a) := by
  cases a <;> unfold PwmMachine.HostOk <;> infer_instance

/-- `config_pwm_out` as the host sends it: the start value is the default, and `max_duration` is
    set and below `2^31`. -/
def PwmMachine.Init (m : PwmMachine) : Prop :=
  ∃ now value defaultValue maxDuration, value.toUInt16 = defaultValue.toUInt16 ∧
    0 < maxDuration.toNat ∧ maxDuration.toNat < 2 ^ 31 ∧
    m = configPwmMachine now value defaultValue maxDuration

/-! ## The invariant -/

/-- A value other than the default is on the pin. -/
def PwmMachine.active (m : PwmMachine) : Prop := m.pin ≠ m.out.defaultValue

instance PwmMachine.decActive (m : PwmMachine) : Decidable m.active := by
  unfold PwmMachine.active
  infer_instance

/-- The deadline of the value on the pin. -/
def PwmMachine.deadline (m : PwmMachine) : Int := m.applied + m.out.maxDuration.toNat

/-- The invariant of a live `pwm_out` object. -/
structure PwmInv (m : PwmMachine) : Prop where
  maxDuration : 0 < m.out.maxDuration.toNat ∧ m.out.maxDuration.toNat < 2 ^ 31
  applied : m.applied ≤ m.now
  queue : ∀ mv ∈ m.out.mq, (m.now : Int) < realOf m.now mv.waketime + 2 ^ 30 ∧
    realOf m.now mv.waketime < m.now + 2 ^ 30
  window : (m.out.mq.map fun mv => realOf m.now mv.waketime).Pairwise fun a b => a < b + 2 ^ 30
  scheduled : m.out.scheduled = true → m.out.mq ≠ [] ∨ m.active
  queued : m.out.mq ≠ [] → m.out.scheduled = true
  lag : m.out.scheduled = true → (m.now : Int) < realOf m.now m.out.waketime + 2 ^ 30
  event : m.out.scheduled = true → m.out.func = .event →
    ∃ mv rest, m.out.mq = mv :: rest ∧ m.out.waketime = mv.waketime
  endEvent : m.out.func = .endEvent → m.out.scheduled = true ∧ m.out.mq = [] ∧ m.active ∧
    realOf m.now m.out.waketime ≤ m.deadline
  deadline : m.active → m.out.scheduled = true ∧ realOf m.now m.out.waketime ≤ m.deadline
  idle : m.active → m.out.mq = [] → m.out.func = .endEvent

/-- Every state of a run: shut down at the default value, or live with the invariant. -/
def PwmMachine.Ok (m : PwmMachine) : Prop :=
  (m.isShutdown = true ∧ m.pin = m.out.defaultValue) ∨ (m.isShutdown = false ∧ PwmInv m)

/-! ## The timer callbacks -/

section Events

variable {m : PwmMachine}

theorem PwmInv.maxDuration_ne_zero (h : PwmInv m) : m.out.maxDuration ≠ 0 := by
  intro h0
  have := h.maxDuration.1
  simp [h0] at this

/-- `pwm_event` pops the first queued update and writes its value. -/
theorem pwmEvent_pops {p : PwmOut} {mv : PwmMove} {rest : List PwmMove}
    {r : SchedResult × PwmOut × List UInt16} (hr : pwmEvent p mv rest = .ok r) :
    r.2.1.mq = rest ∧ r.2.2 = [mv.value] := by
  unfold pwmEvent at hr
  cases rest with
  | nil =>
    dsimp only at hr
    split_ifs at hr <;> cases hr <;> exact ⟨rfl, rfl⟩
  | cons n rest =>
    dsimp only at hr
    split_ifs at hr
    cases hr
    exact ⟨rfl, rfl⟩

/-- **`pwm_event` keeps the invariant.**  The first queued update is due, perhaps late, and its
    value is written; with nothing more queued a value other than the default arms
    `pwm_end_event` at the deadline from the event's waketime, and otherwise the next update must
    come within that deadline. -/
theorem PwmInv.fire (h : PwmInv m) (hsch : m.out.scheduled = true)
    (hdue : realOf m.now m.out.waketime ≤ m.now) (hf : m.out.func = .event) {mv : PwmMove}
    {rest : List PwmMove} (hq : m.out.mq = mv :: rest) {r : SchedResult × PwmOut × List UInt16}
    (hr : pwmEvent m.out mv rest = .ok r) :
    PwmInv { m with out := { r.2.1 with scheduled := r.1 == .reschedule },
                    pin := writeAll m.pin r.2.2, applied := m.now } := by
  have hlag := h.lag hsch
  have hM := h.maxDuration_ne_zero
  have hM' : (m.out.maxDuration == 0) = false := by simpa using hM
  obtain ⟨hM0, hM31⟩ := h.maxDuration
  have hE0 : realOf m.now (m.out.waketime + m.out.maxDuration) =
      realOf m.now m.out.waketime + m.out.maxDuration.toNat :=
    realOf_add _ (by omega)
  have hqueue : ∀ n ∈ rest, (m.now : Int) < realOf m.now n.waketime + 2 ^ 30 ∧
      realOf m.now n.waketime < m.now + 2 ^ 30 :=
    fun n hn => h.queue n (by simp [hq, hn])
  have hwin : (rest.map fun mv => realOf m.now mv.waketime).Pairwise fun a b => a < b + 2 ^ 30 := by
    have := h.window
    rw [hq, List.map_cons, List.pairwise_cons] at this
    exact this.2
  unfold pwmEvent at hr
  cases hrest : rest with
  | nil =>
    rw [hrest] at hr
    dsimp only at hr
    by_cases hdef : (mv.value == m.out.defaultValue || m.out.maxDuration == 0) = true
    · -- the default value: the timer is dropped
      rw [if_pos hdef] at hr
      cases hr
      have hv : mv.value = m.out.defaultValue := by simpa [hM'] using hdef
      refine ⟨⟨hM0, hM31⟩, Nat.le_refl _, fun _ hmv => (nomatch hmv), List.Pairwise.nil,
        fun hs => (nomatch hs), fun hne => absurd rfl hne, fun hs => (nomatch hs),
        fun hs => (nomatch hs), fun he => ?_, fun ha => (ha hv).elim, fun ha => (ha hv).elim⟩
      rw [show m.out.func = _ from he] at hf
      cases hf
    · -- another value: `pwm_end_event` at the deadline
      rw [if_neg hdef] at hr
      cases hr
      have hv : mv.value ≠ m.out.defaultValue := by
        intro he
        simp [he] at hdef
      have hs : (SchedResult.reschedule == .reschedule) = true := rfl
      have hend : realOf m.now (m.out.waketime + m.out.maxDuration) ≤
          (m.now : Int) + m.out.maxDuration.toNat := by
        rw [hE0]
        omega
      refine ⟨⟨hM0, hM31⟩, Nat.le_refl _, fun _ hmv => (nomatch hmv), List.Pairwise.nil,
        fun _ => .inr hv, fun hne => absurd rfl hne, fun _ => ?_, fun _ he => (nomatch he),
        fun _ => ⟨hs, rfl, hv, hend⟩, fun _ => ⟨hs, hend⟩, fun _ _ => rfl⟩
      show (m.now : Int) < realOf m.now (m.out.waketime + m.out.maxDuration) + 2 ^ 30
      rw [hE0]
      omega
  | cons n rest' =>
    rw [hrest] at hr hqueue hwin
    dsimp only at hr
    by_cases hchk : (mv.value != m.out.defaultValue && m.out.maxDuration != 0 &&
        timerIsBefore (m.out.waketime + m.out.maxDuration) n.waketime) = true
    · rw [if_pos hchk] at hr
      cases hr
    rw [if_neg hchk] at hr
    cases hr
    -- the next update, due within the deadline when the value is not the default
    have hn := hqueue n (by simp)
    have hs : (SchedResult.reschedule == .reschedule) = true := rfl
    refine ⟨⟨hM0, hM31⟩, Nat.le_refl _, hqueue, hwin, fun _ => .inl (by simp),
      fun _ => hs, fun _ => hn.1, fun _ _ => ⟨n, rest', rfl, rfl⟩, fun he => ?_,
      fun ha => ⟨hs, ?_⟩, fun _ hmq => (nomatch hmq)⟩
    · have he' : m.out.func = .endEvent := he
      rw [hf] at he'
      cases he'
    · -- the timer is less than `2^30` late, so the next update less than `2^31` after the deadline
      have hv : mv.value ≠ m.out.defaultValue := ha
      have hnb : timerIsBefore (m.out.waketime + m.out.maxDuration) n.waketime = false := by
        simpa [hv, hM] using hchk
      have := realOf_le_of_not_timerIsBefore hnb (by rw [hE0]; omega)
      show realOf m.now n.waketime ≤ (m.now : Int) + m.out.maxDuration.toNat
      omega

/-- The timer's callback runs to completion only as `pwm_event` on a queued update. -/
theorem pwmTimerEvent_ok {p : PwmOut} {r : SchedResult × PwmOut × List UInt16}
    (hr : pwmTimerEvent p = some (.ok r)) :
    p.func = .event ∧ ∃ mv rest, p.mq = mv :: rest ∧ pwmEvent p mv rest = .ok r := by
  cases hf : p.func with
  | endEvent => simp [pwmTimerEvent, hf, pwmEndEvent] at hr
  | event =>
    cases hq : p.mq with
    | nil => simp [pwmTimerEvent, hf, hq] at hr
    | cons mv rest =>
      simp only [pwmTimerEvent, hf, hq, Option.some.injEq] at hr
      exact ⟨rfl, mv, rest, rfl, hr⟩

/-- **The timer event keeps the invariant.** -/
theorem PwmInv.timerEvent (h : PwmInv m) (hsch : m.out.scheduled = true)
    (hdue : realOf m.now m.out.waketime ≤ m.now) {r : SchedResult × PwmOut × List UInt16}
    (hr : pwmTimerEvent m.out = some (.ok r)) :
    PwmInv { m with out := { r.2.1 with scheduled := r.1 == .reschedule },
                    pin := writeAll m.pin r.2.2, applied := m.now } := by
  obtain ⟨hf, mv, rest, hq, hev⟩ := pwmTimerEvent_ok hr
  exact h.fire hsch hdue hf hq hev

end Events

/-! ## Commands and time -/

section Commands

variable {m : PwmMachine}

/-- **Queueing an update keeps the invariant.**  Behind other updates it only joins the queue.
    As the first one it must come before a running `pwm_end_event`, or the firmware shuts down;
    on time, `sched_add_timer` leaves its `pwm_event` where it was asked. -/
theorem PwmInv.queuePwmOut (h : PwmInv m) {timerFromUs : UInt32 → UInt32} {moveAvailable : Bool}
    {head : UInt32} {time : Nat} {value : UInt32}
    (hok : m.now ≤ time ∧ time < m.now + 2 ^ 30) {p : PwmOut}
    (hq : commandQueuePwmOut timerFromUs moveAvailable head (clockAt m.now) (clockAt time) value
      m.out = .ok p) :
    PwmInv { m with out := p } := by
  obtain ⟨hok1, hok2⟩ := hok
  have hR : realOf m.now (clockAt time) = time := realOf_clockAt (by omega) (by omega)
  unfold commandQueuePwmOut at hq
  by_cases hmv : (!moveAvailable) = true
  · rw [if_pos hmv] at hq
    cases hq
  rw [if_neg hmv] at hq
  dsimp only at hq
  by_cases hne : m.out.mq ≠ []
  · -- behind other updates: the queue grows at its end
    rw [if_pos hne] at hq
    cases hq
    refine ⟨h.maxDuration, h.applied, ?_, ?_, fun _ => .inl (by simp), fun _ => h.queued hne,
      h.lag, fun hs hf => ?_, fun hf => absurd (h.endEvent hf).2.1 hne, h.deadline,
      fun _ hq => by simp at hq⟩
    · intro mv hmv'
      dsimp only
      rcases List.mem_append.mp hmv' with hmv' | hmv'
      · exact h.queue mv hmv'
      · rw [List.mem_singleton.mp hmv', hR]
        exact ⟨by omega, by omega⟩
    · -- every earlier update is less than `2^30` ahead of now, so of this one
      show ((m.out.mq ++ _).map _).Pairwise _
      rw [List.map_append, List.pairwise_append]
      refine ⟨h.window, by simp, fun a ha b hb => ?_⟩
      obtain ⟨mv, hmv', rfl⟩ := List.mem_map.mp ha
      simp only [List.map_cons, List.map_nil, List.mem_singleton] at hb
      rw [hb, hR]
      have := h.queue mv hmv'
      dsimp only
      omega
    · obtain ⟨mv, rest, hq, hw⟩ := h.event hs hf
      exact ⟨mv, rest ++ _, by rw [show m.out.mq = _ from hq]; rfl, hw⟩
  rw [if_neg hne] at hq
  have hmq : m.out.mq = [] := not_not.mp hne
  by_cases hchk : (decide (m.out.func = .endEvent) &&
      timerIsBefore m.out.waketime (clockAt time)) = true
  · rw [if_pos hchk] at hq
    cases hq
  rw [if_neg hchk] at hq
  cases hq
  -- a value other than the default has `pwm_end_event` at most at its deadline, which the update
  -- must not pass
  have hdl : m.active → (time : Int) ≤ m.deadline := by
    intro ha
    have hf := h.idle ha hmq
    obtain ⟨hs, -, -, hE⟩ := h.endEvent hf
    have := h.lag hs
    have hnb : timerIsBefore m.out.waketime (clockAt time) = false := by simpa [hf] using hchk
    have := realOf_le_of_not_timerIsBefore hnb (by rw [hR]; omega)
    omega
  have hW := @addTimerWaketime_clockAt timerFromUs head m.now time hok1 (by omega)
  refine ⟨h.maxDuration, h.applied, ?_, by simp, fun _ => .inl (by simp), fun _ => rfl, ?_,
    fun _ _ => ⟨_, [], rfl, hW⟩, fun hf => (nomatch hf), fun ha => ⟨rfl, ?_⟩,
    fun _ hq => by simp at hq⟩
  · intro mv hmv'
    rw [List.mem_singleton.mp hmv']
    dsimp only
    rw [hR]
    exact ⟨by omega, by omega⟩
  · intro _
    show (m.now : Int) < realOf m.now (addTimerWaketime timerFromUs head (clockAt m.now)
      (clockAt time)) + 2 ^ 30
    rw [hW, hR]
    omega
  · show realOf m.now (addTimerWaketime timerFromUs head (clockAt m.now) (clockAt time)) ≤
      m.deadline
    rw [hW, hR]
    exact hdl ha

/-- Every queued update lies less than `2^30` ticks before the queued timer. -/
theorem PwmInv.waketime_lt (h : PwmInv m) (hs : m.out.scheduled = true) :
    ∀ mv ∈ m.out.mq, realOf m.now m.out.waketime < realOf m.now mv.waketime + 2 ^ 30 := by
  intro mv hmv
  cases hf : m.out.func with
  | endEvent =>
    rw [(h.endEvent hf).2.1] at hmv
    cases hmv
  | event =>
    -- the timer is the first queued update's, and the others lie less than `2^30` before it
    obtain ⟨mv0, rest, hq, hw⟩ := h.event hs hf
    have hwin := h.window
    rw [hq, List.map_cons, List.pairwise_cons] at hwin
    rw [hq, List.mem_cons] at hmv
    rw [hw]
    rcases hmv with rfl | hmv
    · omega
    · exact hwin.1 _ (List.mem_map_of_mem hmv)

/-- **Time passing keeps the invariant**: it cannot pass the queued timer, so every time the
    invariant reads stays in the window and keeps its meaning. -/
theorem PwmInv.wait (h : PwmInv m) (k : Nat)
    (hk : ¬(m.out.scheduled = true ∧ realOf m.now m.out.waketime < m.now + k)) :
    PwmInv { m with now := m.now + k } := by
  have happ := h.applied
  by_cases hs : m.out.scheduled = true
  · have hwk : (m.now : Int) + k ≤ realOf m.now m.out.waketime := by
      have := not_and.mp hk hs
      omega
    have hwq := h.waketime_lt hs
    -- a time less than `2^30` before the timer keeps its meaning
    have hadv : ∀ x, realOf m.now m.out.waketime < realOf m.now x + 2 ^ 30 →
        realOf (m.now + k) x = realOf m.now x := fun x hx =>
      realOf_advance k (by omega)
    have hmap : (m.out.mq.map fun mv => realOf (m.now + k) mv.waketime) =
        m.out.mq.map fun mv => realOf m.now mv.waketime :=
      List.map_congr_left fun mv hmv => hadv _ (hwq mv hmv)
    have hw := hadv m.out.waketime (by omega)
    refine ⟨h.maxDuration, by dsimp only; omega, fun mv hmv => ?_, ?_, h.scheduled, h.queued,
      fun _ => ?_, h.event, fun hf => ?_, fun ha => ?_, h.idle⟩ <;> dsimp only
    · rw [hadv _ (hwq mv hmv)]
      have := h.queue mv hmv
      have := hwq mv hmv
      omega
    · rw [hmap]
      exact h.window
    · rw [hw]
      omega
    · rw [hw]
      exact h.endEvent hf
    · rw [hw]
      exact h.deadline ha
  · -- no timer: nothing is queued, the value is the default and no timeout runs
    have hmq : m.out.mq = [] := by
      by_contra hne
      exact hs (h.queued hne)
    have hna : ¬m.active := fun ha => hs (h.deadline ha).1
    refine ⟨h.maxDuration, by dsimp only; omega, fun mv hmv => ?_, ?_, fun hs' => absurd hs' hs,
      h.queued, fun hs' => absurd hs' hs, fun hs' => absurd hs' hs,
      fun hf => absurd (h.endEvent hf).1 hs, fun ha => absurd ha hna, h.idle⟩
    · dsimp only at hmv
      simp [hmq] at hmv
    · dsimp only
      simp [hmq]

end Commands

/-! ## Runs -/

section Runs

variable {timerFromUs : UInt32 → UInt32}

/-- A shutdown leaves the pin at its default value. -/
theorem PwmMachine.halt_ok (m : PwmMachine) :
    m.halt.isShutdown = true ∧ m.halt.pin = m.halt.out.defaultValue :=
  ⟨rfl, rfl⟩

/-- **One action keeps the invariant**, for every action the host's promises allow. -/
theorem PwmMachine.Ok.step {m m' : PwmMachine} {a : PwmAct} (hm : m.Ok) (hok : m.HostOk (2 ^ 30) a)
    (hs : m.step timerFromUs a = some m') : m'.Ok := by
  unfold PwmMachine.step at hs
  split at hs
  · cases hs
  rename_i hsd
  have hlive : m.isShutdown = false := by simpa using hsd
  have h : PwmInv m := by
    rcases hm with hm | hm
    · exact absurd hm.1 hsd
    · exact hm.2
  cases a with
  | wait k =>
    simp only [PwmMachine.stepLive] at hs
    split at hs
    · cases hs
    · rename_i hk
      cases hs
      exact .inr ⟨hlive, h.wait k (by simpa using hk)⟩
  | event =>
    simp only [PwmMachine.stepLive] at hs
    split at hs
    · rename_i hdue
      obtain ⟨hsch, hdue⟩ : m.out.scheduled = true ∧ realOf m.now m.out.waketime ≤ m.now := by
        simpa using hdue
      split at hs
      · rename_i r hr
        cases hs
        exact .inr ⟨hlive, h.timerEvent hsch hdue hr⟩
      · cases hs
        exact .inl m.halt_ok
      · cases hs
    · cases hs
  | queue moveAvailable head time value =>
    simp only [PwmMachine.stepLive] at hs
    split at hs
    · rename_i p hq
      cases hs
      exact .inr ⟨hlive, h.queuePwmOut hok hq⟩
    · cases hs
      exact .inl m.halt_ok

/-- The configured object: idle at its default value. -/
theorem PwmInv.config {now : Nat} {value defaultValue maxDuration : UInt32}
    (hv : value.toUInt16 = defaultValue.toUInt16) (hM0 : 0 < maxDuration.toNat)
    (hM31 : maxDuration.toNat < 2 ^ 31) :
    PwmInv (configPwmMachine now value defaultValue maxDuration) := by
  have hna : ¬(configPwmMachine now value defaultValue maxDuration).active := fun ha => ha hv
  exact ⟨⟨hM0, hM31⟩, Nat.le_refl _, fun _ hmv => (nomatch hmv), List.Pairwise.nil,
    fun hs => (nomatch hs), fun hne => absurd rfl hne, fun hs => (nomatch hs),
    fun hs => (nomatch hs), fun hf => (nomatch hf), fun ha => absurd ha hna,
    fun ha => absurd ha hna⟩

/-- **The run lemma.**  Every state of every run the host's promises allow is shut down at the
    default value, or live with the invariant. -/
theorem PwmMachine.ok_of_reachable {m : PwmMachine}
    (h : Transition.Reachable PwmMachine.Init
      (Transition.ofStepIf (PwmMachine.HostOk (2 ^ 30)) (PwmMachine.step timerFromUs)) m) :
    m.Ok := by
  refine Transition.Reachable.inv (fun m hi => ?_) (fun m m' hm hn => ?_) h
  · obtain ⟨now, value, defaultValue, maxDuration, hv, hM0, hM31, rfl⟩ := hi
    exact .inr ⟨rfl, PwmInv.config hv hM0 hM31⟩
  · obtain ⟨a, hok, hs⟩ := hn
    exact hm.step hok hs

end Runs

/-! ## The deadline -/

section Deadline

variable {timerFromUs : UInt32 → UInt32}

/-- **`max_duration` in a state.**  While a value other than the default is on the pin, the
    object is live and its timer queued no later than the deadline; every event applies the next
    update or shuts down; with no update queued, the timer is `pwm_end_event` at or before the
    deadline, and an update for a later time (less than `2^30` ticks ahead) shuts down. -/
structure PwmMachine.Safe (timerFromUs : UInt32 → UInt32) (m : PwmMachine) : Prop where
  timer : m.active → m.isShutdown = false ∧ m.out.scheduled = true ∧
    realOf m.now m.out.waketime ≤ m.deadline
  fires : ∀ m', m.step timerFromUs .event = some m' →
    m'.isShutdown = true ∨ ∃ mv, m.out.mq = mv :: m'.out.mq ∧ m'.pin = mv.value ∧ m'.applied = m.now
  endEvent : m.active → m.out.mq = [] →
    m.out.func = .endEvent ∧ realOf m.now m.out.waketime ≤ m.deadline
  rejects : m.active → m.out.mq = [] → ∀ (moveAvailable : Bool) (head : UInt32) (time : Nat)
    (value : UInt32) (m' : PwmMachine), m.deadline < time → time < m.now + 2 ^ 30 →
    m.step timerFromUs (.queue moveAvailable head time value) = some m' → m'.isShutdown = true

/-- With a value other than the default and nothing queued, an update for a time past the
    deadline is refused. -/
theorem PwmInv.queue_past_deadline {m : PwmMachine} (h : PwmInv m) (ha : m.active)
    (hmq : m.out.mq = []) (moveAvailable : Bool) (head : UInt32) (time : Nat) (value : UInt32)
    (hd : m.deadline < time) (ht : time < m.now + 2 ^ 30) :
    ∃ e, commandQueuePwmOut timerFromUs moveAvailable head (clockAt m.now) (clockAt time) value
      m.out = .error e := by
  have hf := h.idle ha hmq
  obtain ⟨hs, -, -, hE⟩ := h.endEvent hf
  have hn := h.lag hs
  have happ := h.applied
  unfold PwmMachine.deadline at hd hE
  have hR : realOf m.now (clockAt time) = time := realOf_clockAt (by omega) (by omega)
  -- `pwm_end_event` is less than `2^30` ticks late, so the update less than `2^31` after it
  have hb : timerIsBefore m.out.waketime (clockAt time) = true :=
    (timerIsBefore_iff_realOf (by rw [hR]; omega) (by rw [hR]; omega)).mpr (by rw [hR]; omega)
  unfold commandQueuePwmOut
  by_cases hmv : (!moveAvailable) = true
  · exact ⟨"Move queue overflow", if_pos hmv⟩
  refine ⟨"Scheduled pwm event will exceed max_duration", ?_⟩
  rw [if_neg hmv]
  dsimp only
  rw [if_neg (not_not.mpr hmq), if_pos (by simp [hf, hb])]

/-- **A reachable state keeps `max_duration`.** -/
theorem PwmMachine.Ok.safe {m : PwmMachine} (hm : m.Ok) : m.Safe timerFromUs := by
  rcases hm with ⟨hsd, hpin⟩ | ⟨hlive, h⟩
  · -- shut down: the pin is at its default value and no step is taken
    have hna : ¬m.active := fun ha => ha hpin
    have hnone : ∀ a, m.step timerFromUs a = none := fun a => by simp [PwmMachine.step, hsd]
    refine ⟨fun ha => absurd ha hna, fun m' hs => ?_, fun ha => absurd ha hna,
      fun ha => absurd ha hna⟩
    rw [hnone] at hs
    cases hs
  · refine ⟨fun ha => ?_, fun m' hs => ?_, fun ha hmq => ?_,
      fun ha hmq mv head time value m' hd ht hs => ?_⟩
    · obtain ⟨hs, hw⟩ := h.deadline ha
      exact ⟨hlive, hs, hw⟩
    · unfold PwmMachine.step at hs
      rw [if_neg (by simp [hlive])] at hs
      simp only [PwmMachine.stepLive] at hs
      split at hs
      · split at hs
        · rename_i r hr
          cases hs
          obtain ⟨-, mv, rest, hq, hev⟩ := pwmTimerEvent_ok hr
          obtain ⟨hmq, hops⟩ := pwmEvent_pops hev
          refine .inr ⟨mv, ?_, ?_, rfl⟩
          · show m.out.mq = mv :: r.2.1.mq
            rw [hq, hmq]
          · show writeAll m.pin r.2.2 = mv.value
            rw [hops, writeAll_single]
        · cases hs
          exact .inl rfl
        · cases hs
      · cases hs
    · have hf := h.idle ha hmq
      exact ⟨hf, (h.endEvent hf).2.2.2⟩
    · obtain ⟨e, he⟩ := @PwmInv.queue_past_deadline timerFromUs m h ha hmq mv head time value
        hd ht
      unfold PwmMachine.step at hs
      rw [if_neg (by simp [hlive])] at hs
      simp only [PwmMachine.stepLive, he] at hs
      cases hs
      rfl

end Deadline

/-! ## Without the host's promise of timely updates -/

/-- **The deadline is missed when an update comes late.**  A `queue_pwm_out` processed at real
    time 109 for the already passed time 50, while `pwm_end_event` waits for the deadline 110:
    `sched_add_timer` finds the time passed and moves the new `pwm_event` to two
    microseconds after 109, while the value stays on the pin. -/
theorem pwmDeadline_missed : ∃ m, Transition.Reachable PwmMachine.Init
    (Transition.ofStep (PwmMachine.step fun us => us * 16)) m ∧ m.active ∧
      m.deadline < realOf m.now m.out.waketime := by
  refine ⟨_, .step (.step (.step (.step (.step (.init ⟨0, 0, 0, 100, rfl, by decide, by decide, rfl⟩)
    ⟨.queue true 0 10 1, rfl⟩) ⟨.wait 10, rfl⟩) ⟨.event, rfl⟩) ⟨.wait 99, rfl⟩)
    ⟨.queue true 110 50 0, rfl⟩, ?_, ?_⟩
  · unfold PwmMachine.active
    decide
  · decide

/-- **The deadline is missed when updates come out of order up to `2^31` ticks ahead**, as for
    `digital_out` (`GpioCmds.digitalDeadline_missed_wide`): the late `pwm_event` at 5 arms the
    check of the next update from its waketime, and an update more than `2^31` ticks after that
    looks earlier to `timer_is_before`. -/
theorem pwmDeadline_missed_wide : ∃ m, Transition.Reachable PwmMachine.Init
    (Transition.ofStepIf (PwmMachine.HostOk (2 ^ 31)) (PwmMachine.step fun us => us * 16))
      m ∧ m.active ∧ m.deadline < realOf m.now m.out.waketime := by
  have hs : ((Transition.runIf (PwmMachine.HostOk (2 ^ 31))
      (PwmMachine.step fun us => us * 16) (configPwmMachine 0 0 0 100)
      [.queue true 0 1000000 0, .queue true 0 5 1, .wait 1000000,
        .queue true 0 (1000000 + 2 ^ 31 - 1) 0, .event, .event]).map fun m =>
        decide m.active && decide (m.deadline < realOf m.now m.out.waketime)) = some true := by
    decide +kernel
  obtain ⟨m, hm, hp⟩ := Option.map_eq_some_iff.mp hs
  simp only [Bool.and_eq_true, decide_eq_true_eq] at hp
  exact ⟨m, Transition.Reachable.runIf (.init ⟨0, 0, 0, 100, rfl, by decide, by decide, rfl⟩) _
    hm, hp⟩

end Klipper.PwmCmds

namespace Klipper

open GpioCmds PwmCmds WrapClock

/-- **`max_duration` safety of both kinds of output.**  On every run of a `digital_out` or a
    `pwm_out` object configured as the host configures it, with every update queued on time and
    less than `2^30` ticks ahead, in any order, a value away from the default has its timer
    queued no later than `max_duration` after the event that applied it, that timer applies a
    queued update or shuts down, and an update for a time past the deadline shuts down. -/
theorem outputMaxDuration_safe {timerFromUs : UInt32 → UInt32} {md : DigitalMachine}
    {mp : PwmMachine}
    (hd : Transition.Reachable DigitalMachine.Init
      (Transition.ofStepIf (DigitalMachine.HostOk (2 ^ 30)) (DigitalMachine.step timerFromUs)) md)
    (hp : Transition.Reachable PwmMachine.Init
      (Transition.ofStepIf (PwmMachine.HostOk (2 ^ 30)) (PwmMachine.step timerFromUs)) mp) :
    md.Safe timerFromUs ∧ mp.Safe timerFromUs :=
  ⟨(DigitalMachine.ok_of_reachable hd).safe, (PwmMachine.ok_of_reachable hp).safe⟩

/-- Both kinds of output on a run that turns the output on at 10, queues an update off for 60
    and then, out of order, one on for 40; the timer loads the second late, at 60, and the output
    stays on with its timer at 140, before the deadline 160. -/
theorem outputMaxDuration_safe_outOfOrder :
    let md := (Transition.runIf (DigitalMachine.HostOk (2 ^ 30))
      (DigitalMachine.step fun us => us * 16) (configDigitalMachine 0 0 0 100)
      [.queue true 0 10 1, .wait 10, .event, .queue true 0 60 0, .queue true 0 40 1, .wait 50,
        .event, .event]).getD (configDigitalMachine 0 0 0 100)
    let mp := (Transition.runIf (PwmMachine.HostOk (2 ^ 30))
      (PwmMachine.step fun us => us * 16) (configPwmMachine 0 0 0 100)
      [.queue true 0 10 1, .wait 10, .event, .queue true 0 60 0, .queue true 0 40 1, .wait 50,
        .event, .event]).getD (configPwmMachine 0 0 0 100)
    md.active ∧ mp.active ∧ realOf md.now md.out.waketime = 140 ∧ md.deadline = 160 ∧
      realOf mp.now mp.out.waketime = 140 ∧ mp.deadline = 160 ∧
      md.Safe (fun us => us * 16) ∧ mp.Safe (fun us => us * 16) := by
  intro md mp
  have hd : (Transition.runIf (DigitalMachine.HostOk (2 ^ 30))
      (DigitalMachine.step fun us => us * 16) (configDigitalMachine 0 0 0 100)
      [.queue true 0 10 1, .wait 10, .event, .queue true 0 60 0, .queue true 0 40 1, .wait 50,
        .event, .event]).isSome = true := by decide +kernel
  have hp : (Transition.runIf (PwmMachine.HostOk (2 ^ 30))
      (PwmMachine.step fun us => us * 16) (configPwmMachine 0 0 0 100)
      [.queue true 0 10 1, .wait 10, .event, .queue true 0 60 0, .queue true 0 40 1, .wait 50,
        .event, .event]).isSome = true := by decide +kernel
  obtain ⟨xd, hxd⟩ := Option.isSome_iff_exists.mp hd
  obtain ⟨xp, hxp⟩ := Option.isSome_iff_exists.mp hp
  have hmd : md = xd := by simp only [md, hxd, Option.getD_some]
  have hmp : mp = xp := by simp only [mp, hxp, Option.getD_some]
  rw [← hmd] at hxd
  rw [← hmp] at hxp
  have hsafe := outputMaxDuration_safe
    (Transition.Reachable.runIf (.init ⟨0, 0, 0, 100, ⟨rfl, by decide, by decide⟩, rfl⟩) _ hxd)
    (Transition.Reachable.runIf (.init ⟨0, 0, 0, 100, rfl, by decide, by decide, rfl⟩) _ hxp)
  refine ⟨?_, ?_, ?_, ?_, ?_, ?_, hsafe.1, hsafe.2⟩ <;> decide +kernel

/-- Without the promise of timely updates both kinds of output reach a state that breaks
    `max_duration`. -/
theorem outputMaxDuration_unsafe_late :
    (∃ m, Transition.Reachable DigitalMachine.Init
      (Transition.ofStep (DigitalMachine.step fun us => us * 16)) m ∧
        ¬m.Safe fun us => us * 16) ∧
    (∃ m, Transition.Reachable PwmMachine.Init
      (Transition.ofStep (PwmMachine.step fun us => us * 16)) m ∧
        ¬m.Safe fun us => us * 16) := by
  obtain ⟨md, hd, had, hltd⟩ := digitalDeadline_missed
  obtain ⟨mp, hp, hap, hltp⟩ := pwmDeadline_missed
  refine ⟨⟨md, hd, fun hs => ?_⟩, ⟨mp, hp, fun hs => ?_⟩⟩
  · have := (hs.timer had).2.2
    omega
  · have := (hs.timer hap).2.2
    omega

/-- With updates out of order up to `2^31` ticks ahead both kinds of output reach a state that
    breaks `max_duration`. -/
theorem outputMaxDuration_unsafe_wide :
    (∃ m, Transition.Reachable DigitalMachine.Init
      (Transition.ofStepIf (DigitalMachine.HostOk (2 ^ 31)) (DigitalMachine.step fun us => us * 16))
        m ∧ ¬m.Safe fun us => us * 16) ∧
    (∃ m, Transition.Reachable PwmMachine.Init
      (Transition.ofStepIf (PwmMachine.HostOk (2 ^ 31)) (PwmMachine.step fun us => us * 16))
        m ∧ ¬m.Safe fun us => us * 16) := by
  obtain ⟨md, hd, had, hltd⟩ := digitalDeadline_missed_wide
  obtain ⟨mp, hp, hap, hltp⟩ := pwmDeadline_missed_wide
  refine ⟨⟨md, hd, fun hs => ?_⟩, ⟨mp, hp, fun hs => ?_⟩⟩
  · have := (hs.timer had).2.2
    omega
  · have := (hs.timer hap).2.2
    omega

end Klipper
