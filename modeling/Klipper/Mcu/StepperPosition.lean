import Klipper.Mcu.Stepper
import Klipper.Lib.Transition
import Klipper.Lib.IntBits

/-
  Position bookkeeping of the MCU stepper driver: `stepper_get_position` returns
  `POSITION_BIAS` plus the net number of steps the driver has taken, in every reachable state.

  1. **System** — `Machine` is one configured stepper together with its two pins and the
     driver chip they feed.  `Pins.steps` is what the driver has done: each step edge moves it by
     `+1` with the direction pin high and `-1` with it low.  A driver configured with
     `invert_step = -1` steps on both edges; otherwise it steps on each edge that leaves the
     idle level.  `Machine.step` fires one command, one timer event (only while the timer is
     queued), or `stepper_stop` from a trigger; a `shutdown` runs `stepper_shutdown` and
     freezes the machine.

  2. **Encoding** — the code never stores the position itself.  `position` holds every step of
     the current move in advance, so `position - remaining` is the position now, and it is kept
     negated while the direction pin is low (`encode`).  A direction change negates it; a step
     adds one to it in either direction (`encode_add_dirSign`); `stepper_get_position` undoes the
     negation by the top bit, which is right exactly while the position stays within
     `(-2^30, 2^30)` (`stepperGetPosition_of_encoded`).

  3. **Invariant** — `Inv` adds what the step callbacks rely on: the timer is queued exactly
     while `count ≠ 0`, an idle stepper has an empty queue, a two-event pulse has the pin away
     from idle exactly while `count` is odd, the AVR callback leaves the pin idle, and the flag
     bits fixed at configuration match the driver.  `stepperLoadNext_loaded` is the one lemma about
     loading a move, and `eventOk_load` reads it back on the pins; each callback lemma reduces
     to it after its step edge.

  4. **Result** — `Machine.step_inv` by cases on the action, then the invariant rule of
     `Klipper.Lib.Transition` over the runs that stay in range (`inv_of_reachable`), and the
     decoding lemma at the end (`stepperGetPosition_sub_positionBias`).
-/

namespace Klipper.Stepper

/-! ## The driver, the pins and the machine -/

/-- The stepper driver chip: whether it steps on both edges, and the idle level of its step
    input. -/
structure Driver where
  bothEdge : Bool
  idle : Bool
deriving DecidableEq, Repr

/-- The levels of the two pins, and the net steps the driver has taken. -/
structure Pins where
  step : Bool
  dir : Bool
  steps : Int
deriving DecidableEq, Repr

/-- One step in the direction the pin selects. -/
def dirSign (dir : Bool) : Int := if dir then 1 else -1

/-- An edge of the step pin leaving `level` is a step. -/
def Driver.isStep (d : Driver) (level : Bool) : Bool := d.bothEdge || level == d.idle

/-- The pins after one pin operation. -/
def Pins.apply (d : Driver) (p : Pins) : GpioOp Pin → Pins
  | .toggle .step =>
    { p with step := !p.step, steps := if d.isStep p.step then p.steps + dirSign p.dir else p.steps }
  | .toggle .dir => { p with dir := !p.dir }
  | .write .step level =>
    if level = p.step then p
    else { p with step := level,
                  steps := if d.isStep p.step then p.steps + dirSign p.dir else p.steps }
  | .write .dir level => { p with dir := level }

/-- The pins after a sequence of pin operations. -/
def Pins.applyAll (d : Driver) (p : Pins) (ops : List (GpioOp Pin)) : Pins :=
  ops.foldl (Pins.apply d) p

/-- One stepper, its pins and its driver; `isShutdown` once the MCU has shut down. -/
structure Machine where
  driver : Driver
  stepper : Stepper
  pins : Pins
  isShutdown : Bool

/-- The stepper right after `config_stepper`: the pins at the levels `gpio_out_setup` gives them,
    and a driver that steps on both edges exactly when `invert_step` is negative. -/
def configMachine (b : Build) (edgeStepTicks invertStep stepPulseTicks : UInt32) : Machine :=
  let s := commandConfigStepper b edgeStepTicks invertStep stepPulseTicks
  { driver := { bothEdge := decide (invertStep.toUInt8.toInt8 < 0), idle := s.flags.invertStep },
    stepper := s,
    pins := { step := s.flags.invertStep, dir := false, steps := 0 },
    isShutdown := false }

/-- What can happen to a stepper: its three commands (with the environment's answers to
    `move_alloc` and `sched_add_timer`), its timer event at time `curtime`, and a trigger
    calling `stepper_stop`. -/
inductive Act
  | queueStep (moveAvailable : Bool) (head now interval count add taskline : UInt32)
  | setNextStepDir (dir : UInt32)
  | resetStepClock (clock : UInt32)
  | event (curtime : UInt32)
  | stop

/-- A shutdown: `stepper_shutdown` runs and nothing else happens to the stepper. -/
def Machine.halt (b : Build) (m : Machine) : Machine :=
  let (s, ops) := stepperShutdown b m.stepper
  { m with stepper := s, pins := m.pins.applyAll m.driver ops, isShutdown := true }

/-- One action on a machine that has not shut down. -/
def Machine.stepLive (b : Build) (timerFromUs : UInt32 → UInt32) (m : Machine) :
    Act → Option Machine
  | .queueStep moveAvailable head now interval count add taskline =>
    match commandQueueStep b timerFromUs moveAvailable head now interval count add taskline
        m.stepper with
    | .ok (s, ops) => some { m with stepper := s, pins := m.pins.applyAll m.driver ops }
    | .error _ => some (m.halt b)
  | .setNextStepDir dir => some { m with stepper := commandSetNextStepDir dir m.stepper }
  | .resetStepClock clock =>
    match commandResetStepClock clock m.stepper with
    | .ok s => some { m with stepper := s }
    | .error _ => some (m.halt b)
  | .event curtime =>
    if m.stepper.scheduled then
      let res := stepperEvent b timerFromUs curtime m.stepper
      let m' := { m with stepper := res.2.1, pins := m.pins.applyAll m.driver res.2.2 }
      match res.1 with
      | .ok r => some { m' with stepper := { res.2.1 with scheduled := r == .reschedule } }
      | .error _ => some (m'.halt b)
    else none
  | .stop =>
    let (s, ops) := stepperStop b m.stepper
    some { m with stepper := s, pins := m.pins.applyAll m.driver ops }

/-- One action; a shut-down machine takes none. -/
def Machine.step (b : Build) (timerFromUs : UInt32 → UInt32) (m : Machine) (a : Act) :
    Option Machine :=
  if m.isShutdown then none else m.stepLive b timerFromUs a

/-- A run of actions from `m` as far as each is enabled and keeps the net steps in
    `(-2^30, 2^30)`; `none` when one does not. -/
def Machine.runInRange (b : Build) (timerFromUs : UInt32 → UInt32) :
    Machine → List Act → Option Machine
  | m, [] => some m
  | m, a :: as =>
    match m.step b timerFromUs a with
    | some m' =>
      if -2 ^ 30 < m'.pins.steps ∧ m'.pins.steps < 2 ^ 30 then m'.runInRange b timerFromUs as
      else none
    | none => none

/-! ## The encoding of the position -/

/-- The steps of the current move not yet taken, as `stepper_get_position` subtracts them. -/
def remaining (s : Stepper) : UInt32 := if s.flags.singleSched then s.count else s.count / 2

/-- How `position - remaining` stores `n` net steps: `POSITION_BIAS + n`, negated while the
    direction pin is low. -/
def encode (dir : Bool) (n : Int) : UInt32 :=
  if dir then UInt32.ofInt (0x40000000 + n) else -UInt32.ofInt (0x40000000 + n)

/-- A step in the direction of the pin adds one to the encoded position, whichever the
    direction: that is why `position` can hold a whole move in advance. -/
theorem encode_add_dirSign (dir : Bool) (n : Int) :
    encode dir (n + dirSign dir) = encode dir n + 1 := by
  cases dir with
  | false =>
    simp only [encode, dirSign, Bool.false_eq_true, if_false]
    rw [show (0x40000000 : Int) + (n + -1) = 0x40000000 + n + -1 by ring, UInt32.ofInt_add,
      UInt32.ofInt_neg_one]
    grind
  | true =>
    simp only [encode, dirSign, if_true]
    rw [show (0x40000000 : Int) + (n + 1) = 0x40000000 + n + 1 by ring, UInt32.ofInt_add,
      UInt32.ofInt_one]

/-- Reversing the direction pin negates the encoding. -/
theorem encode_not (dir : Bool) (n : Int) : encode (!dir) n = -encode dir n := by
  cases dir <;> simp [encode]

/-- `UInt32.ofInt` on a value that fits. -/
theorem toNat_ofInt_of_lt {x : Int} (h0 : 0 ≤ x) (h1 : x < 2 ^ 32) :
    ((UInt32.ofInt x).toNat : Int) = x := by
  rw [UInt32.ofInt, UInt32.toNat_ofNat', Int.emod_eq_of_lt h0 h1]
  omega

/-- **Decoding.**  While the position stays within `(-2^30, 2^30)`, the top bit of
    `position - remaining` is set exactly in the negated encoding, and `stepper_get_position`
    returns `POSITION_BIAS + n`. -/
theorem stepperGetPosition_of_encoded {s : Stepper} {dir : Bool} {n : Int}
    (h : s.position - remaining s = encode dir n) (h1 : -2 ^ 30 < n) (h2 : n < 2 ^ 30) :
    ((stepperGetPosition s).toNat : Int) = 0x40000000 + n := by
  have hp : (if s.flags.singleSched then s.position - s.count else s.position - s.count / 2)
      = encode dir n := by
    rw [← h, remaining]
    split <;> rfl
  have hv := toNat_ofInt_of_lt (x := 0x40000000 + n) (by omega) (by omega)
  simp only [stepperGetPosition, hp, bne_iff_ne, ne_eq]
  cases dir with
  | true =>
    -- the forward encoding is below `2^31`: returned as it is
    have htop : ¬2 ^ 31 ≤ (encode true n).toNat := by simp only [encode, if_true]; omega
    rw [if_neg (fun h => htop ((IntBits.uint32_and_top_ne_zero _).mp h))]
    simpa [encode] using hv
  | false =>
    -- the negated encoding is at least `2^31`: negated back
    have hneg : ((encode false n).toNat : Int) = 2 ^ 32 - (0x40000000 + n) := by
      simp only [encode, Bool.false_eq_true, if_false, UInt32.toNat_neg]
      rw [UInt32.size] at *
      omega
    have htop : 2 ^ 31 ≤ (encode false n).toNat := by omega
    rw [if_pos ((IntBits.uint32_and_top_ne_zero _).mpr htop)]
    simpa [encode] using hv

/-! ## Pins -/

@[simp] theorem Pins.applyAll_nil (d : Driver) (p : Pins) : p.applyAll d [] = p := rfl

@[simp] theorem Pins.applyAll_cons (d : Driver) (p : Pins) (op : GpioOp Pin)
    (ops : List (GpioOp Pin)) : p.applyAll d (op :: ops) = (p.apply d op).applyAll d ops := rfl

theorem Pins.applyAll_append (d : Driver) (p : Pins) (ops ops' : List (GpioOp Pin)) :
    p.applyAll d (ops ++ ops') = (p.applyAll d ops).applyAll d ops' := by
  simp [Pins.applyAll, List.foldl_append]

/-- A step edge: the driver takes a step in the direction of the pin. -/
theorem Pins.apply_toggle_step_of_isStep {d : Driver} {p : Pins} (h : d.isStep p.step = true) :
    p.apply d (.toggle .step) = { p with step := !p.step, steps := p.steps + dirSign p.dir } := by
  simp [Pins.apply, h]

/-- An edge back to the idle level of a one-edge driver: no step. -/
theorem Pins.apply_toggle_step_of_not_isStep {d : Driver} {p : Pins}
    (h : d.isStep p.step = false) : p.apply d (.toggle .step) = { p with step := !p.step } := by
  simp [Pins.apply, h]

/-- Reversing the direction pin and ending a pulse commute: the end of a pulse is no step
    whatever the direction. -/
theorem Pins.toggle_dir_toggle_step {d : Driver} {p : Pins} (h : d.isStep p.step = false) :
    ((p.apply d (.toggle .dir)).apply d (.toggle .step)) =
      ((p.apply d (.toggle .step)).apply d (.toggle .dir)) := by
  rw [Pins.apply_toggle_step_of_not_isStep h,
    Pins.apply_toggle_step_of_not_isStep (by simpa [Pins.apply] using h)]
  rfl

/-! ## Loading a move -/

/-- The configured bits of the flags: `stepper_stop` and every command keep them. -/
def SameConfig (f f' : Flags) : Prop :=
  f'.invertStep = f.invertStep ∧ f'.singleSched = f.singleSched ∧
    f'.optimizedPath = f.optimizedPath

/-- How the bits fixed at configuration fit the build and the driver: an optimized stepper
    counts single events and steps on both edges exactly in the edge build; any other stepper
    schedules single events exactly when the driver steps on both edges. -/
structure Config (b : Build) (d : Driver) (f : Flags) : Prop where
  idle : d.idle = f.invertStep
  optimized : f.optimizedPath = true →
    b.haveOptimizedPath = true ∧ f.singleSched = true ∧ (d.bothEdge = true ↔ b = .edge)
  full : f.optimizedPath = false → (f.singleSched = true ↔ d.bothEdge = true)

theorem Config.of_sameConfig {b : Build} {d : Driver} {f f' : Flags} (h : Config b d f)
    (hs : SameConfig f f') : Config b d f' := by
  obtain ⟨hinv, hsi, ho⟩ := hs
  refine ⟨hinv ▸ h.idle, ?_, ?_⟩
  · rw [ho, hsi]; exact h.optimized
  · rw [ho, hsi]; exact h.full

section LoadNext

variable {b : Build} {s : Stepper} {m : StepperMove} {mq : List StepperMove}

/-- The first move of the queue is loaded. -/
theorem stepperLoadNext_cons_result (hq : s.mq = m :: mq) :
    (stepperLoadNext b s).1 = .reschedule := by
  simp only [stepperLoadNext, hq]
  split_ifs <;> rfl

/-- Loading reverses the direction pin exactly for a move with `MF_DIR`. -/
theorem stepperLoadNext_cons_ops (hq : s.mq = m :: mq) :
    (stepperLoadNext b s).2.2 = if m.dir then [.toggle .dir] else [] := by
  simp only [stepperLoadNext, hq]
  split_ifs <;> rfl

/-- The whole move is added to the position, after negating it for a reversal. -/
theorem stepperLoadNext_cons_position (hq : s.mq = m :: mq) :
    (stepperLoadNext b s).2.1.position =
      (if m.dir then -s.position else s.position) + m.count.toUInt32 := by
  simp only [stepperLoadNext, hq]
  split_ifs <;> rfl

/-- The events of the move: one per step, or two when each pulse is scheduled as two events. -/
theorem stepperLoadNext_cons_count (hq : s.mq = m :: mq) :
    (stepperLoadNext b s).2.1.count =
      if (b.haveOptimizedPath && s.flags.optimizedPath) || s.flags.singleSched then
        m.count.toUInt32
      else m.count.toUInt32 * 2 := by
  simp only [stepperLoadNext, hq]
  split_ifs <;> simp_all

theorem stepperLoadNext_cons_mq (hq : s.mq = m :: mq) : (stepperLoadNext b s).2.1.mq = mq := by
  simp only [stepperLoadNext, hq]
  split_ifs <;> rfl

theorem stepperLoadNext_sameConfig : SameConfig s.flags (stepperLoadNext b s).2.1.flags := by
  unfold stepperLoadNext
  split
  · exact ⟨rfl, rfl, rfl⟩
  · dsimp only
    split_ifs <;> exact ⟨rfl, rfl, rfl⟩

end LoadNext

/-- What `stepper_load_next` guarantees about its result `(r, s', ops)`: the only pin operation
    is a reversal of the direction pin, which comes with the negation of the position; the
    timer stays exactly while steps remain; the new move's count is a count of events. -/
structure Loaded (s : Stepper) (r : SchedResult) (s' : Stepper) (ops : List (GpioOp Pin)) :
    Prop where
  dirOnly : ops = [] ∨ ops = [.toggle .dir]
  position : s'.position - remaining s' = if ops = [] then s.position else -s.position
  result : r = .reschedule ↔ s'.count ≠ 0
  idleEmpty : s'.count = 0 → s'.mq = []
  moves : ∀ mv ∈ s'.mq, mv.count ≠ 0
  even : s'.flags.singleSched = false → s'.count.toNat % 2 = 0
  small : s'.flags.optimizedPath = true → s'.count.toNat < 2 ^ 16
  config : SameConfig s.flags s'.flags

theorem stepperLoadNext_loaded {b : Build} {d : Driver} {s : Stepper}
    (hcfg : Config b d s.flags) (hmoves : ∀ mv ∈ s.mq, mv.count ≠ 0) :
    Loaded s (stepperLoadNext b s).1 (stepperLoadNext b s).2.1 (stepperLoadNext b s).2.2 := by
  have hsame := stepperLoadNext_sameConfig (b := b) (s := s)
  cases hq : s.mq with
  | nil =>
    -- the queue is empty: the stepper goes idle
    simp only [stepperLoadNext, hq]
    refine ⟨.inl rfl, ?_, ?_, fun _ => rfl, ?_, ?_, ?_, ⟨rfl, rfl, rfl⟩⟩ <;> simp [remaining]
  | cons m mq =>
    have hm : m.count ≠ 0 := hmoves m (by simp [hq])
    have hm0 : m.count.toUInt32.toNat ≠ 0 := by
      intro h; exact hm (UInt16.toNat_inj.mp (by simpa using h))
    have hlt : m.count.toUInt32.toNat < 2 ^ 16 := by
      rw [UInt16.toNat_toUInt32]; exact UInt16.toNat_lt _
    have hcount := stepperLoadNext_cons_count (b := b) hq
    -- `remaining` of the loaded stepper is the move's count on every path
    have hrem : remaining (stepperLoadNext b s).2.1 = m.count.toUInt32 := by
      have hsingle := hsame.2.1
      have hopt := hsame.2.2
      simp only [remaining, hsingle, hcount]
      by_cases hs : s.flags.singleSched = true
      · simp [hs]
      · have hno : s.flags.optimizedPath = false := by
          by_contra h
          exact hs (hcfg.optimized (by simpa using h)).2.1
        simp only [hs, hno, Bool.and_false, Bool.or_false, Bool.false_eq_true, if_false]
        apply UInt32.toNat_inj.mp
        rw [UInt32.toNat_div, UInt32.toNat_mul]
        simp only [show (2 : UInt32).toNat = 2 from rfl]
        omega
    have hne : (stepperLoadNext b s).2.1.count ≠ 0 := by
      intro h
      have h' := congrArg UInt32.toNat h
      rw [hcount] at h'
      split_ifs at h' <;>
        simp only [UInt32.toNat_mul, UInt32.toNat_zero, show (2 : UInt32).toNat = 2 from rfl] at h' <;>
        omega
    refine ⟨?_, ?_, ?_, fun h => absurd h hne, ?_, ?_, ?_, hsame⟩
    · rw [stepperLoadNext_cons_ops hq]
      cases m.dir <;> simp
    · rw [hrem, stepperLoadNext_cons_position hq, stepperLoadNext_cons_ops hq]
      cases m.dir <;> simp
    · rw [stepperLoadNext_cons_result hq]
      exact iff_of_true rfl hne
    · rw [stepperLoadNext_cons_mq hq]
      intro mv hmv
      exact hmoves mv (by simp [hq, hmv])
    · -- two events per pulse: an even count
      intro hs
      rw [hsame.2.1] at hs
      have hno : s.flags.optimizedPath = false := by
        by_contra h
        rw [(hcfg.optimized (by simpa using h)).2.1] at hs
        exact Bool.noConfusion hs
      rw [hcount, hs, hno]
      simp only [Bool.and_false, Bool.or_false, Bool.false_eq_true, if_false, UInt32.toNat_mul,
        show (2 : UInt32).toNat = 2 from rfl]
      omega
    · -- an optimized stepper counts the move's steps
      intro ho
      rw [hsame.2.2] at ho
      have hopt : (b.haveOptimizedPath && s.flags.optimizedPath) = true := by
        simp [ho, (hcfg.optimized ho).1]
      rw [hcount, hopt, Bool.true_or, if_pos rfl]
      exact hlt

/-! ## The invariant -/

/-- The invariant apart from the timer: the configuration bits, the encoding of the position,
    the queue of an idle stepper, the pin of a two-event pulse, and the bound the AVR callback's
    16-bit count needs. -/
structure Settled (b : Build) (m : Machine) : Prop where
  config : Config b m.driver m.stepper.flags
  encoded : m.stepper.position - remaining m.stepper = encode m.pins.dir m.pins.steps
  idleEmpty : m.stepper.count = 0 → m.stepper.mq = []
  moves : ∀ mv ∈ m.stepper.mq, mv.count ≠ 0
  pulse : m.stepper.flags.singleSched = false →
    (m.pins.step ≠ m.driver.idle ↔ m.stepper.count.toNat % 2 = 1)
  avrIdle : b = .avr → m.stepper.flags.optimizedPath = true → m.pins.step = m.driver.idle
  small : m.stepper.flags.optimizedPath = true → m.stepper.count.toNat < 2 ^ 16

/-- The invariant of a stepper machine: settled, with the timer queued exactly while steps
    remain. -/
structure Inv (b : Build) (m : Machine) : Prop extends Settled b m where
  scheduled : m.stepper.scheduled = true ↔ m.stepper.count ≠ 0

/-- The timer fields are outside the invariant. -/
theorem Settled.setTimer {b : Build} {m : Machine} (h : Settled b m) (sch : Bool) (w : UInt32) :
    Settled b { m with stepper := { m.stepper with scheduled := sch, waketime := w } } :=
  ⟨h.config, h.encoded, h.idleEmpty, h.moves, h.pulse, h.avrIdle, h.small⟩

/-- Decrementing a nonzero count. -/
theorem toNat_sub_one {x : UInt32} (h : x ≠ 0) : (x - 1).toNat = x.toNat - 1 := by
  have h0 : x.toNat ≠ 0 := fun h0 => h (UInt32.toNat_inj.mp (by simpa using h0))
  rw [UInt32.toNat_sub_of_le _ _ (UInt32.le_iff_toNat_le.mpr (by simp; omega))]
  rfl

/-- An idle stepper has no steps left. -/
theorem remaining_of_count_eq_zero {s : Stepper} (h : s.count = 0) : remaining s = 0 := by
  simp [remaining, h]

/-- The net steps stay within the range `stepper_get_position` can decode. -/
def InRange (m : Machine) : Prop := -2 ^ 30 < m.pins.steps ∧ m.pins.steps < 2 ^ 30

/-! ## Stopping -/

/-- `stepper_get_position` as a word: the encoded position decoded. -/
theorem stepperGetPosition_eq_ofInt {s : Stepper} {dir : Bool} {n : Int}
    (h : s.position - remaining s = encode dir n) (h1 : -2 ^ 30 < n) (h2 : n < 2 ^ 30) :
    stepperGetPosition s = UInt32.ofInt (0x40000000 + n) := by
  apply UInt32.toNat_inj.mp
  have hv := toNat_ofInt_of_lt (x := 0x40000000 + n) (by omega) (by omega)
  have hg := stepperGetPosition_of_encoded h h1 h2
  omega

/-- `stepper_shutdown` stops the stepper as `stepper_stop` does: the queue it clears first is
    cleared by `stepper_stop` too. -/
theorem stepperShutdown_eq (b : Build) (s : Stepper) : stepperShutdown b s = stepperStop b s := rfl

/-- The pins after `stepper_stop`: the direction low, no step taken, and the step pin idle
    wherever it is written.  The step pin is written only for a driver that steps on one edge,
    so writing it back to idle is never a step. -/
theorem stepperStop_pins {b : Build} {d : Driver} {s : Stepper} (hcfg : Config b d s.flags)
    (p : Pins) :
    (p.applyAll d (stepperStop b s).2).steps = p.steps ∧
      (p.applyAll d (stepperStop b s).2).dir = false ∧
      ((!s.flags.singleSched || (b = .avr && s.flags.optimizedPath)) = true →
        (p.applyAll d (stepperStop b s).2).step = d.idle) := by
  have hone : (!s.flags.singleSched || (b = .avr && s.flags.optimizedPath)) = true →
      d.bothEdge = false := by
    intro hw
    cases ho : s.flags.optimizedPath
    · have := hcfg.full ho
      cases hsi : s.flags.singleSched <;> simp_all
    · obtain ⟨-, hsi, hbe⟩ := hcfg.optimized ho
      cases hb : b <;> simp_all
  simp only [stepperStop]
  by_cases hw : (!s.flags.singleSched || (b = .avr && s.flags.optimizedPath)) = true
  · rw [if_pos hw]
    have hb := hone hw
    have hidle := hcfg.idle
    -- writing the idle level: no step, whether or not the pin was away from idle
    simp only [Pins.applyAll_cons, Pins.applyAll_nil, Pins.apply, Driver.isStep, hb,
      Bool.false_or, beq_iff_eq]
    split_ifs with he hst
    · exact ⟨rfl, rfl, fun _ => (hidle.trans he).symm⟩
    · exact absurd (hst.trans hidle) (Ne.symm he)
    · exact ⟨rfl, rfl, fun _ => hidle.symm⟩
  · rw [if_neg hw]
    exact ⟨rfl, rfl, fun h => absurd h hw⟩

/-- **Stopping keeps the invariant.**  `stepper_stop` stores the decoded position in the
    forward encoding with the direction pin low, and leaves the step pin idle where the
    invariant asks for it. -/
theorem inv_stop {b : Build} {m : Machine} (hs : Settled b m) (hr : InRange m) :
    Inv b { m with stepper := (stepperStop b m.stepper).1,
                   pins := m.pins.applyAll m.driver (stepperStop b m.stepper).2 } := by
  have hcfg := hs.config
  have hpos := stepperGetPosition_eq_ofInt hs.encoded hr.1 hr.2
  obtain ⟨hsteps, hdir, hidle⟩ := stepperStop_pins hcfg m.pins
  generalize m.pins.applyAll m.driver (stepperStop b m.stepper).2 = P at hsteps hdir hidle
  refine ⟨⟨⟨hcfg.idle, hcfg.optimized, hcfg.full⟩, ?_, fun _ => rfl, by simp [stepperStop], ?_,
    ?_, by simp [stepperStop]⟩, by simp [stepperStop]⟩
  · show (stepperStop b m.stepper).1.position - remaining (stepperStop b m.stepper).1 =
      encode P.dir P.steps
    rw [hsteps, hdir]
    simp only [stepperStop, remaining, hpos]
    split_ifs <;> simp [encode]
  · intro hsi
    have hst := hidle (by simp_all [stepperStop])
    simp [hst, stepperStop]
  · intro hb ho
    exact hidle (by simp_all [stepperStop])

/-- A shutdown takes no step. -/
theorem halt_steps {b : Build} {m : Machine} (hs : Settled b m) :
    (m.halt b).pins.steps = m.pins.steps :=
  (stepperStop_pins hs.config m.pins).1

/-- A shutdown keeps the invariant: `stepper_shutdown` is `stepper_stop`. -/
theorem inv_halt {b : Build} {m : Machine} (hs : Settled b m) (hr : InRange m) :
    Inv b (m.halt b) := by
  have h := inv_stop hs hr
  obtain ⟨hset, hsch⟩ := h
  unfold Machine.halt
  rw [stepperShutdown_eq]
  exact ⟨⟨hset.config, hset.encoded, hset.idleEmpty, hset.moves, hset.pulse, hset.avrIdle,
    hset.small⟩, hsch⟩

/-! ## Loading from rest -/

/-- The pins after the operations of `stepper_load_next`: at most the direction reversed. -/
theorem Pins.applyAll_loadOps {d : Driver} {p : Pins} {ops : List (GpioOp Pin)}
    (h : ops = [] ∨ ops = [.toggle .dir]) :
    (p.applyAll d ops).step = p.step ∧ (p.applyAll d ops).steps = p.steps ∧
      (p.applyAll d ops).dir = if ops = [] then p.dir else !p.dir := by
  rcases h with rfl | rfl <;> simp [Pins.apply]

/-- **Loading from rest.**  A stepper whose position is encoded with nothing remaining loads its
    next move into a settled state.  The step pin must be idle where a pulse takes two events and
    where the AVR callback runs. -/
theorem settled_load {b : Build} {d : Driver} {s : Stepper} {p : Pins} (isShutdown : Bool)
    (hcfg : Config b d s.flags) (hmoves : ∀ mv ∈ s.mq, mv.count ≠ 0)
    (hpos : s.position = encode p.dir p.steps)
    (hidle : s.flags.singleSched = false ∨ (b = .avr ∧ s.flags.optimizedPath = true) →
      p.step = d.idle) :
    Settled b ⟨d, (stepperLoadNext b s).2.1, p.applyAll d (stepperLoadNext b s).2.2,
      isShutdown⟩ := by
  have hL := stepperLoadNext_loaded (b := b) hcfg hmoves
  obtain ⟨hstep, hsteps, hdir⟩ := Pins.applyAll_loadOps (d := d) (p := p) hL.dirOnly
  obtain ⟨-, hsi, ho⟩ := hL.config
  refine ⟨Config.of_sameConfig hcfg hL.config, ?_, hL.idleEmpty, hL.moves, ?_, ?_, hL.small⟩
  · show _ = encode _ _
    rw [hL.position, hsteps, hdir, hpos]
    split_ifs
    · rfl
    · rw [encode_not]
  · intro hs'
    have heven := hL.even hs'
    show _ ≠ d.idle ↔ _
    rw [hstep, hidle (.inl (hsi ▸ hs')), heven]
    simp
  · intro hb ho'
    show _ = d.idle
    rw [hstep, hidle (.inr ⟨hb, ho ▸ ho'⟩)]

/-! ## Commands -/

/-- `set_next_step_dir` changes one flag that the invariant does not read. -/
theorem inv_setNextStepDir {b : Build} {m : Machine} (h : Inv b m) (dir : UInt32) :
    Inv b { m with stepper := commandSetNextStepDir dir m.stepper } :=
  ⟨⟨⟨h.config.idle, h.config.optimized, h.config.full⟩, h.encoded, h.idleEmpty, h.moves,
    h.pulse, h.avrIdle, h.small⟩, h.scheduled⟩

/-- `reset_step_clock` on an idle stepper only sets its clocks and clears `SF_NEED_RESET`. -/
theorem inv_resetStepClock {b : Build} {m : Machine} {s : Stepper} (h : Inv b m) (clock : UInt32)
    (hs : commandResetStepClock clock m.stepper = .ok s) : Inv b { m with stepper := s } := by
  unfold commandResetStepClock at hs
  split at hs
  · cases hs
  · cases hs
    exact ⟨⟨⟨h.config.idle, h.config.optimized, h.config.full⟩, h.encoded, h.idleEmpty, h.moves,
      h.pulse, h.avrIdle, h.small⟩, h.scheduled⟩

/-- **`queue_step` keeps the invariant.**  A busy stepper queues the move, a stepper waiting for
    `reset_step_clock` drops it, and an idle one loads it at once and queues its timer. -/
theorem inv_queueStep {b : Build} {timerFromUs : UInt32 → UInt32} {moveAvailable : Bool}
    {head now interval count add taskline : UInt32} {m : Machine} {s : Stepper}
    {ops : List (GpioOp Pin)} (h : Inv b m)
    (hq : commandQueueStep b timerFromUs moveAvailable head now interval count add taskline
      m.stepper = .ok (s, ops)) :
    Inv b { m with stepper := s, pins := m.pins.applyAll m.driver ops } := by
  unfold commandQueueStep at hq
  split at hq
  · cases hq
  split at hq
  · cases hq
  rename_i hcount
  dsimp only at hq
  -- the new move, and the flags with the last direction updated
  generalize hmv : (⟨interval, taskline, add.toUInt16.toInt16, count.toUInt16,
      m.stepper.flags.lastDir != m.stepper.flags.nextDir⟩ : StepperMove) = mv at hq
  generalize hf : (if (m.stepper.flags.lastDir != m.stepper.flags.nextDir) = true then
      { m.stepper.flags with lastDir := !m.stepper.flags.lastDir } else m.stepper.flags) = f at hq
  have hsame : SameConfig m.stepper.flags f := by
    subst hf
    split_ifs <;> exact ⟨rfl, rfl, rfl⟩
  have hmv0 : mv.count ≠ 0 := by subst hmv; exact hcount
  have hcfg : Config b m.driver f := Config.of_sameConfig h.config hsame
  have hmoves : ∀ x ∈ m.stepper.mq ++ [mv], x.count ≠ 0 := by
    intro x hx
    rcases List.mem_append.mp hx with hx | hx
    · exact h.moves x hx
    · rw [List.mem_singleton.mp hx]; exact hmv0
  split at hq
  · -- busy: the move joins the queue
    rename_i hbusy
    cases hq
    have hne : m.stepper.count ≠ 0 := by simpa using hbusy
    have henc : m.stepper.position - remaining { m.stepper with flags := f, mq := m.stepper.mq ++ [mv] }
        = encode m.pins.dir m.pins.steps := by
      show m.stepper.position -
        (if f.singleSched then m.stepper.count else m.stepper.count / 2) = _
      rw [hsame.2.1]
      exact h.encoded
    exact ⟨⟨hcfg, henc, fun h0 => absurd h0 hne, hmoves, hsame.2.1 ▸ h.pulse,
      hsame.2.2 ▸ h.avrIdle, hsame.2.2 ▸ h.small⟩, h.scheduled⟩
  have hidle : m.stepper.count = 0 := by simpa using ‹¬(m.stepper.count != 0) = true›
  split at hq
  · -- waiting for `reset_step_clock`: the move is dropped
    cases hq
    exact h
  · -- idle: the move is loaded and the timer queued
    cases hq
    set s1 : Stepper := { m.stepper with flags := f, mq := m.stepper.mq ++ [mv] } with hs1
    have hmq : s1.mq = mv :: [] := by rw [hs1, h.idleEmpty hidle]; rfl
    have hpos : s1.position = encode m.pins.dir m.pins.steps := by
      have he := h.encoded
      rw [remaining_of_count_eq_zero hidle, UInt32.sub_zero] at he
      exact he
    have hpin : s1.flags.singleSched = false ∨ (b = .avr ∧ s1.flags.optimizedPath = true) →
        m.pins.step = m.driver.idle := by
      rintro (hs | ⟨hb, ho⟩)
      · have hp := h.pulse (hsame.2.1 ▸ hs)
        rw [hidle] at hp
        by_contra hne
        exact absurd (hp.mp hne) (by decide)
      · exact h.avrIdle hb (hsame.2.2 ▸ ho)
    have hL := stepperLoadNext_loaded (b := b) (s := s1) hcfg hmoves
    have hset := (settled_load (b := b) (p := m.pins) m.isShutdown hcfg hmoves hpos hpin).setTimer
      true (addTimerWaketime timerFromUs head now (stepperLoadNext b s1).2.1.waketime)
    refine ⟨hset, ?_⟩
    -- the loaded move has steps, so the timer is rightly queued
    exact iff_of_true rfl (hL.result.mp (stepperLoadNext_cons_result hmq))

/-! ## The step callbacks -/

/-- What a step callback leaves behind: a settled machine, and a result that keeps the timer
    exactly while steps remain (unless the callback shuts down). -/
structure EventOk (b : Build) (m : Machine)
    (res : Except String SchedResult × Stepper × List (GpioOp Pin)) : Prop where
  settled : Settled b { m with stepper := res.2.1, pins := m.pins.applyAll m.driver res.2.2 }
  result : ∀ r, res.1 = .ok r → (r = .reschedule ↔ res.2.1.count ≠ 0)

/-- A callback result can be read with any pin operations that leave the pins the same. -/
theorem EventOk.of_pins_eq {b : Build} {m : Machine} {r : Except String SchedResult} {s : Stepper}
    {ops ops' : List (GpioOp Pin)} (h : EventOk b m (r, s, ops))
    (hp : m.pins.applyAll m.driver ops' = m.pins.applyAll m.driver ops) :
    EventOk b m (r, s, ops') := by
  obtain ⟨hs, hr⟩ := h
  refine ⟨?_, hr⟩
  show Settled b ⟨m.driver, s, m.pins.applyAll m.driver ops', m.isShutdown⟩
  rw [hp]
  exact hs

/-- The waketime a callback leaves is outside the invariant. -/
theorem EventOk.setWaketime {b : Build} {m : Machine} {r : Except String SchedResult}
    {s : Stepper} {ops : List (GpioOp Pin)} (h : EventOk b m (r, s, ops)) (w : UInt32) :
    EventOk b m (r, { s with waketime := w }, ops) :=
  ⟨h.settled.setTimer s.scheduled w, h.result⟩

/-- The last event of a move: after its step edge (the operations `pre`) the stepper `s` is at
    rest with the pins `p`, and loading the next move settles it. -/
theorem eventOk_load {b : Build} {m : Machine} {s : Stepper} (hcfg : Config b m.driver s.flags)
    (hmoves : ∀ mv ∈ s.mq, mv.count ≠ 0) (p : Pins) (pre : List (GpioOp Pin))
    (hp : m.pins.applyAll m.driver pre = p) (hpos : s.position = encode p.dir p.steps)
    (hidle : s.flags.singleSched = false ∨ (b = .avr ∧ s.flags.optimizedPath = true) →
      p.step = m.driver.idle) :
    EventOk b m (.ok (stepperLoadNext b s).1, (stepperLoadNext b s).2.1,
      pre ++ (stepperLoadNext b s).2.2) := by
  have hL := stepperLoadNext_loaded (b := b) hcfg hmoves
  refine ⟨?_, ?_⟩
  · show Settled b ⟨m.driver, _, m.pins.applyAll m.driver (pre ++ _), m.isShutdown⟩
    rw [Pins.applyAll_append, hp]
    exact settled_load m.isShutdown hcfg hmoves hpos hidle
  · rintro r ⟨⟩
    exact hL.result

/-- **The edge callback.**  Every edge is a step: the count drops by one, and the last edge of a
    move loads the next one. -/
theorem eventOk_edge {b : Build} {m : Machine} (h : Inv b m) (hsch : m.stepper.scheduled = true)
    (hb : b = .edge) (ho : m.stepper.flags.optimizedPath = true) :
    EventOk b m (.ok (stepperEventEdge b m.stepper).1, (stepperEventEdge b m.stepper).2.1,
      (stepperEventEdge b m.stepper).2.2) := by
  obtain ⟨-, hsingle, hboth⟩ := h.config.optimized ho
  have hstep : m.driver.isStep m.pins.step = true := by
    simp [Driver.isStep, hboth.mpr hb]
  have hcount : m.stepper.count ≠ 0 := h.scheduled.mp hsch
  have hsmall := h.small ho
  have henc := h.encoded
  rw [remaining, if_pos hsingle] at henc
  dsimp only [stepperEventEdge]
  split_ifs with hne
  · -- a step inside the move
    have hne' : m.stepper.count - 1 ≠ 0 := by simpa using hne
    refine ⟨⟨h.config, ?_, fun h0 => absurd h0 hne', h.moves, fun hs => by simp_all,
      fun hb' => by simp_all, fun _ => ?_⟩, fun r hr => ?_⟩
    · show m.stepper.position - (if m.stepper.flags.singleSched then _ else _) = _
      simp only [Pins.applyAll_cons, Pins.applyAll_nil, Pins.apply_toggle_step_of_isStep hstep,
        if_pos hsingle, encode_add_dirSign, ← henc]
      grind
    · show (m.stepper.count - 1).toNat < 2 ^ 16
      rw [toNat_sub_one hcount]
      omega
    · cases hr
      exact iff_of_true rfl hne'
  · -- the last step of the move
    have h1 : m.stepper.count = 1 := by
      have : m.stepper.count - 1 = 0 := by simpa using hne
      grind
    refine eventOk_load h.config h.moves _ [.toggle .step] rfl ?_ (fun hc => ?_)
    · simp only [Pins.applyAll_cons, Pins.applyAll_nil, Pins.apply_toggle_step_of_isStep hstep,
        encode_add_dirSign, ← henc, h1]
      grind
    · simp_all

/-- The AVR callback's decremented low half of a count below `2^16`. -/
theorem toNat_toUInt16_sub_one {x : UInt32} (hx : x.toNat < 2 ^ 16) (h0 : x ≠ 0) :
    (x.toUInt16 - 1).toNat = x.toNat - 1 := by
  have hx0 : x.toNat ≠ 0 := fun h => h0 (UInt32.toNat_inj.mp (by simpa using h))
  rw [UInt16.toNat_sub, UInt32.toNat_toUInt16]
  simp only [show (1 : UInt16).toNat = 1 from rfl]
  omega

/-- The AVR callback decrements the low half of `count` through a 16-bit pointer; below `2^16`
    that is decrementing `count`. -/
theorem avr_count {x : UInt32} (hx : x.toNat < 2 ^ 16) (h0 : x ≠ 0) :
    (x &&& 0xffff0000) ||| (x.toUInt16 - 1).toUInt32 = x - 1 := by
  -- the high half of a count below `2^16` is clear
  have hhigh : x.toNat &&& 0xffff0000 = 0 := by
    apply Nat.eq_of_testBit_eq
    intro i
    rw [Nat.testBit_and, Nat.zero_testBit]
    by_cases hi : i < 16
    · have hlowbits : ∀ j < 16, Nat.testBit 0xffff0000 j = false := by decide
      rw [hlowbits i hi, Bool.and_false]
    · rw [Nat.testBit_lt_two_pow (lt_of_lt_of_le hx (Nat.pow_le_pow_right (by decide)
        (by omega))), Bool.false_and]
  apply UInt32.toNat_inj.mp
  rw [UInt32.toNat_or, UInt32.toNat_and, show (0xffff0000 : UInt32).toNat = 0xffff0000 from rfl,
    hhigh, Nat.zero_or, UInt16.toNat_toUInt32, toNat_toUInt16_sub_one hx h0, toNat_sub_one h0]

/-- **The AVR callback.**  Each event is a whole pulse: a step edge from idle and the edge back,
    which is no step; the last event of a move loads the next one between the two edges. -/
theorem eventOk_avr {b : Build} {m : Machine} (h : Inv b m) (hsch : m.stepper.scheduled = true)
    (hb : b = .avr) (ho : m.stepper.flags.optimizedPath = true) :
    EventOk b m (.ok (stepperEventAvr b m.stepper).1, (stepperEventAvr b m.stepper).2.1,
      (stepperEventAvr b m.stepper).2.2) := by
  obtain ⟨-, hsingle, hboth⟩ := h.config.optimized ho
  have hone : m.driver.bothEdge = false := by
    cases hbe : m.driver.bothEdge
    · rfl
    · exact absurd (hboth.mp hbe) (by rw [hb]; decide)
  have hidle := h.avrIdle hb ho
  have hcount : m.stepper.count ≠ 0 := h.scheduled.mp hsch
  have hsmall := h.small ho
  have henc := h.encoded
  rw [remaining, if_pos hsingle] at henc
  -- the pulse: a step from idle, then the edge back to idle
  have hstep : m.driver.isStep m.pins.step = true := by simp [Driver.isStep, hidle]
  have hback : m.driver.isStep (!m.pins.step) = false := by simp [Driver.isStep, hone, hidle]
  have hpulse : (m.pins.apply m.driver (.toggle .step)).apply m.driver (.toggle .step) =
      { m.pins with steps := m.pins.steps + dirSign m.pins.dir } := by
    rw [Pins.apply_toggle_step_of_isStep hstep, Pins.apply_toggle_step_of_not_isStep hback]
    simp
  have hlow := toNat_toUInt16_sub_one hsmall hcount
  have hdec := toNat_sub_one hcount
  dsimp only [stepperEventAvr]
  by_cases hne : (m.stepper.count.toUInt16 - 1 != 0) = true
  · -- a pulse inside the move
    rw [if_pos hne]
    have hne' : m.stepper.count - 1 ≠ 0 := by
      intro h0
      have : (m.stepper.count.toUInt16 - 1).toNat = 0 := by rw [hlow, ← hdec, h0]; rfl
      exact (by simpa using hne : m.stepper.count.toUInt16 - 1 ≠ 0)
        (UInt16.toNat_inj.mp (by simpa using this))
    rw [avr_count hsmall hcount]
    refine ⟨⟨h.config, ?_, fun h0 => absurd h0 hne', h.moves, fun hs => by simp_all, ?_,
      fun _ => ?_⟩, fun r hr => ?_⟩
    · show m.stepper.position - (if m.stepper.flags.singleSched then _ else _) = _
      simp only [Pins.applyAll_cons, Pins.applyAll_nil, hpulse, if_pos hsingle,
        encode_add_dirSign, ← henc]
      grind
    · intro _ _
      show (Pins.applyAll m.driver m.pins [.toggle .step, .toggle .step]).step = _
      simp only [Pins.applyAll_cons, Pins.applyAll_nil, hpulse, hidle]
    · show (m.stepper.count - 1).toNat < 2 ^ 16
      omega
    · cases hr
      exact iff_of_true rfl hne'
  · -- the last pulse of the move, with the next move loaded between its two edges
    rw [if_neg hne]
    have h1 : m.stepper.count.toNat = 1 := by
      have : (m.stepper.count.toUInt16 - 1).toNat = 0 := by simp_all
      have : m.stepper.count.toNat ≠ 0 := fun h0 => hcount (UInt32.toNat_inj.mp (by simpa using h0))
      omega
    have hL := stepperLoadNext_loaded (b := b) h.config h.moves
    -- the loaded move only reverses the direction pin, which commutes with the end of the pulse
    have hcomm : m.pins.applyAll m.driver
          (.toggle .step :: (stepperLoadNext b m.stepper).2.2 ++ [.toggle .step]) =
        m.pins.applyAll m.driver ([.toggle .step, .toggle .step] ++
          (stepperLoadNext b m.stepper).2.2) := by
      rcases hL.dirOnly with hops | hops <;> rw [hops]
      · rfl
      · simp only [List.cons_append, List.nil_append, Pins.applyAll_cons, Pins.applyAll_nil]
        exact Pins.toggle_dir_toggle_step (by rw [Pins.apply_toggle_step_of_isStep hstep]; exact hback)
    refine EventOk.of_pins_eq (eventOk_load h.config h.moves _ [.toggle .step, .toggle .step]
      rfl ?_ (fun _ => ?_)) hcomm
    · simp only [Pins.applyAll_cons, Pins.applyAll_nil, hpulse, encode_add_dirSign, ← henc]
      have : m.stepper.count = 1 := UInt32.toNat_inj.mp (by simpa using h1)
      rw [this]
      grind
    · simp only [Pins.applyAll_cons, Pins.applyAll_nil, hpulse, hidle]

/-- The low bit of a word. -/
theorem and_one_ne_zero (y : UInt32) : y &&& 1 ≠ 0 ↔ y.toNat % 2 = 1 := by
  have h : (y &&& 1).toNat = y.toNat % 2 := by
    rw [UInt32.toNat_and, show (1 : UInt32).toNat = 1 from rfl, Nat.and_one_is_mod]
  constructor
  · intro hne
    have : (y &&& 1).toNat ≠ 0 := fun h0 => hne (UInt32.toNat_inj.mp (by simpa using h0))
    omega
  · intro h1 h0
    rw [h0] at h
    simp at h
    omega

/-- Halving a count as `stepper_get_position` does, in `Nat`. -/
theorem toNat_div_two (x : UInt32) : (x / 2).toNat = x.toNat / 2 := by
  rw [UInt32.toNat_div]
  rfl

/-- **The full callback.**  With two events per pulse, the event that leaves the count odd is
    the step edge and the one that leaves it even the edge back; with one event per pulse the
    driver steps on both edges.  The last event of a move loads the next one, and may shut down
    when that move starts too far in the past. -/
theorem eventOk_full {b : Build} {m : Machine} (h : Inv b m) (hsch : m.stepper.scheduled = true)
    (hfull : (b.haveOptimizedPath && m.stepper.flags.optimizedPath) = false)
    (timerFromUs : UInt32 → UInt32) (curtime : UInt32) :
    EventOk b m (stepperEventFull b timerFromUs curtime m.stepper) := by
  have hno : m.stepper.flags.optimizedPath = false := by
    cases ho : m.stepper.flags.optimizedPath
    · rfl
    · rw [ho, (h.config.optimized ho).1] at hfull
      exact absurd hfull (by decide)
  have hboth := h.config.full hno
  have hcount : m.stepper.count ≠ 0 := h.scheduled.mp hsch
  have hx0 : m.stepper.count.toNat ≠ 0 :=
    fun h0 => hcount (UInt32.toNat_inj.mp (by simpa using h0))
  have hdec := toNat_sub_one hcount
  have henc := h.encoded
  dsimp only [stepperEventFull]
  by_cases hA : (m.stepper.count - 1 &&& 1 != 0 && !m.stepper.flags.singleSched) = true
  · -- the step edge of a two-event pulse: the count becomes odd
    rw [if_pos hA]
    simp only [Bool.and_eq_true, bne_iff_ne, ne_eq, Bool.not_eq_true'] at hA
    obtain ⟨hodd, hsingle⟩ := hA
    have hodd' := (and_one_ne_zero _).mp hodd
    have hidle : m.pins.step = m.driver.idle := by
      by_contra hne
      have := (h.pulse hsingle).mp hne
      omega
    have hstep : m.driver.isStep m.pins.step = true := by simp [Driver.isStep, hidle]
    have hrem : remaining m.stepper = (m.stepper.count - 1) / 2 + 1 := by
      apply UInt32.toNat_inj.mp
      simp only [remaining, hsingle, Bool.false_eq_true, if_false]
      rw [UInt32.toNat_add, toNat_div_two, toNat_div_two, hdec]
      simp only [show (1 : UInt32).toNat = 1 from rfl]
      have := UInt32.toNat_lt m.stepper.count
      omega
    refine ⟨⟨h.config, ?_, fun h0 => ?_, h.moves, fun _ => ?_, fun _ ho => by simp_all,
      fun ho => by simp_all⟩, fun r hr => ?_⟩
    · show m.stepper.position - (if m.stepper.flags.singleSched then _ else _ / 2) = _
      simp only [hsingle, Bool.false_eq_true, if_false, Pins.applyAll_cons, Pins.applyAll_nil,
        Pins.apply_toggle_step_of_isStep hstep, encode_add_dirSign, ← henc, hrem]
      grind
    · have : (m.stepper.count - 1).toNat = 0 := by rw [show m.stepper.count - 1 = 0 from h0]; rfl
      omega
    · show (Pins.applyAll m.driver m.pins [.toggle .step]).step ≠ _ ↔ _
      simp only [Pins.applyAll_cons, Pins.applyAll_nil, Pins.apply_toggle_step_of_isStep hstep,
        hidle]
      simp only [ne_eq, Bool.not_eq_self, not_false_eq_true, true_iff]
      exact hodd'
    · cases hr
      refine iff_of_true rfl (fun h0 => ?_)
      have : (m.stepper.count - 1).toNat = 0 := by rw [show m.stepper.count - 1 = 0 from h0]; rfl
      omega
  rw [if_neg hA]
  have hA' : m.stepper.flags.singleSched = false → (m.stepper.count - 1).toNat % 2 = 0 := by
    intro hsi
    simp only [hsi, Bool.not_false, Bool.and_true, bne_iff_ne, ne_eq, Decidable.not_not] at hA
    have := (and_one_ne_zero (m.stepper.count - 1)).not.mp (not_not.mpr hA)
    omega
  by_cases hB : (m.stepper.count - 1 != 0) = true
  · -- an edge inside the move; the two branches differ in the waketime only
    rw [if_pos hB]
    have hne : m.stepper.count - 1 ≠ 0 := by simpa using hB
    have key : EventOk b m (.ok .reschedule,
        { m.stepper with count := m.stepper.count - 1,
                         nextStepTime := m.stepper.nextStepTime + m.stepper.interval,
                         interval := m.stepper.interval + addTicks m.stepper.add },
        [.toggle .step]) := by
      cases hsi : m.stepper.flags.singleSched
      · -- the edge back to idle of a two-event pulse: no step
        have heven := hA' hsi
        have hpin : m.pins.step ≠ m.driver.idle := (h.pulse hsi).mpr (by omega)
        have hbe : m.driver.bothEdge = false := by
          cases hbe : m.driver.bothEdge
          · rfl
          · rw [← hboth, hsi] at hbe; exact absurd hbe (by decide)
        have hnostep : m.driver.isStep m.pins.step = false := by
          simp [Driver.isStep, hbe, hpin]
        have hrem : (m.stepper.count - 1) / 2 = m.stepper.count / 2 := by
          apply UInt32.toNat_inj.mp
          rw [toNat_div_two, toNat_div_two, hdec]
          omega
        have hr0 : remaining m.stepper = m.stepper.count / 2 := by simp [remaining, hsi]
        refine ⟨⟨h.config, ?_, fun h0 => absurd h0 hne, h.moves, fun _ => ?_,
          fun _ ho => by simp_all, fun ho => by simp_all⟩, fun r hr => ?_⟩
        · show m.stepper.position - (if m.stepper.flags.singleSched then _ else _ / 2) = _
          simp only [hsi, Bool.false_eq_true, if_false, Pins.applyAll_cons, Pins.applyAll_nil,
            Pins.apply_toggle_step_of_not_isStep hnostep, hrem]
          rw [← hr0]
          exact henc
        · show (Pins.applyAll m.driver m.pins [.toggle .step]).step ≠ _ ↔ _
          simp only [Pins.applyAll_cons, Pins.applyAll_nil,
            Pins.apply_toggle_step_of_not_isStep hnostep]
          cases hp : m.pins.step <;> cases hi : m.driver.idle <;> simp_all
        · cases hr
          exact iff_of_true rfl hne
      · -- both edges: a step
        have hstep : m.driver.isStep m.pins.step = true := by
          simp [Driver.isStep, hboth.mp hsi]
        have hr1 : remaining m.stepper = m.stepper.count := by simp [remaining, hsi]
        refine ⟨⟨h.config, ?_, fun h0 => absurd h0 hne, h.moves, fun hs => by simp_all,
          fun _ ho => by simp_all, fun ho => by simp_all⟩, fun r hr => ?_⟩
        · show m.stepper.position - (if m.stepper.flags.singleSched then _ else _) = _
          simp only [hsi, if_true, Pins.applyAll_cons, Pins.applyAll_nil,
            Pins.apply_toggle_step_of_isStep hstep, encode_add_dirSign]
          rw [← henc, hr1]
          grind
        · cases hr
          exact iff_of_true rfl hne
    split
    · exact key.setWaketime _
    · exact key.setWaketime _
  · -- the last edge of the move: load the next one
    rw [if_neg hB]
    have h1 : m.stepper.count = 1 := by
      have : m.stepper.count - 1 = 0 := by simpa using hB
      grind
    -- after the edge the stepper is at rest
    have hpos : m.stepper.position =
        encode (m.pins.applyAll m.driver [.toggle .step]).dir
          (m.pins.applyAll m.driver [.toggle .step]).steps := by
      cases hsi : m.stepper.flags.singleSched
      · have hpin : m.pins.step ≠ m.driver.idle := (h.pulse hsi).mpr (by simp [h1])
        have hnostep : m.driver.isStep m.pins.step = false := by
          simp [Driver.isStep, hpin, (hboth.not.mp (by simp [hsi]))]
        simp only [Pins.applyAll_cons, Pins.applyAll_nil,
          Pins.apply_toggle_step_of_not_isStep hnostep]
        rw [← henc]
        simp [remaining, hsi, h1]
      · have hstep : m.driver.isStep m.pins.step = true := by
          simp [Driver.isStep, hboth.mp hsi]
        simp only [Pins.applyAll_cons, Pins.applyAll_nil, Pins.apply_toggle_step_of_isStep hstep,
          encode_add_dirSign]
        rw [← henc]
        simp [remaining, hsi, h1]
    have hidle : m.stepper.flags.singleSched = false ∨
        (b = .avr ∧ m.stepper.flags.optimizedPath = true) →
        (m.pins.applyAll m.driver [.toggle .step]).step = m.driver.idle := by
      rintro (hsi | ⟨-, ho⟩)
      · have hpin : m.pins.step ≠ m.driver.idle := (h.pulse hsi).mpr (by simp [h1])
        simp only [Pins.applyAll_cons, Pins.applyAll_nil, Pins.apply]
        cases hp : m.pins.step <;> cases hi : m.driver.idle <;> simp_all
      · simp_all
    have hload := eventOk_load (b := b) (m := m) (s := { m.stepper with count := m.stepper.count - 1 })
      h.config h.moves _ [.toggle .step] rfl hpos hidle
    have hL := stepperLoadNext_loaded (b := b) (s := { m.stepper with count := m.stepper.count - 1 })
      h.config h.moves
    split_ifs with hc1 hc2
    · exact hload
    · exact ⟨hload.settled, fun r hr => by cases hr⟩
    · -- pushed back to the earliest time after the unstep: the loaded move has steps
      have hres : (stepperLoadNext b { m.stepper with count := m.stepper.count - 1 }).1 =
          .reschedule := by
        cases hr : (stepperLoadNext b { m.stepper with count := m.stepper.count - 1 }).1
        · simp [hr] at hc1
        · rfl
      exact ⟨(hload.setWaketime _).settled, fun r hr => by
        cases hr
        exact iff_of_true rfl (hL.result.mp hres)⟩

/-- **The step callback** of every build, as `stepper_event` dispatches to it. -/
theorem eventOk_stepperEvent {b : Build} {m : Machine} (h : Inv b m)
    (hsch : m.stepper.scheduled = true) (timerFromUs : UInt32 → UInt32) (curtime : UInt32) :
    EventOk b m (stepperEvent b timerFromUs curtime m.stepper) := by
  unfold stepperEvent
  by_cases hopt : (b.haveOptimizedPath && m.stepper.flags.optimizedPath) = true
  · rw [if_pos hopt]
    have ho : m.stepper.flags.optimizedPath = true := (Bool.and_eq_true _ _ ▸ hopt).2
    cases b with
    | generic => exact absurd hopt (by simp [Build.haveOptimizedPath])
    | edge => exact eventOk_edge h hsch rfl ho
    | avr => exact eventOk_avr h hsch rfl ho
  · rw [if_neg hopt]
    exact eventOk_full h hsch (by simpa using hopt) timerFromUs curtime

/-! ## Runs -/

/-- **One action keeps the invariant**, on a step that stays in the decodable range.  An action
    that shuts down keeps it through `stepper_shutdown`; a step callback hands its result to the
    scheduler, which queues the timer again exactly on `SF_RESCHEDULE`. -/
theorem Machine.step_inv {b : Build} {timerFromUs : UInt32 → UInt32} {m m' : Machine} {a : Act}
    (h : Inv b m) (hr : InRange m) (hstep : m.step b timerFromUs a = some m')
    (hr' : InRange m') : Inv b m' := by
  unfold Machine.step at hstep
  split at hstep
  · cases hstep
  cases a with
  | queueStep moveAvailable head now interval count add taskline =>
    simp only [Machine.stepLive] at hstep
    split at hstep
    · cases hstep
      exact inv_queueStep h ‹_›
    · cases hstep
      exact inv_halt h.toSettled hr
  | setNextStepDir dir =>
    cases hstep
    exact inv_setNextStepDir h dir
  | resetStepClock clock =>
    simp only [Machine.stepLive] at hstep
    split at hstep
    · cases hstep
      exact inv_resetStepClock h clock ‹_›
    · cases hstep
      exact inv_halt h.toSettled hr
  | event curtime =>
    simp only [Machine.stepLive] at hstep
    split at hstep
    · have hev := eventOk_stepperEvent h ‹_› timerFromUs curtime
      generalize stepperEvent b timerFromUs curtime m.stepper = res at hev hstep
      obtain ⟨r, s, ops⟩ := res
      cases r with
      | ok r =>
        cases hstep
        refine ⟨hev.settled.setTimer (r == .reschedule) s.waketime, ?_⟩
        show (r == .reschedule) = true ↔ s.count ≠ 0
        rw [beq_iff_eq]
        exact hev.result r rfl
      | error e =>
        -- the callback shut down: the state it left is in range, as the halted one is
        cases hstep
        have hmid := hev.settled
        refine inv_halt hmid ?_
        unfold InRange at hr' ⊢
        rwa [halt_steps hmid] at hr'
    · cases hstep
  | stop =>
    cases hstep
    exact inv_stop h.toSettled hr

/-- The freshly configured stepper: idle at `POSITION_BIAS`, with the step pin at its idle
    level and the driver as `config_stepper` describes it. -/
theorem inv_configMachine (b : Build) (edgeStepTicks invertStep stepPulseTicks : UInt32) :
    Inv b (configMachine b edgeStepTicks invertStep stepPulseTicks) := by
  have hcfg : Config b (configMachine b edgeStepTicks invertStep stepPulseTicks).driver
      (configMachine b edgeStepTicks invertStep stepPulseTicks).stepper.flags := by
    -- the build decides which flags `config_stepper` sets
    cases b <;> refine ⟨rfl, fun ho => ?_, fun ho => ?_⟩ <;>
      simp only [configMachine, commandConfigStepper] at ho ⊢ <;>
      (try split_ifs at ho ⊢) <;> simp_all [Build.haveOptimizedPath]
  have hcount : (configMachine b edgeStepTicks invertStep stepPulseTicks).stepper.count = 0 := rfl
  refine ⟨⟨hcfg, ?_, fun _ => rfl, by simp [configMachine, commandConfigStepper],
    fun _ => iff_of_false (fun h => h rfl) (by simp [hcount]), fun _ _ => rfl,
    fun _ => by simp [hcount]⟩, by simp [configMachine, commandConfigStepper]⟩
  show -positionBias - _ = encode false 0
  rw [remaining_of_count_eq_zero hcount]
  decide

/-- The report of `stepper_get_position` minus `POSITION_BIAS`, read as `%i`. -/
theorem stepperPositionReport_of_encoded {s : Stepper} {dir : Bool} {n : Int}
    (h : s.position - remaining s = encode dir n) (h1 : -2 ^ 30 < n) (h2 : n < 2 ^ 30) :
    (stepperPositionReport s).toBitVec.toInt = n := by
  have hg := stepperGetPosition_of_encoded h h1 h2
  have hb : positionBias.toNat = 0x40000000 := rfl
  rw [stepperPositionReport, BitVec.toInt_eq_toNat_cond, UInt32.toNat_toBitVec, UInt32.toNat_sub,
    hb]
  split_ifs <;> omega

/-- **The run lemma.**  Every state reached from `config_stepper` along a run that stays in the
    decodable range keeps the invariant. -/
theorem inv_of_reachable {b : Build} {timerFromUs : UInt32 → UInt32}
    {edgeStepTicks invertStep stepPulseTicks : UInt32} {m : Machine}
    (h : Transition.Reachable
      (fun m => m = configMachine b edgeStepTicks invertStep stepPulseTicks ∧ InRange m)
      (Transition.within InRange (Transition.ofStep (Machine.step b timerFromUs))) m) :
    Inv b m ∧ InRange m := by
  refine Transition.Reachable.inv_within (fun m hm _ => ?_) (fun m m' hi hg hn hg' => ?_) h
  · rw [hm]
    exact inv_configMachine b edgeStepTicks invertStep stepPulseTicks
  · obtain ⟨a, ha⟩ := hn
    exact Machine.step_inv hi hg ha hg'

/-- Every run `Machine.runInRange` completes ends in a reachable state. -/
theorem Machine.reachable_runInRange {b : Build} {timerFromUs : UInt32 → UInt32}
    {init : Machine → Prop} {m m' : Machine}
    (h : Transition.Reachable init
      (Transition.within InRange (Transition.ofStep (Machine.step b timerFromUs))) m)
    (acts : List Act) (hrun : m.runInRange b timerFromUs acts = some m') :
    Transition.Reachable init
      (Transition.within InRange (Transition.ofStep (Machine.step b timerFromUs))) m' := by
  induction acts generalizing m with
  | nil => cases hrun; exact h
  | cons a acts ih =>
    simp only [Machine.runInRange] at hrun
    split at hrun
    · rename_i m₁ hstep
      split_ifs at hrun with hr
      exact ih (.step h ⟨⟨a, hstep⟩, hr⟩) hrun
    · cases hrun

/-- **Position bookkeeping.**  In every state reached from `config_stepper` by any interleaving
    of `queue_step`, `set_next_step_dir`, `reset_step_clock`, step events of the build's callback
    and `stepper_stop`, along a run whose net steps stay in `(-2^30, 2^30)`,
    `stepper_get_position` minus `POSITION_BIAS` is the net number of steps the driver took:
    as a number, and as the `%i` that `stepper_get_position` reports. -/
theorem stepperGetPosition_sub_positionBias (b : Build) (timerFromUs : UInt32 → UInt32)
    (edgeStepTicks invertStep stepPulseTicks : UInt32) {m : Machine}
    (h : Transition.Reachable
      (fun m => m = configMachine b edgeStepTicks invertStep stepPulseTicks ∧ InRange m)
      (Transition.within InRange (Transition.ofStep (Machine.step b timerFromUs))) m) :
    ((stepperGetPosition m.stepper).toNat : Int) - positionBias.toNat = m.pins.steps ∧
      (stepperPositionReport m.stepper).toBitVec.toInt = m.pins.steps := by
  obtain ⟨hinv, hr⟩ := inv_of_reachable h
  have hb : positionBias.toNat = 0x40000000 := rfl
  refine ⟨?_, stepperPositionReport_of_encoded hinv.encoded hr.1 hr.2⟩
  rw [stepperGetPosition_of_encoded hinv.encoded hr.1 hr.2, hb]
  omega

/-- A three-step move on the full path, stopped between its second and third step: the step
    pin is high, half of the count is left, and the MCU reports the two steps taken. -/
theorem stepperGetPosition_sub_positionBias_midMove :
    let m := ((configMachine .generic 0 0 0).runInRange .generic id
      [.setNextStepDir 1, .resetStepClock 1000, .queueStep true 0 900 100 3 0 0, .event 1100,
        .event 1100, .event 1200]).getD (configMachine .generic 0 0 0)
    m.pins.steps = 2 ∧ m.stepper.count = 3 ∧
      ((stepperGetPosition m.stepper).toNat : Int) - positionBias.toNat = m.pins.steps ∧
      (stepperPositionReport m.stepper).toBitVec.toInt = m.pins.steps := by
  intro m
  have hrun : (configMachine .generic 0 0 0).runInRange .generic id
      [.setNextStepDir 1, .resetStepClock 1000, .queueStep true 0 900 100 3 0 0, .event 1100,
        .event 1100, .event 1200] = some m := rfl
  exact ⟨rfl, rfl, stepperGetPosition_sub_positionBias .generic id 0 0 0
    (Machine.reachable_runInRange (.init ⟨rfl, by simp [InRange, configMachine]⟩) _ hrun)⟩

end Klipper.Stepper
