import Klipper.Mcu.Board

/-
  Endstop homing with oversampling (`src/endstop.c`).

  `command_endstop_home` arms an endstop's timer at `clock` with a target pin value, a sample
  count `N`, and two spacings: `rest_ticks` between checks and `sample_ticks` between the
  samples of a run.  The timer alternates between two callbacks.  `endstop_event` checks the
  pin; on a match it remembers when the next check would be (`nextwake`), switches to
  `endstop_oversample_event` and calls it at once, which counts that reading as the first of
  the run.  `endstop_oversample_event` counts matching readings down from `N` in the 8-bit
  `trigger_count`, calls `trsync_do_trigger` when the count would reach zero, and on a
  mismatch resets the count to `N` and hands the timer back to `endstop_event` at `nextwake`.

  The pin is read once per timer event: the pin level an event sees is an input of the model,
  and the tail call of `endstop_event` reads the same level.  A run of the timer on a list of
  levels is `endstopRun`; `oversampleSpec` is what it should do, in terms of the number of
  matching readings in the current run and the time of the check that began it.  The two
  agree (`endstopRun_eq_oversampleSpec`), and the trigger comes exactly at the events that
  complete `N` matching readings in a row (`oversampleSpec_trigger`).
-/

namespace Klipper.Homing

/-- The callback the endstop's timer runs: `time.func`. -/
inductive EndstopFunc
  | endstopEvent
  | endstopOversampleEvent
deriving DecidableEq, Repr

/-- `ESF_PIN_HIGH` -/
def esfPinHigh : UInt8 := 1
/-- `ESF_HOMING` -/
def esfHoming : UInt8 := 2

/-- The `struct endstop` fields the callbacks and `command_endstop_home` use (the pin is an
    input, `ts` the trsync oid). -/
structure Endstop where
  waketime : UInt32
  func : EndstopFunc
  restTime : UInt32
  sampleTime : UInt32
  nextwake : UInt32
  ts : Option UInt8
  flags : UInt8
  sampleCount : UInt8
  triggerCount : UInt8
  triggerReason : UInt8
deriving DecidableEq, Repr

/-- The callbacks' test `(val ? ~e->flags : e->flags) & ESF_PIN_HIGH`: nonzero when the pin
    does not show the target value. -/
def pinMismatch (flags : UInt8) (val : Bool) : Bool :=
  ((if val then ~~~flags else flags) &&& esfPinHigh) != 0

/-! ## The callbacks -/

/-- `endstop_oversample_event` on the pin level `val`: the new endstop, the callback's result
    and the reason passed to `trsync_do_trigger`, if it was called. -/
def endstopOversampleEvent (e : Endstop) (val : Bool) : Endstop × SchedResult × Option UInt8 :=
  if pinMismatch e.flags val then
    ({ e with func := .endstopEvent, waketime := e.nextwake, triggerCount := e.sampleCount },
      .reschedule, none)
  else
    let count := e.triggerCount - 1
    if count = 0 then (e, .done, some e.triggerReason)
    else ({ e with triggerCount := count, waketime := e.waketime + e.sampleTime }, .reschedule, none)

/-- `endstop_event` on the pin level `val`; a match goes on in `endstop_oversample_event`, which
    reads the same level. -/
def endstopEvent (e : Endstop) (val : Bool) : Endstop × SchedResult × Option UInt8 :=
  let nextwake := e.waketime + e.restTime
  if pinMismatch e.flags val then ({ e with waketime := nextwake }, .reschedule, none)
  else endstopOversampleEvent { e with nextwake := nextwake, func := .endstopOversampleEvent } val

/-- The timer event: the callback in `time.func`. -/
def timerEvent (e : Endstop) (val : Bool) : Endstop × SchedResult × Option UInt8 :=
  match e.func with
  | .endstopEvent => endstopEvent e val
  | .endstopOversampleEvent => endstopOversampleEvent e val

/-- `command_endstop_home oid clock sample_ticks sample_count rest_ticks pin_value trsync_oid
    trigger_reason`: the endstop, and whether its timer was added (`sched_add_timer`).  A
    sample count of zero disables the endstop. -/
def commandEndstopHome (e : Endstop) (clock sampleTicks : UInt32) (sampleCount : UInt8)
    (restTicks : UInt32) (pinValue : Bool) (trsyncOid triggerReason : UInt8) : Endstop × Bool :=
  let e := { e with waketime := clock, sampleTime := sampleTicks, sampleCount := sampleCount }
  if sampleCount = 0 then ({ e with ts := none, flags := 0 }, false)
  else
    ({ e with restTime := restTicks, func := .endstopEvent, triggerCount := sampleCount,
              flags := esfHoming ||| (if pinValue then esfPinHigh else 0), ts := some trsyncOid,
              triggerReason := triggerReason }, true)

/-- The events of the armed timer on the pin levels `vals`, one per event, until a callback
    returns `SF_DONE`: each event's waketime and the trigger reason it passed on, if any. -/
def endstopRun (e : Endstop) : List Bool → List (UInt32 × Option UInt8)
  | [] => []
  | val :: vals =>
    let r := timerEvent e val
    (e.waketime, r.2.2) :: match r.2.1 with
      | .done => []
      | .reschedule => endstopRun r.1 vals

/-! ## What homing should do -/

/-- The homing the endstop implements: `run` matching readings so far in the current run,
    which began with the check at `check`; the next event is at `time`.  A match that makes `N`
    triggers and ends the run; a mismatch goes back to checking, `rest` after the check that
    began the run.  With no run under way (`run = 0`) the next event is the check itself. -/
def oversampleSpec (N : Nat) (v : Bool) (reason : UInt8) (rest sample : UInt32) :
    Nat → UInt32 → UInt32 → List Bool → List (UInt32 × Option UInt8)
  | _, _, _, [] => []
  | run, check, time, r :: rs =>
    if r = v then
      if run + 1 = N then [(time, some reason)]
      else (time, none) :: oversampleSpec N v reason rest sample (run + 1) check (time + sample) rs
    else (time, none) :: oversampleSpec N v reason rest sample 0 (check + rest) (check + rest) rs

/-- The number of readings equal to `v` at the end of `l`. -/
def trailingRun (v : Bool) (l : List Bool) : Nat :=
  (l.reverse.takeWhile (· = v)).length

theorem pinMismatch_homing (v val : Bool) :
    pinMismatch (esfHoming ||| (if v then esfPinHigh else 0)) val = (val != v) := by
  cases v <;> cases val <;> decide

/-! ## The armed timer simulates the specification -/

section Spec

variable {N : Nat} {v : Bool} {reason : UInt8} {rest sample : UInt32}

/-- The fields homing does not change: the sample count `N`, the target value `v`, the reason,
    and the two spacings. -/
structure Homes (N : Nat) (v : Bool) (reason : UInt8) (rest sample : UInt32) (e : Endstop) :
    Prop where
  sampleCount : e.sampleCount.toNat = N
  flags : e.flags = esfHoming ||| (if v then esfPinHigh else 0)
  reason : e.triggerReason = reason
  restTime : e.restTime = rest
  sampleTime : e.sampleTime = sample

/-- An endstop homing towards `v` with `N` samples, `run` matching readings into the current
    run, which began with the check at `check`.  While checking, the count is back at `N` and the
    check is the next event; while sampling, the count is `N - run` and `nextwake` is `rest`
    after the run's check. -/
structure Armed (N : Nat) (v : Bool) (reason : UInt8) (rest sample : UInt32) (run : Nat)
    (check : UInt32) (e : Endstop) : Prop where
  homes : Homes N v reason rest sample e
  run_lt : run < N
  checking : run = 0 → e.func = .endstopEvent ∧ e.triggerCount = e.sampleCount ∧ check = e.waketime
  sampling : 0 < run →
    e.func = .endstopOversampleEvent ∧ e.triggerCount.toNat = N - run ∧ e.nextwake = check + rest

/-- Homing's fields are those of the endstop; updates of the other fields keep them. -/
theorem Homes.congr {e e' : Endstop} (h : Homes N v reason rest sample e)
    (h1 : e'.sampleCount = e.sampleCount) (h2 : e'.flags = e.flags)
    (h3 : e'.triggerReason = e.triggerReason) (h4 : e'.restTime = e.restTime)
    (h5 : e'.sampleTime = e.sampleTime) : Homes N v reason rest sample e' :=
  ⟨h1 ▸ h.sampleCount, h2 ▸ h.flags, h3 ▸ h.reason, h4 ▸ h.restTime, h5 ▸ h.sampleTime⟩

theorem Homes.pinMismatch {e : Endstop} (h : Homes N v reason rest sample e) (val : Bool) :
    Klipper.Homing.pinMismatch e.flags val = (val != v) := by
  rw [h.flags, pinMismatch_homing]

/-- **A matching reading in `endstop_oversample_event`**, `run` readings into a run: the `N`th
    triggers with the armed reason, an earlier one is counted and the next sample is
    `sample` later. -/
theorem Homes.oversample_match {run : Nat} {check : UInt32} {e : Endstop}
    (h : Homes N v reason rest sample e) (hrun : run < N) (htc : e.triggerCount.toNat = N - run)
    (hnext : e.nextwake = check + rest) (hfunc : e.func = .endstopOversampleEvent) {val : Bool}
    (hv : val = v) :
    let r := endstopOversampleEvent e val
    if run + 1 = N then r.2 = (.done, some reason)
    else r.2 = (.reschedule, none) ∧ r.1.waketime = e.waketime + sample ∧
      Armed N v reason rest sample (run + 1) check r.1 := by
  have hm : Klipper.Homing.pinMismatch e.flags val = false := by rw [h.pinMismatch, hv]; simp
  -- the count after the decrement, `N - run - 1`, is zero exactly at the `N`th match
  have hsub : (e.triggerCount - 1).toNat = N - run - 1 := by
    rw [UInt8.toNat_sub_of_le _ _ (by rw [UInt8.le_iff_toNat_le, htc]; simp; omega), htc]
    simp
  have hz : e.triggerCount - 1 = 0 ↔ run + 1 = N := by
    rw [← UInt8.toNat_inj, hsub]
    simp
    omega
  by_cases hN : run + 1 = N
  · have hr : endstopOversampleEvent e val = (e, .done, some e.triggerReason) := by
      simp only [endstopOversampleEvent, hm, Bool.false_eq_true, if_false, if_pos (hz.mpr hN)]
    simp only [if_pos hN, hr, h.reason]
  · have hr : endstopOversampleEvent e val =
        ({ e with triggerCount := e.triggerCount - 1, waketime := e.waketime + e.sampleTime },
          .reschedule, none) := by
      simp only [endstopOversampleEvent, hm, Bool.false_eq_true, if_false,
        if_neg (fun h0 => hN (hz.mp h0))]
    simp only [if_neg hN]
    rw [hr]
    refine ⟨rfl, by rw [h.sampleTime], ⟨h.congr rfl rfl rfl rfl rfl, by omega, by omega,
      fun _ => ⟨hfunc, ?_, hnext⟩⟩⟩
    show (e.triggerCount - 1).toNat = N - (run + 1)
    omega

/-- A check on a mismatching level: the next check is `rest` later. -/
theorem Armed.check_mismatch {check : UInt32} {e : Endstop}
    (h : Armed N v reason rest sample 0 check e) {val : Bool} (hv : val ≠ v) :
    let r := timerEvent e val
    r.2 = (.reschedule, none) ∧ r.1.waketime = check + rest ∧
      Armed N v reason rest sample 0 (check + rest) r.1 := by
  obtain ⟨hfunc, htc, hcheck⟩ := h.checking rfl
  have hm : Klipper.Homing.pinMismatch e.flags val = true := by
    rw [h.homes.pinMismatch]; simpa using hv
  have hr : timerEvent e val = ({ e with waketime := e.waketime + e.restTime }, .reschedule, none) := by
    simp only [Klipper.Homing.timerEvent, hfunc, endstopEvent, hm, if_true]
  have hw : e.waketime + e.restTime = check + rest := by rw [hcheck, h.homes.restTime]
  rw [hr]
  exact ⟨rfl, hw, ⟨h.homes.congr rfl rfl rfl rfl rfl, h.run_lt, fun _ => ⟨hfunc, htc, hw.symm⟩,
    by omega⟩⟩

/-- A check on a matching level: `endstop_event` counts it in `endstop_oversample_event`. -/
theorem Armed.check_match {check : UInt32} {e : Endstop}
    (h : Armed N v reason rest sample 0 check e) {val : Bool} (hv : val = v) :
    let r := timerEvent e val
    if 0 + 1 = N then r.2 = (.done, some reason)
    else r.2 = (.reschedule, none) ∧ r.1.waketime = e.waketime + sample ∧
      Armed N v reason rest sample 1 check r.1 := by
  obtain ⟨hfunc, htc, hcheck⟩ := h.checking rfl
  have hm : Klipper.Homing.pinMismatch e.flags val = false := by rw [h.homes.pinMismatch, hv]; simp
  have hr : timerEvent e val = endstopOversampleEvent
      { e with nextwake := e.waketime + e.restTime, func := .endstopOversampleEvent } val := by
    simp only [Klipper.Homing.timerEvent, hfunc, endstopEvent, hm, Bool.false_eq_true, if_false]
  rw [hr]
  exact @Homes.oversample_match N v reason rest sample 0 check
    { e with nextwake := e.waketime + e.restTime, func := .endstopOversampleEvent }
    (h.homes.congr rfl rfl rfl rfl rfl) h.run_lt
    (by show e.triggerCount.toNat = N - 0; rw [htc, h.homes.sampleCount]; rfl)
    (by show e.waketime + e.restTime = check + rest; rw [hcheck, h.homes.restTime]) rfl val hv

/-- A sample on a mismatching level: back to checking at `nextwake`, with the count reset. -/
theorem Armed.sample_mismatch {run : Nat} {check : UInt32} {e : Endstop}
    (h : Armed N v reason rest sample run check e) (hrun : 0 < run) {val : Bool} (hv : val ≠ v) :
    let r := timerEvent e val
    r.2 = (.reschedule, none) ∧ r.1.waketime = check + rest ∧
      Armed N v reason rest sample 0 (check + rest) r.1 := by
  obtain ⟨hfunc, -, hnext⟩ := h.sampling hrun
  have hm : Klipper.Homing.pinMismatch e.flags val = true := by
    rw [h.homes.pinMismatch]; simpa using hv
  have hr : timerEvent e val =
      ({ e with func := .endstopEvent, waketime := e.nextwake, triggerCount := e.sampleCount },
        .reschedule, none) := by
    simp only [Klipper.Homing.timerEvent, hfunc, endstopOversampleEvent, hm, if_true]
  rw [hr]
  exact ⟨rfl, hnext, ⟨h.homes.congr rfl rfl rfl rfl rfl, by have := h.run_lt; omega,
    fun _ => ⟨rfl, rfl, hnext.symm⟩, by omega⟩⟩

/-- A sample on a matching level. -/
theorem Armed.sample_match {run : Nat} {check : UInt32} {e : Endstop}
    (h : Armed N v reason rest sample run check e) (hrun : 0 < run) {val : Bool} (hv : val = v) :
    let r := timerEvent e val
    if run + 1 = N then r.2 = (.done, some reason)
    else r.2 = (.reschedule, none) ∧ r.1.waketime = e.waketime + sample ∧
      Armed N v reason rest sample (run + 1) check r.1 := by
  obtain ⟨hfunc, htc, hnext⟩ := h.sampling hrun
  have hr : timerEvent e val = endstopOversampleEvent e val := by
    simp only [Klipper.Homing.timerEvent, hfunc]
  rw [hr]
  exact h.homes.oversample_match h.run_lt htc hnext hfunc hv

/-- **A matching reading**, at a check or a sample. -/
theorem Armed.timerEvent_match {run : Nat} {check : UInt32} {e : Endstop}
    (h : Armed N v reason rest sample run check e) {val : Bool} (hv : val = v) :
    let r := timerEvent e val
    if run + 1 = N then r.2 = (.done, some reason)
    else r.2 = (.reschedule, none) ∧ r.1.waketime = e.waketime + sample ∧
      Armed N v reason rest sample (run + 1) check r.1 := by
  rcases Nat.eq_zero_or_pos run with rfl | hrun
  · exact h.check_match hv
  · exact h.sample_match hrun hv

/-- **A mismatching reading**, at a check or a sample: back to checking, `rest` after the check
    that began the run. -/
theorem Armed.timerEvent_mismatch {run : Nat} {check : UInt32} {e : Endstop}
    (h : Armed N v reason rest sample run check e) {val : Bool} (hv : val ≠ v) :
    let r := timerEvent e val
    r.2 = (.reschedule, none) ∧ r.1.waketime = check + rest ∧
      Armed N v reason rest sample 0 (check + rest) r.1 := by
  rcases Nat.eq_zero_or_pos run with rfl | hrun
  · exact h.check_mismatch hv
  · exact h.sample_mismatch hrun hv

/-- **The armed timer runs the specification**: on any pin levels, its events and triggers are
    those of `oversampleSpec` from the state it is in.  Induction on the levels, one step lemma
    per reading. -/
theorem Armed.endstopRun_eq {run : Nat} {check : UInt32} {e : Endstop}
    (h : Armed N v reason rest sample run check e) (vals : List Bool) :
    endstopRun e vals = oversampleSpec N v reason rest sample run check e.waketime vals := by
  induction vals generalizing run check e with
  | nil => rfl
  | cons val vals ih =>
    rw [endstopRun, oversampleSpec]
    by_cases hv : val = v
    · have hs := h.timerEvent_match hv
      rw [if_pos hv]
      by_cases hN : run + 1 = N
      · simp only [if_pos hN] at hs ⊢
        rw [hs]
      · simp only [if_neg hN] at hs ⊢
        obtain ⟨hr, hw, h'⟩ := hs
        rw [hr, ih h', hw]
    · obtain ⟨hr, hw, h'⟩ := h.timerEvent_mismatch hv
      rw [if_neg hv, hr, ih h', hw]

/-! ## What the specification does

  `pre` is the history of readings before the specification's first one; its trailing run of
  `v` is the run under way. -/

theorem trailingRun_concat (v r : Bool) (l : List Bool) :
    trailingRun v (l ++ [r]) = if r = v then trailingRun v l + 1 else 0 := by
  by_cases hr : r = v <;> simp [trailingRun, hr]

/-- An event triggers exactly when its reading completes `N` readings of `v` in a row. -/
theorem oversampleSpec_trigger {run : Nat} {check time : UInt32} {pre : List Bool}
    (hpre : trailingRun v pre = run) (hrun : run < N) (rs : List Bool) (i : Nat)
    (hi : i < (oversampleSpec N v reason rest sample run check time rs).length) :
    (oversampleSpec N v reason rest sample run check time rs)[i].2 =
      if N ≤ trailingRun v (pre ++ rs.take (i + 1)) then some reason else none := by
  induction rs generalizing run check time pre i with
  | nil => simp [oversampleSpec] at hi
  | cons r rs ih =>
    have hnext := trailingRun_concat v r pre
    rw [hpre] at hnext
    by_cases hv : r = v
    · rw [if_pos hv] at hnext
      by_cases hN : run + 1 = N
      · -- the `N`th reading: the only event left
        simp only [oversampleSpec, if_pos hv, if_pos hN, List.length_singleton] at hi ⊢
        obtain rfl : i = 0 := by omega
        simp [hnext, hN]
      · simp only [oversampleSpec, if_pos hv, if_neg hN] at hi ⊢
        cases i with
        | zero => simp [hnext]; omega
        | succ j =>
          rw [List.getElem_cons_succ, ih hnext (by omega) j]
          simp only [List.take_succ_cons, List.append_assoc, List.singleton_append]
          rfl
    · rw [if_neg hv] at hnext
      simp only [oversampleSpec, if_neg hv] at hi ⊢
      cases i with
      | zero => simp [hnext]; omega
      | succ j =>
        rw [List.getElem_cons_succ, ih hnext (by omega) j]
        simp only [List.take_succ_cons, List.append_assoc, List.singleton_append]
        rfl

/-- Only the last event can trigger: the timer stops at a trigger. -/
theorem oversampleSpec_getElem_none {run : Nat} {check time : UInt32} (rs : List Bool) (i : Nat)
    (hi : i + 1 < (oversampleSpec N v reason rest sample run check time rs).length) :
    (oversampleSpec N v reason rest sample run check time rs)[i].2 = none := by
  induction rs generalizing run check time i with
  | nil => simp [oversampleSpec] at hi
  | cons r rs ih =>
    by_cases hv : r = v
    · by_cases hN : run + 1 = N
      · simp [oversampleSpec, hv, hN] at hi
      · simp only [oversampleSpec, if_pos hv, if_neg hN, List.length_cons] at hi ⊢
        cases i with
        | zero => rfl
        | succ j => rw [List.getElem_cons_succ, ih j (by omega)]
    · simp only [oversampleSpec, if_neg hv, List.length_cons] at hi ⊢
      cases i with
      | zero => rfl
      | succ j => rw [List.getElem_cons_succ, ih j (by omega)]

/-- The timer stops early only at a completed run. -/
theorem oversampleSpec_length {run : Nat} {check time : UInt32} {pre : List Bool}
    (hpre : trailingRun v pre = run) (rs : List Bool) :
    let L := (oversampleSpec N v reason rest sample run check time rs).length
    L = rs.length ∨ (0 < L ∧ N ≤ trailingRun v (pre ++ rs.take L)) := by
  induction rs generalizing run check time pre with
  | nil => simp [oversampleSpec]
  | cons r rs ih =>
    have hnext := trailingRun_concat v r pre
    rw [hpre] at hnext
    by_cases hv : r = v
    · rw [if_pos hv] at hnext
      by_cases hN : run + 1 = N
      · simp only [oversampleSpec, if_pos hv, if_pos hN, List.length_singleton,
          List.take_succ_cons, List.take_zero]
        exact Or.inr ⟨Nat.one_pos, by rw [hnext, hN]⟩
      · simp only [oversampleSpec, if_pos hv, if_neg hN, List.length_cons, List.take_succ_cons]
        rcases ih hnext with h | ⟨_, h⟩
        · exact Or.inl (by rw [h])
        · exact Or.inr ⟨by omega, by rwa [List.append_assoc, List.singleton_append] at h⟩
    · rw [if_neg hv] at hnext
      simp only [oversampleSpec, if_neg hv, List.length_cons, List.take_succ_cons]
      rcases ih hnext with h | ⟨_, h⟩
      · exact Or.inl (by rw [h])
      · exact Or.inr ⟨by omega, by rwa [List.append_assoc, List.singleton_append] at h⟩

end Spec

/-! ## Homing from `command_endstop_home` -/

/-- `command_endstop_home` with a nonzero sample count adds the timer, checking at `clock`. -/
theorem commandEndstopHome_armed (e : Endstop) (clock sampleTicks restTicks : UInt32)
    (sampleCount : UInt8) (v : Bool) (trsyncOid reason : UInt8) (hN : sampleCount ≠ 0) :
    let home := commandEndstopHome e clock sampleTicks sampleCount restTicks v trsyncOid reason
    home.2 = true ∧ Armed sampleCount.toNat v reason restTicks sampleTicks 0 clock home.1 := by
  have hpos : 0 < sampleCount.toNat := Nat.pos_of_ne_zero (fun h0 => hN (UInt8.toNat_inj.mp h0))
  dsimp only [commandEndstopHome]
  rw [if_neg hN]
  exact ⟨rfl, ⟨⟨rfl, rfl, rfl, rfl, rfl⟩, hpos, fun _ => ⟨rfl, rfl, rfl⟩,
    fun h0 => absurd h0 (Nat.lt_irrefl 0)⟩⟩

/-- **Endstop oversampling.**  After `command_endstop_home` with a nonzero sample count `N` and
    target value `v`, on any pin levels read at the timer's successive events:
    the events are those of `oversampleSpec` from a check at `clock`;
    an event passes the reason to `trsync_do_trigger` exactly when its reading completes `N`
    readings of `v` in a row;
    no event before the last completes such a run, and the events stop before the readings run
    out only at one that does;
    and from any armed state a mismatching reading goes back to `endstop_event`, at the
    `rest_ticks` after the check that began the run, with the count back at `N`. -/
theorem endstop_oversampling (e : Endstop) (clock sampleTicks restTicks : UInt32)
    (sampleCount : UInt8) (v : Bool) (trsyncOid reason : UInt8) (hN : sampleCount ≠ 0)
    (vals : List Bool) :
    let N := sampleCount.toNat
    let home := commandEndstopHome e clock sampleTicks sampleCount restTicks v trsyncOid reason
    let evs := endstopRun home.1 vals
    home.2 = true ∧
    evs = oversampleSpec N v reason restTicks sampleTicks 0 clock clock vals ∧
    (∀ i (hi : i < evs.length),
      evs[i].2 = if N ≤ trailingRun v (vals.take (i + 1)) then some reason else none) ∧
    (∀ i, i + 1 < evs.length → trailingRun v (vals.take (i + 1)) < N) ∧
    (evs.length = vals.length ∨ (0 < evs.length ∧ N ≤ trailingRun v (vals.take evs.length))) ∧
    (∀ run check e', Armed N v reason restTicks sampleTicks run check e' → ∀ val, val ≠ v →
      (timerEvent e' val).1.waketime = check + restTicks ∧
      (timerEvent e' val).1.func = .endstopEvent ∧
      (timerEvent e' val).1.triggerCount = sampleCount) := by
  intro N home evs
  obtain ⟨hadd, harmed⟩ := commandEndstopHome_armed e clock sampleTicks restTicks sampleCount v
    trsyncOid reason hN
  -- the run from the home is the specification from a check at `clock`, with no history
  have hevs : evs = oversampleSpec N v reason restTicks sampleTicks 0 clock clock vals := by
    have h := harmed.endstopRun_eq vals
    rwa [← (harmed.checking rfl).2.2] at h
  have hpre : trailingRun v [] = 0 := rfl
  have htrig := @oversampleSpec_trigger N v reason restTicks sampleTicks 0 clock clock [] hpre
    harmed.run_lt vals
  refine ⟨hadd, hevs, ?_, ?_, ?_, ?_⟩
  · intro i hi
    simp only [hevs] at hi ⊢
    exact htrig i hi
  · intro i hi
    simp only [hevs] at hi
    have hnone := oversampleSpec_getElem_none vals i hi
    rw [htrig i (by omega)] at hnone
    simpa using hnone
  · simpa [hevs] using @oversampleSpec_length N v reason restTicks sampleTicks 0 clock clock [] hpre vals
  · intro run check e' h' val hv
    obtain ⟨-, hw, h0⟩ := h'.timerEvent_mismatch hv
    obtain ⟨hfunc, htc, -⟩ := h0.checking rfl
    exact ⟨hw, hfunc, htc.trans (UInt8.toNat_inj.mp (h0.homes.sampleCount))⟩

/-- Three samples ten ticks apart, checks a hundred ticks apart: the run broken at its third
    reading starts again at the next check, 1100, and the second run triggers at 1120; the last
    reading is never taken. -/
theorem endstop_oversampling_three :
    endstopRun (commandEndstopHome ⟨0, .endstopEvent, 0, 0, 0, none, 0, 0, 0, 0⟩ 1000 10 3 100
      true 0 5).1 [true, true, false, true, true, true, false] =
      [(1000, none), (1010, none), (1020, none), (1100, none), (1110, none), (1120, some 5)] := by
  obtain ⟨-, h, -⟩ := endstop_oversampling ⟨0, .endstopEvent, 0, 0, 0, none, 0, 0, 0, 0⟩ 1000 10
    100 3 true 0 5 (by decide) [true, true, false, true, true, true, false]
  rw [h]
  decide


end Klipper.Homing
