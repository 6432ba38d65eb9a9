import Mathlib.Logic.Function.Basic
import Klipper.Lib.Transducer

/-
  Synchronized trigger dispatch (`src/trsync.c`).

  A trsync is armed by `command_trsync_start`, which first clears it (`trsync_clear`: timers
  off, every registered signal detached, flags and reasons zero) and then sets
  `TSF_CAN_TRIGGER`.  Steppers register signals on it (`trsync_add_signal`, a push onto the
  intrusive list `ts->signals`), and endstops, the expire timer and `command_trsync_trigger`
  call `trsync_do_trigger`.  The first call that finds `TSF_CAN_TRIGGER` set records its reason,
  clears the flag, sets `TSF_REPORT`, and detaches and calls every signal; later calls do
  nothing.  Reports (`trsync_state`) are sent by `trsync_task` when `TSF_REPORT` is set and by
  `command_trsync_trigger`.

  Every operation runs with interrupts off, so a run of the trsync is a sequence of whole
  operations: `TrsyncAct` lists them, and `trsyncStep` performs one, returning the signal calls
  and reports it makes.  The callbacks (`stepper_stop`) do not touch the trsync.  The linked
  list is the list of nodes it links, head first; `func` is every node's `tss->func`.

  What a trsync is for is the `Arming` machine: armed with the signals registered so far, or
  fired with a reason.  The trsync refines it (`trsyncStep_refines`), and what one arming does
  follows from it (`Arming.run_armed_trigger`).

  The MCU around a trsync (`TrsyncMcu`) adds the shutdown gate: while the scheduler is shut down
  only the tasks and further shutdowns run, until `command_clear_shutdown`.  Each of its steps is
  an operation of the trsync or none (`trsyncMcuStep_ts`).
-/

namespace Klipper.Homing

open Function Transducer

/-- `TSF_CAN_TRIGGER` -/
def tsfCanTrigger : UInt8 := 1
/-- `TSF_REPORT` -/
def tsfReport : UInt8 := 4

variable {σ κ : Type} [DecidableEq σ]

/-- The `struct trsync` of one oid, with the `func` field of every signal node `σ`; `κ` names
    the callbacks.  The two timers are their waketimes and whether they are on the timer list. -/
structure Trsync (σ κ : Type) where
  reportWaketime : UInt32
  reportTicks : UInt32
  reportArmed : Bool
  expireWaketime : UInt32
  expireArmed : Bool
  signals : List σ
  func : σ → Option κ
  flags : UInt8
  triggerReason : UInt8
  expireReason : UInt8

/-- What a trsync does that can be seen: a signal's callback called with a reason, and a
    `trsync_state oid can_trigger trigger_reason clock` report. -/
inductive TrsyncOut (σ κ : Type)
  | signal (tss : σ) (func : κ) (reason : UInt8)
  | trsyncState (canTrigger : Bool) (triggerReason : UInt8) (clock : UInt32)
deriving DecidableEq, Repr

/-- `command_config_trsync`: `oid_alloc` zeroes the struct. -/
def commandConfigTrsync : Trsync σ κ :=
  ⟨0, 0, false, 0, false, [], fun _ => none, 0, 0, 0⟩

/-- `trsync_report`: the report of a trsync with flags `flags`. -/
def trsyncReport (flags reason : UInt8) (clock : UInt32) : TrsyncOut σ κ :=
  .trsyncState (flags &&& tsfCanTrigger != 0) reason clock

/-! ## The operations of `trsync.c` -/

/-- The loop of `trsync_do_trigger`: detach the head signal, clear its `func`, and call it. -/
def dispatchSignals (reason : UInt8) : List σ → (σ → Option κ) → (σ → Option κ) × List (TrsyncOut σ κ)
  | [], func => (func, [])
  | tss :: rest, func =>
    let r := dispatchSignals reason rest (update func tss none)
    (r.1, ((func tss).map fun f => TrsyncOut.signal tss f reason).toList ++ r.2)

/-- `trsync_do_trigger(ts, reason)` -/
def trsyncDoTrigger (ts : Trsync σ κ) (reason : UInt8) : Trsync σ κ × List (TrsyncOut σ κ) :=
  let flags := ts.flags
  if flags &&& tsfCanTrigger = 0 then (ts, [])
  else
    let d := dispatchSignals reason ts.signals ts.func
    ({ ts with triggerReason := reason, flags := (flags &&& ~~~tsfCanTrigger) ||| tsfReport,
               signals := [], func := d.1 }, d.2)

/-- `trsync_expire_event`: trigger with the expire reason; `SF_DONE`. -/
def trsyncExpireEvent (ts : Trsync σ κ) : Trsync σ κ × List (TrsyncOut σ κ) :=
  let r := trsyncDoTrigger ts ts.expireReason
  ({ r.1 with expireArmed := false }, r.2)

/-- `trsync_report_event`: ask for a report; `SF_RESCHEDULE` `report_ticks` later. -/
def trsyncReportEvent (ts : Trsync σ κ) : Trsync σ κ :=
  { ts with flags := ts.flags ||| tsfReport, reportWaketime := ts.reportWaketime + ts.reportTicks }

/-- `trsync_add_signal(ts, tss, func)`: push `tss` onto the list; a node already active, or a
    NULL callback, shuts down. -/
def trsyncAddSignal (ts : Trsync σ κ) (tss : σ) (func : Option κ) : Except String (Trsync σ κ) :=
  match ts.func tss, func with
  | none, some f => .ok { ts with func := update ts.func tss (some f), signals := tss :: ts.signals }
  | _, _ => .error "Can't add signal that is already active"

/-- The loop of `trsync_clear`: clear the `func` of every listed node. -/
def detachSignals : List σ → (σ → Option κ) → (σ → Option κ)
  | [], func => func
  | tss :: rest, func => detachSignals rest (update func tss none)

/-- `trsync_clear`: both timers off, every signal detached, flags and reasons zero. -/
def trsyncClear (ts : Trsync σ κ) : Trsync σ κ :=
  { ts with reportArmed := false, expireArmed := false, func := detachSignals ts.signals ts.func,
            signals := [], flags := 0, triggerReason := 0, expireReason := 0 }

/-- `command_trsync_start oid report_clock report_ticks expire_reason` -/
def commandTrsyncStart (ts : Trsync σ κ) (reportClock reportTicks : UInt32) (expireReason : UInt8) :
    Trsync σ κ :=
  let ts := trsyncClear ts
  { ts with flags := tsfCanTrigger, reportWaketime := reportClock, reportTicks := reportTicks,
            reportArmed := reportTicks != 0, expireReason := expireReason }

/-- `command_trsync_set_timeout oid clock`: only while the trsync can trigger. -/
def commandTrsyncSetTimeout (ts : Trsync σ κ) (clock : UInt32) : Trsync σ κ :=
  if ts.flags &&& tsfCanTrigger = 0 then ts
  else { ts with expireWaketime := clock, expireArmed := true }

/-- `command_trsync_trigger oid reason`: trigger, stop both timers, clear the flags, and report
    the reason the trsync holds. -/
def commandTrsyncTrigger (ts : Trsync σ κ) (reason : UInt8) : Trsync σ κ × List (TrsyncOut σ κ) :=
  let r := trsyncDoTrigger ts reason
  ({ r.1 with reportArmed := false, expireArmed := false, flags := 0 },
    r.2 ++ [trsyncReport 0 r.1.triggerReason 0])

/-- `trsync_task` for this trsync, woken: report once per `TSF_REPORT`, at the time `now`. -/
def trsyncTask (ts : Trsync σ κ) (now : UInt32) : Trsync σ κ × List (TrsyncOut σ κ) :=
  if ts.flags &&& tsfReport = 0 then (ts, [])
  else ({ ts with flags := ts.flags &&& ~~~tsfReport }, [trsyncReport ts.flags ts.triggerReason now])

/-- The operations on a trsync: its three commands, a stepper's `stepper_stop_on_trigger`, a
    trigger from an endstop or sensor, its two timers, its task, and `trsync_shutdown`. -/
inductive TrsyncAct (σ κ : Type)
  | start (reportClock reportTicks : UInt32) (expireReason : UInt8)
  | setTimeout (clock : UInt32)
  | trigger (reason : UInt8)
  | addSignal (tss : σ) (func : Option κ)
  | doTrigger (reason : UInt8)
  | expireEvent
  | reportEvent
  | task (now : UInt32)
  | shutdown

/-- One operation.  A timer that is not on the timer list does not fire. -/
def trsyncStep (ts : Trsync σ κ) : TrsyncAct σ κ → Except String (Trsync σ κ × List (TrsyncOut σ κ))
  | .start reportClock reportTicks expireReason =>
    .ok (commandTrsyncStart ts reportClock reportTicks expireReason, [])
  | .setTimeout clock => .ok (commandTrsyncSetTimeout ts clock, [])
  | .trigger reason => .ok (commandTrsyncTrigger ts reason)
  | .addSignal tss func => (trsyncAddSignal ts tss func).map fun ts' => (ts', [])
  | .doTrigger reason => .ok (trsyncDoTrigger ts reason)
  | .expireEvent => .ok (if ts.expireArmed then trsyncExpireEvent ts else (ts, []))
  | .reportEvent => .ok (if ts.reportArmed then (trsyncReportEvent ts, []) else (ts, []))
  | .task now => .ok (trsyncTask ts now)
  | .shutdown => .ok (trsyncClear ts, [])

/-! ## What a trsync is for -/

/-- One arming of a trsync: armed, with the signals registered so far (newest first, each
    once), or fired, with the reason of the trigger. -/
inductive Arming (σ κ : Type)
  | armed (regs : List (σ × κ))
  | fired (reason : UInt8)

/-- What an arming is asked to do. -/
inductive ArmingAct (σ κ : Type)
  | arm
  | register (tss : σ) (func : κ)
  | trigger (reason : UInt8)
  | report
  | reset
deriving DecidableEq, Repr

/-- What an arming does that can be seen: a signal called with a reason, and a report. -/
inductive ArmingOut (σ κ : Type)
  | signal (tss : σ) (func : κ) (reason : UInt8)
  | report (canTrigger : Bool) (reason : UInt8)
deriving DecidableEq, Repr

/-- Register `tss` with `func`, unless it is registered already. -/
def register (regs : List (σ × κ)) (tss : σ) (func : κ) : List (σ × κ) :=
  if tss ∈ regs.map Prod.fst then regs else (tss, func) :: regs

/-- The calls of a trigger with `reason`, in the order of `regs`. -/
def calls (regs : List (σ × κ)) (reason : UInt8) : List (ArmingOut σ κ) :=
  regs.map fun p => .signal p.1 p.2 reason

/-- The arming machine: a trigger while armed calls every registered signal once with its
    reason; once fired, triggers and registrations do nothing and reports carry the reason. -/
def Arming.step : Arming σ κ → ArmingAct σ κ → Arming σ κ × List (ArmingOut σ κ)
  | _, .arm => (.armed [], [])
  | _, .reset => (.fired 0, [])
  | .armed regs, .register tss func => (.armed (register regs tss func), [])
  | .armed regs, .trigger reason => (.fired reason, calls regs reason)
  | .armed regs, .report => (.armed regs, [.report true 0])
  | .fired reason, .register _ _ => (.fired reason, [])
  | .fired reason, .trigger _ => (.fired reason, [])
  | .fired reason, .report => (.fired reason, [.report false reason])

@[simp] theorem Arming.step_arm (a : Arming σ κ) : Arming.step a .arm = (.armed [], []) := by
  cases a <;> rfl

@[simp] theorem Arming.step_reset (a : Arming σ κ) : Arming.step a .reset = (.fired 0, []) := by
  cases a <;> rfl

/-- A trigger. -/
def ArmingAct.isTrigger : ArmingAct σ κ → Bool
  | .trigger _ => true
  | _ => false

/-- An action that ends the arming. -/
def ArmingAct.rearms : ArmingAct σ κ → Bool
  | .arm => true
  | .reset => true
  | _ => false

/-- The signals registered onto `regs` by `αs`. -/
def registerAll (regs : List (σ × κ)) : List (ArmingAct σ κ) → List (σ × κ)
  | [] => regs
  | .register tss func :: αs => registerAll (register regs tss func) αs
  | _ :: αs => registerAll regs αs

/-- The reports of `αs`, each `canTrigger` and `reason`. -/
def reports (canTrigger : Bool) (reason : UInt8) : List (ArmingAct σ κ) → List (ArmingOut σ κ)
  | [] => []
  | .report :: αs => .report canTrigger reason :: reports canTrigger reason αs
  | _ :: αs => reports canTrigger reason αs

theorem register_nodup {regs : List (σ × κ)} (h : (regs.map Prod.fst).Nodup) (tss : σ)
    (func : κ) : ((register regs tss func).map Prod.fst).Nodup := by
  unfold register
  split
  · exact h
  · exact List.nodup_cons.mpr ⟨‹_›, h⟩

theorem registerAll_nodup (αs : List (ArmingAct σ κ)) {regs : List (σ × κ)}
    (h : (regs.map Prod.fst).Nodup) : ((registerAll regs αs).map Prod.fst).Nodup := by
  induction αs generalizing regs with
  | nil => exact h
  | cons β αs ih =>
    cases β with
    | register tss func => exact ih (register_nodup h tss func)
    | _ => exact ih h

/-- Once fired, an arming stays fired with its reason, and every report carries it. -/
theorem Arming.run_fired (reason : UInt8) (αs : List (ArmingAct σ κ))
    (h : ∀ β ∈ αs, β.rearms = false) :
    run Arming.step (.fired reason) αs = (.fired reason, reports false reason αs) := by
  induction αs with
  | nil => rfl
  | cons β αs ih =>
    have hβ := h β List.mem_cons_self
    have hrest := ih fun β' h' => h β' (List.mem_cons_of_mem β h')
    cases β <;> simp_all [Arming.step, reports, ArmingAct.rearms]

/-- Before any trigger, an arming only registers, and its reports say it can trigger. -/
theorem Arming.run_armed (regs : List (σ × κ)) (αs : List (ArmingAct σ κ))
    (h : ∀ β ∈ αs, β.rearms = false ∧ β.isTrigger = false) :
    run Arming.step (.armed regs) αs = (.armed (registerAll regs αs), reports true 0 αs) := by
  induction αs generalizing regs with
  | nil => rfl
  | cons β αs ih =>
    have hβ := h β List.mem_cons_self
    have hrest := fun regs => ih regs fun β' h' => h β' (List.mem_cons_of_mem β h')
    cases β <;> simp_all [Arming.step, reports, registerAll, ArmingAct.rearms, ArmingAct.isTrigger]

/-- **One arming.**  The first trigger calls every signal registered before it, once each, with
    its reason; the reports before it say the arming can trigger, those after it carry its
    reason. -/
theorem Arming.run_armed_trigger (regs : List (σ × κ)) (pre : List (ArmingAct σ κ))
    (reason : UInt8) (post : List (ArmingAct σ κ))
    (hpre : ∀ β ∈ pre, β.rearms = false ∧ β.isTrigger = false)
    (hpost : ∀ β ∈ post, β.rearms = false) :
    run Arming.step (.armed regs) (pre ++ .trigger reason :: post) =
      (.fired reason,
        reports true 0 pre ++ calls (registerAll regs pre) reason ++ reports false reason post) := by
  rw [run_append, Arming.run_armed regs pre hpre]
  simp [Arming.step, Arming.run_fired reason post hpost]

/-! ## The trsync refines its arming -/

/-- The listed signals with their callbacks. -/
def activeSignals (signals : List σ) (func : σ → Option κ) : List (σ × κ) :=
  signals.filterMap fun tss => (func tss).map fun f => (tss, f)

/-- The arming a trsync is in: armed, with its listed signals, while it can trigger; fired, with
    its reason, after. -/
def Trsync.arming (ts : Trsync σ κ) : Arming σ κ :=
  if ts.flags &&& tsfCanTrigger = 0 then .fired ts.triggerReason
  else .armed (activeSignals ts.signals ts.func)

/-- An output seen without the clock of a report. -/
def TrsyncOut.view : TrsyncOut σ κ → ArmingOut σ κ
  | .signal tss func reason => .signal tss func reason
  | .trsyncState canTrigger reason _ => .report canTrigger reason

/-- What an operation asks of the arming: every call of `trsync_do_trigger` is a trigger, and
    every report a report. -/
def armingActs (ts : Trsync σ κ) : TrsyncAct σ κ → List (ArmingAct σ κ)
  | .start _ _ _ => [.arm]
  | .setTimeout _ => []
  | .trigger reason => [.trigger reason, .report]
  | .addSignal tss (some func) => [.register tss func]
  | .addSignal _ none => []
  | .doTrigger reason => [.trigger reason]
  | .expireEvent => if ts.expireArmed then [.trigger ts.expireReason] else []
  | .reportEvent => []
  | .task _ => if ts.flags &&& tsfReport = 0 then [] else [.report]
  | .shutdown => [.reset]

/-- The operations that end an arming: the two that call `trsync_clear`. -/
def TrsyncAct.clears : TrsyncAct σ κ → Bool
  | .start _ _ _ => true
  | .shutdown => true
  | _ => false

/-- The listed signals are the active ones, each listed once, and a trsync that can trigger
    holds no reason. -/
structure Trsync.Inv (ts : Trsync σ κ) : Prop where
  nodup : ts.signals.Nodup
  active : ∀ tss, (ts.func tss).isSome ↔ tss ∈ ts.signals
  reason : ts.flags &&& tsfCanTrigger ≠ 0 → ts.triggerReason = 0

theorem canTrigger_fire (f : UInt8) :
    ((f &&& ~~~tsfCanTrigger) ||| tsfReport) &&& tsfCanTrigger = 0 := by
  rcases f with ⟨b⟩
  revert b
  decide

theorem canTrigger_setReport (f : UInt8) :
    (f ||| tsfReport) &&& tsfCanTrigger = f &&& tsfCanTrigger := by
  rcases f with ⟨b⟩
  revert b
  decide

theorem canTrigger_clearReport (f : UInt8) :
    (f &&& ~~~tsfReport) &&& tsfCanTrigger = f &&& tsfCanTrigger := by
  rcases f with ⟨b⟩
  revert b
  decide

theorem detachSignals_apply (signals : List σ) (func : σ → Option κ) (tss : σ) :
    detachSignals signals func tss = if tss ∈ signals then none else func tss := by
  induction signals generalizing func with
  | nil => simp [detachSignals]
  | cons t rest ih =>
    rw [detachSignals, ih]
    by_cases h : tss = t
    · simp [h]
    · simp [h]

theorem activeSignals_update_of_not_mem {signals : List σ} {tss : σ} (h : tss ∉ signals)
    (func : σ → Option κ) (v : Option κ) :
    activeSignals signals (update func tss v) = activeSignals signals func := by
  induction signals with
  | nil => rfl
  | cons t rest ih =>
    have ht : t ≠ tss := fun e => h (e ▸ List.mem_cons_self)
    have hrest := ih fun hm => h (List.mem_cons_of_mem t hm)
    simp only [activeSignals, List.filterMap_cons, update_of_ne ht] at hrest ⊢
    rw [hrest]

omit [DecidableEq σ] in
theorem map_fst_activeSignals {signals : List σ} {func : σ → Option κ}
    (h : ∀ tss ∈ signals, (func tss).isSome) : (activeSignals signals func).map Prod.fst = signals := by
  induction signals with
  | nil => rfl
  | cons t rest ih =>
    obtain ⟨f, hf⟩ := Option.isSome_iff_exists.mp (h t List.mem_cons_self)
    simp [activeSignals, hf] at ih ⊢
    exact ih fun t' ht' => h t' (List.mem_cons_of_mem t ht')

theorem activeSignals_cons_update {signals : List σ} {tss : σ} (h : tss ∉ signals)
    (func : σ → Option κ) (f : κ) :
    activeSignals (tss :: signals) (update func tss (some f)) = (tss, f) :: activeSignals signals func := by
  rw [← activeSignals_update_of_not_mem h func (some f)]
  simp [activeSignals]

/-- The dispatch loop leaves every node's `func` as the clearing loop does. -/
theorem dispatchSignals_fst (reason : UInt8) (signals : List σ) (func : σ → Option κ) :
    (dispatchSignals reason signals func).1 = detachSignals signals func := by
  induction signals generalizing func with
  | nil => rfl
  | cons t rest ih => exact ih _

/-- The dispatch loop calls each listed signal once, head first, with the reason. -/
theorem dispatchSignals_view (reason : UInt8) {signals : List σ} (h : signals.Nodup)
    (func : σ → Option κ) :
    (dispatchSignals reason signals func).2.map TrsyncOut.view =
      calls (activeSignals signals func) reason := by
  induction signals generalizing func with
  | nil => rfl
  | cons t rest ih =>
    obtain ⟨ht, hrest⟩ := List.nodup_cons.mp h
    have hih := ih hrest (update func t none)
    rw [activeSignals_update_of_not_mem ht] at hih
    cases hf : func t <;>
      simp [dispatchSignals, hf, hih, activeSignals, calls, TrsyncOut.view]

section Ops

variable {ts : Trsync σ κ}

omit [DecidableEq σ] in
theorem arming_of_canTrigger_eq_zero (h : ts.flags &&& tsfCanTrigger = 0) :
    ts.arming = .fired ts.triggerReason :=
  if_pos h

omit [DecidableEq σ] in
theorem arming_of_canTrigger_ne_zero (h : ts.flags &&& tsfCanTrigger ≠ 0) :
    ts.arming = .armed (activeSignals ts.signals ts.func) :=
  if_neg h

/-- Clearing the listed signals leaves no node active. -/
theorem Trsync.Inv.detach_inactive (hI : ts.Inv) (tss : σ) :
    (detachSignals ts.signals ts.func tss).isSome = false := by
  rw [detachSignals_apply]
  split
  · rfl
  · rename_i hm
    exact Bool.eq_false_iff.mpr fun hs => hm ((hI.active tss).mp hs)

theorem zero_canTrigger : (0 : UInt8) &&& tsfCanTrigger = 0 := by decide

omit [DecidableEq σ] in
theorem commandConfigTrsync_inv : (commandConfigTrsync : Trsync σ κ).Inv :=
  ⟨List.nodup_nil, fun _ => by simp [commandConfigTrsync], fun h => (h zero_canTrigger).elim⟩

theorem Trsync.Inv.clear (hI : ts.Inv) : (trsyncClear ts).Inv :=
  ⟨List.nodup_nil, fun tss => by simp [trsyncClear, hI.detach_inactive tss],
    fun h => (h zero_canTrigger).elim⟩

theorem Trsync.Inv.start (hI : ts.Inv) (reportClock reportTicks : UInt32) (expireReason : UInt8) :
    (commandTrsyncStart ts reportClock reportTicks expireReason).Inv :=
  ⟨List.nodup_nil, fun tss => by simp [commandTrsyncStart, trsyncClear, hI.detach_inactive tss],
    fun _ => rfl⟩

theorem commandTrsyncStart_arming (reportClock reportTicks : UInt32) (expireReason : UInt8) :
    (commandTrsyncStart ts reportClock reportTicks expireReason).arming = .armed [] := by
  have hc : (commandTrsyncStart ts reportClock reportTicks expireReason).flags &&& tsfCanTrigger ≠ 0 := by
    show tsfCanTrigger &&& tsfCanTrigger ≠ 0
    decide
  rw [arming_of_canTrigger_ne_zero hc]
  rfl

/-- **A trigger.**  The first finds the trsync armed, records its reason and calls the listed
    signals; any other does nothing.  Either way the trsync is then fired. -/
theorem Trsync.Inv.doTrigger (hI : ts.Inv) (reason : UInt8) :
    let r := trsyncDoTrigger ts reason
    r.1.Inv ∧ r.1.arming = .fired r.1.triggerReason ∧
      run Arming.step ts.arming [.trigger reason] = (r.1.arming, r.2.map TrsyncOut.view) := by
  by_cases hc : ts.flags &&& tsfCanTrigger = 0
  · have hr : trsyncDoTrigger ts reason = (ts, []) := if_pos hc
    rw [hr]
    refine ⟨hI, arming_of_canTrigger_eq_zero hc, ?_⟩
    rw [arming_of_canTrigger_eq_zero hc]
    rfl
  · have hview := dispatchSignals_view reason hI.nodup ts.func
    have hdetach := dispatchSignals_fst reason ts.signals ts.func
    let fired : Trsync σ κ :=
      { ts with triggerReason := reason, flags := (ts.flags &&& ~~~tsfCanTrigger) ||| tsfReport,
                signals := [], func := (dispatchSignals reason ts.signals ts.func).1 }
    have hr : trsyncDoTrigger ts reason = (fired, (dispatchSignals reason ts.signals ts.func).2) :=
      if_neg hc
    have hfired : fired.arming = .fired reason := arming_of_canTrigger_eq_zero (canTrigger_fire ts.flags)
    rw [hr]
    refine ⟨⟨List.nodup_nil, fun tss => ?_, fun h => absurd (canTrigger_fire ts.flags) h⟩, hfired, ?_⟩
    · simp [fired, hdetach, hI.detach_inactive tss]
    · rw [hfired, arming_of_canTrigger_ne_zero hc]
      simp [Arming.step, hview]

/-- `command_trsync_trigger`: a trigger, then a report of the reason the trsync holds. -/
theorem Trsync.Inv.commandTrigger (hI : ts.Inv) (reason : UInt8) :
    let r := commandTrsyncTrigger ts reason
    r.1.Inv ∧ run Arming.step ts.arming [.trigger reason, .report] = (r.1.arming, r.2.map TrsyncOut.view) := by
  obtain ⟨hI', hfired, hrun⟩ := hI.doTrigger reason
  have hstop : (commandTrsyncTrigger ts reason).1.arming =
      .fired (trsyncDoTrigger ts reason).1.triggerReason :=
    arming_of_canTrigger_eq_zero zero_canTrigger
  refine ⟨⟨hI'.nodup, hI'.active, fun h => (h zero_canTrigger).elim⟩, ?_⟩
  rw [show [ArmingAct.trigger reason, .report] = [.trigger reason] ++ [.report] from rfl,
    run_append, hrun, hfired, hstop]
  simp [Arming.step, commandTrsyncTrigger, trsyncReport, TrsyncOut.view]

/-- `trsync_task`: a report when one is asked for, saying whether the trsync can trigger and
    the reason it holds. -/
theorem Trsync.Inv.task (hI : ts.Inv) (now : UInt32) :
    let r := trsyncTask ts now
    r.1.Inv ∧ run Arming.step ts.arming (if ts.flags &&& tsfReport = 0 then [] else [.report]) =
      (r.1.arming, r.2.map TrsyncOut.view) := by
  by_cases hr : ts.flags &&& tsfReport = 0
  · simp only [trsyncTask, if_pos hr]
    exact ⟨hI, rfl⟩
  · simp only [trsyncTask, if_neg hr]
    refine ⟨⟨hI.nodup, hI.active, fun h => hI.reason (by rwa [canTrigger_clearReport] at h)⟩, ?_⟩
    by_cases hc : ts.flags &&& tsfCanTrigger = 0
    · rw [arming_of_canTrigger_eq_zero hc,
        arming_of_canTrigger_eq_zero (by rw [canTrigger_clearReport]; exact hc)]
      simp [Arming.step, trsyncReport, TrsyncOut.view, hc]
    · rw [arming_of_canTrigger_ne_zero hc,
        arming_of_canTrigger_ne_zero (by rw [canTrigger_clearReport]; exact hc)]
      simp [Arming.step, trsyncReport, TrsyncOut.view, hc, hI.reason hc]

omit [DecidableEq σ] in
/-- `trsync_report_event` only asks for a report. -/
theorem Trsync.Inv.reportEvent (hI : ts.Inv) :
    (trsyncReportEvent ts).Inv ∧ (trsyncReportEvent ts).arming = ts.arming := by
  have hc := canTrigger_setReport ts.flags
  refine ⟨⟨hI.nodup, hI.active, fun h => hI.reason (by rwa [← hc])⟩, ?_⟩
  by_cases h0 : ts.flags &&& tsfCanTrigger = 0
  · rw [arming_of_canTrigger_eq_zero h0, arming_of_canTrigger_eq_zero (hc.trans h0)]
    rfl
  · rw [arming_of_canTrigger_ne_zero h0,
      arming_of_canTrigger_ne_zero (by rw [trsyncReportEvent, hc]; exact h0)]
    rfl

/-- `trsync_add_signal` that does not shut down registers the signal. -/
theorem Trsync.Inv.addSignal (hI : ts.Inv) {tss : σ} {func : Option κ} {ts' : Trsync σ κ}
    (h : trsyncAddSignal ts tss func = .ok ts') :
    ts'.Inv ∧ ∃ f, func = some f ∧ run Arming.step ts.arming [.register tss f] = (ts'.arming, []) := by
  unfold trsyncAddSignal at h
  split at h
  · rename_i f hnone
    cases h
    -- an inactive node is on no list
    have hnot : tss ∉ ts.signals := fun hm => by simpa [hnone] using (hI.active tss).mpr hm
    refine ⟨⟨List.nodup_cons.mpr ⟨hnot, hI.nodup⟩, fun t => ?_, hI.reason⟩, f, rfl, ?_⟩
    · by_cases ht : t = tss
      · subst ht
        simp
      · simp [hI.active t, ht]
    · have hfresh : tss ∉ (activeSignals ts.signals ts.func).map Prod.fst := by
        rwa [map_fst_activeSignals fun t ht => (hI.active t).mpr ht]
      by_cases hc : ts.flags &&& tsfCanTrigger = 0
      · simp [Trsync.arming, hc, Arming.step]
      · simp only [Trsync.arming, hc, ↓reduceIte, activeSignals_cons_update hnot]
        simp [Arming.step, register, hfresh]
  · cases h

end Ops

/-- **The trsync refines its arming**, one operation at a time: every operation that does not
    shut down keeps the invariant, and the arming, asked what the operation asks of it, moves
    to the arming of the new trsync and makes the same calls and reports. -/
theorem trsyncStep_refines {ts ts' : Trsync σ κ} {a : TrsyncAct σ κ} {o : List (TrsyncOut σ κ)}
    (hI : ts.Inv) (h : trsyncStep ts a = .ok (ts', o)) :
    ts'.Inv ∧ run Arming.step ts.arming (armingActs ts a) = (ts'.arming, o.map TrsyncOut.view) := by
  cases a with
  | start reportClock reportTicks expireReason =>
    simp only [trsyncStep, Except.ok.injEq, Prod.mk.injEq] at h
    obtain ⟨rfl, rfl⟩ := h
    refine ⟨hI.start reportClock reportTicks expireReason, ?_⟩
    rw [commandTrsyncStart_arming]
    simp [armingActs]
  | setTimeout clock =>
    simp only [trsyncStep, Except.ok.injEq, Prod.mk.injEq] at h
    obtain ⟨rfl, rfl⟩ := h
    unfold commandTrsyncSetTimeout
    split
    · exact ⟨hI, rfl⟩
    · exact ⟨⟨hI.nodup, hI.active, hI.reason⟩, rfl⟩
  | trigger reason =>
    simp only [trsyncStep, Except.ok.injEq] at h
    have hs := hI.commandTrigger reason
    rw [h] at hs
    exact hs
  | addSignal tss func =>
    simp only [trsyncStep] at h
    cases hadd : trsyncAddSignal ts tss func with
    | error e => simp [hadd, Except.map] at h
    | ok ts'' =>
      simp only [hadd, Except.map, Except.ok.injEq, Prod.mk.injEq] at h
      obtain ⟨rfl, rfl⟩ := h
      obtain ⟨hI', f, rfl, hrun⟩ := hI.addSignal hadd
      exact ⟨hI', hrun⟩
  | doTrigger reason =>
    simp only [trsyncStep, Except.ok.injEq] at h
    obtain ⟨hI', -, hrun⟩ := hI.doTrigger reason
    rw [h] at hI' hrun
    exact ⟨hI', hrun⟩
  | expireEvent =>
    simp only [trsyncStep, Except.ok.injEq] at h
    simp only [armingActs]
    split at h
    · -- the expire timer fires: a trigger with the expire reason, and the timer is done
      rename_i harmed
      obtain ⟨hI', -, hrun⟩ := hI.doTrigger ts.expireReason
      simp only [trsyncExpireEvent, Prod.mk.injEq] at h
      obtain ⟨rfl, rfl⟩ := h
      rw [if_pos harmed]
      exact ⟨⟨hI'.nodup, hI'.active, hI'.reason⟩, hrun⟩
    · rename_i harmed
      simp only [Prod.mk.injEq] at h
      obtain ⟨rfl, rfl⟩ := h
      rw [if_neg harmed]
      exact ⟨hI, rfl⟩
  | reportEvent =>
    simp only [trsyncStep, Except.ok.injEq] at h
    split at h
    · simp only [Prod.mk.injEq] at h
      obtain ⟨rfl, rfl⟩ := h
      obtain ⟨hI', harm⟩ := hI.reportEvent
      exact ⟨hI', by rw [harm]; rfl⟩
    · simp only [Prod.mk.injEq] at h
      obtain ⟨rfl, rfl⟩ := h
      exact ⟨hI, rfl⟩
  | task now =>
    simp only [trsyncStep, Except.ok.injEq] at h
    have hs := hI.task now
    rw [h] at hs
    exact hs
  | shutdown =>
    simp only [trsyncStep, Except.ok.injEq, Prod.mk.injEq] at h
    obtain ⟨rfl, rfl⟩ := h
    have hc : (trsyncClear ts).flags &&& tsfCanTrigger = 0 := zero_canTrigger
    refine ⟨hI.clear, ?_⟩
    rw [arming_of_canTrigger_eq_zero hc]
    simp [armingActs, trsyncClear]

/-- Every run of the trsync refines the run of its arming on what its operations ask. -/
theorem trsyncRun_refines {ts : Trsync σ κ} (hI : ts.Inv) (acts : List (TrsyncAct σ κ)) :
    let r := runUntil trsyncStep ts acts
    r.1.Inv ∧ run Arming.step ts.arming (absInputs trsyncStep armingActs ts acts) =
      (r.1.arming, r.2.1.map TrsyncOut.view) := by
  have hstep : ∀ (s : Trsync σ κ) (a : TrsyncAct σ κ) s' o, s.Inv → trsyncStep s a = .ok (s', o) →
      s'.Inv ∧ run Arming.step s.arming (armingActs s a) = (s'.arming, o.map TrsyncOut.view) :=
    fun _ _ _ _ hs h => trsyncStep_refines hs h
  exact runUntil_refines hstep hI acts

omit [DecidableEq σ] in
/-- Only `command_trsync_start` and `trsync_shutdown` end an arming. -/
theorem armingActs_rearms (ts : Trsync σ κ) {a : TrsyncAct σ κ} (ha : a.clears = false) :
    ∀ β ∈ armingActs ts a, β.rearms = false := by
  cases a with
  | start _ _ _ => simp [TrsyncAct.clears] at ha
  | shutdown => simp [TrsyncAct.clears] at ha
  | addSignal tss func => cases func <;> simp [armingActs, ArmingAct.rearms]
  | expireEvent => simp only [armingActs]; split <;> simp [ArmingAct.rearms]
  | task now => simp only [armingActs]; split <;> simp [ArmingAct.rearms]
  | _ => simp [armingActs, ArmingAct.rearms]

omit [DecidableEq σ] in
theorem Trsync.triggerReason_of_fired {ts : Trsync σ κ} {reason : UInt8}
    (h : ts.arming = .fired reason) : ts.triggerReason = reason := by
  unfold Trsync.arming at h
  split at h
  · exact Arming.fired.inj h
  · cases h

omit [DecidableEq σ] in
theorem Trsync.Inv.triggerReason_of_armed {ts : Trsync σ κ} (hI : ts.Inv) {regs : List (σ × κ)}
    (h : ts.arming = .armed regs) : ts.triggerReason = 0 := by
  unfold Trsync.arming at h
  split at h
  · cases h
  · exact hI.reason ‹_›

/-- **A trsync triggers once per arming.**  After any history and a `command_trsync_start`,
    along any operations up to the next `command_trsync_start` or `trsync_shutdown`, with `αs`
    what they ask of the arming (every call of `trsync_do_trigger` a trigger, in order):
    the first trigger calls each signal registered before it exactly once, newest first, with
    its reason, and no signal is called at any other time; every report before it says the
    trsync can trigger, with reason 0, and every report after it says it cannot, with the first
    trigger's reason, which the trsync keeps.  With no trigger, no signal is called. -/
theorem trsync_trigger_once (hist : List (TrsyncAct σ κ)) (reportClock reportTicks : UInt32)
    (expireReason : UInt8) (acts : List (TrsyncAct σ κ)) (hacts : ∀ a ∈ acts, a.clears = false) :
    let ts := commandTrsyncStart (runUntil trsyncStep commandConfigTrsync hist).1 reportClock
      reportTicks expireReason
    let r := runUntil trsyncStep ts acts
    let αs := absInputs trsyncStep armingActs ts acts
    (∀ pre reason post, αs = pre ++ .trigger reason :: post → (∀ β ∈ pre, β.isTrigger = false) →
      r.2.1.map TrsyncOut.view =
        reports true 0 pre ++ calls (registerAll [] pre) reason ++ reports false reason post ∧
      ((registerAll [] pre).map Prod.fst).Nodup ∧ r.1.triggerReason = reason) ∧
    ((∀ β ∈ αs, β.isTrigger = false) →
      r.2.1.map TrsyncOut.view = reports true 0 αs ∧ r.1.triggerReason = 0) := by
  intro ts r αs
  have hhist := (trsyncRun_refines commandConfigTrsync_inv hist).1
  obtain ⟨hI, hrun⟩ := trsyncRun_refines (hhist.start reportClock reportTicks expireReason) acts
  rw [commandTrsyncStart_arming] at hrun
  -- nothing the operations ask ends the arming
  have hno : ∀ β ∈ αs, β.rearms = false := fun β hβ => by
    obtain ⟨_, a, ha, hb⟩ := mem_absInputs hβ
    exact armingActs_rearms _ (hacts a ha) β hb
  constructor
  · intro pre reason post hsplit hpre
    rw [hsplit] at hno
    have hpre' : ∀ β ∈ pre, β.rearms = false ∧ β.isTrigger = false :=
      fun β hβ => ⟨hno β (List.mem_append_left _ hβ), hpre β hβ⟩
    have hpost : ∀ β ∈ post, β.rearms = false :=
      fun β hβ => hno β (List.mem_append_right _ (List.mem_cons_of_mem _ hβ))
    have hspec := hrun
    rw [show absInputs trsyncStep armingActs ts acts = αs from rfl, hsplit,
      Arming.run_armed_trigger [] pre reason post hpre' hpost] at hspec
    obtain ⟨harm, hout⟩ := Prod.mk.inj hspec
    exact ⟨hout.symm, registerAll_nodup pre List.nodup_nil, Trsync.triggerReason_of_fired harm.symm⟩
  · intro hnt
    have hspec := hrun
    rw [Arming.run_armed [] _ fun β hβ => ⟨hno β hβ, hnt β hβ⟩] at hspec
    obtain ⟨harm, hout⟩ := Prod.mk.inj hspec
    exact ⟨hout.symm, hI.triggerReason_of_armed harm.symm⟩

/-- A stepper registered, a trigger with reason 3, a report, and a `command_trsync_trigger`
    with reason 7: the stepper is stopped once, with 3, and both reports say 3. -/
theorem trsync_trigger_once_home :
    (runUntil trsyncStep (commandTrsyncStart (commandConfigTrsync : Trsync Bool Unit) 0 0 0)
      [.addSignal true (some ()), .task 5, .doTrigger 3, .task 9, .trigger 7]).2.1.map TrsyncOut.view =
      [.signal true () 3, .report false 3, .report false 3] := by
  have h := (trsync_trigger_once [] 0 0 0
    [.addSignal true (some ()), .task 5, .doTrigger 3, .task 9, .trigger 7] (by decide)).1
    [.register true ()] 3 [.report, .trigger 7, .report] (by decide) (by decide)
  exact h.1

/-! ## The shutdown gate -/

/-- The MCU around one trsync: the trsync and whether the scheduler is shut down. -/
structure TrsyncMcu (σ κ : Type) where
  ts : Trsync σ κ
  isShutdown : Bool

/-- What happens at the MCU: an operation on the trsync (`.shutdown` is `shutdown()` called from
    anywhere, which runs `trsync_shutdown`), or `command_clear_shutdown`. -/
inductive McuAct (σ κ : Type)
  | op (a : TrsyncAct σ κ)
  | clearShutdown

/-- What still runs while the MCU is shut down: the tasks, and the shutdown handlers of a further
    shutdown.  The trsync's commands lack `HF_IN_SHUTDOWN`, so the dispatcher rejects them (its
    `is_shutdown` reply is not the trsync's), and `sched_timer_reset` has emptied the timer list,
    so no timer calls `trsync_do_trigger` until a command arms one again. -/
def TrsyncAct.inShutdown : TrsyncAct σ κ → Bool
  | .task _ => true
  | .shutdown => true
  | _ => false

/-- One step of the MCU.  `sched_clear_shutdown` outside a shutdown is itself a shutdown. -/
def trsyncMcuStep (m : TrsyncMcu σ κ) :
    McuAct σ κ → Except String (TrsyncMcu σ κ × List (TrsyncOut σ κ))
  | .op a =>
    if m.isShutdown && !a.inShutdown then .ok (m, [])
    else (trsyncStep m.ts a).map fun r => (⟨r.1, m.isShutdown || a matches .shutdown⟩, r.2)
  | .clearShutdown =>
    if m.isShutdown then .ok (⟨m.ts, false⟩, [])
    else (trsyncStep m.ts .shutdown).map fun r => (⟨r.1, true⟩, r.2)

/-- Every step of the MCU is one operation of the trsync or leaves it alone, so what the trsync
    guarantees over its runs holds at the MCU too. -/
theorem trsyncMcuStep_ts {m m' : TrsyncMcu σ κ} {a : McuAct σ κ} {outs : List (TrsyncOut σ κ)}
    (h : trsyncMcuStep m a = .ok (m', outs)) :
    (m'.ts = m.ts ∧ outs = []) ∨ ∃ b, trsyncStep m.ts b = .ok (m'.ts, outs) := by
  cases a with
  | op a =>
    simp only [trsyncMcuStep] at h
    by_cases hg : (m.isShutdown && !a.inShutdown) = true
    · -- rejected in shutdown
      rw [if_pos hg] at h
      cases h
      exact .inl ⟨rfl, rfl⟩
    · rw [if_neg hg] at h
      cases hb : trsyncStep m.ts a with
      | error e => simp only [hb, Except.map] at h; cases h
      | ok r => simp only [hb, Except.map] at h; cases h; exact .inr ⟨a, hb⟩
  | clearShutdown =>
    simp only [trsyncMcuStep] at h
    by_cases hs : m.isShutdown = true
    · rw [if_pos hs] at h
      cases h
      exact .inl ⟨rfl, rfl⟩
    · rw [if_neg hs] at h
      cases hb : trsyncStep m.ts .shutdown with
      | error e => simp only [hb, Except.map] at h; cases h
      | ok r => simp only [hb, Except.map] at h; cases h; exact .inr ⟨.shutdown, hb⟩

/-- **A shutdown between two starts resets the reason.**  The first trigger calls the signal
    with reason 3 and `trsync_shutdown` clears the trsync.  A `command_trsync_trigger` in the
    shutdown is rejected; after `command_clear_shutdown` it reports reason 0. -/
theorem trsync_shutdown_reports_zero :
    (runUntil trsyncMcuStep
      (⟨commandTrsyncStart (commandConfigTrsync : Trsync Bool Unit) 0 0 0, false⟩ : TrsyncMcu _ _)
      [.op (.addSignal true (some ())), .op (.doTrigger 3), .op .shutdown, .op (.trigger 7),
        .clearShutdown, .op (.trigger 7)]).2.1 =
      [.signal true () 3, .trsyncState false 0 0] := by
  decide

end Klipper.Homing
