import Mathlib
import Klipper.Lib.TwoSmallest

/-
  Trigger dispatch across several MCUs: `klippy/chelper/trdispatch.c`, driven by
  `MCU_trsync.start` of `klippy/mcu.py`.

  During a multi-MCU homing move every MCU runs a trsync (`Mcu.Trsync`) that reports its state
  with `trsync_state` and fires if its deadline passes.  The host's `handle_trsync_state` runs
  on each report: a report that the MCU can no longer trigger is passed on to every MCU as a
  `trsync_trigger`; otherwise the reporting MCU's last status is recorded and each MCU's deadline
  is moved to the oldest status of the other MCUs plus `expire_ticks`, as long as that moves it
  by at least `min_extend_ticks`.  The oldest status of the others comes from one scan for the
  two smallest status times (`TwoSmallest.scan`, `TwoSmallest.othersKey`).

  Clock conversions are the MCUs' clock estimates, taken as fixed functions (`ClockConv`); the
  status times are those of a linear order `T` with the sentinel `PR_NEVER` above all of them.
-/

namespace Klipper.TriggerDispatch

open TwoSmallest

variable {T : Type*} [LinearOrder T] {n : Nat}

/-! ## The model -/

/-- One MCU's clock estimate: `clock_to_time`, `clock_from_time`, and `clock_from_clock32`,
    which extends a reported 32-bit clock. -/
structure ClockConv (T : Type*) where
  clockToTime : UInt64 → T
  clockFromTime : T → UInt64
  clockFromClock32 : UInt32 → UInt64

/-- The fields of `struct trdispatch_mcu` that dispatch reads and writes. -/
structure TrdispatchMcu where
  trsyncOid : UInt32
  lastStatusClock : UInt64
  expireClock : UInt64
  expireTicks : UInt64
  minExtendTicks : UInt64
deriving DecidableEq, Repr

/-- `struct trdispatch`; its `tdm_list` holds the MCUs `0 .. n-1` in that order. -/
structure Trdispatch (n : Nat) where
  isActive : Bool
  canTrigger : Bool
  dispatchReason : UInt32
  tdm : Fin n → TrdispatchMcu

/-- The messages dispatch queues, with the MCU whose serial queue carries them. -/
inductive TrdispatchOut (n : Nat)
  | trsyncTrigger (m : Fin n) (oid reason : UInt32)
  | trsyncSetTimeout (m : Fin n) (oid clock : UInt32) (reqClock : UInt64)
deriving DecidableEq, Repr

/-- A `trsync_state oid=%c can_trigger=%c trigger_reason=%c clock=%u` read by the fast reader
    of MCU `m`. -/
structure TrsyncState (n : Nat) where
  m : Fin n
  oid : UInt32
  canTrigger : UInt32
  clock : UInt32
deriving DecidableEq, Repr

/-- `send_trsync_trigger(tdm)` -/
def sendTrsyncTrigger (td : Trdispatch n) (m : Fin n) : TrdispatchOut n :=
  .trsyncTrigger m (td.tdm m).trsyncOid td.dispatchReason

/-- `send_trsync_set_timeout(tdm)`: the message's clock is the low 32 bits of `expire_clock`,
    its request clock the whole. -/
def sendTrsyncSetTimeout (td : Trdispatch n) (m : Fin n) : TrdispatchOut n :=
  .trsyncSetTimeout m (td.tdm m).trsyncOid (td.tdm m).expireClock.toUInt32 (td.tdm m).expireClock

/-- `clock_to_time(&m->ce, m->last_status_clock)` -/
def statusTime (conv : Fin n → ClockConv T) (td : Trdispatch n) (m : Fin n) : T :=
  (conv m).clockToTime (td.tdm m).lastStatusClock

/-- `clock_from_time(&m->ce, status_time) + m->expire_ticks`: the deadline the second loop of
    `handle_trsync_state` computes for MCU `m`, whose fields are `tm`, from the scan. -/
def newExpire (conv : Fin n → ClockConv T) (never : T) (s : Scan (Fin n) T) (m : Fin n)
    (tm : TrdispatchMcu) : UInt64 :=
  (conv m).clockFromTime (othersKey never s m) + tm.expireTicks

/-- The test of the second loop: `(int64_t)(expire - m->expire_clock) >= m->min_extend_ticks`.
    `min_extend_ticks` is unsigned, so the signed difference is converted back to unsigned and
    a deadline earlier than `expire_clock` passes. -/
def extendsDeadline (expire : UInt64) (tm : TrdispatchMcu) : Bool :=
  expire - tm.expireClock ≥ tm.minExtendTicks

/-- One round of the second loop of `handle_trsync_state`, for MCU `m`. -/
def extendTimeout (conv : Fin n → ClockConv T) (never : T) (s : Scan (Fin n) T)
    (acc : Trdispatch n × List (TrdispatchOut n)) (m : Fin n) :
    Trdispatch n × List (TrdispatchOut n) :=
  let td := acc.1
  let tm := td.tdm m
  let expire := newExpire conv never s m tm
  if extendsDeadline expire tm then
    let td := { td with tdm := Function.update td.tdm m { tm with expireClock := expire } }
    (td, acc.2 ++ [sendTrsyncSetTimeout td m])
  else acc

/-- `handle_trsync_state` for a report read by MCU `tdm`'s fast reader. -/
def handleTrsyncState (conv : Fin n → ClockConv T) (never : T) (td : Trdispatch n)
    (r : TrsyncState n) : Trdispatch n × List (TrdispatchOut n) :=
  if r.oid ≠ (td.tdm r.m).trsyncOid then (td, [])
  else if !td.canTrigger then (td, [])
  -- the MCU reports a trigger or a timeout: pass it on to every MCU
  else if r.canTrigger = 0 then
    ({ td with canTrigger := false }, (List.finRange n).map (sendTrsyncTrigger td))
  else
    let tm := { td.tdm r.m with lastStatusClock := (conv r.m).clockFromClock32 r.clock }
    let td := { td with tdm := Function.update td.tdm r.m tm }
    let s := scan (statusTime conv td) never (List.finRange n)
    (List.finRange n).foldl (extendTimeout conv never s) (td, [])

/-- `trdispatch_start(td, dispatch_reason)` -/
def trdispatchStart (td : Trdispatch n) (dispatchReason : UInt32) : Trdispatch n :=
  if td.isActive ∨ n = 0 then td
  else { td with dispatchReason := dispatchReason, isActive := true, canTrigger := true }

/-- `trdispatch_stop(td)` -/
def trdispatchStop (td : Trdispatch n) : Trdispatch n :=
  if !td.isActive then td else { td with isActive := false }

/-- `trdispatch_mcu_setup(tdm, last_status_clock, expire_clock, expire_ticks, min_extend_ticks)` -/
def trdispatchMcuSetup (td : Trdispatch n) (m : Fin n)
    (lastStatusClock expireClock expireTicks minExtendTicks : UInt64) : Trdispatch n :=
  let tm := { td.tdm m with lastStatusClock := lastStatusClock, expireClock := expireClock,
                            expireTicks := expireTicks, minExtendTicks := minExtendTicks }
  { td with tdm := Function.update td.tdm m tm }

/-- The state after handling a run of reports. -/
def runState (conv : Fin n → ClockConv T) (never : T) (td : Trdispatch n)
    (reports : List (TrsyncState n)) : Trdispatch n :=
  reports.foldl (fun td r => (handleTrsyncState conv never td r).1) td

/-! ## The second loop, MCU by MCU -/

section Loop

variable (conv : Fin n → ClockConv T) (never : T) (s : Scan (Fin n) T)

/-- Where the second loop leaves MCU `m` when it runs over the MCUs `l`. -/
def extendedMcu (td : Trdispatch n) (l : List (Fin n)) (m : Fin n) : TrdispatchMcu :=
  if m ∈ l ∧ extendsDeadline (newExpire conv never s m (td.tdm m)) (td.tdm m) = true then
    { td.tdm m with expireClock := newExpire conv never s m (td.tdm m) }
  else td.tdm m

/-- The `trsync_set_timeout` messages the second loop sends when it runs over the MCUs `l`. -/
def extendMsgs (td : Trdispatch n) (l : List (Fin n)) : List (TrdispatchOut n) :=
  l.filterMap fun m =>
    if extendsDeadline (newExpire conv never s m (td.tdm m)) (td.tdm m) then
      some (.trsyncSetTimeout m (td.tdm m).trsyncOid (newExpire conv never s m (td.tdm m)).toUInt32
        (newExpire conv never s m (td.tdm m)))
    else none

/-- **The loop updates each MCU on its own.**  Over MCUs without repeats, each MCU's deadline
    and message depend only on its own fields before the loop. -/
theorem foldl_extendTimeout (l : List (Fin n)) (hl : l.Nodup)
    (acc : Trdispatch n × List (TrdispatchOut n)) :
    l.foldl (extendTimeout conv never s) acc =
      ({ acc.1 with tdm := extendedMcu conv never s acc.1 l }, acc.2 ++ extendMsgs conv never s acc.1 l) := by
  induction l generalizing acc with
  | nil =>
    obtain ⟨⟨a, c, d, tdm⟩, outs⟩ := acc
    simp only [List.foldl_nil, extendMsgs, List.filterMap_nil, List.append_nil, Prod.mk.injEq,
      Trdispatch.mk.injEq, true_and, and_true]
    funext m
    simp [extendedMcu]
  | cons m l ih =>
    obtain ⟨hm, hl⟩ := List.nodup_cons.mp hl
    rw [List.foldl_cons, ih hl]
    obtain ⟨⟨a, c, d, tdm⟩, outs⟩ := acc
    -- the later MCUs `m' ∈ l` read their own fields, which the round for `m` leaves alone
    have hother : ∀ m' ∈ l, ∀ tm : TrdispatchMcu, Function.update tdm m tm m' = tdm m' :=
      fun m' hm' _ => Function.update_of_ne (fun e => hm (by rwa [e] at hm')) _ _
    simp only [extendTimeout]
    split_ifs with hx
    · simp only [Prod.mk.injEq, Trdispatch.mk.injEq, true_and]
      constructor
      · funext m'
        by_cases h : m' = m
        · subst h; simp [extendedMcu, hm, hx]
        · simp [extendedMcu, h]
      · simp only [extendMsgs, List.filterMap_cons, hx, if_true, List.append_assoc,
          List.singleton_append]
        congr 2
        · simp [sendTrsyncSetTimeout]
        · exact List.filterMap_congr fun m' hm' => by simp only [hother m' hm']
    · simp only [Prod.mk.injEq, Trdispatch.mk.injEq, true_and]
      constructor
      · funext m'
        by_cases h : m' = m
        · subst h; simp [extendedMcu, hm, hx]
        · simp [extendedMcu, h]
      · simp [extendMsgs, hx]

end Loop

/-! ## One report, case by case -/

section Report

variable (conv : Fin n → ClockConv T) (never : T)

/-- The time a report's clock stands for on its MCU. -/
def reportTime (r : TrsyncState n) : T :=
  (conv r.m).clockToTime ((conv r.m).clockFromClock32 r.clock)

/-- The state once a report's clock is recorded as its MCU's `last_status_clock`. -/
def recordStatus (td : Trdispatch n) (r : TrsyncState n) : Trdispatch n :=
  let tm := { td.tdm r.m with lastStatusClock := (conv r.m).clockFromClock32 r.clock }
  { td with tdm := Function.update td.tdm r.m tm }

/-- The first loop of `handle_trsync_state`: the scan of every MCU's status time. -/
def statusScan (td : Trdispatch n) : Scan (Fin n) T :=
  scan (statusTime conv td) never (List.finRange n)

/-- The second loop over every MCU, in the form `foldl_extendTimeout` gives it. -/
def extendAll (td : Trdispatch n) : Trdispatch n × List (TrdispatchOut n) :=
  ({ td with tdm := extendedMcu conv never (statusScan conv never td) td (List.finRange n) },
    extendMsgs conv never (statusScan conv never td) td (List.finRange n))

/-- **What one report does.**  It is ignored (another trsync's oid, or dispatch already over),
    or it ends dispatch and is passed on to every MCU, or it records the MCU's status and runs
    the second loop over every MCU. -/
theorem handleTrsyncState_cases (td : Trdispatch n) (r : TrsyncState n) :
    (handleTrsyncState conv never td r = (td, []) ∧
      (r.oid ≠ (td.tdm r.m).trsyncOid ∨ td.canTrigger = false)) ∨
    (r.oid = (td.tdm r.m).trsyncOid ∧ td.canTrigger = true ∧ r.canTrigger = 0 ∧
      handleTrsyncState conv never td r =
        ({ td with canTrigger := false }, (List.finRange n).map (sendTrsyncTrigger td))) ∨
    (r.oid = (td.tdm r.m).trsyncOid ∧ td.canTrigger = true ∧ r.canTrigger ≠ 0 ∧
      handleTrsyncState conv never td r = extendAll conv never (recordStatus conv td r)) := by
  by_cases hoid : r.oid = (td.tdm r.m).trsyncOid
  · by_cases hc : td.canTrigger = true
    · by_cases h0 : r.canTrigger = 0
      · exact .inr (.inl ⟨hoid, hc, h0, by simp [handleTrsyncState, hoid, hc, h0]⟩)
      · refine .inr (.inr ⟨hoid, hc, h0, ?_⟩)
        rw [handleTrsyncState, if_neg (not_not.mpr hoid), if_neg (by simp [hc]), if_neg h0]
        exact foldl_extendTimeout conv never _ _ (List.nodup_finRange n) _
    · exact .inl ⟨by simp [handleTrsyncState, hoid, hc], .inr (by simpa using hc)⟩
  · exact .inl ⟨by simp [handleTrsyncState, hoid], .inl hoid⟩

/-- Once dispatch is over, every report is ignored. -/
theorem handleTrsyncState_of_not_canTrigger {td : Trdispatch n} (h : td.canTrigger = false)
    (r : TrsyncState n) : handleTrsyncState conv never td r = (td, []) := by
  simp [handleTrsyncState, h]

theorem runState_of_not_canTrigger {td : Trdispatch n} (h : td.canTrigger = false)
    (reports : List (TrsyncState n)) : runState conv never td reports = td := by
  induction reports with
  | nil => rfl
  | cons r reports ih =>
    simp only [runState, List.foldl_cons, handleTrsyncState_of_not_canTrigger conv never h]
    exact ih

variable {conv never}

section Record

-- recording a status reads no order on the times
omit [LinearOrder T]

theorem recordStatus_tdm (td : Trdispatch n) (r : TrsyncState n) (m : Fin n) :
    (recordStatus conv td r).tdm m =
      if m = r.m then { td.tdm m with lastStatusClock := (conv r.m).clockFromClock32 r.clock }
      else td.tdm m := by
  by_cases h : m = r.m
  · subst h; simp [recordStatus]
  · simp [recordStatus, h]

@[simp] theorem recordStatus_expireClock (td : Trdispatch n) (r : TrsyncState n) (m : Fin n) :
    ((recordStatus conv td r).tdm m).expireClock = (td.tdm m).expireClock := by
  rw [recordStatus_tdm]; split_ifs <;> rfl

@[simp] theorem recordStatus_expireTicks (td : Trdispatch n) (r : TrsyncState n) (m : Fin n) :
    ((recordStatus conv td r).tdm m).expireTicks = (td.tdm m).expireTicks := by
  rw [recordStatus_tdm]; split_ifs <;> rfl

@[simp] theorem recordStatus_minExtendTicks (td : Trdispatch n) (r : TrsyncState n) (m : Fin n) :
    ((recordStatus conv td r).tdm m).minExtendTicks = (td.tdm m).minExtendTicks := by
  rw [recordStatus_tdm]; split_ifs <;> rfl

@[simp] theorem recordStatus_trsyncOid (td : Trdispatch n) (r : TrsyncState n) (m : Fin n) :
    ((recordStatus conv td r).tdm m).trsyncOid = (td.tdm m).trsyncOid := by
  rw [recordStatus_tdm]; split_ifs <;> rfl

theorem statusTime_recordStatus (td : Trdispatch n) (r : TrsyncState n) (m : Fin n) :
    statusTime conv (recordStatus conv td r) m =
      if m = r.m then reportTime conv r else statusTime conv td m := by
  rw [statusTime, recordStatus_tdm]
  split_ifs with h
  · subst h; rfl
  · rfl

end Record

theorem extendAll_tdm (td : Trdispatch n) (m : Fin n) :
    (extendAll conv never td).1.tdm m =
      if extendsDeadline (newExpire conv never (statusScan conv never td) m (td.tdm m)) (td.tdm m)
      then { td.tdm m with expireClock := newExpire conv never (statusScan conv never td) m (td.tdm m) }
      else td.tdm m := by
  simp [extendAll, extendedMcu]

theorem extendAll_expireClock (td : Trdispatch n) (m : Fin n) :
    ((extendAll conv never td).1.tdm m).expireClock =
      if extendsDeadline (newExpire conv never (statusScan conv never td) m (td.tdm m)) (td.tdm m)
      then newExpire conv never (statusScan conv never td) m (td.tdm m)
      else (td.tdm m).expireClock := by
  rw [extendAll_tdm]; split_ifs <;> rfl

@[simp] theorem extendAll_expireTicks (td : Trdispatch n) (m : Fin n) :
    ((extendAll conv never td).1.tdm m).expireTicks = (td.tdm m).expireTicks := by
  rw [extendAll_tdm]; split_ifs <;> rfl

@[simp] theorem extendAll_trsyncOid (td : Trdispatch n) (m : Fin n) :
    ((extendAll conv never td).1.tdm m).trsyncOid = (td.tdm m).trsyncOid := by
  rw [extendAll_tdm]; split_ifs <;> rfl

/-- The second loop leaves the status times alone. -/
@[simp] theorem statusTime_extendAll (td : Trdispatch n) :
    statusTime conv (extendAll conv never td).1 = statusTime conv td := by
  funext m
  rw [statusTime, statusTime, extendAll_tdm]
  split_ifs <;> rfl

/-- The messages of the second loop: one `trsync_set_timeout` for each MCU whose deadline it
    extends, carrying the new deadline. -/
theorem mem_extendAll (td : Trdispatch n) (o : TrdispatchOut n) :
    o ∈ (extendAll conv never td).2 ↔ ∃ m,
      extendsDeadline (newExpire conv never (statusScan conv never td) m (td.tdm m)) (td.tdm m) ∧
      o = .trsyncSetTimeout m (td.tdm m).trsyncOid
        (newExpire conv never (statusScan conv never td) m (td.tdm m)).toUInt32
        (newExpire conv never (statusScan conv never td) m (td.tdm m)) := by
  simp only [extendAll, extendMsgs, List.mem_filterMap, List.mem_finRange, true_and,
    Option.ite_none_right_eq_some, Option.some.injEq]
  exact exists_congr fun m => and_congr_right fun _ => eq_comm

/-- With every status time below `PR_NEVER`, the key the scan gives MCU `m` is the oldest
    status time among the other MCUs, or `m`'s own when it is alone. -/
theorem statusScan_minOthers (hnever : ∀ m c, (conv m).clockToTime c < never) (td : Trdispatch n)
    (m : Fin n) :
    MinOthers (statusTime conv td) (List.finRange n) m (othersKey never (statusScan conv never td) m) :=
  scan_minOthers (List.nodup_finRange n) (fun a _ => hnever a _) (List.mem_finRange m)

/-- The unsigned test of the second loop, for a deadline no earlier than the current one: it
    passes exactly when the deadline moves by at least `min_extend_ticks`. -/
theorem extendsDeadline_iff {e : UInt64} {tm : TrdispatchMcu} (h : tm.expireClock.toNat ≤ e.toNat) :
    extendsDeadline e tm = true ↔ tm.expireClock.toNat + tm.minExtendTicks.toNat ≤ e.toNat := by
  have hle : tm.expireClock ≤ e := UInt64.le_iff_toNat_le.mpr h
  simp only [extendsDeadline, decide_eq_true_eq, UInt64.le_iff_toNat_le, UInt64.toNat_sub_of_le _ _ hle]
  omega

end Report

/-! ## Reports that rise

The deadlines only move forward when each MCU's reports rise (a clock is only reported after the
clocks before it), every MCU starts from one setup time (as `TriggerDispatch.start` calls
`MCU_trsync.start` with one `print_time`), and `clock_from_time` is monotone and does not wrap
up to the last time reported.  The invariant `DispatchInv` keeps each deadline at most the oldest
status among the other MCUs plus `expire_ticks`; a rising report only raises that bound, so the
second loop's new deadline is never below the old one. -/

section Rising

variable {conv : Fin n → ClockConv T} {never tmax : T} {td0 td : Trdispatch n}
  {r : TrsyncState n} {rest : List (TrsyncState n)}

/-- What handling the reports so far keeps true, with `rest` the reports still to come. -/
structure DispatchInv (conv : Fin n → ClockConv T) (tmax : T) (td0 td : Trdispatch n)
    (rest : List (TrsyncState n)) : Prop where
  ticks : ∀ m, (td.tdm m).expireTicks = (td0.tdm m).expireTicks
  bounded : ∀ m, statusTime conv td m ≤ tmax
  rising : ∀ r ∈ rest, statusTime conv td r.m ≤ reportTime conv r
  below : ∀ r ∈ rest, reportTime conv r ≤ tmax
  pairwise : rest.Pairwise fun r r' => r.m = r'.m → reportTime conv r ≤ reportTime conv r'
  expire : ∀ m t, MinOthers (statusTime conv td) (List.finRange n) m t →
    (td.tdm m).expireClock.toNat ≤ ((conv m).clockFromTime t).toNat + (td.tdm m).expireTicks.toNat

/-- A report that leaves the MCUs alone keeps the invariant for the reports after it. -/
theorem DispatchInv.skip {td' : Trdispatch n} (h : DispatchInv conv tmax td0 td (r :: rest))
    (htdm : td'.tdm = td.tdm) : DispatchInv conv tmax td0 td' rest := by
  have hst : statusTime conv td' = statusTime conv td := by
    funext m; simp [statusTime, htdm]
  refine ⟨fun m => ?_, fun m => ?_, fun r' hr' => ?_, fun r' hr' => h.below r' (.tail _ hr'),
    (List.pairwise_cons.mp h.pairwise).2, fun m t ht => ?_⟩
  · rw [htdm]; exact h.ticks m
  · rw [hst]; exact h.bounded m
  · rw [hst]; exact h.rising r' (.tail _ hr')
  · rw [hst] at ht; rw [htdm]; exact h.expire m t ht

/-- Recording a rising report raises its MCU's status time and leaves the others alone. -/
theorem DispatchInv.statusTime_le_record (h : DispatchInv conv tmax td0 td (r :: rest)) (m : Fin n) :
    statusTime conv td m ≤ statusTime conv (recordStatus conv td r) m := by
  rw [statusTime_recordStatus]
  split_ifs with hm
  · subst hm; exact h.rising r List.mem_cons_self
  · exact le_rfl

theorem DispatchInv.record_bounded (h : DispatchInv conv tmax td0 td (r :: rest)) (m : Fin n) :
    statusTime conv (recordStatus conv td r) m ≤ tmax := by
  rw [statusTime_recordStatus]
  split_ifs
  · exact h.below r List.mem_cons_self
  · exact h.bounded m

/-- **The new deadline is no earlier.**  After a rising report the second loop computes, for each
    MCU, the oldest status among the others plus `expire_ticks` without wrapping, and the MCU's
    current deadline is at most that. -/
theorem DispatchInv.newExpire_spec (hnever : ∀ m c, (conv m).clockToTime c < never)
    (hmono : ∀ m t t', t ≤ t' → t' ≤ tmax → (conv m).clockFromTime t ≤ (conv m).clockFromTime t')
    (hwrap : ∀ m, ((conv m).clockFromTime tmax).toNat + (td0.tdm m).expireTicks.toNat < 2 ^ 64)
    (h : DispatchInv conv tmax td0 td (r :: rest)) (m : Fin n) :
    (newExpire conv never (statusScan conv never (recordStatus conv td r)) m
        ((recordStatus conv td r).tdm m)).toNat =
      ((conv m).clockFromTime (othersKey never (statusScan conv never (recordStatus conv td r)) m)).toNat +
        (td.tdm m).expireTicks.toNat ∧
    (td.tdm m).expireClock.toNat ≤
      ((conv m).clockFromTime (othersKey never (statusScan conv never (recordStatus conv td r)) m)).toNat +
        (td.tdm m).expireTicks.toNat := by
  rw [newExpire]
  have hk := statusScan_minOthers hnever (recordStatus conv td r) m
  set k := othersKey never (statusScan conv never (recordStatus conv td r)) m
  -- the key is a status time, so it is below `tmax` and `clock_from_time` does not wrap there
  have hkmax : k ≤ tmax := by
    obtain ⟨b, -, hb⟩ := hk.exists_eq (List.mem_finRange m)
    rw [hb]; exact h.record_bounded b
  have hfrom := UInt64.le_iff_toNat_le.mp (hmono m k tmax hkmax le_rfl)
  refine ⟨?_, ?_⟩
  · rw [UInt64.toNat_add, recordStatus_expireTicks, Nat.mod_eq_of_lt]
    have := hwrap m
    rw [h.ticks m]; omega
  · -- the key before the report was no larger, and the deadline was bounded by it
    have hk0 := statusScan_minOthers hnever td m
    have hle : othersKey never (statusScan conv never td) m ≤ k :=
      hk0.mono (fun b _ => h.statusTime_le_record b) (List.mem_finRange m) hk
    have := UInt64.le_iff_toNat_le.mp (hmono m _ k hle hkmax)
    have := h.expire m _ hk0
    omega

/-- **Step lemma.**  Handling a report keeps the invariant for the reports after it. -/
theorem DispatchInv.handle (hnever : ∀ m c, (conv m).clockToTime c < never)
    (hmono : ∀ m t t', t ≤ t' → t' ≤ tmax → (conv m).clockFromTime t ≤ (conv m).clockFromTime t')
    (hwrap : ∀ m, ((conv m).clockFromTime tmax).toNat + (td0.tdm m).expireTicks.toNat < 2 ^ 64)
    (h : DispatchInv conv tmax td0 td (r :: rest)) :
    DispatchInv conv tmax td0 (handleTrsyncState conv never td r).1 rest := by
  rcases handleTrsyncState_cases conv never td r with ⟨he, -⟩ | ⟨-, -, -, he⟩ | ⟨-, -, -, he⟩
  · rw [he]; exact h.skip rfl
  · rw [he]; exact h.skip rfl
  · rw [he]
    have hp := List.pairwise_cons.mp h.pairwise
    refine ⟨fun m => ?_, fun m => ?_, fun r' hr' => ?_, fun r' hr' => h.below r' (.tail _ hr'),
      hp.2, fun m t ht => ?_⟩
    · simp [h.ticks m]
    · rw [statusTime_extendAll]; exact h.record_bounded m
    · -- a later report of the same MCU is no earlier than this one
      rw [statusTime_extendAll, statusTime_recordStatus]
      split_ifs with hm
      · exact hp.1 r' hr' hm.symm
      · exact h.rising r' (.tail _ hr')
    · rw [statusTime_extendAll] at ht
      obtain ⟨hnew, hold⟩ := h.newExpire_spec hnever hmono hwrap m
      have hk := (statusScan_minOthers hnever (recordStatus conv td r) m).unique
        (List.mem_finRange m) ht
      rw [← hk, extendAll_expireClock, extendAll_expireTicks, recordStatus_expireTicks]
      split_ifs
      · exact hnew.le
      · rw [recordStatus_expireClock]; exact hold

/-- **Run lemma.**  Handling the reports `pre` keeps the invariant for the reports after them. -/
theorem DispatchInv.run (hnever : ∀ m c, (conv m).clockToTime c < never)
    (hmono : ∀ m t t', t ≤ t' → t' ≤ tmax → (conv m).clockFromTime t ≤ (conv m).clockFromTime t')
    (hwrap : ∀ m, ((conv m).clockFromTime tmax).toNat + (td0.tdm m).expireTicks.toNat < 2 ^ 64)
    (pre : List (TrsyncState n)) (h : DispatchInv conv tmax td0 td (pre ++ rest)) :
    DispatchInv conv tmax td0 (runState conv never td pre) rest := by
  induction pre generalizing td with
  | nil => exact h
  | cons r pre ih => exact ih (h.handle hnever hmono hwrap)

/-- The setup of `MCU_trsync.start`, every MCU at one time `t0` with its deadline `expire_ticks`
    after it, starts the invariant for rising reports after `t0`. -/
theorem DispatchInv.init {t0 : T} {reports : List (TrsyncState n)}
    (hsetup : ∀ m, statusTime conv td0 m = t0 ∧
      (td0.tdm m).expireClock = (conv m).clockFromTime t0 + (td0.tdm m).expireTicks)
    (ht0 : t0 ≤ tmax) (hreports : ∀ r ∈ reports, t0 ≤ reportTime conv r ∧ reportTime conv r ≤ tmax)
    (hrising : reports.Pairwise fun r r' => r.m = r'.m → reportTime conv r ≤ reportTime conv r') :
    DispatchInv conv tmax td0 td0 reports where
  ticks _ := rfl
  bounded m := by rw [(hsetup m).1]; exact ht0
  rising r hr := by rw [(hsetup r.m).1]; exact (hreports r hr).1
  below r hr := (hreports r hr).2
  pairwise := hrising
  expire m t ht := by
    -- every status is `t0`, so the oldest among the others is too
    obtain ⟨b, -, rfl⟩ := ht.exists_eq (List.mem_finRange m)
    rw [(hsetup b).1, (hsetup m).2, UInt64.toNat_add]
    exact Nat.mod_le _ _

/-- **Deadlines move forward.**  On a rising report no MCU's deadline moves back, and a deadline
    that moves is announced with a `trsync_set_timeout`. -/
theorem DispatchInv.expire_forward (hnever : ∀ m c, (conv m).clockToTime c < never)
    (hmono : ∀ m t t', t ≤ t' → t' ≤ tmax → (conv m).clockFromTime t ≤ (conv m).clockFromTime t')
    (hwrap : ∀ m, ((conv m).clockFromTime tmax).toNat + (td0.tdm m).expireTicks.toNat < 2 ^ 64)
    (h : DispatchInv conv tmax td0 td (r :: rest)) (m : Fin n) :
    (td.tdm m).expireClock.toNat ≤ ((handleTrsyncState conv never td r).1.tdm m).expireClock.toNat ∧
    (((handleTrsyncState conv never td r).1.tdm m).expireClock = (td.tdm m).expireClock ∨
      sendTrsyncSetTimeout (handleTrsyncState conv never td r).1 m ∈
        (handleTrsyncState conv never td r).2) := by
  rcases handleTrsyncState_cases conv never td r with ⟨he, -⟩ | ⟨-, -, -, he⟩ | ⟨-, -, -, he⟩
  · rw [he]; exact ⟨le_rfl, .inl rfl⟩
  · rw [he]; exact ⟨le_rfl, .inl rfl⟩
  · rw [he, extendAll_expireClock, recordStatus_expireClock]
    obtain ⟨hnew, hold⟩ := h.newExpire_spec hnever hmono hwrap m
    split_ifs with hx
    · refine ⟨hnew ▸ hold, .inr ((mem_extendAll _ _).mpr ⟨m, hx, ?_⟩)⟩
      simp [sendTrsyncSetTimeout, extendAll_tdm, hx]
    · exact ⟨le_rfl, .inl rfl⟩

end Rising

/-- **What a `trsync_set_timeout` carries.**  Each one a report sends sets its MCU's deadline to
    the oldest status among the other MCUs (the MCU's own when it is alone) plus `expire_ticks`,
    and passed the second loop's test. -/
theorem handleTrsyncState_setTimeout {conv : Fin n → ClockConv T} {never : T}
    (hnever : ∀ m c, (conv m).clockToTime c < never) {td : Trdispatch n} {r : TrsyncState n}
    {m : Fin n} {oid clock : UInt32} {reqClock : UInt64}
    (hmem : .trsyncSetTimeout m oid clock reqClock ∈ (handleTrsyncState conv never td r).2) :
    reqClock = ((handleTrsyncState conv never td r).1.tdm m).expireClock ∧
    extendsDeadline reqClock (td.tdm m) = true ∧
    ∃ t, MinOthers (statusTime conv (handleTrsyncState conv never td r).1) (List.finRange n) m t ∧
      reqClock = (conv m).clockFromTime t + (td.tdm m).expireTicks ∧
      clock = reqClock.toUInt32 ∧ oid = (td.tdm m).trsyncOid := by
  rcases handleTrsyncState_cases conv never td r with ⟨he, -⟩ | ⟨-, -, -, he⟩ | ⟨-, -, -, he⟩
  · rw [he] at hmem; simp at hmem
  · rw [he] at hmem; simp [sendTrsyncTrigger] at hmem
  · rw [he] at hmem ⊢
    obtain ⟨m', hx, heq⟩ := (mem_extendAll _ _).mp hmem
    obtain ⟨rfl, rfl, rfl, rfl⟩ := TrdispatchOut.trsyncSetTimeout.inj heq
    refine ⟨by rw [extendAll_expireClock, if_pos hx], by simpa [extendsDeadline] using hx,
      othersKey never (statusScan conv never (recordStatus conv td r)) m, ?_, by simp [newExpire],
      rfl, by simp⟩
    rw [statusTime_extendAll]
    exact statusScan_minOthers hnever _ m

/-- **Trigger dispatch over a run of rising reports.**  From the setup of `MCU_trsync.start` (every
    MCU at one time `t0`, its deadline `expire_ticks` later), with each MCU's reports rising after
    `t0` and no wrap of `clock_from_time` up to `tmax`, each report `r` of the run does this:
    (a) the first report that the MCU can no longer trigger sends `trsync_trigger` with the
    dispatch reason to every MCU once, in list order, and no report after it sends anything;
    (b) no MCU's deadline moves back, a deadline that moves is announced, and every
    `trsync_set_timeout` moves its MCU's deadline by at least `min_extend_ticks`;
    (c) every `trsync_set_timeout` carries the oldest status among the other MCUs (the MCU's
    own when it is alone) plus `expire_ticks`. -/
theorem trdispatch_rising_reports (conv : Fin n → ClockConv T) (never tmax t0 : T)
    (td0 : Trdispatch n) (reports pre post : List (TrsyncState n)) (r : TrsyncState n)
    (hnever : ∀ m c, (conv m).clockToTime c < never)
    (hmono : ∀ m t t', t ≤ t' → t' ≤ tmax → (conv m).clockFromTime t ≤ (conv m).clockFromTime t')
    (hwrap : ∀ m, ((conv m).clockFromTime tmax).toNat + (td0.tdm m).expireTicks.toNat < 2 ^ 64)
    (hsetup : ∀ m, statusTime conv td0 m = t0 ∧
      (td0.tdm m).expireClock = (conv m).clockFromTime t0 + (td0.tdm m).expireTicks)
    (hreports : ∀ r ∈ reports, t0 ≤ reportTime conv r ∧ reportTime conv r ≤ tmax)
    (hrising : reports.Pairwise fun r r' => r.m = r'.m → reportTime conv r ≤ reportTime conv r')
    (hsplit : reports = pre ++ r :: post) :
    let td := runState conv never td0 pre
    let res := handleTrsyncState conv never td r
    (r.oid = (td.tdm r.m).trsyncOid → td.canTrigger = true → r.canTrigger = 0 →
      res.2 = (List.finRange n).map (sendTrsyncTrigger td) ∧
      ∀ pre' r' post', post = pre' ++ r' :: post' →
        (handleTrsyncState conv never (runState conv never res.1 pre') r').2 = []) ∧
    (∀ m, (td.tdm m).expireClock.toNat ≤ (res.1.tdm m).expireClock.toNat ∧
      ((res.1.tdm m).expireClock = (td.tdm m).expireClock ∨ sendTrsyncSetTimeout res.1 m ∈ res.2)) ∧
    (∀ m oid clock reqClock, TrdispatchOut.trsyncSetTimeout m oid clock reqClock ∈ res.2 →
      reqClock = (res.1.tdm m).expireClock ∧
      (td.tdm m).expireClock.toNat + (td.tdm m).minExtendTicks.toNat ≤ reqClock.toNat ∧
      ∃ t, MinOthers (statusTime conv res.1) (List.finRange n) m t ∧
        reqClock = (conv m).clockFromTime t + (td.tdm m).expireTicks ∧
        clock = reqClock.toUInt32 ∧ oid = (td.tdm m).trsyncOid) := by
  intro td res
  have hr : r ∈ reports := by rw [hsplit]; simp
  have h : DispatchInv conv tmax td0 td (r :: post) := by
    refine DispatchInv.run hnever hmono hwrap pre ?_
    rw [← hsplit]
    exact DispatchInv.init hsetup ((hreports r hr).1.trans (hreports r hr).2) hreports hrising
  refine ⟨fun hoid hcan h0 => ?_, fun m => h.expire_forward hnever hmono hwrap m,
    fun m oid clock reqClock hmem => ?_⟩
  · -- (a): the report ends dispatch, and every report after it is ignored
    have he : res = ({ td with canTrigger := false }, (List.finRange n).map (sendTrsyncTrigger td)) := by
      rcases handleTrsyncState_cases conv never td r with ⟨-, hne | hne⟩ | ⟨-, -, -, he⟩ | ⟨-, -, hne, -⟩
      · exact absurd hoid hne
      · simp [hcan] at hne
      · exact he
      · exact absurd h0 hne
    have hover : res.1.canTrigger = false := by rw [he]
    refine ⟨by rw [he], fun pre' r' post' _ => ?_⟩
    rw [runState_of_not_canTrigger conv never hover, handleTrsyncState_of_not_canTrigger conv never hover]
  · -- (b) and (c) for one message: it passed the test against a deadline no later than its own
    obtain ⟨hreq, hx, hc⟩ := handleTrsyncState_setTimeout hnever hmem
    have hle := (h.expire_forward hnever hmono hwrap m).1
    rw [← hreq] at hle
    exact ⟨hreq, (extendsDeadline_iff hle).mp hx, hc⟩

theorem trdispatch_rising_reports_two :
    let conv : Fin 2 → ClockConv ℕ :=
      fun _ => ⟨fun c => c.toNat, fun t => UInt64.ofNat t, fun c => c.toUInt64⟩
    let td0 : Trdispatch 2 :=
      ⟨true, true, 7, fun m => if m = 0 then ⟨5, 1000, 1100, 100, 20⟩ else ⟨6, 1000, 1100, 100, 20⟩⟩
    let pre : List (TrsyncState 2) := [⟨0, 5, 1, 1200⟩, ⟨1, 6, 1, 1300⟩]
    let r : TrsyncState 2 := ⟨0, 5, 1, 1500⟩
    let post : List (TrsyncState 2) := [⟨1, 6, 0, 1600⟩]
    let td := runState conv (2 ^ 64) td0 pre
    let res := handleTrsyncState conv (2 ^ 64) td r
    (r.oid = (td.tdm r.m).trsyncOid → td.canTrigger = true → r.canTrigger = 0 →
      res.2 = (List.finRange 2).map (sendTrsyncTrigger td) ∧
      ∀ pre' r' post', post = pre' ++ r' :: post' →
        (handleTrsyncState conv (2 ^ 64) (runState conv (2 ^ 64) res.1 pre') r').2 = []) ∧
    (∀ m, (td.tdm m).expireClock.toNat ≤ (res.1.tdm m).expireClock.toNat ∧
      ((res.1.tdm m).expireClock = (td.tdm m).expireClock ∨ sendTrsyncSetTimeout res.1 m ∈ res.2)) ∧
    (∀ m oid clock reqClock, TrdispatchOut.trsyncSetTimeout m oid clock reqClock ∈ res.2 →
      reqClock = (res.1.tdm m).expireClock ∧
      (td.tdm m).expireClock.toNat + (td.tdm m).minExtendTicks.toNat ≤ reqClock.toNat ∧
      ∃ t, MinOthers (statusTime conv res.1) (List.finRange 2) m t ∧
        reqClock = (conv m).clockFromTime t + (td.tdm m).expireTicks ∧
        clock = reqClock.toUInt32 ∧ oid = (td.tdm m).trsyncOid) :=
  trdispatch_rising_reports (fun _ => ⟨fun c => c.toNat, fun t => UInt64.ofNat t, fun c => c.toUInt64⟩)
    (2 ^ 64) 1000000 1000
    ⟨true, true, 7, fun m => if m = 0 then ⟨5, 1000, 1100, 100, 20⟩ else ⟨6, 1000, 1100, 100, 20⟩⟩
    _ [⟨0, 5, 1, 1200⟩, ⟨1, 6, 1, 1300⟩] [⟨1, 6, 0, 1600⟩] ⟨0, 5, 1, 1500⟩
    (fun _ c => UInt64.toNat_lt c)
    (fun _ t t' htt' ht' => UInt64.le_iff_toNat_le.mpr (by
      simp only [UInt64.toNat_ofNat', Nat.mod_eq_of_lt (show t < 2 ^ 64 by omega),
        Nat.mod_eq_of_lt (show t' < 2 ^ 64 by omega)]
      exact htt'))
    (by decide) (by decide) (by decide) (by decide) rfl

example :
    let conv : Fin 2 → ClockConv ℕ :=
      fun _ => ⟨fun c => c.toNat, fun t => UInt64.ofNat t, fun c => c.toUInt64⟩
    let td0 : Trdispatch 2 :=
      ⟨true, true, 7, fun m => if m = 0 then ⟨5, 1000, 1100, 100, 20⟩ else ⟨6, 1000, 1100, 100, 20⟩⟩
    let td := runState conv (2 ^ 64) td0 [⟨0, 5, 1, 1200⟩, ⟨1, 6, 1, 1300⟩]
    (handleTrsyncState conv (2 ^ 64) td ⟨0, 5, 1, 1500⟩).2 = [.trsyncSetTimeout 1 6 1600 1600] := by
  decide

end Klipper.TriggerDispatch
