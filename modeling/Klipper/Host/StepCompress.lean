import Mathlib.Logic.Basic

/-
  Step compression (`klippy/chelper/stepcompress.c`): the search of `compress_bisect_add` and
  the check of `check_line`.

  The host turns the step times queued for one stepper into `queue_step` commands
  `(interval, count, add)`: the MCU steps `count` times, `interval` ticks after the previous step,
  and adds `add` to the interval after each step.  `minmax_point` gives each queued step a window
  of acceptable times, relative to `last_step_clock`: up to `max_error` (and at most half the gap
  to the previous step) early, never late.  `compress_bisect_add` searches for the move that
  reaches furthest: for each candidate `add` it narrows the interval range point by point until
  it is empty (the inner loop), then bisects the add range (the outer loop).  `check_line`
  re-checks the chosen move against the windows and rejects a move with no interval and no add
  that steps more than once.

  The model keeps the C arithmetic: `int32_t` is `Int32`, `uint32_t` is `UInt32`, and values are
  converted where the C converts them (`struct points` holds the `uint32_t` window as `int32_t`;
  `check_line` compares its `uint32_t` position with them as unsigned).  The two loops take fuel:
  the inner one never needs more than the queue length, and the outer one never more than the
  65536 values of `add`.

  A queue holding two steps at `last_step_clock` has windows `[0, 0]` and `[0, 0]`; the first
  candidate, `add = 0`, runs out of queue with interval 0, and the move `(0, 2, 0)` is returned
  and then rejected by `check_line` (`compressBisectAdd_repeated_clock`).
-/

namespace Klipper.StepCompress

/-- The `struct stepcompress` fields compression reads: the pending step times
    `[queue_pos, queue_next)`, `max_error`, `last_step_clock` and the CreatBot `taskline`. -/
structure Stepcompress where
  queue : List UInt32
  maxError : UInt32
  lastStepClock : UInt64
  taskline : UInt32

/-- `struct step_move` -/
structure StepMove where
  interval : UInt32
  count : UInt16
  add : Int16
  taskline : UInt32
deriving DecidableEq, Repr

/-- `struct points`: the earliest and latest acceptable time of a step. -/
structure Points where
  minp : Int32
  maxp : Int32
deriving DecidableEq, Repr

/-- `minmax_point(sc, queue_pos + i)` -/
def minmaxPoint (sc : Stepcompress) (i : Nat) : Points :=
  let lsc : UInt32 := sc.lastStepClock.toUInt32
  let point := sc.queue.getD i 0 - lsc
  let prevpoint : UInt32 := if 0 < i then sc.queue.getD (i - 1) 0 - lsc else 0
  let maxError := (point - prevpoint) / 2
  let maxError := if maxError > sc.maxError then sc.maxError else maxError
  ⟨(point - maxError).toInt32, point.toInt32⟩

/-- `QUADRATIC_DEV` -/
def quadraticDev : UInt32 := 11

/-- `idiv_up`: division rounding up, for a positive divisor. -/
def idivUp (n d : Int32) : Int32 :=
  if n ≥ 0 then (n + d - 1) / d else n / d

/-- `idiv_down`: division rounding down, for a positive divisor. -/
def idivDown (n d : Int32) : Int32 :=
  if n ≥ 0 then n / d else (n - d + 1) / d

/-- How the inner loop of `compress_bisect_add` ends: out of queue, with the move of all
    `count` points, or at the point `nextcount` that no interval reaches. -/
inductive Inner
  | ret (interval count : Int32)
  | stop (nextmininterval nextmaxinterval interval : Int32) (nextcount : Nat) (nextpoint : Points)

/-- The inner loop of `compress_bisect_add` for one `add`: the interval range that puts the
    first `nextcount - 1` points in their windows, narrowed by point `nextcount`.  `qlen` is
    `qlast - queue_pos`. -/
def innerLoop (sc : Stepcompress) (qlen : Nat) (add : Int32) :
    Nat → Nat → Int32 → Int32 → Int32 → Option Inner
  | 0, _, _, _, _ => none
  | fuel + 1, nextcount, nextmininterval, nextmaxinterval, interval =>
    if qlen ≤ nextcount - 1 then some (.ret interval (Int32.ofNat (nextcount - 1)))
    else
      let nextpoint := minmaxPoint sc (nextcount - 1)
      let nc := Int32.ofNat nextcount
      let nextaddfactor := nc * (nc - 1) / 2
      let c := add * nextaddfactor
      let nextmininterval := if nextmininterval * nc < nextpoint.minp - c
        then idivUp (nextpoint.minp - c) nc else nextmininterval
      let nextmaxinterval := if nextmaxinterval * nc > nextpoint.maxp - c
        then idivDown (nextpoint.maxp - c) nc else nextmaxinterval
      if nextmininterval > nextmaxinterval then
        some (.stop nextmininterval nextmaxinterval interval nextcount nextpoint)
      else innerLoop sc qlen add fuel (nextcount + 1) nextmininterval nextmaxinterval nextmaxinterval

/-- The variables of the outer loop of `compress_bisect_add`. -/
structure Search where
  outerMininterval : Int32
  outerMaxinterval : Int32
  add : Int32
  minadd : Int32
  maxadd : Int32
  bestinterval : Int32
  bestcount : Int32
  bestadd : Int32
  bestreach : Int32
  zerointerval : Int32
  zerocount : Int32

/-- The move `compress_bisect_add` returns once the add range is empty: the best one, or the
    best with `add = 0` when it has at least `16/17` of the best count. -/
def Search.finish (s : Search) (taskline : UInt32) : StepMove :=
  if s.zerocount + s.zerocount / 16 ≥ s.bestcount then
    ⟨s.zerointerval.toUInt32, s.zerocount.toUInt32.toUInt16, 0, taskline⟩
  else ⟨s.bestinterval.toUInt32, s.bestcount.toUInt32.toUInt16, s.bestadd.toInt16, taskline⟩

/-- Record the sequence of `count` points ending at `interval` with the current `add` when it
    reaches further than the best so far. -/
def Search.record (s : Search) (interval count reach : Int32) : Search :=
  let s := { s with bestinterval := interval, bestcount := count, bestadd := s.add, bestreach := reach }
  if s.add = 0 then { s with zerointerval := interval, zerocount := count } else s

/-- The outer loop of `compress_bisect_add`: try the current `add`, keep the best sequence, and
    bisect the add range towards the side that could reach the failing point. -/
def outerLoop (sc : Stepcompress) (qlen : Nat) : Nat → Search → Option StepMove
  | 0, _ => none
  | fuel + 1, s =>
    match innerLoop sc qlen s.add (qlen + 1) 2 s.outerMininterval s.outerMaxinterval
        s.outerMaxinterval with
    | none => none
    | some (.ret interval count) =>
      some ⟨interval.toUInt32, count.toUInt32.toUInt16, s.add.toInt16, sc.taskline⟩
    | some (.stop nextmininterval nextmaxinterval interval nextcount nextpoint) =>
      let count := Int32.ofNat nextcount - 1
      let addfactor := count * (count - 1) / 2
      let reach := s.add * addfactor + interval * count
      let better := reach > s.bestreach || (reach == s.bestreach && interval > s.bestinterval)
      let s : Search := if better then s.record interval count reach else s
      -- no `add` improves a sequence this long; stopping also avoids overflow
      if better && count > 0x200 then some (s.finish sc.taskline)
      else
        let nc := Int32.ofNat nextcount
        let nextaddfactor := nc * (nc - 1) / 2
        let nextreach := s.add * nextaddfactor + interval * nc
        let s : Search := if nextreach < nextpoint.minp
          then { s with minadd := s.add + 1, outerMaxinterval := nextmaxinterval }
          else { s with maxadd := s.add - 1, outerMininterval := nextmininterval }
        let s : Search := if count > 1 then
            let errdelta := ((sc.maxError * quadraticDev) / (count * count).toUInt32).toInt32
            let s : Search := if s.minadd < s.add - errdelta then { s with minadd := s.add - errdelta } else s
            if s.maxadd > s.add + errdelta then { s with maxadd := s.add + errdelta } else s
          else s
        let c := s.outerMaxinterval * nc
        let s : Search := if s.minadd * nextaddfactor < nextpoint.minp - c
          then { s with minadd := idivUp (nextpoint.minp - c) nextaddfactor } else s
        let c := s.outerMininterval * nc
        let s : Search := if s.maxadd * nextaddfactor > nextpoint.maxp - c
          then { s with maxadd := idivDown (nextpoint.maxp - c) nextaddfactor } else s
        if s.minadd > s.maxadd then some (s.finish sc.taskline)
        else outerLoop sc qlen fuel { s with add := s.maxadd - (s.maxadd - s.minadd) / 4 }

/-- `compress_bisect_add(sc)`: at most 65535 points are considered; the search starts from
    `add = 0` over the whole add range of a `int16_t`. -/
def compressBisectAdd (sc : Stepcompress) : Option StepMove :=
  let qlen := min sc.queue.length 65535
  let point := minmaxPoint sc 0
  outerLoop sc qlen 0x10001
    ⟨point.minp, point.maxp, 0, -0x8000, 0x7fff, 0, 1, 1, Int32.minValue, 0, 0⟩

/-- The errors of `check_line`, with the values its messages print:
    `Invalid sequence`, `Point %d: %d not in %d:%d`, `Point %d: interval overflow %d`. -/
inductive CheckLineError
  | invalidSequence (interval : UInt32) (count : UInt16) (add : Int16)
  | pointOutside (i : Nat) (p : UInt32) (minp maxp : Int32)
  | intervalOverflow (i : Nat) (interval : UInt32)
deriving DecidableEq, Repr

/-- The loop of `check_line` from step `i`: `p` is the time of the last step, `interval` the
    next interval. -/
def checkSteps (sc : Stepcompress) (move : StepMove) : Nat → Nat → UInt32 → UInt32 →
    Except CheckLineError Unit
  | 0, _, _, _ => .ok ()
  | n + 1, i, p, interval =>
    let point := minmaxPoint sc i
    let p := p + interval
    if p < point.minp.toUInt32 || p > point.maxp.toUInt32 then
      .error (.pointOutside (i + 1) p point.minp point.maxp)
    else if interval ≥ 0x80000000 then .error (.intervalOverflow (i + 1) interval)
    else checkSteps sc move n (i + 1) p (interval + move.add.toInt32.toUInt32)

/-- `check_line(sc, move)` -/
def checkLine (sc : Stepcompress) (move : StepMove) : Except CheckLineError Unit :=
  if move.count = 0 || (move.interval = 0 && move.add = 0 && move.count > 1)
      || move.interval ≥ 0x80000000 then
    .error (.invalidSequence move.interval move.count move.add)
  else checkSteps sc move move.count.toNat 0 0 move.interval

/-! ## What `check_line` accepts -/

/-- The times of the steps of a move after the step at `p`, the next `interval` ticks later and
    each interval `add` longer than the one before, in `uint32_t` arithmetic. -/
def stepTimes (add : UInt32) : Nat → UInt32 → UInt32 → List UInt32
  | 0, _, _ => []
  | n + 1, p, interval => (p + interval) :: stepTimes add n (p + interval) (interval + add)

/-- One round of `check_line`'s loop passes when its step lands in the window, its interval is
    below `2^31`, and the rounds after it pass. -/
theorem checkSteps_succ_ok {sc : Stepcompress} {move : StepMove} {n i : Nat} {p interval : UInt32}
    (h : checkSteps sc move (n + 1) i p interval = .ok ()) :
    (minmaxPoint sc i).minp.toUInt32 ≤ p + interval ∧
      p + interval ≤ (minmaxPoint sc i).maxp.toUInt32 ∧ interval < 0x80000000 ∧
      checkSteps sc move n (i + 1) (p + interval) (interval + move.add.toInt32.toUInt32) =
        .ok () := by
  simp only [checkSteps] at h
  by_cases hwin : (decide (p + interval < (minmaxPoint sc i).minp.toUInt32) ||
      decide (p + interval > (minmaxPoint sc i).maxp.toUInt32)) = true
  · rw [if_pos hwin] at h
    cases h
  rw [if_neg hwin] at h
  by_cases hov : interval ≥ 0x80000000
  · rw [if_pos hov] at h
    cases h
  rw [if_neg hov] at h
  simp only [Bool.or_eq_true, decide_eq_true_eq, not_or, UInt32.not_lt] at hwin
  exact ⟨hwin.1, hwin.2, UInt32.not_le.mp hov, h⟩

/-- The loop of `check_line` passes only when every step lands in the window of its queued
    time. -/
theorem checkSteps_ok {sc : Stepcompress} {move : StepMove} {n i : Nat} {p interval : UInt32}
    (h : checkSteps sc move n i p interval = .ok ()) (k : Nat) (t : UInt32)
    (ht : (stepTimes move.add.toInt32.toUInt32 n p interval)[k]? = some t) :
    (minmaxPoint sc (i + k)).minp.toUInt32 ≤ t ∧ t ≤ (minmaxPoint sc (i + k)).maxp.toUInt32 := by
  induction n generalizing i p interval k with
  | zero => simp [stepTimes] at ht
  | succ n ih =>
    obtain ⟨hmin, hmax, -, hrest⟩ := checkSteps_succ_ok h
    cases k with
    | zero =>
      simp only [stepTimes, List.getElem?_cons_zero, Option.some.injEq] at ht
      subst ht
      exact ⟨hmin, hmax⟩
    | succ k =>
      simp only [stepTimes, List.getElem?_cons_succ] at ht
      rw [show i + (k + 1) = i + 1 + k by omega]
      exact ih hrest k ht

/-- **A move `check_line` accepts** steps at least once, is not `count` steps at one time, has
    an interval below `2^31`, and puts its `k`th step inside the window of the `k`th queued
    time. -/
theorem checkLine_ok {sc : Stepcompress} {move : StepMove} (h : checkLine sc move = .ok ()) :
    move.count ≠ 0 ∧ ¬ (move.interval = 0 ∧ move.add = 0 ∧ move.count > 1) ∧
      move.interval < 0x80000000 ∧
      ∀ k t, (stepTimes move.add.toInt32.toUInt32 move.count.toNat 0 move.interval)[k]? = some t →
        (minmaxPoint sc k).minp.toUInt32 ≤ t ∧ t ≤ (minmaxPoint sc k).maxp.toUInt32 := by
  unfold checkLine at h
  split at h
  · cases h
  · rename_i hvalid
    simp only [Bool.or_eq_true, Bool.and_eq_true, decide_eq_true_eq, not_or] at hvalid
    obtain ⟨⟨hc, hz⟩, hi⟩ := hvalid
    refine ⟨hc, fun ⟨h1, h2, h3⟩ => hz ⟨⟨h1, h2⟩, h3⟩, UInt32.not_le.mp hi, fun k t ht => ?_⟩
    have hk := checkSteps_ok h k t ht
    rwa [Nat.zero_add] at hk

/-- **Two steps at `last_step_clock` make `compress_bisect_add` fail its own check.**  Both
    windows are `[0, 0]`: with `add = 0` the interval range stays `[0, 0]` until the queue runs
    out, and the move `(0, 2, 0)` is returned, which `check_line` rejects. -/
theorem compressBisectAdd_repeated_clock :
    compressBisectAdd ⟨[1000, 1000], 10, 1000, 0⟩ = some ⟨0, 2, 0, 0⟩ ∧
    checkLine ⟨[1000, 1000], 10, 1000, 0⟩ ⟨0, 2, 0, 0⟩ = .error (.invalidSequence 0 2 0) :=
  ⟨by decide, rfl⟩

/-! ## Queueing steps and the position history -/

/-- `CLOCK_DIFF_MAX`: the furthest a queued step may be from `last_step_clock`. -/
def clockDiffMax : UInt64 := (3 : UInt64) <<< 28

/-- `struct history_steps` -/
structure HistorySteps where
  firstClock : UInt64
  lastClock : UInt64
  startPosition : Int
  stepCount : Int
  interval : UInt32
  add : Int16
  taskline : UInt32
deriving DecidableEq, Repr

/-- The rest of `struct stepcompress` that queueing and flushing use: the queue's offset and
    allocation in its buffer, the direction latched by `set_next_step_dir` (`-1` until the first
    step), the pending step (a clock of 0 means none), the position, the history (newest first),
    and `mcu_freq` in Hz. -/
structure StepcompressState where
  comp : Stepcompress
  queuePos : Nat
  queueAlloc : Nat
  sdir : Int
  nextStepClock : UInt64
  nextStepDir : Int
  lastPosition : Int
  history : List HistorySteps
  mcuFreq : Nat

/-- `stepcompress_alloc` followed by `stepcompress_fill` and `stepcompress_set_time`. -/
def stepcompressAlloc (maxError : UInt32) (mcuFreq : Nat) : StepcompressState :=
  ⟨⟨[], maxError, 0, 0⟩, 0, 0, -1, 0, 0, 0, [], mcuFreq⟩

/-- Why a flush stops: `check_line` rejected the move, or the search ran out of fuel. -/
inductive FlushError
  | checkLine (e : CheckLineError)
  | outOfFuel
deriving DecidableEq, Repr

/-- `add_move(sc, first_clock, move)`: the move's last step time, its history entry and the
    new position, counted up when the latched direction is nonzero. -/
def addMove (st : StepcompressState) (firstClock : UInt64) (move : StepMove) : StepcompressState :=
  let count : Int32 := move.count.toUInt32.toInt32
  let addfactor : Int32 := count * (count - 1) / 2
  let ticks : UInt32 := (move.add.toInt32 * addfactor).toUInt32 + move.interval * (move.count.toUInt32 - 1)
  let lastClock := firstClock + ticks.toUInt64
  let stepCount : Int := if st.sdir ≠ 0 then move.count.toNat else -(move.count.toNat : Int)
  { st with comp := { st.comp with lastStepClock := lastClock },
            history := ⟨firstClock, lastClock, st.lastPosition, stepCount, move.interval, move.add,
              move.taskline⟩ :: st.history,
            lastPosition := st.lastPosition + stepCount }

/-- The loop of `queue_flush`: compress, check and emit moves until `last_step_clock` reaches
    `moveClock` or the queue is empty. -/
def queueFlushLoop (moveClock : UInt64) : Nat → StepcompressState → Except FlushError StepcompressState
  | 0, _ => .error .outOfFuel
  | fuel + 1, st =>
    if st.comp.lastStepClock < moveClock then
      match compressBisectAdd st.comp with
      | none => .error .outOfFuel
      | some move =>
        match checkLine st.comp move with
        | .error e => .error (.checkLine e)
        | .ok () =>
          let st := addMove st (st.comp.lastStepClock + move.interval.toUInt64) move
          if st.comp.queue.length ≤ move.count.toNat then
            .ok { st with comp := { st.comp with queue := [] }, queuePos := 0 }
          else
            queueFlushLoop moveClock fuel
              { st with comp := { st.comp with queue := st.comp.queue.drop move.count.toNat },
                        queuePos := st.queuePos + move.count.toNat }
    else .ok st

/-- `queue_flush(sc, move_clock)`: every round consumes at least one step, so the queue length
    bounds the rounds. -/
def queueFlush (st : StepcompressState) (moveClock : UInt64) : Except FlushError StepcompressState :=
  if st.comp.queue = [] then .ok st
  else queueFlushLoop moveClock (st.comp.queue.length + 1) st

/-- `stepcompress_flush_far`: a single step far after the last one. -/
def stepcompressFlushFar (st : StepcompressState) (absStepClock : UInt64) : StepcompressState :=
  addMove st absStepClock ⟨(absStepClock - st.comp.lastStepClock).toUInt32, 1, 0, 0⟩

/-- `set_next_step_dir(sc, sdir)`: flush every queued step in the old direction first. -/
def setNextStepDir (st : StepcompressState) (sdir : Int) : Except FlushError StepcompressState :=
  if st.sdir = sdir then .ok st
  else (queueFlush st (-1 : UInt64)).map fun st => { st with sdir := sdir }

/-- `*sc->queue_next++ = clock`: the queue holds the low 32 bits. -/
def pushStep (st : StepcompressState) (clock : UInt64) : StepcompressState :=
  { st with comp := { st.comp with queue := st.comp.queue ++ [clock.toUInt32] } }

/-- `queue_append_far`: flush up to the pending step, then queue it, or send it alone when it
    is still too far. -/
def queueAppendFar (st : StepcompressState) : Except FlushError StepcompressState :=
  let stepClock := st.nextStepClock
  (queueFlush { st with nextStepClock := 0 } (stepClock - clockDiffMax + 1)).map fun st =>
    if stepClock ≥ st.comp.lastStepClock + clockDiffMax then stepcompressFlushFar st stepClock
    else pushStep st stepClock

/-- The `while (in_use >= alloc) alloc *= 2` of `queue_append_extend`. -/
def growAlloc (inUse : Nat) : Nat → Nat → Nat
  | 0, alloc => alloc
  | fuel + 1, alloc => if inUse ≥ alloc then growAlloc inUse fuel (alloc * 2) else alloc

/-- `queue_append_extend`: with more than 67535 steps queued, flush up to the 65535th from the
    end; then make room and queue the pending step. -/
def queueAppendExtend (st : StepcompressState) : Except FlushError StepcompressState :=
  let flushed := if st.comp.queue.length > 65535 + 2000 then
      let flush : UInt32 :=
        st.comp.queue.getD (st.comp.queue.length - 65535) 0 - st.comp.lastStepClock.toUInt32
      queueFlush st (st.comp.lastStepClock + flush.toUInt64)
    else .ok st
  flushed.map fun st =>
    let inUse := st.comp.queue.length
    let st := if st.queuePos + inUse ≥ st.queueAlloc then
        if st.queuePos > 0 then { st with queuePos := 0 }
        else
          let alloc := if st.queueAlloc = 0 then 1024 else st.queueAlloc
          { st with queueAlloc := growAlloc inUse (inUse + 1) alloc, queuePos := 0 }
      else st
    { pushStep st st.nextStepClock with nextStepClock := 0 }

/-- `queue_append`: latch the pending step's direction, then queue it. -/
def queueAppend (st : StepcompressState) : Except FlushError StepcompressState := do
  let st ← if st.nextStepDir ≠ st.sdir then setNextStepDir st st.nextStepDir else .ok st
  if st.nextStepClock ≥ st.comp.lastStepClock + clockDiffMax then queueAppendFar st
  else if st.queuePos + st.comp.queue.length ≥ st.queueAlloc then queueAppendExtend st
  else .ok { pushStep st st.nextStepClock with nextStepClock := 0 }

/-- `stepcompress_append(sc, sdir, print_time, step_time)`, given the step clock it computes.
    A step in the other direction less than `SDS_FILTER_TIME` (750 µs) after the pending one
    cancels it and is itself dropped. -/
def stepcompressAppend (st : StepcompressState) (sdir : Int) (stepClock : UInt64) :
    Except FlushError StepcompressState :=
  let store (st : StepcompressState) := { st with nextStepClock := stepClock, nextStepDir := sdir }
  if st.nextStepClock ≠ 0 then
    let diff : Int := (stepClock - st.nextStepClock).toInt64.toInt
    if sdir ≠ st.nextStepDir ∧ diff * 4000 < 3 * st.mcuFreq then
      .ok { st with nextStepClock := 0, nextStepDir := sdir }
    else (queueAppend st).map store
  else .ok (store st)

/-- `stepcompress_commit` -/
def stepcompressCommit (st : StepcompressState) : Except FlushError StepcompressState :=
  if st.nextStepClock ≠ 0 then queueAppend st else .ok st

/-- `stepcompress_flush(sc, move_clock)` -/
def stepcompressFlush (st : StepcompressState) (moveClock : UInt64) :
    Except FlushError StepcompressState := do
  let st ← if st.nextStepClock ≠ 0 ∧ moveClock ≥ st.nextStepClock then queueAppend st else .ok st
  queueFlush st moveClock

/-- `stepcompress_reset(sc, last_step_clock)`: flush, then restart the clock and forget the
    direction. -/
def stepcompressReset (st : StepcompressState) (lastStepClock : UInt64) :
    Except FlushError StepcompressState :=
  (stepcompressFlush st (-1 : UInt64)).map fun st =>
    { st with comp := { st.comp with lastStepClock := lastStepClock }, sdir := -1 }

/-- `stepcompress_set_last_position(sc, clock, last_position)`: flush, set the position and
    mark it in the history. -/
def stepcompressSetLastPosition (st : StepcompressState) (clock : UInt64) (lastPosition : Int) :
    Except FlushError StepcompressState :=
  (stepcompressFlush st (-1 : UInt64)).map fun st =>
    { st with lastPosition := lastPosition,
              history := ⟨clock, clock, lastPosition, 0, 0, 0, 0⟩ :: st.history }

/-- `stepcompress_set_taskline(sc, taskline)` -/
def stepcompressSetTaskline (st : StepcompressState) (taskline : UInt32) : StepcompressState :=
  if taskline ≠ st.comp.taskline then { st with comp := { st.comp with taskline := taskline } }
  else st

/-- **A step at clock 0 is lost.**  The pending step's clock doubles as the flag that a step is
    pending, so a step whose clock is 0 is never queued: after it is appended, committed and
    flushed, the position has not moved. -/
theorem stepcompressAppend_clock_zero :
    ((stepcompressAppend (stepcompressAlloc 0 1000000) 1 0).bind stepcompressCommit |>.bind
      (stepcompressFlush · (-1 : UInt64))).toOption.map StepcompressState.lastPosition = some 0 := by
  decide

/-! ### Tasklines

The CreatBot `taskline` of a `queue_step` is read from `sc->taskline` when `compress_bisect_add`
builds the move, that is at flush time: every move a flush emits carries the taskline of the
last `stepcompress_set_taskline` before the flush (`queueFlush_taskline`), whichever tasklines
were current when its steps were appended. -/

theorem Search.finish_taskline (s : Search) (taskline : UInt32) :
    (s.finish taskline).taskline = taskline := by
  unfold Search.finish
  split <;> rfl

theorem outerLoop_taskline {sc : Stepcompress} {qlen : Nat} :
    ∀ {fuel : Nat} {s : Search} {move : StepMove}, outerLoop sc qlen fuel s = some move →
      move.taskline = sc.taskline
  | 0, _, _, h => by cases h
  | fuel + 1, s, move, h => by
    rw [outerLoop] at h
    split at h
    · cases h
    · cases h
      rfl
    · -- the search stops with its best move, or goes on with a narrower add range
      extract_lets at h
      split at h
      · cases h
        exact Search.finish_taskline _ _
      · split at h
        · cases h
          exact Search.finish_taskline _ _
        · exact outerLoop_taskline h

theorem compressBisectAdd_taskline {sc : Stepcompress} {move : StepMove}
    (h : compressBisectAdd sc = some move) : move.taskline = sc.taskline :=
  outerLoop_taskline h

/-- **Run lemma.**  A flush adds history entries (one per `queue_step` sent) in front of the
    old ones, all with the taskline current at the flush, and keeps that taskline. -/
theorem queueFlushLoop_taskline {moveClock : UInt64} :
    ∀ {fuel : Nat} {st st' : StepcompressState}, queueFlushLoop moveClock fuel st = .ok st' →
      st'.comp.taskline = st.comp.taskline ∧
        ∃ new, st'.history = new ++ st.history ∧ ∀ e ∈ new, e.taskline = st.comp.taskline
  | 0, _, _, h => by cases h
  | fuel + 1, st, st', h => by
    rw [queueFlushLoop] at h
    split at h
    · split at h
      · cases h
      · rename_i move hmove
        have hmt := compressBisectAdd_taskline hmove
        split at h
        · cases h
        · -- the emitted move is the entry `add_move` puts in front
          extract_lets at h
          split at h
          · cases h
            exact ⟨rfl, [_], rfl, by simpa using hmt⟩
          · obtain ⟨ht, new, hh, hnew⟩ := queueFlushLoop_taskline h
            refine ⟨ht, new ++ [_], by rw [hh, List.append_assoc]; rfl, fun e he => ?_⟩
            rcases List.mem_append.mp he with he | he
            · exact hnew e he
            · rw [List.mem_singleton.mp he]
              exact hmt
    · cases h
      exact ⟨rfl, [], rfl, by simp⟩

theorem queueFlush_taskline {st st' : StepcompressState} {moveClock : UInt64}
    (h : queueFlush st moveClock = .ok st') :
    st'.comp.taskline = st.comp.taskline ∧
      ∃ new, st'.history = new ++ st.history ∧ ∀ e ∈ new, e.taskline = st.comp.taskline := by
  unfold queueFlush at h
  split at h
  · cases h
    exact ⟨rfl, [], rfl, by simp⟩
  · exact queueFlushLoop_taskline h

/-- Two steps appended under tasklines 1 and 2, then the taskline of a move that has no step on
    this stepper, 3: the flush sends both steps in one `queue_step` with taskline 3. -/
theorem queue_step_taskline_at_flush :
    ((stepcompressAppend (stepcompressSetTaskline (stepcompressAlloc 10 1000000) 1) 1 100
        >>= stepcompressCommit)
      >>= (fun st => stepcompressAppend (stepcompressSetTaskline st 2) 1 200 >>= stepcompressCommit)
      >>= (fun st => stepcompressFlush (stepcompressSetTaskline st 3) (-1 : UInt64))).toOption.map
        (fun st => st.history.map fun e => (e.firstClock, e.stepCount, e.taskline)) =
      some [(100, 2, 3)] := by
  decide

end Klipper.StepCompress
