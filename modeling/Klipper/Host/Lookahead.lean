import Mathlib

/-
  The motion planner's look-ahead (`klippy/toolhead.py`), with Python floats as exact rationals.

  Each G-code move becomes a `Move` that knows how fast it may start (`max_start_v2`), cruise
  (`max_cruise_v2`) and how much it may change its squared speed over its length (`delta_v2`,
  and the gentler `smooth_delta_v2` of `max_accel_to_decel`).  `LookAheadQueue` holds the moves
  not yet handed to the step generator.  `add_move` links a new move to the one before
  (`calc_junction`) and, once the queued moves last long enough, flushes lazily; `flush` walks
  the queue from the last move to the first, assuming a full stop after the last, and gives each
  move its junction speeds through `set_junction`.

  1. **Moves** (`Move`, `Move.init`, `Move.limitSpeed`, `Move.calcJunction`,
     `Move.setJunction`): the fields the planner reads and writes.  The geometry that needs a
     square root is an input: the length of the move, and the two quantities of the junction's
     angle that `calc_junction` computes from the directions (`JunctionAngle`).  `set_junction`
     keeps the squared speeds and the distances of its three phases; the speeds and times, which
     take square roots, are left out.
  2. **The flush** (`FlushState`, `flushStep`, `flushLoop`, `LookAheadQueue.flush`): the loop
     body of `flush` is `flushStep`, one move of the backward walk with the peak of the smoothed
     profile and the moves whose junction waits for it (`delayed`).  A lazy flush hands over only
     the moves before the second peak it meets.
  3. **The queue** (`LookAheadQueue`, `LookAheadQueue.addMove`): the queue and its flush timer,
     and the calls the toolhead makes on it (`Op`, `LookAheadQueue.step`).
-/

namespace Klipper.Lookahead

/-! ## Moves -/

/-- The toolhead's limits that `Move.__init__` reads. -/
structure ToolheadLimits where
  maxVelocity : ℚ
  maxAccel : ℚ
  junctionDeviation : ℚ
  maxAccelToDecel : ℚ

/-- The fields of `Move` that the look-ahead and `set_junction` use. -/
structure Move where
  moveD : ℚ
  accel : ℚ
  junctionDeviation : ℚ
  isKinematicMove : Bool
  minMoveT : ℚ
  maxStartV2 : ℚ
  maxCruiseV2 : ℚ
  deltaV2 : ℚ
  maxSmoothedV2 : ℚ
  smoothDeltaV2 : ℚ
  nextJunctionV2 : ℚ

/-- `Move.__init__`, from the length of the move in XYZ (`math.sqrt` of the squared axis
    distances, computed outside) and its extruder distance.  A move shorter than `1e-9` in XYZ
    is an extrude-only move, planned with a huge acceleration and no junction. -/
def Move.init (th : ToolheadLimits) (xyzD eD speed : ℚ) : Move :=
  let velocity := min speed th.maxVelocity
  if xyzD < 1 / 1000000000 then
    let moveD := |eD|
    let accel : ℚ := 999999999 / 10
    { moveD := moveD, accel := accel, junctionDeviation := th.junctionDeviation,
      isKinematicMove := false, minMoveT := moveD / speed, maxStartV2 := 0,
      maxCruiseV2 := speed ^ 2, deltaV2 := 2 * moveD * accel, maxSmoothedV2 := 0,
      smoothDeltaV2 := 2 * moveD * th.maxAccelToDecel, nextJunctionV2 := 9999999999 / 10 }
  else
    { moveD := xyzD, accel := th.maxAccel, junctionDeviation := th.junctionDeviation,
      isKinematicMove := true, minMoveT := xyzD / velocity, maxStartV2 := 0,
      maxCruiseV2 := velocity ^ 2, deltaV2 := 2 * xyzD * th.maxAccel, maxSmoothedV2 := 0,
      smoothDeltaV2 := 2 * xyzD * th.maxAccelToDecel, nextJunctionV2 := 9999999999 / 10 }

/-- `Move.limit_speed`, which the kinematics and the extruder call before the move is queued. -/
def Move.limitSpeed (m : Move) (speed accel : ℚ) : Move :=
  let speed2 := speed ^ 2
  let m := if speed2 < m.maxCruiseV2 then
    { m with maxCruiseV2 := speed2, minMoveT := m.moveD / speed } else m
  let m := { m with accel := min m.accel accel }
  let m := { m with deltaV2 := 2 * m.moveD * m.accel }
  { m with smoothDeltaV2 := min m.smoothDeltaV2 m.deltaV2 }

/-- `Move.limit_next_junction_speed` -/
def Move.limitNextJunctionSpeed (m : Move) (speed : ℚ) : Move :=
  { m with nextJunctionV2 := min m.nextJunctionV2 (speed ^ 2) }

/-- What `calc_junction` computes from the angle between two moves when
    `one_minus_sin_theta_d2 > 0 and cos_theta_d2 > 0`: `R_jd` and `quarter_tan_theta_d2`. -/
structure JunctionAngle where
  rJd : ℚ
  quarterTanThetaD2 : ℚ

/-- `Move.calc_junction(prev_move)`.  `extruderV2` is the extruder's own `calc_junction`, and
    `angle` is `none` when the angle test fails. -/
def Move.calcJunction (m prev : Move) (extruderV2 : ℚ) (angle : Option JunctionAngle) : Move :=
  if !m.isKinematicMove || !prev.isKinematicMove then m
  else
    let maxStartV2 := min extruderV2 (min m.maxCruiseV2 (min prev.maxCruiseV2
      (min prev.nextJunctionV2 (prev.maxStartV2 + prev.deltaV2))))
    let maxStartV2 := match angle with
      | some a =>
        let moveJdV2 := a.rJd * m.junctionDeviation * m.accel
        let pmoveJdV2 := a.rJd * prev.junctionDeviation * prev.accel
        -- the approximated circle must contact moves no further than mid-move
        let moveCentripetalV2 := m.deltaV2 * a.quarterTanThetaD2
        let pmoveCentripetalV2 := prev.deltaV2 * a.quarterTanThetaD2
        min maxStartV2 (min moveJdV2 (min pmoveJdV2 (min moveCentripetalV2 pmoveCentripetalV2)))
      | none => maxStartV2
    { m with maxStartV2 := maxStartV2,
             maxSmoothedV2 := min maxStartV2 (prev.maxSmoothedV2 + prev.smoothDeltaV2) }

/-- What `set_junction` records: the squared speeds and the distances of the acceleration,
    cruise and deceleration phases. -/
structure Junction where
  startV2 : ℚ
  cruiseV2 : ℚ
  endV2 : ℚ
  accelD : ℚ
  cruiseD : ℚ
  decelD : ℚ

/-- `Move.set_junction(start_v2, cruise_v2, end_v2)` -/
def Move.setJunction (m : Move) (startV2 cruiseV2 endV2 : ℚ) : Junction :=
  let halfInvAccel := 1 / 2 / m.accel
  let accelD := (cruiseV2 - startV2) * halfInvAccel
  let decelD := (cruiseV2 - endV2) * halfInvAccel
  { startV2 := startV2, cruiseV2 := cruiseV2, endV2 := endV2, accelD := accelD,
    cruiseD := m.moveD - accelD - decelD, decelD := decelD }

/-! ## The flush -/

/-- The local variables of `LookAheadQueue.flush`'s loop, and the junctions `set_junction` has
    given the moves so far, by index in the queue. -/
structure FlushState where
  nextEndV2 : ℚ
  nextSmoothedV2 : ℚ
  peakCruiseV2 : ℚ
  delayed : List (Nat × Move × ℚ × ℚ)
  flushCount : Nat
  updateFlushCount : Bool
  junctions : Nat → Option Junction

/-- The loop variables before the first move of the walk, for a queue of `n` moves. -/
def FlushState.init (lazy : Bool) (n : Nat) : FlushState :=
  ⟨0, 0, 0, [], n, lazy, fun _ => none⟩

/-- `for m, ms_v2, me_v2 in reversed(delayed)`: each delayed move cruises at the peak, lowered
    to the start speed of every delayed move before it. -/
def setDelayed (junctions : Nat → Option Junction) (mcV2 : ℚ) :
    List (Nat × Move × ℚ × ℚ) → Nat → Option Junction
  | [] => junctions
  | (j, m, msV2, meV2) :: rest =>
    let mcV2 := min mcV2 msV2
    setDelayed (Function.update junctions j (some (m.setJunction (min msV2 mcV2) mcV2 (min meV2 mcV2))))
      mcV2 rest

/-- One pass of the loop of `flush`, for move `i` of the queue. -/
def flushStep (st : FlushState) (i : Nat) (move : Move) : FlushState :=
  let reachableStartV2 := st.nextEndV2 + move.deltaV2
  let startV2 := min move.maxStartV2 reachableStartV2
  let reachableSmoothedV2 := st.nextSmoothedV2 + move.smoothDeltaV2
  let smoothedV2 := min move.maxSmoothedV2 reachableSmoothedV2
  let st :=
    if smoothedV2 < reachableSmoothedV2 then
      -- it's possible for this move to accelerate
      let st :=
        if smoothedV2 + move.smoothDeltaV2 > st.nextSmoothedV2 || !st.delayed.isEmpty then
          -- this move can decelerate, or it is a full accel move after a full decel move
          let st := if st.updateFlushCount && st.peakCruiseV2 != 0 then
            { st with flushCount := i, updateFlushCount := false } else st
          let st := { st with
            peakCruiseV2 := min move.maxCruiseV2 ((smoothedV2 + reachableSmoothedV2) * (1 / 2)) }
          if !st.delayed.isEmpty then
            -- propagate peak_cruise_v2 to the delayed moves
            let junctions := if !st.updateFlushCount && i < st.flushCount then
              setDelayed st.junctions st.peakCruiseV2 st.delayed.reverse else st.junctions
            { st with junctions := junctions, delayed := [] }
          else st
        else st
      if !st.updateFlushCount && i < st.flushCount then
        let cruiseV2 := min (min ((startV2 + reachableStartV2) * (1 / 2)) move.maxCruiseV2)
          st.peakCruiseV2
        let j := move.setJunction (min startV2 cruiseV2) cruiseV2 (min st.nextEndV2 cruiseV2)
        { st with junctions := Function.update st.junctions i (some j) }
      else st
    else
      -- delay calculating this move until peak_cruise_v2 is known
      { st with delayed := st.delayed ++ [(i, move, startV2, st.nextEndV2)] }
  { st with nextEndV2 := startV2, nextSmoothedV2 := smoothedV2 }

/-- The loop of `flush`, `for i in range(flush_count-1, -1, -1)`: the moves with their indices,
    the last one first. -/
def flushLoop : List (Move × Nat) → FlushState → FlushState
  | [], st => st
  | (m, i) :: rest, st => flushStep (flushLoop rest st) i m

/-! ## The queue -/

/-- `LOOKAHEAD_FLUSH_TIME` -/
def lookaheadFlushTime : ℚ := 1 / 4

/-- `LookAheadQueue`: the queued moves and the time left before a lazy flush. -/
structure LookAheadQueue where
  queue : List Move
  junctionFlush : ℚ

/-- `LookAheadQueue.__init__` and `reset` -/
def LookAheadQueue.init : LookAheadQueue := ⟨[], lookaheadFlushTime⟩

/-- `LookAheadQueue.set_flush_time(flush_time)` -/
def LookAheadQueue.setFlushTime (lq : LookAheadQueue) (flushTime : ℚ) : LookAheadQueue :=
  { lq with junctionFlush := flushTime }

/-- `LookAheadQueue.flush(lazy)`: the moves handed to `_process_moves`, each with the junction
    `set_junction` gave it (`none` for a move it never reached), and the queue left. -/
def LookAheadQueue.flush (lq : LookAheadQueue) (lazy : Bool) :
    LookAheadQueue × List (Move × Option Junction) :=
  let st := flushLoop lq.queue.zipIdx (FlushState.init lazy lq.queue.length)
  if st.updateFlushCount || st.flushCount == 0 then ({ lq with junctionFlush := lookaheadFlushTime }, [])
  else
    (⟨lq.queue.drop st.flushCount, lookaheadFlushTime⟩,
      (lq.queue.take st.flushCount).zipIdx.map fun (m, i) => (m, st.junctions i))

/-- `LookAheadQueue.add_move(move)`: a move after another is linked to it, and a lazy flush
    follows once the queued moves last `junction_flush`. -/
def LookAheadQueue.addMove (lq : LookAheadQueue) (move : Move) (extruderV2 : ℚ)
    (angle : Option JunctionAngle) : LookAheadQueue × List (Move × Option Junction) :=
  match lq.queue.getLast? with
  | none => ({ lq with queue := [move] }, [])
  | some prev =>
    let move := move.calcJunction prev extruderV2 angle
    let lq : LookAheadQueue := ⟨lq.queue ++ [move], lq.junctionFlush - move.minMoveT⟩
    if lq.junctionFlush ≤ 0 then lq.flush true else (lq, [])

/-- The calls the toolhead makes on its look-ahead queue while it keeps its moves. -/
inductive Op
  | addMove (move : Move) (extruderV2 : ℚ) (angle : Option JunctionAngle)
  | flush
  | setFlushTime (flushTime : ℚ)

/-- One call, with the moves it hands to `_process_moves`. -/
def LookAheadQueue.step (lq : LookAheadQueue) : Op → LookAheadQueue × List (Move × Option Junction)
  | .addMove move extruderV2 angle => lq.addMove move extruderV2 angle
  | .flush => lq.flush false
  | .setFlushTime flushTime => (lq.setFlushTime flushTime, [])

end Klipper.Lookahead
