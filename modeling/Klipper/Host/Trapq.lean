import Mathlib
import Klipper.Lib.Transition
import Klipper.Lib.Tiling

/-
  The trapezoid velocity queue of the host (chelper/trapq.c), with times as exact rationals.

  A trapq holds the moves the toolhead has planned, each a piece of constant acceleration that
  starts at `print_time` and lasts `move_t`.  The C list keeps them between two sentinels: a head
  sentinel that stays the zero move `move_alloc` makes, and a tail sentinel whose `print_time` is
  either the end of the last move (or `NEVER_TIME` when there is none) or 0, the mark that it has
  to be recomputed by `trapq_check_sentinels`.  The model keeps the moves between the sentinels as
  a list, the tail sentinel's two fields that the code writes, and the history list, newest first.

  `trapq_add_move` fills a gap before a new move with a null move.  Its test for the head sentinel
  is `!prev->print_time`, and a real move can start at time 0 too: after a move at 0, a later move
  more than `MAX_NULL_MOVE` after its end gets a null move that starts one second before it, and
  the queue has a hole (`trapq_first_move_at_zero_gap`).  With every append after time 0 the
  queue stays gap-free and increasing, the tail sentinel is right whenever it is checked, and
  finalizing expires exactly the moves that end in time (`trapq_time_continuity`).  The sentinel
  and finalizing facts need no promise from the callers at all (`sentinelOk_of_reachable`,
  `trapqFinalizeMoves_spec`).
-/

namespace Klipper.TrapQueue

/-! ## Moves -/

/-- `struct coord` -/
structure Coord where
  x : ℚ
  y : ℚ
  z : ℚ
deriving DecidableEq, Repr

/-- `struct move`; its place in a list is its place in the model's lists. -/
structure Move where
  taskline : ℚ
  printTime : ℚ
  moveT : ℚ
  startV : ℚ
  halfAccel : ℚ
  startPos : Coord
  axesR : Coord
deriving DecidableEq, Repr

/-- `move_alloc`: a move with every field 0 (the `memset`). -/
def moveAlloc : Move := ⟨0, 0, 0, 0, 0, ⟨0, 0, 0⟩, ⟨0, 0, 0⟩⟩

/-- `m->print_time + m->move_t`, the time a move ends. -/
def Move.endTime (m : Move) : ℚ := m.printTime + m.moveT

/-- `move_get_distance` -/
def moveGetDistance (m : Move) (moveTime : ℚ) : ℚ :=
  (m.startV + m.halfAccel * moveTime) * moveTime

/-- `move_get_coord` -/
def moveGetCoord (m : Move) (moveTime : ℚ) : Coord :=
  let moveDist := moveGetDistance m moveTime
  ⟨m.startPos.x + m.axesR.x * moveDist, m.startPos.y + m.axesR.y * moveDist,
    m.startPos.z + m.axesR.z * moveDist⟩

/-- The test of `trapq_finalize_moves` that keeps an expired move in the history:
    `m->start_v || m->half_accel`. -/
def Move.hasMotion (m : Move) : Bool := m.startV != 0 || m.halfAccel != 0

/-! ## The queue -/

/-- `NEVER_TIME`, 9999999999999999.9 -/
def neverTime : ℚ := 99999999999999999 / 10

/-- `struct trapq`: the moves strictly between the sentinels, oldest first; the tail sentinel's
    `print_time` and `start_pos`; and the history, newest first. -/
structure Trapq where
  moves : List Move
  tailPrintTime : ℚ
  tailStartPos : Coord
  history : List Move

/-- `trapq_alloc`: no moves, and a tail sentinel at `NEVER_TIME`. -/
def trapqAlloc : Trapq := ⟨[], neverTime, ⟨0, 0, 0⟩, []⟩

/-- `trapq_check_sentinels`: a tail sentinel marked by 0 is set to the end of the last move, or
    to `NEVER_TIME` when there are no moves. -/
def trapqCheckSentinels (tq : Trapq) : Trapq :=
  if tq.tailPrintTime ≠ 0 then
    -- already up to date
    tq
  else
    match tq.moves.getLast? with
    | none => { tq with tailPrintTime := neverTime }
    | some m => { tq with tailPrintTime := m.endTime, tailStartPos := moveGetCoord m m.moveT }

/-- `MAX_NULL_MOVE` -/
def maxNullMove : ℚ := 1

/-- The null move `trapq_add_move` puts between `prev` (the last move, or the head sentinel) and
    the new move `m`. -/
def nullMove (prev m : Move) : Move :=
  -- the first null move starts at most `MAX_NULL_MOVE` before `m`
  let printTime :=
    if prev.printTime = 0 ∧ maxNullMove < m.printTime then m.printTime - maxNullMove
    else prev.endTime
  { moveAlloc with startPos := m.startPos, taskline := m.taskline, printTime := printTime,
                   moveT := m.printTime - printTime }

/-- `trapq_add_move`: `prev` is the entry before the tail sentinel, which is the head sentinel
    when the queue is empty. -/
def trapqAddMove (tq : Trapq) (m : Move) : Trapq :=
  let prev := tq.moves.getLastD moveAlloc
  let moves := if prev.endTime < m.printTime then tq.moves ++ [nullMove prev m] else tq.moves
  { tq with moves := moves ++ [m], tailPrintTime := 0 }

/-- One of the three blocks of `trapq_append`: queue a move of duration `moveT` if that is not
    0, and return the queue with the time and position where the next block starts. -/
def appendSegment (tq : Trapq) (printTime moveT startV halfAccel : ℚ) (startPos axesR : Coord)
    (taskline : ℚ) : Trapq × ℚ × Coord :=
  if moveT ≠ 0 then
    let m : Move := ⟨taskline, printTime, moveT, startV, halfAccel, startPos, axesR⟩
    (trapqAddMove tq m, printTime + moveT, moveGetCoord m moveT)
  else (tq, printTime, startPos)

/-- `trapq_append`: the acceleration, cruise and deceleration parts, each queued when its
    duration is not 0. -/
def trapqAppend (tq : Trapq) (printTime accelT cruiseT decelT : ℚ) (startPos axesR : Coord)
    (startV cruiseV accel taskline : ℚ) : Trapq :=
  let (tq, printTime, startPos) :=
    appendSegment tq printTime accelT startV (1 / 2 * accel) startPos axesR taskline
  let (tq, printTime, startPos) :=
    appendSegment tq printTime cruiseT cruiseV 0 startPos axesR taskline
  (appendSegment tq printTime decelT cruiseV (-(1 / 2) * accel) startPos axesR taskline).1

/-- The first loop of `trapq_finalize_moves`: move the leading moves that end by `printTime`
    off the queue, the ones with motion to the head of the history. -/
def expireMoves (printTime : ℚ) : List Move → List Move → List Move × List Move
  | [], history => ([], history)
  | m :: ms, history =>
    if printTime < m.endTime then (m :: ms, history)
    else expireMoves printTime ms (if m.hasMotion then m :: history else history)

/-- The second loop of `trapq_finalize_moves`: free the oldest history entries that end by
    `clearHistoryTime`, never the latest one. -/
def freeOldHistory (clearHistoryTime : ℚ) : List Move → List Move
  | [] => []
  | latest :: older => latest :: older.rdropWhile fun m => decide (m.endTime ≤ clearHistoryTime)

/-- `trapq_finalize_moves` -/
def trapqFinalizeMoves (tq : Trapq) (printTime clearHistoryTime : ℚ) : Trapq :=
  let (moves, history) := expireMoves printTime tq.moves tq.history
  { tq with moves := moves,
            tailPrintTime := if moves = [] then neverTime else tq.tailPrintTime,
            history := freeOldHistory clearHistoryTime history }

/-- The pruning loop of `trapq_set_position`: free the newest history entries that start at or
    after `printTime`, and cut the first one that starts before it at `printTime`. -/
def pruneInterrupted (printTime : ℚ) : List Move → List Move
  | [] => []
  | m :: ms =>
    if m.printTime < printTime then
      (if printTime < m.endTime then { m with moveT := printTime - m.printTime } else m) :: ms
    else pruneInterrupted printTime ms

/-- `trapq_set_position`: flush every move, prune the history, and add a marker at the new
    position. -/
def trapqSetPosition (tq : Trapq) (printTime : ℚ) (pos : Coord) : Trapq :=
  let tq := trapqFinalizeMoves tq neverTime 0
  { tq with history := { moveAlloc with printTime := printTime, startPos := pos } ::
                         pruneInterrupted printTime tq.history }

/-! ## The queue as a system -/

/-- The calls other code makes on a trapq. -/
inductive Op
  | append (printTime accelT cruiseT decelT : ℚ) (startPos axesR : Coord)
      (startV cruiseV accel taskline : ℚ)
  | finalizeMoves (printTime clearHistoryTime : ℚ)
  | setPosition (printTime : ℚ) (pos : Coord)
  | checkSentinels

/-- One call. -/
def step (tq : Trapq) : Op → Trapq
  | .append printTime accelT cruiseT decelT startPos axesR startV cruiseV accel taskline =>
    trapqAppend tq printTime accelT cruiseT decelT startPos axesR startV cruiseV accel taskline
  | .finalizeMoves printTime clearHistoryTime => trapqFinalizeMoves tq printTime clearHistoryTime
  | .setPosition printTime pos => trapqSetPosition tq printTime pos
  | .checkSentinels => trapqCheckSentinels tq

/-- A sequence of calls. -/
def run (tq : Trapq) (ops : List Op) : Trapq := ops.foldl step tq

/-- A move may start at `printTime`: it is not before the end of the last queued move. -/
def StartsAfterLast (moves : List Move) (printTime : ℚ) : Prop :=
  ∀ m ∈ moves.getLast?, m.endTime ≤ printTime

instance startsAfterLastDecidable (moves : List Move) (printTime : ℚ) :
    Decidable (StartsAfterLast moves printTime) :=
  Option.decidableForallMem _

/-- What callers of `trapq_append` promise: the three durations are not negative, and the move
    does not start before the end of the last queued move. -/
def Op.Ok (tq : Trapq) : Op → Prop
  | .append printTime accelT cruiseT decelT .. =>
    0 ≤ accelT ∧ 0 ≤ cruiseT ∧ 0 ≤ decelT ∧ StartsAfterLast tq.moves printTime
  | _ => True

instance opOkDecidable (tq : Trapq) (op : Op) : Decidable (op.Ok tq) := by
  cases op <;> unfold Op.Ok <;> infer_instance

/-- The same promise, with every move starting after time 0. -/
def Op.OkAfterZero (tq : Trapq) (op : Op) : Prop :=
  op.Ok tq ∧ match op with
    | .append printTime .. => 0 < printTime
    | _ => True

/-- The states of a trapq reachable from `trapq_alloc` by calls that `ok` allows. -/
def Reachable (ok : Trapq → Op → Prop) : Trapq → Prop :=
  Transition.Reachable (· = trapqAlloc) (Transition.ofStepIf ok fun tq op => some (step tq op))

/-- **Invariant rule** for a trapq: what `trapq_alloc` has and every allowed call keeps holds in
    every reachable state. -/
theorem inv_of_reachable {ok : Trapq → Op → Prop} {I : Trapq → Prop} (hinit : I trapqAlloc)
    (hstep : ∀ tq op, I tq → ok tq op → I (step tq op)) {tq : Trapq} (h : Reachable ok tq) :
    I tq := by
  refine Transition.Reachable.inv ?_ ?_ h
  · rintro s rfl
    exact hinit
  · rintro s s' hs ⟨op, hok, hop⟩
    cases hop
    exact hstep s op hs hok

/-! ## The tail sentinel

`trapq_add_move` marks the tail sentinel stale with 0 and `trapq_check_sentinels` recomputes it;
every other call either leaves both the last move and the sentinel alone or sets the sentinel to
`NEVER_TIME` with the queue empty.  So in every reachable state, whatever the callers do, the
sentinel is where it belongs or marked, and checking it puts it where it belongs. -/

/-- Where the tail sentinel belongs: at the end of the last move, or at `NEVER_TIME`. -/
def tailTime (moves : List Move) : ℚ := (moves.getLast?.map Move.endTime).getD neverTime

/-- The tail sentinel is where it belongs, or marked by 0 for `trapq_check_sentinels`. -/
def SentinelOk (tq : Trapq) : Prop := tq.tailPrintTime = 0 ∨ tq.tailPrintTime = tailTime tq.moves

theorem trapqCheckSentinels_moves (tq : Trapq) : (trapqCheckSentinels tq).moves = tq.moves := by
  unfold trapqCheckSentinels
  split
  · rfl
  · split <;> rfl

theorem trapqCheckSentinels_tailPrintTime {tq : Trapq} (h : SentinelOk tq) :
    (trapqCheckSentinels tq).tailPrintTime = tailTime tq.moves := by
  unfold trapqCheckSentinels
  by_cases h0 : tq.tailPrintTime = 0
  · rw [if_neg (not_not.mpr h0)]
    cases hl : tq.moves.getLast? with
    | none => simp [tailTime, hl]
    | some m => simp [tailTime, hl]
  · rw [if_pos h0]
    exact h.resolve_left h0

theorem trapqAppend_eq (tq : Trapq) (printTime accelT cruiseT decelT : ℚ) (startPos axesR : Coord)
    (startV cruiseV accel taskline : ℚ) :
    trapqAppend tq printTime accelT cruiseT decelT startPos axesR startV cruiseV accel taskline =
      let r := appendSegment tq printTime accelT startV (1 / 2 * accel) startPos axesR taskline
      let r := appendSegment r.1 r.2.1 cruiseT cruiseV 0 r.2.2 axesR taskline
      (appendSegment r.1 r.2.1 decelT cruiseV (-(1 / 2) * accel) r.2.2 axesR taskline).1 :=
  rfl

theorem sentinelOk_appendSegment {tq : Trapq} (h : SentinelOk tq)
    (printTime moveT startV halfAccel : ℚ) (startPos axesR : Coord) (taskline : ℚ) :
    SentinelOk (appendSegment tq printTime moveT startV halfAccel startPos axesR taskline).1 := by
  unfold appendSegment
  split
  · -- `trapq_add_move` marks the sentinel
    exact Or.inl rfl
  · exact h

/-- What the expiry loop of `trapq_finalize_moves` does: the leading moves that end by
    `printTime` leave the queue, and the ones with motion go to the head of the history, the
    last one first. -/
theorem expireMoves_eq (printTime : ℚ) : ∀ ms history : List Move,
    expireMoves printTime ms history =
      (ms.dropWhile fun m => decide (m.endTime ≤ printTime),
        ((ms.takeWhile fun m => decide (m.endTime ≤ printTime)).filter Move.hasMotion).reverse ++
          history)
  | [], _ => rfl
  | m :: ms, history => by
    by_cases hm : printTime < m.endTime
    · have hkeep : ¬decide (m.endTime ≤ printTime) = true := by simpa using hm
      rw [expireMoves, if_pos hm,
        List.dropWhile_cons_of_neg (p := fun m : Move => decide (m.endTime ≤ printTime)) hkeep,
        List.takeWhile_cons_of_neg (p := fun m : Move => decide (m.endTime ≤ printTime)) hkeep]
      rfl
    · have hgo : decide (m.endTime ≤ printTime) = true := by simpa using hm
      rw [expireMoves, if_neg hm, expireMoves_eq printTime ms,
        List.dropWhile_cons_of_pos (p := fun m : Move => decide (m.endTime ≤ printTime)) hgo,
        List.takeWhile_cons_of_pos (p := fun m : Move => decide (m.endTime ≤ printTime)) hgo]
      -- the expired move is the newest entry of the history, if it is kept at all
      cases hmo : m.hasMotion <;> simp [hmo]

theorem trapqFinalizeMoves_spec (tq : Trapq) (printTime clearHistoryTime : ℚ) :
    (trapqFinalizeMoves tq printTime clearHistoryTime).moves =
        tq.moves.dropWhile (fun m => decide (m.endTime ≤ printTime)) ∧
      (trapqFinalizeMoves tq printTime clearHistoryTime).history =
        freeOldHistory clearHistoryTime
          (((tq.moves.takeWhile fun m => decide (m.endTime ≤ printTime)).filter
            Move.hasMotion).reverse ++ tq.history) := by
  unfold trapqFinalizeMoves
  rw [expireMoves_eq]
  exact ⟨rfl, rfl⟩

theorem trapqFinalizeMoves_tailPrintTime (tq : Trapq) (printTime clearHistoryTime : ℚ) :
    (trapqFinalizeMoves tq printTime clearHistoryTime).tailPrintTime =
      if (trapqFinalizeMoves tq printTime clearHistoryTime).moves = [] then neverTime
      else tq.tailPrintTime := by
  unfold trapqFinalizeMoves
  rw [expireMoves_eq]

theorem sentinelOk_trapqFinalizeMoves {tq : Trapq} (h : SentinelOk tq)
    (printTime clearHistoryTime : ℚ) :
    SentinelOk (trapqFinalizeMoves tq printTime clearHistoryTime) := by
  have htail := trapqFinalizeMoves_tailPrintTime tq printTime clearHistoryTime
  have hmoves := (trapqFinalizeMoves_spec tq printTime clearHistoryTime).1
  by_cases he : (trapqFinalizeMoves tq printTime clearHistoryTime).moves = []
  · -- the queue ran empty: the sentinel goes to `NEVER_TIME`
    right
    rw [htail, if_pos he, he]
    rfl
  · -- the last move stays, and so does the sentinel
    rw [SentinelOk, htail, if_neg he]
    rw [hmoves] at he ⊢
    rw [tailTime, Tiling.getLast?_dropWhile he]
    exact h

theorem sentinelOk_step {tq : Trapq} (h : SentinelOk tq) : ∀ op, SentinelOk (step tq op)
  | .append printTime accelT cruiseT decelT startPos axesR startV cruiseV accel taskline => by
    rw [step, trapqAppend_eq]
    exact sentinelOk_appendSegment (sentinelOk_appendSegment (sentinelOk_appendSegment h ..) ..) ..
  | .finalizeMoves printTime clearHistoryTime => sentinelOk_trapqFinalizeMoves h ..
  | .setPosition _ _ => sentinelOk_trapqFinalizeMoves h neverTime 0
  | .checkSentinels => by
    right
    rw [step, trapqCheckSentinels_tailPrintTime h, trapqCheckSentinels_moves]

/-- In every reachable state, whatever the callers do, the tail sentinel is where it belongs or
    marked. -/
theorem sentinelOk_of_reachable {ok : Trapq → Op → Prop} {tq : Trapq} (h : Reachable ok tq) :
    SentinelOk tq :=
  inv_of_reachable (I := SentinelOk) (Or.inr rfl) (fun _ op hs _ => sentinelOk_step hs op) h

/-! ## Moves laid end to end

With every append after time 0, the last queued move starts after 0, so `trapq_add_move` takes
the head sentinel for `prev` only when the queue is empty, and a null move then covers the time
from 0, or from one second before the new move, up to it.  A later null move starts where the
last move ends.  The queue is then a tiling of time (`Tiling.Tiles`) at every step. -/

/-- The queue of a trapq whose appends all start after time 0: its moves are laid end to end,
    and the last one starts after 0, so that `trapq_add_move` cannot take it for the head
    sentinel. -/
structure Inv (tq : Trapq) : Prop where
  tiles : Tiling.Tiles Move.printTime Move.endTime tq.moves
  last_printTime_pos : ∀ m ∈ tq.moves.getLast?, 0 < m.printTime

theorem printTime_lt_endTime {m : Move} (h : 0 < m.moveT) : m.printTime < m.endTime := by
  rw [Move.endTime]
  linarith

theorem nullMove_endTime (prev m : Move) : (nullMove prev m).endTime = m.printTime := by
  simp only [nullMove, Move.endTime]
  ring

/-- A null move fills a gap: it starts before the move it is for. -/
theorem nullMove_printTime_lt {prev m : Move} (hgap : prev.endTime < m.printTime) :
    (nullMove prev m).printTime < m.printTime := by
  simp only [nullMove]
  split
  · rw [maxNullMove]
    linarith
  · exact hgap

theorem nullMove_printTime_of_ne_zero {prev : Move} (m : Move) (h : prev.printTime ≠ 0) :
    (nullMove prev m).printTime = prev.endTime := by
  simp [nullMove, h]

theorem trapqAddMove_moves (tq : Trapq) (m : Move) :
    (trapqAddMove tq m).moves =
      (if (tq.moves.getLastD moveAlloc).endTime < m.printTime then
        tq.moves ++ [nullMove (tq.moves.getLastD moveAlloc) m] else tq.moves) ++ [m] :=
  rfl

theorem Inv.trapqAddMove {tq : Trapq} {m : Move} (hi : Inv tq) (hpos : 0 < m.moveT)
    (hstart : 0 < m.printTime) (hafter : StartsAfterLast tq.moves m.printTime) :
    Inv (trapqAddMove tq m) := by
  refine ⟨?_, ?_⟩
  · have hm := printTime_lt_endTime hpos
    rw [trapqAddMove_moves]
    rcases List.eq_nil_or_concat tq.moves with hnil | ⟨L, l, hL⟩
    · -- an empty queue: `prev` is the head sentinel, and a null move always fills up to `m`
      have hgap : moveAlloc.endTime < m.printTime := by
        simpa [Move.endTime, moveAlloc] using hstart
      rw [hnil, List.getLastD_nil, if_pos hgap, List.nil_append]
      refine (Tiling.Tiles.nil.concat (by simp) ?_).concat ?_ hm
      · rw [nullMove_endTime]
        exact nullMove_printTime_lt hgap
      · simp [nullMove_endTime]
    · rw [List.concat_eq_append] at hL
      have hl : 0 < l.printTime := hi.last_printTime_pos l (by simp [hL])
      have hle : l.endTime ≤ m.printTime := hafter l (by simp [hL])
      rw [hL, List.getLastD_concat]
      have htiles : Tiling.Tiles Move.printTime Move.endTime (L ++ [l]) := hL ▸ hi.tiles
      by_cases hgap : l.endTime < m.printTime
      · -- a gap after the last move: the null move starts where `l` ends
        rw [if_pos hgap]
        refine (htiles.concat ?_ ?_).concat ?_ hm
        · simp [nullMove_printTime_of_ne_zero m hl.ne']
        · rw [nullMove_endTime]
          exact nullMove_printTime_lt hgap
        · simp [nullMove_endTime]
      · -- `m` starts where `l` ends
        rw [if_neg hgap]
        refine htiles.concat ?_ hm
        simp only [List.getLast?_concat, Option.mem_some_iff, forall_eq']
        linarith [not_lt.mp hgap]
  · intro x hx
    rw [trapqAddMove_moves, List.getLast?_concat, Option.mem_some_iff] at hx
    rw [← hx]
    exact hstart

/-- The state `trapq_append` threads through its three blocks, ready for a move at its time:
    the queue keeps `Inv`, and the time is after 0 and not before the end of the last move. -/
structure Ready (r : Trapq × ℚ × Coord) : Prop where
  inv : Inv r.1
  printTime_pos : 0 < r.2.1
  after : StartsAfterLast r.1.moves r.2.1

theorem Ready.appendSegment {r : Trapq × ℚ × Coord} (h : Ready r) {moveT : ℚ} (hT : 0 ≤ moveT)
    (startV halfAccel : ℚ) (axesR : Coord) (taskline : ℚ) :
    Ready (appendSegment r.1 r.2.1 moveT startV halfAccel r.2.2 axesR taskline) := by
  unfold TrapQueue.appendSegment
  split
  · -- a move of positive duration is queued, and the next block starts where it ends
    rename_i hne
    have hpos : 0 < moveT := lt_of_le_of_ne hT (Ne.symm hne)
    refine ⟨h.inv.trapqAddMove hpos h.printTime_pos h.after, ?_, ?_⟩
    · have := h.printTime_pos
      dsimp only
      linarith
    · intro x hx
      rw [trapqAddMove_moves, List.getLast?_concat, Option.mem_some_iff] at hx
      rw [← hx]
      exact le_refl _
  · exact h

theorem Inv.trapqAppend {tq : Trapq} (hi : Inv tq) {printTime accelT cruiseT decelT : ℚ}
    (hpt : 0 < printTime) (hafter : StartsAfterLast tq.moves printTime) (ha : 0 ≤ accelT)
    (hc : 0 ≤ cruiseT) (hd : 0 ≤ decelT) (startPos axesR : Coord)
    (startV cruiseV accel taskline : ℚ) :
    Inv (trapqAppend tq printTime accelT cruiseT decelT startPos axesR startV cruiseV accel
      taskline) := by
  have h0 : Ready (tq, printTime, startPos) := ⟨hi, hpt, hafter⟩
  rw [trapqAppend_eq]
  exact (((h0.appendSegment ha ..).appendSegment hc ..).appendSegment hd ..).inv

theorem Inv.trapqFinalizeMoves {tq : Trapq} (hi : Inv tq) (printTime clearHistoryTime : ℚ) :
    Inv (trapqFinalizeMoves tq printTime clearHistoryTime) := by
  have hmoves := (trapqFinalizeMoves_spec tq printTime clearHistoryTime).1
  refine ⟨?_, ?_⟩
  · -- what is left is a suffix of a tiling
    rw [hmoves]
    exact hi.tiles.suffix (List.dropWhile_suffix _)
  · intro m hm
    rw [hmoves] at hm
    have hne : tq.moves.dropWhile (fun m => decide (m.endTime ≤ printTime)) ≠ [] := by
      intro he
      rw [he] at hm
      exact absurd hm (by simp)
    rw [Tiling.getLast?_dropWhile hne] at hm
    exact hi.last_printTime_pos m hm

theorem Inv.step {tq : Trapq} (hi : Inv tq) : ∀ op, op.OkAfterZero tq → Inv (step tq op)
  | .append _ _ _ _ startPos axesR startV cruiseV accel taskline, ⟨⟨ha, hc, hd, hafter⟩, hpt⟩ =>
    hi.trapqAppend hpt hafter ha hc hd startPos axesR startV cruiseV accel taskline
  | .finalizeMoves printTime clearHistoryTime, _ => hi.trapqFinalizeMoves printTime clearHistoryTime
  | .setPosition _ _, _ =>
    -- the moves are those of `trapq_finalize_moves` to `NEVER_TIME`
    have hf := hi.trapqFinalizeMoves neverTime 0
    ⟨hf.tiles, hf.last_printTime_pos⟩
  | .checkSentinels, _ => by
    rw [TrapQueue.step]
    exact ⟨trapqCheckSentinels_moves tq ▸ hi.tiles,
      trapqCheckSentinels_moves tq ▸ hi.last_printTime_pos⟩

theorem Inv.of_reachable {tq : Trapq} (h : Reachable Op.OkAfterZero tq) : Inv tq :=
  inv_of_reachable ⟨Tiling.Tiles.nil, by simp [trapqAlloc]⟩ (fun _ op hi hok => hi.step op hok) h

/-- What `itersolve`'s scans rely on: every time from the start of the first queued move to the
    end of the last lies in exactly one move. -/
theorem moves_cover {tq : Trapq} (h : Reachable Op.OkAfterZero tq) (hne : tq.moves ≠ [])
    {τ : ℚ} (h1 : (tq.moves.head hne).printTime ≤ τ) (h2 : τ < (tq.moves.getLast hne).endTime) :
    ∃! m, m ∈ tq.moves ∧ m.printTime ≤ τ ∧ τ < m.endTime := by
  have hi := Inv.of_reachable h
  obtain ⟨m, hm, hmτ⟩ := hi.tiles.exists_cover hne h1 h2
  exact ⟨m, ⟨hm, hmτ⟩, fun m' ⟨hm', hm'τ⟩ => hi.tiles.cover_unique hm' hm hm'τ hmτ⟩

/-! ## Time continuity -/

/-- Along calls whose appends start after time 0 and not before the end of the last queued
    move, the queued moves start in increasing order, each where the one before ends; checking
    the sentinels puts the tail at the end of the last move; and finalizing to `printTime`
    removes the moves that end by then, which are the leading ones, and puts those with motion
    at the head of the history, the latest first, before the history is cut back. -/
theorem trapq_time_continuity {tq : Trapq} (h : Reachable Op.OkAfterZero tq) :
    (tq.moves.Pairwise fun a b => a.printTime < b.printTime) ∧
      tq.moves.IsChain (fun a b => b.printTime = a.endTime) ∧
      (trapqCheckSentinels tq).tailPrintTime = tailTime tq.moves ∧
      ∀ printTime clearHistoryTime : ℚ,
        tq.moves = tq.moves.filter (fun m => decide (m.endTime ≤ printTime)) ++
            (trapqFinalizeMoves tq printTime clearHistoryTime).moves ∧
          (trapqFinalizeMoves tq printTime clearHistoryTime).moves =
            tq.moves.filter (fun m => decide (printTime < m.endTime)) ∧
          (trapqFinalizeMoves tq printTime clearHistoryTime).history =
            freeOldHistory clearHistoryTime
              (((tq.moves.filter fun m => decide (m.endTime ≤ printTime)).filter
                Move.hasMotion).reverse ++ tq.history) := by
  have hi := Inv.of_reachable h
  refine ⟨hi.tiles.start_lt, hi.tiles.adjacent,
    trapqCheckSentinels_tailPrintTime (sentinelOk_of_reachable h), ?_⟩
  intro printTime clearHistoryTime
  obtain ⟨hmoves, hhistory⟩ := trapqFinalizeMoves_spec tq printTime clearHistoryTime
  -- the moves end in increasing order, so the leading ones that end in time are all that do
  have htake := hi.tiles.takeWhile_stop_le printTime
  have hdrop := hi.tiles.dropWhile_stop_le printTime
  refine ⟨?_, by rw [hmoves, hdrop], by rw [hhistory, htake]⟩
  rw [hmoves, ← htake, List.takeWhile_append_dropWhile]

/-- One append at time 2 of an acceleration, a cruise and a deceleration part of a second
    each. -/
theorem trapq_time_continuity_one_append :
    Reachable Op.OkAfterZero (run trapqAlloc [.append 2 1 1 1 ⟨0, 0, 0⟩ ⟨1, 0, 0⟩ 0 1 1 0]) ∧
      (((run trapqAlloc [.append 2 1 1 1 ⟨0, 0, 0⟩ ⟨1, 0, 0⟩ 0 1 1 0]).moves.Pairwise
          fun a b => a.printTime < b.printTime) ∧
        (run trapqAlloc [.append 2 1 1 1 ⟨0, 0, 0⟩ ⟨1, 0, 0⟩ 0 1 1 0]).moves.IsChain
          (fun a b => b.printTime = a.endTime) ∧
        (trapqCheckSentinels
            (run trapqAlloc [.append 2 1 1 1 ⟨0, 0, 0⟩ ⟨1, 0, 0⟩ 0 1 1 0])).tailPrintTime =
          tailTime (run trapqAlloc [.append 2 1 1 1 ⟨0, 0, 0⟩ ⟨1, 0, 0⟩ 0 1 1 0]).moves ∧
        ∀ printTime clearHistoryTime : ℚ,
          (run trapqAlloc [.append 2 1 1 1 ⟨0, 0, 0⟩ ⟨1, 0, 0⟩ 0 1 1 0]).moves =
              (run trapqAlloc [.append 2 1 1 1 ⟨0, 0, 0⟩ ⟨1, 0, 0⟩ 0 1 1 0]).moves.filter
                (fun m => decide (m.endTime ≤ printTime)) ++
              (trapqFinalizeMoves (run trapqAlloc [.append 2 1 1 1 ⟨0, 0, 0⟩ ⟨1, 0, 0⟩ 0 1 1 0])
                printTime clearHistoryTime).moves ∧
            (trapqFinalizeMoves (run trapqAlloc [.append 2 1 1 1 ⟨0, 0, 0⟩ ⟨1, 0, 0⟩ 0 1 1 0])
                printTime clearHistoryTime).moves =
              (run trapqAlloc [.append 2 1 1 1 ⟨0, 0, 0⟩ ⟨1, 0, 0⟩ 0 1 1 0]).moves.filter
                (fun m => decide (printTime < m.endTime)) ∧
            (trapqFinalizeMoves (run trapqAlloc [.append 2 1 1 1 ⟨0, 0, 0⟩ ⟨1, 0, 0⟩ 0 1 1 0])
                printTime clearHistoryTime).history =
              freeOldHistory clearHistoryTime
                ((((run trapqAlloc [.append 2 1 1 1 ⟨0, 0, 0⟩ ⟨1, 0, 0⟩ 0 1 1 0]).moves.filter
                  fun m => decide (m.endTime ≤ printTime)).filter Move.hasMotion).reverse ++
                  (run trapqAlloc [.append 2 1 1 1 ⟨0, 0, 0⟩ ⟨1, 0, 0⟩ 0 1 1 0]).history)) := by
  have hreach :
      Reachable Op.OkAfterZero (run trapqAlloc [.append 2 1 1 1 ⟨0, 0, 0⟩ ⟨1, 0, 0⟩ 0 1 1 0]) :=
    .step (.init rfl)
      ⟨.append 2 1 1 1 ⟨0, 0, 0⟩ ⟨1, 0, 0⟩ 0 1 1 0, ⟨by decide +kernel, by norm_num⟩, rfl⟩
  exact ⟨hreach, trapq_time_continuity hreach⟩

/-- A first move at time 0, and a second one more than a second after its end: the null move
    before the second starts one second before it, not where the first ends, and the queue has
    no move from 1/2 to 4. -/
theorem trapq_first_move_at_zero_gap :
    Reachable Op.Ok (run trapqAlloc [.append 0 (1 / 2) 0 0 ⟨0, 0, 0⟩ ⟨1, 0, 0⟩ 0 0 4 0,
        .append 5 1 0 0 ⟨1 / 2, 0, 0⟩ ⟨1, 0, 0⟩ 0 0 4 0]) ∧
      ((run trapqAlloc [.append 0 (1 / 2) 0 0 ⟨0, 0, 0⟩ ⟨1, 0, 0⟩ 0 0 4 0,
        .append 5 1 0 0 ⟨1 / 2, 0, 0⟩ ⟨1, 0, 0⟩ 0 0 4 0]).moves.map
          fun m => (m.printTime, m.endTime)) = [(0, 1 / 2), (4, 5), (5, 6)] := by
  refine ⟨.step (.step (.init rfl)
    ⟨.append 0 (1 / 2) 0 0 ⟨0, 0, 0⟩ ⟨1, 0, 0⟩ 0 0 4 0, by decide +kernel, rfl⟩)
    ⟨.append 5 1 0 0 ⟨1 / 2, 0, 0⟩ ⟨1, 0, 0⟩ 0 0 4 0, by decide +kernel, rfl⟩, ?_⟩
  decide +kernel

end Klipper.TrapQueue
