import Mathlib

/-
  The `G1` command of `klippy/extras/gcode_move.py` as `GCodeDispatch._process_commands`
  (`klippy/gcode.py`) runs it.

  `cmd_G1` updates `last_position` one axis at a time inside its `try` block, so a value that
  does not parse, or `F <= 0`, raises after the axes before it have moved (`cmdG1Try` keeps
  those updates, as Python's in-place writes do).  It is the dispatcher that repairs this: on a
  command error it sends `gcode:command_error`, whose handler `reset_last_position` reloads
  `last_position` from `position_with_transform()`.  `speed` is written last, after the check
  of `F`, so an error never changes it.

  So a failed `G1` leaves the state as it was exactly when `last_position` was the transformed
  toolhead position before the line (`cmd_G1_atomic_of_synced`).  A toolhead whose moves end
  where they were asked to keeps that (`processG1s_synced`), but Klipper's `ToolHead.move` does
  not: a move shorter than 1e-9 keeps the old XYZ, and a failed `G1` after it moves
  `last_position` back (`cmd_G1_error_moves_last_position`).

  Positions and speeds are Python floats, read here as rationals; `float` is a parameter
  (`none` where Python raises `ValueError`).
-/

namespace Klipper.GCode

/-- A position `[x, y, z, e]`. -/
abbrev Coord := Fin 4 → ℚ

/-- The parameters of a G-code line, `gcmd.get_command_parameters()`: a dict from upper-case
    letters to the text after them. -/
abbrev Params := String → Option String

/-- The fields of `GCodeMove` that the movement commands read and write. -/
structure GCodeMove where
  absoluteCoord : Bool
  absoluteExtrude : Bool
  basePosition : Coord
  lastPosition : Coord
  speed : ℚ
  speedFactor : ℚ
  extrudeFactor : ℚ

/-- `GCodeMove.__init__` -/
def gcodeMoveInit : GCodeMove := ⟨true, true, 0, 0, 25, 1 / 60, 1⟩

/-- `cmd_G90` -/
def cmdG90 (gm : GCodeMove) : GCodeMove := { gm with absoluteCoord := true }

/-- `cmd_G91` -/
def cmdG91 (gm : GCodeMove) : GCodeMove := { gm with absoluteCoord := false }

/-- `cmd_M82` -/
def cmdM82 (gm : GCodeMove) : GCodeMove := { gm with absoluteExtrude := true }

/-- `cmd_M83` -/
def cmdM83 (gm : GCodeMove) : GCodeMove := { gm with absoluteExtrude := false }

/-- The command errors of `cmd_G1`. -/
inductive G1Error
  | unableToParse
  | invalidSpeed
deriving DecidableEq, Repr

/-- Their texts, with `gcmd.get_commandline()`. -/
def G1Error.message (commandline : String) : G1Error → String
  | .unableToParse => "Unable to parse move \x27" ++ commandline ++ "\x27"
  | .invalidSpeed => "Invalid speed in \x27" ++ commandline ++ "\x27"

/-! ## `cmd_G1` -/

section CmdG1

variable (float : String → Option ℚ) (params : Params)

/-- One axis of the loop over `XYZ`. -/
def setAxis (pos : Fin 4) (axis : String) (gm : GCodeMove) : Option GCodeMove :=
  match params axis with
  | none => some gm
  | some s =>
    (float s).map fun v =>
      if !gm.absoluteCoord then
        -- value relative to position of last move
        { gm with lastPosition := Function.update gm.lastPosition pos (gm.lastPosition pos + v) }
      else
        -- value relative to base coordinate position
        { gm with lastPosition := Function.update gm.lastPosition pos (v + gm.basePosition pos) }

/-- The `E` parameter, scaled by `extrude_factor`; relative in `G91` and in `M83`. -/
def setExtrude (gm : GCodeMove) : Option GCodeMove :=
  match params "E" with
  | none => some gm
  | some s =>
    (float s).map fun e =>
      let v := e * gm.extrudeFactor
      if !gm.absoluteCoord || !gm.absoluteExtrude then
        { gm with lastPosition := Function.update gm.lastPosition 3 (gm.lastPosition 3 + v) }
      else { gm with lastPosition := Function.update gm.lastPosition 3 (v + gm.basePosition 3) }

/-- The updates in order; the first that raises stops the run, and the state keeps the updates
    made before it.  The flag says whether all of them ran. -/
def runUpdates : List (GCodeMove → Option GCodeMove) → GCodeMove → GCodeMove × Bool
  | [], gm => (gm, true)
  | u :: us, gm =>
    match u gm with
    | none => (gm, false)
    | some gm' => runUpdates us gm'

/-- The `F` parameter, the last thing the `try` block does. -/
def setSpeed (gm : GCodeMove) : GCodeMove × Option G1Error :=
  match params "F" with
  | none => (gm, none)
  | some s =>
    match float s with
    | none => (gm, some .unableToParse)
    | some gcodeSpeed =>
      if gcodeSpeed ≤ 0 then (gm, some .invalidSpeed)
      else ({ gm with speed := gcodeSpeed * gm.speedFactor }, none)

/-- The `try` block of `cmd_G1`: the state it leaves and the error it raises, if any. -/
def cmdG1Try (gm : GCodeMove) : GCodeMove × Option G1Error :=
  let updates := [setAxis float params 0 "X", setAxis float params 1 "Y",
    setAxis float params 2 "Z", setExtrude float params]
  match runUpdates updates gm with
  | (gm, false) => (gm, some .unableToParse)
  | (gm, true) => setSpeed float params gm

end CmdG1

/-! ## Dispatch -/

/-- What `GCodeMove` calls on the toolhead (or on the move transform registered in front of
    it): `move_with_transform(newpos, speed, line)`, which may raise a command error such as
    "Move out of range", and `position_with_transform()`. -/
structure MoveTransform (T : Type) where
  moveWithTransform : T → Coord → ℚ → Nat → Except String T
  positionWithTransform : T → Coord

/-- A command error reported by `_process_commands` for a `G1` line. -/
inductive DispatchError
  | g1 (e : G1Error)
  | move (msg : String)
deriving DecidableEq, Repr

/-- A `G1` line's effect: the new states, the error if any, and the calls of
    `move_with_transform` made (position, speed and line). -/
structure G1Result (T : Type) where
  gm : GCodeMove
  th : T
  error : Option DispatchError
  moves : List (Coord × ℚ × Nat)

section Dispatch

variable {T : Type} (mt : MoveTransform T)

/-- `reset_last_position`, the handler of `gcode:command_error` (`G1` runs only when the
    printer is ready, so `is_printer_ready` holds). -/
def resetLastPosition (th : T) (gm : GCodeMove) : GCodeMove :=
  { gm with lastPosition := mt.positionWithTransform th }

/-- `_process_commands` running one `G1` line with task line `line`: `cmd_G1`, and after a
    command error the event `gcode:command_error`. -/
def processG1 (float : String → Option ℚ) (params : Params) (line : Nat) (gm : GCodeMove)
    (th : T) : G1Result T :=
  match cmdG1Try float params gm with
  | (gm', some e) => ⟨resetLastPosition mt th gm', th, some (.g1 e), []⟩
  | (gm', none) =>
    let call := (gm'.lastPosition, gm'.speed, line)
    match mt.moveWithTransform th gm'.lastPosition gm'.speed line with
    | .ok th' => ⟨gm', th', none, [call]⟩
    | .error msg => ⟨resetLastPosition mt th gm', th, some (.move msg), [call]⟩

/-- A run of `G1` lines. -/
def processG1s (float : String → Option ℚ) : List (Params × Nat) → GCodeMove → T → GCodeMove × T
  | [], gm, th => (gm, th)
  | (params, line) :: rest, gm, th =>
    let r := processG1 mt float params line gm th
    processG1s float rest r.gm r.th

end Dispatch

/-! ## A failed `G1` -/

/-- An update that writes `last_position` only. -/
def OnlyPosition (u : GCodeMove → Option GCodeMove) : Prop :=
  ∀ gm gm', u gm = some gm' → gm' = { gm with lastPosition := gm'.lastPosition }

section Proofs

variable {float : String → Option ℚ} {params : Params}

theorem setAxis_onlyPosition (pos : Fin 4) (axis : String) :
    OnlyPosition (setAxis float params pos axis) := by
  intro gm gm' h
  unfold setAxis at h
  split at h
  · cases h
    rfl
  · obtain ⟨v, -, rfl⟩ := Option.map_eq_some_iff.mp h
    split <;> rfl

theorem setExtrude_onlyPosition : OnlyPosition (setExtrude float params) := by
  intro gm gm' h
  unfold setExtrude at h
  split at h
  · cases h
    rfl
  · obtain ⟨v, -, rfl⟩ := Option.map_eq_some_iff.mp h
    split <;> rfl

/-- A run of updates that write `last_position` only writes `last_position` only. -/
theorem runUpdates_onlyPosition :
    ∀ {us : List (GCodeMove → Option GCodeMove)} {gm : GCodeMove}, (∀ u ∈ us, OnlyPosition u) →
      (runUpdates us gm).1 = { gm with lastPosition := (runUpdates us gm).1.lastPosition }
  | [], gm, _ => rfl
  | u :: us, gm, hus => by
    rw [runUpdates]
    split
    · rfl
    · rename_i gm' hu
      have h1 := hus u List.mem_cons_self gm gm' hu
      have h2 : (runUpdates us gm').1 = { gm' with lastPosition := (runUpdates us gm').1.lastPosition } :=
        runUpdates_onlyPosition fun u' h' => hus u' (List.mem_cons_of_mem _ h')
      rw [h2, h1]

/-- A failed check of `F` leaves the state as it found it. -/
theorem setSpeed_of_error {gm : GCodeMove} {e : G1Error}
    (h : (setSpeed float params gm).2 = some e) : (setSpeed float params gm).1 = gm := by
  unfold setSpeed at h ⊢
  cases hF : params "F" with
  | none => simp only [hF, reduceCtorEq] at h
  | some s =>
    simp only [hF] at h ⊢
    cases hf : float s with
    | none => rfl
    | some v =>
      simp only [hf] at h ⊢
      by_cases hv : v ≤ 0
      · rw [if_pos hv]
      · rw [if_neg hv] at h
        cases h

/-- **Frame of a failed `try` block.**  When `cmd_G1` raises, only `last_position` has changed:
    `speed` is written after the last check. -/
theorem cmdG1Try_of_error {gm : GCodeMove} {e : G1Error}
    (h : (cmdG1Try float params gm).2 = some e) :
    (cmdG1Try float params gm).1 =
      { gm with lastPosition := (cmdG1Try float params gm).1.lastPosition } := by
  have hup : ∀ u ∈ [setAxis float params 0 "X", setAxis float params 1 "Y",
      setAxis float params 2 "Z", setExtrude float params], OnlyPosition u := by
    simp only [List.mem_cons, List.not_mem_nil, or_false]
    rintro u (rfl | rfl | rfl | rfl)
    all_goals first | exact setAxis_onlyPosition _ _ | exact setExtrude_onlyPosition
  have hrun : (runUpdates _ gm).1 = { gm with lastPosition := (runUpdates _ gm).1.lastPosition } :=
    runUpdates_onlyPosition hup
  unfold cmdG1Try at h ⊢
  dsimp only at h ⊢
  rcases hr : runUpdates [setAxis float params 0 "X", setAxis float params 1 "Y",
      setAxis float params 2 "Z", setExtrude float params] gm with ⟨gm', _ | _⟩
  all_goals simp only [hr] at h hrun ⊢
  · exact hrun
  · -- the error came from `F`
    rw [setSpeed_of_error h]
    exact hrun

variable {T : Type} {mt : MoveTransform T}

/-- After a command error of `cmd_G1`, `gcode:command_error` has reloaded `last_position`, the
    toolhead is untouched and no move was made. -/
theorem processG1_of_g1Error {line : Nat} {gm : GCodeMove} {th : T} {e : G1Error}
    (h : (processG1 mt float params line gm th).error = some (.g1 e)) :
    (processG1 mt float params line gm th).gm =
        { gm with lastPosition := mt.positionWithTransform th } ∧
      (processG1 mt float params line gm th).th = th ∧
      (processG1 mt float params line gm th).moves = [] := by
  have hframe := @cmdG1Try_of_error float params gm
  unfold processG1 at h ⊢
  rcases hc : cmdG1Try float params gm with ⟨gm', _ | e'⟩
  · -- the move itself may fail, but that is not an error of `cmd_G1`
    simp only [hc] at h
    split at h <;> cases h
  · have hg : gm' = { gm with lastPosition := gm'.lastPosition } := by
      rw [hc] at hframe
      exact hframe rfl
    refine ⟨?_, rfl, rfl⟩
    show { gm' with lastPosition := mt.positionWithTransform th } = _
    rw [hg]

/-- Without an error of its own, `cmd_G1` passes exactly one move, to the updated position. -/
theorem processG1_moves_of_ok {line : Nat} {gm : GCodeMove} {th : T}
    (h : ∀ e, (processG1 mt float params line gm th).error ≠ some (.g1 e)) :
    (processG1 mt float params line gm th).moves =
      [((cmdG1Try float params gm).1.lastPosition, (cmdG1Try float params gm).1.speed, line)] := by
  unfold processG1 at h ⊢
  rcases hc : cmdG1Try float params gm with ⟨gm', _ | e⟩
  · dsimp only
    split <;> rfl
  · simp only [hc] at h
    exact absurd rfl (h e)

/-- **`G1` is atomic on error from a synchronised state.**  When `last_position` is the
    transformed toolhead position before the line, a `G1` that raises a command error of its
    own leaves `GCodeMove` and the toolhead as they were and makes no move; otherwise it passes
    exactly one move, to the updated `last_position` at the updated speed. -/
theorem cmd_G1_atomic_of_synced (float : String → Option ℚ) (params : Params) (line : Nat)
    (gm : GCodeMove) (th : T) (hsync : gm.lastPosition = mt.positionWithTransform th) :
    (∀ e, (processG1 mt float params line gm th).error = some (.g1 e) →
      (processG1 mt float params line gm th).gm = gm ∧
        (processG1 mt float params line gm th).th = th ∧
        (processG1 mt float params line gm th).moves = []) ∧
    ((∀ e, (processG1 mt float params line gm th).error ≠ some (.g1 e)) →
      (processG1 mt float params line gm th).moves =
        [((cmdG1Try float params gm).1.lastPosition, (cmdG1Try float params gm).1.speed, line)]) := by
  refine ⟨fun e h => ?_, processG1_moves_of_ok⟩
  obtain ⟨hgm, hth, hmoves⟩ := processG1_of_g1Error h
  refine ⟨?_, hth, hmoves⟩
  rw [hgm, ← hsync]

/-! ## Runs -/

/-- A move transform whose successful moves end where they were asked to. -/
def ExactTransform (mt : MoveTransform T) : Prop :=
  ∀ th p speed line th', mt.moveWithTransform th p speed line = .ok th' →
    mt.positionWithTransform th' = p

/-- **Step lemma.**  With an exact transform, every `G1` line ends with `last_position` in step
    with the toolhead: the move ends there, or the reset reloads it. -/
theorem processG1_synced (hx : ExactTransform mt) {line : Nat} {gm : GCodeMove} {th : T} :
    (processG1 mt float params line gm th).gm.lastPosition =
      mt.positionWithTransform (processG1 mt float params line gm th).th := by
  unfold processG1
  rcases cmdG1Try float params gm with ⟨gm', _ | e⟩
  · dsimp only
    split
    · rename_i th' hmove
      exact (hx _ _ _ _ _ hmove).symm
    · rfl
  · rfl

/-- **Run lemma.**  With an exact transform, a run of `G1` lines from a synchronised state
    stays synchronised, so every failing line of it is atomic. -/
theorem processG1s_synced (hx : ExactTransform mt) :
    ∀ (lines : List (Params × Nat)) (gm : GCodeMove) (th : T),
      gm.lastPosition = mt.positionWithTransform th →
      (processG1s mt float lines gm th).1.lastPosition =
        mt.positionWithTransform (processG1s mt float lines gm th).2
  | [], _, _, hsync => hsync
  | (params, line) :: rest, gm, th, _ =>
    processG1s_synced hx rest _ _ (@processG1_synced float params T mt hx line gm th)

end Proofs

/-! ## Klipper's toolhead -/

/-- `ToolHead.move(newpos, speed, taskline)` on `commanded_pos`, which `get_position()` returns:
    `Move.__init__` keeps the start's XYZ when the XYZ distance is below 1e-9 (compared here
    by squares), and a move of length zero is dropped.  The kinematic and extruder checks are
    taken to accept. -/
def toolheadMove (commandedPos newpos : Coord) : Coord :=
  let axesD : Coord := fun i => newpos i - commandedPos i
  if axesD 0 ^ 2 + axesD 1 ^ 2 + axesD 2 ^ 2 < (1 / 10 ^ 9) ^ 2 then
    -- `if not move.move_d: return`
    if axesD 3 = 0 then commandedPos
    else Function.update commandedPos 3 (newpos 3)
  else newpos

/-- The toolhead with no move transform registered. -/
def toolhead : MoveTransform Coord := ⟨fun th newpos _ _ => .ok (toolheadMove th newpos), id⟩

/-- A digit string's value. -/
def digitsValue (cs : List Char) : Option ℕ :=
  if cs ≠ [] ∧ cs.all Char.isDigit then some (cs.foldl (fun n c => 10 * n + (c.toNat - 48)) 0)
  else none

/-- Python's `float` on the decimal literals `[+-]digits[.digits]`, with their exact value. -/
def decimalFloat (s : String) : Option ℚ :=
  let (sign, body) : ℚ × List Char := match s.toList with
    | '-' :: r => (-1, r)
    | '+' :: r => (1, r)
    | r => (1, r)
  match body.span (· != '.') with
  | (ip, []) => (digitsValue ip).map fun i => sign * i
  | (ip, _ :: fp) =>
    (digitsValue ip).bind fun i => (digitsValue fp).map fun f => sign * (i + f / 10 ^ fp.length)

/-- After `G91`, `G1 X0.0000000001` is too short for the toolhead, which stays at 0 while
    `last_position` is at 1e-10; `G1 X1 F0` then fails on its speed, and the reset puts
    `last_position` at 0. -/
theorem cmd_G1_error_moves_last_position :
    (processG1 toolhead decimalFloat (fun k => if k = "X" then some "0.0000000001" else none) 1
        (cmdG91 gcodeMoveInit) 0).gm.lastPosition 0 = 1 / 10 ^ 10 ∧
    (processG1 toolhead decimalFloat
        (fun k => if k = "X" then some "1" else if k = "F" then some "0" else none) 2
        (processG1 toolhead decimalFloat (fun k => if k = "X" then some "0.0000000001" else none) 1
          (cmdG91 gcodeMoveInit) 0).gm
        (processG1 toolhead decimalFloat (fun k => if k = "X" then some "0.0000000001" else none) 1
          (cmdG91 gcodeMoveInit) 0).th).error = some (.g1 .invalidSpeed) ∧
    (processG1 toolhead decimalFloat
        (fun k => if k = "X" then some "1" else if k = "F" then some "0" else none) 2
        (processG1 toolhead decimalFloat (fun k => if k = "X" then some "0.0000000001" else none) 1
          (cmdG91 gcodeMoveInit) 0).gm
        (processG1 toolhead decimalFloat (fun k => if k = "X" then some "0.0000000001" else none) 1
          (cmdG91 gcodeMoveInit) 0).th).gm.lastPosition 0 = 0 := by
  decide +kernel

/-- `G1 X1 F0` from the initial state, with the toolhead at the origin. -/
theorem cmd_G1_atomic_of_synced_at_init :
    gcodeMoveInit.lastPosition = toolhead.positionWithTransform 0 ∧
    ((∀ e, (processG1 toolhead decimalFloat
        (fun k => if k = "X" then some "1" else if k = "F" then some "0" else none) 0
        gcodeMoveInit 0).error = some (.g1 e) →
      (processG1 toolhead decimalFloat
        (fun k => if k = "X" then some "1" else if k = "F" then some "0" else none) 0
        gcodeMoveInit 0).gm = gcodeMoveInit ∧
      (processG1 toolhead decimalFloat
        (fun k => if k = "X" then some "1" else if k = "F" then some "0" else none) 0
        gcodeMoveInit 0).th = 0 ∧
      (processG1 toolhead decimalFloat
        (fun k => if k = "X" then some "1" else if k = "F" then some "0" else none) 0
        gcodeMoveInit 0).moves = []) ∧
    ((∀ e, (processG1 toolhead decimalFloat
        (fun k => if k = "X" then some "1" else if k = "F" then some "0" else none) 0
        gcodeMoveInit 0).error ≠ some (.g1 e)) →
      (processG1 toolhead decimalFloat
        (fun k => if k = "X" then some "1" else if k = "F" then some "0" else none) 0
        gcodeMoveInit 0).moves =
        [((cmdG1Try decimalFloat
            (fun k => if k = "X" then some "1" else if k = "F" then some "0" else none)
            gcodeMoveInit).1.lastPosition,
          (cmdG1Try decimalFloat
            (fun k => if k = "X" then some "1" else if k = "F" then some "0" else none)
            gcodeMoveInit).1.speed, 0)])) :=
  ⟨rfl, @cmd_G1_atomic_of_synced Coord toolhead decimalFloat
    (fun k => if k = "X" then some "1" else if k = "F" then some "0" else none) 0 gcodeMoveInit 0
    rfl⟩

end Klipper.GCode
