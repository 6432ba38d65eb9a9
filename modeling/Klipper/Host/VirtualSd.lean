import Mathlib
import Klipper.Lib.PyStr

/-
  The print loop of the virtual SD card (`klippy/extras/virtual_sdcard.py`).

  `VirtualSD.work_handler` reads the file in chunks, splits each chunk at its newlines, carries
  the part after the last newline (`partial_input`) into the next chunk, and runs each complete
  line as a G-code script; before running a line it sets `next_file_position` to `file_position`
  plus the line's UTF-8 length and its newline, and after it moves `file_position` there, unless
  the script moved `next_file_position` with `set_file_position`, in which case the loop seeks
  and starts reading afresh.

  The file and the G-code side are the world around the loop.  The file is the list of chunks
  its reads return, none of them empty (a read returns nothing only at the end of the file), and
  each pass of the loop gets the world's `Answers` for that pass: whether `must_pause_work` is
  set, whether the G-code mutex is held, and what running the line did.  A pass is `workPass`,
  and a run the passes of a list of answers (`workRun`).  Texts are lists of characters, as in
  `PyStr`, and `len(line.encode())` is the sum of the characters' UTF-8 sizes (`utf8Len`).

  1. **What was read** (`Reads`).  The loop has read some prefix `R` of the content; its split
     at newlines is the lines dispatched, then the lines waiting in `lines` (which the loop pops
     from the end, so in reverse), then `partial_input`.  Reading a chunk keeps this by
     `PyStr.splitOn_append`; dispatching a line moves it from `lines` to the dispatched ones, and
     `file_position` and `file_line` count it (`Reads.pass`, `Reads.run`).
  2. **Progress** (`Reads.pass_progress`, `Reads.run_progress`).  Each pass that is not kept
     waiting by the mutex reads a chunk or dispatches a line, so enough of them end the loop at
     the end of the file, with every line dispatched.

  `virtual_sd_lines` puts these together: however the content is cut into chunks, the lines
  dispatched are the newline-terminated lines of the content, in order, each once, and after
  each of them `file_position` and `file_line` have counted exactly those lines.
-/

namespace Klipper.VirtualSd

/-- `len(line.encode())`: the UTF-8 length of a text. -/
def utf8Len (line : List Char) : Nat := (line.map Char.utf8Size).sum

/-- How the loop ended: paused (`must_pause_work`), at the end of the file, or on a script's
    error. -/
inductive WorkExit
  | paused
  | finished
  | failed
deriving DecidableEq, Repr

/-- What the world answers in one pass of the loop: `must_pause_work`, `gcode_mutex.test()`,
    whether `run_script` raised `gcode.error`, and the `set_file_position` the script made, with
    the chunks the file reads after the loop seeks there. -/
structure Answers where
  pause : Bool
  busy : Bool
  error : Bool
  setPos : Option (Nat × List (List Char))
deriving DecidableEq, Repr

/-- The state `work_handler` works on: the object's `file_position`, `next_file_position` and
    `file_line`, the loop's `partial_input` and `lines`, the chunks the file's next reads return,
    how the loop ended if it did, and the scripts it ran. -/
structure WorkLoop where
  filePosition : Nat
  nextFilePosition : Nat
  fileLine : Nat
  partialInput : List Char
  lines : List (List Char)
  file : List (List Char)
  exit : Option WorkExit
  dispatched : List (List Char)
deriving DecidableEq, Repr

/-- `work_handler` after its seek: no partial line and no lines yet. -/
def WorkLoop.start (filePosition nextFilePosition fileLine : Nat) (file : List (List Char)) :
    WorkLoop :=
  ⟨filePosition, nextFilePosition, fileLine, [], [], file, none, []⟩

/-- Reading `data`: `lines = data.split('\n')`, `lines[0] = partial_input + lines[0]`,
    `partial_input = lines.pop()`, `lines.reverse()`. -/
def readChunk (w : WorkLoop) (data : List Char) (file : List (List Char)) : WorkLoop :=
  let lines := (data.splitOn '\n').modifyHead (w.partialInput ++ ·)
  { w with partialInput := lines.getLast?.getD [], lines := lines.dropLast.reverse, file := file }

/-- Dispatching `line`, popped off `lines`, with the world's answers for the script. -/
def dispatchLine (w : WorkLoop) (line : List Char) (a : Answers) : WorkLoop :=
  let nextFilePosition := w.filePosition + utf8Len line + 1
  let w := { w with lines := w.lines.dropLast, fileLine := w.fileLine + 1,
                    nextFilePosition := nextFilePosition, dispatched := w.dispatched ++ [line] }
  -- `run_script(line)`, which may call `set_file_position`
  let w := match a.setPos with
    | some (pos, _) => { w with nextFilePosition := pos }
    | none => w
  if a.error then { w with exit := some .failed }
  else
    let w := { w with filePosition := w.nextFilePosition }
    -- "Do we need to skip around?"
    if w.nextFilePosition ≠ nextFilePosition then
      { w with lines := [], partialInput := [], file := (a.setPos.map Prod.snd).getD [] }
    else w

/-- One pass of the loop `while not self.must_pause_work`. -/
def workPass (w : WorkLoop) (a : Answers) : WorkLoop :=
  if w.exit.isSome then w
  else if a.pause then { w with exit := some .paused }
  else match w.lines.getLast? with
    | none =>
      -- `data = self.current_file.read(8192)`; nothing comes back only at the end
      let data := w.file.headD []
      if data = [] then { w with exit := some .finished }
      else readChunk w data w.file.tail
    | some line => if a.busy then w else dispatchLine w line a

/-- The passes of the loop, one for each of the world's answers. -/
def workRun (w : WorkLoop) (as : List Answers) : WorkLoop := as.foldl workPass w

/-- The newline-terminated lines of a content: all parts of its split but the last. -/
def termLines (content : List Char) : List (List Char) := (content.splitOn '\n').dropLast

/-! ## One pass -/

section Pass

variable {w : WorkLoop} {a : Answers}

/-- A quiet script: no error and no `set_file_position`. -/
def Quiet (a : Answers) : Prop := a.error = false ∧ a.setPos = none

/-- A line run by a quiet script moves both positions past it and its newline. -/
theorem dispatchLine_quiet (line : List Char) (h : Quiet a) :
    dispatchLine w line a =
      { w with lines := w.lines.dropLast, fileLine := w.fileLine + 1,
               nextFilePosition := w.filePosition + utf8Len line + 1,
               filePosition := w.filePosition + utf8Len line + 1,
               dispatched := w.dispatched ++ [line] } := by
  obtain ⟨he, hs⟩ := h
  simp [dispatchLine, he, hs]

/-- **Reading a chunk** continues the split of what was read: the partial line runs on into the
    chunk's first line, the chunk's other lines wait, and its last part is the new partial
    line. -/
theorem readChunk_split {R : List Char} {D : List (List Char)}
    (hR : R.splitOn '\n' = D ++ [w.partialInput]) (data : List Char) (file : List (List Char)) :
    (R ++ data).splitOn '\n' =
      D ++ (readChunk w data file).lines.reverse ++ [(readChunk w data file).partialInput] := by
  obtain ⟨v, B, hb⟩ := List.exists_cons_of_ne_nil (List.splitOn_ne_nil '\n' data)
  rw [PyStr.splitOn_append hR hb]
  unfold readChunk
  dsimp only
  rw [hb, List.modifyHead_cons, List.reverse_reverse,
    List.getLast?_eq_some_getLast (List.cons_ne_nil _ _), Option.getD_some, List.append_assoc,
    List.dropLast_append_getLast]

/-- A read comes back empty only at the end of the file, since no chunk is empty. -/
theorem headD_eq_nil_iff {file : List (List Char)} (hchunks : ∀ c ∈ file, c ≠ []) :
    file.headD [] = [] ↔ file = [] := by
  cases file with
  | nil => simp
  | cons c cs => simpa using hchunks c List.mem_cons_self

/-- Popping the last of the waiting lines: it comes first in their order. -/
theorem lines_pop {line : List Char} (h : w.lines.getLast? = some line) :
    w.lines.reverse = line :: w.lines.dropLast.reverse := by
  obtain ⟨ys, hys⟩ := List.getLast?_eq_some_iff.mp h
  rw [hys, List.dropLast_concat, List.reverse_append]
  rfl

end Pass

/-! ## What was read -/

section Reads

variable {content : List Char} {pos0 line0 : Nat} {w : WorkLoop} {a : Answers}

/-- **The loop's invariant** over `content`, read from byte `pos0` at line `line0`: what it has
    read is a prefix of the content whose split is the lines dispatched, the lines waiting and
    the partial line; the positions and the line count count the dispatched lines; and the loop
    finishes only with nothing left to read or run. -/
structure Reads (content : List Char) (pos0 line0 : Nat) (w : WorkLoop) : Prop where
  split : ∃ R, R ++ w.file.flatten = content ∧
    R.splitOn '\n' = w.dispatched ++ w.lines.reverse ++ [w.partialInput]
  position : w.filePosition = pos0 + (w.dispatched.map fun line => utf8Len line + 1).sum
  next : w.dispatched ≠ [] → w.nextFilePosition = w.filePosition
  line : w.fileLine = line0 + w.dispatched.length
  chunks : ∀ c ∈ w.file, c ≠ []
  finished : w.exit = some .finished → w.file = [] ∧ w.lines = []

theorem reads_start {chunks : List (List Char)} (hchunks : ∀ c ∈ chunks, c ≠ [])
    (hcontent : chunks.flatten = content) (next0 : Nat) :
    Reads content pos0 line0 (WorkLoop.start pos0 next0 line0 chunks) :=
  ⟨⟨[], by simpa [WorkLoop.start] using hcontent, by simp [WorkLoop.start]⟩, by simp [WorkLoop.start],
    fun h => absurd rfl h, by simp [WorkLoop.start], hchunks, by simp [WorkLoop.start]⟩

/-- **Every quiet pass keeps the invariant.** -/
theorem Reads.pass (h : Reads content pos0 line0 w) (hq : Quiet a) :
    Reads content pos0 line0 (workPass w a) := by
  unfold workPass
  by_cases hx : w.exit.isSome
  · rw [if_pos hx]
    exact h
  rw [if_neg hx]
  have hnone : w.exit = none := Option.not_isSome_iff_eq_none.mp hx
  by_cases hp : a.pause
  · -- paused: only how the loop ended changes
    rw [if_pos hp]
    exact ⟨h.split, h.position, h.next, h.line, h.chunks, by simp⟩
  rw [if_neg hp]
  obtain ⟨R, hRc, hR⟩ := h.split
  cases hl : w.lines.getLast? with
  | none =>
    have hnil : w.lines = [] := List.getLast?_eq_none_iff.mp hl
    dsimp only
    by_cases hd : w.file.headD [] = []
    · -- the end of the file: no chunk is empty, so there is none left
      rw [if_pos hd]
      have hf : w.file = [] := (headD_eq_nil_iff h.chunks).mp hd
      exact ⟨⟨R, hRc, hR⟩, h.position, h.next, h.line, h.chunks, fun _ => ⟨hf, hnil⟩⟩
    · -- a chunk: the split of what was read grows by it
      rw [if_neg hd]
      obtain ⟨c, cs, hfile⟩ :=
        List.exists_cons_of_ne_nil (mt (headD_eq_nil_iff h.chunks).mpr hd)
      rw [hfile] at hRc ⊢
      rw [hnil, List.reverse_nil, List.append_nil] at hR
      refine ⟨⟨R ++ c, ?_, ?_⟩, h.position, h.next, h.line, ?_, by simp [readChunk, hnone]⟩
      · rw [← hRc, List.flatten_cons, List.append_assoc]
        rfl
      · exact readChunk_split hR c cs
      · intro c' hc'
        exact h.chunks c' (by rw [hfile]; exact List.mem_cons_of_mem c hc')
  | some line =>
    dsimp only
    by_cases hb : a.busy
    · rw [if_pos hb]
      exact ⟨⟨R, hRc, hR⟩, h.position, h.next, h.line, h.chunks, h.finished⟩
    · -- a line: it moves from the waiting lines to the dispatched ones
      rw [if_neg hb, dispatchLine_quiet line hq]
      refine ⟨⟨R, hRc, ?_⟩, ?_, fun _ => rfl, ?_, h.chunks, by simp [hnone]⟩
      · rw [hR, lines_pop hl]
        simp only [List.append_assoc, List.cons_append, List.nil_append]
      · simp only [List.map_append, List.map_singleton, List.sum_append, List.sum_singleton,
          h.position]
        omega
      · simp only [List.length_append, List.length_singleton, h.line]
        omega

/-- **Every quiet run keeps the invariant.** -/
theorem Reads.run (h : Reads content pos0 line0 w) (as : List Answers)
    (hq : ∀ a ∈ as, Quiet a) : Reads content pos0 line0 (workRun w as) := by
  induction as generalizing w with
  | nil => exact h
  | cons a as ih =>
    exact ih (h.pass (hq a List.mem_cons_self)) (fun b hb => hq b (List.mem_cons_of_mem a hb))

/-- The lines dispatched and those waiting are the first lines of the content, in order. -/
theorem Reads.prefix (h : Reads content pos0 line0 w) :
    w.dispatched ++ w.lines.reverse <+: termLines content := by
  obtain ⟨R, hRc, hR⟩ := h.split
  obtain ⟨v, B, hb⟩ := List.exists_cons_of_ne_nil (List.splitOn_ne_nil '\n' w.file.flatten)
  -- the split of the content glues the partial line to the first part of the rest
  have hc := PyStr.splitOn_append hR hb
  rw [hRc] at hc
  rw [termLines, hc, List.dropLast_append_of_ne_nil (List.cons_ne_nil _ _)]
  exact List.prefix_append _ _

/-- At the end of the file every line of the content has been dispatched. -/
theorem Reads.dispatched_eq (h : Reads content pos0 line0 w) (hf : w.exit = some .finished) :
    w.dispatched = termLines content := by
  obtain ⟨hfile, hlines⟩ := h.finished hf
  obtain ⟨R, hRc, hR⟩ := h.split
  rw [hfile, List.flatten_nil, List.append_nil] at hRc
  rw [hlines, List.reverse_nil, List.append_nil] at hR
  rw [termLines, ← hRc, hR, List.dropLast_concat]

end Reads

/-! ## Progress -/

section Progress

variable {content : List Char} {pos0 line0 : Nat} {w : WorkLoop} {a : Answers}

/-- The work left: the chunks to read, the read that finds the end, and the lines not yet
    dispatched. -/
def workLeft (content : List Char) (w : WorkLoop) : Nat :=
  w.file.length + 1 + (termLines content).length - w.dispatched.length

theorem workRun_of_exit (hx : w.exit.isSome) (as : List Answers) : workRun w as = w := by
  induction as with
  | nil => rfl
  | cons a as ih =>
    show workRun (workPass w a) as = w
    rw [show workPass w a = w from if_pos hx, ih]

/-- **One pass makes progress**: unless it finishes, the loop goes on with less work left, one
    less when the mutex did not keep it waiting. -/
theorem Reads.pass_progress (h : Reads content pos0 line0 w) (hq : Quiet a)
    (hp : a.pause = false) (hx : w.exit = none) :
    (workPass w a).exit = some .finished ∨ ((workPass w a).exit = none ∧
      (if a.busy then 0 else 1) + workLeft content (workPass w a) ≤ workLeft content w) := by
  have hpass := h.pass hq
  have hlen0 := h.prefix.length_le
  rw [List.length_append] at hlen0
  unfold workPass at hpass ⊢
  rw [if_neg (by simp [hx]), if_neg (by simp [hp])] at hpass ⊢
  cases hl : w.lines.getLast? with
  | none =>
    dsimp only
    by_cases hd : w.file.headD [] = []
    · rw [if_pos hd]
      exact Or.inl rfl
    · -- a chunk read: one fewer to read
      rw [if_neg hd]
      obtain ⟨c, cs, hfile⟩ :=
        List.exists_cons_of_ne_nil (mt (headD_eq_nil_iff h.chunks).mpr hd)
      refine Or.inr ⟨hx, ?_⟩
      unfold workLeft readChunk
      dsimp only
      rw [hfile]
      split_ifs <;> simp <;> omega
  | some line =>
    rw [hl] at hpass
    dsimp only at hpass ⊢
    by_cases hb : a.busy
    · rw [if_pos hb]
      exact Or.inr ⟨hx, by simp [hb]⟩
    · -- a line dispatched: one fewer left, and there was one since it is a line of the content
      rw [if_neg hb, dispatchLine_quiet line hq] at hpass ⊢
      have hlen := hpass.prefix.length_le
      refine Or.inr ⟨hx, ?_⟩
      unfold workLeft
      simp only [List.length_append, List.length_singleton, List.length_reverse] at hlen ⊢
      rw [if_neg hb]
      omega

/-- **Progress over a run**: unless the loop finishes, each pass the mutex does not hold up
    takes one off the work left. -/
theorem Reads.run_progress (h : Reads content pos0 line0 w) (hx : w.exit = none)
    (as : List Answers) (hq : ∀ a ∈ as, Quiet a ∧ a.pause = false) :
    (workRun w as).exit = some .finished ∨
      (as.filter fun a => !a.busy).length + workLeft content (workRun w as) ≤
        workLeft content w := by
  induction as generalizing w with
  | nil => exact Or.inr (by simp [workRun])
  | cons a as ih =>
    obtain ⟨hqa, hpa⟩ := hq a List.mem_cons_self
    have hq' : ∀ b ∈ as, Quiet b ∧ b.pause = false :=
      fun b hb => hq b (List.mem_cons_of_mem a hb)
    show (workRun (workPass w a) as).exit = _ ∨
      _ + workLeft content (workRun (workPass w a) as) ≤ _
    rcases h.pass_progress hqa hpa hx with hf | ⟨hx', hle⟩
    · -- finished: the loop stays so
      left
      rw [workRun_of_exit (by simp [hf]), hf]
    · rcases ih (h.pass hqa) hx' hq' with hf | hle'
      · exact Or.inl hf
      · right
        have hcount : (List.filter (fun a => !a.busy) (a :: as)).length =
            (if a.busy then 0 else 1) + (List.filter (fun a => !a.busy) as).length := by
          cases hb : a.busy <;> simp [hb]
          omega
        omega

end Progress

/-! ## The lines of the file -/

theorem virtual_sd_lines (content : List Char) (chunks : List (List Char))
    (hchunks : ∀ c ∈ chunks, c ≠ []) (hcontent : chunks.flatten = content)
    (pos0 next0 line0 : Nat) (as : List Answers)
    (hquiet : ∀ a ∈ as, a.error = false ∧ a.setPos = none) :
    let w := workRun (WorkLoop.start pos0 next0 line0 chunks) as
    w.dispatched <+: termLines content ∧
      w.filePosition = pos0 + (w.dispatched.map fun line => utf8Len line + 1).sum ∧
      w.fileLine = line0 + w.dispatched.length ∧
      (w.exit = some .finished → w.dispatched = termLines content) ∧
      ((∀ a ∈ as, a.pause = false) →
        chunks.length + (termLines content).length + 1 ≤ (as.filter fun a => !a.busy).length →
        w.exit = some .finished) := by
  intro w
  have h0 : Reads content pos0 line0 (WorkLoop.start pos0 next0 line0 chunks) :=
    reads_start hchunks hcontent next0
  have h := h0.run as hquiet
  refine ⟨(List.prefix_append _ _).trans h.prefix, h.position, h.line, h.dispatched_eq,
    fun hpause hcount => ?_⟩
  rcases h0.run_progress rfl as (fun a ha => ⟨hquiet a ha, hpause a ha⟩) with hf | hle
  · exact hf
  · -- otherwise the passes would have done more work than there was
    have hd := h.prefix.length_le
    rw [List.length_append] at hd
    have hstart : workLeft content (WorkLoop.start pos0 next0 line0 chunks) =
        chunks.length + 1 + (termLines content).length := by
      simp [workLeft, WorkLoop.start]
    rw [hstart] at hle
    unfold workLeft at hle
    omega

/-- A content cut inside a line and inside no character but after a two-byte one: both its
    lines are run, the unterminated rest is not, and the position counts `é` as two bytes. -/
theorem virtual_sd_lines_cut :
    let chunks := [['G', '1', ' ', 'X'], ['1', '\n', 'M', '1'], ['1', '7', ' ', 'é', '\n', 'G']]
    let w := workRun (WorkLoop.start 0 0 0 chunks) (List.replicate 6 ⟨false, false, false, none⟩)
    w.dispatched = [['G', '1', ' ', 'X', '1'], ['M', '1', '1', '7', ' ', 'é']] ∧
      w.filePosition = 14 := by
  intro chunks w
  obtain ⟨-, hpos, -, hfin, hend⟩ := virtual_sd_lines chunks.flatten chunks (by decide) rfl 0 0 0
    (List.replicate 6 ⟨false, false, false, none⟩) (by decide)
  have hd : w.dispatched = [['G', '1', ' ', 'X', '1'], ['M', '1', '1', '7', ' ', 'é']] := by
    rw [hfin (hend (by decide) (by decide))]
    decide
  refine ⟨hd, ?_⟩
  rw [hpos, hd]
  decide

end Klipper.VirtualSd
