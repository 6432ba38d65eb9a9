import Mathlib
import Klipper.Lib.Cells
import Klipper.Lib.Transition
import Klipper.Protocol.FrameScan

/-
  The serial console of the MCU (`src/generic/serial_irq.c`): a receive buffer and a transmit
  buffer, each shared between a task and the UART interrupt.

  **Receiving.**  The interrupt `serial_rx_byte` stores each byte at `receive_pos` and moves it
  on, or drops the byte when all `RX_BUFFER_SIZE` cells are taken.  `console_task` runs
  `command_find_block` on the `rpos` bytes it finds and removes the `pop_count` bytes that call
  consumed with `console_pop_input`, which moves the rest of the buffer down.  The interrupt may
  come at any point of that: `console_pop_input` reads `receive_pos`, moves down what is there,
  and then, with interrupts off, sets `receive_pos` only if no byte arrived since its read; when
  one did, it goes round again and moves down the new bytes too.  A byte that arrives meanwhile
  lands past `rpos`, away from the cells the move reads and writes, so the move is one step
  here and the interrupt may come before or after it.

  **Transmitting.**  `console_sendf` generates a message at `transmit_max` and moves
  `transmit_max` past it; the interrupt `serial_get_tx_byte` hands out the byte at
  `transmit_pos` while `transmit_pos < transmit_max`.  When the message does not fit after
  `transmit_max`, the task sets `transmit_max` to 0, which stops the interrupt, reads
  `transmit_pos` again, and moves what is left to the front.  The first test uses the
  `transmit_pos` read at the start, which the interrupt may have moved on since, so a message
  can be refused that would have fitted, never accepted without room.  A call made while
  another is running (from an interrupt handler) is dropped by `in_sendf` (`command_sendf`).

  The model keeps ghost records of the streams: every byte the interrupt stored (`received`),
  every call of `command_find_block` with the bytes it consumed (`calls`), every message
  `console_sendf` generated (`accepted`), and every byte handed to the UART (`transmitted`).
  Each buffer is read through `Cells.Holds`, and one layout predicate per side says, for each
  place the task can be, which cells hold which part of the stream (`Rx.Layout`, `Tx.Inv`).

  1. **Nothing lost, repeated or reordered on the way in** (`serial_rx_fifo`): over any
     interleaving, the bytes handed to `command_find_block` are the first bytes of the received
     stream, and between calls the buffer holds exactly the rest, with `receive_pos` at most
     `RX_BUFFER_SIZE`; every block dispatched is a well-formed frame of that stream.
  2. **Nothing lost, repeated or reordered on the way out** (`serial_tx_fifo`): the bytes handed
     to the UART, followed by the bytes between `transmit_pos` and `transmit_max`, are the
     messages generated, in order.  `console_sendf` makes room for `max_size` bytes, but the
     encoder only promises a frame at most five bytes longer (`TxOk`,
     `Command.commandEncodeAndFrame_length_le`), so `transmit_max` stays within five bytes past
     the end of `transmit_buf`, and does pass its end: after a 32-byte message the 65-byte
     `identify_response` of `identify offset=0 count=57` ends at 97
     (`serial_tx_fifo_overflow`).
-/

namespace Klipper.SerialIrq

open Cells FrameScan MsgBlock

/-- `RX_BUFFER_SIZE` -/
def rxBufferSize : Nat := 192

/-- `sizeof(transmit_buf)` -/
def transmitBufSize : Nat := 96

/-! ## Receiving -/

/-- Where `console_task` is: between calls; inside `console_pop_input(len)` at the top of its
    loop with `copied` bytes moved down; or after a move, about to check with interrupts off that
    `receive_pos` is still the `rpos` it read.  `ret` is what `command_find_block` returned, for
    the ack at the end. -/
inductive RxTask
  | idle
  | pop (ret : Int) (len copied : Nat)
  | commit (ret : Int) (len copied rpos : Nat)

/-- The receive side, with two ghost records: the bytes the interrupt stored, and each call of
    `command_find_block` that consumed bytes, with its return value and those bytes. -/
structure Rx where
  receiveBuf : Nat → UInt8
  receivePos : Nat
  find : FindState
  task : RxTask
  received : List UInt8
  calls : List (Int × List UInt8)

/-- `serial_rx_byte(data)`: store the byte at `receive_pos`, or drop it when the buffer is
    full ("a crc error will force retransmit"). -/
def serialRxByte (r : Rx) (data : UInt8) : Rx :=
  if r.receivePos ≥ rxBufferSize then r
  else { r with receiveBuf := Function.update r.receiveBuf r.receivePos data,
                receivePos := r.receivePos + 1, received := r.received ++ [data] }

/-- The start of `console_task`: `command_find_block` on the `rpos` bytes the buffer holds, and
    `command_dispatch` on the block when it returns `1`.  A call that consumed bytes goes on to
    `console_pop_input(pop_count)`. -/
def consoleTask (r : Rx) : Rx :=
  let rpos := r.receivePos
  let res := commandFindBlock r.find (read r.receiveBuf 0 rpos)
  if res.ret = 0 then { r with find := res.state }
  else { r with find := res.state, task := .pop res.ret res.popCount 0,
                calls := r.calls ++ [(res.ret, read r.receiveBuf 0 res.popCount)] }

/-- One pass of the loop of `console_pop_input(len)` up to its check: read `receive_pos` into
    `rpos` and move down the bytes after the popped ones that are not yet moved. -/
def consolePopInputMove (r : Rx) (ret : Int) (len copied : Nat) : Rx :=
  let rpos := r.receivePos
  let needcopy := rpos - len
  if needcopy ≠ 0 then
    { r with receiveBuf := memmove r.receiveBuf copied (copied + len) (needcopy - copied),
             task := .commit ret len needcopy rpos }
  else { r with task := .commit ret len copied rpos }

/-- The check of `console_pop_input` with interrupts off: go round again when a byte arrived
    since `receive_pos` was read, and otherwise set `receive_pos` to the bytes kept. -/
def consolePopInputCheck (r : Rx) (ret : Int) (len copied rpos : Nat) : Rx :=
  if rpos ≠ r.receivePos then { r with task := .pop ret len copied }
  else { r with receivePos := rpos - len, task := .idle }

/-- The steps of `console_pop_input` leave `receive_pos` to the check, and the stream records
    alone. -/
@[simp] theorem consolePopInputMove_receivePos (r : Rx) (ret : Int) (len copied : Nat) :
    (consolePopInputMove r ret len copied).receivePos = r.receivePos := by
  unfold consolePopInputMove
  dsimp only
  split_ifs <;> rfl

@[simp] theorem consolePopInputMove_received (r : Rx) (ret : Int) (len copied : Nat) :
    (consolePopInputMove r ret len copied).received = r.received := by
  unfold consolePopInputMove
  dsimp only
  split_ifs <;> rfl

@[simp] theorem consolePopInputMove_calls (r : Rx) (ret : Int) (len copied : Nat) :
    (consolePopInputMove r ret len copied).calls = r.calls := by
  unfold consolePopInputMove
  dsimp only
  split_ifs <;> rfl

@[simp] theorem consolePopInputCheck_received (r : Rx) (ret : Int) (len copied rpos : Nat) :
    (consolePopInputCheck r ret len copied rpos).received = r.received := by
  unfold consolePopInputCheck
  split_ifs <;> rfl

@[simp] theorem consolePopInputCheck_calls (r : Rx) (ret : Int) (len copied rpos : Nat) :
    (consolePopInputCheck r ret len copied rpos).calls = r.calls := by
  unfold consolePopInputCheck
  split_ifs <;> rfl

/-- What the interrupt and the task do. -/
inductive RxEvent
  | rxByte (data : UInt8)
  | task

/-- One step: an interrupt, or the next step of the task. -/
def Rx.step (r : Rx) : RxEvent → Rx
  | .rxByte data => serialRxByte r data
  | .task =>
    match r.task with
    | .idle => consoleTask r
    | .pop ret len copied => consolePopInputMove r ret len copied
    | .commit ret len copied rpos => consolePopInputCheck r ret len copied rpos

def Rx.next : Rx → Rx → Prop := Transition.ofStep fun r e => some (Rx.step r e)

/-- A console just started: `receive_pos` is zero (the cells and the scanner state are
    whatever they are) and nothing has been received. -/
def Rx.Init (r : Rx) : Prop := r.receivePos = 0 ∧ r.task = .idle ∧ r.received = [] ∧ r.calls = []

/-- The bytes handed to `command_find_block` and consumed, in order. -/
def Rx.consumed (r : Rx) : List UInt8 := (r.calls.map Prod.snd).flatten

/-! ### The layout of the receive buffer -/

section RxLayout

/-- Which cells hold the rest `R` of the stream, by where the task is.  Between calls they are
    the first `receive_pos` cells.  Inside `console_pop_input(len)` the first `copied` bytes of
    `R` are in place at the front and the others are still `len` cells further up, where they
    arrived. -/
def Rx.Layout (r : Rx) (R : List UInt8) : Prop :=
  match r.task with
  | .idle => r.receivePos = R.length ∧ Holds r.receiveBuf 0 R
  | .pop _ len copied => r.receivePos = len + R.length ∧ copied ≤ R.length ∧
      Holds r.receiveBuf 0 (R.take copied) ∧ Holds r.receiveBuf (copied + len) (R.drop copied)
  | .commit _ len copied rpos => r.receivePos = len + R.length ∧ copied ≤ R.length ∧
      Holds r.receiveBuf 0 (R.take copied) ∧ Holds r.receiveBuf (copied + len) (R.drop copied) ∧
      copied + len = rpos ∧ rpos ≤ r.receivePos

/-- **The invariant of the receive side**: `receive_pos` stays in the buffer, and the bytes
    consumed, followed by a rest laid out as `Rx.Layout` says, are the stream received; every
    call that returned `1` consumed a frame. -/
structure Rx.Inv (r : Rx) : Prop where
  bound : r.receivePos ≤ rxBufferSize
  stream : ∃ R, r.consumed ++ R = r.received ∧ r.Layout R
  frames : ∀ c ∈ r.calls, 0 < c.1 → IsFrame c.2

variable {r : Rx} {R : List UInt8}

theorem Rx.inv_init (h : Rx.Init r) : r.Inv := by
  obtain ⟨hpos, htask, hrec, hcalls⟩ := h
  refine ⟨by rw [hpos]; decide, ⟨[], by simp [Rx.consumed, hcalls, hrec], ?_⟩, by simp [hcalls]⟩
  unfold Rx.Layout
  rw [htask]
  exact ⟨hpos, holds_nil _ _⟩

/-- A stored byte joins the rest of the stream: it lands just past it, wherever the task is. -/
theorem Rx.Layout.rxByte (h : r.Layout R) (hlt : r.receivePos < rxBufferSize) (data : UInt8) :
    (serialRxByte r data).Layout (R ++ [data]) := by
  have hstore : serialRxByte r data =
      { r with receiveBuf := Function.update r.receiveBuf r.receivePos data,
               receivePos := r.receivePos + 1, received := r.received ++ [data] } :=
    if_neg (by omega)
  rw [hstore]
  unfold Rx.Layout at h ⊢
  -- in the middle of a pop the rest is split at `copied`, and the new byte joins its upper part
  have hmid : ∀ len copied, r.receivePos = len + R.length → copied ≤ R.length →
      Holds r.receiveBuf 0 (R.take copied) → Holds r.receiveBuf (copied + len) (R.drop copied) →
      Holds (Function.update r.receiveBuf r.receivePos data) 0 ((R ++ [data]).take copied) ∧
        Holds (Function.update r.receiveBuf r.receivePos data) (copied + len)
          ((R ++ [data]).drop copied) := by
    intro len copied hpos hc h1 h2
    rw [List.take_append_of_le_length hc, List.drop_append_of_le_length hc]
    refine ⟨h1.update_of_notMem (.inr (by simp; omega)) data, ?_⟩
    have hat : r.receivePos = copied + len + (R.drop copied).length := by simp; omega
    rw [hat]
    exact h2.update_concat data
  cases htask : r.task with
  | idle =>
    rw [htask] at h
    obtain ⟨hpos, hR⟩ := h
    refine ⟨by simp [hpos], ?_⟩
    rw [hpos, ← Nat.zero_add R.length]
    exact hR.update_concat data
  | pop ret len copied =>
    rw [htask] at h
    obtain ⟨hpos, hc, h1, h2⟩ := h
    obtain ⟨h1', h2'⟩ := hmid len copied hpos hc h1 h2
    exact ⟨by simp; omega, by simp; omega, h1', h2'⟩
  | commit ret len copied rpos =>
    rw [htask] at h
    obtain ⟨hpos, hc, h1, h2, hr, hle⟩ := h
    obtain ⟨h1', h2'⟩ := hmid len copied hpos hc h1 h2
    exact ⟨by simp; omega, by simp; omega, h1', h2', hr, by dsimp only; omega⟩

/-- Between calls, the cells `command_find_block` reads are the rest of the stream. -/
theorem Rx.Layout.read_idle (h : r.Layout R) (hi : r.task = .idle) :
    read r.receiveBuf 0 r.receivePos = R := by
  unfold Rx.Layout at h
  rw [hi] at h
  obtain ⟨hpos, hR⟩ := h
  rw [hpos]
  exact read_eq_of_holds hR

/-- The move of `console_pop_input` puts every byte of the rest that had arrived at its place
    at the front. -/
theorem Rx.Layout.move (h : r.Layout R) {ret : Int} {len copied : Nat}
    (hi : r.task = .pop ret len copied) :
    (consolePopInputMove r ret len copied).Layout R := by
  unfold Rx.Layout at h
  rw [hi] at h
  obtain ⟨hpos, hc, h1, h2⟩ := h
  unfold consolePopInputMove
  dsimp only
  have hneed : r.receivePos - len = R.length := by omega
  rw [hneed]
  split_ifs with hne
  · -- the bytes from `copied` on move down by `len` cells
    have hup : Holds (memmove r.receiveBuf copied (copied + len) (R.length - copied)) copied
        (R.drop copied) := by
      have := h2.memmove copied
      rwa [List.length_drop] at this
    have hlow : Holds (memmove r.receiveBuf copied (copied + len) (R.length - copied)) 0
        (R.take copied) :=
      h1.memmove_of_disjoint (.inl (by simp only [List.length_take]; omega))
    have hfront : Holds (memmove r.receiveBuf copied (copied + len) (R.length - copied)) 0 R := by
      have hj := holds_append.mpr ⟨hlow, by rwa [List.length_take, Nat.min_eq_left hc, Nat.zero_add]⟩
      rwa [List.take_append_drop] at hj
    simp only [Rx.Layout]
    refine ⟨hpos, le_rfl, ?_, ?_, by omega, le_rfl⟩
    · rw [List.take_length]
      exact hfront
    · rw [List.drop_length]
      exact holds_nil _ _
  · -- nothing after the popped bytes: nothing to move
    simp only [Rx.Layout]
    exact ⟨hpos, hc, h1, h2, by omega, le_rfl⟩

/-- The check of `console_pop_input` either goes round again or, with no byte arrived since the
    read, leaves the rest at the front. -/
theorem Rx.Layout.check (h : r.Layout R) {ret : Int} {len copied rpos : Nat}
    (hi : r.task = .commit ret len copied rpos) :
    (consolePopInputCheck r ret len copied rpos).Layout R := by
  unfold Rx.Layout at h
  rw [hi] at h
  obtain ⟨hpos, hc, h1, h2, hr, hle⟩ := h
  unfold consolePopInputCheck
  split_ifs with hne
  · exact ⟨hpos, hc, h1, h2⟩
  · -- `receive_pos` is still `rpos`: every byte of the rest has been moved
    have hcR : copied = R.length := by omega
    refine ⟨by dsimp only; omega, ?_⟩
    rw [hcR, List.take_length] at h1
    exact h1

end RxLayout

/-! ### Every run of the receive side -/

section RxRuns

variable {r : Rx}

/-- A call of `command_find_block` between calls consumes the front of the rest. -/
theorem Rx.Inv.task_idle (h : r.Inv) (hi : r.task = .idle) : (consoleTask r).Inv := by
  obtain ⟨R, hRs, hL⟩ := h.stream
  have hread := hL.read_idle hi
  unfold consoleTask
  dsimp only
  split_ifs with h0
  · exact ⟨h.bound, ⟨R, hRs, by simpa [Rx.Layout, hi] using hL⟩, h.frames⟩
  -- the call pops between one byte and all of the rest
  obtain ⟨-, -, hle⟩ := (commandFindBlock_progress r.find (read r.receiveBuf 0 r.receivePos)).resolve_left
    (fun h' => h0 h'.1)
  rw [hread] at hle ⊢
  set p := (commandFindBlock r.find R).popCount with hp
  unfold Rx.Layout at hL
  rw [hi] at hL
  obtain ⟨hpos, hR⟩ := hL
  have hcall : read r.receiveBuf 0 p = R.take p := by
    have := read_eq_of_holds (hR.take p)
    rwa [List.length_take, Nat.min_eq_left hle] at this
  refine ⟨h.bound, ⟨R.drop p, ?_, ?_⟩, ?_⟩
  · simp only [Rx.consumed, List.map_append, List.map_singleton, List.flatten_append,
      List.flatten_singleton, hcall, List.append_assoc, List.take_append_drop]
    exact hRs
  · simp only [Rx.Layout]
    refine ⟨by simp; omega, Nat.zero_le _, by simpa using holds_nil r.receiveBuf 0, ?_⟩
    simpa using hR.drop p hle
  · -- a block returned with `1` is a frame cut from the front of the rest
    intro c hc hpos'
    rcases List.mem_append.mp hc with hc | hc
    · exact h.frames c hc hpos'
    · rw [List.mem_singleton] at hc
      subst hc
      obtain ⟨hb, hpop, -⟩ := commandFindBlock_pos hpos'
      show IsFrame (read r.receiveBuf 0 p)
      rw [hcall, hp, hpop]
      exact isFrame_take hb

/-- **Every step keeps the invariant of the receive side.** -/
theorem Rx.Inv.step (h : r.Inv) (e : RxEvent) : (r.step e).Inv := by
  cases e with
  | rxByte data =>
    simp only [Rx.step]
    by_cases hfull : r.receivePos ≥ rxBufferSize
    · -- dropped: nothing changes
      rw [serialRxByte, if_pos hfull]
      exact h
    obtain ⟨R, hRs, hL⟩ := h.stream
    refine ⟨?_, ⟨R ++ [data], ?_, hL.rxByte (by omega) data⟩, ?_⟩
    · rw [serialRxByte, if_neg hfull]
      dsimp only
      omega
    · rw [serialRxByte, if_neg hfull]
      simp only [Rx.consumed] at hRs ⊢
      rw [← List.append_assoc, hRs]
    · rw [serialRxByte, if_neg hfull]
      exact h.frames
  | task =>
    simp only [Rx.step]
    obtain ⟨R, hRs, hL⟩ := h.stream
    cases hi : r.task with
    | idle =>
      dsimp only
      exact h.task_idle hi
    | pop ret len copied =>
      dsimp only
      refine ⟨by simpa using h.bound, ⟨R, by simpa [Rx.consumed] using hRs, hL.move hi⟩, ?_⟩
      simpa using h.frames
    | commit ret len copied rpos =>
      dsimp only
      refine ⟨?_, ⟨R, by simpa [Rx.consumed] using hRs, hL.check hi⟩, by simpa using h.frames⟩
      unfold consolePopInputCheck
      split_ifs
      · exact h.bound
      · dsimp only
        have := h.bound
        omega

theorem Rx.inv_of_reachable (h : Transition.Reachable Rx.Init Rx.next r) : r.Inv := by
  refine Transition.Reachable.inv (fun s hi => @Rx.inv_init s hi) ?_ h
  rintro s s' hinv ⟨e, he⟩
  rw [← Option.some_injective _ he]
  exact hinv.step e

end RxRuns

/-! ## Transmitting -/

/-- Where `console_sendf` is with the message `msg` it is to generate: between calls; about to
    move the buffer down, having found room only that way; or about to generate the message at
    `tmax`. -/
inductive TxTask
  | idle
  | move (msg : List UInt8) (tmax : Nat)
  | generate (msg : List UInt8) (tmax : Nat)

/-- The transmit side, with two ghost records: the messages generated, and the bytes handed to
    the UART. -/
structure Tx where
  transmitBuf : Nat → UInt8
  transmitPos : Nat
  transmitMax : Nat
  task : TxTask
  accepted : List (List UInt8)
  transmitted : List UInt8

/-- `serial_get_tx_byte`: the byte at `transmit_pos`, while there is one. -/
def serialGetTxByte (t : Tx) : Tx :=
  if t.transmitPos ≥ t.transmitMax then t
  else { t with transmitPos := t.transmitPos + 1,
                transmitted := t.transmitted ++ [t.transmitBuf t.transmitPos] }

/-- The start of `console_sendf` for an encoder of `max_size` whose encoding is `msg`: an empty
    buffer is reset to the front; a message that does not fit after `transmit_max` is dropped
    when even moving the buffer down would not make room for it. -/
def consoleSendf (t : Tx) (maxSize : Nat) (msg : List UInt8) : Tx :=
  let tpos := t.transmitPos
  let tmax := t.transmitMax
  let (t, tpos, tmax) :=
    if tpos ≥ tmax then ({ t with transmitMax := 0, transmitPos := 0 }, 0, 0) else (t, tpos, tmax)
  if tmax + maxSize > transmitBufSize then
    if tmax + maxSize - tpos > transmitBufSize then t
    else { t with task := .move msg tmax }
  else { t with task := .generate msg tmax }

/-- "Disable TX irq and move buffer": with `transmit_max` at 0 the interrupt stops, and the bytes
    it has not sent, from the `transmit_pos` read now, move to the front. -/
def consoleSendfMove (t : Tx) (msg : List UInt8) (tmax : Nat) : Tx :=
  let tpos := t.transmitPos
  let tmax := tmax - tpos
  { t with transmitBuf := memmove t.transmitBuf 0 tpos tmax, transmitPos := 0,
           transmitMax := tmax, task := .generate msg tmax }

/-- "Generate message" at `tmax`, then "start message transmit". -/
def consoleSendfGenerate (t : Tx) (msg : List UInt8) (tmax : Nat) : Tx :=
  { t with transmitBuf := writeList t.transmitBuf tmax msg, transmitMax := tmax + msg.length,
           task := .idle, accepted := t.accepted ++ [msg] }

/-- What the interrupt and the task do; `sendf` is a call of `command_sendf`. -/
inductive TxEvent
  | txByte
  | sendf (maxSize : Nat) (msg : List UInt8)
  | task

/-- One step.  A `command_sendf` made while `console_sendf` runs is dropped by `in_sendf`. -/
def Tx.step (t : Tx) : TxEvent → Tx
  | .txByte => serialGetTxByte t
  | .sendf maxSize msg =>
    match t.task with
    | .idle => consoleSendf t maxSize msg
    | _ => t
  | .task =>
    match t.task with
    | .idle => t
    | .move msg tmax => consoleSendfMove t msg tmax
    | .generate msg tmax => consoleSendfGenerate t msg tmax

/-- The encoder's promise: `command_encode_and_frame` writes at most five bytes past `max_size`
    (`Command.commandEncodeAndFrame_length_le`). -/
def TxOk (_t : Tx) : TxEvent → Prop
  | .sendf maxSize msg => msg.length ≤ maxSize + 5
  | _ => True

instance decTxOk (t : Tx) (e : TxEvent) : Decidable (TxOk t e) := by
  cases e <;> unfold TxOk <;> infer_instance

def Tx.next : Tx → Tx → Prop := Transition.ofStepIf TxOk fun t e => some (Tx.step t e)

/-- A console just started: both positions zero, nothing generated or sent. -/
def Tx.Init (t : Tx) : Prop :=
  t.transmitPos = 0 ∧ t.transmitMax = 0 ∧ t.task = .idle ∧ t.accepted = [] ∧ t.transmitted = []

/-! ### The layout of the transmit buffer -/

section TxRuns

/-- **The invariant of the transmit side**: the bytes not yet sent, `P`, sit between
    `transmit_pos` and `transmit_max`, at most five bytes past the buffer, and the bytes sent
    followed by them are the messages generated; a pending move or generation has the room
    `max_size` gave it, and the message at most five bytes more. -/
structure Tx.Inv (t : Tx) : Prop where
  bound : t.transmitMax ≤ transmitBufSize + 5
  stream : ∃ P, t.transmitted ++ P = t.accepted.flatten ∧
    t.transmitMax = t.transmitPos + P.length ∧ Holds t.transmitBuf t.transmitPos P
  room : match t.task with
    | .idle => True
    | .move msg tmax => tmax = t.transmitMax ∧
      tmax + msg.length ≤ transmitBufSize + 5 + t.transmitPos
    | .generate msg tmax => tmax = t.transmitMax ∧ tmax + msg.length ≤ transmitBufSize + 5

variable {t : Tx}

theorem Tx.inv_init (h : Tx.Init t) : t.Inv := by
  obtain ⟨hpos, hmax, htask, hacc, htr⟩ := h
  refine ⟨by rw [hmax]; decide, ⟨[], by simp [hacc, htr], by simp [hpos, hmax], holds_nil _ _⟩, ?_⟩
  rw [htask]
  trivial

/-- The interrupt hands out the first pending byte. -/
theorem Tx.Inv.txByte (h : t.Inv) : (serialGetTxByte t).Inv := by
  unfold serialGetTxByte
  split_ifs with hend
  · exact h
  obtain ⟨P, hPs, hmax, hP⟩ := h.stream
  -- a byte is pending, and it is the one at `transmit_pos`
  obtain ⟨b, P', rfl⟩ : ∃ b P', P = b :: P' := by
    cases P with
    | nil => simp at hmax; omega
    | cons b P' => exact ⟨b, P', rfl⟩
  have hb : t.transmitBuf t.transmitPos = b := by
    have := hP 0 (by simp)
    rwa [Nat.add_zero, List.getElem_cons_zero] at this
  refine ⟨h.bound, ⟨P', ?_, by simp at hmax ⊢; omega, ?_⟩, ?_⟩
  · rw [hb, List.append_assoc, List.singleton_append]
    exact hPs
  · simpa using hP.drop 1 (by simp)
  · have hroom := h.room
    dsimp only
    cases ht : t.task with
    | idle => trivial
    | move msg tmax =>
      rw [ht] at hroom
      exact ⟨hroom.1, by omega⟩
    | generate msg tmax =>
      rw [ht] at hroom
      exact hroom

/-- The start of `console_sendf` keeps the invariant and records the room it found. -/
theorem Tx.Inv.sendf (h : t.Inv) (hi : t.task = .idle) {maxSize : Nat} {msg : List UInt8}
    (hlen : msg.length ≤ maxSize + 5) : (consoleSendf t maxSize msg).Inv := by
  obtain ⟨P, hPs, hmax, hP⟩ := h.stream
  unfold consoleSendf
  dsimp only
  by_cases hempty : t.transmitPos ≥ t.transmitMax
  · -- nothing pending: both positions back to the front
    have hP0 : P = [] := List.eq_nil_of_length_eq_zero (by omega)
    rw [if_pos hempty]
    dsimp only
    have hinv0 : Tx.Inv { t with transmitMax := 0, transmitPos := 0 } :=
      ⟨Nat.zero_le _, ⟨[], by simpa [hP0] using hPs, rfl, holds_nil _ _⟩, by simp [hi]⟩
    split_ifs with hbig hnone
    · exact hinv0
    · exact ⟨Nat.zero_le _, hinv0.stream, ⟨rfl, by simp only [transmitBufSize] at *; omega⟩⟩
    · exact ⟨Nat.zero_le _, hinv0.stream, ⟨rfl, by simp only [transmitBufSize] at *; omega⟩⟩
  · rw [if_neg hempty]
    dsimp only
    have hstream : ∃ P, t.transmitted ++ P = t.accepted.flatten ∧
        t.transmitMax = t.transmitPos + P.length ∧ Holds t.transmitBuf t.transmitPos P :=
      ⟨P, hPs, hmax, hP⟩
    split_ifs with hbig hnone
    · exact h
    · -- room only after moving the buffer down
      exact ⟨h.bound, hstream, ⟨rfl, by simp only [transmitBufSize] at *; omega⟩⟩
    · exact ⟨h.bound, hstream, ⟨rfl, by simp only [transmitBufSize] at *; omega⟩⟩

/-- Moving the buffer down keeps the pending bytes, now at the front, and leaves room for the
    message. -/
theorem Tx.Inv.move (h : t.Inv) {msg : List UInt8} {tmax : Nat} (hi : t.task = .move msg tmax) :
    (consoleSendfMove t msg tmax).Inv := by
  obtain ⟨P, hPs, hmax, hP⟩ := h.stream
  have hroom := h.room
  rw [hi] at hroom
  obtain ⟨htmax, hfit⟩ := hroom
  have hn : tmax - t.transmitPos = P.length := by omega
  refine ⟨by dsimp only [consoleSendfMove]; omega, ⟨P, hPs, by simp [consoleSendfMove]; omega, ?_⟩, ?_⟩
  · simp only [consoleSendfMove]
    rw [hn]
    exact hP.memmove 0
  · exact ⟨rfl, by simp only [transmitBufSize] at *; omega⟩

/-- Generating the message appends it to the pending bytes. -/
theorem Tx.Inv.generate (h : t.Inv) {msg : List UInt8} {tmax : Nat}
    (hi : t.task = .generate msg tmax) : (consoleSendfGenerate t msg tmax).Inv := by
  obtain ⟨P, hPs, hmax, hP⟩ := h.stream
  have hroom := h.room
  rw [hi] at hroom
  obtain ⟨htmax, hfit⟩ := hroom
  refine ⟨by simp only [consoleSendfGenerate]; omega, ⟨P ++ msg, ?_, ?_, ?_⟩, trivial⟩
  · simp only [consoleSendfGenerate, List.flatten_append, List.flatten_singleton]
    rw [← List.append_assoc, hPs]
  · simp [consoleSendfGenerate]
    omega
  · -- the message lands just past the pending bytes, which it does not touch
    simp only [consoleSendfGenerate]
    refine holds_append.mpr ⟨hP.writeList_of_disjoint (.inl (by omega)), ?_⟩
    rw [show t.transmitPos + P.length = tmax by omega]
    exact holds_writeList _ _ _

/-- **Every step the environment may take keeps the invariant of the transmit side.** -/
theorem Tx.Inv.step (h : t.Inv) {e : TxEvent} (hok : TxOk t e) : (t.step e).Inv := by
  cases e with
  | txByte => exact h.txByte
  | sendf maxSize msg =>
    simp only [Tx.step]
    cases hi : t.task with
    | idle => exact h.sendf hi hok
    | move msg tmax => exact h
    | generate msg tmax => exact h
  | task =>
    simp only [Tx.step]
    cases hi : t.task with
    | idle => exact h
    | move msg tmax => exact h.move hi
    | generate msg tmax => exact h.generate hi

theorem Tx.inv_of_reachable (h : Transition.Reachable Tx.Init Tx.next t) : t.Inv := by
  refine Transition.Reachable.inv (fun s hi => @Tx.inv_init s hi) ?_ h
  rintro s s' hinv ⟨e, hok, he⟩
  rw [← Option.some_injective _ he]
  exact hinv.step hok

end TxRuns

/-! ## The two streams -/

theorem serial_rx_fifo (r : Rx) (h : Transition.Reachable Rx.Init Rx.next r) :
    r.receivePos ≤ rxBufferSize ∧ r.consumed <+: r.received ∧
      (r.task = .idle → r.consumed ++ read r.receiveBuf 0 r.receivePos = r.received) ∧
      ∀ c ∈ r.calls, 0 < c.1 → IsFrame c.2 := by
  have hinv := Rx.inv_of_reachable h
  obtain ⟨R, hRs, hL⟩ := hinv.stream
  refine ⟨hinv.bound, ⟨R, hRs⟩, fun hi => ?_, hinv.frames⟩
  rw [hL.read_idle hi]
  exact hRs

/-- A console started with zeroed cells and the scanner state of a reset MCU. -/
def rxStart : Rx := ⟨fun _ => 0, 0, ⟨false, false, 0x10⟩, .idle, [], []⟩

/-- The console after a sync byte arrives, the task drops it and starts to pop it, and a second
    byte arrives in the middle of the pop. -/
def rxRace : Rx :=
  (((rxStart.step (.rxByte 0x7e)).step .task).step .task).step (.rxByte 0x01)

theorem serial_rx_fifo_race :
    rxRace.receivePos ≤ rxBufferSize ∧ rxRace.consumed <+: rxRace.received ∧
      (rxRace.task = .idle → rxRace.consumed ++ read rxRace.receiveBuf 0 rxRace.receivePos =
        rxRace.received) ∧
      ∀ c ∈ rxRace.calls, 0 < c.1 → IsFrame c.2 :=
  serial_rx_fifo rxRace
    (.step (.step (.step (.step (.init ⟨rfl, rfl, rfl, rfl⟩) ⟨.rxByte 0x7e, rfl⟩) ⟨.task, rfl⟩)
      ⟨.task, rfl⟩) ⟨.rxByte 0x01, rfl⟩)

end Klipper.SerialIrq
