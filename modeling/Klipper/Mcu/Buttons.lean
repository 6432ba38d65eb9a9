import Mathlib.Data.List.Basic
import Mathlib.Data.Nat.Bitwise

/-
  Button state reporting: `src/buttons.c` on the MCU and `MCU_buttons` of
  `klippy/extras/buttons.py` on the host.

  The MCU samples its buttons every `rest_ticks`; a debounced change is appended to
  `b->reports`, which holds at most eight states not yet acknowledged.  `buttons_task` sends
  them all in a `buttons_state` with the low eight bits of `b->ack_count`, the number of
  reports acknowledged so far, and sends them again after `retransmit_count` samples without
  an acknowledgement.  The host expands the eight-bit count against its own count, passes on
  the states it has not seen, and acknowledges them with `buttons_ack`.

  The system is both parties with a lossy, ordered channel for `buttons_state` and a reliable,
  ordered channel for `buttons_ack`.  Ghost state records the MCU's count of acknowledged
  reports without the eight-bit wrap, every state appended to `b->reports`, and every state
  `handle_buttons_state` passed on.  The invariant (`ButtonsSys.Inv`) says that the MCU holds
  exactly the appended states past its count, that the host has passed on exactly the states
  up to its count, that the acknowledgements in flight make up the difference, and that each
  message in flight is a window of the appended states that starts at or before the host's
  count and ends at or after it.  That window is what makes the signed eight-bit expansion of
  `handle_buttons_state` exact (`expandAckCount_eq`).
-/

namespace Klipper.ButtonReports

/-! ## The MCU side -/

/-- `BF_NO_RETRANSMIT` -/
def bfNoRetransmit : UInt8 := 0x80
/-- `BF_PENDING` -/
def bfPending : UInt8 := 0xff
/-- `BF_ACKED` -/
def bfAcked : UInt8 := 0xfe

/-- `struct buttons` without its timer and pins; `reports` is `reports[0 .. report_count)`. -/
structure Buttons where
  pressed : UInt8
  lastPressed : UInt8
  reports : List UInt8
  ackCount : UInt8
  retransmitState : UInt8
  retransmitCount : UInt8
deriving DecidableEq, Repr

/-- `command_buttons_query`: restart the reporting; a retransmit count with the top bit set is
    the shutdown "Invalid buttons retransmit count". -/
def commandButtonsQuery (retransmitCount invert : UInt8) : Option Buttons :=
  if retransmitCount ≥ bfNoRetransmit then none
  else some ⟨invert, invert, [], 0, bfAcked, retransmitCount⟩

/-- `buttons_event` with the pins read as `status`: debounce, append a changed state while
    fewer than eight are unacknowledged, and count down to a retransmission. -/
def buttonsEvent (b : Buttons) (status : UInt8) : Buttons :=
  let diff := status ^^^ b.pressed
  let debounced := ~~~(status ^^^ b.lastPressed)
  let b :=
    if diff ≠ 0 ∧ diff &&& debounced ≠ 0 then
      let pressed := (b.pressed &&& ~~~debounced) ||| (status &&& debounced)
      if b.reports.length < 8 then
        { b with pressed := pressed, reports := b.reports ++ [pressed], retransmitState := bfPending }
      else { b with pressed := pressed }
    else b
  let b := { b with lastPressed := status }
  -- a state without `BF_NO_RETRANSMIT` counts down; from 0 it wraps to `BF_PENDING`
  if b.retransmitState &&& bfNoRetransmit = 0 then { b with retransmitState := b.retransmitState - 1 }
  else b

/-- `buttons_task` for one object: a pending retransmission with reports to send sends all of
    them with the eight-bit acknowledged count. -/
def buttonsTask (b : Buttons) : Buttons × Option (UInt8 × List UInt8) :=
  if b.retransmitState ≠ bfPending ∨ b.reports.length = 0 then (b, none)
  else ({ b with retransmitState := b.retransmitCount }, some (b.ackCount, b.reports))

/-- `command_buttons_ack(count)`: drop the first `count` reports. -/
def commandButtonsAck (b : Buttons) (count : UInt8) : Buttons :=
  let b := { b with ackCount := b.ackCount + count }
  if count.toNat ≥ b.reports.length then { b with reports := [], retransmitState := bfAcked }
  else { b with reports := b.reports.drop count.toNat }

/-! ## The host side -/

/-- The fields of `MCU_buttons` that `handle_buttons_state` reads: the count of states passed
    on, the inversion mask, the last state and each callback's `(mask, shift)`. -/
structure ButtonsHost where
  ackCount : Int
  invert : Nat
  lastButton : Nat
  callbacks : List (Nat × Nat)

/-- The first lines of `handle_buttons_state`: the message's eight-bit `ack_count` expanded to
    the nearest count within 128 of the host's. -/
def expandAckCount (ackCount : Int) (msgAck : UInt8) : Int :=
  let ackDiff := ((msgAck.toNat : Int) - ackCount) % 256
  let ackDiff := ackDiff - (((ackDiff.toNat &&& 0x80) <<< 1 : Nat) : Int)
  ackCount + ackDiff

/-- The callback loop for one new state: each callback whose buttons changed gets its field of
    the state, as `(callback index, state)`. -/
def dispatchButton (h : ButtonsHost) (button : Nat) : ButtonsHost × List (Nat × Nat) :=
  let button := button ^^^ h.invert
  let changed := button ^^^ h.lastButton
  let events := h.callbacks.zipIdx.filterMap fun ((mask, shift), i) =>
    if changed &&& mask ≠ 0 then some (i, (button &&& mask) >>> shift) else none
  ({ h with lastButton := button }, events)

/-- `handle_buttons_state`: the new host state, the count it acknowledges, the new states it
    passes on, and the callbacks they trigger. -/
def handleButtonsState (h : ButtonsHost) (msgAck : UInt8) (state : List UInt8) :
    ButtonsHost × Option Nat × List UInt8 × List (Nat × Nat) :=
  let msgAckCount := expandAckCount h.ackCount msgAck
  let newCount := msgAckCount + state.length - h.ackCount
  if newCount ≤ 0 then (h, none, [], [])
  else
    let newButtons := state.drop (state.length - newCount.toNat)
    let h := { h with ackCount := h.ackCount + newCount }
    let r := newButtons.foldl (fun (acc : ButtonsHost × List (Nat × Nat)) b =>
      let d := dispatchButton acc.1 b.toNat
      (d.1, acc.2 ++ d.2)) (h, [])
    (r.1, some newCount.toNat, newButtons, r.2)

/-! ## The two parties and their channels -/

/-- A `buttons_state` in flight, with the MCU's count of acknowledged reports when it was sent
    (a ghost: the wire carries its low eight bits as `ackCount`). -/
structure StateMsg where
  ackCount : UInt8
  state : List UInt8
  sentAcks : Nat

/-- The MCU, the host, the messages in flight (oldest first) and the ghosts: the MCU's count of
    acknowledged reports, every state appended to `b->reports`, and every state passed on. -/
structure ButtonsSys where
  mcu : Buttons
  host : ButtonsHost
  toHost : List StateMsg
  toMcu : List UInt8
  acks : Nat
  appended : List UInt8
  delivered : List UInt8

/-- What can happen next: a sample with the pins read as `status`, a run of `buttons_task`,
    the loss of the oldest `buttons_state` in flight, its arrival at the host, or the arrival
    of the oldest `buttons_ack` at the MCU. -/
inductive ButtonsAct
  | sample (status : UInt8)
  | task
  | lose
  | receive
  | ack
deriving DecidableEq, Repr

/-- One step of the system; `none` when a channel it reads is empty. -/
def buttonsStep (s : ButtonsSys) : ButtonsAct → Option ButtonsSys
  | .sample status =>
    let b := buttonsEvent s.mcu status
    some { s with mcu := b, appended := s.appended ++ b.reports.drop s.mcu.reports.length }
  | .task =>
    let r := buttonsTask s.mcu
    match r.2 with
    | none => some { s with mcu := r.1 }
    | some (a, st) => some { s with mcu := r.1, toHost := s.toHost ++ [⟨a, st, s.acks⟩] }
  | .lose =>
    match s.toHost with
    | [] => none
    | _ :: rest => some { s with toHost := rest }
  | .receive =>
    match s.toHost with
    | [] => none
    | m :: rest =>
      let r := handleButtonsState s.host m.ackCount m.state
      some { s with host := r.1, toHost := rest,
                    toMcu := s.toMcu ++ (r.2.1.map UInt8.ofNat).toList,
                    delivered := s.delivered ++ r.2.2.1 }
  | .ack =>
    match s.toMcu with
    | [] => none
    | c :: rest => some { s with mcu := commandButtonsAck s.mcu c, toMcu := rest, acks := s.acks + c.toNat }

/-- A run of actions, each of which must be able to happen. -/
def buttonsRun (s : ButtonsSys) (acts : List ButtonsAct) : Option ButtonsSys :=
  acts.foldlM buttonsStep s

/-- The system after `buttons_query`, before any report. -/
def buttonsInit (b : Buttons) (host : ButtonsHost) : ButtonsSys :=
  ⟨b, host, [], [], 0, [], []⟩

/-! ## What each function does to the reports and the counts -/

/-- A sample appends at most one state, and only while fewer than eight are held. -/
theorem buttonsEvent_reports (b : Buttons) (status : UInt8) :
    (buttonsEvent b status).reports = b.reports ∨
      (∃ x, (buttonsEvent b status).reports = b.reports ++ [x]) ∧ b.reports.length < 8 := by
  simp only [buttonsEvent]
  split_ifs <;> simp [*]

@[simp] theorem buttonsEvent_ackCount (b : Buttons) (status : UInt8) :
    (buttonsEvent b status).ackCount = b.ackCount := by
  simp only [buttonsEvent]
  split_ifs <;> rfl

@[simp] theorem buttonsTask_reports (b : Buttons) : (buttonsTask b).1.reports = b.reports := by
  unfold buttonsTask
  split_ifs <;> rfl

@[simp] theorem buttonsTask_ackCount (b : Buttons) : (buttonsTask b).1.ackCount = b.ackCount := by
  unfold buttonsTask
  split_ifs <;> rfl

/-- `buttons_task` sends the eight-bit count and every unacknowledged report. -/
theorem buttonsTask_sent {b : Buttons} {a : UInt8} {st : List UInt8}
    (h : (buttonsTask b).2 = some (a, st)) : a = b.ackCount ∧ st = b.reports := by
  unfold buttonsTask at h
  split_ifs at h
  simp only [Option.some.injEq, Prod.mk.injEq] at h
  exact ⟨h.1.symm, h.2.symm⟩

/-- An acknowledgement of no more than the reports held drops exactly that many. -/
theorem commandButtonsAck_reports (b : Buttons) {c : UInt8} (hc : c.toNat ≤ b.reports.length) :
    (commandButtonsAck b c).reports = b.reports.drop c.toNat := by
  simp only [commandButtonsAck]
  split_ifs with hall
  · -- all of them
    have : c.toNat = b.reports.length := by simp at hall; omega
    simp [this]
  · rfl

@[simp] theorem commandButtonsAck_ackCount (b : Buttons) (c : UInt8) :
    (commandButtonsAck b c).ackCount = b.ackCount + c := by
  simp only [commandButtonsAck]
  split_ifs <;> rfl

/-- The top bit of a byte, moved up one place. -/
theorem and_0x80_shiftLeft (x : Nat) (hx : x < 256) :
    (x &&& 0x80) <<< 1 = if 128 ≤ x then 256 else 0 := by
  rw [show (0x80 : Nat) = 2 ^ 7 from rfl, Nat.and_two_pow, Nat.testBit_eq_decide_div_mod_eq,
    Nat.shiftLeft_eq]
  by_cases h128 : 128 ≤ x
  · have : x / 128 % 2 = 1 := by omega
    simp [this, h128]
  · have : x / 128 % 2 = 0 := by omega
    simp [this, h128]

/-- **The expansion is exact within 128.**  A count `a` no more than 127 behind the host's
    count is recovered from its low eight bits. -/
theorem expandAckCount_eq {a H : Nat} (ha : a ≤ H) (hH : H < a + 128) :
    expandAckCount H (UInt8.ofNat a) = a := by
  have hbyte : ((UInt8.ofNat a).toNat : Int) = (a % 256 : Nat) := by simp
  simp only [expandAckCount, hbyte]
  -- the byte difference, in `[0, 256)`
  generalize hx : (((a % 256 : Nat) : Int) - (H : Int)) % 256 = x
  have hx0 : 0 ≤ x := by omega
  have hx256 : x.toNat < 256 := by omega
  rw [and_0x80_shiftLeft _ hx256]
  split_ifs with h128 <;> push_cast <;> omega

/-- `handle_buttons_state` leaves the host's count alone in its callback loop. -/
theorem foldl_dispatchButton_ackCount (l : List UInt8) (acc : ButtonsHost × List (Nat × Nat)) :
    (l.foldl (fun (acc : ButtonsHost × List (Nat × Nat)) b =>
      let d := dispatchButton acc.1 b.toNat
      (d.1, acc.2 ++ d.2)) acc).1.ackCount = acc.1.ackCount := by
  induction l generalizing acc with
  | nil => rfl
  | cons b l ih => rw [List.foldl_cons, ih]; rfl

/-- **`handle_buttons_state` on a window.**  Given states `a ..` of which the host has passed on
    those before `H`, with `a ≤ H ≤ a + length`, it passes on those from `H`, moves its count to
    the window's end and acknowledges the difference. -/
theorem handleButtonsState_window (h : ButtonsHost) {a H : Nat} (state : List UInt8)
    (hH : h.ackCount = H) (ha : a ≤ H) (hend : H ≤ a + state.length) (h8 : state.length ≤ 8) :
    (handleButtonsState h (UInt8.ofNat a) state).1.ackCount = a + state.length ∧
      (handleButtonsState h (UInt8.ofNat a) state).2.1 =
        (if H < a + state.length then some (a + state.length - H) else none) ∧
      (handleButtonsState h (UInt8.ofNat a) state).2.2.1 = state.drop (H - a) := by
  have hexp : expandAckCount H (UInt8.ofNat a) = a := expandAckCount_eq ha (by omega)
  simp only [handleButtonsState]
  rw [hH, hexp]
  by_cases hlt : H < a + state.length
  · -- new states: the window's end is past the host's count
    have hpos : ¬ ((a : Int) + state.length - H ≤ 0) := by omega
    have hcount : ((a : Int) + state.length - H).toNat = a + state.length - H := by omega
    rw [if_pos hlt, if_neg hpos, hcount]
    refine ⟨?_, rfl, ?_⟩
    · simp only [foldl_dispatchButton_ackCount]
      omega
    · dsimp only
      congr 1
      omega
  · -- nothing new: the host has passed on the whole window
    have hzero : (a : Int) + state.length - H ≤ 0 := by omega
    rw [if_neg hlt, if_pos hzero]
    exact ⟨by rw [hH]; omega, rfl, (List.drop_eq_nil_of_le (by omega)).symm⟩

/-! ## The invariant -/

/-- A message in flight is the window of the appended states from its count on, within eight,
    that starts at or before the host's count `H` and ends at or after it. -/
structure StateMsg.Window (appended : List UInt8) (H : Nat) (m : StateMsg) : Prop where
  ackCount : m.ackCount = UInt8.ofNat m.sentAcks
  state : m.state = (appended.drop m.sentAcks).take m.state.length
  bound : m.sentAcks + m.state.length ≤ appended.length
  start : m.sentAcks ≤ H
  stop : H ≤ m.sentAcks + m.state.length
  short : m.state.length ≤ 8

/-- The protocol invariant. -/
structure ButtonsSys.Inv (s : ButtonsSys) : Prop where
  reports : s.mcu.reports = s.appended.drop s.acks
  reportsLen : s.mcu.reports.length ≤ 8
  ackCount : s.mcu.ackCount = UInt8.ofNat s.acks
  hostCount : s.host.ackCount = s.delivered.length
  delivered : s.delivered = s.appended.take s.delivered.length
  pending : s.acks + (s.toMcu.map UInt8.toNat).sum = s.delivered.length
  deliveredLe : s.delivered.length ≤ s.appended.length
  msgs : ∀ m ∈ s.toHost, m.Window s.appended s.delivered.length
  sorted : s.toHost.Pairwise fun m m' => m.sentAcks + m.state.length ≤ m'.sentAcks + m'.state.length

namespace StateMsg.Window

variable {appended : List UInt8} {H : Nat} {m : StateMsg}

/-- Appending states keeps every window. -/
theorem append (hw : m.Window appended H) (new : List UInt8) : m.Window (appended ++ new) H := by
  refine ⟨hw.ackCount, ?_, by simp; have := hw.bound; omega, hw.start, hw.stop, hw.short⟩
  have hd : (appended ++ new).drop m.sentAcks = appended.drop m.sentAcks ++ new :=
    List.drop_append_of_le_length (by have := hw.bound; omega)
  rw [hd, List.take_append_of_le_length (by simp; have := hw.bound; omega)]
  exact hw.state

/-- A window stays one while the host's count moves within it. -/
theorem host (hw : m.Window appended H) {H' : Nat} (h1 : H ≤ H')
    (h2 : H' ≤ m.sentAcks + m.state.length) : m.Window appended H' :=
  ⟨hw.ackCount, hw.state, hw.bound, hw.start.trans h1, h2, hw.short⟩

end StateMsg.Window

/-- The states passed on up to `H`, then those of a window from `H`, are the appended states up
    to the window's end. -/
theorem take_append_window {appended : List UInt8} {a H len : Nat} (ha : a ≤ H) (hH : H ≤ a + len) :
    appended.take H ++ ((appended.drop a).take len).drop (H - a) = appended.take (a + len) := by
  rw [List.drop_take, List.drop_drop, show a + (H - a) = H by omega,
    show a + len = H + (len - (H - a)) by omega, List.take_add]

namespace ButtonsSys.Inv

variable {s : ButtonsSys}

theorem acks_le (h : s.Inv) : s.acks ≤ s.delivered.length := by
  have := h.pending
  omega

theorem reports_length (h : s.Inv) : s.mcu.reports.length + s.acks = s.appended.length := by
  rw [h.reports, List.length_drop]
  have := h.acks_le
  have := h.deliveredLe
  omega

/-- A new MCU state with the same reports and count. -/
theorem setMcu (h : s.Inv) {b : Buttons} (hr : b.reports = s.mcu.reports)
    (ha : b.ackCount = s.mcu.ackCount) : Inv { s with mcu := b } :=
  ⟨hr.trans h.reports, hr ▸ h.reportsLen, ha.trans h.ackCount, h.hostCount, h.delivered, h.pending,
    h.deliveredLe, h.msgs, h.sorted⟩

/-- A sample: new states appended to the reports are appended to the ghost log. -/
theorem appendReports (h : s.Inv) {b : Buttons} {new : List UInt8}
    (hr : b.reports = s.mcu.reports ++ new) (hlen : b.reports.length ≤ 8)
    (ha : b.ackCount = s.mcu.ackCount) : Inv { s with mcu := b, appended := s.appended ++ new } := by
  have hacks : s.acks ≤ s.appended.length := h.acks_le.trans h.deliveredLe
  refine ⟨?_, hlen, ha.trans h.ackCount, h.hostCount, ?_, h.pending, ?_,
    fun m hm => (h.msgs m hm).append new, h.sorted⟩
  · simp only [hr, h.reports, List.drop_append_of_le_length hacks]
  · simp only
    rw [List.take_append_of_le_length h.deliveredLe]
    exact h.delivered
  · simp only [List.length_append]
    have := h.deliveredLe
    omega

/-- `buttons_task` sending its reports. -/
theorem send (h : s.Inv) {b : Buttons} (hr : b.reports = s.mcu.reports)
    (ha : b.ackCount = s.mcu.ackCount) :
    Inv { s with mcu := b, toHost := s.toHost ++ [⟨s.mcu.ackCount, s.mcu.reports, s.acks⟩] } := by
  have hlen := h.reports_length
  have hdl := h.deliveredLe
  -- the new message is the window from the MCU's count to the end of the log
  have hw : StateMsg.Window s.appended s.delivered.length ⟨s.mcu.ackCount, s.mcu.reports, s.acks⟩ :=
    ⟨h.ackCount, by simp only; rw [h.reports, List.take_length], by simp only; omega, h.acks_le,
      by simp only; omega, h.reportsLen⟩
  refine ⟨hr.trans h.reports, hr ▸ h.reportsLen, ha.trans h.ackCount, h.hostCount, h.delivered,
    h.pending, h.deliveredLe, ?_, ?_⟩
  · intro m hm
    rcases List.mem_append.mp hm with hm | hm
    · exact h.msgs m hm
    · rw [List.mem_singleton.mp hm]
      exact hw
  · refine List.pairwise_append.mpr ⟨h.sorted, List.pairwise_singleton _ _, ?_⟩
    intro m hm m' hm'
    rw [List.mem_singleton.mp hm']
    simp only
    have := (h.msgs m hm).bound
    omega

/-- The loss of the oldest message in flight. -/
theorem lose (h : s.Inv) {m : StateMsg} {rest : List StateMsg} (hs : s.toHost = m :: rest) :
    Inv { s with toHost := rest } := by
  have hsorted := h.sorted
  rw [hs] at hsorted
  exact ⟨h.reports, h.reportsLen, h.ackCount, h.hostCount, h.delivered, h.pending, h.deliveredLe,
    fun m' hm' => h.msgs m' (hs ▸ List.mem_cons_of_mem _ hm'), (List.pairwise_cons.mp hsorted).2⟩

/-- The host handling the oldest message in flight. -/
theorem receive (h : s.Inv) {m : StateMsg} {rest : List StateMsg} (hs : s.toHost = m :: rest) :
    let r := handleButtonsState s.host m.ackCount m.state
    Inv { s with host := r.1, toHost := rest, toMcu := s.toMcu ++ (r.2.1.map UInt8.ofNat).toList,
                 delivered := s.delivered ++ r.2.2.1 } := by
  have hw := h.msgs m (by simp [hs])
  have hstart := hw.start
  have hstop := hw.stop
  have hshort := hw.short
  have hsorted := h.sorted
  rw [hs] at hsorted
  obtain ⟨hcount, hack, hnew⟩ := handleButtonsState_window s.host m.state h.hostCount hw.start hw.stop
    hw.short
  rw [hw.ackCount]
  -- the host has now passed on the appended states up to the window's end
  have hdel : s.delivered ++ m.state.drop (s.delivered.length - m.sentAcks) =
      s.appended.take (m.sentAcks + m.state.length) := by
    conv_lhs => rw [h.delivered, hw.state]
    rw [List.length_take_of_le h.deliveredLe]
    exact take_append_window hw.start hw.stop
  have hdlen : (s.delivered ++ m.state.drop (s.delivered.length - m.sentAcks)).length =
      m.sentAcks + m.state.length := by
    rw [hdel, List.length_take_of_le hw.bound]
  refine ⟨h.reports, h.reportsLen, h.ackCount, ?_, ?_, ?_, ?_, ?_, (List.pairwise_cons.mp hsorted).2⟩
  · simp only [hcount, hnew, hdlen]
    push_cast
    rfl
  · simp only [hnew, hdlen]
    exact hdel
  · -- the acknowledgement sent makes up the difference, and fits in a byte
    simp only [hnew, hdlen, hack, List.map_append, List.sum_append]
    have hp := h.pending
    split_ifs with hlt
    · have hbyte : (UInt8.ofNat (m.sentAcks + m.state.length - s.delivered.length)).toNat =
          m.sentAcks + m.state.length - s.delivered.length := by
        rw [UInt8.toNat_ofNat', Nat.mod_eq_of_lt (by omega)]
      simp only [Option.map_some, Option.toList_some, List.map_cons, List.map_nil, hbyte,
        List.sum_cons, List.sum_nil]
      omega
    · simp only [Option.map_none, Option.toList_none, List.map_nil, List.sum_nil]
      omega
  · simp only [hnew, hdlen]
    exact hw.bound
  · intro m' hm'
    simp only [hnew, hdlen]
    have hw' := h.msgs m' (by simp [hs, hm'])
    exact hw'.host (by omega) ((List.pairwise_cons.mp hsorted).1 m' hm')

/-- The MCU handling the oldest acknowledgement in flight. -/
theorem ack (h : s.Inv) {c : UInt8} {rest : List UInt8} (hs : s.toMcu = c :: rest) :
    Inv { s with mcu := commandButtonsAck s.mcu c, toMcu := rest, acks := s.acks + c.toNat } := by
  have hp := h.pending
  rw [hs, List.map_cons, List.sum_cons] at hp
  have hlen := h.reports_length
  have hdl := h.deliveredLe
  -- the MCU holds at least as many reports as the host acknowledges
  have hc : c.toNat ≤ s.mcu.reports.length := by omega
  refine ⟨?_, ?_, ?_, h.hostCount, h.delivered, by simp only; omega, h.deliveredLe, h.msgs, h.sorted⟩
  · rw [commandButtonsAck_reports _ hc, h.reports, List.drop_drop]
  · rw [commandButtonsAck_reports _ hc, List.length_drop]
    have := h.reportsLen
    omega
  · rw [commandButtonsAck_ackCount, h.ackCount, UInt8.ofNat_add, UInt8.ofNat_toNat]

/-- **Step lemma.** -/
theorem step (h : s.Inv) {act : ButtonsAct} {s' : ButtonsSys} (hs : buttonsStep s act = some s') :
    s'.Inv := by
  cases act with
  | sample status =>
    simp only [buttonsStep, Option.some.injEq] at hs
    subst hs
    rcases buttonsEvent_reports s.mcu status with heq | ⟨⟨x, heq⟩, hroom⟩
    · have := h.appendReports (show _ = s.mcu.reports ++ [] by rw [heq, List.append_nil])
        (by rw [heq]; exact h.reportsLen) (buttonsEvent_ackCount _ _)
      simpa [heq] using this
    · have := h.appendReports heq (by rw [heq]; simp; omega) (buttonsEvent_ackCount _ _)
      simpa [heq] using this
  | task =>
    simp only [buttonsStep] at hs
    split at hs
    · cases hs
      exact h.setMcu (buttonsTask_reports _) (buttonsTask_ackCount _)
    · rename_i a st hsent
      cases hs
      obtain ⟨rfl, rfl⟩ := buttonsTask_sent hsent
      exact h.send (buttonsTask_reports _) (buttonsTask_ackCount _)
  | lose =>
    simp only [buttonsStep] at hs
    split at hs
    · cases hs
    · rename_i m rest hto
      cases hs
      exact h.lose hto
  | receive =>
    simp only [buttonsStep] at hs
    split at hs
    · cases hs
    · rename_i m rest hto
      cases hs
      exact h.receive hto
  | ack =>
    simp only [buttonsStep] at hs
    split at hs
    · cases hs
    · rename_i c rest hto
      cases hs
      exact h.ack hto

/-- **Run lemma.** -/
theorem run (h : s.Inv) {acts : List ButtonsAct} {s' : ButtonsSys} (hs : buttonsRun s acts = some s') :
    s'.Inv := by
  induction acts generalizing s with
  | nil =>
    simp only [buttonsRun, List.foldlM_nil, Option.pure_def, Option.some.injEq] at hs
    exact hs ▸ h
  | cons act acts ih =>
    simp only [buttonsRun, List.foldlM_cons, Option.bind_eq_bind, Option.bind_eq_some_iff] at hs
    obtain ⟨s1, h1, hrest⟩ := hs
    exact ih (h.step h1) hrest

/-- After `buttons_query` and before any report the invariant holds. -/
theorem init {retransmitCount invert : UInt8} {b : Buttons}
    (hq : commandButtonsQuery retransmitCount invert = some b) {host : ButtonsHost}
    (hhost : host.ackCount = 0) : (buttonsInit b host).Inv := by
  simp only [commandButtonsQuery] at hq
  split_ifs at hq
  cases hq
  exact ⟨rfl, by simp [buttonsInit], rfl, hhost, rfl, rfl, le_refl _, by simp [buttonsInit],
    by simp [buttonsInit]⟩

end ButtonsSys.Inv

/-! ## Each state exactly once -/

example : ((buttonsRun (buttonsInit ⟨0, 0, [], 0, bfAcked, 1⟩ ⟨0, 0, 0, []⟩)
    [.sample 1, .sample 1, .task, .lose, .sample 1, .sample 1, .task, .receive, .ack]).map
      fun s => (s.appended, s.delivered, s.mcu.reports)) = some ([1], [1], []) := by
  decide

end Klipper.ButtonReports
