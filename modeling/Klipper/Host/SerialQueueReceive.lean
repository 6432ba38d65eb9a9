import Mathlib
import Klipper.Host.SerialQueue

/-
  The receive path of klippy's `serialqueue` (`klippy/chelper/serialqueue.c`): what
  `handle_message` does with a frame from the MCU.

  The host numbers its blocks with the 64-bit `send_seq`, and a frame carries only the low four
  bits of the MCU's sequence.  `handle_message` rebuilds the full number `rseq` as the first
  number from `receive_seq` on with those bits (`rseqOf`).  A new number acknowledges blocks:
  `update_receive_seq` drops them from `sent_queue`, or, when the queue runs out first, takes
  `rseq` as the connection's first sequence.  Then the messages at the front of `notify_queue`
  whose block is at most `wake_seq = rseq - 1`, one less for a frame that carries data, move to
  `receive_queue`, and a data frame follows them there.

  Two facts are proved here.  Whatever the frame, the messages leaving `notify_queue` are a
  prefix of it and arrive at `receive_queue` in order (`handleMessage_notify`).  When the frame's
  sequence lies in the sixteen numbers from `receive_seq` on, `rseq` is that sequence, and the
  blocks it acknowledges are exactly the front of `sent_queue` (`handleMessage_of_inWindow`).

  What only drives timers (`last_ack_seq`, `ignore_nak_seq`, the round-trip estimate), the byte
  counters and the fast readers is not modelled.
-/

namespace Klipper.SerialQueue

open MsgBlock

variable {ι : Type}

/-- The receive side of `struct serialqueue`: `receive_seq` and `receive_queue`. -/
structure Receiver where
  receiveSeq : UInt64
  receiveQueue : List QueueMessage

/-- The receive side as `serialqueue_alloc` leaves it for a serial port. -/
def receiverAlloc : Receiver := ⟨1, []⟩

/-- `MAX_PENDING_BLOCKS` -/
def maxPendingBlocks : UInt64 := 12

/-- The first test of `check_send_command`: no block goes out while `MAX_PENDING_BLOCKS` are
    unacknowledged. -/
def checkSendWindow (sq : Serialqueue ι) (rx : Receiver) : Bool :=
  !(sq.sendSeq - rx.receiveSeq ≥ maxPendingBlocks && rx.receiveSeq != (-1 : UInt64))

/-- The sequence byte of a block: `MESSAGE_DEST` and the low four bits of `seq`. -/
def seqByte (seq : UInt64) : UInt8 := (messageDest ||| (seq &&& messageSeqMask)).toUInt8

/-- The loop of `update_receive_seq`: drop blocks from the front of `sent_queue`, counting from
    `sent_seq`, up to the one numbered `rseq`.  It returns what is left, and whether the queue
    ran out first (an ack for a block never sent: the connection's start). -/
def popSent (rseq : UInt64) : UInt64 → List (List UInt8) → List (List UInt8) × Bool
  | _, [] => ([], true)
  | sentSeq, _ :: rest =>
    if rseq = sentSeq + 1 then (rest, false) else popSent rseq (sentSeq + 1) rest

/-- `update_receive_seq(sq, eventtime, rseq)` -/
def updateReceiveSeq (sq : Serialqueue ι) (rx : Receiver) (rseq : UInt64) :
    Serialqueue ι × Receiver :=
  let (sent, ranOut) := popSent rseq rx.receiveSeq sq.sentQueue
  ({ sq with sentQueue := sent, sendSeq := if ranOut then rseq else sq.sendSeq },
    { rx with receiveSeq := rseq })

/-- `message_fill(input_buf, len)`: a data frame as a message of `receive_queue`. -/
def messageFill (frame : List UInt8) : QueueMessage := ⟨frame, 0, 0, 0⟩

/-- `rseq`: the first number from `receive_seq` on whose low four bits are the frame's. -/
def rseqOf (rx : Receiver) (frame : List UInt8) : UInt64 :=
  rx.receiveSeq + (((frame.getD messagePosSeq 0).toUInt64 - rx.receiveSeq) &&& messageSeqMask)

/-- `wake_seq`: the last block whose notification a frame of `len` bytes releases. -/
def wakeSeq (rseq : UInt64) (len : Nat) : UInt64 :=
  rseq - 1 - (if len > messageMin then 1 else 0)

/-- `handle_message(sq, eventtime, len)` on the frame in `input_buf`: a released notification
    keeps its `req_clock` and has `len = 0`. -/
def handleMessage (sq : Serialqueue ι) (rx : Receiver) (frame : List UInt8) :
    Serialqueue ι × Receiver :=
  let rseq := rseqOf rx frame
  -- an ack for a block not sent, unless the connection is starting
  if rseq ≠ rx.receiveSeq ∧ rseq > sq.sendSeq ∧ rx.receiveSeq ≠ 1 then (sq, rx)
  else
    let (sq, rx) := if rseq ≠ rx.receiveSeq then updateReceiveSeq sq rx rseq else (sq, rx)
    let (woken, waiting) :=
      sq.notifyQueue.span fun qm => !(wakeSeq rseq frame.length < qm.reqClock)
    ({ sq with notifyQueue := waiting },
      { rx with receiveQueue := rx.receiveQueue ++ woken.map (fun qm => { qm with msg := [] }) ++
          if frame.length = messageMin then [] else [messageFill frame] })

/-! ## Sequence bytes -/

theorem and_seqMask_toNat (x : UInt64) : (x &&& messageSeqMask).toNat = x.toNat % 16 := by
  rw [UInt64.toNat_and]
  exact Nat.and_two_pow_sub_one_eq_mod _ 4

/-- The sequence byte is `0x10` plus the low four bits. -/
theorem seqByte_toNat (seq : UInt64) : (seqByte seq).toNat = 16 + seq.toNat % 16 := by
  rw [seqByte, UInt64.toNat_toUInt8, UInt64.toNat_or, show messageDest.toNat = 16 from rfl,
    and_seqMask_toNat]
  have hor : 16 ||| seq.toNat % 16 = seq.toNat % 16 + 16 := by
    rw [Nat.lor_comm]
    exact Nat.or_two_pow_eq_add_of_lt (Nat.mod_lt _ (by norm_num : 0 < 2 ^ 4))
  rw [hor]
  omega

theorem seqByte_eq_iff {a b : UInt64} : seqByte a = seqByte b ↔ a.toNat % 16 = b.toNat % 16 := by
  rw [← UInt8.toNat_inj, seqByte_toNat, seqByte_toNat]
  omega

/-- `command_find_block` moves `next_sequence` from a block's sequence byte to the next
    number's. -/
theorem seqByte_succ (seq : UInt64) :
    ((((seqByte seq).toUInt64 + 1) &&& messageSeqMask) ||| messageDest).toUInt8 =
      seqByte (seq + 1) := by
  -- both sides are `0x10` plus the low four bits of `seq + 1`
  have hl : (((seqByte seq).toUInt64 + 1) &&& messageSeqMask).toNat = (seq.toNat + 1) % 16 := by
    rw [and_seqMask_toNat, UInt64.toNat_add, UInt8.toNat_toUInt64, seqByte_toNat]
    simp only [UInt64.toNat_one]
    omega
  have hr : ((seq + 1) &&& messageSeqMask).toNat = (seq.toNat + 1) % 16 := by
    rw [and_seqMask_toNat, UInt64.toNat_add, UInt64.toNat_one]
    have := seq.toNat_lt
    omega
  have heq : ((seqByte seq).toUInt64 + 1) &&& messageSeqMask = (seq + 1) &&& messageSeqMask :=
    UInt64.toNat_inj.mp (hl.trans hr.symm)
  rw [heq, seqByte, UInt64.or_comm]

theorem fillBlock_seq (seq : UInt64) (payload : List UInt8) :
    (fillBlock seq payload).getD messagePosSeq 0 = seqByte seq := rfl

/-- **The sequence a frame stands for.**  A sequence at most fifteen past `receive_seq` is
    rebuilt from its low four bits. -/
theorem rseqOf_eq {rx : Receiver} {frame : List UInt8} {m : UInt64}
    (hseq : frame.getD messagePosSeq 0 = seqByte m) (hlo : rx.receiveSeq.toNat ≤ m.toNat)
    (hhi : m.toNat < rx.receiveSeq.toNat + 16) : rseqOf rx frame = m := by
  have hm := m.toNat_lt
  have hdelta : ((seqByte m).toUInt64 - rx.receiveSeq &&& messageSeqMask).toNat =
      m.toNat - rx.receiveSeq.toNat := by
    rw [and_seqMask_toNat, UInt64.toNat_sub, UInt8.toNat_toUInt64, seqByte_toNat]
    omega
  rw [rseqOf, hseq]
  apply UInt64.toNat_inj.mp
  rw [UInt64.toNat_add, hdelta]
  omega

/-! ## Acknowledged blocks -/

/-- With `rseq` among the blocks on `sent_queue`, `update_receive_seq` drops exactly the blocks
    up to it. -/
theorem popSent_of_le : ∀ {sent : List (List UInt8)} {sentSeq rseq : UInt64},
    sentSeq.toNat < rseq.toNat → rseq.toNat ≤ sentSeq.toNat + sent.length →
      popSent rseq sentSeq sent = (sent.drop (rseq.toNat - sentSeq.toNat), false)
  | [], _, _, hlt, hle => by simp at hle; omega
  | b :: rest, sentSeq, rseq, hlt, hle => by
    have hr := rseq.toNat_lt
    have hsucc : (sentSeq + 1).toNat = sentSeq.toNat + 1 := by
      rw [UInt64.toNat_add, UInt64.toNat_one]
      omega
    rw [popSent]
    by_cases heq : rseq = sentSeq + 1
    · rw [if_pos heq, heq, hsucc, show sentSeq.toNat + 1 - sentSeq.toNat = 1 by omega]
      rfl
    · -- not yet: one block fewer, counting from the next number
      have hne : rseq.toNat ≠ sentSeq.toNat + 1 := fun h => heq (UInt64.toNat_inj.mp (h.trans hsucc.symm))
      rw [if_neg heq, popSent_of_le (by omega) (by simp at hle; omega), hsucc,
        show rseq.toNat - sentSeq.toNat = (rseq.toNat - (sentSeq.toNat + 1)) + 1 by omega]
      rfl

/-! ## What `handle_message` does -/

section Handle

variable {sq : Serialqueue ι} {rx : Receiver} {frame : List UInt8}

theorem updateReceiveSeq_notifyQueue (rseq : UInt64) :
    (updateReceiveSeq sq rx rseq).1.notifyQueue = sq.notifyQueue := rfl

theorem updateReceiveSeq_receiveQueue (rseq : UInt64) :
    (updateReceiveSeq sq rx rseq).2.receiveQueue = rx.receiveQueue := rfl

/-- **Notifications leave in order.**  Whatever the frame, the messages that leave
    `notify_queue` are some at its front, each from a block no later than `wake_seq`, and they
    arrive at the end of `receive_queue` in order and with `len = 0`, followed by nothing that
    carries a `notify_id`. -/
theorem handleMessage_notify (sq : Serialqueue ι) (rx : Receiver) (frame : List UInt8) :
    ∃ woken data, sq.notifyQueue = woken ++ (handleMessage sq rx frame).1.notifyQueue ∧
      (handleMessage sq rx frame).2.receiveQueue =
        rx.receiveQueue ++ woken.map (fun qm => { qm with msg := [] }) ++ data ∧
      (∀ qm ∈ woken, qm.reqClock ≤ wakeSeq (rseqOf rx frame) frame.length) ∧
      ∀ qm ∈ data, qm.notifyId = 0 := by
  unfold handleMessage
  dsimp only
  by_cases hbad : rseqOf rx frame ≠ rx.receiveSeq ∧ rseqOf rx frame > sq.sendSeq ∧
      rx.receiveSeq ≠ 1
  · rw [if_pos hbad]
    exact ⟨[], [], by simp, by simp, by simp, by simp⟩
  rw [if_neg hbad]
  -- acknowledging blocks touches neither queue
  obtain ⟨sq₁, rx₁, hsplit, hn, hr⟩ : ∃ sq₁ rx₁,
      (if rseqOf rx frame ≠ rx.receiveSeq then updateReceiveSeq sq rx (rseqOf rx frame)
        else (sq, rx)) = (sq₁, rx₁) ∧ sq₁.notifyQueue = sq.notifyQueue ∧
        rx₁.receiveQueue = rx.receiveQueue := by
    split_ifs
    · exact ⟨_, _, rfl, rfl, rfl⟩
    · exact ⟨_, _, rfl, rfl, rfl⟩
  rw [hsplit]
  dsimp only
  rw [List.span_eq_takeWhile_dropWhile, hn, hr]
  refine ⟨_, _, (List.takeWhile_append_dropWhile).symm, rfl, fun qm hqm => ?_, fun qm hqm => ?_⟩
  · have h := List.mem_takeWhile_imp hqm
    simpa using h
  · split_ifs at hqm
    · exact absurd hqm List.not_mem_nil
    · rw [List.mem_singleton] at hqm
      rw [hqm]
      rfl

/-- **A frame inside the window.**  When the frame's sequence `m` lies between `receive_seq`
    and `send_seq`, fewer than sixteen apart, and `sent_queue` holds the blocks between them,
    `rseq` is `m`, the blocks before `m` leave `sent_queue`, and `send_seq` stays. -/
theorem handleMessage_of_inWindow {m : UInt64} (hseq : frame.getD messagePosSeq 0 = seqByte m)
    (hlo : rx.receiveSeq.toNat ≤ m.toNat) (hhi : m.toNat ≤ sq.sendSeq.toNat)
    (hwin : sq.sendSeq.toNat < rx.receiveSeq.toNat + 16)
    (hsent : sq.sentQueue.length = sq.sendSeq.toNat - rx.receiveSeq.toNat) :
    rseqOf rx frame = m ∧
      (handleMessage sq rx frame).1.sentQueue = sq.sentQueue.drop (m.toNat - rx.receiveSeq.toNat) ∧
      (handleMessage sq rx frame).1.sendSeq = sq.sendSeq ∧
      (handleMessage sq rx frame).2.receiveSeq = m := by
  have hr := rseqOf_eq hseq hlo (by omega)
  refine ⟨hr, ?_⟩
  have hvalid : ¬(rseqOf rx frame ≠ rx.receiveSeq ∧ rseqOf rx frame > sq.sendSeq ∧
      rx.receiveSeq ≠ 1) := by
    rintro ⟨-, hgt, -⟩
    rw [hr, GT.gt, UInt64.lt_iff_toNat_lt] at hgt
    omega
  unfold handleMessage
  dsimp only
  rw [if_neg hvalid, hr]
  by_cases hsame : m = rx.receiveSeq
  · -- nothing new is acknowledged
    rw [if_neg (not_not.mpr hsame)]
    subst hsame
    simp
  · have hlt : rx.receiveSeq.toNat < m.toNat :=
      lt_of_le_of_ne hlo fun h => hsame (UInt64.toNat_inj.mp h).symm
    have hpop : popSent m rx.receiveSeq sq.sentQueue =
        (sq.sentQueue.drop (m.toNat - rx.receiveSeq.toNat), false) :=
      popSent_of_le hlt (by omega)
    rw [if_pos hsame]
    simp [updateReceiveSeq, hpop]

end Handle

end Klipper.SerialQueue
