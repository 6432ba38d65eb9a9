import Mathlib.Logic.Function.Basic
import Mathlib.Algebra.BigOperators.Group.List.Basic
import Mathlib.Algebra.Order.BigOperators.Group.List
import Mathlib.Algebra.Order.Group.Nat
import Klipper.Protocol.MsgBlock

/-
  The command scheduling of klippy's `serialqueue` (`klippy/chelper/serialqueue.c`): how the
  messages that the host hands to its command queues are placed, in blocks, on the wire.

  Each `command_queue` holds an `upcoming_queue` of messages not yet allowed out (their
  `min_clock` is ahead of the MCU clock the host expects when the block arrives) and a
  `ready_queue`.  `serialqueue_send_batch` appends a batch to a queue's `upcoming_queue`;
  `check_send_command` moves, queue by queue and in order, the messages whose `min_clock` has
  come; `build_and_send_command` fills one block with ready messages, each time the head of the
  queue whose head has the lowest `req_clock`, until the block is full or nothing is ready.  The
  serialqueue keeps the queues with messages on `pending_queues` and the byte counts
  `ready_bytes` and `upcoming_bytes`.

  The command queues are named by a type `ι` (the host's `command_queue` pointers), and their
  state is part of the serialqueue's.  The C lists are Lean lists.  What decides when the
  background thread runs these functions (`need_kick_clock`, the clock estimate, the receive
  window and the retransmit timer) is not modelled: any of them may run at any time, and
  `check_send_command`'s clock `ack_clock` is an argument.
-/

namespace Klipper.SerialQueue

open MsgBlock

/-- `MAX_CLOCK` -/
def maxClock : UInt64 := 0x7fffffffffffffff
/-- `BACKGROUND_PRIORITY_CLOCK` -/
def backgroundPriorityClock : UInt64 := 0x7fffffff00000000

/-- `struct queue_message` while it is on a command queue: its bytes, `min_clock`,
    `req_clock` and `notify_id`. -/
structure QueueMessage where
  msg : List UInt8
  minClock : UInt64
  reqClock : UInt64
  notifyId : UInt64
deriving DecidableEq, Repr

/-- `qm->len` -/
def QueueMessage.len (qm : QueueMessage) : Nat := qm.msg.length

/-- `struct command_queue` -/
structure CommandQueue where
  upcomingQueue : List QueueMessage
  readyQueue : List QueueMessage
deriving DecidableEq, Repr

/-- `serialqueue_alloc_commandqueue` -/
def serialqueueAllocCommandqueue : CommandQueue := ⟨[], []⟩

/-- The fields of `struct serialqueue` that command scheduling reads and writes, with the state
    of every command queue. -/
structure Serialqueue (ι : Type) where
  cqs : ι → CommandQueue
  sendSeq : UInt64
  sentQueue : List (List UInt8)
  pendingQueues : List ι
  readyBytes : Int
  upcomingBytes : Int
  notifyQueue : List QueueMessage

variable {ι : Type} [DecidableEq ι]

/-- The scheduling state of `serialqueue_alloc`, with every command queue as
    `serialqueue_alloc_commandqueue` leaves it. -/
def serialqueueAlloc : Serialqueue ι :=
  { cqs := fun _ => serialqueueAllocCommandqueue, sendSeq := 1, sentQueue := [],
    pendingQueues := [], readyBytes := 0, upcomingBytes := 0, notifyQueue := [] }

/-- The bytes of some messages. -/
def bytesOf (l : List QueueMessage) : Nat := (l.map QueueMessage.len).sum

/-! ## `serialqueue_send_batch` -/

/-- The `min_clock` a batched message gets: no earlier than `2^31` ticks before its
    `req_clock`, unless it is a background message. -/
def fixMinClock (qm : QueueMessage) : QueueMessage :=
  if qm.minClock + ((1 : UInt64) <<< 31) < qm.reqClock &&
      qm.reqClock != backgroundPriorityClock then
    { qm with minClock := qm.reqClock - ((1 : UInt64) <<< 31) }
  else qm

/-- `serialqueue_send_batch`: the batch joins the end of the queue's `upcoming_queue`, and the
    queue joins `pending_queues` if it was empty.  A batch of no bytes is dropped. -/
def serialqueueSendBatch (sq : Serialqueue ι) (cq : ι) (msgs : List QueueMessage) :
    Serialqueue ι :=
  let msgs := msgs.map fixMinClock
  let len := bytesOf msgs
  if len = 0 then sq
  else
    let q := sq.cqs cq
    { sq with
      pendingQueues :=
        if q.readyQueue = [] ∧ q.upcomingQueue = [] then sq.pendingQueues ++ [cq]
        else sq.pendingQueues,
      cqs := Function.update sq.cqs cq { q with upcomingQueue := q.upcomingQueue ++ msgs },
      upcomingBytes := sq.upcomingBytes + len }

section SendBatch

variable {sq : Serialqueue ι} {cq : ι} {msgs : List QueueMessage}

@[simp] theorem len_fixMinClock (qm : QueueMessage) : (fixMinClock qm).len = qm.len := by
  unfold fixMinClock
  split <;> rfl

@[simp] theorem reqClock_fixMinClock (qm : QueueMessage) :
    (fixMinClock qm).reqClock = qm.reqClock := by
  unfold fixMinClock
  split <;> rfl

theorem bytesOf_append (l₁ l₂ : List QueueMessage) :
    bytesOf (l₁ ++ l₂) = bytesOf l₁ + bytesOf l₂ := by
  simp [bytesOf]

theorem serialqueueSendBatch_of_bytesOf_eq_zero (h : bytesOf (msgs.map fixMinClock) = 0) :
    serialqueueSendBatch sq cq msgs = sq := by
  simp only [serialqueueSendBatch, if_pos h]

theorem serialqueueSendBatch_of_bytesOf_ne_zero (h : bytesOf (msgs.map fixMinClock) ≠ 0) :
    serialqueueSendBatch sq cq msgs =
      { sq with
        pendingQueues :=
          if (sq.cqs cq).readyQueue = [] ∧ (sq.cqs cq).upcomingQueue = [] then
            sq.pendingQueues ++ [cq]
          else sq.pendingQueues,
        cqs := Function.update sq.cqs cq
          { sq.cqs cq with upcomingQueue := (sq.cqs cq).upcomingQueue ++ msgs.map fixMinClock },
        upcomingBytes := sq.upcomingBytes + bytesOf (msgs.map fixMinClock) } := by
  simp only [serialqueueSendBatch, if_neg h]

end SendBatch

/-- A batch touches only the command queues, `pending_queues` and `upcoming_bytes`. -/
theorem serialqueueSendBatch_fields (sq : Serialqueue ι) (cq : ι) (msgs : List QueueMessage) :
    (serialqueueSendBatch sq cq msgs).notifyQueue = sq.notifyQueue ∧
      (serialqueueSendBatch sq cq msgs).sendSeq = sq.sendSeq ∧
      (serialqueueSendBatch sq cq msgs).sentQueue = sq.sentQueue := by
  by_cases h : bytesOf (msgs.map fixMinClock) = 0
  · rw [serialqueueSendBatch_of_bytesOf_eq_zero h]
    exact ⟨rfl, rfl, rfl⟩
  · rw [serialqueueSendBatch_of_bytesOf_ne_zero h]
    exact ⟨rfl, rfl, rfl⟩

/-! ## `check_send_command` -/

/-- The loop of `check_send_command` on one command queue: the messages at the front of
    `upcoming_queue` whose `min_clock` is not after `ack_clock` move, in order, to the end of
    `ready_queue`; the first that is after it stops the loop. -/
def promoteQueue (ackClock : UInt64) (sq : Serialqueue ι) (cq : ι) : Serialqueue ι :=
  let q := sq.cqs cq
  let moved := q.upcomingQueue.span fun qm => !(ackClock < qm.minClock)
  { sq with
    cqs := Function.update sq.cqs cq ⟨moved.2, q.readyQueue ++ moved.1⟩,
    upcomingBytes := sq.upcomingBytes - bytesOf moved.1,
    readyBytes := sq.readyBytes + bytesOf moved.1 }

section Promote

variable {sq : Serialqueue ι} {cq : ι} {a : UInt64}

/-- The messages promoted, and those left. -/
def promoted (a : UInt64) (q : CommandQueue) : List QueueMessage × List QueueMessage :=
  q.upcomingQueue.span fun qm => !(a < qm.minClock)

theorem promoted_append (a : UInt64) (q : CommandQueue) :
    (promoted a q).1 ++ (promoted a q).2 = q.upcomingQueue := by
  simp [promoted, List.span_eq_takeWhile_dropWhile, List.takeWhile_append_dropWhile]

@[simp] theorem promoteQueue_cqs : (promoteQueue a sq cq).cqs =
    Function.update sq.cqs cq
      ⟨(promoted a (sq.cqs cq)).2, (sq.cqs cq).readyQueue ++ (promoted a (sq.cqs cq)).1⟩ :=
  rfl

@[simp] theorem promoteQueue_pendingQueues :
    (promoteQueue a sq cq).pendingQueues = sq.pendingQueues := rfl

@[simp] theorem promoteQueue_readyBytes : (promoteQueue a sq cq).readyBytes =
    sq.readyBytes + bytesOf (promoted a (sq.cqs cq)).1 := rfl

@[simp] theorem promoteQueue_upcomingBytes : (promoteQueue a sq cq).upcomingBytes =
    sq.upcomingBytes - bytesOf (promoted a (sq.cqs cq)).1 := rfl

@[simp] theorem promoteQueue_notifyQueue :
    (promoteQueue a sq cq).notifyQueue = sq.notifyQueue := rfl

@[simp] theorem promoteQueue_sendSeq : (promoteQueue a sq cq).sendSeq = sq.sendSeq := rfl

@[simp] theorem promoteQueue_sentQueue : (promoteQueue a sq cq).sentQueue = sq.sentQueue := rfl

end Promote

/-- What `check_send_command` does to the queues: every pending queue is promoted. -/
def checkSendCommand (ackClock : UInt64) (sq : Serialqueue ι) : Serialqueue ι :=
  sq.pendingQueues.foldl (promoteQueue ackClock) sq

/-- Promotion touches only the command queues and the byte counts. -/
theorem checkSendCommand_fields (a : UInt64) (sq : Serialqueue ι) :
    (checkSendCommand a sq).notifyQueue = sq.notifyQueue ∧
      (checkSendCommand a sq).sendSeq = sq.sendSeq ∧
      (checkSendCommand a sq).sentQueue = sq.sentQueue := by
  unfold checkSendCommand
  induction sq.pendingQueues generalizing sq with
  | nil => exact ⟨rfl, rfl, rfl⟩
  | cons q l ih => exact ih (promoteQueue a sq q)

/-! ## `build_and_send_command` -/

/-- One pending queue in the search of `build_and_send_command`: its ready head becomes the
    candidate if its `req_clock` is below the lowest so far. -/
def selectQueue (cqs : ι → CommandQueue) (best : UInt64 × Option (ι × QueueMessage)) (q : ι) :
    UInt64 × Option (ι × QueueMessage) :=
  match (cqs q).readyQueue with
  | qm :: _ => if qm.reqClock < best.1 then (qm.reqClock, some (q, qm)) else best
  | [] => best

/-- "Find highest priority message": the first pending queue whose ready head has the lowest
    `req_clock`, starting from `MAX_CLOCK`. -/
def highestPriority (sq : Serialqueue ι) : Option (ι × QueueMessage) :=
  (sq.pendingQueues.foldl (selectQueue sq.cqs) (maxClock, none)).2

/-- The message `qm` at the head of `cq`'s ready queue leaves it for the block: `cq` leaves
    `pending_queues` if it is now empty, and a message with a `notify_id` goes to
    `notify_queue` with the block's sequence number in `req_clock`. -/
def takeMessage (sq : Serialqueue ι) (cq : ι) (qm : QueueMessage) : Serialqueue ι :=
  let q := sq.cqs cq
  let q' : CommandQueue := { q with readyQueue := q.readyQueue.tail }
  { sq with
    cqs := Function.update sq.cqs cq q',
    pendingQueues :=
      if q'.readyQueue = [] ∧ q'.upcomingQueue = [] then sq.pendingQueues.erase cq
      else sq.pendingQueues,
    readyBytes := sq.readyBytes - qm.len,
    notifyQueue :=
      if qm.notifyId ≠ 0 then sq.notifyQueue ++ [{ qm with reqClock := sq.sendSeq }]
      else sq.notifyQueue }

section Take

variable {sq : Serialqueue ι} {cq : ι} {qm : QueueMessage}

@[simp] theorem takeMessage_cqs : (takeMessage sq cq qm).cqs =
    Function.update sq.cqs cq { sq.cqs cq with readyQueue := (sq.cqs cq).readyQueue.tail } :=
  rfl

@[simp] theorem takeMessage_pendingQueues : (takeMessage sq cq qm).pendingQueues =
    if (sq.cqs cq).readyQueue.tail = [] ∧ (sq.cqs cq).upcomingQueue = [] then
      sq.pendingQueues.erase cq
    else sq.pendingQueues :=
  rfl

@[simp] theorem takeMessage_readyBytes :
    (takeMessage sq cq qm).readyBytes = sq.readyBytes - qm.len := rfl

@[simp] theorem takeMessage_upcomingBytes :
    (takeMessage sq cq qm).upcomingBytes = sq.upcomingBytes := rfl

@[simp] theorem takeMessage_notifyQueue : (takeMessage sq cq qm).notifyQueue =
    if qm.notifyId ≠ 0 then sq.notifyQueue ++ [{ qm with reqClock := sq.sendSeq }]
    else sq.notifyQueue :=
  rfl

@[simp] theorem takeMessage_sendSeq : (takeMessage sq cq qm).sendSeq = sq.sendSeq := rfl

@[simp] theorem takeMessage_sentQueue : (takeMessage sq cq qm).sentQueue = sq.sentQueue := rfl

end Take

/-- The ready messages on pending queues: what the loop of `build_and_send_command` consumes. -/
def readyCount (sq : Serialqueue ι) : Nat :=
  (sq.pendingQueues.map fun q => (sq.cqs q).readyQueue.length).sum

omit [DecidableEq ι] in
/-- The candidate is the head of the ready queue of a pending queue. -/
theorem highestPriority_spec {sq : Serialqueue ι} {cq : ι} {qm : QueueMessage}
    (h : highestPriority sq = some (cq, qm)) :
    cq ∈ sq.pendingQueues ∧ ∃ rest, (sq.cqs cq).readyQueue = qm :: rest := by
  -- the candidate of the fold is always the start one or one seen on the way
  have key : ∀ (l : List ι) (b : UInt64 × Option (ι × QueueMessage)),
      (l.foldl (selectQueue sq.cqs) b).2 = some (cq, qm) →
        b.2 = some (cq, qm) ∨ (cq ∈ l ∧ ∃ rest, (sq.cqs cq).readyQueue = qm :: rest) := by
    intro l
    induction l with
    | nil => exact fun b hb => .inl hb
    | cons q l ih =>
      intro b hb
      rcases ih _ hb with hb' | ⟨hm, hr⟩
      · unfold selectQueue at hb'
        split at hb'
        · rename_i qm' rest hq
          split_ifs at hb'
          · cases hb'
            exact .inr ⟨List.mem_cons_self, rest, hq⟩
          · exact .inl hb'
        · exact .inl hb'
      · exact .inr ⟨List.mem_cons_of_mem _ hm, hr⟩
  rcases key _ _ h with h0 | h1
  · cases h0
  · exact h1

omit [DecidableEq ι] in
/-- **The search finds a candidate** when a pending queue has a ready head below `MAX_CLOCK`. -/
theorem highestPriority_ne_none_of_mem {sq : Serialqueue ι} {q : ι} {qm : QueueMessage}
    {rest : List QueueMessage} (hq : q ∈ sq.pendingQueues)
    (hr : (sq.cqs q).readyQueue = qm :: rest) (hc : qm.reqClock < maxClock) :
    highestPriority sq ≠ none := by
  -- along the search the lowest `req_clock` only falls
  have hdown : ∀ (l : List ι) b, (l.foldl (selectQueue sq.cqs) b).1.toNat ≤ b.1.toNat := by
    intro l
    induction l with
    | nil => exact fun b => Nat.le_refl _
    | cons p l ih =>
      intro b
      refine Nat.le_trans (ih _) ?_
      unfold selectQueue
      split
      · split_ifs with hlt
        · exact Nat.le_of_lt (UInt64.lt_iff_toNat_lt.mp hlt)
        · exact Nat.le_refl _
      · exact Nat.le_refl _
  -- once past `q` it is at most `q`'s head
  have hseen : ∀ (l : List ι) b, q ∈ l →
      (l.foldl (selectQueue sq.cqs) b).1.toNat ≤ qm.reqClock.toNat := by
    intro l
    induction l with
    | nil => exact fun b hm => nomatch hm
    | cons p l ih =>
      intro b hm
      rcases List.mem_cons.mp hm with rfl | hm
      · refine Nat.le_trans (hdown l _) ?_
        simp only [selectQueue, hr]
        split_ifs with hlt
        · exact Nat.le_refl _
        · rw [UInt64.lt_iff_toNat_lt] at hlt
          omega
      · exact ih _ hm
  -- and a candidate is set whenever it is below `MAX_CLOCK`
  have hset : ∀ (l : List ι) b, (b.2 = none → b.1 = maxClock) →
      (l.foldl (selectQueue sq.cqs) b).2 = none → (l.foldl (selectQueue sq.cqs) b).1 = maxClock := by
    intro l
    induction l with
    | nil => exact fun b hb => hb
    | cons p l ih =>
      intro b hb
      apply ih
      unfold selectQueue
      split
      · split_ifs
        · exact fun hn => nomatch hn
        · exact hb
      · exact hb
  intro hn
  have h1 := hset _ (maxClock, none) (fun _ => rfl) hn
  have h2 := hseen _ (maxClock, none) hq
  rw [h1] at h2
  rw [UInt64.lt_iff_toNat_lt] at hc
  omega

/-- Taking the candidate leaves fewer ready messages on pending queues. -/
theorem readyCount_takeMessage {sq : Serialqueue ι} {cq : ι} {qm : QueueMessage}
    (h : highestPriority sq = some (cq, qm)) : readyCount (takeMessage sq cq qm) < readyCount sq := by
  obtain ⟨hmem, rest, hq⟩ := highestPriority_spec h
  let f := fun q => (sq.cqs q).readyQueue.length
  let g := fun q =>
    (Function.update sq.cqs cq { sq.cqs cq with readyQueue := rest } q).readyQueue.length
  -- on the same pending queues the count drops at `cq` and nowhere else
  have hlt : (sq.pendingQueues.map g).sum < (sq.pendingQueues.map f).sum := by
    apply List.sum_lt_sum
    · intro q _
      by_cases hqc : q = cq
      · subst hqc
        simp [g, f, hq]
      · simp [g, f, Function.update_of_ne hqc]
    · exact ⟨cq, hmem, by simp [g, f, hq]⟩
  have hle : ((sq.pendingQueues.erase cq).map g).sum ≤ (sq.pendingQueues.map g).sum := by
    rw [← List.sum_map_erase g hmem]
    omega
  unfold readyCount
  rw [takeMessage_cqs, takeMessage_pendingQueues, hq, List.tail_cons]
  split_ifs
  · exact Nat.lt_of_le_of_lt hle hlt
  · exact hlt

/-- The loop of `build_and_send_command` from a block of length `len`: while `ready_bytes` is
    not zero, take the highest priority message if it fits.  It returns the state and the
    messages placed, with their queues; `none` is the C's dereference of a null `qm`, when
    `ready_bytes` is not zero and no ready message is found. -/
def buildLoop (sq : Serialqueue ι) (len : Nat) :
    Option (Serialqueue ι × List (ι × QueueMessage)) :=
  if sq.readyBytes = 0 then some (sq, [])
  else
    match _h : highestPriority sq with
    | none => none
    | some (cq, qm) =>
      if messageMax - messageTrailerSize < len + qm.len then some (sq, [])
      else
        (buildLoop (takeMessage sq cq qm) (len + qm.len)).map fun r => (r.1, (cq, qm) :: r.2)
termination_by readyCount sq
decreasing_by exact readyCount_takeMessage _h

/-- "Fill header / trailer": the block around a payload, with sequence number `seq`. -/
def fillBlock (seq : UInt64) (payload : List UInt8) : List UInt8 :=
  let len := payload.length + messageHeaderSize + messageTrailerSize
  let head := [len.toUInt8, (messageDest ||| (seq &&& messageSeqMask)).toUInt8]
  let crc := msgblockCrc16Ccitt (head ++ payload)
  head ++ payload ++ [(crc >>> 8).toUInt8, (crc &&& 0xff).toUInt8, messageSync]

/-- The bytes of the messages placed in a block, in order (the `memcpy`s of the loop). -/
def payload (taken : List (ι × QueueMessage)) : List UInt8 := (taken.map fun p => p.2.msg).flatten

/-- `build_and_send_command`: one block of ready messages, stored on `sent_queue` under the
    next sequence number.  It returns the messages placed in the block with their queues. -/
def buildAndSendCommand (sq : Serialqueue ι) :
    Option (Serialqueue ι × List (ι × QueueMessage)) :=
  match buildLoop sq messageHeaderSize with
  | none => none
  | some (sq', taken) =>
    let block := fillBlock sq'.sendSeq (payload taken)
    some ({ sq' with sendSeq := sq'.sendSeq + 1, sentQueue := sq'.sentQueue ++ [block] }, taken)

section Loop

variable {sq : Serialqueue ι} {len : Nat} {cq : ι} {qm : QueueMessage}

theorem buildLoop_of_readyBytes_eq_zero (h0 : sq.readyBytes = 0) :
    buildLoop sq len = some (sq, []) := by
  rw [buildLoop, if_pos h0]

theorem buildLoop_of_none (h0 : sq.readyBytes ≠ 0) (h : highestPriority sq = none) :
    buildLoop sq len = none := by
  rw [buildLoop, if_neg h0]
  split
  · rfl
  · rename_i cq' qm' heq
    rw [h] at heq
    cases heq

theorem buildLoop_of_full (h0 : sq.readyBytes ≠ 0) (h : highestPriority sq = some (cq, qm))
    (hf : messageMax - messageTrailerSize < len + qm.len) : buildLoop sq len = some (sq, []) := by
  rw [buildLoop, if_neg h0]
  split
  · rename_i heq
    rw [h] at heq
    cases heq
  · rename_i cq' qm' heq
    rw [h] at heq
    cases heq
    rw [if_pos hf]

theorem buildLoop_of_take (h0 : sq.readyBytes ≠ 0) (h : highestPriority sq = some (cq, qm))
    (hf : ¬messageMax - messageTrailerSize < len + qm.len) :
    buildLoop sq len =
      (buildLoop (takeMessage sq cq qm) (len + qm.len)).map fun r => (r.1, (cq, qm) :: r.2) := by
  rw [buildLoop, if_neg h0]
  split
  · rename_i heq
    rw [h] at heq
    cases heq
  · rename_i cq' qm' heq
    rw [h] at heq
    cases heq
    rw [if_neg hf]

/-- **Loop rule.**  A relation between a state and the messages placed so far that every take
    of the highest priority message keeps, the whole loop keeps. -/
theorem buildLoop_rule (P : Serialqueue ι → List (ι × QueueMessage) → Prop)
    (htake : ∀ sq cq qm log, highestPriority sq = some (cq, qm) → P sq log →
      P (takeMessage sq cq qm) (log ++ [(cq, qm)]))
    {r : Serialqueue ι × List (ι × QueueMessage)} (hr : buildLoop sq len = some r)
    (log : List (ι × QueueMessage)) (hP : P sq log) : P r.1 (log ++ r.2) := by
  induction sq, len using buildLoop.induct generalizing r log with
  | case1 sq len h0 =>
    rw [buildLoop_of_readyBytes_eq_zero h0] at hr
    cases hr
    simpa using hP
  | case2 sq len h0 h =>
    rw [buildLoop_of_none h0 h] at hr
    cases hr
  | case3 sq len h0 cq qm h hf =>
    rw [buildLoop_of_full h0 h hf] at hr
    cases hr
    simpa using hP
  | case4 sq len h0 cq qm h hf ih =>
    rw [buildLoop_of_take h0 h hf] at hr
    obtain ⟨r', hr', rfl⟩ := Option.map_eq_some_iff.mp hr
    have := ih hr' _ (htake sq cq qm log h hP)
    simpa using this

/-- The messages a block takes fit in its payload. -/
theorem buildLoop_payload_length {r : Serialqueue ι × List (ι × QueueMessage)}
    (hr : buildLoop sq len = some r) (hlen : len ≤ messageMax - messageTrailerSize) :
    len + (payload r.2).length ≤ messageMax - messageTrailerSize := by
  induction sq, len using buildLoop.induct generalizing r with
  | case1 sq len h0 =>
    rw [buildLoop_of_readyBytes_eq_zero h0] at hr
    cases hr
    simpa [payload] using hlen
  | case2 sq len h0 h =>
    rw [buildLoop_of_none h0 h] at hr
    cases hr
  | case3 sq len h0 cq qm h hf =>
    rw [buildLoop_of_full h0 h hf] at hr
    cases hr
    simpa [payload] using hlen
  | case4 sq len h0 cq qm h hf ih =>
    rw [buildLoop_of_take h0 h hf] at hr
    obtain ⟨r', hr', rfl⟩ := Option.map_eq_some_iff.mp hr
    -- the message taken fitted, and the rest fit after it
    have hrest := ih hr' (by omega)
    simp only [payload, List.map_cons, List.flatten_cons, List.length_append] at hrest ⊢
    unfold QueueMessage.len at hf hrest
    omega

/-- The messages of a block that go on `notify_queue`, under the block's sequence number. -/
def notifiedIn (seq : UInt64) (taken : List (ι × QueueMessage)) : List QueueMessage :=
  ((taken.map Prod.snd).filter fun qm => qm.notifyId != 0).map fun qm => { qm with reqClock := seq }

/-- **One block.**  `build_and_send_command` numbers the block `send_seq` and puts it on
    `sent_queue`, and the messages it placed that have a `notify_id` join `notify_queue` under
    that number; the payload fits a block. -/
theorem buildAndSendCommand_spec {r : Serialqueue ι × List (ι × QueueMessage)}
    (hr : buildAndSendCommand sq = some r) :
    r.1.sendSeq = sq.sendSeq + 1 ∧
      r.1.sentQueue = sq.sentQueue ++ [fillBlock sq.sendSeq (payload r.2)] ∧
      r.1.notifyQueue = sq.notifyQueue ++ notifiedIn sq.sendSeq r.2 ∧
      (payload r.2).length ≤ messagePayloadMax := by
  unfold buildAndSendCommand at hr
  split at hr
  · cases hr
  rename_i sq' taken hl
  cases hr
  -- what the loop keeps, by the loop rule
  have hkeep := buildLoop_rule (fun sq' log => sq'.sendSeq = sq.sendSeq ∧
      sq'.sentQueue = sq.sentQueue ∧ sq'.notifyQueue = sq.notifyQueue ++ notifiedIn sq.sendSeq log)
    (fun sq₁ cq qm log _ ⟨hs, hq, hn⟩ => ⟨hs, hq, by
      rw [takeMessage_notifyQueue, hn, hs]
      by_cases hz : qm.notifyId = 0
      · simp [notifiedIn, hz]
      · simp [notifiedIn, hz]⟩) hl [] ⟨rfl, rfl, by simp [notifiedIn]⟩
  have hlen := buildLoop_payload_length hl (by simp [messageHeaderSize, messageMax, messageTrailerSize])
  obtain ⟨hs, hq, hn⟩ := hkeep
  simp only [List.nil_append] at hn
  refine ⟨by rw [hs], by rw [hs, hq], hn, ?_⟩
  simp only [messageHeaderSize, messageMax, messageTrailerSize] at hlen
  simp only [messagePayloadMax, messageMax, messageMin]
  omega

theorem buildAndSendCommand_isSome :
    (buildAndSendCommand sq).isSome = (buildLoop sq messageHeaderSize).isSome := by
  unfold buildAndSendCommand
  split <;> simp_all

end Loop

end Klipper.SerialQueue
