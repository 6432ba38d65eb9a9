import Mathlib
import Klipper.Host.SerialQueueReceive
import Klipper.Protocol.FrameScan
import Klipper.Lib.Transition

/-
  The host and the MCU joined by the serial line: when `serialqueue` tells its caller that a
  message has been acted on.

  1. **System** — `Link` is the host's `serialqueue` (scheduling and receive side), the MCU's
     `command_find_block` state, and the two directions of the line, each of which keeps order
     and may lose a whole block or frame.  Its actions are the host's calls and threads
     (`serialqueue_send_batch`, the promotion of `check_send_command`, `build_and_send_command`
     when the window is open, `retransmit_event`, `handle_message` on the next frame) and the
     MCU's three steps of `command_find_and_dispatch`: `command_find_block` on the next block,
     which advances `next_sequence`; the responses of the block's commands, framed with the new
     sequence while `command_dispatch` runs; and the return of `command_dispatch` with the ack
     after it.  The host may handle a response before the dispatch has returned.  The MCU also
     sends frames of its other tasks, and naks that noise provokes, between dispatches.  Four
     records are ghost: the number the host gave each block on the line, the MCU's sequence in
     the host's numbering with the blocks whose dispatch has returned (`dispatched`), what the
     MCU had finished when it sent each frame, and every message put on `notify_queue`
     (`notified`).

  2. **Nothing is lost or repeated** (`NotifyInv`, every run): the notifications on
     `receive_queue` are the first of those ever put on `notify_queue`, in order, and the rest
     are still waiting there.

  3. **Nothing is early, once the two ends agree** (`Sync`): when the host's `receive_seq` is at
     least 2 and the MCU expects the block the host numbers next, a message's notification
     reaches `receive_queue` only after the MCU has finished dispatching its block.  What carries
     it: every sequence on the line lies within `MAX_PENDING_BLOCKS` of `receive_seq`, so the
     four bits on the wire name it exactly, and an ack with sequence `m` is sent after block
     `m - 1` returns while a data frame with `m` may come from inside that block; `wake_seq`,
     one less for a data frame, covers only blocks the frame shows finished.

  4. **The start of a connection** (`serialqueue_notify_before_dispatch`): a freshly started MCU
     expects sequence 0 while the host starts at 1, so its nak makes the host jump
     `receive_seq` to 16, drop block 1 from `sent_queue` and notify its messages, which the MCU
     never dispatched.
-/

namespace Klipper.Transport

open MsgBlock Command FrameScan SerialQueue

/-- A frame on the line to the host, with two ghost records: the MCU's sequence in the host's
    numbering, and the blocks whose dispatch had returned, when it was sent. -/
structure Frame where
  bytes : List UInt8
  seq : Nat
  done : List Nat

/-- The host, the MCU and the line.  `dispatching` is the block whose `command_dispatch` runs;
    `toMcu` numbers each block as the host did (ghost); `mcuSeq`, `dispatched` and `notified`
    are ghost. -/
structure Link (ι : Type) where
  sq : Serialqueue ι
  rx : Receiver
  find : FindState
  dispatching : Option Nat
  toMcu : List (Nat × List UInt8)
  toHost : List Frame
  mcuSeq : Nat
  dispatched : List Nat
  notified : List QueueMessage

/-- What the two ends do. -/
inductive Act (ι : Type)
  | sendBatch (cq : ι) (msgs : List QueueMessage)
  | checkSend (ackClock : UInt64)
  | buildSend
  | retransmit
  | dropBlock (i : Nat)
  | dropFrame (i : Nat)
  | mcuFind
  | mcuRespond (msg : List UInt8)
  | mcuFinish
  | mcuSend (msg : List UInt8)
  | hostReceive

/-- The blocks of `sent_queue` numbered from `n` on, as `retransmit_event` writes them. -/
def numbered : Nat → List (List UInt8) → List (Nat × List UInt8)
  | _, [] => []
  | n, b :: rest => (n, b) :: numbered (n + 1) rest

variable {ι : Type} [DecidableEq ι]

/-- One action.  `build_and_send_command` runs only when `check_send_command` lets it.
    `command_find_block` starts the dispatch of a block in sequence and naks a block out of
    sequence; while the dispatch runs its commands send their responses with the new
    `next_sequence`, and when it returns `command_send_ack` sends the ack.  Other tasks send
    only between dispatches. -/
def Link.step (l : Link ι) : Act ι → Option (Link ι)
  | .sendBatch cq msgs => some { l with sq := serialqueueSendBatch l.sq cq msgs }
  | .checkSend a => some { l with sq := checkSendCommand a l.sq }
  | .buildSend =>
    if checkSendWindow l.sq l.rx then
      (buildAndSendCommand l.sq).map fun r =>
        { l with sq := r.1,
                 toMcu := l.toMcu ++ [(l.sq.sendSeq.toNat, fillBlock l.sq.sendSeq (payload r.2))],
                 notified := l.notified ++ notifiedIn l.sq.sendSeq r.2 }
    else none
  | .retransmit => some { l with toMcu := l.toMcu ++ numbered l.rx.receiveSeq.toNat l.sq.sentQueue }
  | .dropBlock i => if i < l.toMcu.length then some { l with toMcu := l.toMcu.eraseIdx i } else none
  | .dropFrame i =>
    if i < l.toHost.length then some { l with toHost := l.toHost.eraseIdx i } else none
  | .mcuFind =>
    match l.dispatching, l.toMcu with
    | none, (n, b) :: rest =>
      let r := commandFindBlock l.find b
      if r.ret = 1 then
        some { l with find := r.state, toMcu := rest, mcuSeq := l.mcuSeq + 1,
                      dispatching := some n }
      else
        some { l with find := r.state, toMcu := rest,
                      toHost := l.toHost ++
                        if r.nak then [⟨commandAddFrame r.state.nextSequence [], l.mcuSeq,
                          l.dispatched⟩] else [] }
    | _, _ => none
  | .mcuRespond msg =>
    match l.dispatching with
    | some _ =>
      some { l with toHost := l.toHost ++ [⟨commandAddFrame l.find.nextSequence msg, l.mcuSeq,
        l.dispatched⟩] }
    | none => none
  | .mcuFinish =>
    match l.dispatching with
    | some n =>
      some { l with dispatching := none, dispatched := l.dispatched ++ [n],
                    toHost := l.toHost ++ [⟨commandAddFrame l.find.nextSequence [], l.mcuSeq,
                      l.dispatched ++ [n]⟩] }
    | none => none
  | .mcuSend msg =>
    match l.dispatching with
    | none =>
      some { l with toHost := l.toHost ++ [⟨commandAddFrame l.find.nextSequence msg, l.mcuSeq,
        l.dispatched⟩] }
    | some _ => none
  | .hostReceive =>
    match l.toHost with
    | [] => none
    | f :: rest =>
      let r := handleMessage l.sq l.rx f.bytes
      some { l with sq := r.1, rx := r.2, toHost := rest }

/-- What the two ends promise: the host sends fewer than `2^64 - 1` blocks, and every response
    of a command carries bytes (it begins with its message id). -/
def Link.Ok (l : Link ι) : Act ι → Prop
  | .buildSend => l.sq.sendSeq.toNat + 1 < 2 ^ 64
  | .mcuRespond msg => msg ≠ []
  | _ => True

/-- The runs of the link. -/
def Link.next : Link ι → Link ι → Prop := Transition.ofStepIf Link.Ok Link.step

instance Link.decOk (l : Link ι) (a : Act ι) : Decidable (l.Ok a) := by
  cases a <;> unfold Link.Ok <;> infer_instance

/-- The actions `acts` one after another, each taken if the two ends allow it and it is
    enabled, and passed over otherwise. -/
def Link.run (l : Link ι) : List (Act ι) → Link ι
  | [] => l
  | a :: acts =>
    match if l.Ok a then l.step a else none with
    | some l' => l'.run acts
    | none => l.run acts

theorem Link.reachable_run {init : Link ι → Prop} :
    ∀ {l : Link ι} (acts : List (Act ι)), Transition.Reachable init Link.next l →
      Transition.Reachable init Link.next (l.run acts)
  | _, [], h => h
  | l, a :: acts, h => by
    unfold Link.run
    split
    · rename_i l' hs
      split_ifs at hs with hok
      exact Link.reachable_run acts (.step h ⟨a, hok, hs⟩)
    · exact Link.reachable_run acts h

/-- A new serialqueue and a freshly started MCU, whose `next_sequence` is `MESSAGE_DEST`. -/
def Link.init : Link ι :=
  ⟨serialqueueAlloc, receiverAlloc, ⟨false, false, 0x10⟩, none, [], [], 0, [], []⟩

/-- Two ends that agree: the host has every block up to `seq` acknowledged and nothing waiting
    for notification, the MCU expects `seq` next, and the line is empty. -/
def Link.synced (sq : Serialqueue ι) (seq : UInt64) : Link ι :=
  ⟨{ sq with sendSeq := seq, sentQueue := [], notifyQueue := [] }, ⟨seq, []⟩,
    ⟨false, false, seqByte seq⟩, none, [], [], seq.toNat, [], []⟩

/-! ## Nothing is lost or repeated -/

/-- The notifications on `receive_queue` are the first `k` messages ever put on `notify_queue`,
    in order and with `len = 0`, and the rest are still waiting there. -/
structure Link.NotifyInv (l : Link ι) : Prop where
  released : ∃ k ≤ l.notified.length, l.sq.notifyQueue = l.notified.drop k ∧
    l.rx.receiveQueue.filter (fun qm => qm.notifyId != 0) =
      (l.notified.take k).map fun qm => { qm with msg := [] }
  ids : ∀ qm ∈ l.notified, qm.notifyId ≠ 0

omit [DecidableEq ι] in
/-- Moving `W` from the front of what is left of `L` after `k`. -/
theorem drop_take_of_drop_eq {α : Type} {L W R : List α} {k : Nat} (h : L.drop k = W ++ R) :
    L.drop (k + W.length) = R ∧ L.take (k + W.length) = L.take k ++ W := by
  constructor
  · rw [← List.drop_drop, h, List.drop_left]
  · rw [List.take_add, h, List.take_left]

section NotifyInv

variable {l l' : Link ι}

omit [DecidableEq ι] in
/-- A step that leaves `notify_queue`, `receive_queue` and the record of notifications alone
    keeps the invariant. -/
theorem Link.NotifyInv.of_eq (h : l.NotifyInv) (hn : l'.sq.notifyQueue = l.sq.notifyQueue)
    (hr : l'.rx.receiveQueue = l.rx.receiveQueue) (hd : l'.notified = l.notified) :
    l'.NotifyInv := by
  obtain ⟨⟨k, hk, hq, hf⟩, hids⟩ := h
  exact ⟨⟨k, hd ▸ hk, hn.trans (hd ▸ hq), hr ▸ hd ▸ hf⟩, hd ▸ hids⟩

omit [DecidableEq ι] in
/-- A block adds its notifications to both `notify_queue` and the record. -/
theorem Link.NotifyInv.append (h : l.NotifyInv) (new : List QueueMessage)
    (hnew : ∀ qm ∈ new, qm.notifyId ≠ 0) (hn : l'.sq.notifyQueue = l.sq.notifyQueue ++ new)
    (hr : l'.rx.receiveQueue = l.rx.receiveQueue) (hd : l'.notified = l.notified ++ new) :
    l'.NotifyInv := by
  obtain ⟨⟨k, hk, hq, hf⟩, hids⟩ := h
  refine ⟨⟨k, ?_, ?_, ?_⟩, ?_⟩
  · rw [hd, List.length_append]
    omega
  · rw [hn, hd, List.drop_append_of_le_length hk, hq]
  · rw [hr, hd, List.take_append_of_le_length hk, hf]
  · intro qm hqm
    rw [hd, List.mem_append] at hqm
    rcases hqm with hqm | hqm
    · exact hids qm hqm
    · exact hnew qm hqm

omit [DecidableEq ι] in
/-- `handle_message` moves notifications from the front of `notify_queue` to `receive_queue`. -/
theorem Link.NotifyInv.handle (h : l.NotifyInv) (frame : List UInt8) :
    { l with sq := (handleMessage l.sq l.rx frame).1, rx := (handleMessage l.sq l.rx frame).2,
             toHost := l.toHost.tail }.NotifyInv := by
  obtain ⟨⟨k, hk, hq, hf⟩, hids⟩ := h
  obtain ⟨woken, data, hsplit, hrecv, -, hdata⟩ := handleMessage_notify l.sq l.rx frame
  -- the woken messages are the next ones of the record
  obtain ⟨hdrop, htake⟩ := drop_take_of_drop_eq (hq.symm.trans hsplit)
  have hwoken : ∀ qm ∈ woken, qm.notifyId ≠ 0 := fun qm hqm =>
    hids qm (List.mem_of_mem_drop (hq ▸ hsplit ▸ List.mem_append_left _ hqm))
  have hlen : k + woken.length ≤ l.notified.length := by
    have := congrArg List.length (hq.symm.trans hsplit)
    simp only [List.length_drop, List.length_append] at this
    omega
  have hd0 : data.filter (fun qm => qm.notifyId != 0) = [] :=
    List.filter_eq_nil_iff.mpr fun qm hqm => by simp [hdata qm hqm]
  have hw : (woken.map fun qm => { qm with msg := [] }).filter (fun qm => qm.notifyId != 0) =
      woken.map fun qm => { qm with msg := [] } :=
    List.filter_eq_self.mpr fun qm hqm => by
      obtain ⟨q, hq', rfl⟩ := List.mem_map.mp hqm
      simpa using hwoken q hq'
  refine ⟨⟨k + woken.length, hlen, hdrop.symm, ?_⟩, hids⟩
  rw [hrecv, List.filter_append, List.filter_append, hf, hd0, hw, htake, List.map_append,
    List.append_nil]

omit [DecidableEq ι] in
theorem notifiedIn_ids (seq : UInt64) (taken : List (ι × QueueMessage)) :
    ∀ qm ∈ notifiedIn seq taken, qm.notifyId ≠ 0 := by
  intro qm hqm
  obtain ⟨q, hq, rfl⟩ := List.mem_map.mp hqm
  simpa using (List.mem_filter.mp hq).2

/-- **Every step keeps the notifications in order.** -/
theorem Link.NotifyInv.step {a : Act ι} (h : l.NotifyInv) (hs : l.step a = some l') :
    l'.NotifyInv := by
  cases a with
  | sendBatch cq msgs =>
    cases hs
    exact h.of_eq (serialqueueSendBatch_fields l.sq cq msgs).1 rfl rfl
  | checkSend a =>
    cases hs
    exact h.of_eq (checkSendCommand_fields a l.sq).1 rfl rfl
  | buildSend =>
    simp only [Link.step] at hs
    split_ifs at hs
    obtain ⟨r, hr, rfl⟩ := Option.map_eq_some_iff.mp hs
    exact h.append _ (notifiedIn_ids _ _) (buildAndSendCommand_spec hr).2.2.1 rfl rfl
  | retransmit =>
    cases hs
    exact h.of_eq rfl rfl rfl
  | dropBlock i =>
    simp only [Link.step] at hs
    split_ifs at hs
    cases hs
    exact h.of_eq rfl rfl rfl
  | dropFrame i =>
    simp only [Link.step] at hs
    split_ifs at hs
    cases hs
    exact h.of_eq rfl rfl rfl
  | mcuFind =>
    simp only [Link.step] at hs
    split at hs
    · split_ifs at hs <;> cases hs <;> exact h.of_eq rfl rfl rfl
    · cases hs
  | mcuRespond msg | mcuFinish | mcuSend msg =>
    simp only [Link.step] at hs
    split at hs <;> cases hs
    exact h.of_eq rfl rfl rfl
  | hostReceive =>
    simp only [Link.step] at hs
    split at hs
    · cases hs
    · rename_i f rest hcons
      cases hs
      have := h.handle f.bytes
      rw [hcons] at this
      exact this

end NotifyInv

/-! ## Nothing is early, once the two ends agree -/

section Blocks

/-- A block the MCU takes whole, with the sequence byte of number `n`. -/
def BlockOk (n : Nat) (b : List UInt8) : Prop :=
  blockAt b = true ∧ b.getD messagePosSeq 0 = seqByte (UInt64.ofNat n)

/-- The blocks of `sent_queue`, numbered from `n` on. -/
def SentOk : Nat → List (List UInt8) → Prop
  | _, [] => True
  | n, b :: rest => BlockOk n b ∧ SentOk (n + 1) rest

theorem SentOk.append : ∀ {n : Nat} {sent : List (List UInt8)} {b : List UInt8},
    SentOk n sent → BlockOk (n + sent.length) b → SentOk n (sent ++ [b])
  | _, [], _, _, hb => ⟨by simpa using hb, trivial⟩
  | n, c :: sent, b, ⟨hc, hs⟩, hb =>
    ⟨hc, SentOk.append hs (by
      rw [List.length_cons] at hb
      rwa [Nat.add_right_comm n, Nat.add_assoc] at ⊢)⟩

theorem SentOk.drop : ∀ {n : Nat} {sent : List (List UInt8)} (k : Nat),
    SentOk n sent → SentOk (n + k) (sent.drop k)
  | _, _, 0, h => h
  | _, [], _ + 1, _ => trivial
  | n, _ :: sent, k + 1, ⟨_, hs⟩ => by
    rw [List.drop_succ_cons, show n + (k + 1) = n + 1 + k by omega]
    exact SentOk.drop k hs

theorem fst_of_mem_numbered : ∀ {n : Nat} {sent : List (List UInt8)} {x : Nat × List UInt8},
    x ∈ numbered n sent → n ≤ x.1 ∧ x.1 < n + sent.length
  | _, [], _, hx => absurd hx List.not_mem_nil
  | n, b :: sent, _, hx => by
    rcases List.mem_cons.mp hx with rfl | hx
    · simp
    · have := fst_of_mem_numbered hx
      simp only [List.length_cons]
      omega

theorem blockOk_of_mem_numbered : ∀ {n : Nat} {sent : List (List UInt8)}, SentOk n sent →
    ∀ x ∈ numbered n sent, BlockOk x.1 x.2
  | _, [], _, _, hx => absurd hx List.not_mem_nil
  | _, _ :: _, ⟨hb, hs⟩, x, hx => by
    rcases List.mem_cons.mp hx with rfl | hx
    · exact hb
    · exact blockOk_of_mem_numbered hs x hx

theorem numbered_pairwise : ∀ (n : Nat) (sent : List (List UInt8)),
    (numbered n sent).Pairwise fun a b => a.1 < b.1
  | _, [] => .nil
  | n, _ :: sent => List.Pairwise.cons (fun _ hx => (fst_of_mem_numbered hx).1)
      (numbered_pairwise (n + 1) sent)

theorem commandAddFrame_seq (next : UInt8) (msg : List UInt8) :
    (commandAddFrame next msg).getD messagePosSeq 0 = next := rfl

theorem commandAddFrame_length (next : UInt8) (msg : List UInt8) :
    (commandAddFrame next msg).length = msg.length + messageMin := by
  simp [commandAddFrame, messageMin]

theorem ofNat_succ (n : Nat) : UInt64.ofNat n + 1 = UInt64.ofNat (n + 1) :=
  (UInt64.ofNat_add n 1).symm

/-- The last block whose notification a frame releases, when `receive_seq` is at least 2. -/
theorem wakeSeq_toNat {rseq : UInt64} (h : 2 ≤ rseq.toNat) (len : Nat) :
    (wakeSeq rseq len).toNat = rseq.toNat - 1 - (if len > messageMin then 1 else 0) := by
  have h1 : (1 : UInt64) ≤ rseq := UInt64.le_iff_toNat_le.mpr (by simp; omega)
  have h1' : (rseq - 1).toNat = rseq.toNat - 1 := by
    rw [UInt64.toNat_sub_of_le _ _ h1, UInt64.toNat_one]
  unfold wakeSeq
  split_ifs
  · rw [UInt64.toNat_sub_of_le _ _ (UInt64.le_iff_toNat_le.mpr (by rw [h1']; simp; omega)), h1',
      UInt64.toNat_one]
  · rw [show (0 : UInt64) = 0 from rfl, UInt64.sub_zero, h1']
    omega

end Blocks

/-- A frame as the MCU sends it, and what it shows of the blocks from `s0` on: those two or more
    before its sequence had returned, and for an ack or a nak, all those before it. -/
def FrameOk (s0 : Nat) (f : Frame) : Prop :=
  ∃ msg, f.bytes = commandAddFrame (seqByte (UInt64.ofNat f.seq)) msg ∧
    (∀ n, s0 ≤ n → n + 1 < f.seq → n ∈ f.done) ∧
    (msg = [] → ∀ n, s0 ≤ n → n < f.seq → n ∈ f.done)

/-- **What `wake_seq` guarantees**: the blocks from `s0` up to the `wake_seq` of a frame, with
    its sequence as the host reads it, are blocks the frame shows finished. -/
theorem FrameOk.le_wakeSeq {s0 : Nat} {f : Frame} (hf : FrameOk s0 f) (h2 : 2 ≤ f.seq)
    (hlt : f.seq < 2 ^ 64) {n : Nat} (hn : s0 ≤ n)
    (hle : n ≤ (wakeSeq (UInt64.ofNat f.seq) f.bytes.length).toNat) : n ∈ f.done := by
  obtain ⟨msg, hbytes, hdone2, hdone1⟩ := hf
  have hm : (UInt64.ofNat f.seq).toNat = f.seq :=
    UInt64.toNat_ofNat_of_lt' (by rw [UInt64.size]; omega)
  rw [wakeSeq_toNat (by omega), hm, hbytes, commandAddFrame_length] at hle
  -- a data frame shows the blocks two before it finished, an ack or a nak the one before too
  split_ifs at hle with hgt
  · exact hdone2 n hn (by omega)
  · exact hdone1 (List.length_eq_zero_iff.mp (by omega)) n hn (by omega)

/-- **The invariant of an agreed link**, from sequence `s0` on.  The MCU expects `mcuSeq`, which
    lies between `receive_seq` (at least 2) and `send_seq`, at most `MAX_PENDING_BLOCKS` apart;
    `sent_queue` holds the blocks between them; every block on the line is numbered within 12 of
    the MCU's sequence and of every block behind it; every frame on the line carries a sequence
    from `receive_seq` to `mcuSeq`, in order, and shows blocks the MCU had finished; the MCU has
    finished every block from `s0` before `mcuSeq` but the one it is dispatching, which is the
    last; and every notification on `receive_queue` is of a finished block. -/
structure Link.Sync (s0 : Nat) (l : Link ι) : Prop where
  needSync : l.find.needSync = false
  nextSequence : l.find.nextSequence = seqByte (UInt64.ofNat l.mcuSeq)
  start_le : s0 ≤ l.rx.receiveSeq.toNat
  two_le : 2 ≤ l.rx.receiveSeq.toNat
  receive_le : l.rx.receiveSeq.toNat ≤ l.mcuSeq
  mcu_le : l.mcuSeq ≤ l.sq.sendSeq.toNat
  window : l.sq.sendSeq.toNat ≤ l.rx.receiveSeq.toNat + 12
  sent_length : l.sq.sentQueue.length = l.sq.sendSeq.toNat - l.rx.receiveSeq.toNat
  sent : SentOk l.rx.receiveSeq.toNat l.sq.sentQueue
  toMcu : ∀ x ∈ l.toMcu, BlockOk x.1 x.2 ∧ x.1 < l.sq.sendSeq.toNat ∧ l.mcuSeq ≤ x.1 + 12
  toMcu_order : l.toMcu.Pairwise fun a b => a.1 < b.1 + 12
  toHost : ∀ f ∈ l.toHost, FrameOk s0 f ∧ l.rx.receiveSeq.toNat ≤ f.seq ∧ f.seq ≤ l.mcuSeq ∧
    ∀ n ∈ f.done, n ∈ l.dispatched
  toHost_order : l.toHost.Pairwise fun f g => f.seq ≤ g.seq
  finished : ∀ n, s0 ≤ n → n < l.mcuSeq → l.dispatching ≠ some n → n ∈ l.dispatched
  dispatching : ∀ n, l.dispatching = some n → n + 1 = l.mcuSeq
  notify : ∀ qm ∈ l.sq.notifyQueue, s0 ≤ qm.reqClock.toNat
  notified : ∀ qm ∈ l.notified, qm.reqClock.toNat < l.sq.sendSeq.toNat
  notified_order : l.notified.Pairwise fun a b => a.reqClock.toNat ≤ b.reqClock.toNat
  notEarly : ∀ qm ∈ l.rx.receiveQueue, qm.notifyId ≠ 0 → qm.reqClock.toNat ∈ l.dispatched

section Sync

variable {s0 : Nat} {l l' : Link ι}

omit [DecidableEq ι] in
/-- The window of `check_send_command` in numbers: fewer than `MAX_PENDING_BLOCKS` blocks are
    unacknowledged when a block goes out. -/
theorem checkSendWindow_lt {sq : Serialqueue ι} {rx : Receiver} (hwin : checkSendWindow sq rx = true)
    (hle : rx.receiveSeq.toNat ≤ sq.sendSeq.toNat) (he : sq.sendSeq.toNat + 1 < 2 ^ 64) :
    sq.sendSeq.toNat - rx.receiveSeq.toNat < 12 := by
  have hsub : (sq.sendSeq - rx.receiveSeq).toNat = sq.sendSeq.toNat - rx.receiveSeq.toNat :=
    UInt64.toNat_sub_of_le _ _ (UInt64.le_iff_toNat_le.mpr hle)
  -- `receive_seq` is not the debug file's `-1`
  have hne : rx.receiveSeq ≠ -1 := by
    intro h'
    have := congrArg UInt64.toNat h'
    simp at this
    omega
  simp only [checkSendWindow, Bool.not_eq_eq_eq_not, Bool.not_true, Bool.and_eq_false_iff,
    bne_eq_false_iff_eq] at hwin
  rcases hwin with hwin | hwin
  · have hlt := decide_eq_false_iff_not.mp hwin
    rw [ge_iff_le, UInt64.le_iff_toNat_le, hsub, show maxPendingBlocks.toNat = 12 from rfl] at hlt
    omega
  · exact absurd hwin hne

omit [DecidableEq ι] in
theorem reqClock_of_mem_notifiedIn {seq : UInt64} {taken : List (ι × QueueMessage)}
    {qm : QueueMessage} (h : qm ∈ notifiedIn seq taken) : qm.reqClock = seq := by
  obtain ⟨q, -, rfl⟩ := List.mem_map.mp h
  rfl

omit [DecidableEq ι] in
/-- A change of the host's command queues alone keeps the invariant. -/
theorem Link.Sync.of_sq (h : l.Sync s0) {sq : Serialqueue ι}
    (hn : sq.notifyQueue = l.sq.notifyQueue) (hs : sq.sendSeq = l.sq.sendSeq)
    (hq : sq.sentQueue = l.sq.sentQueue) : ({ l with sq := sq } : Link ι).Sync s0 :=
  ⟨h.needSync, h.nextSequence, h.start_le, h.two_le, h.receive_le, hs ▸ h.mcu_le, hs ▸ h.window,
    hq ▸ hs ▸ h.sent_length, hq ▸ h.sent, hs ▸ h.toMcu, h.toMcu_order, h.toHost, h.toHost_order,
    h.finished, h.dispatching, hn ▸ h.notify, hs ▸ h.notified, h.notified_order, h.notEarly⟩

omit [DecidableEq ι] in
/-- Losing blocks or frames on the line keeps the invariant. -/
theorem Link.Sync.sublist (h : l.Sync s0) {toMcu : List (Nat × List UInt8)} {toHost : List Frame}
    (hm : toMcu.Sublist l.toMcu) (hh : toHost.Sublist l.toHost) :
    ({ l with toMcu := toMcu, toHost := toHost } : Link ι).Sync s0 :=
  ⟨h.needSync, h.nextSequence, h.start_le, h.two_le, h.receive_le, h.mcu_le, h.window,
    h.sent_length, h.sent, fun x hx => h.toMcu x (hm.subset hx), h.toMcu_order.sublist hm,
    fun f hf => h.toHost f (hh.subset hf), h.toHost_order.sublist hh, h.finished, h.dispatching,
    h.notify, h.notified, h.notified_order, h.notEarly⟩

omit [DecidableEq ι] in
/-- A retransmission puts `sent_queue` on the line again, numbered from `receive_seq`. -/
theorem Link.Sync.retransmit (h : l.Sync s0) :
    ({ l with toMcu := l.toMcu ++ numbered l.rx.receiveSeq.toNat l.sq.sentQueue } : Link ι).Sync
      s0 := by
  refine ⟨h.needSync, h.nextSequence, h.start_le, h.two_le, h.receive_le, h.mcu_le, h.window,
    h.sent_length, h.sent, fun x hx => ?_, ?_, h.toHost, h.toHost_order, h.finished,
    h.dispatching, h.notify, h.notified, h.notified_order, h.notEarly⟩
  · rcases List.mem_append.mp hx with hx | hx
    · exact h.toMcu x hx
    · have hb := fst_of_mem_numbered hx
      rw [h.sent_length] at hb
      have := h.receive_le
      have := h.mcu_le
      have := h.window
      refine ⟨blockOk_of_mem_numbered h.sent x hx, ?_, ?_⟩ <;> dsimp only <;> omega
  · -- the blocks already on the line are numbered below `send_seq`, within 12 of `receive_seq`
    refine List.pairwise_append.mpr ⟨h.toMcu_order, (numbered_pairwise _ _).imp (by omega),
      fun a ha b hb => ?_⟩
    have := (h.toMcu a ha).2.1
    have := (fst_of_mem_numbered hb).1
    have := h.window
    omega

/-- **A block goes out** when the window is open: it is numbered `send_seq`, within 12 of
    everything the MCU can still expect, and its notifications are of a block not yet sent. -/
theorem Link.Sync.buildSend (h : l.Sync s0) (hwin : checkSendWindow l.sq l.rx = true)
    (hok : l.sq.sendSeq.toNat + 1 < 2 ^ 64) {r : Serialqueue ι × List (ι × QueueMessage)}
    (hr : buildAndSendCommand l.sq = some r) :
    ({ l with sq := r.1,
              toMcu := l.toMcu ++ [(l.sq.sendSeq.toNat, fillBlock l.sq.sendSeq (payload r.2))],
              notified := l.notified ++ notifiedIn l.sq.sendSeq r.2 } : Link ι).Sync s0 := by
  obtain ⟨hseq, hsent, hnotify, hpay⟩ := buildAndSendCommand_spec hr
  have he : r.1.sendSeq.toNat = l.sq.sendSeq.toNat + 1 := by
    rw [hseq, UInt64.toNat_add, UInt64.toNat_one]
    omega
  have hw := checkSendWindow_lt hwin (h.receive_le.trans h.mcu_le) hok
  have hblock : BlockOk l.sq.sendSeq.toNat (fillBlock l.sq.sendSeq (payload r.2)) :=
    ⟨(isFrame_fillBlock _ hpay).1, by rw [fillBlock_seq, UInt64.ofNat_toNat]⟩
  have hle := h.receive_le
  have hme := h.mcu_le
  refine ⟨h.needSync, h.nextSequence, h.start_le, h.two_le, h.receive_le, ?_, ?_, ?_, ?_, ?_, ?_,
    h.toHost, h.toHost_order, h.finished, h.dispatching, ?_, ?_, ?_, h.notEarly⟩
  · show l.mcuSeq ≤ r.1.sendSeq.toNat
    omega
  · show r.1.sendSeq.toNat ≤ l.rx.receiveSeq.toNat + 12
    omega
  · show r.1.sentQueue.length = r.1.sendSeq.toNat - l.rx.receiveSeq.toNat
    rw [hsent, List.length_append, h.sent_length, he, List.length_singleton]
    omega
  · show SentOk l.rx.receiveSeq.toNat r.1.sentQueue
    rw [hsent]
    refine h.sent.append ?_
    rw [h.sent_length, show l.rx.receiveSeq.toNat + (l.sq.sendSeq.toNat - l.rx.receiveSeq.toNat) =
      l.sq.sendSeq.toNat by omega]
    exact hblock
  · intro x hx
    dsimp only at hx ⊢
    rcases List.mem_append.mp hx with hx | hx
    · have := h.toMcu x hx
      exact ⟨this.1, by omega, this.2.2⟩
    · rw [List.mem_singleton] at hx
      subst hx
      exact ⟨hblock, by omega, by omega⟩
  · refine List.pairwise_append.mpr ⟨h.toMcu_order, List.pairwise_singleton _ _, fun a ha b hb => ?_⟩
    rw [List.mem_singleton] at hb
    subst hb
    have := (h.toMcu a ha).2.1
    show a.1 < l.sq.sendSeq.toNat + 12
    omega
  · intro qm hqm
    rw [hnotify] at hqm
    rcases List.mem_append.mp hqm with hqm | hqm
    · exact h.notify qm hqm
    · rw [reqClock_of_mem_notifiedIn hqm]
      have := h.start_le
      omega
  · intro qm hqm
    rcases List.mem_append.mp hqm with hqm | hqm
    · have := h.notified qm hqm
      show qm.reqClock.toNat < r.1.sendSeq.toNat
      omega
    · rw [reqClock_of_mem_notifiedIn hqm]
      show l.sq.sendSeq.toNat < r.1.sendSeq.toNat
      omega
  · -- the new notifications are of the newest block
    refine List.pairwise_append.mpr ⟨h.notified_order, ?_, fun a ha b hb => ?_⟩
    · exact List.pairwise_of_forall_mem_list fun a ha b hb => by
        rw [reqClock_of_mem_notifiedIn ha, reqClock_of_mem_notifiedIn hb]
    · rw [reqClock_of_mem_notifiedIn hb]
      exact (h.notified a ha).le

omit [DecidableEq ι] in
/-- A frame from the MCU outside a dispatch carries its sequence, before which it has finished
    every block. -/
theorem Link.Sync.frameOk_current (h : l.Sync s0) (hd : l.dispatching = none) (msg : List UInt8) :
    FrameOk s0 ⟨commandAddFrame l.find.nextSequence msg, l.mcuSeq, l.dispatched⟩ :=
  ⟨msg, by rw [h.nextSequence],
    fun n hn hlt => h.finished n hn (by dsimp only at hlt; omega) (by simp [hd]),
    fun _ n hn hlt => h.finished n hn hlt (by simp [hd])⟩

omit [DecidableEq ι] in
/-- A frame sent on the line to the host with the MCU's sequence keeps the invariant. -/
theorem Link.Sync.send (h : l.Sync s0) {f : Frame} (hf : FrameOk s0 f) (hseq : f.seq = l.mcuSeq)
    (hdone : f.done = l.dispatched) :
    ({ l with toHost := l.toHost ++ [f] } : Link ι).Sync s0 := by
  refine ⟨h.needSync, h.nextSequence, h.start_le, h.two_le, h.receive_le, h.mcu_le, h.window,
    h.sent_length, h.sent, h.toMcu, h.toMcu_order, fun g hg => ?_, ?_, h.finished, h.dispatching,
    h.notify, h.notified, h.notified_order, h.notEarly⟩
  · rcases List.mem_append.mp hg with hg | hg
    · exact h.toHost g hg
    · rw [List.mem_singleton] at hg
      subst hg
      exact ⟨hf, hseq ▸ h.receive_le, hseq.le, fun n hn => hdone ▸ hn⟩
  · exact List.pairwise_append.mpr ⟨h.toHost_order, List.pairwise_singleton _ _,
      fun g hg f' hf' => by
        rw [List.mem_singleton] at hf'
        subst hf'
        exact hseq ▸ (h.toHost g hg).2.2.1⟩

omit [DecidableEq ι] in
/-- A frame a task sends between dispatches, or a nak that noise provokes. -/
theorem Link.Sync.mcuSend (h : l.Sync s0) (hd : l.dispatching = none) (msg : List UInt8) :
    ({ l with toHost := l.toHost ++
        [⟨commandAddFrame l.find.nextSequence msg, l.mcuSeq, l.dispatched⟩] } : Link ι).Sync s0 :=
  h.send (h.frameOk_current hd msg) rfl rfl

omit [DecidableEq ι] in
/-- **A response from inside a dispatch** carries the new sequence, but shows only the blocks
    before the one being dispatched. -/
theorem Link.Sync.respond (h : l.Sync s0) {S : Nat} (hd : l.dispatching = some S)
    {msg : List UInt8} (hmsg : msg ≠ []) :
    ({ l with toHost := l.toHost ++
        [⟨commandAddFrame l.find.nextSequence msg, l.mcuSeq, l.dispatched⟩] } : Link ι).Sync s0 := by
  have hS := h.dispatching S hd
  refine h.send ⟨msg, by rw [h.nextSequence], fun n hn hlt => h.finished n hn
    (by dsimp only at hlt; omega) ?_, fun he => absurd he hmsg⟩ rfl rfl
  rw [hd]
  dsimp only at hlt
  intro heq
  cases heq
  omega

omit [DecidableEq ι] in
/-- **The dispatch returns** and the ack follows, showing the block finished. -/
theorem Link.Sync.finish (h : l.Sync s0) {S : Nat} (hd : l.dispatching = some S) :
    ({ l with dispatching := none, dispatched := l.dispatched ++ [S],
              toHost := l.toHost ++ [⟨commandAddFrame l.find.nextSequence [], l.mcuSeq,
                l.dispatched ++ [S]⟩] } : Link ι).Sync s0 := by
  have hS := h.dispatching S hd
  have hdisp : ∀ n ∈ l.dispatched, n ∈ l.dispatched ++ [S] := fun n hn => List.mem_append_left _ hn
  -- every block before the MCU's sequence is now finished: the dispatched one is the last
  have hfin : ∀ n, s0 ≤ n → n < l.mcuSeq → n ∈ l.dispatched ++ [S] := by
    intro n hn hlt
    by_cases hnS : n = S
    · exact hnS ▸ List.mem_append_right _ (List.mem_singleton_self _)
    · exact hdisp n (h.finished n hn hlt (by rw [hd]; simpa using Ne.symm hnS))
  have h' : ({ l with dispatching := none, dispatched := l.dispatched ++ [S] } : Link ι).Sync s0 :=
    ⟨h.needSync, h.nextSequence, h.start_le, h.two_le, h.receive_le, h.mcu_le, h.window,
      h.sent_length, h.sent, h.toMcu, h.toMcu_order,
      fun f hf => ⟨(h.toHost f hf).1, (h.toHost f hf).2.1, (h.toHost f hf).2.2.1,
        fun n hn => hdisp n ((h.toHost f hf).2.2.2 n hn)⟩,
      h.toHost_order, fun n hn hlt _ => hfin n hn hlt, (fun _ hn => nomatch hn), h.notify,
      h.notified, h.notified_order, fun qm hqm hid => hdisp _ (h.notEarly qm hqm hid)⟩
  exact h'.send (h'.frameOk_current rfl []) rfl rfl

omit [DecidableEq ι] in
/-- **A block out of sequence** is dropped, with a nak or not, and the MCU does not move. -/
theorem Link.Sync.reject (h : l.Sync s0) (hd : l.dispatching = none) {x : Nat × List UInt8}
    {rest : List (Nat × List UInt8)} (hcons : l.toMcu = x :: rest) {st : FindState} (hs : st.needSync = false)
    (hn : st.nextSequence = l.find.nextSequence) {frames : List Frame}
    (hframes : frames = [] ∨
      frames = [⟨commandAddFrame l.find.nextSequence [], l.mcuSeq, l.dispatched⟩]) :
    ({ l with find := st, toMcu := rest, toHost := l.toHost ++ frames } : Link ι).Sync s0 := by
  have hsub : rest.Sublist l.toMcu := hcons ▸ List.sublist_cons_self x rest
  refine ⟨hs, hn.trans h.nextSequence, h.start_le, h.two_le, h.receive_le, h.mcu_le, h.window,
    h.sent_length, h.sent, fun y hy => h.toMcu y (hsub.subset hy), h.toMcu_order.sublist hsub, ?_,
    ?_, h.finished, h.dispatching, h.notify, h.notified, h.notified_order, h.notEarly⟩
  · rcases hframes with rfl | rfl
    · simpa using h.toHost
    · exact (h.mcuSend hd []).toHost
  · rcases hframes with rfl | rfl
    · simpa using h.toHost_order
    · exact (h.mcuSend hd []).toHost_order

omit [DecidableEq ι] in
/-- **The block the MCU expects** starts its dispatch: `next_sequence` moves on, and the block
    is not finished until `command_dispatch` returns. -/
theorem Link.Sync.find (h : l.Sync s0) (hd : l.dispatching = none) {b : List UInt8}
    {rest : List (Nat × List UInt8)} (hcons : l.toMcu = (l.mcuSeq, b) :: rest) {st : FindState}
    (hs : st.needSync = false) (hn : st.nextSequence = seqByte (UInt64.ofNat (l.mcuSeq + 1))) :
    ({ l with find := st, toMcu := rest, mcuSeq := l.mcuSeq + 1,
              dispatching := some l.mcuSeq } : Link ι).Sync s0 := by
  have hhead := h.toMcu (l.mcuSeq, b) (hcons ▸ List.mem_cons_self)
  have horder := hcons ▸ h.toMcu_order
  rw [List.pairwise_cons] at horder
  refine ⟨hs, hn, h.start_le, h.two_le, by dsimp only; have := h.receive_le; omega, by
    dsimp only; have := hhead.2.1; omega, h.window, h.sent_length, h.sent, fun y hy => ?_,
    horder.2, fun f hf => ?_, h.toHost_order, fun n hn0 hlt hne => ?_, fun n hn => ?_, h.notify,
    h.notified, h.notified_order, h.notEarly⟩
  · -- every block behind this one is numbered above it less 12
    have hy' := h.toMcu y (hcons ▸ List.mem_cons_of_mem _ hy)
    exact ⟨hy'.1, hy'.2.1, by dsimp only; have := horder.1 y hy; omega⟩
  · obtain ⟨hok, hlo, hhi, hdone⟩ := h.toHost f hf
    exact ⟨hok, hlo, by dsimp only; omega, hdone⟩
  · -- the block now dispatched is the one before the new sequence that is not finished
    have hne' : n ≠ l.mcuSeq := fun he => hne (by rw [he])
    exact h.finished n hn0 (by dsimp only at hlt; omega) (by rw [hd]; simp)
  · simp only [Option.some.injEq] at hn
    subst hn
    rfl

omit [DecidableEq ι] in
/-- **A frame arrives**: its four bits name a sequence from `receive_seq` to the MCU's, which
    `receive_seq` moves to, and what it releases from `notify_queue` is of blocks it shows
    finished. -/
theorem Link.Sync.hostReceive (h : l.Sync s0) {f : Frame} {rest : List Frame}
    (hcons : l.toHost = f :: rest) :
    ({ l with sq := (handleMessage l.sq l.rx f.bytes).1, rx := (handleMessage l.sq l.rx f.bytes).2,
              toHost := rest } : Link ι).Sync s0 := by
  obtain ⟨hframe, hlo, hhi, hdone⟩ := h.toHost f (hcons ▸ List.mem_cons_self)
  have hframe' := hframe
  obtain ⟨msg, hbytes, -, -⟩ := hframe'
  have hmcu := h.mcu_le
  have hwin := h.window
  have hm : (UInt64.ofNat f.seq).toNat = f.seq :=
    UInt64.toNat_ofNat_of_lt' (by have := l.sq.sendSeq.toNat_lt; rw [UInt64.size]; omega)
  have hseq : f.bytes.getD messagePosSeq 0 = seqByte (UInt64.ofNat f.seq) := by
    rw [hbytes, commandAddFrame_seq]
  obtain ⟨hr, hsent, hsend, hrecv⟩ := handleMessage_of_inWindow hseq (by rw [hm]; exact hlo)
    (by rw [hm]; omega) (by omega) h.sent_length
  have hrecv' : (handleMessage l.sq l.rx f.bytes).2.receiveSeq.toNat = f.seq := by rw [hrecv, hm]
  obtain ⟨woken, data, hsplit, hqueue, hwake, hdata⟩ := handleMessage_notify l.sq l.rx f.bytes
  have horder := hcons ▸ h.toHost_order
  rw [List.pairwise_cons] at horder
  have htwo := h.two_le
  refine ⟨h.needSync, h.nextSequence, ?_, ?_, ?_, ?_, ?_, ?_, ?_, ?_, h.toMcu_order, ?_,
    horder.2, h.finished, h.dispatching, ?_, ?_, h.notified_order, ?_⟩ <;> dsimp only
  · rw [hrecv']
    have := h.start_le
    omega
  · rw [hrecv']
    omega
  · rw [hrecv']
    exact hhi
  · rw [hsend]
    exact hmcu
  · rw [hsend, hrecv']
    omega
  · rw [hsent, hsend, hrecv', List.length_drop, h.sent_length]
    omega
  · -- the blocks the frame acknowledges leave the front of `sent_queue`
    rw [hrecv', hsent, hm]
    have := h.sent.drop (f.seq - l.rx.receiveSeq.toNat)
    rwa [show l.rx.receiveSeq.toNat + (f.seq - l.rx.receiveSeq.toNat) = f.seq by omega] at this
  · rw [hsend]
    exact h.toMcu
  · intro g hg
    obtain ⟨hok, -, hgm, hgd⟩ := h.toHost g (hcons ▸ List.mem_cons_of_mem _ hg)
    exact ⟨hok, by rw [hrecv']; exact horder.1 g hg, hgm, hgd⟩
  · intro qm hqm
    have hnotify := h.notify
    rw [hsplit] at hnotify
    exact hnotify qm (List.mem_append_right _ hqm)
  · rw [hsend]
    exact h.notified
  · intro qm hqm hid
    rw [hqueue, List.mem_append, List.mem_append] at hqm
    rcases hqm with (hqm | hqm) | hqm
    · exact h.notEarly qm hqm hid
    · obtain ⟨q, hq, rfl⟩ := List.mem_map.mp hqm
      show q.reqClock.toNat ∈ l.dispatched
      have hs0 := h.notify q (hsplit ▸ List.mem_append_left _ hq)
      have hle := UInt64.le_iff_toNat_le.mp (hwake q hq)
      rw [hr] at hle
      exact hdone _ (hframe.le_wakeSeq (by omega)
        (by have := l.sq.sendSeq.toNat_lt; omega) hs0 hle)
    · exact absurd (hdata qm hqm) hid

omit [DecidableEq ι] in
/-- The four bits of a block on the line name its number exactly: the MCU expects it just when
    it is the MCU's sequence. -/
theorem Link.Sync.seq_eq_iff (h : l.Sync s0) {x : Nat × List UInt8} (hx : x ∈ l.toMcu) :
    x.2.getD messagePosSeq 0 = l.find.nextSequence ↔ x.1 = l.mcuSeq := by
  obtain ⟨⟨-, hseq⟩, hlt, hle⟩ := h.toMcu x hx
  have hsend := l.sq.sendSeq.toNat_lt
  have := h.receive_le
  have := h.mcu_le
  have := h.window
  rw [hseq, h.nextSequence, seqByte_eq_iff,
    UInt64.toNat_ofNat_of_lt' (by rw [UInt64.size]; omega),
    UInt64.toNat_ofNat_of_lt' (by rw [UInt64.size]; omega)]
  omega

/-- `command_find_block` on the first block in flight: the block the MCU expects is dispatched,
    any other is rejected. -/
theorem Link.Sync.mcuFind (h : l.Sync s0) (hs : l.step .mcuFind = some l') : l'.Sync s0 := by
  simp only [Link.step] at hs
  split at hs
  · rename_i n b rest hd hcons
    have hx : (n, b) ∈ l.toMcu := hcons ▸ List.mem_cons_self
    have hb := (h.toMcu _ hx).1.1
    obtain ⟨-, hret⟩ := commandFindBlock_of_blockAt h.needSync hb
    obtain ⟨hst, hnak⟩ := commandFindBlock_state_of_blockAt h.needSync hb
    -- the block is dispatched exactly when it is the one the MCU expects
    by_cases hin : b.getD messagePosSeq 0 = l.find.nextSequence
    · have hn : n = l.mcuSeq := (h.seq_eq_iff hx).mp hin
      subst hn
      rw [if_pos hin] at hst
      have hr1 : (commandFindBlock l.find b).ret = 1 := by rw [hret, if_pos hin]
      rw [if_pos hr1] at hs
      cases hs
      have hnext : (commandFindBlock l.find b).state.nextSequence =
          seqByte (UInt64.ofNat (l.mcuSeq + 1)) := by
        rw [hst]
        show ((((b.getD messagePosSeq 0).toUInt64 + 1) &&& messageSeqMask) |||
          messageDest).toUInt8 = _
        rw [hin, h.nextSequence, seqByte_succ, ofNat_succ]
      exact h.find hd hcons (by rw [hst]; exact h.needSync) hnext
    · rw [if_neg hin] at hst
      have hr1 : (commandFindBlock l.find b).ret ≠ 1 := by
        rw [hret, if_neg hin]
        decide
      rw [if_neg hr1] at hs
      cases hs
      refine h.reject hd hcons (by rw [hst]; exact h.needSync) (by rw [hst]) (Or.inr ?_)
      rw [hnak, hst]
      simpa using hin
  · cases hs

/-- **Every step the two ends allow keeps the invariant of an agreed link.** -/
theorem Link.Sync.step {a : Act ι} (h : l.Sync s0) (hok : l.Ok a) (hs : l.step a = some l') :
    l'.Sync s0 := by
  cases a with
  | sendBatch cq msgs =>
    cases hs
    obtain ⟨hn, hseq, hq⟩ := serialqueueSendBatch_fields l.sq cq msgs
    exact h.of_sq hn hseq hq
  | checkSend a =>
    cases hs
    obtain ⟨hn, hseq, hq⟩ := checkSendCommand_fields a l.sq
    exact h.of_sq hn hseq hq
  | buildSend =>
    simp only [Link.step] at hs
    split_ifs at hs with hwin
    obtain ⟨r, hr, rfl⟩ := Option.map_eq_some_iff.mp hs
    exact h.buildSend hwin hok hr
  | retransmit =>
    cases hs
    exact h.retransmit
  | dropBlock i =>
    simp only [Link.step] at hs
    split_ifs at hs
    cases hs
    exact h.sublist (List.eraseIdx_sublist _ _) (List.Sublist.refl _)
  | dropFrame i =>
    simp only [Link.step] at hs
    split_ifs at hs
    cases hs
    exact h.sublist (List.Sublist.refl _) (List.eraseIdx_sublist _ _)
  | mcuFind => exact h.mcuFind hs
  | mcuRespond msg =>
    simp only [Link.step] at hs
    split at hs
    · rename_i S hd
      cases hs
      exact h.respond hd hok
    · cases hs
  | mcuFinish =>
    simp only [Link.step] at hs
    split at hs
    · rename_i S hd
      cases hs
      exact h.finish hd
    · cases hs
  | mcuSend msg =>
    simp only [Link.step] at hs
    split at hs
    · rename_i hd
      cases hs
      exact h.mcuSend hd msg
    · cases hs
  | hostReceive =>
    simp only [Link.step] at hs
    split at hs
    · cases hs
    · rename_i f rest hcons
      cases hs
      exact h.hostReceive hcons

end Sync

/-! ## Runs -/

section Runs

variable {l : Link ι}

omit [DecidableEq ι] in
theorem Link.notifyInv_synced (sq : Serialqueue ι) (seq : UInt64) :
    (Link.synced sq seq).NotifyInv :=
  ⟨⟨0, le_rfl, rfl, rfl⟩, fun _ h => absurd h List.not_mem_nil⟩

omit [DecidableEq ι] in
/-- Two ends that agree on a sequence of at least 2 start an agreed link. -/
theorem Link.sync_synced (sq : Serialqueue ι) {seq : UInt64} (h2 : 2 ≤ seq.toNat) :
    (Link.synced sq seq).Sync seq.toNat := by
  refine ⟨rfl, ?_, le_rfl, h2, le_rfl, le_rfl, by dsimp only [Link.synced]; omega, ?_, trivial,
    fun _ h => absurd h List.not_mem_nil, .nil, fun _ h => absurd h List.not_mem_nil, .nil,
    fun n hn hlt _ => ?_, (fun _ h => nomatch h), fun _ h => absurd h List.not_mem_nil,
    fun _ h => absurd h List.not_mem_nil, .nil, fun _ h => absurd h List.not_mem_nil⟩
  · show seqByte seq = seqByte (UInt64.ofNat seq.toNat)
    rw [UInt64.ofNat_toNat]
  · show ([] : List (List UInt8)).length = seq.toNat - seq.toNat
    simp
  · dsimp only [Link.synced] at hlt
    omega

/-- **Every run keeps the notifications in order**, from any start that has them. -/
theorem Link.notifyInv_of_reachable {init : Link ι → Prop} (hinit : ∀ l, init l → l.NotifyInv)
    (h : Transition.Reachable init Link.next l) : l.NotifyInv :=
  Transition.Reachable.inv hinit (fun _ _ hl ⟨_, _, hs⟩ => hl.step hs) h

/-- **Every run of an agreed link keeps its invariant.** -/
theorem Link.sync_of_reachable {sq : Serialqueue ι} {seq : UInt64} (h2 : 2 ≤ seq.toNat)
    (h : Transition.Reachable (· = Link.synced sq seq) Link.next l) : l.Sync seq.toNat :=
  Transition.Reachable.inv (fun _ hl => hl ▸ Link.sync_synced sq h2)
    (fun _ _ hl ⟨_, hok, hs⟩ => hl.step hok hs) h

theorem serialqueue_notify_after_sync {sq : Serialqueue ι} {seq : UInt64} (h2 : 2 ≤ seq.toNat)
    (h : Transition.Reachable (· = Link.synced sq seq) Link.next l) :
    l.NotifyInv ∧ l.notified.Pairwise (fun a b => a.reqClock.toNat ≤ b.reqClock.toNat) ∧
      (∀ f ∈ l.toHost, ∀ n, seq.toNat ≤ n →
        n ≤ (wakeSeq (UInt64.ofNat f.seq) f.bytes.length).toNat → n ∈ f.done) ∧
      ∀ qm ∈ l.rx.receiveQueue, qm.notifyId ≠ 0 → qm.reqClock.toNat ∈ l.dispatched := by
  have hsync := Link.sync_of_reachable h2 h
  refine ⟨Link.notifyInv_of_reachable
      (fun l' (hl : l' = Link.synced sq seq) => hl ▸ Link.notifyInv_synced sq seq) h,
    hsync.notified_order, fun f hf n hn hle => ?_, hsync.notEarly⟩
  -- a frame on the line carries a sequence between `receive_seq` and `send_seq`
  obtain ⟨hframe, hlo, hhi, -⟩ := hsync.toHost f hf
  have := hsync.two_le
  have := hsync.mcu_le
  have := l.sq.sendSeq.toNat_lt
  exact hframe.le_wakeSeq (by omega) (by omega) hn hle

/-- One message with notify id 7 through an agreed link at sequence 2: the host sends it as
    block 2; the MCU starts its dispatch and sends a response, which the host handles without
    releasing the message; the dispatch returns and the host releases it on the ack. -/
theorem serialqueue_notify_after_sync_response :
    let l := (Link.synced serialqueueAlloc 2).run [.sendBatch () [⟨[1], 0, 0, 7⟩], .checkSend 0,
      .buildSend, .mcuFind, .mcuRespond [5], .hostReceive]
    let l' := l.run [.mcuFinish, .hostReceive]
    l.rx.receiveQueue.map (·.notifyId) = [0] ∧ l.dispatched = [] ∧
      l'.rx.receiveQueue.map (·.notifyId) = [0, 7] ∧ l'.dispatched = [2] ∧
      (l'.NotifyInv ∧ l'.notified.Pairwise (fun a b => a.reqClock.toNat ≤ b.reqClock.toNat) ∧
        (∀ f ∈ l'.toHost, ∀ n, (2 : UInt64).toNat ≤ n →
          n ≤ (wakeSeq (UInt64.ofNat f.seq) f.bytes.length).toNat → n ∈ f.done) ∧
        ∀ qm ∈ l'.rx.receiveQueue, qm.notifyId ≠ 0 → qm.reqClock.toNat ∈ l'.dispatched) := by
  intro l l'
  refine ⟨by decide +kernel, by decide +kernel, by decide +kernel, by decide +kernel, ?_⟩
  exact serialqueue_notify_after_sync (by decide)
    (Link.reachable_run _ (Link.reachable_run _ (.init rfl)))

/-- The start of a connection: the host sends one message with notify id 7 as block 1, the
    freshly started MCU naks it, and the host notifies the message although the MCU never
    dispatched its block. -/
theorem serialqueue_notify_before_dispatch :
    Transition.Reachable (· = Link.init) Link.next ((Link.init : Link Unit).run
        [.sendBatch () [⟨[1], 0, 0, 7⟩], .checkSend 0, .buildSend, .mcuFind, .hostReceive]) ∧
      ∃ qm ∈ ((Link.init : Link Unit).run [.sendBatch () [⟨[1], 0, 0, 7⟩], .checkSend 0,
          .buildSend, .mcuFind, .hostReceive]).rx.receiveQueue,
        qm.notifyId ≠ 0 ∧ qm.reqClock.toNat ∉ ((Link.init : Link Unit).run
          [.sendBatch () [⟨[1], 0, 0, 7⟩], .checkSend 0, .buildSend, .mcuFind,
            .hostReceive]).dispatched :=
  ⟨Link.reachable_run _ (.init rfl), by decide +kernel⟩

end Runs

end Klipper.Transport
