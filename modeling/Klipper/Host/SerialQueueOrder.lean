import Klipper.Host.SerialQueue
import Klipper.Lib.FifoMerge

/-
  What the command scheduling of `serialqueue` guarantees, over any interleaving of
  `serialqueue_send_batch`, `check_send_command` and `build_and_send_command`.

  1. **System** — `Machine` is the scheduling state with two records the C does not keep: every
     message batched to each command queue (`batched`, after `serialqueue_send_batch` fixed its
     `min_clock`) and the messages of every block built (`blocks`).  The host promises that
     every message it queues has bytes (an encoded command starts with its id) and a
     `req_clock` below `MAX_CLOCK` (`HostOk`).

  2. **Bookkeeping** — `QueueInv`: `pending_queues` has no repeats and holds exactly the
     command queues with a message; `ready_bytes` and `upcoming_bytes` are the bytes of the
     ready and upcoming messages; every queued `req_clock` is below `MAX_CLOCK`.  All three
     functions change one command queue at a time and relink it the same way (`relink`), so one
     lemma (`QueueInv.update`) carries the invariant across each of them.

  3. **Order** — each command queue is a source of a first-in first-out merge
     (`Klipper.Lib.FifoMerge`) holding its ready messages followed by its upcoming ones: a batch
     is a `give`, promotion moves nothing, and each message a block takes is a `take`
     (`Machine.toMerge_step`).  So per command queue, the messages placed in blocks followed by
     those still queued are exactly those batched, in order.

  4. **Result** — `serialqueue_scheduling`: in every reachable state the merge property, the
     notify queue, the byte counts and the pending list are as the code means them, each block
     on `sent_queue` frames the messages placed in it, and `build_and_send_command` finds a
     message whenever `ready_bytes` is not zero.
-/

namespace Klipper.SerialQueue

open FifoMerge

variable {ι : Type} [DecidableEq ι]

/-! ## Sums over the pending queues -/

section Sums

variable {κ : Type}

/-- Summing over a list without repeats after one entry of the summed function changed. -/
theorem sum_map_update_of_mem {L : List ι} (hL : L.Nodup) {i : ι} (hi : i ∈ L) (c : ι → κ)
    (v : κ) (F : κ → Nat) :
    (L.map fun j => F (Function.update c i v j)).sum + F (c i) =
      (L.map fun j => F (c j)).sum + F v := by
  have hne : ∀ j ∈ L.erase i, j ≠ i := by
    rintro j hj rfl
    exact hL.not_mem_erase hj
  have h1 := List.sum_map_erase (fun j => F (Function.update c i v j)) hi
  have h2 := List.sum_map_erase (fun j => F (c j)) hi
  have h3 : ((L.erase i).map fun j => F (Function.update c i v j)) =
      (L.erase i).map fun j => F (c j) :=
    List.map_congr_left fun j hj => by rw [Function.update_of_ne (hne j hj)]
  simp only [Function.update_self] at h1
  rw [← h1, ← h2, h3]
  omega

theorem map_update_of_not_mem {L : List ι} {i : ι} (hi : i ∉ L) (c : ι → κ) (v : κ)
    (F : κ → Nat) :
    (L.map fun j => F (Function.update c i v j)) = L.map fun j => F (c j) :=
  List.map_congr_left fun j hj => by
    rw [Function.update_of_ne (by rintro rfl; exact hi hj)]

end Sums

/-- The bytes of the ready messages of the pending queues. -/
def Serialqueue.readyTotal (sq : Serialqueue ι) : Nat :=
  (sq.pendingQueues.map fun q => bytesOf (sq.cqs q).readyQueue).sum

/-- The bytes of the upcoming messages of the pending queues. -/
def Serialqueue.upcomingTotal (sq : Serialqueue ι) : Nat :=
  (sq.pendingQueues.map fun q => bytesOf (sq.cqs q).upcomingQueue).sum

/-! ## Relinking a changed command queue -/

/-- `pending_queues` after command queue `cq` became `q'`, as every scheduling function keeps
    it: `cq` leaves when it is emptied and joins at the end when it was not pending. -/
def relink (pending : List ι) (cq : ι) (q' : CommandQueue) : List ι :=
  if q'.readyQueue = [] ∧ q'.upcomingQueue = [] then pending.erase cq
  else if cq ∈ pending then pending else pending ++ [cq]

section Relink

variable {L : List ι} {cq : ι} {q' : CommandQueue}

theorem relink_nodup (hL : L.Nodup) : (relink L cq q').Nodup := by
  unfold relink
  split_ifs with he hm
  · exact hL.erase cq
  · exact hL
  · refine List.nodup_append.mpr ⟨hL, List.nodup_singleton cq, fun a ha b hb hab => ?_⟩
    rw [List.mem_singleton] at hb
    exact hm (hb ▸ hab ▸ ha)

theorem mem_relink_self (hL : L.Nodup) :
    cq ∈ relink L cq q' ↔ q'.readyQueue ≠ [] ∨ q'.upcomingQueue ≠ [] := by
  unfold relink
  split_ifs with he hm
  · simp only [he.1, he.2, ne_eq, not_true_eq_false, or_self, iff_false]
    exact hL.not_mem_erase
  · refine iff_of_true hm ?_
    by_contra hn
    exact he (by simpa [not_or] using hn)
  · refine iff_of_true (by simp) ?_
    by_contra hn
    exact he (by simpa [not_or] using hn)

theorem mem_relink_of_ne {q : ι} (hq : q ≠ cq) : q ∈ relink L cq q' ↔ q ∈ L := by
  unfold relink
  split_ifs
  · exact List.mem_erase_of_ne hq
  · rfl
  · simp [hq]

/-- The total of `F` over the pending queues after `relink`, where `F` is zero on an empty
    queue and `cq`, if it was not pending, was empty. -/
theorem sum_relink (hL : L.Nodup) (c : ι → CommandQueue) (F : CommandQueue → Nat)
    (hF : ∀ q : CommandQueue, q.readyQueue = [] → q.upcomingQueue = [] → F q = 0)
    (hc : cq ∉ L → (c cq).readyQueue = [] ∧ (c cq).upcomingQueue = []) :
    ((relink L cq q').map fun j => F (Function.update c cq q' j)).sum + F (c cq) =
      (L.map fun j => F (c j)).sum + F q' := by
  unfold relink
  by_cases he : q'.readyQueue = [] ∧ q'.upcomingQueue = []
  · rw [if_pos he, hF q' he.1 he.2]
    by_cases hm : cq ∈ L
    · -- `cq` leaves the list
      have h1 := List.sum_map_erase (fun j => F (c j)) hm
      rw [map_update_of_not_mem hL.not_mem_erase c q' F]
      omega
    · rw [List.erase_of_not_mem hm, map_update_of_not_mem hm c q' F, hF _ (hc hm).1 (hc hm).2]
  · rw [if_neg he]
    by_cases hm : cq ∈ L
    · rw [if_pos hm]
      exact sum_map_update_of_mem hL hm c q' F
    · -- `cq` joins at the end
      rw [if_neg hm, List.map_append, List.sum_append, map_update_of_not_mem hm c q' F,
        hF _ (hc hm).1 (hc hm).2]
      simp

end Relink

/-! ## The bookkeeping invariant -/

/-- The bookkeeping of the scheduling state. -/
structure QueueInv (sq : Serialqueue ι) : Prop where
  nodup : sq.pendingQueues.Nodup
  pending : ∀ q, q ∈ sq.pendingQueues ↔
    (sq.cqs q).readyQueue ≠ [] ∨ (sq.cqs q).upcomingQueue ≠ []
  readyBytes : sq.readyBytes = sq.readyTotal
  upcomingBytes : sq.upcomingBytes = sq.upcomingTotal
  reqClock : ∀ q, ∀ qm ∈ (sq.cqs q).readyQueue ++ (sq.cqs q).upcomingQueue,
    qm.reqClock < maxClock

section Update

variable {sq sq' : Serialqueue ι}

omit [DecidableEq ι] in
theorem QueueInv.empty_of_not_mem (h : QueueInv sq) {cq : ι} (hn : cq ∉ sq.pendingQueues) :
    (sq.cqs cq).readyQueue = [] ∧ (sq.cqs cq).upcomingQueue = [] := by
  have := (h.pending cq).not.mp hn
  simpa [not_or] using this

/-- **One command queue changed.**  If only `cq` changed, to `q'`, `pending_queues` was relinked
    and the byte counts moved by the difference of `cq`'s bytes, the bookkeeping holds again. -/
theorem QueueInv.update (h : QueueInv sq) {cq : ι} {q' : CommandQueue}
    (hcqs : sq'.cqs = Function.update sq.cqs cq q')
    (hpend : sq'.pendingQueues = relink sq.pendingQueues cq q')
    (hready : sq'.readyBytes + bytesOf (sq.cqs cq).readyQueue =
      sq.readyBytes + bytesOf q'.readyQueue)
    (hup : sq'.upcomingBytes + bytesOf (sq.cqs cq).upcomingQueue =
      sq.upcomingBytes + bytesOf q'.upcomingQueue)
    (hclk : ∀ qm ∈ q'.readyQueue ++ q'.upcomingQueue, qm.reqClock < maxClock) :
    QueueInv sq' := by
  have hsum := fun F hF => @sum_relink ι _ sq.pendingQueues cq q' h.nodup sq.cqs F hF
    h.empty_of_not_mem
  have hrt := hsum (fun c => bytesOf c.readyQueue) (fun c hr _ => by simp [hr, bytesOf])
  have hut := hsum (fun c => bytesOf c.upcomingQueue) (fun c _ hu => by simp [hu, bytesOf])
  have hr0 := h.readyBytes
  have hu0 := h.upcomingBytes
  unfold Serialqueue.readyTotal at hr0
  unfold Serialqueue.upcomingTotal at hu0
  refine ⟨hpend ▸ relink_nodup h.nodup, fun q => ?_, ?_, ?_, fun q => ?_⟩
  · rw [hpend, hcqs]
    by_cases hq : q = cq
    · subst hq
      rw [Function.update_self]
      exact mem_relink_self h.nodup
    · rw [Function.update_of_ne hq, mem_relink_of_ne hq]
      exact h.pending q
  · unfold Serialqueue.readyTotal
    rw [hpend, hcqs]
    omega
  · unfold Serialqueue.upcomingTotal
    rw [hpend, hcqs]
    omega
  · rw [hcqs]
    by_cases hq : q = cq
    · subst hq
      rw [Function.update_self]
      exact hclk
    · rw [Function.update_of_ne hq]
      exact h.reqClock q

end Update

/-! ## The three functions keep the bookkeeping -/

section Ops

variable {sq : Serialqueue ι}

/-- **`serialqueue_send_batch` keeps the bookkeeping.** -/
theorem QueueInv.sendBatch (h : QueueInv sq) {cq : ι} {msgs : List QueueMessage}
    (hok : ∀ qm ∈ msgs, qm.reqClock < maxClock) :
    QueueInv (serialqueueSendBatch sq cq msgs) := by
  by_cases hz : bytesOf (msgs.map fixMinClock) = 0
  · rw [serialqueueSendBatch_of_bytesOf_eq_zero hz]
    exact h
  rw [serialqueueSendBatch_of_bytesOf_ne_zero hz]
  have hne : (sq.cqs cq).upcomingQueue ++ msgs.map fixMinClock ≠ [] := by
    intro he
    rw [List.append_eq_nil_iff] at he
    apply hz
    rw [he.2]
    rfl
  refine h.update rfl ?_ ?_ ?_ ?_
  · -- a queue with a new batch is not empty; it was pending unless it was empty
    have hq' : ¬((sq.cqs cq).readyQueue = [] ∧
        (sq.cqs cq).upcomingQueue ++ msgs.map fixMinClock = []) := fun he => hne he.2
    show (if _ then _ else _) = relink _ _ _
    unfold relink
    dsimp only
    rw [if_neg hq']
    by_cases hm : cq ∈ sq.pendingQueues
    · have hp := (h.pending cq).mp hm
      rw [if_pos hm, if_neg (fun he => hp.elim (· he.1) (· he.2))]
    · rw [if_neg hm, if_pos (h.empty_of_not_mem hm)]
  · rfl
  · show sq.upcomingBytes + _ + _ = sq.upcomingBytes + _
    rw [bytesOf_append]
    push_cast
    omega
  · intro qm hqm
    rw [← List.append_assoc, List.mem_append] at hqm
    rcases hqm with hqm | hqm
    · exact h.reqClock cq qm hqm
    · obtain ⟨qm0, hqm0, rfl⟩ := List.mem_map.mp hqm
      rw [reqClock_fixMinClock]
      exact hok qm0 hqm0

/-- **Promoting one command queue keeps the bookkeeping**: its messages stay, in order. -/
theorem QueueInv.promote (h : QueueInv sq) (a : UInt64) (cq : ι) :
    QueueInv (promoteQueue a sq cq) := by
  have hsplit := promoted_append a (sq.cqs cq)
  have hempty : ((sq.cqs cq).readyQueue ++ (promoted a (sq.cqs cq)).1 = [] ∧
      (promoted a (sq.cqs cq)).2 = []) ↔
      ((sq.cqs cq).readyQueue = [] ∧ (sq.cqs cq).upcomingQueue = []) := by
    rw [← hsplit]
    simp [List.append_eq_nil_iff, and_assoc]
  refine h.update promoteQueue_cqs ?_ ?_ ?_ ?_
  · rw [promoteQueue_pendingQueues]
    unfold relink
    dsimp only
    by_cases hm : cq ∈ sq.pendingQueues
    · have hp := (h.pending cq).mp hm
      rw [if_neg (fun he => hp.elim (· (hempty.mp he).1) (· (hempty.mp he).2)), if_pos hm]
    · rw [if_pos (hempty.mpr (h.empty_of_not_mem hm)), List.erase_of_not_mem hm]
  · rw [promoteQueue_readyBytes]
    dsimp only
    rw [bytesOf_append]
    push_cast
    omega
  · rw [promoteQueue_upcomingBytes]
    dsimp only
    rw [← hsplit, bytesOf_append]
    push_cast
    omega
  · intro qm hqm
    apply h.reqClock cq qm
    rw [← hsplit]
    simp only [List.mem_append] at hqm ⊢
    tauto

/-- **`check_send_command` keeps the bookkeeping.** -/
theorem QueueInv.checkSend (h : QueueInv sq) (a : UInt64) : QueueInv (checkSendCommand a sq) := by
  unfold checkSendCommand
  -- promotion keeps it queue by queue, along any list of queues
  suffices ∀ (l : List ι) (sq : Serialqueue ι), QueueInv sq →
      QueueInv (l.foldl (promoteQueue a) sq) from this _ _ h
  intro l
  induction l with
  | nil => exact fun _ h => h
  | cons q l ih => exact fun sq h => ih _ (h.promote a q)

/-- **Taking the highest priority message keeps the bookkeeping.** -/
theorem QueueInv.take (h : QueueInv sq) {cq : ι} {qm : QueueMessage}
    (hp : highestPriority sq = some (cq, qm)) : QueueInv (takeMessage sq cq qm) := by
  obtain ⟨hm, rest, hq⟩ := highestPriority_spec hp
  refine h.update takeMessage_cqs ?_ ?_ ?_ ?_
  · rw [takeMessage_pendingQueues]
    unfold relink
    dsimp only
    split_ifs <;> rfl
  · rw [takeMessage_readyBytes, hq]
    simp [bytesOf, QueueMessage.len]
    omega
  · rfl
  · intro qm' hqm
    apply h.reqClock cq qm'
    rw [hq] at hqm ⊢
    simp only [List.tail_cons, List.mem_append, List.mem_cons] at hqm ⊢
    tauto

end Ops

omit [DecidableEq ι] in
/-- **A message is always found.**  With the bookkeeping, `build_and_send_command` never finds
    `ready_bytes` above zero with no ready message to take. -/
theorem QueueInv.highestPriority_ne_none {sq : Serialqueue ι} (h : QueueInv sq)
    (h0 : sq.readyBytes ≠ 0) : highestPriority sq ≠ none := by
  -- the ready bytes lie on some pending queue
  obtain ⟨q, hq, hne⟩ : ∃ q ∈ sq.pendingQueues, (sq.cqs q).readyQueue ≠ [] := by
    by_contra hall
    simp only [not_exists, not_and, ne_eq, not_not] at hall
    apply h0
    rw [h.readyBytes, Serialqueue.readyTotal, List.sum_eq_zero]
    · rfl
    · intro x hx
      obtain ⟨q, hq, rfl⟩ := List.mem_map.mp hx
      rw [hall q hq]
      rfl
  obtain ⟨qm, rest, hr⟩ := List.exists_cons_of_ne_nil hne
  exact highestPriority_ne_none_of_mem hq hr (h.reqClock q qm (by simp [hr]))

/-- With the bookkeeping the loop of `build_and_send_command` runs to its end. -/
theorem QueueInv.buildLoop_isSome {sq : Serialqueue ι} (h : QueueInv sq) (len : Nat) :
    (buildLoop sq len).isSome := by
  induction sq, len using buildLoop.induct with
  | case1 sq len h0 =>
    rw [buildLoop_of_readyBytes_eq_zero h0]
    rfl
  | case2 sq len h0 hn => exact absurd hn (h.highestPriority_ne_none h0)
  | case3 sq len h0 cq qm hp hf =>
    rw [buildLoop_of_full h0 hp hf]
    rfl
  | case4 sq len h0 cq qm hp hf ih =>
    rw [buildLoop_of_take h0 hp hf, Option.isSome_map]
    exact ih (h.take hp)

/-! ## The system -/

/-- The scheduling state, with every message batched to each command queue (after
    `serialqueue_send_batch` fixed its `min_clock`) and the messages of every block built. -/
structure Machine (ι : Type) where
  sq : Serialqueue ι
  batched : ι → List QueueMessage
  blocks : List (List (ι × QueueMessage))

/-- The messages placed in blocks, in order, with their command queues. -/
def Machine.placed (m : Machine ι) : List (ι × QueueMessage) := m.blocks.flatten

/-- What the host's threads do to the serialqueue: a batch for a command queue, the promotion of
    `check_send_command` for some expected MCU clock, or a block. -/
inductive Act (ι : Type)
  | sendBatch (cq : ι) (msgs : List QueueMessage)
  | checkSend (ackClock : UInt64)
  | buildSend

/-- One action; the block fails only where the C would dereference a null message. -/
def Machine.step (m : Machine ι) : Act ι → Option (Machine ι)
  | .sendBatch cq msgs =>
    some ⟨serialqueueSendBatch m.sq cq msgs,
      Function.update m.batched cq (m.batched cq ++ msgs.map fixMinClock), m.blocks⟩
  | .checkSend a => some { m with sq := checkSendCommand a m.sq }
  | .buildSend => (buildAndSendCommand m.sq).map fun r => ⟨r.1, m.batched, m.blocks ++ [r.2]⟩

/-- A new serialqueue. -/
def Machine.init : Machine ι := ⟨serialqueueAlloc, fun _ => [], []⟩

/-- What the host's code promises about the messages it queues: every message has bytes (an
    encoded command begins with its id) and a `req_clock` below `MAX_CLOCK` (a clock, or
    `BACKGROUND_PRIORITY_CLOCK`). -/
def Machine.HostOk : Machine ι → Act ι → Prop
  | _, .sendBatch _ msgs => ∀ qm ∈ msgs, 0 < qm.len ∧ qm.reqClock < maxClock
  | _, _ => True

instance Machine.decHostOk (m : Machine ι) : (a : Act ι) → Decidable (m.HostOk a)
  | .sendBatch _ msgs =>
    inferInstanceAs (Decidable (∀ qm ∈ msgs, 0 < qm.len ∧ qm.reqClock < maxClock))
  | .checkSend _ => inferInstanceAs (Decidable True)
  | .buildSend => inferInstanceAs (Decidable True)

/-- `n` is `qm` waiting on `notify_queue`: only `req_clock`, now the block's sequence number,
    differs. -/
def Notified (n qm : QueueMessage) : Prop := n = { qm with reqClock := n.reqClock }

/-- The placed messages with a `notify_id`, in order. -/
def notifies (log : List (ι × QueueMessage)) : List QueueMessage :=
  (log.map Prod.snd).filter fun qm => qm.notifyId != 0

/-- The invariant of the system: the bookkeeping, `notify_queue` holding the placed messages
    with a `notify_id`, and `sent_queue` the framed blocks under their sequence numbers. -/
structure Machine.Inv (m : Machine ι) : Prop where
  queues : QueueInv m.sq
  notify : List.Forall₂ Notified m.sq.notifyQueue (notifies m.placed)
  sent : m.sq.sentQueue = m.blocks.mapIdx fun k b => fillBlock (UInt64.ofNat (k + 1)) (payload b)
  sendSeq : m.sq.sendSeq = UInt64.ofNat (m.blocks.length + 1)

section Steps

variable {m m' : Machine ι}

omit [DecidableEq ι] in
theorem Machine.inv_init : (Machine.init : Machine ι).Inv :=
  ⟨⟨List.nodup_nil, fun q => by simp [Machine.init, serialqueueAlloc, serialqueueAllocCommandqueue],
    rfl, rfl, fun q qm hqm => by simp [Machine.init, serialqueueAlloc,
      serialqueueAllocCommandqueue] at hqm⟩, .nil, rfl, rfl⟩

/-- A take appends the message to `notify_queue` exactly when it has a `notify_id`. -/
theorem notified_take {sq : Serialqueue ι} {cq : ι} {qm : QueueMessage}
    {log : List (ι × QueueMessage)} (h : List.Forall₂ Notified sq.notifyQueue (notifies log)) :
    List.Forall₂ Notified (takeMessage sq cq qm).notifyQueue (notifies (log ++ [(cq, qm)])) := by
  rw [takeMessage_notifyQueue]
  by_cases hn : qm.notifyId = 0
  · simpa [notifies, hn] using h
  · rw [if_pos hn]
    have : notifies (log ++ [(cq, qm)]) = notifies log ++ [qm] := by simp [notifies, hn]
    rw [this]
    exact List.rel_append h (.cons rfl .nil)

/-- **Building a block keeps the invariant.** -/
theorem Machine.Inv.buildSend (hm : m.Inv) {r : Serialqueue ι × List (ι × QueueMessage)}
    (hr : buildAndSendCommand m.sq = some r) : Machine.Inv ⟨r.1, m.batched, m.blocks ++ [r.2]⟩ := by
  unfold buildAndSendCommand at hr
  split at hr
  · cases hr
  rename_i sq' taken hl
  cases hr
  -- what the loop keeps, by the loop rule
  have hq := buildLoop_rule (fun sq _ => QueueInv sq) (fun _ _ _ _ hp h => h.take hp) hl []
    hm.queues
  have hn := buildLoop_rule (fun sq log => List.Forall₂ Notified sq.notifyQueue (notifies log))
    (fun _ _ _ _ _ h => notified_take h) hl m.placed hm.notify
  have hs := buildLoop_rule (fun sq _ => sq.sendSeq = m.sq.sendSeq ∧ sq.sentQueue = m.sq.sentQueue)
    (fun _ _ _ _ _ h => h) hl [] ⟨rfl, rfl⟩
  dsimp only at hq hn hs
  refine ⟨⟨hq.nodup, hq.pending, hq.readyBytes, hq.upcomingBytes, hq.reqClock⟩, ?_, ?_, ?_⟩
  · show List.Forall₂ Notified sq'.notifyQueue (notifies (m.blocks ++ [taken]).flatten)
    rw [List.flatten_append, List.flatten_singleton]
    exact hn
  · show sq'.sentQueue ++ [fillBlock sq'.sendSeq (payload taken)] = _
    rw [hs.1, hs.2, hm.sent, hm.sendSeq, List.mapIdx_append]
    simp
  · show sq'.sendSeq + 1 = _
    rw [hs.1, hm.sendSeq]
    simp

/-- **One action keeps the invariant**, for every action the host's promises allow. -/
theorem Machine.Inv.step {a : Act ι} (hm : m.Inv) (hok : m.HostOk a)
    (hs : m.step a = some m') : m'.Inv := by
  cases a with
  | sendBatch cq msgs =>
    cases hs
    refine ⟨hm.queues.sendBatch fun qm hqm => (hok qm hqm).2, ?_, ?_, ?_⟩
    all_goals
      by_cases hz : bytesOf (msgs.map fixMinClock) = 0
      · rw [serialqueueSendBatch_of_bytesOf_eq_zero hz]
        first | exact hm.notify | exact hm.sent | exact hm.sendSeq
      · rw [serialqueueSendBatch_of_bytesOf_ne_zero hz]
        first | exact hm.notify | exact hm.sent | exact hm.sendSeq
  | checkSend a =>
    cases hs
    obtain ⟨hn, hq, hsent⟩ := checkSendCommand_fields a m.sq
    refine ⟨hm.queues.checkSend a, ?_, ?_, ?_⟩
    · rw [show (checkSendCommand a m.sq).notifyQueue = _ from hn]
      exact hm.notify
    · rw [show (checkSendCommand a m.sq).sentQueue = _ from hsent]
      exact hm.sent
    · rw [show (checkSendCommand a m.sq).sendSeq = _ from hq]
      exact hm.sendSeq
  | buildSend =>
    obtain ⟨r, hr, rfl⟩ := Option.map_eq_some_iff.mp hs
    exact hm.buildSend hr

end Steps

/-! ## Per-queue order: the refinement of a first-in first-out merge -/

section Order

/-- What a command queue holds, in sending order: its ready messages, then its upcoming ones. -/
def held (sq : Serialqueue ι) (q : ι) : List QueueMessage :=
  (sq.cqs q).readyQueue ++ (sq.cqs q).upcomingQueue

/-- The merge that the system is: each command queue a source, the placed messages the log. -/
def Machine.toMerge (m : Machine ι) : FifoMerge.State ι QueueMessage :=
  ⟨held m.sq, m.placed, m.batched⟩

theorem held_promoteQueue (a : UInt64) (sq : Serialqueue ι) (cq : ι) :
    held (promoteQueue a sq cq) = held sq := by
  funext q
  by_cases hq : q = cq
  · subst hq
    simp [held, ← promoted_append a (sq.cqs q)]
  · simp [held, Function.update_of_ne hq]

/-- Promotion moves no message out of its place in the sending order. -/
theorem held_checkSendCommand (a : UInt64) (sq : Serialqueue ι) :
    held (checkSendCommand a sq) = held sq := by
  unfold checkSendCommand
  induction sq.pendingQueues generalizing sq with
  | nil => rfl
  | cons q l ih => exact (ih _).trans (held_promoteQueue a sq q)

/-- A take of the highest priority message is a `take` of the merge. -/
theorem merge_take {sq : Serialqueue ι} {cq : ι} {qm : QueueMessage}
    (hp : highestPriority sq = some (cq, qm)) (log : List (ι × QueueMessage))
    (given : ι → List QueueMessage) :
    FifoMerge.Step ⟨held sq, log, given⟩ ⟨held (takeMessage sq cq qm), log ++ [(cq, qm)], given⟩ := by
  obtain ⟨-, rest, hq⟩ := highestPriority_spec hp
  have hheld : held (takeMessage sq cq qm) =
      Function.update (held sq) cq (rest ++ (sq.cqs cq).upcomingQueue) := by
    funext q
    by_cases hqc : q = cq
    · subst hqc
      simp [held, hq]
    · simp [held, Function.update_of_ne hqc]
  rw [hheld]
  exact .take _ cq qm _ (by simp [held, hq])

/-- A batch of a message with no bytes is empty. -/
theorem eq_nil_of_bytesOf_eq_zero {msgs : List QueueMessage} (hok : ∀ qm ∈ msgs, 0 < qm.len)
    (hz : bytesOf (msgs.map fixMinClock) = 0) : msgs = [] := by
  cases msgs with
  | nil => rfl
  | cons qm rest =>
    have := (hok qm List.mem_cons_self)
    simp [bytesOf] at hz
    omega

/-- **Each action is a run of the merge**: a batch a `give` (or nothing, for an empty batch),
    promotion nothing, a block one `take` per message placed. -/
theorem Machine.toMerge_step {m m' : Machine ι} {a : Act ι} (hok : m.HostOk a)
    (hs : m.step a = some m') : Relation.ReflTransGen FifoMerge.Step m.toMerge m'.toMerge := by
  cases a with
  | sendBatch cq msgs =>
    cases hs
    by_cases hz : bytesOf (msgs.map fixMinClock) = 0
    · -- the host's messages have bytes, so this batch is empty
      have hnil := eq_nil_of_bytesOf_eq_zero (fun qm hqm => (hok qm hqm).1) hz
      subst hnil
      simp only [Machine.toMerge, serialqueueSendBatch_of_bytesOf_eq_zero hz, List.map_nil,
        List.append_nil, Function.update_eq_self]
      exact .refl
    · refine .single ?_
      have hheld : held (serialqueueSendBatch m.sq cq msgs) =
          Function.update (held m.sq) cq (held m.sq cq ++ msgs.map fixMinClock) := by
        funext q
        rw [serialqueueSendBatch_of_bytesOf_ne_zero hz]
        by_cases hq : q = cq
        · subst hq
          simp [held]
        · simp [held, Function.update_of_ne hq]
      simp only [Machine.toMerge, hheld]
      exact .give _ cq _
  | checkSend a =>
    cases hs
    simp only [Machine.toMerge, held_checkSendCommand]
    exact .refl
  | buildSend =>
    obtain ⟨r, hr, rfl⟩ := Option.map_eq_some_iff.mp hs
    unfold buildAndSendCommand at hr
    split at hr
    · cases hr
    rename_i sq' taken hl
    cases hr
    -- by the loop rule, with the merge's log as what was placed so far
    have hrun := buildLoop_rule
      (fun sq log => Relation.ReflTransGen FifoMerge.Step m.toMerge ⟨held sq, log, m.batched⟩)
      (fun _ _ _ _ hp h => h.tail (merge_take hp _ _)) hl m.placed .refl
    show Relation.ReflTransGen FifoMerge.Step m.toMerge
      ⟨held sq', (m.blocks ++ [taken]).flatten, m.batched⟩
    rw [List.flatten_append, List.flatten_singleton]
    exact hrun

end Order

/-! ## Runs -/

section Runs

/-- What the scheduling guarantees in a state. -/
structure Machine.Scheduled (m : Machine ι) : Prop where
  /-- per command queue, the placed messages and those still queued are those batched, in
      order -/
  order : ∀ q, proj q m.placed ++ (m.sq.cqs q).readyQueue ++ (m.sq.cqs q).upcomingQueue =
    m.batched q
  notify : List.Forall₂ Notified m.sq.notifyQueue (notifies m.placed)
  sent : m.sq.sentQueue = m.blocks.mapIdx fun k b => fillBlock (UInt64.ofNat (k + 1)) (payload b)
  readyBytes : m.sq.readyBytes = m.sq.readyTotal
  upcomingBytes : m.sq.upcomingBytes = m.sq.upcomingTotal
  nodup : m.sq.pendingQueues.Nodup
  pending : ∀ q, q ∈ m.sq.pendingQueues ↔
    (m.sq.cqs q).readyQueue ≠ [] ∨ (m.sq.cqs q).upcomingQueue ≠ []
  build : (buildAndSendCommand m.sq).isSome

variable {m : Machine ι}

/-- **The run lemma.**  Every state of every run the host's promises allow has the
    invariant. -/
theorem Machine.inv_of_reachable
    (h : Transition.Reachable (· = Machine.init) (Transition.ofStepIf Machine.HostOk Machine.step) m) :
    m.Inv :=
  Transition.Reachable.inv (fun _ hi => hi ▸ Machine.inv_init)
    (fun _ _ hm ⟨_, hok, hs⟩ => hm.step hok hs) h

/-- **The runs are runs of the merge**, so every reachable state keeps its promise. -/
theorem Machine.fifo_of_reachable
    (h : Transition.Reachable (· = Machine.init) (Transition.ofStepIf Machine.HostOk Machine.step) m) :
    m.toMerge.Fifo := by
  apply FifoMerge.fifo_of_reachable
  refine Transition.Reachable.map Machine.toMerge (fun _ hi => ?_)
    (fun _ _ _ ⟨_, hok, hs⟩ => Machine.toMerge_step hok hs) h
  subst hi
  rfl

theorem serialqueue_scheduling
    (h : Transition.Reachable (· = Machine.init) (Transition.ofStepIf Machine.HostOk Machine.step) m) :
    m.Scheduled := by
  have hi := Machine.inv_of_reachable h
  have hf := Machine.fifo_of_reachable h
  refine ⟨fun q => ?_, hi.notify, hi.sent, hi.queues.readyBytes, hi.queues.upcomingBytes,
    hi.queues.nodup, hi.queues.pending, ?_⟩
  · rw [List.append_assoc]
    exact hf q
  · rw [buildAndSendCommand_isSome]
    exact hi.queues.buildLoop_isSome _

/-- Two command queues: one batch of two messages, the second with a `notify_id`, then one of a
    message that may not leave before clock 5000; a promotion at 1000, a block, a promotion at
    6000, a block, and a last batch that stays upcoming.  The blocks take the messages by
    `req_clock` across the queues, the notified message waits on `notify_queue` under its block's
    sequence number, and the late batch is still queued. -/
theorem serialqueue_scheduling_twoQueues :
    let m := (Transition.runIf Machine.HostOk Machine.step (Machine.init : Machine Bool)
      [.sendBatch true [⟨[1, 2, 3], 0, 100, 0⟩, ⟨[4, 5], 0, 200, 7⟩],
        .sendBatch false [⟨[6, 7, 8, 9], 5000, 5200, 0⟩], .checkSend 1000, .buildSend,
        .checkSend 6000, .buildSend, .sendBatch true [⟨[10], 9000, 9100, 0⟩]]).getD Machine.init
    m.Scheduled ∧ m.blocks.map (·.map fun p => (p.1, p.2.reqClock)) =
        [[(true, 100), (true, 200)], [(false, 5200)]] ∧
      m.sq.notifyQueue.map (fun qm => (qm.notifyId, qm.reqClock)) = [(7, 1)] ∧
      (m.sq.cqs true).upcomingQueue.length = 1 := by
  intro m
  have hs : (Transition.runIf Machine.HostOk Machine.step (Machine.init : Machine Bool)
      [.sendBatch true [⟨[1, 2, 3], 0, 100, 0⟩, ⟨[4, 5], 0, 200, 7⟩],
        .sendBatch false [⟨[6, 7, 8, 9], 5000, 5200, 0⟩], .checkSend 1000, .buildSend,
        .checkSend 6000, .buildSend, .sendBatch true [⟨[10], 9000, 9100, 0⟩]]).isSome = true := by
    decide +kernel
  obtain ⟨x, hx⟩ := Option.isSome_iff_exists.mp hs
  have hm : m = x := by simp only [m, hx, Option.getD_some]
  rw [← hm] at hx
  refine ⟨serialqueue_scheduling (Transition.Reachable.runIf (.init rfl) _ hx), ?_, ?_, ?_⟩ <;>
    decide +kernel

end Runs

end Klipper.SerialQueue
