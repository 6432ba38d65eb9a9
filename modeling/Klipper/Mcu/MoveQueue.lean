import Mathlib.Data.List.FinRange
import Mathlib.Data.List.Pairwise
import Klipper.Lib.LinkedList

/-
  The move queue of `src/basecmd.c` and the handlers that share its slots.

  After `command_finalize_config` the firmware owns `move_count` slots, each a
  `struct move_node` at the head of a `stepper_move`, `digital_move` or `pwm_move`.  A slot is
  on the free list `move_free_list`, or on one object's `move_queue_head` (a FIFO with `first`
  and `last` pointers), or held by the code between `move_alloc` and `move_queue_push`.  Both
  kinds of list are intrusive: they are threaded through the `next` fields of the slots
  themselves, so the model keeps a heap `next : Fin N → Option (Fin N)` and the pointers into it.

  Commands run one at a time from the main loop, but a command's `move_alloc` and the
  `irq_disable` section where it queues the slot are two steps: timer events (a stepper
  running out of steps and loading its next move, a digital or pwm output applying its next
  update, a homing trigger stopping a stepper) may run between them.  A shutdown runs every
  shutdown handler: the queues are cleared and `move_reset` rebuilds the free list.  Events
  that the model does not time (a stepper's step events, the `max_duration` checks) may happen
  at any point, and every shutdown that does not come from the pool is the separate
  `shutdown` action, which the model allows at any point.

  The invariant (`Mcu.Inv`) relates the heap to lists: the free pointer and each queue's first
  pointer start chains (`LinkedList.Chain`), each nonempty queue's last pointer is its tail,
  and the chains together with the running command's slot are a permutation of all slots.
  Each primitive operation moves one slot between two of these places (`Places.parts_*`), and
  each handler is a short sequence of them.
-/

namespace Klipper.MoveQueue

open LinkedList

variable {N k : Nat}

/-! ## The pool -/

/-- `struct move_queue_head` -/
structure MoveQueueHead (N : Nat) where
  first : Option (Fin N)
  last : Option (Fin N)
deriving DecidableEq, Repr

/-- The `move_count` slots of `move_list`: the `next` field of each slot's `struct move_node`
    and `move_free_list`. -/
structure MovePool (N : Nat) where
  next : Fin N → Option (Fin N)
  moveFreeList : Option (Fin N)

/-- `move_free(m)` -/
def moveFree (p : MovePool N) (m : Fin N) : MovePool N :=
  ⟨Function.update p.next m p.moveFreeList, some m⟩

/-- `move_alloc()`; `none` is the shutdown "Move queue overflow". -/
def moveAlloc (p : MovePool N) : Option (Fin N × MovePool N) :=
  p.moveFreeList.map fun mf => (mf, ⟨p.next, p.next mf⟩)

/-- `move_queue_push(m, mh)`: the slot is cleared and linked after the last one, or becomes the
    whole queue; the flag says that the queue was empty. -/
def moveQueuePush (p : MovePool N) (m : Fin N) (mh : MoveQueueHead N) :
    MovePool N × MoveQueueHead N × Bool :=
  let next := Function.update p.next m none
  match mh.first, mh.last with
  | some _, some last => (⟨Function.update next last (some m), p.moveFreeList⟩, ⟨mh.first, some m⟩, false)
  -- a queue with a first slot and no last one is never built (the C code would write through null)
  | some _, none => (⟨next, p.moveFreeList⟩, ⟨mh.first, some m⟩, false)
  | none, _ => (⟨next, p.moveFreeList⟩, ⟨some m, some m⟩, true)

/-- `move_queue_pop(mh)`; `none` on an empty queue, which its callers rule out first. -/
def moveQueuePop (p : MovePool N) (mh : MoveQueueHead N) : Option (Fin N × MoveQueueHead N) :=
  mh.first.map fun mn => (mn, { mh with first := p.next mn })

/-- `move_queue_clear(mh)`: only `first` is reset. -/
def moveQueueClear (mh : MoveQueueHead N) : MoveQueueHead N := { mh with first := none }

/-- `move_reset()`: every slot on the free list, in order. -/
def moveReset (p : MovePool N) : MovePool N :=
  if h : 0 < N then ⟨linkedArray N, some ⟨0, h⟩⟩ else p

/-! ## The users of the pool -/

/-- `SF_INVERT_STEP` -/
def sfInvertStep : UInt8 := (1 : UInt8) <<< 2
/-- `SF_NEED_RESET` -/
def sfNeedReset : UInt8 := (1 : UInt8) <<< 3
/-- `SF_SINGLE_SCHED` -/
def sfSingleSched : UInt8 := (1 : UInt8) <<< 4
/-- `SF_OPTIMIZED_PATH` -/
def sfOptimizedPath : UInt8 := (1 : UInt8) <<< 5

/-- Each object that owns a move queue, with the fields its handlers branch on: a stepper's
    remaining event `count` and its `flags` (the direction bits, which never reach the pool,
    are left out); the digital and hardware pwm outputs branch only on their queue. -/
inductive MoveUser
  | stepper (count : UInt32) (flags : UInt8)
  | digitalOut
  | pwmOut
deriving DecidableEq, Repr

/-- A command that has taken a slot with `move_alloc` and not yet queued it. -/
inductive Running (N k : Nat)
  | queueStep (oid : Fin k) (m : Fin N)
  | queueDigitalOut (oid : Fin k) (m : Fin N)
  | queuePwmOut (oid : Fin k) (m : Fin N)
deriving DecidableEq, Repr

/-- The slot a running command holds. -/
def Running.slot : Running N k → Fin N
  | .queueStep _ m | .queueDigitalOut _ m | .queuePwmOut _ m => m

/-- The firmware state the move queue lives in: the pool, each object's queue head and fields,
    the `count` of the `stepper_move` in each slot, and the running command. -/
structure Mcu (N k : Nat) where
  pool : MovePool N
  mq : Fin k → MoveQueueHead N
  users : Fin k → MoveUser
  moveCount : Fin N → UInt16
  running : Option (Running N k)

/-- The main loop's commands that use the queue. -/
inductive MoveCmd (k : Nat)
  | queueStep (oid : Fin k) (count : UInt16)
  | queueDigitalOut (oid : Fin k)
  | queuePwmOut (oid : Fin k)
  | resetStepClock (oid : Fin k)
deriving DecidableEq, Repr

/-- What can happen next: the main loop starts a command, the running command reaches its
    `irq_disable` section, a timer event runs, or the firmware shuts down. -/
inductive MoveAct (k : Nat)
  | command (c : MoveCmd k)
  | finish
  | stepperEvent (oid : Fin k)
  | stepperStop (oid : Fin k)
  | digitalLoadEvent (oid : Fin k)
  | pwmEvent (oid : Fin k)
  | shutdown
deriving DecidableEq, Repr

/-- The flags `stepper_stop` keeps, with `SF_NEED_RESET` set. -/
def stopFlags (flags : UInt8) : UInt8 :=
  (flags &&& (sfInvertStep ||| sfSingleSched ||| sfOptimizedPath)) ||| sfNeedReset

/-- The shutdown handlers.  `stepper_shutdown`, `digital_out_shutdown` and `pwm_shutdown` clear
    every queue (`stepper_stop` then finds the stepper's queue empty and stops it) and
    `move_reset` puts every slot on the free list; in either order of the handlers the result
    is the same.  A command that held a slot is abandoned. -/
def mcuShutdown (s : Mcu N k) : Mcu N k :=
  { s with pool := moveReset s.pool, mq := fun i => moveQueueClear (s.mq i), running := none,
           users := fun i => match s.users i with
             | .stepper _ flags => .stepper 0 (stopFlags flags)
             | u => u }

/-- `move_queue_push` of slot `m` onto the queue of `oid`. -/
def pushMove (s : Mcu N k) (oid : Fin k) (m : Fin N) : Mcu N k :=
  let r := moveQueuePush s.pool m (s.mq oid)
  { s with pool := r.1, mq := Function.update s.mq oid r.2.1 }

/-- `move_queue_pop` from the queue of `oid` followed by `move_free`; `none` on an empty queue. -/
def popFree (s : Mcu N k) (oid : Fin k) : Option (Mcu N k) :=
  (moveQueuePop s.pool (s.mq oid)).map fun r =>
    { s with pool := moveFree s.pool r.1, mq := Function.update s.mq oid r.2 }

/-- `stepper_load_next(s)`: the next move's slot is freed and its steps loaded, or the stepper
    stops with `count = 0`. -/
def stepperLoadNext (s : Mcu N k) (oid : Fin k) (flags : UInt8) : Mcu N k :=
  match (s.mq oid).first with
  | none => { s with users := Function.update s.users oid (.stepper 0 flags) }
  | some mn =>
    let c := (s.moveCount mn).toUInt32
    let count := if flags &&& (sfOptimizedPath ||| sfSingleSched) ≠ 0 then c else c * 2
    match popFree s oid with
    | some s => { s with users := Function.update s.users oid (.stepper count flags) }
    | none => s

/-- The loop of `stepper_stop`: pop every move and free its slot.  Each round frees a slot, so
    `move_count` rounds suffice. -/
def drainQueue (s : Mcu N k) (oid : Fin k) : Nat → Mcu N k
  | 0 => s
  | fuel + 1 =>
    match popFree s oid with
    | some s => drainQueue s oid fuel
    | none => s

/-- `stepper_stop`: drop every queued move and stop the stepper until `reset_step_clock`. -/
def stepperStop (s : Mcu N k) (oid : Fin k) (flags : UInt8) : Mcu N k :=
  let s := drainQueue s oid N
  { s with users := Function.update s.users oid (.stepper 0 (stopFlags flags)) }

/-- `move_alloc` for a command that then holds the slot. -/
def allocRunning (s : Mcu N k) (r : Fin N → Running N k) : Mcu N k :=
  match moveAlloc s.pool with
  | none => mcuShutdown s
  | some (m, pool) => { s with pool := pool, running := some (r m) }

/-- The part of each command before its `irq_disable` section.  `oid_lookup` of the wrong kind
    of object is the shutdown "Invalid oid type"; `command_queue_step` allocates its slot before
    it checks the count, so on a zero count the slot is lost until `move_reset`. -/
def startCommand (s : Mcu N k) : MoveCmd k → Mcu N k
  | .queueStep oid count =>
    match s.users oid with
    | .stepper _ _ =>
      match moveAlloc s.pool with
      | none => mcuShutdown s
      | some (m, pool) =>
        if count = 0 then mcuShutdown { s with pool := pool }
        else { s with pool := pool, moveCount := Function.update s.moveCount m count,
                      running := some (.queueStep oid m) }
    | _ => mcuShutdown s
  | .queueDigitalOut oid =>
    match s.users oid with
    | .digitalOut => allocRunning s (.queueDigitalOut oid)
    | _ => mcuShutdown s
  | .queuePwmOut oid =>
    match s.users oid with
    | .pwmOut => allocRunning s (.queuePwmOut oid)
    | _ => mcuShutdown s
  | .resetStepClock oid =>
    match s.users oid with
    | .stepper count flags =>
      if count ≠ 0 then mcuShutdown s
      else { s with users := Function.update s.users oid (.stepper count (flags &&& ~~~sfNeedReset)) }
    | _ => mcuShutdown s

/-- The `irq_disable` section of the running command.  `command_queue_step` queues the move
    behind a running stepper, frees it while the stepper waits for `reset_step_clock`, and
    otherwise queues it and loads it at once. -/
def finishCommand (s : Mcu N k) : Running N k → Mcu N k
  | .queueStep oid m =>
    let s := { s with running := none }
    match s.users oid with
    | .stepper count flags =>
      if count ≠ 0 then pushMove s oid m
      else if flags &&& sfNeedReset ≠ 0 then { s with pool := moveFree s.pool m }
      else stepperLoadNext (pushMove s oid m) oid flags
    -- not reached: `startCommand` checked the kind of `oid`, and no step changes a kind
    | _ => pushMove s oid m
  | .queueDigitalOut oid m => pushMove { s with running := none } oid m
  | .queuePwmOut oid m => pushMove { s with running := none } oid m

/-- One step of the firmware; `none` when the action cannot happen in this state: a command
    while another runs, a finish with none running, an event of the wrong kind of object, a
    step event of a stepper that is not moving, or `pwm_event` with nothing queued (it is only
    scheduled behind a queued update). -/
def mcuStep (s : Mcu N k) : MoveAct k → Option (Mcu N k)
  | .command c => if s.running.isSome then none else some (startCommand s c)
  | .finish => s.running.map (finishCommand s)
  | .stepperEvent oid =>
    match s.users oid with
    | .stepper count flags =>
      if count = 0 then none
      else if count - 1 ≠ 0 then some { s with users := Function.update s.users oid (.stepper (count - 1) flags) }
      else some (stepperLoadNext s oid flags)
    | _ => none
  | .stepperStop oid =>
    match s.users oid with
    | .stepper _ flags => some (stepperStop s oid flags)
    | _ => none
  | .digitalLoadEvent oid =>
    match s.users oid with
    -- "Missed scheduling of next digital out event"
    | .digitalOut => some ((popFree s oid).getD (mcuShutdown s))
    | _ => none
  | .pwmEvent oid =>
    match s.users oid with
    | .pwmOut => popFree s oid
    | _ => none
  | .shutdown => some (mcuShutdown s)

/-- A run of actions, each of which must be able to happen. -/
def mcuRun (s : Mcu N k) (acts : List (MoveAct k)) : Option (Mcu N k) :=
  acts.foldlM mcuStep s

/-- The state after `command_finalize_config`: every object configured with `move_queue_setup`
    (an empty queue) and `move_finalize`'s `move_reset`. -/
def mcuFinalize (users : Fin k → MoveUser) : Mcu N k :=
  ⟨moveReset ⟨fun _ => none, none⟩, fun _ => ⟨none, none⟩, users, fun _ => 0, none⟩

/-! ## The list operations on chains -/

section Spec

variable {p : MovePool N} {mh : MoveQueueHead N} {q : List (Fin N)}

/-- `move_queue_push` appends the slot to the chain of its queue, makes it the tail, and writes
    the `next` field of no slot but the pushed one and the old tail. -/
theorem moveQueuePush_spec (hq : Chain p.next mh.first q) (hlast : q ≠ [] → mh.last = q.getLast?)
    (hnd : q.Nodup) {m : Fin N} (hm : m ∉ q) :
    Chain (moveQueuePush p m mh).1.next (moveQueuePush p m mh).2.1.first (q ++ [m]) ∧
      (moveQueuePush p m mh).2.1.last = some m ∧
      (moveQueuePush p m mh).1.moveFreeList = p.moveFreeList ∧
      ∀ x, x ∉ q → x ≠ m → (moveQueuePush p m mh).1.next x = p.next x := by
  obtain ⟨first, last⟩ := mh
  cases first with
  | none =>
    -- an empty queue: the slot becomes the whole queue
    obtain rfl : q = [] := Chain.none_iff.mp hq
    refine ⟨.cons ?_, rfl, rfl, fun x _ hxm => Function.update_of_ne hxm _ _⟩
    simp only [moveQueuePush, Function.update_self]
    exact .nil
  | some f =>
    -- a nonempty queue: its tail pointer is the chain's last slot
    have hne : q ≠ [] := by rintro rfl; cases hq
    obtain ⟨ys, l, rfl⟩ : ∃ ys l, q = ys ++ [l] := ⟨q.dropLast, q.getLast hne, (List.dropLast_append_getLast hne).symm⟩
    have hl : last = some l := by simpa using hlast hne
    subst hl
    refine ⟨?_, rfl, rfl, fun x hx hxm => ?_⟩
    · simpa [moveQueuePush] using hq.snoc hnd hm
    · have hxl : x ≠ l := fun e => hx (by simp [e])
      simp only [moveQueuePush, Function.update_of_ne hxl, Function.update_of_ne hxm]

/-- `move_queue_pop` takes the head off the chain and writes nothing. -/
theorem moveQueuePop_spec (hq : Chain p.next mh.first q) {x : Fin N} {mh' : MoveQueueHead N}
    (hp : moveQueuePop p mh = some (x, mh')) :
    ∃ rest, q = x :: rest ∧ Chain p.next mh'.first rest ∧ mh'.last = mh.last := by
  simp only [moveQueuePop, Option.map_eq_some_iff, Prod.mk.injEq] at hp
  obtain ⟨mn, hf, rfl, rfl⟩ := hp
  rw [hf] at hq
  obtain ⟨rest, rfl, hrest⟩ := Chain.some_iff.mp hq
  exact ⟨rest, rfl, hrest, rfl⟩

end Spec

/-! ## Where the slots are -/

/-- The lists the pointers stand for: the free list and each object's queue. -/
structure Places (N k : Nat) where
  free : List (Fin N)
  queues : Fin k → List (Fin N)

/-- Every slot's place in one list: the free list, the running command's slot, then the queues
    in `oid` order. -/
def Places.parts (a : Places N k) (held : Option (Fin N)) : List (Fin N) :=
  a.free ++ held.toList ++ (List.finRange k).flatMap a.queues

namespace Places

variable (a : Places N k)

theorem flatMap_update_finRange (q : Fin k → List (Fin N)) (i : Fin k) (v : List (Fin N)) :
    ((List.finRange k).flatMap (Function.update q i v) ++ q i).Perm
      ((List.finRange k).flatMap q ++ v) :=
  flatMap_update_perm (List.nodup_finRange k) (List.mem_finRange i) q v

/-- `move_alloc` and `move_free` of a held slot move it between the free list and the running
    command. -/
theorem parts_hold (free : List (Fin N)) (q : Fin k → List (Fin N)) (m : Fin N) :
    (Places.parts ⟨free, q⟩ (some m)).Perm (Places.parts ⟨m :: free, q⟩ none) := by
  simp only [parts, Option.toList_some, Option.toList_none, List.append_nil, List.cons_append,
    List.append_assoc]
  exact List.perm_middle

/-- `move_queue_pop` and `move_free` move the head of a queue to the free list. -/
theorem parts_popFree {i : Fin k} {x : Fin N} {rest : List (Fin N)} (h : a.queues i = x :: rest)
    (held : Option (Fin N)) :
    (Places.parts ⟨x :: a.free, Function.update a.queues i rest⟩ held).Perm (a.parts held) := by
  have hq := flatMap_update_finRange a.queues i rest
  rw [h, ← List.singleton_append, ← List.append_assoc, List.perm_append_right_iff] at hq
  simp only [parts, List.cons_append, List.append_assoc]
  calc (x :: (a.free ++ (held.toList ++ (List.finRange k).flatMap (Function.update a.queues i rest)))).Perm
        (a.free ++ (held.toList ++ (List.finRange k).flatMap (Function.update a.queues i rest)) ++ [x]) :=
        (List.perm_append_singleton x _).symm
    _ = a.free ++ (held.toList ++ ((List.finRange k).flatMap (Function.update a.queues i rest) ++ [x])) := by
        simp only [List.append_assoc]
    List.Perm _ (a.free ++ (held.toList ++ (List.finRange k).flatMap a.queues)) :=
        (hq.append_left _).append_left _

/-- `move_queue_push` moves the running command's slot to the tail of a queue. -/
theorem parts_push (i : Fin k) (m : Fin N) :
    (Places.parts ⟨a.free, Function.update a.queues i (a.queues i ++ [m])⟩ none).Perm
      (a.parts (some m)) := by
  have hq := flatMap_update_finRange a.queues i (a.queues i ++ [m])
  have hF : ((List.finRange k).flatMap (Function.update a.queues i (a.queues i ++ [m]))).Perm
      ((List.finRange k).flatMap a.queues ++ [m]) := by
    refine (List.perm_append_right_iff _).mp (hq.trans ?_)
    rw [List.append_assoc]
    exact (List.perm_append_comm).append_left _
  simp only [parts, Option.toList_some, Option.toList_none, List.append_nil, List.append_assoc]
  exact (hF.trans List.perm_append_comm).append_left _

/-! Everything the nodup of the places gives. -/

theorem mem_flatMap_queues {a : Places N k} {x : Fin N} {i : Fin k} (hx : x ∈ a.queues i) :
    x ∈ (List.finRange k).flatMap a.queues :=
  List.mem_flatMap.mpr ⟨i, List.mem_finRange i, hx⟩

section Nodup

variable {a} {held : Option (Fin N)} (hnd : (a.parts held).Nodup)
include hnd

theorem not_mem_free_of_mem_queue {x : Fin N} {i : Fin k} (hx : x ∈ a.queues i) : x ∉ a.free := by
  intro hf
  have hnd' := (List.nodup_append.mp hnd).2.2
  exact hnd' x (List.mem_append_left _ hf) x (mem_flatMap_queues hx) rfl

theorem nodup_queue (i : Fin k) : (a.queues i).Nodup :=
  (List.nodup_flatMap.mp (List.nodup_append.mp hnd).2.1).1 i (List.mem_finRange i)

theorem eq_of_mem_queue {x : Fin N} {i j : Fin k} (hi : x ∈ a.queues i) (hj : x ∈ a.queues j) :
    i = j := by
  by_contra hij
  have hpw := (List.nodup_flatMap.mp (List.nodup_append.mp hnd).2.1).2
  exact @List.Pairwise.forall _ _ _ ⟨fun _ _ h => List.disjoint_comm.mp h⟩ hpw i (List.mem_finRange i) j
    (List.mem_finRange j) hij x hi hj

theorem held_not_mem_free {m : Fin N} (hm : held = some m) : m ∉ a.free := by
  subst hm
  intro hf
  exact (List.nodup_append.mp (List.nodup_append.mp hnd).1).2.2 m hf m (by simp) rfl

theorem held_not_mem_queue {m : Fin N} (hm : held = some m) (i : Fin k) : m ∉ a.queues i := by
  subst hm
  intro hq
  exact (List.nodup_append.mp hnd).2.2 m (by simp) m (mem_flatMap_queues hq) rfl

end Nodup

end Places

/-! ## The invariant -/

/-- The pool invariant: the free pointer and each queue's first pointer start chains through the
    `next` fields, each nonempty queue's last pointer is its tail, and the chains and the running
    command's slot hold every slot exactly once. -/
structure Mcu.Inv (s : Mcu N k) (a : Places N k) : Prop where
  free : Chain s.pool.next s.pool.moveFreeList a.free
  queue : ∀ i, Chain s.pool.next (s.mq i).first (a.queues i)
  last : ∀ i, a.queues i ≠ [] → (s.mq i).last = (a.queues i).getLast?
  perm : (a.parts (s.running.map Running.slot)).Perm (List.finRange N)

namespace Mcu.Inv

variable {s : Mcu N k} {a : Places N k}

theorem nodup (h : s.Inv a) : (a.parts (s.running.map Running.slot)).Nodup :=
  h.perm.nodup_iff.mpr (List.nodup_finRange N)

/-- Handlers change the objects' own fields without touching the pool. -/
theorem setUsers (h : s.Inv a) (u : Fin k → MoveUser) : Mcu.Inv { s with users := u } a :=
  ⟨h.free, h.queue, h.last, h.perm⟩

theorem setMoveCount (h : s.Inv a) (c : Fin N → UInt16) : Mcu.Inv { s with moveCount := c } a :=
  ⟨h.free, h.queue, h.last, h.perm⟩

/-- `move_reset` with every queue cleared and no command running puts every slot on the free
    list, whatever the pool held before. -/
theorem of_reset (s : Mcu N k) (p : MovePool N) (hp : s.pool = moveReset p)
    (hq : ∀ i, (s.mq i).first = none) (hr : s.running = none) :
    s.Inv ⟨List.finRange N, fun _ => []⟩ := by
  refine ⟨?_, fun i => by rw [hq i]; exact .nil, fun i h => absurd rfl h, ?_⟩
  · rw [hp, moveReset]
    split
    · exact chain_linkedArray N ‹_›
    · -- no slots: the free pointer can only be null
      have hN : N = 0 := by omega
      subst hN
      cases hf : p.moveFreeList with
      | none => exact .nil
      | some x => exact x.elim0
  · have hnil : (List.finRange k).flatMap (fun _ => ([] : List (Fin N))) = [] :=
      List.flatMap_eq_nil_iff.mpr fun _ _ => rfl
    simp [Places.parts, hr, hnil]

/-- `move_alloc` by a command: the head of the free list becomes the running command's slot. -/
theorem alloc (h : s.Inv a) (hr : s.running = none) {m : Fin N} {pool : MovePool N}
    (ha : moveAlloc s.pool = some (m, pool)) (r : Running N k) (hrm : r.slot = m) :
    ∃ rest, a.free = m :: rest ∧ Mcu.Inv { s with pool := pool, running := some r } ⟨rest, a.queues⟩ := by
  obtain ⟨free, queues⟩ := a
  simp only [moveAlloc, Option.map_eq_some_iff, Prod.mk.injEq] at ha
  obtain ⟨mf, hf, rfl, rfl⟩ := ha
  have hfree := h.free
  rw [hf] at hfree
  obtain ⟨rest, rfl, hchain⟩ := Chain.some_iff.mp hfree
  refine ⟨rest, rfl, hchain, h.queue, h.last, ?_⟩
  have hperm := h.perm
  rw [hr, Option.map_none] at hperm
  simpa [hrm] using (Places.parts_hold rest queues mf).trans hperm

/-- `move_free` of the running command's slot. -/
theorem freeHeld (h : s.Inv a) {r : Running N k} (hr : s.running = some r) :
    Mcu.Inv { s with pool := moveFree s.pool r.slot, running := none } ⟨r.slot :: a.free, a.queues⟩ := by
  have hnd := h.nodup
  have hheld : s.running.map Running.slot = some r.slot := by rw [hr]; rfl
  rw [hheld] at hnd
  refine ⟨?_, fun i => (h.queue i).update_of_not_mem (Places.held_not_mem_queue hnd rfl i), h.last, ?_⟩
  · refine .cons ?_
    simp only [moveFree, Function.update_self]
    exact h.free.update_of_not_mem (Places.held_not_mem_free hnd rfl)
  · have hperm := h.perm
    rw [hheld] at hperm
    exact (Places.parts_hold a.free a.queues r.slot).symm.trans hperm

/-- `move_queue_push` of the running command's slot onto the queue of `oid`. -/
theorem push (h : s.Inv a) {r : Running N k} (hr : s.running = some r) (oid : Fin k) :
    (pushMove { s with running := none } oid r.slot).Inv
      ⟨a.free, Function.update a.queues oid (a.queues oid ++ [r.slot])⟩ := by
  have hheld : s.running.map Running.slot = some r.slot := by rw [hr]; rfl
  have hnd := h.nodup
  have hperm := h.perm
  rw [hheld] at hnd hperm
  obtain ⟨hchain, hlast, hfree, hframe⟩ := moveQueuePush_spec (h.queue oid) (h.last oid)
    (Places.nodup_queue hnd oid) (Places.held_not_mem_queue hnd rfl oid)
  refine ⟨?_, fun i => ?_, fun i => ?_, (Places.parts_push a oid r.slot).trans hperm⟩
  · -- the free list holds neither the pushed slot nor the old tail
    simp only [pushMove, hfree]
    exact h.free.congr fun x hx => hframe x (fun hq => Places.not_mem_free_of_mem_queue hnd hq hx)
      (fun e => Places.held_not_mem_free hnd rfl (e ▸ hx))
  · by_cases hi : i = oid
    · subst hi
      simpa [pushMove] using hchain
    · simp only [pushMove, Function.update_of_ne hi]
      exact (h.queue i).congr fun x hx => hframe x (fun hq => hi (Places.eq_of_mem_queue hnd hx hq))
        (fun e => Places.held_not_mem_queue hnd rfl i (e ▸ hx))
  · by_cases hi : i = oid
    · subst hi
      intro _
      simp [pushMove, hlast]
    · simp only [pushMove, Function.update_of_ne hi]
      exact h.last i

/-- `move_queue_pop` of the head of `oid`'s queue and its `move_free`. -/
theorem pop (h : s.Inv a) {oid : Fin k} {s' : Mcu N k} (hp : popFree s oid = some s') :
    ∃ a', s'.Inv a' := by
  simp only [popFree, Option.map_eq_some_iff] at hp
  obtain ⟨⟨x, mh'⟩, hpop, rfl⟩ := hp
  obtain ⟨rest, hq, hrest, hlast⟩ := moveQueuePop_spec (h.queue oid) hpop
  have hnd := h.nodup
  have hxq : x ∈ a.queues oid := by simp [hq]
  have hxrest : x ∉ rest := by
    have hndq := Places.nodup_queue hnd oid
    rw [hq] at hndq
    exact (List.nodup_cons.mp hndq).1
  refine ⟨⟨x :: a.free, Function.update a.queues oid rest⟩, ?_, fun i => ?_, fun i => ?_,
    (Places.parts_popFree a hq _).trans h.perm⟩
  · refine .cons ?_
    simpa [moveFree] using h.free.update_of_not_mem (Places.not_mem_free_of_mem_queue hnd hxq)
  · by_cases hi : i = oid
    · subst hi
      simpa [moveFree] using hrest.update_of_not_mem hxrest
    · simp only [moveFree, Function.update_of_ne hi]
      exact (h.queue i).update_of_not_mem (fun hx => hi (Places.eq_of_mem_queue hnd hx hxq))
  · by_cases hi : i = oid
    · subst hi
      -- the tail pointer stays, and the queue's tail is still its last slot
      obtain _ | ⟨y, t⟩ := rest
      · simp
      · intro _
        simp only [Function.update_self, hlast]
        rw [h.last i (by simp [hq]), hq, List.getLast?_cons_cons]
    · simp only [Function.update_of_ne hi]
      exact h.last i

/-- The shutdown handlers leave every slot on the free list. -/
theorem shutdown (s : Mcu N k) : (mcuShutdown s).Inv ⟨List.finRange N, fun _ => []⟩ :=
  of_reset _ s.pool rfl (fun _ => rfl) rfl

theorem loadNext (h : s.Inv a) (oid : Fin k) (flags : UInt8) :
    ∃ a', (stepperLoadNext s oid flags).Inv a' := by
  unfold stepperLoadNext
  split
  · exact ⟨a, h.setUsers _⟩
  · cases hp : popFree s oid with
    | none => exact ⟨a, h⟩
    | some s' =>
      obtain ⟨a', h'⟩ := h.pop hp
      exact ⟨a', h'.setUsers _⟩

/-- The loop of `stepper_stop`, by induction on its rounds. -/
theorem drain (h : s.Inv a) (oid : Fin k) (fuel : Nat) : ∃ a', (drainQueue s oid fuel).Inv a' := by
  induction fuel generalizing s a with
  | zero => exact ⟨a, h⟩
  | succ fuel ih =>
    unfold drainQueue
    cases hp : popFree s oid with
    | none => exact ⟨a, h⟩
    | some s' =>
      obtain ⟨a', h'⟩ := h.pop hp
      exact ih h'

theorem allocRunning (h : s.Inv a) (hr : s.running = none) (r : Fin N → Running N k)
    (hslot : ∀ m, (r m).slot = m) : ∃ a', (MoveQueue.allocRunning s r).Inv a' := by
  unfold MoveQueue.allocRunning
  cases ha : moveAlloc s.pool with
  | none => exact ⟨_, shutdown s⟩
  | some mp =>
    obtain ⟨rest, -, h'⟩ := h.alloc hr ha (r mp.1) (hslot mp.1)
    exact ⟨_, h'⟩

/-- The first part of every command. -/
theorem start (h : s.Inv a) (hr : s.running = none) (c : MoveCmd k) :
    ∃ a', (startCommand s c).Inv a' := by
  cases c with
  | queueStep oid count =>
    simp only [startCommand]
    split
    · cases ha : moveAlloc s.pool with
      | none => exact ⟨_, shutdown s⟩
      | some mp =>
        simp only
        split
        · exact ⟨_, shutdown _⟩
        · obtain ⟨rest, -, h'⟩ := h.alloc hr ha (.queueStep oid mp.1) rfl
          exact ⟨_, h'.setMoveCount _⟩
    · exact ⟨_, shutdown s⟩
  | queueDigitalOut oid =>
    simp only [startCommand]
    split
    · exact h.allocRunning hr _ fun _ => rfl
    · exact ⟨_, shutdown s⟩
  | queuePwmOut oid =>
    simp only [startCommand]
    split
    · exact h.allocRunning hr _ fun _ => rfl
    · exact ⟨_, shutdown s⟩
  | resetStepClock oid =>
    simp only [startCommand]
    split
    · split
      · exact ⟨_, shutdown s⟩
      · exact ⟨a, h.setUsers _⟩
    · exact ⟨_, shutdown s⟩

/-- The `irq_disable` section of the running command. -/
theorem finish (h : s.Inv a) {r : Running N k} (hr : s.running = some r) :
    ∃ a', (finishCommand s r).Inv a' := by
  cases r with
  | queueStep oid m =>
    have hpush := h.push hr oid
    simp only [finishCommand]
    split
    · split
      · exact ⟨_, hpush⟩
      · split
        · exact ⟨_, h.freeHeld hr⟩
        · exact hpush.loadNext oid _
    · exact ⟨_, hpush⟩
  | queueDigitalOut oid m => exact ⟨_, h.push hr oid⟩
  | queuePwmOut oid m => exact ⟨_, h.push hr oid⟩

/-- **Step lemma.**  Every step keeps every slot in exactly one place. -/
theorem step (h : s.Inv a) {act : MoveAct k} {s' : Mcu N k} (hs : mcuStep s act = some s') :
    ∃ a', s'.Inv a' := by
  cases act with
  | command c =>
    simp only [mcuStep] at hs
    split at hs
    · cases hs
    · cases hs
      exact h.start (Option.not_isSome_iff_eq_none.mp ‹_›) c
  | finish =>
    simp only [mcuStep, Option.map_eq_some_iff] at hs
    obtain ⟨r, hr, rfl⟩ := hs
    exact h.finish hr
  | stepperEvent oid =>
    simp only [mcuStep] at hs
    split at hs
    · split at hs
      · cases hs
      · split at hs
        · cases hs
          exact ⟨a, h.setUsers _⟩
        · cases hs
          exact h.loadNext oid _
    · cases hs
  | stepperStop oid =>
    simp only [mcuStep] at hs
    split at hs
    · cases hs
      obtain ⟨a', h'⟩ := h.drain oid N
      exact ⟨a', h'.setUsers _⟩
    · cases hs
  | digitalLoadEvent oid =>
    simp only [mcuStep] at hs
    split at hs
    · cases hs
      cases hp : popFree s oid with
      | none => exact ⟨_, shutdown s⟩
      | some s'' => exact h.pop hp
    · cases hs
  | pwmEvent oid =>
    simp only [mcuStep] at hs
    split at hs
    · exact h.pop hs
    · cases hs
  | shutdown =>
    simp only [mcuStep, Option.some.injEq] at hs
    subst hs
    exact ⟨_, shutdown s⟩

/-- **Run lemma.** -/
theorem run (h : s.Inv a) {acts : List (MoveAct k)} {s' : Mcu N k} (hs : mcuRun s acts = some s') :
    ∃ a', s'.Inv a' := by
  induction acts generalizing s a with
  | nil =>
    simp only [mcuRun, List.foldlM_nil, Option.pure_def, Option.some.injEq] at hs
    exact ⟨a, hs ▸ h⟩
  | cons act acts ih =>
    simp only [mcuRun, List.foldlM_cons, Option.bind_eq_bind, Option.bind_eq_some_iff] at hs
    obtain ⟨s1, h1, hrest⟩ := hs
    obtain ⟨a1, ha1⟩ := h.step h1
    exact ih ha1 hrest

end Mcu.Inv

/-! ## Conservation of the slots -/

/-- **Every slot is in exactly one place.**  After `command_finalize_config`, over every run of
    commands, timer events and shutdowns in any interleaving, the free pointer and each queue's
    first pointer start chains through the slots' `next` fields, and these chains with the
    running command's slot hold each of the `move_count` slots exactly once.  So no slot is on
    the free list and on a queue at once, none is on two queues, and the free list and the
    queues together hold at most `move_count` slots. -/
theorem move_pool_conservation (users : Fin k → MoveUser) (acts : List (MoveAct k)) {s : Mcu N k}
    (hrun : mcuRun (mcuFinalize users) acts = some s) :
    ∃ (free : List (Fin N)) (queues : Fin k → List (Fin N)),
      Chain s.pool.next s.pool.moveFreeList free ∧
      (∀ i, Chain s.pool.next (s.mq i).first (queues i)) ∧
      (free ++ (s.running.map Running.slot).toList ++ (List.finRange k).flatMap queues).Perm
        (List.finRange N) ∧
      (∀ x ∈ free, ∀ i, x ∉ queues i) ∧
      (∀ x i j, x ∈ queues i → x ∈ queues j → i = j) ∧
      (free ++ (List.finRange k).flatMap queues).length ≤ N := by
  obtain ⟨a, h⟩ := (Mcu.Inv.of_reset (mcuFinalize users) _ rfl (fun _ => rfl) rfl).run hrun
  have hnd := h.nodup
  refine ⟨a.free, a.queues, h.free, h.queue, h.perm,
    fun x hx i hq => Places.not_mem_free_of_mem_queue hnd hq hx,
    fun x i j hi hj => Places.eq_of_mem_queue hnd hi hj, ?_⟩
  -- the places list all `N` slots, the running command's among them
  have hlen := h.perm.length_eq
  simp only [Places.parts, List.length_append, List.length_finRange] at hlen
  simp only [List.length_append]
  omega

/-- A homing stop between a pwm command's `move_alloc` and its push, then a `queue_step` to the
    stopped stepper, whose slot `command_queue_step` frees at once. -/
theorem move_pool_conservation_stop_between :
    ∃ s : Mcu 2 2,
      mcuRun (mcuFinalize fun i => if i = 0 then .stepper 0 0 else .pwmOut)
        [.command (.queuePwmOut 1), .stepperStop 0, .finish, .command (.queueStep 0 3), .finish,
          .pwmEvent 1] = some s ∧
      ∃ (free : List (Fin 2)) (queues : Fin 2 → List (Fin 2)),
        Chain s.pool.next s.pool.moveFreeList free ∧
        (∀ i, Chain s.pool.next (s.mq i).first (queues i)) ∧
        (free ++ (s.running.map Running.slot).toList ++ (List.finRange 2).flatMap queues).Perm
          (List.finRange 2) ∧
        (∀ x ∈ free, ∀ i, x ∉ queues i) ∧
        (∀ x i j, x ∈ queues i → x ∈ queues j → i = j) ∧
        (free ++ (List.finRange 2).flatMap queues).length ≤ 2 :=
  ⟨_, rfl, move_pool_conservation (fun i => if i = 0 then .stepper 0 0 else .pwmOut)
    [.command (.queuePwmOut 1), .stepperStop 0, .finish, .command (.queueStep 0 3), .finish,
      .pwmEvent 1] rfl⟩

end Klipper.MoveQueue
