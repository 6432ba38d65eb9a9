import Mathlib
import Klipper.Lib.BinaryHeap
import Klipper.Host.SerialQueue

/-
  The move-queue clocks of `steppersync` (`klippy/chelper/stepcompress.c`).

  The MCU has `num_move_clocks` slots for queued moves.  `move_clocks` holds, for each slot, the
  clock at which it becomes free, kept as an array min-heap.  `steppersync_flush` sends the
  pending commands in `req_clock` order; a command that takes a slot (its `min_clock` is
  nonzero, and holds the clock its move ends) is sent no earlier than the root `move_clocks[0]`,
  and `heap_replace` puts its end clock in place of the root.

  What the heap is for is the multiset of slot clocks with `takeSlot`: the earliest slot is
  taken and replaced by the new end clock.  `heapReplace_spec` shows that `heap_replace` keeps a
  min-heap and does exactly that to its multiset, from any min-heap with at least one slot
  (`steppersync_move_clocks` from the zeros of `steppersync_alloc`).  With no slot at all,
  `heap_replace` writes `move_clocks[0]` outside the array (`heapReplace_nil`).  The ordering
  loop of `steppersync_flush` is written once over the store of slot clocks, and the heap run
  refines the run over the multiset (`steppersyncFlushLoop_refines`).
-/

namespace Klipper.StepperSync

open SerialQueue BinaryHeap

/-- `uint64_t` clocks compare as their values. -/
local instance uint64LinearOrder : LinearOrder UInt64 where
  le := (· ≤ ·)
  lt := (· < ·)
  le_refl := UInt64.le_refl
  le_trans _ _ _ := UInt64.le_trans
  le_antisymm _ _ := UInt64.le_antisymm
  le_total := UInt64.le_total
  lt_iff_le_not_ge _ _ := by
    rw [UInt64.not_le]
    exact ⟨fun h => ⟨UInt64.le_of_lt h, h⟩, fun h => h.2⟩
  toDecidableLE := inferInstance
  toDecidableEq := inferInstance
  toDecidableLT := inferInstance

/-- `UINT64_MAX` -/
def uint64Max : UInt64 := 0xffffffffffffffff

/-- `UINT64_MAX` is above every clock. -/
local instance uint64OrderTop : OrderTop UInt64 where
  top := uint64Max
  le_top a := by
    rw [UInt64.le_iff_toNat_le]
    have := a.toNat_lt
    simp only [uint64Max, UInt64.reduceToNat]
    omega

/-! ## `heap_replace` -/

/-- `mc[pos] = clock`, defined only inside the array. -/
def storeClock (pos : Nat) (clock : UInt64) (mc : List UInt64) : Option (List UInt64) :=
  if pos < mc.length then some (mc.set pos clock) else none

/-- The loop of `heap_replace(ss, req_clock)` from `pos`, over `mc = ss->move_clocks` (its length
    is `num_move_clocks`).  A child past the end reads as `UINT64_MAX`.  Each round moves `pos`
    down a level, so the array's length is enough fuel. -/
def heapReplaceLoop (reqClock : UInt64) : Nat → Nat → List UInt64 → Option (List UInt64)
  | 0, _, _ => none
  | fuel + 1, pos, mc =>
    let child1Pos := 2 * pos + 1
    let child2Pos := 2 * pos + 2
    let child2Clock := mc.getD child2Pos uint64Max
    let child1Clock := mc.getD child1Pos uint64Max
    if reqClock ≤ child1Clock ∧ reqClock ≤ child2Clock then storeClock pos reqClock mc
    else if child1Clock < child2Clock then
      (storeClock pos child1Clock mc).bind (heapReplaceLoop reqClock fuel child1Pos)
    else (storeClock pos child2Clock mc).bind (heapReplaceLoop reqClock fuel child2Pos)

/-- `heap_replace(ss, req_clock)` -/
def heapReplace (mc : List UInt64) (reqClock : UInt64) : Option (List UInt64) :=
  heapReplaceLoop reqClock (mc.length + 1) 0 mc

/-- What the heap stands for: the earliest slot clock, and the slots after that slot is taken
    until `endClock`. -/
def takeSlot (slots : Multiset UInt64) (endClock : UInt64) : UInt64 × Multiset UInt64 :=
  (slots.inf, slots.erase slots.inf + {endClock})

theorem uint64Max_eq_top : uint64Max = ⊤ := rfl

/-- A child clock below some clock is a real entry of the array. -/
theorem lt_length_of_getD_lt {mc : List UInt64} {j : Nat} {x : UInt64}
    (h : mc.getD j ⊤ < x) : j < mc.length := by
  by_contra hj
  rw [List.getD_eq_default _ _ (Nat.le_of_not_lt hj)] at h
  exact absurd h (not_lt.mpr le_top)

/-- The children of `p` are `2p+1` and `2p+2`. -/
theorem child_cases {j p : Nat} (hj : 0 < j) (hp : (j - 1) / 2 = p) : j = 2 * p + 1 ∨ j = 2 * p + 2 := by
  omega

/-- **The loop.**  From a hole at `pos` in the array, enough fuel fills it: the result is a
    min-heap of the same length holding the old contents without the hole's element, plus
    `reqClock`. -/
theorem heapReplaceLoop_spec {reqClock : UInt64} {fuel pos : Nat} {mc : List UInt64}
    (o : HoleOrder mc pos reqClock) (hpos : pos < mc.length) (hfuel : mc.length ≤ pos + fuel) :
    ∃ mc', heapReplaceLoop reqClock fuel pos mc = some mc' ∧ IsMinHeap mc' ∧
      (mc' : Multiset UInt64) = (mc : Multiset UInt64).erase (mc.getD pos ⊤) + {reqClock} ∧
      mc'.length = mc.length := by
  induction fuel generalizing pos mc with
  | zero => omega
  | succ fuel ih =>
    rw [heapReplaceLoop]
    simp only [uint64Max_eq_top]
    have hstore : ∀ x, storeClock pos x mc = some (mc.set pos x) := fun x => if_pos hpos
    -- the child that moves up is below `reqClock`, so it is inside the array
    have hup : ∀ c, (c = 2 * pos + 1 ∨ c = 2 * pos + 2) →
        (∀ j, 0 < j → (j - 1) / 2 = pos → mc.getD c ⊤ ≤ mc.getD j ⊤) → mc.getD c ⊤ < reqClock →
        ∃ mc', ((storeClock pos (mc.getD c ⊤) mc).bind (heapReplaceLoop reqClock fuel c)) = some mc' ∧
          IsMinHeap mc' ∧
          (mc' : Multiset UInt64) = (mc : Multiset UInt64).erase (mc.getD pos ⊤) + {reqClock} ∧
          mc'.length = mc.length := by
      intro c hc hmin hlt
      have hcl : c < mc.length := lt_length_of_getD_lt hlt
      obtain ⟨mc', h', hheap, hset, hlen⟩ :=
        ih (o.move hpos hc hmin hlt) (by rw [List.length_set]; exact hcl)
          (by rw [List.length_set]; omega)
      refine ⟨mc', by rw [hstore, Option.bind_some, h'], hheap, ?_, by rw [hlen, List.length_set]⟩
      rw [hset, erase_hole_move hpos (by omega)]
    split_ifs with hfit hlt1
    · -- `reqClock` fits: it fills the hole
      refine ⟨mc.set pos reqClock, hstore _, o.finish hpos fun j hj hp => ?_, coe_set _ ⊤ hpos,
        List.length_set⟩
      rcases child_cases hj hp with rfl | rfl
      · exact hfit.1
      · exact hfit.2
    · -- the first child is the smaller one and moves up
      refine hup _ (.inl rfl) (fun j hj hp => ?_) ?_
      · rcases child_cases hj hp with rfl | rfl
        · exact le_rfl
        · exact le_of_lt hlt1
      · by_contra hge
        exact hfit ⟨not_lt.mp hge, (not_lt.mp hge).trans (le_of_lt hlt1)⟩
    · -- the second child is at or below the first and moves up
      refine hup _ (.inr rfl) (fun j hj hp => ?_) ?_
      · rcases child_cases hj hp with rfl | rfl
        · exact not_lt.mp hlt1
        · exact le_rfl
      · by_contra hge
        exact hfit ⟨(not_lt.mp hge).trans (not_lt.mp hlt1), not_lt.mp hge⟩

/-- **`heap_replace` on a min-heap.**  From a min-heap with at least one slot, the result is a
    min-heap of the same length whose contents are the old ones with one copy of the root
    replaced by `req_clock`: `takeSlot` on the multiset. -/
theorem heapReplace_spec {mc : List UInt64} (h : IsMinHeap mc) (hn : 0 < mc.length)
    (reqClock : UInt64) :
    ∃ mc', heapReplace mc reqClock = some mc' ∧ IsMinHeap mc' ∧
      (mc' : Multiset UInt64) = (mc : Multiset UInt64).erase (mc.getD 0 ⊤) + {reqClock} ∧
      mc'.length = mc.length :=
  heapReplaceLoop_spec (HoleOrder.start h reqClock) hn (by omega)

/-- With no slot, `heap_replace` writes `move_clocks[0]` outside the array. -/
theorem heapReplace_nil (reqClock : UInt64) : heapReplace [] reqClock = none := by
  simp [heapReplace, heapReplaceLoop, storeClock, uint64Max]

/-- The root of a nonempty min-heap is the least clock of its multiset. -/
theorem inf_eq_root {mc : List UInt64} (h : IsMinHeap mc) (hn : 0 < mc.length) :
    (mc : Multiset UInt64).inf = mc.getD 0 ⊤ := by
  apply le_antisymm
  · exact Multiset.inf_le (by
      rw [Multiset.mem_coe, List.getD_eq_getElem _ _ hn]
      exact List.getElem_mem hn)
  · exact Multiset.le_inf.mpr fun x hx => h.root_le_of_mem (Multiset.mem_coe.mp hx)

/-- `heap_replace` refines `takeSlot`: the root it replaces is the earliest slot clock. -/
theorem heapReplace_takeSlot {mc : List UInt64} (h : IsMinHeap mc) (hn : 0 < mc.length)
    (reqClock : UInt64) :
    ∃ mc', heapReplace mc reqClock = some mc' ∧ IsMinHeap mc' ∧ mc'.length = mc.length ∧
      takeSlot mc reqClock = (mc.getD 0 ⊤, (mc' : Multiset UInt64)) := by
  obtain ⟨mc', h', hheap, hset, hlen⟩ := heapReplace_spec h hn reqClock
  refine ⟨mc', h', hheap, hlen, ?_⟩
  rw [takeSlot, inf_eq_root h hn, hset]

/-- The clocks after a sequence of `heap_replace` calls; `none` once a call fails. -/
def heapRun (mc : List UInt64) (reqClocks : List UInt64) : Option (List UInt64) :=
  reqClocks.foldlM heapReplace mc

/-- The zeros of `steppersync_alloc(..., move_num)`. -/
def moveClocksAlloc (moveNum : Nat) : List UInt64 := List.replicate moveNum 0

/-- **Run lemma.**  Every run from a nonempty min-heap ends in a min-heap of the same length. -/
theorem heapRun_isMinHeap {mc : List UInt64} (h : IsMinHeap mc) (hn : 0 < mc.length)
    (reqClocks : List UInt64) :
    ∃ mc', heapRun mc reqClocks = some mc' ∧ IsMinHeap mc' ∧ mc'.length = mc.length := by
  induction reqClocks generalizing mc with
  | nil => exact ⟨mc, rfl, h, rfl⟩
  | cons r rs ih =>
    obtain ⟨mc1, h1, hheap1, -, hlen1⟩ := heapReplace_spec h hn r
    obtain ⟨mc', h', hheap', hlen'⟩ := ih hheap1 (by omega)
    refine ⟨mc', ?_, hheap', by rw [hlen', hlen1]⟩
    rw [heapRun, List.foldlM_cons, h1]
    exact h'

/-- **The move clocks of `steppersync`.**  From the `move_num ≥ 1` zeros of `steppersync_alloc`,
    after any sequence of `heap_replace` calls the clocks form a min-heap of `move_num` entries;
    the next call keeps one and replaces exactly one copy of the root by its `req_clock`; and the
    root that `steppersync_flush` reads is the least clock. -/
theorem steppersync_move_clocks (moveNum : Nat) (hn : 0 < moveNum) (reqClocks : List UInt64) :
    ∃ mc, heapRun (moveClocksAlloc moveNum) reqClocks = some mc ∧ IsMinHeap mc ∧
      mc.length = moveNum ∧ (∀ x ∈ mc, mc.getD 0 ⊤ ≤ x) ∧
      ∀ reqClock, ∃ mc', heapReplace mc reqClock = some mc' ∧ IsMinHeap mc' ∧
        (mc' : Multiset UInt64) = (mc : Multiset UInt64).erase (mc.getD 0 ⊤) + {reqClock} := by
  have hzero : IsMinHeap (moveClocksAlloc moveNum) := isMinHeap_replicate moveNum 0
  have hlen : (moveClocksAlloc moveNum).length = moveNum := List.length_replicate
  obtain ⟨mc, hrun, hheap, hlen'⟩ := heapRun_isMinHeap hzero (by omega) reqClocks
  refine ⟨mc, hrun, hheap, by rw [hlen', hlen], fun x hx => hheap.root_le_of_mem hx,
    fun reqClock => ?_⟩
  obtain ⟨mc', h', hheap', hset, -⟩ := heapReplace_spec hheap (by omega) reqClock
  exact ⟨mc', h', hheap', hset⟩

/-- With `move_num = 0` the first `heap_replace` writes `move_clocks[0]` outside the array of
    `steppersync_alloc`. -/
theorem steppersync_move_clocks_empty :
    heapRun (moveClocksAlloc 0) [100] = none := by
  rw [heapRun, moveClocksAlloc, List.replicate_zero, List.foldlM_cons, heapReplace_nil]
  rfl

theorem steppersync_move_clocks_three :
    0 < 3 ∧ ∃ mc, heapRun (moveClocksAlloc 3) [5, 2, 7] = some mc ∧ IsMinHeap mc ∧
      mc.length = 3 ∧ (∀ x ∈ mc, mc.getD 0 ⊤ ≤ x) ∧
      ∀ reqClock, ∃ mc', heapReplace mc reqClock = some mc' ∧ IsMinHeap mc' ∧
        (mc' : Multiset UInt64) = (mc : Multiset UInt64).erase (mc.getD 0 ⊤) + {reqClock} :=
  ⟨by decide, steppersync_move_clocks 3 (by decide) [5, 2, 7]⟩

/-! ## The ordering loop of `steppersync_flush` -/

/-- The search of `steppersync_flush` for the pending message with the lowest `req_clock` over the
    heads of the stepcompress message queues, from `MAX_CLOCK`: a head strictly earlier than the
    best so far replaces it. -/
def lowestMessage : List (List QueueMessage) → Nat → UInt64 × Option Nat → UInt64 × Option Nat
  | [], _, best => best
  | [] :: qs, i, best => lowestMessage qs (i + 1) best
  | (m :: _) :: qs, i, best =>
    lowestMessage qs (i + 1) (if m.reqClock < best.1 then (m.reqClock, some i) else best)

/-- The loop of `steppersync_flush` once each stepcompress is flushed, over a store `S` of slot
    clocks with its earliest clock `nextAvail` and `replace`.  It takes the message with the
    lowest `req_clock` until none is left or a message that takes a slot is after
    `move_clock`; a message that takes a slot replaces the earliest slot clock by its own
    `min_clock`; every message is batched with `min_clock` set to the earliest slot clock.  A
    failed read or write of the store fails the loop. -/
def flushLoop {S : Type} (nextAvail : S → Option UInt64) (replace : S → UInt64 → Option S)
    (moveClock : UInt64) : Nat → List (List QueueMessage) → S → List QueueMessage →
      Option (List (List QueueMessage) × S × List QueueMessage)
  | 0, _, _, _ => none
  | fuel + 1, queues, slots, msgs =>
    match lowestMessage queues 0 (maxClock, none) with
    | (_, none) => some (queues, slots, msgs)
    | (reqClock, some i) =>
      match queues.getD i [] with
      | [] => none
      | qm :: rest =>
        if qm.minClock ≠ 0 ∧ reqClock > moveClock then some (queues, slots, msgs)
        else do
          let next ← nextAvail slots
          let slots ← if qm.minClock ≠ 0 then replace slots qm.minClock else pure slots
          flushLoop nextAvail replace moveClock fuel (queues.set i rest) slots
            (msgs ++ [{ qm with minClock := next }])

/-- The loop of `steppersync_flush` over `ss->move_clocks`: `next_avail = ss->move_clocks[0]`,
    then `heap_replace`. -/
def steppersyncFlushLoop (moveClock : UInt64) (fuel : Nat) (queues : List (List QueueMessage))
    (moveClocks : List UInt64) : Option (List (List QueueMessage) × List UInt64 × List QueueMessage) :=
  flushLoop List.head? heapReplace moveClock fuel queues moveClocks []

/-- The same loop over the multiset of slot clocks, taking the earliest slot each time. -/
def slotFlushLoop (moveClock : UInt64) (fuel : Nat) (queues : List (List QueueMessage))
    (slots : Multiset UInt64) :
    Option (List (List QueueMessage) × Multiset UInt64 × List QueueMessage) :=
  flushLoop (fun s => if s = 0 then none else some s.inf) (fun s c => some (takeSlot s c).2)
    moveClock fuel queues slots []

/-- The first read of a nonempty heap is its root. -/
theorem head?_eq_root {mc : List UInt64} (hn : 0 < mc.length) : mc.head? = some (mc.getD 0 ⊤) := by
  cases mc with
  | nil => exact absurd hn (lt_irrefl 0)
  | cons x xs => rfl

/-- **Refinement.**  From a nonempty min-heap, the loop over `move_clocks` batches the same
    messages with the same `min_clock`s, leaves the same queues, and ends with the multiset of
    the loop over slot clocks. -/
theorem flushLoop_refines (moveClock : UInt64) (fuel : Nat) :
    ∀ (queues : List (List QueueMessage)) (mc : List UInt64) (msgs : List QueueMessage),
      IsMinHeap mc → 0 < mc.length →
      (flushLoop List.head? heapReplace moveClock fuel queues mc msgs).map
          (fun r => (r.1, (r.2.1 : Multiset UInt64), r.2.2)) =
        flushLoop (fun s => if s = 0 then none else some s.inf) (fun s c => some (takeSlot s c).2)
          moveClock fuel queues (mc : Multiset UInt64) msgs := by
  induction fuel with
  | zero => intro _ _ _ _ _; rfl
  | succ fuel ih =>
    intro queues mc msgs hheap hn
    -- both loops pick the same message and stop at the same place
    have hne : (mc : Multiset UInt64) ≠ 0 := by
      rw [Ne, Multiset.coe_eq_zero]
      exact List.ne_nil_of_length_pos hn
    have hnext : (if (mc : Multiset UInt64) = 0 then none else some (mc : Multiset UInt64).inf) =
        some (mc.getD 0 ⊤) := by
      rw [if_neg hne, inf_eq_root hheap hn]
    rw [flushLoop, flushLoop]
    -- both loops pick the same message and stop at the same place
    rcases lowestMessage queues 0 (maxClock, none) with ⟨reqClock, _ | i⟩
    · rfl
    · dsimp only
      rcases queues.getD i [] with _ | ⟨qm, rest⟩
      · rfl
      · dsimp only
        by_cases hstop : qm.minClock ≠ 0 ∧ reqClock > moveClock
        · rw [if_pos hstop, if_pos hstop]
          rfl
        rw [if_neg hstop, if_neg hstop, head?_eq_root hn, hnext]
        by_cases hslot : qm.minClock ≠ 0
        · -- a message that takes a slot: `heap_replace` is `takeSlot`
          obtain ⟨mc', h', hheap', hset, hlen⟩ := heapReplace_spec hheap hn qm.minClock
          have hslots : (takeSlot (mc : Multiset UInt64) qm.minClock).2 = mc' := by
            rw [takeSlot, inf_eq_root hheap hn, hset]
          simp only [if_pos hslot]
          rw [h', hslots]
          exact ih _ mc' _ hheap' (by omega)
        · simp only [if_neg hslot]
          exact ih _ mc _ hheap hn

/-- **`steppersync_flush` takes the earliest slot.**  The loop over a nonempty min-heap of move
    clocks refines the loop that gives each message the earliest slot clock. -/
theorem steppersyncFlushLoop_refines {mc : List UInt64} (hheap : IsMinHeap mc) (hn : 0 < mc.length)
    (moveClock : UInt64) (fuel : Nat) (queues : List (List QueueMessage)) :
    (steppersyncFlushLoop moveClock fuel queues mc).map
        (fun r => (r.1, (r.2.1 : Multiset UInt64), r.2.2)) =
      slotFlushLoop moveClock fuel queues mc :=
  flushLoop_refines moveClock fuel queues mc [] hheap hn

end Klipper.StepperSync
