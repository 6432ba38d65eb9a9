import Mathlib
import Klipper.Lib.LinkedList
import Klipper.Mcu.Sched

/-
  The timer list of `src/sched.c` as a data structure, in every reachable state.

  `schedAddTimer_late_unordered` shows that this fork's `sched_add_timer` can leave the timer
  list out of order.  What the scheduler does keep is the list itself:

  1. **Links** (`Links`): following `next` from `timer_list` visits distinct timers and reaches
     NULL, so the list has no cycle and no timer on it twice; it ends at `sentinel_timer`, holds
     `periodic_timer`, and holds `deleted_timer` only as its head.
  2. **Operations** (`Links.linkAfter`, `Links.unlinkAfter`, `Links.pushHead`, `Links.popHead`,
     `Links.replaceHead`, `Links.reset`): each pointer rewrite of `sched.c` is one list
     operation, which keeps the links.  They rest on the chain lemmas of `LinkedList`.
  3. **Walks** (`insertTimer_eq_some`, `delWalk_eq_some`): the walks of `insert_timer` and
     `sched_del_timer` stay on the list; a walk of `insert_timer` that starts at the timer
     being rescheduled, just taken off the head, leaves it at once.
  4. **Shape** (`SchedState.Shape`): the links, and `last_insert` on the list.  Every step of
     the scheduler keeps it (`Shape.step`), hence every reachable state has it
     (`sched_timer_list_shape`).

  The firmware's walks are unbounded and the model's follow at most `fuel` links.  With `ι`
  finite, a list of distinct timers has at most `|ι| + 3` of them (`length_le_card`), so for
  `fuel` at least that the model's `chain` is the whole list (`chain_eq_of_chain`), and the
  owners' promise `SchedOk` ("a timer is added only when it is not on the list") is a promise
  about the real list.
-/

namespace Klipper.Sched

open Function Transition LinkedList

variable {ι : Type}

/-! ## The links of the list -/

/-- The timer list from `head` under the `next` fields `next` is the list `L`: a chain of
    distinct timers that ends at `sentinel_timer`, holds `periodic_timer`, and holds
    `deleted_timer` only as its head. -/
structure Links (next : TimerId ι → Option (TimerId ι)) (head : TimerId ι)
    (L : List (TimerId ι)) : Prop where
  chain : Chain next (some head) L
  nodup : L.Nodup
  last : L.getLast? = some .sentinel
  periodic : .periodic ∈ L
  deleted : .deleted ∈ L → head = .deleted

namespace Links

variable {next : TimerId ι → Option (TimerId ι)} {head : TimerId ι} {L : List (TimerId ι)}

theorem eq_cons (hl : Links next head L) : L = head :: L.tail := by
  have h := hl.chain.eq_head?
  cases L with
  | nil => cases h
  | cons x T =>
    obtain rfl : head = x := Option.some_injective _ h
    rfl

theorem chain_tail (hl : Links next head L) : Chain next (next head) L.tail := by
  have h := hl.chain
  rw [hl.eq_cons] at h
  cases h with
  | cons hrest => exact hrest

/-- A timer on the list is followed by a timer on it after the head. -/
theorem next_mem_tail (hl : Links next head L) {x y : TimerId ι} (hx : x ∈ L)
    (hy : next x = some y) : y ∈ L.tail := by
  obtain ⟨A, B, hAB⟩ := List.append_of_mem hx
  have hB := (hAB ▸ hl.chain).of_append.eq_head?
  rw [hy] at hB
  have hyB : y ∈ B := List.mem_of_mem_head? hB.symm
  rw [hAB]
  cases A <;> simp [hyB]

/-- `sentinel_timer` ends the list: its `next` is NULL. -/
theorem next_sentinel (hl : Links next head L) : next .sentinel = none := by
  obtain ⟨A, hA⟩ := List.getLast?_eq_some_iff.mp hl.last
  have h := hl.chain
  rw [hA] at h
  exact h.of_append.eq_head?

theorem mem_iff (hl : Links next head L) {x : TimerId ι} : x ∈ L ↔ x = head ∨ x ∈ L.tail := by
  rw [← List.mem_cons, ← hl.eq_cons]

/-- A timer with a successor is not `sentinel_timer`. -/
theorem ne_sentinel_of_next (hl : Links next head L) {x y : TimerId ι} (h : next x = some y) :
    x ≠ .sentinel := by
  rintro rfl
  rw [hl.next_sentinel] at h
  cases h

theorem tail_ne_nil (hl : Links next head L) (hs : head ≠ .sentinel) : L.tail ≠ [] := by
  intro h
  have hlast := hl.last
  rw [hl.eq_cons, h] at hlast
  exact hs (Option.some_injective _ hlast)

/-- The list after the head ends where the list does. -/
theorem getLast?_tail (hl : Links next head L) (hs : head ≠ .sentinel) :
    L.tail.getLast? = some .sentinel := by
  obtain ⟨y, T, hT⟩ := List.exists_cons_of_ne_nil (hl.tail_ne_nil hs)
  have hlast := hl.last
  rw [hl.eq_cons, hT, List.getLast?_cons_cons] at hlast
  rw [hT]
  exact hlast

theorem mem_tail (hl : Links next head L) {x : TimerId ι} (hx : x ∈ L) (hne : x ≠ head) :
    x ∈ L.tail := by
  rw [hl.eq_cons, List.mem_cons] at hx
  exact hx.resolve_left hne

theorem deleted_not_mem_tail (hl : Links next head L) : .deleted ∉ L.tail := by
  intro hd
  have hnd := hl.nodup
  rw [hl.eq_cons] at hnd
  have hhead := hl.deleted (hl.eq_cons ▸ List.mem_cons_of_mem head hd)
  exact (List.nodup_cons.mp hnd).1 (hhead ▸ hd)

variable [DecidableEq ι]

/-- Two chains of fresh timers in front of a list: the shape the head branch of
    `sched_add_timer` builds, `deleted_timer` and then the added timer. -/
theorem cons_cons {q : Option (TimerId ι)} {R : List (TimerId ι)} (hR : Chain next q R)
    (hnd : R.Nodup) (hlast : R.getLast? = some .sentinel) (hp : .periodic ∈ R)
    (hd : .deleted ∉ R) {add : TimerId ι} (ha : add ∉ R) (had : add ≠ .deleted) :
    Links (update (update next add q) .deleted (some add)) .deleted (.deleted :: add :: R) where
  chain := by
    refine .cons ?_
    rw [update_self]
    refine .cons ?_
    rw [update_of_ne had, update_self]
    refine hR.congr fun x hx => ?_
    rw [update_of_ne (fun (e : x = .deleted) => hd (e ▸ hx)),
      update_of_ne (fun (e : x = add) => ha (e ▸ hx))]
  nodup := by
    refine List.nodup_cons.mpr ⟨?_, List.nodup_cons.mpr ⟨ha, hnd⟩⟩
    simp only [List.mem_cons, not_or]
    exact ⟨had.symm, hd⟩
  last := by
    obtain ⟨y, T, rfl⟩ := List.exists_cons_of_ne_nil (List.ne_nil_of_mem hp)
    simpa only [List.getLast?_cons_cons] using hlast
  periodic := List.mem_cons_of_mem _ (List.mem_cons_of_mem _ hp)
  deleted _ := rfl

/-- `sched_add_timer` when the added timer is due before the head: `deleted_timer` becomes the
    head, followed by the added timer and then the old list, from which a `deleted_timer` at its
    head is dropped. -/
theorem pushHead (hl : Links next head L) {add : TimerId ι} (ha : add ∉ L)
    (had : add ≠ .deleted) :
    Links (update (update next add (if head = .deleted then next .deleted else some head))
        .deleted (some add)) .deleted
      (.deleted :: add :: if head = .deleted then L.tail else L) := by
  by_cases hhd : head = .deleted
  · -- the old stand-in is reused: the added timer takes its place after it
    rw [if_pos hhd, if_pos hhd]
    have hs : head ≠ .sentinel := by rw [hhd]; simp
    have hp : .periodic ∈ L.tail := hl.mem_tail hl.periodic (by rw [hhd]; simp)
    refine cons_cons (hhd ▸ hl.chain_tail) (hl.nodup.sublist (List.tail_sublist L))
      (hl.getLast?_tail hs) hp hl.deleted_not_mem_tail
      (fun h => ha (List.mem_of_mem_tail h)) had
  · rw [if_neg hhd, if_neg hhd]
    exact cons_cons hl.chain hl.nodup hl.last hl.periodic (fun h => hhd (hl.deleted h)) ha had

omit [DecidableEq ι] in
/-- `sched_timer_dispatch` when the head is done: its successor becomes the head. -/
theorem popHead (hl : Links next head L) {tn : TimerId ι} (htn : next head = some tn)
    (hp : head ≠ .periodic) : Links next tn L.tail where
  chain := htn ▸ hl.chain_tail
  nodup := hl.nodup.sublist (List.tail_sublist L)
  last := hl.getLast?_tail (hl.ne_sentinel_of_next htn)
  periodic := hl.mem_tail hl.periodic fun e => hp e.symm
  deleted hd := absurd hd hl.deleted_not_mem_tail

/-- `sched_del_timer` of the head: `deleted_timer` stands in for it. -/
theorem replaceHead (hl : Links next head L) (hp : head ≠ .periodic) (hs : head ≠ .sentinel) :
    Links (update next .deleted (next head)) .deleted (.deleted :: L.tail) where
  chain := by
    refine .cons ?_
    rw [update_self]
    -- `deleted_timer` is not on the list, so the fields of the rest are as they were
    refine hl.chain_tail.congr fun x hx =>
      update_of_ne (fun (e : x = .deleted) => hl.deleted_not_mem_tail (e ▸ hx)) _ _
  nodup := List.nodup_cons.mpr ⟨hl.deleted_not_mem_tail, hl.nodup.sublist (List.tail_sublist L)⟩
  last := by
    obtain ⟨y, T, hT⟩ := List.exists_cons_of_ne_nil (hl.tail_ne_nil hs)
    have := hl.getLast?_tail hs
    rw [hT] at this ⊢
    simpa only [List.getLast?_cons_cons] using this
  periodic := List.mem_cons_of_mem _ (hl.mem_tail hl.periodic fun e => hp e.symm)
  deleted _ := rfl

/-- `insert_timer` links `t` in after the list's timer `p`, in front of `p`'s successor. -/
theorem linkAfter (hl : Links next head L) {p pos t : TimerId ι} (hp : p ∈ L)
    (hpos : next p = some pos) (ht : t ∉ L) (htd : t ≠ .deleted) :
    ∃ L', Links (update (update next t (some pos)) p (some t)) head L' ∧
      ∀ x, x ∈ L' ↔ x = t ∨ x ∈ L := by
  obtain ⟨L', hc, hnd, hlast, hmem⟩ := hl.chain.linkAfter hl.nodup hp hpos ht
  refine ⟨L', ⟨hc, hnd, hlast ▸ hl.last, (hmem _).mpr (.inr hl.periodic), ?_⟩, hmem⟩
  intro hd
  rcases (hmem _).mp hd with e | hd
  · exact absurd e.symm htd
  · exact hl.deleted hd

/-- `sched_timer_dispatch` when the head is rescheduled behind its successor `tn`: `tn` heads the
    list, and the old head is linked in again after the list's timer `p`. -/
theorem moveHead (hl : Links next head L) {tn p pos : TimerId ι} (htn : next head = some tn)
    (hp : p ∈ L.tail) (hpos : next p = some pos) (hd : head ≠ .deleted) :
    ∃ L', Links (update (update next head (some pos)) p (some head)) tn L' ∧
      ∀ x, x ∈ L' ↔ x ∈ L := by
  have hnd := hl.nodup
  rw [hl.eq_cons] at hnd
  obtain ⟨hhead, hndT⟩ := List.nodup_cons.mp hnd
  obtain ⟨L', hc, hnd', hlast, hmem⟩ := (htn ▸ hl.chain_tail).linkAfter hndT hp hpos hhead
  -- the old head comes back, so the list holds the same timers
  have hmem' : ∀ x, x ∈ L' ↔ x ∈ L := fun x => by rw [hmem, hl.mem_iff]
  refine ⟨L', ⟨hc, hnd', ?_, (hmem' _).mpr hl.periodic, ?_⟩, hmem'⟩
  · rw [hlast]
    exact hl.getLast?_tail (hl.ne_sentinel_of_next htn)
  · exact fun h => absurd (hl.deleted ((hmem' _).mp h)) hd

/-- `sched_del_timer` unlinks the timer `d` that follows the list's timer `p`. -/
theorem unlinkAfter (hl : Links next head L) {p d : TimerId ι} (hp : p ∈ L)
    (hd : next p = some d) (hds : d ≠ .sentinel) (hdp : d ≠ .periodic) :
    ∃ L', Links (update next p (next d)) head L' ∧ ∀ x, x ∈ L' ↔ x ∈ L ∧ x ≠ d := by
  obtain ⟨A, B, rfl⟩ := List.append_of_mem hp
  obtain ⟨C, rfl⟩ : ∃ C, B = d :: C := by
    have hB : B.head? = some d := by
      rw [← hd]
      exact hl.chain.of_append.eq_head?.symm
    cases B with
    | nil => cases hB
    | cons y C =>
      obtain rfl : y = d := Option.some_injective _ hB
      exact ⟨C, rfl⟩
  -- `d` occurs once, so it is on neither side of the unlinked list
  have hnd : (d :: ((A ++ [p]) ++ C)).Nodup := by
    have h := hl.nodup
    rw [show A ++ p :: d :: C = (A ++ [p]) ++ d :: C by simp] at h
    exact List.nodup_middle.mp h
  have hdL : d ∉ A ++ p :: C := by
    have := (List.nodup_cons.mp hnd).1
    simpa using this
  have hCne : C ≠ [] := by
    intro e
    have hlast := hl.last
    rw [e] at hlast
    simp only [List.getLast?_append, List.getLast?_cons_cons, List.getLast?_singleton] at hlast
    exact hds (by simpa using hlast)
  have hmem : ∀ x, x ∈ A ++ p :: C ↔ x ∈ A ++ p :: d :: C ∧ x ≠ d := by
    intro x
    constructor
    · intro hx
      refine ⟨?_, fun e => hdL (e ▸ hx)⟩
      simp only [List.mem_append, List.mem_cons] at hx ⊢
      tauto
    · rintro ⟨hx, hxd⟩
      simp only [List.mem_append, List.mem_cons] at hx ⊢
      tauto
  refine ⟨A ++ p :: C, ⟨hl.chain.unlinkAfter hl.nodup, ?_, ?_, ?_, ?_⟩, hmem⟩
  · have := (List.nodup_cons.mp hnd).2
    simpa using this
  · have hlast := hl.last
    rw [show A ++ p :: d :: C = (A ++ [p, d]) ++ C by simp,
      List.getLast?_append_of_ne_nil _ hCne] at hlast
    rw [show A ++ p :: C = (A ++ [p]) ++ C by simp, List.getLast?_append_of_ne_nil _ hCne]
    exact hlast
  · exact (hmem _).mpr ⟨hl.periodic, fun e => hdp e.symm⟩
  · exact fun h => hl.deleted ((hmem _).mp h).1

/-- `sched_timer_reset` leaves `deleted_timer`, `periodic_timer` and `sentinel_timer`. -/
theorem reset (hl : Links next head L) :
    Links (update (update next .deleted (some .periodic)) .periodic (some .sentinel)) .deleted
      [.deleted, .periodic, .sentinel] where
  chain := by
    have hdp : (TimerId.deleted : TimerId ι) ≠ .periodic := by simp
    have hsp : (TimerId.sentinel : TimerId ι) ≠ .periodic := by simp
    have hsd : (TimerId.sentinel : TimerId ι) ≠ .deleted := by simp
    refine .cons ?_
    rw [update_of_ne hdp, update_self]
    refine .cons ?_
    rw [update_self]
    refine .cons ?_
    rw [update_of_ne hsp, update_of_ne hsd, hl.next_sentinel]
    exact .nil
  nodup := by simp
  last := rfl
  periodic := by simp
  deleted _ := rfl

end Links

/-! ## The walks stay on the list -/

section Walks

variable [DecidableEq ι] {s s' : SchedState ι}

/-- The walk of `insert_timer(pos, t, waketime)` links `t` in after a timer `p` whose successor
    `t` is due before: `p` is the timer it started from, or one of a list `S` closed under
    `next` that holds the start's successor. -/
theorem insertTimer_eq_some {t : TimerId ι} {w : UInt32} {S : List (TimerId ι)}
    (hS : ∀ x ∈ S, ∀ y, s.next x = some y → y ∈ S) :
    ∀ {fuel : Nat} {prev : TimerId ι}, (∀ y, s.next prev = some y → y ∈ S) →
      insertTimer s fuel prev t w = some s' →
      ∃ p pos, (p = prev ∨ p ∈ S) ∧ s.next p = some pos ∧
        timerIsBefore w (s.waketime pos) = true ∧
        s' = { s with next := update (update s.next t (some pos)) p (some t) }
  | 0, _, _, h => by cases h
  | fuel + 1, prev, hprev, h => by
    rw [insertTimer] at h
    rcases hn : s.next prev with _ | pos
    · rw [hn] at h
      cases h
    rw [hn] at h
    dsimp only at h
    by_cases hb : timerIsBefore w (s.waketime pos) = true
    · rw [if_pos hb] at h
      exact ⟨prev, pos, .inl rfl, hn, hb, (Option.some_injective _ h).symm⟩
    · -- the walk moves on to `pos`, which is in `S`
      rw [if_neg hb] at h
      have hpos : pos ∈ S := hprev pos hn
      obtain ⟨p, pos', hp, hnp, hb', rfl⟩ := insertTimer_eq_some hS (hS pos hpos) h
      refine ⟨p, pos', .inr ?_, hnp, hb', rfl⟩
      rcases hp with rfl | hp
      · exact hpos
      · exact hp

/-- The walk of `sched_del_timer` from a timer of a list `S` closed under `next` unlinks `del`
    after a timer of `S`, or changes nothing (it reached NULL). -/
theorem delWalk_eq_some {del : TimerId ι} {S : List (TimerId ι)}
    (hS : ∀ x ∈ S, ∀ y, s.next x = some y → y ∈ S) :
    ∀ {fuel : Nat} {pos : TimerId ι}, pos ∈ S → delWalk s del fuel pos = some s' →
      s' = s ∨ ∃ p ∈ S, s.next p = some del ∧ s' = { s with next := update s.next p (s.next del) }
  | 0, _, _, h => by cases h
  | fuel + 1, pos, hpos, h => by
    rw [delWalk] at h
    rcases hn : s.next pos with _ | p
    · rw [hn] at h
      exact .inl (Option.some_injective _ h).symm
    rw [hn] at h
    dsimp only at h
    by_cases hp : p = del
    · rw [if_pos hp] at h
      subst hp
      exact .inr ⟨pos, hpos, hn, (Option.some_injective _ h).symm⟩
    · rw [if_neg hp] at h
      exact delWalk_eq_some hS (hS pos hpos p hn) h

end Walks

/-! ## The shape of the scheduler's state -/

/-- The timer list from `timer_list` has its links, and `last_insert` is on it. -/
structure SchedState.Shape (s : SchedState ι) (L : List (TimerId ι)) : Prop where
  links : Links s.next s.timerList L
  lastInsert : s.lastInsert ∈ L

/-- The timers as codes, the three of `sched.c` apart from the user timers. -/
def TimerId.code : TimerId ι → Option (Option (Option ι))
  | .periodic => none
  | .sentinel => some none
  | .deleted => some (some none)
  | .user i => some (some (some i))

theorem TimerId.code_injective : Injective (@TimerId.code ι) := by
  intro a b h
  cases a <;> cases b <;> simp_all [TimerId.code]

/-- A list of distinct timers has at most `|ι| + 3` of them. -/
theorem length_le_card [Fintype ι] {L : List (TimerId ι)} (hL : L.Nodup) :
    L.length ≤ Fintype.card ι + 3 := by
  have h := (hL.map TimerId.code_injective).length_le_card
  simpa using h

/-- The model's walk of at most `fuel` links sees the whole list when it has at most `fuel`
    timers. -/
theorem chain_eq_of_chain {s : SchedState ι} :
    ∀ {L : List (TimerId ι)} {fuel : Nat} {h : TimerId ι}, Chain s.next (some h) L →
      L.length ≤ fuel → s.chain fuel h = L
  | [], _, _, hc, _ => by cases hc
  | x :: L, fuel + 1, h, hc, hlen => by
    cases hc with
    | cons hrest =>
      simp only [SchedState.chain]
      congr 1
      rcases hn : s.next x with _ | y
      · rw [hn] at hrest
        exact (Chain.none_iff.mp hrest).symm
      · rw [hn] at hrest
        simp only [List.length_cons] at hlen
        exact chain_eq_of_chain hrest (by omega)

theorem shape_init [DecidableEq ι] : (schedInit : SchedState ι).Shape [.periodic, .sentinel] where
  links :=
    { chain := .cons (.cons (by simp [schedInit]))
      nodup := by simp
      last := rfl
      periodic := by simp
      deleted := by simp }
  lastInsert := by simp [schedInit]

/-! ## Every step keeps the shape -/

section Steps

variable {s s' : SchedState ι} {L : List (TimerId ι)}

theorem SchedState.Shape.head_mem (hs : s.Shape L) : s.timerList ∈ L := by
  rw [hs.links.eq_cons]
  exact List.mem_cons_self

theorem SchedState.Shape.closed (hs : s.Shape L) : ∀ x ∈ L, ∀ y, s.next x = some y → y ∈ L :=
  fun _ hx _ hy => hs.links.chain.mem_of_next hx hy

variable [DecidableEq ι]

/-- `sched_add_timer` of a timer that is not on the list. -/
theorem SchedState.Shape.schedAddTimer (hs : s.Shape L) {add : TimerId ι} (ha : add ∉ L)
    (had : add ≠ .deleted) {timerFromUs : UInt32 → UInt32} {fuel : Nat} {now : UInt32}
    (h : schedAddTimer timerFromUs fuel s add now = some s') : ∃ L', s'.Shape L' := by
  unfold Sched.schedAddTimer at h
  dsimp only at h
  by_cases hb : timerIsBefore (s.waketime add) (s.waketime s.timerList) = true
  · -- due before the head: `deleted_timer` and the added timer go in front
    rw [if_pos hb] at h
    obtain rfl := Option.some_injective _ h
    refine ⟨_, hs.links.pushHead ha had, ?_⟩
    dsimp only
    split_ifs with hhd
    · -- `last_insert` is the reused stand-in or after it
      rcases List.mem_cons.mp (hs.links.eq_cons ▸ hs.lastInsert) with e | e
      · rw [e, hhd]
        exact List.mem_cons_self
      · exact List.mem_cons_of_mem _ (List.mem_cons_of_mem _ e)
    · exact List.mem_cons_of_mem _ (List.mem_cons_of_mem _ hs.lastInsert)
  · -- `insert_timer` from the head
    rw [if_neg hb] at h
    obtain ⟨p, pos, hp, hpos, -, rfl⟩ :=
      insertTimer_eq_some hs.closed (hs.closed _ hs.head_mem) h
    have hpL : p ∈ L := by
      rcases hp with rfl | hp
      · exact hs.head_mem
      · exact hp
    obtain ⟨L', hl', hmem⟩ := hs.links.linkAfter hpL hpos ha had
    exact ⟨L', hl', (hmem _).mpr (.inr hs.lastInsert)⟩

/-- `sched_del_timer` of a timer other than `periodic_timer` and `sentinel_timer`. -/
theorem SchedState.Shape.schedDelTimer (hs : s.Shape L) {fuel : Nat} {del : TimerId ι}
    (hdp : del ≠ .periodic) (hds : del ≠ .sentinel) (h : schedDelTimer fuel s del = some s') :
    ∃ L', s'.Shape L' := by
  unfold Sched.schedDelTimer at h
  split_ifs at h with hhead
  · -- the head: `deleted_timer` stands in for it
    simp only [Option.bind_eq_bind, Option.bind_some, Option.some.injEq] at h
    subst hhead h
    refine ⟨_, hs.links.replaceHead hdp hds, ?_⟩
    dsimp only
    split_ifs with hli
    · exact List.mem_cons_of_mem _ (hs.links.mem_tail hs.links.periodic fun e => hdp e.symm)
    · exact List.mem_cons_of_mem _ (hs.links.mem_tail hs.lastInsert hli)
  · -- the walk unlinks it, or does not find it
    rcases hw : delWalk s del fuel s.timerList with _ | s1
    · simp [hw] at h
    simp only [hw, Option.bind_eq_bind, Option.bind_some, Option.some.injEq] at h
    subst h
    rcases delWalk_eq_some hs.closed hs.head_mem hw with rfl | ⟨p, hp, hpd, rfl⟩
    · refine ⟨L, hs.links, ?_⟩
      dsimp only
      split_ifs
      · exact hs.links.periodic
      · exact hs.lastInsert
    · obtain ⟨L', hl', hmem⟩ := hs.links.unlinkAfter hp hpd hds hdp
      refine ⟨L', hl', ?_⟩
      dsimp only
      split_ifs with hli
      · exact (hmem _).mpr ⟨hs.links.periodic, fun e => hdp e.symm⟩
      · exact (hmem _).mpr ⟨hs.lastInsert, hli⟩

/-- What `sched_timer_dispatch` learns from the callback: it rewrites no link and neither
    pointer, the sentinel's callback does not return, `periodic_timer` always reschedules and
    `deleted_timer` is always done. -/
theorem runCallback_eq_some {timerFromUs : UInt32 → UInt32} {res : SchedResult} {w : UInt32}
    {s1 : SchedState ι} {r : SchedResult} (h : runCallback timerFromUs s res w = some (s1, r)) :
    s1.next = s.next ∧ s1.timerList = s.timerList ∧ s1.lastInsert = s.lastInsert ∧
      s.timerList ≠ .sentinel ∧ (s.timerList = .periodic → r = .reschedule) ∧
      (s.timerList = .deleted → r = .done) := by
  unfold runCallback at h
  split at h
  next ht =>
    obtain ⟨rfl, rfl⟩ := Prod.mk.inj (Option.some_injective _ h)
    simp [periodicEvent, ht]
  next => cases h
  next ht =>
    obtain ⟨rfl, rfl⟩ := Prod.mk.inj (Option.some_injective _ h)
    simp [ht]
  next i ht =>
    obtain ⟨rfl, rfl⟩ := Prod.mk.inj (Option.some_injective _ h)
    simp [ht]

/-- `sched_timer_dispatch`: the head leaves the list when done, and when rescheduled it stays
    at the head or is linked in again after its successor. -/
theorem SchedState.Shape.schedTimerDispatch (hs : s.Shape L) {timerFromUs : UInt32 → UInt32}
    {fuel : Nat} {res : SchedResult} {w : UInt32}
    (h : schedTimerDispatch timerFromUs fuel s res w = some s') : ∃ L', s'.Shape L' := by
  unfold Sched.schedTimerDispatch at h
  rcases hrc : runCallback timerFromUs s res w with _ | ⟨s1, r⟩
  · simp [hrc] at h
  obtain ⟨hnext, htl, hli, hsent, hper, hdel⟩ := runCallback_eq_some hrc
  simp only [hrc, Option.bind_eq_bind, Option.bind_some] at h
  rcases htn : s1.next s.timerList with _ | tn
  · simp [htn] at h
  simp only [htn, Option.bind_some] at h
  rw [hnext] at htn
  have htnT : tn ∈ L.tail := hs.links.next_mem_tail hs.head_mem htn
  cases r with
  | done =>
    -- the head leaves the list, and its successor heads the rest
    obtain rfl := Option.some_injective _ h
    have hp : s.timerList ≠ .periodic := fun e => by cases hper e
    refine ⟨L.tail, hnext ▸ hs.links.popHead htn hp, ?_⟩
    dsimp only
    rw [hli]
    split_ifs with ht
    · exact htnT
    · exact hs.links.mem_tail hs.lastInsert ht
  | reschedule =>
    dsimp only at h
    by_cases hb : timerIsBefore (s1.waketime s.timerList) (s1.waketime tn) = true
    · -- still before its successor: it stays at the head
      rw [if_pos hb] at h
      obtain rfl := Option.some_injective _ h
      exact ⟨L, by rw [hnext, htl]; exact hs.links, by rw [hli]; exact hs.lastInsert⟩
    · -- linked in again by `insert_timer`, from the successor or from `last_insert`
      rw [if_neg hb] at h
      obtain ⟨s2, hins, hs2⟩ := Option.bind_eq_some_iff.mp h
      obtain rfl := Option.some_injective _ hs2
      generalize hq : (if timerIsBefore (s1.waketime s.timerList) (s1.waketime s1.lastInsert) = true
        then tn else s1.lastInsert) = q at hins
      have hqL : q ∈ L := by
        rw [← hq]
        split_ifs
        · exact List.mem_of_mem_tail htnT
        · exact hli ▸ hs.lastInsert
      -- the walk stays among the timers after the head
      have hS : ∀ x ∈ L.tail, ∀ y, s1.next x = some y → y ∈ L.tail := fun x hx y hy =>
        hs.links.next_mem_tail (List.mem_of_mem_tail hx) (hnext ▸ hy)
      obtain ⟨p, pos, hp, hpn, hbp, rfl⟩ := insertTimer_eq_some (s := { s1 with timerList := tn })
        hS (fun y hy => hs.links.next_mem_tail hqL (hnext ▸ hy)) hins
      rw [hnext] at hpn
      have hpT : p ∈ L.tail := by
        rcases hp with rfl | hp
        · by_cases hqt : p = s.timerList
          · -- from the rescheduled timer itself the walk must move on: it is not before `tn`
            subst hqt
            rw [htn] at hpn
            obtain rfl := Option.some_injective _ hpn
            exact absurd hbp hb
          · exact hs.links.mem_tail hqL hqt
        · exact hp
      have hd : s.timerList ≠ .deleted := fun e => by cases hdel e
      obtain ⟨L', hl', hmem⟩ := hs.links.moveHead htn hpT hpn hd
      refine ⟨L', ?_, (hmem _).mpr hs.head_mem⟩
      dsimp only
      rw [hnext]
      exact hl'

/-- `sched_timer_reset`. -/
theorem SchedState.Shape.schedTimerReset (hs : s.Shape L) :
    (schedTimerReset s).Shape [.deleted, .periodic, .sentinel] :=
  ⟨hs.links.reset, by simp [Sched.schedTimerReset]⟩

/-- **Step lemma.**  Every step the owners' promises allow keeps the shape.  The promise on
    `sched_add_timer` is read on the model's walk of `fuel` links, which is the whole list. -/
theorem SchedState.Shape.step [Fintype ι] {timerFromUs : UInt32 → UInt32} {fuel : Nat}
    (hfuel : Fintype.card ι + 3 ≤ fuel) (hs : s.Shape L) {a : SchedAct ι}
    (hok : SchedOk fuel s a) (h : s.step timerFromUs fuel a = some s') : ∃ L', s'.Shape L' := by
  cases a with
  | add t waketime now =>
    have hchain : s.chain fuel s.timerList = L :=
      chain_eq_of_chain hs.links.chain ((length_le_card hs.links.nodup).trans hfuel)
    have ht : .user t ∉ L := by
      rw [← hchain]
      exact hok
    -- the owner's store to the waketime touches no link
    exact SchedState.Shape.schedAddTimer (s := { s with waketime := update s.waketime (.user t) waketime })
      ⟨hs.links, hs.lastInsert⟩ ht (by simp) h
  | del t => exact hs.schedDelTimer (by simp) (by simp) h
  | dispatch res waketime => exact hs.schedTimerDispatch h
  | reset =>
    obtain rfl := Option.some_injective _ h
    exact ⟨_, hs.schedTimerReset⟩

end Steps

variable [DecidableEq ι]

/-- **The timer list keeps its shape.**  With at most `fuel` timers in all, in every state the
    scheduler reaches while the owners keep their promises, the list from `timer_list` is a
    chain of distinct timers ending at `sentinel_timer` (whose `next` is NULL), it holds
    `periodic_timer` and `last_insert`, `deleted_timer` is on it only as its head, and the
    model's walk of `fuel` links sees all of it. -/
theorem sched_timer_list_shape [Fintype ι] (timerFromUs : UInt32 → UInt32) {fuel : Nat}
    (hfuel : Fintype.card ι + 3 ≤ fuel) (s : SchedState ι)
    (h : Reachable (· = schedInit) (ofStepIf (SchedOk fuel) (SchedState.step timerFromUs fuel)) s) :
    ∃ L, s.chain fuel s.timerList = L ∧ s.Shape L := by
  have hinv : ∃ L, s.Shape L := by
    refine Reachable.inv (I := fun s => ∃ L, s.Shape L) (fun s hi => ?_) ?_ h
    · subst hi
      exact ⟨_, shape_init⟩
    · rintro s s' ⟨L, hs⟩ ⟨a, hok, ha⟩
      exact hs.step hfuel hok ha
  obtain ⟨L, hs⟩ := hinv
  exact ⟨L, chain_eq_of_chain hs.links.chain ((length_le_card hs.links.nodup).trans hfuel), hs⟩

/-- The run of `schedAddTimer_late_unordered`, whose list is out of order, still has the
    shape. -/
theorem sched_timer_list_shape_late :
    ∃ s : SchedState Bool,
      Reachable (· = schedInit) (ofStepIf (SchedOk 8) (SchedState.step (· * 16) 8)) s ∧
        ¬ s.Ordered 8 ∧ ∃ L, s.chain 8 s.timerList = L ∧ s.Shape L := by
  have key := fun s
      (h : Reachable (· = schedInit) (ofStepIf (SchedOk 8) (SchedState.step (· * 16) 8)) s) =>
    And.intro h (sched_timer_list_shape (· * 16) (by simp : Fintype.card Bool + 3 ≤ 8) s h)
  obtain ⟨hrun, hshape⟩ := key _ (.step (.step (.step (.init rfl) ⟨.dispatch .done 0, trivial, rfl⟩)
    ⟨.add false 1001 900, by simp only [SchedOk]; decide, rfl⟩)
    ⟨.add true 990 1000, by simp only [SchedOk]; decide, rfl⟩)
  exact ⟨_, hrun, by decide, hshape⟩

end Klipper.Sched
