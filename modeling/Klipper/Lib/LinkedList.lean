import Mathlib.Logic.Function.Basic
import Mathlib.Data.List.Perm.Basic
import Mathlib.Data.List.Nodup
import Mathlib.Tactic.Tauto

/-
  Intrusive singly-linked lists in a heap of `next` fields.

  A heap is a function `next : α → Option α` from nodes to their `next` field, with `none` for
  the null pointer.  `Chain next p l` says that following `next` from the pointer `p` visits
  exactly the nodes `l` and then reaches null; it is the representation relation between a
  pointer structure and the list it stands for.  The lemmas are the ones a free list, a FIFO
  with head and tail pointers and a sorted list of timers need: a write to a node off the chain
  leaves the chain alone (`Chain.congr`), linking a new node after the tail appends it
  (`Chain.snoc`), linking one in after any node inserts it there (`Chain.insertAfter`),
  unlinking the node after another removes it (`Chain.unlinkAfter`), a chain is closed under
  `next` (`Chain.mem_of_next`), and an array of nodes each linked to the next one is a chain over
  all of them (`chain_linkedArray`).

  Several lists that share one pool of nodes are kept as a function from places to lists;
  `flatMap_update_perm` says how the concatenation of all places changes when one place is
  replaced, which is what a conservation argument over moves between places rests on.
-/

namespace LinkedList

variable {α : Type*}

/-- Following `next` from `p` visits the nodes of `l`, in order, and ends at null. -/
inductive Chain (next : α → Option α) : Option α → List α → Prop
  | nil : Chain next none []
  | cons {x : α} {l : List α} : Chain next (next x) l → Chain next (some x) (x :: l)

namespace Chain

variable {next : α → Option α} {p : Option α} {l : List α}

@[simp] theorem none_iff : Chain next none l ↔ l = [] := by
  constructor
  · rintro ⟨⟩; rfl
  · rintro rfl; exact .nil

theorem some_iff {x : α} : Chain next (some x) l ↔ ∃ t, l = x :: t ∧ Chain next (next x) t := by
  constructor
  · rintro ⟨⟩; exact ⟨_, rfl, ‹_›⟩
  · rintro ⟨t, rfl, h⟩; exact .cons h

/-- Frame rule: a chain holds in every heap that agrees with its own on the chain's nodes. -/
theorem congr {next' : α → Option α} (h : Chain next p l) (heq : ∀ x ∈ l, next' x = next x) :
    Chain next' p l := by
  induction h with
  | nil => exact .nil
  | @cons y t _ ih =>
    refine .cons ?_
    rw [heq y List.mem_cons_self]
    exact ih (fun x hx => heq x (List.mem_cons_of_mem _ hx))

/-- Writing the `next` field of a node off the chain leaves the chain unchanged. -/
theorem update_of_not_mem [DecidableEq α] {x : α} {v : Option α} (h : Chain next p l) (hx : x ∉ l) :
    Chain (Function.update next x v) p l :=
  h.congr fun y hy => Function.update_of_ne (fun e => hx (by rwa [e] at hy)) _ _

/-- Appending at the tail: with the new node `m` cleared and linked after the last node `y`,
    the chain reaches `m` after `y`.  The nodes of the chain must be distinct, so that `y` is
    not also met earlier. -/
theorem snoc [DecidableEq α] {y m : α} (h : Chain next p (l ++ [y])) (hnd : (l ++ [y]).Nodup)
    (hm : m ∉ l ++ [y]) :
    Chain (Function.update (Function.update next m none) y (some m)) p (l ++ [y, m]) := by
  have hmy : m ≠ y := fun e => hm (by simp [e])
  induction l generalizing p with
  | nil =>
    simp only [List.nil_append] at h ⊢
    cases h with
    | cons _ =>
      refine .cons ?_
      rw [Function.update_self]
      refine .cons ?_
      rw [Function.update_of_ne hmy, Function.update_self]
      exact .nil
  | cons x l ih =>
    cases h with
    | cons hrest =>
      have hxy : x ≠ y := fun e => (List.nodup_cons.mp hnd).1 (by simp [e])
      have hxm : x ≠ m := fun e => hm (by simp [e])
      refine .cons ?_
      rw [Function.update_of_ne hxy, Function.update_of_ne hxm]
      exact ih hrest (List.nodup_cons.mp hnd).2 (fun e => hm (List.mem_cons_of_mem _ e))

/-- The pointer a chain starts from is its first node. -/
theorem eq_head? (h : Chain next p l) : p = l.head? := by
  cases h <;> rfl

/-- From the `next` field of a node of a chain, the chain goes on with the nodes after it. -/
theorem of_append {A B : List α} {x : α} (h : Chain next p (A ++ x :: B)) :
    Chain next (next x) B := by
  induction A generalizing p with
  | nil =>
    cases h with
    | cons hrest => exact hrest
  | cons a A ih =>
    cases h with
    | cons hrest => exact ih hrest

/-- A chain is closed under `next`: the successor of one of its nodes is one of its nodes. -/
theorem mem_of_next (h : Chain next p l) {x y : α} (hx : x ∈ l) (hy : next x = some y) :
    y ∈ l := by
  obtain ⟨A, B, rfl⟩ := List.append_of_mem hx
  have hB := h.of_append.eq_head?
  rw [hy] at hB
  exact List.mem_append_right A (List.mem_cons_of_mem x (List.mem_of_mem_head? hB.symm))

/-- Linking a node `t` off the chain in after the chain's node `x`: `t->next = x->next;
    x->next = t`. -/
theorem insertAfter [DecidableEq α] {A B : List α} {x t : α} (h : Chain next p (A ++ x :: B))
    (hnd : (A ++ x :: B).Nodup) (ht : t ∉ A ++ x :: B) :
    Chain (Function.update (Function.update next t (next x)) x (some t)) p (A ++ x :: t :: B) := by
  induction A generalizing p with
  | nil =>
    cases h with
    | cons hrest =>
      simp only [List.nil_append, List.nodup_cons] at hnd ht ⊢
      have htx : t ≠ x := fun e => ht (by simp [e])
      refine .cons ?_
      rw [Function.update_self]
      refine .cons ?_
      rw [Function.update_of_ne htx, Function.update_self]
      -- the nodes after `x` are neither `x` nor `t`, so their fields are as before
      refine hrest.congr fun y hy => ?_
      have hyx : y ≠ x := fun e => hnd.1 (e ▸ hy)
      have hyt : y ≠ t := fun e => ht (List.mem_cons_of_mem x (e ▸ hy))
      rw [Function.update_of_ne hyx, Function.update_of_ne hyt]
  | cons a A ih =>
    cases h with
    | cons hrest =>
      simp only [List.cons_append, List.nodup_cons, List.mem_cons, not_or] at hnd ht
      have hax : a ≠ x := fun e => hnd.1 (by simp [e])
      have hat : a ≠ t := fun e => ht.1 e.symm
      refine .cons ?_
      rw [Function.update_of_ne hax, Function.update_of_ne hat]
      exact ih hrest hnd.2 ht.2

/-- Linking a fresh node `t` in after the chain's node `x`, in front of its successor `y`: the
    chain is the old one with `t` added, still of distinct nodes, and it ends where it did. -/
theorem linkAfter [DecidableEq α] (h : Chain next p l) (hnd : l.Nodup) {x y t : α} (hx : x ∈ l)
    (hy : next x = some y) (ht : t ∉ l) :
    ∃ l', Chain (Function.update (Function.update next t (some y)) x (some t)) p l' ∧ l'.Nodup ∧
      l'.getLast? = l.getLast? ∧ ∀ z, z ∈ l' ↔ z = t ∨ z ∈ l := by
  obtain ⟨A, B, rfl⟩ := List.append_of_mem hx
  have hB : B.head? = some y := by
    rw [← hy]
    exact h.of_append.eq_head?.symm
  have hBne : B ≠ [] := fun e => by simp [e] at hB
  refine ⟨A ++ x :: t :: B, ?_, ?_, ?_, ?_⟩
  · have h' := h.insertAfter hnd ht
    rwa [hy] at h'
  · -- `t` is fresh, so the list stays free of repeats
    have h' : (t :: ((A ++ [x]) ++ B)).Nodup :=
      List.nodup_cons.mpr ⟨by simpa using ht, by simpa using hnd⟩
    simpa using List.nodup_middle.mpr h'
  · -- both lists end with `B`, which is not empty
    rw [show A ++ x :: t :: B = (A ++ [x, t]) ++ B by simp,
      show A ++ x :: B = (A ++ [x]) ++ B by simp, List.getLast?_append_of_ne_nil _ hBne,
      List.getLast?_append_of_ne_nil _ hBne]
  · intro z
    simp only [List.mem_append, List.mem_cons]
    tauto

/-- Unlinking the node `y` after the chain's node `x`: `x->next = y->next`. -/
theorem unlinkAfter [DecidableEq α] {A B : List α} {x y : α} (h : Chain next p (A ++ x :: y :: B))
    (hnd : (A ++ x :: y :: B).Nodup) :
    Chain (Function.update next x (next y)) p (A ++ x :: B) := by
  induction A generalizing p with
  | nil =>
    cases h with
    | cons hrest =>
      rw [hrest.eq_head?] at hrest
      cases hrest with
      | cons hrest' =>
        simp only [List.nil_append, List.nodup_cons, List.mem_cons, not_or] at hnd ⊢
        refine .cons ?_
        rw [Function.update_self]
        refine hrest'.congr fun z hz => Function.update_of_ne (fun (e : z = x) => hnd.1.2 (e ▸ hz)) _ _
  | cons a A ih =>
    cases h with
    | cons hrest =>
      simp only [List.cons_append, List.nodup_cons] at hnd
      have hax : a ≠ x := fun e => hnd.1 (by simp [e])
      refine .cons ?_
      rw [Function.update_of_ne hax]
      exact ih hrest hnd.2

end Chain

/-- The `next` fields of an array of `n` nodes each linked to the following one, the last to
    null. -/
def linkedArray (n : Nat) (i : Fin n) : Option (Fin n) :=
  if h : i.val + 1 < n then some ⟨i.val + 1, h⟩ else none

/-- From its `i`-th node, an array linked in order is a chain over the nodes from `i` on. -/
theorem chain_linkedArray_drop (n i : Nat) :
    Chain (linkedArray n) (if h : i < n then some ⟨i, h⟩ else none) ((List.finRange n).drop i) := by
  induction h : n - i generalizing i with
  | zero =>
    have hi : ¬ i < n := by omega
    rw [dif_neg hi, List.drop_eq_nil_of_le (by simp; omega)]
    exact .nil
  | succ d ih =>
    have hi : i < n := by omega
    rw [dif_pos hi, List.drop_eq_getElem_cons (by simpa using hi), List.getElem_finRange]
    refine .cons ?_
    have hnext := ih (i + 1) (by omega)
    simpa [linkedArray] using hnext

/-- An array linked in order is, from its first node, a chain over all its nodes. -/
theorem chain_linkedArray (n : Nat) (hn : 0 < n) :
    Chain (linkedArray n) (some ⟨0, hn⟩) (List.finRange n) := by
  simpa [hn] using chain_linkedArray_drop n 0

/-- Replacing the list at one place changes the concatenation over all places by exactly the
    old and the new list. -/
theorem flatMap_update_perm {ι : Type*} [DecidableEq ι] {ps : List ι} (hps : ps.Nodup) {i : ι}
    (hi : i ∈ ps) (f : ι → List α) (v : List α) :
    (ps.flatMap (Function.update f i v) ++ f i).Perm (ps.flatMap f ++ v) := by
  induction ps with
  | nil => simp at hi
  | cons j ps ih =>
    obtain ⟨hj, hps⟩ := List.nodup_cons.mp hps
    by_cases hji : j = i
    · subst hji
      -- the other places keep their lists, and the changed place moves to the end
      have hrest : ps.flatMap (Function.update f j v) = ps.flatMap f :=
        List.flatMap_congr fun x hx => Function.update_of_ne (fun e => hj (by rwa [e] at hx)) _ _
      simp only [List.flatMap_cons, Function.update_self, hrest, List.append_assoc]
      calc (v ++ (ps.flatMap f ++ f j)).Perm ((ps.flatMap f ++ f j) ++ v) := List.perm_append_comm
        List.Perm _ ((f j ++ ps.flatMap f) ++ v) := List.perm_append_comm.append_right v
        _ = f j ++ (ps.flatMap f ++ v) := List.append_assoc _ _ _
    · have hi' : i ∈ ps := (List.mem_cons.mp hi).resolve_left (Ne.symm hji)
      simp only [List.flatMap_cons, Function.update_of_ne hji, List.append_assoc]
      exact (ih hps hi').append_left (f j)

end LinkedList
