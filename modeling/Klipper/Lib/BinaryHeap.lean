import Mathlib

/-
  Array min-heaps and the sift-down that replaces their root.

  A heap is a list read with `getD _ ⊤`: a position past the end reads as the top element, so
  a missing child never blocks its parent and the heap property needs no bounds.  The children
  of position `i` are `2i+1` and `2i+2`, its parent is `(i-1)/2`.

  Replacing the root is a sift-down with a hole.  The hole starts at the root; while the new
  value `v` does not fit there, the smaller child moves up into the hole and the hole moves down
  to it.  `HoleOrder l p v` is what holds at each step: every parent and child pair whose parent
  is not the hole is in order, `v` is at or above the hole's parent, and so are the hole's
  children (`HoleOrder.move` keeps it, `HoleOrder.finish` fills the hole).  The contents follow
  the same steps: the list without its hole's element never changes (`erase_hole_move`), so
  filling the hole with `v` leaves the old contents with the old root replaced by `v`.
-/

namespace BinaryHeap

variable {α : Type*}

/-! ## Reading after a write -/

theorem getD_set_self {l : List α} {i : Nat} {x d : α} (h : i < l.length) :
    (l.set i x).getD i d = x := by
  simp [List.getD_eq_getElem?_getD, h]

theorem getD_set_of_ne {l : List α} {i j : Nat} {x d : α} (h : j ≠ i) :
    (l.set i x).getD j d = l.getD j d := by
  simp [List.getD_eq_getElem?_getD, h.symm]

/-- Writing position `i` replaces one copy of its old element. -/
theorem coe_set [DecidableEq α] {l : List α} {i : Nat} (x d : α) (h : i < l.length) :
    ((l.set i x : List α) : Multiset α) = (l : Multiset α).erase (l.getD i d) + {x} := by
  have hl : l = l.take i ++ l.getD i d :: l.drop (i + 1) := by
    rw [List.getD_eq_getElem _ _ h, List.getElem_cons_drop, List.take_append_drop]
  have hs : l.set i x = l.take i ++ x :: l.drop (i + 1) := by
    rw [List.set_eq_take_append_cons_drop, if_pos h]
  -- both lists are the same two pieces around position `i`
  have hperm : ∀ a : α, ((l.take i ++ a :: l.drop (i + 1) : List α) : Multiset α) =
      a ::ₘ ((l.take i ++ l.drop (i + 1) : List α) : Multiset α) := fun a =>
    Multiset.coe_eq_coe.mpr List.perm_middle
  have hcoe : (l : Multiset α) = l.getD i d ::ₘ ((l.take i ++ l.drop (i + 1) : List α) : Multiset α) := by
    conv_lhs => rw [hl]
    exact hperm _
  rw [hs, hperm, hcoe, Multiset.erase_cons_head, ← Multiset.singleton_add, add_comm]

/-! ## Min-heaps -/

variable [LinearOrder α] [OrderTop α]

/-- Every element is at or below its children; positions past the end read as `⊤`. -/
def IsMinHeap (l : List α) : Prop := ∀ j, 0 < j → l.getD ((j - 1) / 2) ⊤ ≤ l.getD j ⊤

/-- The root of a min-heap is at or below every position, by the chain of parents. -/
theorem IsMinHeap.root_le {l : List α} (h : IsMinHeap l) (i : Nat) : l.getD 0 ⊤ ≤ l.getD i ⊤ := by
  induction i using Nat.strongRecOn with
  | ind i ih =>
    rcases Nat.eq_zero_or_pos i with rfl | hi
    · exact le_rfl
    · exact (ih ((i - 1) / 2) (by omega)).trans (h i hi)

/-- The root of a min-heap is its least element. -/
theorem IsMinHeap.root_le_of_mem {l : List α} (h : IsMinHeap l) {x : α} (hx : x ∈ l) :
    l.getD 0 ⊤ ≤ x := by
  obtain ⟨i, hi, rfl⟩ := List.getElem_of_mem hx
  rw [← List.getD_eq_getElem _ ⊤ hi]
  exact h.root_le i

/-- A list of equal elements is a min-heap. -/
theorem isMinHeap_replicate (n : Nat) (x : α) : IsMinHeap (List.replicate n x) := by
  intro j _
  rw [List.getD_eq_getElem?_getD, List.getD_eq_getElem?_getD, List.getElem?_replicate,
    List.getElem?_replicate]
  by_cases hjn : j < n
  · rw [if_pos (show (j - 1) / 2 < n by omega), if_pos hjn]
  · rw [if_neg hjn]
    exact le_top

/-! ## Sifting a hole down -/

/-- The order while the hole is at `p` and `v` waits to be placed. -/
structure HoleOrder (l : List α) (p : Nat) (v : α) : Prop where
  except : ∀ j, 0 < j → (j - 1) / 2 ≠ p → l.getD ((j - 1) / 2) ⊤ ≤ l.getD j ⊤
  above : 0 < p → l.getD ((p - 1) / 2) ⊤ ≤ v
  grand : 0 < p → ∀ j, 0 < j → (j - 1) / 2 = p → l.getD ((p - 1) / 2) ⊤ ≤ l.getD j ⊤

/-- A hole at the root of a min-heap. -/
theorem HoleOrder.start {l : List α} (h : IsMinHeap l) (v : α) : HoleOrder l 0 v :=
  ⟨fun j hj _ => h j hj, fun h0 => absurd h0 (lt_irrefl 0), fun h0 => absurd h0 (lt_irrefl 0)⟩

/-- **Step.**  The smaller child `c` of the hole, below `v`, moves up; the hole moves to `c`. -/
theorem HoleOrder.move {l : List α} {p c : Nat} {v : α} (o : HoleOrder l p v) (hp : p < l.length)
    (hc : c = 2 * p + 1 ∨ c = 2 * p + 2)
    (hmin : ∀ j, 0 < j → (j - 1) / 2 = p → l.getD c ⊤ ≤ l.getD j ⊤) (hlt : l.getD c ⊤ < v) :
    HoleOrder (l.set p (l.getD c ⊤)) c v := by
  have hcp : (c - 1) / 2 = p := by omega
  have hcne : c ≠ p := by omega
  -- the old order around the hole, read through the write
  have hread : ∀ j, j ≠ p → (l.set p (l.getD c ⊤)).getD j ⊤ = l.getD j ⊤ :=
    fun j hj => getD_set_of_ne hj
  constructor
  · intro j hj hjc
    by_cases hjp : j = p
    · -- the moved child under the hole's parent
      subst hjp
      rw [getD_set_self hp, hread _ (by omega)]
      exact o.grand hj c (by omega) hcp
    · rw [hread j hjp]
      by_cases hpar : (j - 1) / 2 = p
      · -- a sibling of `c` (or `c` itself) under the moved child
        rw [hpar, getD_set_self hp]
        exact hmin j hj hpar
      · rw [hread _ hpar]
        exact o.except j hj hpar
  · intro _
    rw [hcp, getD_set_self hp]
    exact le_of_lt hlt
  · intro _ j hj hjc
    rw [hcp, getD_set_self hp, hread j (by omega)]
    have := o.except j hj (by omega)
    rwa [hjc] at this

/-- **Finish.**  When `v` is at or below the hole's children, filling the hole gives a
    min-heap. -/
theorem HoleOrder.finish {l : List α} {p : Nat} {v : α} (o : HoleOrder l p v) (hp : p < l.length)
    (hfit : ∀ j, 0 < j → (j - 1) / 2 = p → v ≤ l.getD j ⊤) : IsMinHeap (l.set p v) := by
  intro j hj
  by_cases hjp : j = p
  · subst hjp
    rw [getD_set_self hp, getD_set_of_ne (show (j - 1) / 2 ≠ j by omega)]
    exact o.above hj
  · rw [getD_set_of_ne hjp]
    by_cases hpar : (j - 1) / 2 = p
    · rw [hpar, getD_set_self hp]
      exact hfit j hj hpar
    · rw [getD_set_of_ne hpar]
      exact o.except j hj hpar

/-- Moving an element into the hole and the hole to its old place keeps the contents without
    the hole. -/
theorem erase_hole_move {l : List α} {p c : Nat} (hp : p < l.length) (hcp : c ≠ p) :
    ((l.set p (l.getD c ⊤) : List α) : Multiset α).erase ((l.set p (l.getD c ⊤)).getD c ⊤) =
      (l : Multiset α).erase (l.getD p ⊤) := by
  rw [getD_set_of_ne hcp, coe_set _ ⊤ hp,
    Multiset.erase_add_right_pos _ (Multiset.mem_singleton_self _), Multiset.erase_singleton,
    add_zero]

end BinaryHeap
