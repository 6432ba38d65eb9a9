import Mathlib

/-
  Arrays of cells, and the lists they hold.

  A C array is read and written by index; here it is a function `a : Nat → α` from indices to
  cell values, and the three things a program does to it are a store to one cell
  (`Function.update`), `memmove(&a[dst], &a[src], n)` (`memmove`, which reads every source cell
  before it writes, so the two ranges may overlap), and a copy of a list into consecutive cells
  (`writeList`, the `memcpy` of a message or the bytes an encoder writes one after another).

  What a buffer means is a list: `Holds a off l` says that the cells from `off` on hold `l`.
  Every proof about a buffer goes through it, with one lemma per operation:

  * a store or a copy that misses the cells of `l` leaves `Holds` alone (`Holds.update_of_notMem`,
    `Holds.memmove_of_disjoint`, `Holds.writeList_of_disjoint`);
  * a store just past `l` appends to it (`Holds.update_concat`), a copy of a list makes its
    cells hold it (`holds_writeList`), and `memmove` moves what the source cells held to the
    destination (`Holds.memmove`);
  * `Holds` splits and joins along `++` (`holds_append`), and is read back as a list by `read`
    (`read_eq_of_holds`).
-/

namespace Cells

variable {α : Type*}

/-- The `n` cells of `a` from `off` on, in order. -/
def read (a : Nat → α) (off n : Nat) : List α := (List.range n).map fun i => a (off + i)

/-- The cells of `a` from `off` on hold `l`. -/
def Holds (a : Nat → α) (off : Nat) (l : List α) : Prop :=
  ∀ i (h : i < l.length), a (off + i) = l[i]

/-- `memmove(&a[dst], &a[src], n)`: the cells `[dst, dst + n)` take the values that the cells
    `[src, src + n)` had before the call. -/
def memmove (a : Nat → α) (dst src n : Nat) : Nat → α :=
  fun i => if dst ≤ i ∧ i < dst + n then a (src + (i - dst)) else a i

/-- The elements of `l` copied into the cells from `off` on. -/
def writeList (a : Nat → α) (off : Nat) (l : List α) : Nat → α :=
  fun i => if h : off ≤ i ∧ i < off + l.length then l[i - off] else a i

/-! ## Reading -/

section Read

variable {a : Nat → α} {off : Nat} {l m : List α}

@[simp] theorem length_read (a : Nat → α) (off n : Nat) : (read a off n).length = n := by
  simp [read]

theorem holds_nil (a : Nat → α) (off : Nat) : Holds a off [] := fun i h => absurd h (by simp)

theorem read_eq_of_holds (h : Holds a off l) : read a off l.length = l := by
  apply List.ext_getElem (by simp)
  intro i h1 h2
  simp only [read, List.getElem_map, List.getElem_range]
  exact h i h2

theorem holds_read (a : Nat → α) (off n : Nat) : Holds a off (read a off n) := by
  intro i h
  simp [read]

/-- `Holds` of a concatenation is `Holds` of its two parts, side by side. -/
theorem holds_append : Holds a off (l ++ m) ↔ Holds a off l ∧ Holds a (off + l.length) m := by
  constructor
  · intro h
    refine ⟨fun i hi => ?_, fun i hi => ?_⟩
    · rw [h i (by simp; omega), List.getElem_append_left hi]
    · rw [Nat.add_assoc, h (l.length + i) (by simp; omega),
        List.getElem_append_right (by omega)]
      simp
  · rintro ⟨hl, hm⟩ i hi
    by_cases hil : i < l.length
    · rw [List.getElem_append_left hil, hl i hil]
    · rw [List.getElem_append_right (by omega)]
      have := hm (i - l.length) (by simp at hi; omega)
      rwa [show off + l.length + (i - l.length) = off + i by omega] at this

theorem Holds.take (h : Holds a off l) (k : Nat) : Holds a off (l.take k) := by
  rw [← List.take_append_drop k l] at h
  exact (holds_append.mp h).1

theorem Holds.drop (h : Holds a off l) (k : Nat) (hk : k ≤ l.length) :
    Holds a (off + k) (l.drop k) := by
  rw [← List.take_append_drop k l] at h
  have h2 := (holds_append.mp h).2
  rwa [List.length_take, Nat.min_eq_left hk] at h2

theorem holds_singleton {v : α} : Holds a off [v] ↔ a off = v := by
  constructor
  · intro h
    simpa using h 0 (by simp)
  · intro h i hi
    obtain rfl : i = 0 := by simp at hi; omega
    simpa using h

/-- Two arrays that agree on the cells of `l` hold it alike. -/
theorem Holds.congr {b : Nat → α} (h : Holds a off l)
    (hab : ∀ i, off ≤ i → i < off + l.length → b i = a i) : Holds b off l := by
  intro i hi
  rw [hab (off + i) (by omega) (by omega)]
  exact h i hi

end Read

/-! ## Writing -/

section Write

variable {a : Nat → α} {off : Nat} {l : List α}

/-- A store outside the cells of `l` leaves them holding `l`. -/
theorem Holds.update_of_notMem (h : Holds a off l) {j : Nat} (hj : j < off ∨ off + l.length ≤ j)
    (v : α) : Holds (Function.update a j v) off l :=
  h.congr fun i hi1 hi2 => Function.update_of_ne (by omega) v a

/-- A store to the cell just past `l` appends to it. -/
theorem Holds.update_concat (h : Holds a off l) (v : α) :
    Holds (Function.update a (off + l.length) v) off (l ++ [v]) :=
  holds_append.mpr ⟨h.update_of_notMem (.inr le_rfl) v,
    holds_singleton.mpr (Function.update_self _ v a)⟩

theorem holds_writeList (a : Nat → α) (off : Nat) (l : List α) : Holds (writeList a off l) off l := by
  intro i hi
  simp only [writeList]
  rw [dif_pos ⟨by omega, by omega⟩]
  simp

theorem Holds.writeList_of_disjoint {m : List α} (h : Holds a off l) {dst : Nat}
    (hd : off + l.length ≤ dst ∨ dst + m.length ≤ off) : Holds (writeList a dst m) off l :=
  h.congr fun i hi1 hi2 => by
    simp only [writeList]
    rw [dif_neg (by omega)]

theorem Holds.memmove_of_disjoint (h : Holds a off l) {dst src n : Nat}
    (hd : off + l.length ≤ dst ∨ dst + n ≤ off) : Holds (memmove a dst src n) off l :=
  h.congr fun i hi1 hi2 => by
    simp only [memmove]
    rw [if_neg (by omega)]

/-- `memmove` over the cells of `l` makes the destination hold `l`, whatever the overlap. -/
theorem Holds.memmove (h : Holds a src l) (dst : Nat) : Holds (memmove a dst src l.length) dst l := by
  intro i hi
  simp only [Cells.memmove]
  rw [if_pos ⟨by omega, by omega⟩, show dst + i - dst = i by omega]
  exact h i hi

end Write

end Cells
