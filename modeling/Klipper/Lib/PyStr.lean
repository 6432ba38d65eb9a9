import Mathlib

/-
  Python's string operations on texts as lists of characters.

  A Python `str` is a sequence of code points; here it is a `List Char`.  `str.split(sep)` and
  `sep.join(parts)` are `List.splitOn` and `List.intercalate`, which agree with Python also on
  empty texts and empty parts.  `strip`, `rstrip` and `lstrip` drop the characters of
  `str.isspace` (`isSpace`) at the ends, `find` is the position of the first occurrence, and
  `x in s` is `List.IsInfix`.

  The lemmas are what texts built by joining lines need: a first occurrence is found where no
  earlier one starts (`find_eq_some`), no occurrence is found in a text that does not contain
  it (`find_eq_none`), `rstrip` looks only at the last part of a text (`rstrip_append_of_ne_nil`,
  `rstrip_append_of_eq_nil`) and keeps a join of lines that keep their ends
  (`rstrip_intercalate`), a split gives parts without the separator
  (`not_mem_of_mem_splitOn`), and the split of a text read in pieces is the pieces' splits with
  the part at each seam glued (`splitOn_append`).
-/

namespace PyStr

/-! ## Whitespace -/

/-- `str.isspace` of one character: tab to carriage return, the four separators `\x1c` to
    `\x1f`, space, and the Unicode spaces and line breaks. -/
def isSpace (c : Char) : Bool :=
  let n := c.toNat
  (9 ≤ n && n ≤ 13) || (28 ≤ n && n ≤ 32) || n == 0x85 || n == 0xa0 || n == 0x1680 ||
    (0x2000 ≤ n && n ≤ 0x200a) || n == 0x2028 || n == 0x2029 || n == 0x202f ||
    n == 0x205f || n == 0x3000

/-- `s.lstrip()` -/
def lstrip (s : List Char) : List Char := s.dropWhile isSpace

/-- `s.rstrip()` -/
def rstrip (s : List Char) : List Char := s.rdropWhile isSpace

/-- `s.strip()` -/
def strip (s : List Char) : List Char := lstrip (rstrip s)

theorem lstrip_cons_of_not_space {c : Char} (s : List Char) (hc : isSpace c = false) :
    lstrip (c :: s) = c :: s := by
  simp [lstrip, hc]

theorem rstrip_concat_of_space (s : List Char) {c : Char} (hc : isSpace c = true) :
    rstrip (s ++ [c]) = rstrip s :=
  List.rdropWhile_concat_pos isSpace s c hc

/-- A text ending in a character that is not whitespace is its own `rstrip`. -/
theorem rstrip_concat_of_not_space (s : List Char) {c : Char} (hc : isSpace c = false) :
    rstrip (s ++ [c]) = s ++ [c] :=
  List.rdropWhile_concat_neg isSpace s c (by simp [hc])

/-- `rstrip` of a text whose last part keeps something is the first part before it. -/
theorem rstrip_append_of_ne_nil (a : List Char) {b : List Char} (hb : rstrip b ≠ []) :
    rstrip (a ++ b) = a ++ rstrip b := by
  induction b using List.reverseRecOn with
  | nil => exact absurd rfl hb
  | append_singleton b c ih =>
    by_cases hc : isSpace c = true
    · rw [rstrip_concat_of_space b hc] at hb ⊢
      rw [← List.append_assoc, rstrip_concat_of_space _ hc, ih hb]
    · simp only [Bool.not_eq_true] at hc
      rw [← List.append_assoc, rstrip_concat_of_not_space _ hc, rstrip_concat_of_not_space _ hc,
        List.append_assoc]

/-- `rstrip` of a text whose last part is all whitespace is `rstrip` of the first part. -/
theorem rstrip_append_of_eq_nil (a : List Char) {b : List Char} (hb : rstrip b = []) :
    rstrip (a ++ b) = rstrip a := by
  induction b using List.reverseRecOn with
  | nil => rw [List.append_nil]
  | append_singleton b c ih =>
    have hall := List.rdropWhile_eq_nil_iff.mp hb
    have hc : isSpace c = true := hall c (by simp)
    rw [rstrip_concat_of_space b hc] at hb
    rw [← List.append_assoc, rstrip_concat_of_space _ hc, ih hb]

theorem rstrip_rstrip (s : List Char) : rstrip (rstrip s) = rstrip s :=
  List.rdropWhile_idempotent isSpace s

/-! ## Finding -/

section Find

variable {α : Type*} [DecidableEq α]

/-- `s.find(sub)`: the position of the first occurrence of `sub`, `none` for Python's `-1`. -/
def find (sub : List α) : List α → Option Nat
  | [] => if sub <+: [] then some 0 else none
  | c :: s => if sub <+: c :: s then some 0 else (find sub s).map (· + 1)

/-- The first occurrence is where one starts and none starts before. -/
theorem find_eq_some {sub : List α} :
    ∀ {s : List α} {n : Nat}, (∀ i < n, ¬sub <+: s.drop i) → sub <+: s.drop n →
      find sub s = some n
  | [], 0, _, hn => by
    rw [List.drop_zero] at hn
    rw [find, if_pos hn]
  | [], n + 1, hbefore, hn => absurd hn (by simpa using hbefore 0 (Nat.succ_pos n))
  | c :: s, 0, _, hn => by
    rw [List.drop_zero] at hn
    rw [find, if_pos hn]
  | c :: s, n + 1, hbefore, hn => by
    have h0 := hbefore 0 (Nat.succ_pos n)
    rw [List.drop_zero] at h0
    -- the positions after the head are those of `s`, one further on
    rw [find, if_neg h0, find_eq_some (s := s) (fun i hi => hbefore (i + 1) (by omega)) hn]
    rfl

/-- A text that does not contain `sub` has no occurrence of it. -/
theorem find_eq_none {sub : List α} : ∀ {s : List α}, ¬sub <:+: s → find sub s = none
  | [], h => by
    rw [find, if_neg fun hp => h hp.isInfix]
  | c :: s, h => by
    rw [find, if_neg fun hp => h hp.isInfix,
      find_eq_none fun hs => h (hs.trans (List.suffix_cons c s).isInfix)]
    rfl

end Find

/-! ## Splitting -/

section Split

variable {α : Type*}

/-- No part of a split contains a character the split is on. -/
theorem not_of_mem_splitOnP {p : α → Bool} :
    ∀ {s w : List α}, w ∈ s.splitOnP p → ∀ c ∈ w, p c = false
  | [], w, hw => by
    rw [List.splitOnP_nil, List.mem_singleton] at hw
    subst hw
    intro c hc
    cases hc
  | x :: xs, w, hw => by
    rw [List.splitOnP_cons_eq_if_modifyHead] at hw
    by_cases hx : p x = true
    · rw [if_pos hx, List.mem_cons] at hw
      rcases hw with rfl | hw
      · intro c hc
        cases hc
      · exact not_of_mem_splitOnP hw
    · -- `x` joins the first part of the rest
      rw [if_neg hx] at hw
      obtain ⟨r, rs, hr⟩ := List.exists_cons_of_ne_nil (List.splitOnP_ne_nil p xs)
      rw [hr, List.modifyHead_cons, List.mem_cons] at hw
      rcases hw with rfl | hw
      · intro c hc
        rcases List.mem_cons.mp hc with rfl | hc
        · simpa using hx
        · exact not_of_mem_splitOnP (hr ▸ List.mem_cons_self) c hc
      · exact not_of_mem_splitOnP (hr ▸ List.mem_cons_of_mem _ hw)

theorem not_mem_of_mem_splitOn [BEq α] [LawfulBEq α] {x : α} {s w : List α}
    (h : w ∈ s.splitOn x) : x ∉ w := by
  rw [List.splitOn_eq_splitOnP] at h
  intro hx
  simpa using not_of_mem_splitOnP h x hx

/-! ## Joining -/

/-- A join starts with its first part. -/
theorem intercalate_cons_eq (c : α) (l : List α) (ls : List (List α)) :
    ∃ t, [c].intercalate (l :: ls) = l ++ t := by
  cases ls with
  | nil => exact ⟨[], by simp⟩
  | cons l' ls => exact ⟨[c] ++ [c].intercalate (l' :: ls), by rw [List.intercalate_cons_cons,
      List.append_assoc]⟩

theorem intercalate_cons_ne_nil (c : α) {l : List α} (hl : l ≠ []) (ls : List (List α)) :
    [c].intercalate (l :: ls) ≠ [] := by
  obtain ⟨t, ht⟩ := intercalate_cons_eq c l ls
  rw [ht]
  exact fun h => hl (List.append_eq_nil_iff.mp h).1

/-- Joining with one more, empty, part adds a separator at the end. -/
theorem intercalate_append_nil (c : α) :
    ∀ {ls : List (List α)}, ls ≠ [] → [c].intercalate (ls ++ [[]]) = [c].intercalate ls ++ [c]
  | [], h => absurd rfl h
  | [l], _ => by simp [List.intercalate_cons_cons]
  | l :: l' :: ls, _ => by
    rw [List.cons_append, List.cons_append, List.intercalate_cons_cons, ← List.cons_append,
      intercalate_append_nil c (List.cons_ne_nil l' ls), List.intercalate_cons_cons]
    simp only [List.append_assoc]

/-- Two joins side by side are the join of their parts, with the last part of the first glued to
    the first part of the second. -/
theorem intercalate_append_intercalate (c : α) (u v : List α) (B : List (List α)) :
    ∀ A : List (List α), [c].intercalate (A ++ [u]) ++ [c].intercalate (v :: B) =
      [c].intercalate (A ++ (u ++ v) :: B)
  | [] => by
    cases B with
    | nil => simp
    | cons b B => simp [List.append_assoc]
  | a :: A => by
    rw [List.cons_append, List.cons_append,
      List.intercalate_cons_of_ne_nil (show A ++ [u] ≠ [] by simp),
      List.intercalate_cons_of_ne_nil (show A ++ (u ++ v) :: B ≠ [] by simp), List.append_assoc,
      intercalate_append_intercalate c u v B A]

/-- **Splitting a concatenation**: the last part of the first text's split runs on into the first
    part of the second's. -/
theorem splitOn_append [BEq α] [LawfulBEq α] {x : α} {a b u v : List α} {A B : List (List α)}
    (ha : a.splitOn x = A ++ [u]) (hb : b.splitOn x = v :: B) :
    (a ++ b).splitOn x = A ++ (u ++ v) :: B := by
  have ha' : [x].intercalate (A ++ [u]) = a := ha ▸ List.intercalate_splitOn x
  have hb' : [x].intercalate (v :: B) = b := hb ▸ List.intercalate_splitOn x
  rw [← ha', ← hb', intercalate_append_intercalate]
  apply List.splitOn_intercalate x _ (by simp)
  -- no part holds the separator: the glued one is made of two parts of the splits
  have hA : ∀ l ∈ A ++ [u], x ∉ l := fun l hl => not_mem_of_mem_splitOn (ha ▸ hl)
  have hB : ∀ l ∈ v :: B, x ∉ l := fun l hl => not_mem_of_mem_splitOn (hb ▸ hl)
  intro l hl
  rcases List.mem_append.mp hl with hl | hl
  · exact hA l (List.mem_append_left _ hl)
  · rcases List.mem_cons.mp hl with rfl | hl
    · rw [List.mem_append, not_or]
      exact ⟨hA u (by simp), hB v List.mem_cons_self⟩
    · exact hB l (List.mem_cons_of_mem v hl)

end Split

/-- Lines that are not empty and end in a character that is not whitespace join into a text
    that ends so too. -/
theorem rstrip_intercalate (c : Char) :
    ∀ {ls : List (List Char)}, ls ≠ [] → (∀ l ∈ ls, l ≠ [] ∧ rstrip l = l) →
      rstrip ([c].intercalate ls) = [c].intercalate ls
  | [], h, _ => absurd rfl h
  | [l], _, h => by
    rw [List.intercalate_singleton]
    exact (h l List.mem_cons_self).2
  | l :: l' :: ls, _, h => by
    have ih := rstrip_intercalate c (List.cons_ne_nil l' ls)
      fun m hm => h m (List.mem_cons_of_mem _ hm)
    have hne := intercalate_cons_ne_nil c (h l' (by simp)).1 ls
    rw [List.intercalate_cons_cons, rstrip_append_of_ne_nil _ (by rw [ih]; exact hne), ih]

end PyStr
