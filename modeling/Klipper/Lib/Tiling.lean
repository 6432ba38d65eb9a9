import Mathlib

/-
  Pieces of a line laid end to end.

  A list of pieces, each with a `start` and a `stop` in a linear order, tiles a stretch of the
  line when every piece starts where the one before it stops and no piece is empty (`Tiles`).
  That is the local condition a queue of timed pieces can keep one operation at a time: adding a
  piece that starts where the last one stops (`Tiles.concat`), and dropping pieces from the front
  (`Tiles.suffix`).  The global facts follow from it: each piece stops no later than every later
  piece starts (`Tiles.stop_le_start`), so starts and stops increase along the list, and every
  point of the stretch from the first start to the last stop lies in exactly one piece
  (`Tiles.exists_cover`, `Tiles.cover_unique`).  Because stops increase, the pieces that stop by a
  given point are a prefix: taking or dropping them from the front is filtering
  (`Tiles.takeWhile_stop_le`, `Tiles.dropWhile_stop_le`).
-/

namespace Tiling

section Lists

variable {α : Type*} {p : α → Bool}

/-- On a list where `p` holds of everything before an element it holds of, the longest prefix
    where `p` holds is everything where it holds. -/
theorem takeWhile_eq_filter :
    ∀ {l : List α}, l.Pairwise (fun a b => p b → p a) → l.takeWhile p = l.filter p
  | [], _ => rfl
  | a :: l, h => by
    rw [List.pairwise_cons] at h
    by_cases ha : p a = true
    · rw [List.takeWhile_cons_of_pos ha, List.filter_cons_of_pos ha, takeWhile_eq_filter h.2]
    · -- nothing after `a` satisfies `p` either
      have hnone : l.filter p = [] :=
        List.filter_eq_nil_iff.mpr fun b hb hpb => ha (h.1 b hb hpb)
      rw [List.takeWhile_cons_of_neg ha, List.filter_cons_of_neg ha, hnone]

theorem dropWhile_eq_filter :
    ∀ {l : List α}, l.Pairwise (fun a b => p b → p a) → l.dropWhile p = l.filter (fun a => !p a)
  | [], _ => rfl
  | a :: l, h => by
    rw [List.pairwise_cons] at h
    by_cases ha : p a = true
    · rw [List.dropWhile_cons_of_pos ha, List.filter_cons_of_neg (by simp [ha]),
        dropWhile_eq_filter h.2]
    · have hall : l.filter (fun a => !p a) = l :=
        List.filter_eq_self.mpr fun b hb => by simpa using fun hpb => ha (h.1 b hb hpb)
      rw [List.dropWhile_cons_of_neg ha, List.filter_cons_of_pos (by simpa using ha), hall]

/-- Dropping a prefix that leaves something keeps the last element. -/
theorem getLast?_dropWhile {l : List α} (h : l.dropWhile p ≠ []) :
    (l.dropWhile p).getLast? = l.getLast? := by
  conv_rhs => rw [← List.takeWhile_append_dropWhile (p := p) (l := l)]
  rw [List.getLast?_append_of_ne_nil _ h]

end Lists

variable {α β : Type*} [LinearOrder α] {start stop : β → α}

/-- Pieces laid end to end: each starts where the one before it stops, and none is empty. -/
structure Tiles (start stop : β → α) (l : List β) : Prop where
  adjacent : l.IsChain fun a b => start b = stop a
  start_lt_stop : ∀ x ∈ l, start x < stop x

theorem Tiles.nil : Tiles start stop [] :=
  ⟨.nil, fun _ h => absurd h List.not_mem_nil⟩

/-- A piece that starts where the last one stops extends the tiling. -/
theorem Tiles.concat {l : List β} {y : β} (h : Tiles start stop l)
    (hy : ∀ x ∈ l.getLast?, start y = stop x) (hne : start y < stop y) :
    Tiles start stop (l ++ [y]) := by
  refine ⟨h.adjacent.append (List.isChain_singleton y) ?_, ?_⟩
  · intro x hx z hz
    rw [List.head?_cons, Option.mem_some_iff] at hz
    subst hz
    exact hy x hx
  · intro x hx
    rcases List.mem_append.mp hx with hx | hx
    · exact h.start_lt_stop x hx
    · rw [List.mem_singleton] at hx
      subst hx
      exact hne

/-- The pieces from some point on still tile. -/
theorem Tiles.suffix {l l' : List β} (h : Tiles start stop l) (hs : l' <:+ l) :
    Tiles start stop l' :=
  ⟨h.adjacent.suffix hs, fun x hx => h.start_lt_stop x (hs.subset hx)⟩

/-- Each piece stops no later than every later piece starts. -/
theorem Tiles.stop_le_start :
    ∀ {l : List β}, Tiles start stop l → l.Pairwise fun a b => stop a ≤ start b
  | [], _ => .nil
  | [_], _ => List.pairwise_singleton _ _
  | a :: b :: l, h => by
    have ih := Tiles.stop_le_start (h.suffix (List.suffix_cons a (b :: l)))
    have hab : start b = stop a := (List.isChain_cons_cons.mp h.adjacent).1
    refine List.Pairwise.cons ?_ ih
    intro c hc
    rcases List.mem_cons.mp hc with rfl | hc
    · exact hab.ge
    · -- `a` stops where `b` starts, and `b` stops before `c` starts
      have hbc : stop b ≤ start c := (List.pairwise_cons.mp ih).1 c hc
      have hb : start b < stop b := h.start_lt_stop b (by simp)
      calc stop a = start b := hab.symm
        _ ≤ stop b := hb.le
        _ ≤ start c := hbc

theorem Tiles.start_lt {l : List β} (h : Tiles start stop l) :
    l.Pairwise fun a b => start a < start b :=
  List.Pairwise.imp_of_mem (fun {a _} ha _ hab => lt_of_lt_of_le (h.start_lt_stop a ha) hab)
    h.stop_le_start

theorem Tiles.stop_lt {l : List β} (h : Tiles start stop l) :
    l.Pairwise fun a b => stop a < stop b :=
  List.Pairwise.imp_of_mem (fun {_ b} _ hb hab => lt_of_le_of_lt hab (h.start_lt_stop b hb))
    h.stop_le_start

/-- Every point from the first start to the last stop lies in some piece. -/
theorem Tiles.exists_cover {τ : α} :
    ∀ {l : List β} (_ : Tiles start stop l) (hl : l ≠ []), start (l.head hl) ≤ τ →
      τ < stop (l.getLast hl) → ∃ x ∈ l, start x ≤ τ ∧ τ < stop x
  | [], _, hl, _, _ => absurd rfl hl
  | a :: l, h, _, h1, h2 => by
    by_cases hτ : τ < stop a
    · exact ⟨a, List.mem_cons_self, h1, hτ⟩
    · -- past `a`, so in the rest, which starts where `a` stops
      have hl : l ≠ [] := by
        rintro rfl
        exact hτ h2
      obtain ⟨b, l', rfl⟩ := List.exists_cons_of_ne_nil hl
      have hab : start b = stop a := (List.isChain_cons_cons.mp h.adjacent).1
      have hstart : start ((b :: l').head hl) ≤ τ := by
        rw [List.head_cons, hab]
        exact not_lt.mp hτ
      have hstop : τ < stop ((b :: l').getLast hl) := by
        rwa [List.getLast_cons hl] at h2
      obtain ⟨x, hx, hx1, hx2⟩ :=
        Tiles.exists_cover (h.suffix (List.suffix_cons a _)) hl hstart hstop
      exact ⟨x, List.mem_cons_of_mem a hx, hx1, hx2⟩

/-- No point lies in two pieces. -/
theorem Tiles.cover_unique {τ : α} {l : List β} (h : Tiles start stop l) {x y : β}
    (hx : x ∈ l) (hy : y ∈ l) (hxτ : start x ≤ τ ∧ τ < stop x) (hyτ : start y ≤ τ ∧ τ < stop y) :
    x = y := by
  induction l with
  | nil => exact absurd hx List.not_mem_nil
  | cons a l ih =>
    -- `a` stops before anything later starts, so `τ` cannot lie in `a` and in a later piece
    have hle := (List.pairwise_cons.mp h.stop_le_start).1
    rcases List.mem_cons.mp hx with hxa | hxl <;> rcases List.mem_cons.mp hy with hya | hyl
    · rw [hxa, hya]
    · rw [hxa] at hxτ
      exact absurd (lt_of_lt_of_le hxτ.2 ((hle y hyl).trans hyτ.1)) (lt_irrefl τ)
    · rw [hya] at hyτ
      exact absurd (lt_of_lt_of_le hyτ.2 ((hle x hxl).trans hxτ.1)) (lt_irrefl τ)
    · exact ih (h.suffix (List.suffix_cons a l)) hxl hyl

/-- The pieces that stop by `t` are the leading ones. -/
theorem Tiles.takeWhile_stop_le {l : List β} (h : Tiles start stop l) (t : α) :
    l.takeWhile (fun x => decide (stop x ≤ t)) = l.filter fun x => decide (stop x ≤ t) :=
  takeWhile_eq_filter (h.stop_lt.imp fun hab hb => by
    simp only [decide_eq_true_eq] at hb ⊢
    exact hab.le.trans hb)

theorem Tiles.dropWhile_stop_le {l : List β} (h : Tiles start stop l) (t : α) :
    l.dropWhile (fun x => decide (stop x ≤ t)) = l.filter fun x => decide (t < stop x) := by
  rw [dropWhile_eq_filter (h.stop_lt.imp fun hab hb => by
    simp only [decide_eq_true_eq] at hb ⊢
    exact hab.le.trans hb)]
  exact List.filter_congr fun x _ => by simp only [← not_lt, decide_not, Bool.not_not]

end Tiling
