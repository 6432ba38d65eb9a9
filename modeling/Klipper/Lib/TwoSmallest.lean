import Mathlib

/-
  The single-pass scan for the two smallest keys of a list.

  The scan keeps the smallest key, the element it belongs to, and the next smallest key,
  both starting at a sentinel `never` above every key.  A key below the second smallest
  replaces it, and when it is also below the smallest it becomes the smallest and the old
  smallest moves down to second place.  On a list without repeats the result gives, for
  every element, the smallest key among the other elements: the second smallest for the
  element that holds the minimum, the minimum for every other one, and the element's own key
  when it is alone (`scan_minOthers`).  That smallest key among the others only rises when the
  keys rise (`MinOthers.mono`).
-/

namespace TwoSmallest

variable {α T : Type*} [LinearOrder T]

/-- The scan's state: the smallest key, the next smallest, and the element of the smallest. -/
structure Scan (α T : Type*) where
  minT : T
  nextT : T
  minA : Option α

/-- One element of the scan. -/
def step (f : α → T) (s : Scan α T) (a : α) : Scan α T :=
  if f a < s.nextT then
    if f a < s.minT then ⟨f a, s.minT, some a⟩ else ⟨s.minT, f a, s.minA⟩
  else s

/-- The scan of a list, from the sentinel `never`. -/
def scan (f : α → T) (never : T) (l : List α) : Scan α T :=
  l.foldl (step f) ⟨never, never, none⟩

/-- The key a scan gives element `c`: the second smallest if `c` holds the smallest (its own
    key if there is no second), the smallest otherwise. -/
def othersKey (never : T) (s : Scan α T) (c : α) [DecidableEq α] : T :=
  if s.minA = some c then (if s.nextT = never then s.minT else s.nextT) else s.minT

/-- What a scan has found over the elements `p` seen so far. -/
structure Found (f : α → T) (never : T) (p : List α) (s : Scan α T) : Prop where
  le : s.minT ≤ s.nextT
  none : s.minA = none → p = [] ∧ s.minT = never ∧ s.nextT = never
  some : ∀ a, s.minA = some a → a ∈ p ∧ s.minT = f a ∧ (∀ b ∈ p, f a ≤ f b) ∧
    (∀ b ∈ p, b ≠ a → s.nextT ≤ f b) ∧ (s.nextT = never ∨ ∃ b ∈ p, b ≠ a ∧ s.nextT = f b)

variable {f : α → T} {never : T}

theorem found_nil : Found f never [] (⟨never, never, none⟩ : Scan α T) :=
  ⟨le_refl _, fun _ => ⟨rfl, rfl, rfl⟩, fun _ h => by cases h⟩

/-- **Step lemma.**  A new element below the sentinel keeps what the scan has found. -/
theorem found_step {p : List α} {s : Scan α T} {a : α} (h : Found f never p s) (ha : a ∉ p)
    (hlt : f a < never) : Found f never (p ++ [a]) (step f s a) := by
  cases hmin : s.minA with
  | none =>
    -- the first element: it is the smallest and there is no second
    obtain ⟨rfl, hminT, hnextT⟩ := h.none hmin
    have hstep : step f s a = ⟨f a, never, some a⟩ := by
      simp [step, hminT, hnextT, hlt]
    rw [hstep]
    refine ⟨le_of_lt hlt, (fun h => by cases h), fun b hb => ?_⟩
    cases hb
    simp
  | some c =>
    obtain ⟨hc, hminT, hle, hnext, hwit⟩ := h.some c hmin
    have hca : c ≠ a := fun e => ha (e ▸ hc)
    unfold step
    split_ifs with hnew hbelow
    -- in each case the facts over `p ++ [a]` split into the old elements and the new one
    · -- below both: `a` is the new smallest and the old smallest is second
      refine ⟨le_of_lt hbelow, (fun h => by cases h), fun b hb => ?_⟩
      cases hb
      refine ⟨by simp, rfl, List.forall_mem_append.mpr ⟨fun x hx => ?_, by simp⟩,
        List.forall_mem_append.mpr ⟨fun x hx _ => hminT ▸ hle x hx, by simp⟩,
        .inr ⟨c, by simp [hc], hca, hminT⟩⟩
      exact le_of_lt (lt_of_lt_of_le (hminT ▸ hbelow) (hle x hx))
    · -- below the second only: `a` is the new second
      refine ⟨not_lt.mp hbelow, (fun h => by rw [hmin] at h; cases h), fun b hb => ?_⟩
      rw [hmin] at hb
      cases hb
      refine ⟨by simp [hc], hminT, List.forall_mem_append.mpr ⟨hle, by simpa [← hminT] using hbelow⟩,
        List.forall_mem_append.mpr ⟨fun x hx hxc => ?_, by simp⟩, .inr ⟨a, by simp, hca.symm, rfl⟩⟩
      exact le_of_lt (lt_of_lt_of_le hnew (hnext x hx hxc))
    · -- above the second: nothing changes
      refine ⟨h.le, (fun h' => by rw [hmin] at h'; cases h'), fun b hb => ?_⟩
      rw [hmin] at hb
      cases hb
      have hge : s.nextT ≤ f a := not_lt.mp hnew
      refine ⟨by simp [hc], hminT, List.forall_mem_append.mpr ⟨hle, ?_⟩,
        List.forall_mem_append.mpr ⟨hnext, by simpa using fun _ => hge⟩, ?_⟩
      · simpa [← hminT] using h.le.trans hge
      · rcases hwit with hw | ⟨x, hx, hxc, hx'⟩
        · exact .inl hw
        · exact .inr ⟨x, List.mem_append_left _ hx, hxc, hx'⟩

/-- **Run lemma.**  The scan of the rest of a list keeps what was found. -/
theorem found_foldl {p : List α} {s : Scan α T} (h : Found f never p s) (l : List α)
    (hnd : (p ++ l).Nodup) (hlt : ∀ a ∈ l, f a < never) :
    Found f never (p ++ l) (l.foldl (step f) s) := by
  induction l generalizing p s with
  | nil => simpa using h
  | cons a l ih =>
    have ha : a ∉ p := fun hp => (List.nodup_append.mp hnd).2.2 a hp a (by simp) rfl
    have h' := found_step h ha (hlt a (by simp))
    rw [List.foldl_cons, show p ++ a :: l = (p ++ [a]) ++ l by simp]
    exact ih h' (by simpa using hnd) (fun b hb => hlt b (by simp [hb]))

/-- `t` is the smallest key among the elements of `l` other than `c`, or `c`'s own key when `c`
    is alone. -/
def MinOthers (f : α → T) (l : List α) (c : α) (t : T) : Prop :=
  (∀ b ∈ l, b ≠ c → t ≤ f b) ∧ ((∃ b ∈ l, b ≠ c ∧ t = f b) ∨ ((∀ b ∈ l, b = c) ∧ t = f c))

/-- Raising keys raises the smallest key among the others. -/
theorem MinOthers.mono {g : α → T} {l : List α} {c : α} {t t' : T} (hfg : ∀ a ∈ l, f a ≤ g a)
    (hc : c ∈ l) (ht : MinOthers f l c t) (ht' : MinOthers g l c t') : t ≤ t' := by
  rcases ht'.2 with ⟨b, hb, hbc, rfl⟩ | ⟨halone, rfl⟩
  · exact (ht.1 b hb hbc).trans (hfg b hb)
  · rcases ht.2 with ⟨b, hb, hbc, -⟩ | ⟨-, rfl⟩
    · exact absurd (halone b hb) hbc
    · exact hfg c hc

/-- The smallest key among the others is the key of an element of the list. -/
theorem MinOthers.exists_eq {l : List α} {c : α} {t : T} (hc : c ∈ l) (ht : MinOthers f l c t) :
    ∃ b ∈ l, t = f b := by
  rcases ht.2 with ⟨b, hb, -, rfl⟩ | ⟨-, rfl⟩
  · exact ⟨b, hb, rfl⟩
  · exact ⟨c, hc, rfl⟩

/-- There is one smallest key among the others. -/
theorem MinOthers.unique {l : List α} {c : α} {t t' : T} (hc : c ∈ l) (ht : MinOthers f l c t)
    (ht' : MinOthers f l c t') : t = t' :=
  le_antisymm (ht.mono (fun _ _ => le_rfl) hc ht') (ht'.mono (fun _ _ => le_rfl) hc ht)

/-- **The smallest key among the others.**  For each element `c` of a list without repeats and
    with every key below the sentinel, the scan's key for `c` is the smallest key among the
    other elements, or `c`'s own key when `c` is alone. -/
theorem scan_minOthers [DecidableEq α] {l : List α} (hnd : l.Nodup) (hlt : ∀ a ∈ l, f a < never)
    {c : α} (hc : c ∈ l) : MinOthers f l c (othersKey never (scan f never l) c) := by
  have h : Found f never l (scan f never l) :=
    found_foldl found_nil l (by simpa using hnd) hlt
  cases hmin : (scan f never l).minA with
  | none => exact absurd hc (by rw [(h.none hmin).1]; simp)
  | some a =>
    obtain ⟨ha, hminT, hle, hnext, hwit⟩ := h.some a hmin
    by_cases hac : a = c
    · -- `c` holds the smallest key: the second smallest, or its own key when alone
      subst hac
      simp only [othersKey, hmin, if_true]
      rcases hwit with hnever | ⟨b, hb, hba, hbeq⟩
      · -- no second: every other element would have a key at or above the sentinel
        have halone : ∀ b ∈ l, b = a := fun b hb => by
          by_contra hba
          exact absurd (hnext b hb hba) (not_le.mpr (lt_of_lt_of_eq (hlt b hb) hnever.symm))
        rw [if_pos hnever]
        exact ⟨fun b hb hba => absurd (halone b hb) hba, .inr ⟨halone, hminT⟩⟩
      · have hne : (scan f never l).nextT ≠ never := hbeq ▸ (hlt b hb).ne
        rw [if_neg hne]
        exact ⟨hnext, .inl ⟨b, hb, hba, hbeq⟩⟩
    · -- another element holds the smallest key
      have hothers : othersKey never (scan f never l) c = f a := by
        simp [othersKey, hmin, hac, hminT]
      rw [hothers]
      exact ⟨fun b hb _ => hle b hb, .inl ⟨a, ha, hac, rfl⟩⟩

end TwoSmallest
