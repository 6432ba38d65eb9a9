import Mathlib
import Klipper.Lib.Transducer
import Klipper.Host.LookaheadFlush

/-
  The look-ahead queue over a whole run of the toolhead: however the moves are queued and
  however the flushes fall, the moves handed to `_process_moves` make one profile from rest, in
  which each move fits its junction and starts at the speed the move before it ended at.

  A lazy flush hands on only the moves before the second peak its walk meets (its flush count)
  and keeps the others.  The first kept move sets a peak, and after it comes a move that can
  accelerate and whose two bounds agree (a shield).  The walk of a later flush, with more moves
  queued after these, meets the same values up to the shield, so it starts the first kept move
  where the last move handed on ended.

  1. **Shields** (`Shielded`, `Shielded.walkStartV2_append`, `Shielded.setsPeak_append`): the
     walk up to a shield does not see the moves queued after it.
  2. **Pending queues** (`Pending`, `Pending.append`, `Pending.min_walkStartV2_eq`): a queue
     and the speed its first move starts at in any flush that hands it on.
  3. **A lazy flush** (`Scanned`, `LazyWalked`, `LazyWalked.step`, `Pending.flush_lazy`): before
     its flush count the loop only walks; at the flush count it finds a shield behind it, and
     after it the loop sets junctions as a full flush does.
  4. **Calls** (`Pending.flush_full`, `Pending.addMove`, `Pending.step`).
  5. **Runs** (`lookahead_run_emits_continuous_profile`).
-/

namespace Klipper.Lookahead

open BackPass

variable {m d v : Move} {ms ext q pre post : List Move}

/-! ## Shields -/

/-- More moves after `ms` only raise its smoothed walk. -/
theorem walkSmoothedV2_le_append (hext : ∀ x ∈ ext, x.Ok) :
    walkSmoothedV2 ms ≤ walkSmoothedV2 (ms ++ ext) := by
  unfold walkSmoothedV2
  rw [backReach_append]
  exact backReach_mono (walkSmoothedV2_nonneg hext)

/-- Some move of `ms` can accelerate and has its smoothed bound at its start bound, so the walk
    of `flush` meets both bounds there. -/
def Shielded (ms : List Move) : Prop :=
  ∃ pre v post, ms = pre ++ v :: post ∧ Accelerates v post ∧ v.maxSmoothedV2 = v.maxStartV2

section Shield

variable (hs : Shielded ms) (hok : ∀ x ∈ ms ++ ext, x.Ok)
include hs hok

theorem Shielded.walkStartV2_append : walkStartV2 (ms ++ ext) = walkStartV2 ms := by
  obtain ⟨pre, v, post, rfl, hA, hsm⟩ := hs
  have hcap : walkStartV2 (v :: post) = v.maxStartV2 :=
    walkStartV2_cons_eq_of_capped
      (fun x hx => hok x (List.mem_append_left ext (List.mem_append_right pre hx))) hA hsm
  have hz : (0 : ℚ) ≤ backReach Move.maxStartV2 Move.deltaV2 0 ext :=
    walkStartV2_nonneg fun x hx => hok x (List.mem_append_right _ hx)
  unfold walkStartV2 at hcap ⊢
  rw [backReach_append, backReach_append_eq_of_capped hcap hz pre]

theorem Shielded.walkSmoothedV2_append : walkSmoothedV2 (ms ++ ext) = walkSmoothedV2 ms := by
  obtain ⟨pre, v, post, rfl, hA, -⟩ := hs
  have hcap : walkSmoothedV2 (v :: post) = v.maxSmoothedV2 := hA.walkSmoothedV2_eq
  have hz : (0 : ℚ) ≤ backReach Move.maxSmoothedV2 Move.smoothDeltaV2 0 ext :=
    walkSmoothedV2_nonneg fun x hx => hok x (List.mem_append_right _ hx)
  unfold walkSmoothedV2 at hcap ⊢
  rw [backReach_append, backReach_append_eq_of_capped hcap hz pre]

/-- A shield stays a shield with more moves after it. -/
theorem Shielded.append : Shielded (ms ++ ext) := by
  obtain ⟨pre, v, post, rfl, hA, hsm⟩ := hs
  have hle : walkSmoothedV2 post ≤ walkSmoothedV2 (post ++ ext) :=
    walkSmoothedV2_le_append fun x hx => hok x (List.mem_append_right _ hx)
  refine ⟨pre, v, post ++ ext, List.append_cons pre v post ▸ by simp, ?_, hsm⟩
  show v.maxSmoothedV2 < walkSmoothedV2 (post ++ ext) + v.smoothDeltaV2
  exact lt_of_lt_of_le hA (by linarith)

theorem Shielded.accelerates_append_iff : Accelerates m (ms ++ ext) ↔ Accelerates m ms := by
  unfold Accelerates
  rw [hs.walkSmoothedV2_append hok]

/-- Whether the first move of `ms` can accelerate does not depend on the moves after it. -/
theorem Shielded.leadAccel_of_append (h : LeadAccel (ms ++ ext)) : LeadAccel ms := by
  obtain ⟨pre, v, post, rfl, hA, hsm⟩ := hs
  cases pre with
  | nil => exact hA
  | cons p pre =>
    have hs' : Shielded (pre ++ v :: post) := ⟨pre, v, post, rfl, hA, hsm⟩
    have hok' : ∀ x ∈ pre ++ v :: post ++ ext, x.Ok := fun x hx => hok x (by simp_all)
    exact (hs'.accelerates_append_iff hok').mp (by simpa [LeadAccel] using h)

/-- A move that sets a peak in front of a shield sets it whatever is queued after. -/
theorem Shielded.setsPeak_append (h : SetsPeak m ms) : SetsPeak m (ms ++ ext) := by
  obtain ⟨hA, hP⟩ := h
  refine ⟨(hs.accelerates_append_iff hok).mpr hA, ?_⟩
  rw [hs.walkSmoothedV2_append hok]
  exact hP.imp id fun hnot hlead => hnot (hs.leadAccel_of_append hok hlead)

end Shield

/-! ## Pending queues -/

/-- The speed at which a move that sets a peak starts: `min(start_v2, peak)`. -/
def entryV2 (m : Move) (ms : List Move) : ℚ :=
  min (walkStartV2 (m :: ms)) (m.peakAt (walkSmoothedV2 ms))

/-- How the first move of a queue starts: at rest, or at the start of a peak in front of a
    shield. -/
def Entry : List Move → ℚ → Prop
  | [], e => e = 0
  | m :: ms, e => (m.maxStartV2 = 0 ∧ e = 0) ∨ (SetsPeak m ms ∧ Shielded ms ∧ e = entryV2 m ms)

/-- A queue whose first move starts at `e` in any flush that hands it on. -/
structure Pending (q : List Move) (e : ℚ) : Prop where
  ok : QueueOk q
  entry : Entry q e

/-- The first move of a pending queue can accelerate. -/
theorem Pending.leadAccel {e : ℚ} (hP : Pending q e) : LeadAccel q := by
  obtain ⟨hq, hentry⟩ := hP
  cases q with
  | nil => trivial
  | cons m ms =>
    rcases hentry with ⟨hM, -⟩ | ⟨⟨hA, -⟩, -⟩
    · have hSM : m.maxSmoothedV2 = 0 := (⟨hq.cons, hM⟩ : m.Fresh).maxSmoothedV2_eq
      show m.maxSmoothedV2 < walkSmoothedV2 ms + m.smoothDeltaV2
      linarith [walkSmoothedV2_nonneg hq.tail.ok, hq.cons.smoothDeltaV2_pos]
    · exact hA

/-- **Entry.**  A flush whose walk ends, at the first move, with the peak that move sets
    starts it at `e`. -/
theorem Pending.min_walkStartV2_eq {e p : ℚ} (hP : Pending q e) (hp0 : 0 ≤ p)
    (hp : ∀ m ms, q = m :: ms → SetsPeak m ms → p = m.peakAt (walkSmoothedV2 ms)) :
    min (walkStartV2 q) p = e := by
  obtain ⟨hq, hentry⟩ := hP
  cases q with
  | nil => exact (min_eq_left hp0).trans hentry.symm
  | cons m ms =>
    rcases hentry with ⟨hM, rfl⟩ | ⟨hSP, -, rfl⟩
    · -- a first move at rest starts the walk at `0`
      have hS : walkStartV2 (m :: ms) = 0 :=
        le_antisymm (backReach_cons_le_cap.trans_eq hM) (walkStartV2_nonneg hq.ok)
      rw [hS, min_eq_left hp0]
    · rw [hp m ms rfl hSP, entryV2]

/-- A queued move after the last one keeps a queue pending at the same speed. -/
theorem Pending.append {e : ℚ} (hP : Pending q e) (hq : q ≠ []) {x : Move} (hx : x.Ok)
    (hf : ∀ prev ∈ q.getLast?, Follows prev x) : Pending (q ++ [x]) e := by
  have hq' : QueueOk (q ++ [x]) := hP.ok.append hx hf
  refine ⟨hq', ?_⟩
  obtain ⟨-, hentry⟩ := hP
  cases q with
  | nil => exact absurd rfl hq
  | cons m ms =>
    change Entry (m :: (ms ++ [x])) e
    rcases hentry with hrest | ⟨hSP, hsh, rfl⟩
    · exact Or.inl hrest
    · have hok : ∀ y ∈ ms ++ [x], y.Ok := fun y hy => hq'.ok y (List.mem_cons_of_mem m hy)
      refine Or.inr ⟨hsh.setsPeak_append hok hSP, hsh.append hok, ?_⟩
      simp only [entryV2, walkStartV2_cons, hsh.walkStartV2_append hok,
        hsh.walkSmoothedV2_append hok]

/-! ## A lazy flush -/

/-- Moves waiting in front of `T` end with one waiting in front of `T` itself. -/
theorem AllDelayed.last {dl T : List Move} (h : AllDelayed (dl ++ [d]) T) :
    ¬ Accelerates d T := by
  induction dl with
  | nil => exact h.1
  | cons x dl ih => exact ih h.2

section Scan

variable {st : FlushState} {i : Nat} (hu : st.updateFlushCount = true)
  (hA : m.maxSmoothedV2 < st.nextSmoothedV2 + m.smoothDeltaV2)
include hu hA

/-- Before its flush count, a lazy flush lets a move that can only accelerate go by. -/
theorem flushStep_scan_keep (hK : m.maxSmoothedV2 + m.smoothDeltaV2 ≤ st.nextSmoothedV2)
    (hd : st.delayed = []) :
    flushStep st i m = { st with
      nextEndV2 := min m.maxStartV2 (st.nextEndV2 + m.deltaV2),
      nextSmoothedV2 := m.maxSmoothedV2 } := by
  have hmin : min m.maxSmoothedV2 (st.nextSmoothedV2 + m.smoothDeltaV2) = m.maxSmoothedV2 :=
    min_eq_left hA.le
  have hK' : ¬ (m.maxSmoothedV2 + m.smoothDeltaV2 > st.nextSmoothedV2) := not_lt.mpr hK
  simp [flushStep, hmin, hA, hK', hd, hu]

/-- The first peak of a lazy flush: the waiting moves are dropped without junctions. -/
theorem flushStep_scan_peak
    (hP : st.nextSmoothedV2 < m.maxSmoothedV2 + m.smoothDeltaV2 ∨ st.delayed ≠ [])
    (h0 : st.peakCruiseV2 = 0) :
    flushStep st i m = { st with
      peakCruiseV2 := m.peakAt st.nextSmoothedV2,
      delayed := [],
      nextEndV2 := min m.maxStartV2 (st.nextEndV2 + m.deltaV2),
      nextSmoothedV2 := m.maxSmoothedV2 } := by
  have hmin : min m.maxSmoothedV2 (st.nextSmoothedV2 + m.smoothDeltaV2) = m.maxSmoothedV2 :=
    min_eq_left hA.le
  cases hd : st.delayed with
  | nil =>
    have hP' : st.nextSmoothedV2 < m.maxSmoothedV2 + m.smoothDeltaV2 := by simpa [hd] using hP
    simp [flushStep, hmin, hA, hP', hd, hu, h0, Move.peakAt]
  | cons e es => simp [flushStep, hmin, hA, hd, hu, h0, Move.peakAt]

/-- **The flush count.**  The second peak of a lazy flush: the moves before this one are the
    ones handed on, and the loop sets their junctions from here on. -/
theorem flushStep_cut
    (hP : st.nextSmoothedV2 < m.maxSmoothedV2 + m.smoothDeltaV2 ∨ st.delayed ≠ [])
    (h0 : st.peakCruiseV2 ≠ 0) :
    flushStep st i m = { st with
      flushCount := i,
      updateFlushCount := false,
      peakCruiseV2 := m.peakAt st.nextSmoothedV2,
      delayed := [],
      nextEndV2 := min m.maxStartV2 (st.nextEndV2 + m.deltaV2),
      nextSmoothedV2 := m.maxSmoothedV2 } := by
  have hmin : min m.maxSmoothedV2 (st.nextSmoothedV2 + m.smoothDeltaV2) = m.maxSmoothedV2 :=
    min_eq_left hA.le
  cases hd : st.delayed with
  | nil =>
    have hP' : st.nextSmoothedV2 < m.maxSmoothedV2 + m.smoothDeltaV2 := by simpa [hd] using hP
    simp [flushStep, hmin, hA, hP', hd, hu, h0, Move.peakAt]
  | cons e es => simp [flushStep, hmin, hA, hd, hu, h0, Move.peakAt]

end Scan

/-- What the loop of a lazy flush has done after the moves `dl ++ done` from index `k` on,
    before it found its flush count: the moves `dl` wait for a peak, and a peak was set only
    after a move that can accelerate. -/
structure Scanned (n k : Nat) (dl done : List Move) (st : FlushState) : Prop where
  updateFlushCount_eq : st.updateFlushCount = true
  flushCount_eq : st.flushCount = n
  nextEndV2_eq : st.nextEndV2 = walkStartV2 (dl ++ done)
  nextSmoothedV2_eq : st.nextSmoothedV2 = walkSmoothedV2 (dl ++ done)
  delayed_eq : st.delayed = (delayedEntries k dl done).reverse
  allDelayed : AllDelayed dl done
  lead : LeadAccel done
  peak_ne : st.peakCruiseV2 ≠ 0 → done ≠ []

section ScanStep

variable {n k : Nat} {dl done : List Move} {st : FlushState}

theorem Scanned.delay (hS : Scanned n (k + 1) dl done st) (hD : ¬ Accelerates m (dl ++ done)) :
    Scanned n k (m :: dl) done (flushStep st k m) := by
  have hle : walkSmoothedV2 (dl ++ done) + m.smoothDeltaV2 ≤ m.maxSmoothedV2 := not_lt.mp hD
  rw [flushStep_delay (hS.nextSmoothedV2_eq ▸ hle)]
  refine ⟨hS.updateFlushCount_eq, hS.flushCount_eq, ?_, ?_, ?_, ⟨hD, hS.allDelayed⟩, hS.lead,
    hS.peak_ne⟩
  · simp only [hS.nextEndV2_eq, List.cons_append, walkStartV2_cons]
  · simp only [hS.nextSmoothedV2_eq, List.cons_append, walkSmoothedV2_cons, min_eq_right hle]
  · simp only [hS.delayed_eq, hS.nextEndV2_eq, delayedEntries, List.reverse_cons,
      walkStartV2_cons]

theorem Scanned.keep (hS : Scanned n (k + 1) [] done st) (hA : Accelerates m done)
    (hK : m.maxSmoothedV2 + m.smoothDeltaV2 ≤ walkSmoothedV2 done) :
    Scanned n k [] (m :: done) (flushStep st k m) := by
  have hSm : st.nextSmoothedV2 = walkSmoothedV2 done := by simpa using hS.nextSmoothedV2_eq
  have hd : st.delayed = [] := by simpa [delayedEntries] using hS.delayed_eq
  rw [flushStep_scan_keep hS.updateFlushCount_eq (hSm ▸ hA) (hSm ▸ hK) hd]
  refine ⟨hS.updateFlushCount_eq, hS.flushCount_eq, ?_, ?_, ?_, trivial, hA,
    fun _ => List.cons_ne_nil m done⟩
  · simp only [hS.nextEndV2_eq, List.nil_append, walkStartV2_cons]
  · simp only [List.nil_append, hA.walkSmoothedV2_eq]
  · simp only [hd, delayedEntries, List.reverse_nil]

/-- Ahead of a move that sets a peak there is a shield, once a move that can accelerate came
    after the waiting ones: the first move after the peak's move or after the waiting block. -/
theorem shielded_of_setsPeak (hq : QueueOk (m :: (dl ++ done))) (hSP : SetsPeak m (dl ++ done))
    (hdl : AllDelayed dl done) (hlead : LeadAccel done) (hne : done ≠ []) :
    Shielded (dl ++ done) := by
  obtain ⟨v, post, rfl⟩ := List.exists_cons_of_ne_nil hne
  refine ⟨dl, v, post, rfl, hlead, ?_⟩
  rcases List.eq_nil_or_concat' dl with rfl | ⟨dl', d, rfl⟩
  · -- the peak's move comes right before `v`, and `v` is below what it could reach
    have hlt : walkSmoothedV2 (v :: post) < m.maxSmoothedV2 + m.smoothDeltaV2 :=
      hSP.2.resolve_right (not_not.mpr hlead)
    exact hq.follows.maxSmoothedV2_eq_maxStartV2 hlead hlt
  · -- the last waiting move `d` comes right before `v`
    have hq' : QueueOk (d :: v :: post) := (show QueueOk ((m :: dl') ++ d :: v :: post) by
      simpa using hq).of_append
    exact hq'.follows.maxSmoothedV2_eq_maxStartV2 hlead
      (walkSmoothedV2_lt_of_not_accelerates hq'.cons hdl.last)

/-- The first peak of a lazy flush. -/
theorem Scanned.firstPeak (hS : Scanned n (k + 1) dl done st) (hSP : SetsPeak m (dl ++ done))
    (h0 : st.peakCruiseV2 = 0) : Scanned n k [] (m :: (dl ++ done)) (flushStep st k m) := by
  have hA := hSP.1
  have hP' : st.nextSmoothedV2 < m.maxSmoothedV2 + m.smoothDeltaV2 ∨ st.delayed ≠ [] := by
    rw [hS.nextSmoothedV2_eq, hS.delayed_eq]
    exact (hSP.cond hS.allDelayed hS.lead).imp id delayedEntries_reverse_ne_nil
  rw [flushStep_scan_peak hS.updateFlushCount_eq (hS.nextSmoothedV2_eq ▸ hA) hP' h0]
  refine ⟨hS.updateFlushCount_eq, hS.flushCount_eq, ?_, ?_, rfl, trivial, hA,
    fun _ => List.cons_ne_nil _ _⟩
  · simp only [hS.nextEndV2_eq, List.nil_append, walkStartV2_cons]
  · simp only [List.nil_append, hA.walkSmoothedV2_eq]

/-- At its flush count a lazy flush keeps a move that sets a peak in front of a shield, and
    from there walks as a full flush of the moves before it would. -/
theorem Scanned.cut (hS : Scanned n (k + 1) dl done st) (hq : QueueOk (m :: (dl ++ done)))
    (hSP : SetsPeak m (dl ++ done)) (h0 : st.peakCruiseV2 ≠ 0) :
    Shielded (dl ++ done) ∧
      Walked k k [] [] (m :: (dl ++ done)) (entryV2 m (dl ++ done)) (flushStep st k m) := by
  refine ⟨shielded_of_setsPeak hq hSP hS.allDelayed hS.lead (hS.peak_ne h0), ?_⟩
  have hA := hSP.1
  have hP' : st.nextSmoothedV2 < m.maxSmoothedV2 + m.smoothDeltaV2 ∨ st.delayed ≠ [] := by
    rw [hS.nextSmoothedV2_eq, hS.delayed_eq]
    exact (hSP.cond hS.allDelayed hS.lead).imp id delayedEntries_reverse_ne_nil
  rw [flushStep_cut hS.updateFlushCount_eq (hS.nextSmoothedV2_eq ▸ hA) hP' h0,
    hS.nextSmoothedV2_eq]
  refine ⟨rfl, rfl, ?_, ?_, rfl, trivial, hA, ?_, rfl,
    fun _ _ _ h => absurd h.symm (List.cons_ne_nil _ _)⟩
  · simp only [hS.nextEndV2_eq, List.nil_append, walkStartV2_cons]
  · simp only [List.nil_append, hA.walkSmoothedV2_eq]
  · simp only [List.nil_append, hA.walkSmoothedV2_eq]
    exact le_peakAt hq.cons hA

end ScanStep

/-- What the loop of a lazy flush has done after the moves `l` from index `k` on: it is still
    looking for its flush count, or it found it at a move `c` that sets a peak in front of a
    shield, and sets junctions for the moves before `c`. -/
def LazyWalked (n k : Nat) (l : List Move) (st : FlushState) : Prop :=
  (∃ dl done, l = dl ++ done ∧ Scanned n k dl done st) ∨
  ∃ pre c post, l = pre ++ c :: post ∧ SetsPeak c post ∧ Shielded post ∧
    ∃ dl done, pre = dl ++ done ∧ Walked (k + pre.length) k dl done (c :: post) (entryV2 c post) st

/-- **Step lemma** of a lazy flush. -/
theorem LazyWalked.step {n k : Nat} {l : List Move} {st : FlushState}
    (hL : LazyWalked n (k + 1) l st) (hq : QueueOk (m :: l)) :
    LazyWalked n k (m :: l) (flushStep st k m) := by
  rcases hL with ⟨dl, done, rfl, hS⟩ | ⟨pre, c, post, rfl, hSP, hsh, dl, done, rfl, hW⟩
  · -- still looking for the flush count
    by_cases hA : Accelerates m (dl ++ done)
    · by_cases hSP : SetsPeak m (dl ++ done)
      · by_cases h0 : st.peakCruiseV2 = 0
        · exact Or.inl ⟨[], m :: (dl ++ done), rfl, hS.firstPeak hSP h0⟩
        · obtain ⟨hsh, hW⟩ := hS.cut hq hSP h0
          exact Or.inr ⟨[], m, dl ++ done, rfl, hSP, hsh, [], [], rfl, hW⟩
      · obtain ⟨rfl, hK⟩ := not_setsPeak hA hSP hS.allDelayed hS.lead
        exact Or.inl ⟨[], m :: done, rfl, hS.keep hA hK⟩
    · exact Or.inl ⟨m :: dl, done, rfl, hS.delay hA⟩
  · -- past the flush count the loop sets junctions
    obtain ⟨dl', done', heq, hW'⟩ := hW.step (by omega) (by simpa using hq)
    have hN : k + 1 + (dl ++ done).length = k + (m :: (dl ++ done)).length := by
      simp only [List.length_cons]
      omega
    exact Or.inr ⟨m :: (dl ++ done), c, post, by simp, hSP, hsh, dl', done', heq, hN ▸ hW'⟩

/-- **Run lemma** of a lazy flush. -/
theorem lazyWalked_flushLoop (n : Nat) (l : List Move) :
    ∀ k, k + l.length = n → QueueOk l →
      LazyWalked n k l (flushLoop (l.zipIdx k) (FlushState.init true n)) := by
  induction l with
  | nil =>
    intro k hk _
    simp only [List.length_nil, Nat.add_zero] at hk
    subst hk
    exact Or.inl ⟨[], [], rfl, rfl, rfl, rfl, rfl, rfl, trivial, trivial, fun h => absurd rfl h⟩
  | cons m l ih =>
    intro k hk hq
    simp only [List.length_cons] at hk
    rw [List.zipIdx_cons, flushLoop]
    exact (ih (k + 1) (by omega) hq.tail).step hq

/-- **A lazy flush.**  It hands on the moves before its flush count from where the queue's first
    move starts, and keeps the others pending at the speed the last one handed on ends at. -/
theorem Pending.flush_lazy {e : ℚ} (hP : Pending q e) (jf : ℚ) :
    ∃ e', Emits (LookAheadQueue.flush ⟨q, jf⟩ true).2 e e' ∧
      Pending (LookAheadQueue.flush ⟨q, jf⟩ true).1.queue e' ∧
      (LookAheadQueue.flush ⟨q, jf⟩ true).2.map Prod.fst ++
        (LookAheadQueue.flush ⟨q, jf⟩ true).1.queue = q := by
  have hL := lazyWalked_flushLoop q.length q 0 (by simp) hP.ok
  set st := flushLoop q.zipIdx (FlushState.init true q.length) with hst
  -- a flush that hands nothing on keeps the queue
  have hnone : st.updateFlushCount = true ∨ st.flushCount = 0 →
      ∃ e', Emits (LookAheadQueue.flush ⟨q, jf⟩ true).2 e e' ∧
        Pending (LookAheadQueue.flush ⟨q, jf⟩ true).1.queue e' ∧
        (LookAheadQueue.flush ⟨q, jf⟩ true).2.map Prod.fst ++
          (LookAheadQueue.flush ⟨q, jf⟩ true).1.queue = q := by
    intro h
    have hc : (st.updateFlushCount || st.flushCount == 0) = true := by
      rcases h with h | h <;> simp [h]
    simp only [LookAheadQueue.flush, ← hst, hc, if_true]
    exact ⟨e, rfl, hP, rfl⟩
  rcases hL with ⟨dl, done, -, hS⟩ | ⟨pre, c, post, hsplit, hSP, hsh, dl, done, rfl, hW⟩
  · exact hnone (Or.inl hS.updateFlushCount_eq)
  · have hcount : st.flushCount = (dl ++ done).length := by simpa using hW.flushCount_eq
    by_cases hpre : dl ++ done = []
    · exact hnone (Or.inr (by simp [hcount, hpre]))
    -- the first move can accelerate, so no move is left waiting at the end
    obtain rfl : dl = [] := (leadAccel_append_iff hW.allDelayed hW.lead).mp
      (by simpa [hsplit] using hP.leadAccel)
    simp only [List.nil_append] at hsplit hpre hcount
    have hc : (st.updateFlushCount || st.flushCount == 0) = false := by
      simp [hW.updateFlushCount_eq, hcount, hpre]
    have htake : q.take done.length = done := by simp [hsplit]
    have hdrop : q.drop done.length = c :: post := by simp [hsplit]
    simp only [LookAheadQueue.flush, ← hst]
    rw [if_neg (by rw [hc]; exact Bool.false_ne_true)]
    simp only [hcount, htake, hdrop]
    refine ⟨entryV2 c post, ?_, ⟨(hsplit ▸ hP.ok).of_append, Or.inr ⟨hSP, hsh, rfl⟩⟩,
      by simp [Function.comp_def, hsplit]⟩
    -- the profile starts where the queue's first move starts, at `e`
    have hprof := hW.profile
    simp only [List.length_nil, Nat.add_zero] at hprof
    have hpeak0 : 0 ≤ st.peakCruiseV2 :=
      (walkSmoothedV2_nonneg (hsplit ▸ hP.ok).ok).trans hW.peak_ge
    have hentry : min (walkStartV2 (done ++ c :: post)) st.peakCruiseV2 = e := by
      rw [← hsplit]
      refine hP.min_walkStartV2_eq hpeak0 fun x ms hx hSPx => ?_
      obtain ⟨x', done', rfl⟩ := List.exists_cons_of_ne_nil hpre
      obtain ⟨rfl, rfl⟩ := List.cons.inj (hsplit.symm.trans hx)
      exact hW.peak_eq rfl x' done' rfl hSPx
    rw [hentry] at hprof
    exact hprof.emits

/-! ## Calls -/

/-- **A full flush** hands on every move of a pending queue, from where its first move starts
    to rest. -/
theorem Pending.flush_full {e : ℚ} (hP : Pending q e) (jf : ℚ) :
    Emits (LookAheadQueue.flush ⟨q, jf⟩ false).2 e 0 ∧
      (LookAheadQueue.flush ⟨q, jf⟩ false).1.queue = [] ∧
      (LookAheadQueue.flush ⟨q, jf⟩ false).2.map Prod.fst = q := by
  obtain ⟨st, hW, hflush⟩ := flush_full_walked q jf hP.ok hP.leadAccel
  rw [hflush]
  have hprof := hW.profile
  simp only [List.append_nil, List.length_nil, Nat.add_zero] at hprof
  have hpeak0 : 0 ≤ st.peakCruiseV2 :=
    (walkSmoothedV2_nonneg hP.ok.ok).trans (by simpa using hW.peak_ge)
  have hentry : min (walkStartV2 q) st.peakCruiseV2 = e :=
    hP.min_walkStartV2_eq hpeak0 fun x ms hx hSPx =>
      by simpa using hW.peak_eq rfl x ms hx (by simpa using hSPx)
  rw [hentry] at hprof
  exact ⟨hprof.emits, rfl, by simp [Function.comp_def]⟩

/-- `add_move` queues a fresh move after a pending queue and may flush lazily. -/
theorem Pending.addMove {e : ℚ} (hP : Pending q e) (jf : ℚ) {move : Move} {extruderV2 : ℚ}
    {angle : Option JunctionAngle} (hmove : move.Fresh) (hev : 0 ≤ extruderV2)
    (hangle : ∀ a ∈ angle, a.Ok) :
    ∃ e', Emits (LookAheadQueue.addMove ⟨q, jf⟩ move extruderV2 angle).2 e e' ∧
      Pending (LookAheadQueue.addMove ⟨q, jf⟩ move extruderV2 angle).1.queue e' := by
  unfold LookAheadQueue.addMove
  cases hlast : q.getLast? with
  | none =>
    -- the first move of an empty queue starts at rest
    obtain rfl : q = [] := List.getLast?_eq_none_iff.mp hlast
    have he : e = 0 := hP.entry
    exact ⟨e, rfl, ⟨⟨by simpa using hmove.ok, List.isChain_singleton _⟩,
      Or.inl ⟨hmove.maxStartV2_eq, he⟩⟩⟩
  | some prev =>
    have hprev : prev.Ok := hP.ok.ok prev (List.mem_of_getLast? hlast)
    obtain ⟨hok, hf⟩ := Move.calcJunction_follows hprev hmove hev hangle
    have hne : q ≠ [] := fun h => by simp [h] at hlast
    have hP' : Pending (q ++ [move.calcJunction prev extruderV2 angle]) e :=
      hP.append hne hok fun p hp => by
        obtain rfl : p = prev := Option.some_injective _ (hp.symm.trans hlast)
        exact hf
    dsimp only
    split_ifs
    · obtain ⟨e', h₁, h₂, -⟩ := hP'.flush_lazy (jf - (move.calcJunction prev extruderV2 angle).minMoveT)
      exact ⟨e', h₁, h₂⟩
    · exact ⟨e, rfl, hP'⟩

/-- What `ToolHead.move` hands the queue: a fresh move, with the extruder's junction limit and
    the angle terms `calc_junction` computes, none negative. -/
def Op.Ok : Op → Prop
  | .addMove move extruderV2 angle => move.Fresh ∧ 0 ≤ extruderV2 ∧ ∀ a ∈ angle, a.Ok
  | .flush => True
  | .setFlushTime _ => True

/-- **Step lemma** of a run: each call hands on a profile from the queue's pending speed to the
    new one. -/
theorem Pending.step {e : ℚ} {lq : LookAheadQueue} (hP : Pending lq.queue e) {op : Op}
    (hop : op.Ok) : ∃ e', Emits (lq.step op).2 e e' ∧ Pending (lq.step op).1.queue e' := by
  obtain ⟨q, jf⟩ := lq
  cases op with
  | addMove move extruderV2 angle => exact hP.addMove jf hop.1 hop.2.1 hop.2.2
  | flush =>
    obtain ⟨h₁, h₂, -⟩ := hP.flush_full jf
    exact ⟨0, h₁, h₂ ▸ ⟨⟨by simp, List.isChain_nil⟩, rfl⟩⟩
  | setFlushTime flushTime => exact ⟨e, rfl, hP⟩

/-- **Run lemma.** -/
theorem Pending.run {e : ℚ} {lq : LookAheadQueue} (hP : Pending lq.queue e) {ops : List Op}
    (hops : ∀ op ∈ ops, op.Ok) :
    ∃ e', Emits (Transducer.run LookAheadQueue.step lq ops).2 e e' ∧
      Pending (Transducer.run LookAheadQueue.step lq ops).1.queue e' := by
  induction ops generalizing lq e with
  | nil => exact ⟨e, rfl, hP⟩
  | cons op ops ih =>
    obtain ⟨e₁, h₁, hP₁⟩ := hP.step (hops op List.mem_cons_self)
    obtain ⟨e₂, h₂, hP₂⟩ := ih hP₁ fun o ho => hops o (List.mem_cons_of_mem op ho)
    exact ⟨e₂, h₁.append h₂, hP₂⟩

/-! ## Runs -/

/-- **The planner's profile.**  Whatever moves the toolhead queues, with lazy flushes wherever
    the flush timer falls and full flushes in between, the moves handed to `_process_moves` up
    to a last full flush go from rest to rest: each has a junction that fits it and starts where
    the move before ended, and the queue is left empty. -/
theorem lookahead_run_emits_continuous_profile (ops : List Op) (hops : ∀ op ∈ ops, op.Ok) :
    Emits (Transducer.run LookAheadQueue.step LookAheadQueue.init (ops ++ [Op.flush])).2 0 0 ∧
      (Transducer.run LookAheadQueue.step LookAheadQueue.init (ops ++ [Op.flush])).1.queue =
        [] := by
  have hinit : Pending LookAheadQueue.init.queue 0 :=
    ⟨⟨by simp [LookAheadQueue.init], List.isChain_nil⟩, rfl⟩
  obtain ⟨e, h₁, hP⟩ := hinit.run hops
  rw [Transducer.run_append]
  set lq := (Transducer.run LookAheadQueue.step LookAheadQueue.init ops).1
  obtain ⟨h₂, hq, -⟩ := hP.flush_full lq.junctionFlush
  simp only [Transducer.run_cons, Transducer.run_nil, List.append_nil, LookAheadQueue.step]
  exact ⟨h₁.append h₂, hq⟩

/-- Three moves around a corner with the flush timer run down, so that `add_move` flushes
    lazily, and a last full flush. -/
theorem lookahead_run_emits_continuous_profile_corner :
    let th : ToolheadLimits := ⟨100, 1000, 1 / 100, 500⟩
    let ops := [Op.setFlushTime 0, Op.addMove (Move.init th 10 0 50) 2500 none,
      Op.addMove (Move.init th 20 0 50) 2500 (some ⟨1, 1 / 4⟩),
      Op.addMove (Move.init th 5 0 50) 2500 none]
    (∀ op ∈ ops, op.Ok) ∧
      (Emits (Transducer.run LookAheadQueue.step LookAheadQueue.init (ops ++ [Op.flush])).2 0 0 ∧
        (Transducer.run LookAheadQueue.step LookAheadQueue.init (ops ++ [Op.flush])).1.queue =
          []) := by
  intro th ops
  have hth : th.Ok := ⟨by norm_num, by norm_num, by norm_num, by norm_num, by norm_num⟩
  have hfresh : ∀ xyzD : ℚ, 1 / 1000000000 ≤ xyzD → (Move.init th xyzD 0 50).Fresh :=
    fun xyzD hd => Move.init_fresh hth (by norm_num) hd
  have hops : ∀ op ∈ ops, op.Ok := by
    simp only [ops, List.forall_mem_cons, List.not_mem_nil, IsEmpty.forall_iff, implies_true,
      and_true]
    refine ⟨trivial, ⟨hfresh 10 (by norm_num), by norm_num, fun a ha => absurd ha (Option.not_mem_none a)⟩,
      ⟨hfresh 20 (by norm_num), by norm_num, fun a ha => ?_⟩,
      ⟨hfresh 5 (by norm_num), by norm_num, fun a ha => absurd ha (Option.not_mem_none a)⟩⟩
    obtain rfl := Option.mem_some_iff.mp ha
    exact ⟨by norm_num, by norm_num⟩
  exact ⟨hops, lookahead_run_emits_continuous_profile ops hops⟩

end Klipper.Lookahead
