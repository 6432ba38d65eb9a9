import Mathlib
import Klipper.Host.StepCompress
import Klipper.Lib.IntBits

/-
  Past positions from the step history.

  `add_move` records every move it queues in `sc->history_list`, newest first: its first and
  last step clocks, the position before it, its signed step count, `interval` and `add`.
  `stepcompress_set_last_position` records a marker, an entry with no steps that sets the
  position at a clock.  `stepcompress_find_past_position(clock)` walks that list to the newest
  entry that starts by `clock` and reads the position off it: the whole move when `clock` is past
  its last step, and otherwise the steps taken so far, `ticks / interval` with
  `ticks = clock - first_clock + interval` for a move at a constant rate.

  The specification is `positionAt`: the position after every recorded step at or before `clock`,
  from the position before the oldest retained entry, a marker at or before `clock` setting the
  position.  The walk computes it on every well-formed history (`HistoryWf`: each entry as
  `add_move` or a marker makes it, each move starting no earlier than the entry before it ends and
  from the position that entry leaves), at every clock, as long as the entry whose span holds
  `clock` has `add = 0` (`stepcompress_find_past_position`).  The lemma that carries it is
  `positionAt_of_lastClock_le`: from an entry's last step on, the specification is where that
  entry leaves the stepper, so the older entries the walk never reads are summed up correctly.
  `HistoryInv.addMove` and `HistoryInv.setLastPosition` show that queueing a move and marking a
  position keep the history well formed; `Host.StepHistoryFlush` carries that over whole runs of
  queued steps and flushes (`historyWf_of_reachable`).
-/

namespace Klipper.StepCompress

/-! ## The walk -/

/-- The loop of `stepcompress_find_past_position`, from `last_position`: the newest entry that
    starts by `clock` gives the answer, and each entry that starts later moves the fallback to its
    start.  A move with `add ≠ 0` solves for its step count with a floating-point square root;
    that branch is the parameter `quadraticOffset add interval ticks`. -/
def findPastPosition (quadraticOffset : Int32 → Int32 → Int32 → Int32) (clock : UInt64) :
    Int → List HistorySteps → Int
  | lastPosition, [] => lastPosition
  | _, hs :: older =>
    if clock < hs.firstClock then findPastPosition quadraticOffset clock hs.startPosition older
    else if clock ≥ hs.lastClock then hs.startPosition + hs.stepCount
    else
      let interval : Int32 := hs.interval.toInt32
      let add : Int32 := hs.add.toInt32
      let ticks : Int32 := (clock - hs.firstClock).toUInt32.toInt32 + interval
      let offset : Int32 :=
        if add = 0 then ticks / interval else quadraticOffset add interval ticks
      if hs.stepCount < 0 then hs.startPosition - offset.toInt
      else hs.startPosition + offset.toInt

/-- `stepcompress_find_past_position(sc, clock)` -/
def stepcompressFindPastPosition (quadraticOffset : Int32 → Int32 → Int32 → Int32)
    (st : StepcompressState) (clock : UInt64) : Int :=
  findPastPosition quadraticOffset clock st.lastPosition st.history

/-! ## Where the stepper was -/

/-- The clock of step `j` of an entry, counting from 1: the first at `first_clock`, the gaps
    starting at `interval` and each `add` longer than the one before. -/
def HistorySteps.stepTime (hs : HistorySteps) (j : Nat) : Int :=
  hs.firstClock.toNat + ((j - 1) * hs.interval.toNat : Nat) + hs.add.toInt * (j * (j - 1) / 2 : Nat)

/-- How many of an entry's steps are at or before `clock`. -/
def HistorySteps.stepsBy (hs : HistorySteps) (clock : UInt64) : Nat :=
  (List.range hs.stepCount.natAbs).countP fun k => decide (hs.stepTime (k + 1) ≤ clock.toNat)

/-- The position after every recorded step at or before `clock`, from `base` before the oldest
    entry: a move adds the steps it has taken by then in its direction, and a marker at or before
    `clock` sets the position. -/
def positionAt (clock : UInt64) (base : Int) : List HistorySteps → Int
  | [] => base
  | hs :: older =>
    if hs.stepCount = 0 then
      if hs.firstClock ≤ clock then hs.startPosition else positionAt clock base older
    else positionAt clock base older + hs.stepCount.sign * hs.stepsBy clock

/-- The position before the oldest retained entry, or `last_position` when there is none. -/
def historyBase (lastPosition : Int) (history : List HistorySteps) : Int :=
  (history.getLast?.map HistorySteps.startPosition).getD lastPosition

/-- A move as `add_move` records it: its last step is at `last_clock`, no gap between its steps
    is negative, and its span plus one interval fits the `int32_t` arithmetic of the walk. -/
structure HistorySteps.MoveWf (hs : HistorySteps) : Prop where
  lastClock_eq : (hs.lastClock.toNat : Int) = hs.stepTime hs.stepCount.natAbs
  gap_nonneg : ∀ j < hs.stepCount.natAbs, 0 ≤ (hs.interval.toNat : Int) + j * hs.add.toInt
  span_lt : hs.lastClock.toNat - hs.firstClock.toNat + hs.interval.toNat < 2 ^ 31

/-- An entry as `add_move` or `stepcompress_set_last_position` records it: a marker has no steps
    and one clock. -/
def HistorySteps.Wf (hs : HistorySteps) : Prop :=
  if hs.stepCount = 0 then hs.firstClock = hs.lastClock else hs.MoveWf

/-- Two adjacent entries, newer first: a move starts no earlier than the entry before it ends,
    from the position that entry leaves.  A marker may sit anywhere. -/
def HistorySteps.Follows (newer older : HistorySteps) : Prop :=
  newer.stepCount ≠ 0 →
    older.lastClock ≤ newer.firstClock ∧
      newer.startPosition = older.startPosition + older.stepCount

/-- A history as queueing and marking build it. -/
structure HistoryWf (history : List HistorySteps) : Prop where
  wf : ∀ hs ∈ history, hs.Wf
  follows : history.IsChain HistorySteps.Follows

instance HistorySteps.moveWfDecidable (hs : HistorySteps) : Decidable hs.MoveWf :=
  decidable_of_iff ((hs.lastClock.toNat : Int) = hs.stepTime hs.stepCount.natAbs ∧
      (∀ j < hs.stepCount.natAbs, 0 ≤ (hs.interval.toNat : Int) + j * hs.add.toInt) ∧
      hs.lastClock.toNat - hs.firstClock.toNat + hs.interval.toNat < 2 ^ 31)
    ⟨fun ⟨h1, h2, h3⟩ => ⟨h1, h2, h3⟩, fun ⟨h1, h2, h3⟩ => ⟨h1, h2, h3⟩⟩

instance HistorySteps.wfDecidable (hs : HistorySteps) : Decidable hs.Wf :=
  inferInstanceAs (Decidable (if hs.stepCount = 0 then hs.firstClock = hs.lastClock else hs.MoveWf))

instance HistorySteps.followsDecidable (newer older : HistorySteps) :
    Decidable (newer.Follows older) :=
  inferInstanceAs (Decidable (newer.stepCount ≠ 0 → older.lastClock ≤ newer.firstClock ∧
    newer.startPosition = older.startPosition + older.stepCount))

instance historyWfDecidable (history : List HistorySteps) : Decidable (HistoryWf history) :=
  decidable_of_iff ((∀ hs ∈ history, hs.Wf) ∧ history.IsChain HistorySteps.Follows)
    ⟨fun ⟨h1, h2⟩ => ⟨h1, h2⟩, fun ⟨h1, h2⟩ => ⟨h1, h2⟩⟩

theorem HistorySteps.Wf.marker {hs : HistorySteps} (h : hs.Wf) (hz : hs.stepCount = 0) :
    hs.firstClock = hs.lastClock := by
  rw [HistorySteps.Wf, if_pos hz] at h
  exact h

theorem HistorySteps.Wf.moveWf {hs : HistorySteps} (h : hs.Wf) (hz : hs.stepCount ≠ 0) :
    hs.MoveWf := by
  rw [HistorySteps.Wf, if_neg hz] at h
  exact h

theorem HistoryWf.tail {hs : HistorySteps} {older : List HistorySteps}
    (h : HistoryWf (hs :: older)) : HistoryWf older :=
  ⟨fun o ho => h.wf o (List.mem_cons_of_mem hs ho), h.follows.tail⟩

theorem historyBase_cons (lastPosition : Int) (hs : HistorySteps) (older : List HistorySteps) :
    historyBase lastPosition (hs :: older) = historyBase hs.startPosition older := by
  cases older with
  | nil => rfl
  | cons o older =>
    rw [historyBase, historyBase, List.getLast?_cons_cons,
      List.getLast?_eq_some_getLast (List.cons_ne_nil o older)]
    rfl

/-! ### Step times -/

section StepTimes

variable {hs : HistorySteps}

@[simp] theorem HistorySteps.stepTime_one : hs.stepTime 1 = hs.firstClock.toNat := by
  simp [HistorySteps.stepTime]

/-- Step `j + 2` is the gap `interval + (j + 1) * add` after step `j + 1`. -/
theorem HistorySteps.stepTime_succ (j : Nat) :
    hs.stepTime (j + 2) = hs.stepTime (j + 1) + hs.interval.toNat + (j + 1) * hs.add.toInt := by
  have htri : (j + 2) * (j + 2 - 1) / 2 = (j + 1) * (j + 1 - 1) / 2 + (j + 1) := by
    rw [show (j + 2) * (j + 2 - 1) = (j + 1) * (j + 1 - 1) + 2 * (j + 1) by
      rw [show j + 2 - 1 = j + 1 by omega, Nat.add_sub_cancel]; ring]
    exact Nat.add_mul_div_left _ _ (by norm_num)
  simp only [HistorySteps.stepTime, htri, Nat.add_sub_cancel]
  push_cast
  ring

theorem HistorySteps.stepTime_of_add_eq_zero (hadd : hs.add = 0) (k : Nat) :
    hs.stepTime (k + 1) = hs.firstClock.toNat + k * hs.interval.toNat := by
  simp [HistorySteps.stepTime, hadd]

/-- With no negative gap among the first `n` steps, step times do not decrease. -/
theorem HistorySteps.stepTime_mono {n : Nat}
    (hgap : ∀ j < n, 0 ≤ (hs.interval.toNat : Int) + j * hs.add.toInt) {j k : Nat}
    (hj : 1 ≤ j) (hjk : j ≤ k) (hk : k ≤ n) : hs.stepTime j ≤ hs.stepTime k := by
  induction k, hjk using Nat.le_induction with
  | base => exact le_rfl
  | succ k hjk ih =>
    -- the gap before step `k + 1` is the `k`th one
    obtain ⟨i, rfl⟩ : ∃ i, k = i + 1 := ⟨k - 1, by omega⟩
    have hg := hgap (i + 1) (by omega)
    rw [HistorySteps.stepTime_succ]
    push_cast at hg
    linarith [ih (by omega)]

variable (hm : hs.MoveWf)
include hm

theorem HistorySteps.MoveWf.firstClock_le_stepTime {j : Nat} (hj : 1 ≤ j)
    (hjn : j ≤ hs.stepCount.natAbs) : (hs.firstClock.toNat : Int) ≤ hs.stepTime j := by
  rw [← HistorySteps.stepTime_one]
  exact HistorySteps.stepTime_mono hm.gap_nonneg le_rfl hj hjn

theorem HistorySteps.MoveWf.stepTime_le_lastClock {j : Nat} (hj : 1 ≤ j)
    (hjn : j ≤ hs.stepCount.natAbs) : hs.stepTime j ≤ hs.lastClock.toNat := by
  rw [hm.lastClock_eq]
  exact HistorySteps.stepTime_mono hm.gap_nonneg hj hjn le_rfl

theorem HistorySteps.MoveWf.firstClock_le_lastClock (hc : hs.stepCount ≠ 0) :
    hs.firstClock ≤ hs.lastClock := by
  have h := hm.firstClock_le_stepTime (j := hs.stepCount.natAbs) (by omega) le_rfl
  rw [← hm.lastClock_eq] at h
  exact UInt64.le_iff_toNat_le.mpr (by exact_mod_cast h)

/-- Before a move's first step, none of its steps is taken. -/
theorem HistorySteps.MoveWf.stepsBy_eq_zero {clock : UInt64} (hclock : clock < hs.firstClock) :
    hs.stepsBy clock = 0 := by
  refine List.countP_eq_zero.mpr fun k hk => ?_
  have hk' := hm.firstClock_le_stepTime (j := k + 1) (by omega) (List.mem_range.mp hk)
  have hlt := UInt64.lt_iff_toNat_lt.mp hclock
  simp only [decide_eq_true_eq, not_le]
  omega

/-- From a move's last step on, all of its steps are taken. -/
theorem HistorySteps.MoveWf.stepsBy_eq_natAbs {clock : UInt64} (hclock : hs.lastClock ≤ clock) :
    hs.stepsBy clock = hs.stepCount.natAbs := by
  rw [HistorySteps.stepsBy, List.countP_eq_length.mpr, List.length_range]
  intro k hk
  have hk' := hm.stepTime_le_lastClock (j := k + 1) (by omega) (List.mem_range.mp hk)
  have hle := UInt64.le_iff_toNat_le.mp hclock
  simp only [decide_eq_true_eq]
  omega

omit hm in
/-- The first `m` of the first `n` numbers are those below `m`. -/
theorem countP_range_lt {m : Nat} : ∀ {n : Nat}, m ≤ n →
    (List.range n).countP (fun k => decide (k < m)) = m
  | 0, h => by simp [Nat.le_zero.mp h]
  | n + 1, h => by
    rcases Nat.lt_or_eq_of_le h with h | rfl
    · rw [List.range_succ, List.countP_append, countP_range_lt (by omega)]
      simp [show ¬ n < m by omega]
    · exact (List.countP_eq_length.mpr fun k hk => by simpa using hk).trans List.length_range

/-- Inside a move at a constant rate, the steps taken by `clock` are one more than the whole
    intervals since the first. -/
theorem HistorySteps.MoveWf.stepsBy_of_add_eq_zero (hadd : hs.add = 0) {clock : UInt64}
    (h1 : hs.firstClock ≤ clock) (h2 : clock < hs.lastClock) :
    0 < hs.interval.toNat ∧
      hs.stepsBy clock = (clock.toNat - hs.firstClock.toNat) / hs.interval.toNat + 1 := by
  have h1' := UInt64.le_iff_toNat_le.mp h1
  have h2' := UInt64.lt_iff_toNat_lt.mp h2
  have hlast := hm.lastClock_eq
  -- a move of no steps would end where it starts
  have hn : hs.stepCount.natAbs ≠ 0 := by
    intro h0
    simp only [h0, HistorySteps.stepTime, zero_tsub, zero_mul, Nat.zero_div, CharP.cast_eq_zero,
      add_zero, mul_zero, Nat.cast_inj] at hlast
    omega
  rw [show hs.stepCount.natAbs = (hs.stepCount.natAbs - 1) + 1 by omega,
    HistorySteps.stepTime_of_add_eq_zero hadd] at hlast
  -- the span is `(n - 1) * interval`, and `clock` lies inside it
  have hinside : clock.toNat - hs.firstClock.toNat < (hs.stepCount.natAbs - 1) * hs.interval.toNat := by
    omega
  have hI : 0 < hs.interval.toNat := Nat.pos_of_ne_zero fun h0 => by simp [h0] at hinside
  refine ⟨hI, ?_⟩
  have hcount : (clock.toNat - hs.firstClock.toNat) / hs.interval.toNat + 1 ≤ hs.stepCount.natAbs := by
    have := (Nat.div_lt_iff_lt_mul hI).mpr hinside
    omega
  rw [HistorySteps.stepsBy, ← countP_range_lt hcount]
  refine List.countP_congr fun k _ => ?_
  rw [HistorySteps.stepTime_of_add_eq_zero hadd, decide_eq_true_iff, decide_eq_true_iff,
    Nat.lt_succ_iff, Nat.le_div_iff_mul_le hI]
  omega

end StepTimes

/-! ### The specification past an entry -/

section Positions

variable {clock : UInt64} {base : Int} {hs : HistorySteps} {older : List HistorySteps}

/-- Before an entry starts, the specification skips it. -/
theorem positionAt_cons_of_lt_firstClock (hwf : hs.Wf) (hclock : clock < hs.firstClock) :
    positionAt clock base (hs :: older) = positionAt clock base older := by
  by_cases hz : hs.stepCount = 0
  · rw [positionAt, if_pos hz, if_neg (UInt64.not_le.mpr hclock)]
  · rw [positionAt, if_neg hz, (hwf.moveWf hz).stepsBy_eq_zero hclock, Nat.cast_zero, mul_zero,
      add_zero]

/-- From an entry's last step on, the specification is where the entry leaves the stepper, once
    the entries before a move leave it where the move starts. -/
theorem positionAt_cons_of_lastClock_le (hwf : hs.Wf) (hclock : hs.lastClock ≤ clock)
    (holder : hs.stepCount ≠ 0 → positionAt clock base older = hs.startPosition) :
    positionAt clock base (hs :: older) = hs.startPosition + hs.stepCount := by
  by_cases hz : hs.stepCount = 0
  · have hfirst : hs.firstClock ≤ clock := by
      rw [hwf.marker hz]
      exact hclock
    rw [positionAt, if_pos hz, if_pos hfirst, hz, add_zero]
  · rw [positionAt, if_neg hz, holder hz, (hwf.moveWf hz).stepsBy_eq_natAbs hclock,
      Int.sign_mul_natAbs]

/-- The entries older than a move that has started leave the stepper where the move starts.  By
    recursion on the older entries: each one ends before the newer move starts, so it is past its
    last step. -/
theorem positionAt_older : ∀ {hs : HistorySteps} {older : List HistorySteps},
    HistoryWf (hs :: older) → hs.stepCount ≠ 0 → hs.firstClock ≤ clock →
      positionAt clock (historyBase hs.startPosition older) older = hs.startPosition
  | _, [], _, _, _ => rfl
  | hs, o :: older, h, hz, hclock => by
    obtain ⟨hlast, hstart⟩ := (List.isChain_cons_cons.mp h.follows).1 hz
    have ho := h.tail
    have howf := ho.wf o List.mem_cons_self
    rw [historyBase_cons, hstart]
    have holast := UInt64.le_trans hlast hclock
    refine positionAt_cons_of_lastClock_le howf holast fun hoz => ?_
    have hofirst := UInt64.le_trans ((howf.moveWf hoz).firstClock_le_lastClock hoz) holast
    exact positionAt_older ho hoz hofirst

/-- From an entry's last step on, the specification is where the entry leaves the stepper. -/
theorem positionAt_of_lastClock_le (h : HistoryWf (hs :: older)) (hclock : hs.lastClock ≤ clock) :
    positionAt clock (historyBase hs.startPosition older) (hs :: older) =
      hs.startPosition + hs.stepCount := by
  have hwf := h.wf hs List.mem_cons_self
  refine positionAt_cons_of_lastClock_le hwf hclock fun hz => ?_
  exact positionAt_older h hz (UInt64.le_trans ((hwf.moveWf hz).firstClock_le_lastClock hz) hclock)

end Positions

/-! ### The walk computes the specification -/

/-- A `uint32_t` below `2^31` keeps its value as an `int32_t`. -/
theorem toInt_toInt32_of_lt {x : UInt32} (h : x.toNat < 2 ^ 31) : x.toInt32.toInt = x.toNat := by
  rw [Int32.toInt, UInt32.toBitVec_toInt32, BitVec.toInt_eq_toNat_cond, UInt32.toNat_toBitVec]
  split_ifs <;> omega

theorem bmod_natCast_of_lt {q : Nat} (hq : q < 2 ^ 31) : (q : Int).bmod (2 ^ 32) = q :=
  Int.bmod_eq_of_le (by omega) (by omega)

/-- The constant-rate branch of the walk: for a `clock` less than `2^31` ticks past the first
    step, `ticks / interval` in `int32_t` is the exact quotient. -/
theorem offset_eq {first clock : UInt64} {interval : UInt32} (hle : first ≤ clock)
    (hspan : clock.toNat - first.toNat + interval.toNat < 2 ^ 31) (hI : 0 < interval.toNat) :
    (((clock - first).toUInt32.toInt32 + interval.toInt32) / interval.toInt32).toInt =
      ((clock.toNat - first.toNat + interval.toNat) / interval.toNat : Nat) := by
  have hd : (clock - first).toUInt32.toNat = clock.toNat - first.toNat := by
    rw [UInt64.toNat_toUInt32, UInt64.toNat_sub_of_le _ _ hle]
    exact Nat.mod_eq_of_lt (by omega)
  have hticks : (clock - first).toUInt32.toInt32.toInt = ((clock.toNat - first.toNat : Nat) : Int) := by
    rw [toInt_toInt32_of_lt (by omega), hd]
  have hint : interval.toInt32.toInt = interval.toNat := toInt_toInt32_of_lt (by omega)
  -- neither the sum nor the quotient leaves the `int32_t` range
  have hq : (clock.toNat - first.toNat + interval.toNat) / interval.toNat < 2 ^ 31 :=
    lt_of_le_of_lt (Nat.div_le_self _ _) hspan
  rw [Int32.toInt_div, Int32.toInt_add, hticks, hint, ← Nat.cast_add, bmod_natCast_of_lt hspan,
    Int.tdiv_eq_ediv_of_nonneg (by omega), ← Int.natCast_div, bmod_natCast_of_lt hq]

/-- The walk from any fallback computes the specification from the position before the oldest
    entry.  By recursion on the history, newest first, as the walk goes. -/
theorem findPastPosition_eq_positionAt (quadraticOffset : Int32 → Int32 → Int32 → Int32)
    (clock : UInt64) : ∀ (lastPosition : Int) {history : List HistorySteps}, HistoryWf history →
      (∀ hs ∈ history, hs.firstClock ≤ clock → clock < hs.lastClock → hs.add = 0) →
      findPastPosition quadraticOffset clock lastPosition history =
        positionAt clock (historyBase lastPosition history) history
  | _, [], _, _ => rfl
  | _, hs :: older, h, hadd => by
    have hwf := h.wf hs List.mem_cons_self
    rw [historyBase_cons, findPastPosition]
    by_cases h1 : clock < hs.firstClock
    · -- the entry starts later: the walk moves on, and the specification skips it
      rw [if_pos h1, positionAt_cons_of_lt_firstClock hwf h1]
      exact findPastPosition_eq_positionAt quadraticOffset clock hs.startPosition h.tail
        fun o ho => hadd o (List.mem_cons_of_mem hs ho)
    rw [if_neg h1]
    by_cases h2 : clock ≥ hs.lastClock
    · rw [if_pos h2, positionAt_of_lastClock_le h h2]
    rw [if_neg h2]
    -- `clock` lies inside the entry, which is then a move at a constant rate
    have h1' := UInt64.not_lt.mp h1
    have h2' := UInt64.not_le.mp h2
    have hz : hs.stepCount ≠ 0 := fun hz => absurd (hwf.marker hz ▸ h1') (UInt64.not_le.mpr h2')
    have hm := hwf.moveWf hz
    have ha := hadd hs List.mem_cons_self h1' h2'
    obtain ⟨hI, hsteps⟩ := hm.stepsBy_of_add_eq_zero ha h1' h2'
    have hspan : clock.toNat - hs.firstClock.toNat + hs.interval.toNat < 2 ^ 31 := by
      have := hm.span_lt
      have := UInt64.lt_iff_toNat_lt.mp h2'
      omega
    have hzero : (0 : Int16).toInt32 = 0 := rfl
    simp only [ha, hzero, if_true]
    rw [offset_eq h1' hspan hI, positionAt, if_neg hz, positionAt_older h hz h1', hsteps,
      Nat.add_div_right _ hI]
    -- the walk subtracts the steps taken for a move down, as the sign does
    split_ifs with hneg
    · rw [Int.sign_eq_neg_one_of_neg hneg]
      ring
    · rw [Int.sign_eq_one_of_pos (by omega)]
      ring

/-- **`stepcompress_find_past_position` is the position after every step up to `clock`**, on a
    well-formed history, at every clock at which the entry whose span holds it runs at a
    constant rate. -/
theorem stepcompress_find_past_position (quadraticOffset : Int32 → Int32 → Int32 → Int32)
    (st : StepcompressState) (clock : UInt64) (h : HistoryWf st.history)
    (hadd : ∀ hs ∈ st.history, hs.firstClock ≤ clock → clock < hs.lastClock → hs.add = 0) :
    stepcompressFindPastPosition quadraticOffset st clock =
      positionAt clock (historyBase st.lastPosition st.history) st.history :=
  findPastPosition_eq_positionAt quadraticOffset clock st.lastPosition h hadd

/-- Three steps down from 10 at clocks 1000, 1100 and 1200, queued after a marker at 900: at
    clock 1150 two of them are taken. -/
theorem stepcompress_find_past_position_midway :
    HistoryWf [⟨1000, 1200, 10, -3, 100, 0, 0⟩, ⟨900, 900, 10, 0, 0, 0, 0⟩] ∧
      (∀ hs ∈ [(⟨1000, 1200, 10, -3, 100, 0, 0⟩ : HistorySteps), ⟨900, 900, 10, 0, 0, 0, 0⟩],
        hs.firstClock ≤ 1150 → 1150 < hs.lastClock → hs.add = 0) ∧
      stepcompressFindPastPosition (fun _ _ _ => 0)
          { stepcompressAlloc 0 1000000 with
            lastPosition := 7,
            history := [⟨1000, 1200, 10, -3, 100, 0, 0⟩, ⟨900, 900, 10, 0, 0, 0, 0⟩] } 1150 =
        positionAt 1150 (historyBase 7 [⟨1000, 1200, 10, -3, 100, 0, 0⟩, ⟨900, 900, 10, 0, 0, 0, 0⟩])
          [⟨1000, 1200, 10, -3, 100, 0, 0⟩, ⟨900, 900, 10, 0, 0, 0, 0⟩] ∧
      positionAt 1150 (historyBase 7 [⟨1000, 1200, 10, -3, 100, 0, 0⟩, ⟨900, 900, 10, 0, 0, 0, 0⟩])
          [⟨1000, 1200, 10, -3, 100, 0, 0⟩, ⟨900, 900, 10, 0, 0, 0, 0⟩] = 8 :=
  have hwf : HistoryWf [⟨1000, 1200, 10, -3, 100, 0, 0⟩, ⟨900, 900, 10, 0, 0, 0, 0⟩] := by decide
  have hadd : ∀ hs ∈ [(⟨1000, 1200, 10, -3, 100, 0, 0⟩ : HistorySteps), ⟨900, 900, 10, 0, 0, 0, 0⟩],
      hs.firstClock ≤ 1150 → 1150 < hs.lastClock → hs.add = 0 := by decide
  ⟨hwf, hadd, stepcompress_find_past_position _ _ 1150 hwf hadd, by decide⟩

/-! ## Queueing and marking keep the history well formed -/

/-- What the walk needs of a state: a well-formed history whose newest entry ends at
    `last_position`. -/
structure HistoryInv (st : StepcompressState) : Prop where
  history : HistoryWf st.history
  lastPosition : ∀ hs ∈ st.history.head?, st.lastPosition = hs.startPosition + hs.stepCount

theorem historyInv_stepcompressAlloc (maxError : UInt32) (mcuFreq : Nat) :
    HistoryInv (stepcompressAlloc maxError mcuFreq) :=
  ⟨⟨fun _ h => absurd h List.not_mem_nil, .nil⟩, fun hs h => absurd h (Option.not_mem_none hs)⟩

/-- A new entry on top of a history that ends at `position`: the history stays well formed when
    the entry is, and a move among them starts after the newest entry ends, from `position`. -/
theorem HistoryInv.push {history : List HistorySteps} {position : Int} {hs : HistorySteps}
    (h : HistoryWf history)
    (hpos : ∀ o ∈ history.head?, position = o.startPosition + o.stepCount) (hwf : hs.Wf)
    (hfollows : hs.stepCount ≠ 0 →
      (∀ o ∈ history.head?, o.lastClock ≤ hs.firstClock) ∧ hs.startPosition = position) :
    HistoryWf (hs :: history) := by
  refine ⟨?_, List.isChain_cons.mpr ⟨fun o ho hz => ?_, h.follows⟩⟩
  · intro e he
    rcases List.mem_cons.mp he with rfl | he
    · exact hwf
    · exact h.wf e he
  · obtain ⟨hlast, hstart⟩ := hfollows hz
    exact ⟨hlast o ho, hstart.trans (hpos o ho)⟩

/-- **Marking a position keeps the invariant**: `stepcompress_set_last_position` puts a marker on
    the flushed history, and a marker may follow anything. -/
theorem HistoryInv.setLastPosition {st st₁ st' : StepcompressState} {clock : UInt64} {pos : Int}
    (hflush : stepcompressFlush st (-1) = .ok st₁) (hinv : HistoryInv st₁)
    (h : stepcompressSetLastPosition st clock pos = .ok st') : HistoryInv st' := by
  rw [stepcompressSetLastPosition, hflush] at h
  cases h
  have hmarker : (⟨clock, clock, pos, 0, 0, 0, 0⟩ : HistorySteps).Wf := by
    rw [HistorySteps.Wf, if_pos rfl]
  refine ⟨HistoryInv.push hinv.history hinv.lastPosition hmarker fun hz => absurd rfl hz, ?_⟩
  intro hs hs_mem
  cases hs_mem
  exact (add_zero pos).symm

/-! ### The entry `add_move` records -/

/-- The exact clock ticks from a move's first step to its last. -/
def StepMove.span (move : StepMove) : Int :=
  ((move.count.toNat - 1) * move.interval.toNat : Nat) +
    move.add.toInt * (move.count.toNat * (move.count.toNat - 1) / 2 : Nat)

/-- `count * (count - 1) / 2` in `int32_t` is exact while the product stays below `2^31`. -/
theorem addfactor_toInt {C : Int32} {n : Nat} (hC : C.toInt = n) (h1 : 1 ≤ n) (hn : n < 2 ^ 16)
    (hs : n * (n - 1) < 2 ^ 31) : (C * (C - 1) / 2).toInt = (n * (n - 1) / 2 : Nat) := by
  have hsub : (n : Int) - 1 = ((n - 1 : Nat) : Int) := by omega
  have h2 : (2 : Int32).toInt = 2 := rfl
  have h1' : (1 : Int32).toInt = 1 := rfl
  have hprod : n * (n - 1) / 2 < 2 ^ 31 := lt_of_le_of_lt (Nat.div_le_self _ _) hs
  have hhalf : ((n * (n - 1) : Nat) : Int) / 2 = ((n * (n - 1) / 2 : Nat) : Int) := by omega
  rw [Int32.toInt_div, Int32.toInt_mul, Int32.toInt_sub, hC, h1', h2, hsub,
    bmod_natCast_of_lt (q := n - 1) (by omega), ← Nat.cast_mul, bmod_natCast_of_lt hs,
    Int.tdiv_eq_ediv_of_nonneg (by omega), hhalf, bmod_natCast_of_lt hprod]

/-- `add_move`'s `ticks`, `add * addfactor + interval * (count - 1)` in 32 bits, is the exact
    span when that lies in `[0, 2^32)` and `addfactor` is exact or multiplied by 0. -/
theorem addMove_ticks {move : StepMove} (hc : move.count ≠ 0)
    (hfactor : move.add = 0 ∨ move.count.toNat * (move.count.toNat - 1) < 2 ^ 31)
    (h0 : 0 ≤ move.span) (hlt : move.span < 2 ^ 32) :
    ((((move.add.toInt32 * (move.count.toUInt32.toInt32 * (move.count.toUInt32.toInt32 - 1) / 2)).toUInt32 +
      move.interval * (move.count.toUInt32 - 1)).toNat : Nat) : Int) = move.span := by
  have hn := move.count.toNat_lt
  have h1 : 1 ≤ move.count.toNat :=
    Nat.one_le_iff_ne_zero.mpr fun h => hc (UInt16.toNat_inj.mp (by rw [h]; rfl))
  have hC : move.count.toUInt32.toInt32.toInt = move.count.toNat := by
    rw [toInt_toInt32_of_lt (by rw [UInt16.toNat_toUInt32]; omega), UInt16.toNat_toUInt32]
  -- the product `add * addfactor` is right modulo `2^32`
  have hfac : move.add.toInt *
        (move.count.toUInt32.toInt32 * (move.count.toUInt32.toInt32 - 1) / 2).toInt =
      move.add.toInt * (move.count.toNat * (move.count.toNat - 1) / 2 : Nat) := by
    rcases hfactor with ha | hs
    · have hzero : (0 : Int16).toInt = 0 := rfl
      rw [ha, hzero, zero_mul, zero_mul]
    · rw [addfactor_toInt hC h1 hn hs]
  have hsub : (move.count.toUInt32 - 1).toNat = move.count.toNat - 1 := by
    rw [UInt32.toNat_sub_of_le _ _ (UInt32.le_iff_toNat_le.mpr (by rw [UInt16.toNat_toUInt32]; exact h1)),
      UInt16.toNat_toUInt32]
    rfl
  have hexact : move.add.toInt * ((move.count.toNat * (move.count.toNat - 1) / 2 : Nat) : Int) +
      ((move.interval.toNat * (move.count.toNat - 1) : Nat) : Int) = move.span := by
    simp only [StepMove.span]
    push_cast
    ring
  have hM : (2 : Int) ^ 32 = ((2 ^ 32 : Nat) : Int) := by norm_num
  rw [UInt32.toNat_add, UInt32.toNat_mul, hsub, Int.natCast_mod, Nat.cast_add, IntBits.toNat_toUInt32_eq_emod,
    Int32.toInt_mul, Int16.toInt_toInt32, hM, Int.bmod_emod, Int.natCast_mod, ← Int.add_emod, hfac,
    hexact, ← hM]
  exact Int.emod_eq_of_lt h0 hlt

/-- A move with no negative gap does not end before it starts. -/
theorem StepMove.span_nonneg {move : StepMove} (hc : move.count ≠ 0)
    (hgap : ∀ j < move.count.toNat, 0 ≤ (move.interval.toNat : Int) + j * move.add.toInt) :
    0 ≤ move.span := by
  have h1 : 1 ≤ move.count.toNat :=
    Nat.one_le_iff_ne_zero.mpr fun h => hc (UInt16.toNat_inj.mp (by rw [h]; rfl))
  -- the last step of the move as a history entry from clock 0 is not before its first
  have hmono : (⟨0, 0, 0, 0, move.interval, move.add, 0⟩ : HistorySteps).stepTime 1 ≤
      (⟨0, 0, 0, 0, move.interval, move.add, 0⟩ : HistorySteps).stepTime move.count.toNat :=
    HistorySteps.stepTime_mono hgap le_rfl h1 le_rfl
  simp only [HistorySteps.stepTime] at hmono
  simp only [StepMove.span]
  push_cast at hmono ⊢
  linarith

/-- **Queueing a move keeps the invariant**, for a move whose gaps are not negative, whose span
    plus one interval stays below `2^31` (the last step's offset in `check_line`), whose
    `addfactor` does not overflow unless it is multiplied by 0, that does not run past the end of
    the 64-bit clock, and that starts no earlier than the newest entry ends. -/
theorem HistoryInv.addMove {st : StepcompressState} {firstClock : UInt64} {move : StepMove}
    (hinv : HistoryInv st) (hc : move.count ≠ 0)
    (hgap : ∀ j < move.count.toNat, 0 ≤ (move.interval.toNat : Int) + j * move.add.toInt)
    (hspan : move.span + move.interval.toNat < 2 ^ 31)
    (hfactor : move.add = 0 ∨ move.count.toNat * (move.count.toNat - 1) < 2 ^ 31)
    (hclock : firstClock.toNat + move.span < 2 ^ 64)
    (hafter : ∀ hs ∈ st.history.head?, hs.lastClock ≤ firstClock) :
    HistoryInv (addMove st firstClock move) := by
  have h1 : 1 ≤ move.count.toNat :=
    Nat.one_le_iff_ne_zero.mpr fun h => hc (UInt16.toNat_inj.mp (by rw [h]; rfl))
  -- the entry's count is the move's, up or down
  have hnatAbs : (if st.sdir ≠ 0 then (move.count.toNat : Int) else -(move.count.toNat : Int)).natAbs =
      move.count.toNat := by
    split_ifs <;> simp
  have hz : (if st.sdir ≠ 0 then (move.count.toNat : Int) else -(move.count.toNat : Int)) ≠ 0 := by
    split_ifs <;> omega
  have hspan0 := StepMove.span_nonneg hc hgap
  have hticks := addMove_ticks hc hfactor hspan0 (by omega)
  refine ⟨HistoryInv.push hinv.history hinv.lastPosition ?_ fun _ => ⟨hafter, rfl⟩, ?_⟩
  · rw [HistorySteps.Wf, if_neg hz]
    refine ⟨?_, ?_, ?_⟩
    · -- the last clock is `first_clock + ticks` with no wrap, and `ticks` is the span
      simp only [HistorySteps.stepTime, hnatAbs]
      rw [UInt64.toNat_add, UInt32.toNat_toUInt64, Nat.mod_eq_of_lt (by omega)]
      push_cast
      rw [hticks, StepMove.span]
      push_cast
      ring
    · rw [hnatAbs]
      exact hgap
    · dsimp only
      rw [UInt64.toNat_add, UInt32.toNat_toUInt64, Nat.mod_eq_of_lt (by omega)]
      omega
  · intro hs hs_mem
    cases hs_mem
    rfl

end Klipper.StepCompress
