import Mathlib
import Klipper.Host.StepHistory
import Klipper.Lib.Transition

/-
  Flushing keeps the step history well formed.

  `stepcompress_find_past_position` reads the history that `add_move` builds, and it computes the
  position only on a well-formed history (`HistoryWf`, `Host.StepHistory`).  `add_move` keeps the
  history well formed when the move it records fits its arithmetic (`HistoryInv.addMove`): no
  negative gap, a span below `2^31`, an exact `addfactor`, no wrap of the 64-bit clock.  Here
  those facts come from what the code itself checks and keeps, over whole runs of queued steps and
  flushes:

  1. **What `check_line` checks** (`checkSteps_span`, `checkLine_fits`): `check_line` tries every
     step of a move against the window of its queued time and rejects an interval of `2^31` or
     more.  When the queued times are less than `2^30` ticks after `last_step_clock`, the move's
     gaps are not negative as integers, its last step is no later than the last queued time it
     covers, and `count * (count - 1)` fits an `int32_t` unless `add` is 0.
  2. **How long a move is** (`compressBisectAdd_count_le`): `compress_bisect_add` never returns
     more steps than are queued, so every step of the move has a queued time.
  3. **The flush invariant** (`FlushInv`): a well-formed history whose newest entry ends by
     `last_step_clock`, and queued steps in order, each less than `2^30` ticks (`CLOCK_DIFF_MAX`,
     `3 * 2^28`, is the code's own bound) after `last_step_clock` and far from the end of the
     64-bit clock.  One round of `queue_flush` keeps it (`FlushInv.addRound`), so does the whole
     loop (`FlushInv.queueFlushLoop`), and so does queueing a step no earlier than those queued
     (`FlushInv.pushStep`).
  4. **Runs** (`flushInv_of_reachable`, `historyWf_of_reachable`): over any run of queued steps and
     flushes from `stepcompress_alloc`, the history is well formed, so the walk of
     `stepcompress_find_past_position` is the position after every step up to the clock
     (`findPastPosition_of_reachable`).
-/

namespace Klipper.StepCompress

/-! ## What `check_line` checks -/

section CheckLine

variable {sc : Stepcompress} {move : StepMove}

/-- The `uint32_t` that `check_line` adds to the interval at each step is `add` modulo `2^32`. -/
theorem toNat_addTicks (add : Int16) :
    ((add.toInt32.toUInt32).toNat : Int) = add.toInt % 2 ^ 32 := by
  rw [IntBits.toNat_toUInt32_eq_emod, Int16.toInt_toInt32]

/-- `(n + 2)(n + 1) / 2 = (n + 1) n / 2 + (n + 1)`: one more step adds its index to the
    `addfactor`. -/
theorem succ_mul_div_two (n : Nat) : (n + 2) * (n + 1) / 2 = (n + 1) * n / 2 + (n + 1) := by
  rw [show (n + 2) * (n + 1) = (n + 1) * n + 2 * (n + 1) by ring,
    Nat.add_mul_div_left _ _ (by norm_num)]

/-- **The loop of `check_line`, as integers.**  From a step at offset `p` below `2^31`, with the
    next interval `iv` standing for the integer `V` (which `check_line` has not yet checked), when
    the windows of the next `n + 1` steps end below `2^31`: the loop passes only if every interval
    `V + j * add` is not negative, and then the last step, at `p` plus the intervals, is inside its
    window.  The induction is on the steps left; at each the window and the `2^31` check pin the
    wrapped sums to the integer ones. -/
theorem checkSteps_span : ∀ (n i : Nat) (p iv : UInt32) (V : Int),
    checkSteps sc move (n + 1) i p iv = .ok () →
    (∀ k ≤ n, ((minmaxPoint sc (i + k)).maxp.toUInt32).toNat < 2 ^ 31) →
    p.toNat < 2 ^ 31 → -2 ^ 15 ≤ V → V < 2 ^ 31 + 2 ^ 15 → (iv.toNat : Int) = V % 2 ^ 32 →
    (∀ j ≤ n, 0 ≤ V + j * move.add.toInt) ∧
      (p.toNat : Int) + (n + 1) * V + move.add.toInt * ((n + 1) * n / 2 : Nat) ≤
        ((minmaxPoint sc (i + n)).maxp.toUInt32).toNat := by
  intro n
  induction n with
  | zero => ?_
  | succ m ih => ?_
  all_goals
    intro i p iv V h hmax hp hV0 hV1 hiv
    obtain ⟨-, hwin, hov, hrest⟩ := checkSteps_succ_ok h
    -- the interval passed the `2^31` check, so it is `V` itself, and `p + iv` does not wrap
    have hiv' : iv.toNat < 2 ^ 31 := UInt32.lt_iff_toNat_lt.mp hov
    have hV : V = iv.toNat := by omega
    have hmax0 := hmax 0 (Nat.zero_le _)
    rw [Nat.add_zero] at hmax0
    have hpi : (p + iv).toNat = p.toNat + iv.toNat := by
      rw [UInt32.toNat_add]
      omega
    have hle : (p + iv).toNat ≤ ((minmaxPoint sc i).maxp.toUInt32).toNat :=
      UInt32.le_iff_toNat_le.mp hwin
  · -- the last step
    refine ⟨fun j hj => ?_, ?_⟩
    · obtain rfl : j = 0 := by omega
      simp only [CharP.cast_eq_zero, zero_mul, add_zero]
      omega
    · simp only [Nat.zero_add, Nat.zero_div, CharP.cast_eq_zero, mul_zero, add_zero] at hle ⊢
      omega
  · -- a step with more to come: the next interval is `V + add`, checked by the next round
    have ha0 := Int16.le_toInt move.add
    have ha1 := Int16.toInt_lt move.add
    have hA := toNat_addTicks move.add
    obtain ⟨hgaps, hspan⟩ := ih (i + 1) (p + iv) (iv + move.add.toInt32.toUInt32)
      (V + move.add.toInt) hrest
      (fun k hk => by rw [show i + 1 + k = i + (k + 1) by omega]; exact hmax (k + 1) (by omega))
      (by omega) (by omega) (by omega)
      (by rw [UInt32.toNat_add]; push_cast; omega)
    refine ⟨fun j hj => ?_, ?_⟩
    · cases j with
      | zero => simp only [CharP.cast_eq_zero, zero_mul, add_zero]; omega
      | succ j =>
        have := hgaps j (by omega)
        push_cast at this ⊢
        linarith
    · have hsum : (p.toNat : Int) + ((m + 1 + 1 : Nat) : Int) * V +
          move.add.toInt * ((m + 1 + 1) * (m + 1) / 2 : Nat) =
          ((p + iv).toNat : Int) + ((m + 1 : Nat) : Int) * (V + move.add.toInt) +
            move.add.toInt * ((m + 1) * m / 2 : Nat) := by
        rw [succ_mul_div_two, hpi]
        push_cast
        rw [← hV]
        ring
      rw [show i + (m + 1) = i + 1 + m by omega]
      push_cast at hsum hspan ⊢
      linarith

/-- A move whose gaps are not negative and whose span plus one interval is below `2^30` has an
    exact `addfactor`: `count * (count - 1)` is at most twice the span unless `add` is 0. -/
theorem count_mul_lt_of_span {n : Nat} {I a : Int} (hI : 0 ≤ I) (hlast : 0 ≤ I + n * a)
    (ha : a ≠ 0) (hspan : (n + 1) * I + a * ((n + 1) * n / 2 : Nat) < 2 ^ 30) :
    (n + 1) * n < 2 ^ 31 := by
  obtain ⟨T, hT⟩ : ∃ T, (n + 1) * n / 2 = T := ⟨_, rfl⟩
  have hdvd : 2 ∣ (n + 1) * n := by
    rw [Nat.mul_comm]
    exact (Nat.even_mul_succ_self n).two_dvd
  have htwo : (n + 1) * n = 2 * T := by
    rw [← hT]
    exact (Nat.mul_div_cancel' hdvd).symm
  rw [hT] at hspan
  have hT0 : (0 : Int) ≤ T := Int.natCast_nonneg T
  have htwoI : ((n : Int) + 1) * n = 2 * T := by exact_mod_cast htwo
  -- the span is at least `T`: for `add > 0` from the quadratic part, for `add < 0` because the
  -- last gap `I + n * add` is not negative
  have hge : (T : Int) ≤ (n + 1) * I + a * T := by
    rcases lt_or_gt_of_ne ha with hneg | hpos
    · have h1 : 0 ≤ ((n : Int) + 1) * (I + n * a) := mul_nonneg (by positivity) hlast
      have h2 : 0 ≤ (-a - 1) * (T : Int) := mul_nonneg (by omega) hT0
      nlinarith
    · have h1 : 0 ≤ ((n : Int) + 1) * I := mul_nonneg (by positivity) hI
      have h2 : 0 ≤ (a - 1) * (T : Int) := mul_nonneg (by omega) hT0
      nlinarith
  omega

/-- **A move `check_line` accepts fits `add_move`**, when the windows of its steps end below
    `2^30`: it has steps, no gap is negative, its span plus one interval is at most the end of its
    last step's window, and its `addfactor` is exact unless `add` is 0. -/
theorem checkLine_fits (h : checkLine sc move = .ok ())
    (hmax : ∀ k < move.count.toNat, ((minmaxPoint sc k).maxp.toUInt32).toNat < 2 ^ 30) :
    move.count ≠ 0 ∧
      (∀ j < move.count.toNat, 0 ≤ (move.interval.toNat : Int) + j * move.add.toInt) ∧
      move.span + move.interval.toNat ≤
        ((minmaxPoint sc (move.count.toNat - 1)).maxp.toUInt32).toNat ∧
      (move.add = 0 ∨ move.count.toNat * (move.count.toNat - 1) < 2 ^ 31) := by
  obtain ⟨hc, -, hI, -⟩ := checkLine_ok h
  have hI' : move.interval.toNat < 2 ^ 31 := UInt32.lt_iff_toNat_lt.mp hI
  obtain ⟨n, hn⟩ : ∃ n, move.count.toNat = n + 1 :=
    ⟨move.count.toNat - 1, by
      have : move.count.toNat ≠ 0 := fun h0 => hc (UInt16.toNat_inj.mp (by rw [h0]; rfl))
      omega⟩
  unfold checkLine at h
  split at h
  · cases h
  rw [hn] at h
  obtain ⟨hgaps, hspan⟩ := checkSteps_span n 0 0 move.interval move.interval.toNat h
    (fun k hk => by rw [Nat.zero_add]; have := hmax k (by omega); omega)
    (by simp) (by omega) (by omega) (by omega)
  simp only [UInt32.toNat_zero, CharP.cast_eq_zero, zero_add] at hspan
  have hspan' : move.span + move.interval.toNat =
      ((n + 1 : Nat) : Int) * move.interval.toNat + move.add.toInt * ((n + 1) * n / 2 : Nat) := by
    simp only [StepMove.span, hn, Nat.add_sub_cancel]
    push_cast
    ring
  refine ⟨hc, fun j hj => hgaps j (by omega), by rw [hspan', hn, Nat.add_sub_cancel]; exact hspan, ?_⟩
  by_cases ha : move.add = 0
  · exact .inl ha
  · right
    rw [hn, Nat.add_sub_cancel]
    have hmaxn := hmax n (by omega)
    exact count_mul_lt_of_span (by positivity) (hgaps n le_rfl)
      (fun h0 => ha (Int16.toInt_inj.mp (by rw [h0]; rfl))) (by push_cast at hspan ⊢; omega)

end CheckLine

/-! ## How long a move is -/

section Count

variable {sc : Stepcompress} {qlen : Nat}

/-- An `int32_t` count from 0 to 65535 is itself as the `uint16_t` of a `step_move`. -/
theorem toNat_toUInt16_of_toInt {x : Int32} (h0 : 0 ≤ x.toInt) (h1 : x.toInt < 2 ^ 16) :
    (x.toUInt32.toUInt16.toNat : Int) = x.toInt := by
  have h := IntBits.toNat_toUInt32_eq_emod x
  rw [UInt32.toNat_toUInt16]
  push_cast
  omega

/-- `nextcount - 1` in `int32_t`, for a count below `2^31`. -/
theorem toInt_ofNat_sub_one {n : Nat} (h1 : 1 ≤ n) (h2 : n < 2 ^ 31) :
    (Int32.ofNat n - 1).toInt = (n - 1 : Nat) := by
  have hone : (1 : Int32).toInt = 1 := rfl
  rw [Int32.toInt_sub, Int32.toInt_ofNat_of_lt h2, hone,
    show (n : Int) - 1 = ((n - 1 : Nat) : Int) by omega, bmod_natCast_of_lt (by omega)]

/-- The inner loop ends with every one of the `qlen` points, or at a point before the last. -/
theorem innerLoop_count {add : Int32} :
    ∀ {fuel nextcount : Nat} {nmin nmax iv : Int32} {r : Inner}, 2 ≤ nextcount →
      nextcount - 1 ≤ qlen → innerLoop sc qlen add fuel nextcount nmin nmax iv = some r →
      (∃ iv' c, r = .ret iv' (Int32.ofNat c) ∧ c ≤ qlen) ∨
        (∃ a b c nc pt, r = .stop a b c nc pt ∧ 2 ≤ nc ∧ nc - 1 < qlen)
  | 0, _, _, _, _, _, _, _, h => by cases h
  | fuel + 1, nextcount, nmin, nmax, iv, r, h2, hle, h => by
    rw [innerLoop] at h
    split at h
    · cases h
      exact .inl ⟨_, _, rfl, hle⟩
    · extract_lets at h
      split at h
      · cases h
        exact .inr ⟨_, _, _, _, _, rfl, h2, by omega⟩
      · exact innerLoop_count (by omega) (by omega) h

/-- What the outer loop keeps of its best sequences: their counts are within the queue. -/
def SearchCount (qlen : Nat) (s : Search) : Prop :=
  0 ≤ s.bestcount.toInt ∧ s.bestcount.toInt ≤ qlen ∧ 0 ≤ s.zerocount.toInt ∧ s.zerocount.toInt ≤ qlen

theorem SearchCount.record {s : Search} (hs : SearchCount qlen s) {interval count reach : Int32}
    (h0 : 0 ≤ count.toInt) (h1 : count.toInt ≤ qlen) :
    SearchCount qlen (s.record interval count reach) := by
  unfold Search.record
  dsimp only
  split
  · exact ⟨h0, h1, h0, h1⟩
  · exact ⟨h0, h1, hs.2.2⟩

theorem SearchCount.finish {s : Search} (hs : SearchCount qlen s) (hq : qlen < 2 ^ 16)
    (taskline : UInt32) : (s.finish taskline).count.toNat ≤ qlen := by
  obtain ⟨hb0, hb1, hz0, hz1⟩ := hs
  unfold Search.finish
  split
  · have := toNat_toUInt16_of_toInt hz0 (by omega)
    dsimp only
    omega
  · have := toNat_toUInt16_of_toInt hb0 (by omega)
    dsimp only
    omega

/-- **The outer loop returns no more steps than the queue has.**  The induction is on the fuel;
    each round either ends with the inner loop's move, or records a sequence that stopped inside
    the queue and narrows the add range, which leaves the recorded counts alone. -/
theorem outerLoop_count (hq1 : 1 ≤ qlen) (hq : qlen < 2 ^ 16) :
    ∀ {fuel : Nat} {s : Search} {move : StepMove}, SearchCount qlen s →
      outerLoop sc qlen fuel s = some move → move.count.toNat ≤ qlen
  | 0, _, _, _, h => by cases h
  | fuel + 1, s, move, hs, h => by
    rw [outerLoop] at h
    split at h
    · cases h
    · rename_i interval count hinner
      cases h
      have hc : ∃ c, count = Int32.ofNat c ∧ c ≤ qlen := by
        rcases @innerLoop_count sc qlen s.add (qlen + 1) 2 _ _ _ _ (by norm_num) (by omega) hinner
          with ⟨_, c, hr, hc⟩ | ⟨_, _, _, _, _, hr, -⟩
        · cases hr
          exact ⟨c, rfl, hc⟩
        · cases hr
      obtain ⟨c, rfl, hc⟩ := hc
      have hci : (Int32.ofNat c).toInt = c := Int32.toInt_ofNat_of_lt (by omega)
      have := toNat_toUInt16_of_toInt (x := Int32.ofNat c) (by omega) (by omega)
      dsimp only
      omega
    · -- the sequence stopped at `nextcount`, inside the queue
      rename_i nmin nmax interval nextcount nextpoint hinner
      have hnc : 2 ≤ nextcount ∧ nextcount - 1 < qlen := by
        rcases @innerLoop_count sc qlen s.add (qlen + 1) 2 _ _ _ _ (by norm_num) (by omega) hinner
          with ⟨_, _, hr, -⟩ | ⟨_, _, _, _, _, hr, h2, hlt⟩
        · cases hr
        · cases hr
          exact ⟨h2, hlt⟩
      have hcount := toInt_ofNat_sub_one (n := nextcount) (by omega) (by omega)
      extract_lets count addfactor reach better s1 nc nextaddfactor nextreach s2 errdelta s3 s4 c1 s5
        c2 s6 at h
      have h1 : SearchCount qlen s1 := by
        simp only [s1]
        split
        · exact hs.record (by rw [hcount]; omega) (by rw [hcount]; omega)
        · exact hs
      split at h
      · cases h
        exact h1.finish hq _
      · -- narrowing the add range leaves the recorded counts alone
        have h2 : SearchCount qlen s2 := by
          simp only [s2]
          split <;> exact h1
        have h3 : SearchCount qlen s3 := by
          simp only [s3]
          split <;> exact h2
        have h4 : SearchCount qlen s4 := by
          simp only [s4]
          split
          · split <;> exact h3
          · exact h2
        have h5 : SearchCount qlen s5 := by
          simp only [s5]
          split <;> exact h4
        have h6 : SearchCount qlen s6 := by
          simp only [s6]
          split <;> exact h5
        split at h
        · cases h
          exact h6.finish hq _
        · exact outerLoop_count hq1 hq (s := { s6 with add := s6.maxadd - (s6.maxadd - s6.minadd) / 4 })
            h6 h

/-- **`compress_bisect_add` returns no more steps than are queued.** -/
theorem compressBisectAdd_count_le {move : StepMove} (hne : sc.queue ≠ [])
    (h : compressBisectAdd sc = some move) : move.count.toNat ≤ sc.queue.length := by
  have hlen : 1 ≤ sc.queue.length := List.length_pos_iff.mpr hne
  have hinit : SearchCount (min sc.queue.length 65535)
      ⟨(minmaxPoint sc 0).minp, (minmaxPoint sc 0).maxp, 0, -0x8000, 0x7fff, 0, 1, 1,
        Int32.minValue, 0, 0⟩ := by
    simp only [SearchCount]
    simp
    omega
  have hle := @outerLoop_count sc (min sc.queue.length 65535) (by omega) (by omega) _ _ _ hinit h
  omega

end Count

/-! ## The flush invariant -/

/-- How far each queued step is after `last_step_clock`, in the 32-bit clock the queue keeps. -/
def queueOffsets (st : StepcompressState) : List Nat :=
  st.comp.queue.map fun x => (x - st.comp.lastStepClock.toUInt32).toNat

/-- What a flush needs of a state, and keeps: the walk's invariant, a newest entry that ends by
    `last_step_clock`, and queued steps in order, each less than `2^30` ticks after
    `last_step_clock` and far from the end of the 64-bit clock. -/
structure FlushInv (st : StepcompressState) : Prop where
  history : HistoryInv st
  newest : ∀ hs ∈ st.history.head?, hs.lastClock ≤ st.comp.lastStepClock
  sorted : (queueOffsets st).Pairwise (· ≤ ·)
  near : ∀ o ∈ queueOffsets st, o < 2 ^ 30
  room : ∀ o ∈ queueOffsets st, st.comp.lastStepClock.toNat + o < 2 ^ 63

/-- The end of the window of the `k`th queued step is its offset. -/
theorem maxp_minmaxPoint {sc : Stepcompress} {k : Nat} (hk : k < sc.queue.length) :
    ((minmaxPoint sc k).maxp.toUInt32).toNat = (sc.queue[k] - sc.lastStepClock.toUInt32).toNat := by
  simp only [minmaxPoint, UInt32.toUInt32_toInt32, List.getD_eq_getElem _ _ hk]

/-- A step `S` ticks past `last_step_clock` moves every later offset back by `S`. -/
theorem offset_advance {x : UInt32} {L L' : UInt64} {S : Nat} (hL : L'.toNat = L.toNat + S)
    (hS : S ≤ (x - L.toUInt32).toNat) :
    (x - L'.toUInt32).toNat = (x - L.toUInt32).toNat - S := by
  rw [UInt32.toNat_sub, UInt64.toNat_toUInt32] at hS ⊢
  rw [UInt32.toNat_sub, UInt64.toNat_toUInt32, hL]
  have := x.toNat_lt
  omega

/-- Dropping `n` queued steps and moving `last_step_clock` `S` ticks on, `S` at most every offset
    left, keeps the queue's part of the invariant: each offset left is `S` less. -/
theorem FlushInv.advance {st st' : StepcompressState} {n S : Nat} (hinv : FlushInv st)
    (hhist : HistoryInv st')
    (hnewest : ∀ hs ∈ st'.history.head?, hs.lastClock ≤ st'.comp.lastStepClock)
    (hq : st'.comp.queue = st.comp.queue.drop n)
    (hL : st'.comp.lastStepClock.toNat = st.comp.lastStepClock.toNat + S)
    (hS : ∀ o ∈ (queueOffsets st).drop n, S ≤ o) : FlushInv st' := by
  have hoffs : queueOffsets st' = ((queueOffsets st).drop n).map (· - S) := by
    simp only [queueOffsets, hq]
    rw [← List.map_drop, List.map_map]
    apply List.map_congr_left
    intro x hx
    refine offset_advance hL (hS _ ?_)
    simp only [queueOffsets, ← List.map_drop]
    exact List.mem_map_of_mem hx
  refine ⟨hhist, hnewest, ?_, ?_, ?_⟩
  · rw [hoffs]
    exact List.pairwise_map.mpr ((hinv.sorted.drop).imp fun h => Nat.sub_le_sub_right h S)
  · rw [hoffs]
    intro o ho
    obtain ⟨o', ho', rfl⟩ := List.mem_map.mp ho
    exact lt_of_le_of_lt (Nat.sub_le _ _) (hinv.near o' (List.mem_of_mem_drop ho'))
  · rw [hoffs, hL]
    intro o ho
    obtain ⟨o', ho', rfl⟩ := List.mem_map.mp ho
    have := hS o' ho'
    have := hinv.room o' (List.mem_of_mem_drop ho')
    omega

/-- **One round of `queue_flush` keeps the invariant.**  The move that `compress_bisect_add`
    found and `check_line` accepted covers queued steps only, whose windows end below `2^30`, so
    it fits `add_move` (`checkLine_fits`); its last step is no later than the last queued time it
    covers, so the steps left stay in order after the new `last_step_clock`. -/
theorem FlushInv.addRound {st : StepcompressState} {move : StepMove} (hinv : FlushInv st)
    (hne : st.comp.queue ≠ []) (hmove : compressBisectAdd st.comp = some move)
    (hcheck : checkLine st.comp move = .ok ()) (q : Nat) :
    FlushInv
      { addMove st (st.comp.lastStepClock + move.interval.toUInt64) move with
        comp := { (addMove st (st.comp.lastStepClock + move.interval.toUInt64) move).comp with
          queue := st.comp.queue.drop move.count.toNat },
        queuePos := q } := by
  have hlen := compressBisectAdd_count_le hne hmove
  have hoff : ∀ k (hk : k < st.comp.queue.length) (hko : k < (queueOffsets st).length),
      (queueOffsets st)[k] = (st.comp.queue[k] - st.comp.lastStepClock.toUInt32).toNat :=
    fun k _ _ => by simp [queueOffsets]
  -- every step of the move has a queued time, whose window ends below `2^30`
  obtain ⟨hc, hgaps, hspan, hfactor⟩ := checkLine_fits hcheck fun k hk => by
    rw [maxp_minmaxPoint (by omega), ← hoff k (by omega) (by simp only [queueOffsets, List.length_map]; omega)]
    exact hinv.near _ (List.getElem_mem _)
  have hc1 : 1 ≤ move.count.toNat :=
    Nat.one_le_iff_ne_zero.mpr fun h => hc (UInt16.toNat_inj.mp (by rw [h]; rfl))
  have hspan0 := StepMove.span_nonneg hc hgaps
  -- `S` is how far the move's last step is after `last_step_clock`: within the last offset it
  -- covers
  obtain ⟨S, hS⟩ : ∃ S : Nat, (S : Int) = move.span + move.interval.toNat :=
    ⟨(move.span + move.interval.toNat).toNat, by omega⟩
  have hc1' : move.count.toNat - 1 < (queueOffsets st).length := by
    simp only [queueOffsets, List.length_map]
    omega
  have hSoc : S ≤ (queueOffsets st)[move.count.toNat - 1] := by
    rw [maxp_minmaxPoint (by omega), ← hoff _ (by omega) hc1'] at hspan
    omega
  have hoc_mem : (queueOffsets st)[move.count.toNat - 1] ∈ (queueOffsets st).take move.count.toNat :=
    List.mem_iff_getElem.mpr ⟨move.count.toNat - 1, by simp only [List.length_take]; omega,
      by rw [List.getElem_take]⟩
  have hoc_near := hinv.near _ (List.getElem_mem hc1')
  have hoc_room := hinv.room _ (List.getElem_mem hc1')
  -- the entry `add_move` records, and the new `last_step_clock`
  have hfirst : (st.comp.lastStepClock + move.interval.toUInt64).toNat =
      st.comp.lastStepClock.toNat + move.interval.toNat := by
    rw [UInt64.toNat_add, UInt32.toNat_toUInt64]
    omega
  have hnew : HistoryInv (addMove st (st.comp.lastStepClock + move.interval.toUInt64) move) :=
    HistoryInv.addMove hinv.history hc hgaps (by omega) hfactor (by rw [hfirst]; omega)
    (fun hs hs_mem => UInt64.le_iff_toNat_le.mpr (by
      have := UInt64.le_iff_toNat_le.mp (hinv.newest hs hs_mem)
      rw [hfirst]
      omega))
  have hticks := addMove_ticks hc hfactor hspan0 (by omega)
  have hL' : (addMove st (st.comp.lastStepClock + move.interval.toUInt64) move).comp.lastStepClock.toNat =
      st.comp.lastStepClock.toNat + S := by
    simp only [addMove]
    rw [UInt64.toNat_add, UInt32.toNat_toUInt64, hfirst]
    omega
  -- the steps left are the old ones after the move's, each at least `S` past `last_step_clock`
  have hpair := List.pairwise_append.mp (by rw [List.take_append_drop]; exact hinv.sorted :
    ((queueOffsets st).take move.count.toNat ++ (queueOffsets st).drop move.count.toNat).Pairwise
      (· ≤ ·))
  have hafter : ∀ o ∈ (queueOffsets st).drop move.count.toNat, S ≤ o :=
    fun o ho => le_trans hSoc (hpair.2.2 _ hoc_mem o ho)
  refine hinv.advance ⟨hnew.1, hnew.2⟩ (fun hs hs_mem => ?_) rfl hL' hafter
  -- the new entry ends at the new `last_step_clock`
  simp only [addMove, List.head?_cons, Option.mem_def, Option.some.injEq] at hs_mem
  rw [← hs_mem]
  exact UInt64.le_refl _

/-- **The loop of `queue_flush` keeps the invariant.**  The induction is on the fuel; each round
    is `FlushInv.addRound`, and a round that uses up the queue leaves it empty, as dropping the
    whole queue would. -/
theorem FlushInv.queueFlushLoop {moveClock : UInt64} :
    ∀ {fuel : Nat} {st st' : StepcompressState}, FlushInv st → st.comp.queue ≠ [] →
      queueFlushLoop moveClock fuel st = .ok st' → FlushInv st'
  | 0, _, _, _, _, h => by cases h
  | fuel + 1, st, st', hinv, hne, h => by
    rw [StepCompress.queueFlushLoop] at h
    split at h
    · split at h
      · cases h
      · rename_i move hmove
        split at h
        · cases h
        · rename_i hcheck
          have hround := hinv.addRound hne hmove hcheck
          extract_lets at h
          split at h
          · -- the move covers what is left of the queue
            rename_i hle
            cases h
            have hnil : st.comp.queue.drop move.count.toNat = [] := List.drop_eq_nil_of_le hle
            simpa only [hnil] using hround 0
          · rename_i hlt
            exact FlushInv.queueFlushLoop (hround _) (by
              simp only [ne_eq, List.drop_eq_nil_iff, not_le]
              exact Nat.lt_of_not_le hlt) h
    · cases h
      exact hinv

/-- `queue_flush` keeps the invariant. -/
theorem FlushInv.queueFlush {st st' : StepcompressState} {moveClock : UInt64} (hinv : FlushInv st)
    (h : StepCompress.queueFlush st moveClock = .ok st') : FlushInv st' := by
  unfold StepCompress.queueFlush at h
  split at h
  · cases h
    exact hinv
  · rename_i hne
    exact hinv.queueFlushLoop hne h

/-- What the step generator promises of a step it queues: it is no earlier than the steps queued
    before it, less than `2^30` ticks after `last_step_clock` (`queue_append` sends a step
    `CLOCK_DIFF_MAX` or more ahead on its own instead), and far from the end of the 64-bit clock. -/
def PushOk (st : StepcompressState) (clock : UInt64) : Prop :=
  (∀ o ∈ queueOffsets st, o ≤ (clock.toUInt32 - st.comp.lastStepClock.toUInt32).toNat) ∧
    (clock.toUInt32 - st.comp.lastStepClock.toUInt32).toNat < 2 ^ 30 ∧
    st.comp.lastStepClock.toNat + (clock.toUInt32 - st.comp.lastStepClock.toUInt32).toNat < 2 ^ 63

instance decPushOk (st : StepcompressState) (clock : UInt64) : Decidable (PushOk st clock) := by
  unfold PushOk
  infer_instance

/-- Queueing a step the generator promises keeps the invariant. -/
theorem FlushInv.pushStep {st : StepcompressState} {clock : UInt64} (hinv : FlushInv st)
    (hok : PushOk st clock) : FlushInv (pushStep st clock) := by
  obtain ⟨hafter, hnear, hroom⟩ := hok
  have hoffs : queueOffsets (StepCompress.pushStep st clock) =
      queueOffsets st ++ [(clock.toUInt32 - st.comp.lastStepClock.toUInt32).toNat] := by
    simp [queueOffsets, StepCompress.pushStep]
  refine ⟨⟨hinv.history.1, hinv.history.2⟩, hinv.newest, ?_, ?_, ?_⟩
  · rw [hoffs, List.pairwise_append]
    exact ⟨hinv.sorted, List.pairwise_singleton _ _, fun o ho o' ho' => by
      rw [List.mem_singleton.mp ho']
      exact hafter o ho⟩
  · rw [hoffs]
    intro o ho
    rcases List.mem_append.mp ho with ho | ho
    · exact hinv.near o ho
    · rw [List.mem_singleton.mp ho]
      exact hnear
  · rw [hoffs]
    intro o ho
    rcases List.mem_append.mp ho with ho | ho
    · exact hinv.room o ho
    · rw [List.mem_singleton.mp ho]
      exact hroom

/-! ## Runs of queued steps and flushes -/

/-- What happens to one stepper's queue: a step is queued, or `queue_flush` runs up to a clock. -/
inductive FlushAct
  | push (clock : UInt64)
  | flush (moveClock : UInt64)

/-- One action; a flush that fails stops the run. -/
def flushStep (st : StepcompressState) : FlushAct → Option StepcompressState
  | .push clock => some (pushStep st clock)
  | .flush moveClock => (queueFlush st moveClock).toOption

/-- The step generator's promises: every step it queues is `PushOk`. -/
def FlushOk (st : StepcompressState) : FlushAct → Prop
  | .push clock => PushOk st clock
  | .flush _ => True

instance decFlushOk (st : StepcompressState) (a : FlushAct) : Decidable (FlushOk st a) := by
  cases a <;> unfold FlushOk <;> infer_instance

/-- **Every state a run of queued steps and flushes reaches keeps the invariant.** -/
theorem flushInv_of_reachable {maxError : UInt32} {mcuFreq : Nat} {st : StepcompressState}
    (h : Transition.Reachable (· = stepcompressAlloc maxError mcuFreq)
      (Transition.ofStepIf FlushOk flushStep) st) : FlushInv st := by
  refine Transition.Reachable.inv (fun s hs => ?_) (fun s s' hinv hnext => ?_) h
  · -- the allocated state: no history and no queue
    subst hs
    exact ⟨historyInv_stepcompressAlloc maxError mcuFreq, (fun _ h => by cases h), .nil,
      (fun _ h => by cases h), (fun _ h => by cases h)⟩
  · obtain ⟨a, hok, hstep⟩ := hnext
    cases a with
    | push clock =>
      cases hstep
      exact hinv.pushStep hok
    | flush moveClock =>
      simp only [flushStep, Except.toOption] at hstep
      split at hstep
      · cases hstep
        exact hinv.queueFlush (by assumption)
      · cases hstep

/-- **The history of every reachable state is well formed**, which is what the walk of
    `stepcompress_find_past_position` needs. -/
theorem historyWf_of_reachable {maxError : UInt32} {mcuFreq : Nat} {st : StepcompressState}
    (h : Transition.Reachable (· = stepcompressAlloc maxError mcuFreq)
      (Transition.ofStepIf FlushOk flushStep) st) : HistoryWf st.history :=
  (flushInv_of_reachable h).history.history

/-- Three steps 100 ticks apart, queued and flushed: the promises hold along the run, which ends
    with one move in the history. -/
example : ((Transition.runIf FlushOk flushStep (stepcompressAlloc 10 1000000)
    [.push 100, .push 200, .push 300, .flush (-1)]).map fun st => st.history.length) = some 1 := by
  decide +kernel

/-- In every reachable state, `stepcompress_find_past_position` is the position after every step
    up to the clock, at every clock at which the entry whose span holds it runs at a constant
    rate. -/
theorem findPastPosition_of_reachable (quadraticOffset : Int32 → Int32 → Int32 → Int32)
    {maxError : UInt32} {mcuFreq : Nat} {st : StepcompressState} (clock : UInt64)
    (h : Transition.Reachable (· = stepcompressAlloc maxError mcuFreq)
      (Transition.ofStepIf FlushOk flushStep) st)
    (hadd : ∀ hs ∈ st.history, hs.firstClock ≤ clock → clock < hs.lastClock → hs.add = 0) :
    stepcompressFindPastPosition quadraticOffset st clock =
      positionAt clock (historyBase st.lastPosition st.history) st.history :=
  findPastPosition_eq_positionAt quadraticOffset clock st.lastPosition (historyWf_of_reachable h)
    hadd

end Klipper.StepCompress
