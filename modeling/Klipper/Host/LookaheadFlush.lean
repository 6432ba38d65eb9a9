import Mathlib
import Klipper.Lib.BackPass
import Klipper.Host.Lookahead

/-
  What a flush of the look-ahead queue plans: every move it hands on gets a junction from
  `set_junction` that the move can follow, and each move starts at the squared speed the move
  before it ends at.

  1. **Queue invariants** (`Move.Ok`, `Follows`, `QueueOk`): what `Move.__init__`,
     `limit_speed` and `calc_junction` leave in the fields the walk reads.  A move never starts
     faster than the move before can cruise or reach, and its smoothed bound is the one
     `calc_junction` computes from the move before.
  2. **The walk** (`walkStartV2`, `walkSmoothedV2`): `start_v2` and `smoothed_v2` of the loop
     of `flush` as the backward walk of `BackPass` over the moves after the current one.
  3. **One pass** (`flushStep_delay`, `flushStep_peak`, `flushStep_keep`): what the loop body
     does on each of its branches, once the flush sets junctions.
  4. **Junctions** (`Junction.Fits`, `setJunction_fits`, `accelJunction_fits`): a junction fits
     its move when its speeds are within the move's limits and the three phases have
     non-negative lengths.  A move that accelerates starts at `min start_v2 peak` and ends at
     `min next_end_v2 peak`; the moves waiting for a peak decelerate from it
     (`setDelayed_profile`).
  5. **The loop invariant** (`Walked`, `Walked.step`, `walked_flushLoop`): after the moves from
     index `k` on, the loop holds a block of moves waiting for a peak, followed by moves whose
     junctions form a profile (`Profile`) from `min start_v2 peak` to where the flush ends.
  6. **A full flush** (`full_flush_emits_continuous_profile`): from a move that starts at rest,
     the moves handed on go from rest to rest.
-/

namespace Klipper.Lookahead

open BackPass

/-! ## Queue invariants -/

/-- What every queued move satisfies. -/
structure Move.Ok (m : Move) : Prop where
  accel_pos : 0 < m.accel
  deltaV2_eq : m.deltaV2 = 2 * m.moveD * m.accel
  smoothDeltaV2_pos : 0 < m.smoothDeltaV2
  smoothDeltaV2_le : m.smoothDeltaV2 ≤ m.deltaV2
  maxSmoothedV2_nonneg : 0 ≤ m.maxSmoothedV2
  maxSmoothedV2_le : m.maxSmoothedV2 ≤ m.maxStartV2
  maxStartV2_le : m.maxStartV2 ≤ m.maxCruiseV2
  maxCruiseV2_pos : 0 < m.maxCruiseV2
  junctionDeviation_nonneg : 0 ≤ m.junctionDeviation
  nextJunctionV2_nonneg : 0 ≤ m.nextJunctionV2

/-- A move as `ToolHead.move` hands it to `add_move`: no junction with a move before it yet. -/
structure Move.Fresh (m : Move) : Prop where
  ok : m.Ok
  maxStartV2_eq : m.maxStartV2 = 0

/-- The move `m` comes after `prev` in the queue: `calc_junction` bounds its start by what
    `prev` can cruise at or reach, and its smoothed bound by `prev`'s. -/
structure Follows (prev m : Move) : Prop where
  maxStartV2_le_cruise : m.maxStartV2 ≤ prev.maxCruiseV2
  maxStartV2_le_reach : m.maxStartV2 ≤ prev.maxStartV2 + prev.deltaV2
  maxSmoothedV2_eq : m.maxSmoothedV2 = min m.maxStartV2 (prev.maxSmoothedV2 + prev.smoothDeltaV2)

/-- The moves of a queue are each `Ok`, and each follows the one before. -/
structure QueueOk (q : List Move) : Prop where
  ok : ∀ m ∈ q, m.Ok
  chain : q.IsChain Follows

/-- The limits `ToolHead.__init__` and `SET_VELOCITY_LIMIT` keep: `max_accel_to_decel` is
    `max_accel * (1 - minimum_cruise_ratio)` with the ratio in `[0, 1)`. -/
structure ToolheadLimits.Ok (th : ToolheadLimits) : Prop where
  maxVelocity_pos : 0 < th.maxVelocity
  maxAccel_pos : 0 < th.maxAccel
  maxAccelToDecel_pos : 0 < th.maxAccelToDecel
  maxAccelToDecel_le : th.maxAccelToDecel ≤ th.maxAccel
  junctionDeviation_nonneg : 0 ≤ th.junctionDeviation

/-- The angle terms `calc_junction` computes are not negative. -/
structure JunctionAngle.Ok (a : JunctionAngle) : Prop where
  rJd_nonneg : 0 ≤ a.rJd
  quarterTanThetaD2_nonneg : 0 ≤ a.quarterTanThetaD2

variable {m prev d f : Move} {ms q : List Move}

theorem Move.Ok.maxStartV2_nonneg (h : m.Ok) : 0 ≤ m.maxStartV2 :=
  h.maxSmoothedV2_nonneg.trans h.maxSmoothedV2_le

theorem Move.Ok.deltaV2_pos (h : m.Ok) : 0 < m.deltaV2 :=
  h.smoothDeltaV2_pos.trans_le h.smoothDeltaV2_le

theorem Move.Fresh.maxSmoothedV2_eq (h : m.Fresh) : m.maxSmoothedV2 = 0 :=
  le_antisymm (h.maxStartV2_eq ▸ h.ok.maxSmoothedV2_le) h.ok.maxSmoothedV2_nonneg

/-- A kinematic move is fresh as `Move.__init__` builds it. -/
theorem Move.init_fresh {th : ToolheadLimits} (hth : th.Ok) {xyzD eD speed : ℚ}
    (hspeed : 0 < speed) (hd : 1 / 1000000000 ≤ xyzD) : (Move.init th xyzD eD speed).Fresh := by
  have hxyz : 0 < xyzD := lt_of_lt_of_le (by norm_num) hd
  have hv : 0 < min speed th.maxVelocity := lt_min hspeed hth.maxVelocity_pos
  simp only [Move.init, if_neg (not_lt.mpr hd)]
  refine ⟨⟨hth.maxAccel_pos, rfl, ?_, ?_, le_rfl, le_rfl, ?_, ?_, hth.junctionDeviation_nonneg,
    by norm_num⟩, rfl⟩
  · have := hth.maxAccelToDecel_pos
    dsimp only
    positivity
  · have := hth.maxAccelToDecel_le
    dsimp only
    gcongr
  · dsimp only
    positivity
  · dsimp only
    positivity

/-- `limit_speed` keeps a move fresh. -/
theorem Move.limitSpeed_fresh (hm : m.Fresh) {speed accel : ℚ} (hspeed : 0 < speed)
    (haccel : 0 < accel) : (m.limitSpeed speed accel).Fresh := by
  have hok := hm.ok
  have hmoveD : 0 < m.moveD := by
    have := hok.deltaV2_pos
    rw [hok.deltaV2_eq] at this
    nlinarith [hok.accel_pos]
  have hsm := hm.maxSmoothedV2_eq
  have ha : 0 < min m.accel accel := lt_min hok.accel_pos haccel
  have hD : 0 < 2 * m.moveD * min m.accel accel := by positivity
  dsimp only [Move.limitSpeed]
  split_ifs with hlt
  · refine ⟨⟨ha, rfl, lt_min hok.smoothDeltaV2_pos hD, min_le_right _ _, ?_, ?_, ?_, ?_,
      hok.junctionDeviation_nonneg, hok.nextJunctionV2_nonneg⟩, hm.maxStartV2_eq⟩ <;>
      simp only [hsm, hm.maxStartV2_eq] <;> positivity
  · refine ⟨⟨ha, rfl, lt_min hok.smoothDeltaV2_pos hD, min_le_right _ _, hok.maxSmoothedV2_nonneg,
      hok.maxSmoothedV2_le, hok.maxStartV2_le, hok.maxCruiseV2_pos,
      hok.junctionDeviation_nonneg, hok.nextJunctionV2_nonneg⟩, hm.maxStartV2_eq⟩

/-- `calc_junction` links a fresh move to the last queued one. -/
theorem Move.calcJunction_follows (hp : prev.Ok) (hm : m.Fresh) {extruderV2 : ℚ}
    (hev : 0 ≤ extruderV2) {angle : Option JunctionAngle} (ha : ∀ a ∈ angle, a.Ok) :
    (m.calcJunction prev extruderV2 angle).Ok ∧ Follows prev (m.calcJunction prev extruderV2 angle) := by
  have hok := hm.ok
  have hsum : 0 ≤ prev.maxSmoothedV2 + prev.smoothDeltaV2 :=
    add_nonneg hp.maxSmoothedV2_nonneg hp.smoothDeltaV2_pos.le
  unfold Move.calcJunction
  split_ifs with hkin
  · -- a move after or before an extrude-only move starts from rest
    refine ⟨hok, ⟨?_, ?_, ?_⟩⟩
    · rw [hm.maxStartV2_eq]; exact hp.maxStartV2_le.trans' hp.maxStartV2_nonneg
    · rw [hm.maxStartV2_eq]; exact add_nonneg hp.maxStartV2_nonneg hp.deltaV2_pos.le
    · rw [hm.maxSmoothedV2_eq, hm.maxStartV2_eq, min_eq_left hsum]
  · -- the move keeps everything but its two bounds, the smoothed one taken from the start one
    have key : ∀ s, 0 ≤ s → s ≤ m.maxCruiseV2 → s ≤ prev.maxCruiseV2 →
        s ≤ prev.maxStartV2 + prev.deltaV2 →
        ({ m with maxStartV2 := s
                  maxSmoothedV2 := min s (prev.maxSmoothedV2 + prev.smoothDeltaV2) } : Move).Ok ∧
        Follows prev { m with maxStartV2 := s
                              maxSmoothedV2 := min s (prev.maxSmoothedV2 + prev.smoothDeltaV2) } :=
      fun s h0 hc hpc hr => ⟨⟨hok.accel_pos, hok.deltaV2_eq, hok.smoothDeltaV2_pos,
        hok.smoothDeltaV2_le, le_min h0 hsum, min_le_left _ _, hc, hok.maxCruiseV2_pos,
        hok.junctionDeviation_nonneg, hok.nextJunctionV2_nonneg⟩, ⟨hpc, hr, rfl⟩⟩
    -- the bound before the angle's terms is within the three limits the queue needs
    set s₀ := min extruderV2 (min m.maxCruiseV2 (min prev.maxCruiseV2
      (min prev.nextJunctionV2 (prev.maxStartV2 + prev.deltaV2)))) with hs₀
    have hs₀_nonneg : 0 ≤ s₀ := le_min hev (le_min hok.maxCruiseV2_pos.le
      (le_min hp.maxCruiseV2_pos.le (le_min hp.nextJunctionV2_nonneg
        (add_nonneg hp.maxStartV2_nonneg hp.deltaV2_pos.le))))
    have hs₀_cruise : s₀ ≤ m.maxCruiseV2 := (min_le_right _ _).trans (min_le_left _ _)
    have hs₀_prev : s₀ ≤ prev.maxCruiseV2 :=
      (min_le_right _ _).trans ((min_le_right _ _).trans (min_le_left _ _))
    have hs₀_reach : s₀ ≤ prev.maxStartV2 + prev.deltaV2 :=
      (min_le_right _ _).trans ((min_le_right _ _).trans
        ((min_le_right _ _).trans (min_le_right _ _)))
    cases angle with
    | none => exact key s₀ hs₀_nonneg hs₀_cruise hs₀_prev hs₀_reach
    | some a =>
      have hao := ha a rfl
      have := hao.rJd_nonneg
      have := hao.quarterTanThetaD2_nonneg
      have := hok.junctionDeviation_nonneg
      have := hp.junctionDeviation_nonneg
      have := hok.accel_pos
      have := hp.accel_pos
      have := hok.deltaV2_pos
      have := hp.deltaV2_pos
      have hle := min_le_left s₀ (min (a.rJd * m.junctionDeviation * m.accel)
        (min (a.rJd * prev.junctionDeviation * prev.accel)
          (min (m.deltaV2 * a.quarterTanThetaD2) (prev.deltaV2 * a.quarterTanThetaD2))))
      exact key _ (by positivity) (hle.trans hs₀_cruise) (hle.trans hs₀_prev)
        (hle.trans hs₀_reach)

theorem QueueOk.cons (hq : QueueOk (m :: ms)) : m.Ok := hq.ok m List.mem_cons_self

theorem QueueOk.tail (hq : QueueOk (m :: ms)) : QueueOk ms :=
  ⟨fun x hx => hq.ok x (List.mem_cons_of_mem m hx), hq.chain.tail⟩

theorem QueueOk.follows (hq : QueueOk (m :: f :: ms)) : Follows m f :=
  (List.isChain_cons_cons.mp hq.chain).1

theorem QueueOk.of_append (hq : QueueOk (q ++ ms)) : QueueOk ms :=
  ⟨fun x hx => hq.ok x (List.mem_append_right q hx), (List.isChain_append.mp hq.chain).2.1⟩

/-- A move that follows the last one extends a queue. -/
theorem QueueOk.append (hq : QueueOk q) (hm : m.Ok) (hf : ∀ prev ∈ q.getLast?, Follows prev m) :
    QueueOk (q ++ [m]) := by
  refine ⟨fun x hx => ?_, List.isChain_append.mpr ⟨hq.chain, List.isChain_singleton m, ?_⟩⟩
  · rcases List.mem_append.mp hx with h | h
    · exact hq.ok x h
    · rw [List.mem_singleton.mp h]
      exact hm
  · intro x hx y hy
    obtain rfl : y = m := by simpa using hy.symm
    exact hf x hx

/-! ## The walk -/

/-- `start_v2` as the loop of `flush` computes it for the first of the moves `ms`, the last
    one coming to rest. -/
def walkStartV2 (ms : List Move) : ℚ := backReach Move.maxStartV2 Move.deltaV2 0 ms

/-- `smoothed_v2` as the loop of `flush` computes it for the first of the moves `ms`. -/
def walkSmoothedV2 (ms : List Move) : ℚ :=
  backReach Move.maxSmoothedV2 Move.smoothDeltaV2 0 ms

@[simp] theorem walkStartV2_nil : walkStartV2 [] = 0 := rfl

@[simp] theorem walkStartV2_cons :
    walkStartV2 (m :: ms) = min m.maxStartV2 (walkStartV2 ms + m.deltaV2) := rfl

@[simp] theorem walkSmoothedV2_nil : walkSmoothedV2 [] = 0 := rfl

@[simp] theorem walkSmoothedV2_cons :
    walkSmoothedV2 (m :: ms) = min m.maxSmoothedV2 (walkSmoothedV2 ms + m.smoothDeltaV2) := rfl

section Walk

variable (hq : ∀ x ∈ ms, x.Ok)
include hq

theorem walkStartV2_nonneg : 0 ≤ walkStartV2 ms :=
  backReach_nonneg (fun x hx => (hq x hx).maxStartV2_nonneg) (fun x hx => (hq x hx).deltaV2_pos.le)
    le_rfl

theorem walkSmoothedV2_nonneg : 0 ≤ walkSmoothedV2 ms :=
  backReach_nonneg (fun x hx => (hq x hx).maxSmoothedV2_nonneg)
    (fun x hx => (hq x hx).smoothDeltaV2_pos.le) le_rfl

/-- The smoothed walk is below the plain one. -/
theorem walkSmoothedV2_le_walkStartV2 : walkSmoothedV2 ms ≤ walkStartV2 ms :=
  backReach_le_backReach (fun x hx => (hq x hx).maxSmoothedV2_le)
    (fun x hx => (hq x hx).smoothDeltaV2_le) le_rfl

end Walk

/-- The move in front of `ms` takes the branch of `flush` where it can accelerate:
    `smoothed_v2 < reachable_smoothed_v2`. -/
def Accelerates (m : Move) (ms : List Move) : Prop :=
  m.maxSmoothedV2 < walkSmoothedV2 ms + m.smoothDeltaV2

/-- The first of the moves takes the branch where it can accelerate. -/
def LeadAccel : List Move → Prop
  | [] => True
  | m :: ms => Accelerates m ms

/-- The moves `dl`, in front of `rest`, all take the branch that waits for a peak. -/
def AllDelayed : List Move → List Move → Prop
  | [], _ => True
  | d :: ds, rest => ¬ Accelerates d (ds ++ rest) ∧ AllDelayed ds rest

/-- The move `m`, in front of `ms`, sets a peak: it can accelerate, and it can also decelerate
    or moves after it wait for a peak. -/
def SetsPeak (m : Move) (ms : List Move) : Prop :=
  Accelerates m ms ∧ (walkSmoothedV2 ms < m.maxSmoothedV2 + m.smoothDeltaV2 ∨ ¬ LeadAccel ms)

/-- Moves wait in front of `T` exactly when there are any. -/
theorem leadAccel_append_iff {dl T : List Move} (hdl : AllDelayed dl T) (hT : LeadAccel T) :
    LeadAccel (dl ++ T) ↔ dl = [] := by
  cases dl with
  | nil => exact ⟨fun _ => rfl, fun _ => hT⟩
  | cons d ds => exact ⟨fun h => absurd h hdl.1, fun h => absurd h (List.cons_ne_nil d ds)⟩

/-- A move that sets a peak can decelerate, or moves wait after it. -/
theorem SetsPeak.cond {dl T : List Move} (h : SetsPeak m (dl ++ T)) (hdl : AllDelayed dl T)
    (hT : LeadAccel T) :
    walkSmoothedV2 (dl ++ T) < m.maxSmoothedV2 + m.smoothDeltaV2 ∨ dl ≠ [] :=
  h.2.imp id fun hnot => mt (leadAccel_append_iff hdl hT).mpr hnot

/-- A move that can accelerate but sets no peak has no move waiting after it, and can only
    accelerate. -/
theorem not_setsPeak {dl T : List Move} (hA : Accelerates m (dl ++ T))
    (hnP : ¬ SetsPeak m (dl ++ T)) (hdl : AllDelayed dl T) (hT : LeadAccel T) :
    dl = [] ∧ m.maxSmoothedV2 + m.smoothDeltaV2 ≤ walkSmoothedV2 T := by
  have hlead : LeadAccel (dl ++ T) := by
    by_contra h
    exact hnP ⟨hA, Or.inr h⟩
  obtain rfl := (leadAccel_append_iff hdl hT).mp hlead
  refine ⟨rfl, not_lt.mp fun h => hnP ⟨hA, Or.inl h⟩⟩

theorem Accelerates.walkSmoothedV2_eq (h : Accelerates m ms) :
    walkSmoothedV2 (m :: ms) = m.maxSmoothedV2 :=
  min_eq_left h.le

/-- A move that can accelerate, after a move that could have gone faster than its smoothed
    bound, has the smoothed bound `calc_junction` took from its `max_start_v2`. -/
theorem Follows.maxSmoothedV2_eq_maxStartV2 (hf : Follows prev f) (hA : Accelerates f ms)
    (hlt : walkSmoothedV2 (f :: ms) < prev.maxSmoothedV2 + prev.smoothDeltaV2) :
    f.maxSmoothedV2 = f.maxStartV2 := by
  rw [hA.walkSmoothedV2_eq] at hlt
  -- `max_smoothed_v2 = min(max_start_v2, ...)` is below the second term, so it is the first
  have heq := hf.maxSmoothedV2_eq
  rcases min_choice f.maxStartV2 (prev.maxSmoothedV2 + prev.smoothDeltaV2) with h | h
  · rw [heq, h]
  · rw [h] at heq
    exact absurd hlt (heq ▸ lt_irrefl _)

/-- A move that can accelerate and whose two bounds agree starts the walk at its bound. -/
theorem walkStartV2_cons_eq_of_capped (hok : ∀ x ∈ f :: ms, x.Ok) (hA : Accelerates f ms)
    (hsm : f.maxSmoothedV2 = f.maxStartV2) : walkStartV2 (f :: ms) = f.maxStartV2 :=
  le_antisymm backReach_cons_le_cap (by
    calc f.maxStartV2 = walkSmoothedV2 (f :: ms) := by rw [hA.walkSmoothedV2_eq, hsm]
      _ ≤ walkStartV2 (f :: ms) := walkSmoothedV2_le_walkStartV2 hok)

/-- The start of a queue meets its own bound when the move before could have gone faster than
    its smoothed bound. -/
theorem walkStartV2_eq_walkSmoothedV2 (hq : QueueOk (prev :: ms)) (hlead : LeadAccel ms)
    (hlt : walkSmoothedV2 ms < prev.maxSmoothedV2 + prev.smoothDeltaV2) :
    walkStartV2 ms = walkSmoothedV2 ms := by
  cases ms with
  | nil => rfl
  | cons f ms =>
    have hsm := hq.follows.maxSmoothedV2_eq_maxStartV2 hlead hlt
    rw [walkStartV2_cons_eq_of_capped hq.tail.ok hlead hsm, Accelerates.walkSmoothedV2_eq hlead,
      hsm]

/-- A move that waits for a peak could not have reached its smoothed bound from the move before. -/
theorem walkSmoothedV2_lt_of_not_accelerates (hm : m.Ok) (h : ¬ Accelerates m ms) :
    walkSmoothedV2 ms < m.maxSmoothedV2 + m.smoothDeltaV2 := by
  have := hm.smoothDeltaV2_pos
  unfold Accelerates at h
  linarith [not_lt.mp h]

/-- The start of the moves after `m` is one `m` can cruise at and reach. -/
theorem walkStartV2_le_of_follows (hq : QueueOk (m :: ms)) :
    walkStartV2 ms ≤ m.maxCruiseV2 ∧ walkStartV2 ms ≤ m.maxStartV2 + m.deltaV2 := by
  have hm := hq.cons
  cases ms with
  | nil => exact ⟨hm.maxCruiseV2_pos.le, add_nonneg hm.maxStartV2_nonneg hm.deltaV2_pos.le⟩
  | cons f ms =>
    have hle : walkStartV2 (f :: ms) ≤ f.maxStartV2 := backReach_cons_le_cap
    exact ⟨hle.trans hq.follows.maxStartV2_le_cruise, hle.trans hq.follows.maxStartV2_le_reach⟩

/-- The smoothed start of the moves after `m` is one `m` can reach from its own. -/
theorem walkSmoothedV2_le_of_follows (hq : QueueOk (m :: ms)) :
    walkSmoothedV2 ms ≤ m.maxSmoothedV2 + m.smoothDeltaV2 := by
  have hm := hq.cons
  cases ms with
  | nil => exact add_nonneg hm.maxSmoothedV2_nonneg hm.smoothDeltaV2_pos.le
  | cons f ms =>
    calc walkSmoothedV2 (f :: ms) ≤ f.maxSmoothedV2 := backReach_cons_le_cap
      _ ≤ m.maxSmoothedV2 + m.smoothDeltaV2 := by
        rw [hq.follows.maxSmoothedV2_eq]; exact min_le_right _ _

/-! ## One pass -/

/-- The peak a move sets when it can decelerate:
    `min(move.max_cruise_v2, (smoothed_v2 + reachable_smoothed_v2) * .5)`. -/
def Move.peakAt (m : Move) (nextSmoothedV2 : ℚ) : ℚ :=
  min m.maxCruiseV2 ((m.maxSmoothedV2 + (nextSmoothedV2 + m.smoothDeltaV2)) * (1 / 2))

/-- The junction `flush` gives a move that can accelerate, when the move after it starts at
    `nextEndV2` and the peak is `peakCruiseV2`. -/
def Move.accelJunction (m : Move) (nextEndV2 peakCruiseV2 : ℚ) : Junction :=
  let reachableStartV2 := nextEndV2 + m.deltaV2
  let startV2 := min m.maxStartV2 reachableStartV2
  let cruiseV2 := min (min ((startV2 + reachableStartV2) * (1 / 2)) m.maxCruiseV2) peakCruiseV2
  m.setJunction (min startV2 cruiseV2) cruiseV2 (min nextEndV2 cruiseV2)

/-- A move that can accelerate sets a peak above its own smoothed bound. -/
theorem le_peakAt (hm : m.Ok) {x : ℚ} (hA : m.maxSmoothedV2 < x + m.smoothDeltaV2) :
    m.maxSmoothedV2 ≤ m.peakAt x :=
  le_min (hm.maxSmoothedV2_le.trans hm.maxStartV2_le) (by linarith)

/-- The peak a move sets is above the smoothed start of the moves after it. -/
theorem walkSmoothedV2_le_peakAt (hq : QueueOk (m :: ms)) :
    walkSmoothedV2 ms ≤ m.peakAt (walkSmoothedV2 ms) :=
  le_min ((walkSmoothedV2_le_walkStartV2 hq.tail.ok).trans (walkStartV2_le_of_follows hq).1)
    (by linarith [walkSmoothedV2_le_of_follows hq])

variable {st : FlushState} {i : Nat}

/-- A move that cannot accelerate waits in `delayed` for the peak. -/
theorem flushStep_delay (h : st.nextSmoothedV2 + m.smoothDeltaV2 ≤ m.maxSmoothedV2) :
    flushStep st i m = { st with
      delayed := st.delayed ++ [(i, m, min m.maxStartV2 (st.nextEndV2 + m.deltaV2), st.nextEndV2)],
      nextEndV2 := min m.maxStartV2 (st.nextEndV2 + m.deltaV2),
      nextSmoothedV2 := st.nextSmoothedV2 + m.smoothDeltaV2 } := by
  have hmin : min m.maxSmoothedV2 (st.nextSmoothedV2 + m.smoothDeltaV2) =
      st.nextSmoothedV2 + m.smoothDeltaV2 := min_eq_right h
  simp only [flushStep, hmin, lt_irrefl, if_false]

section SetJunctions

variable (hu : st.updateFlushCount = false) (hi : i < st.flushCount)
  (hA : m.maxSmoothedV2 < st.nextSmoothedV2 + m.smoothDeltaV2)
include hu hi hA

/-- A move that can accelerate and decelerate, or that follows moves waiting for a peak, sets
    the peak, hands it to the waiting moves, and gets its junction. -/
theorem flushStep_peak
    (hP : st.nextSmoothedV2 < m.maxSmoothedV2 + m.smoothDeltaV2 ∨ st.delayed ≠ []) :
    flushStep st i m = { st with
      peakCruiseV2 := m.peakAt st.nextSmoothedV2,
      delayed := [],
      junctions := Function.update
        (setDelayed st.junctions (m.peakAt st.nextSmoothedV2) st.delayed.reverse) i
        (some (m.accelJunction st.nextEndV2 (m.peakAt st.nextSmoothedV2))),
      nextEndV2 := min m.maxStartV2 (st.nextEndV2 + m.deltaV2),
      nextSmoothedV2 := m.maxSmoothedV2 } := by
  have hmin : min m.maxSmoothedV2 (st.nextSmoothedV2 + m.smoothDeltaV2) = m.maxSmoothedV2 :=
    min_eq_left hA.le
  have hcond : (decide (m.maxSmoothedV2 + m.smoothDeltaV2 > st.nextSmoothedV2) ||
      !st.delayed.isEmpty) = true := by
    rcases hP with h | h
    · simp [h]
    · simp [h]
  cases hd : st.delayed with
  | nil =>
    simp only [hd, List.isEmpty_nil, Bool.not_true, Bool.or_false] at hcond
    simp [flushStep, hmin, hA, hcond, hu, hd, hi, Move.accelJunction, Move.peakAt, setDelayed]
  | cons e es =>
    simp [flushStep, hmin, hA, hu, hd, hi, Move.accelJunction, Move.peakAt]

/-- A move that can only accelerate, with no move waiting, keeps the peak. -/
theorem flushStep_keep (hK : m.maxSmoothedV2 + m.smoothDeltaV2 ≤ st.nextSmoothedV2)
    (hd : st.delayed = []) :
    flushStep st i m = { st with
      junctions := Function.update st.junctions i
        (some (m.accelJunction st.nextEndV2 st.peakCruiseV2)),
      nextEndV2 := min m.maxStartV2 (st.nextEndV2 + m.deltaV2),
      nextSmoothedV2 := m.maxSmoothedV2 } := by
  have hmin : min m.maxSmoothedV2 (st.nextSmoothedV2 + m.smoothDeltaV2) = m.maxSmoothedV2 :=
    min_eq_left hA.le
  have hK' : ¬ (m.maxSmoothedV2 + m.smoothDeltaV2 > st.nextSmoothedV2) := not_lt.mpr hK
  simp only [flushStep, hmin, hA, if_true, hK', decide_false, hd, List.isEmpty_nil,
    Bool.not_true, Bool.or_false, Bool.false_eq_true, if_false, hu, Bool.not_false,
    Bool.true_and, decide_eq_true_eq, hi, Move.accelJunction]

end SetJunctions

/-! ## Junctions -/

/-- A junction the move can follow: speeds within its limits, and acceleration, cruise and
    deceleration phases of non-negative length. -/
structure Junction.Fits (j : Junction) (m : Move) : Prop where
  startV2_nonneg : 0 ≤ j.startV2
  endV2_nonneg : 0 ≤ j.endV2
  startV2_le : j.startV2 ≤ m.maxStartV2
  cruiseV2_le : j.cruiseV2 ≤ m.maxCruiseV2
  accelD_nonneg : 0 ≤ j.accelD
  cruiseD_nonneg : 0 ≤ j.cruiseD
  decelD_nonneg : 0 ≤ j.decelD

/-- `set_junction` fits the move when the speeds are within its limits and what it gains and
    loses on the move is within `delta_v2`. -/
theorem setJunction_fits (hm : m.Ok) {s c e : ℚ} (hs0 : 0 ≤ s) (he0 : 0 ≤ e)
    (hs : s ≤ m.maxStartV2) (hc : c ≤ m.maxCruiseV2) (hsc : s ≤ c) (hec : e ≤ c)
    (hd : (c - s) + (c - e) ≤ m.deltaV2) : (m.setJunction s c e).Fits m := by
  have ha := hm.accel_pos
  have hk : 0 < 1 / 2 / m.accel := by positivity
  refine ⟨hs0, he0, hs, hc, ?_, ?_, ?_⟩ <;> dsimp only [Move.setJunction]
  · exact mul_nonneg (sub_nonneg.mpr hsc) hk.le
  · -- the two phases fit in `move_d`, as `delta_v2 = 2 * move_d * accel`
    have hle : ((c - s) + (c - e)) * (1 / 2 / m.accel) ≤ m.deltaV2 * (1 / 2 / m.accel) :=
      mul_le_mul_of_nonneg_right hd hk.le
    have hmoveD : m.deltaV2 * (1 / 2 / m.accel) = m.moveD := by
      rw [hm.deltaV2_eq]
      field_simp
    linarith
  · exact mul_nonneg (sub_nonneg.mpr hec) hk.le

section AccelJunction

variable {E P : ℚ}

/-- The start `min(start_v2, cruise_v2)` is `min(start_v2, peak)`: the other two terms of the
    cruise are above `start_v2`. -/
theorem accelJunction_startV2 (hm : m.Ok) :
    (m.accelJunction E P).startV2 = min (min m.maxStartV2 (E + m.deltaV2)) P := by
  have hA : min m.maxStartV2 (E + m.deltaV2) ≤
      (min m.maxStartV2 (E + m.deltaV2) + (E + m.deltaV2)) * (1 / 2) := by
    linarith [min_le_right m.maxStartV2 (E + m.deltaV2)]
  have hC : min m.maxStartV2 (E + m.deltaV2) ≤ m.maxCruiseV2 :=
    (min_le_left _ _).trans hm.maxStartV2_le
  simp only [Move.accelJunction, Move.setJunction]
  rw [← min_assoc, min_eq_left (le_min hA hC)]

/-- The end `min(next_end_v2, cruise_v2)` is `min(next_end_v2, peak)` when the move after it
    starts at a speed this move can cruise at and reach. -/
theorem accelJunction_endV2 (hm : m.Ok) (hEC : E ≤ m.maxCruiseV2)
    (hER : E ≤ m.maxStartV2 + m.deltaV2) : (m.accelJunction E P).endV2 = min E P := by
  have hA : E ≤ (min m.maxStartV2 (E + m.deltaV2) + (E + m.deltaV2)) * (1 / 2) := by
    rcases min_choice m.maxStartV2 (E + m.deltaV2) with h | h <;> rw [h] <;>
      linarith [hm.deltaV2_pos]
  simp only [Move.accelJunction, Move.setJunction]
  rw [← min_assoc, min_eq_left (le_min hA hEC)]

/-- The junction of a move that can accelerate fits it. -/
theorem accelJunction_fits (hm : m.Ok) (hE0 : 0 ≤ E) (hP0 : 0 ≤ P)
    (hER : E ≤ m.maxStartV2 + m.deltaV2) : (m.accelJunction E P).Fits m := by
  have hD := hm.deltaV2_pos
  set S := min m.maxStartV2 (E + m.deltaV2) with hS
  set c := min (min ((S + (E + m.deltaV2)) * (1 / 2)) m.maxCruiseV2) P with hc
  have hSM : S ≤ m.maxStartV2 := min_le_left _ _
  have hSR : S ≤ E + m.deltaV2 := min_le_right _ _
  have hS0 : 0 ≤ S := le_min hm.maxStartV2_nonneg (by linarith)
  have hcA : c ≤ (S + (E + m.deltaV2)) * (1 / 2) := (min_le_left _ _).trans (min_le_left _ _)
  have hcC : c ≤ m.maxCruiseV2 := (min_le_left _ _).trans (min_le_right _ _)
  have hc0 : 0 ≤ c := le_min (le_min (by linarith) hm.maxCruiseV2_pos.le) hP0
  -- accelerating to `c` and decelerating from it fits in `delta_v2`, on each side of `S`
  -- and `E`; below `S` it uses that `E` is reachable from `max_start_v2`
  have hfit : (c - min S c) + (c - min E c) ≤ m.deltaV2 := by
    rcases le_total c S with h1 | h1 <;> rcases le_total c E with h2 | h2
    · rw [min_eq_right h1, min_eq_right h2]; linarith
    · rw [min_eq_right h1, min_eq_left h2]; linarith
    · rw [min_eq_left h1, min_eq_right h2]
      rcases min_choice m.maxStartV2 (E + m.deltaV2) with h | h <;> rw [← hS] at h <;> linarith
    · rw [min_eq_left h1, min_eq_left h2]; linarith
  exact setJunction_fits hm (le_min hS0 hc0) (le_min hE0 hc0) ((min_le_left _ _).trans hSM) hcC
    (min_le_right _ _) (min_le_right _ _) hfit

end AccelJunction

/-! ## Profiles -/

/-- The junctions from index `k` on take the moves `ms` from squared speed `v` to `w`: each
    fits its move and starts where the one before ended. -/
def Profile (js : Nat → Option Junction) : Nat → ℚ → List Move → ℚ → Prop
  | _, v, [], w => v = w
  | k, v, m :: ms, w =>
    ∃ j, js k = some j ∧ j.startV2 = v ∧ j.Fits m ∧ Profile js (k + 1) j.endV2 ms w

/-- A profile reads the junctions from its first index on only. -/
theorem Profile.congr {js js' : Nat → Option Junction} {v w : ℚ} :
    ∀ {k : Nat} {ms : List Move}, (∀ i, k ≤ i → js' i = js i) → Profile js k v ms w →
      Profile js' k v ms w := by
  intro k ms
  induction ms generalizing k v with
  | nil => exact fun _ h => h
  | cons m ms ih =>
    rintro hjs ⟨j, hj, hstart, hfit, hrest⟩
    exact ⟨j, (hjs k le_rfl).trans hj, hstart, hfit,
      ih (fun i hi => hjs i (Nat.le_of_succ_le hi)) hrest⟩

/-- The entries `flush` appends to `delayed` for the moves `dl` from index `k` on, in front of
    `rest`: each move with its `start_v2` and the `start_v2` of the move after it. -/
def delayedEntries (k : Nat) : List Move → List Move → List (Nat × Move × ℚ × ℚ)
  | [], _ => []
  | d :: ds, rest =>
    (k, d, walkStartV2 (d :: (ds ++ rest)), walkStartV2 (ds ++ rest)) :: delayedEntries (k + 1) ds rest

theorem delayedEntries_reverse_ne_nil {k : Nat} {dl rest : List Move} (hdl : dl ≠ []) :
    (delayedEntries k dl rest).reverse ≠ [] := by
  obtain ⟨d, ds, rfl⟩ := List.exists_cons_of_ne_nil hdl
  simp [delayedEntries]

/-- Handing the peak to the moves from index `k` on leaves the junctions before `k` alone. -/
theorem setDelayed_of_lt {i : Nat} {rest : List Move} :
    ∀ {js : Nat → Option Junction} {mc : ℚ} {k : Nat} {dl : List Move}, i < k →
      setDelayed js mc (delayedEntries k dl rest) i = js i := by
  intro js mc k dl
  induction dl generalizing js mc k with
  | nil => exact fun _ => rfl
  | cons d ds ih =>
    intro hi
    simp only [delayedEntries, setDelayed]
    rw [ih (Nat.lt_succ_of_lt hi), Function.update_of_ne (Nat.ne_of_lt hi)]

/-- **The moves waiting for a peak.**  Handed the peak `mc`, the moves `dl` that waited for it
    decelerate from `min(mc, start_v2)` and hand over to the profile after them. -/
theorem setDelayed_profile {T done : List Move} {w peak : ℚ}
    (hlead : LeadAccel T) (hpeak : walkSmoothedV2 T ≤ peak) :
    ∀ {js : Nat → Option Junction} {k : Nat} {dl : List Move} {mc : ℚ},
      QueueOk (dl ++ T) → AllDelayed dl T → (dl = [] → walkStartV2 T = walkSmoothedV2 T) →
      walkSmoothedV2 (dl ++ T) ≤ mc →
      Profile js (k + dl.length) (min (walkStartV2 T) peak) done w →
      Profile (setDelayed js mc (delayedEntries k dl T)) k (min mc (walkStartV2 (dl ++ T)))
        (dl ++ done) w := by
  intro js k dl
  induction dl generalizing js k with
  | nil =>
    intro mc _ _ hpin hmc hp
    -- the profile after the block starts at `start_v2`, below both `mc` and the peak
    have hpin := hpin rfl
    simp only [List.nil_append, List.length_nil, Nat.add_zero] at hmc hp ⊢
    have hmc' : min mc (walkStartV2 T) = walkStartV2 T := min_eq_right (hpin ▸ hmc)
    have hpeak' : min (walkStartV2 T) peak = walkStartV2 T := min_eq_left (hpin ▸ hpeak)
    simp only [setDelayed, delayedEntries]
    rwa [hmc', ← hpeak']
  | cons d ds ih =>
    intro mc hq hdl _ hmc hp
    simp only [List.cons_append, delayedEntries, setDelayed]
    obtain ⟨hD, hds⟩ := hdl
    have hd : d.Ok := hq.cons
    have hqt : QueueOk (ds ++ T) := hq.tail
    have hsd := hd.smoothDeltaV2_pos
    -- the waiting move `d` decelerates over its length from `mc'`
    set ms := walkStartV2 (d :: (ds ++ T)) with hms
    set me := walkStartV2 (ds ++ T) with hme
    set mc' := min mc ms with hmc'
    have hss : walkSmoothedV2 (d :: (ds ++ T)) = walkSmoothedV2 (ds ++ T) + d.smoothDeltaV2 :=
      min_eq_right (not_lt.mp hD)
    have hms_ge : walkSmoothedV2 (ds ++ T) ≤ ms := by
      have := walkSmoothedV2_le_walkStartV2 hq.ok
      simp only [List.cons_append] at this
      linarith
    have hmc_ge : walkSmoothedV2 (ds ++ T) ≤ mc' := by
      simp only [List.cons_append] at hmc
      exact le_min (by linarith) hms_ge
    have hme0 : 0 ≤ me := walkStartV2_nonneg hqt.ok
    have hmc'0 : 0 ≤ mc' := (walkSmoothedV2_nonneg hqt.ok).trans hmc_ge
    have hmsM : ms ≤ d.maxStartV2 := backReach_cons_le_cap
    have hmsR : ms ≤ me + d.deltaV2 := min_le_right _ _
    have hmc'ms : mc' ≤ ms := min_le_right _ _
    have hfit : (d.setJunction (min ms mc') mc' (min me mc')).Fits d := by
      rw [min_eq_right hmc'ms]
      refine setJunction_fits hd hmc'0 (le_min hme0 hmc'0) (hmc'ms.trans hmsM)
        (hmc'ms.trans (hmsM.trans hd.maxStartV2_le)) le_rfl (min_le_right _ _) ?_
      rcases le_total me mc' with h | h
      · rw [min_eq_left h]; linarith
      · rw [min_eq_right h]; linarith [hd.deltaV2_pos]
    -- the rest of the block starts where `d` ends
    have hpin' : ds = [] → walkStartV2 T = walkSmoothedV2 T := by
      rintro rfl
      exact walkStartV2_eq_walkSmoothedV2 hq hlead (walkSmoothedV2_lt_of_not_accelerates hd hD)
    have hp' : Profile (Function.update js k (some (d.setJunction (min ms mc') mc' (min me mc'))))
        (k + 1 + ds.length) (min (walkStartV2 T) peak) done w := by
      refine Profile.congr (fun i hi => Function.update_of_ne (by omega) _ _) ?_
      simpa [Nat.add_right_comm, Nat.add_assoc] using hp
    have hrest := ih hqt hds hpin' hmc_ge hp'
    refine ⟨d.setJunction (min ms mc') mc' (min me mc'), ?_, ?_, hfit, ?_⟩
    · rw [setDelayed_of_lt (Nat.lt_succ_self k), Function.update_self]
    · simp only [Move.setJunction, min_eq_right hmc'ms]
    · simpa only [Move.setJunction, min_comm me mc'] using hrest

/-! ## The loop invariant -/

/-- What the loop of a flush that sets junctions below index `N` has done after the moves
    `dl ++ done` from index `k` on, with the moves `rest` after them: the moves `dl` wait for a
    peak, and the junctions of the moves `done` take them from `min(start_v2, peak)` to `w`. -/
structure Walked (N k : Nat) (dl done rest : List Move) (w : ℚ) (st : FlushState) : Prop where
  updateFlushCount_eq : st.updateFlushCount = false
  flushCount_eq : st.flushCount = N
  nextEndV2_eq : st.nextEndV2 = walkStartV2 (dl ++ (done ++ rest))
  nextSmoothedV2_eq : st.nextSmoothedV2 = walkSmoothedV2 (dl ++ (done ++ rest))
  delayed_eq : st.delayed = (delayedEntries k dl (done ++ rest)).reverse
  allDelayed : AllDelayed dl (done ++ rest)
  lead : LeadAccel (done ++ rest)
  peak_ge : walkSmoothedV2 (done ++ rest) ≤ st.peakCruiseV2
  profile : Profile st.junctions (k + dl.length)
    (min (walkStartV2 (done ++ rest)) st.peakCruiseV2) done w
  peak_eq : dl = [] → ∀ x done', done = x :: done' → SetsPeak x (done' ++ rest) →
    st.peakCruiseV2 = x.peakAt (walkSmoothedV2 (done' ++ rest))

section Step

variable {N k : Nat} {dl done rest : List Move} {w : ℚ}

/-- A move that cannot accelerate joins the block waiting for a peak. -/
theorem Walked.delay (hW : Walked N (k + 1) dl done rest w st)
    (hD : ¬ Accelerates m (dl ++ (done ++ rest))) :
    Walked N k (m :: dl) done rest w (flushStep st k m) := by
  have hle : walkSmoothedV2 (dl ++ (done ++ rest)) + m.smoothDeltaV2 ≤ m.maxSmoothedV2 :=
    not_lt.mp hD
  rw [flushStep_delay (hW.nextSmoothedV2_eq ▸ hle)]
  refine ⟨hW.updateFlushCount_eq, hW.flushCount_eq, ?_, ?_, ?_, ⟨hD, hW.allDelayed⟩, hW.lead,
    hW.peak_ge, ?_, fun h => absurd h (List.cons_ne_nil m dl)⟩
  · simp only [hW.nextEndV2_eq, List.cons_append, walkStartV2_cons]
  · simp only [hW.nextSmoothedV2_eq, List.cons_append, walkSmoothedV2_cons, min_eq_right hle]
  · simp only [hW.delayed_eq, hW.nextEndV2_eq, delayedEntries, List.reverse_cons,
      walkStartV2_cons]
  · simpa only [List.length_cons, Nat.add_right_comm k 1, Nat.add_assoc] using hW.profile

/-- A move that can only accelerate, with no move waiting, gets its junction under the peak
    of the moves after it. -/
theorem Walked.keep (hW : Walked N (k + 1) [] done rest w st) (hk : k < N)
    (hq : QueueOk (m :: (done ++ rest))) (hA : Accelerates m (done ++ rest))
    (hK : m.maxSmoothedV2 + m.smoothDeltaV2 ≤ walkSmoothedV2 (done ++ rest)) :
    Walked N k [] (m :: done) rest w (flushStep st k m) := by
  have hm := hq.cons
  have hEnd : st.nextEndV2 = walkStartV2 (done ++ rest) := by simpa using hW.nextEndV2_eq
  have hSm : st.nextSmoothedV2 = walkSmoothedV2 (done ++ rest) := by
    simpa using hW.nextSmoothedV2_eq
  have hd : st.delayed = [] := by simpa [delayedEntries] using hW.delayed_eq
  rw [flushStep_keep hW.updateFlushCount_eq (hW.flushCount_eq ▸ hk) (hSm ▸ hA) (hSm ▸ hK) hd]
  obtain ⟨hEC, hER⟩ := walkStartV2_le_of_follows hq
  refine ⟨hW.updateFlushCount_eq, hW.flushCount_eq, ?_, ?_, ?_, trivial, hA, ?_, ?_, ?_⟩
  · simp only [hEnd, List.nil_append, List.cons_append, walkStartV2_cons]
  · simp only [List.nil_append, List.cons_append, hA.walkSmoothedV2_eq]
  · simp only [hd, delayedEntries, List.reverse_nil]
  · -- the smoothed bound is below what the moves after it start at, so below the old peak
    simp only [List.cons_append, hA.walkSmoothedV2_eq]
    linarith [hW.peak_ge, hm.smoothDeltaV2_pos]
  · have hp := hW.profile
    simp only [List.length_nil, Nat.add_zero] at hp ⊢
    refine ⟨m.accelJunction st.nextEndV2 st.peakCruiseV2, Function.update_self _ _ _, ?_,
      accelJunction_fits hm (hEnd ▸ walkStartV2_nonneg hq.tail.ok)
        ((walkSmoothedV2_nonneg hq.tail.ok).trans hW.peak_ge) (hEnd ▸ hER), ?_⟩
    · rw [accelJunction_startV2 hm, hEnd, List.cons_append, walkStartV2_cons]
    · rw [accelJunction_endV2 hm (hEnd ▸ hEC) (hEnd ▸ hER), hEnd]
      exact Profile.congr (fun i hi => Function.update_of_ne (by omega) _ _) hp
  · -- this move does not set a peak
    rintro - x done' hx ⟨-, hP⟩
    obtain ⟨rfl, rfl⟩ := List.cons.inj hx
    exact absurd hP (not_or.mpr ⟨not_lt.mpr hK, not_not.mpr hW.lead⟩)

/-- A move that sets a peak gets its junction under it and hands it to the waiting block. -/
theorem Walked.peak (hW : Walked N (k + 1) dl done rest w st) (hk : k < N)
    (hq : QueueOk (m :: (dl ++ (done ++ rest)))) (hSP : SetsPeak m (dl ++ (done ++ rest))) :
    Walked N k [] (m :: (dl ++ done)) rest w (flushStep st k m) := by
  have hm := hq.cons
  have hP := hSP.cond hW.allDelayed hW.lead
  have hA := hSP.1
  have hP' : st.nextSmoothedV2 < m.maxSmoothedV2 + m.smoothDeltaV2 ∨ st.delayed ≠ [] := by
    rw [hW.nextSmoothedV2_eq, hW.delayed_eq]
    exact hP.imp id delayedEntries_reverse_ne_nil
  rw [flushStep_peak hW.updateFlushCount_eq (hW.flushCount_eq ▸ hk)
    (hW.nextSmoothedV2_eq ▸ hA) hP', hW.nextSmoothedV2_eq, hW.delayed_eq,
    List.reverse_reverse]
  obtain ⟨hEC, hER⟩ := walkStartV2_le_of_follows hq
  have hpeak := walkSmoothedV2_le_peakAt hq
  refine ⟨hW.updateFlushCount_eq, hW.flushCount_eq, ?_, ?_, rfl, trivial, ?_, ?_, ?_, ?_⟩
  · simp only [hW.nextEndV2_eq, List.nil_append, List.cons_append, List.append_assoc,
      walkStartV2_cons]
  · simp only [List.nil_append, List.cons_append, List.append_assoc, hA.walkSmoothedV2_eq]
  · simp only [List.cons_append, List.append_assoc]
    exact hA
  · simp only [List.cons_append, List.append_assoc, hA.walkSmoothedV2_eq]
    exact le_peakAt hm hA
  · -- the waiting block starts where this move ends, under the new peak
    have hpin : dl = [] → walkStartV2 (done ++ rest) = walkSmoothedV2 (done ++ rest) := by
      rintro rfl
      exact walkStartV2_eq_walkSmoothedV2 hq hW.lead (hP.resolve_right (not_not.mpr rfl))
    have hblock := setDelayed_profile hW.lead hW.peak_ge hq.tail hW.allDelayed hpin hpeak
      hW.profile
    simp only [List.length_nil, Nat.add_zero, List.cons_append, List.append_assoc,
      walkStartV2_cons]
    refine ⟨m.accelJunction st.nextEndV2 (m.peakAt (walkSmoothedV2 (dl ++ (done ++ rest)))),
      Function.update_self _ _ _, ?_,
      accelJunction_fits hm (hW.nextEndV2_eq ▸ walkStartV2_nonneg hq.tail.ok)
        ((walkSmoothedV2_nonneg hq.tail.ok).trans hpeak) (hW.nextEndV2_eq ▸ hER), ?_⟩
    · rw [accelJunction_startV2 hm, hW.nextEndV2_eq]
    · rw [accelJunction_endV2 hm (hW.nextEndV2_eq ▸ hEC) (hW.nextEndV2_eq ▸ hER),
        hW.nextEndV2_eq, min_comm]
      exact Profile.congr (fun i hi => Function.update_of_ne (by omega) _ _) hblock
  · rintro - x done' hx -
    obtain ⟨rfl, rfl⟩ := List.cons.inj hx
    simp only [List.append_assoc]

/-- **Step lemma.**  One pass of the loop keeps the invariant, with the move joining the
    waiting block or getting its junction. -/
theorem Walked.step (hW : Walked N (k + 1) dl done rest w st) (hk : k < N)
    (hq : QueueOk (m :: (dl ++ (done ++ rest)))) :
    ∃ dl' done', m :: (dl ++ done) = dl' ++ done' ∧
      Walked N k dl' done' rest w (flushStep st k m) := by
  by_cases hA : Accelerates m (dl ++ (done ++ rest))
  · by_cases hP : SetsPeak m (dl ++ (done ++ rest))
    · exact ⟨[], m :: (dl ++ done), rfl, hW.peak hk hq hP⟩
    · -- the move can only accelerate, so nothing waits behind it
      obtain ⟨rfl, hK⟩ := not_setsPeak hA hP hW.allDelayed hW.lead
      exact ⟨[], m :: done, rfl, hW.keep hk hq hA hK⟩
  · exact ⟨m :: dl, done, rfl, hW.delay hA⟩

end Step

/-- **Run lemma.**  The loop over the moves `l` from index `k` on keeps the invariant. -/
theorem walked_flushLoop {N : Nat} {rest : List Move} {w : ℚ} {st₀ : FlushState}
    (l : List Move) : ∀ (k : Nat), k + l.length ≤ N → QueueOk (l ++ rest) →
      Walked N (k + l.length) [] [] rest w st₀ →
      ∃ dl done, l = dl ++ done ∧ Walked N k dl done rest w (flushLoop (l.zipIdx k) st₀) := by
  induction l with
  | nil =>
    intro k _ _ h₀
    exact ⟨[], [], rfl, by simpa [flushLoop] using h₀⟩
  | cons m l ih =>
    intro k hN hq h₀
    simp only [List.length_cons] at hN h₀
    obtain ⟨dl, done, rfl, hW⟩ := ih (k + 1) (by omega) hq.tail (by rwa [Nat.add_right_comm])
    rw [List.zipIdx_cons, flushLoop]
    exact hW.step (by omega) (by simpa using hq)

/-! ## A full flush -/

/-- The moves `flush` hands to `_process_moves` go from squared speed `v` to `w`: each has a
    junction that fits it and starts where the one before ended. -/
def Emits : List (Move × Option Junction) → ℚ → ℚ → Prop
  | [], v, w => v = w
  | (m, some j) :: out, v, w => j.startV2 = v ∧ j.Fits m ∧ Emits out j.endV2 w
  | (_, none) :: _, _, _ => False

/-- Two profiles in a row make one. -/
theorem Emits.append {o₂ : List (Move × Option Junction)} {u w : ℚ} :
    ∀ {o₁ : List (Move × Option Junction)} {v : ℚ}, Emits o₁ v u → Emits o₂ u w →
      Emits (o₁ ++ o₂) v w
  | [], _, h₁, h₂ => h₁ ▸ h₂
  | (_, some _) :: _, _, ⟨hstart, hfit, hrest⟩, h₂ => ⟨hstart, hfit, Emits.append hrest h₂⟩
  | (_, none) :: _, _, h₁, _ => h₁.elim

/-- The moves with their junctions, as `flush` hands them on, follow a profile. -/
theorem Profile.emits {js : Nat → Option Junction} {w : ℚ} :
    ∀ {k : Nat} {v : ℚ} {ms : List Move}, Profile js k v ms w →
      Emits ((ms.zipIdx k).map fun p => (p.1, js p.2)) v w
  | _, _, [], h => h
  | k, _, m :: ms, h => by
    obtain ⟨j, hj, hstart, hfit, hrest⟩ := h
    simp only [List.zipIdx_cons, List.map_cons, hj, Emits]
    exact ⟨hstart, hfit, Profile.emits hrest⟩

/-- A full flush sets junctions below the queue's length, from a state with nothing behind. -/
theorem walked_init (q : List Move) :
    Walked q.length q.length [] [] [] 0 (FlushState.init false q.length) :=
  ⟨rfl, rfl, rfl, rfl, rfl, trivial, trivial, le_rfl, min_self (0 : ℚ),
    fun _ _ _ h => absurd h.symm (List.cons_ne_nil _ _)⟩

/-- A full flush of a queue whose first move can accelerate leaves no move waiting: it hands
    every move on, with the junctions of a walk whose profile runs over the whole queue. -/
theorem flush_full_walked (q : List Move) (jf : ℚ) (hq : QueueOk q) (hlead : LeadAccel q) :
    ∃ st : FlushState, Walked q.length 0 [] q [] 0 st ∧
      LookAheadQueue.flush ⟨q, jf⟩ false =
        (⟨[], lookaheadFlushTime⟩, q.zipIdx.map fun p => (p.1, st.junctions p.2)) := by
  obtain ⟨dl, done, hsplit, hW⟩ : ∃ dl done, q = dl ++ done ∧ Walked q.length 0 dl done [] 0
      (flushLoop (q.zipIdx 0) (FlushState.init false q.length)) :=
    walked_flushLoop q 0 (by simp) (by simpa using hq) (by simpa using walked_init q)
  -- the first move can accelerate, so no move is left waiting
  have hlead' : LeadAccel (dl ++ (done ++ [])) := by
    rw [List.append_nil, ← hsplit]
    exact hlead
  obtain rfl := (leadAccel_append_iff hW.allDelayed hW.lead).mp hlead'
  rw [List.nil_append] at hsplit
  rw [← hsplit] at hW
  refine ⟨_, hW, ?_⟩
  unfold LookAheadQueue.flush
  simp only [hW.updateFlushCount_eq, hW.flushCount_eq, Bool.false_or]
  split_ifs with hn
  · obtain rfl : q = [] := List.eq_nil_of_length_eq_zero (by simpa using hn)
    rfl
  · simp [List.take_length, List.drop_length]

/-- **A full flush.**  The moves of a queue that starts at rest are all handed on, from rest to
    rest, each with a junction that fits it and starts where the move before ended. -/
theorem full_flush_emits_continuous_profile (lq : LookAheadQueue) (hq : QueueOk lq.queue)
    (h0 : ∀ m ∈ lq.queue.head?, m.maxStartV2 = 0) :
    (lq.flush false).1.queue = [] ∧ (lq.flush false).2.map Prod.fst = lq.queue ∧
      Emits (lq.flush false).2 0 0 := by
  obtain ⟨q, jf⟩ := lq
  dsimp only at hq h0 ⊢
  -- the first move starts at rest, so it can accelerate
  have hlead : LeadAccel q := by
    cases q with
    | nil => trivial
    | cons d ds =>
      have hSM : d.maxSmoothedV2 = 0 := (⟨hq.cons, h0 d rfl⟩ : d.Fresh).maxSmoothedV2_eq
      show d.maxSmoothedV2 < walkSmoothedV2 ds + d.smoothDeltaV2
      linarith [walkSmoothedV2_nonneg hq.tail.ok, hq.cons.smoothDeltaV2_pos]
  obtain ⟨st, hW, hflush⟩ := flush_full_walked q jf hq hlead
  rw [hflush]
  have hprof := hW.profile
  simp only [List.append_nil, List.length_nil, Nat.add_zero] at hprof
  -- the profile starts at `min(start_v2, peak)`, and `start_v2` is at most the first bound `0`
  have hS0 : walkStartV2 q = 0 := by
    cases q with
    | nil => rfl
    | cons d ds =>
      refine le_antisymm ?_ (walkStartV2_nonneg hq.ok)
      exact backReach_cons_le_cap.trans_eq (h0 d rfl)
  have hpeak : 0 ≤ st.peakCruiseV2 :=
    (walkSmoothedV2_nonneg hq.ok).trans (by simpa using hW.peak_ge)
  rw [hS0, min_eq_left hpeak] at hprof
  exact ⟨rfl, by simp [Function.comp_def], hprof.emits⟩

/-- Three moves queued after a stop, the second at a corner, flushed from rest to rest. -/
theorem full_flush_emits_continuous_profile_corner :
    let th : ToolheadLimits := ⟨100, 1000, 1 / 100, 500⟩
    let m₁ := Move.init th 10 0 50
    let m₂ := (Move.init th 20 0 50).calcJunction m₁ 2500 (some ⟨1, 1 / 4⟩)
    let m₃ := (Move.init th 5 0 50).calcJunction m₂ 2500 none
    let lq : LookAheadQueue := ⟨[m₁, m₂, m₃], 1 / 4⟩
    QueueOk lq.queue ∧ (∀ m ∈ lq.queue.head?, m.maxStartV2 = 0) ∧
      ((lq.flush false).1.queue = [] ∧ (lq.flush false).2.map Prod.fst = lq.queue ∧
        Emits (lq.flush false).2 0 0) := by
  intro th m₁ m₂ m₃ lq
  have hth : th.Ok := ⟨by norm_num, by norm_num, by norm_num, by norm_num, by norm_num⟩
  have h₁ : m₁.Fresh := Move.init_fresh hth (by norm_num) (by norm_num)
  obtain ⟨h₂, f₁₂⟩ : m₂.Ok ∧ Follows m₁ m₂ := Move.calcJunction_follows h₁.ok
    (Move.init_fresh hth (by norm_num) (by norm_num)) (by norm_num)
    (fun a ha => by
      obtain rfl := Option.mem_some_iff.mp ha
      exact ⟨by norm_num, by norm_num⟩)
  obtain ⟨h₃, f₂₃⟩ : m₃.Ok ∧ Follows m₂ m₃ := Move.calcJunction_follows h₂
    (Move.init_fresh hth (by norm_num) (by norm_num)) (by norm_num)
    (fun a ha => absurd ha (Option.not_mem_none a))
  have hq : QueueOk lq.queue := by
    refine ⟨?_, List.isChain_cons_cons.mpr ⟨f₁₂, List.isChain_cons_cons.mpr
      ⟨f₂₃, List.isChain_singleton _⟩⟩⟩
    simp only [lq, List.forall_mem_cons, List.not_mem_nil, IsEmpty.forall_iff, implies_true,
      and_true]
    exact ⟨h₁.ok, h₂, h₃⟩
  have h0 : ∀ m ∈ lq.queue.head?, m.maxStartV2 = 0 := by
    intro m hm
    obtain rfl : m = m₁ := by simpa [lq] using hm.symm
    exact h₁.maxStartV2_eq
  exact ⟨hq, h0, full_flush_emits_continuous_profile lq hq h0⟩

end Klipper.Lookahead
