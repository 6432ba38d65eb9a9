import Mathlib
import Klipper.Host.StepCompress

/-
  Signed overflow in `compress_bisect_add` (`klippy/chelper/stepcompress.c`).

  C leaves a signed `int32_t` product or sum undefined when its exact value is out of range.
  `Host.StepCompress` models `compress_bisect_add` with wrapping `Int32` arithmetic, which is
  what the compiled code does in practice.  Here the same two loops run with the C rule made
  explicit: each product and sum the search computes is checked against the `int32_t` range, and
  the first one out of range ends the run with `Overflow`, naming the operation and its exact
  value.  The products `nextcount*(nextcount-1)` of the inner loop and `count*(count-1)` of the
  reach are multiplied by `add` alone, so with `add = 0` they are left unchecked.  The other
  operations (the differences and the divisions of `idiv_up` / `idiv_down`) keep their wrapping
  model.

  When the checked run ends normally it returns the move of the wrapping model
  (`compressBisectAddChecked_ok`).  It does not always end normally: on a queue of 139 steps
  that decelerate with `add = -32767`, the first of them queued late, the search reaches its last
  `add` with `outer_maxinterval` still the top of the first window, and
  `outer_maxinterval * nextcount` is `15498790 * 139 = 2154331810`, above `INT32_MAX`
  (`compressBisectAdd_outer_overflow`).
-/

namespace Klipper.StepCompress

/-! ## Checked `int32_t` arithmetic -/

/-- The signed products and sums of `compress_bisect_add`, by the expression that computes them. -/
inductive Op
  /-- `nextcount*(nextcount-1)` in the inner loop -/
  | nextaddfactor
  /-- `add*nextaddfactor` in the inner loop -/
  | addNextaddfactor
  | nextminintervalNextcount
  | nextmaxintervalNextcount
  /-- `count*(count-1)` of the reach -/
  | addfactor
  | addAddfactor
  | intervalCount
  | reach
  /-- `nextcount*(nextcount-1)` after the inner loop -/
  | outerNextaddfactor
  | outerAddNextaddfactor
  | intervalNextcount
  | nextreach
  | countCount
  | minaddNextaddfactor
  | maxaddNextaddfactor
  | outerMaxintervalNextcount
  | outerMinintervalNextcount
deriving DecidableEq, Repr

/-- An operation whose exact value is outside `int32_t`. -/
structure Overflow where
  op : Op
  value : Int
deriving DecidableEq, Repr

/-- The values of `int32_t`. -/
def InInt32 (x : Int) : Prop := -2 ^ 31 ≤ x ∧ x < 2 ^ 31

instance : DecidablePred InInt32 := fun _ => inferInstanceAs (Decidable (_ ∧ _))

/-- `a * b` in `int32_t`, defined only when the exact product is in range. -/
def checkedMul (op : Op) (a b : Int32) : Except Overflow Int32 :=
  if InInt32 (a.toInt * b.toInt) then .ok (a * b) else .error ⟨op, a.toInt * b.toInt⟩

/-- `a + b` in `int32_t`, defined only when the exact sum is in range. -/
def checkedAdd (op : Op) (a b : Int32) : Except Overflow Int32 :=
  if InInt32 (a.toInt + b.toInt) then .ok (a + b) else .error ⟨op, a.toInt + b.toInt⟩

/-- A product that is only ever multiplied by `add`: with `add = 0` its value does not matter,
    so it is left unchecked. -/
def checkedFactor (op : Op) (add a b : Int32) : Except Overflow Int32 :=
  if add = 0 then pure (a * b) else checkedMul op a b

theorem checkedMul_eq_ok {op : Op} {a b x : Int32} (h : checkedMul op a b = .ok x) : x = a * b := by
  unfold checkedMul at h
  split at h
  · cases h; rfl
  · cases h

theorem checkedAdd_eq_ok {op : Op} {a b x : Int32} (h : checkedAdd op a b = .ok x) : x = a + b := by
  unfold checkedAdd at h
  split at h
  · cases h; rfl
  · cases h

/-- Results of a checked run compare case by case, so that runs can be evaluated. -/
instance instDecidableEqExcept {ε α : Type} [DecidableEq ε] [DecidableEq α] :
    DecidableEq (Except ε α)
  | .error x, .error y => decidable_of_iff (x = y) ⟨congrArg _, fun h => by cases h; rfl⟩
  | .ok x, .ok y => decidable_of_iff (x = y) ⟨congrArg _, fun h => by cases h; rfl⟩
  | .error _, .ok _ => isFalse fun h => by cases h
  | .ok _, .error _ => isFalse fun h => by cases h

theorem checkedFactor_eq_ok {op : Op} {add a b x : Int32} (h : checkedFactor op add a b = .ok x) :
    x = a * b := by
  unfold checkedFactor at h
  split at h
  · cases h; rfl
  · exact checkedMul_eq_ok h

theorem except_bind_eq_ok {ε α β : Type} {e : Except ε α} {f : α → Except ε β} {y : β} :
    (e >>= f) = .ok y ↔ ∃ x, e = .ok x ∧ f x = .ok y := by
  cases e <;> simp [bind, Except.bind]

/-- A checked product that lets the run go on continues it with the wrapping product. -/
theorem checkedMul_bind_eq_ok {β : Type} {op : Op} {a b : Int32} {f : Int32 → Except Overflow β}
    {y : β} (h : (checkedMul op a b >>= f) = .ok y) : f (a * b) = .ok y := by
  obtain ⟨x, hx, h⟩ := except_bind_eq_ok.mp h
  rwa [← checkedMul_eq_ok hx]

theorem checkedFactor_bind_eq_ok {β : Type} {op : Op} {add a b : Int32}
    {f : Int32 → Except Overflow β} {y : β} (h : (checkedFactor op add a b >>= f) = .ok y) :
    f (a * b) = .ok y := by
  obtain ⟨x, hx, h⟩ := except_bind_eq_ok.mp h
  rwa [← checkedFactor_eq_ok hx]

/-! ## The checked search -/

/-- `innerLoop` with each product checked. -/
def innerLoopChecked (sc : Stepcompress) (qlen : Nat) (add : Int32) :
    Nat → Nat → Int32 → Int32 → Int32 → Except Overflow (Option Inner)
  | 0, _, _, _, _ => pure none
  | fuel + 1, nextcount, nextmininterval, nextmaxinterval, interval =>
    if qlen ≤ nextcount - 1 then pure (some (.ret interval (Int32.ofNat (nextcount - 1))))
    else do
      let nextpoint := minmaxPoint sc (nextcount - 1)
      let nc := Int32.ofNat nextcount
      let nf ← checkedFactor .nextaddfactor add nc (nc - 1)
      let nextaddfactor := nf / 2
      let c ← checkedMul .addNextaddfactor add nextaddfactor
      let minc ← checkedMul .nextminintervalNextcount nextmininterval nc
      let nextmininterval := if minc < nextpoint.minp - c
        then idivUp (nextpoint.minp - c) nc else nextmininterval
      let maxc ← checkedMul .nextmaxintervalNextcount nextmaxinterval nc
      let nextmaxinterval := if maxc > nextpoint.maxp - c
        then idivDown (nextpoint.maxp - c) nc else nextmaxinterval
      if nextmininterval > nextmaxinterval then
        pure (some (.stop nextmininterval nextmaxinterval interval nextcount nextpoint))
      else
        innerLoopChecked sc qlen add fuel (nextcount + 1) nextmininterval nextmaxinterval nextmaxinterval

/-- `outerLoop` with each product and sum checked. -/
def outerLoopChecked (sc : Stepcompress) (qlen : Nat) :
    Nat → Search → Except Overflow (Option StepMove)
  | 0, _ => pure none
  | fuel + 1, s => do
    let inner ← innerLoopChecked sc qlen s.add (qlen + 1) 2 s.outerMininterval s.outerMaxinterval
      s.outerMaxinterval
    match inner with
    | none => pure none
    | some (.ret interval count) =>
      pure (some ⟨interval.toUInt32, count.toUInt32.toUInt16, s.add.toInt16, sc.taskline⟩)
    | some (.stop nextmininterval nextmaxinterval interval nextcount nextpoint) =>
      let count := Int32.ofNat nextcount - 1
      let af ← checkedFactor .addfactor s.add count (count - 1)
      let addfactor := af / 2
      let ra ← checkedMul .addAddfactor s.add addfactor
      let ri ← checkedMul .intervalCount interval count
      let reach ← checkedAdd .reach ra ri
      let better := reach > s.bestreach || (reach == s.bestreach && interval > s.bestinterval)
      let s : Search := if better then s.record interval count reach else s
      if better && count > 0x200 then pure (some (s.finish sc.taskline))
      else
        let nc := Int32.ofNat nextcount
        let nf ← checkedMul .outerNextaddfactor nc (nc - 1)
        let nextaddfactor := nf / 2
        let na ← checkedMul .outerAddNextaddfactor s.add nextaddfactor
        let ni ← checkedMul .intervalNextcount interval nc
        let nextreach ← checkedAdd .nextreach na ni
        let s : Search := if nextreach < nextpoint.minp
          then { s with minadd := s.add + 1, outerMaxinterval := nextmaxinterval }
          else { s with maxadd := s.add - 1, outerMininterval := nextmininterval }
        -- `count*count` is only computed when `count > 1`
        let cc ← (if count > 1 then checkedMul .countCount count count else pure (count * count))
        let s : Search := if count > 1 then
            let errdelta := ((sc.maxError * quadraticDev) / cc.toUInt32).toInt32
            let s : Search := if s.minadd < s.add - errdelta then { s with minadd := s.add - errdelta } else s
            if s.maxadd > s.add + errdelta then { s with maxadd := s.add + errdelta } else s
          else s
        let c ← checkedMul .outerMaxintervalNextcount s.outerMaxinterval nc
        let minf ← checkedMul .minaddNextaddfactor s.minadd nextaddfactor
        let s : Search := if minf < nextpoint.minp - c
          then { s with minadd := idivUp (nextpoint.minp - c) nextaddfactor } else s
        let c ← checkedMul .outerMinintervalNextcount s.outerMininterval nc
        let maxf ← checkedMul .maxaddNextaddfactor s.maxadd nextaddfactor
        let s : Search := if maxf > nextpoint.maxp - c
          then { s with maxadd := idivDown (nextpoint.maxp - c) nextaddfactor } else s
        if s.minadd > s.maxadd then pure (some (s.finish sc.taskline))
        else outerLoopChecked sc qlen fuel { s with add := s.maxadd - (s.maxadd - s.minadd) / 4 }

/-- `compressBisectAdd` with each product and sum checked. -/
def compressBisectAddChecked (sc : Stepcompress) : Except Overflow (Option StepMove) :=
  let qlen := min sc.queue.length 65535
  let point := minmaxPoint sc 0
  outerLoopChecked sc qlen 0x10001
    ⟨point.minp, point.maxp, 0, -0x8000, 0x7fff, 0, 1, 1, Int32.minValue, 0, 0⟩

/-! ## The checked search refines the wrapping one -/

theorem innerLoopChecked_ok {sc : Stepcompress} {qlen : Nat} {add : Int32} {fuel nextcount : Nat}
    {nextmininterval nextmaxinterval interval : Int32} {r : Option Inner}
    (h : innerLoopChecked sc qlen add fuel nextcount nextmininterval nextmaxinterval interval = .ok r) :
    innerLoop sc qlen add fuel nextcount nextmininterval nextmaxinterval interval = r := by
  induction fuel generalizing nextcount nextmininterval nextmaxinterval interval with
  | zero => cases h; rfl
  | succ fuel ih =>
    unfold innerLoopChecked at h
    unfold innerLoop
    by_cases hq : qlen ≤ nextcount - 1
    · rw [if_pos hq] at h
      rw [if_pos hq]
      cases h; rfl
    · rw [if_neg hq] at h
      rw [if_neg hq]
      dsimp only at h ⊢
      -- each checked product is the wrapping one
      replace h := checkedFactor_bind_eq_ok h
      replace h := checkedMul_bind_eq_ok h
      replace h := checkedMul_bind_eq_ok h
      replace h := checkedMul_bind_eq_ok h
      -- the narrowed range is now the same on both sides: it stops, or both loops go on
      split_ifs at h ⊢ <;> first | exact ih h | (cases h; rfl)

theorem outerLoopChecked_ok {sc : Stepcompress} {qlen fuel : Nat} {s : Search} {r : Option StepMove}
    (h : outerLoopChecked sc qlen fuel s = .ok r) : outerLoop sc qlen fuel s = r := by
  induction fuel generalizing s with
  | zero => cases h; rfl
  | succ fuel ih =>
    unfold outerLoopChecked at h
    unfold outerLoop
    obtain ⟨inner, hinner, h⟩ := except_bind_eq_ok.mp h
    rw [innerLoopChecked_ok hinner]
    clear hinner
    rcases inner with _ | ⟨interval, count⟩ | ⟨nextmininterval, nextmaxinterval, interval, nextcount, nextpoint⟩
    · cases h; rfl
    · cases h; rfl
    · dsimp -zeta only at h ⊢
      -- the lets of the wrapping step become local definitions, and those of the checked step
      -- merge with them as each checked value is shown to be the wrapping one
      extract_lets count addfactor reach better s1 nc nextaddfactor nextreach s2 errdelta s3 s4
        cmax s5 cmin s6
      extract_lets at h
      replace h := checkedFactor_bind_eq_ok h
      extract_lets at h
      replace h := checkedMul_bind_eq_ok h
      replace h := checkedMul_bind_eq_ok h
      -- a value the wrapping step names is matched to that name, so that the lets after it merge
      obtain ⟨reach', hreach, h⟩ := except_bind_eq_ok.mp h
      obtain rfl : reach' = reach := checkedAdd_eq_ok hreach
      extract_lets at h
      by_cases hfin : (better && decide (count > 512)) = true
      · rw [if_pos hfin] at h ⊢
        cases h; rfl
      rw [if_neg hfin] at h ⊢
      replace h := checkedMul_bind_eq_ok h
      extract_lets at h
      replace h := checkedMul_bind_eq_ok h
      replace h := checkedMul_bind_eq_ok h
      obtain ⟨nextreach', hnextreach, h⟩ := except_bind_eq_ok.mp h
      obtain rfl : nextreach' = nextreach := checkedAdd_eq_ok hnextreach
      extract_lets at h
      -- `count*count` is checked only when `count > 1`
      obtain ⟨cc, hcc, h⟩ := except_bind_eq_ok.mp h
      obtain rfl : cc = count * count := by
        split at hcc
        · exact checkedMul_eq_ok hcc
        · cases hcc; rfl
      extract_lets at h
      obtain ⟨cmax', hcmax, h⟩ := except_bind_eq_ok.mp h
      obtain rfl : cmax' = cmax := checkedMul_eq_ok hcmax
      replace h := checkedMul_bind_eq_ok h
      extract_lets at h
      obtain ⟨cmin', hcmin, h⟩ := except_bind_eq_ok.mp h
      obtain rfl : cmin' = cmin := checkedMul_eq_ok hcmin
      replace h := checkedMul_bind_eq_ok h
      extract_lets at h
      -- both steps end on the same narrowed range: they finish, or both searches go on
      by_cases hstop : s6.minadd > s6.maxadd
      · rw [if_pos hstop] at h ⊢
        cases h; rfl
      · rw [if_neg hstop] at h ⊢
        exact ih h

/-- A checked search that ends without overflow returns the move of the wrapping model. -/
theorem compressBisectAddChecked_ok {sc : Stepcompress} {r : Option StepMove}
    (h : compressBisectAddChecked sc = .ok r) : compressBisectAdd sc = r :=
  outerLoopChecked_ok h

/-! ## An overflow -/

/-- The clocks of the overflow, after `last_step_clock = 1000`.  `p j` is the `j`-th step of a
    move that decelerates with `add = -32767`, and steps 1 to 137 are at `p (k + 1)`.  Step 0 is
    queued at `p 2 - 1`: its window reaches down to half that time and holds `p 1`, and its top,
    `15498790`, is the first `outer_maxinterval`.  The last step is queued one tick after step
    137, where no move of this shape goes. -/
def overflowQueue : List UInt32 :=
  let p (j : Nat) : Nat := 7765779 * j - 32767 * (j * (j - 1) / 2)
  (List.range 139).map fun k =>
    (1000 + if k = 0 then p 2 - 1 else if k = 138 then p 138 + 1 else p (k + 1)).toUInt32

/-- Every `add` the search tries on `overflowQueue` goes on past the point where its inner loop
    stops, so the search only lowers `maxadd` and never narrows `outer_maxinterval`; at
    `add = -32767` the inner loop runs through 138 points and stops at the last one, and
    `outer_maxinterval * nextcount` leaves `int32_t`.  With wrapping the search still returns the
    move through the first 138 points. -/
theorem compressBisectAdd_outer_overflow :
    compressBisectAddChecked ⟨overflowQueue, 0xffffff, 1000, 0⟩ =
        .error ⟨.outerMaxintervalNextcount, 2154331810⟩ ∧
      compressBisectAdd ⟨overflowQueue, 0xffffff, 1000, 0⟩ = some ⟨7765779, 138, -32767, 0⟩ := by
  decide +kernel

end Klipper.StepCompress
