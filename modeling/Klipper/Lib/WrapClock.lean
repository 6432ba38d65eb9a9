import Mathlib.Data.Int.Bitwise

/-
  A free-running 32-bit counter read against real time.

  A device that counts ticks in a 32-bit register sees only the time modulo `2^32`; code that
  compares two readings by the sign of their wrapped difference is right exactly while the two
  real times are less than `2^31` ticks apart.  Real time here is a natural number `now`, the
  reading at real time `t` is `clockAt t`, and a stored reading `x` stands, at real time `now`,
  for the one real time `realOf now x` in the window `[now - 2^31, now + 2^31)` whose reading it
  is.

  The lemmas say how `realOf` meets the operations a program performs on readings: it is the
  identity on readings of times in the window (`realOf_clockAt`), adding a tick count adds it
  while the result stays in the window (`realOf_add`), it does not move while time advances
  and the reading stays in the window (`realOf_advance`), and the sign of a wrapped difference
  compares real times less than `2^31` apart (`ticks_neg_iff`).  Every proof goes down to
  `toNat` and residues modulo `2^32`, where `omega` decides.
-/

namespace WrapClock

/-- The reading of the counter at real time `t`. -/
def clockAt (t : Nat) : UInt32 := UInt32.ofNat t

/-- The ticks from reading `a` forward to reading `b`, as a signed 32-bit number: negative when
    `b` is behind `a`. -/
def ticks (a b : UInt32) : Int := (b - a).toBitVec.toInt

/-- The real time that the reading `x` stands for at real time `now`. -/
def realOf (now : Nat) (x : UInt32) : Int := now + ticks (clockAt now) x

/-! ## Ticks -/

/-- The signed difference from the unsigned one. -/
theorem ticks_eq (a b : UInt32) :
    ticks a b = if (b - a).toNat < 2 ^ 31 then ((b - a).toNat : Int)
      else ((b - a).toNat : Int) - 2 ^ 32 := by
  rw [ticks, BitVec.toInt_eq_toNat_cond, UInt32.toNat_toBitVec]
  split_ifs <;> omega

theorem ticks_bounds (a b : UInt32) : -2 ^ 31 ≤ ticks a b ∧ ticks a b < 2 ^ 31 := by
  have := UInt32.toNat_lt (b - a)
  rw [ticks_eq]
  split_ifs <;> omega

/-- The signed difference is the difference of the readings modulo `2^32`. -/
theorem ticks_emod (a b : UInt32) :
    ticks a b % 2 ^ 32 = ((b.toNat : Int) - a.toNat) % 2 ^ 32 := by
  have ha := UInt32.toNat_lt a
  have hb := UInt32.toNat_lt b
  rw [ticks_eq, UInt32.toNat_sub]
  split_ifs <;> omega

/-- **The signed difference of two readings** is the difference of any two integers with those
    residues, when that difference lies in `[-2^31, 2^31)`. -/
theorem ticks_eq_sub {a b : UInt32} {ra rb : Int} (ha : ra % 2 ^ 32 = a.toNat)
    (hb : rb % 2 ^ 32 = b.toNat) (h1 : -2 ^ 31 ≤ rb - ra) (h2 : rb - ra < 2 ^ 31) :
    ticks a b = rb - ra := by
  have he := ticks_emod a b
  have hbd := ticks_bounds a b
  omega

/-! ## Real times -/

theorem toNat_clockAt (t : Nat) : (clockAt t).toNat = t % 2 ^ 32 := by
  simp [clockAt]

theorem realOf_bounds (now : Nat) (x : UInt32) :
    (now : Int) - 2 ^ 31 ≤ realOf now x ∧ realOf now x < now + 2 ^ 31 := by
  have := ticks_bounds (clockAt now) x
  rw [realOf]
  omega

/-- `realOf now x` has the reading `x`. -/
theorem realOf_emod (now : Nat) (x : UInt32) : realOf now x % 2 ^ 32 = x.toNat := by
  have he := ticks_emod (clockAt now) x
  have hx := UInt32.toNat_lt x
  rw [realOf, toNat_clockAt] at *
  omega

/-- **The window determines the time.**  The real time in the window around `now` whose reading
    is `x` is `realOf now x`. -/
theorem realOf_eq_of {now : Nat} {x : UInt32} {r : Int} (h1 : (now : Int) - 2 ^ 31 ≤ r)
    (h2 : r < now + 2 ^ 31) (hr : r % 2 ^ 32 = x.toNat) : realOf now x = r := by
  have he := realOf_emod now x
  have hb := realOf_bounds now x
  omega

/-- The reading of a time in the window stands for that time. -/
theorem realOf_clockAt {now t : Nat} (h1 : now ≤ t + 2 ^ 31) (h2 : t < now + 2 ^ 31) :
    realOf now (clockAt t) = t := by
  apply realOf_eq_of (by omega) (by omega)
  rw [toNat_clockAt]
  omega

/-- At its own time the counter reads `now`. -/
theorem realOf_clockAt_self (now : Nat) : realOf now (clockAt now) = now :=
  realOf_clockAt (by omega) (by omega)

/-- Adding ticks to a reading adds them to its real time, while that stays in the window. -/
theorem realOf_add {now : Nat} {x : UInt32} (d : UInt32)
    (h : realOf now x + d.toNat < now + 2 ^ 31) : realOf now (x + d) = realOf now x + d.toNat := by
  have hb := realOf_bounds now x
  have he := realOf_emod now x
  have hd := UInt32.toNat_lt d
  apply realOf_eq_of (by omega) h
  rw [UInt32.toNat_add]
  omega

/-- A reading keeps its real time while time advances, as long as it stays in the window. -/
theorem realOf_advance {now : Nat} {x : UInt32} (k : Nat)
    (h : (now : Int) + k ≤ realOf now x + 2 ^ 31) : realOf (now + k) x = realOf now x := by
  have hb := realOf_bounds now x
  apply realOf_eq_of (by push_cast; omega) (by push_cast; omega) (realOf_emod now x)

/-- **Comparing by the wrapped difference.**  The difference from `y` to `x` is negative exactly
    when `x` is before `y`, for readings whose real times are less than `2^31` apart. -/
theorem ticks_neg_iff {now : Nat} {x y : UInt32}
    (h1 : realOf now x - realOf now y < 2 ^ 31) (h2 : realOf now y - realOf now x ≤ 2 ^ 31) :
    ticks y x < 0 ↔ realOf now x < realOf now y := by
  rw [ticks_eq_sub (realOf_emod now y) (realOf_emod now x) (by omega) h1]
  omega

end WrapClock
