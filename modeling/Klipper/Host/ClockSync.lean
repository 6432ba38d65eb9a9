import Mathlib
import Klipper.Lib.IntBits
import Klipper.Lib.WrapClock

/-
  Extending the MCU's 32-bit clock readings to full clocks on the host.

  The MCU reports the low 32 bits of its clock; the host keeps the last full clock it knows and
  takes a reading to the one full clock with those low bits near it.  There are three versions:

  * `clock_from_clock32` (`msgblock.c`) adds to `last_clock` the difference of the readings cast
    to `int32_t`, so it reaches 2^31 ticks back and 2^31 - 1 forward;
  * `ClockSync.clock32_to_clock64` (`clocksync.py`) masks the difference to 32 bits and subtracts
    twice its bit 31, the same window with Python's integers;
  * `ClockSync._handle_clock` masks the difference only, so it moves forward by less than 2^32.

  Each is shown to return the clock whose reading it was given, in its window
  (`clockFromClock32_eq`, `clock32ToClock64_eq`, `handleClock_eq`); in particular the C and the
  Python helper agree there.  The C version is taken to integers through `WrapClock.ticks`, the
  signed difference of two readings; the Python ones through `IntBits.land_two_pow_sub_one`,
  masking as the residue.
-/

namespace Klipper.ClockSync

/-- `clock_from_clock32`: `last_clock + (int32_t)(clock32 - last_clock)`, in `uint64_t`. -/
def clockFromClock32 (lastClock : UInt64) (clock32 : UInt32) : UInt64 :=
  lastClock + UInt64.ofInt (clock32.toUInt64 - lastClock).toUInt32.toInt32.toInt

/-- `ClockSync.clock32_to_clock64` -/
def clock32ToClock64 (lastClock clock32 : Int) : Int :=
  let clockDiff := Int.land (clock32 - lastClock) 0xffffffff
  let clockDiff := clockDiff - (Int.land clockDiff 0x80000000 <<< 1)
  lastClock + clockDiff

/-- The clock `ClockSync._handle_clock` stores as `last_clock` for a reported `clock`. -/
def handleClock (lastClock clock : Int) : Int :=
  let clockDelta := Int.land (clock - lastClock) 0xffffffff
  lastClock + clockDelta

/-! ## The C helper -/

/-- The `int32_t` cast of the 64-bit difference is the signed difference of the two
    readings. -/
theorem toInt_cast_eq_ticks (lastClock : UInt64) (clock32 : UInt32) :
    (clock32.toUInt64 - lastClock).toUInt32.toInt32.toInt =
      WrapClock.ticks lastClock.toUInt32 clock32 := by
  -- the low 32 bits of the 64-bit difference are the 32-bit difference
  have hlow : (clock32.toUInt64 - lastClock).toUInt32 = clock32 - lastClock.toUInt32 := by
    apply UInt32.toNat_inj.mp
    rw [UInt64.toNat_toUInt32, UInt64.toNat_sub, UInt32.toNat_sub, UInt64.toNat_toUInt32,
      UInt32.toNat_toUInt64]
    have := lastClock.toNat_lt
    have := clock32.toNat_lt
    omega
  rw [hlow]
  rfl

/-- **`clock_from_clock32`** returns the clock of a reading less than 2^31 ticks back or
    forward of `last_clock`. -/
theorem clockFromClock32_eq {lastClock c : UInt64}
    (h1 : -2 ^ 31 ≤ (c.toNat : Int) - lastClock.toNat) (h2 : (c.toNat : Int) - lastClock.toNat < 2 ^ 31) :
    clockFromClock32 lastClock c.toUInt32 = c := by
  have hticks : WrapClock.ticks lastClock.toUInt32 c.toUInt32 = (c.toNat : Int) - lastClock.toNat :=
    WrapClock.ticks_eq_sub (by rw [UInt64.toNat_toUInt32]; omega)
      (by rw [UInt64.toNat_toUInt32]; omega) h1 h2
  apply UInt64.toNat_inj.mp
  rw [clockFromClock32, toInt_cast_eq_ticks, hticks, UInt64.toNat_add, UInt64.ofInt,
    UInt64.toNat_ofNat']
  have := c.toNat_lt
  have := lastClock.toNat_lt
  omega

/-! ## The Python helpers -/

theorem land_ffffffff (x : Int) : Int.land x 0xffffffff = x % 2 ^ 32 :=
  IntBits.land_two_pow_sub_one x 32

/-- Twice bit 31 of a residue below `2^32`: `2^32` when it is at least `2^31`. -/
theorem land_top_shiftLeft {r : Int} (h0 : 0 ≤ r) (h1 : r < 2 ^ 32) :
    Int.land r 0x80000000 <<< 1 = if 2 ^ 31 ≤ r then 2 ^ 32 else 0 := by
  obtain ⟨m, rfl⟩ := Int.eq_ofNat_of_zero_le h0
  have hm : m < 2 ^ 32 := by omega
  show (((m &&& 2 ^ 31 : Nat) : Int) <<< 1) = _
  rw [IntBits.and_two_pow_31 hm]
  by_cases h : 2 ^ 31 ≤ m
  · rw [if_pos h, if_pos (by exact_mod_cast h)]
    rfl
  · rw [if_neg h, if_neg (by exact_mod_cast h)]
    rfl

/-- **`clock32_to_clock64`** returns the clock of a reading less than 2^31 ticks back or
    forward of `last_clock`. -/
theorem clock32ToClock64_eq {lastClock c : Int} (h1 : -2 ^ 31 ≤ c - lastClock)
    (h2 : c - lastClock < 2 ^ 31) : clock32ToClock64 lastClock (c % 2 ^ 32) = c := by
  have hr0 : 0 ≤ (c % 2 ^ 32 - lastClock) % 2 ^ 32 := Int.emod_nonneg _ (by norm_num)
  have hr1 : (c % 2 ^ 32 - lastClock) % 2 ^ 32 < 2 ^ 32 := Int.emod_lt_of_pos _ (by norm_num)
  rw [clock32ToClock64, land_ffffffff, land_top_shiftLeft hr0 hr1]
  split_ifs <;> omega

/-- **`_handle_clock`** returns the clock of a reading less than 2^32 ticks forward of
    `last_clock`. -/
theorem handleClock_eq {lastClock c : Int} (h1 : lastClock ≤ c) (h2 : c < lastClock + 2 ^ 32) :
    handleClock lastClock (c % 2 ^ 32) = c := by
  rw [handleClock, land_ffffffff]
  omega

theorem clock32_extension :
    (∀ lastClock c : UInt64, -2 ^ 31 ≤ (c.toNat : Int) - lastClock.toNat →
        (c.toNat : Int) - lastClock.toNat < 2 ^ 31 →
      clockFromClock32 lastClock c.toUInt32 = c ∧
        clock32ToClock64 lastClock.toNat ((c.toNat : Int) % 2 ^ 32) = c.toNat) ∧
    ∀ lastClock c : Int, lastClock ≤ c → c < lastClock + 2 ^ 32 →
      handleClock lastClock (c % 2 ^ 32) = c := by
  refine ⟨fun lastClock c h1 h2 => ⟨clockFromClock32_eq h1 h2, clock32ToClock64_eq h1 h2⟩, ?_⟩
  intro lastClock c h1 h2
  exact handleClock_eq h1 h2

/-- A reading 15 ticks after `last_clock`, across a wrap of the low 32 bits. -/
theorem clock32_extension_across_wrap :
    clockFromClock32 0xfffffff6 (0x100000005 : UInt64).toUInt32 = 0x100000005 ∧
      clock32ToClock64 0xfffffff6 (0x100000005 % 2 ^ 32) = 0x100000005 ∧
      handleClock 0xfffffff6 (0x100000005 % 2 ^ 32) = 0x100000005 :=
  ⟨(clock32_extension.1 0xfffffff6 0x100000005 (by decide) (by decide)).1,
    (clock32_extension.1 0xfffffff6 0x100000005 (by decide) (by decide)).2,
    clock32_extension.2 0xfffffff6 0x100000005 (by norm_num) (by norm_num)⟩

end Klipper.ClockSync
