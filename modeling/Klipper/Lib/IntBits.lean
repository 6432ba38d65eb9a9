import Mathlib.Data.Int.Bitwise
import Mathlib.Tactic.Ring
import Mathlib.Tactic.Linarith
import Mathlib.Tactic.Positivity
import Mathlib.Data.ZMod.Basic

/-
  Two's-complement bit operations on unbounded integers, as plain arithmetic.

  An unbounded integer carries an infinite two's-complement bit string: Mathlib's `Int.land` and
  `Int.lor` and core's `>>>`/`<<<` on `Int` (shift amount a `Nat`) are the bitwise `&`, `|`, `>>`
  and `<<` of a language whose integers never overflow.  Codecs that cut a number into seven-bit
  groups, tag them and sign-extend them use these operations in four shapes only, and each shape
  is ordinary arithmetic:

  * `x & (2^n - 1)` is `x % 2^n`, for negative `x` too (the residue is taken upward);
  * `x | 2^n` is `x + 2^n` when `0 ≤ x < 2^n` (setting a tag bit above the payload);
  * `a | -(2^n)` is `a % 2^n - 2^n` for `a ≥ 0` (sign extension from bit `n`);
  * `(x << n) | b` is `x * 2^n + b` when `0 ≤ b < 2^n`, whatever the sign of `x`.

  The negative cases rest on one `Nat` fact, `ldiff_two_pow_sub_one`: clearing the bits of `a`
  from `2^n - 1` leaves the complement of the low `n` bits of `a`.  It is proved bit by bit; the
  rest is unfolding `Int.land`/`Int.lor` on the sign of the operands.

  Fixed-width words are read the other way round: `wordRes` sends a 32-bit word to the residue
  modulo `2^32` it stands for, where `+`, `-` and `*` of words are those of `ZMod (2^32)` and an
  `int32_t` stored in a `uint32_t` keeps its residue, so that an identity between word
  computations is a ring identity once both sides are residues (`wordRes_injective`).
-/

namespace IntBits

/-! ## The complement of the low bits -/

/-- Clearing the bits of `a` from the all-ones word `2^n - 1` leaves `2^n - 1 - (a mod 2^n)`. -/
theorem ldiff_two_pow_sub_one (n a : Nat) :
    Nat.ldiff (2 ^ n - 1) a = 2 ^ n - (a % 2 ^ n + 1) := by
  apply Nat.eq_of_testBit_eq
  intro i
  rw [Nat.testBit_ldiff, Nat.testBit_two_pow_sub_one,
    Nat.testBit_two_pow_sub_succ (Nat.mod_lt _ (Nat.two_pow_pos n)), Nat.testBit_mod_two_pow]
  cases decide (i < n) <;> rfl

/-- A word whose low `n` bits are all set minus a value that fits in those bits: clearing the
    value's bits is subtraction. -/
theorem ldiff_low_ones (n m b : Nat) (hb : b < 2 ^ n) :
    Nat.ldiff (2 ^ n * m + (2 ^ n - 1)) b = 2 ^ n * m + (2 ^ n - 1 - b) := by
  apply Nat.eq_of_testBit_eq
  intro i
  have hlow : 2 ^ n - 1 < 2 ^ n := Nat.sub_lt (Nat.two_pow_pos n) Nat.one_pos
  have hsub : 2 ^ n - 1 - b < 2 ^ n := by omega
  rw [Nat.testBit_ldiff, Nat.testBit_two_pow_mul_add _ hlow, Nat.testBit_two_pow_mul_add _ hsub]
  by_cases hi : i < n
  · rw [if_pos hi, if_pos hi, Nat.testBit_two_pow_sub_one, decide_eq_true hi, Bool.true_and]
    have hc := Nat.testBit_two_pow_sub_succ hb i
    rw [show 2 ^ n - (b + 1) = 2 ^ n - 1 - b by omega, decide_eq_true hi, Bool.true_and] at hc
    exact hc.symm
  · rw [if_neg hi, if_neg hi, Nat.testBit_lt_two_pow (lt_of_lt_of_le hb
      (Nat.pow_le_pow_right Nat.two_pos (Nat.le_of_not_lt hi))), Bool.not_false, Bool.and_true]

/-! ## The four shapes -/

/-- `x & (2^n - 1) = x % 2^n`: masking the low bits is the upward residue. -/
theorem land_two_pow_sub_one (x : Int) (n : Nat) :
    Int.land x ((2 ^ n - 1 : Nat) : Int) = x % 2 ^ n := by
  have hpos : (0 : Int) < 2 ^ n := by positivity
  cases x with
  | ofNat m =>
    show ((m &&& (2 ^ n - 1) : Nat) : Int) = _
    rw [Nat.and_two_pow_sub_one_eq_mod]
    push_cast
    rfl
  | negSucc m =>
    show ((Nat.ldiff (2 ^ n - 1) m : Nat) : Int) = _
    rw [ldiff_two_pow_sub_one, Int.negSucc_eq]
    have hm : m % 2 ^ n < 2 ^ n := Nat.mod_lt _ (Nat.two_pow_pos n)
    have hcast : ((2 ^ n - (m % 2 ^ n + 1) : Nat) : Int) = 2 ^ n - ((m : Int) % 2 ^ n + 1) := by
      rw [Nat.cast_sub (by omega)]
      push_cast
      ring
    rw [hcast]
    -- `-(m + 1)` is the complement of the low bits plus a multiple of `2^n`
    have h1 := Int.emod_add_mul_ediv (m : Int) (2 ^ n)
    have h2 := Int.emod_nonneg (m : Int) hpos.ne'
    have h3 := Int.emod_lt_of_pos (m : Int) hpos
    have hdecomp : -((m : Int) + 1)
        = (2 ^ n - ((m : Int) % 2 ^ n + 1)) + 2 ^ n * (-((m : Int) / 2 ^ n) - 1) := by
      linarith
    rw [hdecomp, Int.add_mul_emod_self_left]
    exact (Int.emod_eq_of_lt (by omega) (by omega)).symm

/-- `x | 2^n = x + 2^n` for `0 ≤ x < 2^n`: a tag bit set above the payload. -/
theorem lor_two_pow_of_lt (a n : Nat) (h : a < 2 ^ n) :
    Int.lor (a : Int) ((2 ^ n : Nat) : Int) = a + 2 ^ n := by
  show ((a ||| 2 ^ n : Nat) : Int) = _
  rw [Nat.or_two_pow_eq_add_of_lt h]
  push_cast
  rfl

/-- `a | -(2^n) = a % 2^n - 2^n` for `a ≥ 0`: sign extension from bit `n`. -/
theorem lor_neg_two_pow (a n : Nat) :
    Int.lor (a : Int) (-((2 ^ n : Nat) : Int)) = (a % 2 ^ n : Nat) - 2 ^ n := by
  have hpos := Nat.two_pow_pos n
  have hneg : -((2 ^ n : Nat) : Int) = Int.negSucc (2 ^ n - 1) := by
    rw [Int.negSucc_eq]; push_cast [Nat.cast_sub (Nat.one_le_iff_ne_zero.mpr hpos.ne')]; ring
  rw [hneg]
  show Int.negSucc (Nat.ldiff (2 ^ n - 1) a) = _
  rw [ldiff_two_pow_sub_one, Int.negSucc_eq]
  have hm : a % 2 ^ n < 2 ^ n := Nat.mod_lt _ hpos
  rw [Nat.cast_sub (by omega)]
  push_cast
  ring

/-- `(x << n) | b = x * 2^n + b` for `0 ≤ b < 2^n`: shifting in a new low group, for either sign
    of `x`. -/
theorem lor_shiftLeft_of_lt (x : Int) (n b : Nat) (hb : b < 2 ^ n) :
    Int.lor (x <<< n) (b : Int) = x * 2 ^ n + b := by
  cases x with
  | ofNat m =>
    show ((m <<< n ||| b : Nat) : Int) = _
    rw [← Nat.shiftLeft_add_eq_or_of_lt hb, Nat.shiftLeft_eq]
    push_cast
    rfl
  | negSucc m =>
    show Int.negSucc (Nat.ldiff ((m + 1) <<< n - 1) b) = _
    have hform : (m + 1) <<< n - 1 = 2 ^ n * m + (2 ^ n - 1) := by
      rw [Nat.shiftLeft_eq, Nat.add_mul, Nat.one_mul, Nat.mul_comm m]
      have := Nat.two_pow_pos n
      omega
    rw [hform, ldiff_low_ones n m b hb, Int.negSucc_eq, Int.negSucc_eq]
    have hpos := Nat.two_pow_pos n
    rw [Nat.cast_add, Nat.cast_sub (by omega), Nat.cast_sub (by omega)]
    push_cast
    ring

/-! ## The sign bit of a 32-bit word -/

/-- Bit 31 of a number below `2^32` is set exactly when the number is at least `2^31`. -/
theorem and_two_pow_31 {r : Nat} (hr : r < 2 ^ 32) :
    r &&& 2 ^ 31 = if 2 ^ 31 ≤ r then 2 ^ 31 else 0 := by
  apply Nat.eq_of_testBit_eq
  intro i
  rw [Nat.testBit_and, Nat.testBit_two_pow]
  by_cases hi : 31 = i
  · subst hi
    split_ifs with h
    · simp [Nat.testBit_eq_decide_div_mod_eq]; omega
    · simp [Nat.testBit_eq_decide_div_mod_eq]; omega
  · split_ifs
    · rw [Nat.testBit_two_pow, decide_eq_false hi, Bool.and_false]
    · simp [hi]

/-- The top bit of a 32-bit word is set exactly when the word is at least `2^31`. -/
theorem uint32_and_top_ne_zero (x : UInt32) : x &&& 0x80000000 ≠ 0 ↔ 2 ^ 31 ≤ x.toNat := by
  have h2 : (x &&& 0x80000000).toNat = if 2 ^ 31 ≤ x.toNat then 2 ^ 31 else 0 := by
    rw [UInt32.toNat_and, show (0x80000000 : UInt32).toNat = 2 ^ 31 from rfl,
      and_two_pow_31 (UInt32.toNat_lt x)]
  constructor
  · intro hne
    by_contra h
    rw [if_neg h] at h2
    exact hne (UInt32.toNat_inj.mp (by simpa using h2))
  · intro h h0
    rw [if_pos h, h0] at h2
    simp at h2

/-! ## Words as residues -/

/-- An `int32_t` read back as a `uint32_t` is its value modulo `2^32`. -/
theorem toNat_toUInt32_eq_emod (x : Int32) : (x.toUInt32.toNat : Int) = x.toInt % 2 ^ 32 := by
  rw [Int32.toInt, ← Int32.toBitVec_toUInt32, BitVec.toInt_eq_toNat_cond, ← UInt32.toNat_toBitVec]
  have := x.toUInt32.toBitVec.isLt
  split_ifs <;> omega

/-- A 32-bit word as the residue modulo `2^32` it stands for. -/
def wordRes (x : UInt32) : ZMod (2 ^ 32) := x.toNat

@[simp]
theorem wordRes_add (a b : UInt32) : wordRes (a + b) = wordRes a + wordRes b := by
  rw [wordRes, UInt32.toNat_add, ZMod.natCast_mod, Nat.cast_add]
  rfl

@[simp]
theorem wordRes_mul (a b : UInt32) : wordRes (a * b) = wordRes a * wordRes b := by
  rw [wordRes, UInt32.toNat_mul, ZMod.natCast_mod, Nat.cast_mul]
  rfl

@[simp]
theorem wordRes_sub (a b : UInt32) : wordRes (a - b) = wordRes a - wordRes b := by
  rw [wordRes, UInt32.toNat_sub, ZMod.natCast_mod, Nat.cast_add, Nat.cast_sub b.toNat_lt.le,
    ZMod.natCast_self]
  simp only [wordRes]
  ring

@[simp]
theorem wordRes_one : wordRes 1 = 1 := Nat.cast_one

/-- The words are the residues: two words with one residue are equal. -/
theorem wordRes_injective : Function.Injective wordRes := by
  intro a b h
  have hmod := (ZMod.natCast_eq_natCast_iff' a.toNat b.toNat (2 ^ 32)).mp h
  rw [Nat.mod_eq_of_lt a.toNat_lt, Nat.mod_eq_of_lt b.toNat_lt] at hmod
  exact UInt32.toNat_inj.mp hmod

/-- An `int32_t` stored in a `uint32_t` keeps its residue. -/
@[simp]
theorem wordRes_toUInt32 (x : Int32) : wordRes x.toUInt32 = x.toInt := by
  rw [wordRes, ← Int.cast_natCast, toNat_toUInt32_eq_emod]
  exact_mod_cast ZMod.intCast_mod x.toInt (2 ^ 32)

/-- An `int32_t` product keeps the residue of the exact one. -/
theorem intCast_toInt_mul (a b : Int32) :
    ((a * b).toInt : ZMod (2 ^ 32)) = a.toInt * b.toInt := by
  rw [Int32.toInt_mul, ← ZMod.intCast_mod, Int.bmod_emod, ZMod.intCast_mod, Int.cast_mul]

end IntBits
