import Mathlib.Logic.Function.Iterate

/-
  Reflected CRCs over a register of any width, computed one bit at a time.

  A reflected CRC keeps a `w`-bit register; a byte is xored into its low bits and then the
  register is shifted right eight times, xoring in the polynomial after each shift that drops
  a one (`shift`).  A shift is linear over GF(2) (`shift_xor`), and a register whose low `n` bits
  are clear only moves down under `n` shifts (`iterate_shift_of_low`).  Together they give the
  identity every table-driven or table-free CRC rests on (`byte_eq`): a byte step is the
  register moved down eight places, xor the step of the low byte from a zero register, so that
  a byte step is fixed by its values on the 256 low bytes.
-/

namespace Crc

variable {w : Nat}

/-- One bit of a reflected CRC: shift the register right, and xor in the polynomial when the
    bit shifted out was set. -/
def shift (poly c : BitVec w) : BitVec w :=
  if c.getLsbD 0 then (c >>> 1) ^^^ poly else c >>> 1

/-- A byte into a reflected CRC register: xor it into the low bits, then shift eight times. -/
def byte (poly c : BitVec w) (b : BitVec 8) : BitVec w :=
  (shift poly)^[8] (c ^^^ b.setWidth w)

/-- The reflected CRC of a byte string from the register `init`, with no final xor. -/
def reflected (poly init : BitVec w) (buf : List (BitVec 8)) : BitVec w :=
  buf.foldl (byte poly) init

/-! ## Linearity -/

/-- A shift is linear over GF(2). -/
theorem shift_xor (poly a b : BitVec w) : shift poly (a ^^^ b) = shift poly a ^^^ shift poly b := by
  unfold shift
  rw [BitVec.getLsbD_xor, BitVec.ushiftRight_xor_distrib]
  cases a.getLsbD 0 <;> cases b.getLsbD 0
  · simp
  · simp only [Bool.xor_true]; simp; ac_rfl
  · simp only [Bool.true_xor]; simp; ac_rfl
  · -- both low bits set: the two polynomials cancel
    simp only [Bool.xor_true, Bool.not_true, Bool.false_eq_true, if_false, if_true]
    rw [BitVec.xor_assoc, ← BitVec.xor_assoc poly, BitVec.xor_comm poly, BitVec.xor_assoc,
      BitVec.xor_self, BitVec.xor_zero]

theorem iterate_shift_xor (poly : BitVec w) (n : Nat) (a b : BitVec w) :
    (shift poly)^[n] (a ^^^ b) = (shift poly)^[n] a ^^^ (shift poly)^[n] b := by
  induction n generalizing a b with
  | zero => rfl
  | succ n ih =>
    rw [Function.iterate_succ_apply, Function.iterate_succ_apply, Function.iterate_succ_apply,
      shift_xor, ih]

/-- A register whose low `n` bits are clear only moves down under `n` shifts: no one is shifted
    out, so the polynomial is never xored in. -/
theorem iterate_shift_of_low (poly : BitVec w) (n : Nat) (x : BitVec w)
    (h : ∀ i < n, x.getLsbD i = false) : (shift poly)^[n] x = x >>> n := by
  induction n generalizing x with
  | zero => simp
  | succ n ih =>
    have h0 : x.getLsbD 0 = false := h 0 (by omega)
    rw [Function.iterate_succ_apply, shift, h0, if_neg Bool.false_ne_true, ih]
    · rw [← BitVec.shiftRight_add, Nat.add_comm]
    · intro i hi
      rw [BitVec.getLsbD_ushiftRight]
      exact h (1 + i) (by omega)

/-! ## A byte step through its low byte -/

/-- The register with a byte xored in, split into its part above the low byte and the low byte
    itself. -/
theorem xor_setWidth_split (c : BitVec w) (b : BitVec 8) :
    c ^^^ b.setWidth w = ((c >>> 8) <<< 8) ^^^ (c.setWidth 8 ^^^ b).setWidth w := by
  apply BitVec.eq_of_getLsbD_eq
  intro i hi
  simp only [BitVec.getLsbD_xor, BitVec.getLsbD_setWidth, BitVec.getLsbD_shiftLeft,
    BitVec.getLsbD_ushiftRight]
  by_cases h8 : i < 8
  · simp [h8, hi]
  · have : b.getLsbD i = false := BitVec.getLsbD_of_ge b i (by omega)
    simp [h8, hi, this, show 8 + (i - 8) = i by omega]

/-- **A byte step is the register moved down eight places, xor the step of its low byte from
    zero.** -/
theorem byte_eq (poly c : BitVec w) (b : BitVec 8) :
    byte poly c b = (c >>> 8) ^^^ byte poly 0 (c.setWidth 8 ^^^ b) := by
  have hhigh : (shift poly)^[8] ((c >>> 8) <<< 8) = c >>> 8 := by
    rw [iterate_shift_of_low]
    · apply BitVec.eq_of_getLsbD_eq
      intro i hi
      simp only [BitVec.getLsbD_ushiftRight, BitVec.getLsbD_shiftLeft]
      by_cases h : 8 + i < w
      · simp [h]
      · simp [h, BitVec.getLsbD_of_ge c (8 + i) (by omega)]
    · intro i hi
      simp [BitVec.getLsbD_shiftLeft, hi]
  rw [byte, byte, xor_setWidth_split, iterate_shift_xor, hhigh]
  simp

end Crc
