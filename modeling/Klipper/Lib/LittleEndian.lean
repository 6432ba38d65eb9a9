import Mathlib

/-
  Numbers laid out as a fixed number of digits, lowest first.

  A byte string read as a little-endian integer, a serial frame of ten bits per byte, and the
  bytes of a machine word copied out by `memcpy` are one arithmetic: a list of digits below `b`
  stands for `Nat.ofDigits b` of it, and a number is cut into `k` digits by `digitsOf b k`.
  Programs build such numbers with shifts and ors and take them apart with shifts and masks;
  this module turns each of those shapes into that arithmetic.

  1. Reading back the `k` digits of `n` gives `n % b^k` (`ofDigits_digitsOf`), and digit `j`
     of a value is the `j`-th of its digits (`ofDigits_div_pow_mod`).
  2. The packing loop `for d in l: out |= f(d) << pos; pos += w` (`packBits`) adds the digits
     `f d`, of `w` bits each, in base `2^w` above what `out` held (`packBits_eq`), and shifting
     such a number down and masking reads bits of one digit back (`shiftRight_and_ofDigits`).
     Both rest on `or_shiftLeft_eq_add`: or-ing below a shifted value is addition.
-/

namespace LittleEndian

/-- The `k` digits of `n` in base `b`, lowest first. -/
def digitsOf (b k n : Nat) : List Nat := (List.range k).map fun i => n / b ^ i % b

/-- The packing loop `for d in l: out |= f(d) << pos; pos += w` from `(out, pos)`. -/
def packBits {α : Type} (w : Nat) (f : α → Nat) (s : Nat × Nat) (l : List α) : Nat × Nat :=
  l.foldl (fun s d => (s.1 ||| f d <<< s.2, s.2 + w)) s

/-! ## Digits -/

section Digits

variable {b : Nat}

theorem digitsOf_succ (b k n : Nat) :
    digitsOf b (k + 1) n = n % b :: digitsOf b k (n / b) := by
  simp only [digitsOf, List.range_succ_eq_map, List.map_cons, List.map_map]
  -- digit `i + 1` of `n` is digit `i` of `n / b`
  congr 1
  · simp
  · apply List.map_congr_left
    intro i _
    simp [Function.comp, pow_succ', Nat.div_div_eq_div_mul]

theorem ofDigits_digitsOf (b k n : Nat) : Nat.ofDigits b (digitsOf b k n) = n % b ^ k := by
  induction k generalizing n with
  | zero => simp [digitsOf, Nat.mod_one]
  | succ k ih =>
    rw [digitsOf_succ, Nat.ofDigits_cons, ih, pow_succ', Nat.mod_mul]

/-- Digit `j` of the value of some digits is the `j`-th of them. -/
theorem ofDigits_div_pow_mod (hb : 0 < b) {l : List Nat} (hl : ∀ x ∈ l, x < b) {j : Nat}
    (hj : j < l.length) : Nat.ofDigits b l / b ^ j % b = l[j] := by
  rw [Nat.ofDigits_div_pow_eq_ofDigits_drop j hb l hl, List.drop_eq_getElem_cons hj,
    Nat.ofDigits_cons, Nat.add_mul_mod_self_left, Nat.mod_eq_of_lt (hl _ (List.getElem_mem hj))]

end Digits

/-! ## Shifts and masks -/

/-- Or-ing a value below `2^k` into a value shifted up by `k` is addition. -/
theorem or_shiftLeft_eq_add (x y k : Nat) (hy : y < 2 ^ k) : x <<< k ||| y = x * 2 ^ k + y := by
  rw [← Nat.shiftLeft_add_eq_or_of_lt hy, Nat.shiftLeft_eq]

/-- **The packing loop.**  From `out < 2^pos`, packing digits of `w` bits adds them in base
    `2^w` from bit `pos` on. -/
theorem packBits_eq {α : Type} {w : Nat} (f : α → Nat) (hf : ∀ d, f d < 2 ^ w) :
    ∀ (l : List α) (out pos : Nat), out < 2 ^ pos →
      packBits w f (out, pos) l =
        (out + 2 ^ pos * Nat.ofDigits (2 ^ w) (l.map f), pos + w * l.length)
  | [], out, pos, _ => by simp [packBits]
  | d :: l, out, pos, hout => by
    -- the digit lands above `out`, and the sum stays below the next position
    have hor : out ||| f d <<< pos = out + f d * 2 ^ pos := by
      rw [Nat.or_comm, or_shiftLeft_eq_add _ _ _ hout, Nat.add_comm]
    have hlt : out + f d * 2 ^ pos < 2 ^ (pos + w) := by
      have := hf d
      calc out + f d * 2 ^ pos < 2 ^ pos + f d * 2 ^ pos := by omega
        _ = (f d + 1) * 2 ^ pos := by ring
        _ ≤ 2 ^ w * 2 ^ pos := Nat.mul_le_mul_right _ this
        _ = 2 ^ (pos + w) := by rw [pow_add, Nat.mul_comm]
    have ih := packBits_eq f hf l (out + f d * 2 ^ pos) (pos + w) hlt
    simp only [packBits, List.foldl_cons] at ih ⊢
    rw [hor, ih, List.map_cons, Nat.ofDigits_cons, List.length_cons, pow_add, Prod.mk.injEq]
    constructor
    · ring
    · ring

/-- **Reading a digit back.**  Shifting a number in base `2^w` down to bit `o` of digit `j` and
    keeping `m` bits gives those bits of the digit, when they lie inside it. -/
theorem shiftRight_and_ofDigits {w o m : Nat} (hom : o + m ≤ w) {l : List Nat}
    (hl : ∀ x ∈ l, x < 2 ^ w) {j : Nat} (hj : j < l.length) :
    (Nat.ofDigits (2 ^ w) l >>> (w * j + o)) &&& (2 ^ m - 1) = (l[j] >>> o) &&& (2 ^ m - 1) := by
  have hw : 2 ^ w = 2 ^ o * (2 ^ m * 2 ^ (w - o - m)) := by
    rw [← pow_add, ← pow_add]
    congr 1
    omega
  rw [Nat.and_two_pow_sub_one_eq_mod, Nat.and_two_pow_sub_one_eq_mod, Nat.shiftRight_eq_div_pow,
    Nat.shiftRight_eq_div_pow, pow_add, ← Nat.div_div_eq_div_mul, pow_mul,
    Nat.ofDigits_div_pow_eq_ofDigits_drop j (by positivity) l hl, List.drop_eq_getElem_cons hj,
    Nat.ofDigits_cons]
  -- the digits above `j` sit above the `m` bits read
  rw [hw, Nat.mul_assoc, Nat.add_mul_div_left _ _ (by positivity), Nat.mul_assoc,
    Nat.add_mul_mod_self_left]

end LittleEndian
