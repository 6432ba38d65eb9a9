import Mathlib

/-
  Bit fields of unbounded integers: a field is a run of bits of a register, read by masking and
  shifting down and written by clearing the run and or-ing in the shifted value.

  The run of `w` bits from bit `s` on is `run w s = (2^w - 1) * 2^s`.  With two's-complement
  integers that never overflow (Mathlib's `Int.land`, `Int.lor`, `Int.lnot` and shifts by an
  integer), the pieces of a write and a read of such a field are plain arithmetic:

  * `run & -run` is `2^s`, the lowest bit of the run (`land_neg_run`), which is how the position of
    a mask is found;
  * `(v << s) & run` is the low `w` bits of `v` moved up to the run, for negative `v` too: the
    residue `v mod 2^w` (`land_shiftLeft_run`);
  * clearing the run of `r` and or-ing in `c * 2^s` (`insert`) puts the bits of `c` in the run and
    keeps every other bit of `r` (`testBit_insert`), so masking gives back `c * 2^s`
    (`insert_land_run`), and bits outside the run, or under a mask that misses it, are those of
    `r` (`insert_ldiff_run`, `insert_land_of_disjoint`);
  * a value of the run read back is at least `2^(w-1)`, the sign bit, exactly when twice it
    exceeds the mask (`run_lt_shiftLeft_one_iff`), and then it has `w` bits (`size_eq`).

  Everything is proved bit by bit with `Nat.eq_of_testBit_eq` after the integer operations are
  taken to their natural-number cases.
-/

namespace BitField

/-! ## Runs of bits -/

/-- The mask of `w` bits from bit `s` on. -/
def run (w s : Nat) : Nat := (2 ^ w - 1) * 2 ^ s

theorem testBit_run (w s i : Nat) : (run w s).testBit i = (decide (s ≤ i) && decide (i - s < w)) := by
  rw [run, Nat.testBit_mul_two_pow, Nat.testBit_two_pow_sub_one]

theorem two_pow_le_run {w : Nat} (hw : 0 < w) (s : Nat) : 2 ^ s ≤ run w s := by
  have h : 1 ≤ 2 ^ w - 1 := by
    have := Nat.one_lt_two_pow hw.ne'
    omega
  calc 2 ^ s = 1 * 2 ^ s := (Nat.one_mul _).symm
    _ ≤ (2 ^ w - 1) * 2 ^ s := Nat.mul_le_mul_right _ h

theorem run_lt_two_pow (w s : Nat) : run w s < 2 ^ (s + w) := by
  apply Nat.lt_pow_two_of_testBit
  intro i hi
  rw [testBit_run]
  simp only [Bool.and_eq_false_iff, decide_eq_false_iff_not]
  right
  omega

/-- The bits of a run below its top: the run less one keeps the bits under `s` and every bit of
    the run but its lowest. -/
theorem testBit_run_sub_one {w : Nat} (hw : 0 < w) (s i : Nat) :
    (run w s - 1).testBit i = (decide (i < s) || (decide (s < i) && decide (i - s < w))) := by
  -- `run w s - 1 = 2^s * (2^w - 2) + (2^s - 1)`, and `2^w - 2 = 2 * (2^(w-1) - 1)`
  have hw1 : 2 ^ w = 2 * 2 ^ (w - 1) := by
    rw [← Nat.pow_succ']
    congr 1
    omega
  obtain ⟨P, hP⟩ : ∃ P, 2 ^ s = P + 1 := ⟨2 ^ s - 1, by have := Nat.two_pow_pos s; omega⟩
  obtain ⟨Q, hQ⟩ : ∃ Q, 2 ^ (w - 1) = Q + 1 :=
    ⟨2 ^ (w - 1) - 1, by have := Nat.two_pow_pos (w - 1); omega⟩
  have hform : run w s - 1 = 2 ^ s * (2 ^ 1 * (2 ^ (w - 1) - 1) + 0) + (2 ^ s - 1) := by
    have h2 : 2 * (Q + 1) - 1 = 2 * Q + 1 := by omega
    have h3 : (2 * Q + 1) * (P + 1) = (2 * Q * P + 2 * Q + P) + 1 := by ring
    rw [run, hw1, hP, hQ, h2, h3, Nat.add_sub_cancel, Nat.add_sub_cancel, Nat.add_sub_cancel]
    ring
  have hlow : 2 ^ s - 1 < 2 ^ s := Nat.sub_lt (Nat.two_pow_pos s) Nat.one_pos
  rw [hform, Nat.testBit_two_pow_mul_add _ hlow]
  by_cases his : i < s
  · rw [if_pos his, Nat.testBit_two_pow_sub_one, decide_eq_true his, Bool.true_or]
  · rw [if_neg his, Nat.testBit_two_pow_mul_add _ (Nat.two_pow_pos 1)]
    have hsi : s ≤ i := Nat.le_of_not_lt his
    by_cases hi : i - s < 1
    · -- bit `s` itself is clear
      rw [if_pos hi, Nat.zero_testBit]
      have : ¬s < i := by omega
      simp [his, this]
    · rw [if_neg hi, Nat.testBit_two_pow_sub_one]
      have : s < i := by omega
      simp only [his, this, decide_false, decide_true, Bool.false_or, Bool.true_and]
      congr 1
      apply propext
      omega

/-- `run & -run` is the lowest bit of the run. -/
theorem land_neg_run {w : Nat} (hw : 0 < w) (s : Nat) :
    Int.land (run w s : Int) (-(run w s : Int)) = ((2 ^ s : Nat) : Int) := by
  have hpos : 0 < run w s := lt_of_lt_of_le (Nat.two_pow_pos s) (two_pow_le_run hw s)
  -- `-run` is `-[run - 1 + 1]`, and `run & -[m+1]` is `run` without the bits of `m`
  have hneg : -(run w s : Int) = Int.negSucc (run w s - 1) := by
    rw [Int.negSucc_eq, Nat.cast_sub hpos]
    push_cast
    ring
  rw [hneg]
  show ((Nat.ldiff (run w s) (run w s - 1) : Nat) : Int) = _
  congr 1
  apply Nat.eq_of_testBit_eq
  intro i
  rw [Nat.testBit_ldiff, testBit_run, testBit_run_sub_one hw, Nat.testBit_two_pow]
  by_cases h : s = i
  · subst h
    simp [hw]
  · have : s ≤ i → s < i := fun hle => lt_of_le_of_ne hle h
    by_cases hsi : s ≤ i
    · simp [h, hsi, this hsi, Nat.not_lt.mpr hsi]
    · simp [h, hsi]

/-! ## Writing a value into a run -/

/-- `(v << s) & run w s`: the low `w` bits of `v` put in the run, the residue of `v` modulo `2^w`
    when `v` is negative. -/
theorem land_shiftLeft_run (v : Int) (w s : Nat) :
    Int.land (v <<< (s : Int)) (run w s : Int) = (((v % 2 ^ w).toNat * 2 ^ s : Nat) : Int) := by
  cases v with
  | ofNat n =>
    rw [Int.ofNat_eq_natCast, Int.shiftLeft_natCast]
    show ((n <<< s &&& run w s : Nat) : Int) = _
    have hmod : (((n : Int) % 2 ^ w).toNat) = n % 2 ^ w := by
      rw [show ((2 : Int) ^ w) = ((2 ^ w : Nat) : Int) by push_cast; rfl, ← Int.natCast_mod,
        Int.toNat_natCast]
    rw [hmod]
    congr 1
    apply Nat.eq_of_testBit_eq
    intro i
    rw [Nat.testBit_land, Nat.testBit_shiftLeft, testBit_run, Nat.testBit_mul_two_pow,
      Nat.testBit_mod_two_pow]
    cases decide (s ≤ i) <;> cases decide (i - s < w) <;> simp
  | negSucc n =>
    rw [Int.shiftLeft_negSucc]
    show ((Nat.ldiff (run w s) (Nat.shiftLeft' true n s) : Nat) : Int) = _
    have hpow : (0 : Int) < 2 ^ w := by positivity
    have hlt : n % 2 ^ w < 2 ^ w := Nat.mod_lt _ (Nat.two_pow_pos w)
    -- the residue of `-[n+1]` is the complement of the low `w` bits of `n`
    have hmod : ((Int.negSucc n % 2 ^ w).toNat) = 2 ^ w - (n % 2 ^ w + 1) := by
      rw [Int.negSucc_emod n hpow]
      have h2w : ((2 : Int) ^ w) = ((2 ^ w : Nat) : Int) := by push_cast; rfl
      have : ((n : Int) % 2 ^ w) = ((n % 2 ^ w : Nat) : Int) := by push_cast; rfl
      rw [this, h2w]
      omega
    -- `-[n+1] << s` is `-[n * 2^s + (2^s - 1) + 1]`: ones are shifted in
    have hshift : Nat.shiftLeft' true n s = 2 ^ s * n + (2 ^ s - 1) := by
      have h := Nat.shiftLeft'_true_eq_mul_pow n s
      have := Nat.two_pow_pos s
      rw [Nat.add_mul, Nat.one_mul] at h
      rw [Nat.mul_comm (2 ^ s)]
      omega
    rw [hmod, hshift]
    congr 1
    apply Nat.eq_of_testBit_eq
    intro i
    have hlow : 2 ^ s - 1 < 2 ^ s := Nat.sub_lt (Nat.two_pow_pos s) Nat.one_pos
    rw [Nat.testBit_ldiff, testBit_run, Nat.testBit_two_pow_mul_add _ hlow,
      Nat.testBit_mul_two_pow, Nat.testBit_two_pow_sub_succ hlt, Nat.testBit_mod_two_pow]
    by_cases his : s ≤ i
    · have : ¬i < s := Nat.not_lt.mpr his
      cases decide (i - s < w) <;> simp [his, this]
    · simp [his]

/-- `r` with the run cleared and `c * 2^s` or-ed in. -/
def insert (r c w s : Nat) : Nat := Nat.ldiff r (run w s) ||| c * 2 ^ s

theorem testBit_insert {c w : Nat} (hc : c < 2 ^ w) (r s i : Nat) :
    (insert r c w s).testBit i =
      if s ≤ i ∧ i - s < w then c.testBit (i - s) else r.testBit i := by
  rw [insert, Nat.testBit_lor, Nat.testBit_ldiff, testBit_run, Nat.testBit_mul_two_pow]
  by_cases h : s ≤ i ∧ i - s < w
  · rw [if_pos h]
    simp [h.1, h.2]
  · rw [if_neg h]
    by_cases his : s ≤ i
    · -- above the run, `c` has no bits
      have hw : ¬i - s < w := fun hw => h ⟨his, hw⟩
      have hc0 : c.testBit (i - s) = false :=
        Nat.testBit_lt_two_pow (lt_of_lt_of_le hc (Nat.pow_le_pow_right (by omega) (by omega)))
      simp [his, hw, hc0]
    · simp [his]

/-- Masking a written run gives back the value in place. -/
theorem insert_land_run {c w : Nat} (hc : c < 2 ^ w) (r s : Nat) :
    insert r c w s &&& run w s = c * 2 ^ s := by
  apply Nat.eq_of_testBit_eq
  intro i
  rw [Nat.testBit_land, testBit_insert hc, testBit_run, Nat.testBit_mul_two_pow]
  by_cases h : s ≤ i ∧ i - s < w
  · rw [if_pos h]
    simp [h.1, h.2]
  · rw [if_neg h]
    by_cases his : s ≤ i
    · have hw : ¬i - s < w := fun hw => h ⟨his, hw⟩
      have hc0 : c.testBit (i - s) = false :=
        Nat.testBit_lt_two_pow (lt_of_lt_of_le hc (Nat.pow_le_pow_right (by omega) (by omega)))
      simp [his, hw, hc0]
    · simp [his]

/-- Writing a run keeps every bit outside it. -/
theorem insert_ldiff_run {c w : Nat} (hc : c < 2 ^ w) (r s : Nat) :
    Nat.ldiff (insert r c w s) (run w s) = Nat.ldiff r (run w s) := by
  apply Nat.eq_of_testBit_eq
  intro i
  rw [Nat.testBit_ldiff, Nat.testBit_ldiff, testBit_insert hc, testBit_run]
  by_cases h : s ≤ i ∧ i - s < w
  · simp [h.1, h.2]
  · rw [if_neg h]

/-- A mask that misses the run reads the same bits before and after the write. -/
theorem insert_land_of_disjoint {c w : Nat} (hc : c < 2 ^ w) (r s : Nat) {m : Nat}
    (hd : run w s &&& m = 0) : insert r c w s &&& m = r &&& m := by
  apply Nat.eq_of_testBit_eq
  intro i
  rw [Nat.testBit_land, Nat.testBit_land, testBit_insert hc]
  by_cases h : s ≤ i ∧ i - s < w
  · -- inside the run, the other mask has no bit
    have hm : m.testBit i = false := by
      have := congrArg (fun x => Nat.testBit x i) hd
      simp only [Nat.testBit_land, testBit_run, Nat.zero_testBit] at this
      simpa [h.1, h.2] using this
    simp [hm]
  · rw [if_neg h]

/-! ## Reading a value back -/

theorem shiftRight_mul_two_pow (c s : Nat) :
    (((c * 2 ^ s : Nat) : Int) >>> (s : Int)) = (c : Int) := by
  rw [Int.shiftRight_natCast, Nat.shiftRight_eq_div_pow, Nat.mul_div_cancel _ (Nat.two_pow_pos s)]

/-- The sign test of a field read: twice the value in place exceeds the mask exactly when the
    value has its top bit `2^(w-1)` set. -/
theorem run_lt_shiftLeft_one_iff {w : Nat} (hw : 0 < w) (c s : Nat) :
    (run w s : Int) < ((c * 2 ^ s : Nat) : Int) <<< (1 : Int) ↔ 2 ^ (w - 1) ≤ c := by
  have h1 : ((c * 2 ^ s : Nat) : Int) <<< (1 : Int) = (((c * 2 ^ s) <<< 1 : Nat) : Int) :=
    Int.shiftLeft_natCast _ 1
  rw [h1, Nat.cast_lt, Nat.shiftLeft_eq, run, Nat.pow_one, Nat.mul_right_comm,
    Nat.mul_lt_mul_right (Nat.two_pow_pos s)]
  -- both sides were multiples of `2^s`: compare `2^w - 1` with `2c`
  have hw1 : 2 ^ w = 2 * 2 ^ (w - 1) := by
    rw [← Nat.pow_succ']
    congr 1
    omega
  have hy : 1 ≤ 2 ^ (w - 1) := Nat.one_le_two_pow
  rw [hw1]
  generalize 2 ^ (w - 1) = y at hy ⊢
  omega

/-- A value with its top bit `2^(w-1)` set and below `2^w` has `w` bits. -/
theorem size_eq {w c : Nat} (hw : 0 < w) (h1 : 2 ^ (w - 1) ≤ c) (h2 : c < 2 ^ w) : c.size = w := by
  apply le_antisymm (Nat.size_le.mpr h2)
  have := Nat.lt_size.mpr h1
  omega

end BitField
