import Mathlib
import Klipper.Lib.BitField

/-
  The register field helper of the TMC stepper drivers (extras/tmc.py, `FieldHelper`).

  A driver describes each register as a table from field names to masks; `get_field` reads a
  field by masking the register value and shifting it down by `ffs(mask)`, sign-extending the
  fields listed as signed, and `set_field` writes one by clearing the mask and or-ing in the value
  shifted up.  Python's integers are unbounded two's-complement integers, which are Mathlib's
  `Int` with `Int.land`, `Int.lor`, `Int.lnot` and shifts by an integer; `int.bit_length` is
  `Nat.size` of the absolute value.  Python's dicts are lists of items in insertion order, and a
  missing key, where Python raises `KeyError`, is `none`.

  For a mask that is one run of `w` bits (`BitField.run`), a value in the range of its field
  (`FieldRange`: `[0, 2^w)`, or `[-2^(w-1), 2^(w-1))` for a signed field) is read back as written,
  the other bits of the register are kept, and so is every field whose mask misses the run
  (`FieldHelper.setField_spec`).  The sign test `((reg & mask) << 1) > mask` is the top bit of
  the field, and `bit_length` of a value with its top bit set is the width, for a run mask only
  (`fieldValue_insert`).  The drivers' tables, where every mask is such a run, are in
  `Klipper.Host.TmcFields`.
-/

namespace Klipper.Tmc

open BitField

/-! ## Python's integer operations -/

/-- `x.bit_length()` -/
def bitLength (x : Int) : Nat := x.natAbs.size

/-- `ffs(mask)`: the position of the lowest set bit, `-1` for no bit. -/
def ffs (mask : Int) : Int := (bitLength (Int.land mask (-mask)) : Int) - 1

/-! ## Dicts -/

/-- A Python dict from names, as its items in insertion order. -/
abbrev Dict (α : Type) := List (String × α)

/-- `d[key] = value`: the item is replaced in place, or added at the end. -/
def Dict.set {α : Type} (d : Dict α) (key : String) (value : α) : Dict α :=
  if d.any (·.1 == key) then d.map fun kv => if kv.1 = key then (key, value) else kv
  else d ++ [(key, value)]

/-! ## The field helper -/

/-- `FieldHelper`: the register tables, the signed fields, and the last value written to each
    register. -/
structure FieldHelper where
  allFields : Dict (Dict Int)
  signedFields : List String
  registers : Dict Int

/-- `FieldHelper(all_fields, signed_fields)` with no registers written yet. -/
def FieldHelper.init (allFields : Dict (Dict Int)) (signedFields : List String) : FieldHelper :=
  ⟨allFields, signedFields, []⟩

/-- `field_to_register[field_name]`: the comprehension over the registers in order leaves the
    last register whose table has the field. -/
def FieldHelper.fieldToRegister (fh : FieldHelper) (fieldName : String) : Option String :=
  (fh.allFields.reverse.find? fun reg => (reg.2.lookup fieldName).isSome).map (·.1)

/-- The register a call works on: `reg_name`, or the field's register when it is `None`. -/
def FieldHelper.regNameOf (fh : FieldHelper) (fieldName : String) :
    Option String → Option String
  | some regName => some regName
  | none => fh.fieldToRegister fieldName

/-- `self.all_fields[reg_name][field_name]` -/
def FieldHelper.mask (fh : FieldHelper) (regName fieldName : String) : Option Int :=
  (fh.allFields.lookup regName).bind (·.lookup fieldName)

/-- The value `get_field` reads from a register value. -/
def fieldValue (signed : Bool) (mask regValue : Int) : Int :=
  let fieldValue := Int.land regValue mask >>> ffs mask
  if signed ∧ mask < Int.land regValue mask <<< (1 : Int) then
    fieldValue - (1 : Int) <<< (bitLength fieldValue : Int)
  else fieldValue

/-- The register value `set_field` writes. -/
def newValue (mask fieldValue regValue : Int) : Int :=
  Int.lor (Int.land regValue (Int.lnot mask)) (Int.land (fieldValue <<< ffs mask) mask)

/-- `get_field(field_name, reg_value, reg_name)`; `none` for Python's `None` arguments. -/
def FieldHelper.getField (fh : FieldHelper) (fieldName : String) (regValue : Option Int)
    (regName : Option String) : Option Int := do
  let regName ← fh.regNameOf fieldName regName
  let regValue := regValue.getD ((fh.registers.lookup regName).getD 0)
  let mask ← fh.mask regName fieldName
  pure (fieldValue (decide (fieldName ∈ fh.signedFields)) mask regValue)

/-- `set_field(field_name, field_value, reg_value, reg_name)`: the new register value, also
    kept in `registers`. -/
def FieldHelper.setField (fh : FieldHelper) (fieldName : String) (fieldValue : Int)
    (regValue : Option Int) (regName : Option String) : Option (FieldHelper × Int) := do
  let regName ← fh.regNameOf fieldName regName
  let regValue := regValue.getD ((fh.registers.lookup regName).getD 0)
  let mask ← fh.mask regName fieldName
  let newValue := newValue mask fieldValue regValue
  pure ({ fh with registers := fh.registers.set regName newValue }, newValue)

/-- The bounds `set_config_field` checks a configured value against: a one-bit field is read as
    a boolean, a signed field as `[-(maxval//2 + 1), maxval//2]`, another as `[0, maxval]`. -/
def configBounds (signed : Bool) (mask : Int) : Int × Int :=
  let maxval := mask >>> ffs mask
  if maxval = 1 then (0, 1)
  else if signed then (-(maxval / 2 + 1), maxval / 2)
  else (0, maxval)

/-- `set_config_field(config, field_name, default)`, with `configured` the option's value if the
    config has one.  A default is used unchecked; a configured value out of bounds is a config
    error. -/
def FieldHelper.setConfigField (fh : FieldHelper) (configured : Option Int) (fieldName : String)
    (default : Int) : Option (FieldHelper × Int) := do
  let regName ← fh.fieldToRegister fieldName
  let mask ← fh.mask regName fieldName
  let (minval, maxval) := configBounds (decide (fieldName ∈ fh.signedFields)) mask
  let val ← match configured with
    | none => some default
    | some v => if minval ≤ v ∧ v ≤ maxval then some v else none
  fh.setField fieldName val none none

/-! ## Fields on runs of bits -/

/-- The values a field of `w` bits holds: `[0, 2^w)`, or `[-2^(w-1), 2^(w-1))` when signed. -/
def FieldRange (signed : Bool) (w : Nat) (v : Int) : Prop :=
  if signed then -2 ^ (w - 1) ≤ v ∧ v < 2 ^ (w - 1) else 0 ≤ v ∧ v < 2 ^ w

theorem ffs_run {w : Nat} (hw : 0 < w) (s : Nat) : ffs (run w s) = s := by
  rw [ffs, land_neg_run hw, bitLength, Int.natAbs_natCast, Nat.size_pow]
  push_cast
  ring

theorem maxval_run {w : Nat} (hw : 0 < w) (s : Nat) :
    (run w s : Int) >>> ffs (run w s) = ((2 ^ w - 1 : Nat) : Int) := by
  rw [ffs_run hw, run, shiftRight_mul_two_pow]

/-- `set_config_field`'s bounds on a run of `w` bits are those of `FieldRange`, but for a signed
    field of one bit, which is read as a boolean. -/
theorem configBounds_run {w : Nat} (hw : 0 < w) (s : Nat) (signed : Bool)
    (h1 : signed = true → 1 < w) (v : Int) :
    ((configBounds signed (run w s)).1 ≤ v ∧ v ≤ (configBounds signed (run w s)).2) ↔
      FieldRange signed w v := by
  have hw1 : (2 : Int) ^ w = 2 * 2 ^ (w - 1) := by
    rw [← pow_succ']
    congr 1
    omega
  have hpow : (0 : Int) < 2 ^ (w - 1) := by positivity
  have hmax : ((2 ^ w - 1 : Nat) : Int) = 2 ^ w - 1 := by
    rw [Nat.cast_sub Nat.one_le_two_pow]
    push_cast
    rfl
  rw [configBounds, maxval_run hw, hmax, FieldRange]
  by_cases hone : (2 : Int) ^ w - 1 = 1
  · -- a one-bit field: `[0, 1]`
    have hsigned : signed = false := by
      cases signed with
      | false => rfl
      | true =>
        have h2 := h1 rfl
        have : (2 : Int) ^ 2 ≤ 2 ^ w := pow_le_pow_right₀ (by norm_num) h2
        omega
    simp only [if_pos hone, hsigned, Bool.false_eq_true, if_false]
    rw [show (2 : Int) ^ w = 2 by omega]
    omega
  · simp only [if_neg hone]
    cases signed with
    | false => simp only [Bool.false_eq_true, if_false]; omega
    | true =>
      simp only [if_true]
      -- `maxval // 2` is `2^(w-1) - 1`
      have hdiv : ((2 : Int) ^ w - 1) / 2 = 2 ^ (w - 1) - 1 := by
        rw [hw1]
        omega
      rw [hdiv]
      omega

/-- Writing `v` into a run is inserting the residue of `v` modulo `2^w`. -/
theorem newValue_run {w : Nat} (hw : 0 < w) (s : Nat) (v : Int) (r : Nat) :
    newValue (run w s) v r = (insert r ((v % 2 ^ w).toNat) w s : Nat) := by
  rw [newValue, ffs_run hw, land_shiftLeft_run]
  rfl

/-- Reading a run back: the value in place, less `2^w` when the field is signed and its top bit
    is set. -/
theorem fieldValue_insert {w c : Nat} (hw : 0 < w) (hc : c < 2 ^ w) (signed : Bool) (r s : Nat) :
    fieldValue signed (run w s) (insert r c w s : Nat) =
      if signed ∧ 2 ^ (w - 1) ≤ c then (c : Int) - 2 ^ w else c := by
  have hland : Int.land ((insert r c w s : Nat) : Int) (run w s) = ((c * 2 ^ s : Nat) : Int) := by
    show (((insert r c w s) &&& run w s : Nat) : Int) = _
    rw [insert_land_run hc]
  rw [fieldValue]
  simp only [hland, ffs_run hw, shiftRight_mul_two_pow, run_lt_shiftLeft_one_iff hw]
  by_cases h : signed = true ∧ 2 ^ (w - 1) ≤ c
  · -- the top bit is set, so the value has `w` bits
    rw [if_pos h, if_pos h, bitLength, Int.natAbs_natCast, size_eq hw h.2 hc, Int.one_shiftLeft]
    push_cast
    rfl
  · rw [if_neg h, if_neg h]

/-- A value of the field's range is read back as written. -/
theorem fieldValue_newValue {w : Nat} (hw : 0 < w) (s : Nat) {signed : Bool} {v : Int}
    (hv : FieldRange signed w v) (r : Nat) :
    fieldValue signed (run w s) (newValue (run w s) v r) = v := by
  have hpow : (0 : Int) < 2 ^ w := by positivity
  have hw1 : (2 : Int) ^ w = 2 * 2 ^ (w - 1) := by
    rw [← pow_succ']
    congr 1
    omega
  have hc : (v % 2 ^ w).toNat < 2 ^ w := by
    have := Int.emod_lt_of_pos v hpow
    have h2 : ((2 ^ w : Nat) : Int) = 2 ^ w := by push_cast; rfl
    omega
  have hcv : (((v % 2 ^ w).toNat : Nat) : Int) = v % 2 ^ w :=
    Int.toNat_of_nonneg (Int.emod_nonneg v hpow.ne')
  rw [newValue_run hw, fieldValue_insert hw hc, hcv]
  unfold FieldRange at hv
  cases signed with
  | false =>
    -- an unsigned value is its own residue
    simp only [Bool.false_eq_true, false_and, if_false] at hv ⊢
    exact Int.emod_eq_of_lt hv.1 hv.2
  | true =>
    simp only [true_and, if_true] at hv ⊢
    have hle : ((2 ^ (w - 1) : Nat) : Int) = 2 ^ (w - 1) := by push_cast; rfl
    by_cases hneg : v < 0
    · -- a negative value is stored as `v + 2^w`, which has its top bit set
      have hmod : v % 2 ^ w = v + 2 ^ w := by
        rw [Int.emod_eq_add_self_emod, Int.emod_eq_of_lt (by omega) (by omega)]
      have htop : 2 ^ (w - 1) ≤ (v % 2 ^ w).toNat := by
        have := Int.toNat_of_nonneg (Int.emod_nonneg v hpow.ne')
        omega
      rw [if_pos htop, hmod]
      ring
    · have hmod : v % 2 ^ w = v := Int.emod_eq_of_lt (by omega) (by omega)
      have htop : ¬2 ^ (w - 1) ≤ (v % 2 ^ w).toNat := by
        have := Int.toNat_of_nonneg (Int.emod_nonneg v hpow.ne')
        omega
      rw [if_neg htop, hmod]

/-- Writing a run keeps every bit outside it. -/
theorem newValue_land_lnot {w : Nat} (hw : 0 < w) (s : Nat) (v : Int) (r : Nat) :
    Int.land (newValue (run w s) v r) (Int.lnot (run w s)) =
      Int.land (r : Int) (Int.lnot (run w s)) := by
  rw [newValue_run hw]
  show ((Nat.ldiff (insert r _ w s) (run w s) : Nat) : Int) = ((Nat.ldiff r (run w s) : Nat) : Int)
  rw [insert_ldiff_run]
  have hpow : (0 : Int) < 2 ^ w := by positivity
  have := Int.emod_lt_of_pos v hpow
  have h2 : ((2 ^ w : Nat) : Int) = 2 ^ w := by push_cast; rfl
  omega

/-- A field whose mask misses the run reads the same value before and after the write. -/
theorem fieldValue_newValue_of_disjoint {w : Nat} (hw : 0 < w) (s : Nat) (v : Int) (r : Nat)
    {m : Nat} (hd : Int.land (run w s : Int) m = 0) (signed : Bool) :
    fieldValue signed m (newValue (run w s) v r) = fieldValue signed m r := by
  have hpow : (0 : Int) < 2 ^ w := by positivity
  have hc : (v % 2 ^ w).toNat < 2 ^ w := by
    have := Int.emod_lt_of_pos v hpow
    have h2 : ((2 ^ w : Nat) : Int) = 2 ^ w := by push_cast; rfl
    omega
  have hd' : run w s &&& m = 0 := by
    have h : ((run w s &&& m : Nat) : Int) = 0 := hd
    exact_mod_cast h
  have hland : Int.land (newValue (run w s) v r) m = Int.land (r : Int) m := by
    rw [newValue_run hw]
    show (((insert r _ w s) &&& m : Nat) : Int) = ((r &&& m : Nat) : Int)
    rw [insert_land_of_disjoint hc r s hd']
  simp only [fieldValue, hland]

/-! ## The helper's codec law -/

/-- Writing a register value leaves the tables alone. -/
@[simp] theorem FieldHelper.mask_with_registers (fh : FieldHelper) (registers : Dict Int) :
    ({ fh with registers := registers } : FieldHelper).mask = fh.mask :=
  rfl

/-- For a field whose mask is a run of `w` bits, `set_field` with a value of the field's range,
    an explicit register value and name gives a register value from which `get_field` reads the
    value back, whose bits outside the mask are those of the old value, and from which every
    field of the register whose mask misses the run reads as before. -/
theorem FieldHelper.setField_spec {fh : FieldHelper} {regName fieldName : String} {w s : Nat}
    (hw : 0 < w) (hmask : fh.mask regName fieldName = some (run w s : Int)) {r : Nat} {v : Int}
    (hv : FieldRange (decide (fieldName ∈ fh.signedFields)) w v) :
    ∃ fh' r', fh.setField fieldName v (some r) (some regName) = some (fh', r') ∧
      fh'.getField fieldName (some r') (some regName) = some v ∧
      Int.land r' (Int.lnot (run w s)) = Int.land (r : Int) (Int.lnot (run w s)) ∧
      ∀ g (m : Nat), fh.mask regName g = some (m : Int) → Int.land (run w s : Int) m = 0 →
        fh'.getField g (some r') (some regName) = fh.getField g (some r) (some regName) := by
  refine ⟨{ fh with registers := fh.registers.set regName (newValue (run w s) v r) },
    newValue (run w s) v r, ?_, ?_, newValue_land_lnot hw s v r, ?_⟩
  · simp [FieldHelper.setField, FieldHelper.regNameOf, hmask]
  · -- the field reads back the value written
    simp [FieldHelper.getField, FieldHelper.regNameOf, hmask, fieldValue_newValue hw s hv]
  · -- a field that misses the run reads as before
    intro g m hg hd
    simp [FieldHelper.getField, FieldHelper.regNameOf, hg,
      fieldValue_newValue_of_disjoint hw s v r hd]

end Klipper.Tmc
