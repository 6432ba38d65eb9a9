import Klipper.Lib.IntBits

/-
  Klipper's variable-length integers (VLQ), on both sides of the wire.

  Every integer parameter of a command or response travels as a VLQ: seven payload bits per
  byte, most significant group first, the continuation bit `0x80` on every byte but the last,
  and the first byte's payload sign-extended when its bits `0x60` are both set.  Four pieces of
  code implement it:

  * `encode_int`/`parse_int` in the firmware's `src/command.c` and, character for character, in
    the host's `klippy/chelper/msgblock.c` — `encodeInt`/`parseInt` here, on `UInt32`/`UInt8`;
  * `PT_uint32.encode`/`PT_uint32.parse` in `klippy/msgproto.py` (with `PT_int32` the same
    parser without the final `& 0xffffffff`) — `ptUint32Encode`/`ptUint32Parse`, on unbounded
    `Int` with Python's `&`, `|`, `>>`, `<<` (Mathlib's `Int.land`/`Int.lor`, core's shifts).

  The development goes through one abstract notion.  A *group* (`IsGroup`) is a byte string with
  the continuation bit exactly on its non-final bytes; its *value* (`groupValue`) is the Horner
  sum of the seven-bit payloads with a sign-extended top digit (`topDigit`).  Then:

  * both decoders read `groupValue` from a group — the C one modulo `2^32`, the Python one
    exactly, reduced modulo `2^32` when unsigned (`parseInt_group`, `ptUint32Parse_group`);
  * both encoders write a group of one to five bytes; the Python group's value is the argument
    itself (`ptUint32Encode_group`), the C group's value is the argument modulo `2^32`, equal to
    its signed reading `sv` unless five bytes are needed (`encodeInt_group`).

  The round trips follow (`parseInt_encodeInt`, `ptUint32Parse_ptUint32Encode`, and the two
  cross-language ones).  The one combination that does not round-trip is the firmware's
  five-byte form of a negative `sv < -2^26` read by `PT_int32`: the C encoder writes the top
  byte as `(v>>28) | 0x80`, without the sign bits that `PT_uint32.encode` puts there, so the
  signed Python parser returns the unsigned value `v` instead of `sv`
  (`ptInt32Parse_encodeInt_five`).  `docs/Protocol.md` documents the whole range
  `-2147483648 .. 4294967295` as five-byte encodable.
-/

namespace Klipper.Vlq

/-! ## VLQ groups and the value a decoder reads from them -/

/-- The payload of a group's first byte, sign-extended when its bits `0x60` are both set. -/
def topDigit (c : Int) : Int :=
  if 96 ≤ c % 128 then c % 128 - 128 else c % 128

/-- One step of the decoders' loop: shift in the seven payload bits of the next byte. -/
def shiftIn (acc d : Int) : Int := acc * 128 + d % 128

/-- The value of a group: the Horner sum of its payloads, the top digit sign-extended. -/
def groupValue : List Int → Int
  | [] => 0
  | c :: cs => cs.foldl shiftIn (topDigit c)

/-- A VLQ group: byte values with the continuation bit `0x80` exactly on the non-final bytes. -/
def IsGroup : List Int → Prop
  | [] => False
  | [c] => 0 ≤ c ∧ c < 128
  | c :: d :: rest => 128 ≤ c ∧ c < 256 ∧ IsGroup (d :: rest)

/-- The folding step is linear, so the fold commutes with reduction modulo any `m`. -/
theorem foldl_shiftIn_emod (m : Int) (l : List Int) (a : Int) :
    l.foldl shiftIn (a % m) % m = l.foldl shiftIn a % m := by
  induction l generalizing a with
  | nil => simp
  | cons d l ih =>
    simp only [List.foldl_cons]
    rw [← ih (shiftIn a d), ← ih (shiftIn (a % m) d)]
    congr 2
    simp only [shiftIn]
    rw [Int.add_emod, Int.mul_emod, Int.emod_emod_of_dvd _ (dvd_refl m), ← Int.mul_emod,
      ← Int.add_emod]

/-- A top digit pinned down by its residue: a byte whose payload agrees with `t` modulo `128`
    decodes to `t` itself when `-32 ≤ t < 96`. -/
theorem topDigit_eq {t c : Int} (h1 : -32 ≤ t) (h2 : t < 96) (hc : c % 128 = t % 128) :
    topDigit c = t := by
  unfold topDigit
  rw [hc]
  split_ifs <;> omega

/-! ## The firmware and host C code (`command.c`, `msgblock.c`) -/

/-- `encode_int` of `src/command.c` and `klippy/chelper/msgblock.c`: the number of bytes is
    chosen on the signed reading `int32_t sv = v` (`v.toBitVec.toInt`); the `goto` cascade falls
    through, so a longer form writes its extra high bytes before the shorter form's. -/
def encodeInt (v : UInt32) : List UInt8 :=
  let sv := v.toBitVec.toInt
  let f4 : List UInt8 := [(v &&& 0x7f).toUInt8]
  let f3 := (((v >>> 7) &&& 0x7f) ||| 0x80).toUInt8 :: f4
  let f2 := (((v >>> 14) &&& 0x7f) ||| 0x80).toUInt8 :: f3
  let f1 := (((v >>> 21) &&& 0x7f) ||| 0x80).toUInt8 :: f2
  if sv < 3 * 2 ^ 5 ∧ -(2 ^ 5) ≤ sv then f4
  else if sv < 3 * 2 ^ 12 ∧ -(2 ^ 12) ≤ sv then f3
  else if sv < 3 * 2 ^ 19 ∧ -(2 ^ 19) ≤ sv then f2
  else if sv < 3 * 2 ^ 26 ∧ -(2 ^ 26) ≤ sv then f1
  else ((v >>> 28) ||| 0x80).toUInt8 :: f1

/-- The `while (c & 0x80)` loop of `parse_int`.  The C reads past the buffer when it ends inside
    a number; here that is `none`. -/
def parseIntLoop (v : UInt32) : List UInt8 → Option (UInt32 × List UInt8)
  | [] => none
  | c :: rest =>
    let v := (v <<< 7) ||| (c &&& 0x7f).toUInt32
    if c &&& 0x80 = 0 then some (v, rest) else parseIntLoop v rest

/-- `parse_int` of `src/command.c` and `klippy/chelper/msgblock.c`: the value and the bytes
    after it. -/
def parseInt : List UInt8 → Option (UInt32 × List UInt8)
  | [] => none
  | c :: rest =>
    let v := (c &&& 0x7f).toUInt32
    let v := if c &&& 0x60 = 0x60 then v ||| (-0x20 : UInt32) else v
    if c &&& 0x80 = 0 then some (v, rest) else parseIntLoop v rest

/-- The byte values of a C buffer, as the Python side sees them. -/
def byteValues (bs : List UInt8) : List Int := bs.map fun b => (b.toNat : Int)

/-! ## The host Python code (`msgproto.py`) -/

/-- `PT_uint32.encode(out, v)` (also `PT_int32`, `PT_uint16`, `PT_int16`, `PT_byte`). -/
def ptUint32Encode (out : List Int) (v : Int) : List Int :=
  let out := if v ≥ 0xc000000 ∨ v < -0x4000000 then
    out ++ [Int.lor (Int.land (v >>> (28 : Nat)) 0x7f) 0x80] else out
  let out := if v ≥ 0x180000 ∨ v < -0x80000 then
    out ++ [Int.lor (Int.land (v >>> (21 : Nat)) 0x7f) 0x80] else out
  let out := if v ≥ 0x3000 ∨ v < -0x1000 then
    out ++ [Int.lor (Int.land (v >>> (14 : Nat)) 0x7f) 0x80] else out
  let out := if v ≥ 0x60 ∨ v < -0x20 then
    out ++ [Int.lor (Int.land (v >>> (7 : Nat)) 0x7f) 0x80] else out
  out ++ [Int.land v 0x7f]

/-- The `while c & 0x80` loop of `PT_uint32.parse`; `none` is Python's `IndexError`. -/
def ptParseLoop (v : Int) (pos : Nat) : List Int → Option (Int × Nat)
  | [] => none
  | c :: rest =>
    let v := Int.lor (v <<< (7 : Nat)) (Int.land c 0x7f)
    if Int.land c 0x80 = 0 then some (v, pos + 1) else ptParseLoop v (pos + 1) rest

/-- `PT_uint32.parse(s, pos)` (`signed = False`) and `PT_int32.parse` (`signed = True`): the
    value and the position after it. -/
def ptUint32Parse (signed : Bool) (s : List Int) (pos : Nat) : Option (Int × Nat) :=
  match s.drop pos with
  | [] => none
  | c :: rest =>
    let v := Int.land c 0x7f
    let v := if Int.land c 0x60 = 0x60 then Int.lor v (-0x20) else v
    let r := if Int.land c 0x80 = 0 then some (v, pos + 1) else ptParseLoop v (pos + 1) rest
    r.map fun (v, pos) => (if signed then v else Int.land v 0xffffffff, pos)

/-! ## Byte-level facts the decoders rest on -/

/-- Python's `x & 0x7f` is the residue modulo `128`, for negative `x` too. -/
theorem land_0x7f (x : Int) : Int.land x 0x7f = x % 128 :=
  IntBits.land_two_pow_sub_one x 7

/-- The continuation bit of a byte value: `c & 0x80` vanishes exactly below `128`. -/
theorem nat_and_0x80 : ∀ c < 256, (c &&& 128 = 0 ↔ c < 128) := by decide +kernel

/-- The sign bits of a byte value: `(c & 0x60) == 0x60` exactly when the payload is `≥ 96`. -/
theorem nat_and_0x60 : ∀ c < 256, (c &&& 96 = 96 ↔ 96 ≤ c % 128) := by decide +kernel

theorem land_0x80_eq_zero {c : Int} (h0 : 0 ≤ c) (h1 : c < 256) :
    Int.land c 0x80 = 0 ↔ c < 128 := by
  obtain ⟨m, rfl⟩ := Int.eq_ofNat_of_zero_le h0
  show ((m &&& 128 : Nat) : Int) = 0 ↔ (m : Int) < 128
  rw [Nat.cast_eq_zero, nat_and_0x80 m (by omega)]
  omega

theorem land_0x60_eq {c : Int} (h0 : 0 ≤ c) (h1 : c < 256) :
    Int.land c 0x60 = 0x60 ↔ 96 ≤ c % 128 := by
  obtain ⟨m, rfl⟩ := Int.eq_ofNat_of_zero_le h0
  show ((m &&& 96 : Nat) : Int) = ((96 : Nat) : Int) ↔ 96 ≤ (m : Int) % 128
  rw [Nat.cast_inj, nat_and_0x60 m (by omega)]
  omega

/-- Python's `(v << 7) | (c & 0x7f)` is one `shiftIn`, whatever the sign of `v`. -/
theorem lor_shiftLeft_land (v c : Int) :
    Int.lor (v <<< (7 : Nat)) (Int.land c 0x7f) = shiftIn v c := by
  rw [land_0x7f]
  obtain ⟨b, hb⟩ := Int.eq_ofNat_of_zero_le (Int.emod_nonneg c (by decide : (128 : Int) ≠ 0))
  have hlt : b < 2 ^ 7 := by have := Int.emod_lt_of_pos c (by decide : (0 : Int) < 128); omega
  rw [hb, IntBits.lor_shiftLeft_of_lt v 7 b hlt, shiftIn, hb]
  norm_num

/-- Python's first-byte payload, sign-extended by `v |= -0x20`, is `topDigit`. -/
theorem ptTop_eq {c : Int} (h0 : 0 ≤ c) (h1 : c < 256) :
    (if Int.land c 0x60 = 0x60 then Int.lor (Int.land c 0x7f) (-0x20) else Int.land c 0x7f)
      = topDigit c := by
  rw [land_0x7f, topDigit]
  by_cases h : 96 ≤ c % 128
  · rw [if_pos ((land_0x60_eq h0 h1).mpr h), if_pos h]
    obtain ⟨b, hb⟩ := Int.eq_ofNat_of_zero_le (Int.emod_nonneg c (by decide : (128 : Int) ≠ 0))
    have hneg : (-0x20 : Int) = -((2 ^ 5 : Nat) : Int) := by norm_num
    rw [hb, hneg, IntBits.lor_neg_two_pow b 5]
    have := Int.emod_lt_of_pos c (by decide : (0 : Int) < 128)
    push_cast
    omega
  · rw [if_neg (fun h' => h ((land_0x60_eq h0 h1).mp h')), if_neg h]

theorem uint8_and_0x80 (c : UInt8) : c &&& 0x80 = 0 ↔ c.toNat < 128 := by
  rw [← UInt8.toNat_inj, UInt8.toNat_and]
  exact nat_and_0x80 c.toNat c.toNat_lt

theorem uint8_and_0x60 (c : UInt8) : c &&& 0x60 = 0x60 ↔ 96 ≤ c.toNat % 128 := by
  rw [← UInt8.toNat_inj, UInt8.toNat_and]
  exact nat_and_0x60 c.toNat c.toNat_lt

/-- The C loop body `v = (v<<7) | (c & 0x7f)` on `uint32_t`: one `shiftIn`, modulo `2^32`. -/
theorem shiftIn_toNat (v : UInt32) (c : UInt8) :
    ((((v <<< 7) ||| (c &&& 0x7f).toUInt32).toNat : Nat) : Int)
      = shiftIn v.toNat c.toNat % 2 ^ 32 := by
  have hnat : ((v <<< 7) ||| (c &&& 0x7f).toUInt32).toNat
      = (v.toNat * 128 + c.toNat % 128) % 2 ^ 32 := by
    simp only [UInt32.toNat_or, UInt32.toNat_shiftLeft, UInt8.toNat_toUInt32, UInt8.toNat_and]
    have h7 : (7 : UInt32).toNat % 32 = 7 := rfl
    have hc : c.toNat &&& (0x7f : UInt8).toNat = c.toNat % 2 ^ 7 :=
      Nat.and_two_pow_sub_one_eq_mod c.toNat 7
    rw [h7, hc, Nat.shiftLeft_eq]
    have hsplit : v.toNat * 2 ^ 7 % 2 ^ 32 = 2 ^ 7 * (v.toNat % 2 ^ 25) := by omega
    rw [hsplit, ← Nat.two_pow_add_eq_or_of_lt (Nat.mod_lt _ (by decide))]
    omega
  rw [hnat, shiftIn]
  push_cast
  rfl

/-- The C first-byte payload, sign-extended by `v |= -0x20`, is `topDigit` modulo `2^32`. -/
theorem cTop_toNat (c : UInt8) :
    (((if c &&& 0x60 = 0x60 then (c &&& 0x7f).toUInt32 ||| (-0x20 : UInt32)
        else (c &&& 0x7f).toUInt32).toNat : Nat) : Int) = topDigit c.toNat % 2 ^ 32 := by
  have hlow : (c &&& 0x7f).toUInt32.toNat = c.toNat % 128 := by
    simp only [UInt8.toNat_toUInt32, UInt8.toNat_and]
    exact Nat.and_two_pow_sub_one_eq_mod c.toNat 7
  have hc := c.toNat_lt
  unfold topDigit
  by_cases h : 96 ≤ c.toNat % 128
  · have hext : ∀ x < 128, 96 ≤ x → x ||| 4294967264 = x + 4294967168 := by decide +kernel
    rw [if_pos ((uint8_and_0x60 c).mpr h), UInt32.toNat_or, hlow]
    have hneg : (-0x20 : UInt32).toNat = 4294967264 := rfl
    rw [hneg, hext _ (Nat.mod_lt _ (by decide)) h, if_pos (by exact_mod_cast h)]
    omega
  · rw [if_neg (fun h' => h ((uint8_and_0x60 c).mp h')), hlow, if_neg (by exact_mod_cast h)]
    omega

/-! ## The decoders read `groupValue` -/

/-- The Python loop consumes a group and folds its payloads into the accumulator. -/
theorem ptParseLoop_group (rest : List Int) :
    ∀ (bs : List Int), IsGroup bs → ∀ (v : Int) (pos : Nat),
      ptParseLoop v pos (bs ++ rest) = some (bs.foldl shiftIn v, pos + bs.length)
  | [], hg => hg.elim
  | [c], ⟨h0, h1⟩ => by
    intro v pos
    rw [List.singleton_append, ptParseLoop.eq_2, lor_shiftLeft_land,
      if_pos ((land_0x80_eq_zero h0 (by omega)).mpr h1)]
    rfl
  | c :: d :: ds, ⟨h0, h1, hg⟩ => by
    intro v pos
    rw [List.cons_append, ptParseLoop.eq_2, lor_shiftLeft_land,
      if_neg (fun h => absurd ((land_0x80_eq_zero (by omega) h1).mp h) (by omega)),
      ptParseLoop_group rest (d :: ds) hg]
    simp only [List.foldl_cons, List.length_cons]
    congr 2
    omega

/-- **Python decoder spec.**  At a group, `PT_uint32.parse`/`PT_int32.parse` return the group's
    value (modulo `2^32` when unsigned) and the position just past it. -/
theorem ptUint32Parse_group (signed : Bool) (pre bs rest : List Int) (hg : IsGroup bs) :
    ptUint32Parse signed (pre ++ bs ++ rest) pre.length
      = some (if signed then groupValue bs else groupValue bs % 2 ^ 32,
          pre.length + bs.length) := by
  have hdrop : (pre ++ bs ++ rest).drop pre.length = bs ++ rest := by
    rw [List.append_assoc, List.drop_left]
  have hmask (x : Int) : Int.land x 0xffffffff = x % 2 ^ 32 :=
    IntBits.land_two_pow_sub_one x 32
  -- the first byte is read outside the loop: split on whether it ends the group
  match bs, hg with
  | [c], ⟨h0, h1⟩ =>
    unfold ptUint32Parse
    rw [hdrop, List.singleton_append]
    simp only [ptTop_eq h0 (by omega), if_pos ((land_0x80_eq_zero h0 (by omega)).mpr h1),
      Option.map_some, groupValue, List.foldl_nil, List.length_singleton]
    cases signed <;> simp [hmask]
  | c :: d :: ds, ⟨h0, h1, hg'⟩ =>
    unfold ptUint32Parse
    rw [hdrop, List.cons_append]
    simp only [ptTop_eq (by omega) h1]
    rw [if_neg (fun h => absurd ((land_0x80_eq_zero (by omega) h1).mp h) (by omega)),
      ptParseLoop_group rest (d :: ds) hg']
    simp only [Option.map_some, groupValue, List.length_cons]
    have hlen : pre.length + 1 + (ds.length + 1) = pre.length + (ds.length + 1 + 1) := by omega
    cases signed <;> simp [hmask, hlen]

/-- The C loop consumes a group and folds its payloads into the accumulator, modulo `2^32`. -/
theorem parseIntLoop_group (rest : List UInt8) :
    ∀ (bs : List UInt8), IsGroup (byteValues bs) → ∀ (v : UInt32) (a : Int),
      (v.toNat : Int) = a % 2 ^ 32 →
      ∃ w, parseIntLoop v (bs ++ rest) = some (w, rest) ∧
        (w.toNat : Int) = (byteValues bs).foldl shiftIn a % 2 ^ 32
  | [], hg => hg.elim
  | [c], ⟨_, h1⟩ => by
    intro v a hv
    have hc : c.toNat < 128 := by have h1' : (c.toNat : Int) < 128 := h1; omega
    refine ⟨(v <<< 7) ||| (c &&& 0x7f).toUInt32, ?_, ?_⟩
    · rw [List.singleton_append, parseIntLoop.eq_2, if_pos ((uint8_and_0x80 c).mpr hc)]
    · rw [shiftIn_toNat, hv]
      exact foldl_shiftIn_emod (2 ^ 32) [(c.toNat : Int)] a
  | c :: d :: ds, ⟨h0, _, hg⟩ => by
    intro v a hv
    have hc : 128 ≤ c.toNat := by have h0' : (128 : Int) ≤ c.toNat := h0; omega
    obtain ⟨w, hw, hwv⟩ := parseIntLoop_group rest (d :: ds) hg _ (shiftIn a c.toNat) (by
      rw [shiftIn_toNat, hv]
      exact foldl_shiftIn_emod (2 ^ 32) [(c.toNat : Int)] a)
    refine ⟨w, ?_, by simpa [byteValues] using hwv⟩
    rw [List.cons_append, parseIntLoop.eq_2,
      if_neg (fun h => absurd ((uint8_and_0x80 c).mp h) (by omega))]
    exact hw

/-- **C decoder spec.**  At a group, `parse_int` returns the group's value modulo `2^32` and
    the bytes after the group. -/
theorem parseInt_group (bs rest : List UInt8) (hg : IsGroup (byteValues bs)) :
    ∃ w, parseInt (bs ++ rest) = some (w, rest) ∧
      (w.toNat : Int) = groupValue (byteValues bs) % 2 ^ 32 := by
  match bs, hg with
  | [c], ⟨_, h1⟩ =>
    have hc : c.toNat < 128 := by have h1' : (c.toNat : Int) < 128 := h1; omega
    refine ⟨_, ?_, cTop_toNat c⟩
    rw [List.singleton_append, parseInt.eq_2, if_pos ((uint8_and_0x80 c).mpr hc)]
  | c :: d :: ds, ⟨h0, _, hg'⟩ =>
    have hc : 128 ≤ c.toNat := by have h0' : (128 : Int) ≤ c.toNat := h0; omega
    obtain ⟨w, hw, hwv⟩ := parseIntLoop_group rest (d :: ds) hg' _ (topDigit c.toNat)
      (cTop_toNat c)
    refine ⟨w, ?_, by simpa [byteValues, groupValue] using hwv⟩
    rw [List.cons_append, parseInt.eq_2,
      if_neg (fun h => absurd ((uint8_and_0x80 c).mp h) (by omega))]
    exact hw

/-! ## The encoders write groups -/

/-- Python's `(x & 0x7f) | 0x80`: the low seven bits of `x` with the continuation bit set. -/
theorem lor_emod_0x80 (x : Int) : Int.lor (x % 128) 0x80 = x % 128 + 128 := by
  obtain ⟨b, hb⟩ := Int.eq_ofNat_of_zero_le (Int.emod_nonneg x (by decide : (128 : Int) ≠ 0))
  have hlt : b < 2 ^ 7 := by have := Int.emod_lt_of_pos x (by decide : (0 : Int) < 128); omega
  rw [hb, show (0x80 : Int) = ((2 ^ 7 : Nat) : Int) by norm_num, IntBits.lor_two_pow_of_lt b 7 hlt]
  norm_num

/-- The encoder only appends to `out`. -/
theorem ptUint32Encode_append (out : List Int) (v : Int) :
    ptUint32Encode out v = out ++ ptUint32Encode [] v := by
  simp only [ptUint32Encode]
  split_ifs <;> simp

/-- The bytes `PT_uint32.encode` writes, as arithmetic: one continuation byte per range test
    that fires, then the low seven bits. -/
theorem ptUint32Encode_nil (v : Int) :
    ptUint32Encode [] v =
      (if v ≥ 0xc000000 ∨ v < -0x4000000 then [v / 2 ^ 28 % 128 + 128] else []) ++
      (if v ≥ 0x180000 ∨ v < -0x80000 then [v / 2 ^ 21 % 128 + 128] else []) ++
      (if v ≥ 0x3000 ∨ v < -0x1000 then [v / 2 ^ 14 % 128 + 128] else []) ++
      (if v ≥ 0x60 ∨ v < -0x20 then [v / 2 ^ 7 % 128 + 128] else []) ++ [v % 128] := by
  simp only [ptUint32Encode, land_0x7f, lor_emod_0x80, Int.shiftRight_eq_div_pow]
  split_ifs <;> simp

/-- **Python encoder spec.**  For every 32-bit value, given unsigned or signed, `PT_uint32.encode`
    writes a group of one to five bytes whose value is the argument itself. -/
theorem ptUint32Encode_group (v : Int) (h1 : -2 ^ 31 ≤ v) (h2 : v < 2 ^ 32) :
    IsGroup (ptUint32Encode [] v) ∧ groupValue (ptUint32Encode [] v) = v ∧
      1 ≤ (ptUint32Encode [] v).length ∧ (ptUint32Encode [] v).length ≤ 5 := by
  rw [ptUint32Encode_nil]
  have hm (x : Int) : 0 ≤ x % 128 ∧ x % 128 < 128 :=
    ⟨Int.emod_nonneg x (by decide), Int.emod_lt_of_pos x (by decide)⟩
  have h7 := hm (v / 2 ^ 7); have h14 := hm (v / 2 ^ 14); have h21 := hm (v / 2 ^ 21)
  have h28 := hm (v / 2 ^ 28); have h0 := hm v
  -- the range tests are nested: a longer form implies every shorter test fires too
  by_cases c5 : v ≥ 0xc000000 ∨ v < -0x4000000
  · rw [if_pos c5, if_pos (by omega), if_pos (by omega), if_pos (by omega)]
    refine ⟨⟨by omega, by omega, by omega, by omega, by omega, by omega, by omega, by omega,
      h0⟩, ?_, by simp, by simp⟩
    simp only [List.cons_append, List.nil_append, groupValue, List.foldl_cons, List.foldl_nil,
      shiftIn]
    rw [topDigit_eq (t := v / 2 ^ 28) (by omega) (by omega) (by omega)]
    omega
  by_cases c4 : v ≥ 0x180000 ∨ v < -0x80000
  · rw [if_neg c5, if_pos c4, if_pos (by omega), if_pos (by omega)]
    refine ⟨⟨by omega, by omega, by omega, by omega, by omega, by omega, h0⟩, ?_, by simp,
      by simp⟩
    simp only [List.cons_append, List.nil_append, groupValue, List.foldl_cons, List.foldl_nil,
      shiftIn]
    rw [topDigit_eq (t := v / 2 ^ 21) (by omega) (by omega) (by omega)]
    omega
  by_cases c3 : v ≥ 0x3000 ∨ v < -0x1000
  · rw [if_neg c5, if_neg c4, if_pos c3, if_pos (by omega)]
    refine ⟨⟨by omega, by omega, by omega, by omega, h0⟩, ?_, by simp, by simp⟩
    simp only [List.cons_append, List.nil_append, groupValue, List.foldl_cons, List.foldl_nil,
      shiftIn]
    rw [topDigit_eq (t := v / 2 ^ 14) (by omega) (by omega) (by omega)]
    omega
  by_cases c2 : v ≥ 0x60 ∨ v < -0x20
  · rw [if_neg c5, if_neg c4, if_neg c3, if_pos c2]
    refine ⟨⟨by omega, by omega, h0⟩, ?_, by simp, by simp⟩
    simp only [List.cons_append, List.nil_append, groupValue, List.foldl_cons, List.foldl_nil,
      shiftIn]
    rw [topDigit_eq (t := v / 2 ^ 7) (by omega) (by omega) (by omega)]
    omega
  · rw [if_neg c5, if_neg c4, if_neg c3, if_neg c2]
    refine ⟨h0, ?_, by simp, by simp⟩
    simp only [List.nil_append, groupValue, List.foldl_nil]
    exact topDigit_eq (by omega) (by omega) (by omega)

/-- `v & 0x7f`, stored as a `uint8_t`: the low seven bits. -/
theorem low_byte_toNat (v : UInt32) : (v &&& 0x7f).toUInt8.toNat = v.toNat % 128 := by
  simp only [UInt32.toNat_toUInt8, UInt32.toNat_and]
  rw [show (0x7f : UInt32).toNat = 2 ^ 7 - 1 from rfl, Nat.and_two_pow_sub_one_eq_mod]
  omega

/-- `((v>>k) & 0x7f) | 0x80`, stored as a `uint8_t`: a continuation byte. -/
theorem cont_byte_toNat (v k : UInt32) (hk : k.toNat < 32) :
    (((v >>> k) &&& 0x7f) ||| 0x80).toUInt8.toNat = v.toNat / 2 ^ k.toNat % 128 + 128 := by
  simp only [UInt32.toNat_toUInt8, UInt32.toNat_or, UInt32.toNat_and, UInt32.toNat_shiftRight]
  rw [Nat.mod_eq_of_lt hk, Nat.shiftRight_eq_div_pow,
    show (0x7f : UInt32).toNat = 2 ^ 7 - 1 from rfl, Nat.and_two_pow_sub_one_eq_mod,
    show (0x80 : UInt32).toNat = 2 ^ 7 from rfl,
    Nat.or_two_pow_eq_add_of_lt (Nat.mod_lt _ (by decide))]
  omega

/-- `(v>>28) | 0x80`, stored as a `uint8_t`: the five-byte form's top byte, four payload bits
    and no sign bits. -/
theorem top_byte_toNat (v : UInt32) :
    ((v >>> 28) ||| 0x80).toUInt8.toNat = v.toNat / 2 ^ 28 + 128 := by
  have hv := UInt32.toNat_lt v
  simp only [UInt32.toNat_toUInt8, UInt32.toNat_or, UInt32.toNat_shiftRight]
  rw [show (28 : UInt32).toNat % 32 = 28 from rfl, Nat.shiftRight_eq_div_pow,
    show (0x80 : UInt32).toNat = 2 ^ 7 from rfl,
    Nat.or_two_pow_eq_add_of_lt (by omega : v.toNat / 2 ^ 28 < 2 ^ 7)]
  omega

/-- The signed reading `int32_t sv = v` is `v` or `v - 2^32`, on the sign bit. -/
theorem toInt_cases (v : UInt32) :
    (2 * v.toNat < 2 ^ 32 ∧ v.toBitVec.toInt = v.toNat) ∨
      (2 ^ 32 ≤ 2 * v.toNat ∧ v.toBitVec.toInt = (v.toNat : Int) - 2 ^ 32) := by
  rw [BitVec.toInt_eq_toNat_cond, UInt32.toNat_toBitVec]
  split_ifs with h
  · exact Or.inl ⟨h, rfl⟩
  · exact Or.inr ⟨by omega, rfl⟩

/-- **C encoder spec.**  `encode_int` writes a group of one to five bytes.  Its value is the
    signed reading `sv` of the argument, except below `-2^26`: there the five-byte form's top
    byte `(v>>28) | 0x80` carries no sign bits, and the group reads as the unsigned `v`. -/
theorem encodeInt_group (v : UInt32) :
    IsGroup (byteValues (encodeInt v)) ∧ 1 ≤ (encodeInt v).length ∧
      (encodeInt v).length ≤ 5 ∧
      groupValue (byteValues (encodeInt v)) =
        if v.toBitVec.toInt < -2 ^ 26 then (v.toNat : Int) else v.toBitVec.toInt := by
  have hn := UInt32.toNat_lt v
  have hsv := toInt_cases v
  have b0 := low_byte_toNat v
  have b7 := cont_byte_toNat v 7 (by decide)
  have b14 := cont_byte_toNat v 14 (by decide)
  have b21 := cont_byte_toNat v 21 (by decide)
  have b28 := top_byte_toNat v
  simp only [show (7 : UInt32).toNat = 7 from rfl, show (14 : UInt32).toNat = 14 from rfl,
    show (21 : UInt32).toNat = 21 from rfl] at b7 b14 b21
  obtain ⟨sv, hsv_def⟩ : ∃ sv, v.toBitVec.toInt = sv := ⟨_, rfl⟩
  generalize hbs : encodeInt v = bs
  simp only [encodeInt, hsv_def] at hbs
  rw [hsv_def] at hsv ⊢
  -- the tests are on `sv`; the bytes on `v`: `sv` and `v` agree modulo `2^32`
  by_cases c1 : sv < 3 * 2 ^ 5 ∧ -(2 ^ 5) ≤ sv
  · rw [if_pos c1] at hbs
    subst hbs
    simp only [byteValues, List.map_cons, List.map_nil, IsGroup, groupValue, List.foldl_nil,
      List.length_singleton, b0]
    refine ⟨⟨by omega, by omega⟩, le_refl _, by omega, ?_⟩
    rw [if_neg (by omega)]
    exact topDigit_eq (by omega) (by omega) (by omega)
  by_cases c2 : sv < 3 * 2 ^ 12 ∧ -(2 ^ 12) ≤ sv
  · rw [if_neg c1, if_pos c2] at hbs
    subst hbs
    simp only [byteValues, List.map_cons, List.map_nil, IsGroup, groupValue, List.foldl_cons,
      List.foldl_nil, List.length_cons, List.length_nil, b0, b7, shiftIn]
    refine ⟨⟨by omega, by omega, by omega, by omega⟩, by omega, by omega, ?_⟩
    rw [if_neg (by omega), topDigit_eq (t := sv / 2 ^ 7) (by omega) (by omega) (by omega)]
    omega
  by_cases c3 : sv < 3 * 2 ^ 19 ∧ -(2 ^ 19) ≤ sv
  · rw [if_neg c1, if_neg c2, if_pos c3] at hbs
    subst hbs
    simp only [byteValues, List.map_cons, List.map_nil, IsGroup, groupValue, List.foldl_cons,
      List.foldl_nil, List.length_cons, List.length_nil, b0, b7, b14, shiftIn]
    refine ⟨⟨by omega, by omega, by omega, by omega, by omega, by omega⟩, by omega, by omega,
      ?_⟩
    rw [if_neg (by omega), topDigit_eq (t := sv / 2 ^ 14) (by omega) (by omega) (by omega)]
    omega
  by_cases c4 : sv < 3 * 2 ^ 26 ∧ -(2 ^ 26) ≤ sv
  · rw [if_neg c1, if_neg c2, if_neg c3, if_pos c4] at hbs
    subst hbs
    simp only [byteValues, List.map_cons, List.map_nil, IsGroup, groupValue, List.foldl_cons,
      List.foldl_nil, List.length_cons, List.length_nil, b0, b7, b14, b21, shiftIn]
    refine ⟨⟨by omega, by omega, by omega, by omega, by omega, by omega, by omega, by omega⟩,
      by omega, by omega, ?_⟩
    rw [if_neg (by omega), topDigit_eq (t := sv / 2 ^ 21) (by omega) (by omega) (by omega)]
    omega
  · rw [if_neg c1, if_neg c2, if_neg c3, if_neg c4] at hbs
    subst hbs
    simp only [byteValues, List.map_cons, List.map_nil, IsGroup, groupValue, List.foldl_cons,
      List.foldl_nil, List.length_cons, List.length_nil, b0, b7, b14, b21, b28, shiftIn]
    refine ⟨⟨by omega, by omega, by omega, by omega, by omega, by omega, by omega, by omega,
      by omega, by omega⟩, by omega, by omega, ?_⟩
    rw [topDigit_eq (t := (v.toNat : Int) / 2 ^ 28) (by omega) (by omega) (by omega)]
    -- above `3 * 2^26` the signed and unsigned readings agree
    split_ifs <;> omega

/-! ## Round trips -/

/-- **C round trip.**  `parse_int` reads back every value `encode_int` writes, and stops right
    after it; the firmware and the host share this code. -/
theorem parseInt_encodeInt (v : UInt32) (rest : List UInt8) :
    parseInt (encodeInt v ++ rest) = some (v, rest) := by
  obtain ⟨hg, -, -, hval⟩ := encodeInt_group v
  obtain ⟨w, hw, hwv⟩ := parseInt_group (encodeInt v) rest hg
  have hsv := toInt_cases v
  have hn := UInt32.toNat_lt v
  -- both readings of the group agree with `v` modulo `2^32`
  have hwn : w.toNat = v.toNat := by
    rw [hval] at hwv
    split_ifs at hwv <;> omega
  rw [hw, UInt32.toNat_inj.mp hwn]

/-- **Python round trip.**  `PT_uint32.parse` and `PT_int32.parse` read back every 32-bit
    value `PT_uint32.encode` writes, given unsigned or signed: the unsigned parser modulo `2^32`,
    the signed one as given. -/
theorem ptUint32Parse_ptUint32Encode (signed : Bool) (v : Int) (h1 : -2 ^ 31 ≤ v)
    (h2 : v < 2 ^ 32) (pre rest : List Int) :
    ptUint32Parse signed (pre ++ ptUint32Encode [] v ++ rest) pre.length
      = some (if signed then v else v % 2 ^ 32, pre.length + (ptUint32Encode [] v).length) := by
  obtain ⟨hg, hval, -, -⟩ := ptUint32Encode_group v h1 h2
  rw [ptUint32Parse_group signed pre _ rest hg, hval]

/-- **Python to C.**  The firmware's `parse_int` reads the bytes of `PT_uint32.encode` as the
    value modulo `2^32`. -/
theorem parseInt_ptUint32Encode (v : Int) (h1 : -2 ^ 31 ≤ v) (h2 : v < 2 ^ 32)
    (bs rest : List UInt8) (hbs : byteValues bs = ptUint32Encode [] v) :
    ∃ w, parseInt (bs ++ rest) = some (w, rest) ∧ (w.toNat : Int) = v % 2 ^ 32 := by
  obtain ⟨hg, hval, -, -⟩ := ptUint32Encode_group v h1 h2
  rw [← hbs] at hg hval
  obtain ⟨w, hw, hwv⟩ := parseInt_group bs rest hg
  exact ⟨w, hw, hval ▸ hwv⟩

/-- **C to Python.**  `PT_uint32.parse` reads the bytes of `encode_int` as the unsigned `v`;
    `PT_int32.parse` reads the signed `sv`, except below `-2^26`, where it too returns the
    unsigned `v`. -/
theorem ptUint32Parse_encodeInt (signed : Bool) (v : UInt32) (pre rest : List Int) :
    ptUint32Parse signed (pre ++ byteValues (encodeInt v) ++ rest) pre.length
      = some (if signed ∧ -2 ^ 26 ≤ v.toBitVec.toInt then v.toBitVec.toInt else (v.toNat : Int),
          pre.length + (encodeInt v).length) := by
  obtain ⟨hg, -, -, hval⟩ := encodeInt_group v
  have hsv := toInt_cases v
  have hn := UInt32.toNat_lt v
  rw [ptUint32Parse_group signed pre _ rest hg, hval]
  simp only [byteValues, List.length_map]
  cases signed
  · -- unsigned: both readings of the group are `v` modulo `2^32`
    simp only [Bool.false_eq_true, false_and, ↓reduceIte]
    congr 2
    split_ifs <;> omega
  · simp only [true_and, ↓reduceIte]
    congr 2
    split_ifs <;> omega

/-- The smallest `int32`, `-2^31`, as the firmware writes it and `PT_int32` reads it back: the
    top byte `0x88` has no sign bits, and the host gets `2^31`. -/
theorem ptInt32Parse_encodeInt_int32_min :
    encodeInt 0x80000000 = [0x88, 0x80, 0x80, 0x80, 0x00] ∧
      ptUint32Parse true (byteValues (encodeInt 0x80000000)) 0 = some (2147483648, 5) :=
  ⟨by decide, by decide⟩

end Klipper.Vlq
