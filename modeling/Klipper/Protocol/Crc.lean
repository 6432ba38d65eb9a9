import Klipper.Lib.Crc
import Klipper.Protocol.Command

/-
  The three CRC-16/CCITT implementations of the protocol: the firmware's `crc16_ccitt`
  (`src/generic/crc16_ccitt.c`), the host's `msgblock_crc16_ccitt` (`klippy/chelper/msgblock.c`),
  which is the same C code, and `crc16_ccitt` of `klippy/msgproto.py`, which computes on Python
  integers, spells the nibble shift `(data & 0x0f) << 4` where the C truncates `data << 4` to
  eight bits, and returns the two bytes `[hi, lo]`.

  All three compute the reflected CRC-16 with polynomial `0x8408`, initial register `0xffff`
  and no final xor.  The table-free byte step of the C code is the register moved down eight
  places, xor a function of its low byte and the data byte (`crc16Step_eq`), which is the form
  `Crc.byte_eq` gives the bit-at-a-time CRC; the two functions of the low byte are compared on
  all 256 bytes.  The Python step is the C step read on `Nat` (`crc16CcittStep_toNat`).
-/

namespace Klipper

namespace MsgBlock

/-- In a 16-bit register a value moved up eight places and one moved down eight places share no
    bit, so the C code's `|` is an xor. -/
theorem or_shiftRight_eq_xor (e c : UInt16) :
    (e <<< 8) ||| (c >>> 8) = (e <<< 8) ^^^ (c >>> 8) := by
  apply UInt16.toBitVec_inj.mp
  apply BitVec.eq_of_getLsbD_eq
  intro i hi
  simp only [UInt16.toBitVec_or, UInt16.toBitVec_xor, UInt16.toBitVec_shiftLeft,
    UInt16.toBitVec_shiftRight, BitVec.getLsbD_or, BitVec.getLsbD_xor]
  by_cases h : i < 8
  · simp [h]
  · simp [h, BitVec.getLsbD_of_ge c.toBitVec (8 + i) (by omega)]

/-- The table-free step is the register moved down eight places, xor the step from a zero
    register on the byte `crc & 0xff ^ data`. -/
theorem crc16Step_eq (c : UInt16) (b : UInt8) :
    crc16Step c b = (c >>> 8) ^^^ crc16Step 0 (c.toUInt8 ^^^ b) := by
  have h0 : (0 : UInt16).toUInt8 = 0 := rfl
  have hz : (0 : UInt16) >>> 8 = 0 := rfl
  simp only [crc16Step, or_shiftRight_eq_xor, h0, hz, UInt8.xor_zero,
    UInt8.xor_comm c.toUInt8 b]
  ac_rfl

/-- On a zero register the table-free step and eight bit steps agree, byte by byte. -/
theorem crc16Step_zero_toBitVec :
    ∀ d : BitVec 8, (crc16Step 0 ⟨d⟩).toBitVec = Crc.byte 0x8408 0 d := by
  decide

/-- One byte of `msgblock_crc16_ccitt` is one byte of the reflected CRC with polynomial
    `0x8408`. -/
theorem crc16Step_toBitVec (c : UInt16) (b : UInt8) :
    (crc16Step c b).toBitVec = Crc.byte 0x8408 c.toBitVec b.toBitVec := by
  rw [crc16Step_eq, Crc.byte_eq, UInt16.toBitVec_xor, UInt16.toBitVec_shiftRight]
  have hlow : (c.toUInt8 ^^^ b) = ⟨c.toBitVec.setWidth 8 ^^^ b.toBitVec⟩ := rfl
  rw [hlow, crc16Step_zero_toBitVec]
  rfl

theorem foldl_crc16Step_toBitVec (buf : List UInt8) (c : UInt16) :
    (buf.foldl crc16Step c).toBitVec =
      Crc.reflected 0x8408 c.toBitVec (buf.map UInt8.toBitVec) := by
  induction buf generalizing c with
  | nil => rfl
  | cons b buf ih =>
    rw [List.foldl_cons, ih, crc16Step_toBitVec]
    rfl

end MsgBlock

namespace Msgproto

/-- One byte of `crc16_ccitt` in `msgproto.py`, on Python's unbounded integers. -/
def crc16CcittStep (crc data : Nat) : Nat :=
  let data := data ^^^ (crc &&& 0xff)
  let data := data ^^^ ((data &&& 0x0f) <<< 4)
  ((data <<< 8) ||| (crc >>> 8)) ^^^ (data >>> 4) ^^^ (data <<< 3)

/-- `crc16_ccitt` of `msgproto.py`: the CRC of `buf` as the list `[hi, lo]`. -/
def crc16Ccitt (buf : List Nat) : List Nat :=
  let crc := buf.foldl crc16CcittStep 0xffff
  [crc >>> 8, crc &&& 0xff]

/-- On a 16-bit register and a byte the Python step computes the C step: the C truncation of
    `data << 4` to a byte keeps exactly `(data & 0x0f) << 4`, and no other value leaves its
    width. -/
theorem crc16CcittStep_toNat (c : UInt16) (b : UInt8) :
    crc16CcittStep c.toNat b.toNat = (MsgBlock.crc16Step c b).toNat := by
  have hlow : c.toNat &&& 0xff = c.toNat % 2 ^ 8 := Nat.and_two_pow_sub_one_eq_mod _ 8
  simp only [crc16CcittStep, MsgBlock.crc16Step, UInt16.toNat_xor, UInt16.toNat_or,
    UInt16.toNat_shiftLeft, UInt16.toNat_shiftRight, UInt8.toNat_xor, UInt8.toNat_shiftLeft,
    UInt8.toNat_shiftRight, UInt8.toNat_toUInt16, UInt16.toNat_toUInt8, hlow]
  -- the byte both compute first
  generalize hd : b.toNat ^^^ c.toNat % 2 ^ 8 = d
  have hd8 : d < 2 ^ 8 := hd ▸ Nat.xor_lt_two_pow b.toNat_lt (Nat.mod_lt _ (by decide))
  have hnibble : (d &&& 0x0f) <<< 4 < 2 ^ 8 := by
    rw [Nat.shiftLeft_eq, show (0x0f : Nat) = 2 ^ 4 - 1 from rfl,
      Nat.and_two_pow_sub_one_eq_mod d 4]
    omega
  have hshift4 : (d <<< 4) % 2 ^ 8 = (d &&& 0x0f) <<< 4 := by
    rw [Nat.shiftLeft_eq, Nat.shiftLeft_eq, show (0x0f : Nat) = 2 ^ 4 - 1 from rfl,
      Nat.and_two_pow_sub_one_eq_mod d 4]
    omega
  have h4 : UInt8.toNat 4 % 8 = 4 := rfl
  have h8 : UInt16.toNat 8 % 16 = 8 := rfl
  have h3 : UInt16.toNat 3 % 16 = 3 := rfl
  rw [h4, h8, h3, hshift4]
  -- the byte after the nibble step, which no shift below carries out of 16 bits
  generalize he : d ^^^ (d &&& 0x0f) <<< 4 = e
  have he8 : e < 2 ^ 8 := he ▸ Nat.xor_lt_two_pow hd8 hnibble
  rw [Nat.mod_eq_of_lt (a := e <<< 8) (by rw [Nat.shiftLeft_eq]; omega),
    Nat.mod_eq_of_lt (a := e <<< 3) (by rw [Nat.shiftLeft_eq]; omega)]

theorem foldl_crc16CcittStep (buf : List UInt8) (c : UInt16) :
    (buf.map UInt8.toNat).foldl crc16CcittStep c.toNat = (buf.foldl MsgBlock.crc16Step c).toNat := by
  induction buf generalizing c with
  | nil => rfl
  | cons b buf ih => rw [List.map_cons, List.foldl_cons, List.foldl_cons, crc16CcittStep_toNat, ih]

/-- **The three CRCs agree and are the reflected CRC-16 with polynomial `0x8408`.**  On every
    byte string the firmware's `crc16_ccitt` and the host's `msgblock_crc16_ccitt` return the
    same value, `msgproto.crc16_ccitt` returns its two bytes high first, and that value is the
    bit-at-a-time reflected CRC-16 with polynomial `0x8408`, initial value `0xffff` and no final
    xor. -/
theorem crc16Ccitt_agree (buf : List UInt8) :
    Command.crc16Ccitt buf = MsgBlock.msgblockCrc16Ccitt buf ∧
    crc16Ccitt (buf.map UInt8.toNat) =
      [(MsgBlock.msgblockCrc16Ccitt buf).toNat >>> 8, (MsgBlock.msgblockCrc16Ccitt buf).toNat &&& 0xff] ∧
    (MsgBlock.msgblockCrc16Ccitt buf).toBitVec = Crc.reflected 0x8408 0xffff (buf.map UInt8.toBitVec) := by
  refine ⟨rfl, ?_, MsgBlock.foldl_crc16Step_toBitVec buf 0xffff⟩
  have h := foldl_crc16CcittStep buf 0xffff
  simp only [crc16Ccitt, MsgBlock.msgblockCrc16Ccitt]
  rw [← h]
  rfl

end Msgproto

end Klipper
