import Mathlib
import Klipper.Lib.LittleEndian

/-
  The host's codec for the single-wire UART of the TMC drivers (`tmc_uart.py`, class
  `MCU_TMC_uart_bitbang`).

  A datagram is a few bytes ending in a CRC8.  `_add_serial_bits` frames each byte as the line
  sends it, a 0 start bit, the eight data bits lowest first and a 1 stop bit, and packs the
  frames into bytes, lowest bit first.  `_decode_read` takes the ten bytes of a read reply, picks
  the four bytes of the register value out of the frames at bits 31, 41, 51 and 61, and accepts
  the reply only if encoding that value again gives the same ten bytes.

  1. **Framing** (`lineBits_addSerialBits`, `addSerialBits_frame`): the bytes out, read as one
     number lowest bit first, are the frames in base `2^10`; so byte `j` of the message sits at
     bits `10j+1 .. 10j+8`, with bit `10j` clear and bit `10j+9` set.
  2. **Reading back** (`decodeRead_encodeWrite`): `_decode_read(reg, data)` returns `val` for
     the write datagram `_encode_write(0x05, 0xff, reg, val)` of every 32-bit `val`.
  3. **Rejection** (`decodeRead_eq_some`): whatever `_decode_read` accepts is such a datagram,
     so it returns `None` for every other input.

  Python's integers are natural numbers here (every value the codec handles is nonnegative), and
  a `bytearray` is a list of `UInt8`.
-/

namespace Klipper.TmcUart

open LittleEndian

/-- One pass of the inner loop of `_calc_crc8`, on `(crc, b)`. -/
def crc8Step (s : Nat × Nat) : Nat × Nat :=
  let crc := if (s.1 >>> 7) ^^^ (s.2 &&& 0x01) ≠ 0 then (s.1 <<< 1) ^^^ 0x07 else s.1 <<< 1
  (crc &&& 0xff, s.2 >>> 1)

/-- `_calc_crc8`: the CRC8-ATM of a message, bytes in order and each byte lowest bit first. -/
def calcCrc8 (data : List UInt8) : UInt8 :=
  UInt8.ofNat (data.foldl (fun crc b => ((List.range 8).foldl (fun s _ => crc8Step s)
    (crc, b.toNat)).1) 0)

/-- The ten bits the line sends for a byte: `(d << 1) | 0x200`. -/
def serialFrame (d : UInt8) : Nat := (d.toNat <<< 1) ||| 0x200

/-- `_add_serial_bits`: the frames packed lowest bit first, cut into `(pos + 7) // 8` bytes. -/
def addSerialBits (data : List UInt8) : List UInt8 :=
  let s := packBits 10 serialFrame (0, 0) data
  (List.range ((s.2 + 7) / 8)).map fun i => UInt8.ofNat ((s.1 >>> (i * 8)) &&& 0xff)

/-- `_encode_read` -/
def encodeRead (sync addr reg : UInt8) : List UInt8 :=
  let msg := [sync, addr, reg]
  addSerialBits (msg ++ [calcCrc8 msg])

/-- `_encode_write` -/
def encodeWrite (sync addr reg : UInt8) (val : Nat) : List UInt8 :=
  let msg := [sync, addr, reg, UInt8.ofNat ((val >>> 24) &&& 0xff),
    UInt8.ofNat ((val >>> 16) &&& 0xff), UInt8.ofNat ((val >>> 8) &&& 0xff),
    UInt8.ofNat (val &&& 0xff)]
  addSerialBits (msg ++ [calcCrc8 msg])

/-- The register value `_decode_read` picks out of the reply read as a number. -/
def valueOf (mval : Nat) : Nat :=
  (((mval >>> 31) &&& 0xff) <<< 24) ||| (((mval >>> 41) &&& 0xff) <<< 16) |||
    (((mval >>> 51) &&& 0xff) <<< 8) ||| ((mval >>> 61) &&& 0xff)

/-- `_decode_read` -/
def decodeRead (reg : UInt8) (data : List UInt8) : Option Nat :=
  if data.length ≠ 10 then none
  else
    let val := valueOf (packBits 8 UInt8.toNat (0, 0) data).1
    if data ≠ encodeWrite 0x05 0xff reg val then none else some val

/-- The bits on the line: a byte string read lowest byte and lowest bit first. -/
def lineBits (data : List UInt8) : Nat := Nat.ofDigits 256 (data.map UInt8.toNat)

/-! ## Framing -/

theorem serialFrame_eq (d : UInt8) : serialFrame d = 2 * d.toNat + 512 := by
  have hd := d.toNat_lt
  rw [serialFrame, Nat.or_comm, show (0x200 : Nat) = 1 <<< 9 from rfl,
    or_shiftLeft_eq_add _ _ _ (by rw [Nat.shiftLeft_eq]; omega), Nat.shiftLeft_eq]
  omega

theorem serialFrame_lt (d : UInt8) : serialFrame d < 2 ^ 10 := by
  have := d.toNat_lt
  rw [serialFrame_eq]
  omega

theorem serialFrames_lt (data : List UInt8) : ∀ x ∈ data.map serialFrame, x < 2 ^ 10 := by
  intro x hx
  obtain ⟨d, -, rfl⟩ := List.mem_map.mp hx
  exact serialFrame_lt d

/-- Python's loop `mval |= d << pos; pos += 8` reads a byte string as a number. -/
theorem packBits_toNat (data : List UInt8) :
    (packBits 8 UInt8.toNat (0, 0) data).1 = lineBits data := by
  rw [packBits_eq UInt8.toNat (fun d => d.toNat_lt) data 0 0 (by norm_num)]
  simp [lineBits]

theorem length_addSerialBits (data : List UInt8) :
    (addSerialBits data).length = (10 * data.length + 7) / 8 := by
  simp [addSerialBits, packBits_eq serialFrame serialFrame_lt data 0 0 (by norm_num)]

/-- The bytes out of `_add_serial_bits`, read back as a number, are the frames in base
    `2^10`: the number `out` is cut into whole bytes, and it fits in them. -/
theorem lineBits_addSerialBits (data : List UInt8) :
    lineBits (addSerialBits data) = Nat.ofDigits (2 ^ 10) (data.map serialFrame) := by
  have hpack := packBits_eq serialFrame serialFrame_lt data 0 0 (by norm_num)
  simp only [Nat.zero_add, pow_zero, Nat.one_mul, Nat.mul_comm 10] at hpack
  set out := Nat.ofDigits (2 ^ 10) (data.map serialFrame)
  -- each byte out is digit `i` of `out` in base 256
  have hbytes : (addSerialBits data).map UInt8.toNat =
      digitsOf 256 ((data.length * 10 + 7) / 8) out := by
    simp only [addSerialBits, hpack, digitsOf, List.map_map]
    apply List.map_congr_left
    intro i _
    dsimp only [Function.comp_apply]
    rw [UInt8.toNat_ofNat', show (255 : Nat) = 2 ^ 8 - 1 from rfl,
      Nat.and_two_pow_sub_one_eq_mod, Nat.shiftRight_eq_div_pow, Nat.mul_comm i 8, pow_mul]
    simp
  have hlt : out < 256 ^ ((data.length * 10 + 7) / 8) := by
    have h := Nat.ofDigits_lt_base_pow_length (by norm_num) (serialFrames_lt data)
    rw [List.length_map] at h
    calc out < (2 ^ 10) ^ data.length := h
      _ = 2 ^ (data.length * 10) := by rw [← pow_mul, Nat.mul_comm]
      _ ≤ 2 ^ (8 * ((data.length * 10 + 7) / 8)) := Nat.pow_le_pow_right (by norm_num) (by omega)
      _ = 256 ^ ((data.length * 10 + 7) / 8) := by rw [pow_mul]; norm_num
  rw [lineBits, hbytes, ofDigits_digitsOf, Nat.mod_eq_of_lt hlt]

/-- **Framing.**  Byte `j` of a message goes out as a 0 start bit at bit `10j`, its eight bits
    at `10j+1 .. 10j+8`, and a 1 stop bit at `10j+9`. -/
theorem addSerialBits_frame (data : List UInt8) {j : Nat} (hj : j < data.length) :
    (lineBits (addSerialBits data) >>> (10 * j)) &&& 1 = 0 ∧
      (lineBits (addSerialBits data) >>> (10 * j + 9)) &&& 1 = 1 ∧
      (lineBits (addSerialBits data) >>> (10 * j + 1)) &&& 0xff = data[j].toNat := by
  have hl := serialFrames_lt data
  have hj' : j < (data.map serialFrame).length := by rwa [List.length_map]
  have hd := data[j].toNat_lt
  rw [lineBits_addSerialBits]
  refine ⟨?_, ?_, ?_⟩
  · have h := shiftRight_and_ofDigits (o := 0) (m := 1) (by norm_num) hl hj'
    rw [Nat.add_zero] at h
    rw [show (1 : Nat) = 2 ^ 1 - 1 from rfl, h, List.getElem_map, serialFrame_eq,
      Nat.and_two_pow_sub_one_eq_mod]
    omega
  · have h := shiftRight_and_ofDigits (o := 9) (m := 1) (by norm_num) hl hj'
    rw [show (1 : Nat) = 2 ^ 1 - 1 from rfl, h, List.getElem_map, serialFrame_eq,
      Nat.and_two_pow_sub_one_eq_mod, Nat.shiftRight_eq_div_pow]
    omega
  · have h := shiftRight_and_ofDigits (o := 1) (m := 8) (by norm_num) hl hj'
    rw [show (0xff : Nat) = 2 ^ 8 - 1 from rfl, h, List.getElem_map, serialFrame_eq,
      Nat.and_two_pow_sub_one_eq_mod, Nat.shiftRight_eq_div_pow]
    omega

/-! ## Reading a register value back -/

/-- Or-ing four bytes in at bits 24, 16, 8 and 0 spells the number they are the digits of. -/
theorem or_bytes_eq {a b c d : Nat} (hb : b < 2 ^ 8) (hc : c < 2 ^ 8) (hd : d < 2 ^ 8) :
    a <<< 24 ||| b <<< 16 ||| c <<< 8 ||| d = ((a * 2 ^ 8 + b) * 2 ^ 8 + c) * 2 ^ 8 + d := by
  -- each byte is or-ed in under the bytes already shifted up
  have h1 : a <<< 24 ||| b <<< 16 = (a * 2 ^ 8 + b) <<< 16 := by
    rw [show a <<< 24 = a <<< 8 <<< 16 from Nat.shiftLeft_add a 8 16,
      ← Nat.shiftLeft_or_distrib, or_shiftLeft_eq_add _ _ _ hb]
  have h2 : (a * 2 ^ 8 + b) <<< 16 ||| c <<< 8 = ((a * 2 ^ 8 + b) * 2 ^ 8 + c) <<< 8 := by
    rw [show (a * 2 ^ 8 + b) <<< 16 = (a * 2 ^ 8 + b) <<< 8 <<< 8 from Nat.shiftLeft_add _ 8 8,
      ← Nat.shiftLeft_or_distrib, or_shiftLeft_eq_add _ _ _ hc]
  rw [h1, h2, or_shiftLeft_eq_add _ _ _ hd]

theorem shiftRight_and_ff (v k : Nat) : (v >>> k) &&& 0xff = v / 2 ^ k % 2 ^ 8 := by
  rw [show (0xff : Nat) = 2 ^ 8 - 1 from rfl, Nat.and_two_pow_sub_one_eq_mod,
    Nat.shiftRight_eq_div_pow]

theorem and_ff (v : Nat) : v &&& 0xff = v % 2 ^ 8 := by
  rw [show (0xff : Nat) = 2 ^ 8 - 1 from rfl, Nat.and_two_pow_sub_one_eq_mod]

/-- The value `_decode_read` picks out, in digits. -/
theorem valueOf_eq (m : Nat) :
    valueOf m = ((m / 2 ^ 31 % 2 ^ 8 * 2 ^ 8 + m / 2 ^ 41 % 2 ^ 8) * 2 ^ 8 +
      m / 2 ^ 51 % 2 ^ 8) * 2 ^ 8 + m / 2 ^ 61 % 2 ^ 8 := by
  rw [valueOf, shiftRight_and_ff, shiftRight_and_ff, shiftRight_and_ff, shiftRight_and_ff,
    or_bytes_eq (Nat.mod_lt _ (by norm_num)) (Nat.mod_lt _ (by norm_num))
      (Nat.mod_lt _ (by norm_num))]

/-- What `_decode_read` picks out is a 32-bit value. -/
theorem valueOf_lt (m : Nat) : valueOf m < 2 ^ 32 := by
  rw [valueOf_eq]
  have := Nat.mod_lt (m / 2 ^ 31) (show 0 < 2 ^ 8 by norm_num)
  have := Nat.mod_lt (m / 2 ^ 41) (show 0 < 2 ^ 8 by norm_num)
  have := Nat.mod_lt (m / 2 ^ 51) (show 0 < 2 ^ 8 by norm_num)
  have := Nat.mod_lt (m / 2 ^ 61) (show 0 < 2 ^ 8 by norm_num)
  omega

/-- The four bytes of a 32-bit value, highest first, spell it. -/
theorem bytes_spell {v : Nat} (hv : v < 2 ^ 32) :
    ((v / 2 ^ 24 % 2 ^ 8 * 2 ^ 8 + v / 2 ^ 16 % 2 ^ 8) * 2 ^ 8 + v / 2 ^ 8 % 2 ^ 8) * 2 ^ 8 +
      v % 2 ^ 8 = v := by
  omega

/-- The bits 31, 41, 51 and 61 `_decode_read` reads are the four value bytes of the write
    datagram, so it gets the value back. -/
theorem valueOf_encodeWrite (sync addr reg : UInt8) {val : Nat} (hval : val < 2 ^ 32) :
    valueOf (lineBits (encodeWrite sync addr reg val)) = val := by
  set msg := [sync, addr, reg, UInt8.ofNat ((val >>> 24) &&& 0xff),
    UInt8.ofNat ((val >>> 16) &&& 0xff), UInt8.ofNat ((val >>> 8) &&& 0xff),
    UInt8.ofNat (val &&& 0xff)] with hmsg
  have hdata : encodeWrite sync addr reg val = addSerialBits (msg ++ [calcCrc8 msg]) := rfl
  -- message byte `j` is bits `10j+1 .. 10j+8` of the datagram
  have hbyte : ∀ j, (hj : j < 8) →
      lineBits (addSerialBits (msg ++ [calcCrc8 msg])) / 2 ^ (10 * j + 1) % 2 ^ 8 =
        (msg ++ [calcCrc8 msg])[j].toNat := by
    intro j hj
    rw [← shiftRight_and_ff]
    exact (addSerialBits_frame _ (by simp [hmsg]; omega)).2.2
  rw [hdata, valueOf_eq]
  generalize lineBits (addSerialBits (msg ++ [calcCrc8 msg])) = L at hbyte ⊢
  have h3 : L / 2 ^ 31 % 2 ^ 8 = val / 2 ^ 24 % 2 ^ 8 := by
    simpa [hmsg, UInt8.toNat_ofNat', shiftRight_and_ff] using hbyte 3 (by norm_num)
  have h4 : L / 2 ^ 41 % 2 ^ 8 = val / 2 ^ 16 % 2 ^ 8 := by
    simpa [hmsg, UInt8.toNat_ofNat', shiftRight_and_ff] using hbyte 4 (by norm_num)
  have h5 : L / 2 ^ 51 % 2 ^ 8 = val / 2 ^ 8 % 2 ^ 8 := by
    simpa [hmsg, UInt8.toNat_ofNat', shiftRight_and_ff] using hbyte 5 (by norm_num)
  have h6 : L / 2 ^ 61 % 2 ^ 8 = val % 2 ^ 8 := by
    simpa [hmsg, UInt8.toNat_ofNat', and_ff] using hbyte 6 (by norm_num)
  rw [h3, h4, h5, h6]
  exact bytes_spell hval

/-- A write datagram is ten bytes, a read request five. -/
theorem length_encodeWrite (sync addr reg : UInt8) (val : Nat) :
    (encodeWrite sync addr reg val).length = 10 := by
  rw [encodeWrite, length_addSerialBits]
  simp

theorem length_encodeRead (sync addr reg : UInt8) : (encodeRead sync addr reg).length = 5 := by
  rw [encodeRead, length_addSerialBits]
  simp

/-- **Reading back.**  `_decode_read` returns the value of every write datagram of a 32-bit
    value. -/
theorem decodeRead_encodeWrite (reg : UInt8) {val : Nat} (hval : val < 2 ^ 32) :
    decodeRead reg (encodeWrite 0x05 0xff reg val) = some val := by
  rw [decodeRead, if_neg (by rw [length_encodeWrite]; decide), packBits_toNat,
    valueOf_encodeWrite _ _ _ hval, if_neg (not_not.mpr rfl)]

/-- **Rejection.**  What `_decode_read` accepts is the write datagram of the value it
    returns. -/
theorem decodeRead_eq_some {reg : UInt8} {data : List UInt8} {val : Nat}
    (h : decodeRead reg data = some val) : val < 2 ^ 32 ∧ data = encodeWrite 0x05 0xff reg val := by
  rw [decodeRead] at h
  split_ifs at h with hlen
  dsimp only at h
  split_ifs at h with henc
  obtain rfl := Option.some.inj h
  exact ⟨valueOf_lt _, not_not.mp henc⟩

theorem tmc_uart_codec :
    (∀ (reg : UInt8) (val : Nat), val < 2 ^ 32 →
      decodeRead reg (encodeWrite 0x05 0xff reg val) = some val) ∧
    (∀ (data : List UInt8) (j : Nat) (hj : j < data.length),
      (lineBits (addSerialBits data) >>> (10 * j)) &&& 1 = 0 ∧
        (lineBits (addSerialBits data) >>> (10 * j + 9)) &&& 1 = 1 ∧
        (lineBits (addSerialBits data) >>> (10 * j + 1)) &&& 0xff = data[j].toNat) ∧
    (∀ (reg : UInt8) (data : List UInt8),
      (∀ val < 2 ^ 32, data ≠ encodeWrite 0x05 0xff reg val) → decodeRead reg data = none) := by
  refine ⟨fun reg _ hval => decodeRead_encodeWrite reg hval,
    fun data _ hj => addSerialBits_frame data hj, fun reg data hno => ?_⟩
  -- anything accepted is the datagram of the value returned
  cases h : decodeRead reg data with
  | none => rfl
  | some val =>
    obtain ⟨hval, hdata⟩ := decodeRead_eq_some h
    exact absurd hdata (hno val hval)

/-- `CHOPCONF` (register `0x6c`) read back as `0x10000053`; the request that reads it frames
    its register byte at bits 21 to 28; and the five bytes of that request are not a reply. -/
theorem tmc_uart_codec_chopconf :
    decodeRead 0x6c (encodeWrite 0x05 0xff 0x6c 0x10000053) = some 0x10000053 ∧
      ((lineBits (addSerialBits [0xf5, 0x00, 0x6c]) >>> (10 * 2)) &&& 1 = 0 ∧
        (lineBits (addSerialBits [0xf5, 0x00, 0x6c]) >>> (10 * 2 + 9)) &&& 1 = 1 ∧
        (lineBits (addSerialBits [0xf5, 0x00, 0x6c]) >>> (10 * 2 + 1)) &&& 0xff = 0x6c) ∧
      decodeRead 0x6c (encodeRead 0xf5 0x00 0x6c) = none :=
  ⟨tmc_uart_codec.1 0x6c 0x10000053 (by norm_num),
    tmc_uart_codec.2.1 [0xf5, 0x00, 0x6c] 2 (by decide),
    tmc_uart_codec.2.2 0x6c _ fun val _ h => by
      have := congrArg List.length h
      rw [length_encodeRead, length_encodeWrite] at this
      exact absurd this (by decide)⟩

end Klipper.TmcUart
