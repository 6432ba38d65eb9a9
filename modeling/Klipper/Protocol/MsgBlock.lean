import Mathlib.Data.UInt

/-
  The message blocks of the Klipper wire protocol (`klippy/chelper/msgblock.h` and
  `msgblock.c`): the frame constants and the block checksum.

  A block is a length byte, a sequence byte (`MESSAGE_DEST` with the sequence number in its low
  four bits), a payload of encoded messages, the 16-bit CRC of everything before it, high byte
  first, and the sync byte `0x7e`.  `msgblock_crc16_ccitt` is the CRC-16/CCITT of the firmware's
  `crc16_ccitt`, one byte at a time (`crc16Step`).
-/

namespace Klipper.MsgBlock

/-- `MESSAGE_MIN`: a block with an empty payload. -/
def messageMin : Nat := 5
/-- `MESSAGE_MAX` -/
def messageMax : Nat := 64
/-- `MESSAGE_HEADER_SIZE` -/
def messageHeaderSize : Nat := 2
/-- `MESSAGE_TRAILER_SIZE` -/
def messageTrailerSize : Nat := 3
/-- `MESSAGE_PAYLOAD_MAX` -/
def messagePayloadMax : Nat := messageMax - messageMin
/-- `MESSAGE_SEQ_MASK` -/
def messageSeqMask : UInt64 := 0x0f
/-- `MESSAGE_DEST` -/
def messageDest : UInt64 := 0x10
/-- `MESSAGE_SYNC` -/
def messageSync : UInt8 := 0x7e
/-- `MESSAGE_POS_LEN` -/
def messagePosLen : Nat := 0
/-- `MESSAGE_POS_SEQ` -/
def messagePosSeq : Nat := 1
/-- `MESSAGE_TRAILER_CRC` -/
def messageTrailerCrc : Nat := 3
/-- `MESSAGE_TRAILER_SYNC` -/
def messageTrailerSync : Nat := 1

/-- One byte of `msgblock_crc16_ccitt`.  The C computes in `int` and stores into a `uint8_t`
    and a `uint16_t`; every intermediate value fits, so the fixed-width operations are the
    same. -/
def crc16Step (crc : UInt16) (b : UInt8) : UInt16 :=
  let data := b ^^^ crc.toUInt8
  let data := data ^^^ (data <<< 4)
  ((data.toUInt16 <<< 8) ||| (crc >>> 8)) ^^^ (data >>> 4).toUInt16 ^^^ (data.toUInt16 <<< 3)

/-- `msgblock_crc16_ccitt` over the bytes `buf`. -/
def msgblockCrc16Ccitt (buf : List UInt8) : UInt16 := buf.foldl crc16Step 0xffff

end Klipper.MsgBlock
