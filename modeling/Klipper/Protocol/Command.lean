import Klipper.Protocol.Vlq
import Klipper.Protocol.MsgBlock

/-
  The messages the firmware sends to the host: `command_encodef` and `command_add_frame` of
  `src/command.c` on one side, `MessageFormat.parse` of `klippy/msgproto.py` on the other.

  A response is the encoded message id (`encode_msgid`) followed by its parameters in the order
  of its format: an integer of any width as one VLQ (`Klipper.Protocol.Vlq`), a string or a
  buffer as a length byte and its bytes.  The encoder stops a string or a buffer at the end of
  the room the format's `max_size` gives (`maxend`), and checks before each parameter that the
  message has not passed it.  The host skips the id and parses each parameter with the type the
  same format names (`MessageTypes`), indexing the block's bytes as Python ints.

  `parseParams_encodeParams_ints` reads a whole message of integer parameters back: each
  unsigned one as its value and each signed one as its signed value, except a signed value
  below `-2^26`, which comes back as the unsigned value (`ptUint32Parse_encodeInt`).  The
  firmware's `stepper_position oid=%c pos=%i` meets that case for positions below `-2^26`.
-/

namespace Klipper.Command

open Vlq MsgBlock

/-- The parameter types of `src/command.h`, in the order of their enumeration. -/
inductive ParamType
  | uint32
  | int32
  | uint16
  | int16
  | byte
  | string
  | progmemBuffer
  | buffer
deriving DecidableEq, Repr

/-- The integer parameter types, all encoded by `encode_int`. -/
def ParamType.IsInt : ParamType → Prop
  | .uint32 | .int32 | .uint16 | .int16 | .byte => True
  | _ => False

/-- The types whose host parser is `PT_int32` (its `signed` attribute). -/
def ParamType.signed : ParamType → Bool
  | .int32 | .int16 => true
  | _ => false

/-- An argument of `command_sendf` as `command_encodef` reads it with `va_arg`: an integer, the
    bytes of a string up to its terminating NUL, or a buffer's bytes (its length is the `int`
    before its pointer). -/
inductive SendArg
  | int (v : UInt32)
  | string (s : List UInt8)
  | buffer (data : List UInt8)
deriving DecidableEq, Repr

/-! ## The firmware's encoder -/

/-- `encode_msgid`: a message id below `2^14` in one or two VLQ bytes. -/
def encodeMsgid (encodedMsgid : UInt16) : List UInt8 :=
  (if encodedMsgid ≥ 0x80 then [((encodedMsgid >>> 7) ||| 0x80).toUInt8] else []) ++
    [(encodedMsgid &&& 0x7f).toUInt8]

/-- One parameter of `command_encodef`, written after the message so far `out`, in a message
    that may reach `maxend`: a string is copied while there is room after its length byte, a
    buffer is cut to the room left.  A call whose arguments do not match its format is outside
    the model. -/
def encodeParam (maxend : Nat) (out : List UInt8) : ParamType → SendArg → Except String (List UInt8)
  | .uint32, .int v | .int32, .int v | .uint16, .int v | .int16, .int v | .byte, .int v =>
    .ok (out ++ encodeInt v)
  | .string, .string s =>
    let n := min (s.takeWhile (· != 0)).length (maxend - (out.length + 1))
    .ok (out ++ n.toUInt8 :: (s.takeWhile (· != 0)).take n)
  | .progmemBuffer, .buffer data | .buffer, .buffer data =>
    let v := min data.length (maxend - out.length)
    .ok (out ++ v.toUInt8 :: data.take v)
  | _, _ => .error "Message encode error"

/-- The parameter loop of `command_encodef`: before each parameter the message must not have
    passed `maxend`. -/
def encodeParams (maxend : Nat) :
    List ParamType → List SendArg → List UInt8 → Except String (List UInt8)
  | [], _, out => .ok out
  | t :: ts, args, out =>
    if maxend < out.length then .error "Message encode error"
    else
      match args with
      | a :: as =>
        match encodeParam maxend out t a with
        | .ok out' => encodeParams maxend ts as out'
        | .error e => .error e
      | [] => .error "Message encode error"

/-- `command_encodef` for an encoder with `max_size`, `encoded_msgid` and `param_types`: the
    message from `buf[MESSAGE_HEADER_SIZE]` on.  An ack or nak encoder (`max_size` of
    `MESSAGE_MIN`) has an empty message. -/
def commandEncodef (maxSize : Nat) (encodedMsgid : UInt16) (paramTypes : List ParamType)
    (args : List SendArg) : Except String (List UInt8) :=
  if maxSize ≤ messageMin then .ok []
  else encodeParams (maxSize - messageMin) paramTypes args (encodeMsgid encodedMsgid)

/-- `crc16_ccitt` of `src/generic/crc16_ccitt.c`, the same code as the host's
    `msgblock_crc16_ccitt`. -/
def crc16Ccitt (buf : List UInt8) : UInt16 := msgblockCrc16Ccitt buf

/-- `command_add_frame`: the block around message `msg`, with the byte `next_sequence`. -/
def commandAddFrame (nextSequence : UInt8) (msg : List UInt8) : List UInt8 :=
  let head := [(msg.length + messageMin).toUInt8, nextSequence]
  let crc := crc16Ccitt (head ++ msg)
  head ++ msg ++ [(crc >>> 8).toUInt8, crc.toUInt8, messageSync]

/-- `command_encode_and_frame` -/
def commandEncodeAndFrame (nextSequence : UInt8) (maxSize : Nat) (encodedMsgid : UInt16)
    (paramTypes : List ParamType) (args : List SendArg) : Except String (List UInt8) :=
  (commandEncodef maxSize encodedMsgid paramTypes args).map (commandAddFrame nextSequence)

/-! ## The host's parser -/

/-- A value `MessageFormat.parse` returns: a Python `int` or `bytes`. -/
inductive PyValue
  | int (v : Int)
  | bytes (b : List Int)
deriving DecidableEq, Repr

/-- `t.parse(s, pos)` for the `MessageTypes` entry of each parameter type; `none` where Python
    raises `IndexError`. -/
def ptParse (t : ParamType) (s : List Int) (pos : Nat) : Option (PyValue × Nat) :=
  match t with
  | .uint32 | .uint16 | .byte | .int32 | .int16 =>
    (ptUint32Parse t.signed s pos).map fun r => (.int r.1, r.2)
  | .string | .progmemBuffer | .buffer =>
    s[pos]?.map fun l => (.bytes ((s.drop (pos + 1)).take l.toNat), pos + l.toNat + 1)

/-- The parameter loop of `MessageFormat.parse`. -/
def parseParams : List ParamType → List Int → Nat → Option (List PyValue × Nat)
  | [], _, pos => some ([], pos)
  | t :: ts, s, pos =>
    (ptParse t s pos).bind fun r => (parseParams ts s r.2).map fun rs => (r.1 :: rs.1, rs.2)

/-- `MessageFormat.parse(s, pos)`: skip the message id, then parse each parameter. -/
def messageFormatParse (msgidBytes : List Int) (paramTypes : List ParamType) (s : List Int)
    (pos : Nat) : Option (List PyValue × Nat) :=
  parseParams paramTypes s (pos + msgidBytes.length)

/-! ## Reading integer parameters back -/

/-- What the host reads for an integer argument `v` of type `t`: `PT_uint32.parse` gives the
    unsigned value, `PT_int32.parse` the signed value unless it is below `-2^26`. -/
def intReading (t : ParamType) (v : UInt32) : PyValue :=
  .int (if t.signed ∧ -2 ^ 26 ≤ v.toBitVec.toInt then v.toBitVec.toInt else (v.toNat : Int))

theorem encodeParam_int {maxend : Nat} {out : List UInt8} {t : ParamType} (ht : t.IsInt)
    (v : UInt32) : encodeParam maxend out t (.int v) = .ok (out ++ encodeInt v) := by
  cases t <;> first | rfl | exact absurd ht id

/-- One integer parameter read back, wherever it stands in the block. -/
theorem ptParse_encodeInt {t : ParamType} (ht : t.IsInt) (v : UInt32) (pre rest : List Int) :
    ptParse t (pre ++ byteValues (encodeInt v) ++ rest) pre.length =
      some (intReading t v, pre.length + (encodeInt v).length) := by
  have h := ptUint32Parse_encodeInt t.signed v pre rest
  cases t <;> first | exact absurd ht id | (simp only [ptParse]; rw [h]; rfl)

/-- The encoder only appends to the message. -/
theorem encodeParam_prefix {maxend : Nat} {out out' : List UInt8} {t : ParamType} {a : SendArg}
    (h : encodeParam maxend out t a = .ok out') : ∃ w, out' = out ++ w := by
  cases t <;> cases a <;> simp only [encodeParam, Except.ok.injEq, reduceCtorEq] at h <;>
    exact ⟨_, h.symm⟩

theorem encodeParams_prefix {maxend : Nat} :
    ∀ {ts : List ParamType} {args : List SendArg} {out body : List UInt8},
      encodeParams maxend ts args out = .ok body → ∃ w, body = out ++ w
  | [], _, out, body, h => by
    cases h
    exact ⟨[], by simp⟩
  | t :: ts, [], out, body, h => by
    rw [encodeParams] at h
    split_ifs at h
  | t :: ts, a :: as, out, body, h => by
    rw [encodeParams] at h
    split_ifs at h
    split at h
    · rename_i out' hp
      obtain ⟨w1, rfl⟩ := encodeParam_prefix hp
      obtain ⟨w2, rfl⟩ := encodeParams_prefix h
      exact ⟨w1 ++ w2, by simp⟩
    · cases h

/-- **Integer parameters read back.**  The parameters of a message of integer arguments, as
    `command_encodef` writes them after the message so far `out`, are read by
    `MessageFormat.parse` as their readings, ending where the message ends. -/
theorem parseParams_encodeParams_ints {maxend : Nat} :
    ∀ (ts : List ParamType) (vs : List UInt32) (out body : List UInt8) (pre rest : List Int),
      (∀ t ∈ ts, t.IsInt) → encodeParams maxend ts (vs.map .int) out = .ok body →
      parseParams ts (pre ++ byteValues body ++ rest) (pre.length + out.length) =
        some (List.zipWith intReading ts vs, pre.length + body.length)
  | [], vs, out, body, pre, rest, _, h => by
    cases h
    rfl
  | t :: ts, [], out, body, pre, rest, _, h => by
    rw [List.map_nil, encodeParams] at h
    split_ifs at h
  | t :: ts, v :: vs, out, body, pre, rest, hts, h => by
    have ht := hts t List.mem_cons_self
    rw [List.map_cons, encodeParams] at h
    split_ifs at h
    rw [encodeParam_int ht] at h
    obtain ⟨w, rfl⟩ := encodeParams_prefix h
    -- the first parameter, then the rest from where it ends
    have ih := parseParams_encodeParams_ints ts vs (out ++ encodeInt v) _ pre rest
      (fun t' h' => hts t' (List.mem_cons_of_mem _ h')) h
    have hfirst := ptParse_encodeInt ht v (pre ++ byteValues out) (byteValues w ++ rest)
    have hbytes : pre ++ byteValues out ++ byteValues (encodeInt v) ++ (byteValues w ++ rest) =
        pre ++ byteValues (out ++ encodeInt v ++ w) ++ rest := by
      simp [byteValues]
    have hlen : (pre ++ byteValues out).length = pre.length + out.length := by
      simp [byteValues]
    rw [hbytes, hlen] at hfirst
    have hpos : pre.length + out.length + (encodeInt v).length =
        pre.length + (out ++ encodeInt v).length := by
      simp only [List.length_append]
      omega
    rw [parseParams, hfirst, Option.bind_some, hpos, ih]
    rfl

/-- **A response of integer parameters read back.**  A block of `command_encode_and_frame` for a
    format of integer parameters is read by the host's `MessageFormat.parse` of that format as
    the readings of its arguments, ending just before the trailer.  Only the length of the
    host's message id bytes matters to the parse. -/
theorem messageFormatParse_commandEncodeAndFrame_ints {nextSequence : UInt8} {maxSize : Nat}
    {encodedMsgid : UInt16} {ts : List ParamType} {vs : List UInt32} {block : List UInt8}
    (hts : ∀ t ∈ ts, t.IsInt) (hmax : messageMin < maxSize)
    (h : commandEncodeAndFrame nextSequence maxSize encodedMsgid ts (vs.map .int) = .ok block)
    {msgidBytes : List Int} (hid : msgidBytes.length = (encodeMsgid encodedMsgid).length) :
    messageFormatParse msgidBytes ts (byteValues block) messageHeaderSize =
      some (List.zipWith intReading ts vs, block.length - messageTrailerSize) := by
  unfold commandEncodeAndFrame at h
  cases hb : commandEncodef maxSize encodedMsgid ts (vs.map .int) with
  | error e =>
    rw [hb] at h
    cases h
  | ok body =>
    rw [hb] at h
    cases h
    rw [commandEncodef, if_neg (by omega)] at hb
    -- the block is the header, the message and the trailer
    let head := [(body.length + messageMin).toUInt8, nextSequence]
    let crc := crc16Ccitt (head ++ body)
    have hblock : byteValues (commandAddFrame nextSequence body) =
        byteValues head ++ byteValues body ++
          byteValues [(crc >>> 8).toUInt8, crc.toUInt8, messageSync] := by
      simp [commandAddFrame, byteValues, head, crc]
    have hparse := parseParams_encodeParams_ints ts vs (encodeMsgid encodedMsgid) body
      (byteValues head) (byteValues [(crc >>> 8).toUInt8, crc.toUInt8, messageSync]) hts hb
    have hpos : messageHeaderSize + msgidBytes.length =
        (byteValues head).length + (encodeMsgid encodedMsgid).length := by
      simp [byteValues, head, messageHeaderSize, hid]
    have hend : (byteValues head).length + body.length =
        (commandAddFrame nextSequence body).length - messageTrailerSize := by
      simp [commandAddFrame, byteValues, head, messageTrailerSize]
      omega
    rw [messageFormatParse, hblock, hpos, hparse, hend]

/-- The length of `encode_int` of a byte-sized value: one or two bytes. -/
theorem encodeInt_length_of_lt {v : UInt32} (hv : v.toNat < 256) : (encodeInt v).length ≤ 2 := by
  have hsv : v.toBitVec.toInt = v.toNat := by
    rcases toInt_cases v with ⟨_, h⟩ | ⟨h1, _⟩
    · exact h
    · omega
  unfold encodeInt
  dsimp only
  rw [hsv]
  split_ifs <;> simp_all <;> omega

/-- **`stepper_position` below `-2^26`.**  `stepper.c` reports a stepper's position with
    `sendf("stepper_position oid=%c pos=%i", oid, position - POSITION_BIAS)` (`max_size` 13 for
    a one-byte message id).  For every position below `-2^26` the host's parser returns the
    unsigned value, `2^32` more than the position sent. -/
theorem stepperPosition_pos_below (nextSequence : UInt8) (encodedMsgid : UInt16) (oid pos : UInt32)
    (hid : encodedMsgid < 0x80) (hoid : oid.toNat < 256) (hpos : pos.toBitVec.toInt < -2 ^ 26) :
    ∃ block, commandEncodeAndFrame nextSequence 13 encodedMsgid [.byte, .int32]
        [.int oid, .int pos] = .ok block ∧
      messageFormatParse (byteValues (encodeMsgid encodedMsgid)) [.byte, .int32] (byteValues block)
        messageHeaderSize = some ([.int oid.toNat, .int (pos.toBitVec.toInt + 2 ^ 32)],
          block.length - messageTrailerSize) := by
  have hmsgid : encodeMsgid encodedMsgid = [(encodedMsgid &&& 0x7f).toUInt8] := by
    have hid' : ¬encodedMsgid ≥ 0x80 := by
      rw [ge_iff_le, UInt16.le_iff_toNat_le]
      rw [UInt16.lt_iff_toNat_lt] at hid
      exact Nat.not_le.mpr hid
    simp only [encodeMsgid, if_neg hid', List.nil_append]
  have hlen := encodeInt_length_of_lt hoid
  -- the encoder's room checks pass: the message is at most 8 bytes
  have hbody : commandEncodef 13 encodedMsgid [.byte, .int32] [.int oid, .int pos] =
      .ok (encodeMsgid encodedMsgid ++ encodeInt oid ++ encodeInt pos) := by
    rw [commandEncodef, if_neg (by decide)]
    simp only [encodeParams, encodeParam_int (t := .byte) trivial,
      encodeParam_int (t := .int32) trivial, hmsgid, List.length_append, List.length_singleton,
      messageMin]
    rw [if_neg (by decide), if_neg (by omega)]
  have hread : intReading .int32 pos = .int (pos.toBitVec.toInt + 2 ^ 32) := by
    have hn := toInt_cases pos
    simp only [intReading, ParamType.signed, true_and]
    rw [if_neg (by omega)]
    congr 1
    omega
  have hframe : commandEncodeAndFrame nextSequence 13 encodedMsgid [.byte, .int32]
      ([oid, pos].map .int) =
        .ok (commandAddFrame nextSequence (encodeMsgid encodedMsgid ++ encodeInt oid ++ encodeInt pos)) := by
    rw [commandEncodeAndFrame, List.map_cons, List.map_cons, List.map_nil, hbody]
    rfl
  have hints : ∀ t ∈ [ParamType.byte, .int32], t.IsInt := by
    intro t ht
    simp only [List.mem_cons, List.not_mem_nil, or_false] at ht
    rcases ht with rfl | rfl <;> trivial
  refine ⟨_, hframe, ?_⟩
  rw [@messageFormatParse_commandEncodeAndFrame_ints nextSequence 13 encodedMsgid _ [oid, pos] _
    hints (by decide) hframe (byteValues (encodeMsgid encodedMsgid)) (by simp [byteValues])]
  simp only [List.zipWith_cons_cons, List.zipWith_nil_left, hread]
  rfl

theorem stepperPosition_pos_int32_min :
    ∃ block, commandEncodeAndFrame 0x10 13 0x3a [.byte, .int32] [.int 0, .int 0x80000000] =
        .ok block ∧
      messageFormatParse (byteValues (encodeMsgid 0x3a)) [.byte, .int32] (byteValues block)
        messageHeaderSize = some ([.int (0 : UInt32).toNat,
          .int ((0x80000000 : UInt32).toBitVec.toInt + 2 ^ 32)], block.length - messageTrailerSize) :=
  stepperPosition_pos_below 0x10 0x3a 0 0x80000000 (by decide) (by decide) (by decide)

/-! ## Room for a message

`build_parser` of `scripts/buildcommands.py` gives each response the `max_size` that
`console_sendf` reserves in `transmit_buf`.  `command_encodef` checks the room only before each
parameter: an integer can then add its five bytes, and a string or buffer may end one byte past
`maxend`, after its length byte.  So a message ends at most five bytes past `max_size`
(`commandEncodef_length_le`), and a response whose last parameter is a long buffer ends one
byte past it. -/

/-- `max_length` of the host's parameter types (`msgproto.py`). -/
def ParamType.maxLength : ParamType → Nat
  | .uint32 | .int32 => 5
  | .uint16 | .int16 => 3
  | .byte => 2
  | .string | .progmemBuffer | .buffer => 64

/-- The `max_size` that `build_parser` writes for a response or output format. -/
def buildParserMaxSize (encodedMsgid : Nat) (paramTypes : List ParamType) : Nat :=
  let msgidSize := if encodedMsgid ≥ 0x80 then 2 else 1
  min messageMax (messageMin + msgidSize + (paramTypes.map ParamType.maxLength).sum)

theorem encodeInt_length_le (v : UInt32) : (encodeInt v).length ≤ 5 := by
  unfold encodeInt
  dsimp only
  split_ifs <;> simp

/-- One parameter written from at or before `maxend` ends at most five bytes past it. -/
theorem encodeParam_length_le {maxend : Nat} {out out' : List UInt8} {t : ParamType}
    {a : SendArg} (hout : out.length ≤ maxend) (h : encodeParam maxend out t a = .ok out') :
    out'.length ≤ maxend + 5 := by
  have hint := encodeInt_length_le
  cases t <;> cases a <;> simp only [encodeParam, Except.ok.injEq, reduceCtorEq] at h <;>
    subst h <;> simp only [List.length_append, List.length_cons, List.length_take] <;>
    first | (have hv := hint ‹_›; omega) | omega

/-- The parameter loop ends at most five bytes past `maxend`, or where it started. -/
theorem encodeParams_length_le {maxend : Nat} :
    ∀ {ts : List ParamType} {args : List SendArg} {out body : List UInt8},
      encodeParams maxend ts args out = .ok body → body.length ≤ max out.length (maxend + 5)
  | [], _, out, body, h => by
    cases h
    exact le_max_left _ _
  | t :: ts, [], out, body, h => by
    rw [encodeParams] at h
    split_ifs at h
  | t :: ts, a :: as, out, body, h => by
    rw [encodeParams] at h
    split_ifs at h with hroom
    split at h
    · rename_i out' hp
      -- the room check passed, so the next parameter starts at or before `maxend`
      have h1 := encodeParam_length_le (Nat.le_of_not_lt hroom) hp
      have h2 := encodeParams_length_le h
      omega
    · cases h

/-- **What `command_encodef` guarantees.**  The message length it returns is at most five bytes
    past `max_size`, when the message id fits the room. -/
theorem commandEncodef_length_le {maxSize : Nat} {encodedMsgid : UInt16}
    {paramTypes : List ParamType} {args : List SendArg} {body : List UInt8}
    (hid : (encodeMsgid encodedMsgid).length + messageMin ≤ maxSize)
    (h : commandEncodef maxSize encodedMsgid paramTypes args = .ok body) :
    body.length + messageMin ≤ maxSize + 5 := by
  unfold commandEncodef at h
  split_ifs at h with hack
  · cases h
    rw [List.length_nil]
    omega
  · have := encodeParams_length_le h
    omega

/-- The frame `command_encode_and_frame` writes is at most five bytes past `max_size`, which is
    all `console_sendf` may rely on. -/
theorem commandEncodeAndFrame_length_le {nextSequence : UInt8} {maxSize : Nat}
    {encodedMsgid : UInt16} {paramTypes : List ParamType} {args : List SendArg}
    {frame : List UInt8} (hid : (encodeMsgid encodedMsgid).length + messageMin ≤ maxSize)
    (h : commandEncodeAndFrame nextSequence maxSize encodedMsgid paramTypes args = .ok frame) :
    frame.length ≤ maxSize + 5 := by
  unfold commandEncodeAndFrame at h
  cases hb : commandEncodef maxSize encodedMsgid paramTypes args with
  | error e => rw [hb] at h; cases h
  | ok body =>
    rw [hb] at h
    cases h
    have := commandEncodef_length_le hid hb
    simp only [commandAddFrame, List.length_append, List.length_cons, List.length_nil,
      messageMin] at this ⊢
    omega

/-- `identify_response offset=%u data=%.*s` (message id 0, `max_size` 64) sent by
    `command_identify` for `identify offset=0 count=57`: the message is 65 bytes, one past
    `max_size` and past `MESSAGE_MAX`, and its sync byte lands at `buf[64]`. -/
theorem identify_response_overrun :
    buildParserMaxSize 0 [.uint32, .progmemBuffer] = 64 ∧
      ∃ body, commandEncodef 64 0 [.uint32, .progmemBuffer]
          [.int 0, .buffer (List.replicate 57 0)] = .ok body ∧
        body.length + messageMin = 65 ∧
        (commandAddFrame 0x10 body).getD 64 0 = messageSync := by
  refine ⟨by decide, _, rfl, by decide, by decide⟩

end Klipper.Command
