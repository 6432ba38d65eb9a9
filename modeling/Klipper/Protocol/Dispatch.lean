import Mathlib
import Klipper.Lib.LittleEndian
import Klipper.Protocol.FrameScan

/-
  Commands from the host to the MCU: `MessageFormat.encode` of `klippy/msgproto.py` on the host,
  and `command_dispatch` of `src/command.c` on the MCU, which runs the handler of each command
  in a block the MCU accepted.

  The host writes a command as its message id and its parameters, each as its `MessageTypes`
  entry encodes it: an integer as one VLQ (`PT_uint32.encode`), a buffer as its length byte and
  its bytes.  `serialqueue` puts messages one after another into a block (`fillBlock`).  The MCU
  reads the id with `command_parse_msgid`, which knows only the one- and two-byte forms, looks
  up its parser in `command_index`, and `command_parsef` reads the arguments: integers with
  `parse_int`, and a buffer as its length and a pointer into the block.  Before each parameter
  the position must not have passed the end of the message (`maxend`), nor may a buffer reach
  past it; either shuts the MCU down.

  1. **Safety** (`command_dispatch_within_block`): on any frame the MCU accepts, whatever its
     payload, `command_dispatch` reads no byte outside the block.  `parse_int` does not check the
     end of the message: it stops at the first byte below `0x80`, and the last byte of a frame is
     `MESSAGE_SYNC` (`0x7e`).  The id is read only while the message has not ended, and a
     buffer's length byte only before `maxend`, so the trailer stops every read.
  2. **Round trip** (`command_dispatch_host_commands`): a block of commands the host encoded
     reaches the handlers one command at a time, in order, each with the arguments the host
     gave, integers modulo `2^32` and buffers byte for byte.  `sched_is_shutdown()` is read
     before each command, so a handler that clears the shutdown (`clear_shutdown`) lets the
     commands after it in the block run, and one that shuts the MCU down ends the block, whose
     handlers are a parameter of the model.  The conditions are what the two
     ends need to agree: ids from 1 to `0x2fff` (the host writes `0x3000` and up in three
     bytes, which `command_parse_msgid` does not read), only integer and buffer parameters
     (`command_parsef` has no case for `PT_string` and `PT_progmem_buffer`), integers that
     `PT_uint32.encode` writes as a VLQ, and a payload that fits a block.
-/

namespace Klipper.Dispatch

open Vlq MsgBlock Command FrameScan

/-! ## The MCU -/

/-- An argument as a handler receives it: the value `parse_int` read, or a buffer's length and
    the bytes its pointer points at in the block. -/
inductive Arg
  | int (v : UInt32)
  | buffer (data : List UInt8)
deriving DecidableEq, Repr

/-- How `command_dispatch` stops short: `shutdown(msg)`, or a read past the end of the block it
    was given. -/
inductive DispatchError
  | shutdown (msg : String)
  | outOfBlock
deriving DecidableEq, Repr

/-- The entry of `command_index` for a command: its parameter types, and whether its `flags`
    have `HF_IN_SHUTDOWN`. -/
structure CommandParser where
  paramTypes : List ParamType
  inShutdown : Bool
deriving DecidableEq, Repr

/-- What `command_dispatch` does with one command: call its handler with the arguments, or,
    after a shutdown, `sched_report_shutdown()` for a handler not allowed then. -/
inductive Effect
  | call (cmdid : Nat) (args : List Arg)
  | reportShutdown
deriving DecidableEq, Repr

/-- `command_parse_msgid` on the bytes from `p` on: one byte, or two when the first has bit 7
    set. -/
def commandParseMsgid : List UInt8 → Except DispatchError (Nat × List UInt8)
  | [] => .error .outOfBlock
  | c :: rest =>
    if c &&& 0x80 = 0 then .ok (c.toNat, rest)
    else
      match rest with
      | [] => .error .outOfBlock
      | d :: rest => .ok ((c &&& 0x7f).toNat <<< 7 ||| d.toNat, rest)

/-- `parse_int`, which reads past the block when the block ends inside a number. -/
def parseIntIn (p : List UInt8) : Except DispatchError (UInt32 × List UInt8) :=
  match parseInt p with
  | some r => .ok r
  | none => .error .outOfBlock

/-- `command_parsef` on the bytes of the block from `p` on, trailer included, so that `p` has
    passed `maxend`, the end of the message, when fewer than `MESSAGE_TRAILER_SIZE` bytes are
    left. -/
def commandParsef : List ParamType → List UInt8 → Except DispatchError (List Arg × List UInt8)
  | [], p => .ok ([], p)
  | t :: ts, p =>
    if p.length < messageTrailerSize then .error (.shutdown "Command parser error")
    else
      match t with
      | .uint32 | .int32 | .uint16 | .int16 | .byte =>
        match parseIntIn p with
        | .ok (v, p) => (commandParsef ts p).map fun r => (.int v :: r.1, r.2)
        | .error e => .error e
      | .buffer =>
        match p with
        | [] => .error .outOfBlock
        | len :: p =>
          if p.length < len.toNat + messageTrailerSize then
            .error (.shutdown "Command parser error")
          else (commandParsef ts (p.drop len.toNat)).map fun r =>
            (.buffer (p.take len.toNat) :: r.1, r.2)
      | .string | .progmemBuffer => .error (.shutdown "Command parser error")

/-- `command_lookup_parser`: id 0 and ids past `command_index_size` shut down. -/
def commandLookupParser (index : List CommandParser) (cmdid : Nat) :
    Except DispatchError CommandParser :=
  match index[cmdid]? with
  | some cp => if cmdid = 0 then .error (.shutdown "Invalid command") else .ok cp
  | none => .error (.shutdown "Invalid command")

/-- The only way `command_lookup_parser` fails. -/
theorem commandLookupParser_error {index : List CommandParser} {cmdid : Nat} {e : DispatchError}
    (h : commandLookupParser index cmdid = .error e) : e = .shutdown "Invalid command" := by
  unfold commandLookupParser at h
  split at h
  · split_ifs at h
    cases h
    rfl
  · cases h
    rfl

/-! ### Each read moves forward -/

section Forward

/-- The `while (c & 0x80)` loop of `parse_int` takes at least one byte. -/
theorem parseIntLoop_length {v w : UInt32} :
    ∀ {p q : List UInt8}, parseIntLoop v p = some (w, q) → q.length < p.length
  | [], q, h => by simp [parseIntLoop] at h
  | c :: rest, q, h => by
    simp only [parseIntLoop] at h
    split_ifs at h
    · cases h
      simp
    · have := parseIntLoop_length h
      simp only [List.length_cons]
      omega

theorem parseIntIn_length {p q : List UInt8} {v : UInt32} (h : parseIntIn p = .ok (v, q)) :
    q.length < p.length := by
  unfold parseIntIn at h
  rcases hp : parseInt p with _ | ⟨w, q'⟩
  · rw [hp] at h
    cases h
  · rw [hp] at h
    cases h
    cases p with
    | nil => simp [parseInt] at hp
    | cons c rest =>
      simp only [parseInt] at hp
      by_cases hc : c &&& 0x80 = 0
      · rw [if_pos hc] at hp
        cases hp
        simp
      · rw [if_neg hc] at hp
        have := parseIntLoop_length hp
        simp only [List.length_cons]
        omega

theorem commandParseMsgid_length {p q : List UInt8} {cmdid : Nat}
    (h : commandParseMsgid p = .ok (cmdid, q)) : q.length < p.length := by
  match p, h with
  | c :: rest, h =>
    simp only [commandParseMsgid] at h
    split_ifs at h
    · cases h
      simp
    · match rest, h with
      | d :: rest, h =>
        cases h
        simp

theorem commandParsef_length :
    ∀ {ts : List ParamType} {p q : List UInt8} {args : List Arg},
      commandParsef ts p = .ok (args, q) → q.length ≤ p.length
  | [], p, q, args, h => by
    simp only [commandParsef, Except.ok.injEq, Prod.mk.injEq] at h
    rw [h.2]
  | t :: ts, p, q, args, h => by
    simp only [commandParsef] at h
    split_ifs at h
    cases t with
    | uint32 | int32 | uint16 | int16 | byte =>
      rcases hv : parseIntIn p with _ | ⟨v, p'⟩
      · simp [hv] at h
      · simp only [hv] at h
        rcases hr : commandParsef ts p' with _ | ⟨args', q'⟩
        · simp [hr, Except.map] at h
        · simp only [hr, Except.map, Except.ok.injEq, Prod.mk.injEq] at h
          rw [← h.2]
          have := commandParsef_length hr
          have := parseIntIn_length hv
          omega
    | buffer =>
      match p, h with
      | len :: p, h =>
        simp only at h
        split_ifs at h
        rcases hr : commandParsef ts (p.drop len.toNat) with _ | ⟨args', q'⟩
        · simp [hr, Except.map] at h
        · simp only [hr, Except.map, Except.ok.injEq, Prod.mk.injEq] at h
          rw [← h.2]
          have := commandParsef_length hr
          simp only [List.length_drop, List.length_cons] at this ⊢
          omega
    | string | progmemBuffer => cases h

end Forward

/-- What the handlers do to the shutdown status: for a command id, its arguments and
    `sched_is_shutdown()`, the status after the handler, or `none` when it calls `shutdown()`,
    which jumps out of `command_dispatch` to the shutdown code. -/
abbrev Handlers := Nat → List Arg → Bool → Option Bool

/-- The loop of `command_dispatch` over the bytes of the block from `p` on: while `p` is before
    `msgend`, read an id, look up its parser, parse the arguments, and, with `isShutdown` the
    value of `sched_is_shutdown()` at that point, report the shutdown for a handler not allowed
    then or run the handler, which may change the status for the commands after it. -/
def commandDispatchLoop (index : List CommandParser) (run : Handlers) (isShutdown : Bool)
    (p : List UInt8) : Except DispatchError (List Effect) :=
  if p.length ≤ messageTrailerSize then .ok []
  else
    match _h1 : commandParseMsgid p with
    | .error e => .error e
    | .ok (cmdid, p1) =>
      match commandLookupParser index cmdid with
      | .error e => .error e
      | .ok cp =>
        match _h2 : commandParsef cp.paramTypes p1 with
        | .error e => .error e
        | .ok (args, p2) =>
          if isShutdown && !cp.inShutdown then
            (commandDispatchLoop index run isShutdown p2).map (.reportShutdown :: ·)
          else
            match run cmdid args isShutdown with
            | some s => (commandDispatchLoop index run s p2).map (.call cmdid args :: ·)
            | none => .ok [.call cmdid args]
termination_by p.length
decreasing_by
  all_goals
    have := commandParseMsgid_length _h1
    have := commandParsef_length _h2
    omega

/-- `command_dispatch(buf, msglen)` on a block of `msglen` bytes. -/
def commandDispatch (index : List CommandParser) (run : Handlers) (isShutdown : Bool)
    (block : List UInt8) : Except DispatchError (List Effect) :=
  commandDispatchLoop index run isShutdown (block.drop messageHeaderSize)

/-! ## The host -/

/-- `t.encode(out, v)` for the `MessageTypes` entry of `t`; `none` where Python raises (an
    integer has no `len`, bytes do not compare with an integer). -/
def ptEncode (t : ParamType) (out : List Int) : PyValue → Option (List Int)
  | .int v =>
    match t with
    | .uint32 | .int32 | .uint16 | .int16 | .byte => some (ptUint32Encode out v)
    | .string | .progmemBuffer | .buffer => none
  | .bytes b =>
    match t with
    | .string | .progmemBuffer | .buffer => some (out ++ (b.length : Int) :: b)
    | .uint32 | .int32 | .uint16 | .int16 | .byte => none

/-- The parameter loop of `MessageFormat.encode`: `t.encode(out, params[i])` for each type;
    `none` is the `IndexError` of a missing parameter. -/
def encodeParamsPy : List ParamType → List PyValue → List Int → Option (List Int)
  | [], _, out => some out
  | _ :: _, [], _ => none
  | t :: ts, v :: vs, out => (ptEncode t out v).bind (encodeParamsPy ts vs)

/-- `MessageFormat.encode(params)` for a command whose `msgid_bytes` are
    `PT_int32().encode(msgid)`, as `MessageParser._init_messages` makes them. -/
def messageFormatEncode (msgid : Nat) (paramTypes : List ParamType) (params : List PyValue) :
    Option (List Int) :=
  encodeParamsPy paramTypes params (ptUint32Encode [] msgid)

/-! ## What the handlers receive -/

/-- The argument the MCU should hand over for a parameter the host encoded: an integer modulo
    `2^32`, a buffer's bytes. -/
def mcuArg : PyValue → Arg
  | .int v => .int (v % 2 ^ 32).toNat.toUInt32
  | .bytes b => .buffer (b.map fun x => x.toNat.toUInt8)

/-- A parameter both ends agree on: an integer in the range `PT_uint32.encode` writes as a VLQ,
    for an integer type, or bytes for a buffer. -/
def ParamOk : ParamType → PyValue → Prop
  | .uint32, .int x | .int32, .int x | .uint16, .int x | .int16, .int x | .byte, .int x =>
    -2 ^ 31 ≤ x ∧ x < 2 ^ 32
  | .buffer, .bytes _ => True
  | _, _ => False

/-- A command as the host sends it: its id, the MCU's parser for that id, and its
    parameters. -/
structure HostCommand where
  cmdid : Nat
  parser : CommandParser
  params : List PyValue

/-- What the two ends need to agree on a command: its id is in the MCU's table with this parser
    and below `0x3000`, and each parameter suits its type. -/
structure HostCommand.Ok (index : List CommandParser) (c : HostCommand) : Prop where
  lookup : commandLookupParser index c.cmdid = .ok c.parser
  small : c.cmdid < 0x3000
  params : List.Forall₂ ParamOk c.parser.paramTypes c.params

/-- What `command_dispatch` should do with commands in order, from the shutdown status `s`: report
    the shutdown for a command not allowed then, or run its handler with the host's parameters,
    which sets the status for the next command or ends the block. -/
def HostCommand.effects (run : Handlers) : Bool → List HostCommand → List Effect
  | _, [] => []
  | s, c :: cs =>
    if s && !c.parser.inShutdown then .reportShutdown :: HostCommand.effects run s cs
    else
      match run c.cmdid (c.params.map mcuArg) s with
      | some s' => .call c.cmdid (c.params.map mcuArg) :: HostCommand.effects run s' cs
      | none => [.call c.cmdid (c.params.map mcuArg)]

/-! ### The host's encoding read by the MCU -/

section RoundTrip

/-- The encoders only append to `out`. -/
theorem ptEncode_append (t : ParamType) (out : List Int) (v : PyValue) :
    ptEncode t out v = (ptEncode t [] v).map (out ++ ·) := by
  cases v with
  | int x =>
    cases t <;> simp [ptEncode, ptUint32Encode_append out x]
  | bytes b => cases t <;> simp [ptEncode]

theorem encodeParamsPy_append :
    ∀ (ts : List ParamType) (vs : List PyValue) (out : List Int),
      encodeParamsPy ts vs out = (encodeParamsPy ts vs []).map (out ++ ·)
  | [], vs, out => by simp [encodeParamsPy]
  | _ :: _, [], out => by simp [encodeParamsPy]
  | t :: ts, v :: vs, out => by
    simp only [encodeParamsPy]
    rw [ptEncode_append t out v]
    rcases ptEncode t [] v with _ | e
    · simp
    · simp only [Option.map_some, Option.bind_some]
      rw [encodeParamsPy_append ts vs (out ++ e), encodeParamsPy_append ts vs e]
      rcases encodeParamsPy ts vs [] with _ | e'
      · simp
      · simp [List.append_assoc]

/-- The byte values of a buffer that begins as a list does. -/
theorem byteValues_eq_append {m : List UInt8} {A B : List Int} (h : byteValues m = A ++ B) :
    ∃ m1 m2, m = m1 ++ m2 ∧ byteValues m1 = A ∧ byteValues m2 = B := by
  obtain ⟨m1, m2, rfl, h1, h2⟩ := List.map_eq_append_iff.mp h
  exact ⟨m1, m2, rfl, h1, h2⟩

/-- `command_parse_msgid` reads the id `PT_int32.encode` wrote, in one byte below `0x60` and in
    two up to `0x2fff`. -/
theorem commandParseMsgid_encode {cmdid : Nat} (hsmall : cmdid < 0x3000) {m : List UInt8}
    (hm : byteValues m = ptUint32Encode [] cmdid) (rest : List UInt8) :
    commandParseMsgid (m ++ rest) = .ok (cmdid, rest) := by
  rw [ptUint32Encode_nil, if_neg (by omega), if_neg (by omega), if_neg (by omega)] at hm
  by_cases hone : (cmdid : Int) ≥ 0x60 ∨ (cmdid : Int) < -0x20
  · -- two bytes: the high seven bits with bit 7 set, then the low seven bits
    rw [if_pos hone] at hm
    obtain ⟨b1, m', rfl, h1, hm'⟩ := List.map_eq_cons_iff.mp hm
    obtain ⟨b2, m'', rfl, h2, hm''⟩ := List.map_eq_cons_iff.mp hm'
    obtain rfl := List.map_eq_nil_iff.mp hm''
    have hb1 : b1.toNat = cmdid / 128 + 128 := by omega
    have hb2 : b2.toNat = cmdid % 128 := by omega
    have hset : ¬b1 &&& 0x80 = 0 := by
      rw [uint8_and_0x80]
      omega
    have hlow : (b1 &&& 0x7f).toNat = cmdid / 128 := by
      rw [UInt8.toNat_and, show (0x7f : UInt8).toNat = 2 ^ 7 - 1 from rfl,
        Nat.and_two_pow_sub_one_eq_mod, hb1]
      omega
    simp only [List.cons_append, List.nil_append, commandParseMsgid, if_neg hset]
    rw [hlow, hb2, LittleEndian.or_shiftLeft_eq_add _ _ _ (by omega)]
    congr 2
    omega
  · -- one byte, below `0x60`
    rw [if_neg hone] at hm
    obtain ⟨b, m', rfl, hb, hm'⟩ := List.map_eq_cons_iff.mp hm
    obtain rfl := List.map_eq_nil_iff.mp hm'
    have hclear : b &&& 0x80 = 0 := by
      rw [uint8_and_0x80]
      omega
    simp only [List.cons_append, List.nil_append, commandParseMsgid, if_pos hclear]
    congr 2
    omega

/-- `parse_int` reads an integer parameter modulo `2^32`. -/
theorem parseIntIn_encode {x : Int} (h1 : -2 ^ 31 ≤ x) (h2 : x < 2 ^ 32) {m : List UInt8}
    (hm : byteValues m = ptUint32Encode [] x) (rest : List UInt8) :
    parseIntIn (m ++ rest) = .ok ((x % 2 ^ 32).toNat.toUInt32, rest) := by
  obtain ⟨w, hw, hwv⟩ := parseInt_ptUint32Encode x h1 h2 m rest hm
  have hweq : w = (x % 2 ^ 32).toNat.toUInt32 := by
    apply UInt32.toNat_inj.mp
    rw [Nat.toUInt32_eq, UInt32.toNat_ofNat']
    omega
  unfold parseIntIn
  rw [hw, hweq]

/-- A parameter both ends agree on is an integer of an integer type, or bytes of a buffer. -/
theorem ParamOk.elim {t : ParamType} {v : PyValue} (h : ParamOk t v) :
    (t.IsInt ∧ ∃ x, v = .int x ∧ -2 ^ 31 ≤ x ∧ x < 2 ^ 32) ∨ (t = .buffer ∧ ∃ b, v = .bytes b) := by
  cases t <;> cases v <;> simp_all [ParamOk, ParamType.IsInt]

theorem ptEncode_int {t : ParamType} (ht : t.IsInt) (out : List Int) (x : Int) :
    ptEncode t out (.int x) = some (ptUint32Encode out x) := by
  cases t <;> simp_all [ParamType.IsInt, ptEncode]

/-- `command_parsef` at an integer parameter, once `parse_int` has read it. -/
theorem commandParsef_int {t : ParamType} (ht : t.IsInt) (ts : List ParamType)
    {p q : List UInt8} {w : UInt32} (hlong : messageTrailerSize ≤ p.length)
    (hp : parseIntIn p = .ok (w, q)) :
    commandParsef (t :: ts) p = (commandParsef ts q).map fun r => (.int w :: r.1, r.2) := by
  have hnot : ¬p.length < messageTrailerSize := Nat.not_lt.mpr hlong
  cases t <;> simp only [ParamType.IsInt] at ht <;> simp only [commandParsef, if_neg hnot, hp]

/-- `command_parsef` reads back the parameters the host encoded, up to the bytes after them, when
    the trailer follows. -/
theorem commandParsef_encode :
    ∀ {ts : List ParamType} {vs : List PyValue}, List.Forall₂ ParamOk ts vs →
      ∀ {m : List UInt8} {e : List Int} (rest : List UInt8), encodeParamsPy ts vs [] = some e →
        byteValues m = e → messageTrailerSize ≤ rest.length →
        commandParsef ts (m ++ rest) = .ok (vs.map mcuArg, rest)
  | [], [], .nil, m, e, rest, he, hm, _ => by
    simp only [encodeParamsPy, Option.some.injEq] at he
    subst he
    obtain rfl : m = [] := List.map_eq_nil_iff.mp hm
    simp [commandParsef]
  | t :: ts, v :: vs, .cons hv hvs, m, e, rest, he, hm, hrest => by
    simp only [encodeParamsPy] at he
    have hlong : messageTrailerSize ≤ (m ++ rest).length := by simp; omega
    rcases hv.elim with ⟨ht, x, rfl, hx1, hx2⟩ | ⟨rfl, b, rfl⟩
    · -- an integer: one VLQ
      rw [ptEncode_int ht, Option.bind_some, encodeParamsPy_append] at he
      obtain ⟨e', he', rfl⟩ := Option.map_eq_some_iff.mp he
      obtain ⟨m1, m2, rfl, hm1, hm2⟩ := byteValues_eq_append hm
      rw [List.append_assoc] at hlong ⊢
      rw [commandParsef_int ht ts hlong (parseIntIn_encode hx1 hx2 hm1 _),
        commandParsef_encode hvs rest he' hm2 hrest]
      rfl
    · -- a buffer: its length byte, then its bytes
      simp only [ptEncode, Option.bind_some, List.nil_append] at he
      rw [encodeParamsPy_append] at he
      obtain ⟨e', he', rfl⟩ := Option.map_eq_some_iff.mp he
      obtain ⟨m1, m2, rfl, hm1, hm2⟩ := byteValues_eq_append hm
      obtain ⟨len, data, rfl, hlen, hdata⟩ := List.map_eq_cons_iff.mp hm1
      have hdl : data.length = len.toNat := by
        have := congrArg List.length hdata
        simp only [List.length_map] at this
        omega
      have hbuf : ¬(data ++ (m2 ++ rest)).length < len.toNat + messageTrailerSize := by
        simp only [List.length_append]
        omega
      have hdrop : (data ++ (m2 ++ rest)).drop len.toNat = m2 ++ rest := by
        rw [← hdl, List.drop_left]
      have htake : (data ++ (m2 ++ rest)).take len.toNat = data := by
        rw [← hdl, List.take_left]
      have hbytes : b.map (fun x => x.toNat.toUInt8) = data := by
        rw [← hdata]
        simp [Function.comp_def, UInt8.ofNat_toNat]
      have hnot : ¬(len :: (data ++ (m2 ++ rest))).length < messageTrailerSize := by
        simp only [List.cons_append, List.append_assoc] at hlong
        omega
      simp only [commandParsef, List.cons_append, List.append_assoc, if_neg hnot, if_neg hbuf,
        hdrop, htake, commandParsef_encode hvs rest he' hm2 hrest, Except.map, List.map_cons,
        mcuArg, hbytes]

/-- One round of the loop of `command_dispatch`, once the id, the parser and the arguments are
    read. -/
theorem commandDispatchLoop_step {index : List CommandParser} {run : Handlers}
    {isShutdown : Bool} {p p1 p2 : List UInt8} {cmdid : Nat} {cp : CommandParser}
    {args : List Arg} (hlong : messageTrailerSize < p.length)
    (hid : commandParseMsgid p = .ok (cmdid, p1)) (hcp : commandLookupParser index cmdid = .ok cp)
    (hargs : commandParsef cp.paramTypes p1 = .ok (args, p2)) :
    commandDispatchLoop index run isShutdown p =
      if isShutdown && !cp.inShutdown then
        (commandDispatchLoop index run isShutdown p2).map (.reportShutdown :: ·)
      else
        match run cmdid args isShutdown with
        | some s => (commandDispatchLoop index run s p2).map (.call cmdid args :: ·)
        | none => .ok [.call cmdid args] := by
  rw [commandDispatchLoop, if_neg (Nat.not_le.mpr hlong)]
  split
  · rename_i e he
    rw [hid] at he
    cases he
  rename_i cmdid' p1' he
  rw [hid] at he
  cases he
  simp only [hcp]
  split
  · rename_i e he
    rw [hargs] at he
    cases he
  rename_i args' p2' he
  rw [hargs] at he
  cases he
  rfl

/-- The bytes of a message are what `MessageFormat.encode` gives for the command. -/
def HostCommand.Encodes (c : HostCommand) (m : List UInt8) : Prop :=
  messageFormatEncode c.cmdid c.parser.paramTypes c.params = some (byteValues m)

/-- The loop of `command_dispatch` over messages the host encoded, up to the trailer, runs their
    commands in order, from any shutdown status.  The induction is on the messages; each round is
    `commandDispatchLoop_step` with the id and the arguments read back. -/
theorem commandDispatchLoop_encode (index : List CommandParser) (run : Handlers)
    (trailer : List UInt8) (htrailer : trailer.length = messageTrailerSize) :
    ∀ {cmds : List HostCommand} {msgs : List (List UInt8)} (s : Bool), (∀ c ∈ cmds, c.Ok index) →
      List.Forall₂ HostCommand.Encodes cmds msgs →
      commandDispatchLoop index run s (msgs.flatten ++ trailer) = .ok (HostCommand.effects run s cmds)
  | [], [], s, _, .nil => by
    rw [commandDispatchLoop, if_pos (by simp [htrailer])]
    rfl
  | c :: cmds, m :: msgs, s, hok, .cons hm hms => by
    have hc := hok c List.mem_cons_self
    -- the message is the id's bytes, then the parameters'
    unfold HostCommand.Encodes messageFormatEncode at hm
    rw [encodeParamsPy_append] at hm
    obtain ⟨e, he, hbytes⟩ := Option.map_eq_some_iff.mp hm
    obtain ⟨m1, m2, rfl, hm1, hm2⟩ := byteValues_eq_append hbytes.symm
    have hrest : messageTrailerSize ≤ (msgs.flatten ++ trailer).length := by simp [htrailer]
    have hid := commandParseMsgid_encode hc.small hm1 (m2 ++ (msgs.flatten ++ trailer))
    have hargs := commandParsef_encode hc.params (msgs.flatten ++ trailer) he hm2 hrest
    have hlong : messageTrailerSize <
        (m1 ++ (m2 ++ (msgs.flatten ++ trailer))).length := by
      have := commandParseMsgid_length hid
      have := commandParsef_length hargs
      omega
    have ih := fun s' => commandDispatchLoop_encode index run trailer htrailer s'
      (fun c' hc' => hok c' (List.mem_cons_of_mem c hc')) hms
    simp only [List.flatten_cons, List.append_assoc]
    rw [commandDispatchLoop_step hlong hid hc.lookup hargs, HostCommand.effects]
    -- the status read before the command decides between the report and the handler
    split_ifs
    · rw [ih]
      rfl
    · cases run c.cmdid (c.params.map mcuArg) s with
      | none => rfl
      | some s' =>
        dsimp only
        rw [ih]
        rfl

end RoundTrip

/-- The round trip: commands the host encoded, put into one block by `serialqueue`, make a frame
    the MCU accepts, and `command_dispatch` runs each of them in order, with the arguments the
    host gave. -/
theorem command_dispatch_host_commands (index : List CommandParser) (run : Handlers)
    (isShutdown : Bool) (seq : UInt64) (cmds : List HostCommand) (msgs : List (List UInt8))
    (hok : ∀ c ∈ cmds, c.Ok index) (henc : List.Forall₂ HostCommand.Encodes cmds msgs)
    (hfit : msgs.flatten.length ≤ messagePayloadMax) :
    IsFrame (SerialQueue.fillBlock seq msgs.flatten) ∧
      commandDispatch index run isShutdown (SerialQueue.fillBlock seq msgs.flatten) =
        .ok (HostCommand.effects run isShutdown cmds) := by
  refine ⟨isFrame_fillBlock seq hfit, ?_⟩
  unfold commandDispatch SerialQueue.fillBlock
  rw [List.append_assoc, List.drop_left' (by rfl)]
  exact commandDispatchLoop_encode index run _ rfl isShutdown hok henc

/-- `set_digital_out pin=%u value=%c` as id 1, and `clear_shutdown` as id 2 with no parameters,
    allowed in shutdown. -/
def exampleIndex : List CommandParser :=
  [⟨[], false⟩, ⟨[.uint32, .byte], false⟩, ⟨[], true⟩]

/-- The handlers of `exampleIndex`: `clear_shutdown` runs `sched_clear_shutdown`, which shuts the
    MCU down when it was not shut down; `set_digital_out` leaves the status. -/
def exampleRun : Handlers
  | 2, _, s => if s then some false else none
  | _, _, s => some s

/-- In shutdown, a block of `set_digital_out`, `clear_shutdown` and `set_digital_out`: the first
    is reported, the shutdown is cleared, and the third runs. -/
theorem command_dispatch_host_commands_clear :
    IsFrame (SerialQueue.fillBlock 3 ([1, 0x81, 0x10, 1] ++ [2] ++ [1, 0x81, 0x10, 0])) ∧
      commandDispatch exampleIndex exampleRun true
          (SerialQueue.fillBlock 3 ([1, 0x81, 0x10, 1] ++ [2] ++ [1, 0x81, 0x10, 0])) =
        .ok [.reportShutdown, .call 2 [], .call 1 [.int 144, .int 0]] := by
  have h := command_dispatch_host_commands exampleIndex exampleRun true 3
    [⟨1, ⟨[.uint32, .byte], false⟩, [.int 144, .int 1]⟩, ⟨2, ⟨[], true⟩, []⟩,
      ⟨1, ⟨[.uint32, .byte], false⟩, [.int 144, .int 0]⟩]
    [[1, 0x81, 0x10, 1], [2], [1, 0x81, 0x10, 0]]
    (by
      intro c hc
      simp only [List.mem_cons, List.not_mem_nil, or_false] at hc
      rcases hc with rfl | rfl | rfl
      · exact ⟨rfl, by decide, .cons ⟨by decide, by decide⟩ (.cons ⟨by decide, by decide⟩ .nil)⟩
      · exact ⟨rfl, by decide, .nil⟩
      · exact ⟨rfl, by decide, .cons ⟨by decide, by decide⟩ (.cons ⟨by decide, by decide⟩ .nil)⟩)
    (.cons rfl (.cons rfl (.cons rfl .nil))) (by decide)
  exact h

/-! ## Every read stays in the block -/

section Within

/-- The last byte, if any, is below `0x80`: `parse_int` stops there at the latest. -/
def ClearEnd (p : List UInt8) : Prop := ∀ c, p.getLast? = some c → c &&& 0x80 = 0

theorem ClearEnd.of_suffix {p q : List UInt8} (hp : ClearEnd p) (hq : q <:+ p) : ClearEnd q := by
  intro c hc
  obtain ⟨pre, rfl⟩ := hq
  have hne : q ≠ [] := by
    rintro rfl
    simp at hc
  apply hp c
  rw [List.getLast?_append_of_ne_nil _ hne]
  exact hc

/-- The loop of `parse_int` ends inside any bytes with a clear last byte, at a suffix. -/
theorem parseIntLoop_of_clearEnd (v : UInt32) :
    ∀ {p : List UInt8}, p ≠ [] → ClearEnd p → ∃ w q, parseIntLoop v p = some (w, q) ∧ q <:+ p
  | [], hne, _ => absurd rfl hne
  | c :: rest, _, hp => by
    simp only [parseIntLoop]
    by_cases hc : c &&& 0x80 = 0
    · rw [if_pos hc]
      exact ⟨_, _, rfl, List.suffix_cons c rest⟩
    · rw [if_neg hc]
      -- a byte with bit 7 set is not the last one
      have hrest : rest ≠ [] := by
        rintro rfl
        exact hc (hp c rfl)
      have hcl : ClearEnd rest := hp.of_suffix (List.suffix_cons c rest)
      obtain ⟨w, q, hw, hq⟩ := parseIntLoop_of_clearEnd _ hrest hcl
      exact ⟨w, q, hw, hq.trans (List.suffix_cons c rest)⟩

theorem parseIntIn_of_clearEnd {p : List UInt8} (hne : p ≠ []) (hp : ClearEnd p) :
    ∃ w q, parseIntIn p = .ok (w, q) ∧ q <:+ p := by
  obtain ⟨c, rest, rfl⟩ := List.exists_cons_of_ne_nil hne
  unfold parseIntIn
  simp only [parseInt]
  by_cases hc : c &&& 0x80 = 0
  · rw [if_pos hc]
    exact ⟨_, _, rfl, List.suffix_cons c rest⟩
  · rw [if_neg hc]
    have hrest : rest ≠ [] := by
      rintro rfl
      exact hc (hp c rfl)
    obtain ⟨w, q, hw, hq⟩ :=
      parseIntLoop_of_clearEnd _ hrest (hp.of_suffix (List.suffix_cons c rest))
    rw [hw]
    exact ⟨w, q, rfl, hq.trans (List.suffix_cons c rest)⟩

/-- `command_parsef` on bytes with a clear last byte reads none past them, and stops at a
    suffix. -/
theorem commandParsef_within :
    ∀ (ts : List ParamType) {p : List UInt8}, ClearEnd p →
      commandParsef ts p ≠ .error .outOfBlock ∧
        ∀ args q, commandParsef ts p = .ok (args, q) → q <:+ p
  | [], p, _ => by
    refine ⟨by simp [commandParsef], ?_⟩
    intro args q h
    simp only [commandParsef, Except.ok.injEq, Prod.mk.injEq] at h
    rw [← h.2]
  | t :: ts, p, hp => by
    simp only [commandParsef]
    split_ifs with hshort
    · -- past `maxend`: a shutdown, not a read
      exact ⟨by simp, by simp⟩
    have hne : p ≠ [] := by
      rintro rfl
      simp [messageTrailerSize] at hshort
    cases t with
    | uint32 | int32 | uint16 | int16 | byte =>
      obtain ⟨w, p', hw, hsuf⟩ := parseIntIn_of_clearEnd hne hp
      obtain ⟨ih1, ih2⟩ := commandParsef_within ts (hp.of_suffix hsuf)
      simp only [hw]
      refine ⟨?_, ?_⟩
      · rcases hr : commandParsef ts p' with e | r
        · simp only [Except.map]
          rw [hr] at ih1
          intro he
          cases he
          exact ih1 rfl
        · simp [Except.map]
      · intro args q h
        rcases hr : commandParsef ts p' with e | ⟨args', q'⟩
        · simp [hr, Except.map] at h
        · simp only [hr, Except.map, Except.ok.injEq, Prod.mk.injEq] at h
          rw [← h.2]
          exact (ih2 args' q' hr).trans hsuf
    | buffer =>
      obtain ⟨len, p', rfl⟩ := List.exists_cons_of_ne_nil hne
      simp only
      split_ifs with hlong
      · exact ⟨by simp, by simp⟩
      -- the buffer's bytes are skipped: what follows is a suffix
      have hsuf : p'.drop len.toNat <:+ len :: p' :=
        (List.drop_suffix _ _).trans (List.suffix_cons len p')
      obtain ⟨ih1, ih2⟩ := commandParsef_within ts (hp.of_suffix hsuf)
      refine ⟨?_, ?_⟩
      · rcases hr : commandParsef ts (p'.drop len.toNat) with e | r
        · simp only [Except.map]
          rw [hr] at ih1
          intro he
          cases he
          exact ih1 rfl
        · simp [Except.map]
      · intro args q h
        rcases hr : commandParsef ts (p'.drop len.toNat) with e | ⟨args', q'⟩
        · simp [hr, Except.map] at h
        · simp only [hr, Except.map, Except.ok.injEq, Prod.mk.injEq] at h
          rw [← h.2]
          exact (ih2 args' q' hr).trans hsuf
    | string | progmemBuffer => exact ⟨by simp, by simp⟩

/-- What the rest of the block reads is all the loop reads after a command. -/
theorem map_ne_outOfBlock {x : Except DispatchError (List Effect)} (f : List Effect → List Effect)
    (h : x ≠ .error .outOfBlock) : x.map f ≠ .error .outOfBlock := by
  cases x with
  | error e =>
    intro he
    cases he
    exact h rfl
  | ok v => simp [Except.map]

/-- The loop of `command_dispatch` on bytes with a clear last byte reads none past them, from
    any shutdown status. -/
theorem commandDispatchLoop_within (index : List CommandParser) (run : Handlers) :
    ∀ p : List UInt8, ∀ s, ClearEnd p → commandDispatchLoop index run s p ≠ .error .outOfBlock := by
  intro p
  induction p using WellFounded.induction (measure List.length).wf with
  | h p ih =>
    intro s hp
    rw [commandDispatchLoop]
    split_ifs with hend
    · simp
    -- more than the trailer is left, so the id's one or two bytes are there
    obtain ⟨c, d, rest, rfl⟩ : ∃ c d rest, p = c :: d :: rest := by
      rcases p with _ | ⟨c, _ | ⟨d, rest⟩⟩
      · simp [messageTrailerSize] at hend
      · simp [messageTrailerSize] at hend
      · exact ⟨c, d, rest, rfl⟩
    have hid : ∃ cmdid p1, commandParseMsgid (c :: d :: rest) = .ok (cmdid, p1) ∧
        p1 <:+ c :: d :: rest := by
      simp only [commandParseMsgid]
      split_ifs
      · exact ⟨_, _, rfl, List.suffix_cons c _⟩
      · exact ⟨_, _, rfl, (List.suffix_cons d rest).trans (List.suffix_cons c _)⟩
    obtain ⟨cmdid, p1, h1, hs1⟩ := hid
    split
    · rename_i e he
      rw [h1] at he
      cases he
    rename_i cmdid' p1' he
    rw [h1] at he
    cases he
    split
    · rename_i e he
      rw [commandLookupParser_error he]
      simp
    rename_i cp _
    obtain ⟨hparse, hsuf⟩ := commandParsef_within cp.paramTypes (hp.of_suffix hs1)
    split
    · rename_i e he
      intro h
      cases h
      exact hparse he
    rename_i args p2 he
    have hs2 := (hsuf args p2 he).trans hs1
    have hlt : p2.length < (c :: d :: rest).length := by
      have := commandParsef_length he
      have := commandParseMsgid_length h1
      omega
    -- the rest of the block, from whatever status the command leaves
    have hrest : ∀ s', commandDispatchLoop index run s' p2 ≠ .error .outOfBlock :=
      fun s' => ih p2 hlt s' (hp.of_suffix hs2)
    split_ifs
    · exact map_ne_outOfBlock _ (hrest s)
    · split
      · exact map_ne_outOfBlock _ (hrest _)
      · simp

theorem command_dispatch_within_block (index : List CommandParser) (run : Handlers)
    (isShutdown : Bool) (f : List UInt8) (hf : IsFrame f) :
    commandDispatch index run isShutdown f ≠ .error .outOfBlock := by
  obtain ⟨hb, hlen⟩ := hf
  obtain ⟨⟨hmin, -, -⟩, -, hsync, -⟩ := blockAt_iff.mp hb
  -- the last byte of a frame is `MESSAGE_SYNC`
  have hlast : f.getLast? = some messageSync := by
    rw [List.getLast?_eq_getElem?, hlen, ← hsync]
    unfold messageTrailerSync
    rw [List.getD_eq_getElem?_getD, List.getElem?_eq_getElem (by unfold messageMin at hmin; omega)]
    rfl
  have hclear : ClearEnd f := by
    intro c hc
    rw [hlast] at hc
    cases hc
    decide
  exact commandDispatchLoop_within index run _ isShutdown (hclear.of_suffix (List.drop_suffix _ _))

/-- A frame whose last integer is cut off: `parse_int` runs into the trailer and stops at the
    sync byte, inside the block. -/
theorem command_dispatch_within_block_cut :
    commandDispatch exampleIndex exampleRun false (SerialQueue.fillBlock 0 [1, 0x80, 0x80]) ≠
      .error .outOfBlock :=
  command_dispatch_within_block exampleIndex exampleRun false _ (isFrame_fillBlock 0 (by decide))

end Within

end Klipper.Dispatch
