import Mathlib.Tactic.SplitIfs
import Mathlib.Tactic.Linarith
import Mathlib.Data.FinEnum
import Klipper.Protocol.Command
import Klipper.Host.SerialQueue

/-
  Finding message blocks in a byte stream: the host's `msgblock_check`
  (`klippy/chelper/msgblock.c`) with the loop of `input_event` (`serialqueue.c`), and the
  firmware's `command_find_block` (`src/command.c`) with `console_task`
  (`src/generic/serial_irq.c`).

  Both scanners look at the start of their buffer.  A well-formed block there (`blockAt`: a
  length byte in `[MESSAGE_MIN, MESSAGE_MAX]` that the buffer holds, `MESSAGE_DEST` in the
  sequence byte, the trailing sync byte and the CRC) is returned whole.  Anything else drops the
  bytes up to and including the next `MESSAGE_SYNC` (`memchr`), or all of them when there is
  none, unless the buffer may still grow into a block ("need more data").  Each call either
  needs more data and removes nothing, or removes at least one byte (`msgblockCheck_progress`,
  `commandFindBlock_progress`); that is what makes the loops terminate.

  Resynchronisation: before a frame `F` that follows a `MESSAGE_SYNC`, with at least
  `MESSAGE_MAX` bytes after it and no well-formed block starting on the way, every jump to the
  next sync stops at or before the sync in front of `F` (`inputLoop_skip`, `consoleLoop_skip`),
  so both scanners drop exactly the bytes before `F` and then take `F` whole
  (`frame_resync`).
-/

namespace Klipper.FrameScan

open MsgBlock Command

/-! ## The checks -/

/-- `memchr(buf, c, buf_len)`: the position of the first `c`. -/
def memchr (c : UInt8) : List UInt8 → Option Nat
  | [] => none
  | b :: bs => if b = c then some 0 else (memchr c bs).map (· + 1)

/-- The length byte of a block. -/
def blockLen (buf : List UInt8) : Nat := (buf.getD messagePosLen 0).toNat

/-- The CRC a block carries, high byte first. -/
def blockCrc (buf : List UInt8) : UInt16 :=
  (buf.getD (blockLen buf - messageTrailerCrc) 0).toUInt16 <<< 8 |||
    (buf.getD (blockLen buf - messageTrailerCrc + 1) 0).toUInt16

/-- A well-formed block at the start of `buf`. -/
def blockAt (buf : List UInt8) : Bool :=
  decide (messageMin ≤ blockLen buf ∧ blockLen buf ≤ messageMax ∧ blockLen buf ≤ buf.length) &&
    ((buf.getD messagePosSeq 0).toUInt64 &&& ~~~messageSeqMask == messageDest) &&
    (buf.getD (blockLen buf - messageTrailerSync) 0 == messageSync) &&
    (msgblockCrc16Ccitt (buf.take (blockLen buf - messageTrailerSize)) == blockCrc buf)

/-- A frame: a well-formed block that is exactly as long as its length byte says. -/
def IsFrame (f : List UInt8) : Prop := blockAt f = true ∧ f.length = blockLen f

/-! ## The host: `msgblock_check` -/

/-- The end of `msgblock_check` after an error: drop through the next `MESSAGE_SYNC` and clear
    `need_sync`, or drop everything and set it. -/
def discardToSync (buf : List UInt8) : Bool × Int :=
  match memchr messageSync buf with
  | some i => (false, -((i : Int) + 1))
  | none => (true, -(buf.length : Int))

/-- `msgblock_check(&need_sync, buf, buf_len)`: the new `need_sync` and the result, the length
    of a valid block, `0` for "need more data", or minus the number of bytes to skip. -/
def msgblockCheck (needSync : Bool) (buf : List UInt8) : Bool × Int :=
  if buf.length < messageMin then (needSync, 0)
  else if needSync then discardToSync buf
  else
    let msglen := blockLen buf
    if msglen < messageMin ∨ msglen > messageMax then discardToSync buf
    else
      let msgseq := buf.getD messagePosSeq 0
      if msgseq.toUInt64 &&& ~~~messageSeqMask ≠ messageDest then discardToSync buf
      else if buf.length < msglen then (needSync, 0)
      else if buf.getD (msglen - messageTrailerSync) 0 ≠ messageSync then discardToSync buf
      else
        let msgcrc := blockCrc buf
        let crc := msgblockCrc16Ccitt (buf.take (msglen - messageTrailerSize))
        if crc ≠ msgcrc then discardToSync buf else (needSync, msglen)

/-- The first sync byte is inside the buffer. -/
theorem memchr_lt {c : UInt8} {buf : List UInt8} {i : Nat} (h : memchr c buf = some i) :
    i < buf.length := by
  induction buf generalizing i with
  | nil => cases h
  | cons b bs ih =>
    rw [memchr] at h
    split_ifs at h
    · cases h
      simp
    · obtain ⟨j, hj, rfl⟩ := Option.map_eq_some_iff.mp h
      simp [ih hj]

/-- A sync byte after `P` is found at or before it. -/
theorem memchr_append_cons (c : UInt8) (P R : List UInt8) :
    ∃ q, memchr c (P ++ c :: R) = some q ∧ q ≤ P.length := by
  induction P with
  | nil => exact ⟨0, by simp [memchr], le_rfl⟩
  | cons b bs ih =>
    obtain ⟨q, hq, hle⟩ := ih
    by_cases hb : b = c
    · exact ⟨0, by simp [memchr, hb], Nat.zero_le _⟩
    · exact ⟨q + 1, by simp [memchr, hb, hq], by simp; omega⟩

/-- A discard drops at least one byte and no more than the buffer holds. -/
theorem discardToSync_progress (buf : List UInt8) (hne : buf ≠ []) :
    0 < (discardToSync buf).2.natAbs ∧ (discardToSync buf).2.natAbs ≤ buf.length := by
  unfold discardToSync
  cases hm : memchr messageSync buf with
  | none =>
    have := List.length_pos_iff.mpr hne
    simp only
    omega
  | some i =>
    have := memchr_lt hm
    simp only
    omega

/-- **Progress of `msgblock_check`.**  It needs more data, or drops between one byte and the
    whole buffer. -/
theorem msgblockCheck_progress (needSync : Bool) (buf : List UInt8) :
    (msgblockCheck needSync buf).2 = 0 ∨
      (0 < (msgblockCheck needSync buf).2.natAbs ∧
        (msgblockCheck needSync buf).2.natAbs ≤ buf.length) := by
  unfold msgblockCheck
  by_cases hshort : buf.length < messageMin
  · exact .inl (by rw [if_pos hshort])
  rw [if_neg hshort]
  have hne : buf ≠ [] := List.ne_nil_of_length_pos (by unfold messageMin at hshort; omega)
  have hdis := discardToSync_progress buf hne
  dsimp only
  -- every branch is a discard, "need more data", or the block's own length
  split_ifs with hsync hlen hdest hmore <;> first
    | exact .inr hdis
    | exact .inl rfl
    | exact .inr ⟨by unfold messageMin at hlen; simp only; omega, by simp only; omega⟩

/-- The loop of `input_event` over the bytes of `input_buf`: a valid block goes to
    `handle_message` (it is added to `received`), skipped bytes are counted in `bytes_invalid`,
    and both are removed; "need more data" ends the loop. -/
def inputLoop (needSync : Bool) (buf : List UInt8) (bytesInvalid : Nat)
    (received : List (List UInt8)) : Bool × List UInt8 × Nat × List (List UInt8) :=
  let r := msgblockCheck needSync buf
  if _hr : r.2 = 0 then (r.1, buf, bytesInvalid, received)
  else if r.2 > 0 then
    inputLoop r.1 (buf.drop r.2.natAbs) bytesInvalid (received ++ [buf.take r.2.natAbs])
  else inputLoop r.1 (buf.drop r.2.natAbs) (bytesInvalid + r.2.natAbs) received
termination_by buf.length
decreasing_by
  all_goals
    have := (msgblockCheck_progress needSync buf).resolve_left _hr
    rw [List.length_drop]
    omega

theorem blockAt_iff {buf : List UInt8} :
    blockAt buf = true ↔
      (messageMin ≤ blockLen buf ∧ blockLen buf ≤ messageMax ∧ blockLen buf ≤ buf.length) ∧
      (buf.getD messagePosSeq 0).toUInt64 &&& ~~~messageSeqMask = messageDest ∧
      buf.getD (blockLen buf - messageTrailerSync) 0 = messageSync ∧
      msgblockCrc16Ccitt (buf.take (blockLen buf - messageTrailerSize)) = blockCrc buf := by
  simp [blockAt, and_assoc]

/-- A well-formed block is taken whole. -/
theorem msgblockCheck_of_blockAt {buf : List UInt8} (hb : blockAt buf = true) :
    msgblockCheck false buf = (false, (blockLen buf : Int)) := by
  obtain ⟨⟨hmin, hmax, hlen⟩, hdest, hsync, hcrc⟩ := blockAt_iff.mp hb
  unfold msgblockCheck
  rw [if_neg (by omega), if_neg Bool.false_ne_true]
  dsimp only
  rw [if_neg (by omega), if_neg (not_not.mpr hdest), if_neg (by omega), if_neg (not_not.mpr hsync),
    if_neg (not_not.mpr hcrc)]

/-- Without a block at its start, a buffer of `MESSAGE_MAX` bytes or more is discarded up to the
    next sync byte, whatever `need_sync` was. -/
theorem msgblockCheck_of_not_blockAt {needSync : Bool} {buf : List UInt8} (hb : blockAt buf = false)
    (hlen : messageMax ≤ buf.length) : msgblockCheck needSync buf = discardToSync buf := by
  unfold msgblockCheck
  rw [if_neg (by unfold messageMin messageMax at *; omega)]
  cases needSync
  · rw [if_neg Bool.false_ne_true]
    dsimp only
    split_ifs with hl hd hm hs hc
    · rfl
    · rfl
    · -- a length byte of at most `MESSAGE_MAX` is held by the buffer
      omega
    · rfl
    · rfl
    · -- every check passed: a block after all
      refine absurd (blockAt_iff.mpr ⟨⟨by omega, by omega, by omega⟩, not_not.mp hd, not_not.mp hs,
        not_not.mp hc⟩) ?_
      rw [hb]
      exact Bool.false_ne_true
  · rfl

/-- A frame in front of other bytes is still a well-formed block of the same length. -/
theorem blockAt_append {f : List UInt8} (hf : IsFrame f) (rest : List UInt8) :
    blockAt (f ++ rest) = true ∧ blockLen (f ++ rest) = blockLen f := by
  obtain ⟨hb, hlen⟩ := hf
  obtain ⟨⟨hmin, hmax, -⟩, hdest, hsync, hcrc⟩ := blockAt_iff.mp hb
  -- every byte the checks read is inside `f`
  have hread : ∀ i, i < f.length → (f ++ rest).getD i 0 = f.getD i 0 :=
    fun i hi => List.getD_append _ _ _ _ hi
  have hl : blockLen (f ++ rest) = blockLen f := by
    unfold blockLen
    rw [hread _ (by unfold messagePosLen; unfold messageMin at hmin; omega)]
  refine ⟨blockAt_iff.mpr ⟨⟨by omega, by omega, by simp; omega⟩, ?_, ?_, ?_⟩, hl⟩
  · rw [hread _ (by unfold messagePosSeq; unfold messageMin at hmin; omega)]
    exact hdest
  · rw [hl, hread _ (by unfold messageTrailerSync; unfold messageMin at hmin; omega)]
    exact hsync
  · have hcrc' : blockCrc (f ++ rest) = blockCrc f := by
      unfold blockCrc
      rw [hl, hread _ (by unfold messageTrailerCrc; unfold messageMin at hmin; omega),
        hread _ (by unfold messageTrailerCrc; unfold messageMin at hmin; omega)]
    rw [hl, hcrc', List.take_append_of_le_length (by omega)]
    exact hcrc

/-- The bytes of a well-formed block, cut from the buffer at its length byte, are a frame. -/
theorem isFrame_take {buf : List UInt8} (hb : blockAt buf = true) :
    IsFrame (buf.take (blockLen buf)) := by
  obtain ⟨⟨hmin, hmax, hlen⟩, hdest, hsync, hcrc⟩ := blockAt_iff.mp hb
  -- every byte the checks read is below the length byte
  have hread : ∀ i, i < blockLen buf → (buf.take (blockLen buf)).getD i 0 = buf.getD i 0 := by
    intro i hi
    simp only [List.getD_eq_getElem?_getD, List.getElem?_take, if_pos hi]
  have hl : blockLen (buf.take (blockLen buf)) = blockLen buf := by
    show ((buf.take (blockLen buf)).getD messagePosLen 0).toNat = blockLen buf
    rw [hread _ (by unfold messagePosLen; unfold messageMin at hmin; omega)]
    rfl
  have htake : (buf.take (blockLen buf)).length = blockLen buf := by
    rw [List.length_take, Nat.min_eq_left hlen]
  refine ⟨blockAt_iff.mpr ⟨⟨by omega, by omega, by omega⟩, ?_, ?_, ?_⟩, by rw [htake, hl]⟩
  · rw [hread _ (by unfold messagePosSeq; unfold messageMin at hmin; omega)]
    exact hdest
  · rw [hl, hread _ (by unfold messageTrailerSync; unfold messageMin at hmin; omega)]
    exact hsync
  · have hcrc' : blockCrc (buf.take (blockLen buf)) = blockCrc buf := by
      unfold blockCrc
      rw [hl, hread _ (by unfold messageTrailerCrc; unfold messageMin at hmin; omega),
        hread _ (by unfold messageTrailerCrc; unfold messageMin at hmin; omega)]
    rw [hl, hcrc', List.take_take, Nat.min_eq_left (by omega)]
    exact hcrc

/-! ### Resynchronisation of the host -/

/-- The drop of a buffer that a discard up to the sync byte before `R` leaves. -/
theorem drop_succ_append_cons {P R : List UInt8} {q : Nat} (hq : q ≤ P.length) :
    (P ++ messageSync :: R).drop (q + 1) =
      if q < P.length then P.drop (q + 1) ++ messageSync :: R else R := by
  split_ifs with hlt
  · exact List.drop_append_of_le_length (by omega)
  · rw [List.drop_append, List.drop_eq_nil_of_le (by omega), List.nil_append,
      show q + 1 - P.length = 1 by omega]
    rfl

/-- **Skip lemma.**  Before a sync byte followed by at least `MESSAGE_MAX - 1` bytes, with no
    block starting at or before it, the loop of `input_event` drops exactly the bytes up to that
    sync byte, counts them as invalid, and goes on with `need_sync` clear. -/
theorem inputLoop_skip {R : List UInt8} (hR : messageMax ≤ R.length + 1) (P : List UInt8)
    (hno : ∀ i ≤ P.length, blockAt ((P ++ messageSync :: R).drop i) = false)
    (needSync : Bool) (bytesInvalid : Nat) (received : List (List UInt8)) :
    inputLoop needSync (P ++ messageSync :: R) bytesInvalid received =
      inputLoop false R (bytesInvalid + P.length + 1) received := by
  generalize hn : P.length = n
  induction n using Nat.strongRecOn generalizing P needSync bytesInvalid with
  | ind n ih =>
    have hlen : messageMax ≤ (P ++ messageSync :: R).length := by simp; omega
    obtain ⟨q, hq, hqle⟩ := memchr_append_cons messageSync P R
    -- the call discards through the first sync byte, at or before the one in front of `R`
    have h0 := hno 0 (Nat.zero_le _)
    rw [List.drop_zero] at h0
    have hcheck : msgblockCheck needSync (P ++ messageSync :: R) = (false, -((q : Int) + 1)) := by
      rw [msgblockCheck_of_not_blockAt h0 hlen, discardToSync, hq]
    rw [inputLoop, hcheck]
    dsimp only
    rw [dif_neg (by omega), if_neg (by omega), show (-((q : Int) + 1)).natAbs = q + 1 by omega,
      drop_succ_append_cons hqle]
    split_ifs with hlt
    · -- an earlier sync byte: the same situation with a shorter prefix
      have hd : (P ++ messageSync :: R).drop (q + 1) = P.drop (q + 1) ++ messageSync :: R := by
        rw [drop_succ_append_cons hqle, if_pos hlt]
      have hno' : ∀ i ≤ (P.drop (q + 1)).length,
          blockAt ((P.drop (q + 1) ++ messageSync :: R).drop i) = false := by
        intro i hi
        rw [← hd, List.drop_drop]
        exact hno _ (by simp at hi; omega)
      rw [ih (P.drop (q + 1)).length (by simp; omega) (P.drop (q + 1)) hno' false _ rfl]
      congr 1
      simp
      omega
    · congr 1
      omega

/-- **Frame lemma.**  With `need_sync` clear, a frame at the start of the buffer goes to
    `handle_message` whole. -/
theorem inputLoop_frame {f : List UInt8} (hf : IsFrame f) (rest : List UInt8) (bytesInvalid : Nat)
    (received : List (List UInt8)) :
    inputLoop false (f ++ rest) bytesInvalid received =
      inputLoop false rest bytesInvalid (received ++ [f]) := by
  obtain ⟨hb, hl⟩ := blockAt_append hf rest
  have hmin : messageMin ≤ blockLen f := (blockAt_iff.mp hf.1).1.1
  rw [inputLoop, msgblockCheck_of_blockAt hb, hl]
  dsimp only
  rw [dif_neg (by unfold messageMin at hmin; omega), if_pos (by unfold messageMin at hmin; omega),
    show ((blockLen f : Nat) : Int).natAbs = f.length by rw [hf.2]; rfl,
    List.drop_left, List.take_left]

/-! ## The firmware: `command_find_block` -/

/-- The scanner state of `command.c`: the bits of the static `sync_state` and `next_sequence`. -/
structure FindState where
  needSync : Bool
  needValid : Bool
  nextSequence : UInt8
  deriving DecidableEq, Repr

/-- One call: the new state, the return value, `*pop_count`, and whether `encode_acknak` was
    sent. -/
structure FindResult where
  state : FindState
  ret : Int
  popCount : Nat
  nak : Bool
  deriving DecidableEq, Repr

/-- The code from the label `need_sync`: drop through the next `MESSAGE_SYNC` (clearing
    `CF_NEED_SYNC`) or the whole buffer; a nak is sent once until a valid block arrives. -/
def findNeedSync (st : FindState) (buf : List UInt8) : FindResult :=
  let (st, popCount) := match memchr messageSync buf with
    | some i => ({ st with needSync := false }, i + 1)
    | none => (st, buf.length)
  if st.needValid then ⟨st, -1, popCount, false⟩
  else ⟨{ st with needValid := true }, -1, popCount, true⟩

/-- The code from the label `error`: a leading sync byte is dropped alone and without a nak. -/
def findError (st : FindState) (buf : List UInt8) : FindResult :=
  if buf.getD 0 0 = messageSync then ⟨st, -1, 1, false⟩
  else findNeedSync { st with needSync := true } buf

/-- `command_find_block(buf, buf_len, &pop_count)` with its static state. -/
def commandFindBlock (st : FindState) (buf : List UInt8) : FindResult :=
  if buf.length ≠ 0 ∧ st.needSync then findNeedSync st buf
  else if buf.length < messageMin then ⟨st, 0, 0, false⟩
  else
    let msglen := blockLen buf
    if msglen < messageMin ∨ msglen > messageMax then findError st buf
    else
      let msgseq := buf.getD messagePosSeq 0
      if msgseq.toUInt64 &&& ~~~messageSeqMask ≠ messageDest then findError st buf
      else if buf.length < msglen then ⟨st, 0, 0, false⟩
      else if buf.getD (msglen - messageTrailerSync) 0 ≠ messageSync then findError st buf
      else if crc16Ccitt (buf.take (msglen - messageTrailerSize)) ≠ blockCrc buf then
        findError st buf
      else
        let st := { st with needValid := false }
        -- a lost block: discard blocks until it is retransmitted
        if msgseq ≠ st.nextSequence then ⟨st, -1, msglen, true⟩
        else
          ⟨{ st with nextSequence :=
              (((msgseq.toUInt64 + 1) &&& messageSeqMask) ||| messageDest).toUInt8 },
            1, msglen, false⟩

/-- A call from `need_sync` drops between one byte and the whole (non-empty) buffer. -/
theorem findNeedSync_progress (st : FindState) {buf : List UInt8} (hne : buf ≠ []) :
    (findNeedSync st buf).ret = -1 ∧ 0 < (findNeedSync st buf).popCount ∧
      (findNeedSync st buf).popCount ≤ buf.length := by
  have hpos := List.length_pos_iff.mpr hne
  unfold findNeedSync
  cases hm : memchr messageSync buf with
  | none => dsimp only; split_ifs <;> exact ⟨rfl, hpos, le_rfl⟩
  | some i =>
    have := memchr_lt hm
    dsimp only
    split_ifs <;> exact ⟨rfl, Nat.succ_pos i, this⟩

theorem findError_progress (st : FindState) {buf : List UInt8} (hne : buf ≠ []) :
    (findError st buf).ret = -1 ∧ 0 < (findError st buf).popCount ∧
      (findError st buf).popCount ≤ buf.length := by
  have hpos := List.length_pos_iff.mpr hne
  unfold findError
  split_ifs
  · exact ⟨rfl, Nat.one_pos, hpos⟩
  · exact findNeedSync_progress _ hne

/-- **Progress of `command_find_block`.**  It needs more data and pops nothing, or returns
    non-zero and pops between one byte and the whole buffer. -/
theorem commandFindBlock_progress (st : FindState) (buf : List UInt8) :
    ((commandFindBlock st buf).ret = 0 ∧ (commandFindBlock st buf).popCount = 0) ∨
      ((commandFindBlock st buf).ret ≠ 0 ∧ 0 < (commandFindBlock st buf).popCount ∧
        (commandFindBlock st buf).popCount ≤ buf.length) := by
  -- a call that errors has a buffer of at least `MESSAGE_MIN` bytes
  have herr : ∀ st', ¬buf.length < messageMin → (findError st' buf).ret ≠ 0 ∧
      0 < (findError st' buf).popCount ∧ (findError st' buf).popCount ≤ buf.length := by
    intro st' hl
    obtain ⟨h1, h2, h3⟩ := @findError_progress st' buf (List.ne_nil_of_length_pos
      (by unfold messageMin at hl; omega))
    exact ⟨by omega, h2, h3⟩
  unfold commandFindBlock
  by_cases hsync : buf.length ≠ 0 ∧ st.needSync
  · rw [if_pos hsync]
    obtain ⟨h1, h2, h3⟩ := @findNeedSync_progress st buf (List.ne_nil_of_length_pos (by omega))
    exact .inr ⟨by omega, h2, h3⟩
  rw [if_neg hsync]
  by_cases hshort : buf.length < messageMin
  · exact .inl (by rw [if_pos hshort]; exact ⟨rfl, rfl⟩)
  rw [if_neg hshort]
  dsimp only
  split_ifs with hlen hdest hmore hs hc hseq
  all_goals first
    | exact .inr (herr _ hshort)
    | exact .inl ⟨rfl, rfl⟩
    | exact .inr ⟨by simp, by simp only; unfold messageMin at hlen; omega, by simp only; omega⟩

/-- Without `CF_NEED_SYNC` and without a block at its start, a buffer of `MESSAGE_MAX` bytes or
    more goes to `error`. -/
theorem commandFindBlock_of_not_blockAt {st : FindState} {buf : List UInt8}
    (hs : st.needSync = false) (hb : blockAt buf = false) (hlen : messageMax ≤ buf.length) :
    commandFindBlock st buf = findError st buf := by
  unfold commandFindBlock
  rw [if_neg (by simp [hs]), if_neg (by unfold messageMin messageMax at *; omega)]
  dsimp only
  split_ifs with hl hd hm hsy hc
  · rfl
  · rfl
  · -- a length byte of at most `MESSAGE_MAX` is held by the buffer
    omega
  · rfl
  · rfl
  · -- every check passed: a block after all
    refine absurd (blockAt_iff.mpr ⟨⟨by omega, by omega, by omega⟩, not_not.mp hd, not_not.mp hsy,
      not_not.mp hc⟩) ?_
    rw [hb]
    exact Bool.false_ne_true
  · refine absurd (blockAt_iff.mpr ⟨⟨by omega, by omega, by omega⟩, not_not.mp hd, not_not.mp hsy,
      not_not.mp hc⟩) ?_
    rw [hb]
    exact Bool.false_ne_true

/-- Without a block at its start, a buffer of `MESSAGE_MAX` bytes or more is dropped through its
    first sync byte, leaving `CF_NEED_SYNC` clear and `next_sequence` as it was. -/
theorem commandFindBlock_skip {st : FindState} {buf : List UInt8} {q : Nat}
    (hb : blockAt buf = false) (hlen : messageMax ≤ buf.length)
    (hq : memchr messageSync buf = some q) :
    (commandFindBlock st buf).ret = -1 ∧ (commandFindBlock st buf).popCount = q + 1 ∧
      (commandFindBlock st buf).state.needSync = false ∧
      (commandFindBlock st buf).state.nextSequence = st.nextSequence := by
  have hneed : ∀ st' : FindState, (findNeedSync st' buf).ret = -1 ∧
      (findNeedSync st' buf).popCount = q + 1 ∧ (findNeedSync st' buf).state.needSync = false ∧
      (findNeedSync st' buf).state.nextSequence = st'.nextSequence := by
    intro st'
    unfold findNeedSync
    rw [hq]
    dsimp only
    split_ifs <;> exact ⟨rfl, rfl, rfl, rfl⟩
  cases hs : st.needSync
  · rw [commandFindBlock_of_not_blockAt hs hb hlen]
    unfold findError
    split_ifs with h0
    · -- a leading sync byte is what `memchr` finds first
      have hne : buf ≠ [] := List.ne_nil_of_length_pos (by unfold messageMax at hlen; omega)
      obtain ⟨b, bs, rfl⟩ := List.exists_cons_of_ne_nil hne
      simp only [List.getD_cons_zero] at h0
      simp only [memchr, if_pos h0, Option.some.injEq] at hq
      subst hq
      exact ⟨rfl, rfl, hs, rfl⟩
    · exact hneed _
  · have hne : buf.length ≠ 0 := by unfold messageMax at hlen; omega
    unfold commandFindBlock
    rw [if_pos ⟨hne, hs⟩]
    exact hneed st

/-- A well-formed block is taken whole when `CF_NEED_SYNC` is clear; it is dispatched when its
    sequence byte is `next_sequence`, and nak'ed otherwise. -/
theorem commandFindBlock_of_blockAt {st : FindState} {buf : List UInt8}
    (hs : st.needSync = false) (hb : blockAt buf = true) :
    (commandFindBlock st buf).popCount = blockLen buf ∧
      (commandFindBlock st buf).ret =
        if buf.getD messagePosSeq 0 = st.nextSequence then 1 else -1 := by
  obtain ⟨⟨hmin, hmax, hlen⟩, hdest, hsync, hcrc⟩ := blockAt_iff.mp hb
  unfold commandFindBlock
  rw [if_neg (by simp [hs]), if_neg (by omega)]
  dsimp only
  -- the firmware's `crc16_ccitt` is the host's CRC
  have hcrc' : crc16Ccitt (buf.take (blockLen buf - messageTrailerSize)) = blockCrc buf := hcrc
  rw [if_neg (by omega), if_neg (not_not.mpr hdest), if_neg (by omega), if_neg (not_not.mpr hsync),
    if_neg (not_not.mpr hcrc')]
  by_cases hseq : buf.getD messagePosSeq 0 = st.nextSequence
  · rw [if_neg (not_not.mpr hseq), if_pos hseq]
    exact ⟨rfl, rfl⟩
  · rw [if_pos hseq, if_neg hseq]
    exact ⟨rfl, rfl⟩

/-- What a well-formed block leaves of the state when `CF_NEED_SYNC` is clear: `CF_NEED_VALID`
    cleared, `next_sequence` moved on when the block is dispatched, and a nak exactly when it is
    out of sequence. -/
theorem commandFindBlock_state_of_blockAt {st : FindState} {buf : List UInt8}
    (hs : st.needSync = false) (hb : blockAt buf = true) :
    (commandFindBlock st buf).state =
        (if buf.getD messagePosSeq 0 = st.nextSequence then
          { st with needValid := false, nextSequence :=
            ((((buf.getD messagePosSeq 0).toUInt64 + 1) &&& messageSeqMask) ||| messageDest).toUInt8 }
        else { st with needValid := false }) ∧
      (commandFindBlock st buf).nak = !(buf.getD messagePosSeq 0 == st.nextSequence) := by
  obtain ⟨⟨hmin, hmax, hlen⟩, hdest, hsync, hcrc⟩ := blockAt_iff.mp hb
  unfold commandFindBlock
  rw [if_neg (by simp [hs]), if_neg (by omega)]
  dsimp only
  have hcrc' : crc16Ccitt (buf.take (blockLen buf - messageTrailerSize)) = blockCrc buf := hcrc
  rw [if_neg (by omega), if_neg (not_not.mpr hdest), if_neg (by omega), if_neg (not_not.mpr hsync),
    if_neg (not_not.mpr hcrc')]
  by_cases hseq : buf.getD messagePosSeq 0 = st.nextSequence
  · rw [if_neg (not_not.mpr hseq), if_pos hseq]
    refine ⟨rfl, ?_⟩
    rw [hseq, beq_self_eq_true]
    rfl
  · rw [if_pos hseq, if_neg hseq]
    refine ⟨rfl, ?_⟩
    rw [beq_false_of_ne hseq]
    rfl

/-- **A call that returns `1`** found a well-formed block at the start of the buffer, with the
    sequence byte the MCU expected, and pops exactly that block. -/
theorem commandFindBlock_pos {st : FindState} {buf : List UInt8}
    (h : 0 < (commandFindBlock st buf).ret) :
    blockAt buf = true ∧ (commandFindBlock st buf).popCount = blockLen buf ∧
      buf.getD messagePosSeq 0 = st.nextSequence := by
  -- every way out but the last returns `0` or `-1`
  have hneed : ∀ st', (findNeedSync st' buf).ret = -1 := by
    intro st'
    unfold findNeedSync
    dsimp only
    split_ifs <;> rfl
  have herr : ∀ st', (findError st' buf).ret = -1 := by
    intro st'
    unfold findError
    split_ifs
    · rfl
    · exact hneed _
  unfold commandFindBlock at h ⊢
  by_cases hs : buf.length ≠ 0 ∧ st.needSync
  · rw [if_pos hs, hneed] at h
    omega
  rw [if_neg hs] at h ⊢
  by_cases hshort : buf.length < messageMin
  · rw [if_pos hshort] at h
    simp at h
  rw [if_neg hshort] at h ⊢
  dsimp only at h ⊢
  split_ifs at h ⊢ with hlen hdest hmore hsync hcrc hseq
  · rw [herr] at h
    omega
  · rw [herr] at h
    omega
  · simp at h
  · rw [herr] at h
    omega
  · rw [herr] at h
    omega
  · -- a block out of sequence is nak'ed
    simp at h
  · -- every check passed, and the sequence byte is the one expected
    exact ⟨blockAt_iff.mpr ⟨⟨by omega, by omega, by omega⟩, not_not.mp hdest, not_not.mp hsync,
      not_not.mp hcrc⟩, rfl, not_not.mp hseq⟩

/-- The loop of `console_task` run until it needs more data: each call pops `pop_count` bytes,
    and its return value with `pop_count` is recorded (`command_dispatch` runs on the popped
    bytes when the value is positive). -/
def consoleLoop (st : FindState) (buf : List UInt8) (popped : List (Int × Nat)) :
    FindState × List UInt8 × List (Int × Nat) :=
  let r := commandFindBlock st buf
  if _hr : r.ret = 0 then (r.state, buf, popped)
  else consoleLoop r.state (buf.drop r.popCount) (popped ++ [(r.ret, r.popCount)])
termination_by buf.length
decreasing_by
  have := (commandFindBlock_progress st buf).resolve_left fun h => _hr h.1
  rw [List.length_drop]
  omega

/-- **Skip lemma** of the firmware: before a sync byte followed by at least `MESSAGE_MAX - 1`
    bytes, with no block starting at or before it, `console_task` pops exactly the bytes up to
    that sync byte, each call returning `-1`, and leaves `CF_NEED_SYNC` clear and
    `next_sequence` unchanged. -/
theorem consoleLoop_skip {R : List UInt8} (hR : messageMax ≤ R.length + 1) (P : List UInt8)
    (hno : ∀ i ≤ P.length, blockAt ((P ++ messageSync :: R).drop i) = false)
    (st : FindState) (popped : List (Int × Nat)) :
    ∃ (st' : FindState) (pops : List Nat), consoleLoop st (P ++ messageSync :: R) popped =
        consoleLoop st' R (popped ++ pops.map fun p => ((-1 : Int), p)) ∧
      pops.sum = P.length + 1 ∧ st'.needSync = false ∧ st'.nextSequence = st.nextSequence := by
  generalize hn : P.length = n
  induction n using Nat.strongRecOn generalizing P st popped with
  | ind n ih =>
    have hlen : messageMax ≤ (P ++ messageSync :: R).length := by simp; omega
    obtain ⟨q, hq, hqle⟩ := memchr_append_cons messageSync P R
    have h0 := hno 0 (Nat.zero_le _)
    rw [List.drop_zero] at h0
    obtain ⟨hret, hpop, hsync, hseq⟩ := @commandFindBlock_skip st _ _ h0 hlen hq
    rw [consoleLoop]
    rw [dif_neg (by rw [hret]; decide), hret, hpop, drop_succ_append_cons hqle]
    split_ifs with hlt
    · -- an earlier sync byte: the same situation with a shorter prefix
      have hd : (P ++ messageSync :: R).drop (q + 1) = P.drop (q + 1) ++ messageSync :: R := by
        rw [drop_succ_append_cons hqle, if_pos hlt]
      have hno' : ∀ i ≤ (P.drop (q + 1)).length,
          blockAt ((P.drop (q + 1) ++ messageSync :: R).drop i) = false := by
        intro i hi
        rw [← hd, List.drop_drop]
        exact hno _ (by simp at hi; omega)
      obtain ⟨st', pops, heq, hsum, hns, hnext⟩ :=
        ih (P.drop (q + 1)).length (by simp; omega) (P.drop (q + 1)) hno' _ _ rfl
      refine ⟨st', (q + 1) :: pops, ?_, ?_, hns, hnext.trans hseq⟩
      · rw [heq, List.map_cons, List.append_assoc, List.singleton_append]
      · rw [List.sum_cons, hsum, List.length_drop]
        omega
    · exact ⟨_, [q + 1], rfl, by simp; omega, hsync, hseq⟩

/-- **Frame lemma** of the firmware: with `CF_NEED_SYNC` clear, a frame at the start of the
    buffer is popped whole. -/
theorem consoleLoop_frame {f : List UInt8} (hf : IsFrame f) (rest : List UInt8) {st : FindState}
    (hs : st.needSync = false) (popped : List (Int × Nat)) :
    consoleLoop st (f ++ rest) popped =
      consoleLoop (commandFindBlock st (f ++ rest)).state rest
        (popped ++ [(if f.getD messagePosSeq 0 = st.nextSequence then 1 else -1, f.length)]) := by
  obtain ⟨hb, hl⟩ := blockAt_append hf rest
  have hmin : messageMin ≤ blockLen f := (blockAt_iff.mp hf.1).1.1
  obtain ⟨hpop, hret⟩ := commandFindBlock_of_blockAt hs hb
  have hseq : (f ++ rest).getD messagePosSeq 0 = f.getD messagePosSeq 0 :=
    List.getD_append _ _ _ _ (by unfold messagePosSeq; unfold messageMin at hmin; rw [hf.2]; omega)
  rw [consoleLoop]
  rw [dif_neg (by rw [hret]; split_ifs <;> decide), hret, hpop, hl, hseq, ← hf.2, List.drop_left]

/-! ## The frames the builders make -/

/-- The two CRC bytes, high byte first, read back as the CRC. -/
theorem crc_bytes (crc : UInt16) : (crc >>> 8).toUInt8.toUInt16 <<< 8 ||| crc.toUInt8.toUInt16 = crc := by
  apply UInt16.toNat_inj.mp
  have h8 : UInt16.toNat 8 % 16 = 8 := rfl
  simp only [UInt16.toNat_or, UInt16.toNat_shiftLeft, UInt16.toNat_shiftRight, UInt8.toNat_toUInt16,
    UInt16.toNat_toUInt8, h8]
  have hc := crc.toNat_lt
  have hlo : crc.toNat % 2 ^ 8 < 2 ^ 8 := Nat.mod_lt _ (by norm_num)
  rw [Nat.shiftRight_eq_div_pow, Nat.shiftLeft_eq, Nat.mod_eq_of_lt (a := crc.toNat / 2 ^ 8) (by omega),
    Nat.mod_eq_of_lt (a := crc.toNat / 2 ^ 8 * 2 ^ 8) (by omega)]
  -- the high byte shifted up and the low byte do not overlap
  rw [← Nat.shiftLeft_eq, ← Nat.shiftLeft_add_eq_or_of_lt hlo, Nat.shiftLeft_eq]
  omega

/-- The host's low CRC byte, `crc & 0xff`, is the firmware's plain truncation. -/
theorem toUInt8_and_ff (crc : UInt16) : (crc &&& 0xff).toUInt8 = crc.toUInt8 := by
  apply UInt8.toNat_inj.mp
  simp only [UInt16.toNat_toUInt8, UInt16.toNat_and]
  rw [show UInt16.toNat 0xff = 2 ^ 8 - 1 from rfl, Nat.and_two_pow_sub_one_eq_mod, Nat.mod_mod]

/-- Header and message followed by the CRC bytes and the sync byte form a frame, when the
    length byte counts them all and the sequence byte has `MESSAGE_DEST`. -/
theorem isFrame_of_trailer {pre : List UInt8} {hi lo : UInt8}
    (hlen : (pre.getD messagePosLen 0).toNat = pre.length + messageTrailerSize)
    (hhead : messageHeaderSize ≤ pre.length) (hmax : pre.length + messageTrailerSize ≤ messageMax)
    (hdest : (pre.getD messagePosSeq 0).toUInt64 &&& ~~~messageSeqMask = messageDest)
    (hcrc : hi.toUInt16 <<< 8 ||| lo.toUInt16 = msgblockCrc16Ccitt pre) :
    IsFrame (pre ++ [hi, lo, messageSync]) := by
  unfold messageHeaderSize at hhead
  have hread : ∀ i, i < pre.length → (pre ++ [hi, lo, messageSync]).getD i 0 = pre.getD i 0 :=
    fun i hi => List.getD_append _ _ _ _ hi
  have htail : ∀ k, (pre ++ [hi, lo, messageSync]).getD (pre.length + k) 0 =
      [hi, lo, messageSync].getD k 0 := fun k => by
    rw [List.getD_append_right _ _ _ _ (by omega), Nat.add_sub_cancel_left]
  have hbl : blockLen (pre ++ [hi, lo, messageSync]) = pre.length + messageTrailerSize := by
    unfold blockLen
    rw [hread _ (by unfold messagePosLen; omega), hlen]
  have hlength : (pre ++ [hi, lo, messageSync]).length = pre.length + messageTrailerSize := by
    simp [messageTrailerSize]
  refine ⟨blockAt_iff.mpr ⟨⟨?_, ?_, ?_⟩, ?_, ?_, ?_⟩, by rw [hlength, hbl]⟩
  · rw [hbl]; unfold messageMin messageTrailerSize; omega
  · rw [hbl]; exact hmax
  · rw [hbl, hlength]
  · rw [hread _ (by unfold messagePosSeq; omega)]
    exact hdest
  · rw [hbl, show pre.length + messageTrailerSize - messageTrailerSync = pre.length + 2 from rfl,
      htail]
    rfl
  · have hcrc' : blockCrc (pre ++ [hi, lo, messageSync]) = msgblockCrc16Ccitt pre := by
      unfold blockCrc
      rw [hbl, show pre.length + messageTrailerSize - messageTrailerCrc = pre.length + 0 from rfl,
        show pre.length + 0 + 1 = pre.length + 1 from rfl, htail, htail]
      exact hcrc
    rw [hbl, hcrc', show pre.length + messageTrailerSize - messageTrailerSize = pre.length by
      unfold messageTrailerSize; omega, List.take_left]

/-- The blocks of `build_and_send_command` are frames. -/
theorem isFrame_fillBlock (seq : UInt64) {payload : List UInt8}
    (h : payload.length ≤ messagePayloadMax) : IsFrame (SerialQueue.fillBlock seq payload) := by
  unfold messagePayloadMax messageMax messageMin at h
  -- the sequence byte keeps `MESSAGE_DEST` whatever the low bits of `seq` are
  have hdest : ∀ x : UInt8,
      (0x10 ||| (x &&& 0x0f) : UInt8).toUInt64 &&& ~~~(0x0f : UInt64) = 0x10 := by
    decide +kernel
  have hhead : messageHeaderSize ≤ payload.length + 2 := by simp [messageHeaderSize]
  have hmax : payload.length + 2 + messageTrailerSize ≤ messageMax := by
    unfold messageTrailerSize messageMax
    omega
  unfold SerialQueue.fillBlock
  dsimp only
  refine isFrame_of_trailer ?_ (by simpa using hhead) (by simpa using hmax) ?_ ?_
  · simp [messagePosLen, messageHeaderSize, messageTrailerSize]
    omega
  · simp only [messagePosSeq, List.cons_append, List.getD_cons_succ, List.getD_cons_zero,
      messageDest, messageSeqMask, UInt64.toUInt8_or, UInt64.toUInt8_and]
    exact hdest _
  · rw [toUInt8_and_ff, crc_bytes]

/-- The blocks of `command_add_frame` are frames when `next_sequence` has `MESSAGE_DEST`, as
    the firmware keeps it. -/
theorem isFrame_commandAddFrame {nextSequence : UInt8}
    (hseq : nextSequence.toUInt64 &&& ~~~messageSeqMask = messageDest) {msg : List UInt8}
    (h : msg.length ≤ messagePayloadMax) : IsFrame (commandAddFrame nextSequence msg) := by
  unfold messagePayloadMax messageMax messageMin at h
  have hhead : messageHeaderSize ≤ msg.length + 2 := by simp [messageHeaderSize]
  have hmax : msg.length + 2 + messageTrailerSize ≤ messageMax := by
    unfold messageTrailerSize messageMax
    omega
  unfold commandAddFrame
  dsimp only
  refine isFrame_of_trailer ?_ (by simpa using hhead) (by simpa using hmax) hseq (crc_bytes _)
  simp [messagePosLen, messageMin, messageTrailerSize]
  omega

/-! ## Resynchronisation -/

/-- Both scanners make progress on every input, and after any noise `G` ending in a sync byte,
    with no block starting before the frame `F` that follows, they drop exactly the bytes
    before `F` and then take `F` whole. -/
theorem frame_resync :
    (∀ (needSync : Bool) (buf : List UInt8),
      (msgblockCheck needSync buf).2 = 0 ∨
        (0 < (msgblockCheck needSync buf).2.natAbs ∧
          (msgblockCheck needSync buf).2.natAbs ≤ buf.length)) ∧
    (∀ (st : FindState) (buf : List UInt8),
      ((commandFindBlock st buf).ret = 0 ∧ (commandFindBlock st buf).popCount = 0) ∨
        ((commandFindBlock st buf).ret ≠ 0 ∧ 0 < (commandFindBlock st buf).popCount ∧
          (commandFindBlock st buf).popCount ≤ buf.length)) ∧
    ∀ G F T : List UInt8, IsFrame F → messageMax ≤ T.length →
      (∀ i ≤ G.length, blockAt ((G ++ messageSync :: (F ++ T)).drop i) = false) →
      (∀ (needSync : Bool) (bytesInvalid : Nat) (received : List (List UInt8)),
        inputLoop needSync (G ++ messageSync :: (F ++ T)) bytesInvalid received =
          inputLoop false T (bytesInvalid + G.length + 1) (received ++ [F])) ∧
      (∀ (st : FindState) (popped : List (Int × Nat)), ∃ (st' : FindState) (pops : List Nat),
        pops.sum = G.length + 1 ∧
        consoleLoop st (G ++ messageSync :: (F ++ T)) popped =
          consoleLoop st' T (popped ++ pops.map (fun p => ((-1 : Int), p)) ++
            [(if F.getD messagePosSeq 0 = st.nextSequence then 1 else -1, F.length)])) := by
  refine ⟨msgblockCheck_progress, commandFindBlock_progress, ?_⟩
  intro G F T hF hT hno
  have hR : messageMax ≤ (F ++ T).length + 1 := by simp; omega
  refine ⟨fun needSync bytesInvalid received => ?_, fun st popped => ?_⟩
  · rw [inputLoop_skip hR G hno, inputLoop_frame hF]
  · obtain ⟨st', pops, heq, hsum, hns, hnext⟩ := consoleLoop_skip hR G hno st popped
    refine ⟨(commandFindBlock st' (F ++ T)).state, pops, hsum, ?_⟩
    rw [heq, consoleLoop_frame hF T hns, hnext]

/-- Three bytes of noise and a sync byte before an empty response frame. -/
theorem frame_resync_after_noise :
    IsFrame (commandAddFrame 0x10 []) ∧ messageMax ≤ (List.replicate 64 (0 : UInt8)).length ∧
      (∀ i ≤ [1, 2, 3].length, blockAt (([1, 2, 3] ++ messageSync ::
        (commandAddFrame 0x10 [] ++ List.replicate 64 0)).drop i) = false) ∧
      inputLoop true ([1, 2, 3] ++ messageSync :: (commandAddFrame 0x10 [] ++ List.replicate 64 0))
          0 [] =
        inputLoop false (List.replicate 64 0) (0 + [1, 2, 3].length + 1)
          ([] ++ [commandAddFrame 0x10 []]) := by
  have hF : IsFrame (commandAddFrame 0x10 []) := isFrame_commandAddFrame (by decide) (by decide)
  have hT : messageMax ≤ (List.replicate 64 (0 : UInt8)).length := by decide
  have hno : ∀ i ≤ [1, 2, 3].length, blockAt (([1, 2, 3] ++ messageSync ::
      (commandAddFrame 0x10 [] ++ List.replicate 64 0)).drop i) = false := by decide
  exact ⟨hF, hT, hno, (frame_resync.2.2 _ _ _ hF hT hno).1 true 0 []⟩

end Klipper.FrameScan
