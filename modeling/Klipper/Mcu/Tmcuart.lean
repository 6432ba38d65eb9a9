import Mathlib
import Klipper.Mcu.Board

/-
  The bit-banged UART of `src/tmcuart.c` that talks to TMC stepper drivers over one wire.

  `command_tmcuart_send` copies the bytes to send into `data` and starts the object's timer.
  The send then changes the line only where the bits change: each `tmcuart_send_event` toggles
  the line and scans on (`sendScan`) to the next bit that differs from the new level, and
  sleeps one `bit_time` for every bit it passed.  A buffer that begins with the sync nibble
  `0x2a` is started by five `tmcuart_send_sync_event`s instead, which measure the scheduling
  latency and correct `bit_time` before handing over at bit 5.  After the last bit the timer
  runs `tmcuart_send_finish_event`, which ends the transfer or turns to reading the reply
  (`tmcuart_read_sync_event`, `tmcuart_read_event`).

  The handlers return, as in `GpioCmds`, the operations on the line; the two that read the
  hardware take what they read as arguments (`timer_read_time`, `gpio_in_read`).  The run of
  the send (`sendRun`) fires the timer at its waketime plus a latency that the environment
  chooses for each event.

  `tmcuart_send_spells_buffer` shows the send correct for every buffer that opens with a start
  bit: the line toggles exactly at the starts of the slots where the bit differs from the one
  before (`togglesFrom`), on a grid of `bit_time` slots, so that during slot `k` it carries bit
  `k` (`levelDuring_togglesFrom`), and the finish is scheduled at the end of the last slot.  One
  event of the scan phase is `sendEvent_step`; the run over it is `sendRun_send`, by induction
  on the toggles left, and the sync nibble is `sendRun_sync`.
-/

namespace Klipper.Tmcuart

/-- The bits of `tmcuart_s.flags`: `TU_LINE_HIGH`, `TU_ACTIVE`, `TU_READ_SYNC`, `TU_REPORT`,
    `TU_PULLUP`, `TU_SINGLE_WIRE`. -/
structure TmcuartFlags where
  lineHigh : Bool
  active : Bool
  readSync : Bool
  report : Bool
  pullup : Bool
  singleWire : Bool
deriving DecidableEq, Repr

/-- The callback in the object's timer. -/
inductive TmcuartFunc
  | sendSyncEvent
  | sendEvent
  | sendFinishEvent
  | readSyncEvent
  | readEvent
deriving DecidableEq, Repr

/-- `struct tmcuart_s`, with its timer's `waketime` and `func`.  The `uint8_t` counters stay
    below 81 (`write_len` and `read_len` are at most 10), so they are natural numbers here. -/
structure TmcuartS where
  waketime : UInt32
  func : TmcuartFunc
  flags : TmcuartFlags
  pos : Nat
  readCount : Nat
  writeCount : Nat
  cfgBitTime : UInt32
  bitTime : UInt32
  data : List UInt8
deriving DecidableEq, Repr

/-- The operations on `tx_pin`. -/
abbrev PinOp := GpioOp Unit

/-! ## The timer callbacks -/

/-- `tmcuart_reset_line`: `gpio_out_reset` on a single wire and `gpio_out_write` otherwise, both
    driving the line high. -/
def tmcuartResetLine (t : TmcuartS) : TmcuartS × List PinOp :=
  ({ t with flags := { lineHigh := true, active := false, readSync := false, report := false,
                       pullup := t.flags.pullup, singleWire := t.flags.singleWire } },
    [.write () true])

/-- `tmcuart_finalize`: the line back to idle, and the result left for `tmcuart_task`. -/
def tmcuartFinalize (t : TmcuartS) : SchedResult × TmcuartS × List PinOp :=
  let (t, ops) := tmcuartResetLine t
  (.done, { t with flags := { t.flags with report := true } }, ops)

/-- `tmcuart_read_event`: store the bit read at `pos`, LSB first. -/
def tmcuartReadEvent (t : TmcuartS) (v : Bool) : SchedResult × TmcuartS × List PinOp :=
  let pos := t.pos
  let mask : UInt8 := 1 <<< (pos &&& 0x07).toUInt8
  let data := t.data.getD (pos >>> 3) 0
  let data := if v then data ||| mask else data &&& ~~~mask
  let t := { t with data := t.data.set (pos >>> 3) data }
  let pos := pos + 1
  if pos ≥ t.readCount then tmcuartFinalize t
  else (.reschedule, { t with pos := pos, waketime := t.waketime + t.bitTime }, [])

/-- `tmcuart_read_sync_event`: wait for the line to be high and then low, the start of the
    reply, for at most 64 bits. -/
def tmcuartReadSyncEvent (t : TmcuartS) (v : Bool) : SchedResult × TmcuartS × List PinOp :=
  -- `if (t->pos++ >= 64)`: the test reads `pos` before the increment
  let wait (t : TmcuartS) : SchedResult × TmcuartS × List PinOp :=
    if t.pos ≥ 64 then tmcuartFinalize { t with pos := t.pos + 1, readCount := 0 }
    else (.reschedule, { t with pos := t.pos + 1, waketime := t.waketime + t.bitTime }, [])
  if v then wait { t with flags := { t.flags with readSync := true } }
  else if t.flags.readSync then tmcuartReadEvent { t with pos := 0, func := .readEvent } v
  else wait t

/-- `tmcuart_send_finish_event`.  On a single wire `gpio_in_reset` turns the line to an input,
    which changes its mode and drives no level. -/
def tmcuartSendFinishEvent (t : TmcuartS) : SchedResult × TmcuartS × List PinOp :=
  if t.readCount = 0 then tmcuartFinalize t
  else (.reschedule, { t with pos := 0, func := .readSyncEvent,
                              waketime := t.waketime + t.bitTime * 4 }, [])

/-- The loop of `tmcuart_send_event` after position `pos`: the first later position whose bit
    differs from `lineState`, or `none` on reaching `write_count`, with `next` grown by one
    `bit_time` for each position passed over. -/
def sendScan (data : List UInt8) (writeCount : Nat) (lineState : UInt8) (bitTime : UInt32)
    (pos : Nat) (next : UInt32) : Option Nat × UInt32 :=
  let pos := pos + 1
  if pos ≥ writeCount then (none, next)
  else
    let byte := data.getD (pos >>> 3) 0
    let bit := (byte >>> (pos &&& 0x07).toUInt8) &&& 0x01
    if bit ≠ lineState then (some pos, next)
    else sendScan data writeCount lineState bitTime pos (next + bitTime)
termination_by writeCount - pos
decreasing_by omega

/-- `tmcuart_send_event`: toggle the line and sleep until the next bit that differs, or until
    the end of the last bit and then finish. -/
def tmcuartSendEvent (t : TmcuartS) : SchedResult × TmcuartS × List PinOp :=
  let flags := { t.flags with lineHigh := !t.flags.lineHigh }
  let lineState : UInt8 := if flags.lineHigh then 1 else 0
  match sendScan t.data t.writeCount lineState t.bitTime t.pos t.bitTime with
  | (none, next) =>
    (.reschedule, { t with flags := flags, func := .sendFinishEvent,
                           waketime := t.waketime + next }, [.toggle ()])
  | (some pos, next) =>
    (.reschedule, { t with flags := flags, pos := pos, waketime := t.waketime + next },
      [.toggle ()])

/-- `tmcuart_send_sync_event`, which the timer runs at `cur` (`timer_read_time`): the five bits
    of the sync nibble, one `cfg_bit_time` apart.  The first records its lateness in
    `bit_time`; the fifth compares its own, sets `bit_time` to `cfg_bit_time` corrected by a
    quarter of the difference (`DIV_ROUND_CLOSEST` in `int32_t`), and hands over to
    `tmcuart_send_event`. -/
def tmcuartSendSyncEvent (t : TmcuartS) (cur : UInt32) : SchedResult × TmcuartS × List PinOp :=
  let flags := { t.flags with lineHigh := !t.flags.lineHigh }
  let pos := t.pos + 1
  if pos = 1 then
    let offset := cur - t.waketime
    (.reschedule, { t with flags := flags, pos := pos, bitTime := offset,
                           waketime := t.waketime + t.cfgBitTime }, [.toggle ()])
  else if pos ≥ 5 then
    let offset := cur - t.waketime
    let startOffset := t.bitTime
    let diff : Int32 := (offset - startOffset).toInt32
    let bitTime := t.cfgBitTime + ((diff + 2) / 4).toUInt32
    (.reschedule, { t with flags := flags, pos := pos, bitTime := bitTime, func := .sendEvent,
                           waketime := t.waketime + (diff.toUInt32 + bitTime) }, [.toggle ()])
  else
    (.reschedule, { t with flags := flags, pos := pos, waketime := t.waketime + t.cfgBitTime },
      [.toggle ()])

/-- The object's timer fired at `cur`, with `rx` read from `rx_pin`. -/
def tmcuartTimer (t : TmcuartS) (cur : UInt32) (rx : Bool) : SchedResult × TmcuartS × List PinOp :=
  match t.func with
  | .sendSyncEvent => tmcuartSendSyncEvent t cur
  | .sendEvent => tmcuartSendEvent t
  | .sendFinishEvent => tmcuartSendFinishEvent t
  | .readSyncEvent => tmcuartReadSyncEvent t rx
  | .readEvent => tmcuartReadEvent t rx

/-! ## The command -/

/-- `command_tmcuart_send`, with `sched_add_timer`'s view of the timer list (`head`) and of the
    time (`now`): dropped while a transfer is active, a shutdown for more than ten bytes either
    way, and otherwise the bytes copied in and the timer started 200 microseconds on. -/
def commandTmcuartSend (timerFromUs : UInt32 → UInt32) (head now : UInt32) (t : TmcuartS)
    (write : List UInt8) (readLen : Nat) : Except String TmcuartS :=
  if t.flags.active then .ok t
  else
    let writeLen := write.length
    if writeLen > 10 ∨ readLen > 10 then .error "tmcuart data too large"
    else
      let data := write ++ t.data.drop writeLen
      let t := { t with data := data, pos := 0,
                        flags := { t.flags with active := true, readSync := false, report := false },
                        writeCount := writeLen * 8, readCount := readLen * 8 }
      let t := if writeLen ≥ 1 ∧ data.getD 0 0 &&& 0x3f = 0x2a then { t with func := .sendSyncEvent }
        else { t with bitTime := t.cfgBitTime, func := .sendEvent }
      .ok { t with waketime := addTimerWaketime timerFromUs head now (now + timerFromUs 200) }

/-! ## The send -/

/-- The send from `t`: the timer fires while it runs a send handler, at most `fuel` times, the
    `i`-th time `lat i` ticks after its waketime.  Each event comes with the waketime it was
    scheduled for and its operations on the line.  The send handlers do not read `rx_pin`. -/
def sendRun : Nat → (Nat → UInt32) → TmcuartS → List (UInt32 × List PinOp) × TmcuartS
  | 0, _, t => ([], t)
  | fuel + 1, lat, t =>
    if t.func = .sendSyncEvent ∨ t.func = .sendEvent then
      let r := tmcuartTimer t (t.waketime + lat 0) true
      let rest := sendRun fuel (fun i => lat (i + 1)) r.2.1
      ((t.waketime, r.2.2) :: rest.1, rest.2)
    else ([], t)

/-- Bit `k` of a buffer sent LSB first: bit `k % 8` of byte `k / 8`. -/
def bitOf (data : List UInt8) (k : Nat) : Bool := (data.getD (k / 8) 0).toNat.testBit (k % 8)

/-- The level the line has before slot `k` when it carries the bits: idle high before the
    first, and the bit before after that. -/
def levelBefore (data : List UInt8) : Nat → Bool
  | 0 => true
  | k + 1 => bitOf data k

/-- Whether the line must change at the start of slot `k`. -/
def isToggle (data : List UInt8) (k : Nat) : Bool := bitOf data k != levelBefore data k

/-- The slots from `p` on, below `wc`, at whose start the line must change. -/
def togglesFrom (data : List UInt8) (wc p : Nat) : List Nat :=
  (List.range' p (wc - p)).filter (isToggle data)

/-- The level during slot `k` of a line, idle high, that toggles at the start of the slots
    `toggles`. -/
def levelDuring (toggles : List Nat) (k : Nat) : Bool := toggles.countP (· ≤ k) % 2 = 0

/-- The start of slot `k` on a grid of `cfg` ticks from `w0` before slot `m`, and of `b` ticks
    from `wm` on. -/
def slotTime (w0 cfg : UInt32) (m : Nat) (wm b : UInt32) (k : Nat) : UInt32 :=
  if k < m then w0 + k.toUInt32 * cfg else wm + (k - m).toUInt32 * b

/-! ## Bits and slots -/

section Bits

theorem scanBit_eq (data : List UInt8) (pos : Nat) :
    (data.getD (pos >>> 3) 0 >>> (pos &&& 0x07).toUInt8) &&& 0x01 =
      if bitOf data pos then 1 else 0 := by
  have h3 : pos >>> 3 = pos / 8 := Nat.shiftRight_eq_div_pow pos 3
  have h7 : pos &&& 0x07 = pos % 8 := Nat.and_two_pow_sub_one_eq_mod pos 3
  have h8 : pos % 8 < 8 := Nat.mod_lt _ (by norm_num)
  apply UInt8.toNat_inj.mp
  rw [UInt8.toNat_and, UInt8.toNat_shiftRight, h3, h7, Nat.toUInt8_eq, UInt8.toNat_ofNat',
    Nat.mod_eq_of_lt (by omega : pos % 8 < 256), Nat.mod_eq_of_lt h8, bitOf,
    Nat.testBit_eq_decide_div_mod_eq, Nat.shiftRight_eq_div_pow]
  split_ifs with h
  · simp at h
    simp [h]
  · simp at h
    simp
    omega

theorem ite_bit_eq_iff (a c : Bool) :
    ((if a then 1 else 0 : UInt8) = if c then 1 else 0) ↔ a = c := by
  cases a <;> cases c <;> decide

/-- Slots on a grid add up. -/
theorem add_slots (w b : UInt32) (i j : Nat) :
    w + i.toUInt32 * b + j.toUInt32 * b = w + (i + j).toUInt32 * b := by
  rw [Nat.toUInt32_eq, Nat.toUInt32_eq, Nat.toUInt32_eq, UInt32.ofNat_add]
  grind

theorem succ_slots (b : UInt32) (n : Nat) : b + n.toUInt32 * b = (n + 1).toUInt32 * b := by
  rw [Nat.toUInt32_eq, Nat.toUInt32_eq, UInt32.ofNat_add, UInt32.ofNat_one]
  grind

end Bits

/-! ## The slots that toggle -/

section Toggles

variable {data : List UInt8} {wc p q : Nat}

theorem togglesFrom_of_ge (h : wc ≤ p) : togglesFrom data wc p = [] := by
  simp [togglesFrom, show wc - p = 0 by omega]

theorem togglesFrom_eq (hp : p < wc) :
    togglesFrom data wc p =
      if isToggle data p then p :: togglesFrom data wc (p + 1) else togglesFrom data wc (p + 1) := by
  unfold togglesFrom
  rw [show wc - p = (wc - (p + 1)) + 1 by omega, List.range'_succ, List.filter_cons]

theorem mem_togglesFrom {k : Nat} (hk : k ∈ togglesFrom data wc p) : p ≤ k ∧ k < wc := by
  unfold togglesFrom at hk
  obtain ⟨i, hi, rfl⟩ := List.mem_range'.mp (List.mem_filter.mp hk).1
  omega

theorem length_togglesFrom_le (data : List UInt8) (wc p : Nat) :
    (togglesFrom data wc p).length ≤ wc - p := by
  unfold togglesFrom
  exact (List.length_filter_le _ _).trans (by simp)

/-- No slot from `p` to `q` toggles. -/
theorem togglesFrom_skip (hpq : p ≤ q) (hq : q ≤ wc)
    (hno : ∀ j, p ≤ j → j < q → isToggle data j = false) :
    togglesFrom data wc p = togglesFrom data wc q := by
  obtain ⟨d, rfl⟩ : ∃ d, q = p + d := ⟨q - p, by omega⟩
  induction d generalizing p with
  | zero => rfl
  | succ d ih =>
    rw [togglesFrom_eq (by omega), if_neg (by simp [hno p le_rfl (by omega)]),
      ih (by omega) (by omega) (fun j hj hjq => hno j (by omega) (by omega)),
      show p + 1 + d = p + (d + 1) by omega]

/-- Every slot from `p` to `q` toggles. -/
theorem togglesFrom_all (hpq : p ≤ q) (hq : q ≤ wc)
    (hall : ∀ j, p ≤ j → j < q → isToggle data j = true) :
    togglesFrom data wc p = List.range' p (q - p) ++ togglesFrom data wc q := by
  obtain ⟨d, rfl⟩ : ∃ d, q = p + d := ⟨q - p, by omega⟩
  induction d generalizing p with
  | zero => simp
  | succ d ih =>
    rw [togglesFrom_eq (by omega), if_pos (hall p le_rfl (by omega)),
      ih (by omega) (by omega) (fun j hj hjq => hall j (by omega) (by omega)),
      show p + (d + 1) - p = d + 1 by omega, show p + 1 + d - (p + 1) = d by omega,
      List.range'_succ, show p + 1 + d = p + (d + 1) by omega]
    rfl

theorem isToggle_succ (data : List UInt8) (j : Nat) :
    isToggle data (j + 1) = (bitOf data (j + 1) != bitOf data j) := rfl

section Same

variable (hsame : ∀ j, p < j → j < q → bitOf data j = bitOf data p)
include hsame

/-- In a run of slots after `p` that agree with bit `p`, the slot before each one agrees too:
    it is `p` itself or in the run. -/
theorem bitOf_of_same {i : Nat} (hpi : p ≤ i) (hiq : i < q) : bitOf data i = bitOf data p := by
  rcases Nat.eq_or_lt_of_le hpi with h | h
  · rw [h]
  · exact hsame i h hiq

/-- The slots after `p` whose bits agree with bit `p` do not toggle. -/
theorem isToggle_of_same : ∀ j, p < j → j < q → isToggle data j = false := by
  intro j hpj hjq
  obtain ⟨i, rfl⟩ : ∃ i, j = i + 1 := ⟨j - 1, by omega⟩
  rw [isToggle_succ, hsame (i + 1) hpj hjq,
    bitOf_of_same hsame (show p ≤ i by omega) (show i < q by omega)]
  simp

/-- The first slot after the run, where the bit differs from bit `p`, toggles. -/
theorem isToggle_of_change (hpq : p < q) (hdiff : bitOf data q ≠ bitOf data p) :
    isToggle data q = true := by
  obtain ⟨i, rfl⟩ : ∃ i, q = i + 1 := ⟨q - 1, by omega⟩
  rw [isToggle_succ, bitOf_of_same hsame (show p ≤ i by omega) (show i < i + 1 by omega)]
  simpa using hdiff

end Same

theorem bitOf_append {write rest : List UInt8} {k : Nat} (hk : k < 8 * write.length) :
    bitOf (write ++ rest) k = bitOf write k := by
  unfold bitOf
  rw [List.getD_append _ _ _ _ (by omega)]

/-- The toggles of two buffers agree where their bits do. -/
theorem togglesFrom_congr {d d' : List UInt8} {wc : Nat} (h : ∀ k < wc, bitOf d k = bitOf d' k)
    (p : Nat) : togglesFrom d wc p = togglesFrom d' wc p := by
  unfold togglesFrom
  apply List.filter_congr
  intro k hk
  have hk' := List.mem_range'.mp hk
  cases k with
  | zero => simp only [isToggle, levelBefore, h 0 (by omega)]
  | succ j => rw [isToggle_succ, isToggle_succ, h (j + 1) (by omega), h j (by omega)]

theorem parity_step {c : Nat} {a b : Bool} (h : decide (c % 2 = 0) = b) :
    decide ((c + if (a != b) = true then 1 else 0) % 2 = 0) = a := by
  cases a <;> cases b <;> simp at h ⊢ <;> omega

/-- The parity of the toggles up to slot `k` is the bit of slot `k`, by induction on `k`: each
    slot toggles exactly when its bit differs from the one before. -/
theorem countP_isToggle (data : List UInt8) (k : Nat) :
    decide ((List.range' 0 (k + 1)).countP (isToggle data) % 2 = 0) = bitOf data k := by
  induction k with
  | zero =>
    simp only [zero_add, List.range'_one, List.countP_singleton, isToggle, levelBefore]
    rcases Bool.eq_false_or_eq_true (bitOf data 0) with h | h <;> simp [h]
  | succ k ih =>
    rw [List.range'_concat, List.countP_append, List.countP_singleton, Nat.one_mul, Nat.zero_add,
      isToggle_succ]
    exact parity_step ih

/-- **The line carries the bits**: toggled at the slots that toggle, it is during slot `k` at
    the level of bit `k`. -/
theorem levelDuring_togglesFrom {wc k : Nat} (hk : k < wc) :
    levelDuring (togglesFrom data wc 0) k = bitOf data k := by
  unfold levelDuring togglesFrom
  rw [show wc - 0 = (k + 1) + (wc - (k + 1)) by omega, ← List.range'_append, List.filter_append,
    List.countP_append, List.countP_filter, List.countP_filter]
  -- the toggles up to `k` all count, and none after
  have hle : (List.range' 0 (k + 1)).countP (fun j => decide (j ≤ k) && isToggle data j) =
      (List.range' 0 (k + 1)).countP (isToggle data) := by
    apply List.countP_congr
    intro j hj
    have := (List.mem_range'.mp hj)
    simp only [Bool.and_eq_true, decide_eq_true_eq, and_iff_right_iff_imp]
    intro _
    omega
  have hgt : (List.range' (0 + 1 * (k + 1)) (wc - (k + 1))).countP
      (fun j => decide (j ≤ k) && isToggle data j) = 0 := by
    rw [List.countP_eq_zero]
    intro j hj
    have := (List.mem_range'.mp hj)
    simp only [Bool.and_eq_true, decide_eq_true_eq, not_and]
    omega
  rw [hle, hgt, Nat.add_zero, countP_isToggle]

end Toggles

/-! ## The scan phase -/

section Scan

theorem sendScan_eq {data : List UInt8} {wc : Nat} {lvl : Bool} {b : UInt32} {p q : Nat}
    (hpq : p < q) (hq : q ≤ wc) (hdiff : q < wc → bitOf data q ≠ lvl)
    (hsame : ∀ j, p < j → j < q → bitOf data j = lvl) (next : UInt32) :
    sendScan data wc (if lvl then 1 else 0) b p next =
      (if q < wc then some q else none, next + (q - p - 1).toUInt32 * b) := by
  fun_induction sendScan data wc (if lvl then 1 else 0) b p next with
  | case1 pos next _ hend =>
    -- the loop reached `write_count`, which is `q`, one past `pos`
    have hq' : q = pos + 1 := by omega
    rw [if_neg (by omega), hq', show pos + 1 - pos - 1 = 0 by omega]
    simp
  | case2 pos next p1 hlt byte bit hne =>
    -- the bit at `pos + 1` differs, so it is `q`: the bits before `q` agree with the line
    have hb : bit = if bitOf data (pos + 1) then 1 else 0 := scanBit_eq data (pos + 1)
    rw [hb, Ne, ite_bit_eq_iff] at hne
    have hq' : q = pos + 1 := by
      by_contra hne'
      exact hne (hsame (pos + 1) (by omega) (by omega))
    rw [if_pos (by omega), hq', show pos + 1 - pos - 1 = 0 by omega, show p1 = pos + 1 from rfl]
    simp
  | case3 pos next p1 hlt byte bit heq ih =>
    -- the bit at `pos + 1` agrees: one more `bit_time`, and `q` is further on
    have hb : bit = if bitOf data (pos + 1) then 1 else 0 := scanBit_eq data (pos + 1)
    rw [hb, Ne, ite_bit_eq_iff, not_not] at heq
    have hlt' : pos + 1 < q := by
      by_contra hge
      exact hdiff (by omega) (show q = pos + 1 by omega ▸ heq)
    rw [ih hlt' (fun j hj hjq => hsame j (by omega) hjq), show p1 = pos + 1 from rfl,
      show q - pos - 1 = 1 + (q - (pos + 1) - 1) by omega, ← add_slots]
    simp

/-- The next slot after `p` whose bit differs from bit `p`, or `wc` when there is none. -/
theorem exists_next_change (data : List UInt8) {wc p : Nat} (hp : p < wc) :
    ∃ q, p < q ∧ q ≤ wc ∧ (q < wc → bitOf data q ≠ bitOf data p) ∧
      ∀ j, p < j → j < q → bitOf data j = bitOf data p := by
  classical
  have hex : ∃ q, p < q ∧ (q = wc ∨ bitOf data q ≠ bitOf data p) := ⟨wc, hp, Or.inl rfl⟩
  obtain ⟨hpq, hq⟩ := Nat.find_spec hex
  refine ⟨Nat.find hex, hpq, Nat.find_min' hex ⟨hp, Or.inl rfl⟩, ?_, ?_⟩
  · intro hlt
    rcases hq with h | h
    · omega
    · exact h
  · -- before the first such slot every bit agrees
    intro j hpj hjq
    by_contra hne
    exact Nat.find_min hex hjq ⟨hpj, Or.inr hne⟩

variable {t : TmcuartS}

/-- **One event of the scan phase**: the toggle at slot `t.pos` brings the line to bit `t.pos`,
    and the timer sleeps `q - t.pos` slots, to the next slot `q` whose bit differs or to the
    finish at `write_count`. -/
theorem sendEvent_step (hline : t.flags.lineHigh = !bitOf t.data t.pos) {q : Nat}
    (hpq : t.pos < q) (hq : q ≤ t.writeCount)
    (hdiff : q < t.writeCount → bitOf t.data q ≠ bitOf t.data t.pos)
    (hsame : ∀ j, t.pos < j → j < q → bitOf t.data j = bitOf t.data t.pos) :
    tmcuartSendEvent t = (.reschedule,
      if q < t.writeCount then
        { t with flags := { t.flags with lineHigh := bitOf t.data t.pos }, pos := q,
                 waketime := t.waketime + (q - t.pos).toUInt32 * t.bitTime }
      else
        { t with flags := { t.flags with lineHigh := bitOf t.data t.pos },
                 func := .sendFinishEvent,
                 waketime := t.waketime + (q - t.pos).toUInt32 * t.bitTime },
      [.toggle ()]) := by
  have hnext : t.bitTime + (q - t.pos - 1).toUInt32 * t.bitTime =
      (q - t.pos).toUInt32 * t.bitTime := by
    rw [succ_slots, show q - t.pos - 1 + 1 = q - t.pos by omega]
  unfold tmcuartSendEvent
  dsimp only
  rw [hline, Bool.not_not, sendScan_eq hpq hq hdiff hsame]
  split_ifs <;> simp [hnext]

theorem sendRun_of_func {fuel : Nat} {lat : Nat → UInt32}
    (h : t.func ≠ .sendSyncEvent ∧ t.func ≠ .sendEvent) : sendRun fuel lat t = ([], t) := by
  cases fuel with
  | zero => rfl
  | succ fuel => simp [sendRun, h.1, h.2]

/-- **The scan phase.**  From an event at a slot that toggles, with the line at the other level,
    the run toggles at the start of every slot that toggles from there on, `k - t.pos` slots
    after, and schedules the finish `write_count - t.pos` slots after. -/
theorem sendRun_send :
    ∀ (fuel : Nat) (lat : Nat → UInt32) (t : TmcuartS), t.func = .sendEvent →
      t.pos < t.writeCount → isToggle t.data t.pos = true →
      t.flags.lineHigh = !bitOf t.data t.pos →
      (togglesFrom t.data t.writeCount t.pos).length ≤ fuel →
      (sendRun fuel lat t).1 = (togglesFrom t.data t.writeCount t.pos).map (fun k =>
          (t.waketime + (k - t.pos).toUInt32 * t.bitTime, [GpioOp.toggle ()])) ∧
        (sendRun fuel lat t).2.func = .sendFinishEvent ∧
        (sendRun fuel lat t).2.waketime =
          t.waketime + (t.writeCount - t.pos).toUInt32 * t.bitTime
  | 0, lat, t, _, hp, ht, _, hfuel => by
    rw [togglesFrom_eq hp, if_pos ht] at hfuel
    simp at hfuel
  | fuel + 1, lat, t, hf, hp, ht, hline, hfuel => by
    obtain ⟨q, hpq, hq, hdiff, hsame⟩ := exists_next_change t.data hp
    -- the slots after `t.pos` up to `q` do not toggle
    have hcons : togglesFrom t.data t.writeCount t.pos =
        t.pos :: togglesFrom t.data t.writeCount q := by
      rw [togglesFrom_eq hp, if_pos ht, togglesFrom_skip hpq hq
        (fun j hj hjq => isToggle_of_same hsame j hj hjq)]
    have hrun : sendRun (fuel + 1) lat t =
        ((t.waketime, [GpioOp.toggle ()]) :: (sendRun fuel (fun i => lat (i + 1))
          (tmcuartSendEvent t).2.1).1, (sendRun fuel (fun i => lat (i + 1))
          (tmcuartSendEvent t).2.1).2) := by
      simp [sendRun, tmcuartTimer, hf, sendEvent_step hline hpq hq hdiff hsame]
    rw [hrun, hcons, sendEvent_step hline hpq hq hdiff hsame]
    by_cases hqw : q < t.writeCount
    · -- a later slot toggles: the run goes on from it
      rw [if_pos hqw]
      have htq : isToggle t.data q = true := isToggle_of_change hsame hpq (hdiff hqw)
      have hlq : bitOf t.data t.pos = !bitOf t.data q := Bool.eq_not_of_ne (hdiff hqw).symm
      rw [hcons, List.length_cons] at hfuel
      obtain ⟨h1, h2, h3⟩ := sendRun_send fuel (fun i => lat (i + 1))
        { t with flags := { t.flags with lineHigh := bitOf t.data t.pos }, pos := q,
                 waketime := t.waketime + (q - t.pos).toUInt32 * t.bitTime }
        hf hqw htq hlq (by simpa using hfuel)
      refine ⟨?_, h2, ?_⟩
      · rw [h1, List.map_cons, Nat.sub_self]
        refine congrArg₂ List.cons (by simp) (List.map_congr_left fun k hk => ?_)
        -- slot `k` is `k - q` slots after `q`, which is `q - t.pos` after `t.pos`
        have hqk : q ≤ k := (mem_togglesFrom hk).1
        dsimp only
        rw [add_slots, show q - t.pos + (k - q) = k - t.pos by omega]
      · rw [h3]
        dsimp only
        rw [add_slots, show q - t.pos + (t.writeCount - q) = t.writeCount - t.pos by omega]
    · -- the finish: no slot after `t.pos` toggles
      rw [if_neg hqw]
      have hqe : q = t.writeCount := by omega
      rw [sendRun_of_func (by simp), hqe, togglesFrom_of_ge le_rfl]
      simp

end Scan

/-! ## The sync nibble -/

section Sync

/-- The scan phase's state after the sync nibble. -/
def afterSync (t : TmcuartS) (lat0 lat4 : UInt32) : TmcuartS :=
  let c := t.cfgBitTime
  let diff : Int32 := (lat4 - lat0).toInt32
  let b := c + ((diff + 2) / 4).toUInt32
  { t with flags := { t.flags with lineHigh := !t.flags.lineHigh }, pos := 5, bitTime := b,
           func := .sendEvent, waketime := t.waketime + 4 * c + (diff.toUInt32 + b) }

theorem sendRun_sync (fuel : Nat) (lat : Nat → UInt32) (t : TmcuartS)
    (hf : t.func = .sendSyncEvent) (hpos : t.pos = 0) :
    sendRun (fuel + 5) lat t =
      ((List.range 5).map (fun i => (t.waketime + i.toUInt32 * t.cfgBitTime, [GpioOp.toggle ()])) ++
        (sendRun fuel (fun i => lat (i + 5)) (afterSync t (lat 0) (lat 4))).1,
        (sendRun fuel (fun i => lat (i + 5)) (afterSync t (lat 0) (lat 4))).2) := by
  -- the events come `cfg_bit_time` apart, and the fifth reads the latencies of the first and
  -- its own
  have h2 : t.waketime + t.cfgBitTime + t.cfgBitTime = t.waketime + 2 * t.cfgBitTime := by grind
  have h3 : t.waketime + 2 * t.cfgBitTime + t.cfgBitTime = t.waketime + 3 * t.cfgBitTime := by
    grind
  have h4 : t.waketime + 3 * t.cfgBitTime + t.cfgBitTime = t.waketime + 4 * t.cfgBitTime := by
    grind
  have hlat : (fun i => lat (i + 1 + 1 + 1 + 1 + 1)) = fun i => lat (i + 5) := rfl
  simp [sendRun, tmcuartTimer, tmcuartSendSyncEvent, hf, hpos, afterSync, h2, h3, h4, hlat,
    List.range_succ]

/-- Bits 0 to 5 of a buffer that opens with the sync nibble are those of `0x2a`. -/
theorem bitOf_sync {data : List UInt8} (h : data.getD 0 0 &&& 0x3f = 0x2a) {k : Nat}
    (hk : k < 6) : bitOf data k = (0x2a : Nat).testBit k := by
  have hlow : (data.getD 0 0).toNat % 2 ^ 6 = 0x2a := by
    have h' := congrArg UInt8.toNat h
    rw [UInt8.toNat_and] at h'
    rw [← Nat.and_two_pow_sub_one_eq_mod]
    exact h'
  rw [bitOf, Nat.div_eq_of_lt (by omega : k < 8), Nat.mod_eq_of_lt (by omega : k < 8), ← hlow,
    Nat.testBit_mod_two_pow, decide_eq_true hk, Bool.true_and]

/-- The sync nibble toggles at each of the slots 0 to 5. -/
theorem isToggle_sync {data : List UInt8} (h : data.getD 0 0 &&& 0x3f = 0x2a) {k : Nat}
    (hk : k < 6) : isToggle data k = true := by
  cases k with
  | zero => rw [isToggle, levelBefore, bitOf_sync h (by omega)]; decide
  | succ j =>
    have hj : j < 5 := by omega
    rw [isToggle_succ, bitOf_sync h hk, bitOf_sync h (by omega)]
    interval_cases j <;> decide

end Sync

/-! ## The command -/

section Command

variable {timerFromUs : UInt32 → UInt32} {head now : UInt32} {t t0 : TmcuartS}
  {write : List UInt8} {readLen : Nat}

/-- What `command_tmcuart_send` leaves when the UART is free and it does not shut down. -/
theorem commandTmcuartSend_ok (hfree : t.flags.active = false)
    (h : commandTmcuartSend timerFromUs head now t write readLen = .ok t0) :
    t0.data = write ++ t.data.drop write.length ∧ t0.pos = 0 ∧
      t0.writeCount = write.length * 8 ∧ t0.flags.lineHigh = t.flags.lineHigh ∧
      t0.cfgBitTime = t.cfgBitTime ∧
      if write.length ≥ 1 ∧ (write ++ t.data.drop write.length).getD 0 0 &&& 0x3f = 0x2a then
        t0.func = .sendSyncEvent
      else t0.func = .sendEvent ∧ t0.bitTime = t.cfgBitTime := by
  unfold commandTmcuartSend at h
  rw [if_neg (by simp [hfree])] at h
  dsimp only at h
  split_ifs at h with hbig hsync
  · cases h
    exact ⟨rfl, rfl, rfl, rfl, rfl, by rw [if_pos hsync]⟩
  · cases h
    exact ⟨rfl, rfl, rfl, rfl, rfl, by rw [if_neg hsync]; exact ⟨rfl, rfl⟩⟩

end Command

/-! ## The send spells the buffer -/

theorem tmcuart_send_spells_buffer (timerFromUs : UInt32 → UInt32) (head now : UInt32)
    (t t0 : TmcuartS) (write : List UInt8) (readLen : Nat) (lat : Nat → UInt32) (fuel : Nat)
    (hn : 1 ≤ write.length) (hstart : bitOf write 0 = false) (hidle : t.flags.lineHigh = true)
    (hfree : t.flags.active = false)
    (hcmd : commandTmcuartSend timerFromUs head now t write readLen = .ok t0)
    (hfuel : 8 * write.length ≤ fuel) :
    (∀ k < 8 * write.length,
      levelDuring (togglesFrom write (8 * write.length) 0) k = bitOf write k) ∧
    ∃ m wm b, (m = 0 ∧ wm = t0.waketime ∧ b = t.cfgBitTime ∨ m = 5) ∧
      (sendRun fuel lat t0).1 = (togglesFrom write (8 * write.length) 0).map (fun k =>
        (slotTime t0.waketime t.cfgBitTime m wm b k, [GpioOp.toggle ()])) ∧
      (sendRun fuel lat t0).2.func = .sendFinishEvent ∧
      (sendRun fuel lat t0).2.waketime =
        slotTime t0.waketime t.cfgBitTime m wm b (8 * write.length) := by
  obtain ⟨hdata, hpos, hwc, hline, hcfg, hfunc⟩ := commandTmcuartSend_ok hfree hcmd
  rw [Nat.mul_comm] at hwc
  -- the buffer's bits are those of `data`, and so are its toggles
  have hbits : ∀ k < 8 * write.length, bitOf t0.data k = bitOf write k := fun k hk => by
    rw [hdata, bitOf_append hk]
  have htog := togglesFrom_congr hbits
  have hlen := length_togglesFrom_le t0.data t0.writeCount
  refine ⟨fun k hk => levelDuring_togglesFrom hk, ?_⟩
  split_ifs at hfunc with hsync
  · -- the sync nibble at slots 0 to 4, then the scan from slot 5 on the corrected grid
    have hs0 : t0.data.getD 0 0 &&& 0x3f = 0x2a := hdata ▸ hsync.2
    obtain ⟨f, rfl⟩ : ∃ f, fuel = f + 5 := ⟨fuel - 5, by omega⟩
    have hsplit : togglesFrom t0.data t0.writeCount 0 =
        List.range 5 ++ togglesFrom t0.data t0.writeCount 5 :=
      togglesFrom_all (q := 5) (by omega) (by omega) (fun j _ hj => isToggle_sync hs0 (by omega))
    have e_pos : (afterSync t0 (lat 0) (lat 4)).pos = 5 := rfl
    have e_data : (afterSync t0 (lat 0) (lat 4)).data = t0.data := rfl
    have e_wc : (afterSync t0 (lat 0) (lat 4)).writeCount = t0.writeCount := rfl
    have e_line : (afterSync t0 (lat 0) (lat 4)).flags.lineHigh = !t0.flags.lineHigh := rfl
    obtain ⟨h1, h2, h3⟩ := sendRun_send f (fun i => lat (i + 5)) (afterSync t0 (lat 0) (lat 4))
      rfl (by rw [e_pos, e_wc]; omega)
      (by rw [e_pos, e_data]; exact isToggle_sync hs0 (by omega))
      (by rw [e_line, e_data, e_pos, hline, hidle, bitOf_sync hs0 (by omega)]; decide)
      (by rw [e_data, e_wc, e_pos]; have := hlen 5; omega)
    rw [e_data, e_wc, e_pos] at h1
    rw [e_wc, e_pos] at h3
    rw [sendRun_sync f lat t0 hfunc hpos]
    refine ⟨5, (afterSync t0 (lat 0) (lat 4)).waketime, (afterSync t0 (lat 0) (lat 4)).bitTime,
      Or.inr rfl, ?_, h2, ?_⟩
    · rw [h1, ← htog, ← hwc, hsplit, List.map_append, hcfg]
      refine congrArg₂ (· ++ ·) ?_ ?_
      · -- slots 0 to 4 are on the grid of `cfg_bit_time`
        apply List.map_congr_left
        intro k hk
        simp only [slotTime, if_pos (List.mem_range.mp hk)]
      · apply List.map_congr_left
        intro k hk
        have h5k : 5 ≤ k := (mem_togglesFrom hk).1
        simp only [slotTime, if_neg (show ¬k < 5 by omega)]
    · rw [h3, slotTime, if_neg (by omega), hwc]
  · -- no sync nibble: the scan from slot 0 on the grid of `cfg_bit_time`
    have ht0 : isToggle t0.data t0.pos = true := by
      rw [hpos, isToggle, levelBefore, hbits 0 (by omega), hstart]
      rfl
    obtain ⟨h1, h2, h3⟩ := sendRun_send fuel lat t0 hfunc.1 (by omega) ht0
      (by rw [hline, hidle, hpos, hbits 0 (by omega), hstart]; rfl)
      (by have := hlen t0.pos; omega)
    refine ⟨0, t0.waketime, t.cfgBitTime, Or.inl ⟨rfl, rfl, rfl⟩, ?_, h2, ?_⟩
    · rw [h1, hpos, ← htog, ← hwc, hfunc.2]
      apply List.map_congr_left
      intro k _
      simp only [slotTime, if_neg (Nat.not_lt_zero k)]
    · rw [h3, hpos, hfunc.2, ← hwc]
      rfl

/-- A register read request as the host frames it (`0xf5 0x00 0x6c` and its CRC, ten bits a
    byte): it opens with the sync nibble. -/
def readRequest : List UInt8 := [0xea, 0x03, 0x88, 0xad, 0xc6]

/-- An idle single-wire UART at 100 ticks a bit. -/
def idleUart : TmcuartS :=
  ⟨0, .sendEvent, ⟨true, false, false, false, false, true⟩, 0, 0, 0, 100, 100, List.replicate 10 0⟩

/-- `idleUart` after `command_tmcuart_send` of `readRequest` with a reply of ten bytes. -/
def startedUart : TmcuartS :=
  ⟨4200, .sendSyncEvent, ⟨true, true, false, false, false, true⟩, 0, 80, 40, 100, 100,
    readRequest ++ List.replicate 5 0⟩

/-- The read request, sent by a timer that is never late, ends in the finish, having carried its
    40 bits. -/
theorem tmcuart_send_spells_read_request :
    commandTmcuartSend (· * 16) 1000 1000 idleUart readRequest 10 = .ok startedUart ∧
      (sendRun 40 (fun _ => 0) startedUart).2.func = .sendFinishEvent ∧
      ∀ k < 40, levelDuring (togglesFrom readRequest 40 0) k = bitOf readRequest k := by
  obtain ⟨hl, _, _, _, _, _, hf, _⟩ := tmcuart_send_spells_buffer (· * 16) 1000 1000 idleUart
    startedUart readRequest 10 (fun _ => 0) 40 (by decide) (by decide) rfl rfl rfl (by decide)
  exact ⟨rfl, hf, hl⟩

end Klipper.Tmcuart
