import Mathlib
import Klipper.Lib.LittleEndian
import Klipper.Lib.Transition

/-
  Serial over CAN on the MCU (`generic/canserial.c`).

  1. **A configured UUID** (`canserial_set_uuid_custom`).  With `CONFIG_CAN_UUID_CUSTOM` the UUID
     is a text of hex digit pairs.  `reverse_hex_string` reverses the order of the pairs in place
     (`reverseHexString_flat`), `hex_to_decimal` reads the result as one hexadecimal number, the
     last digit lowest (`hexToDecimal_eq`), and `memcpy` stores the six low bytes of that
     `uint64_t`, lowest first.  So the UUID is the bytes written in the text, in order, then zeros.
     The in-place loop is carried by one invariant over its index (`reverseLoop_getElem?`): the
     pairs it has passed, and their mirror images, have changed places, and no other pair has.
  2. **The admin queue** (`AdminLink`): `canserial_process_data`, called from the CAN interrupt,
     puts admin frames in an array of eight at `admin_push_pos % 8`, and `canserial_rx_task`
     takes them from `admin_pull_pos % 8`; both positions are free-running `uint32_t`.  In every
     run at most eight frames are pending and the frames taken are the frames put, in order, each
     once (`AdminLink.inv_of_reachable`); each event's part is `waiting_push` or `waiting_pop`.
     But the queue is full when `pushp >= pullp + 8`, computed in 32 bits: once `admin_pull_pos`
     reaches `2^32 - 8`, which empty admin frames bring it to (`AdminLink.reachable_positions`),
     `pullp + 8` wraps to zero and every admin frame is dropped, with none pending, for ever
     after (`canserial_admin_queue_wedged`).
-/

namespace Klipper.CanSerial

/-! ## The configured UUID -/

/-- `hex_char_to_decimal` -/
def hexCharToDecimal (c : Char) : Nat :=
  if '0' ≤ c ∧ c ≤ '9' then c.toNat - '0'.toNat
  else if 'A' ≤ c ∧ c ≤ 'F' then c.toNat - 'A'.toNat + 10
  else if 'a' ≤ c ∧ c ≤ 'f' then c.toNat - 'a'.toNat + 10
  else 0

/-- `hex_to_decimal`: the digits from the last, each times a running power of 16, in
    `uint64_t`. -/
def hexToDecimal (hexNum : List Char) : UInt64 :=
  (hexNum.foldr (fun c (s : UInt64 × UInt64) =>
    (s.1 + (hexCharToDecimal c).toUInt64 * s.2, s.2 * 16)) (0, 1)).1

/-- One pass of the loop of `reverse_hex_string`: the pair at `i` and the pair at `len - i - 2`
    change places, through `temp1` and `temp2`. -/
def swapPairs (hexStr : List Char) (len i : Nat) : List Char :=
  let temp1 := hexStr.getD i '0'
  let temp2 := hexStr.getD (i + 1) '0'
  let hexStr := hexStr.set i (hexStr.getD (len - i - 2) '0')
  let hexStr := hexStr.set (i + 1) (hexStr.getD (len - i - 1) '0')
  let hexStr := hexStr.set (len - i - 2) temp1
  hexStr.set (len - i - 1) temp2

/-- The loop `for (i = 0; i < len / 2; i += 2)` of `reverse_hex_string`, from `i`. -/
def reverseLoop (len : Nat) (hexStr : List Char) (i : Nat) : List Char :=
  if i < len / 2 then reverseLoop len (swapPairs hexStr len i) (i + 2) else hexStr
termination_by len / 2 - i

/-- `reverse_hex_string`: a text of odd length is left alone. -/
def reverseHexString (hexStr : List Char) : List Char :=
  let len := hexStr.length
  if len % 2 ≠ 0 then hexStr else reverseLoop len hexStr 0

/-- `canserial_set_uuid` with `CONFIG_CAN_UUID_CUSTOM`: the six low bytes of the number read
    from the reversed text, lowest first, as `memcpy` copies a `uint64_t`. -/
def canserialSetUuid (uuidCustom : List Char) : List UInt8 :=
  let configUuid := hexToDecimal (reverseHexString uuidCustom)
  (List.range 6).map fun i => (configUuid >>> (8 * i).toUInt64).toUInt8

/-- The text of some pairs of characters. -/
def flat (pairs : List (Char × Char)) : List Char := pairs.flatMap fun p => [p.1, p.2]

/-- `c` is the hexadecimal digit `d`, in either case. -/
def Spells (c : Char) (d : Nat) : Prop := c = Nat.digitChar d ∨ c = (Nat.digitChar d).toUpper

instance (c : Char) (d : Nat) : Decidable (Spells c d) := inferInstanceAs (Decidable (_ ∨ _))

/-- Where the character at `j` of a text of length `len` comes from when its pairs are
    reversed. -/
def mirror (len j : Nat) : Nat := len - 2 - 2 * (j / 2) + j % 2

/-! ### Reversing the pairs -/

section Reverse

/-- Where one pass of the loop at `i` reads the character it puts at `j`. -/
def swapIndex (len i j : Nat) : Nat :=
  if j = i then len - i - 2 else if j = i + 1 then len - i - 1
  else if j = len - i - 2 then i else if j = len - i - 1 then i + 1 else j

/-- Where the character at `j` comes from once the loop has passed `i`: the pairs before `i / 2`
    and their mirror images have changed places. -/
def reversedUpTo (len i j : Nat) : Nat :=
  if j / 2 < i / 2 ∨ len / 2 - 1 - j / 2 < i / 2 then mirror len j else j

theorem length_swapPairs (hexStr : List Char) (len i : Nat) :
    (swapPairs hexStr len i).length = hexStr.length := by
  simp [swapPairs]

/-- One pass, read back: the characters at `i`, `i + 1` and at `len - i - 2`, `len - i - 1`
    trade places (the same places when the two pairs are one). -/
theorem swapPairs_getElem? {s : List Char} {len i : Nat} (hlen : s.length = len)
    (heven : len % 2 = 0) (hi : 2 * i + 2 ≤ len) (j : Nat) :
    (swapPairs s len i)[j]? = s[swapIndex len i j]? := by
  simp only [swapPairs, swapIndex, List.getElem?_set, List.length_set, List.getD_eq_getElem?_getD]
  -- the four places lie in the text and are two pairs or one: a comparison of indices each
  split_ifs <;> grind

/-- One more pass moves the invariant from `i` to `i + 2`. -/
theorem reversedUpTo_swapIndex {len i j : Nat} (heven : len % 2 = 0) (hi2 : i % 2 = 0)
    (hi : i < len / 2) (hj : j < len) :
    reversedUpTo len i (swapIndex len i j) = reversedUpTo len (i + 2) j := by
  unfold reversedUpTo swapIndex mirror
  split_ifs <;> omega

/-- **The loop of `reverse_hex_string`.**  From an index the invariant holds at, the loop ends
    with every pair in its mirror place. -/
theorem reverseLoop_getElem? {s : List Char} {len : Nat} (heven : len % 2 = 0) (i : Nat)
    (t : List Char) (hi2 : i % 2 = 0) (ht : t.length = len)
    (hinv : ∀ j < len, t[j]? = s[reversedUpTo len i j]?) :
    ∀ j < len, (reverseLoop len t i)[j]? = s[mirror len j]? := by
  fun_induction reverseLoop len t i with
  | case1 t i hi ih =>
    -- one pass: read through the swap, then through the invariant at `i`
    refine ih (by omega) (by rw [length_swapPairs, ht]) fun j hj => ?_
    have hsw : swapIndex len i j < len := by unfold swapIndex; split_ifs <;> omega
    rw [swapPairs_getElem? ht heven (by omega), hinv _ hsw,
      reversedUpTo_swapIndex heven hi2 hi hj]
  | case2 t i hi =>
    -- past the middle every pair has been reached from one side or the other
    intro j hj
    rw [hinv j hj, reversedUpTo, if_pos (by omega)]

theorem length_reverseHexString (hexStr : List Char) :
    (reverseHexString hexStr).length = hexStr.length := by
  unfold reverseHexString
  dsimp only
  split_ifs with h
  · rfl
  · -- every pass keeps the length
    suffices ∀ i t, t.length = hexStr.length → (reverseLoop hexStr.length t i).length =
        hexStr.length from this 0 hexStr rfl
    intro i t ht
    fun_induction reverseLoop hexStr.length t i with
    | case1 t i _ ih => exact ih (by rw [length_swapPairs, ht])
    | case2 t i _ => exact ht

/-- `reverse_hex_string` puts every character of a text of even length at its mirror place. -/
theorem reverseHexString_getElem? {s : List Char} (heven : s.length % 2 = 0) {j : Nat}
    (hj : j < s.length) : (reverseHexString s)[j]? = s[mirror s.length j]? := by
  unfold reverseHexString
  rw [if_neg (by omega)]
  refine reverseLoop_getElem? heven 0 s rfl rfl (fun j _ => ?_) j hj
  rw [reversedUpTo, if_neg (by omega)]

theorem length_flat (pairs : List (Char × Char)) : (flat pairs).length = 2 * pairs.length := by
  induction pairs with
  | nil => rfl
  | cons q ps ih =>
    simp only [flat, List.flatMap_cons, List.length_append, List.length_cons,
      List.length_nil] at ih ⊢
    omega

/-- Character `j` of the text of some pairs is a character of pair `j / 2`. -/
theorem getElem?_flat (pairs : List (Char × Char)) (j : Nat) :
    (flat pairs)[j]? = pairs[j / 2]?.map fun q => if j % 2 = 0 then q.1 else q.2 := by
  induction pairs generalizing j with
  | nil => simp [flat]
  | cons q ps ih =>
    -- the first pair, then the rest two characters on
    match j with
    | 0 => simp [flat]
    | 1 => simp [flat]
    | j + 2 =>
      have h := ih j
      simp only [flat, List.flatMap_cons] at h ⊢
      rw [List.cons_append, List.cons_append, List.nil_append, List.getElem?_cons_succ,
        List.getElem?_cons_succ, h, show (j + 2) / 2 = j / 2 + 1 by omega,
        List.getElem?_cons_succ, show (j + 2) % 2 = j % 2 by omega]

/-- **`reverse_hex_string`** reverses the order of the pairs of a text. -/
theorem reverseHexString_flat (pairs : List (Char × Char)) :
    reverseHexString (flat pairs) = flat pairs.reverse := by
  apply List.ext_getElem?
  intro j
  by_cases hj : j < (flat pairs).length
  · rw [reverseHexString_getElem? (by rw [length_flat]; omega) hj, getElem?_flat, getElem?_flat,
      List.getElem?_reverse (by rw [length_flat] at hj; omega), length_flat, mirror]
    -- the mirror place is in the mirror pair, at the same side
    rw [show (2 * pairs.length - 2 - 2 * (j / 2) + j % 2) / 2 = pairs.length - 1 - j / 2 by omega,
      show (2 * pairs.length - 2 - 2 * (j / 2) + j % 2) % 2 = j % 2 by omega]
  · have h1 : (reverseHexString (flat pairs)).length ≤ j := by
      rw [length_reverseHexString]
      omega
    have h2 : (flat pairs.reverse).length ≤ j := by
      rw [length_flat, List.length_reverse, ← length_flat]
      omega
    rw [List.getElem?_eq_none h1, List.getElem?_eq_none h2]

end Reverse

/-! ### Reading the number and copying its bytes -/

section Number

/-- `hex_to_decimal` reads its text as one hexadecimal number, the last digit lowest, modulo
    `2^64`. -/
theorem hexToDecimal_eq (hexNum : List Char) :
    hexToDecimal hexNum =
      UInt64.ofNat (Nat.ofDigits 16 (hexNum.map hexCharToDecimal).reverse) := by
  -- the loop keeps the number read so far and the power of 16 for the next digit
  suffices h : hexNum.foldr (fun c (s : UInt64 × UInt64) =>
      (s.1 + (hexCharToDecimal c).toUInt64 * s.2, s.2 * 16)) (0, 1) =
      (UInt64.ofNat (Nat.ofDigits 16 (hexNum.map hexCharToDecimal).reverse),
        UInt64.ofNat (16 ^ hexNum.length)) by
    rw [hexToDecimal, h]
  induction hexNum with
  | nil => rfl
  | cons c l ih =>
    rw [List.foldr_cons, ih, List.map_cons, List.reverse_cons, Nat.ofDigits_append,
      List.length_reverse, List.length_map, Nat.ofDigits_singleton, List.length_cons, pow_succ,
      UInt64.ofNat_add, UInt64.ofNat_mul, UInt64.ofNat_mul, Nat.toUInt64_eq]
    congr 1
    rw [mul_comm (UInt64.ofNat (16 ^ l.length))]

/-- The digits of the reversed pairs, last first, are the pairs in order, each low digit first. -/
theorem digits_flat_reverse (pairs : List (Char × Char)) :
    ((flat pairs.reverse).map hexCharToDecimal).reverse =
      pairs.flatMap fun q => [hexCharToDecimal q.2, hexCharToDecimal q.1] := by
  rw [← List.map_reverse, flat, List.reverse_flatMap, List.reverse_reverse, List.map_flatMap]
  rfl

theorem hexCharToDecimal_of_spells {c : Char} {d : Nat} (hd : d < 16) (h : Spells c d) :
    hexCharToDecimal c = d := by
  -- sixteen digits, each in two cases
  have key : ∀ d < 16, hexCharToDecimal (Nat.digitChar d) = d ∧
      hexCharToDecimal (Nat.digitChar d).toUpper = d := by decide
  rcases h with rfl | rfl
  · exact (key d hd).1
  · exact (key d hd).2

/-- Pairs that spell some bytes in hexadecimal, read low digit first, are those bytes in
    base 256. -/
theorem ofDigits_spelled : ∀ {pairs : List (Char × Char)} {bytes : List UInt8},
    List.Forall₂ (fun p b => Spells p.1 (b.toNat / 16) ∧ Spells p.2 (b.toNat % 16)) pairs bytes →
    Nat.ofDigits 16 (pairs.flatMap fun q => [hexCharToDecimal q.2, hexCharToDecimal q.1]) =
      Nat.ofDigits 256 (bytes.map UInt8.toNat)
  | [], [], .nil => rfl
  | q :: ps, b :: bs, .cons ⟨h1, h2⟩ hrest => by
    have hb := b.toNat_lt
    rw [List.flatMap_cons, List.cons_append, List.cons_append, List.nil_append, Nat.ofDigits_cons,
      Nat.ofDigits_cons, ofDigits_spelled hrest, List.map_cons, Nat.ofDigits_cons,
      hexCharToDecimal_of_spells (by omega) h1, hexCharToDecimal_of_spells (by omega) h2]
    omega

end Number

theorem canserial_set_uuid_custom (pairs : List (Char × Char)) (bytes : List UInt8)
    (h6 : bytes.length ≤ 6)
    (hs : List.Forall₂ (fun p b => Spells p.1 (b.toNat / 16) ∧ Spells p.2 (b.toNat % 16))
      pairs bytes) :
    canserialSetUuid (flat pairs) = bytes ++ List.replicate (6 - bytes.length) 0 := by
  set V := Nat.ofDigits 256 (bytes.map UInt8.toNat) with hV
  have hval : hexToDecimal (reverseHexString (flat pairs)) = UInt64.ofNat V := by
    rw [reverseHexString_flat, hexToDecimal_eq, digits_flat_reverse, ofDigits_spelled hs]
  have hdigits : ∀ x ∈ bytes.map UInt8.toNat, x < 256 := by
    intro x hx
    obtain ⟨b, -, rfl⟩ := List.mem_map.mp hx
    exact b.toNat_lt
  -- the number has at most six bytes, so `uint64_t` holds it
  have hVlt : V < 256 ^ bytes.length := by
    have := Nat.ofDigits_lt_base_pow_length (by norm_num) hdigits
    rwa [List.length_map] at this
  have hV64 : V < 2 ^ 64 := by
    calc V < 256 ^ bytes.length := hVlt
      _ ≤ 256 ^ 6 := Nat.pow_le_pow_right (by norm_num) h6
      _ < 2 ^ 64 := by norm_num
  apply List.ext_getElem
  · simp [canserialSetUuid]
    omega
  · intro i h1 h2
    have hi6 : i < 6 := by simpa [canserialSetUuid] using h1
    simp only [canserialSetUuid, hval, List.getElem_map, List.getElem_range]
    apply UInt8.toNat_inj.mp
    -- byte `i` of the number, as the shift by `8 * i` and the cut to `uint8_t` take it
    have hbyte : (UInt64.ofNat V >>> (8 * i).toUInt64).toUInt8.toNat = V / 256 ^ i % 256 := by
      have hsh : (8 * i).toUInt64.toNat % 64 = 8 * i := by
        rw [Nat.toUInt64_eq, UInt64.toNat_ofNat']
        omega
      rw [UInt64.toNat_toUInt8, UInt64.toNat_shiftRight, hsh, UInt64.toNat_ofNat',
        Nat.mod_eq_of_lt hV64, Nat.shiftRight_eq_div_pow, pow_mul]
      norm_num
    rw [hbyte]
    by_cases hi : i < bytes.length
    · rw [List.getElem_append_left hi, hV,
        LittleEndian.ofDigits_div_pow_mod (by norm_num) hdigits (by rwa [List.length_map]),
        List.getElem_map]
    · -- above its bytes the number is zero
      rw [List.getElem_append_right (by omega), List.getElem_replicate,
        Nat.div_eq_of_lt (lt_of_lt_of_le hVlt (Nat.pow_le_pow_right (by norm_num) (by omega)))]
      rfl

/-- Three bytes written in mixed case; the middle pair is the one the loop swaps with itself. -/
theorem canserial_set_uuid_custom_odd :
    canserialSetUuid (flat [('0', 'a'), ('B', '1'), ('c', '2')]) = [0x0a, 0xb1, 0xc2, 0, 0, 0] :=
  canserial_set_uuid_custom [('0', 'a'), ('B', '1'), ('c', '2')] [0x0a, 0xb1, 0xc2] (by decide)
    (by decide)

/-! ## The admin queue -/

/-- `struct canbus_msg` -/
structure CanbusMsg where
  id : UInt32
  dlc : UInt32
  data : List UInt8
deriving DecidableEq, Repr

/-- `CANBUS_ID_ADMIN` -/
def canbusIdAdmin : UInt32 := 0x3f0

/-- `CANMSG_DATA_LEN` -/
def canmsgDataLen (msg : CanbusMsg) : Nat := if msg.dlc > 8 then 8 else msg.dlc.toNat

/-- The receive side of `struct canbus_data`: `receive_buf` up to `receive_pos`, and the admin
    queue with its two positions. -/
structure CanData where
  assignedId : UInt32
  uuid : List UInt8
  receiveBuf : List UInt8
  adminPullPos : UInt32
  adminPushPos : UInt32
  adminQueue : Fin 8 → CanbusMsg

/-- The slot of the admin queue a position names: `pos % ARRAY_SIZE(admin_queue)`. -/
def slot (pos : UInt32) : Fin 8 := ⟨(pos % 8).toNat, by
  have := UInt32.toNat_lt (pos % 8)
  rw [UInt32.toNat_mod]
  exact Nat.mod_lt _ (by decide)⟩

/-- The test of `canserial_process_data` that sends a frame to the admin queue. -/
def isAdmin (cd : CanData) (msg : CanbusMsg) : Bool :=
  !(cd.assignedId != 0 && msg.id == cd.assignedId) &&
    (msg.id == canbusIdAdmin || (cd.assignedId != 0 && msg.id == cd.assignedId + 1))

/-- `canserial_process_data`: a frame for this node's id joins `receive_buf` if it fits; an
    admin frame joins the admin queue unless `pushp >= pullp + 8`. -/
def canserialProcessData (cd : CanData) (msg : CanbusMsg) : CanData :=
  let id := msg.id
  if cd.assignedId ≠ 0 ∧ id = cd.assignedId then
    let rpos := cd.receiveBuf.length
    let len := canmsgDataLen msg
    if len > 192 - rpos then cd
    else { cd with receiveBuf := cd.receiveBuf ++ msg.data.take len }
  else if id = canbusIdAdmin ∨ (cd.assignedId ≠ 0 ∧ id = cd.assignedId + 1) then
    let pushp := cd.adminPushPos
    if pushp ≥ cd.adminPullPos + 8 then cd
    else { cd with adminQueue := Function.update cd.adminQueue (slot pushp) msg,
                   adminPushPos := pushp + 1 }
  else cd

/-- `can_check_uuid` -/
def canCheckUuid (cd : CanData) (msg : CanbusMsg) : Bool :=
  msg.dlc ≥ 7 && (msg.data.drop 1).take 6 == cd.uuid

/-- `can_decode_nodeid` -/
def canDecodeNodeid (nodeid : UInt8) : UInt32 := (nodeid.toUInt32 <<< 1) + 0x100

/-- `can_process_set_klipper_nodeid`; `can_id_conflict` clears `assigned_id` (and shuts down). -/
def canProcessSetKlipperNodeid (cd : CanData) (msg : CanbusMsg) : CanData :=
  if msg.dlc < 8 then cd
  else
    let newid := canDecodeNodeid (msg.data.getD 7 0)
    if canCheckUuid cd msg then
      if newid ≠ cd.assignedId then { cd with assignedId := newid } else cd
    else if newid = cd.assignedId then { cd with assignedId := 0 }
    else cd

/-- `can_process_admin`, as far as it changes this node's state: only `SET_KLIPPER_NODEID`
    does. -/
def canProcessAdmin (cd : CanData) (msg : CanbusMsg) : CanData :=
  if msg.dlc = 0 then cd
  else if msg.data.getD 0 0 = 0x01 then canProcessSetKlipperNodeid cd msg
  else cd

/-- One pass of the admin loop of `canserial_rx_task`: nothing when `pushp == pullp`, and
    otherwise the frame at `pullp` and the state after `admin_pull_pos = pullp + 1`. -/
def rxAdminStep (cd : CanData) : Option (CanData × CanbusMsg) :=
  let pushp := cd.adminPushPos
  let pullp := cd.adminPullPos
  if pushp = pullp then none
  else
    let msg := cd.adminQueue (slot pullp)
    let cd := canProcessAdmin cd msg
    some ({ cd with adminPullPos := pullp + 1 }, msg)

/-- The number of admin frames waiting. -/
def pending (cd : CanData) : Nat := (cd.adminPushPos - cd.adminPullPos).toNat

/-- The admin frames waiting, from `admin_pull_pos` on. -/
def waiting (cd : CanData) : List CanbusMsg :=
  (List.range (pending cd)).map fun k => cd.adminQueue (slot (cd.adminPullPos + k.toUInt32))

/-- What the CAN interrupt and the receive task do. -/
inductive Event
  | frame (msg : CanbusMsg)
  | rxAdmin

/-- The node with three ghost records: the admin frames the queue took, those the task
    handled, and those dropped with the number pending then. -/
structure AdminLink where
  cd : CanData
  accepted : List CanbusMsg
  handled : List CanbusMsg
  dropped : List (CanbusMsg × Nat)

/-- One event.  The receive task's loop is one step per frame, so the interrupt may come
    between any two. -/
def AdminLink.step (l : AdminLink) : Event → Option AdminLink
  | .frame msg =>
    let cd := canserialProcessData l.cd msg
    if isAdmin l.cd msg then
      if cd.adminPushPos = l.cd.adminPushPos then
        some { l with cd := cd, dropped := l.dropped ++ [(msg, pending l.cd)] }
      else some { l with cd := cd, accepted := l.accepted ++ [msg] }
    else some { l with cd := cd }
  | .rxAdmin => (rxAdminStep l.cd).map fun r => { l with cd := r.1, handled := l.handled ++ [r.2] }

def AdminLink.next : AdminLink → AdminLink → Prop := Transition.ofStep AdminLink.step

/-- A node just started with its UUID: no id assigned, both positions at zero, and the zeroed
    static storage in the array. -/
def AdminLink.init (uuid : List UInt8) : AdminLink :=
  ⟨⟨0, uuid, [], 0, 0, fun _ => ⟨0, 0, List.replicate 8 0⟩⟩, [], [], []⟩

/-! ### Positions and slots -/

section Slots

theorem slot_val (pos : UInt32) : (slot pos).val = pos.toNat % 8 := by
  simp [slot, UInt32.toNat_mod]

/-- Slots `k` apart from one position, `k < 8`, differ unless `k = 0`, across wraps too. -/
theorem slot_add_ne {pos : UInt32} {j k : Nat} (hj : j < k) (hk : k < 8) :
    slot (pos + j.toUInt32) ≠ slot (pos + k.toUInt32) := by
  intro h
  have h' := congrArg Fin.val h
  rw [slot_val, slot_val, UInt32.toNat_add, UInt32.toNat_add, Nat.toUInt32_eq, Nat.toUInt32_eq,
    UInt32.toNat_ofNat', UInt32.toNat_ofNat'] at h'
  have := pos.toNat_lt
  omega

/-- `pushp >= pullp + 8` holds with eight frames pending, whatever the positions. -/
theorem full_of_pending_eq {cd : CanData} (h : pending cd = 8) :
    cd.adminPushPos ≥ cd.adminPullPos + 8 := by
  have hpush : cd.adminPushPos = cd.adminPullPos + 8 := by
    apply UInt32.toNat_inj.mp
    unfold pending at h
    rw [UInt32.toNat_sub] at h
    rw [UInt32.toNat_add]
    have := cd.adminPushPos.toNat_lt
    have := cd.adminPullPos.toNat_lt
    simp only [UInt32.reduceToNat]
    omega
  rw [hpush]
  exact UInt32.le_refl _

theorem succ_ne_self (pos : UInt32) : pos + 1 ≠ pos := by
  intro h
  have h' := congrArg UInt32.toNat h
  rw [UInt32.toNat_add, UInt32.toNat_one] at h'
  have := pos.toNat_lt
  omega

end Slots

/-! ### What each event does to the queue -/

section Events

variable {cd : CanData} {msg : CanbusMsg}

/-- The queue's positions and slots, which is all `waiting` reads. -/
def QueueEq (cd' cd : CanData) : Prop :=
  cd'.adminPushPos = cd.adminPushPos ∧ cd'.adminPullPos = cd.adminPullPos ∧
    cd'.adminQueue = cd.adminQueue

theorem waiting_congr {cd' : CanData} (h : QueueEq cd' cd) : waiting cd' = waiting cd := by
  obtain ⟨h1, h2, h3⟩ := h
  simp [waiting, pending, h1, h2, h3]

theorem isAdmin_iff : isAdmin cd msg = true ↔
    ¬(cd.assignedId ≠ 0 ∧ msg.id = cd.assignedId) ∧
      (msg.id = canbusIdAdmin ∨ (cd.assignedId ≠ 0 ∧ msg.id = cd.assignedId + 1)) := by
  unfold isAdmin
  simp only [Bool.and_eq_true, Bool.not_eq_eq_eq_not, Bool.not_true, Bool.and_eq_false_iff,
    bne_eq_false_iff_eq, beq_eq_false_iff_ne, beq_iff_eq, Bool.or_eq_true, bne_iff_ne, ne_eq]
  tauto

/-- A frame that is not an admin frame leaves the queue alone. -/
theorem queueEq_processData_of_not_admin (h : isAdmin cd msg = false) :
    QueueEq (canserialProcessData cd msg) cd := by
  unfold canserialProcessData
  dsimp only
  by_cases h1 : cd.assignedId ≠ 0 ∧ msg.id = cd.assignedId
  · -- a frame for this node's id goes to `receive_buf`
    rw [if_pos h1]
    split_ifs <;> exact ⟨rfl, rfl, rfl⟩
  · have h2 : ¬(msg.id = canbusIdAdmin ∨ (cd.assignedId ≠ 0 ∧ msg.id = cd.assignedId + 1)) :=
      fun h2 => Bool.false_ne_true (h ▸ isAdmin_iff.mpr ⟨h1, h2⟩)
    rw [if_neg h1, if_neg h2]
    exact ⟨rfl, rfl, rfl⟩

/-- An admin frame is dropped when `pushp >= pullp + 8`, and put in the slot of `pushp`
    otherwise. -/
theorem processData_of_admin (h : isAdmin cd msg = true) :
    canserialProcessData cd msg =
      if cd.adminPushPos ≥ cd.adminPullPos + 8 then cd
      else { cd with adminQueue := Function.update cd.adminQueue (slot cd.adminPushPos) msg,
                     adminPushPos := cd.adminPushPos + 1 } := by
  obtain ⟨h1, h2⟩ := isAdmin_iff.mp h
  unfold canserialProcessData
  rw [if_neg h1, if_pos h2]

/-- The admin handling changes `assigned_id` only. -/
theorem queueEq_canProcessAdmin (cd : CanData) (msg : CanbusMsg) :
    QueueEq (canProcessAdmin cd msg) cd := by
  unfold canProcessAdmin canProcessSetKlipperNodeid
  dsimp only
  split_ifs <;> exact ⟨rfl, rfl, rfl⟩

/-- The queue's contents in terms of its positions: the push position is `pending` frames after
    the pull position. -/
theorem push_eq_pull_add (cd : CanData) :
    cd.adminPushPos = cd.adminPullPos + (pending cd).toUInt32 := by
  apply UInt32.toNat_inj.mp
  unfold pending
  rw [UInt32.toNat_add, Nat.toUInt32_eq, UInt32.toNat_ofNat', UInt32.toNat_sub]
  have := cd.adminPushPos.toNat_lt
  have := cd.adminPullPos.toNat_lt
  omega

/-- No frame waits exactly when `pushp == pullp`, the test of `canserial_rx_task`. -/
theorem pending_eq_zero_iff : pending cd = 0 ↔ cd.adminPushPos = cd.adminPullPos := by
  constructor
  · intro h0
    rw [push_eq_pull_add cd, h0]
    exact UInt32.add_zero _
  · intro h
    rw [pending, h, UInt32.sub_self]
    rfl

/-- One more frame waits after a push with fewer than eight waiting. -/
theorem pending_push (hp : pending cd < 8) :
    pending { cd with adminQueue := Function.update cd.adminQueue (slot cd.adminPushPos) msg,
                      adminPushPos := cd.adminPushPos + 1 } = pending cd + 1 := by
  unfold pending at hp ⊢
  dsimp only
  simp only [UInt32.toNat_sub, UInt32.toNat_add, UInt32.toNat_one] at hp ⊢
  have := cd.adminPushPos.toNat_lt
  have := cd.adminPullPos.toNat_lt
  omega

/-- One frame fewer waits after a pull from a non-empty queue. -/
theorem pending_pop (hp : pending cd ≠ 0) :
    pending { cd with adminPullPos := cd.adminPullPos + 1 } = pending cd - 1 := by
  unfold pending at hp ⊢
  dsimp only
  simp only [UInt32.toNat_sub, UInt32.toNat_add, UInt32.toNat_one] at hp ⊢
  have := cd.adminPushPos.toNat_lt
  have := cd.adminPullPos.toNat_lt
  omega

/-- **Accepting a frame** with fewer than eight waiting puts it last. -/
theorem waiting_push (hp : pending cd < 8) :
    waiting { cd with adminQueue := Function.update cd.adminQueue (slot cd.adminPushPos) msg,
                      adminPushPos := cd.adminPushPos + 1 } = waiting cd ++ [msg] := by
  have hpush := push_eq_pull_add cd
  unfold waiting
  rw [pending_push hp, List.range_succ, List.map_append, List.map_singleton]
  dsimp only
  congr 1
  · -- the frames already waiting sit in other slots
    apply List.map_congr_left
    intro k hk
    rw [List.mem_range] at hk
    rw [hpush, Function.update_of_ne (slot_add_ne hk hp)]
  · rw [← hpush, Function.update_self]

/-- **Taking a frame** from a non-empty queue takes the first one waiting. -/
theorem waiting_pop (hp : pending cd ≠ 0) :
    waiting cd = cd.adminQueue (slot cd.adminPullPos) ::
      waiting { cd with adminPullPos := cd.adminPullPos + 1 } := by
  unfold waiting
  rw [pending_pop hp, show pending cd = pending cd - 1 + 1 by omega, List.range_succ_eq_map,
    List.map_cons, List.map_map]
  dsimp only
  congr 1
  · simp
  · -- frame `k + 1` after the old position is frame `k` after the new one
    apply List.map_congr_left
    intro k _
    rw [Function.comp_apply, UInt32.add_assoc]
    congr 3
    apply UInt32.toNat_inj.mp
    rw [UInt32.toNat_add, UInt32.toNat_one, Nat.toUInt32_eq, Nat.toUInt32_eq, UInt32.toNat_ofNat',
      UInt32.toNat_ofNat']
    omega

end Events

/-! ### Every run -/

section Runs

/-- **The invariant of the admin queue**: at most eight frames wait, and the frames the queue
    took are those the task handled followed by those waiting. -/
structure AdminLink.Inv (l : AdminLink) : Prop where
  bound : pending l.cd ≤ 8
  fifo : l.accepted = l.handled ++ waiting l.cd

variable {l l' : AdminLink}

theorem AdminLink.inv_init (uuid : List UInt8) : (AdminLink.init uuid).Inv :=
  ⟨show ((0 : UInt32) - 0).toNat ≤ 8 by decide, by simp [AdminLink.init, waiting, pending]⟩

/-- A step that leaves the queue and the ghost records of taking and handling alone. -/
theorem AdminLink.Inv.of_queueEq (h : l.Inv) {cd : CanData} (hq : QueueEq cd l.cd)
    (hb : pending cd = pending l.cd) (ha : l'.accepted = l.accepted)
    (hh : l'.handled = l.handled) (hcd : l'.cd = cd) : l'.Inv :=
  ⟨by rw [hcd, hb]; exact h.bound, by rw [ha, hh, hcd, waiting_congr hq]; exact h.fifo⟩

theorem pending_congr {cd cd' : CanData} (h : QueueEq cd' cd) : pending cd' = pending cd := by
  obtain ⟨h1, h2, -⟩ := h
  simp [pending, h1, h2]

/-- **Every event keeps the invariant.** -/
theorem AdminLink.Inv.step {e : Event} (h : l.Inv) (hs : l.step e = some l') : l'.Inv := by
  cases e with
  | frame msg =>
    simp only [AdminLink.step] at hs
    by_cases ha : isAdmin l.cd msg = true
    · rw [if_pos ha, processData_of_admin ha] at hs
      by_cases hfull : l.cd.adminPushPos ≥ l.cd.adminPullPos + 8
      · -- dropped: nothing changes but the record of drops
        rw [if_pos hfull, if_pos rfl] at hs
        cases hs
        exact h.of_queueEq ⟨rfl, rfl, rfl⟩ rfl rfl rfl rfl
      · -- taken: there was room, since eight waiting would test full
        have hlt : pending l.cd < 8 := by
          have := h.bound
          have hne : pending l.cd ≠ 8 := fun h8 => hfull (full_of_pending_eq h8)
          omega
        rw [if_neg hfull, if_neg (succ_ne_self _)] at hs
        cases hs
        exact ⟨by rw [pending_push hlt]; omega,
          by rw [waiting_push hlt, h.fifo, List.append_assoc]⟩
    · rw [if_neg ha] at hs
      cases hs
      have hq := queueEq_processData_of_not_admin (Bool.eq_false_iff.mpr ha)
      exact h.of_queueEq hq (pending_congr hq) rfl rfl rfl
  | rxAdmin =>
    simp only [AdminLink.step] at hs
    obtain ⟨r, hr, rfl⟩ := Option.map_eq_some_iff.mp hs
    unfold rxAdminStep at hr
    dsimp only at hr
    split_ifs at hr with hne
    cases hr
    have hp : pending l.cd ≠ 0 := fun h0 => hne (pending_eq_zero_iff.mp h0)
    -- the handling of the frame changes `assigned_id` only
    have hq : QueueEq
        { canProcessAdmin l.cd (l.cd.adminQueue (slot l.cd.adminPullPos)) with
          adminPullPos := l.cd.adminPullPos + 1 }
        { l.cd with adminPullPos := l.cd.adminPullPos + 1 } := by
      obtain ⟨h1, -, h3⟩ :=
        queueEq_canProcessAdmin l.cd (l.cd.adminQueue (slot l.cd.adminPullPos))
      exact ⟨h1, rfl, h3⟩
    refine ⟨by rw [pending_congr hq, pending_pop hp]; have := h.bound; omega, ?_⟩
    show l.accepted = (l.handled ++ [l.cd.adminQueue (slot l.cd.adminPullPos)]) ++ waiting _
    rw [waiting_congr hq, h.fifo, waiting_pop hp, List.append_assoc, List.singleton_append]

/-- **In every run** at most eight admin frames wait, and the frames handled are the frames
    taken, in order, each once. -/
theorem AdminLink.inv_of_reachable {uuid : List UInt8}
    (h : Transition.Reachable (· = AdminLink.init uuid) AdminLink.next l) : l.Inv :=
  Transition.Reachable.inv (fun _ hl => hl ▸ AdminLink.inv_init uuid)
    (fun _ _ hl ⟨_, hs⟩ => hl.step hs) h

end Runs

/-! ### The wrap of `pullp + 8` -/

section Wrap

/-- An empty admin frame: `can_process_admin` returns at once on `dlc == 0`. -/
def emptyAdmin : CanbusMsg := ⟨canbusIdAdmin, 0, []⟩

variable {l : AdminLink}

/-- With no id assigned and the positions equal and clear of the wrap, an empty admin frame is
    taken and then handled, which moves both positions on by one. -/
theorem AdminLink.round (ha : l.cd.assignedId = 0) (hq : l.cd.adminPushPos = l.cd.adminPullPos)
    (hp : l.cd.adminPullPos.toNat + 8 < 2 ^ 32) :
    ∃ l', Relation.ReflTransGen AdminLink.next l l' ∧ l'.cd.assignedId = 0 ∧
      l'.cd.adminPushPos = l.cd.adminPullPos + 1 ∧ l'.cd.adminPullPos = l.cd.adminPullPos + 1 := by
  have hadm : isAdmin l.cd emptyAdmin = true := isAdmin_iff.mpr ⟨fun h => h.1 ha, Or.inl rfl⟩
  have hroom : ¬l.cd.adminPushPos ≥ l.cd.adminPullPos + 8 := by
    rw [hq, ge_iff_le, UInt32.le_iff_toNat_le, UInt32.toNat_add]
    simp only [UInt32.reduceToNat]
    omega
  -- the interrupt puts the frame in the slot of `pushp`
  let cd1 : CanData := { l.cd with
    adminQueue := Function.update l.cd.adminQueue (slot l.cd.adminPushPos) emptyAdmin,
    adminPushPos := l.cd.adminPushPos + 1 }
  have h1 : l.step (.frame emptyAdmin) =
      some { l with cd := cd1, accepted := l.accepted ++ [emptyAdmin] } := by
    simp only [AdminLink.step]
    rw [if_pos hadm, processData_of_admin hadm, if_neg hroom, if_neg (succ_ne_self _)]
  -- the task takes it from the slot of `pullp`, the same slot, and does nothing with it
  have h2 : rxAdminStep cd1 =
      some ({ cd1 with adminPullPos := l.cd.adminPullPos + 1 }, emptyAdmin) := by
    have hne : cd1.adminPushPos ≠ cd1.adminPullPos := by
      show l.cd.adminPushPos + 1 ≠ l.cd.adminPullPos
      rw [hq]
      exact succ_ne_self _
    have hmsg : cd1.adminQueue (slot cd1.adminPullPos) = emptyAdmin := by
      show Function.update _ _ _ (slot l.cd.adminPullPos) = _
      rw [← hq, Function.update_self]
    unfold rxAdminStep
    dsimp only
    rw [if_neg hne, hmsg]
    rfl
  refine ⟨{ l with
      cd := { cd1 with adminPullPos := l.cd.adminPullPos + 1 }
      accepted := l.accepted ++ [emptyAdmin]
      handled := l.handled ++ [emptyAdmin] },
    .tail (.single ⟨.frame emptyAdmin, h1⟩) ⟨.rxAdmin, ?_⟩, ha, ?_, rfl⟩
  · simp only [AdminLink.step, h2, Option.map_some]
  · show l.cd.adminPushPos + 1 = _
    rw [hq]

/-- **Frames to the last eight positions.**  Every position up to `2^32 - 8` is reached with the
    queue empty, one empty admin frame after another. -/
theorem AdminLink.reachable_positions (uuid : List UInt8) :
    ∀ n : Nat, n ≤ 2 ^ 32 - 8 → ∃ l, Transition.Reachable (· = AdminLink.init uuid) AdminLink.next l ∧
      l.cd.assignedId = 0 ∧ l.cd.adminPushPos = n.toUInt32 ∧ l.cd.adminPullPos = n.toUInt32
  | 0, _ => ⟨_, .init rfl, rfl, rfl, rfl⟩
  | n + 1, hn => by
    obtain ⟨l, hr, ha, hpush, hpull⟩ := AdminLink.reachable_positions uuid n (by omega)
    have hnat : l.cd.adminPullPos.toNat = n := by
      rw [hpull, Nat.toUInt32_eq, UInt32.toNat_ofNat']
      omega
    obtain ⟨l', hs, ha', hpush', hpull'⟩ :=
      AdminLink.round ha (hpush.trans hpull.symm) (by omega)
    have hsucc : l.cd.adminPullPos + 1 = (n + 1).toUInt32 := by
      apply UInt32.toNat_inj.mp
      rw [UInt32.toNat_add, hnat, Nat.toUInt32_eq, UInt32.toNat_ofNat', UInt32.toNat_one]
    exact ⟨l', hr.steps hs, ha', hpush'.trans hsucc, hpull'.trans hsucc⟩

/-- At `pullp = 0xfffffff8`, `pullp + 8` is zero and every admin frame tests full. -/
theorem processData_wedged {cd : CanData} {msg : CanbusMsg} (hpush : cd.adminPushPos = 0xfffffff8)
    (hpull : cd.adminPullPos = 0xfffffff8) (h : isAdmin cd msg = true) :
    canserialProcessData cd msg = cd := by
  rw [processData_of_admin h, if_pos]
  rw [hpush, hpull]
  decide

/-- From equal positions at `0xfffffff8` no event moves a position or takes or hands a frame. -/
theorem AdminLink.next_wedged {l l' : AdminLink} (hpush : l.cd.adminPushPos = 0xfffffff8)
    (hpull : l.cd.adminPullPos = 0xfffffff8) (hs : AdminLink.next l l') :
    l'.cd.adminPushPos = 0xfffffff8 ∧ l'.cd.adminPullPos = 0xfffffff8 ∧
      l'.accepted = l.accepted ∧ l'.handled = l.handled := by
  obtain ⟨e, hs⟩ := hs
  cases e with
  | frame msg =>
    simp only [AdminLink.step] at hs
    by_cases ha : isAdmin l.cd msg = true
    · -- an admin frame is dropped
      rw [if_pos ha, processData_wedged hpush hpull ha, if_pos rfl] at hs
      cases hs
      exact ⟨hpush, hpull, rfl, rfl⟩
    · rw [if_neg ha] at hs
      cases hs
      obtain ⟨h1, h2, -⟩ := queueEq_processData_of_not_admin (Bool.eq_false_iff.mpr ha)
      exact ⟨h1.trans hpush, h2.trans hpull, rfl, rfl⟩
  | rxAdmin =>
    -- with equal positions the task finds nothing
    simp only [AdminLink.step, rxAdminStep, hpush, hpull, if_true, Option.map_none,
      reduceCtorEq] at hs

theorem canserial_admin_queue_wedged (uuid : List UInt8) :
    ∃ w, Transition.Reachable (· = AdminLink.init uuid) AdminLink.next w ∧
      ∀ l, Transition.Reachable (· = w) AdminLink.next l →
        pending l.cd = 0 ∧ l.accepted = w.accepted ∧ l.handled = w.handled ∧
          ∀ msg, isAdmin l.cd msg = true → canserialProcessData l.cd msg = l.cd := by
  obtain ⟨w, hw, -, hpush, hpull⟩ := AdminLink.reachable_positions uuid (2 ^ 32 - 8) le_rfl
  have hpos : (2 ^ 32 - 8 : Nat).toUInt32 = 0xfffffff8 := by decide
  rw [hpos] at hpush hpull
  refine ⟨w, hw, fun l hl => ?_⟩
  -- the positions stay at `0xfffffff8`, and nothing is taken or handled
  have hinv : l.cd.adminPushPos = 0xfffffff8 ∧ l.cd.adminPullPos = 0xfffffff8 ∧
      l.accepted = w.accepted ∧ l.handled = w.handled := by
    refine Transition.Reachable.inv (I := fun l => l.cd.adminPushPos = 0xfffffff8 ∧
      l.cd.adminPullPos = 0xfffffff8 ∧ l.accepted = w.accepted ∧ l.handled = w.handled) ?_ ?_ hl
    · rintro _ rfl
      exact ⟨hpush, hpull, rfl, rfl⟩
    · rintro s s' ⟨hp1, hp2, ha, hh⟩ hs
      obtain ⟨h1, h2, ha', hh'⟩ := AdminLink.next_wedged hp1 hp2 hs
      exact ⟨h1, h2, ha'.trans ha, hh'.trans hh⟩
  obtain ⟨h1, h2, ha, hh⟩ := hinv
  exact ⟨pending_eq_zero_iff.mpr (h1.trans h2.symm), ha, hh,
    fun msg hm => processData_wedged h1 h2 hm⟩

end Wrap

end Klipper.CanSerial
