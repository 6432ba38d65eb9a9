import Klipper.Protocol.Command

/-
  Message ids, as the build script assigns them and as both sides of the wire read them.

  `scripts/buildcommands.py` numbers the messages one after another (`create_message_ids`),
  starting after the two default messages, and rejects more than `2^14` ids: the firmware
  writes an id in one or two VLQ bytes without sign handling (`encode_msgid`) and reads it back
  with an optimized two-byte parser (`command_parse_msgid`).  The data dictionary gives the host
  the *signed* reading of those bytes (`convert_encoded_msgid`, which runs `PT_int32.parse`),
  and the host writes and reads ids with the general signed VLQ of `PT_int32`.

  The signed reading of an encoded id `e` is `signedMsgid e`: `e` itself, less `2^7` when its
  one byte has both sign bits set, less `2^14` when the first of its two bytes has.  Both
  firmware-to-host directions agree with it for every accepted id.  The host-to-firmware
  direction does not for the last 32 accepted ids: their signed readings are `-32 .. -1`,
  which `PT_int32.encode` writes in one byte, and that byte is also the encoding of an id
  between 96 and 127, whose signed reading is the same (`msgid_assignment`).  The bound that
  keeps every id apart is `2^14 - 32`, not the script's `2^14`.
-/

namespace Klipper.MsgId

open Vlq Command

/-! ## The three pieces of code -/

/-- The loop body of `create_message_ids`: look the name up in `messages_by_name`, and give the
    message the id after the largest so far unless it has one.  The dictionary `msg_to_encid` is
    its list of entries in insertion order. -/
def createStep (messagesByName : String → Option String) (acc : List (String × Nat) × Nat)
    (msgname : String) : List (String × Nat) × Nat :=
  let msg := (messagesByName msgname).getD msgname
  if acc.1.any (·.1 = msg) then acc else (acc.1 ++ [(msg, acc.2 + 1)], acc.2 + 1)

/-- `create_message_ids`: number the messages of `mlist` that have no id yet, starting after
    `max(msg_to_encid.values())` (taken of a non-empty dictionary of ids: it starts with the two
    default messages); more than `2^14` ids is an error. -/
def createMessageIds (messagesByName : String → Option String) (msgToEncid : List (String × Nat))
    (mlist : List String) : Except String (List (String × Nat)) :=
  let r := mlist.foldl (createStep messagesByName) (msgToEncid, (msgToEncid.map Prod.snd).foldl max 0)
  if r.2 ≥ 2 ^ 14 then .error "Too many message ids" else .ok r.1

/-- The bytes `convert_encoded_msgid` builds for an encoded id: the two-byte form of
    `encode_msgid` on Python integers. -/
def encodedMsgidData (encodedMsgid : Int) : List Int :=
  if encodedMsgid ≥ 0x80 then [Int.lor (encodedMsgid >>> (7 : Nat)) 0x80, Int.land encodedMsgid 0x7f]
  else [encodedMsgid]

/-- `convert_encoded_msgid`: the id the host uses for an encoded id, `PT_int32().parse` of its
    bytes. -/
def convertEncodedMsgid (encodedMsgid : Int) : Option Int :=
  (ptUint32Parse true (encodedMsgidData encodedMsgid) 0).map Prod.fst

/-- `command_parse_msgid`: one byte, or two when the first has its top bit set, read as an
    unsigned id; the bytes after it.  The C reads past the buffer when it ends after a first
    byte with the top bit set; here that is `none`. -/
def commandParseMsgid : List UInt8 → Option (UInt16 × List UInt8)
  | [] => none
  | c :: rest =>
    if c &&& 0x80 = 0 then some (c.toUInt16, rest)
    else match rest with
      | [] => none
      | d :: rest => some (((c.toUInt16 &&& 0x7f) <<< 7) ||| d.toUInt16, rest)

/-- The signed reading of an encoded id's one or two bytes. -/
def signedMsgid (e : Nat) : Int :=
  if e < 0x80 then (if 0x60 ≤ e then (e : Int) - 0x80 else e)
  else if 0x60 ≤ e / 0x80 then (e : Int) - 0x4000 else e

/-! ## Ids are distinct and below `2^14` -/

section Create

variable (messagesByName : String → Option String)

/-- What the loop keeps: the ids are distinct and none is above the counter. -/
def IdsBelow (acc : List (String × Nat) × Nat) : Prop :=
  (acc.1.map Prod.snd).Nodup ∧ ∀ p ∈ acc.1, p.2 ≤ acc.2

theorem IdsBelow.step {acc : List (String × Nat) × Nat} (h : IdsBelow acc) (msgname : String) :
    IdsBelow (createStep messagesByName acc msgname) ∧ acc.2 ≤ (createStep messagesByName acc msgname).2 := by
  unfold createStep
  dsimp only
  split
  · exact ⟨h, le_refl _⟩
  · -- a new entry takes the counter plus one, above every id so far
    refine ⟨⟨?_, ?_⟩, Nat.le_succ _⟩
    · rw [List.map_append, List.nodup_append]
      refine ⟨h.1, List.nodup_singleton _, ?_⟩
      intro a ha b hb
      simp only [List.map_cons, List.map_nil, List.mem_singleton] at hb
      obtain ⟨p, hp, rfl⟩ := List.mem_map.mp ha
      have := h.2 p hp
      omega
    · intro p hp
      rcases List.mem_append.mp hp with hp | hp
      · exact Nat.le_succ_of_le (h.2 p hp)
      · simp only [List.mem_singleton] at hp
        rw [hp]

theorem IdsBelow.foldl {acc : List (String × Nat) × Nat} (h : IdsBelow acc) (mlist : List String) :
    IdsBelow (mlist.foldl (createStep messagesByName) acc) := by
  induction mlist generalizing acc with
  | nil => exact h
  | cons m ms ih => exact ih (h.step messagesByName m).1

/-- A running maximum is above its start and above every element. -/
theorem le_foldl_max (l : List Nat) (a : Nat) : a ≤ l.foldl max a ∧ ∀ x ∈ l, x ≤ l.foldl max a := by
  induction l generalizing a with
  | nil => simp
  | cons y ys ih =>
    obtain ⟨h1, h2⟩ := ih (max a y)
    refine ⟨le_trans (le_max_left a y) h1, ?_⟩
    intro x hx
    rcases List.mem_cons.mp hx with rfl | hx
    · exact le_trans (le_max_right a x) h1
    · exact h2 x hx

/-- **Every id `create_message_ids` hands out is distinct and below `2^14`**, when the ids it
    starts from are distinct. -/
theorem createMessageIds_ids {msgToEncid : List (String × Nat)} {mlist : List String}
    {m : List (String × Nat)} (hinit : (msgToEncid.map Prod.snd).Nodup)
    (h : createMessageIds messagesByName msgToEncid mlist = .ok m) :
    (m.map Prod.snd).Nodup ∧ ∀ p ∈ m, p.2 < 2 ^ 14 := by
  have h0 : IdsBelow (msgToEncid, (msgToEncid.map Prod.snd).foldl max 0) :=
    ⟨hinit, fun p hp => (le_foldl_max _ 0).2 p.2 (List.mem_map_of_mem hp)⟩
  have hinv := h0.foldl messagesByName mlist
  unfold createMessageIds at h
  dsimp only at h
  split at h
  · cases h
  · rename_i hlt
    cases h
    exact ⟨hinv.1, fun p hp => lt_of_le_of_lt (hinv.2 p hp) (by omega)⟩

end Create

/-! ## The bytes of an encoded id -/

/-- The bytes of an accepted encoded id, as arithmetic: the id itself, or its high seven bits
    with the continuation bit and then its low seven bits. -/
theorem encodedMsgidData_eq {e : Nat} (he : e < 2 ^ 14) :
    encodedMsgidData e = if e < 0x80 then [(e : Int)] else [(e : Int) / 128 + 128, (e : Int) % 128] := by
  unfold encodedMsgidData
  by_cases h : e < 0x80
  · rw [if_neg (by omega), if_pos h]
  · rw [if_pos (by omega), if_neg h, land_0x7f, Int.shiftRight_eq_div_pow]
    -- the high seven bits, below `0x80`, are their own residue
    have hq : (e : Int) / ((2 ^ 7 : Nat) : Int) = (e : Int) / 128 % 128 := by push_cast; omega
    rw [hq, lor_emod_0x80]
    congr 2
    omega

/-- The bytes are a VLQ group whose value is the signed reading. -/
theorem encodedMsgidData_group {e : Nat} (he : e < 2 ^ 14) :
    IsGroup (encodedMsgidData e) ∧ groupValue (encodedMsgidData e) = signedMsgid e := by
  rw [encodedMsgidData_eq he]
  unfold signedMsgid
  by_cases h : e < 0x80
  · rw [if_pos h, if_pos h]
    refine ⟨⟨by omega, by omega⟩, ?_⟩
    simp only [groupValue, List.foldl_nil, topDigit]
    split_ifs <;> omega
  · rw [if_neg h, if_neg h]
    refine ⟨⟨by omega, by omega, by omega, by omega⟩, ?_⟩
    simp only [groupValue, List.foldl_cons, List.foldl_nil, shiftIn, topDigit]
    split_ifs <;> omega

/-- **`convert_encoded_msgid` is the signed reading** of every accepted encoded id. -/
theorem convertEncodedMsgid_eq {e : Nat} (he : e < 2 ^ 14) :
    convertEncodedMsgid e = some (signedMsgid e) := by
  obtain ⟨hg, hv⟩ := encodedMsgidData_group he
  have hp := ptUint32Parse_group true [] _ [] hg
  simp only [List.nil_append, List.append_nil, List.length_nil] at hp
  rw [convertEncodedMsgid, hp, hv]
  rfl

/-- `x | 0x80` on a byte value below `0x80` sets the continuation bit. -/
theorem nat_lor_0x80 {x : Nat} (h : x < 0x80) : x ||| 0x80 = x + 0x80 :=
  Nat.or_two_pow_eq_add_of_lt (n := 7) h

/-- The firmware's `encode_msgid` writes the same bytes the build script parses. -/
theorem byteValues_encodeMsgid {e : Nat} (he : e < 2 ^ 14) :
    byteValues (encodeMsgid e.toUInt16) = encodedMsgidData e := by
  have hu : e.toUInt16.toNat = e := UInt16.toNat_ofNat_of_lt (by rw [UInt16.size]; omega)
  have hlow : ((e.toUInt16 &&& 0x7f).toUInt8.toNat : Int) = (e : Int) % 128 := by
    rw [UInt16.toNat_toUInt8, UInt16.toNat_and, hu, show (0x7f : UInt16).toNat = 2 ^ 7 - 1 from rfl,
      Nat.and_two_pow_sub_one_eq_mod]
    omega
  have hhigh : (((e.toUInt16 >>> 7) ||| 0x80).toUInt8.toNat : Int) = (e : Int) / 128 + 128 := by
    rw [UInt16.toNat_toUInt8, UInt16.toNat_or, UInt16.toNat_shiftRight, hu,
      show (0x80 : UInt16).toNat = 0x80 from rfl, show (7 : UInt16).toNat % 16 = 7 from rfl,
      Nat.shiftRight_eq_div_pow, nat_lor_0x80 (by omega)]
    omega
  rw [encodedMsgidData_eq he, encodeMsgid]
  by_cases h : e < 0x80
  · rw [if_neg (by rw [ge_iff_le, UInt16.le_iff_toNat_le, hu]; exact Nat.not_le.mpr h), if_pos h]
    simp only [List.nil_append, byteValues, List.map_cons, List.map_nil, hlow]
    congr 1
    omega
  · rw [if_pos (by rw [ge_iff_le, UInt16.le_iff_toNat_le, hu]; show 0x80 ≤ e; omega), if_neg h]
    simp only [List.singleton_append, byteValues, List.map_cons, List.map_nil, hlow, hhigh]

/-! ## The two directions of the wire -/

/-- **Firmware to host.**  `PT_int32.parse` reads the bytes of `encode_msgid` as the signed
    reading, for every accepted id. -/
theorem ptInt32Parse_encodeMsgid {e : Nat} (he : e < 2 ^ 14) :
    ptUint32Parse true (byteValues (encodeMsgid e.toUInt16)) 0 =
      some (signedMsgid e, (encodeMsgid e.toUInt16).length) := by
  obtain ⟨hg, hv⟩ := encodedMsgidData_group he
  have hp := ptUint32Parse_group true [] _ [] hg
  have hlen : (encodeMsgid e.toUInt16).length = (encodedMsgidData e).length := by
    rw [← byteValues_encodeMsgid he, byteValues, List.length_map]
  simp only [List.nil_append, List.append_nil, List.length_nil] at hp
  rw [byteValues_encodeMsgid he, hp, hv, hlen]
  simp

/-- The signed reading, range by range. -/
theorem signedMsgid_eq (e : Nat) :
    signedMsgid e = if e < 0x60 ∨ (0x80 ≤ e ∧ e < 0x3000) then (e : Int)
      else if e < 0x80 then (e : Int) - 0x80 else (e : Int) - 0x4000 := by
  unfold signedMsgid
  split_ifs <;> omega

/-- **Host to firmware, as bytes.**  `PT_int32.encode` writes the signed reading back as the
    id's own bytes, except for the last 32 ids: their readings `-32 .. -1` fit in one byte. -/
theorem ptUint32Encode_signedMsgid {e : Nat} (he : e < 2 ^ 14) :
    ptUint32Encode [] (signedMsgid e) =
      if e < 2 ^ 14 - 32 then encodedMsgidData e else [(e : Int) % 128] := by
  rw [ptUint32Encode_nil, encodedMsgidData_eq he, signedMsgid_eq]
  split_ifs <;> simp <;> omega

/-- **Host to firmware, as the firmware reads it.**  `command_parse_msgid` reads an id's own
    bytes back as the id. -/
theorem commandParseMsgid_of_data {e : Nat} (he : e < 2 ^ 14) {bs : List UInt8} (rest : List UInt8)
    (h : byteValues bs = encodedMsgidData e) :
    commandParseMsgid (bs ++ rest) = some (e.toUInt16, rest) := by
  have hu : e.toUInt16.toNat = e := UInt16.toNat_ofNat_of_lt (by rw [UInt16.size]; omega)
  rw [encodedMsgidData_eq he] at h
  split at h
  · -- one byte, below `0x80`
    obtain ⟨b, rfl, hb⟩ := List.map_eq_singleton_iff.mp h
    have hb' : b.toNat = e := by omega
    rw [List.singleton_append]
    unfold commandParseMsgid
    dsimp only
    rw [if_pos ((uint8_and_0x80 b).mpr (by omega))]
    congr
    apply UInt16.toNat_inj.mp
    rw [UInt8.toNat_toUInt16, hu, hb']
  · -- two bytes: the high seven bits behind the continuation bit, then the low seven
    obtain ⟨b1, l, rfl, hb1, hl⟩ := List.map_eq_cons_iff.mp h
    obtain ⟨b2, rfl, hb2⟩ := List.map_eq_singleton_iff.mp hl
    have hb1' : b1.toNat % 128 = e / 128 := by omega
    have hb2' : b2.toNat = e % 128 := by omega
    rw [List.cons_append, List.singleton_append]
    unfold commandParseMsgid
    dsimp only
    rw [if_neg (fun h0 => by have := (uint8_and_0x80 b1).mp h0; omega)]
    congr
    apply UInt16.toNat_inj.mp
    rw [UInt16.toNat_or, UInt16.toNat_shiftLeft, UInt16.toNat_and, UInt8.toNat_toUInt16,
      UInt8.toNat_toUInt16, hu, show (0x7f : UInt16).toNat = 2 ^ 7 - 1 from rfl,
      Nat.and_two_pow_sub_one_eq_mod, hb1', hb2', show (7 : UInt16).toNat % 16 = 7 from rfl,
      Nat.mod_eq_of_lt (by rw [Nat.shiftLeft_eq]; omega),
      ← Nat.shiftLeft_add_eq_or_of_lt (Nat.mod_lt e (by decide : 0 < 2 ^ 7)), Nat.shiftLeft_eq]
    omega

/-- One byte below `0x80` is read as itself. -/
theorem commandParseMsgid_single {b : UInt8} (hb : b.toNat < 0x80) (rest : List UInt8) :
    commandParseMsgid (b :: rest) = some (b.toUInt16, rest) := by
  unfold commandParseMsgid
  dsimp only
  rw [if_pos ((uint8_and_0x80 b).mpr hb)]

/-! ## Message ids end to end -/

/-- Below `2^14 - 32` the signed reading tells ids apart. -/
theorem signedMsgid_inj {e e' : Nat} (he : e < 2 ^ 14 - 32) (he' : e' < 2 ^ 14 - 32)
    (h : signedMsgid e' = signedMsgid e) : e' = e := by
  rw [signedMsgid_eq, signedMsgid_eq] at h
  split_ifs at h <;> omega

/-- **Message ids across the build script, the host and the firmware.**  For every encoded id
    the build script accepts, `convert_encoded_msgid` gives its signed reading, and `PT_int32`
    reads the firmware's `encode_msgid` bytes as that reading.  The bytes `PT_int32.encode`
    writes for the reading are read back by `command_parse_msgid` as the id exactly when the id
    is below `2^14 - 32`; below that bound no two ids share a msgid, and each of the last 32
    accepted ids shares its msgid with the id `2^14 - 128` below it. -/
theorem msgid_assignment (e : Nat) (he : e < 2 ^ 14) :
    convertEncodedMsgid e = some (signedMsgid e) ∧
    ptUint32Parse true (byteValues (encodeMsgid e.toUInt16)) 0 =
      some (signedMsgid e, (encodeMsgid e.toUInt16).length) ∧
    (∀ bs rest, byteValues bs = ptUint32Encode [] (signedMsgid e) →
      (commandParseMsgid (bs ++ rest) = some (e.toUInt16, rest) ↔ e < 2 ^ 14 - 32)) ∧
    (∀ e' : Nat, e' < 2 ^ 14 - 32 → e < 2 ^ 14 - 32 →
      convertEncodedMsgid e' = convertEncodedMsgid e → e' = e) ∧
    (2 ^ 14 - 32 ≤ e → convertEncodedMsgid (e - (2 ^ 14 - 128) : Nat) = some (signedMsgid e)) := by
  have hu : e.toUInt16.toNat = e := UInt16.toNat_ofNat_of_lt (by rw [UInt16.size]; omega)
  refine ⟨convertEncodedMsgid_eq he, ptInt32Parse_encodeMsgid he, ?_, ?_, ?_⟩
  · intro bs rest hbs
    rw [ptUint32Encode_signedMsgid he] at hbs
    split at hbs
    · rename_i hlt
      exact iff_of_true (commandParseMsgid_of_data he rest hbs) hlt
    · -- the one byte of the reading is an id between 96 and 127, not `e`
      rename_i hge
      obtain ⟨b, rfl, hb⟩ := List.map_eq_singleton_iff.mp hbs
      have hb' : b.toNat = e % 128 := by omega
      rw [List.singleton_append, commandParseMsgid_single (by omega)]
      refine iff_of_false (fun h => ?_) hge
      have hval := congrArg UInt16.toNat (Prod.mk.inj (Option.some.inj h)).1
      rw [UInt8.toNat_toUInt16, hu] at hval
      omega
  · intro e' he' hlt h
    rw [convertEncodedMsgid_eq (by omega), convertEncodedMsgid_eq he] at h
    exact signedMsgid_inj hlt he' (Option.some.inj h)
  · intro hge
    rw [convertEncodedMsgid_eq (by omega)]
    apply congrArg some
    rw [signedMsgid_eq, signedMsgid_eq]
    split_ifs <;> omega

/-- The last accepted id, `16383`: its msgid is that of id `127`, and the one byte `0x7f` the
    host writes for it is read by the firmware as `127`. -/
theorem msgid_assignment_last :
    convertEncodedMsgid 16383 = convertEncodedMsgid 127 ∧
      commandParseMsgid ([0x7f] ++ []) ≠ some ((16383 : Nat).toUInt16, []) := by
  obtain ⟨h1, -, h3, -, h5⟩ := msgid_assignment 16383 (by decide)
  have h5' := h5 (by decide)
  norm_num at h1 h5'
  refine ⟨by rw [h1, h5'], fun h => ?_⟩
  have := (h3 [0x7f] [] (by rw [ptUint32Encode_signedMsgid (by decide)]; simp [byteValues])).mp h
  omega

end Klipper.MsgId
