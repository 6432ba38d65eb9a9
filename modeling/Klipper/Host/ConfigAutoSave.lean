import Mathlib
import Klipper.Lib.PyStr

/-
  The `SAVE_CONFIG` block of `klippy/configfile.py`: `cmd_SAVE_CONFIG` writes the regular part of
  `printer.cfg`, `AUTOSAVE_HEADER`, and the autosave text with each line prefixed by `#*# `;
  `_find_autosave_data` splits a config file back into the two parts.

  The round trip (`find_autosave_data_round_trip`) rests on three facts.  The header is found
  right after the regular part: it starts with `\n#*# `, the regular part has no such text, and
  the blank line `cmd_SAVE_CONFIG` puts before the header stops an occurrence from starting in
  the last four characters of the regular part (`no_marker_before`).  Every prefixed line is
  `#*#` or `#*# ` followed by the line without its trailing whitespace (`prefixLine_eq`), so it
  passes the decoder's check and loses its first four characters again.  And the prefixed lines
  start with `#` and end in a character that is not whitespace, so the `strip()` of the block
  removes only the final newline.
-/

namespace Klipper.ConfigAutoSave

open PyStr

/-- `AUTOSAVE_HEADER` -/
def autosaveHeader : List Char :=
  ("\n#*# <---------------------- SAVE_CONFIG ---------------------->\n" ++
    "#*# DO NOT EDIT THIS BLOCK OR BELOW. The contents are auto-generated.\n#*#\n").toList

/-- `('#*# ' + l).strip()`, one line of the block `cmd_SAVE_CONFIG` writes. -/
def prefixLine (l : List Char) : List Char := strip ("#*# ".toList ++ l)

/-- The text `cmd_SAVE_CONFIG` writes, from the regular part (after `_strip_duplicates`) and the
    autosave text of `build_config_string`: `regular_data.rstrip() + autosave_data`. -/
def saveConfigData (regularData autosaveData : List Char) : List Char :=
  let lines := (autosaveData.splitOn '\n').map prefixLine
  let lines := ('\n' :: rstrip autosaveHeader) :: lines ++ [[]]
  rstrip regularData ++ ['\n'].intercalate lines

/-- A line that `_find_autosave_data` rejects with "modifications after header". -/
def badAutosaveLine (autosaveData line : List Char) : Bool :=
  (!"#*#".toList.isPrefixOf line || (decide (line.length ≥ 4) && !"#*# ".toList.isPrefixOf line)) &&
    !autosaveData.isEmpty

/-- `_find_autosave_data(data)`: the regular part, and the autosave part without its line
    prefixes.  A corrupted autosave block gives the whole text back as the regular part. -/
def findAutosaveData (data : List Char) : List Char × List Char :=
  let (regularData, autosaveData) := match find autosaveHeader data with
    | some pos => (data.take pos, strip (data.drop (pos + autosaveHeader.length)))
    | none => (data, [])
  -- "Can't read autosave from config file - autosave state corrupted"
  if "\n#*# ".toList <:+: regularData ∨ (find autosaveHeader autosaveData).isSome then (data, [])
  else
    let lines := autosaveData.splitOn '\n'
    -- "Can't read autosave from config file - modifications after header"
    if lines.any (badAutosaveLine autosaveData) then (data, [])
    else (regularData, ['\n'].intercalate ([] :: lines.map (·.drop 4) ++ [[]]))

/-! ## The prefixed lines -/

/-- `strip()` removes the trailing whitespace of the line, and the space of the prefix too
    when nothing else is left. -/
theorem prefixLine_eq (l : List Char) :
    prefixLine l = if rstrip l = [] then "#*#".toList else "#*# ".toList ++ rstrip l := by
  unfold prefixLine strip
  by_cases h : rstrip l = []
  · rw [rstrip_append_of_eq_nil _ h, if_pos h]
    decide
  · rw [rstrip_append_of_ne_nil _ h, if_neg h]
    exact lstrip_cons_of_not_space _ (by decide)

theorem prefixLine_drop (l : List Char) : (prefixLine l).drop 4 = rstrip l := by
  rw [prefixLine_eq]
  split_ifs with h
  · rw [h]
    rfl
  · rfl

theorem badAutosaveLine_prefixLine (autosaveData l : List Char) :
    badAutosaveLine autosaveData (prefixLine l) = false := by
  rw [prefixLine_eq]
  split_ifs
  · rfl
  · simp [badAutosaveLine]

theorem rstrip_prefixLine (l : List Char) : rstrip (prefixLine l) = prefixLine l := by
  rw [prefixLine_eq]
  split_ifs with h
  · decide
  · rw [rstrip_append_of_ne_nil _ (by rwa [rstrip_rstrip]), rstrip_rstrip]

theorem prefixLine_cons (l : List Char) : ∃ t, prefixLine l = '#' :: t := by
  rw [prefixLine_eq]
  split_ifs
  · exact ⟨_, rfl⟩
  · exact ⟨_, rfl⟩

theorem not_mem_prefixLine {l : List Char} (hl : '\n' ∉ l) : '\n' ∉ prefixLine l := by
  rw [prefixLine_eq]
  have hr : '\n' ∉ rstrip l := fun h => hl ((List.rdropWhile_prefix _ l).subset h)
  split_ifs
  · decide
  · simpa using hr

/-! ## The written text -/

/-- The lines of the autosave block, joined. -/
theorem saveConfigData_eq (regularData autosaveData : List Char) :
    saveConfigData regularData autosaveData =
      rstrip regularData ++ '\n' :: (autosaveHeader ++
        (['\n'].intercalate ((autosaveData.splitOn '\n').map prefixLine) ++ ['\n'])) := by
  have hne : (autosaveData.splitOn '\n').map prefixLine ≠ [] := by
    simp [List.splitOn_ne_nil]
  -- the header loses its final newline to `rstrip` and gets it back from the join
  have hheader : '\n' :: rstrip autosaveHeader ++ ['\n'] = '\n' :: autosaveHeader := by
    decide +kernel
  obtain ⟨l, ls, hls⟩ := List.exists_cons_of_ne_nil hne
  unfold saveConfigData
  dsimp only
  rw [intercalate_append_nil _ (List.cons_ne_nil _ _), hls, List.intercalate_cons_cons, ← hls,
    hheader]
  simp only [List.cons_append, List.append_assoc]

/-- No `\n#*# ` starts in a text without one, or in its last four characters when a blank line
    follows it. -/
theorem no_marker_before {X Z : List Char} (hX : ¬"\n#*# ".toList <:+: X) {i : Nat}
    (hi : i ≤ X.length) : ¬"\n#*# ".toList <+: (X ++ '\n' :: '\n' :: Z).drop i := by
  intro hp
  rw [List.drop_append_of_le_length hi] at hp
  rcases List.prefix_or_prefix_of_prefix hp (List.prefix_append (X.drop i) _) with h | ⟨t, ht⟩
  · exact hX (h.isInfix.trans (List.drop_suffix i X).isInfix)
  · -- the marker would run from the end of `X` into the blank line
    rw [← ht, List.prefix_append_right_inj] at hp
    obtain ⟨k, hk⟩ : ∃ k, (X.drop i).length = k := ⟨_, rfl⟩
    have hlen : k + t.length = 5 := by
      have := congrArg List.length ht
      simp only [List.length_append] at this
      rw [← hk]
      exact this
    have ht' : t = "\n#*# ".toList.drop k := by
      rw [← ht, ← hk, List.drop_left]
    by_cases hk5 : k = 5
    · -- all of the marker inside `X`
      have ht0 : t = [] := List.eq_nil_of_length_eq_zero (by omega)
      rw [ht0, List.append_nil] at ht
      exact hX (ht ▸ (List.drop_suffix i X).isInfix)
    · have hk' : k < 5 := by omega
      have h2 := hp.take 2
      rw [ht'] at h2
      simp only [List.take_succ_cons, List.take_zero] at h2
      revert h2
      interval_cases k <;> decide

/-- The header is found right after the regular part and the blank line. -/
theorem find_autosaveHeader {regular : List Char} (hreg : ¬"\n#*# ".toList <:+: regular)
    (rest : List Char) :
    find autosaveHeader (regular ++ '\n' :: (autosaveHeader ++ rest)) = some (regular.length + 1) := by
  have hmarker : "\n#*# ".toList <+: autosaveHeader := by decide +kernel
  have hshape : autosaveHeader = '\n' :: autosaveHeader.tail := by decide +kernel
  apply find_eq_some
  · intro i hi hp
    refine no_marker_before hreg (Z := autosaveHeader.tail ++ rest) (i := i) (by omega) ?_
    rw [← List.cons_append, ← hshape]
    exact hmarker.trans hp
  · rw [show regular ++ '\n' :: (autosaveHeader ++ rest) =
        (regular ++ ['\n']) ++ (autosaveHeader ++ rest) by simp,
      List.drop_left' (by simp)]
    exact List.prefix_append _ _

/-! ## Reading it back -/

/-- The `strip()` of the block after the header removes only its final newline. -/
theorem strip_autosave_block (autosaveData : List Char) :
    strip (['\n'].intercalate ((autosaveData.splitOn '\n').map prefixLine) ++ ['\n']) =
      ['\n'].intercalate ((autosaveData.splitOn '\n').map prefixLine) := by
  have hne : (autosaveData.splitOn '\n').map prefixLine ≠ [] := by
    simp [List.splitOn_ne_nil]
  have hlines : ∀ l ∈ (autosaveData.splitOn '\n').map prefixLine, l ≠ [] ∧ rstrip l = l := by
    intro l hl
    obtain ⟨l', -, rfl⟩ := List.mem_map.mp hl
    obtain ⟨t, ht⟩ := prefixLine_cons l'
    exact ⟨by rw [ht]; exact List.cons_ne_nil _ _, rstrip_prefixLine l'⟩
  obtain ⟨l, ls, hls⟩ := List.exists_cons_of_ne_nil hne
  have hfirst : ∃ t, l = '#' :: t := by
    have hl : l ∈ (autosaveData.splitOn '\n').map prefixLine := by rw [hls]; exact List.mem_cons_self
    obtain ⟨l', -, rfl⟩ := List.mem_map.mp hl
    exact prefixLine_cons l'
  obtain ⟨t, rfl⟩ := hfirst
  obtain ⟨u, hu⟩ := intercalate_cons_eq '\n' ('#' :: t) ls
  unfold strip
  rw [rstrip_concat_of_space _ (by decide), rstrip_intercalate _ hne hlines, hls, hu,
    List.cons_append]
  exact lstrip_cons_of_not_space _ (by decide)

/-- **SAVE_CONFIG round trip.**  For a regular part without `\n#*# ` and an autosave text whose
    prefixed lines do not contain the header, `_find_autosave_data` reads back the regular part
    with its trailing whitespace reduced to one newline, and every autosave line, in order and
    without its trailing whitespace, between two newlines. -/
theorem find_autosave_data_round_trip (regularData autosaveData : List Char)
    (hreg : ¬"\n#*# ".toList <:+: regularData)
    (hauto : ¬autosaveHeader <:+: ['\n'].intercalate ((autosaveData.splitOn '\n').map prefixLine)) :
    findAutosaveData (saveConfigData regularData autosaveData) =
      (rstrip regularData ++ ['\n'],
        '\n' :: ['\n'].intercalate ((autosaveData.splitOn '\n').map rstrip) ++ ['\n']) := by
  have hreg' : ¬"\n#*# ".toList <:+: rstrip regularData :=
    fun h => hreg (h.trans (List.rdropWhile_prefix _ regularData).isInfix)
  have hne : (autosaveData.splitOn '\n').map rstrip ≠ [] := by simp [List.splitOn_ne_nil]
  -- the two parts the header splits the text into
  have hsplit3 : ∀ body : List Char, rstrip regularData ++ '\n' :: (autosaveHeader ++ body) =
      (rstrip regularData ++ ['\n']) ++ autosaveHeader ++ body := by
    intro body
    simp
  have htake : (rstrip regularData ++ '\n' :: (autosaveHeader ++
      (['\n'].intercalate ((autosaveData.splitOn '\n').map prefixLine) ++ ['\n']))).take
        ((rstrip regularData).length + 1) = rstrip regularData ++ ['\n'] := by
    rw [hsplit3, List.append_assoc, List.take_left' (by simp)]
  have hdrop : (rstrip regularData ++ '\n' :: (autosaveHeader ++
      (['\n'].intercalate ((autosaveData.splitOn '\n').map prefixLine) ++ ['\n']))).drop
        ((rstrip regularData).length + 1 + autosaveHeader.length) =
        ['\n'].intercalate ((autosaveData.splitOn '\n').map prefixLine) ++ ['\n'] := by
    rw [hsplit3, List.drop_left' (by simp; omega)]
  -- neither check for a corrupted block fires
  have hnot : ¬("\n#*# ".toList <:+: rstrip regularData ++ ['\n'] ∨
      (find autosaveHeader (['\n'].intercalate ((autosaveData.splitOn '\n').map prefixLine))).isSome) := by
    rw [find_eq_none hauto, List.infix_concat_iff]
    rintro ((⟨s, hs⟩ | h) | h)
    · -- the marker ends in a space, not in the newline
      have := congrArg List.getLast? hs
      simp at this
    · exact hreg' h
    · cases h
  have hsplit : (['\n'].intercalate ((autosaveData.splitOn '\n').map prefixLine)).splitOn '\n' =
      (autosaveData.splitOn '\n').map prefixLine := by
    refine List.splitOn_intercalate '\n' (fun l hl => ?_) (by simp [List.splitOn_ne_nil])
    obtain ⟨l', hl', rfl⟩ := List.mem_map.mp hl
    exact not_mem_prefixLine (not_mem_of_mem_splitOn hl')
  have hgood : ((autosaveData.splitOn '\n').map prefixLine).any
      (badAutosaveLine (['\n'].intercalate ((autosaveData.splitOn '\n').map prefixLine))) = false := by
    simp [badAutosaveLine_prefixLine]
  have hdrop4 : ((autosaveData.splitOn '\n').map prefixLine).map (·.drop 4) =
      (autosaveData.splitOn '\n').map rstrip := by
    simp [Function.comp_def, prefixLine_drop]
  rw [saveConfigData_eq]
  unfold findAutosaveData
  rw [find_autosaveHeader hreg']
  dsimp only
  rw [htake, hdrop, strip_autosave_block, if_neg hnot, hsplit, hgood, if_neg Bool.false_ne_true,
    hdrop4, intercalate_append_nil _ (List.cons_ne_nil _ _)]
  obtain ⟨l, ls, hls⟩ := List.exists_cons_of_ne_nil hne
  rw [hls, List.intercalate_cons_cons]
  rfl

/-- A regular part ending in blank lines, and an autosave text with an indented continuation
    line with trailing spaces and an empty line. -/
theorem find_autosave_data_round_trip_mesh :
    ¬"\n#*# ".toList <:+: "[printer]\nkinematics: none\n\n".toList ∧
    ¬autosaveHeader <:+: ['\n'].intercalate
      (("[bed_mesh default]\npoints =\n  0.1, 0.2  \n\n[x]".toList.splitOn '\n').map prefixLine) ∧
    findAutosaveData (saveConfigData "[printer]\nkinematics: none\n\n".toList
        "[bed_mesh default]\npoints =\n  0.1, 0.2  \n\n[x]".toList) =
      (rstrip "[printer]\nkinematics: none\n\n".toList ++ ['\n'],
        '\n' :: ['\n'].intercalate
          (("[bed_mesh default]\npoints =\n  0.1, 0.2  \n\n[x]".toList.splitOn '\n').map rstrip) ++
          ['\n']) := by
  have hreg : ¬"\n#*# ".toList <:+: "[printer]\nkinematics: none\n\n".toList := by decide +kernel
  have hauto : ¬autosaveHeader <:+: ['\n'].intercalate
      (("[bed_mesh default]\npoints =\n  0.1, 0.2  \n\n[x]".toList.splitOn '\n').map prefixLine) := by
    decide +kernel
  exact ⟨hreg, hauto, find_autosave_data_round_trip _ _ hreg hauto⟩

end Klipper.ConfigAutoSave
