import Mediaops.Core.PathSchema.EpisodeTag
import Mediaops.Library.Text.Utf8

namespace Mediaops.PathSchema

-- The search for an episode tag as the program makes it, byte by byte, and the tag it
-- looks for as a pattern.

abbrev Tag := Nat × Nat × Option Nat × Text

def isAsciiDigit (b : UInt8) : Bool := decide (48 ≤ b.toNat ∧ b.toNat ≤ 57)

def isAsciiAlphanumeric (b : UInt8) : Bool :=
  decide ((65 ≤ b.toNat ∧ b.toNat ≤ 90) ∨ (97 ≤ b.toNat ∧ b.toNat ≤ 122) ∨
    (48 ≤ b.toNat ∧ b.toNat ≤ 57))

def isTagByte (b : UInt8) : Bool := b == 83 || b == 115

def isMarkByte (b : UInt8) : Bool := b == 69 || b == 101

def isDashByte (b : UInt8) : Bool := b == 45

-- The end of a run of at most `count` digits.
def digitsEnd (bytes : Bytes) : Nat → Nat → Nat
  | 0, j => j
  | count + 1, j =>
      if j < bytes.length ∧ isAsciiDigit (bytes.getD j 0) then digitsEnd bytes count (j + 1) else j

-- `j < bytes.len()` and the byte at `j` is in the class.
def byteAt (p : UInt8 → Bool) (bytes : Bytes) (j : Nat) : Bool :=
  decide (j < bytes.length) && p (bytes.getD j 0)

def boundaryAt (bytes : Bytes) (j : Nat) : Bool :=
  decide (j = bytes.length) || !isAsciiAlphanumeric (bytes.getD j 0)

-- The optional second number behind `k`, and where the tag ends then. A slice that is
-- none is a panic.
def tagEndBytes (stem : Text) (k : Nat) : Option (Option Nat × Nat) :=
  let bytes := Text.asBytes stem
  let m := if byteAt isDashByte bytes k then k + 1 else k
  if byteAt isMarkByte bytes m then
    let n := digitsEnd bytes 3 (m + 1)
    if m + 1 < n ∧ boundaryAt bytes n then do
      let digits ← Text.slice stem (m + 1) n
      pure (Text.parseBelow 65536 digits, n)
    else pure (none, k)
  else pure (none, k)

-- One position of the search: none where it panics, else whether the function returns
-- here and what. A number that does not parse makes the whole search return nothing.
def tagAtBytes (stem : Text) (i : Nat) : Option (Option (Option Tag)) :=
  let bytes := Text.asBytes stem
  if isTagByte (bytes.getD i 0) ∧ (i = 0 ∨ isAsciiAlphanumeric (bytes.getD (i - 1) 0) = false) then
    let j := digitsEnd bytes 2 (i + 1)
    if i + 1 < j ∧ byteAt isMarkByte bytes j then
      let k := digitsEnd bytes 3 (j + 1)
      if j + 1 < k then do
        let seasonDigits ← Text.slice stem (i + 1) j
        match Text.parseBelow 256 seasonDigits with
        | none => pure (some none)
        | some season =>
            let episodeDigits ← Text.slice stem (j + 1) k
            match Text.parseBelow 65536 episodeDigits with
            | none => pure (some none)
            | some episode =>
                let (last, after) ← tagEndBytes stem k
                if boundaryAt bytes after then
                  let rest ← Text.sliceFrom stem after
                  pure (some (some (season, episode, last, rest)))
                else pure none
      else pure none
    else pure none
  else pure none

-- The search at position `i` with `left` positions to come.
def episodeTagBytesFrom (stem : Text) : Nat → Nat → Option (Option Tag)
  | 0, _ => some none
  | left + 1, i => do
      match ← tagAtBytes stem i with
      | some result => pure result
      | none => episodeTagBytesFrom stem left (i + 1)

def episodeTagBytes (stem : Text) : Option (Option Tag) :=
  episodeTagBytesFrom stem (Text.byteLen stem) 0

section Classes

theorem ascii_of_digit (b : UInt8) (h : isAsciiDigit b = true) : b.toNat < 128 := by
  simp only [isAsciiDigit, decide_eq_true_eq] at h
  omega

theorem ascii_of_alphanumeric (b : UInt8) (h : isAsciiAlphanumeric b = true) : b.toNat < 128 := by
  simp only [isAsciiAlphanumeric, decide_eq_true_eq] at h
  omega

theorem ascii_of_tag (b : UInt8) (h : isTagByte b = true) : b.toNat < 128 := by
  simp only [isTagByte, Bool.or_eq_true, beq_iff_eq] at h
  rcases h with rfl | rfl <;> decide

theorem ascii_of_mark (b : UInt8) (h : isMarkByte b = true) : b.toNat < 128 := by
  simp only [isMarkByte, Bool.or_eq_true, beq_iff_eq] at h
  rcases h with rfl | rfl <;> decide

theorem ascii_of_dash (b : UInt8) (h : isDashByte b = true) : b.toNat < 128 := by
  simp only [isDashByte, beq_iff_eq] at h
  subst h
  decide

theorem within_digit (c : Char) : Text.within isAsciiDigit c = c.isDigit := by
  rw [Bool.eq_iff_iff, Text.isDigit_iff]
  simp only [Text.within, isAsciiDigit, Bool.and_eq_true, decide_eq_true_eq, UInt8.toNat_ofNat']
  omega

theorem within_alphanumeric (c : Char) : Text.within isAsciiAlphanumeric c = c.isAlphanum := by
  rw [Bool.eq_iff_iff, Text.isAlphanum_iff]
  simp only [Text.within, isAsciiAlphanumeric, Bool.and_eq_true, decide_eq_true_eq,
    UInt8.toNat_ofNat']
  omega

theorem within_tag (c : Char) : Text.within isTagByte c = (c == 'S' || c == 's') := by
  rw [Bool.eq_iff_iff]
  simp only [Text.within, isTagByte, Bool.and_eq_true, decide_eq_true_eq, Bool.or_eq_true,
    beq_iff_eq, ← UInt8.toNat_inj, UInt8.toNat_ofNat', ← Char.toNat_inj]
  simp only [UInt8.reduceToNat, Char.reduceToNat]
  omega

theorem within_mark (c : Char) : Text.within isMarkByte c = isEpisodeMark c := by
  rw [Bool.eq_iff_iff]
  simp only [Text.within, isMarkByte, isEpisodeMark, Bool.and_eq_true, decide_eq_true_eq,
    Bool.or_eq_true, beq_iff_eq, ← UInt8.toNat_inj, UInt8.toNat_ofNat', ← Char.toNat_inj]
  simp only [UInt8.reduceToNat, Char.reduceToNat]
  omega

theorem within_dash (c : Char) : Text.within isDashByte c = (c == '-') := by
  rw [Bool.eq_iff_iff]
  simp only [Text.within, isDashByte, Bool.and_eq_true, decide_eq_true_eq,
    beq_iff_eq, ← UInt8.toNat_inj, UInt8.toNat_ofNat', ← Char.toNat_inj]
  simp only [UInt8.reduceToNat, Char.reduceToNat]
  omega

-- A character of an ASCII class is one byte.
theorem size_of_within {p : UInt8 → Bool} {c : Char} (h : Text.within p c = true) :
    c.utf8Size = 1 := by
  simp only [Text.within, Bool.and_eq_true, decide_eq_true_eq] at h
  exact (Text.utf8Size_eq_one_iff c).mpr h.1

end Classes

section Positions

-- At a boundary the byte is looked at as the character there is.
theorem byteAt_boundary {p : UInt8 → Bool} (hp : ∀ b, p b = true → b.toNat < 128)
    (front text : Text) :
    byteAt p (Text.asBytes (front ++ text)) (Text.byteLen front) =
      text.head?.any (Text.within p) := by
  cases text with
  | nil => simp [byteAt, Text.byteLen]
  | cons c rest =>
      have hpos := c.utf8Size_pos
      have hbyte := Text.within_byte hp front rest hpos 0
      have hlen : Text.byteLen front < (Text.asBytes (front ++ c :: rest)).length := by
        change _ < Text.byteLen _
        rw [Text.byteLen_append, Text.byteLen_cons]
        omega
      rw [Nat.add_zero] at hbyte
      rw [byteAt, hbyte, decide_eq_true hlen, Bool.true_and, List.head?_cons, Option.any_some]

theorem boundaryAt_boundary (front text : Text) :
    boundaryAt (Text.asBytes (front ++ text)) (Text.byteLen front) = boundary text := by
  cases text with
  | nil => simp [boundaryAt, boundary, Text.byteLen]
  | cons c rest =>
      have hpos := c.utf8Size_pos
      have hbyte := Text.within_byte ascii_of_alphanumeric front rest hpos 0
      have hlen : Text.byteLen front ≠ (Text.asBytes (front ++ c :: rest)).length := by
        change _ ≠ Text.byteLen _
        rw [Text.byteLen_append, Text.byteLen_cons]
        omega
      rw [Nat.add_zero, within_alphanumeric] at hbyte
      rw [boundaryAt, hbyte, decide_eq_false hlen, Bool.false_or, boundary]

theorem digitsEnd_boundary (count : Nat) (front text : Text) :
    digitsEnd (Text.asBytes (front ++ text)) count (Text.byteLen front) =
      Text.byteLen (front ++ takeDigits count text) := by
  induction count generalizing front text with
  | zero => simp [digitsEnd, takeDigits]
  | succ count ih =>
      have hbyte := byteAt_boundary ascii_of_digit front text
      have hcond : (Text.byteLen front < (Text.asBytes (front ++ text)).length ∧
          isAsciiDigit ((Text.asBytes (front ++ text)).getD (Text.byteLen front) 0) = true) ↔
          text.head?.any Char.isDigit = true := by
        rw [← funext within_digit, ← hbyte, byteAt, Bool.and_eq_true, decide_eq_true_eq]
      rw [digitsEnd, if_congr hcond rfl rfl]
      cases text with
      | nil => simp [takeDigits]
      | cons c rest =>
          by_cases hc : c.isDigit = true
          · have hsize := size_of_within ((within_digit c).trans hc)
            have hnext := ih (front ++ [c]) rest
            rw [List.append_assoc, List.singleton_append] at hnext
            have hplace : Text.byteLen (front ++ [c]) = Text.byteLen front + 1 := by simp [hsize]
            rw [hplace] at hnext
            rw [if_pos (by simpa using hc), hnext]
            simp [takeDigits, hc]
          · rw [if_neg (by simpa using hc)]
            simp [takeDigits, hc]

theorem takeDigits_drop (count : Nat) (text : Text) :
    takeDigits count text ++ text.drop (takeDigits count text).length = text :=
  List.prefix_iff_eq_append.mp ((List.takeWhile_prefix _).trans (List.take_prefix _ _))

-- Digits behind a boundary, cut out between their two ends.
theorem slice_digits (front : Text) (count : Nat) (text : Text) :
    Text.slice (front ++ text) (Text.byteLen front)
      (Text.byteLen (front ++ takeDigits count text)) = some (takeDigits count text) := by
  have hslice := Text.slice_append front (takeDigits count text)
    (text.drop (takeDigits count text).length)
  rw [takeDigits_drop] at hslice
  rw [Text.byteLen_append, hslice]

-- The end of a run behind the boundary, moved when there is a digit.
theorem lt_byteLen_digits (front digits : Text) :
    Text.byteLen front < Text.byteLen (front ++ digits) ↔ digits ≠ [] := by
  have hzero : Text.byteLen digits = 0 ↔ digits = [] := Text.byteLen_eq_zero
  rw [Text.byteLen_append, ← not_iff_not, ne_eq, not_not, ← hzero]
  omega

theorem parseBelow_digits {count : Nat} (bound : Nat) (hbound : 10 ^ count ≤ bound) {text : Text}
    (h : takeDigits count text ≠ []) :
    Text.parseBelow bound (takeDigits count text) =
      some (Text.digitsValue (takeDigits count text)) := by
  have hlt := takeDigits_value_lt count text
  rw [Text.parseBelow, if_neg h, if_pos (by omega)]

-- A boundary one character further.
theorem byteLen_next (front : Text) {c : Char} (h : c.utf8Size = 1) :
    Text.byteLen front + 1 = Text.byteLen (front ++ [c]) := by
  simp [h]

-- The boundary behind the optional dash.
theorem afterDash_boundary (front text : Text) :
    ∃ dash, text = dash ++ afterDash text ∧
      (if byteAt isDashByte (Text.asBytes (front ++ text)) (Text.byteLen front) then
        Text.byteLen front + 1 else Text.byteLen front) = Text.byteLen (front ++ dash) := by
  rw [byteAt_boundary ascii_of_dash]
  cases text with
  | nil => exact ⟨[], rfl, by simp⟩
  | cons c rest =>
      rw [List.head?_cons, Option.any_some, within_dash]
      by_cases hc : c = '-'
      · subst hc
        exact ⟨['-'], rfl, by simpa using byteLen_next front (c := '-') (by decide)⟩
      · refine ⟨[], ?_, by simp [hc]⟩
        rw [List.nil_append, afterDash]
        simpa using hc

theorem tagEndBytes_boundary (front text : Text) :
    ∃ tag, text = tag ++ (episodeTagEnd text).2 ∧
      tagEndBytes (front ++ text) (Text.byteLen front) =
        some ((episodeTagEnd text).1, Text.byteLen (front ++ tag)) := by
  obtain ⟨dash, htext, hdash⟩ := afterDash_boundary front text
  have hmark := byteAt_boundary ascii_of_mark (front ++ dash) (afterDash text)
  rw [List.append_assoc, ← htext] at hmark
  rw [episodeTagEnd_eq, tagEndBytes]
  simp only [hdash, hmark]
  cases hafter : afterDash text with
  | nil => exact ⟨[], rfl, by simp [lastEpisode]⟩
  | cons mark rest =>
      rw [List.head?_cons, Option.any_some, within_mark]
      by_cases hm : isEpisodeMark mark = true
      · have hsize := size_of_within ((within_mark mark).trans hm)
        have hstem : front ++ text = front ++ dash ++ [mark] ++ rest := by
          rw [htext, hafter]
          simp
        have hend := digitsEnd_boundary 3 (front ++ dash ++ [mark]) rest
        have hslice := slice_digits (front ++ dash ++ [mark]) 3 rest
        have hlt := lt_byteLen_digits (front ++ dash ++ [mark]) (takeDigits 3 rest)
        have hbound := boundaryAt_boundary (front ++ dash ++ [mark] ++ takeDigits 3 rest)
          (rest.drop (takeDigits 3 rest).length)
        rw [List.append_assoc _ (takeDigits 3 rest), takeDigits_drop, ← hstem] at hbound
        rw [← hstem] at hend hslice
        rw [if_pos hm, byteLen_next _ hsize, hend, hbound, lastEpisode]
        simp only [hlt]
        by_cases hcheck : takeDigits 3 rest ≠ [] ∧
            boundary (rest.drop (takeDigits 3 rest).length) = true
        · rw [if_pos hcheck, if_pos ⟨hm, hcheck⟩, hslice]
          refine ⟨dash ++ [mark] ++ takeDigits 3 rest, ?_, ?_⟩
          · rw [htext, hafter]
            simp [takeDigits_drop]
          · rw [Option.bind_eq_bind, Option.bind_some, parseBelow_digits 65536 (by decide) hcheck.1,
              Option.pure_def, ← List.append_assoc, ← List.append_assoc]
        · rw [if_neg hcheck, if_neg (fun h => hcheck h.2)]
          exact ⟨[], rfl, by simp⟩
      · rw [if_neg hm, lastEpisode, if_neg (fun h => hm h.1)]
        exact ⟨[], rfl, by simp⟩

-- The byte before a boundary.
theorem afterAlphanum_boundary (front text : Text) :
    (Text.byteLen front = 0 ∨ isAsciiAlphanumeric
      ((Text.asBytes (front ++ text)).getD (Text.byteLen front - 1) 0) = false) ↔
      front.getLast?.any Char.isAlphanum = false := by
  rcases List.eq_nil_or_concat front with rfl | ⟨front, c, rfl⟩
  · simp
  · have hpos := c.utf8Size_pos
    have hbyte := Text.within_byte ascii_of_alphanumeric front (c := c) text
      (j := c.utf8Size - 1) (by omega) 0
    have hplace : Text.byteLen (front ++ [c]) - 1 = Text.byteLen front + (c.utf8Size - 1) := by
      simp only [Text.byteLen_append, Text.byteLen_cons, Text.byteLen_nil]
      omega
    rw [List.concat_eq_append, List.append_assoc, List.singleton_append, hplace, hbyte,
      within_alphanumeric]
    simp [hpos.ne']

-- The tag at the head of a text, once the season and its mark are read.
theorem episodeTagAt_marked {c mark : Char} {rest tail : Text} (hs : (c == 'S' || c == 's') = true)
    (hne : takeDigits 2 rest ≠ []) (hdrop : rest.drop (takeDigits 2 rest).length = mark :: tail) :
    episodeTagAt (c :: rest) =
      if isEpisodeMark mark ∧ takeDigits 3 tail ≠ [] then
        if boundary (episodeTagEnd (tail.drop (takeDigits 3 tail).length)).2 then
          some (Text.digitsValue (takeDigits 2 rest), Text.digitsValue (takeDigits 3 tail),
            episodeTagEnd (tail.drop (takeDigits 3 tail).length))
        else none
      else none := by
  rw [episodeTagAt, if_pos hs]
  simp only [hdrop]
  cases hdigits : takeDigits 2 rest with
  | nil => exact absurd hdigits hne
  | cons d digits => rfl

theorem episodeTagAt_unmarked {c : Char} {rest : Text}
    (h : takeDigits 2 rest = [] ∨ rest.drop (takeDigits 2 rest).length = []) :
    episodeTagAt (c :: rest) = none := by
  rw [episodeTagAt]
  simp only [ite_eq_right_iff]
  intro hs
  rcases h with h | h
  · simp [h]
  · simp only [h]
    cases takeDigits 2 rest <;> rfl

theorem tagAtBytes_boundary (front : Text) (c : Char) (rest : Text) :
    tagAtBytes (front ++ c :: rest) (Text.byteLen front) =
      some (if front.getLast?.any Char.isAlphanum then none
        else (episodeTagAt (c :: rest)).map some) := by
  have hhead := Text.within_byte ascii_of_tag front rest c.utf8Size_pos 0
  rw [Nat.add_zero, within_tag] at hhead
  have hbefore := afterAlphanum_boundary front (c :: rest)
  rw [tagAtBytes]
  simp only [hhead, hbefore]
  by_cases hflag : front.getLast?.any Char.isAlphanum = true
  · simp [hflag]
  rw [Bool.not_eq_true] at hflag
  by_cases hs : (c == 'S' || c == 's') = true
  · have hsize := size_of_within ((within_tag c).trans hs)
    have hstem : front ++ c :: rest = front ++ [c] ++ rest := by simp
    have hend := digitsEnd_boundary 2 (front ++ [c]) rest
    have hslice := slice_digits (front ++ [c]) 2 rest
    have hlt := lt_byteLen_digits (front ++ [c]) (takeDigits 2 rest)
    have hmark := byteAt_boundary ascii_of_mark (front ++ [c] ++ takeDigits 2 rest)
      (rest.drop (takeDigits 2 rest).length)
    rw [List.append_assoc _ (takeDigits 2 rest), takeDigits_drop] at hmark
    rw [if_pos ⟨hs, hflag⟩, hstem, byteLen_next _ hsize, hend, hmark, hflag]
    simp only [hlt]
    by_cases hne : takeDigits 2 rest = []
    · rw [if_neg (fun h => h.1 hne), episodeTagAt_unmarked (Or.inl hne)]
      rfl
    cases htail : rest.drop (takeDigits 2 rest).length with
    | nil =>
        rw [episodeTagAt_unmarked (Or.inr htail)]
        simp
    | cons mark tail =>
        rw [List.head?_cons, Option.any_some, within_mark, episodeTagAt_marked hs hne htail]
        by_cases hm : isEpisodeMark mark = true
        · have hmsize := size_of_within ((within_mark mark).trans hm)
          have hfront : front ++ [c] ++ rest =
              front ++ [c] ++ takeDigits 2 rest ++ [mark] ++ tail := by
            conv_lhs => rw [← takeDigits_drop 2 rest, htail]
            simp
          generalize hplace : front ++ [c] ++ takeDigits 2 rest ++ [mark] = place at hfront
          have hkend := digitsEnd_boundary 3 place tail
          have hkslice := slice_digits place 3 tail
          have hklt := lt_byteLen_digits place (takeDigits 3 tail)
          rw [← hfront] at hkend hkslice
          rw [if_pos ⟨hne, hm⟩, byteLen_next _ hmsize, hplace, hkend]
          simp only [hklt, hm, true_and]
          by_cases hepisode : takeDigits 3 tail ≠ []
          · -- the tag's end, and the text behind it
            obtain ⟨tag, htag, hendBytes⟩ := tagEndBytes_boundary (place ++ takeDigits 3 tail)
              (tail.drop (takeDigits 3 tail).length)
            generalize episodeTagEnd (tail.drop (takeDigits 3 tail).length) = found at *
            have hall : front ++ [c] ++ rest = place ++ takeDigits 3 tail ++ tag ++ found.2 := by
              have hcut := takeDigits_drop 3 tail
              rw [htag] at hcut
              rw [hfront, List.append_assoc, List.append_assoc, hcut]
            have hbound := boundaryAt_boundary (place ++ takeDigits 3 tail ++ tag) found.2
            have hrest := Text.sliceFrom_append (place ++ takeDigits 3 tail ++ tag) found.2
            rw [← hall] at hbound hrest
            rw [List.append_assoc place, takeDigits_drop, ← hfront] at hendBytes
            rw [if_pos hepisode, if_pos hepisode, hslice, hkslice, hendBytes]
            simp only [Option.bind_eq_bind, Option.bind_some,
              parseBelow_digits 256 (by decide) hne, parseBelow_digits 65536 (by decide) hepisode,
              hbound, hrest]
            cases boundary found.2 <;> rfl
          · rw [if_neg hepisode, if_neg hepisode]
            rfl
        · rw [if_neg (fun h => hm h.2)]
          simp [hm]
  · rw [if_neg (fun h => hs h.1), episodeTagAt, if_neg hs]
    simp

theorem tagAtBytes_inside (front : Text) {c : Char} (rest : Text) {j : Nat} (hpos : 0 < j)
    (h : j < c.utf8Size) :
    tagAtBytes (front ++ c :: rest) (Text.byteLen front + j) = some none := by
  have hbyte := Text.within_byte ascii_of_tag front rest h 0
  have hhigh : ¬c.toNat < 128 := by
    rw [← Text.utf8Size_eq_one_iff]
    omega
  have hout : Text.within isTagByte c = false := by simp [Text.within, hhigh]
  rw [tagAtBytes, if_neg]
  · rfl
  · rw [hbyte, hout]
    simp

end Positions

section Loop

-- No position inside a character stops the search.
theorem episodeTagBytesFrom_inside (front : Text) {c : Char} (rest : Text) (left : Nat) {j : Nat}
    (hpos : 0 < j) (h : j ≤ c.utf8Size) :
    episodeTagBytesFrom (front ++ c :: rest) (c.utf8Size - j + left) (Text.byteLen front + j) =
      episodeTagBytesFrom (front ++ c :: rest) left (Text.byteLen (front ++ [c])) := by
  obtain ⟨steps, hsteps⟩ : ∃ steps, c.utf8Size - j = steps := ⟨_, rfl⟩
  induction steps generalizing j with
  | zero =>
      have hj : j = c.utf8Size := by omega
      simp [hj]
  | succ steps ih =>
      have hnext := ih (j := j + 1) (by omega) (by omega) (by omega)
      have hcount : c.utf8Size - j + left = (c.utf8Size - (j + 1) + left) + 1 := by omega
      rw [hcount, episodeTagBytesFrom, tagAtBytes_inside front rest hpos (by omega), ← hnext]
      rfl

theorem episodeTagBytesFrom_boundary (front text : Text) :
    episodeTagBytesFrom (front ++ text) (Text.byteLen text) (Text.byteLen front) =
      some (episodeTagFrom (front.getLast?.any Char.isAlphanum) text) := by
  induction text generalizing front with
  | nil => rfl
  | cons c rest ih =>
      have hpos := c.utf8Size_pos
      have hcount : Text.byteLen (c :: rest) = (c.utf8Size - 1 + Text.byteLen rest) + 1 := by
        rw [Text.byteLen_cons]
        omega
      have hnext := ih (front ++ [c])
      rw [List.append_assoc, List.singleton_append] at hnext
      rw [hcount, episodeTagBytesFrom, tagAtBytes_boundary, episodeTagFrom]
      simp only [Option.bind_eq_bind, Option.bind_some]
      cases hfound : if front.getLast?.any Char.isAlphanum = true then none
          else episodeTagAt (c :: rest) with
      | none =>
          have hgo : (if front.getLast?.any Char.isAlphanum = true then none
              else (episodeTagAt (c :: rest)).map some) = none := by
            split at hfound <;> simp_all
          rw [hgo]
          simp only [episodeTagBytesFrom_inside front rest _ Nat.one_pos hpos, hnext]
          simp
      | some found =>
          have hgo : (if front.getLast?.any Char.isAlphanum = true then none
              else (episodeTagAt (c :: rest)).map some) = some (some found) := by
            split at hfound <;> simp_all
          rw [hgo]
          rfl

-- The search by bytes is the search by characters, and never panics.
theorem episodeTagBytes_eq (stem : Text) : episodeTagBytes stem = some (episodeTag stem) :=
  episodeTagBytesFrom_boundary [] stem

end Loop

end Mediaops.PathSchema
