import Mediaops.Core.PathSchema.EpisodeSearch

namespace Mediaops.PathSchema

-- The tag as a pattern, with a choice at every optional part, and the search as the
-- leftmost match of it.

-- One to `most` digits.
structure DigitRun (most : Nat) (digits : Text) : Prop where
  ne_nil : digits ≠ []
  short : digits.length ≤ most
  digit : ∀ c ∈ digits, c.isDigit = true

-- The season and the episode.
inductive Opening : Text → Nat → Nat → Prop
  | numbers {s mark : Char} {season episode : Text} (hs : s = 'S' ∨ s = 's')
      (hseason : DigitRun 2 season) (hmark : mark = 'E' ∨ mark = 'e')
      (hepisode : DigitRun 3 episode) :
      Opening (s :: (season ++ mark :: episode)) (Text.digitsValue season)
        (Text.digitsValue episode)

-- The last episode, where there is one.
inductive Ending : Text → Option Nat → Prop
  | absent : Ending [] none
  | plain {mark : Char} {digits : Text} (hmark : mark = 'E' ∨ mark = 'e')
      (hdigits : DigitRun 3 digits) : Ending (mark :: digits) (some (Text.digitsValue digits))
  | dashed {mark : Char} {digits : Text} (hmark : mark = 'E' ∨ mark = 'e')
      (hdigits : DigitRun 3 digits) :
      Ending ('-' :: mark :: digits) (some (Text.digitsValue digits))

-- The pattern at the head of a text.
inductive Fits : Text → Tag → Prop
  | parts {opening ending rest : Text} {season episode : Nat} {last : Option Nat}
      (hopening : Opening opening season episode) (hending : Ending ending last)
      (hafter : ∀ c ∈ rest.head?, c.isAlphanum = false) :
      Fits (opening ++ (ending ++ rest)) (season, episode, last, rest)

-- The pattern in a stem, behind `front`.
def Match (stem front : Text) (tag : Tag) : Prop :=
  (∃ text, stem = front ++ text ∧ Fits text tag) ∧ ∀ c ∈ front.getLast?, c.isAlphanum = false

-- The leftmost match, with the last episode taken where the pattern allows it.
def Leftmost (stem : Text) (tag : Tag) : Prop :=
  ∃ front, Match stem front tag ∧
    (∀ other, Match stem front other → other.2.2.1.isSome = true → tag.2.2.1.isSome = true) ∧
    ∀ front' other, Match stem front' other → front.length ≤ front'.length

section Endings

theorem boundary_iff (text : Text) :
    boundary text = true ↔ ∀ c ∈ text.head?, c.isAlphanum = false := by
  cases text with
  | nil => simp [boundary]
  | cons c rest => simp [boundary]

theorem isEpisodeMark_iff (c : Char) : isEpisodeMark c = true ↔ c = 'E' ∨ c = 'e' := by
  simp [isEpisodeMark]

theorem not_digit_of_not_alphanum {c : Char} (h : c.isAlphanum = false) : c.isDigit = false := by
  rw [Bool.eq_false_iff, ne_eq, Text.isAlphanum_iff] at h
  rw [Bool.eq_false_iff, ne_eq, Text.isDigit_iff]
  omega

theorem not_digit_of_mark {c : Char} (h : c = 'E' ∨ c = 'e') : c.isDigit = false := by
  rcases h with rfl | rfl <;> rfl

theorem digitRun_takeDigits {count : Nat} {text : Text} (h : takeDigits count text ≠ []) :
    DigitRun count (takeDigits count text) :=
  ⟨h, takeDigits_length_le_count count text, fun _ hc => List.mem_takeWhile_imp hc⟩

theorem takeDigits_run {count : Nat} {digits rest : Text} (h : DigitRun count digits)
    (hrest : ∀ c ∈ rest.head?, c.isDigit = false) : takeDigits count (digits ++ rest) = digits :=
  takeDigits_of_digits h.digit h.short hrest

theorem lastEpisode_run {text digits rest : Text} {mark : Char} (hmark : mark = 'E' ∨ mark = 'e')
    (h : DigitRun 3 digits) (hrest : ∀ c ∈ rest.head?, c.isAlphanum = false) :
    lastEpisode text (mark :: (digits ++ rest)) = (some (Text.digitsValue digits), rest) := by
  have htake := takeDigits_run h fun c hc => not_digit_of_not_alphanum (hrest c hc)
  have hcheck : isEpisodeMark mark ∧ digits ≠ [] ∧ boundary rest :=
    ⟨(isEpisodeMark_iff mark).mpr hmark, h.ne_nil, (boundary_iff rest).mpr hrest⟩
  simp only [lastEpisode, htake, List.drop_left', if_pos hcheck]

-- A last episode that the pattern allows is found.
theorem episodeTagEnd_ending {ending rest : Text} {n : Nat} (h : Ending ending (some n))
    (hrest : ∀ c ∈ rest.head?, c.isAlphanum = false) :
    episodeTagEnd (ending ++ rest) = (some n, rest) := by
  rw [episodeTagEnd_eq]
  cases h with
  | plain hmark hdigits =>
      rename_i mark digits
      have hdash : afterDash (mark :: digits ++ rest) = mark :: (digits ++ rest) := by
        rcases hmark with rfl | rfl <;> rfl
      rw [hdash, lastEpisode_run hmark hdigits hrest]
  | dashed hmark hdigits =>
      rename_i mark digits
      exact lastEpisode_run hmark hdigits hrest

-- What is found is allowed.
theorem episodeTagEnd_cases (text : Text) :
    episodeTagEnd text = (none, text) ∨ ∃ ending n rest, text = ending ++ rest ∧
      Ending ending (some n) ∧ episodeTagEnd text = (some n, rest) ∧
        ∀ c ∈ rest.head?, c.isAlphanum = false := by
  rw [episodeTagEnd_eq]
  cases hafter : afterDash text with
  | nil => exact Or.inl rfl
  | cons mark rest =>
      by_cases hcheck : isEpisodeMark mark ∧ takeDigits 3 rest ≠ [] ∧
          boundary (rest.drop (takeDigits 3 rest).length)
      · right
        have hmark := (isEpisodeMark_iff mark).mp hcheck.1
        have hrun := digitRun_takeDigits hcheck.2.1
        have hbound := (boundary_iff _).mp hcheck.2.2
        rw [lastEpisode, if_pos hcheck]
        by_cases hdash : text.head? = some '-'
        · cases text with
          | nil => cases hdash
          | cons c text =>
              obtain rfl := Option.some.inj hdash
              obtain rfl : text = mark :: rest := hafter
              refine ⟨_, _, _, ?_, Ending.dashed hmark hrun, rfl, hbound⟩
              simp [takeDigits_drop]
        · have hsame : afterDash text = text := by
            unfold afterDash
            split
            · exact absurd rfl hdash
            · rfl
          rw [hsame] at hafter
          refine ⟨_, _, _, ?_, Ending.plain hmark hrun, rfl, hbound⟩
          rw [hafter]
          simp [takeDigits_drop]
      · left
        rw [lastEpisode, if_neg hcheck]

end Endings

section Heads

theorem ending_no_digit {ending rest : Text} {last : Option Nat} (h : Ending ending last)
    (hrest : ∀ c ∈ rest.head?, c.isAlphanum = false) :
    ∀ c ∈ (ending ++ rest).head?, c.isDigit = false := by
  intro c hc
  cases h with
  | absent => exact not_digit_of_not_alphanum (hrest c hc)
  | plain hmark hdigits =>
      cases hc
      exact not_digit_of_mark hmark
  | dashed hmark hdigits =>
      cases hc
      rfl

-- The tag behind an opening is what the end of the tag says.
theorem episodeTagAt_opening {opening text : Text} {season episode : Nat}
    (h : Opening opening season episode) (htext : ∀ c ∈ text.head?, c.isDigit = false) :
    episodeTagAt (opening ++ text) =
      if boundary (episodeTagEnd text).2 then some (season, episode, episodeTagEnd text)
      else none := by
  cases h with
  | numbers hs hseason hmark hepisode =>
      rename_i s mark seasonDigits episodeDigits
      have htake : takeDigits 2 (seasonDigits ++ mark :: (episodeDigits ++ text)) = seasonDigits := by
        refine takeDigits_run hseason fun c hc => ?_
        cases hc
        exact not_digit_of_mark hmark
      have hsplit : s :: (seasonDigits ++ mark :: episodeDigits) ++ text =
          s :: (seasonDigits ++ mark :: (episodeDigits ++ text)) := by simp
      have hcheck : isEpisodeMark mark ∧ takeDigits 3 (episodeDigits ++ text) ≠ [] := by
        rw [takeDigits_run hepisode htext]
        exact ⟨(isEpisodeMark_iff mark).mpr hmark, hepisode.ne_nil⟩
      rw [hsplit, episodeTagAt_marked (by simpa using hs) (by rw [htake]; exact hseason.ne_nil)
        (by rw [htake, List.drop_left']; rfl), if_pos hcheck, takeDigits_run hepisode htext,
        List.drop_left' rfl, htake]

theorem episodeTagAt_fits {text : Text} {tag : Tag} (h : episodeTagAt text = some tag) :
    Fits text tag := by
  cases text with
  | nil => cases h
  | cons c rest =>
      by_cases hs : (c == 'S' || c == 's') = true
      · by_cases hne : takeDigits 2 rest = []
        · rw [episodeTagAt_unmarked (Or.inl hne)] at h
          cases h
        cases hdrop : rest.drop (takeDigits 2 rest).length with
        | nil =>
            rw [episodeTagAt_unmarked (Or.inr hdrop)] at h
            cases h
        | cons mark tail =>
            rw [episodeTagAt_marked hs hne hdrop] at h
            split at h
            · next hcheck =>
                have hopening := Opening.numbers (by simpa using hs) (digitRun_takeDigits hne)
                  ((isEpisodeMark_iff mark).mp hcheck.1) (digitRun_takeDigits hcheck.2)
                have htext : c :: rest = c :: (takeDigits 2 rest ++ mark :: takeDigits 3 tail) ++
                    tail.drop (takeDigits 3 tail).length := by
                  conv_lhs => rw [← takeDigits_drop 2 rest, hdrop, ← takeDigits_drop 3 tail]
                  simp
                rw [htext]
                generalize tail.drop (takeDigits 3 tail).length = more at h ⊢
                split at h
                · next hbound =>
                    obtain rfl := Option.some.inj h
                    rcases episodeTagEnd_cases more with hnone | ⟨ending, n, tail, rfl, hending,
                      hend, htail⟩
                    · rw [hnone] at hbound ⊢
                      exact Fits.parts hopening Ending.absent ((boundary_iff more).mp hbound)
                    · rw [hend]
                      exact Fits.parts hopening hending htail
                · cases h
            · cases h
      · rw [episodeTagAt, if_neg hs] at h
        cases h

-- Where the pattern fits the search finds it, or the same with a last episode.
theorem Fits.found {text : Text} {tag : Tag} (h : Fits text tag) :
    episodeTagAt text = some tag ∨
      tag.2.2.1 = none ∧ ∃ other : Tag, other.2.2.1.isSome = true ∧ episodeTagAt text = some other := by
  cases h with
  | parts hopening hending hafter =>
      rename_i opening ending rest season episode last
      have hat := episodeTagAt_opening hopening (ending_no_digit hending hafter)
      cases last with
      | some n =>
          left
          rw [hat, episodeTagEnd_ending hending hafter, if_pos ((boundary_iff rest).mpr hafter)]
      | none =>
          cases hending
          rw [List.nil_append] at hat ⊢
          rcases episodeTagEnd_cases rest with hnone | ⟨ending, n, tail, -, -, hend, htail⟩
          · left
            rw [hat, hnone, if_pos ((boundary_iff rest).mpr hafter)]
          · right
            rw [hend, if_pos ((boundary_iff tail).mpr htail)] at hat
            exact ⟨rfl, _, rfl, hat⟩

end Heads

section Searches

-- The places in a text behind `front` at which the pattern fits.
def Place (front text mid : Text) (tag : Tag) : Prop :=
  (∃ rest, text = mid ++ rest ∧ Fits rest tag) ∧
    ∀ c ∈ (front ++ mid).getLast?, c.isAlphanum = false

theorem place_here {front text : Text} {tag : Tag} :
    Place front text [] tag ↔ Fits text tag ∧ front.getLast?.any Char.isAlphanum = false := by
  simp [Place, Option.any_eq_false]

theorem place_cons {front text mid : Text} {c d : Char} {tag : Tag} :
    Place front (c :: text) (d :: mid) tag ↔ c = d ∧ Place (front ++ [d]) text mid tag := by
  constructor
  · rintro ⟨⟨rest, htext, hfits⟩, hbefore⟩
    obtain ⟨rfl, rfl⟩ := List.cons.inj htext
    exact ⟨rfl, ⟨rest, rfl, hfits⟩, by simpa using hbefore⟩
  · rintro ⟨rfl, ⟨rest, rfl, hfits⟩, hbefore⟩
    exact ⟨⟨rest, rfl, hfits⟩, by simpa using hbefore⟩

-- The first place, with the last episode preferred.
def First (front text mid : Text) (tag : Tag) : Prop :=
  Place front text mid tag ∧
    (∀ other, Place front text mid other → other.2.2.1.isSome = true →
      tag.2.2.1.isSome = true) ∧
    ∀ mid' other, Place front text mid' other → mid.length ≤ mid'.length

-- What a search of a text behind `front` may answer.
def Searched (front text : Text) : Option Tag → Prop
  | none => ∀ mid tag, ¬Place front text mid tag
  | some tag => ∃ mid, First front text mid tag

-- By induction on the text: the head either is the place or is passed over.
theorem episodeTagFrom_searched (text front : Text) :
    Searched front text (episodeTagFrom (front.getLast?.any Char.isAlphanum) text) := by
  induction text generalizing front with
  | nil =>
      rintro mid tag ⟨⟨rest, htext, hfits⟩, -⟩
      obtain ⟨-, rfl⟩ := List.append_eq_nil_iff.mp htext.symm
      have hfound := hfits.found
      simp [episodeTagAt] at hfound
  | cons c rest ih =>
      rw [episodeTagFrom]
      cases hhere : if front.getLast?.any Char.isAlphanum = true then none
          else episodeTagAt (c :: rest) with
      | none =>
          -- nothing fits at the head, so every place is behind it
          have hnot : ∀ tag, ¬Place front (c :: rest) [] tag := by
            intro tag hplace
            obtain ⟨hfits, hflag⟩ := place_here.mp hplace
            rw [hflag, if_neg (by decide)] at hhere
            have hfound := hfits.found
            simp [hhere] at hfound
          have hnext := ih (front ++ [c])
          rw [List.getLast?_concat, Option.any_some] at hnext
          cases hrest : episodeTagFrom c.isAlphanum rest with
          | none =>
              rw [hrest] at hnext
              rintro (_ | ⟨d, mid⟩) tag hplace
              · exact hnot tag hplace
              · exact hnext mid tag ((place_cons.mp hplace).1 ▸ (place_cons.mp hplace).2)
          | some tag =>
              rw [hrest] at hnext
              obtain ⟨mid, hmid, hprefer, hleast⟩ := hnext
              refine ⟨c :: mid, place_cons.mpr ⟨rfl, hmid⟩, ?_, ?_⟩
              · intro other hother
                exact hprefer other (place_cons.mp hother).2
              · rintro (_ | ⟨d, mid'⟩) other hother
                · exact absurd hother (hnot other)
                · obtain ⟨rfl, hother⟩ := place_cons.mp hother
                  simpa using hleast mid' other hother
      | some tag =>
          have hflag : front.getLast?.any Char.isAlphanum = false := by
            rw [Bool.eq_false_iff]
            intro hflag
            rw [if_pos hflag] at hhere
            cases hhere
          rw [hflag, if_neg (by decide)] at hhere
          refine ⟨[], place_here.mpr ⟨episodeTagAt_fits hhere, hflag⟩, ?_, ?_⟩
          · intro other hother hsome
            rcases (place_here.mp hother).1.found with hsame | ⟨hnone, -⟩
            · rw [hhere, Option.some.injEq] at hsame
              rw [hsame]
              exact hsome
            · rw [hnone] at hsome
              cases hsome
          · intro mid' other hother
            exact Nat.zero_le _

theorem Leftmost.found {stem : Text} {tag : Tag} {front text : Text} (hstem : stem = front ++ text)
    (hmatch : Match stem front tag)
    (hprefer : ∀ other, Match stem front other → other.2.2.1.isSome = true →
      tag.2.2.1.isSome = true) : episodeTagAt text = some tag := by
  obtain ⟨⟨text', htext, hfits⟩, hbefore⟩ := hmatch
  obtain rfl : text' = text := List.append_cancel_left (htext.symm.trans hstem)
  rcases hfits.found with hsame | ⟨hnone, other, hsome, hother⟩
  · exact hsame
  · have htag := hprefer other ⟨⟨text', htext, episodeTagAt_fits hother⟩, hbefore⟩ hsome
    rw [hnone] at htag
    cases htag

-- Two leftmost matches are one.
theorem Leftmost.unique {stem : Text} {tag other : Tag} (h : Leftmost stem tag)
    (h' : Leftmost stem other) : tag = other := by
  obtain ⟨front, hmatch, hprefer, hleast⟩ := h
  obtain ⟨front', hmatch', hprefer', hleast'⟩ := h'
  obtain ⟨⟨text, htext, -⟩, -⟩ := id hmatch
  obtain ⟨⟨text', htext', -⟩, -⟩ := id hmatch'
  have hlen := Nat.le_antisymm (hleast front' other hmatch') (hleast' front tag hmatch)
  obtain ⟨rfl, rfl⟩ := List.append_inj (htext.symm.trans htext') hlen
  have hfound := Leftmost.found htext hmatch hprefer
  have hfound' := Leftmost.found htext hmatch' hprefer'
  exact Option.some.inj (hfound.symm.trans hfound')

theorem episodeTag_searched (stem : Text) :
    (episodeTag stem = none ∧ ¬∃ front tag, Match stem front tag) ∨
      ∃ tag, episodeTag stem = some tag ∧ Leftmost stem tag := by
  have hsearch := episodeTagFrom_searched stem []
  rw [List.getLast?_nil, Option.any_none, ← episodeTag] at hsearch
  cases hfound : episodeTag stem with
  | none =>
      rw [hfound] at hsearch
      refine Or.inl ⟨rfl, ?_⟩
      rintro ⟨front, tag, hmatch⟩
      exact hsearch front tag hmatch
  | some tag =>
      rw [hfound] at hsearch
      exact Or.inr ⟨tag, rfl, hsearch⟩

theorem episodeTag_eq_some_iff (stem : Text) (tag : Tag) :
    episodeTag stem = some tag ↔ Leftmost stem tag := by
  rcases episodeTag_searched stem with ⟨hnone, hnot⟩ | ⟨found, hfound, hleft⟩
  · rw [hnone]
    refine iff_of_false (by simp) ?_
    rintro ⟨front, hmatch, -⟩
    exact hnot ⟨front, tag, hmatch⟩
  · rw [hfound, Option.some.injEq]
    constructor
    · rintro rfl
      exact hleft
    · exact hleft.unique

theorem episodeTag_eq_none_iff (stem : Text) :
    episodeTag stem = none ↔ ¬∃ front tag, Match stem front tag := by
  rcases episodeTag_searched stem with ⟨hnone, hnot⟩ | ⟨found, hfound, hleft⟩
  · exact iff_of_true hnone hnot
  · rw [hfound]
    refine iff_of_false (by simp) (not_not.mpr ?_)
    obtain ⟨front, hmatch, -⟩ := hleft
    exact ⟨front, found, hmatch⟩

end Searches

-- What may follow the tag in a rendered stem.
def titled (title : Option Text) : Text := (title.map ('.' :: ·)).getD []

theorem isSuffix_titled (title : Option Text) : IsSuffix (titled title) := by
  cases title with
  | none => exact Or.inl rfl
  | some title => exact Or.inr ⟨title, rfl⟩

-- What the program reads out of a stem, panics included, is the leftmost match of the
-- pattern; and of a stem that ends with the tag the renderer writes it is that tag.
theorem episode_tag_exact :
    (∀ stem, (∀ tag, episodeTagBytes stem = some (some tag) ↔ Leftmost stem tag) ∧
      (episodeTagBytes stem = some none ↔ ¬∃ front tag, Match stem front tag)) ∧
    ∀ left season episode last title, (¬∃ front tag, Match left front tag) → season ≤ 99 →
      episode ≤ 999 → (∀ n ∈ last, n ≤ 999) →
        episodeTagBytes (left ++ '.' :: (renderEpisodeTag season episode last ++ titled title)) =
          some (some (season, episode, last, titled title)) := by
  constructor
  · intro stem
    rw [episodeTagBytes_eq]
    simp only [Option.some.injEq]
    exact ⟨episodeTag_eq_some_iff stem, episodeTag_eq_none_iff stem⟩
  · intro left season episode last title hleft hseason hepisode hlast
    have hnone : episodeTagFrom false left = none := (episodeTag_eq_none_iff left).mpr hleft
    have hrendered := episodeTagFrom_rendered hseason hepisode hlast (isSuffix_titled title)
    rw [episodeTagBytes_eq, episodeTag, episodeTagFrom_append_dot, hnone, hrendered]
    rfl

-- A stem in which the tag is read at a multi-byte character's end.
theorem episode_tag_exact_pilot :
    episodeTagBytes ("é".toList ++ '.' :: (renderEpisodeTag 1 2 (some 3) ++
      titled (some "Pilot".toList))) = some (some (1, 2, some 3, ".Pilot".toList)) := by
  refine episode_tag_exact.2 "é".toList 1 2 (some 3) (some "Pilot".toList) ?_ (by decide)
    (by decide) (by decide)
  rw [← (episode_tag_exact.1 _).2]
  decide

end Mediaops.PathSchema
