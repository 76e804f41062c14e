import Mediaops.Core.PathSchema.Rendered

namespace Mediaops.PathSchema

-- The search for an episode tag in a stem that is put together with dots.

section Digits

theorem takeDigits_append_dot (count : Nat) (text right : Text) :
    takeDigits count (text ++ '.' :: right) = takeDigits count text := by
  unfold takeDigits
  induction text generalizing count with
  | nil =>
      cases count with
      | zero => rfl
      | succ count => rfl
  | cons c rest ih =>
      cases count with
      | zero => rfl
      | succ count =>
          simp only [List.cons_append, List.take_succ_cons, List.takeWhile_cons, ih]

theorem takeDigits_length_le (count : Nat) (text : Text) :
    (takeDigits count text).length ≤ text.length := by
  have hwhile := (List.takeWhile_sublist Char.isDigit (l := text.take count)).length_le
  have htake := List.length_take_le' count text
  exact hwhile.trans htake

theorem takeDigits_length_le_count (count : Nat) (text : Text) :
    (takeDigits count text).length ≤ count := by
  have hwhile := (List.takeWhile_sublist Char.isDigit (l := text.take count)).length_le
  have htake := List.length_take_le count text
  exact hwhile.trans htake

-- A number that ends where its digits end is taken whole.
theorem takeDigits_of_digits {count : Nat} {digits rest : Text}
    (hall : ∀ c ∈ digits, c.isDigit = true) (hlen : digits.length ≤ count)
    (hrest : ∀ c ∈ rest.head?, c.isDigit = false) : takeDigits count (digits ++ rest) = digits := by
  unfold takeDigits
  induction digits generalizing count with
  | nil =>
      cases rest with
      | nil => simp
      | cons c rest =>
          have hc := hrest c rfl
          cases count with
          | zero => rfl
          | succ count => simp [hc]
  | cons d digits ih =>
      cases count with
      | zero => simp at hlen
      | succ count =>
          have hd := hall d List.mem_cons_self
          simp only [List.length_cons, Nat.add_le_add_iff_right] at hlen
          simp only [List.cons_append, List.take_succ_cons, List.takeWhile_cons, hd, if_true,
            ih (fun c hc => hall c (List.mem_cons_of_mem _ hc)) hlen]

theorem digitsValue_lt (digits : Text) (h : ∀ c ∈ digits, c.isDigit = true) :
    Text.digitsValue digits < 10 ^ digits.length := by
  induction digits using List.reverseRecOn with
  | nil => decide
  | append_singleton digits c ih =>
      have hc := (Text.isDigit_iff c).mp (h c (by simp))
      have hinit := ih fun d hd => h d (by simp [hd])
      simp only [Text.digitsValue] at hinit ⊢
      rw [Nat.ofDigitChars_append, Nat.ofDigitChars_cons, Nat.ofDigitChars_nil, List.length_append,
        List.length_singleton, Nat.pow_succ]
      have hzero : '0'.toNat = 48 := by decide
      omega

theorem takeDigits_value_lt (count : Nat) (text : Text) :
    Text.digitsValue (takeDigits count text) < 10 ^ count := by
  have hlt := digitsValue_lt (takeDigits count text) fun c hc => by
    simpa using List.mem_takeWhile_imp hc
  exact hlt.trans_le (Nat.pow_le_pow_right (by decide) (takeDigits_length_le_count count text))

end Digits

section Append

theorem boundary_append_dot (text right : Text) : boundary (text ++ '.' :: right) = boundary text := by
  cases text with
  | nil => rfl
  | cons c rest => rfl

theorem drop_takeDigits_append (count : Nat) (text right : Text) :
    (text ++ right).drop (takeDigits count text).length =
      text.drop (takeDigits count text).length ++ right :=
  List.drop_append_of_le_length (takeDigits_length_le count text)

-- `episodeTagEnd` in two steps: the dash, then the last episode of the tag.
def afterDash : Text → Text
  | '-' :: rest => rest
  | text => text

def lastEpisode (text : Text) : Text → Option Nat × Text
  | mark :: rest =>
      let digits := takeDigits 3 rest
      let after := rest.drop digits.length
      if isEpisodeMark mark ∧ digits ≠ [] ∧ boundary after then
        (some (Text.digitsValue digits), after)
      else (none, text)
  | [] => (none, text)

theorem episodeTagEnd_eq (text : Text) : episodeTagEnd text = lastEpisode text (afterDash text) := by
  have hdash : (match text with | '-' :: rest => rest | _ => text) = afterDash text := by
    unfold afterDash
    split <;> rfl
  exact congrArg (lastEpisode text) hdash

theorem afterDash_append_dot (text right : Text) :
    afterDash (text ++ '.' :: right) = afterDash text ++ '.' :: right := by
  unfold afterDash
  split
  · next rest h =>
      cases text with
      | nil => simp at h
      | cons c text =>
          simp only [List.cons_append, List.cons.injEq] at h
          obtain ⟨rfl, rfl⟩ := h
          rfl
  · next h =>
      split
      · next rest => exact absurd rfl (h _)
      · rfl

theorem lastEpisode_append_dot (text tail right : Text) :
    lastEpisode (text ++ '.' :: right) (tail ++ '.' :: right) =
      ((lastEpisode text tail).1, (lastEpisode text tail).2 ++ '.' :: right) := by
  cases tail with
  | nil => rfl
  | cons mark rest =>
      simp only [List.cons_append, lastEpisode, takeDigits_append_dot, drop_takeDigits_append,
        boundary_append_dot]
      split <;> rfl

theorem episodeTagEnd_append_dot (text right : Text) :
    episodeTagEnd (text ++ '.' :: right) =
      ((episodeTagEnd text).1, (episodeTagEnd text).2 ++ '.' :: right) := by
  rw [episodeTagEnd_eq, episodeTagEnd_eq, afterDash_append_dot, lastEpisode_append_dot]

-- The number of the last episode has three digits at most.
theorem episodeTagEnd_lt {text : Text} {last : Nat} (h : (episodeTagEnd text).1 = some last) :
    last ≤ 999 := by
  rw [episodeTagEnd_eq] at h
  unfold lastEpisode at h
  split at h
  · next mark rest _ =>
      dsimp only at h
      split at h
      · cases h
        have := takeDigits_value_lt 3 rest
        omega
      · cases h
  · cases h

-- A tag found in a text, with more text behind it.
def extend (right : Text) (found : Nat × Nat × Option Nat × Text) : Nat × Nat × Option Nat × Text :=
  (found.1, found.2.1, found.2.2.1, found.2.2.2 ++ '.' :: right)

theorem episodeTagAt_append_dot (c : Char) (text right : Text) :
    episodeTagAt (c :: text ++ '.' :: right) = (episodeTagAt (c :: text)).map (extend right) := by
  simp only [List.cons_append, episodeTagAt, takeDigits_append_dot, drop_takeDigits_append]
  split
  · cases hdrop : text.drop (takeDigits 2 text).length with
    | nil =>
        cases takeDigits 2 text with
        | nil => rfl
        | cons d digits => simp [isEpisodeMark]
    | cons mark rest =>
        cases takeDigits 2 text with
        | nil => rfl
        | cons d digits =>
            simp only [List.cons_append, takeDigits_append_dot, drop_takeDigits_append,
              episodeTagEnd_append_dot, boundary_append_dot]
            split
            · split <;> rfl
            · rfl
  · rfl

theorem episodeTagFrom_append_dot (afterAlphanum : Bool) (left right : Text) :
    episodeTagFrom afterAlphanum (left ++ '.' :: right) =
      ((episodeTagFrom afterAlphanum left).map (extend right)).or (episodeTagFrom false right) := by
  induction left generalizing afterAlphanum with
  | nil => cases afterAlphanum <;> rfl
  | cons c rest ih =>
      have hat := episodeTagAt_append_dot c rest right
      rw [List.cons_append] at hat ⊢
      rw [episodeTagFrom.eq_2, episodeTagFrom.eq_2, hat]
      cases afterAlphanum with
      | true => simp [ih]
      | false => cases episodeTagAt (c :: rest) <;> simp [ih]

theorem episodeTagFrom_none {text : Text} (h : ∀ c ∈ text, c ≠ 'S' ∧ c ≠ 's')
    (afterAlphanum : Bool) : episodeTagFrom afterAlphanum text = none := by
  induction text generalizing afterAlphanum with
  | nil => rfl
  | cons c rest ih =>
      have hc := h c List.mem_cons_self
      have hat : episodeTagAt (c :: rest) = none := by simp [episodeTagAt, hc]
      unfold episodeTagFrom
      rw [hat, ih (fun d hd => h d (List.mem_cons_of_mem _ hd))]
      cases afterAlphanum <;> rfl

-- How a tag is put together.
theorem episodeTagAt_some {text after : Text} {season episode : Nat} {last : Option Nat}
    (h : episodeTagAt text = some (season, episode, last, after)) :
    ∃ c rest mark tail, text = c :: rest ∧
      rest.drop (takeDigits 2 rest).length = mark :: tail ∧
      season = Text.digitsValue (takeDigits 2 rest) ∧
      episode = Text.digitsValue (takeDigits 3 tail) ∧
      episodeTagEnd (tail.drop (takeDigits 3 tail).length) = (last, after) := by
  unfold episodeTagAt at h
  split at h
  · cases h
  · next c rest =>
      split at h
      · dsimp only at h
        split at h
        · next mark tail hdigits hdrop =>
            split at h
            · split at h
              · simp only [Option.some.injEq, Prod.mk.injEq] at h
                exact ⟨c, rest, mark, tail, rfl, hdrop, h.1.symm, h.2.1.symm,
                  Prod.ext h.2.2.1 h.2.2.2⟩
              · cases h
            · cases h
        · cases h
      · cases h

theorem episodeTag_some {text : Text} {found : Nat × Nat × Option Nat × Text}
    (h : episodeTag text = some found) :
    ∃ front rest, text = front ++ rest ∧ episodeTagAt rest = some found := by
  unfold episodeTag at h
  generalize false = flag at h
  induction text generalizing flag with
  | nil => cases h
  | cons c rest ih =>
      rw [episodeTagFrom.eq_2] at h
      split at h
      · next hfound =>
          cases h
          cases flag with
          | true => cases hfound
          | false => exact ⟨[], c :: rest, rfl, hfound⟩
      · obtain ⟨front, tail, hrest, hat⟩ := ih _ h
        exact ⟨c :: front, tail, by rw [hrest]; rfl, hat⟩

-- What a tag says is within the ranges the parser checks.
theorem episodeTag_range {text after : Text} {season episode : Nat} {last : Option Nat}
    (h : episodeTag text = some (season, episode, last, after)) :
    season ≤ 99 ∧ episode ≤ 999 ∧ ∀ n ∈ last, n ≤ 999 := by
  obtain ⟨front, rest, -, hat⟩ := episodeTag_some h
  obtain ⟨c, rest, mark, tail, -, -, hseason, hepisode, hend⟩ := episodeTagAt_some hat
  have hs := takeDigits_value_lt 2 rest
  have he := takeDigits_value_lt 3 tail
  refine ⟨by omega, by omega, fun n hn => ?_⟩
  exact episodeTagEnd_lt ((congrArg Prod.fst hend).trans hn)

end Append

section Rendered

theorem takeDigits_decimal02 {n count : Nat} {rest : Text} (hlen : (Text.decimal02 n).length ≤ count)
    (hrest : ∀ c ∈ rest.head?, c.isDigit = false) :
    takeDigits count (Text.decimal02 n ++ rest) = Text.decimal02 n :=
  takeDigits_of_digits (fun _ hc => Text.isDigit_decimal02 hc) hlen hrest

-- A text that may follow a tag: nothing, or a dot and more.
def IsSuffix (suffix : Text) : Prop := suffix = [] ∨ ∃ rest, suffix = '.' :: rest

theorem IsSuffix.boundary {suffix : Text} (h : IsSuffix suffix) : boundary suffix = true := by
  rcases h with rfl | ⟨rest, rfl⟩ <;> rfl

theorem IsSuffix.no_digit {suffix : Text} (h : IsSuffix suffix) :
    ∀ c ∈ suffix.head?, c.isDigit = false := by
  rcases h with rfl | ⟨rest, rfl⟩
  · simp
  · intro c hc
    cases hc
    rfl

theorem episodeTagEnd_suffix {suffix : Text} (h : IsSuffix suffix) :
    episodeTagEnd suffix = (none, suffix) := by
  rcases h with rfl | ⟨rest, rfl⟩ <;> rfl

theorem episodeTagEnd_rendered {last : Nat} (hlast : last ≤ 999) {suffix : Text}
    (h : IsSuffix suffix) :
    episodeTagEnd ("-E".toList ++ Text.decimal02 last ++ suffix) = (some last, suffix) := by
  have hdigits := takeDigits_decimal02 (Text.decimal02_length_three hlast) h.no_digit
  rw [episodeTagEnd_eq, List.append_assoc]
  change lastEpisode _ ('E' :: (Text.decimal02 last ++ suffix)) = _
  have hcheck : isEpisodeMark 'E' ∧ Text.decimal02 last ≠ [] ∧ boundary suffix :=
    ⟨rfl, Text.decimal02_ne_nil last, h.boundary⟩
  simp only [lastEpisode, hdigits, List.drop_left', if_pos hcheck, Text.digitsValue_decimal02]

theorem episodeTagAt_rendered {season episode : Nat} {last : Option Nat} (hseason : season ≤ 99)
    (hepisode : episode ≤ 999) (hlast : ∀ n ∈ last, n ≤ 999) {suffix : Text} (h : IsSuffix suffix) :
    episodeTagAt (renderEpisodeTag season episode last ++ suffix) =
      some (season, episode, last, suffix) := by
  -- the text after the episode number, which the last episode may start
  have hend : ∃ tail : Text, renderEpisodeTag season episode last ++ suffix =
        'S' :: (Text.decimal02 season ++ 'E' :: (Text.decimal02 episode ++ tail)) ∧
      (∀ c ∈ tail.head?, c.isDigit = false) ∧ episodeTagEnd tail = (last, suffix) := by
    cases last with
    | none =>
        exact ⟨suffix, by simp [renderEpisodeTag], h.no_digit, episodeTagEnd_suffix h⟩
    | some n =>
        refine ⟨"-E".toList ++ Text.decimal02 n ++ suffix, by simp [renderEpisodeTag], ?_,
          episodeTagEnd_rendered (hlast n rfl) h⟩
        intro c hc
        cases hc
        rfl
  obtain ⟨tail, htext, hdigit, hlastEnd⟩ := hend
  have hs : takeDigits 2 (Text.decimal02 season ++ 'E' :: (Text.decimal02 episode ++ tail)) =
      Text.decimal02 season :=
    takeDigits_decimal02 (Text.decimal02_length_two hseason).le (by simp)
  have he : takeDigits 3 (Text.decimal02 episode ++ tail) = Text.decimal02 episode :=
    takeDigits_decimal02 (Text.decimal02_length_three hepisode) hdigit
  obtain ⟨d, digits, hseasonDigits⟩ := List.exists_cons_of_ne_nil (Text.decimal02_ne_nil season)
  have hvalue : Text.digitsValue (d :: digits) = season := by
    rw [← hseasonDigits, Text.digitsValue_decimal02]
  have hcheck : isEpisodeMark 'E' ∧ Text.decimal02 episode ≠ [] := ⟨rfl, Text.decimal02_ne_nil _⟩
  rw [htext]
  unfold episodeTagAt
  simp only [beq_self_eq_true, Bool.true_or, if_true, hs, List.drop_left']
  rw [hseasonDigits]
  simp only [he, List.drop_left', if_pos hcheck, hlastEnd, h.boundary, if_true, hvalue,
    Text.digitsValue_decimal02]

theorem episodeTagFrom_rendered {season episode : Nat} {last : Option Nat} (hseason : season ≤ 99)
    (hepisode : episode ≤ 999) (hlast : ∀ n ∈ last, n ≤ 999) {suffix : Text} (h : IsSuffix suffix) :
    episodeTagFrom false (renderEpisodeTag season episode last ++ suffix) =
      some (season, episode, last, suffix) := by
  have hat := episodeTagAt_rendered hseason hepisode hlast h
  cases htext : renderEpisodeTag season episode last ++ suffix with
  | nil =>
      rw [htext] at hat
      cases hat
  | cons c rest =>
      rw [htext] at hat
      rw [episodeTagFrom.eq_2, if_neg (by decide), hat]

-- The tag of a rendered stem: the one in the title when it has one, else the
-- renderer's own.
theorem episodeTag_stem (title : Text) (year : Nat) {season episode : Nat} {last : Option Nat}
    (hseason : season ≤ 99) (hepisode : episode ≤ 999) (hlast : ∀ n ∈ last, n ≤ 999)
    {suffix : Text} (h : IsSuffix suffix) :
    episodeTag (folderName title year ++ ".".toList ++ renderEpisodeTag season episode last ++
        suffix) =
      ((episodeTag title).map (extend (yearGroup year ++
        '.' :: (renderEpisodeTag season episode last ++ suffix)))).or
          (some (season, episode, last, suffix)) := by
  have hyear : episodeTagFrom false (yearGroup year) = none := by
    refine episodeTagFrom_none (fun c hc => ?_) _
    rcases mem_yearGroup hc with rfl | rfl | hdigit
    · decide
    · decide
    · constructor <;> rintro rfl <;> cases hdigit
  have htext : folderName title year ++ ".".toList ++ renderEpisodeTag season episode last ++
      suffix = title ++ '.' :: (yearGroup year ++
        '.' :: (renderEpisodeTag season episode last ++ suffix)) := by
    simp [folderName_eq]
  rw [htext, episodeTag, episodeTagFrom_append_dot, episodeTagFrom_append_dot, hyear,
    episodeTagFrom_rendered hseason hepisode hlast h]
  rfl

end Rendered

end Mediaops.PathSchema
