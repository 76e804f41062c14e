import Mediaops.Core.PathSchema.EpisodeTag

namespace Mediaops.PathSchema

open Checks

section Movie

variable {title extension : Text} {year : Nat}

theorem parseMovie_rendered (htitle : DisplayToken title) (hclean : Clean title)
    (hne : dotted title ≠ []) (hyear : 1000 ≤ year ∧ year ≤ 9999) (hext : IsExtension extension)
    (raw : Text) :
    parseMovie [folderName title year, folderName title year ++ ".".toList ++ extension] raw =
      .ok (.Movie (dotted title) year extension) := by
  have hfolder := dotted_folder hclean hne year
  have hsplit := splitTitleYear_folder hne hyear raw
  have hstem : splitStemExt (folderName title year ++ ".".toList ++ extension) raw =
      .ok (folderName title year, extension) :=
    splitStemExt_append (by simp [folderName]) hext raw
  have hsame := Text.eqIgnoreAsciiCase_refl (folderName (dotted title) year)
  have htoken := (htitle.dotted hclean hne).validate
  simp only [parseMovie, hfolder, hsplit, hstem]
  simp only [bind, Except.bind, hfolder, hsame, not_true_eq_false, false_and, if_false, htoken]
  rfl

end Movie

section Episode

variable {title extension : Text} {year season episode : Nat} {last : Option Nat}
  {episodeTitle : Option Text}

theorem decimal02_clean (n : Nat) : Clean (Text.decimal02 n) :=
  fun _ hc => dottedChar_digit (Text.isDigit_decimal02 hc)

theorem decimal02_free (n : Nat) : '.' ∉ Text.decimal02 n :=
  fun hdot => absurd (Text.isDigit_decimal02 hdot) (by decide)

theorem dotted_decimal02 (n : Nat) : dotted (Text.decimal02 n) = Text.decimal02 n :=
  dotted_of_free (decimal02_clean n) (decimal02_free n)

theorem dotted_numbered (label : Text) (hclean : Clean label) (hfree : '.' ∉ label)
    (hne : label ≠ []) (n : Nat) :
    dotted (label ++ '.' :: Text.decimal02 n) = label ++ '.' :: Text.decimal02 n := by
  have hlabel := dotted_of_free hclean hfree
  rw [dotted_append hclean (decimal02_clean n) (by rwa [hlabel])
    (by rw [dotted_decimal02]; exact Text.decimal02_ne_nil n), hlabel, dotted_decimal02]

theorem smallNumber_decimal02 {n : Nat} (h : n ≤ 99) : smallNumber (Text.decimal02 n) = some n := by
  have hlen := Text.decimal02_length_two h
  have hall : (Text.decimal02 n).all Char.isDigit = true :=
    List.all_eq_true.mpr fun _ hc => Text.isDigit_decimal02 hc
  rw [smallNumber, if_pos ⟨hlen.le, hall⟩]
  exact Text.parseBelow_decimal02 (by omega)

theorem seasonDir_rendered (hseason : season ≤ 99) :
    seasonDir ("Season.".toList ++ Text.decimal02 season) = some season := by
  have hdotted : dotted ("Season.".toList ++ Text.decimal02 season) =
      "Season.".toList ++ Text.decimal02 season := by
    have hclean : Clean "Season" := by
      unfold Clean
      exact Text.every (by decide)
    have := dotted_numbered "Season" hclean (by decide) (by decide) season
    simpa using this
  have hstrip : Text.stripPrefix "Season.".toList ("Season.".toList ++ Text.decimal02 season) =
      some (Text.decimal02 season) := by
    rw [Text.stripPrefix, if_pos (List.prefix_append _ _), List.drop_left']
    rfl
  simp only [seasonDir, hdotted, hstrip, Option.some_or, Option.bind_some,
    smallNumber_decimal02 hseason]

theorem mem_renderEpisodeTag {c : Char} (h : c ∈ renderEpisodeTag season episode last) :
    c = 'S' ∨ c = 'E' ∨ c = '-' ∨ c.isDigit = true := by
  have hdigit : ∀ n, c ∈ Text.decimal02 n → c.isDigit = true := fun _ hc => Text.isDigit_decimal02 hc
  cases last with
  | none =>
      simp only [renderEpisodeTag, List.append_nil, List.mem_append] at h
      rcases h with ((h | h) | h) | h
      · exact .inl (by simpa using h)
      · exact .inr (.inr (.inr (hdigit _ h)))
      · exact .inr (.inl (by simpa using h))
      · exact .inr (.inr (.inr (hdigit _ h)))
  | some n =>
      simp only [renderEpisodeTag, List.mem_append] at h
      rcases h with (((h | h) | h) | h) | h | h
      · exact .inl (by simpa using h)
      · exact .inr (.inr (.inr (hdigit _ h)))
      · exact .inr (.inl (by simpa using h))
      · exact .inr (.inr (.inr (hdigit _ h)))
      · rcases (by simpa using h : c = '-' ∨ c = 'E') with rfl | rfl
        · exact .inr (.inr (.inl rfl))
        · exact .inr (.inl rfl)
      · exact .inr (.inr (.inr (hdigit _ h)))

theorem renderEpisodeTag_clean : Clean (renderEpisodeTag season episode last) := by
  intro c hc
  rcases mem_renderEpisodeTag hc with rfl | rfl | rfl | hdigit
  · decide
  · decide
  · decide
  · exact dottedChar_digit hdigit

theorem renderEpisodeTag_free : '.' ∉ renderEpisodeTag season episode last := by
  intro h
  rcases mem_renderEpisodeTag h with h | h | h | h <;> exact absurd h (by decide)

theorem renderEpisodeTag_ne_nil : renderEpisodeTag season episode last ≠ [] := by
  simp [renderEpisodeTag]

theorem isSuffix_titleSuffix (episodeTitle : Option Text) : IsSuffix (titleSuffix episodeTitle) := by
  unfold titleSuffix
  split
  · exact .inr ⟨_, rfl⟩
  · exact .inl rfl

theorem dotted_stem (hclean : Clean title) (hne : dotted title ≠ [])
    (hnames : ∀ t ∈ episodeTitle, Clean t) :
    dotted (folderName title year ++ ".".toList ++ renderEpisodeTag season episode last ++
        titleSuffix episodeTitle) =
      folderName (dotted title) year ++ ".".toList ++ renderEpisodeTag season episode last ++
        titleSuffix (episodeTitle.map dotted) := by
  have hfolder := dotted_folder hclean hne year
  have hfolderClean : Clean (folderName title year) := by
    rw [folderName_eq]
    exact Clean.append.mpr ⟨hclean, Clean.cons.mpr ⟨by decide, yearGroup_clean year⟩⟩
  have htag : dotted (renderEpisodeTag season episode last) = renderEpisodeTag season episode last :=
    dotted_of_free renderEpisodeTag_clean renderEpisodeTag_free
  have hbase : dotted (folderName title year ++ '.' :: renderEpisodeTag season episode last) =
      folderName (dotted title) year ++ '.' :: renderEpisodeTag season episode last := by
    rw [dotted_append hfolderClean renderEpisodeTag_clean (by rw [hfolder]; simp [folderName])
      (by rw [htag]; exact renderEpisodeTag_ne_nil), hfolder, htag]
  have hbaseClean : Clean (folderName title year ++ '.' :: renderEpisodeTag season episode last) :=
    Clean.append.mpr ⟨hfolderClean, Clean.cons.mpr ⟨by decide, renderEpisodeTag_clean⟩⟩
  have hflat : ∀ folder suffix : Text,
      folder ++ ".".toList ++ renderEpisodeTag season episode last ++ suffix =
        (folder ++ '.' :: renderEpisodeTag season episode last) ++ suffix := by
    intro folder suffix
    simp
  rw [hflat, hflat, ← hbase]
  cases episodeTitle with
  | none => simp [titleSuffix]
  | some name =>
      have hname := hnames name rfl
      rw [Option.map_some]
      by_cases hempty : name = []
      · subst hempty
        rw [show dotted [] = [] from rfl, titleSuffix_nil, List.append_nil, List.append_nil]
      · rw [titleSuffix_some hempty]
        by_cases hdots : dotted name = []
        · rw [dotted_append_nil hbaseClean hname hdots, hdots, titleSuffix_nil, List.append_nil]
        · rw [dotted_append hbaseClean hname (by rw [hbase]; simp [folderName]) hdots,
            titleSuffix_some hdots]

-- The tag the parser finds in the rendered stem, with the text behind it.
def foundTag (title : Text) (year season episode : Nat) (last : Option Nat) (suffix : Text) :
    Nat × Nat × Option Nat × Text :=
  match episodeTag title with
  | some (s, e, n, after) =>
      (s, e, n, after ++ '.' :: (yearGroup year ++
        '.' :: (renderEpisodeTag season episode last ++ suffix)))
  | none => (season, episode, last, suffix)

theorem episodeTag_found (title : Text) (year : Nat) (hseason : season ≤ 99)
    (hepisode : episode ≤ 999) (hlast : ∀ n ∈ last, n ≤ 999) {suffix : Text} (h : IsSuffix suffix) :
    episodeTag (folderName title year ++ ".".toList ++ renderEpisodeTag season episode last ++
      suffix) = some (foundTag title year season episode last suffix) := by
  rw [episodeTag_stem title year hseason hepisode hlast h, foundTag]
  cases episodeTag title <;> rfl

theorem foundTag_range (title : Text) (year : Nat) (hseason : season ≤ 99)
    (hepisode : episode ≤ 999) (hlast : ∀ n ∈ last, n ≤ 999) (suffix : Text) :
    ¬(99 < (foundTag title year season episode last suffix).1 ∨
      999 < (foundTag title year season episode last suffix).2.1 ∨
      (foundTag title year season episode last suffix).2.2.1.any (999 < ·)) := by
  have hbound : ∀ (s e : Nat) (n : Option Nat), s ≤ 99 ∧ e ≤ 999 ∧ (∀ m ∈ n, m ≤ 999) →
      ¬(99 < s ∨ 999 < e ∨ n.any (999 < ·)) := by
    rintro s e n ⟨hs, he, hn⟩ (h | h | h)
    · omega
    · omega
    · cases n with
      | none => cases h
      | some m =>
          have := hn m rfl
          simp only [Option.any_some, decide_eq_true_eq] at h
          omega
  unfold foundTag
  split
  · next s e n after htag => exact hbound s e n (episodeTag_range htag)
  · exact hbound season episode last ⟨hseason, hepisode, hlast⟩

theorem parseEpisode_rendered (htitle : DisplayToken title) (hclean : Clean title)
    (hne : dotted title ≠ []) (hyear : 1000 ≤ year ∧ year ≤ 9999) (hseason : season ≤ 99)
    (hepisode : episode ≤ 999) (hlast : ∀ n ∈ last, n ≤ 999)
    (hnames : ∀ t ∈ episodeTitle, Clean t) (hext : IsExtension extension) (raw : Text) :
    let found := foundTag (dotted title) year season episode last
      (titleSuffix (episodeTitle.map dotted))
    parseEpisode [folderName title year, "Season.".toList ++ Text.decimal02 season,
        folderName title year ++ ".".toList ++ renderEpisodeTag season episode last ++
          titleSuffix episodeTitle ++ ".".toList ++ extension] raw =
      if season ≠ found.1 then .error (.Invalid raw)
      else .ok (.episodeTitled (dotted title) year found.1 found.2.1 found.2.2.1
        (cutAtStopToken found.2.2.2) extension) := by
  intro found
  have hstem : splitStemExt (folderName title year ++ ".".toList ++
      renderEpisodeTag season episode last ++ titleSuffix episodeTitle ++ ".".toList ++ extension) raw =
      .ok (folderName title year ++ ".".toList ++ renderEpisodeTag season episode last ++
        titleSuffix episodeTitle, extension) :=
    splitStemExt_append (by simp [folderName]) hext raw
  have htag := episodeTag_found (dotted title) year hseason hepisode hlast
    (isSuffix_titleSuffix (episodeTitle.map dotted))
  rw [← dotted_stem hclean hne hnames] at htag
  have hrange := foundTag_range (dotted title) year hseason hepisode hlast
    (titleSuffix (episodeTitle.map dotted))
  have hfolder := dotted_folder hclean hne year
  have hsplit := splitTitleYear_folder hne hyear raw
  have htoken := (htitle.dotted hclean hne).validate
  have hdir := seasonDir_rendered hseason
  change episodeTag _ = some found at htag
  change ¬(99 < found.1 ∨ 999 < found.2.1 ∨ found.2.2.1.any (999 < ·)) at hrange
  clear_value found
  obtain ⟨s, e, n, after⟩ := found
  simp only [parseEpisode, hdir, Option.isSome_some, if_true, parseEpisodeFile, hfolder, hsplit,
    hstem]
  simp only [bind, Except.bind, htoken, Except.mapError, htag, if_neg hrange, Option.any_some,
    decide_eq_true_eq]
  rfl

end Episode

section Track

variable {artist album title extension : Text} {year : Nat} {disc track : Option Nat}

theorem discDir_rendered {d : Nat} (hd : d ≤ 99) :
    discDir ("Disc.".toList ++ Text.decimal02 d) = some d := by
  have hdotted : dotted ("Disc.".toList ++ Text.decimal02 d) = "Disc.".toList ++ Text.decimal02 d := by
    have hclean : Clean "Disc" := by
      unfold Clean
      exact Text.every (by decide)
    have := dotted_numbered "Disc" hclean (by decide) (by decide) d
    simpa using this
  have hstrip : Text.stripPrefix "Disc.".toList ("Disc.".toList ++ Text.decimal02 d) =
      some (Text.decimal02 d) := by
    rw [Text.stripPrefix, if_pos (List.prefix_append _ _), List.drop_left']
    rfl
  simp only [discDir, hdotted, hstrip, Option.some_or, Option.bind_some, smallNumber_decimal02 hd]

theorem parseTrack_rendered (hdisc : ∀ d ∈ disc, d ≤ 99) (folder file raw : Text) :
    parseTrack ([artist, folder] ++ discFolder disc ++ [file]) raw =
      parseTrackFile artist folder disc file raw := by
  cases disc with
  | none => rfl
  | some d =>
      have hfolders : [artist, folder] ++ discFolder (some d) ++ [file] =
          [artist, folder, "Disc.".toList ++ Text.decimal02 d, file] := rfl
      rw [hfolders]
      simp only [parseTrack, discDir_rendered (hdisc d rfl)]

-- What the parser takes for the track number and the title.
def remainder (album : Text) (year : Nat) (track : Option Nat) (title : Text) : Text :=
  if dotted title = [] then
    match track with
    | some n => Text.decimal02 n
    | none => folderName (dotted album) year
  else trackNumber track ++ dotted title

theorem folderName_clean (hclean : Clean album) (year : Nat) : Clean (folderName album year) := by
  rw [folderName_eq]
  exact Clean.append.mpr ⟨hclean, Clean.cons.mpr ⟨by decide, yearGroup_clean year⟩⟩

theorem folderName_ne_nil (album : Text) (year : Nat) : folderName album year ≠ [] := by
  simp [folderName]

-- The dotted stem, from the title on.
theorem dotted_track_stem (halbum : Clean album) (hne : dotted album ≠ []) (htitle : Clean title)
    (htitleNe : dotted title ≠ []) :
    dotted (folderName album year ++ ".".toList ++ trackNumber track ++ title) =
      folderName (dotted album) year ++ ".".toList ++ (trackNumber track ++ dotted title) := by
  have hfolder := dotted_folder halbum hne year
  have hnumbered : Clean (trackNumber track ++ title) ∧
      dotted (trackNumber track ++ title) = trackNumber track ++ dotted title := by
    cases track with
    | none => exact ⟨htitle, rfl⟩
    | some n =>
        have htext : ∀ t : Text, trackNumber (some n) ++ t = Text.decimal02 n ++ '.' :: t := by
          intro t
          simp [trackNumber]
        rw [htext, htext, dotted_append (decimal02_clean n) htitle
          (by rw [dotted_decimal02]; exact Text.decimal02_ne_nil n) htitleNe, dotted_decimal02]
        exact ⟨Clean.append.mpr ⟨decimal02_clean n, Clean.cons.mpr ⟨by decide, htitle⟩⟩, rfl⟩
  have htext : folderName album year ++ ".".toList ++ trackNumber track ++ title =
      folderName album year ++ '.' :: (trackNumber track ++ title) := by simp
  rw [htext, dotted_append (folderName_clean halbum year) hnumbered.1
    (by rw [hfolder]; exact folderName_ne_nil _ _) (by rw [hnumbered.2]; simp [htitleNe]),
    hfolder, hnumbered.2]
  simp

variable (year track) in
-- A title of dots only leaves no trace in the stem.
theorem dotted_track_bare (halbum : Clean album) (hne : dotted album ≠ []) (htitle : Clean title)
    (htitleNe : dotted title = []) :
    dotted (folderName album year ++ ".".toList ++ trackNumber track ++ title) =
      match track with
      | some n => folderName (dotted album) year ++ ".".toList ++ Text.decimal02 n
      | none => folderName (dotted album) year := by
  have hfolder := dotted_folder halbum hne year
  have hclean := folderName_clean halbum year
  cases track with
  | none =>
      have htext : folderName album year ++ ".".toList ++ trackNumber none ++ title =
          folderName album year ++ '.' :: title := by simp [trackNumber]
      rw [htext, dotted_append_nil hclean htitle htitleNe, hfolder]
  | some n =>
      have htext : folderName album year ++ ".".toList ++ trackNumber (some n) ++ title =
          (folderName album year ++ '.' :: Text.decimal02 n) ++ '.' :: title := by
        simp [trackNumber]
      have hnumbered : Clean (folderName album year ++ '.' :: Text.decimal02 n) :=
        Clean.append.mpr ⟨hclean, Clean.cons.mpr ⟨by decide, decimal02_clean n⟩⟩
      rw [htext, dotted_append_nil hnumbered htitle htitleNe,
        dotted_append hclean (decimal02_clean n) (by rw [hfolder]; exact folderName_ne_nil _ _)
          (by rw [dotted_decimal02]; exact Text.decimal02_ne_nil n), hfolder, dotted_decimal02]
      simp

variable (year track) in
theorem remainder_eq (halbum : Clean album) (hne : dotted album ≠ []) (htitle : Clean title) :
    let stem := dotted (folderName album year ++ ".".toList ++ trackNumber track ++ title)
    let start := folderName (dotted album) year ++ ".".toList
    (if Text.startsWithCi stem start then stem.drop start.length else stem) =
      remainder album year track title := by
  intro stem start
  have hcut : ∀ rest : Text, stem = start ++ rest →
      (if Text.startsWithCi stem start then stem.drop start.length else stem) = rest := by
    intro rest hstem
    rw [hstem, Text.startsWithCi_append, if_pos rfl, List.drop_left']
    rfl
  unfold remainder
  by_cases hdots : dotted title = []
  · have hbare := dotted_track_bare year track halbum hne htitle hdots
    rw [if_pos hdots]
    cases track with
    | some n => exact hcut _ hbare
    | none =>
        have hshort : Text.startsWithCi stem start = false := by
          change stem = folderName (dotted album) year at hbare
          rw [hbare]
          have hlonger : ¬start.length ≤ (folderName (dotted album) year).length := by simp [start]
          simp [Text.startsWithCi, hlonger]
        rw [hshort]
        exact hbare
  · rw [if_neg hdots]
    exact hcut _ (dotted_track_stem halbum hne htitle hdots)

-- The end of `parse_track`, once the number and the title are known.
def finishTrack (artist album : Text) (year : Nat) (disc : Option Nat) (extension raw : Text)
    (found : Option Nat × Text) : Except PathSchemaError Placement := do
  let title := (cutAtStopToken found.2).getD found.2
  if title = [] then throw (.Invalid raw)
  let _ ← (validateDisplayToken title).mapError fun _ => .Invalid raw
  if let some n := found.1 then
    if ¬(1 ≤ n ∧ n ≤ 99) then throw (.TrackOutOfRange n)
  pure (.Track artist album year disc found.1 title extension)

theorem parseTrackFile_rendered (hartist : DisplayToken artist) (hartistClean : Clean artist)
    (hartistNe : dotted artist ≠ []) (halbum : DisplayToken album) (halbumClean : Clean album)
    (halbumNe : dotted album ≠ []) (htitle : Clean title) (hyear : 1000 ≤ year ∧ year ≤ 9999)
    (hext : IsExtension extension) (disc : Option Nat) (raw : Text) :
    parseTrackFile artist (folderName album year) disc
        (folderName album year ++ ".".toList ++ trackNumber track ++ title ++ ".".toList ++
          extension) raw =
      splitTrack (remainder album year track title) raw >>=
        finishTrack (dotted artist) (dotted album) year disc extension raw := by
  have hstem : splitStemExt (folderName album year ++ ".".toList ++ trackNumber track ++ title ++
      ".".toList ++ extension) raw =
      .ok (folderName album year ++ ".".toList ++ trackNumber track ++ title, extension) :=
    splitStemExt_append (by simp [folderName]) hext raw
  have hfolder := dotted_folder halbumClean halbumNe year
  have hsplit := splitTitleYear_folder halbumNe hyear raw
  have hartistToken := (hartist.dotted hartistClean hartistNe).validate
  have halbumToken := (halbum.dotted halbumClean halbumNe).validate
  have hrest := remainder_eq year track halbumClean halbumNe htitle
  simp only [parseTrackFile, hartistToken, hfolder, hsplit, hstem]
  simp only [bind, Except.bind, halbumToken, Except.mapError, hrest]
  rfl

end Track

section Shape

def extensionOf : Placement → Text
  | .Movie _ _ extension | .Episode _ _ _ _ _ _ extension | .Track _ _ _ _ _ _ extension => extension

theorem isName_of_mem {name : Text} {c : Char} (hc : c ∈ name) (hdot : c ≠ '.')
    (hslash : '/' ∉ name) : IsName name where
  ne := List.ne_nil_of_mem hc
  noSlash := hslash
  notDot := by
    rintro rfl
    exact hdot (by simpa using hc)
  notDots := by
    rintro rfl
    exact hdot (by simpa using hc)

theorem DisplayToken.isName {token : Text} (h : DisplayToken token) : IsName token :=
  ⟨h.ne, h.noSlash, h.notDot, h.notDots⟩

theorem isAlphanum_decimal02 {n : Nat} {c : Char} (h : c ∈ Text.decimal02 n) :
    c.isAlphanum = true := by
  have hdigit := (Text.isDigit_iff c).mp (Text.isDigit_decimal02 h)
  rw [Text.isAlphanum_iff]
  omega

-- Letters and digits that end in a number are no scene tag.
theorem numbered_untagged {front : Text} (hfront : ∀ c ∈ front, c.isAlphanum = true) (n : Nat) :
    Untagged (front ++ Text.decimal02 n) := by
  obtain ⟨d, digits, hdigits⟩ := List.exists_cons_of_ne_nil (Text.decimal02_ne_nil n)
  have hd : d ∈ Text.decimal02 n := by rw [hdigits]; exact List.mem_cons_self
  refine (untagged_alphanum fun c hc => ?_).mpr
    (isSceneTag_of_mem (List.mem_append_right _ hd) (digit_not_letter (Text.isDigit_decimal02 hd)))
  rcases List.mem_append.mp hc with hc | hc
  · exact hfront c hc
  · exact isAlphanum_decimal02 hc

theorem decimal02_untagged (n : Nat) : Untagged (Text.decimal02 n) :=
  numbered_untagged (by simp : ∀ c ∈ ([] : Text), c.isAlphanum = true) n

theorem renderEpisodeTag_untagged (season episode : Nat) (last : Option Nat) :
    Untagged (renderEpisodeTag season episode last) := by
  have hfirst : Untagged ("S".toList ++ Text.decimal02 season ++ "E".toList ++
      Text.decimal02 episode) := by
    refine numbered_untagged (fun c hc => ?_) episode
    simp only [List.mem_append] at hc
    rcases hc with (hc | hc) | hc
    · rw [show c = 'S' by simpa using hc]
      decide
    · exact isAlphanum_decimal02 hc
    · rw [show c = 'E' by simpa using hc]
      decide
  cases last with
  | none => simpa [renderEpisodeTag] using hfirst
  | some n =>
      have htag : renderEpisodeTag season episode (some n) =
          ("S".toList ++ Text.decimal02 season ++ "E".toList ++ Text.decimal02 episode) ++
            '-' :: ("E".toList ++ Text.decimal02 n) := by simp [renderEpisodeTag]
      rw [htag, untagged_append (.inr rfl)]
      exact ⟨hfirst, numbered_untagged (Text.every (by decide)) n⟩

theorem folderName_untagged {title : Text} (h : DisplayToken title) (year : Nat) :
    Untagged (folderName title year) := by
  rw [folderName_eq, untagged_append (.inl rfl)]
  exact ⟨h.untagged_name, yearGroup_untagged year⟩

theorem folderName_slash {title : Text} (h : DisplayToken title) (year : Nat) :
    '/' ∉ folderName title year := by
  rw [folderName_eq]
  simp only [List.mem_append, List.mem_cons, not_or]
  refine ⟨h.noSlash, by decide, fun hmem => ?_⟩
  rcases mem_yearGroup hmem with hmem | hmem | hmem <;> exact absurd hmem (by decide)

theorem folderName_open (title : Text) (year : Nat) : '(' ∈ folderName title year := by
  simp [folderName]

-- A file name of the renderer: the folder, a middle part and the extension.
theorem file_shape {title middle ext : Text} (htitle : DisplayToken title) (year : Nat)
    (hmiddle : Untagged middle) (hslash : '/' ∉ middle) (hext : IsExtension ext) :
    IsName (folderName title year ++ '.' :: (middle ++ '.' :: ext)) ∧
      (Untagged (folderName title year ++ '.' :: (middle ++ '.' :: ext)) ↔ isSceneTag ext = false) := by
  have hextSlash : '/' ∉ ext := hext.free (by decide)
  refine ⟨isName_of_mem (List.mem_append_left _ (folderName_open title year)) (by decide) ?_, ?_⟩
  · simp only [List.mem_append, List.mem_cons, not_or]
    exact ⟨folderName_slash htitle year, by decide, hslash, by decide, hextSlash⟩
  · rw [untagged_append (.inl rfl), untagged_append (.inl rfl), untagged_alphanum hext.alphanum]
    exact ⟨fun h => h.2.2, fun h => ⟨folderName_untagged htitle year, hmiddle, h⟩⟩

-- What a rendered path looks like to the parser.
structure Shape (kind : TitleKind) (dir : Text) (rest : List Text) (ext : Text) : Prop where
  dir : kindDir dir = some kind
  names : ∀ name ∈ rest, IsName name
  dots : ∀ name ∈ rest.tail, '.' ∈ name
  tagged : hasSceneTag rest = isSceneTag ext

theorem tagged_eq {rest : List Text} {ext : Text}
    (h : (∀ name ∈ rest, Untagged name) ↔ isSceneTag ext = false) :
    hasSceneTag rest = isSceneTag ext := by
  rw [← hasSceneTag_eq_false] at h
  cases hscene : isSceneTag ext with
  | false => exact h.mpr hscene
  | true =>
      cases hrest : hasSceneTag rest with
      | true => rfl
      | false =>
          rw [h.mp hrest] at hscene
          cases hscene

theorem movie_shape {title ext : Text} {year : Nat} (htitle : DisplayToken title)
    (hext : IsExtension ext) :
    Shape .Movie "movies" [folderName title year, folderName title year ++ ".".toList ++ ext] ext := by
  have hfolder : IsName (folderName title year) :=
    isName_of_mem (folderName_open title year) (by decide) (folderName_slash htitle year)
  have htext : folderName title year ++ ".".toList ++ ext = folderName title year ++ '.' :: ext := by
    simp
  have hfile : IsName (folderName title year ++ '.' :: ext) := by
    refine isName_of_mem (List.mem_append_left _ (folderName_open title year)) (by decide) ?_
    simp only [List.mem_append, List.mem_cons, not_or]
    exact ⟨folderName_slash htitle year, by decide, hext.free (by decide)⟩
  rw [htext]
  refine ⟨rfl, ?_, by simp, tagged_eq ?_⟩
  · simpa using ⟨hfolder, hfile⟩
  · have huntagged := folderName_untagged htitle year
    simp [untagged_append, huntagged, untagged_alphanum hext.alphanum]

theorem episode_shape {title ext : Text} {year season episode : Nat} {last : Option Nat}
    {episodeTitle : Option Text} (htitle : DisplayToken title)
    (hnames : ∀ t ∈ episodeTitle.filter (· ≠ []), DisplayToken t) (hext : IsExtension ext) :
    Shape .Series "series" [folderName title year, "Season.".toList ++ Text.decimal02 season,
      folderName title year ++ ".".toList ++ renderEpisodeTag season episode last ++
        titleSuffix episodeTitle ++ ".".toList ++ ext] ext := by
  have hfolder : IsName (folderName title year) :=
    isName_of_mem (folderName_open title year) (by decide) (folderName_slash htitle year)
  have hseason : IsName ("Season.".toList ++ Text.decimal02 season) ∧
      Untagged ("Season.".toList ++ Text.decimal02 season) := by
    refine ⟨isName_of_mem (c := 'S') (by simp) (by decide) ?_, ?_⟩
    · simp only [List.mem_append, not_or]
      exact ⟨by decide, fun h => absurd (Text.isDigit_decimal02 h) (by decide)⟩
    · have htext : "Season.".toList ++ Text.decimal02 season =
          "Season".toList ++ '.' :: Text.decimal02 season := by simp
      rw [htext, untagged_append (.inl rfl)]
      exact ⟨(untagged_alphanum (Text.every (by decide))).mpr (by decide), decimal02_untagged season⟩
  -- the tag and the episode title are the middle part of the file name
  have hmiddle : Untagged (renderEpisodeTag season episode last ++ titleSuffix episodeTitle) ∧
      '/' ∉ renderEpisodeTag season episode last ++ titleSuffix episodeTitle := by
    have htag := renderEpisodeTag_untagged season episode last
    have hslash : '/' ∉ renderEpisodeTag season episode last := by
      intro h
      rcases mem_renderEpisodeTag h with h | h | h | h <;> exact absurd h (by decide)
    unfold titleSuffix
    cases hname : episodeTitle.filter (· ≠ []) with
    | none => simpa using ⟨htag, hslash⟩
    | some name =>
        have htoken := hnames name hname
        refine ⟨(untagged_append (.inl rfl)).mpr ⟨htag, htoken.untagged_name⟩, ?_⟩
        simp only [List.mem_append, List.mem_cons, not_or]
        exact ⟨hslash, by decide, htoken.noSlash⟩
  obtain ⟨hfile, hscene⟩ := file_shape htitle year hmiddle.1 hmiddle.2 hext
  have htext : folderName title year ++ ".".toList ++ renderEpisodeTag season episode last ++
      titleSuffix episodeTitle ++ ".".toList ++ ext = folderName title year ++
        '.' :: ((renderEpisodeTag season episode last ++ titleSuffix episodeTitle) ++ '.' :: ext) := by
    simp
  rw [htext]
  refine ⟨rfl, ?_, by simp, tagged_eq ?_⟩
  · simp only [List.mem_cons, List.not_mem_nil, or_false, forall_eq_or_imp, forall_eq]
    exact ⟨hfolder, hseason.1, hfile⟩
  · simp only [List.mem_cons, List.not_mem_nil, or_false, forall_eq_or_imp, forall_eq, hscene]
    exact ⟨fun h => h.2.2, fun h => ⟨folderName_untagged htitle year, hseason.2, h⟩⟩

theorem track_shape {artist album title ext : Text} {year : Nat} {disc track : Option Nat}
    (hartist : DisplayToken artist) (halbum : DisplayToken album) (htitle : DisplayToken title)
    (hext : IsExtension ext) :
    Shape .Album "music" ([artist, folderName album year] ++ discFolder disc ++
      [folderName album year ++ ".".toList ++ trackNumber track ++ title ++ ".".toList ++ ext]) ext := by
  have hfolder : IsName (folderName album year) :=
    isName_of_mem (folderName_open album year) (by decide) (folderName_slash halbum year)
  have hdisc : ∀ name ∈ discFolder disc, IsName name ∧ Untagged name ∧ '.' ∈ name := by
    intro name hname
    cases disc with
    | none => cases hname
    | some d =>
        simp only [discFolder, Option.map_some, Option.toList_some, List.mem_singleton] at hname
        subst hname
        refine ⟨isName_of_mem (c := 'D') (by simp) (by decide) ?_, ?_, by simp⟩
        · simp only [List.mem_append, not_or]
          exact ⟨by decide, fun h => absurd (Text.isDigit_decimal02 h) (by decide)⟩
        · have htext : "Disc.".toList ++ Text.decimal02 d = "Disc".toList ++ '.' :: Text.decimal02 d := by
            simp
          rw [htext, untagged_append (.inl rfl)]
          exact ⟨(untagged_alphanum (Text.every (by decide))).mpr (by decide), decimal02_untagged d⟩
  have hmiddle : Untagged (trackNumber track ++ title) ∧ '/' ∉ trackNumber track ++ title := by
    cases track with
    | none => exact ⟨htitle.untagged_name, htitle.noSlash⟩
    | some n =>
        have htext : trackNumber (some n) ++ title = Text.decimal02 n ++ '.' :: title := by
          simp [trackNumber]
        rw [htext, untagged_append (.inl rfl)]
        refine ⟨⟨decimal02_untagged n, htitle.untagged_name⟩, ?_⟩
        simp only [List.mem_append, List.mem_cons, not_or]
        exact ⟨fun h => absurd (Text.isDigit_decimal02 h) (by decide), by decide, htitle.noSlash⟩
  obtain ⟨hfile, hscene⟩ := file_shape halbum year hmiddle.1 hmiddle.2 hext
  have htext : folderName album year ++ ".".toList ++ trackNumber track ++ title ++ ".".toList ++
      ext = folderName album year ++ '.' :: ((trackNumber track ++ title) ++ '.' :: ext) := by
    simp
  rw [htext]
  refine ⟨rfl, fun name hname => ?_, fun name hname => ?_, tagged_eq ⟨fun h => ?_, fun h => ?_⟩⟩
  · simp only [List.mem_append, List.mem_cons, List.not_mem_nil, or_false] at hname
    rcases hname with ((rfl | rfl) | hname) | rfl
    · exact hartist.isName
    · exact hfolder
    · exact (hdisc name hname).1
    · exact hfile
  · simp only [List.cons_append, List.tail_cons, List.nil_append, List.mem_append, List.mem_cons,
      List.not_mem_nil, or_false] at hname
    rcases hname with rfl | hname | rfl
    · simp [folderName]
    · exact (hdisc name hname).2.2
    · simp
  · exact hscene.mp (h _ (by simp))
  · intro name hname
    simp only [List.mem_append, List.mem_cons, List.not_mem_nil, or_false] at hname
    rcases hname with ((rfl | rfl) | hname) | rfl
    · exact hartist.untagged_name
    · exact folderName_untagged halbum year
    · exact (hdisc name hname).2.1
    · exact hscene.mpr h

end Shape

end Mediaops.PathSchema
