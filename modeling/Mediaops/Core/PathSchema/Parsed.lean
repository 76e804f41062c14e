import Mediaops.Core.PathSchema.RoundTrip

namespace Mediaops.PathSchema

open Checks

-- What the parser gives, whatever the path: its texts are in dotted form and its
-- extension is no scene tag.

structure ParsedExtension (extension : Text) : Prop extends IsExtension extension where
  untagged : isSceneTag extension = false

inductive Parsed : Placement → Prop where
  | Movie {title extension : Text} {year : Nat} (htitle : dotted title = title)
      (hext : ParsedExtension extension) : Parsed (.Movie title year extension)
  | Episode {title extension : Text} {year season episode : Nat} {last : Option Nat}
      {episodeTitle : Option Text} (htitle : dotted title = title)
      (hnames : ∀ t ∈ episodeTitle, t ≠ [] ∧ dotted t = t) (hext : ParsedExtension extension) :
      Parsed (.Episode title year season episode last episodeTitle extension)
  | Track {artist album title extension : Text} {year : Nat} {disc track : Option Nat}
      (hartist : dotted artist = artist) (halbum : dotted album = album)
      (htitle : dotted title = title) (hext : ParsedExtension extension) :
      Parsed (.Track artist album year disc track title extension)

theorem splitTitleYear_fixed {folder title raw : Text} {year : Nat} (hfolder : dotted folder = folder)
    (h : splitTitleYear folder raw = .ok (title, year)) : dotted title = title := by
  have hclean : Clean folder := hfolder ▸ clean_dotted folder
  have htrim : Text.trimEndMatches Text.isWhitespace folder = folder :=
    Text.trimEndMatches_of_free fun c hc => hclean.not_whitespace hc
  unfold splitTitleYear at h
  dsimp only at h
  obtain ⟨hlen, hrest⟩ := guard_ok h
  -- the folder has a year, so its title is what stands before the parenthesis
  cases hsplit : Text.rsplitOnce '(' folder with
  | none =>
      rw [hsplit] at hrest
      cases hrest
  | some found =>
      obtain ⟨before, inner⟩ := found
      have htitle : title = stripTrailingYear folder := by
        rw [hsplit] at hrest
        obtain ⟨-, hrest⟩ := guard_ok hrest
        obtain ⟨y, -, hrest⟩ := bind_ok hrest
        obtain ⟨-, hrest⟩ := guard_ok hrest
        cases hrest
        rfl
      simp only [stripTrailingYear, htrim, hsplit] at htitle hlen
      split at htitle
      · obtain ⟨rest, hbefore⟩ :=
          Text.trimEndMatches_prefix (fun c => c == '.' || c == ' ') before
        have hwhole : folder = title ++ (rest ++ '(' :: inner) := by
          rw [(Text.rsplitOnce_some hsplit).1, htitle, ← List.append_assoc, ← hbefore]
        rw [hwhole] at hfolder
        refine dotted_left hfolder fun hlast => ?_
        rw [htitle] at hlast
        exact absurd (Text.trimEndMatches_last hlast) (by decide)
      · next hyear =>
          rw [if_neg hyear] at hlen
          exact absurd rfl hlen

theorem splitStemExt_ok {file stem extension raw : Text}
    (h : splitStemExt file raw = .ok (stem, extension)) :
    IsExtension extension ∧ (Untagged file → isSceneTag extension = false) := by
  unfold splitStemExt at h
  cases hsplit : Text.rsplitOnce '.' file with
  | none =>
      rw [hsplit] at h
      cases h
  | some found =>
      obtain ⟨before, last⟩ := found
      rw [hsplit] at h
      obtain ⟨-, h⟩ := guard_ok h
      obtain ⟨ext, hext, h⟩ := bind_ok h
      cases h
      obtain ⟨hfacts, hlower⟩ := validateExtension_ok (mapError_ok hext)
      refine ⟨hfacts, fun hfile => ?_⟩
      obtain ⟨hwhole, hfree⟩ := Text.rsplitOnce_some hsplit
      rw [hwhole, untagged_append (.inl rfl)] at hfile
      have hstrip : Text.stripPrefix ".".toList last = none := by
        refine if_neg ?_
        rintro ⟨rest, hrest⟩
        exact hfree (by rw [← hrest]; simp)
      rw [hstrip, Option.getD_none] at hlower
      have htag : isSceneTag extension = isSceneTag last := by
        simp only [isSceneTag, Text.eqIgnoreAsciiCase, hlower, toAsciiLowercase_idem]
      have halphanum : ∀ c ∈ last, c.isAlphanum = true := by
        have hvalid := mapError_ok hext
        obtain ⟨hcheck, -⟩ := ite_ok hvalid
        rw [hstrip, Option.getD_none] at hcheck
        simpa using (not_or.mp hcheck).2
      rw [htag]
      exact (untagged_alphanum halphanum).mp hfile.2

def isEdge (c : Char) : Bool := c == '.' || c == '-' || c == ' '

-- A title that was cut is made of tokens of the trimmed remainder.
theorem cutAtStopToken_some {text title : Text} (h : cutAtStopToken text = some title) :
    ∃ toks, toks ≠ [] ∧ toks ⊆ tokens (Text.trimMatches isEdge text) ∧
      title = Text.joinWith '.' toks := by
  unfold cutAtStopToken at h
  dsimp only at h
  split at h
  · cases h
  · next hne =>
      split at h
      · cases h
        refine ⟨tokens (Text.trimMatches isEdge text), fun hnil => ?_, List.Subset.refl _, rfl⟩
        -- the last character of the trimmed text is not a dot
        have hlast := List.getLast?_eq_some_getLast hne
        have hdot := dot_of_tokens_nil hnil (List.getLast_mem hne)
        rw [hdot] at hlast
        exact absurd (Text.trimEndMatches_last hlast) (by decide)
      · split at h
        · cases h
        · next hkept =>
            cases h
            exact ⟨_, hkept, (List.takeWhile_sublist _).subset, rfl⟩

theorem cutAtStopToken_ne_nil {text title : Text} (h : cutAtStopToken text = some title) :
    title ≠ [] := by
  obtain ⟨toks, hne, hsub, rfl⟩ := cutAtStopToken_some h
  intro heq
  exact hne ((Text.joinWith_eq_nil fun t ht => ne_nil_of_mem_tokens (hsub ht)).mp heq)

theorem cutAtStopToken_filter (text : Text) :
    (cutAtStopToken text).filter (· ≠ []) = cutAtStopToken text := by
  cases h : cutAtStopToken text with
  | none => rfl
  | some title => simp [Option.filter, cutAtStopToken_ne_nil h]

theorem cutAtStopToken_dot (text : Text) : cutAtStopToken ('.' :: text) = cutAtStopToken text := rfl

theorem trimMatches_subset {text : Text} {c : Char} {drop : Char → Bool}
    (h : c ∈ Text.trimMatches drop text) : c ∈ text := by
  obtain ⟨rest, hrest⟩ := Text.trimEndMatches_prefix drop (Text.trimStartMatches drop text)
  have hstart : c ∈ Text.trimStartMatches drop text := by
    rw [hrest]
    exact List.mem_append_left _ h
  exact (List.dropWhile_sublist drop).subset hstart

theorem cutAtStopToken_fixed {text title : Text} (hclean : Clean text)
    (h : cutAtStopToken text = some title) : title ≠ [] ∧ dotted title = title := by
  refine ⟨cutAtStopToken_ne_nil h, ?_⟩
  obtain ⟨toks, hne, hsub, rfl⟩ := cutAtStopToken_some h
  have hnil : ∀ t ∈ toks, t ≠ [] := fun t ht => ne_nil_of_mem_tokens (hsub ht)
  refine dotted_join (fun t ht c hc => ?_) hnil fun t ht => free_of_mem_tokens (hsub ht)
  exact hclean c (trimMatches_subset (mem_of_mem_tokens (hsub ht) hc))

theorem mem_of_episodeTagEnd {text : Text} {c : Char} (h : c ∈ (episodeTagEnd text).2) : c ∈ text := by
  have hdash : ∀ d ∈ afterDash text, d ∈ text := by
    intro d hd
    unfold afterDash at hd
    split at hd
    · exact List.mem_cons_of_mem _ hd
    · exact hd
  rw [episodeTagEnd_eq] at h
  unfold lastEpisode at h
  split at h
  · next mark rest htail =>
      dsimp only at h
      split at h
      · exact hdash c (by rw [htail]; exact List.mem_cons_of_mem _ (List.mem_of_mem_drop h))
      · exact h
  · exact h

-- The text behind a tag is part of the stem.
theorem mem_of_episodeTag {text after : Text} {season episode : Nat} {last : Option Nat} {c : Char}
    (h : episodeTag text = some (season, episode, last, after)) (hc : c ∈ after) : c ∈ text := by
  obtain ⟨front, rest, htext, hat⟩ := episodeTag_some h
  obtain ⟨d, rest, mark, tail, hrest, hdrop, -, -, hend⟩ := episodeTagAt_some hat
  have hafter : c ∈ (episodeTagEnd (tail.drop (takeDigits 3 tail).length)).2 := by rwa [hend]
  have htail : c ∈ tail := List.mem_of_mem_drop (mem_of_episodeTagEnd hafter)
  have hmark : c ∈ rest.drop (takeDigits 2 rest).length := by
    rw [hdrop]
    exact List.mem_cons_of_mem _ htail
  have hmem : c ∈ rest := List.mem_of_mem_drop hmark
  rw [htext, hrest]
  exact List.mem_append_right _ (List.mem_cons_of_mem _ hmem)

section Inversion

variable {raw : Text} {placement : Placement}

theorem splitTitleYear_year {folder title : Text} {year : Nat}
    (h : splitTitleYear folder raw = .ok (title, year)) : 1000 ≤ year ∧ year ≤ 9999 := by
  unfold splitTitleYear at h
  dsimp only at h
  obtain ⟨-, h⟩ := guard_ok h
  cases hsplit : Text.rsplitOnce '(' folder with
  | none =>
      rw [hsplit] at h
      cases h
  | some found =>
      rw [hsplit] at h
      obtain ⟨-, h⟩ := guard_ok h
      obtain ⟨y, hyear, h⟩ := bind_ok h
      obtain ⟨-, h⟩ := guard_ok h
      cases h
      obtain ⟨hsame, hbounds⟩ := validateYear_ok (mapError_ok hyear)
      rwa [hsame]

theorem parseMovie_ok {comps : List Text} (h : parseMovie comps raw = .ok placement) :
    ∃ folder file title year stem extension, comps = [folder, file] ∧
      splitTitleYear (dotted folder) raw = .ok (title, year) ∧
      splitStemExt file raw = .ok (stem, extension) ∧ DisplayToken title ∧
      placement = .Movie title year extension := by
  unfold parseMovie at h
  split at h
  · next folder file =>
      obtain ⟨⟨title, year⟩, hsplit, h⟩ := bind_ok h
      obtain ⟨⟨stem, extension⟩, hstem, h⟩ := bind_ok h
      obtain ⟨-, h⟩ := guard_ok h
      obtain ⟨token, htoken, h⟩ := bind_ok h
      cases h
      exact ⟨folder, file, title, year, stem, extension, rfl, hsplit, hstem,
        (validateDisplayToken_ok (mapError_ok htoken)).2, rfl⟩
  · cases h

theorem parseEpisodeFile_ok {folder file : Text} {dirSeason : Option Nat}
    (h : parseEpisodeFile folder file dirSeason raw = .ok placement) :
    ∃ title year stem extension season episode last after,
      splitTitleYear (dotted folder) raw = .ok (title, year) ∧ DisplayToken title ∧
      splitStemExt file raw = .ok (stem, extension) ∧
      episodeTag (dotted stem) = some (season, episode, last, after) ∧
      (season ≤ 99 ∧ episode ≤ 999 ∧ ∀ n ∈ last, n ≤ 999) ∧
      placement = .Episode title year season episode last (cutAtStopToken after) extension := by
  unfold parseEpisodeFile at h
  obtain ⟨⟨title, year⟩, hsplit, h⟩ := bind_ok h
  obtain ⟨token, htoken, h⟩ := bind_ok h
  obtain ⟨⟨stem, extension⟩, hstem, h⟩ := bind_ok h
  dsimp only at h
  cases hfound : episodeTag (dotted stem) with
  | none =>
      rw [hfound] at h
      cases h
  | some found =>
      obtain ⟨season, episode, last, after⟩ := found
      rw [hfound] at h
      obtain ⟨hrange, h⟩ := guard_ok h
      obtain ⟨-, h⟩ := guard_ok h
      cases h
      simp only [not_or, not_lt] at hrange
      have hlast : ∀ n ∈ last, n ≤ 999 := by
        intro n hn
        rw [Option.mem_def.mp hn] at hrange
        simpa using hrange.2.2
      refine ⟨title, year, stem, extension, season, episode, last, after, hsplit,
        (validateDisplayToken_ok (mapError_ok htoken)).2, hstem, hfound,
        ⟨hrange.1, hrange.2.1, hlast⟩, ?_⟩
      rw [Placement.episodeTitled, cutAtStopToken_filter]

theorem parseEpisode_ok {comps : List Text} (h : parseEpisode comps raw = .ok placement) :
    ∃ folder file dirSeason, comps.getLast? = some file ∧
      parseEpisodeFile folder file dirSeason raw = .ok placement := by
  unfold parseEpisode at h
  split at h
  · exact ⟨_, _, _, rfl, h⟩
  · split at h
    · exact ⟨_, _, _, rfl, h⟩
    · cases h
  · cases h

theorem parseTrackFile_ok {artist albumFolder file : Text} {disc : Option Nat}
    (h : parseTrackFile artist albumFolder disc file raw = .ok placement) :
    ∃ album year stem extension track title, DisplayToken (dotted artist) ∧
      splitTitleYear (dotted albumFolder) raw = .ok (album, year) ∧ DisplayToken album ∧
      splitStemExt file raw = .ok (stem, extension) ∧
      splitTrack (if Text.startsWithCi (dotted stem) (folderName album year ++ ".".toList) then
        (dotted stem).drop (folderName album year ++ ".".toList).length else dotted stem) raw =
          .ok (track, title) ∧
      DisplayToken ((cutAtStopToken title).getD title) ∧ (∀ n ∈ track, 1 ≤ n ∧ n ≤ 99) ∧
      placement = .Track (dotted artist) album year disc track
        ((cutAtStopToken title).getD title) extension := by
  unfold parseTrackFile at h
  obtain ⟨first, hartist, h⟩ := bind_ok h
  obtain ⟨⟨album, year⟩, hsplit, h⟩ := bind_ok h
  obtain ⟨second, halbum, h⟩ := bind_ok h
  obtain ⟨⟨stem, extension⟩, hstem, h⟩ := bind_ok h
  obtain ⟨⟨track, title⟩, htrack, h⟩ := bind_ok h
  obtain ⟨-, h⟩ := guard_ok h
  obtain ⟨third, htitle, h⟩ := bind_ok h
  refine ⟨album, year, stem, extension, track, title,
    (validateDisplayToken_ok (mapError_ok hartist)).2, hsplit,
    (validateDisplayToken_ok (mapError_ok halbum)).2, hstem, htrack,
    (validateDisplayToken_ok (mapError_ok htitle)).2, ?_⟩
  cases track with
  | none =>
      cases h
      exact ⟨by simp, rfl⟩
  | some n =>
      obtain ⟨hrange, h⟩ := guard_ok h
      cases h
      exact ⟨by simpa using hrange, rfl⟩

theorem parseTrack_ok {comps : List Text} (h : parseTrack comps raw = .ok placement) :
    ∃ artist album disc file, parseTrackFile artist album disc file raw = .ok placement ∧
      ((comps = [artist, album, file] ∧ disc = none) ∨
        ∃ folder, comps = [artist, album, folder, file] ∧ discDir folder = disc ∧
          disc.isSome = true) := by
  unfold parseTrack at h
  split at h
  · exact ⟨_, _, _, _, h, .inl ⟨rfl, rfl⟩⟩
  · next artist album folder file =>
      split at h
      · next disc hdisc => exact ⟨_, _, _, _, h, .inr ⟨folder, rfl, hdisc, rfl⟩⟩
      · cases h
  · cases h

theorem parseInner_ok [UnicodeTables] {path : Text} {hint : Option (Option TitleKind)}
    {id : TitleId} (h : parseInner path hint = .ok (id, placement)) :
    ∃ kind comps, selectKind hint (normalNames (Path.components path)) path = .ok (kind, comps) ∧
      hasSceneTag comps = false ∧ parseKind kind comps path = .ok placement ∧
      placement.keyTitleId = .ok id := by
  unfold parseInner at h
  cases hbin : classifyRejectBin path with
  | some bin =>
      rw [hbin] at h
      cases h
  | none =>
      rw [hbin] at h
      obtain ⟨-, h⟩ := guard_ok h
      obtain ⟨-, h⟩ := guard_ok h
      obtain ⟨⟨kind, comps⟩, hselect, h⟩ := bind_ok h
      obtain ⟨htag, h⟩ := guard_ok h
      obtain ⟨parsed, hparsed, h⟩ := bind_ok h
      obtain ⟨key, hkey, h⟩ := bind_ok h
      cases h
      exact ⟨kind, comps, hselect, by simpa using htag, hparsed, hkey⟩

end Inversion

theorem parseMovie_parsed {comps : List Text} {raw : Text} {placement : Placement}
    (htags : ∀ c ∈ comps, Untagged c) (h : parseMovie comps raw = .ok placement) :
    Parsed placement := by
  obtain ⟨folder, file, title, year, stem, extension, rfl, hsplit, hstem, -, rfl⟩ := parseMovie_ok h
  obtain ⟨hext, htag⟩ := splitStemExt_ok hstem
  exact .Movie (splitTitleYear_fixed (dotted_dotted folder) hsplit)
    ⟨hext, htag (htags file (by simp))⟩

theorem parseEpisode_parsed {comps : List Text} {raw : Text} {placement : Placement}
    (htags : ∀ c ∈ comps, Untagged c) (h : parseEpisode comps raw = .ok placement) :
    Parsed placement := by
  obtain ⟨folder, file, dirSeason, hfile, h⟩ := parseEpisode_ok h
  obtain ⟨title, year, stem, extension, season, episode, last, after, hsplit, -, hstem, hfound, -,
    rfl⟩ := parseEpisodeFile_ok h
  obtain ⟨hext, hscene⟩ := splitStemExt_ok hstem
  have htag := htags file (List.mem_of_getLast? hfile)
  refine .Episode (splitTitleYear_fixed (dotted_dotted folder) hsplit) (fun t hcut => ?_)
    ⟨hext, hscene htag⟩
  exact cutAtStopToken_fixed (fun c hc => clean_dotted stem c (mem_of_episodeTag hfound hc)) hcut

theorem splitTrack_fixed {rest title raw : Text} {track : Option Nat} (hrest : dotted rest = rest)
    (h : splitTrack rest raw = .ok (track, title)) : dotted title = title := by
  unfold splitTrack at h
  split at h
  · next n tail hsplit =>
      have hwhole := (Text.splitOnce_some hsplit).1
      split at h
      · split at h
        · cases h
          rw [hwhole] at hrest
          exact dotted_right hrest
        · cases h
      · cases h
        exact hrest
  · cases h
    exact hrest

theorem trackRest_fixed {stem start : Text} (hstem : dotted stem = stem) :
    dotted (if Text.startsWithCi stem (start ++ ".".toList) then
        stem.drop (start ++ ".".toList).length else stem) =
      if Text.startsWithCi stem (start ++ ".".toList) then
        stem.drop (start ++ ".".toList).length else stem := by
  split
  · next hstarts =>
      simp only [Text.startsWithCi, Bool.and_eq_true, decide_eq_true_eq] at hstarts
      obtain ⟨hlen, hequal⟩ := hstarts
      -- the last character of the part that is cut off is the dot of the start
      have hsame : Text.toAsciiLowercase (stem.take (start ++ ".".toList).length) =
          Text.toAsciiLowercase (start ++ ".".toList) := by
        simpa [Text.eqIgnoreAsciiCase] using hequal
      have hlast : (stem.take (start ++ ".".toList).length).getLast? = some '.' := by
        have hdot : (Text.toAsciiLowercase (start ++ ".".toList)).getLast? = some '.' := by
          simp [Text.toAsciiLowercase]
        rw [← hsame, Text.toAsciiLowercase, List.getLast?_map, Option.map_eq_some_iff] at hdot
        obtain ⟨c, hc, hlower⟩ := hdot
        rw [hc, (Text.toLower_eq_iff c '.' (by decide)).mp hlower]
      obtain ⟨front, hfront⟩ := List.getLast?_eq_some_iff.mp hlast
      have hwhole : stem = front ++ '.' :: stem.drop (start ++ ".".toList).length := by
        conv_lhs => rw [← List.take_append_drop (start ++ ".".toList).length stem, hfront]
        simp
      rw [hwhole] at hstem
      exact dotted_right hstem
  · exact hstem

theorem parseTrack_parsed {comps : List Text} {raw : Text} {placement : Placement}
    (htags : ∀ c ∈ comps, Untagged c) (h : parseTrack comps raw = .ok placement) :
    Parsed placement := by
  obtain ⟨artist, albumFolder, disc, file, h, hcomps⟩ := parseTrack_ok h
  have hfile : file ∈ comps := by
    rcases hcomps with ⟨rfl, -⟩ | ⟨folder, rfl, -⟩ <;> simp
  obtain ⟨album, year, stem, extension, track, title, -, hsplit, -, hstem, htrack, -, -, rfl⟩ :=
    parseTrackFile_ok h
  obtain ⟨hext, hscene⟩ := splitStemExt_ok hstem
  have htitle : dotted title = title :=
    splitTrack_fixed (trackRest_fixed (dotted_dotted stem)) htrack
  have hcut : dotted ((cutAtStopToken title).getD title) = (cutAtStopToken title).getD title := by
    cases hsome : cutAtStopToken title with
    | none => exact htitle
    | some cut => exact (cutAtStopToken_fixed (htitle ▸ clean_dotted title) hsome).2
  have halbum := splitTitleYear_fixed (dotted_dotted albumFolder) hsplit
  exact .Track (dotted_dotted artist) halbum hcut ⟨hext, hscene (htags file hfile)⟩

theorem parseInner_parsed [UnicodeTables] {path : Text} {hint : Option (Option TitleKind)}
    {id : TitleId} {placement : Placement} (h : parseInner path hint = .ok (id, placement)) :
    Parsed placement ∧ placement.keyTitleId = .ok id := by
  obtain ⟨kind, comps, -, htag, hparsed, hkey⟩ := parseInner_ok h
  rw [hasSceneTag_eq_false] at htag
  refine ⟨?_, hkey⟩
  cases kind with
  | Movie => exact parseMovie_parsed htag hparsed
  | Series => exact parseEpisode_parsed htag hparsed
  | Album => exact parseTrack_parsed htag hparsed

end Mediaops.PathSchema
