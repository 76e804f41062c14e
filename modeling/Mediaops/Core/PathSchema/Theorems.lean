import Mediaops.Core.TitleId.Theorems
import Mediaops.Core.PathSchema.Parsed

namespace Mediaops.PathSchema

open Checks

section

variable [UnicodeTables]

-- A placement with its key, as the parser returns it.
def keyed (placement : Placement) : Except PathSchemaError (TitleId × Placement) :=
  placement.keyTitleId.map fun id => (id, placement)

theorem keyed_ok {placement result : Placement} {id : TitleId} :
    keyed placement = .ok (id, result) ↔ placement.keyTitleId = .ok id ∧ placement = result := by
  unfold keyed
  cases placement.keyTitleId with
  | error e => simp [Except.map]
  | ok key => simp [Except.map]

theorem parse_shape {kind : TitleKind} {dir ext : Text} {rest : List Text}
    (h : Shape kind dir rest ext) :
    parsePlacement (Text.joinWith '/' (dir :: rest)) =
      if isSceneTag ext then .error (.LeftoverSceneTag (Text.joinWith '/' (dir :: rest)))
      else parseKind kind rest (Text.joinWith '/' (dir :: rest)) >>= keyed := by
  rw [parsePlacement_join h.dir h.names h.dots, h.tagged]
  rfl

omit [UnicodeTables] in
theorem renderPlacement_ok {placement : Placement} {path : Text}
    (h : renderPlacement placement = .ok path) :
    ∃ comps, renderComponents placement = .ok comps ∧ path = Text.joinWith '/' comps := by
  unfold renderPlacement at h
  cases hcomps : renderComponents placement with
  | error e =>
      rw [hcomps] at h
      cases h
  | ok comps =>
      rw [hcomps] at h
      cases h
      exact ⟨comps, rfl, rfl⟩

section Movie

variable {title extension path : Text} {year : Nat}

theorem parse_movie (h : renderPlacement (.Movie title year extension) = .ok path)
    (hclean : Clean title) (hne : dotted title ≠ []) :
    ∃ ext, validateExtension extension = .ok ext ∧ parsePlacement path =
      if isSceneTag ext then .error (.LeftoverSceneTag path)
      else keyed (.Movie (dotted title) year ext) := by
  obtain ⟨comps, hcomps, rfl⟩ := renderPlacement_ok h
  obtain ⟨htitle, hyear, ext, hext, rfl⟩ := render_movie hcomps
  have hfacts := (validateExtension_ok hext).1
  refine ⟨ext, hext, ?_⟩
  rw [parse_shape (movie_shape htitle hfacts)]
  simp only [parseKind, parseMovie_rendered htitle hclean hne hyear hfacts]
  rfl

end Movie

section Episode

variable {title extension path : Text} {year season episode : Nat} {last : Option Nat}
  {episodeTitle : Option Text}

theorem parse_episode
    (h : renderPlacement (.Episode title year season episode last episodeTitle extension) = .ok path)
    (hclean : Clean title) (hne : dotted title ≠ []) (hnames : ∀ t ∈ episodeTitle, Clean t) :
    ∃ ext, validateExtension extension = .ok ext ∧
      let found := foundTag (dotted title) year season episode last
        (titleSuffix (episodeTitle.map dotted))
      parsePlacement path =
        if isSceneTag ext then .error (.LeftoverSceneTag path)
        else if season ≠ found.1 then .error (.Invalid path)
        else keyed (.episodeTitled (dotted title) year found.1 found.2.1 found.2.2.1
          (cutAtStopToken found.2.2.2) ext) := by
  obtain ⟨comps, hcomps, rfl⟩ := renderPlacement_ok h
  obtain ⟨htitle, hyear, ⟨hseason, hepisode, hlast⟩, hnamed, ext, hext, rfl⟩ := render_episode hcomps
  have hfacts := (validateExtension_ok hext).1
  refine ⟨ext, hext, ?_⟩
  rw [parse_shape (episode_shape htitle hnamed hfacts)]
  simp only [parseKind]
  rw [parseEpisode_rendered htitle hclean hne hyear hseason hepisode hlast hnames hfacts]
  split
  · rfl
  · split <;> rfl

end Episode

section Track

variable {artist album title extension path : Text} {year : Nat} {disc track : Option Nat}

theorem parse_track
    (h : renderPlacement (.Track artist album year disc track title extension) = .ok path)
    (hartist : Clean artist) (hartistNe : dotted artist ≠ []) (halbum : Clean album)
    (halbumNe : dotted album ≠ []) (htitle : Clean title) :
    ∃ ext, validateExtension extension = .ok ext ∧ parsePlacement path =
      if isSceneTag ext then .error (.LeftoverSceneTag path)
      else splitTrack (remainder album year track title) path >>=
        finishTrack (dotted artist) (dotted album) year disc ext path >>= keyed := by
  obtain ⟨comps, hcomps, rfl⟩ := renderPlacement_ok h
  obtain ⟨hartistToken, halbumToken, htitleToken, hyear, -, hdisc, ext, hext, rfl⟩ :=
    render_track hcomps
  have hfacts := (validateExtension_ok hext).1
  refine ⟨ext, hext, ?_⟩
  have hflat : ∀ folder file : Text, ["music".toList, artist, folder] ++ discFolder disc ++ [file] =
      "music".toList :: ([artist, folder] ++ discFolder disc ++ [file]) := by
    intro folder file
    rfl
  rw [hflat, parse_shape (track_shape hartistToken halbumToken htitleToken hfacts)]
  simp only [parseKind]
  rw [parseTrack_rendered fun d hd => (hdisc d hd).2, parseTrackFile_rendered hartistToken hartist
    hartistNe halbumToken halbum halbumNe htitle hyear hfacts]

end Track

end

section Legible

-- A text that the parser takes to start with a track number.
def leadsNumber (text : Text) : Bool :=
  match Text.splitOnce '.' text with
  | some (n, _) => n.length ≤ 3 && n ≠ [] && n.all Char.isDigit
  | none => false

-- The texts of a placement do not hide what the renderer puts around them: the series
-- title holds no episode tag (or one that says the same), the last title is not cut,
-- and the title of a track without a number does not start with one.
def Legible : Placement → Bool
  | .Movie .. => true
  | .Episode title year season episode last episodeTitle _ =>
      match episodeTag title with
      | none => episodeTitle.all fun t => cutAtStopToken t = some t
      | some (s, e, n, after) =>
          s = season && e = episode && n = last &&
            cutAtStopToken (after ++ '.' :: (yearGroup year ++
              '.' :: (renderEpisodeTag season episode last ++ titleSuffix episodeTitle))) =
                episodeTitle
  | .Track _ _ _ _ track title _ =>
      (cutAtStopToken title).getD title = title && (track.isSome || !leadsNumber title)

theorem cutAtStopToken_suffix {episodeTitle : Option Text} (h : ∀ t ∈ episodeTitle, t ≠ []) :
    cutAtStopToken (titleSuffix episodeTitle) = episodeTitle ↔
      (episodeTitle.all fun t => cutAtStopToken t = some t) = true := by
  cases episodeTitle with
  | none => simp [titleSuffix, cutAtStopToken, Text.trimMatches, Text.trimEndMatches,
      Text.trimStartMatches]
  | some t =>
      rw [titleSuffix_some (h t rfl), cutAtStopToken_dot]
      simp

theorem legible_episode {title extension : Text} {year season episode : Nat} {last : Option Nat}
    {episodeTitle : Option Text} (h : ∀ t ∈ episodeTitle, t ≠ []) :
    Legible (.Episode title year season episode last episodeTitle extension) = true ↔
      let found := foundTag title year season episode last (titleSuffix episodeTitle)
      found.1 = season ∧ found.2.1 = episode ∧ found.2.2.1 = last ∧
        cutAtStopToken found.2.2.2 = episodeTitle := by
  cases htag : episodeTag title with
  | none => simp [Legible, foundTag, htag, cutAtStopToken_suffix h]
  | some found =>
      obtain ⟨s, e, n, after⟩ := found
      simp [Legible, foundTag, htag, and_assoc]

theorem splitTrack_leads {text raw : Text} (h : leadsNumber text = false) :
    splitTrack text raw = .ok (none, text) := by
  unfold leadsNumber at h
  unfold splitTrack
  split
  · next n title hsplit =>
      rw [hsplit] at h
      have hnot : ¬(n.length ≤ 3 ∧ n ≠ [] ∧ n.all Char.isDigit = true) := by
        rintro ⟨hlen, hne, hall⟩
        simp [hlen, hne, hall] at h
      rw [if_neg hnot]
      rfl
  · rfl

theorem splitTrack_number {text raw title : Text} {track : Option Nat} (h : leadsNumber text = true)
    (hsplit : splitTrack text raw = .ok (track, title)) : track.isSome = true := by
  unfold leadsNumber at h
  unfold splitTrack at hsplit
  split at hsplit
  · next n tail hfound =>
      rw [hfound] at h
      simp only [Bool.and_eq_true, decide_eq_true_eq] at h
      rw [if_pos ⟨h.1.1, h.1.2, h.2⟩] at hsplit
      split at hsplit
      · cases hsplit
        rfl
      · cases hsplit
  · next hnone =>
      rw [hnone] at h
      cases h

theorem splitTrack_decimal02 {n : Nat} (hn : n ≤ 99) (title raw : Text) :
    splitTrack (Text.decimal02 n ++ '.' :: title) raw = .ok (some n, title) := by
  have hlen := Text.decimal02_length_two hn
  have hall : (Text.decimal02 n).all Char.isDigit = true :=
    List.all_eq_true.mpr fun _ hc => Text.isDigit_decimal02 hc
  have hcheck : (Text.decimal02 n).length ≤ 3 ∧ Text.decimal02 n ≠ [] ∧
      (Text.decimal02 n).all Char.isDigit = true := ⟨by omega, Text.decimal02_ne_nil n, hall⟩
  have hvalue : Text.parseBelow 256 (Text.decimal02 n) = some n :=
    Text.parseBelow_decimal02 (by omega)
  rw [splitTrack, Text.splitOnce_append (decimal02_free n)]
  simp only [if_pos hcheck, hvalue]
  rfl

theorem finishTrack_ok {artist album title extension raw : Text} {year : Nat}
    {disc track : Option Nat} {placement : Placement}
    (h : finishTrack artist album year disc extension raw (track, title) = .ok placement) :
    placement = .Track artist album year disc track ((cutAtStopToken title).getD title) extension := by
  unfold finishTrack at h
  dsimp only at h
  obtain ⟨-, h⟩ := guard_ok h
  obtain ⟨-, -, h⟩ := bind_ok h
  cases track with
  | none =>
      cases h
      rfl
  | some n =>
      obtain ⟨-, h⟩ := guard_ok h
      cases h
      rfl

theorem finishTrack_eq {artist album title extension raw : Text} {year : Nat}
    {disc track : Option Nat} (htoken : DisplayToken ((cutAtStopToken title).getD title))
    (htrack : ∀ n ∈ track, 1 ≤ n ∧ n ≤ 99) :
    finishTrack artist album year disc extension raw (track, title) =
      .ok (.Track artist album year disc track ((cutAtStopToken title).getD title) extension) := by
  unfold finishTrack
  simp only [htoken.ne, if_false, htoken.validate]
  cases track with
  | none => rfl
  | some n =>
      have hn := htrack n rfl
      simp only [Except.mapError, bind, Except.bind, hn, and_self, not_true_eq_false, if_false]
      rfl

end Legible

section Canonical

variable [UnicodeTables] {id : TitleId}

omit [UnicodeTables] in
theorem ParsedExtension.same {extension ext : Text} (h : ParsedExtension extension)
    (hext : validateExtension extension = .ok ext) : ext = extension := by
  rw [h.validate] at hext
  cases hext
  rfl

theorem movie_canonical {title extension library : Text} {year : Nat}
    (htitle : dotted title = title) (hext : ParsedExtension extension)
    (hrender : renderPlacement (.Movie title year extension) = .ok library) :
    parsePlacement library = keyed (.Movie title year extension) := by
  obtain ⟨comps, hcomps, -⟩ := renderPlacement_ok hrender
  have hne : dotted title ≠ [] := by
    rw [htitle]
    exact (render_movie hcomps).1.ne
  obtain ⟨ext, hvalid, hparse⟩ := parse_movie hrender (htitle ▸ clean_dotted title) hne
  rw [hext.same hvalid, hext.untagged, htitle] at hparse
  exact hparse

theorem episode_canonical {title extension library : Text} {year season episode : Nat}
    {last : Option Nat} {episodeTitle : Option Text} (htitle : dotted title = title)
    (hnames : ∀ t ∈ episodeTitle, t ≠ [] ∧ dotted t = t) (hext : ParsedExtension extension)
    (hrender : renderPlacement (.Episode title year season episode last episodeTitle extension) =
      .ok library) :
    let found := foundTag title year season episode last (titleSuffix episodeTitle)
    parsePlacement library =
      if season ≠ found.1 then .error (.Invalid library)
      else keyed (.Episode title year found.1 found.2.1 found.2.2.1 (cutAtStopToken found.2.2.2)
        extension) := by
  obtain ⟨comps, hcomps, -⟩ := renderPlacement_ok hrender
  have hne : dotted title ≠ [] := by
    rw [htitle]
    exact (render_episode hcomps).1.ne
  have hsame : episodeTitle.map dotted = episodeTitle := by
    cases episodeTitle with
    | none => rfl
    | some t => rw [Option.map_some, (hnames t rfl).2]
  obtain ⟨ext, hvalid, hparse⟩ := parse_episode hrender (htitle ▸ clean_dotted title) hne
    fun t ht => (hnames t ht).2 ▸ clean_dotted t
  simp only [hext.same hvalid, hext.untagged, htitle, hsame, Placement.episodeTitled,
    cutAtStopToken_filter] at hparse
  exact hparse

theorem track_canonical {artist album title extension library : Text} {year : Nat}
    {disc track : Option Nat} (hartist : dotted artist = artist) (halbum : dotted album = album)
    (htitle : dotted title = title) (hext : ParsedExtension extension)
    (hrender : renderPlacement (.Track artist album year disc track title extension) = .ok library) :
    parsePlacement library =
      splitTrack (trackNumber track ++ title) library >>=
        finishTrack artist album year disc extension library >>= keyed := by
  obtain ⟨comps, hcomps, -⟩ := renderPlacement_ok hrender
  obtain ⟨hartistToken, halbumToken, htitleToken, -⟩ := render_track hcomps
  obtain ⟨ext, hvalid, hparse⟩ := parse_track hrender (hartist ▸ clean_dotted artist)
    (by rw [hartist]; exact hartistToken.ne) (halbum ▸ clean_dotted album)
    (by rw [halbum]; exact halbumToken.ne) (htitle ▸ clean_dotted title)
  have hrest : remainder album year track title = trackNumber track ++ title := by
    unfold remainder
    rw [htitle, if_neg htitleToken.ne]
  rw [hext.same hvalid, hext.untagged, hartist, halbum, hrest] at hparse
  exact hparse

-- The parse of a rendered track comes down to its number and its title.
theorem track_read {artist album title extension library : Text} {year : Nat}
    {disc track : Option Nat} (hartist : dotted artist = artist) (halbum : dotted album = album)
    (htitle : dotted title = title) (hext : ParsedExtension extension)
    (hrender : renderPlacement (.Track artist album year disc track title extension) = .ok library)
    (hkey : (Placement.Track artist album year disc track title extension).keyTitleId = .ok id) :
    parsePlacement library = .ok (id, .Track artist album year disc track title extension) ↔
      Legible (.Track artist album year disc track title extension) = true := by
  obtain ⟨comps, hcomps, -⟩ := renderPlacement_ok hrender
  obtain ⟨-, -, htitleToken, -, htrack, -⟩ := render_track hcomps
  have hparse := track_canonical hartist halbum htitle hext hrender
  -- the number as the parser reads it, when it does not take one from the title
  have hsplit : (track.isSome || !leadsNumber title) = true →
      splitTrack (trackNumber track ++ title) library = .ok (track, title) := by
    intro hnumber
    cases track with
    | none =>
        simp only [Option.isSome_none, Bool.false_or, Bool.not_eq_true'] at hnumber
        exact splitTrack_leads hnumber
    | some n =>
        have htext : trackNumber (some n) ++ title = Text.decimal02 n ++ '.' :: title := by
          simp [trackNumber]
        rw [htext]
        exact splitTrack_decimal02 (htrack n rfl).2 title library
  simp only [Legible, Bool.and_eq_true, decide_eq_true_eq]
  constructor
  · intro hback
    rw [hparse] at hback
    obtain ⟨placement, hplacement, hkeyed⟩ := bind_ok hback
    obtain ⟨⟨track', title'⟩, hread, hfinish⟩ := bind_ok hplacement
    have hsame := (keyed_ok.mp hkeyed).2
    rw [finishTrack_ok hfinish] at hsame
    simp only [Placement.Track.injEq, true_and, and_true] at hsame
    have hnumber : (track.isSome || !leadsNumber title) = true := by
      cases track with
      | some n => rfl
      | none =>
          simp only [Option.isSome_none, Bool.false_or, Bool.not_eq_true']
          by_contra hleads
          rw [Bool.not_eq_false] at hleads
          have hsome : track'.isSome = true := splitTrack_number hleads hread
          rw [hsame.1] at hsome
          cases hsome
    rw [hsplit hnumber] at hread
    cases hread
    exact ⟨hsame.2, hnumber⟩
  · rintro ⟨htitleCut, hnumber⟩
    have hfinish : finishTrack artist album year disc extension library (track, title) =
        .ok (.Track artist album year disc track title extension) := by
      rw [finishTrack_eq (by rw [htitleCut]; exact htitleToken) htrack, htitleCut]
    rw [hparse, hsplit hnumber]
    simp only [bind, Except.bind, hfinish]
    exact keyed_ok.mpr ⟨hkey, rfl⟩

-- The library path of a remote file parses back to its title and placement exactly
-- when the placement is legible.
theorem canonical_identity {kind : Option TitleKind} {path library : Text} {placement : Placement}
    (hparse : parseRemote kind path = .ok (id, placement))
    (hrender : renderPlacement placement = .ok library) :
    parsePlacement library = .ok (id, placement) ↔ Legible placement = true := by
  obtain ⟨hparsed, hkey⟩ := parseInner_parsed hparse
  cases hparsed with
  | Movie htitle hext =>
      rw [movie_canonical htitle hext hrender, keyed_ok]
      exact ⟨fun _ => rfl, fun _ => ⟨hkey, rfl⟩⟩
  | @Episode title extension year season episode last episodeTitle htitle hnames hext =>
      rw [legible_episode fun t ht => (hnames t ht).1, episode_canonical htitle hnames hext hrender]
      dsimp only
      generalize foundTag title year season episode last (titleSuffix episodeTitle) = found
      constructor
      · intro hback
        split at hback
        · cases hback
        · have hsame := (keyed_ok.mp hback).2
          simp only [Placement.Episode.injEq, true_and, and_true] at hsame
          exact hsame
      · rintro ⟨hseason, hepisode, hlast, htail⟩
        rw [if_neg (by simp [hseason]), hseason, hepisode, hlast, htail]
        exact keyed_ok.mpr ⟨hkey, rfl⟩
  | Track hartist halbum htitle hext => exact track_read hartist halbum htitle hext hrender hkey

end Canonical

section Hint

theorem parseKind_kind {kind : TitleKind} {comps : List Text} {raw : Text} {placement : Placement}
    (h : parseKind kind comps raw = .ok placement) : placement.kind = kind := by
  have hepisode : ∀ folder file dirSeason,
      parseEpisodeFile folder file dirSeason raw = .ok placement → placement.kind = .Series := by
    intro folder file dirSeason h
    obtain ⟨⟨title, year⟩, -, h⟩ := bind_ok h
    obtain ⟨-, -, h⟩ := bind_ok h
    obtain ⟨⟨stem, extension⟩, -, h⟩ := bind_ok h
    dsimp only at h
    cases hfound : episodeTag (dotted stem) with
    | none =>
        rw [hfound] at h
        cases h
    | some found =>
        rw [hfound] at h
        obtain ⟨-, h⟩ := guard_ok h
        obtain ⟨-, h⟩ := guard_ok h
        cases h
        rfl
  have htrack : ∀ artist folder disc file,
      parseTrackFile artist folder disc file raw = .ok placement → placement.kind = .Album := by
    intro artist folder disc file h
    obtain ⟨-, -, h⟩ := bind_ok h
    obtain ⟨⟨album, year⟩, -, h⟩ := bind_ok h
    obtain ⟨-, -, h⟩ := bind_ok h
    obtain ⟨⟨stem, extension⟩, -, h⟩ := bind_ok h
    obtain ⟨⟨track, title⟩, -, h⟩ := bind_ok h
    obtain ⟨-, h⟩ := guard_ok h
    obtain ⟨-, -, h⟩ := bind_ok h
    cases track with
    | none =>
        cases h
        rfl
    | some n =>
        obtain ⟨-, h⟩ := guard_ok h
        cases h
        rfl
  cases kind with
  | Movie =>
      simp only [parseKind, parseMovie] at h
      split at h
      · obtain ⟨⟨title, year⟩, -, h⟩ := bind_ok h
        obtain ⟨⟨stem, extension⟩, -, h⟩ := bind_ok h
        obtain ⟨-, h⟩ := guard_ok h
        obtain ⟨-, -, h⟩ := bind_ok h
        cases h
        rfl
      · cases h
  | Series =>
      simp only [parseKind, parseEpisode] at h
      split at h
      · exact hepisode _ _ _ h
      · split at h
        · exact hepisode _ _ _ h
        · cases h
      · cases h
  | Album =>
      simp only [parseKind, parseTrack] at h
      split at h
      · exact htrack _ _ _ _ h
      · split at h
        · exact htrack _ _ _ _ h
        · cases h
      · cases h

-- A path is read the same way once its kind is known.
theorem selectKind_known {hint : Option TitleKind} {comps rest : List Text} {raw : Text}
    {kind : TitleKind} (h : selectKind (some hint) comps raw = .ok (kind, rest)) :
    selectKind (some (some kind)) comps raw = .ok (kind, rest) := by
  cases hint with
  | some known =>
      have hkind : known = kind := by
        simp only [selectKind] at h
        split_ifs at h <;> cases h <;> rfl
      rwa [hkind] at h
  | none =>
      simp only [selectKind] at h ⊢
      split at h
      · next found hfound =>
          cases h
          split_ifs at hfound with hlen
          rw [if_pos ⟨hlen, hfound⟩]
          rfl
      · next hfound =>
          split at h
          · cases h
            rw [if_neg]
            · rfl
            · rintro ⟨hlen, hdir⟩
              rw [if_pos hlen, hdir] at hfound
              cases hfound
          · cases h

variable [UnicodeTables]

theorem keyTitleId_kind {placement : Placement} {id : TitleId}
    (h : placement.keyTitleId = .ok id) : id.kind = placement.kind := by
  have hparts := mapError_ok h
  cases placement with
  | Movie title year extension => exact (TitleId.fromParts_ok hparts).1
  | Episode title year season episode last episodeTitle extension =>
      exact (TitleId.fromParts_ok hparts).1
  | Track artist album year disc track title extension => exact (TitleId.fromParts_ok hparts).1

theorem parseRemote_kind {hint : Option TitleKind} {path : Text} {id : TitleId}
    {placement : Placement} (h : parseRemote hint path = .ok (id, placement)) :
    parseRemote (some id.kind) path = .ok (id, placement) := by
  have hsel : ∃ rest, selectKind (some hint) (normalNames (Path.components path)) path =
      .ok (id.kind, rest) := by
    unfold parseRemote parseInner at h
    cases hbin : classifyRejectBin path with
    | some bin =>
        rw [hbin] at h
        cases h
    | none =>
        rw [hbin] at h
        obtain ⟨-, h⟩ := guard_ok h
        obtain ⟨-, h⟩ := guard_ok h
        obtain ⟨⟨kind, rest⟩, hsel, h⟩ := bind_ok h
        obtain ⟨-, h⟩ := guard_ok h
        obtain ⟨parsed, hparsed, h⟩ := bind_ok h
        obtain ⟨key, hkey, h⟩ := bind_ok h
        cases h
        rw [keyTitleId_kind hkey, parseKind_kind hparsed]
        exact ⟨rest, hsel⟩
  obtain ⟨rest, hsel⟩ := hsel
  have hsame : parseRemote (some id.kind) path = parseRemote hint path := by
    unfold parseRemote parseInner
    simp only [selectKind_known hsel, hsel]
  rw [hsame, h]

end Hint

namespace Sample

theorem series_pair : validPair .Series .Key = true := by decide

theorem album_pair : validPair .Album .Key = true := by decide

def series : @TitleId UnicodeTables.ascii :=
  @TitleId.mk UnicodeTables.ascii .Series .Key "show.2000" series_pair (by decide) (by simp)

def pilot (episodeTitle : Text) : Placement :=
  .Episode "Show" 2000 1 1 none (some episodeTitle) "mkv"

theorem parse_pilot : @parseRemote UnicodeTables.ascii (some .Series)
    "Show (2000)/Season 01/Show - S01E01 - Pilot 1080p.mkv" = .ok (series, pilot "Pilot") := by
  decide +kernel

end Sample

theorem canonical_identity_pilot :
    let := UnicodeTables.ascii
    ∃ id placement library,
      parseRemote (some .Series) "Show (2000)/Season 01/Show - S01E01 - Pilot 1080p.mkv" =
        .ok (id, placement) ∧
      renderPlacement placement = .ok library ∧ Legible placement = true ∧
      parsePlacement library = .ok (id, placement) := by
  intro _
  have hrender : renderPlacement (Sample.pilot "Pilot") =
      .ok "series/Show.(2000)/Season.01/Show.(2000).S01E01.Pilot.mkv".toList := by decide +kernel
  have hlegible : Legible (Sample.pilot "Pilot") = true := by decide +kernel
  exact ⟨_, _, _, Sample.parse_pilot, hrender, hlegible,
    (canonical_identity Sample.parse_pilot hrender).mpr hlegible⟩

-- A dash at the end of an episode title survives the cut at a release marker, and
-- the next parse drops it.
theorem canonical_identity_dash :
    let := UnicodeTables.ascii
    ∃ id placement library,
      parseRemote (some .Series) "Show.(2000)/Season.01/Show.S01E01.Pilot-.1080p.mkv" =
        .ok (id, placement) ∧
      renderPlacement placement = .ok library ∧
      parsePlacement library ≠ .ok (id, placement) := by
  intro tables
  have hparse : @parseRemote UnicodeTables.ascii (some .Series)
      "Show.(2000)/Season.01/Show.S01E01.Pilot-.1080p.mkv" =
      .ok (Sample.series, Sample.pilot "Pilot-") := by
    clear tables
    decide +kernel
  have hrender : renderPlacement (Sample.pilot "Pilot-") =
      .ok "series/Show.(2000)/Season.01/Show.(2000).S01E01.Pilot-.mkv".toList := by decide +kernel
  have hreparse : @parsePlacement UnicodeTables.ascii
      "series/Show.(2000)/Season.01/Show.(2000).S01E01.Pilot-.mkv" =
      .ok (Sample.series, Sample.pilot "Pilot") := by
    clear tables
    decide +kernel
  refine ⟨_, _, _, hparse, hrender, fun hback => ?_⟩
  have hsame := hreparse.symm.trans hback
  simp [Sample.pilot] at hsame

end Mediaops.PathSchema
