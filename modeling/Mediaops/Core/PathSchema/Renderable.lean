import Mediaops.Core.PathSchema.SceneTags
import Mediaops.Core.PathSchema.Theorems

namespace Mediaops.PathSchema

open Checks

-- Which of the files that parse can be rendered.

-- The episode title a file name is read to have.
def titleAfterTag (file : Text) : Option Text := do
  let (stem, _) ← Text.rsplitOnce '.' file
  let (_, _, _, after) ← episodeTag (dotted stem)
  cutAtStopToken after

-- What the renderer asks of a text in dotted form.
def Speakable (text : Text) : Prop := '\x00' ∉ text ∧ Tagless text

instance (text : Text) : Decidable (Speakable text) := instDecidableAnd

-- The episode title that is read off the file name is one the renderer takes, and
-- the folder of a disc has a number other than zero.
def Renderable (hint : Option (Option TitleKind)) (path : Text) : Prop :=
  match selectKind hint (normalNames (Path.components path)) path with
  | .ok (.Series, comps) => ∀ file ∈ comps.getLast?, ∀ title ∈ titleAfterTag file, Speakable title
  | .ok (.Album, [_, _, discFolder, _]) => discDir discFolder ≠ some 0
  | _ => True

section Tokens

theorem speakable_iff {text : Text} (hne : text ≠ []) (h : dotted text = text) :
    DisplayToken text ↔ Speakable text := by
  constructor
  · intro htoken
    exact ⟨htoken.noNul, htoken.untagged⟩
  · rintro ⟨hnul, htagless⟩
    have hclean : Clean text := h ▸ clean_dotted text
    have hfree : ∀ d : Char, dottedChar d ≠ d → d ∉ text := fun d hd hmem => hd (hclean d hmem)
    have hdots : ∀ other : Text, dotted other = [] → other ≠ [] → text ≠ other := by
      rintro other hother hotherNe rfl
      exact hotherNe (h.symm.trans hother)
    exact {
      ne := hne
      plain := fun c hc => hclean.not_whitespace hc
      noNul := hnul
      notDot := hdots _ (by decide) (by decide)
      notDots := hdots _ (by decide) (by decide)
      untagged := htagless
      noSlash := hfree _ (by decide)
      noBackslash := hfree _ (by decide)
      noOpen := hfree _ (by decide)
      noClose := hfree _ (by decide) }

theorem smallNumber_le {text : Text} {n : Nat} (h : smallNumber text = some n) : n ≤ 99 := by
  unfold smallNumber at h
  split at h
  · next hdigits =>
      have hvalue := digitsValue_lt text (List.all_eq_true.mp hdigits.2)
      have hbound : 10 ^ text.length ≤ 10 ^ 2 := Nat.pow_le_pow_right (by omega) hdigits.1
      unfold Text.parseBelow at h
      split_ifs at h
      cases h
      omega
  · cases h

theorem discDir_le {name : Text} {n : Nat} (h : discDir name = some n) : n ≤ 99 := by
  obtain ⟨rest, -, hrest⟩ := Option.bind_eq_some_iff.mp h
  exact smallNumber_le hrest

theorem splitStemExt_stem {file stem extension raw : Text}
    (h : splitStemExt file raw = .ok (stem, extension)) :
    ∃ last, Text.rsplitOnce '.' file = some (stem, last) := by
  unfold splitStemExt at h
  cases hsplit : Text.rsplitOnce '.' file with
  | none =>
      rw [hsplit] at h
      cases h
  | some found =>
      rw [hsplit] at h
      obtain ⟨-, h⟩ := guard_ok h
      obtain ⟨ext, -, h⟩ := bind_ok h
      cases h
      exact ⟨found.2, rfl⟩

end Tokens

section Render

variable {title extension : Text} {year : Nat}

theorem validateYear_of_bounds (h : 1000 ≤ year ∧ year ≤ 9999) : validateYear year = .ok year :=
  if_pos h

theorem renders_movie (htitle : DisplayToken title) (hyear : 1000 ≤ year ∧ year ≤ 9999)
    (hext : IsExtension extension) :
    ∃ library, renderPlacement (.Movie title year extension) = .ok library := by
  simp only [renderPlacement, renderComponents, htitle.validate, validateYear_of_bounds hyear,
    hext.validate, bind, Except.bind]
  exact ⟨_, rfl⟩

theorem renders_episode {season episode : Nat} {last : Option Nat} {episodeTitle : Option Text}
    (htitle : DisplayToken title) (hyear : 1000 ≤ year ∧ year ≤ 9999)
    (hext : IsExtension extension)
    (hrange : season ≤ 99 ∧ episode ≤ 999 ∧ ∀ n ∈ last, n ≤ 999) :
    (∃ library, renderPlacement
      (.Episode title year season episode last episodeTitle extension) = .ok library) ↔
      ∀ name ∈ episodeTitle.filter (· ≠ []), DisplayToken name := by
  constructor
  · rintro ⟨library, h⟩
    obtain ⟨comps, hcomps, -⟩ := renderPlacement_ok h
    exact (render_episode hcomps).2.2.2.1
  · intro hnames
    have hbounds : ¬(99 < season ∨ 999 < episode ∨ last.any (999 < ·) = true) := by
      simp only [not_or, not_lt, Option.any_eq_true, not_exists, not_and, decide_eq_true_eq]
      exact ⟨hrange.1, hrange.2.1, hrange.2.2⟩
    simp only [renderPlacement, renderComponents, htitle.validate, validateYear_of_bounds hyear,
      hext.validate, bind, Except.bind, if_neg hbounds]
    cases hname : episodeTitle.filter (· ≠ []) with
    | none => exact ⟨_, rfl⟩
    | some name =>
        simp only [(hnames name hname).validate]
        exact ⟨_, rfl⟩

theorem renders_track {artist album : Text} {disc track : Option Nat}
    (hartist : DisplayToken artist) (halbum : DisplayToken album) (htitle : DisplayToken title)
    (hyear : 1000 ≤ year ∧ year ≤ 9999) (hext : IsExtension extension)
    (htrack : ∀ n ∈ track, 1 ≤ n ∧ n ≤ 99) (hdisc : ∀ d ∈ disc, d ≤ 99) :
    (∃ library, renderPlacement
      (.Track artist album year disc track title extension) = .ok library) ↔ disc ≠ some 0 := by
  constructor
  · rintro ⟨library, h⟩ rfl
    obtain ⟨comps, hcomps, -⟩ := renderPlacement_ok h
    have hzero := (render_track hcomps).2.2.2.2.2.1 0 rfl
    omega
  · intro hzero
    simp only [renderPlacement, renderComponents, hartist.validate, halbum.validate,
      htitle.validate, validateYear_of_bounds hyear, hext.validate, bind, Except.bind]
    have hnumber : ∀ d, disc = some d → 1 ≤ d ∧ d ≤ 99 := by
      rintro d rfl
      have hd : d ≠ 0 := fun h => hzero (by rw [h])
      exact ⟨by omega, hdisc d rfl⟩
    cases track with
    | none =>
        cases disc with
        | none => exact ⟨_, rfl⟩
        | some d =>
            simp only [hnumber d rfl, not_true_eq_false, and_self, if_false]
            exact ⟨_, rfl⟩
    | some n =>
        have hn := htrack n rfl
        cases disc with
        | none =>
            simp only [hn, not_true_eq_false, and_self, if_false]
            exact ⟨_, rfl⟩
        | some d =>
            simp only [hn, hnumber d rfl, not_true_eq_false, and_self, if_false]
            exact ⟨_, rfl⟩

end Render

-- A file that parses, with a hint or from the library, can be rendered exactly when
-- the two texts the parser does not validate are in order.
theorem parsed_renders_iff [UnicodeTables] {path : Text} {hint : Option (Option TitleKind)}
    {id : TitleId} {placement : Placement} (h : parseInner path hint = .ok (id, placement)) :
    (∃ library, renderPlacement placement = .ok library) ↔ Renderable hint path := by
  obtain ⟨kind, comps, hselect, -, hparsed, -⟩ := parseInner_ok h
  unfold Renderable
  rw [hselect]
  cases kind with
  | Movie =>
      obtain ⟨folder, file, title, year, stem, extension, -, hsplit, hstem, htitle, rfl⟩ :=
        parseMovie_ok hparsed
      have hrenders := renders_movie htitle (splitTitleYear_year hsplit) (splitStemExt_ok hstem).1
      simpa using hrenders
  | Series =>
      obtain ⟨folder, file, dirSeason, hfile, hparsed⟩ := parseEpisode_ok hparsed
      obtain ⟨title, year, stem, extension, season, episode, last, after, hsplit, htitle, hstem,
        htag, hrange, rfl⟩ := parseEpisodeFile_ok hparsed
      obtain ⟨extension', hcut⟩ := splitStemExt_stem hstem
      have hread : titleAfterTag file = cutAtStopToken after := by
        simp [titleAfterTag, hcut, htag]
      rw [renders_episode htitle (splitTitleYear_year hsplit) (splitStemExt_ok hstem).1 hrange,
        cutAtStopToken_filter]
      dsimp only
      rw [hfile]
      simp only [Option.mem_def, Option.some.injEq, forall_eq', hread]
      refine forall₂_congr fun name hname => ?_
      have hclean : Clean after := fun c hc => clean_dotted stem c (mem_of_episodeTag htag hc)
      obtain ⟨hne, hdotted⟩ := cutAtStopToken_fixed hclean hname
      exact speakable_iff hne hdotted
  | Album =>
      obtain ⟨artist, albumFolder, disc, file, hfile, hcomps⟩ := parseTrack_ok hparsed
      obtain ⟨album, year, stem, extension, track, title, hartist, hsplit, halbum, hstem, -, htitle,
        htrack, rfl⟩ := parseTrackFile_ok hfile
      have hyear := splitTitleYear_year hsplit
      have hext := (splitStemExt_ok hstem).1
      rcases hcomps with ⟨rfl, rfl⟩ | ⟨folder, rfl, hdisc, -⟩
      · rw [renders_track hartist halbum htitle hyear hext htrack (by simp)]
        simp
      · have hbound : ∀ d ∈ disc, d ≤ 99 := fun d hd => discDir_le (hdisc.trans hd)
        rw [renders_track hartist halbum htitle hyear hext htrack hbound, ← hdisc]

-- A film's texts are in order as they are parsed.
example :
    let := UnicodeTables.ascii
    ((parseRemote (some .Movie) "Up (2009)/Up.(2009).1080p.mkv").toOption.bind fun read =>
      (renderPlacement read.2).toOption) = some "movies/Up.(2009)/Up.(2009).mkv".toList := by
  decide +kernel

theorem parsed_renders_pilot :
    let := UnicodeTables.ascii
    ∃ id placement library,
      parseRemote (some .Series) "Show (2000)/Season 01/Show - S01E01 - Pilot 1080p.mkv" =
        .ok (id, placement) ∧ renderPlacement placement = .ok library := by
  intro _
  have hselect : selectKind (some (some .Series)) (normalNames (Path.components
        "Show (2000)/Season 01/Show - S01E01 - Pilot 1080p.mkv"))
        "Show (2000)/Season 01/Show - S01E01 - Pilot 1080p.mkv" =
      .ok (.Series, ["Show (2000)", "Season 01", "Show - S01E01 - Pilot 1080p.mkv"]) := by
    decide +kernel
  have hread : titleAfterTag "Show - S01E01 - Pilot 1080p.mkv" = some "Pilot".toList := by
    decide +kernel
  have hsample : Renderable (some (some .Series))
      "Show (2000)/Season 01/Show - S01E01 - Pilot 1080p.mkv" := by
    unfold Renderable
    rw [hselect]
    intro file hfile title hname
    obtain rfl := Option.some.inj hfile
    have hpilot := hread.symm.trans hname
    obtain rfl := Option.some.inj hpilot
    decide
  obtain ⟨library, hlibrary⟩ := (parsed_renders_iff Sample.parse_pilot).mpr hsample
  exact ⟨_, _, library, Sample.parse_pilot, hlibrary⟩

-- Brackets hide a scene tag from the parser; dotted, it is one.
theorem parsed_not_rendered :
    let := UnicodeTables.ascii
    ∃ id placement,
      parseRemote none "Show.(2000)/Show.S01E01.Pilot[REPACK].mkv" = .ok (id, placement) ∧
      renderPlacement placement = .error (.LeftoverSceneTag "Pilot.REPACK") := by
  intro tables
  have hparse : @parseRemote UnicodeTables.ascii none
      "Show.(2000)/Show.S01E01.Pilot[REPACK].mkv" =
      .ok (Sample.series, Sample.pilot "Pilot.REPACK") := by
    clear tables
    decide +kernel
  exact ⟨_, _, hparse, by decide +kernel⟩

end Mediaops.PathSchema
