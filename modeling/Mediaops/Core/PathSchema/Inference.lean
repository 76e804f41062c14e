import Mediaops.Core.PathSchema.Theorems

namespace Mediaops.PathSchema

open Checks

-- A library file read under the kind of its placement, its kind directory left out.

-- An error without the path it names.
def unnamed : PathSchemaError → PathSchemaError
  | .Invalid _ => .Invalid []
  | .LeftoverSceneTag _ => .LeftoverSceneTag []
  | e => e

section Raw

variable (raw raw' : Text)

-- The path given to a parser only shows in its errors.

theorem splitTitleYear_raw (folder : Text) :
    Agree unnamed (splitTitleYear folder raw) (splitTitleYear folder raw') := by
  unfold splitTitleYear
  refine .guard rfl ?_
  split
  · exact .throw rfl
  · refine .guard rfl ?_
    refine .bind (.mapError rfl) fun year => ?_
    exact .guard rfl (.refl _)

theorem splitStemExt_raw (file : Text) :
    Agree unnamed (splitStemExt file raw) (splitStemExt file raw') := by
  unfold splitStemExt
  split
  · exact .throw rfl
  · refine .guard rfl ?_
    exact .bind (.mapError rfl) fun extension => .refl _

theorem parseMovie_raw (comps : List Text) :
    Agree unnamed (parseMovie comps raw) (parseMovie comps raw') := by
  unfold parseMovie
  split
  · next folder file =>
      refine .bind (splitTitleYear_raw ..) fun (title, year) => ?_
      refine .bind (splitStemExt_raw ..) fun (stem, extension) => ?_
      refine .guard rfl ?_
      exact .bind (.mapError rfl) fun _ => .refl _
  · exact .throw rfl

theorem parseEpisodeFile_raw (folder file : Text) (dirSeason : Option Nat) :
    Agree unnamed (parseEpisodeFile folder file dirSeason raw)
      (parseEpisodeFile folder file dirSeason raw') := by
  refine .bind (splitTitleYear_raw ..) fun (title, year) => ?_
  refine .bind (.mapError rfl) fun _ => ?_
  refine .bind (splitStemExt_raw ..) fun (stem, extension) => ?_
  dsimp only
  split
  · exact .throw rfl
  · refine .guard rfl ?_
    exact .guard rfl (.refl _)

theorem parseEpisode_raw (comps : List Text) :
    Agree unnamed (parseEpisode comps raw) (parseEpisode comps raw') := by
  unfold parseEpisode
  split
  · exact parseEpisodeFile_raw ..
  · exact .ite (parseEpisodeFile_raw ..) (.throw rfl)
  · exact .throw rfl

theorem splitTrack_raw (rest : Text) :
    Agree unnamed (splitTrack rest raw) (splitTrack rest raw') := by
  unfold splitTrack
  split
  · refine .ite ?_ (.refl _)
    split
    · exact .refl _
    · exact .throw rfl
  · exact .refl _

theorem parseTrackFile_raw (artist albumFolder : Text) (disc : Option Nat) (file : Text) :
    Agree unnamed (parseTrackFile artist albumFolder disc file raw)
      (parseTrackFile artist albumFolder disc file raw') := by
  refine .bind (.mapError rfl) fun _ => ?_
  refine .bind (splitTitleYear_raw ..) fun (album, year) => ?_
  refine .bind (.mapError rfl) fun _ => ?_
  refine .bind (splitStemExt_raw ..) fun (stem, extension) => ?_
  refine .bind (splitTrack_raw ..) fun (track, title) => ?_
  refine .guard rfl ?_
  exact .bind (.mapError rfl) fun _ => .refl _

theorem parseTrack_raw (comps : List Text) :
    Agree unnamed (parseTrack comps raw) (parseTrack comps raw') := by
  unfold parseTrack
  split
  · exact parseTrackFile_raw ..
  · split
    · exact parseTrackFile_raw ..
    · exact .throw rfl
  · exact .throw rfl

theorem parseKind_raw (kind : TitleKind) (comps : List Text) :
    Agree unnamed (parseKind kind comps raw) (parseKind kind comps raw') := by
  cases kind with
  | Movie => exact parseMovie_raw ..
  | Series => exact parseEpisode_raw ..
  | Album => exact parseTrack_raw ..

end Raw

section Shapes

theorem kindDir_album {name : Text} (h : kindDir name = some .Album) : name = "music".toList := by
  unfold kindDir at h
  split at h
  · cases h
  · split at h
    · cases h
    · split at h
      · next hmusic => exact hmusic
      · cases h

theorem kindDir_folder (title : Text) (year : Nat) : kindDir (folderName title year) = none := by
  cases h : kindDir (folderName title year) with
  | none => rfl
  | some kind =>
      have hopen := folderName_open title year
      rcases kindDir_cases h with heq | heq | heq | heq <;>
        · rw [heq] at hopen
          exact absurd hopen (by decide)

-- The one rendered path whose second directory may be a kind directory as well is
-- that of an artist named like it.
theorem rendered_shape {placement : Placement} {comps : List Text}
    (h : renderComponents placement = .ok comps) :
    ∃ dir first names ext, comps = dir :: first :: names ∧
      Shape placement.kind dir (first :: names) ext ∧
      (2 < (first :: names).length → kindDir first = some placement.kind →
        first = "music".toList) := by
  cases placement with
  | Movie title year extension =>
      obtain ⟨htitle, hyear, ext, hext, rfl⟩ := render_movie h
      refine ⟨_, _, _, ext, rfl, movie_shape htitle (validateExtension_ok hext).1, fun hlen => ?_⟩
      exact absurd hlen (by simp)
  | Episode title year season episode last episodeTitle extension =>
      obtain ⟨htitle, hyear, -, hnames, ext, hext, rfl⟩ := render_episode h
      refine ⟨_, _, _, ext, rfl, episode_shape htitle hnames (validateExtension_ok hext).1,
        fun _ hdir => ?_⟩
      rw [kindDir_folder] at hdir
      cases hdir
  | Track artist album year disc track title extension =>
      obtain ⟨hartist, halbum, htitle, hyear, -, -, ext, hext, rfl⟩ := render_track h
      exact ⟨_, _, _, ext, rfl, track_shape hartist halbum htitle (validateExtension_ok hext).1,
        fun _ hdir => kindDir_album hdir⟩

variable [UnicodeTables]

-- The path of a file below its kind directory, read under a known kind.
theorem parseRemote_join {kind : TitleKind} {first : Text} {names : List Text}
    (hnames : ∀ name ∈ first :: names, IsName name) (hdots : ∀ name ∈ names, '.' ∈ name)
    (hplain : first.head? ≠ some '_')
    (hdir : ¬(2 < (first :: names).length ∧ kindDir first = some kind)) :
    parseRemote (some kind) (Text.joinWith '/' (first :: names)) =
      if hasSceneTag (first :: names) then
        .error (.LeftoverSceneTag (Text.joinWith '/' (first :: names)))
      else parseKind kind (first :: names) (Text.joinWith '/' (first :: names)) >>= keyed := by
  have hparts := components_join hnames
  have hfree : ∀ second : Text, '.' ∉ second → hasPair second (first :: names) = false :=
    fun second hdot => hasPair_of_not_mem fun hmem => hdot (hdots second hmem)
  have hbin : classifyRejectBin (Text.joinWith '/' (first :: names)) = none := by
    simp only [classifyRejectBin, hparts, normalNames_map, hfree "needs-split" (by decide),
      hfree "needs-year" (by decide), Bool.false_eq_true, if_false]
  have hnormal : (((first :: names).map Component.Normal).any
      fun c => c = .ParentDir || c = .RootDir) = false := by
    rw [List.any_eq_false]
    intro c hc
    obtain ⟨name, -, rfl⟩ := List.mem_map.mp hc
    simp
  have hhead : ((first :: names).head?.any fun c => c.head? = some '_') = false := by
    simpa using hplain
  have hselect : selectKind (some (some kind)) (first :: names)
      (Text.joinWith '/' (first :: names)) = .ok (kind, first :: names) := if_neg hdir
  simp only [parseRemote, parseInner, hbin, hparts, hnormal, normalNames_map, hhead, hselect,
    Bool.false_eq_true, if_false]
  by_cases htag : hasSceneTag (first :: names) = true
  · rw [if_pos htag]
    simp only [bind, Except.bind, htag, if_true]
    rfl
  · rw [if_neg htag]
    simp only [bind, Except.bind, htag, Bool.false_eq_true, if_false]
    rfl

theorem library_agrees {placement : Placement} {path dir rest : Text}
    (hrender : renderPlacement placement = .ok path)
    (hcut : Text.splitOnce '/' path = some (dir, rest)) (hplain : rest.head? ≠ some '_')
    (hmusic : ¬"music/".toList <+: rest) :
    Agree unnamed (parseRemote (some placement.kind) rest) (parsePlacement path) := by
  obtain ⟨comps, hcomps, rfl⟩ := renderPlacement_ok hrender
  obtain ⟨kindName, first, names, ext, rfl, hshape, hsecond⟩ := rendered_shape hcomps
  have hslash : '/' ∉ kindName := by
    rcases kindDir_cases hshape.dir with rfl | rfl | rfl | rfl <;> decide
  have hrest : rest = Text.joinWith '/' (first :: names) := by
    rw [Text.joinWith_cons _ _ (by simp), Text.splitOnce_append hslash] at hcut
    cases hcut
    rfl
  have hne := (hshape.names first List.mem_cons_self).ne
  have hfirst : rest.head? = first.head? ∧ (first = "music".toList → 2 < (first :: names).length →
      "music/".toList <+: rest) := by
    cases names with
    | nil =>
        rw [hrest]
        exact ⟨by simp [Text.joinWith], fun _ hlen => absurd hlen (by simp)⟩
    | cons second names =>
        rw [hrest, Text.joinWith_cons _ _ (by simp)]
        refine ⟨List.head?_append_of_ne_nil _ hne, ?_⟩
        rintro rfl -
        exact ⟨Text.joinWith '/' (second :: names), by simp⟩
  rw [hfirst.1] at hplain
  have hdir : ¬(2 < (first :: names).length ∧ kindDir first = some placement.kind) := by
    rintro ⟨hlen, hkind⟩
    exact hmusic (hfirst.2 (hsecond hlen hkind) hlen)
  rw [hrest, parseRemote_join hshape.names hshape.dots hplain hdir,
    parsePlacement_join hshape.dir hshape.names hshape.dots]
  refine .ite (.throw rfl) ?_
  exact .bind (parseKind_raw ..) fun _ => .refl _

end Shapes

-- The kind a path is read under does not depend on whether it was declared; and a
-- library file is read the same with and without its kind directory.
theorem kind_inference [UnicodeTables] :
    (∀ path id placement, parseRemote none path = .ok (id, placement) →
      parseRemote (some id.kind) path = .ok (id, placement)) ∧
    ∀ placement path dir rest, renderPlacement placement = .ok path →
      Text.splitOnce '/' path = some (dir, rest) → rest.head? ≠ some '_' →
      ¬"music/".toList <+: rest →
      Agree unnamed (parseRemote (some placement.kind) rest) (parsePlacement path) :=
  ⟨fun _ _ _ h => parseRemote_kind h, fun _ _ _ _ h hcut hplain => library_agrees h hcut hplain⟩

-- A film, with and without its kind directory.
example :
    let := UnicodeTables.ascii
    parseRemote (some .Movie) "Up.(2009)/Up.(2009).mkv" =
      parsePlacement "movies/Up.(2009)/Up.(2009).mkv" := by
  decide +kernel

theorem kind_inference_song :
    let := UnicodeTables.ascii
    Agree unnamed
      (parseRemote (some .Album) "Artist/Album.(1999)/Album.(1999).01.Song.flac")
      (parsePlacement "music/Artist/Album.(1999)/Album.(1999).01.Song.flac") := by
  intro _
  have hrender : renderPlacement (.Track "Artist" "Album" 1999 none (some 1) "Song" "flac") =
      .ok "music/Artist/Album.(1999)/Album.(1999).01.Song.flac".toList := by decide +kernel
  exact kind_inference.2 _ _ "music" _ hrender (by decide +kernel) (by decide) (by decide)

-- An artist named like the kind directory is taken for it, a leading underscore is
-- refused only where it leads the path, and an error names the path it was given.
theorem kind_inference_differs :
    let := UnicodeTables.ascii
    (∃ path rest, renderPlacement (.Track "music" "Album" 1999 none (some 1) "Song" "flac") =
        .ok path ∧ path = "music/".toList ++ rest ∧
      parseRemote (some .Album) rest ≠ parsePlacement path) ∧
    (∃ path rest, renderPlacement (.Movie "_A" 2000 "mkv") = .ok path ∧
      path = "movies/".toList ++ rest ∧
      parseRemote (some .Movie) rest ≠ parsePlacement path) ∧
    (∃ path rest, renderPlacement (.Movie "A" 2000 "proper") = .ok path ∧
      path = "movies/".toList ++ rest ∧
      parseRemote (some .Movie) rest ≠ parsePlacement path) := by
  refine ⟨⟨"music/music/Album.(1999)/Album.(1999).01.Song.flac".toList,
    "music/Album.(1999)/Album.(1999).01.Song.flac".toList, ?_⟩,
    ⟨"movies/_A.(2000)/_A.(2000).mkv".toList, "_A.(2000)/_A.(2000).mkv".toList, ?_⟩,
    ⟨"movies/A.(2000)/A.(2000).proper".toList, "A.(2000)/A.(2000).proper".toList, ?_⟩⟩ <;>
    decide +kernel

end Mediaops.PathSchema
