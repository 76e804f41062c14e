import Mediaops.Core.PathSchema.Inference
import Mediaops.Install.Paths

namespace Mediaops

-- The staging files of two files of one title, and which of them are the same.

open Checks

namespace PathSchema

section FileNames

-- A character that may stand in the name of a staged file.
def isFileChar (c : Char) : Bool :=
  !Text.isWhitespace c && c != '\x00' && c != '/' && c != '\\'

def Fitting (text : Text) : Prop := ∀ c ∈ text, isFileChar c = true

theorem Fitting.append {left right : Text} :
    Fitting (left ++ right) ↔ Fitting left ∧ Fitting right := by
  simp [Fitting, or_imp, forall_and]

theorem not_whitespace_of_alphanum {c : Char} (h : c.isAlphanum = true) :
    Text.isWhitespace c = false := by
  have hbounds := (Text.isAlphanum_iff c).mp h
  have hval : c.val.toNat = c.toNat := rfl
  simp only [Text.isWhitespace, Bool.or_eq_false_iff, Bool.and_eq_false_iff, beq_eq_false_iff_ne,
    decide_eq_false_iff_not, ne_eq, ← UInt32.toNat_inj, UInt32.le_iff_toNat_le, hval,
    UInt32.reduceToNat]
  omega

theorem Fitting.alphanum {text : Text} (h : ∀ c ∈ text, c.isAlphanum = true) : Fitting text := by
  intro c hc
  have hne : ∀ d : Char, d.isAlphanum = false → c ≠ d := by
    rintro d hd rfl
    rw [h c hc] at hd
    cases hd
  simp [isFileChar, not_whitespace_of_alphanum (h c hc), hne '\x00' (by decide),
    hne '/' (by decide), hne '\\' (by decide)]

theorem Fitting.decimal (n : Nat) : Fitting (Text.decimal n) :=
  .alphanum fun c hc => by simp [Char.isAlphanum, Text.isDigit_decimal hc]

theorem Fitting.decimal02 (n : Nat) : Fitting (Text.decimal02 n) :=
  .alphanum fun _ hc => isAlphanum_decimal02 hc

theorem DisplayToken.fitting {token : Text} (h : DisplayToken token) : Fitting token := by
  intro c hc
  have hne : ∀ d : Char, d ∉ token → c ≠ d := by
    rintro d hd rfl
    exact hd hc
  simp [isFileChar, h.plain c hc, hne '\x00' h.noNul, hne '/' h.noSlash, hne '\\' h.noBackslash]

theorem fitting_dot : Fitting ".".toList := Text.every (by decide)

theorem fitting_folder {title : Text} (h : DisplayToken title) (year : Nat) :
    Fitting (folderName title year) := by
  have hopen : Fitting ".(".toList := Text.every (by decide)
  have hclose : Fitting ")".toList := Text.every (by decide)
  simp only [folderName, Fitting.append]
  exact ⟨⟨⟨h.fitting, hopen⟩, .decimal year⟩, hclose⟩

theorem fitting_tag (season episode : Nat) (last : Option Nat) :
    Fitting (renderEpisodeTag season episode last) := by
  have hs : Fitting "S".toList := Text.every (by decide)
  have he : Fitting "E".toList := Text.every (by decide)
  have hdash : Fitting "-E".toList := Text.every (by decide)
  cases last with
  | none =>
      simp only [renderEpisodeTag, Fitting.append]
      exact ⟨⟨⟨⟨hs, .decimal02 season⟩, he⟩, .decimal02 episode⟩, by simp [Fitting]⟩
  | some n =>
      simp only [renderEpisodeTag, Fitting.append]
      exact ⟨⟨⟨⟨hs, .decimal02 season⟩, he⟩, .decimal02 episode⟩, hdash, .decimal02 n⟩

-- The file name of a rendered path.
theorem rendered_file {placement : Placement} {comps : List Text}
    (h : renderComponents placement = .ok comps) :
    ∃ init file, comps = init ++ [file] ∧ Fitting file ∧ '.' ∈ file := by
  cases placement with
  | Movie title year extension =>
      obtain ⟨htitle, -, ext, hext, rfl⟩ := render_movie h
      have hextension : Fitting ext := .alphanum (validateExtension_ok hext).1.alphanum
      refine ⟨[_, _], _, rfl, ?_, by simp⟩
      simp only [Fitting.append]
      exact ⟨⟨fitting_folder htitle year, fitting_dot⟩, hextension⟩
  | Episode title year season episode last episodeTitle extension =>
      obtain ⟨htitle, -, -, hnames, ext, hext, rfl⟩ := render_episode h
      have hextension : Fitting ext := .alphanum (validateExtension_ok hext).1.alphanum
      have hsuffix : Fitting (titleSuffix episodeTitle) := by
        unfold titleSuffix
        cases hname : episodeTitle.filter (· ≠ []) with
        | none => simp [Fitting]
        | some name =>
            have hparts : Fitting (".".toList ++ name) :=
              Fitting.append.mpr ⟨fitting_dot, (hnames name hname).fitting⟩
            exact hparts
      refine ⟨[_, _, _], _, rfl, ?_, by simp⟩
      simp only [Fitting.append]
      exact ⟨⟨⟨⟨⟨fitting_folder htitle year, fitting_dot⟩, fitting_tag season episode last⟩, hsuffix⟩, fitting_dot⟩,
        hextension⟩
  | Track artist album year disc track title extension =>
      obtain ⟨-, halbum, htitle, -, -, -, ext, hext, rfl⟩ := render_track h
      have hextension : Fitting ext := .alphanum (validateExtension_ok hext).1.alphanum
      have hnumber : Fitting (trackNumber track) := by
        cases track with
        | none => simp [trackNumber, Fitting]
        | some n => exact Fitting.append.mpr ⟨.decimal02 n, fitting_dot⟩
      refine ⟨_, _, rfl, ?_, by simp⟩
      simp only [Fitting.append]
      exact ⟨⟨⟨⟨⟨fitting_folder halbum year, fitting_dot⟩, hnumber⟩, htitle.fitting⟩, fitting_dot⟩,
        hextension⟩

end FileNames

end PathSchema

namespace Transfer

section Names

def StagingLayout.files (layout : StagingLayout) : List Text :=
  [layout.staged, layout.partialPath, layout.sidecar]

-- The names under which the files of a layout are staged.
def stagedNames (name : Text) : List Text :=
  [name, name ++ ".partial".toList, name ++ ".partial.b3".toList]

theorem not_disjoint_files (layout : StagingLayout) : ¬layout.files.Disjoint layout.files :=
  fun h => h List.mem_cons_self List.mem_cons_self

-- Neither name is the other, nor the other with a suffix of the staging area.
def Separate (name name' : Text) : Prop :=
  name ≠ name' ∧ ∀ suffix ∈ [".partial".toList, ".partial.b3".toList],
    name ≠ name' ++ suffix ∧ name' ≠ name ++ suffix

theorem isAbsolute_of_fitting {name : Text} (h : PathSchema.Fitting name) :
    Path.isAbsolute name = false := by
  simp only [Path.isAbsolute, decide_eq_false_iff_not]
  intro hhead
  exact absurd (h '/' (List.mem_of_mem_head? hhead)) (by decide)

theorem fitting_staged {name : Text} (h : PathSchema.Fitting name) :
    ∀ staged ∈ stagedNames name, PathSchema.Fitting staged := by
  have hdata : PathSchema.Fitting ".partial".toList := Text.every (by decide)
  have hsidecar : PathSchema.Fitting ".partial.b3".toList := Text.every (by decide)
  simp only [stagedNames, List.mem_cons, List.not_mem_nil, or_false, forall_eq_or_imp, forall_eq]
  exact ⟨h, PathSchema.Fitting.append.mpr ⟨h, hdata⟩, PathSchema.Fitting.append.mpr ⟨h, hsidecar⟩⟩

-- Of two suffixes one ends in a letter, the other in a digit.
theorem disjoint_stagedNames (name name' : Text) :
    (stagedNames name).Disjoint (stagedNames name') ↔ Separate name name' := by
  have hmixed : ∀ text text' : Text, text ++ ".partial".toList ≠ text' ++ ".partial.b3".toList := by
    intro text text' h
    have hlast := congrArg List.getLast? h
    simp at hlast
  have hmixed' : ∀ text text' : Text, text ++ ".partial.b3".toList ≠ text' ++ ".partial".toList :=
    fun text text' h => hmixed text' text h.symm
  simp only [List.disjoint_left, stagedNames, Separate, List.mem_cons, List.not_mem_nil, or_false,
    forall_eq_or_imp, forall_eq, not_or, List.append_left_inj, hmixed, hmixed', not_false_eq_true,
    true_and, and_true]
  constructor
  · rintro ⟨⟨hne, hdata, hsidecar⟩, ⟨hdata', -⟩, hsidecar', -⟩
    exact ⟨hne, ⟨hdata, fun h => hdata' h.symm⟩, hsidecar, fun h => hsidecar' h.symm⟩
  · rintro ⟨hne, ⟨hdata, hdata'⟩, hsidecar, hsidecar'⟩
    exact ⟨⟨hne, hdata, hsidecar⟩, ⟨fun h => hdata' h.symm, hne⟩,
      fun h => hsidecar' h.symm, hne⟩

end Names

variable [UnicodeTables]

-- Where a name of the title is staged.
def stagingPlace (root : Text) (titleId : TitleId) (name : Text) : Text :=
  Path.join root (Path.join (Path.join "_incoming" titleId.stagingToken) name)

theorem stagingPath_fitting {titleId : TitleId} {name : Text} (hfit : PathSchema.Fitting name)
    (hname : PathSchema.IsName name) : PathSchema.stagingPath titleId name =
      .ok (Path.join (Path.join "_incoming" titleId.stagingToken) name) := by
  have hfree : ∀ c : Char, PathSchema.isFileChar c = false → c ∉ name := by
    intro c hc hmem
    rw [hfit c hmem] at hc
    cases hc
  have hspace : ¬name.any Text.isWhitespace = true := by
    simp only [List.any_eq_true, not_exists, not_and, Bool.not_eq_true]
    intro c hc
    have hchar := hfit c hc
    simp only [PathSchema.isFileChar, Bool.and_eq_true, Bool.not_eq_true'] at hchar
    exact hchar.1.1.1
  have hreserved : PathSchema.rejectReservedComponent name = .ok () := if_neg (by
    simp only [not_or]
    exact ⟨hfree _ (by decide), hname.notDot, hname.notDots⟩)
  have hslash : ¬('/' ∈ name ∨ '\\' ∈ name) := by
    simp only [not_or]
    exact ⟨hfree _ (by decide), hfree _ (by decide)⟩
  unfold PathSchema.stagingPath
  simp only [hname.ne, hspace, hreserved, hslash, if_false]
  rfl

theorem stagingRel_head (titleId : TitleId) {name : Text} (h : PathSchema.Fitting name) :
    (Path.join (Path.join "_incoming" titleId.stagingToken) name).head? = some '_' :=
  Path.head?_join (PathSchema.stagingDir_head titleId) (isAbsolute_of_fitting h)

theorem stagingPlace_inj {root : Text} {titleId : TitleId} {name name' : Text}
    (h : PathSchema.Fitting name) (h' : PathSchema.Fitting name') :
    stagingPlace root titleId name = stagingPlace root titleId name' ↔ name = name' := by
  constructor
  · intro hsame
    have hrel := Path.isAbsolute_of_head (stagingRel_head titleId h) (by decide)
    have hrel' := Path.isAbsolute_of_head (stagingRel_head titleId h') (by decide)
    exact Path.join_inj (isAbsolute_of_fitting h) (isAbsolute_of_fitting h')
      (Path.join_inj hrel hrel' hsame)
  · rintro rfl
    rfl

-- A suffix is put behind the name.
theorem stagingPlace_append {root : Text} {titleId : TitleId} {name : Text}
    (h : PathSchema.Fitting name) (hne : name ≠ []) (suffix : Text) :
    stagingPlace root titleId name ++ suffix = stagingPlace root titleId (name ++ suffix) := by
  obtain ⟨c, rest, rfl⟩ := List.exists_cons_of_ne_nil hne
  have hc : c ≠ '/' := by
    rintro rfl
    exact absurd (h '/' List.mem_cons_self) (by decide)
  unfold stagingPlace
  rw [Path.join_append (stagingRel_head titleId h) (by decide), Path.join_append rfl hc]

theorem fromSpec_fitting {spec : PullSpec} (hfit : PathSchema.Fitting spec.finalName)
    (hname : PathSchema.IsName spec.finalName) :
    StagingLayout.fromSpec spec =
      .ok (.fromStaged (stagingPlace spec.libraryRoot spec.titleId spec.finalName)) := by
  unfold StagingLayout.fromSpec
  rw [stagingPath_fitting hfit hname]
  rfl

theorem files_fromStaged {root : Text} {titleId : TitleId} {name : Text}
    (h : PathSchema.Fitting name) (hne : name ≠ []) :
    (StagingLayout.fromStaged (stagingPlace root titleId name)).files =
      (stagedNames name).map (stagingPlace root titleId) := by
  simp only [StagingLayout.files, StagingLayout.fromStaged, stagedNames, List.map_cons,
    List.map_nil, stagingPlace_append h hne]

theorem rendered_fits {titleId : TitleId} {placement : Placement} {dest name : Text}
    (h : PathSchema.render titleId placement = .ok dest) (hname : Path.fileName dest = some name) :
    PathSchema.Fitting name ∧ PathSchema.IsName name ∧ '.' ∈ name := by
  obtain ⟨-, h⟩ := ite_ok h
  obtain ⟨comps, hcomps, rfl⟩ := PathSchema.renderPlacement_ok h
  obtain ⟨init, file, rfl, hfit, hdot⟩ := PathSchema.rendered_file hcomps
  obtain ⟨dir, first, names, ext, hshape, hnames, -⟩ := PathSchema.rendered_shape hcomps
  have hall : ∀ part ∈ init ++ [file], PathSchema.IsName part := by
    rw [hshape]
    intro part hpart
    rcases List.mem_cons.mp hpart with rfl | hpart
    · rcases PathSchema.kindDir_cases hnames.dir with rfl | rfl | rfl | rfl <;>
        constructor <;> decide
    · exact hnames.names part hpart
  have hfile : file = name := by
    simpa [Path.fileName, PathSchema.components_join hall] using hname
  rw [← hfile]
  exact ⟨hfit, hall file (by simp), hdot⟩

-- Two files of one title are staged apart exactly when their names, with the
-- suffixes of the staging area, are all different: the directories of their
-- destinations do not count.
theorem staging_separation {titleId : TitleId} {placement placement' : Placement}
    {dest dest' : Text} {spec spec' : PullSpec}
    (hdest : PathSchema.render titleId placement = .ok dest)
    (hdest' : PathSchema.render titleId placement' = .ok dest')
    (hname : Path.fileName dest = some spec.finalName)
    (hname' : Path.fileName dest' = some spec'.finalName)
    (htitle : spec.titleId = titleId) (htitle' : spec'.titleId = titleId)
    (hroot : spec'.libraryRoot = spec.libraryRoot) :
    ∃ layout layout', StagingLayout.fromSpec spec = .ok layout ∧
      StagingLayout.fromSpec spec' = .ok layout' ∧
      (layout.files.Disjoint layout'.files ↔ Separate spec.finalName spec'.finalName) := by
  obtain ⟨hfit, hisName, -⟩ := rendered_fits hdest hname
  obtain ⟨hfit', hisName', -⟩ := rendered_fits hdest' hname'
  refine ⟨_, _, fromSpec_fitting hfit hisName, fromSpec_fitting hfit' hisName', ?_⟩
  rw [files_fromStaged hfit hisName.ne, files_fromStaged hfit' hisName'.ne, htitle, htitle', hroot,
    ← disjoint_stagedNames]
  have hfits := fitting_staged hfit
  have hfits' := fitting_staged hfit'
  constructor
  · intro h text htext htext'
    exact h (List.mem_map_of_mem htext) (List.mem_map_of_mem htext')
  · intro h place hplace hplace'
    obtain ⟨text, htext, rfl⟩ := List.mem_map.mp hplace
    obtain ⟨text', htext', hsame⟩ := List.mem_map.mp hplace'
    rw [stagingPlace_inj (hfits' text' htext') (hfits text htext)] at hsame
    exact h htext (hsame ▸ htext')

end Transfer

namespace Transfer.StagedSample

def album : @TitleId UnicodeTables.ascii :=
  @TitleId.mk UnicodeTables.ascii .Album .Key "artist.album" PathSchema.Sample.album_pair (by decide)
    (by simp)

def show_ : @TitleId UnicodeTables.ascii := PathSchema.Sample.series

def remote : RemoteRef := ⟨"seed", "file", by decide⟩

def spec (titleId : @TitleId UnicodeTables.ascii) (finalName : Text) :
    @PullSpec UnicodeTables.ascii :=
  @PullSpec.mk UnicodeTables.ascii "/library" titleId finalName remote 1 1 1

def song (disc : Nat) : Placement :=
  .Track "Artist" "Album" 1999 (some disc) (some 1) "Intro" "flac"

def episode (number : Nat) : Placement := .Episode "Show" 2000 1 number none none "mkv"

end Transfer.StagedSample

namespace Transfer

open StagedSample

theorem staging_separation_episodes :
    let := UnicodeTables.ascii
    ∃ layout layout',
      StagingLayout.fromSpec (spec show_ "Show.(2000).S01E01.mkv") = .ok layout ∧
      StagingLayout.fromSpec (spec show_ "Show.(2000).S01E02.mkv") = .ok layout' ∧
      layout.files.Disjoint layout'.files := by
  intro _
  have hdest : PathSchema.render show_ (episode 1) =
      .ok "series/Show.(2000)/Season.01/Show.(2000).S01E01.mkv".toList := by decide +kernel
  have hdest' : PathSchema.render show_ (episode 2) =
      .ok "series/Show.(2000)/Season.01/Show.(2000).S01E02.mkv".toList := by decide +kernel
  have hseparate : Separate "Show.(2000).S01E01.mkv" "Show.(2000).S01E02.mkv" := by
    constructor <;> decide
  have hroot : ∀ name name', (spec show_ name').libraryRoot = (spec show_ name).libraryRoot :=
    fun _ _ => rfl
  have hname : Path.fileName "series/Show.(2000)/Season.01/Show.(2000).S01E01.mkv" =
      some (spec show_ "Show.(2000).S01E01.mkv").finalName := by decide +kernel
  have hname' : Path.fileName "series/Show.(2000)/Season.01/Show.(2000).S01E02.mkv" =
      some (spec show_ "Show.(2000).S01E02.mkv").finalName := by decide +kernel
  obtain ⟨layout, layout', h, h', hiff⟩ :=
    staging_separation hdest hdest' hname hname' rfl rfl (hroot _ _)
  exact ⟨layout, layout', h, h', hiff.mpr hseparate⟩

-- Two discs of an album: one staged file for two destinations.
theorem staging_shared_discs :
    let := UnicodeTables.ascii
    ∃ dest dest' name layout, PathSchema.render album (song 1) = .ok dest ∧
      PathSchema.render album (song 2) = .ok dest' ∧ dest ≠ dest' ∧
      Path.fileName dest = some name ∧ Path.fileName dest' = some name ∧
      StagingLayout.fromSpec (spec album name) = .ok layout ∧
      ¬layout.files.Disjoint layout.files := by
  intro _
  refine ⟨"music/Artist/Album.(1999)/Disc.01/Album.(1999).01.Intro.flac".toList,
    "music/Artist/Album.(1999)/Disc.02/Album.(1999).01.Intro.flac".toList,
    "Album.(1999).01.Intro.flac".toList,
    .fromStaged "/library/_incoming/album-key-artist.album/Album.(1999).01.Intro.flac".toList,
    ?_, ?_, ?_, ?_, ?_, ?_, not_disjoint_files _⟩ <;>
    decide +kernel

end Transfer

end Mediaops
