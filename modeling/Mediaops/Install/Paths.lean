import Mediaops.Core.PathSchema.Parsed
import Mediaops.Install.Calls

namespace Mediaops

open Checks

namespace Path

theorem isAbsolute_of_head {path : Text} {c : Char} (h : path.head? = some c) (hc : c ≠ '/') :
    isAbsolute path = false := by
  simp [isAbsolute, h, hc]

-- The pieces after a separator are read as pieces in the middle of a path.
theorem components_append (front tail : Text) :
    ∃ before, components (front ++ '/' :: tail) =
      before ++ (Text.split (· == '/') tail).filterMap componentOf := by
  have hsplit : Text.split (· == '/') (front ++ '/' :: tail) =
      Text.split (· == '/') front ++ Text.split (· == '/') tail := Text.split_append (by simp) ..
  unfold components
  rw [hsplit]
  split
  · rw [List.filterMap_append]
    exact ⟨_ :: _, rfl⟩
  · obtain ⟨first, rest, hfront⟩ := List.exists_cons_of_ne_nil (Text.split_ne_nil (· == '/') front)
    rw [hfront, List.cons_append]
    dsimp only
    rw [List.filterMap_append, ← List.append_assoc]
    exact ⟨_, rfl⟩

theorem fileName_pieces {path name : Text} (hrel : isAbsolute path = false)
    (h : fileName path = some name) :
    ((Text.split (· == '/') path).filterMap componentOf).getLast? = some (.Normal name) := by
  have hlast : (components path).getLast? = some (.Normal name) := by
    unfold fileName at h
    split at h
    · rename_i found hfound
      cases h
      exact hfound
    · cases h
  unfold components at hlast
  rw [hrel, if_neg Bool.false_ne_true] at hlast
  obtain ⟨first, rest, hsplit⟩ := List.exists_cons_of_ne_nil (Text.split_ne_nil (· == '/') path)
  rw [hsplit] at hlast ⊢
  dsimp only at hlast
  by_cases hdot : first = ".".toList
  · subst hdot
    rw [if_pos rfl, List.getLast?_append] at hlast
    have hnone : componentOf ".".toList = none := rfl
    rw [List.filterMap_cons_none hnone]
    cases hrest : (rest.filterMap componentOf).getLast? with
    | none => rw [hrest] at hlast; cases hlast
    | some last => rw [hrest] at hlast; exact hlast
  · rw [if_neg hdot] at hlast
    rw [← hlast]
    cases hfirst : componentOf first with
    | none => rw [List.filterMap_cons_none hfirst]; rfl
    | some component => rw [List.filterMap_cons_some hfirst]; rfl

theorem fileName_join {root tail name : Text} (hrel : isAbsolute tail = false)
    (h : fileName tail = some name) : fileName (join root tail) = some name := by
  have hunder : ∀ front, fileName (front ++ '/' :: tail) = some name := by
    intro front
    obtain ⟨before, hcomponents⟩ := components_append front tail
    unfold fileName
    rw [hcomponents, List.getLast?_append, fileName_pieces hrel h]
    rfl
  unfold join
  rw [hrel, if_neg Bool.false_ne_true]
  split
  · rename_i hroot
    rcases hroot with rfl | hroot
    · exact h
    · obtain ⟨front, rfl⟩ := List.getLast?_eq_some_iff.mp hroot
      simpa using hunder front
  · simpa using hunder root

theorem join_inj {root left right : Text} (hleft : isAbsolute left = false)
    (hright : isAbsolute right = false) (h : join root left = join root right) : left = right := by
  unfold join at h
  rw [hleft, hright, if_neg Bool.false_ne_true] at h
  split at h
  · exact List.append_cancel_left h
  · exact List.append_cancel_left h

theorem join_append {root tail : Text} {c : Char} (h : tail.head? = some c) (hc : c ≠ '/')
    (more : Text) : join root tail ++ more = join root (tail ++ more) := by
  have hmore : (tail ++ more).head? = some c := by
    rw [List.head?_append, h]
    rfl
  unfold join
  rw [isAbsolute_of_head h hc, isAbsolute_of_head hmore hc, if_neg Bool.false_ne_true,
    if_neg Bool.false_ne_true]
  split
  · rw [List.append_assoc]
  · rw [List.append_assoc]

theorem head?_join {root tail : Text} {c : Char} (h : root.head? = some c)
    (htail : isAbsolute tail = false) : (join root tail).head? = some c := by
  unfold join
  rw [htail, if_neg Bool.false_ne_true]
  split
  · rw [List.head?_append, h]
    rfl
  · rw [List.append_assoc, List.head?_append, h]
    rfl

end Path

namespace PathSchema

theorem splitStemExt_dot {file raw : Text} {parts : Text × Text}
    (h : splitStemExt file raw = .ok parts) : '.' ∈ file := by
  unfold splitStemExt at h
  split at h
  · cases h
  · rename_i stem extension hsplit
    rw [(Text.rsplitOnce_some hsplit).1]
    simp

-- Every path that parses ends in a file name with an extension.
theorem parseKind_file {kind : TitleKind} {comps : List Text} {raw : Text} {placement : Placement}
    (h : parseKind kind comps raw = .ok placement) :
    ∃ file, comps.getLast? = some file ∧ '.' ∈ file := by
  cases kind with
  | Movie =>
      obtain ⟨folder, file, title, year, stem, extension, rfl, -, hstem, -⟩ := parseMovie_ok h
      exact ⟨file, rfl, splitStemExt_dot hstem⟩
  | Series =>
      obtain ⟨folder, file, dirSeason, hfile, h⟩ := parseEpisode_ok h
      obtain ⟨title, year, stem, extension, season, episode, last, after, -, -, hstem, -⟩ :=
        parseEpisodeFile_ok h
      exact ⟨file, hfile, splitStemExt_dot hstem⟩
  | Album =>
      obtain ⟨artist, albumFolder, disc, file, h, hcomps⟩ := parseTrack_ok h
      obtain ⟨album, year, stem, extension, track, title, -, -, -, hstem, -⟩ := parseTrackFile_ok h
      refine ⟨file, ?_, splitStemExt_dot hstem⟩
      rcases hcomps with ⟨rfl, -⟩ | ⟨folder, rfl, -⟩ <;> rfl

theorem normalNames_concat (init : List Component) (name : Text) :
    normalNames (init ++ [.Normal name]) = normalNames init ++ [name] := by
  simp [normalNames]

theorem components_underscore (path : Text) (h : path.head? = some '_') :
    ∃ name rest, Path.components path = .Normal name :: rest ∧ name.head? = some '_' := by
  obtain ⟨tail, rfl⟩ : ∃ tail, path = '_' :: tail := by
    cases path with
    | nil => cases h
    | cons c tail => cases h; exact ⟨tail, rfl⟩
  obtain ⟨first, rest, hsplit⟩ := List.exists_cons_of_ne_nil (Text.split_ne_nil (· == '/') tail)
  have hpieces : Text.split (· == '/') ('_' :: tail) = ('_' :: first) :: rest := by
    simp [Text.split, hsplit]
  refine ⟨'_' :: first, rest.filterMap Path.componentOf, ?_, rfl⟩
  simp [Path.components, Path.isAbsolute, hpieces, Path.componentOf]

variable [UnicodeTables]

-- A path that parses is relative, does not start with an underscore, and ends in a
-- file name with an extension.
theorem parsePlacement_shape {path : Text} {parsed : TitleId × Placement}
    (h : parsePlacement path = .ok parsed) :
    Path.isAbsolute path = false ∧ path.head? ≠ some '_' ∧
      ∀ name, Path.fileName path = some name → '.' ∈ name := by
  unfold parsePlacement parseInner at h
  cases hbin : classifyRejectBin path with
  | some bin => rw [hbin] at h; cases h
  | none =>
      rw [hbin] at h
      obtain ⟨hparts, h⟩ := guard_ok h
      obtain ⟨hhead, h⟩ := guard_ok h
      obtain ⟨⟨kind, comps⟩, hkind, h⟩ := bind_ok h
      obtain ⟨-, h⟩ := guard_ok h
      obtain ⟨placement, hparsed, -⟩ := bind_ok h
      obtain ⟨file, hfile, hdot⟩ := parseKind_file hparsed
      refine ⟨?_, ?_, ?_⟩
      · by_contra habs
        rw [Bool.not_eq_false] at habs
        apply hparts
        simp [Path.components, habs]
      · intro hunder
        obtain ⟨name, rest, hcomponents, hname⟩ := components_underscore path hunder
        apply hhead
        rw [hcomponents]
        simp [normalNames, hname]
      · intro name hname
        have hlast : (Path.components path).getLast? = some (.Normal name) := by
          unfold Path.fileName at hname
          split at hname
          · rename_i found hfound
            cases hname
            exact hfound
          · cases hname
        obtain ⟨init, hinit⟩ := List.getLast?_eq_some_iff.mp hlast
        rw [hinit, normalNames_concat] at hkind
        have hcomps : (normalNames init ++ [name]).getLast? = some file := by
          simp only [selectKind] at hkind
          split at hkind
          · cases hkind
          · rename_i first rest hnames
            split at hkind
            · cases hkind
            · cases hkind
              rw [hnames, List.getLast?_cons, hfile]
              rfl
        rw [List.getLast?_concat] at hcomps
        cases hcomps
        exact hdot

theorem stagingDir_head (titleId : TitleId) :
    (Path.join "_incoming" titleId.stagingToken).head? = some '_' := by
  refine Path.head?_join rfl ?_
  unfold TitleId.stagingToken
  cases titleId.kind <;> rfl

theorem stagingPath_ok {titleId : TitleId} {finalName path : Text}
    (h : stagingPath titleId finalName = .ok path) :
    path.head? = some '_' ∧ Path.fileName path = some finalName := by
  unfold stagingPath at h
  obtain ⟨hne, h⟩ := guard_ok h
  obtain ⟨-, h⟩ := guard_ok h
  obtain ⟨⟨⟩, hreserved, h⟩ := bind_ok h
  obtain ⟨hslash, h⟩ := guard_ok h
  cases h
  have hname : IsName finalName := by
    unfold rejectReservedComponent at hreserved
    split at hreserved
    · cases hreserved
    · rename_i hdots
      simp only [not_or] at hdots hslash
      exact ⟨hne, hslash.1, hdots.2.1, hdots.2.2⟩
  have hfile : Path.fileName finalName = some finalName := by
    have hcomponents : Path.components (Text.joinWith '/' [finalName]) = [.Normal finalName] :=
      components_join fun name hmem => by
        rw [List.mem_singleton] at hmem
        exact hmem ▸ hname
    simp only [Text.joinWith, List.intercalate_singleton] at hcomponents
    simp [Path.fileName, hcomponents]
  have hrel : Path.isAbsolute finalName = false := by
    simp only [Path.isAbsolute, decide_eq_false_iff_not]
    exact fun hhead => hname.noSlash (List.mem_of_mem_head? hhead)
  exact ⟨Path.head?_join (stagingDir_head titleId) hrel, Path.fileName_join hrel hfile⟩

end PathSchema

namespace Install

variable [UnicodeTables] {b3 : Bytes → Blake3Hex} {identity : Text → Text → Bytes} {spec : JobSpec}

theorem pullSpec_ok {pull : Transfer.PullSpec} (h : pullSpec spec = .ok pull) :
    pull.libraryRoot = spec.libraryRoot ∧ Path.fileName spec.destRel = some pull.finalName ∧
      ∃ parsed, PathSchema.parsePlacement spec.destRel = .ok parsed := by
  unfold pullSpec at h
  obtain ⟨titleId, -, h⟩ := bind_ok h
  obtain ⟨⟨id, placement⟩, hparsed, h⟩ := bind_ok h
  obtain ⟨rendered, -, h⟩ := bind_ok h
  obtain ⟨-, h⟩ := guard_ok h
  split at h
  · cases h
  · rename_i finalName hname
    split at h
    · cases h
    · cases h
      exact ⟨rfl, hname, _, mapError_ok hparsed⟩

omit [UnicodeTables] in
theorem slotData_fileName (source dest : Text) :
    Path.fileName (slotData b3 identity source dest) = some "data".toList :=
  Path.fileName_join rfl rfl

-- The library path is not one of the worker's own, and neither are the staged file
-- and the copy the same.
structure Paths.Distinct (paths : Paths) : Prop where
  dest : ¬paths.Private paths.dest
  data : paths.staging.staged ≠ paths.data

theorem pathsOf_ok {paths : Paths} (h : pathsOf b3 identity spec = .ok paths) :
    paths.dest = Path.join spec.libraryRoot spec.destRel ∧ paths.Distinct ∧
      ∃ pull, pullSpec spec = .ok pull ∧
        Transfer.StagingLayout.fromSpec pull = .ok paths.staging := by
  unfold pathsOf at h
  obtain ⟨pull, hpull, h⟩ := bind_ok h
  obtain ⟨⟨⟩, -, h⟩ := bind_ok h
  obtain ⟨staging, hstaging, h⟩ := bind_ok h
  cases h
  have hspec := mapError_ok hstaging
  obtain ⟨hroot, hname, parsed, hparsed⟩ := pullSpec_ok hpull
  obtain ⟨hrel, hhead, hext⟩ := PathSchema.parsePlacement_shape hparsed
  obtain ⟨rel, hpath, hlayout⟩ := bind_ok hspec
  obtain ⟨hunder, hfile⟩ := PathSchema.stagingPath_ok (mapError_ok hpath)
  cases hlayout
  rw [hroot] at *
  have hrel' : Path.isAbsolute rel = false := Path.isAbsolute_of_head hunder (by decide)
  -- A file name with an extension is not `data`.
  have hdata : ∀ path source dest, Path.fileName path = some pull.finalName →
      path ≠ slotData b3 identity source dest := by
    rintro path source dest hpathName rfl
    rw [slotData_fileName, Option.some_inj] at hpathName
    have hdot := hext _ hname
    rw [← hpathName] at hdot
    exact absurd hdot (by decide)
  have hstart : ∀ path, path.head? = some '_' →
      Path.join spec.libraryRoot spec.destRel ≠ Path.join spec.libraryRoot path := by
    intro path hpath he
    have hsame := Path.join_inj hrel (Path.isAbsolute_of_head hpath (by decide)) he
    rw [hsame] at hhead
    exact hhead hpath
  refine ⟨rfl, ⟨?_, hdata _ _ _ (Path.fileName_join hrel' hfile)⟩, pull, hpull, hspec⟩
  rintro ((hstaged | hsuffixed) | hslot)
  · exact hstart rel hunder hstaged
  · refine hstart (rel ++ ".partial".toList) (by rw [List.head?_append, hunder]; rfl) ?_
    rw [← Path.join_append hunder (by decide)]
    exact hsuffixed
  · exact hdata _ _ _ (Path.fileName_join hrel hname) hslot

end Install

end Mediaops
