import Mediaops.Core.PathSchema.Theorems
import Mediaops.HomeLibrary
import Mediaops.Install.Paths

namespace Mediaops

-- The paths under the library root: what a rendered path is made of, and what
-- `strip_prefix` makes of the root put before it.

namespace Path

section Strip

-- The components of the first pieces are behind, up to idle ones.
theorem dropComponents_append (pieces rest : List Text) :
    ∃ trail : List Text, (∀ piece ∈ trail, idle piece = true) ∧
      dropComponents (pieces.filterMap componentOf) (pieces ++ rest) = some (trail ++ rest) := by
  induction pieces with
  | nil => exact ⟨[], nofun, by simp [dropComponents]⟩
  | cons piece pieces ih =>
      obtain ⟨trail, htrail, hdropped⟩ := ih
      cases hpiece : componentOf piece with
      | some component =>
          refine ⟨trail, htrail, ?_⟩
          rw [List.filterMap_cons_some hpiece, List.cons_append, dropComponents, hpiece]
          simpa using hdropped
      | none =>
          rw [List.filterMap_cons_none hpiece]
          have hidle : idle piece = true := by
            unfold idle
            rw [hpiece]
            rfl
          cases hwanted : pieces.filterMap componentOf with
          | nil =>
              have hall : ∀ p ∈ piece :: pieces, idle p = true := by
                intro p hp
                rcases List.mem_cons.mp hp with rfl | hp
                · exact hidle
                · unfold idle
                  rw [List.filterMap_eq_nil_iff.mp hwanted p hp]
                  rfl
              exact ⟨piece :: pieces, hall, rfl⟩
          | cons component wanted =>
              refine ⟨trail, htrail, ?_⟩
              rw [List.cons_append, dropComponents, hpiece]
              rw [hwanted] at hdropped
              exact hdropped

theorem restText_append {trail rest : List Text} (htrail : ∀ piece ∈ trail, idle piece = true)
    (hrest : ∀ piece ∈ rest, idle piece = false) :
    restText (trail ++ rest) = Text.joinWith '/' rest := by
  have hfront : (trail ++ rest).dropWhile idle = rest := by
    rw [List.dropWhile_append_of_pos htrail]
    cases rest with
    | nil => rfl
    | cons piece rest =>
        rw [List.dropWhile_cons_of_neg]
        rw [hrest piece List.mem_cons_self]
        exact Bool.false_ne_true
  have hback : rest.rdropWhile idle = rest := by
    rw [List.rdropWhile_eq_self_iff]
    intro hne
    rw [hrest _ (List.getLast_mem hne)]
    exact Bool.false_ne_true
  rw [restText, hfront, hback]

theorem stripAbsolute_join {root : Text} {names : List Text} (hroot : isAbsolute root = true)
    (hne : names ≠ []) (hnames : ∀ name ∈ names, PathSchema.IsName name) :
    stripAbsolute (join root (Text.joinWith '/' names)) root = some (Text.joinWith '/' names) := by
  have hsplit : Text.split (· == '/') (Text.joinWith '/' names) = names :=
    Text.split_joinWith hne fun name hname => (hnames name hname).noSlash
  have hidle : ∀ piece ∈ names, idle piece = false := by
    intro piece hpiece
    unfold idle
    rw [(hnames piece hpiece).component]
    rfl
  obtain ⟨front, hjoin, hcomponents⟩ : ∃ front : Text,
      join root (Text.joinWith '/' names) = front ++ '/' :: Text.joinWith '/' names ∧
        components root = .RootDir :: (Text.split (· == '/') front).filterMap componentOf := by
    have hrel : isAbsolute (Text.joinWith '/' names) = false := by
      have hparts := PathSchema.components_join hnames
      cases habsolute : isAbsolute (Text.joinWith '/' names) with
      | false => rfl
      | true =>
          rw [components, if_pos habsolute] at hparts
          cases names with
          | nil => cases hparts
          | cons name names => cases hparts
    have hne : root ≠ [] := by
      rintro rfl
      cases hroot
    unfold join
    rw [hrel, if_neg Bool.false_ne_true]
    by_cases hslash : root.getLast? = some '/'
    · obtain ⟨front, rfl⟩ := List.getLast?_eq_some_iff.mp hslash
      refine ⟨front, by rw [if_pos (.inr hslash)]; simp, ?_⟩
      have hpieces : Text.split (· == '/') (front ++ ['/']) =
          Text.split (· == '/') front ++ Text.split (· == '/') [] := Text.split_append (by simp) ..
      rw [components, if_pos hroot, hpieces, List.filterMap_append]
      simp [Text.split, componentOf]
    · refine ⟨root, by rw [if_neg (by simp [hne, hslash])]; simp, ?_⟩
      rw [components, if_pos hroot]
  have hpieces : Text.split (· == '/') (front ++ '/' :: Text.joinWith '/' names) =
      Text.split (· == '/') front ++ names := by
    rw [Text.split_append (by simp), hsplit]
  obtain ⟨trail, htrail, hdropped⟩ := dropComponents_append (Text.split (· == '/') front) names
  unfold stripAbsolute
  rw [hcomponents, hjoin, hpieces]
  dsimp only
  rw [hdropped, Option.map_some, restText_append htrail hidle]

end Strip

end Path

namespace PathSchema

theorem isName_kindDir {dir : Text} {kind : TitleKind} (h : kindDir dir = some kind) : IsName dir := by
  rcases kindDir_cases h with rfl | rfl | rfl | rfl
  · constructor <;> decide
  · constructor <;> decide
  · constructor <;> decide
  · constructor <;> decide

theorem Shape.all {kind : TitleKind} {dir ext : Text} {rest : List Text} (h : Shape kind dir rest ext) :
    ∀ name ∈ dir :: rest, IsName name := by
  intro name hname
  rcases List.mem_cons.mp hname with rfl | hname
  · exact isName_kindDir h.dir
  · exact h.names name hname

theorem renderPlacement_names {placement : Placement} {path : Text}
    (h : renderPlacement placement = .ok path) : ∃ names : List Text, path = Text.joinWith '/' names ∧
      names ≠ [] ∧ ∀ name ∈ names, IsName name := by
  obtain ⟨comps, hcomps, rfl⟩ := renderPlacement_ok h
  refine ⟨comps, rfl, ?_⟩
  cases placement with
  | Movie title year extension =>
      obtain ⟨htitle, -, ext, hext, rfl⟩ := render_movie hcomps
      exact ⟨by simp, (movie_shape htitle (validateExtension_ok hext).1).all⟩
  | Episode title year season episode episodeEnd episodeTitle extension =>
      obtain ⟨htitle, -, -, hnames, ext, hext, rfl⟩ := render_episode hcomps
      exact ⟨by simp, (episode_shape htitle hnames (validateExtension_ok hext).1).all⟩
  | Track artist album year disc track title extension =>
      obtain ⟨hartist, halbum, htitle, -, -, -, ext, hext, rfl⟩ := render_track hcomps
      refine ⟨by simp, ?_⟩
      exact (track_shape hartist halbum htitle (validateExtension_ok hext).1).all

end PathSchema

namespace HomeLibrary

variable [UnicodeTables]

-- A path as every writer of the program spells it.
def Spelled (path : Text) : Prop :=
  ∃ key placement, PathSchema.parsePlacement path = .ok (key, placement) ∧
    PathSchema.renderPlacement placement = .ok path

theorem Spelled.relative {path : Text} (h : Spelled path) : Path.isAbsolute path = false := by
  obtain ⟨key, placement, hparsed, -⟩ := h
  exact (PathSchema.parsePlacement_shape hparsed).1

theorem Spelled.schemaRelative {path : Text} (h : Spelled path) (root : Text) :
    schemaRelative root path = .ok path := by
  have hrel := h.relative
  obtain ⟨key, placement, hparsed, hrendered⟩ := h
  unfold HomeLibrary.schemaRelative
  rw [hrel]
  simp [hparsed, hrendered, Except.mapError, Path.equal, bind, Except.bind, pure, Except.pure]

theorem Spelled.strip {root path : Text} (h : Spelled path) (hroot : Path.isAbsolute root = true) :
    Path.stripAbsolute (Path.join root path) root = some path := by
  obtain ⟨key, placement, -, hrendered⟩ := h
  obtain ⟨names, rfl, hne, hnames⟩ := PathSchema.renderPlacement_names hrendered
  exact Path.stripAbsolute_join hroot hne hnames

end HomeLibrary

end Mediaops
