import Mediaops.Core.PathSchema
import Mediaops.Library.Text.Lemmas

namespace Mediaops.Path

-- Prefixes of paths. The library and its users compare paths by components, and
-- a rest of a path is text again.

section Components

-- After a separator every piece is read the same way.
theorem components_append_of_ne {front : Text} (h : front ≠ []) (tail : Text) :
    components (front ++ '/' :: tail) =
      components front ++ (Text.split (· == '/') tail).filterMap componentOf := by
  have hsplit : Text.split (· == '/') (front ++ '/' :: tail) =
      Text.split (· == '/') front ++ Text.split (· == '/') tail := Text.split_append (by simp) ..
  have habsolute : isAbsolute (front ++ '/' :: tail) = isAbsolute front := by
    obtain ⟨c, rest, rfl⟩ := List.exists_cons_of_ne_nil h
    rfl
  unfold components
  rw [hsplit, habsolute, List.filterMap_append]
  by_cases hroot : isAbsolute front = true
  · rw [if_pos hroot, if_pos hroot, List.cons_append]
  · rw [if_neg hroot, if_neg hroot]
    obtain ⟨first, rest, hfront⟩ := List.exists_cons_of_ne_nil (Text.split_ne_nil (· == '/') front)
    rw [hfront, List.cons_append]
    dsimp only
    rw [List.filterMap_append, ← List.append_assoc]

theorem components_slash {front : Text} (h : front ≠ []) :
    components (front ++ ['/']) = components front := by
  rw [components_append_of_ne h]
  simp [Text.split, componentOf]

-- The components of a path that is not empty, and those of what is put under it.
theorem components_join_of_ne {root tail : Text} (hroot : root ≠ [])
    (hrel : isAbsolute tail = false) :
    components (join root tail) =
      components root ++ (Text.split (· == '/') tail).filterMap componentOf := by
  unfold join
  rw [hrel, if_neg Bool.false_ne_true]
  by_cases hslash : root.getLast? = some '/'
  · obtain ⟨front, rfl⟩ := List.getLast?_eq_some_iff.mp hslash
    rw [if_pos (.inr hslash), List.append_assoc, List.singleton_append]
    by_cases hfront : front = []
    · -- The root directory alone.
      subst hfront
      simp [components, isAbsolute, Text.split, componentOf]
    · rw [components_append_of_ne hfront, components_slash hfront]
  · rw [if_neg (by simp [hroot, hslash])]
    have htext : root ++ "/".toList ++ tail = root ++ '/' :: tail := by simp
    rw [htext, components_append_of_ne hroot]

theorem components_relative {tail : Text} (hrel : isAbsolute tail = false)
    (hdot : (Text.split (· == '/') tail).head? ≠ some ".".toList) :
    components tail = (Text.split (· == '/') tail).filterMap componentOf := by
  unfold components
  rw [hrel, if_neg Bool.false_ne_true]
  obtain ⟨first, rest, hsplit⟩ := List.exists_cons_of_ne_nil (Text.split_ne_nil (· == '/') tail)
  rw [hsplit] at hdot ⊢
  dsimp only
  rw [if_neg fun h => hdot (by rw [h]; rfl)]
  cases hfirst : componentOf first with
  | none => rw [List.filterMap_cons_none hfirst]; rfl
  | some component => rw [List.filterMap_cons_some hfirst]; rfl

end Components

-- A piece that is no component.
def idle (piece : Text) : Bool := (componentOf piece).isNone

-- Walk over the pieces of a path until the given components are behind.
def dropComponents : List Component → List Text → Option (List Text)
  | [], pieces => some pieces
  | _ :: _, [] => none
  | component :: rest, piece :: pieces =>
      match componentOf piece with
      | none => dropComponents (component :: rest) pieces
      | some found => if found = component then dropComponents rest pieces else none

-- A rest of a path as text: without what is idle at its ends, and otherwise as it
-- is spelled.
def restText (pieces : List Text) : Text :=
  Text.joinWith '/' ((pieces.dropWhile idle).rdropWhile idle)

-- `Path::strip_prefix` of an absolute path. No base here is empty, so that a base
-- fits only if it is absolute as well.
def stripAbsolute (path base : Text) : Option Text :=
  match components base with
  | .RootDir :: names => (dropComponents names (Text.split (· == '/') path)).map restText
  | _ => none

section Strip

theorem dropComponents_some {wanted : List Component} {pieces rest : List Text}
    (h : dropComponents wanted pieces = some rest) :
    pieces.filterMap componentOf = wanted ++ rest.filterMap componentOf ∧ rest <:+ pieces := by
  induction wanted, pieces using dropComponents.induct with
  | case1 pieces =>
      unfold dropComponents at h
      cases h
      exact ⟨rfl, List.suffix_refl _⟩
  | case2 component wanted => cases h
  | case3 component wanted piece pieces hidle ih =>
      unfold dropComponents at h
      rw [hidle] at h
      obtain ⟨hcomponents, hsuffix⟩ := ih h
      rw [List.filterMap_cons_none hidle]
      exact ⟨hcomponents, hsuffix.trans (List.suffix_cons _ _)⟩
  | case4 component wanted piece pieces hfound ih =>
      unfold dropComponents at h
      rw [hfound] at h
      dsimp only at h
      rw [if_pos rfl] at h
      obtain ⟨hcomponents, hsuffix⟩ := ih h
      rw [List.filterMap_cons_some hfound, hcomponents]
      exact ⟨rfl, hsuffix.trans (List.suffix_cons _ _)⟩
  | case5 component wanted piece pieces found hfound hne =>
      unfold dropComponents at h
      rw [hfound] at h
      dsimp only at h
      rw [if_neg hne] at h
      cases h

theorem filterMap_dropWhile_idle (pieces : List Text) :
    (pieces.dropWhile idle).filterMap componentOf = pieces.filterMap componentOf := by
  induction pieces with
  | nil => rfl
  | cons piece rest ih =>
      by_cases h : idle piece = true
      · have hnone : componentOf piece = none := by simpa [idle] using h
        rw [List.dropWhile_cons_of_pos h, ih, List.filterMap_cons_none hnone]
      · rw [List.dropWhile_cons_of_neg h]

theorem filterMap_rdropWhile_idle (pieces : List Text) :
    (pieces.rdropWhile idle).filterMap componentOf = pieces.filterMap componentOf := by
  unfold List.rdropWhile
  rw [List.filterMap_reverse, filterMap_dropWhile_idle, ← List.filterMap_reverse,
    List.reverse_reverse]

-- The pieces of a rest are those that were kept, and its components theirs.
theorem components_restText {pieces : List Text} (h : ∀ piece ∈ pieces, '/' ∉ piece) :
    isAbsolute (restText pieces) = false ∧
      components (restText pieces) = pieces.filterMap componentOf ∧
      (Text.split (· == '/') (restText pieces)).filterMap componentOf =
        pieces.filterMap componentOf := by
  have hkept : ((pieces.dropWhile idle).rdropWhile idle).filterMap componentOf =
      pieces.filterMap componentOf := by
    rw [filterMap_rdropWhile_idle, filterMap_dropWhile_idle]
  unfold restText
  cases hpieces : (pieces.dropWhile idle).rdropWhile idle with
  | nil =>
      rw [hpieces] at hkept
      rw [← hkept]
      exact ⟨rfl, rfl, rfl⟩
  | cons first rest =>
      have hfront : (first :: rest) <+: pieces.dropWhile idle := by
        rw [← hpieces]
        exact List.rdropWhile_prefix ..
      have hmem : ∀ piece ∈ first :: rest, '/' ∉ piece := fun piece hpiece =>
        h piece ((List.dropWhile_suffix idle).subset (hfront.subset hpiece))
      have hfirst : idle first = false := by
        obtain ⟨tail, htail⟩ := hfront
        have hhead := List.head?_dropWhile_not idle pieces
        rw [← htail, List.cons_append] at hhead
        simpa using hhead
      have hsplit : Text.split (· == '/') (Text.joinWith '/' (first :: rest)) = first :: rest :=
        Text.split_joinWith (by simp) hmem
      have hcomponent : componentOf first ≠ none := by
        intro hnone
        simp [idle, hnone] at hfirst
      have hne : first ≠ [] := by
        rintro rfl
        exact hcomponent rfl
      have hdot : first ≠ ".".toList := by
        rintro rfl
        exact hcomponent rfl
      have hrel : isAbsolute (Text.joinWith '/' (first :: rest)) = false := by
        obtain ⟨c, more, rfl⟩ := List.exists_cons_of_ne_nil hne
        have hc : c ≠ '/' := fun hc => hmem _ List.mem_cons_self (hc ▸ List.mem_cons_self)
        by_cases hrest : rest = []
        · subst hrest
          simp [isAbsolute, Text.joinWith, hc]
        · rw [Text.joinWith_cons _ _ hrest]
          simp [isAbsolute, hc]
      refine ⟨hrel, ?_, ?_⟩
      · rw [components_relative hrel (by rw [hsplit]; simpa using hdot), hsplit, ← hpieces, hkept]
      · rw [hsplit, ← hpieces, hkept]

-- What `strip_prefix` finds: the path is its base and the rest.
theorem stripAbsolute_some {path base rest : Text} (habsolute : isAbsolute path = true)
    (h : stripAbsolute path base = some rest) :
    components path = components base ++ components rest ∧ isAbsolute rest = false ∧
      (Text.split (· == '/') rest).filterMap componentOf = components rest := by
  unfold stripAbsolute at h
  split at h
  · next names hbase =>
      obtain ⟨pieces, hpieces, rfl⟩ := Option.map_eq_some_iff.mp h
      obtain ⟨hcomponents, hsuffix⟩ := dropComponents_some hpieces
      have hnoSlash : ∀ piece ∈ pieces, '/' ∉ piece := by
        intro piece hpiece hslash
        have := (Text.mem_of_mem_split (hsuffix.subset hpiece) hslash).2
        simp at this
      obtain ⟨hrel, hrest, hsplit⟩ := components_restText hnoSlash
      refine ⟨?_, hrel, by rw [hsplit, hrest]⟩
      rw [hrest, hbase, List.cons_append, ← hcomponents, components, if_pos habsolute]
  · cases h

end Strip

-- Lexical resolution: a `.` falls away, and a `..` takes back the name before it.
def resolveStep (path : List Component) : Component → List Component
  | .RootDir => [.RootDir]
  | .CurDir => path
  | .Normal name => path ++ [.Normal name]
  | .ParentDir =>
      match path.getLast? with
      | some (.Normal _) => path.dropLast
      | some .RootDir => path
      | _ => path ++ [.ParentDir]

def resolve (path : List Component) : List Component := path.foldl resolveStep []

def isName : Component → Bool
  | .Normal _ => true
  | _ => false

-- A walk that never leaves the place where it starts.
def Descends (rest : List Component) : Prop :=
  ∀ front, front <+: rest → front.count .ParentDir ≤ front.countP isName

section Resolve

theorem rootDir_notMem_names {pieces : List Text} : Component.RootDir ∉ pieces.filterMap componentOf := by
  intro h
  obtain ⟨piece, -, hpiece⟩ := List.mem_filterMap.mp h
  unfold componentOf at hpiece
  split at hpiece
  · cases hpiece
  · split at hpiece <;> cases hpiece

theorem rootDir_notMem_rest {path : Text} (habsolute : isAbsolute path = true)
    {base rest : List Component} (hbase : base ≠ []) (h : components path = base ++ rest) :
    Component.RootDir ∉ rest := by
  obtain ⟨first, more, rfl⟩ := List.exists_cons_of_ne_nil hbase
  rw [components, if_pos habsolute, List.cons_append, List.cons.injEq] at h
  intro hmem
  exact rootDir_notMem_names (h.2 ▸ List.mem_append_right _ hmem)

-- As long as no front of the walk has more `..` than it has names, and those it
-- starts with, the walk only takes back names of its own.
theorem foldl_resolveStep {base rest : List Component} {names : List Text}
    (hroot : Component.RootDir ∉ rest)
    (h : ∀ front, front <+: rest →
      front.count .ParentDir ≤ front.countP isName + names.length) :
    ∃ names' : List Text, rest.foldl resolveStep (base ++ names.map .Normal) =
      base ++ names'.map .Normal := by
  induction rest generalizing names with
  | nil => exact ⟨names, rfl⟩
  | cons component rest ih =>
      have hrest : Component.RootDir ∉ rest := fun hmem => hroot (List.mem_cons_of_mem _ hmem)
      have hfront : ∀ front, front <+: rest → (component :: front).count .ParentDir ≤
          (component :: front).countP isName + names.length :=
        fun front hfront => h _ (List.prefix_cons_inj component |>.mpr hfront)
      rw [List.foldl_cons]
      cases component with
      | RootDir => exact absurd List.mem_cons_self hroot
      | CurDir =>
          refine ih hrest fun front hprefix => ?_
          simpa [isName] using hfront front hprefix
      | Normal name =>
          have hstep : resolveStep (base ++ names.map .Normal) (.Normal name) =
              base ++ (names ++ [name]).map .Normal := by simp [resolveStep]
          rw [hstep]
          refine ih hrest fun front hprefix => ?_
          have hcount := hfront front hprefix
          rw [List.count_cons_of_ne (by simp), List.countP_cons_of_pos rfl] at hcount
          simp only [List.length_append, List.length_singleton]
          omega
      | ParentDir =>
          have hsome : names ≠ [] := by
            rintro rfl
            have hcount := hfront [] (List.nil_prefix)
            rw [List.count_cons_self, List.countP_cons_of_neg (by simp [isName])] at hcount
            simp at hcount
          obtain ⟨init, last, rfl⟩ : ∃ init last, names = init ++ [last] :=
            ⟨_, _, (List.dropLast_concat_getLast hsome).symm⟩
          have hstep : resolveStep (base ++ (init ++ [last]).map .Normal) .ParentDir =
              base ++ init.map .Normal := by
            simp [resolveStep, ← List.append_assoc]
          rw [hstep]
          refine ih hrest fun front hprefix => ?_
          have hcount := hfront front hprefix
          rw [List.count_cons_self, List.countP_cons_of_neg (by simp [isName])] at hcount
          simp only [List.length_append, List.length_singleton] at hcount
          omega

-- What descends from a place resolves to the place or below it.
theorem Descends.resolve_prefix {base rest : List Component} (h : Descends rest)
    (hroot : Component.RootDir ∉ rest) : resolve base <+: resolve (base ++ rest) := by
  have hnoNames : ∀ front, front <+: rest →
      front.count .ParentDir ≤ front.countP isName + ([] : List Text).length :=
    fun front hfront => by simpa using h front hfront
  obtain ⟨names, hnames⟩ := @foldl_resolveStep (resolve base) _ _ hroot hnoNames
  rw [List.map_nil, List.append_nil] at hnames
  rw [resolve, resolve, List.foldl_append]
  rw [resolve] at hnames
  rw [hnames]
  exact List.prefix_append _ _

end Resolve

end Mediaops.Path
