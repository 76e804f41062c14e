import Mediaops.Core.Paths
import Mediaops.TitleIndex.Theorems

namespace Mediaops.TitleIndex

-- The relocation of the index: rows with absolute paths follow a library that was
-- moved. They are written one after the other, in the order of the listing.

open Tx

def trimTrailingSlashes (s : Text) : Text :=
  if s = "/".toList then s else Text.trimEndMatches (· == '/') s

def rewriteAbsoluteUnder (path oldRoot newRoot : Text) : Option Text :=
  if !Path.isAbsolute path then none
  else
    let old := trimTrailingSlashes oldRoot
    let new := trimTrailingSlashes newRoot
    if old = [] ∨ old = "/".toList ∨ new = [] ∨ new = "/".toList then none
    else if Path.equal path old then some new
    else match Path.stripAbsolute path old with
      | none => none
      | some rest =>
          if Component.ParentDir ∈ Path.components rest then none else some (Path.join new rest)

def renamed (path newPath : Text) (row : Row) : Option Row :=
  if row.path = path then some { row with path := newPath } else none

section

variable [UnicodeTables]

def rewriteRows (oldRoot newRoot : Text) : List TitleIndexEntry → IndexTx Nat
  | [] => pure 0
  | entry :: rest =>
      match rewriteAbsoluteUnder entry.path oldRoot newRoot with
      | none => rewriteRows oldRoot newRoot rest
      | some newPath => do
          let _ ← execute sqliteFault (update (renamed entry.path newPath))
          let rewritten ← rewriteRows oldRoot newRoot rest
          pure (rewritten + 1)

def rewriteAbsolutePrefix (oldRoot newRoot : Text) : IndexTx Nat := do
  if oldRoot = [] ∨ oldRoot = newRoot then pure 0
  else
    let rows ← listTitles
    atomically sqliteFault (rewriteRows oldRoot newRoot rows)

end

section Paths

theorem components_trimTrailingSlashes {s : Text} (h : trimTrailingSlashes s ≠ []) :
    Path.components (trimTrailingSlashes s) = Path.components s := by
  unfold trimTrailingSlashes at h ⊢
  by_cases hroot : s = "/".toList
  · rw [if_pos hroot]
  · rw [if_neg hroot] at h ⊢
    clear hroot
    unfold Text.trimEndMatches at h ⊢
    induction s using List.reverseRecOn with
    | nil => rfl
    | append_singleton front c ih =>
        by_cases hc : (c == '/') = true
        · rw [List.rdropWhile_concat, if_pos hc] at h ⊢
          have hfront : front ≠ [] := by
            rintro rfl
            exact h rfl
          obtain rfl : c = '/' := by simpa using hc
          rw [ih h, Path.components_slash hfront]
        · rw [List.rdropWhile_concat, if_neg hc]

-- Only an absolute path under the old root is rewritten, to a path under the new one.
theorem rewriteAbsoluteUnder_some {path oldRoot newRoot newPath : Text}
    (h : rewriteAbsoluteUnder path oldRoot newRoot = some newPath) :
    Path.isAbsolute path = true ∧ Path.components oldRoot <+: Path.components path ∧
      Path.components newRoot <+: Path.components newPath ∧ newPath ≠ [] := by
  unfold rewriteAbsoluteUnder at h
  by_cases habsolute : Path.isAbsolute path = true
  swap
  · rw [if_pos (by simpa using habsolute)] at h
    cases h
  rw [if_neg (by simpa using habsolute)] at h
  dsimp only at h
  split at h
  · cases h
  next hroots =>
    simp only [not_or] at hroots
    obtain ⟨hold, -, hnew, -⟩ := hroots
    refine ⟨habsolute, ?_⟩
    by_cases hequal : Path.equal path (trimTrailingSlashes oldRoot) = true
    · rw [if_pos hequal] at h
      cases h
      have hsame : Path.components path = Path.components (trimTrailingSlashes oldRoot) := by
        simpa [Path.equal] using hequal
      rw [hsame, components_trimTrailingSlashes hold, components_trimTrailingSlashes hnew]
      exact ⟨List.prefix_refl _, List.prefix_refl _, hnew⟩
    · rw [if_neg hequal] at h
      split at h
      · cases h
      next rest hrest =>
        split at h
        · cases h
        · cases h
          obtain ⟨hcomponents, hrel, -⟩ := Path.stripAbsolute_some habsolute hrest
          rw [hcomponents, components_trimTrailingSlashes hold,
            Path.components_join_of_ne hnew hrel, components_trimTrailingSlashes hnew]
          refine ⟨List.prefix_append _ _, List.prefix_append _ _, ?_⟩
          unfold Path.join
          rw [hrel, if_neg Bool.false_ne_true]
          split <;> simp [hnew]

end Paths

-- The simultaneous rewrite: every row at once.
def moved (oldRoot newRoot : Text) (row : Row) : Row :=
  match rewriteAbsoluteUnder row.path oldRoot newRoot with
  | some newPath => { row with path := newPath }
  | none => row

def relocated (oldRoot newRoot : Text) (rows : List Row) : List Row :=
  rows.map (moved oldRoot newRoot)

def rewrittenCount (oldRoot newRoot : Text) (rows : List Row) : Nat :=
  rows.countP fun row => (rewriteAbsoluteUnder row.path oldRoot newRoot).isSome

-- In the order of the listing no row takes a path that a later one still has.
def Orderly (oldRoot newRoot : Text) (rows : List Row) : Prop :=
  rows.Pairwise fun row later =>
    ∀ newPath, rewriteAbsoluteUnder row.path oldRoot newRoot = some newPath → newPath ≠ later.path

-- One row after the other, as the engine takes them.
def relocate (oldRoot newRoot : Text) : List Row → List Row → Option (List Row)
  | [], rows => some rows
  | row :: rest, rows =>
      match rewriteAbsoluteUnder row.path oldRoot newRoot with
      | none => relocate oldRoot newRoot rest rows
      | some newPath =>
          (Rows.update Row.key (renamed row.path newPath) rows).bind
            (relocate oldRoot newRoot rest)

section Relocate

variable {oldRoot newRoot : Text}

theorem relocate_skip {row : Row} {rest rows : List Row}
    (h : rewriteAbsoluteUnder row.path oldRoot newRoot = none) :
    relocate oldRoot newRoot (row :: rest) rows = relocate oldRoot newRoot rest rows := by
  rw [relocate, h]

theorem relocate_take {row : Row} {newPath : Text} {rest rows : List Row}
    (h : rewriteAbsoluteUnder row.path oldRoot newRoot = some newPath) :
    relocate oldRoot newRoot (row :: rest) rows =
      (Rows.update Row.key (renamed row.path newPath) rows).bind
        (relocate oldRoot newRoot rest) := by
  rw [relocate, h]

theorem rewrittenCount_skip {row : Row} {rest : List Row}
    (h : rewriteAbsoluteUnder row.path oldRoot newRoot = none) :
    rewrittenCount oldRoot newRoot (row :: rest) = rewrittenCount oldRoot newRoot rest :=
  List.countP_cons_of_neg (by simp [h])

theorem rewrittenCount_take {row : Row} {newPath : Text} {rest : List Row}
    (h : rewriteAbsoluteUnder row.path oldRoot newRoot = some newPath) :
    rewrittenCount oldRoot newRoot (row :: rest) = rewrittenCount oldRoot newRoot rest + 1 :=
  List.countP_cons_of_pos (by simp [h])

-- The rows half way: those still to come are as they were.
def partly (oldRoot newRoot : Text) (pending : List Row) (row : Row) : Row :=
  if row ∈ pending then row else moved oldRoot newRoot row

theorem moved_none {row : Row} (h : rewriteAbsoluteUnder row.path oldRoot newRoot = none) :
    moved oldRoot newRoot row = row := by
  unfold moved
  rw [h]

theorem moved_some {row : Row} {newPath : Text}
    (h : rewriteAbsoluteUnder row.path oldRoot newRoot = some newPath) :
    moved oldRoot newRoot row = { row with path := newPath } := by
  unfold moved
  rw [h]

theorem partly_pending {pending : List Row} {row : Row} (h : row ∈ pending) :
    partly oldRoot newRoot pending row = row := if_pos h

theorem partly_done {pending : List Row} {row : Row} (h : row ∉ pending) :
    partly oldRoot newRoot pending row = moved oldRoot newRoot row := if_neg h

theorem partly_other {rest : List Row} {row other : Row} (h : other ≠ row) :
    partly oldRoot newRoot (row :: rest) other = partly oldRoot newRoot rest other := by
  unfold partly
  simp [h]

theorem rewritten_ne {row : Row} {newPath : Text}
    (h : rewriteAbsoluteUnder row.path oldRoot newRoot = some newPath) : row.path ≠ [] := by
  obtain ⟨habsolute, -⟩ := rewriteAbsoluteUnder_some h
  intro hnil
  rw [hnil] at habsolute
  cases habsolute

-- The one row of its path, among all the rows.
theorem split_row {rows : List Row} {row : Row} (hunique : Rows.Unique Row.key rows)
    (hrow : row ∈ rows) (hne : row.path ≠ []) :
    ∃ before after, rows = before ++ row :: after ∧
      ∀ other ∈ before ++ after, other.path ≠ row.path := by
  obtain ⟨before, after, rfl⟩ := List.append_of_mem hrow
  refine ⟨before, after, rfl, fun other hother hpath => ?_⟩
  obtain ⟨hadmits, -⟩ := Rows.unique_middle.mp hunique
  have hkey : other.key = some row.path := key_eq_some.mpr ⟨hpath, hpath ▸ hne⟩
  exact Rows.admits_iff.mp hadmits row.path (key_eq_some.mpr ⟨rfl, hne⟩)
    (List.mem_filterMap.mpr ⟨other, hother, hkey⟩)

-- One step on rows that are half way: it goes through if the new path is free by
-- then, and brings the rows one further.
theorem update_partly {rows rest : List Row} {row : Row} {newPath : Text}
    (hunique : Rows.Unique Row.key rows) (hrow : row ∈ rows) (hrest : row ∉ rest)
    (hnew : rewriteAbsoluteUnder row.path oldRoot newRoot = some newPath)
    (hpartly : Rows.Unique Row.key (rows.map (partly oldRoot newRoot (row :: rest)))) :
    ∃ before after, rows = before ++ row :: after ∧
      (∀ other ∈ before ++ after, other.path ≠ row.path) ∧
      Rows.update Row.key (renamed row.path newPath)
          (rows.map (partly oldRoot newRoot (row :: rest))) =
        if Rows.admits Row.key { row with path := newPath }
            ((before ++ after).map (partly oldRoot newRoot rest))
        then some (rows.map (partly oldRoot newRoot rest)) else none := by
  have hne := rewritten_ne hnew
  obtain ⟨before, after, rfl, hothers⟩ := split_row hunique hrow hne
  refine ⟨before, after, rfl, hothers, ?_⟩
  have hsame : ∀ side : List Row, (∀ other ∈ side, other.path ≠ row.path) →
      side.map (partly oldRoot newRoot (row :: rest)) = side.map (partly oldRoot newRoot rest) := by
    intro side hside
    refine List.map_congr_left fun other hother => partly_other ?_
    rintro rfl
    exact hside other hother rfl
  have hbefore := hsame before fun other h => hothers other (List.mem_append_left _ h)
  have hafter := hsame after fun other h => hothers other (List.mem_append_right _ h)
  have hsource : (before ++ row :: after).map (partly oldRoot newRoot (row :: rest)) =
      before.map (partly oldRoot newRoot rest) ++ row :: after.map (partly oldRoot newRoot rest) := by
    rw [List.map_append, List.map_cons, hbefore, hafter, partly_pending List.mem_cons_self]
  have htarget : (before ++ row :: after).map (partly oldRoot newRoot rest) =
      before.map (partly oldRoot newRoot rest) ++
        { row with path := newPath } :: after.map (partly oldRoot newRoot rest) := by
    rw [List.map_append, List.map_cons, partly_done hrest, moved_some hnew]
  rw [hsource] at hpartly ⊢
  have hselected : ∀ other ∈ before.map (partly oldRoot newRoot rest) ++
      after.map (partly oldRoot newRoot rest), renamed row.path newPath other = none := by
    intro other hother
    unfold renamed
    rw [if_neg]
    intro hpath
    have hkey : other.key = some row.path := key_eq_some.mpr ⟨hpath, hpath ▸ hne⟩
    exact Rows.admits_iff.mp (Rows.unique_middle.mp hpartly).1 row.path
      (key_eq_some.mpr ⟨rfl, hne⟩) (List.mem_filterMap.mpr ⟨other, hother, hkey⟩)
  have hrenamed : renamed row.path newPath row = some { row with path := newPath } := by
    simp [renamed]
  rw [Rows.update_one hrenamed hselected, htarget, List.map_append]

theorem not_mem_rest {row : Row} {rest : List Row} (h : Rows.Unique Row.key (row :: rest))
    (hne : row.path ≠ []) : row ∉ rest := by
  intro hmem
  have hkey : row.key = some row.path := key_eq_some.mpr ⟨rfl, hne⟩
  exact Rows.admits_iff.mp (Rows.unique_cons.mp h).1 row.path hkey
    (List.mem_filterMap.mpr ⟨row, hmem, hkey⟩)

theorem partly_skip {row : Row} {rest : List Row}
    (h : rewriteAbsoluteUnder row.path oldRoot newRoot = none) :
    partly oldRoot newRoot (row :: rest) = partly oldRoot newRoot rest := by
  funext other
  by_cases hsame : other = row
  · subst hsame
    rw [partly_pending List.mem_cons_self]
    unfold partly
    rw [moved_none h, ite_self]
  · exact partly_other hsame

variable {rows : List Row}

-- A relocation that goes through is the simultaneous one, and no row took a path
-- that a later one still had.
theorem relocate_some (hunique : Rows.Unique Row.key rows) {pending rows' : List Row}
    (hsub : ∀ row ∈ pending, row ∈ rows) (hpending : Rows.Unique Row.key pending)
    (hpartly : Rows.Unique Row.key (rows.map (partly oldRoot newRoot pending)))
    (h : relocate oldRoot newRoot pending (rows.map (partly oldRoot newRoot pending)) =
      some rows') :
    rows' = relocated oldRoot newRoot rows ∧ Rows.Unique Row.key rows' ∧
      Orderly oldRoot newRoot pending := by
  induction pending with
  | nil =>
      have hall : rows.map (partly oldRoot newRoot []) = relocated oldRoot newRoot rows :=
        List.map_congr_left fun row _ => partly_done List.not_mem_nil
      rw [hall] at h hpartly
      cases h
      exact ⟨rfl, hpartly, List.Pairwise.nil⟩
  | cons row rest ih =>
      have hsub' : ∀ other ∈ rest, other ∈ rows := fun other hother =>
        hsub other (List.mem_cons_of_mem _ hother)
      have hrest := (Rows.unique_cons.mp hpending).2
      cases hnew : rewriteAbsoluteUnder row.path oldRoot newRoot with
      | none =>
          rw [relocate_skip hnew, partly_skip hnew] at h
          rw [partly_skip hnew] at hpartly
          obtain ⟨hrows', hunique', horderly⟩ := ih hsub' hrest hpartly h
          refine ⟨hrows', hunique', List.pairwise_cons.mpr ⟨fun later _ newPath hsome => ?_, horderly⟩⟩
          rw [hnew] at hsome
          cases hsome
      | some newPath =>
          rw [relocate_take hnew] at h
          obtain ⟨next, hupdate, hnext⟩ := Option.bind_eq_some_iff.mp h
          have hnot := not_mem_rest hpending (rewritten_ne hnew)
          obtain ⟨before, after, rfl, hothers, hstep⟩ :=
            update_partly hunique (hsub row List.mem_cons_self) hnot hnew hpartly
          have hkept := (Rows.update_some hupdate).2 hpartly
          rw [hstep] at hupdate
          split at hupdate
          · next hadmits =>
              cases hupdate
              obtain ⟨hrows', hunique', horderly⟩ := ih hsub' hrest hkept hnext
              refine ⟨hrows', hunique', List.pairwise_cons.mpr ⟨?_, horderly⟩⟩
              intro later hlater other hother hpath
              rw [hnew] at hother
              cases hother
              -- The later row is still where it was, and holds the path.
              have hmem : later ∈ before ++ after := by
                rcases List.mem_append.mp (hsub' later hlater) with hl | hl
                · exact List.mem_append_left _ hl
                · rcases List.mem_cons.mp hl with rfl | hl
                  · exact absurd hlater hnot
                  · exact List.mem_append_right _ hl
              have hne : newPath ≠ [] := (rewriteAbsoluteUnder_some hnew).2.2.2
              refine Rows.admits_iff.mp hadmits newPath (key_eq_some.mpr ⟨rfl, hne⟩) ?_
              refine List.mem_filterMap.mpr ⟨later, ?_, key_eq_some.mpr ⟨hpath.symm, hpath ▸ hne⟩⟩
              exact List.mem_map.mpr ⟨later, hmem, partly_pending hlater⟩
          · cases hupdate

-- Where the simultaneous rewrite keeps all paths apart and the order is no
-- obstacle, the relocation goes through.
theorem relocate_goes (hunique : Rows.Unique Row.key rows)
    (htarget : Rows.Unique Row.key (relocated oldRoot newRoot rows)) {pending : List Row}
    (hsub : ∀ row ∈ pending, row ∈ rows) (hpending : Rows.Unique Row.key pending)
    (hpartly : Rows.Unique Row.key (rows.map (partly oldRoot newRoot pending)))
    (horderly : Orderly oldRoot newRoot pending) :
    ∃ rows', relocate oldRoot newRoot pending (rows.map (partly oldRoot newRoot pending)) =
      some rows' := by
  induction pending with
  | nil => exact ⟨_, rfl⟩
  | cons row rest ih =>
      have hsub' : ∀ other ∈ rest, other ∈ rows := fun other hother =>
        hsub other (List.mem_cons_of_mem _ hother)
      have hrest := (Rows.unique_cons.mp hpending).2
      obtain ⟨hlater, horderly'⟩ := List.pairwise_cons.mp horderly
      cases hnew : rewriteAbsoluteUnder row.path oldRoot newRoot with
      | none =>
          rw [relocate_skip hnew]
          rw [partly_skip hnew] at hpartly ⊢
          exact ih hsub' hrest hpartly horderly'
      | some newPath =>
          have hnot := not_mem_rest hpending (rewritten_ne hnew)
          obtain ⟨before, after, rfl, hothers, hstep⟩ :=
            update_partly hunique (hsub row List.mem_cons_self) hnot hnew hpartly
          have hadmits : Rows.admits Row.key { row with path := newPath }
              ((before ++ after).map (partly oldRoot newRoot rest)) = true := by
            refine Rows.admits_iff.mpr fun k hk hmem => ?_
            obtain ⟨other', hother', hkey⟩ := List.mem_filterMap.mp hmem
            obtain ⟨other, hother, rfl⟩ := List.mem_map.mp hother'
            rw [key_eq_some] at hk hkey
            obtain ⟨rfl, hne⟩ := hk
            by_cases hcoming : other ∈ rest
            · rw [partly_pending hcoming] at hkey
              exact hlater other hcoming newPath hnew hkey.1.symm
            · -- Both rows are where the simultaneous rewrite puts them.
              rw [partly_done hcoming] at hkey
              rw [relocated, List.map_append, List.map_cons, moved_some hnew] at htarget
              refine Rows.admits_iff.mp (Rows.unique_middle.mp htarget).1 newPath
                (key_eq_some.mpr ⟨rfl, hne⟩) (List.mem_filterMap.mpr ⟨_, ?_, key_eq_some.mpr hkey⟩)
              rw [← List.map_append]
              exact List.mem_map_of_mem hother
          rw [if_pos hadmits] at hstep
          have hkept := (Rows.update_some hstep).2 hpartly
          obtain ⟨rows', hrows'⟩ := ih hsub' hrest hkept horderly'
          refine ⟨rows', ?_⟩
          rw [relocate_take hnew, hstep]
          exact hrows'

end Relocate

section Engine

variable {oldRoot newRoot : Text}

theorem update_calm {change : Row → Option Row} {s rows next : List Row}
    (h : Rows.update Row.key change rows = some next) :
    execute sqliteFault (update change) ⟨s, rows, []⟩ =
      (.ok (Rows.selected change rows).length, ⟨s, next, []⟩) := by
  refine execute_calm ?_
  unfold update
  rw [h]

variable [UnicodeTables] {entry : TitleIndexEntry} {rest : List TitleIndexEntry}

theorem rewriteRows_skip
    (h : rewriteAbsoluteUnder entry.row.path oldRoot newRoot = none) :
    rewriteRows oldRoot newRoot (entry :: rest) = rewriteRows oldRoot newRoot rest := by
  have hpath : rewriteAbsoluteUnder entry.path oldRoot newRoot = none := h
  rw [rewriteRows, hpath]

theorem rewriteRows_take {newPath : Text}
    (h : rewriteAbsoluteUnder entry.row.path oldRoot newRoot = some newPath) :
    rewriteRows oldRoot newRoot (entry :: rest) = (do
      let _ ← execute sqliteFault (update (renamed entry.row.path newPath))
      let rewritten ← rewriteRows oldRoot newRoot rest
      pure (rewritten + 1)) := by
  have hpath : rewriteAbsoluteUnder entry.path oldRoot newRoot = some newPath := h
  rw [rewriteRows, hpath]
  rfl

variable {entries : List TitleIndexEntry}

theorem rewriteRows_goes {s rows rows' : List Row}
    (h : relocate oldRoot newRoot (entries.map TitleIndexEntry.row) rows = some rows') :
    rewriteRows oldRoot newRoot entries ⟨s, rows, []⟩ =
      (.ok (rewrittenCount oldRoot newRoot (entries.map TitleIndexEntry.row)), ⟨s, rows', []⟩) := by
  induction entries generalizing rows with
  | nil =>
      cases h
      rfl
  | cons entry rest ih =>
      rw [List.map_cons] at h ⊢
      cases hnew : rewriteAbsoluteUnder entry.row.path oldRoot newRoot with
      | none =>
          rw [relocate_skip hnew] at h
          rw [rewriteRows_skip hnew, rewrittenCount_skip hnew]
          exact ih h
      | some newPath =>
          rw [relocate_take hnew] at h
          obtain ⟨next, hupdate, hnext⟩ := Option.bind_eq_some_iff.mp h
          rw [rewriteRows_take hnew, rewrittenCount_take hnew, bind_ok (update_calm hupdate),
            bind_ok (ih hnext)]
          rfl

theorem rewriteRows_yields {rows rows' : List Row} {n : Nat}
    (h : Yields (rewriteRows oldRoot newRoot entries) rows n rows') :
    relocate oldRoot newRoot (entries.map TitleIndexEntry.row) rows = some rows' ∧
      n = rewrittenCount oldRoot newRoot (entries.map TitleIndexEntry.row) := by
  induction entries generalizing rows n with
  | nil =>
      obtain ⟨rfl, rfl⟩ := yields_pure h
      exact ⟨rfl, rfl⟩
  | cons entry rest ih =>
      rw [List.map_cons]
      cases hnew : rewriteAbsoluteUnder entry.row.path oldRoot newRoot with
      | none =>
          rw [rewriteRows_skip hnew] at h
          rw [relocate_skip hnew, rewrittenCount_skip hnew]
          exact ih h
      | some newPath =>
          rw [rewriteRows_take hnew] at h
          obtain ⟨_, next, hupdate, hrest⟩ := yields_bind h
          obtain ⟨m, last, hrewritten, hpure⟩ := yields_bind hrest
          obtain ⟨rfl, rfl⟩ := yields_pure hpure
          obtain ⟨hrelocate, rfl⟩ := ih hrewritten
          obtain ⟨-, hsome⟩ := update_ok (yields_execute hupdate)
          rw [relocate_take hnew, rewrittenCount_take hnew, hsome]
          exact ⟨hrelocate, rfl⟩

theorem quiet_rewriteRows (entries : List TitleIndexEntry) :
    Quiet (rewriteRows oldRoot newRoot entries) := by
  induction entries with
  | nil => exact quiet_pure 0
  | cons entry rest ih =>
      unfold rewriteRows
      split
      · exact ih
      · exact (quiet_execute _ _).bind fun _ => ih.bind fun _ => quiet_pure _

-- Rows that were stored are listed as the entries they came from.
theorem mapM_entryFromRow {rows : List Row} (h : Stored rows) :
    ∃ entries, rows.mapM entryFromRow = .ok entries ∧ entries.map TitleIndexEntry.row = rows := by
  induction rows with
  | nil => exact ⟨[], rfl, rfl⟩
  | cons row rest ih =>
      obtain ⟨entry, rfl⟩ := h row List.mem_cons_self
      obtain ⟨entries, hentries, hrows⟩ := ih fun other hother =>
        h other (List.mem_cons_of_mem _ hother)
      refine ⟨entry :: entries, ?_, by rw [List.map_cons, hrows]⟩
      rw [List.mapM_cons, entryFromRow_row, hentries]
      rfl

variable {rows : List Row}

omit [UnicodeTables] in
-- The relocation of the rows in the order of the listing.
theorem relocate_listed (hunique : Rows.Unique Row.key rows) :
    (∀ rows', relocate oldRoot newRoot (rows.insertionSort listOrder) rows = some rows' →
      rows' = relocated oldRoot newRoot rows ∧ Rows.Unique Row.key rows' ∧
        Orderly oldRoot newRoot (rows.insertionSort listOrder)) ∧
    (Rows.Unique Row.key (relocated oldRoot newRoot rows) →
      Orderly oldRoot newRoot (rows.insertionSort listOrder) →
        ∃ rows', relocate oldRoot newRoot (rows.insertionSort listOrder) rows = some rows') := by
  have hperm := List.perm_insertionSort listOrder rows
  have hsub : ∀ row ∈ rows.insertionSort listOrder, row ∈ rows := fun row => hperm.mem_iff.mp
  have hsorted := hunique.perm hperm.symm
  have hstart : rows.map (partly oldRoot newRoot (rows.insertionSort listOrder)) = rows := by
    have hsame : ∀ row ∈ rows,
        partly oldRoot newRoot (rows.insertionSort listOrder) row = id row :=
      fun row hrow => partly_pending (hperm.mem_iff.mpr hrow)
    rw [List.map_congr_left hsame, List.map_id]
  have hpartly := hunique
  rw [← hstart] at hpartly
  refine ⟨fun rows' h => ?_, fun htarget horderly => ?_⟩
  · have hmapped : relocate oldRoot newRoot (rows.insertionSort listOrder)
        (rows.map (partly oldRoot newRoot (rows.insertionSort listOrder))) = some rows' := by
      rwa [hstart]
    exact relocate_some hunique hsub hsorted hpartly hmapped
  · have hgoes := relocate_goes hunique htarget hsub hsorted hpartly horderly
    rwa [hstart] at hgoes

-- What the relocation is meant to be: all rows at once, or an error that leaves
-- the index as it was.
structure Simultaneous (oldRoot newRoot : Text) (rows : List Row) : Prop where
  moves : Rows.Unique Row.key (relocated oldRoot newRoot rows) →
    (rewriteAbsolutePrefix oldRoot newRoot).run rows [] =
      (.ok (rewrittenCount oldRoot newRoot rows), relocated oldRoot newRoot rows)
  refuses : ¬Rows.Unique Row.key (relocated oldRoot newRoot rows) → ∀ faults, ∃ e,
    (rewriteAbsolutePrefix oldRoot newRoot).run rows faults = (.error e, rows)
  whole : ∀ faults r rows', (rewriteAbsolutePrefix oldRoot newRoot).run rows faults = (r, rows') →
    (∃ e, r = .error e ∧ rows' = rows) ∨ (r = .ok (rewrittenCount oldRoot newRoot rows) ∧
      rows' = relocated oldRoot newRoot rows)
  under : ∀ row ∈ rows, moved oldRoot newRoot row ≠ row →
    Path.components newRoot <+: Path.components (moved oldRoot newRoot row).path
  foreign : ∀ row ∈ rows, ¬(Path.isAbsolute row.path = true ∧
    Path.components oldRoot <+: Path.components row.path) → moved oldRoot newRoot row = row

theorem rewriteAbsolutePrefix_run (hunique : Rows.Unique Row.key rows) (hstored : Stored rows)
    (hold : oldRoot ≠ []) (hdiffer : oldRoot ≠ newRoot) {faults : List Bool}
    {r : Except StoreError Nat} {rows' : List Row}
    (h : (rewriteAbsolutePrefix oldRoot newRoot).run rows faults = (r, rows')) :
    (∃ e, r = .error e ∧ rows' = rows) ∨ (r = .ok (rewrittenCount oldRoot newRoot rows) ∧
      rows' = relocated oldRoot newRoot rows ∧ Rows.Unique Row.key rows' ∧
      Orderly oldRoot newRoot (rows.insertionSort listOrder)) := by
  have hperm := List.perm_insertionSort listOrder rows
  have hleads := leads_of_run h
  unfold rewriteAbsolutePrefix at hleads
  rw [if_neg (by simp [hold, hdiffer])] at hleads
  obtain ⟨e, rfl, hlist⟩ | ⟨entries, middle, hlist, hbody⟩ :=
    leads_bind (settles_query _ _) hleads
  · exact .inl ⟨e, rfl, (leads_query hlist).1⟩
  obtain ⟨rfl, hread⟩ := leads_query hlist
  have hlisted : Stored (middle.insertionSort listOrder) := fun row hrow =>
    hstored row (hperm.mem_iff.mp hrow)
  obtain ⟨entries', hentries, hrows⟩ := mapM_entryFromRow hlisted
  have hread := hread entries rfl
  rw [hentries] at hread
  cases hread
  obtain ⟨faults', hrun⟩ := run_of_leads hbody
  obtain ⟨n, rfl, hyields⟩ | ⟨e, rfl, rfl⟩ := run_atomically (quiet_rewriteRows _) hrun
  · obtain ⟨hrelocate, rfl⟩ := rewriteRows_yields hyields
    rw [hrows] at hrelocate ⊢
    obtain ⟨rfl, hunique', horderly⟩ := (relocate_listed hunique).1 _ hrelocate
    refine .inr ⟨?_, rfl, hunique', horderly⟩
    rw [rewrittenCount, rewrittenCount, hperm.countP_eq]
  · exact .inl ⟨e, rfl, rfl⟩

theorem rewriteAbsolutePrefix_goes (hunique : Rows.Unique Row.key rows) (hstored : Stored rows)
    (hold : oldRoot ≠ []) (hdiffer : oldRoot ≠ newRoot)
    (htarget : Rows.Unique Row.key (relocated oldRoot newRoot rows))
    (horderly : Orderly oldRoot newRoot (rows.insertionSort listOrder)) :
    (rewriteAbsolutePrefix oldRoot newRoot).run rows [] =
      (.ok (rewrittenCount oldRoot newRoot rows), relocated oldRoot newRoot rows) := by
  have hperm := List.perm_insertionSort listOrder rows
  have hlisted : Stored (rows.insertionSort listOrder) := fun row hrow =>
    hstored row (hperm.mem_iff.mp hrow)
  obtain ⟨entries, hentries, hrows⟩ := mapM_entryFromRow hlisted
  obtain ⟨rows', hrelocate⟩ := (relocate_listed hunique).2 htarget horderly
  obtain ⟨rfl, -⟩ := (relocate_listed hunique).1 _ hrelocate
  have hlist : listTitles ⟨rows, rows, []⟩ = (.ok entries, ⟨rows, rows, []⟩) := by
    rw [listTitles, query_calm, hentries]
  have hbody := rewriteRows_goes (s := rows) (hrows.symm ▸ hrelocate)
  rw [hrows] at hbody
  have hcount : rewrittenCount oldRoot newRoot (rows.insertionSort listOrder) =
      rewrittenCount oldRoot newRoot rows := hperm.countP_eq _
  have hopen : (begin : IndexTx Unit) ⟨rows, rows, []⟩ = (.ok (), ⟨rows, rows, []⟩) := rfl
  unfold rewriteAbsolutePrefix Tx.run
  rw [if_neg (by simp [hold, hdiffer]), bind_ok hlist, atomically,
    bind_ok (statement_calm _ rows rows), bind_ok hopen, bind_ok hbody,
    bind_ok (statement_calm _ rows _), hcount]
  rfl

-- The relocation is the simultaneous rewrite just where, in the order of the
-- listing, no row has to take a path that a later row has not left yet.
theorem rewriteAbsolutePrefix_simultaneous (hunique : Rows.Unique Row.key rows)
    (hstored : Stored rows) (hold : oldRoot ≠ []) (hdiffer : oldRoot ≠ newRoot) :
    Simultaneous oldRoot newRoot rows ↔
      (Rows.Unique Row.key (relocated oldRoot newRoot rows) →
        Orderly oldRoot newRoot (rows.insertionSort listOrder)) := by
  constructor
  · intro h htarget
    obtain ⟨e, herr, -⟩ | ⟨-, -, -, horderly⟩ :=
      rewriteAbsolutePrefix_run hunique hstored hold hdiffer (h.moves htarget)
    · cases herr
    · exact horderly
  · intro h
    constructor
    · intro htarget
      exact rewriteAbsolutePrefix_goes hunique hstored hold hdiffer htarget (h htarget)
    · intro hclash faults
      generalize hrun : (rewriteAbsolutePrefix oldRoot newRoot).run rows faults = outcome
      obtain ⟨r, rows'⟩ := outcome
      obtain ⟨e, rfl, rfl⟩ | ⟨-, rfl, hunique', -⟩ :=
        rewriteAbsolutePrefix_run hunique hstored hold hdiffer hrun
      · exact ⟨e, rfl⟩
      · exact absurd hunique' hclash
    · intro faults r rows' hrun
      obtain herr | ⟨hok, hrows, -⟩ := rewriteAbsolutePrefix_run hunique hstored hold hdiffer hrun
      · exact .inl herr
      · exact .inr ⟨hok, hrows⟩
    · intro row _ hmoved
      cases hnew : rewriteAbsoluteUnder row.path oldRoot newRoot with
      | none => exact absurd (moved_none hnew) hmoved
      | some newPath =>
          rw [moved_some hnew]
          exact (rewriteAbsoluteUnder_some hnew).2.2.1
    · intro row _ hforeign
      cases hnew : rewriteAbsoluteUnder row.path oldRoot newRoot with
      | none => exact moved_none hnew
      | some newPath =>
          obtain ⟨habsolute, hunder, -⟩ := rewriteAbsoluteUnder_some hnew
          exact absurd ⟨habsolute, hunder⟩ hforeign

end Engine

namespace Sample

def moviePath (path : Text) : @TitleIndexEntry UnicodeTables.ascii :=
  @TitleIndexEntry.mk UnicodeTables.ascii
    TitleId.Sample.matrix path
    ⟨List.replicate 64 'a', hex_as⟩ ⟨List.replicate 64 'b', hex_bs⟩

def rows (paths : List Text) : List Row :=
  paths.map fun path => @TitleIndexEntry.row UnicodeTables.ascii (moviePath path)

theorem stored_rows (paths : List Text) : @Stored UnicodeTables.ascii (rows paths) := by
  intro row hrow
  obtain ⟨path, -, rfl⟩ := List.mem_map.mp hrow
  exact ⟨moviePath path, rfl⟩

end Sample

theorem relocation_apart :
    let := UnicodeTables.ascii
    (rewriteAbsolutePrefix "/a".toList "/b".toList).run (Sample.rows ["/a/x".toList, "y".toList]) []
      = (.ok 1, relocated "/a".toList "/b".toList (Sample.rows ["/a/x".toList, "y".toList])) := by
  intro _
  have hunique : Rows.Unique Row.key (Sample.rows ["/a/x".toList, "y".toList]) := by
    unfold Rows.Unique
    decide +kernel
  have htarget : Rows.Unique Row.key
      (relocated "/a".toList "/b".toList (Sample.rows ["/a/x".toList, "y".toList])) := by
    unfold Rows.Unique
    decide +kernel
  have horderly : Orderly "/a".toList "/b".toList
      ((Sample.rows ["/a/x".toList, "y".toList]).insertionSort listOrder) := by
    have hsorted : (Sample.rows ["/a/x".toList, "y".toList]).insertionSort listOrder =
        Sample.rows ["/a/x".toList, "y".toList] := by decide +kernel
    have hnew : rewriteAbsoluteUnder "/a/x".toList "/a".toList "/b".toList = some "/b/x".toList := by
      decide +kernel
    rw [hsorted]
    refine List.pairwise_pair.mpr fun newPath hsome => ?_
    rw [show (Sample.moviePath "/a/x".toList).row.path = "/a/x".toList from rfl, hnew] at hsome
    cases hsome
    decide +kernel
  exact ((rewriteAbsolutePrefix_simultaneous hunique (Sample.stored_rows _) (by decide)
    (by decide)).mpr fun _ => horderly).moves htarget

-- A library moved into a directory of its own: the first row takes the path that
-- the second is about to leave.
theorem relocation_overtakes :
    let := UnicodeTables.ascii
    Rows.Unique Row.key (Sample.rows ["/a/a".toList, "/a/b/a".toList]) ∧
      Rows.Unique Row.key
        (relocated "/a".toList "/a/b".toList (Sample.rows ["/a/a".toList, "/a/b/a".toList])) ∧
      (rewriteAbsolutePrefix "/a".toList "/a/b".toList).run
          (Sample.rows ["/a/a".toList, "/a/b/a".toList]) [] =
        (.error uniqueFault, Sample.rows ["/a/a".toList, "/a/b/a".toList]) := by
  intro _
  refine ⟨?_, ?_, ?_⟩
  · unfold Rows.Unique
    decide +kernel
  · unfold Rows.Unique
    decide +kernel
  · decide +kernel

end Mediaops.TitleIndex
