import Mediaops.Core.TitleId.Theorems
import Mediaops.LocalStore
import Mediaops.TitleIndex

namespace Mediaops.TitleIndex

-- What the calls on the title index keep: one row for a path, and for good the
-- digest it was installed with.

open Tx

theorem key_eq_some {row : Row} {path : Text} :
    row.key = some path ↔ row.path = path ∧ row.path ≠ [] := by
  unfold Row.key
  by_cases h : row.path = []
  · simp [h]
  · simp [h]

theorem insert_ok {row : Row} {rows next : List Row} {u : Unit}
    (h : insert row rows = .ok (u, next)) :
    next = rows ++ [row] ∧ (Rows.Unique Row.key rows → Rows.Unique Row.key next) := by
  unfold insert at h
  split at h
  · next hinsert =>
      cases h
      exact Rows.insert_some hinsert
  · cases h

theorem update_ok {change : Row → Option Row} {rows next : List Row} {n : Nat}
    (h : update change rows = .ok (n, next)) :
    n = (Rows.selected change rows).length ∧ Rows.update Row.key change rows = some next := by
  unfold update at h
  split at h
  · next hupdate =>
      cases h
      exact ⟨rfl, hupdate⟩
  · cases h

-- An update that moves rows to one path selects none of them or one.
theorem update_cases {change : Row → Option Row} {rows next : List Row} {n : Nat} {path : Text}
    (hunique : Rows.Unique Row.key rows) (hpath : path ≠ [])
    (hchange : ∀ row new, change row = some new → new.path = path)
    (h : update change rows = .ok (n, next)) :
    (n = 0 ∧ next = rows ∧ ∀ row ∈ rows, change row = none) ∨
      (n = 1 ∧ ∃ before row rest new, rows = before ++ row :: rest ∧ change row = some new ∧
        next = before ++ new :: rest) := by
  obtain ⟨rfl, hupdate⟩ := update_ok h
  have hle : (Rows.selected change rows).length ≤ 1 := by
    refine Rows.selected_le_one hupdate hunique (k := path) fun row new hnew => ?_
    rw [key_eq_some, hchange row new hnew]
    exact ⟨rfl, hpath⟩
  rcases Nat.le_one_iff_eq_zero_or_eq_one.mp hle with hzero | hone
  · have hnone : ∀ row ∈ rows, change row = none := by
      intro row hrow
      have hout := List.filter_eq_nil_iff.mp (List.length_eq_zero_iff.mp hzero) row hrow
      simpa using hout
    rw [Rows.update_none hnone] at hupdate
    cases hupdate
    exact .inl ⟨hzero, rfl, hnone⟩
  · obtain ⟨before, row, rest, new, rfl, hnew, hothers⟩ := Rows.selected_one hone
    rw [Rows.update_one hnew hothers] at hupdate
    split at hupdate
    · cases hupdate
      exact .inr ⟨hone, before, row, rest, new, rfl, hnew, rfl⟩
    · cases hupdate

section

variable [UnicodeTables]

theorem entryFromRow_row (entry : TitleIndexEntry) : entryFromRow entry.row = .ok entry := by
  obtain ⟨titleId, path, installB3, currentB3⟩ := entry
  unfold entryFromRow TitleIndexEntry.row Blake3Hex.parse
  simp only [TitleId.parse_render, dif_pos installB3.valid, dif_pos currentB3.valid]
  rfl

-- What reading a row keeps of its columns.
theorem entryFromRow_ok {row : Row} {entry : TitleIndexEntry} (h : entryFromRow row = .ok entry) :
    entry.path = row.path ∧ entry.installB3.text = row.installB3 := by
  unfold entryFromRow Blake3Hex.parse at h
  obtain ⟨titleId, -, h⟩ := Checks.bind_ok h
  obtain ⟨installB3, hinstall, h⟩ := Checks.bind_ok h
  obtain ⟨currentB3, -, h⟩ := Checks.bind_ok h
  cases h
  refine ⟨rfl, ?_⟩
  split at hinstall
  · cases hinstall
    rfl
  · cases hinstall

-- Every row was written from an entry.
def Stored (rows : List Row) : Prop := ∀ row ∈ rows, ∃ entry : TitleIndexEntry, row = entry.row

theorem getPath_leads {path : Text} {rows rows' : List Row}
    {r : Except StoreError (Option TitleIndexEntry)} (h : Leads (getPath path) rows r rows') :
    rows' = rows ∧ (∀ entry, r = .ok (some entry) →
      ∃ row ∈ rows, row.path = path ∧ row.installB3 = entry.installB3.text) ∧
      (r = .ok none → path ≠ [] → ∀ row ∈ rows, row.path ≠ path) := by
  unfold getPath at h
  by_cases hpath : path = []
  · rw [if_pos hpath] at h
    obtain ⟨rfl, rfl⟩ := leads_pure h
    exact ⟨rfl, fun entry hentry => (by cases hentry), fun _ hne => absurd hpath hne⟩
  · rw [if_neg hpath] at h
    obtain ⟨rfl, hread⟩ := leads_query h
    refine ⟨rfl, fun entry hentry => ?_, fun hnone _ row hrow hrowPath => ?_⟩
    · have hfound := hread _ hentry
      split at hfound
      · cases hfound
      · next row hrow =>
          have hrowPath : row.path = path := by simpa using List.find?_some hrow
          refine ⟨row, List.mem_of_find?_eq_some hrow, hrowPath, ?_⟩
          cases hparsed : entryFromRow row with
          | error e =>
              rw [hparsed] at hfound
              cases hfound
          | ok found =>
              rw [hparsed] at hfound
              cases hfound
              exact (entryFromRow_ok hparsed).2.symm
    · have hfound := hread _ hnone
      split at hfound
      · next hmissing =>
          have hout := List.find?_eq_none.mp hmissing row hrow
          simp [hrowPath] at hout
      · next found _ =>
          cases hparsed : entryFromRow found with
          | error e =>
              rw [hparsed] at hfound
              cases hfound
          | ok entry =>
              rw [hparsed] at hfound
              cases hfound

theorem settles_getPath (path : Text) : Settles (getPath path) := by
  unfold getPath
  split
  · exact fun conn h => h
  · exact settles_query _ _

section Install

variable {titleId : TitleId} {digest : Blake3Hex} {path : Text} {rows rows' : List Row}

-- What an install may do to the rows: nothing where the path has its digest, fill
-- in one row of the title, or add a row of its own.
inductive Installed (titleId : TitleId) (digest : Blake3Hex) (path : Text) (rows : List Row) :
    List Row → Prop where
  | Same (row : Row) (hrow : row ∈ rows) (hpath : row.path = path)
      (hdigest : row.installB3 = digest.text) : Installed titleId digest path rows rows
  | Backfilled (before : List Row) (row : Row) (rest : List Row)
      (hrows : rows = before ++ row :: rest) (htitle : row.titleId = titleId.render)
      (hpathless : row.path = []) (hdigest : row.installB3 = digest.text)
      (habsent : ∀ other ∈ rows, other.path ≠ path) :
      Installed titleId digest path rows (before ++ { row with path } :: rest)
  | Added (habsent : ∀ row ∈ rows, row.path ≠ path) :
      Installed titleId digest path rows
        (rows ++ [(TitleIndexEntry.mk titleId path digest digest).row])

theorem backfill_some {row new : Row} (h : backfill titleId digest path row = some new) :
    (row.titleId = titleId.render ∧ row.path = [] ∧ row.installB3 = digest.text) ∧
      new = { row with path } := by
  unfold backfill at h
  split at h
  · next hrow =>
      cases h
      exact ⟨hrow, rfl⟩
  · cases h

theorem recordInstall_leads (hunique : Rows.Unique Row.key rows) {r : Except StoreError Unit}
    (h : Leads (recordInstall titleId digest path) rows r rows') :
    (∃ e, r = .error e ∧ rows' = rows) ∨
      (r = .ok () ∧ path ≠ [] ∧ Installed titleId digest path rows rows') := by
  unfold recordInstall at h
  by_cases hpath : path = []
  · rw [if_pos hpath] at h
    obtain ⟨rfl, rfl⟩ := leads_throw h
    exact .inl ⟨_, rfl, rfl⟩
  rw [if_neg hpath] at h
  obtain ⟨e, rfl, hget⟩ | ⟨found, middle, hget, hfound⟩ := leads_bind (settles_getPath path) h
  · exact .inl ⟨e, rfl, (getPath_leads hget).1⟩
  obtain ⟨rfl, hsome, hnone⟩ := getPath_leads hget
  cases found with
  | some existing =>
      obtain ⟨row, hrow, hrowPath, hrowDigest⟩ := hsome existing rfl
      dsimp only at hfound
      by_cases hdigest : existing.installB3 = digest
      · rw [if_pos hdigest] at hfound
        obtain ⟨rfl, rfl⟩ := leads_pure hfound
        exact .inr ⟨rfl, hpath, .Same row hrow hrowPath (hdigest ▸ hrowDigest)⟩
      · rw [if_neg hdigest] at hfound
        obtain ⟨rfl, rfl⟩ := leads_throw hfound
        exact .inl ⟨_, rfl, rfl⟩
  | none =>
      have habsent := hnone rfl hpath
      dsimp only at hfound
      obtain ⟨e, rfl, hfill⟩ | ⟨n, next, hfill, hadd⟩ := leads_bind (settles_autocommit _ _) hfound
      · obtain ⟨_, hok, -⟩ | ⟨_, -, rfl⟩ := leads_autocommit hfill
        · cases hok
        · exact .inl ⟨e, rfl, rfl⟩
      obtain ⟨_, hok, hupdate⟩ | ⟨_, herr, -⟩ := leads_autocommit hfill
      · cases hok
        obtain ⟨rfl, rfl, -⟩ | ⟨rfl, before, row, rest, new, rfl, hnew, rfl⟩ :=
          update_cases hunique hpath (fun _ _ hfilled => by rw [(backfill_some hfilled).2]) hupdate
        · -- No row of the title waits for its path.
          rw [if_neg (Nat.lt_irrefl 0)] at hadd
          obtain ⟨_, rfl, hinsert⟩ | ⟨e, rfl, rfl⟩ := leads_autocommit hadd
          · obtain ⟨rfl, -⟩ := insert_ok hinsert
            exact .inr ⟨rfl, hpath, .Added habsent⟩
          · exact .inl ⟨e, rfl, rfl⟩
        · rw [if_pos Nat.zero_lt_one] at hadd
          obtain ⟨rfl, rfl⟩ := leads_pure hadd
          obtain ⟨⟨htitle, hpathless, hdigest⟩, rfl⟩ := backfill_some hnew
          exact .inr ⟨rfl, hpath, .Backfilled before row rest rfl htitle hpathless hdigest habsent⟩
      · cases herr

end Install

section Replace

variable {path : Text} {currentB3 : Blake3Hex} {rows rows' : List Row}

omit [UnicodeTables] in
theorem replaced_some {row new : Row} (h : replaced path currentB3 row = some new) :
    row.path = path ∧ row.path ≠ [] ∧ new = { row with currentB3 := currentB3.text } := by
  unfold replaced at h
  split at h
  · next hrow =>
      cases h
      exact ⟨hrow.1, hrow.2, rfl⟩
  · cases h

omit [UnicodeTables] in
theorem replaced_pathless (row : Row) : replaced [] currentB3 row = none := by
  unfold replaced
  rw [if_neg]
  rintro ⟨hpath, hne⟩
  exact hne hpath

-- What a replacement does: the second digest of the row of the path.
inductive Replaced (path : Text) (currentB3 : Blake3Hex) (rows : List Row) : List Row → Prop where
  | At (before : List Row) (row : Row) (rest : List Row) (hrows : rows = before ++ row :: rest)
      (hpath : row.path = path) (hne : path ≠ []) :
      Replaced path currentB3 rows
        (before ++ { row with currentB3 := currentB3.text } :: rest)

omit [UnicodeTables] in
theorem recordReplace_leads (hunique : Rows.Unique Row.key rows) {r : Except StoreError Unit}
    (h : Leads (recordReplace path currentB3) rows r rows') :
    (∃ e, r = .error e ∧ rows' = rows) ∨ (r = .ok () ∧ Replaced path currentB3 rows rows') := by
  unfold recordReplace at h
  obtain ⟨e, rfl, hupdate⟩ | ⟨n, next, hupdate, hcount⟩ := leads_bind (settles_autocommit _ _) h
  · obtain ⟨_, hok, -⟩ | ⟨_, -, rfl⟩ := leads_autocommit hupdate
    · cases hok
    · exact .inl ⟨e, rfl, rfl⟩
  obtain ⟨_, hok, hchanged⟩ | ⟨_, herr, -⟩ := leads_autocommit hupdate
  · cases hok
    by_cases hpath : path = []
    · -- No row answers to the empty path.
      subst hpath
      obtain ⟨rfl, hnone⟩ := update_ok hchanged
      rw [Rows.update_none fun row _ => replaced_pathless row] at hnone
      cases hnone
      have hzero : Rows.selected (replaced [] currentB3) rows = [] :=
        List.filter_eq_nil_iff.mpr fun row _ => by simp [replaced_pathless row]
      rw [hzero, if_pos List.length_nil] at hcount
      obtain ⟨rfl, rfl⟩ := leads_throw hcount
      exact .inl ⟨_, rfl, rfl⟩
    · have hchange : ∀ row new, replaced path currentB3 row = some new → new.path = path := by
        intro row new hnew
        obtain ⟨hrow, -, rfl⟩ := replaced_some hnew
        exact hrow
      obtain ⟨rfl, rfl, -⟩ | ⟨rfl, before, row, rest, new, rfl, hnew, rfl⟩ :=
        update_cases hunique hpath hchange hchanged
      · rw [if_pos rfl] at hcount
        obtain ⟨rfl, rfl⟩ := leads_throw hcount
        exact .inl ⟨_, rfl, rfl⟩
      · rw [if_neg Nat.one_ne_zero] at hcount
        obtain ⟨rfl, rfl⟩ := leads_pure hcount
        obtain ⟨hrow, -, rfl⟩ := replaced_some hnew
        exact .inr ⟨rfl, .At before row rest rfl hrow hpath⟩
  · cases herr

end Replace

section Import

variable {rows rows' : List Row}

theorem quiet_insertRows (entries : List TitleIndexEntry) : Quiet (insertRows entries) := by
  induction entries with
  | nil => exact quiet_pure ()
  | cons entry rest ih => exact (quiet_execute _ _).bind fun _ => ih

theorem quiet_importBody (entries : List TitleIndexEntry) : Quiet (importBody entries) := by
  refine (quiet_query _ _).bind fun n => ?_
  dsimp only
  split
  · exact quiet_throw _
  · exact quiet_insertRows entries

theorem insertRows_yields {entries : List TitleIndexEntry} {u : Unit}
    (h : Yields (insertRows entries) rows u rows') :
    rows' = rows ++ entries.map TitleIndexEntry.row ∧
      (Rows.Unique Row.key rows → Rows.Unique Row.key rows') := by
  induction entries generalizing rows with
  | nil =>
      obtain ⟨-, rfl⟩ := yields_pure h
      simp
  | cons entry rest ih =>
      obtain ⟨_, middle, hinsert, hrest⟩ := yields_bind h
      obtain ⟨rfl, hkept⟩ := insert_ok (yields_execute hinsert)
      obtain ⟨rfl, hkept'⟩ := ih hrest
      refine ⟨?_, fun hunique => hkept' (hkept hunique)⟩
      rw [List.append_assoc, List.singleton_append, List.map_cons]

-- An import goes into an empty index, whole or not at all.
theorem importRows_run {entries : List TitleIndexEntry} {faults : List Bool}
    {r : Except StoreError Unit} (h : (importRows entries).run rows faults = (r, rows')) :
    (∃ e, r = .error e ∧ rows' = rows) ∨
      (r = .ok () ∧ rows = [] ∧ rows' = entries.map TitleIndexEntry.row ∧
        Rows.Unique Row.key rows') := by
  obtain ⟨_, rfl, hbody⟩ | ⟨e, rfl, rfl⟩ := run_atomically (quiet_importBody entries) h
  · obtain ⟨n, middle, hcount, hinsert⟩ := yields_bind hbody
    obtain ⟨hn, rfl⟩ := yields_query hcount
    cases hn
    obtain ⟨hempty, hinsert⟩ := yields_guard hinsert
    have hnil : middle = [] := List.length_eq_zero_iff.mp (by omega)
    subst hnil
    obtain ⟨rfl, hkept⟩ := insertRows_yields hinsert
    exact .inr ⟨rfl, rfl, rfl, hkept List.nodup_nil⟩
  · exact .inl ⟨e, rfl, rfl⟩

end Import

end

end Mediaops.TitleIndex
