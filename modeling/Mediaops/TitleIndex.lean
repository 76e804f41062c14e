import Mediaops.Core.PathSchema
import Mediaops.Core.Words
import Mediaops.Library.Autocommit
import Mediaops.Library.Rows
import Mathlib.Data.List.Sort

namespace Mediaops.TitleIndex

-- The title index of the local store: what was installed where, and with which
-- digest. The digest of the install is the proof that reclaim rests on.

structure TitleIndexEntry [UnicodeTables] where
  titleId : TitleId
  path : Text
  installB3 : Blake3Hex
  currentB3 : Blake3Hex
  deriving DecidableEq

inductive TitleIndexError where
  | InstallDigestImmutable
  | NotInstalled
  | NotEmpty
  deriving DecidableEq, Repr

set_option linter.dupNamespace false in
inductive StoreError where
  | Sqlite (text : Text)
  | TitleIndex (e : TitleIndexError)
  | Digest (text : Text)
  | TitleId (e : TitleIdError)
  deriving DecidableEq, Repr

-- The columns of a row as they are stored.
structure Row where
  titleId : Text
  path : Text
  installB3 : Text
  currentB3 : Text
  deriving DecidableEq, Repr

-- `CREATE UNIQUE INDEX title_index_path ON title_index (path) WHERE path <> ''`
def Row.key (row : Row) : Option Text := if row.path = [] then none else some row.path

abbrev IndexTx (α : Type) := Tx StoreError (List Row) α

def sqliteFault : StoreError := .Sqlite "statement failed".toList

def uniqueFault : StoreError := .Sqlite "UNIQUE constraint failed: title_index.path".toList

section Statements

def insert (row : Row) (rows : List Row) : Except StoreError (Unit × List Row) :=
  match Rows.insert Row.key row rows with
  | some next => .ok ((), next)
  | none => .error uniqueFault

-- An update answers with the number of rows it selected.
def update (change : Row → Option Row) (rows : List Row) : Except StoreError (Nat × List Row) :=
  match Rows.update Row.key change rows with
  | some next => .ok ((Rows.selected change rows).length, next)
  | none => .error uniqueFault

-- `ORDER BY title_id, path`
def listOrder (a b : Row) : Prop :=
  a.titleId < b.titleId ∨ (a.titleId = b.titleId ∧ a.path ≤ b.path)

instance : DecidableRel listOrder := fun _ _ => inferInstanceAs (Decidable (_ ∨ _))

end Statements

section

variable [UnicodeTables]

def TitleIndexEntry.row (entry : TitleIndexEntry) : Row where
  titleId := entry.titleId.render
  path := entry.path
  installB3 := entry.installB3.text
  currentB3 := entry.currentB3.text

def entryFromRow (row : Row) : Except StoreError TitleIndexEntry := do
  let titleId ← (TitleId.parse row.titleId).mapError .TitleId
  let installB3 ← (Blake3Hex.parse row.installB3).mapError .Digest
  let currentB3 ← (Blake3Hex.parse row.currentB3).mapError .Digest
  pure { titleId, path := row.path, installB3, currentB3 }

def getPath (path : Text) : IndexTx (Option TitleIndexEntry) :=
  if path = [] then pure none
  else Tx.query sqliteFault fun rows =>
    match rows.find? fun row => row.path = path with
    | none => pure none
    | some row => some <$> entryFromRow row

def listTitles : IndexTx (List TitleIndexEntry) :=
  Tx.query sqliteFault fun rows => (rows.insertionSort listOrder).mapM entryFromRow

section Install

variable (titleId : TitleId) (digest : Blake3Hex) (path : Text)

def backfill (row : Row) : Option Row :=
  if row.titleId = titleId.render ∧ row.path = [] ∧ row.installB3 = digest.text then
    some { row with path }
  else none

-- The first install of a path. A row of the title that has no path yet and the
-- same digest is filled in instead.
def recordInstall : IndexTx Unit := do
  if path = [] then throw (.Sqlite "title_index path must not be empty".toList)
  match ← getPath path with
  | some existing =>
      if existing.installB3 = digest then pure ()
      else throw (.TitleIndex .InstallDigestImmutable)
  | none => do
      let backfilled ←
        Tx.autocommit (Tx.execute sqliteFault (update (backfill titleId digest path)))
      if backfilled > 0 then pure ()
      else
        let row := (TitleIndexEntry.mk titleId path digest digest).row
        Tx.autocommit (Tx.execute sqliteFault (insert row))

end Install

omit [UnicodeTables] in
def replaced (path : Text) (currentB3 : Blake3Hex) (row : Row) : Option Row :=
  if row.path = path ∧ row.path ≠ [] then some { row with currentB3 := currentB3.text } else none

omit [UnicodeTables] in
def recordReplace (path : Text) (currentB3 : Blake3Hex) : IndexTx Unit := do
  let n ← Tx.autocommit (Tx.execute sqliteFault (update (replaced path currentB3)))
  if n = 0 then throw (.TitleIndex .NotInstalled)

def insertRows : List TitleIndexEntry → IndexTx Unit
  | [] => pure ()
  | entry :: rest => do
      Tx.execute sqliteFault (insert entry.row)
      insertRows rest

def importBody (rows : List TitleIndexEntry) : IndexTx Unit := do
  let n ← Tx.query sqliteFault fun present => pure present.length
  if n > 0 then throw (.TitleIndex .NotEmpty)
  insertRows rows

def importRows (rows : List TitleIndexEntry) : IndexTx Unit :=
  Tx.atomically sqliteFault (importBody rows)

end

end Mediaops.TitleIndex
