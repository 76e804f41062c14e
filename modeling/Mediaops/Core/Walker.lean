import Mediaops.Core.Home
import Mediaops.Core.PathSchema.Rendered
import Mathlib.Data.List.Sort

namespace Mediaops.Walker

-- The allowlist walker of the far side: what it lists of the roots it may see,
-- and how it finds a listed file again.

structure FileInfo where
  len : UInt64
  mtime : Int
  nlink : Nat
  deriving DecidableEq, Repr

abbrev FileName := { name : Text // PathSchema.IsName name }

-- The entries of a directory in the order in which they are read. A directory
-- holds its own entries and may refuse to be read.
inductive Entries where
  | Nil
  | File (name : FileName) (info : FileInfo) (rest : Entries)
  | Dir (name : FileName) (readable : Bool) (children rest : Entries)
  | Symlink (name : FileName) (rest : Entries)
  | Other (name : FileName) (rest : Entries)

inductive Found where
  | File (info : FileInfo)
  | Dir (readable : Bool) (children : Entries)
  | Symlink
  | Other

def Entries.names : Entries → List Text
  | Nil => []
  | File name _ rest => name.1 :: rest.names
  | Dir name _ _ rest => name.1 :: rest.names
  | Symlink name rest => name.1 :: rest.names
  | Other name rest => name.1 :: rest.names

-- No directory has two entries of one name.
def Entries.Distinct : Entries → Prop
  | Nil => True
  | File name _ rest => name.1 ∉ rest.names ∧ rest.Distinct
  | Dir name _ children rest => name.1 ∉ rest.names ∧ children.Distinct ∧ rest.Distinct
  | Symlink name rest => name.1 ∉ rest.names ∧ rest.Distinct
  | Other name rest => name.1 ∉ rest.names ∧ rest.Distinct

def Entries.lookup (wanted : Text) : Entries → Option Found
  | Nil => none
  | File name info rest => if name.1 = wanted then some (.File info) else rest.lookup wanted
  | Dir name readable children rest =>
      if name.1 = wanted then some (.Dir readable children) else rest.lookup wanted
  | Symlink name rest => if name.1 = wanted then some .Symlink else rest.lookup wanted
  | Other name rest => if name.1 = wanted then some .Other else rest.lookup wanted

-- An allowlisted root that `add_root` has accepted.
structure Root where
  id : Text
  canonical : Text
  readable : Bool
  entries : Entries
  named : id ≠ []
  absolute : Path.isAbsolute canonical = true
  distinct : entries.Distinct

structure Allowlist where
  roots : List Root
  ids : (roots.map Root.id).Nodup

structure RemoteEntry where
  ref : RemoteRef
  len : UInt64
  mtime : Int
  nlink : Nat
  deriving DecidableEq

inductive WalkerError where
  | UnknownPath (path : Text)
  | Io (path : Text)
  deriving DecidableEq, Repr

-- Anything under a `torrents/incomplete` directory, seen from the absolute path.
def isTorrentSkip (path : Text) : Bool :=
  let names := PathSchema.normalNames (Path.components path)
  (names.zip names.tail).any fun (first, second) =>
    first = "torrents".toList && second = "incomplete".toList

-- A path that grows by one component at a time.
def Root.path (root : Root) (names : List Text) : Text := names.foldl Path.join root.canonical

def relText (names : List FileName) : Text := Text.joinWith '/' (names.map Subtype.val)

theorem components_relText (names : List FileName) :
    Path.components (relText names) = names.map fun name => .Normal name.1 := by
  unfold relText
  rw [PathSchema.components_join]
  · simp
  · intro name hname
    obtain ⟨found, -, rfl⟩ := List.mem_map.mp hname
    exact found.2

theorem relText_head {name : FileName} {names : List FileName} :
    (relText (name :: names)).head? = name.1.head? := by
  have hne := name.2.ne
  unfold relText
  cases names with
  | nil => simp [Text.joinWith]
  | cons next rest =>
      rw [List.map_cons, Text.joinWith_cons _ _ (by simp)]
      cases h : name.1 with
      | nil => exact absurd h hne
      | cons c text => rfl

-- What the walker builds is what a receiver would accept.
theorem check_relText {id : Text} (hid : id ≠ []) {names : List FileName} (hne : names ≠ []) :
    RemoteRef.check id (relText names) = .ok () := by
  obtain ⟨name, rest, rfl⟩ := List.exists_cons_of_ne_nil hne
  have hhead := @relText_head name rest
  have hrel : relText (name :: rest) ≠ [] := by
    intro h
    rw [h] at hhead
    exact name.2.ne (by simpa using hhead.symm)
  have habs : Path.isAbsolute (relText (name :: rest)) = false := by
    unfold Path.isAbsolute
    rw [hhead]
    cases h : name.1 with
    | nil => rfl
    | cons c text =>
        have hc : c ≠ '/' := by
          rintro rfl
          exact name.2.noSlash (by rw [h]; simp)
        simp [hc]
  have hcontained : RemoteRef.isContainedRelative (relText (name :: rest)) = true := by
    unfold RemoteRef.isContainedRelative
    rw [habs, components_relText]
    simp
  unfold RemoteRef.check
  rw [if_neg hid, if_neg (by simp [hrel, hcontained])]
  rfl

def Root.ref (root : Root) (rel : List FileName) (name : FileName) : RemoteRef where
  rootId := root.id
  relPath := relText (rel ++ [name])
  valid := check_relText root.named (by simp)

-- `walk_dir` without a list of skipped paths: the first failure ends the walk.
-- Symlinks are never followed.
def walkDir (root : Root) (rel : List FileName) : Entries → Except WalkerError (List RemoteEntry)
  | .Nil => pure []
  | .File name info rest => do
      let later ← walkDir root rel rest
      if isTorrentSkip (root.path ((rel ++ [name]).map Subtype.val)) then pure later
      else pure ({ ref := root.ref rel name, len := info.len, mtime := info.mtime,
                   nlink := info.nlink } :: later)
  | .Dir name readable children rest => do
      let path := root.path ((rel ++ [name]).map Subtype.val)
      let here ← (
        if isTorrentSkip path then pure []
        else if readable then walkDir root (rel ++ [name]) children
        else throw (.Io path))
      let later ← walkDir root rel rest
      pure (here ++ later)
  | .Symlink _ rest => walkDir root rel rest
  | .Other _ rest => walkDir root rel rest

def listRoots : List Root → Except WalkerError (List RemoteEntry)
  | [] => pure []
  | root :: rest => do
      let here ← (
        if root.readable then walkDir root [] root.entries else throw (.Io root.canonical))
      let later ← listRoots rest
      pure (here ++ later)

-- By root and then by path; paths compare by their components.
def entryOrder (a b : RemoteEntry) : Prop :=
  a.ref.rootId < b.ref.rootId ∨ (a.ref.rootId = b.ref.rootId ∧
    PathSchema.normalNames (Path.components a.ref.relPath) ≤
      PathSchema.normalNames (Path.components b.ref.relPath))

instance : DecidableRel entryOrder := fun _ _ => inferInstanceAs (Decidable (_ ∨ _))

namespace Allowlist

def list (allowlist : Allowlist) : Except WalkerError (List RemoteEntry) := do
  let entries ← listRoots allowlist.roots
  pure (entries.insertionSort entryOrder)

end Allowlist

-- `join_unfollowed`: every component must be there and not be a symlink. The
-- check that the reference stays inside its root is part of `RemoteRef`.
def follow (rel : Text) : Text → Found → List Component → Except WalkerError (Text × Found)
  | path, found, [] => pure (path, found)
  | path, .Dir _ children, .Normal name :: rest =>
      match children.lookup name with
      | none | some .Symlink => throw (.UnknownPath (Path.join path name))
      | some found => follow rel (Path.join path name) found rest
  | path, _, .Normal name :: _ => throw (.UnknownPath (Path.join path name))
  | _, _, _ => throw (.UnknownPath rel)

namespace Allowlist

def find (allowlist : Allowlist) (rootId : Text) : Option Root :=
  allowlist.roots.find? fun root => root.id = rootId

-- The path of a reference and what is found there.
def locate (allowlist : Allowlist) (remote : RemoteRef) : Except WalkerError (Text × Found) := do
  match allowlist.find remote.rootId with
  | none => throw (.UnknownPath remote.rootId)
  | some root =>
      let (path, found) ← follow remote.relPath root.canonical
        (.Dir root.readable root.entries) (Path.components remote.relPath)
      if isTorrentSkip path then throw (.UnknownPath path)
      pure (path, found)

def absolute (allowlist : Allowlist) (remote : RemoteRef) : Except WalkerError Text :=
  (allowlist.locate remote).map Prod.fst

def entry (allowlist : Allowlist) (remote : RemoteRef) : Except WalkerError RemoteEntry := do
  let (path, found) ← allowlist.locate remote
  match found with
  | .File info => pure { ref := remote, len := info.len, mtime := info.mtime, nlink := info.nlink }
  | _ => throw (.UnknownPath path)

end Allowlist

end Mediaops.Walker
