import Mediaops.Library.Files
import Mediaops.Library.Text
import Mediaops.Library.Trees
import Mathlib.Data.List.Sort
import Mathlib.Data.List.Lex
import Mathlib.Data.Prod.Lex

namespace Mediaops.FileWalk

-- The allowlist walker over the whole file system of a host: how its roots are added,
-- what it lists of them, and how a path or a reference finds a listed file again.

open FileTree

abbrev OsStr := Bytes

def OsStr.ofString (s : String) : OsStr := s.toList.flatMap String.utf8EncodeChar

-- A byte of a sequence after its first.
def isContinuation (byte : UInt8) : Bool := 0x80 ≤ byte && byte ≤ 0xBF

-- `OsStr::to_str`: no overlong sequence, no surrogate, and nothing after U+10FFFF.
def isUtf8 : OsStr → Bool
  | [] => true
  | a :: rest =>
      if a < 0x80 then isUtf8 rest
      else match rest with
        | [] => false
        | b :: rest =>
            if 0xC2 ≤ a ∧ a ≤ 0xDF then isContinuation b && isUtf8 rest
            else match rest with
              | [] => false
              | c :: rest =>
                  if 0xE0 ≤ a ∧ a ≤ 0xEF then
                    isContinuation b && isContinuation c &&
                      (a != 0xE0 || 0xA0 ≤ b) && (a != 0xED || b ≤ 0x9F) && isUtf8 rest
                  else match rest with
                    | [] => false
                    | d :: rest =>
                        0xF0 ≤ a && a ≤ 0xF4 && isContinuation b && isContinuation c &&
                          isContinuation d && (a != 0xF0 || 0x90 ≤ b) && (a != 0xF4 || b ≤ 0x8F) &&
                          isUtf8 rest

structure FileInfo where
  len : UInt64
  mtime : Int
  nlink : Nat
  readable : Bool
  deriving DecidableEq, Repr

-- A file system that does not change, and the directory that relative paths start at.
structure Host where
  fs : Found OsStr FileInfo
  cwd : List OsStr
  distinct : fs.Distinct
  top : IsDir fs []
  home : IsDir fs cwd

namespace Host

-- `realpath` gives up after this many symlinks.
def maxLinks : Nat := 40

def canonicalize (host : Host) (path : Route OsStr) : Except Fault (List OsStr) :=
  FileTree.canonicalize host.fs maxLinks host.cwd path

def symlinkMetadata (host : Host) (path : List OsStr) : Except Fault (Found OsStr FileInfo) :=
  lstat host.fs maxLinks path

end Host

structure RemoteRef where
  rootId : Text
  relPath : Route OsStr
  deriving DecidableEq, Repr

structure RemoteEntry where
  ref : RemoteRef
  len : UInt64
  mtime : Int
  nlink : Nat
  deriving DecidableEq, Repr

-- References and entries are equal when their paths have the same components.
def RemoteRef.Same (a b : RemoteRef) : Prop :=
  a.rootId = b.rootId ∧ a.relPath.components = b.relPath.components

def RemoteEntry.Same (a b : RemoteEntry) : Prop :=
  a.ref.Same b.ref ∧ a.len = b.len ∧ a.mtime = b.mtime ∧ a.nlink = b.nlink

-- What an error names.
inductive Subject where
  | Root (id : Text)
  | Spelled (path : Route OsStr)
  | Absolute (path : List OsStr)
  deriving DecidableEq, Repr

inductive WalkerError where
  | UnknownPath (subject : Subject)
  | NotDirectory (path : Route OsStr)
  | DuplicateRoot (rootId : Text)
  | DuplicateCanonical (path : List OsStr)
  | NestedRoot (root existing : List OsStr)
  | EmptyRootId
  | Io (subject : Subject)
  deriving DecidableEq, Repr

def isContainedRelative (rel : Route OsStr) : Bool :=
  !rel.absolute && rel.components.all fun c => c != .ParentDir && c != .RootDir

-- An allowlisted root: its path as it was given, and the directory that it is.
structure Root where
  id : Text
  original : Route OsStr
  canonical : List OsStr

structure Allowlist where
  roots : List Root

-- Anything under a `torrents/incomplete` directory, seen from the absolute path.
def isTorrentSkip (path : List OsStr) : Bool :=
  let names := path.filter isUtf8
  (names.zip names.tail).any fun (first, second) =>
    first = OsStr.ofString "torrents" && second = OsStr.ofString "incomplete"

-- `rel.join(name)` of a walk.
def Root.entry (root : Root) (names : List OsStr) (info : FileInfo) : RemoteEntry where
  ref := { rootId := root.id, relPath := .through false names }
  len := info.len
  mtime := info.mtime
  nlink := info.nlink

-- `walk_dir` without a list of skipped paths: the first failure ends the walk.
-- Symlinks are never followed.
def walkDir (root : Root) (dir rel : List OsStr) :
    Tree OsStr FileInfo → Except WalkerError (List RemoteEntry)
  | .Nil => pure []
  | .File name info rest => do
      let later ← walkDir root dir rel rest
      if isTorrentSkip (dir ++ [name]) then pure later
      else pure (root.entry (rel ++ [name]) info :: later)
  | .Dir name readable children rest => do
      let here ← (
        if isTorrentSkip (dir ++ [name]) then pure []
        else if readable then walkDir root (dir ++ [name]) (rel ++ [name]) children
        else throw (.Io (.Absolute (dir ++ [name]))))
      let later ← walkDir root dir rel rest
      pure (here ++ later)
  | .Symlink _ _ rest => walkDir root dir rel rest
  | .Other _ rest => walkDir root dir rel rest

-- By root and then by path; paths compare name by name, and names byte by byte.
def sortKey (entry : RemoteEntry) : Text ×ₗ List (List Nat) :=
  toLex (entry.ref.rootId, entry.ref.relPath.names.map fun name => name.map UInt8.toNat)

namespace Allowlist

variable (host : Host)

def new : Allowlist := { roots := [] }

def addRoot (rootId : Text) (path : Route OsStr) (allowlist : Allowlist) :
    Except WalkerError Allowlist := do
  if rootId = [] then throw .EmptyRootId
  if allowlist.roots.any fun r => r.id = rootId then throw (.DuplicateRoot rootId)
  let canonical ← (host.canonicalize path).mapError fun _ => .Io (.Spelled path)
  match host.fs.at canonical with
  | some (.Dir _ _) =>
      if allowlist.roots.any fun r => r.canonical = canonical then
        throw (.DuplicateCanonical canonical)
      -- A nested root would list the same physical file twice under two ids.
      match allowlist.roots.find? fun r =>
          r.canonical <+: canonical ∨ canonical <+: r.canonical with
      | some existing => throw (.NestedRoot canonical existing.canonical)
      | none =>
          pure { roots := allowlist.roots ++ [{ id := rootId, original := path, canonical }] }
  | _ => throw (.NotDirectory path)

def walkRoots : List Root → Except WalkerError (List RemoteEntry)
  | [] => pure []
  | root :: rest => do
      let here ← (
        match host.fs.at root.canonical with
        | some (.Dir true children) => walkDir root root.canonical [] children
        | _ => throw (.Io (.Absolute root.canonical)))
      let later ← walkRoots rest
      pure (here ++ later)

def list (allowlist : Allowlist) : Except WalkerError (List RemoteEntry) := do
  let entries ← walkRoots host allowlist.roots
  pure (entries.insertionSort fun a b => sortKey a ≤ sortKey b)

-- Every component must be there and not be a symlink.
def joinUnfollowed (rel : Route OsStr) :
    List OsStr → List (FileTree.Component OsStr) → Except WalkerError (List OsStr)
  | path, [] => pure path
  | path, .Normal name :: rest =>
      match host.symlinkMetadata (path ++ [name]) with
      | .error _ | .ok (.Symlink _) => throw (.UnknownPath (.Absolute (path ++ [name])))
      | .ok _ => joinUnfollowed rel (path ++ [name]) rest
  | _, _ :: _ => throw (.UnknownPath (.Spelled rel))

-- Resolve a reference to a path under an allowlisted root.
def absolute (allowlist : Allowlist) (remote : RemoteRef) : Except WalkerError (List OsStr) := do
  match allowlist.roots.find? fun r => r.id = remote.rootId with
  | none => throw (.UnknownPath (.Root remote.rootId))
  | some root =>
      if !isContainedRelative remote.relPath then throw (.UnknownPath (.Spelled remote.relPath))
      let path ← joinUnfollowed host remote.relPath root.canonical remote.relPath.components
      if isTorrentSkip path || !decide (root.canonical <+: path) then
        throw (.UnknownPath (.Absolute path))
      pure path

-- The check that `entry` and `unlink` share.
def regularFile (path : List OsStr) : Except WalkerError FileInfo := do
  if isTorrentSkip path then throw (.UnknownPath (.Absolute path))
  match host.symlinkMetadata path with
  | .ok (.File info) => pure info
  | _ => throw (.UnknownPath (.Absolute path))

def entry (allowlist : Allowlist) (remote : RemoteRef) : Except WalkerError RemoteEntry := do
  let path ← absolute host allowlist remote
  let info ← regularFile host path
  pure { ref := remote, len := info.len, mtime := info.mtime, nlink := info.nlink }

-- The path that `remove_file` is called with.
def unlink (allowlist : Allowlist) (remote : RemoteRef) : Except WalkerError (List OsStr) := do
  let path ← absolute host allowlist remote
  let _ ← regularFile host path
  pure path

-- `open` with `O_NOFOLLOW`, which may refuse to read.
def openFile (allowlist : Allowlist) (remote : RemoteRef) : Except WalkerError FileInfo := do
  let path ← absolute host allowlist remote
  let _ ← entry host allowlist remote
  match host.symlinkMetadata path with
  | .ok (.File info) => if info.readable then pure info else throw (.Io (.Absolute path))
  | .ok (.Dir _ _) => throw (.UnknownPath (.Absolute path))
  | _ => throw (.Io (.Absolute path))

def refForCanonical (allowlist : Allowlist) (original : Route OsStr) (canonical : List OsStr) :
    Except WalkerError RemoteRef :=
  match allowlist.roots.find? fun r => r.canonical <+: canonical with
  | some root =>
      pure { rootId := root.id, relPath := .through false (canonical.drop root.canonical.length) }
  | none => throw (.UnknownPath (.Spelled original))

-- `cwd.join(path)`
def fromHere (path : Route OsStr) : Route OsStr :=
  if path.absolute then path else ⟨true, host.cwd.map .Enter ++ path.steps⟩

-- The path is spelled below a root, as it was given or as it is.
def spelledInside (allowlist : Allowlist) (path : Route OsStr) : Bool :=
  let components := (fromHere host path).components
  allowlist.roots.any fun r =>
    decide ((Route.through true r.canonical).components <+: components) ||
      decide (r.original.components <+: components)

def resolve (allowlist : Allowlist) (path : Route OsStr) : Except WalkerError RemoteRef := do
  let unknown : WalkerError := .UnknownPath (.Spelled path)
  if path.components.any fun c => c = .ParentDir then throw unknown
  if !spelledInside host allowlist path then throw unknown
  let canonical ← (host.canonicalize path).mapError fun _ => unknown
  let remoteRef ← refForCanonical allowlist path canonical
  if isTorrentSkip canonical then throw unknown
  pure remoteRef

end Allowlist

-- Calls of `add_root`, successful or not.
def addRoots (host : Host) (calls : List (Text × Route OsStr)) : Allowlist :=
  calls.foldl (fun allowlist call =>
    match Allowlist.addRoot host call.1 call.2 allowlist with
    | .ok next => next
    | .error _ => allowlist) Allowlist.new

end Mediaops.FileWalk
