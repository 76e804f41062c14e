import Mediaops.Core.Walker
import Mathlib.Data.Prod.Lex

namespace Mediaops.Reclaim

-- Which remote files may be deleted because the library has them, and in which
-- order. Ratios are the values of an order; nothing else about them is used.

open Walker

-- A schema file on the library's disk.
structure InstalledFile [UnicodeTables] where
  titleId : TitleId
  fileKey : FileKey
  path : Text
  deriving DecidableEq

structure TitleIndexEntry [UnicodeTables] where
  titleId : TitleId
  path : Text
  installB3 : Text
  currentB3 : Text

def TitleIndexEntry.pathMissing [UnicodeTables] (row : TitleIndexEntry) : Bool := row.path = []

def libraryMedia : List Text :=
  ["mkv", "mp4", "m4v", "avi", "ts", "mov", "webm", "wmv", "flac", "mp3", "m4a", "ogg", "opus",
    "wav", "aac", "aiff"].map String.toList

-- `Path::extension` of a file name.
def extension (name : Text) : Option Text :=
  match Text.rsplitOnce '.' name with
  | some (stem, ext) => if stem = [] then none else some ext
  | none => none

inductive LibraryError where
  | Io (path : Text)
  deriving DecidableEq, Repr

section Scan

variable [UnicodeTables]

def InstalledFile.fromRelPath (rel : Text) : Except PathSchemaError InstalledFile := do
  let (titleId, placement) ← PathSchema.parsePlacement rel
  pure { titleId, fileKey := placement.fileKey, path := rel }

-- What one file of the library counts for.
def scanFile (rel : List FileName) (name : FileName) : List InstalledFile :=
  let ext := Text.toAsciiLowercase ((extension name.1).getD [])
  if libraryMedia.contains ext then
    match InstalledFile.fromRelPath (relText (rel ++ [name])) with
    | .ok file => [file]
    | .error _ => []
  else []

-- A link is entered as what it leads to; one that leads nowhere is skipped.
def scanTree (rel : List FileName) (depth maxDepth : Nat) :
    Entries → Except LibraryError (List InstalledFile)
  | .Nil => pure []
  | .File name _ rest => do
      let later ← scanTree rel depth maxDepth rest
      pure (scanFile rel name ++ later)
  | .Dir name readable children rest => do
      let here ← (
        if depth < maxDepth then
          if readable then scanTree (rel ++ [name]) (depth + 1) maxDepth children
          else throw (.Io (relText (rel ++ [name])))
        else pure [])
      let later ← scanTree rel depth maxDepth rest
      pure (here ++ later)
  | .Symlink _ rest => scanTree rel depth maxDepth rest
  | .Other _ rest => scanTree rel depth maxDepth rest

def movies : FileName := ⟨"movies".toList, by constructor <;> decide⟩
def series : FileName := ⟨"series".toList, by constructor <;> decide⟩
def music : FileName := ⟨"music".toList, by constructor <;> decide⟩

def scanKind (library : Entries) (kind : FileName) : Except LibraryError (List InstalledFile) :=
  match library.lookup kind.1 with
  | some (.Dir readable children) =>
      if readable then scanTree [kind] 1 (if kind = music then 4 else 3) children
      else throw (.Io kind.1)
  | _ => pure []

def scanKinds (library : Entries) : List FileName → Except LibraryError (List InstalledFile)
  | [] => pure []
  | kind :: rest => do
      let here ← scanKind library kind
      let later ← scanKinds library rest
      pure (here ++ later)

def scanSchemaFiles (library : Entries) : Except LibraryError (List InstalledFile) :=
  scanKinds library [movies, series, music]

end Scan

-- The states of a torrent that is known not to seed.
def downloadStates : List Text :=
  ["downloading", "pausedDL", "queuedDL", "stalledDL", "stoppedDL", "metaDL", "forcedDL",
    "checkingDL", "allocating", "checkingResumeData", "error", "missingFiles"].map String.toList

def isSeeding (state : Text) : Bool := !downloadStates.contains state

structure GuardPreviewItem (R : Type) where
  hash : Text
  state : Text
  ratio : R
  isPrivate : Bool
  contentPath : Text
  savePath : Text
  remote : Option RemoteRef

def isFsRoot (path : Text) : Bool :=
  let comps := Path.components path
  comps.all (fun c => c = .RootDir || c = .CurDir) && comps.contains .RootDir

def isNormal : Component → Bool
  | .Normal _ => true
  | _ => false

def isStrictUnder (file root : Text) : Bool :=
  let rootComps := Path.components root
  let fileComps := Path.components file
  if rootComps = [] ∨ fileComps.length ≤ rootComps.length then false
  else if (rootComps.countP isNormal) < 2 then false
  else rootComps.isPrefixOf fileComps

section Cover

variable [UnicodeTables]

def coversOne (root file : Text) : Bool :=
  if root = [] then false
  else if isFsRoot root then false
  else if Path.equal file root then true
  else if isStrictUnder file root then true
  else (PathSchema.parsePlacement file).toBool &&
    (Path.components file).isSuffixOf (Path.components root)

def torrentCoversFile (contentPath savePath file : Text) : Bool :=
  coversOne contentPath file || coversOne savePath file

namespace GuardPreviewItem

variable {R : Type}

def coversPath (item : GuardPreviewItem R) (absolute : Text) : Bool :=
  torrentCoversFile item.contentPath item.savePath absolute

-- The item carries a reference to this very file.
def refersTo (item : GuardPreviewItem R) (remote : RemoteRef) : Bool :=
  item.remote.any fun own => own.key = remote.key

def guards (item : GuardPreviewItem R) (remote : RemoteRef) (absolute : Option Text) : Bool :=
  item.refersTo remote || absolute.any item.coversPath || item.coversPath remote.relPath

def matchesRemote (item : GuardPreviewItem R) (remote : RemoteRef) : Bool :=
  item.guards remote none

variable [LinearOrder R] (goalRatio : R)

omit [UnicodeTables] in
def blocksDelete (item : GuardPreviewItem R) : Bool :=
  isSeeding item.state || (item.isPrivate && item.ratio < goalRatio)

end GuardPreviewItem

structure ReclaimCandidate (R : Type) where
  titleId : TitleId
  remote : RemoteRef
  len : UInt64
  mtime : Int
  ratio : Option R
  isPrivate : Option Bool

abbrev RootKinds := Text → Option TitleKind

def classifyRemote (rootKinds : RootKinds) (entry : RemoteEntry) :
    Except PathSchemaError (TitleId × Placement) :=
  PathSchema.parseRemote (rootKinds entry.ref.rootId) entry.ref.relPath

-- A row proves the file at its path; a row without one proves a title of one file.
def indexes (row : TitleIndexEntry) (titleId : TitleId) (placement : Placement) (path : Text) :
    Bool :=
  row.path = path ||
    (row.pathMissing && row.titleId = titleId && placement.fileKey = .Whole)

variable {R : Type}

def provedEntry (rootKinds : RootKinds) (titleIndex : List TitleIndexEntry)
    (onDisk : List InstalledFile) (entry : RemoteEntry) : Option (ReclaimCandidate R) :=
  if 1 < entry.nlink then none
  else match classifyRemote rootKinds entry with
    | .error _ => none
    | .ok (titleId, placement) =>
        match PathSchema.renderPlacement placement with
        | .error _ => none
        | .ok path =>
            if (onDisk.any fun file => file.path = path) &&
                titleIndex.any fun row => indexes row titleId placement path then
              some { titleId, remote := entry.ref, len := entry.len, mtime := entry.mtime,
                     ratio := none, isPrivate := none }
            else none

def reclaimProved (listings : List RemoteEntry) (rootKinds : RootKinds)
    (titleIndex : List TitleIndexEntry) (onDisk : List InstalledFile) :
    List (ReclaimCandidate R) :=
  listings.filterMap (provedEntry rootKinds titleIndex onDisk)

section Rank

variable [LinearOrder R] (goalRatio zero : R)

omit [UnicodeTables] in
def torrentRank (item : GuardPreviewItem R) : Bool ×ₗ R := toLex (item.isPrivate, item.ratio)

omit [UnicodeTables] in
-- `Iterator::max_by`: the last of the greatest.
def best : List (GuardPreviewItem R) → Option (GuardPreviewItem R)
  | [] => none
  | item :: rest =>
      match best rest with
      | none => some item
      | some other => if torrentRank item ≤ torrentRank other then some other else some item

-- One torrent gives both fields of the rank.
def withRank (candidate : ReclaimCandidate R) (covering : List (GuardPreviewItem R)) :
    ReclaimCandidate R :=
  match best covering with
  | some item => { candidate with ratio := some item.ratio, isPrivate := some item.isPrivate }
  | none => candidate

def previewOne (torrents : List (GuardPreviewItem R)) (candidate : ReclaimCandidate R) :
    Option (ReclaimCandidate R) :=
  let covering := torrents.filter fun t => t.matchesRemote candidate.remote
  if covering.any fun t => t.blocksDelete goalRatio then none
  else some (withRank candidate covering)

def rankKey (candidate : ReclaimCandidate R) : Bool ×ₗ R ×ₗ Int :=
  toLex (candidate.isPrivate.getD false, toLex (candidate.ratio.getD zero, candidate.mtime))

def reclaimPreview (listings : List RemoteEntry) (rootKinds : RootKinds)
    (titleIndex : List TitleIndexEntry) (onDisk : List InstalledFile)
    (torrents : List (GuardPreviewItem R)) : List (ReclaimCandidate R) :=
  ((reclaimProved listings rootKinds titleIndex onDisk).filterMap
    (previewOne goalRatio torrents)).insertionSort fun a b => rankKey zero a ≤ rankKey zero b

-- The references of the `DeleteRemote` actions.
def reclaimActions (listings : List RemoteEntry) (rootKinds : RootKinds)
    (titleIndex : List TitleIndexEntry) (onDisk : List InstalledFile)
    (torrents : List (GuardPreviewItem R)) : List RemoteRef :=
  (reclaimPreview goalRatio zero listings rootKinds titleIndex onDisk torrents).map
    ReclaimCandidate.remote

end Rank

end Cover

end Mediaops.Reclaim
