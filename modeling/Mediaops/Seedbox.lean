import Mediaops.Arr
import Mediaops.Reclaim

namespace Mediaops.Seedbox

-- The far side's own use of the allowlist: the guard it runs before it deletes
-- and the references it attaches to what it reports.

open Walker Reclaim
open Arr (HoldLiveItem)

-- What the process asks the system about a path: its working directory, where
-- links lead, and how a root was written before they were followed.
structure Host where
  cwd : Option Text
  canonicalize : Text → Option Text
  original : Root → Text

def startsWith (path base : Text) : Bool := (Path.components base).isPrefixOf (Path.components path)

-- `strip_prefix`: what is left of a path below a base.
def stripBase (base path : Text) : Option Text :=
  if startsWith path base then
    some (Text.joinWith '/' (PathSchema.normalNames
      ((Path.components path).drop (Path.components base).length)))
  else none

-- A reference whose path is empty is refused here; `entry` refuses it in the source.
def refForCanonical (roots : List Root) (original canonical : Text) :
    Except WalkerError RemoteRef :=
  match roots.findSome? fun root => (stripBase root.canonical canonical).map fun rel => (root, rel) with
  | none => throw (.UnknownPath original)
  | some (root, rel) =>
      if valid : RemoteRef.check root.id rel = .ok () then pure { rootId := root.id, relPath := rel, valid }
      else throw (.UnknownPath original)

def resolve (host : Host) (allowlist : Allowlist) (path : Text) : Except WalkerError RemoteRef := do
  if Component.ParentDir ∈ Path.components path then throw (.UnknownPath path)
  let absolute ← (
    if Path.isAbsolute path then pure path
    else match host.cwd with
      | some cwd => pure (Path.join cwd path)
      | none => throw (.Io path))
  if !allowlist.roots.any fun root =>
      startsWith absolute root.canonical || startsWith absolute (host.original root) then
    throw (.UnknownPath path)
  match host.canonicalize path with
  | none => throw (.UnknownPath path)
  | some canonical => do
      let remote ← refForCanonical allowlist.roots path canonical
      if isTorrentSkip canonical then throw (.UnknownPath path)
      pure remote

def isHoldMediaName (name : Text) : Bool :=
  let lower := Text.toAsciiLowercase name
  if "sample".toList <:+: lower then false
  else match Text.rsplitOnce '.' lower with
    | some (_, ext) => Arr.mediaExtensions.contains ext
    | none => false

-- A listed media file at a path or below it.
def holdMediaUnder (allowlist : Allowlist) (path : Text) (entry : RemoteEntry) : Bool :=
  match allowlist.absolute entry.ref with
  | .ok absolute =>
      (Path.equal absolute path || startsWith absolute path) &&
        (Path.fileName absolute).any isHoldMediaName
  | .error _ => false

-- The one file that an output path stands for.
def outputRemote (host : Host) (allowlist : Allowlist) (raw : Text) : Option RemoteRef :=
  let resolved := do
    let remote ← resolve host allowlist raw
    let _ ← allowlist.entry remote
    pure remote
  match resolved with
  | .ok remote => some remote
  | .error _ =>
      match allowlist.list with
      | .error _ => none
      | .ok entries =>
          match entries.filter (holdMediaUnder allowlist raw) with
          | [entry] => some entry.ref
          | _ => none

inductive DeleteRemoteOutcome where
  | Deleted
  | SkippedSeeding
  deriving DecidableEq, Repr

variable [UnicodeTables] {R : Type} [LinearOrder R] (goalRatio : R)

-- `delete_remote_locked` up to its unlink, which is the last call.
def deleteRemoteLocked (allowlist : Allowlist) (remote : RemoteRef)
    (torrents : List (GuardPreviewItem R)) : Except WalkerError DeleteRemoteOutcome := do
  let path ← allowlist.absolute remote
  let entry ← allowlist.entry remote
  if 1 < entry.nlink then pure .SkippedSeeding
  else if torrents.any fun t =>
      t.guards remote (some path) && t.blocksDelete goalRatio then pure .SkippedSeeding
  else pure .Deleted

variable {goalRatio}

omit [LinearOrder R] in
-- Whether a torrent covers a listed file.
def coversEntry (allowlist : Allowlist) (torrent : GuardPreviewItem R) (entry : RemoteEntry) :
    Bool :=
  match allowlist.absolute entry.ref with
  | .ok path => torrent.coversPath path
  | .error _ => false

omit [LinearOrder R] in
-- A torrent without a reference gets that of the first listed file it covers.
def attachGuardRemote (allowlist : Allowlist) (entries : List RemoteEntry)
    (torrent : GuardPreviewItem R) : GuardPreviewItem R :=
  if torrent.remote.isSome then torrent
  else match entries.find? (coversEntry allowlist torrent) with
    | some entry => { torrent with remote := some entry.ref }
    | none => torrent

omit [LinearOrder R] in
def attachGuardRemotes (allowlist : Allowlist) (torrents : List (GuardPreviewItem R)) :
    List (GuardPreviewItem R) :=
  match allowlist.list with
  | .error _ => torrents
  | .ok entries => torrents.map (attachGuardRemote allowlist entries)

def attachRemoteFromOutputPath (host : Host) (allowlist : Allowlist) (item : HoldLiveItem) :
    HoldLiveItem :=
  if item.remote.isSome then item
  else match item.outputPath.bind (outputRemote host allowlist) with
    | some remote => { item with remote := some (remote.rootId, remote.relPath) }
    | none => item

-- `hold_list`: what every queue holds, with the files attached.
def holdList (host : Host) (allowlist : Allowlist) (titleDigest : Text → Text) (now : Int)
    (queues : List Json) : List HoldLiveItem :=
  (queues.flatMap (Arr.holdItemsFromQueue titleDigest now)).map
    (attachRemoteFromOutputPath host allowlist)

end Mediaops.Seedbox
