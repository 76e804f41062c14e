import Mediaops.Install.Slot

namespace Mediaops.Install

-- The replacement of a live file by its conversion, with the live bytes kept aside.

open Transfer (Volume Mounted onVolume look step change stat openFile)
open InstallTemporary (copyIntoPlace)

-- How many names deep a walk over a rest of a path is.
def staysUnder : Int → List Component → Bool
  | _, [] => true
  | depth, .Normal _ :: rest => staysUnder (depth + 1) rest
  | depth, .CurDir :: rest => staysUnder depth rest
  | depth, .ParentDir :: rest => if depth - 1 < 0 then false else staysUnder (depth - 1) rest
  | _, .RootDir :: _ => false

-- `strip_prefix` takes the components as they are spelled.
def isUnder (root candidate : Text) : Bool :=
  if Path.components root <+: Path.components candidate then
    staysUnder 0 ((Path.components candidate).drop (Path.components root).length)
  else false

def schemaDirs : List Text := ["movies".toList, "series".toList, "music".toList]

def backupInSchemaDir (libraryRoot backup : Text) : Bool :=
  schemaDirs.any fun dir => isUnder (Path.join libraryRoot dir) backup

section

variable [UnicodeTables]

-- A conversion carries the name of the file it is to replace.
structure VerifiedConvertingHandle where
  source : Text
  destRel : Text
  rendered : ∃ titleId placement, PathSchema.render titleId placement = .ok destRel ∧
    checkTitle titleId destRel = .ok ()
  named : ∃ name, Path.fileName destRel = some name ∧
    Path.fileName source = some (name ++ ".converting".toList)

section

variable {W : Type} [Mounted W]

def rejectSymlinkFile (path : Text) (onSymlink : InstallError) : Prog W InstallError Unit := do
  match ← stat (.Io path) path with
  | none => throw (.MissingSource path)
  | some (.Other, _) => throw onSymlink
  | some (.File _, _) => pure ()

def VerifiedConvertingHandle.verify (titleId : TitleId) (source : Text) (placement : Placement) :
    Prog W InstallError VerifiedConvertingHandle :=
  match hsource : Path.fileName source with
  | none => throw (.NotConverting source)
  | some found =>
      match hrender : PathSchema.render titleId placement with
      | .error e => throw (.PathSchema e)
      | .ok destRel =>
          match htitle : checkTitle titleId destRel with
          | .error e => throw e
          | .ok () =>
              match hname : Path.fileName destRel with
              | none => throw (.NotConverting source)
              | some name =>
                  if h : found = name ++ ".converting".toList then do
                    rejectSymlinkFile source (.NotConverting source)
                    pure {
                      source
                      destRel
                      rendered := ⟨titleId, placement, hrender, htitle⟩
                      named := ⟨name, hname, by rw [hsource, h]⟩ }
                  else throw (.NotConverting source)

-- A file that is there and no link.
def checkLive (dest : Text) : Prog W InstallError Unit := do
  match ← stat (.MissingLive dest) dest with
  | some (.File _, _) => pure ()
  | _ => throw (.MissingLive dest)

end

-- What is looked at before the live file is touched.
def checkConversion (dest backupDestination : Text) (handle : VerifiedConvertingHandle) :
    Prog Disk InstallError Unit := do
  Site.Parents.run (step (.Io (parentOf backupDestination)))
  let i ← Site.Conversion.run (openFile (.Io handle.source) handle.source)
  -- A conversion must not alias live media or its backup when promoted.
  if (← Site.Metadata.run (links (.Io handle.source) i)) ≠ 1 then
    throw (.NotConverting handle.source)
  Site.Schema.run (step (.Io (parentOf dest)))
  Site.Readable.run (step (.Io handle.source))

def promote (source dest backupDestination : Text) : Prog Disk InstallError Text := do
  match ← (Site.Rename.run (change (.Io source) fun files => files.rename source dest)).attempt with
  | .ok () =>
      Site.SyncLive.run (step (.Io (parentOf dest)))
      pure dest
  | .error e =>
      -- Discard only the duplicate this call created.
      Site.Restore.run ((remove backupDestination).mapError fun _ => .RollbackFailed dest)
      throw e

variable (b3 : Bytes → Blake3Hex)

-- The calls of `replace`, once the title and the place of the backup are accepted.
def exchange (dest backupDestination : Text) (handle : VerifiedConvertingHandle) :
    Prog Disk InstallError Text := do
  Site.Live.run (checkLive dest)
  -- A backup that cannot be looked at counts as absent.
  match ← (Site.Backup.run (stat (.Io backupDestination) backupDestination)).attempt with
  | .ok (some _) => throw (.BackupExists backupDestination)
  | _ =>
      checkConversion dest backupDestination handle
      -- Preserve the live entry until the encoded file can replace it atomically.
      copyIntoPlace b3 dest backupDestination
      promote handle.source dest backupDestination

def replace (libraryRoot : Text) (titleId : TitleId) (handle : VerifiedConvertingHandle)
    (backupDestination : Text) : Prog Disk InstallError Text := do
  Prog.lift (checkTitle titleId handle.destRel)
  if backupInSchemaDir libraryRoot backupDestination then
    throw (.BackupInsideLibrary backupDestination)
  exchange b3 (Path.join libraryRoot handle.destRel) backupDestination handle

end

end Mediaops.Install
