import Mediaops.Install

namespace Mediaops.Install

-- The slot of a cross-device copy with its directory and its marker, which `Install`
-- passes over, and the copy through it.

open Transfer (Volume Mounted onVolume look step change stat openFile StagingLayout)

-- What the name of a marker holds. A regular file of the program's own with one link
-- is read; anything else does not open or is refused by its metadata.
inductive Marker where
  | Missing
  | NotOpened
  | Foreign
  | Saved (bytes : Bytes)
  deriving DecidableEq, Repr

-- What the name of a slot's directory holds.
inductive SlotDir where
  | Absent
  | NotDirectory
  | Foreign
  | Made (marker : Marker)
  deriving DecidableEq, Repr

structure Disk where
  volume : Volume
  slots : Text → SlotDir

instance : Mounted Disk where
  volume := Disk.volume
  mount volume disk := { disk with volume }
  volume_mount _ _ := rfl
  mount_volume _ := rfl

-- The places where calls are made. A fault is named by its place and by the call
-- there, since one run passes each place once at most.
inductive Site where
  | Live | Backup | Parents | Conversion | Metadata | Schema | Readable
  | Link | SyncParent
  | MakeDir | OpenDir | DirMetadata | OpenMarker | MarkerMetadata | Lock
  | WriteMarker | SyncMarker | SyncDir | SyncDirParent | ReadMarker
  | Clear | Check | Source | SourceMetadata | Create | Chunks | SyncData | CheckCopied
  | LinkData | ClearLinked | SyncLinked
  | Rename | Restore | SyncLive
  deriving DecidableEq, Repr

-- No place makes more than eight calls.
def Site.turn (site : Site) : Nat := 8 * site.ctorIdx

def Site.run {σ ε α : Type} (site : Site) (m : Prog σ ε α) : Prog σ ε α := m.fromTurn site.turn

section

variable {ε α : Type}

def onSlot (dir : Text) (c : Call SlotDir ε α) : Prog Disk ε α :=
  Prog.perform (c.on (fun disk => disk.slots dir)
    fun slot disk => { disk with slots := Function.update disk.slots dir slot })

def lookSlot (dir : Text) (fault : ε) (f : SlotDir → Except ε α) : Prog Disk ε α :=
  onSlot dir { run := fun _ slot => (f slot).map fun a => (a, slot), fault }

end

namespace InstallTemporary

def identity (source dest : Text) : Bytes :=
  ("mediaops-install-v1".toList ++ '\x00' :: source ++ '\x00' :: dest).flatMap
    String.utf8EncodeChar

section

variable (b3 : Bytes → Blake3Hex) (source dest : Text)

def directory : Text :=
  withFileName dest (".mediaops-install-".toList ++ (b3 (identity source dest)).text)

def marker : Text := Path.join (directory b3 source dest) "owner".toList

def paths : Paths where
  staging := .fromStaged source
  dest
  data := slotData b3 identity source dest

-- `DirBuilder::create`: whether the directory is new.
def makeDir (dir : Text) : Prog Disk InstallError Bool :=
  onSlot dir {
    run := fun _ slot =>
      match slot with
      | .Absent => pure (true, .Made .Missing)
      | _ => pure (false, slot)
    fault := .Io dir }

-- Without a directory there is no slot; one that was to be made is missed.
def openDir (dir : Text) (create : Bool) : Prog Disk InstallError Bool :=
  lookSlot dir (.Io dir) fun
    | .Absent => if create then throw (.Io dir) else pure false
    | .NotDirectory => throw (.Io dir)
    | _ => pure true

def checkDir (dir : Text) : Prog Disk InstallError Unit :=
  lookSlot dir (.Io dir) fun
    | .Foreign => throw (.UnsafeTemporary dir)
    | _ => pure ()

-- `create_new` of a marker that is there fails, and so does opening one that is not.
def openMarker (dir path : Text) (created : Bool) : Prog Disk InstallError Unit :=
  onSlot dir {
    run := fun _ slot =>
      match slot with
      | .Made .Missing => if created then pure ((), .Made (.Saved [])) else throw (.Io path)
      | .Made .NotOpened => throw (.Io path)
      | .Made _ => if created then throw (.Io path) else pure ((), slot)
      | _ => throw (.Io path)
    fault := .Io path }

def checkMarker (dir path : Text) : Prog Disk InstallError Unit :=
  lookSlot dir (.Io path) fun
    | .Made .Foreign => throw (.UnsafeTemporary path)
    | _ => pure ()

-- `write_all`: it may end after any part.
def writeMarker (dir path : Text) (bytes : Bytes) : Prog Disk InstallError Unit :=
  onSlot dir {
    run := fun _ _ => pure ((), .Made (.Saved bytes))
    partly := fun part _ => .Made (.Saved (bytes.take part))
    fault := .Io path }

def readMarker (dir path : Text) : Prog Disk InstallError Bytes :=
  lookSlot dir (.Io path) fun
    | .Made (.Saved bytes) => pure bytes
    | _ => throw (.Io path)

-- The marker of a new slot gets the identity; one that was there must have it.
def claim (created : Bool) : Prog Disk InstallError Unit := do
  let dir := directory b3 source dest
  let path := marker b3 source dest
  if created then
    Site.WriteMarker.run (writeMarker dir path (identity source dest))
    Site.SyncMarker.run (step (.Io path))
    Site.SyncDir.run (step (.Io dir))
    Site.SyncDirParent.run (step (.Io (parentOf dir)))
  else
    let saved ← Site.ReadMarker.run (readMarker dir path)
    if saved ≠ identity source dest then throw (.UnsafeTemporary path)

def openOwner (create created : Bool) : Prog Disk InstallError Bool := do
  let dir := directory b3 source dest
  let path := marker b3 source dest
  if !(← Site.OpenDir.run (openDir dir create)) then pure false
  else
    Site.DirMetadata.run (checkDir dir)
    Site.OpenMarker.run (openMarker dir path created)
    Site.MarkerMetadata.run (checkMarker dir path)
    Site.Lock.run (step (.UnsafeTemporary dir))
    claim b3 source dest created
    pure true

-- `InstallTemporary::open`: whether there is a slot.
def openSlot (create : Bool) : Prog Disk InstallError Bool :=
  if create then do
    openOwner b3 source dest true (← Site.MakeDir.run (makeDir (directory b3 source dest)))
  else openOwner b3 source dest false false

def cleanupInstallTemporary : Prog Disk InstallError Unit := do
  if ← openSlot b3 source dest false then
    Site.Clear.run (clearData (paths b3 source dest))

-- `check` asks for the deadline of a Job, or for nothing.
def check (media : Bool) : Prog Disk InstallError Unit := if media then checkDeadline else pure ()

-- The copy in the slot.
def fillData (media : Bool) : Prog Disk InstallError Unit := do
  let paths := paths b3 source dest
  Site.Clear.run (clearData paths)
  Site.Check.run (check media)
  let i ← Site.Source.run (openFile (.Io source) source)
  Site.SourceMetadata.run (step (.Io source))
  let k ← Site.Create.run (createNew paths.data)
  Site.Chunks.run (copyChunks paths i k)
  Site.SyncData.run (step (.Io paths.data))
  Site.CheckCopied.run (check media)

def linkData : Prog Disk InstallError Unit := do
  match ← Site.LinkData.run (hardLink (paths b3 source dest).data dest) with
  | .CrossesDevices => throw (.Io dest)
  | .Linked => pure ()

-- The copy, its link, and the slot cleared again.
def copyThrough (media : Bool) : Prog Disk InstallError Unit := do
  fillData b3 source dest media
  linkData b3 source dest
  Site.ClearLinked.run (clearData (paths b3 source dest))
  Site.SyncLinked.run (step (.Io (parentOf dest)))

def copyAcrossDevices (media : Bool) : Prog Disk InstallError Unit := do
  let _ ← openSlot b3 source dest true
  copyThrough b3 source dest media

-- `copy_into_place`, without a deadline.
def copyIntoPlace : Prog Disk InstallError Unit := do
  match ← Site.Link.run (hardLink source dest) with
  | .Linked => Site.SyncParent.run (step (.Io (parentOf dest)))
  | .CrossesDevices => copyAcrossDevices b3 source dest false

end

end InstallTemporary

end Mediaops.Install
