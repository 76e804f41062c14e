import Mediaops.Core.Validate

namespace Mediaops

-- What a step reads from outside the store: the clock and the disk.

structure FileMeta where
  isFile : Bool
  isDir : Bool
  len : UInt64
  blocks : UInt64
  deriving DecidableEq, Repr

inductive MetaResult where
  | Found (found : FileMeta)
  | NotFound
  | Failed (message : Text)
  deriving DecidableEq, Repr

-- `symlink_metadata` does not follow a final symbolic link, so a link is neither
-- a file nor a directory.
structure Disk where
  symlinkMetadata : Text → MetaResult
  digest : Text → Except Text Blake3Hex
  freeBytes : Text → Except Text UInt64
  installFits : JobSpec → Except Text Bool

structure Env where
  now : Int
  disk : Disk

namespace Disk

def isFile (disk : Disk) (path : Text) : Bool :=
  match disk.symlinkMetadata path with
  | .Found found => found.isFile
  | _ => false

def isDir (disk : Disk) (path : Text) : Bool :=
  match disk.symlinkMetadata path with
  | .Found found => found.isDir
  | _ => false

-- Nothing is there, and nothing fits.
def empty : Disk where
  symlinkMetadata := fun _ => .NotFound
  digest := fun _ => .error "No such file or directory".toList
  freeBytes := fun _ => .error "No such file or directory".toList
  installFits := fun _ => .error "No such file or directory".toList

end Disk

def saturatingMul (a b : UInt64) : UInt64 :=
  if a.toNat * b.toNat < 2 ^ 64 then a * b else UInt64.ofNat (2 ^ 64 - 1)

def saturatingSub (a b : UInt64) : UInt64 := if b ≤ a then a - b else 0

-- The part of the file that is not staged yet, by allocated blocks.
def stagedRemaining (disk : Disk) (fileLen : UInt64) : List Text → Except Text UInt64
  | [] => pure fileLen
  | path :: rest =>
      match disk.symlinkMetadata path with
      | .Found found =>
          if found.isFile then pure (saturatingSub fileLen (saturatingMul found.blocks 512))
          else throw path
      | .NotFound => stagedRemaining disk fileLen rest
      | .Failed message => throw message

def pullRemainingBytes [UnicodeTables] (disk : Disk) (spec : JobSpec) : Except Text UInt64 := do
  let id ← (TitleId.parse spec.titleId).mapError TitleIdError.display
  let name ← match Path.fileName spec.destRel with
    | some name => pure name
    | none => throw spec.destRel
  let staging ← (PathSchema.stagingPath id name).mapError PathSchemaError.display
  let staged := Path.join spec.libraryRoot staging
  stagedRemaining disk spec.fileLen [staged, staged ++ ".partial".toList]

end Mediaops
