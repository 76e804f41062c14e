import Mediaops.Core.PathSchema
import Mediaops.Core.Home
import Mediaops.Library.Json

namespace Mediaops.Arr

-- What the import-blocked records of a download queue come to.

-- `str::parse` to an unsigned integer below `bound`: one plus sign may lead.
def parseUnsigned (bound : Nat) (text : Text) : Option Nat :=
  let digits := match text with
    | '+' :: rest => rest
    | _ => text
  if digits.all Char.isDigit then Text.parseBelow bound digits else none

-- `str::parse` to a signed integer of absolute value below `bound`; the lowest
-- integer of the type is further from zero than any caller can use.
def parseSigned (bound : Nat) (text : Text) : Option Int :=
  match text with
  | '-' :: digits =>
      if digits.all Char.isDigit then (Text.parseBelow bound digits).map fun n => -(n : Int)
      else none
  | _ => (parseUnsigned bound text).map fun n => (n : Int)

def u64Bound : Nat := 18446744073709551616

def jsonU64 (value : Json) : Option Nat :=
  ((value.asU64.or value.asWhole).map UInt64.toNat).or (value.asStr.bind (parseUnsigned u64Bound))

def jsonU16 (value : Json) : Option Nat := (jsonU64 value).filter (· < 65536)

def jsonU8 (value : Json) : Option Nat := (jsonU64 value).filter (· < 256)

def jsonId (value : Json) : Option Text :=
  match value.asU64 with
  | some n => some (Text.decimal n.toNat)
  | none => value.asStr.filter (· ≠ [])

def daysFromCivil (y : Int) (m d : Nat) : Int :=
  let y := if m ≤ 2 then y - 1 else y
  let era := (if 0 ≤ y then y else y - 399).tdiv 400
  let yoe := y - era * 400
  let mp : Int := if 2 < m then m - 3 else m + 9
  let doy := (153 * mp + 2) / 5 + d - 1
  let doe := yoe * 365 + yoe / 4 - yoe / 100 + doy
  era * 146097 + doe - 719468

def fractionEnd (text : Text) : Text :=
  match text with
  | '.' :: rest => rest.dropWhile Char.isDigit
  | _ => text

-- Seconds east of UTC.
def offsetSecs (rest : Text) : Option Int :=
  if rest = [] ∨ Text.eqIgnoreAsciiCase rest "Z" then some 0
  else match rest with
    | c :: rest =>
        if c = '+' ∨ c = '-' then
          let (hh, mm) :=
            if 5 ≤ rest.length ∧ rest[2]? = some ':' then (rest.take 2, (rest.drop 3).take 2)
            else (rest.take 2, (rest.drop 2).take 2)
          if rest.length < 4 then none
          else do
            let hh ← parseSigned (2 ^ 63) hh
            let mm ← parseSigned (2 ^ 63) mm
            pure ((if c = '+' then 1 else -1) * (hh * 3600 + mm * 60))
        else none
    | [] => none

-- The first nineteen bytes of a date are all looked at, so they are ASCII.
def parseRfc3339 (raw : Text) : Option Int := do
  let s := Text.trimMatches Text.isWhitespace raw
  guard (19 ≤ s.length)
  let slice (start stop : Nat) : Text := (s.take stop).drop start
  let year ← parseSigned (2 ^ 31) (slice 0 4)
  guard (s[4]? = some '-' ∧ s[7]? = some '-' ∧ (s[10]? = some 'T' ∨ s[10]? = some 't'))
  let month ← parseUnsigned (2 ^ 32) (slice 5 7)
  let day ← parseUnsigned (2 ^ 32) (slice 8 10)
  let hour ← parseUnsigned (2 ^ 32) (slice 11 13)
  guard (s[13]? = some ':' ∧ s[16]? = some ':')
  let min ← parseUnsigned (2 ^ 32) (slice 14 16)
  let sec ← parseUnsigned (2 ^ 32) (slice 17 19)
  guard ((1 ≤ month ∧ month ≤ 12) ∧ (1 ≤ day ∧ day ≤ 31) ∧ hour ≤ 23 ∧ min ≤ 59 ∧ sec ≤ 60)
  let offset ← offsetSecs (fractionEnd (s.drop 19))
  pure (daysFromCivil year month day * 86400 + hour * 3600 + min * 60 + sec - offset)

def parseAdded (value : Json) : Option Int := value.asStr.bind parseRfc3339

-- A display name as a path token.
def schemaToken (raw : Text) : Option Text :=
  let out := PathSchema.dotted raw
  if out = [] then none else some out

def textField (value : Json) (key : Text) : Option Text := (value.get key).bind Json.asStr

def defaultExtension : TitleKind → Text
  | .Movie | .Series => "mkv"
  | .Album => "flac"

def mediaExtensions : List Text :=
  ["mkv", "mp4", "m4v", "avi", "ts", "flac", "mp3", "m4a"].map String.toList

def extensionFromBasename (path : Text) : Option Text :=
  let name := ((Text.split (fun c => c == '/' || c == '\\') path).getLast?).getD path
  (Text.rsplitOnce '.' name).bind fun (_, ext) =>
    let ext := Text.toAsciiLowercase ext
    if mediaExtensions.contains ext then some ext else none

def extensionFromFileObj (obj : Option Json) : Option Text := do
  let obj ← obj
  let path ← ((obj.get "relativePath".toList).or (obj.get "path".toList)).bind Json.asStr
  extensionFromBasename path

def extensionFromOutputPath (item : Json) : Option Text :=
  (textField item "outputPath".toList).bind extensionFromBasename

def yearFromReleaseDate (value : Option Json) : Option Nat := do
  let raw ← value.bind Json.asStr
  let year ← parseUnsigned 65536 (raw.take 4)
  if 1000 ≤ year ∧ year ≤ 9999 then some year else none

def nestedOrTop (item : Json) (nested field : Text) : Option Json :=
  ((item.get nested).bind fun value => value.get field).or (item.get field)

def artistName (album item : Json) : Option Text :=
  ((((album.get "artist".toList).bind fun a => a.get "artistName".toList).or
    ((item.get "artist".toList).bind fun a => a.get "artistName".toList)).bind Json.asStr)

def reasonLines (item : Json) : List Text :=
  match (item.get "statusMessages".toList).bind Json.asArray with
  | none => []
  | some messages => messages.flatMap fun message =>
      match (message.get "messages".toList).bind Json.asArray with
      | none => []
      | some lines => (lines.filterMap Json.asStr).filter (· ≠ [])

def joinReasons : List Text → Text
  | [] => []
  | [line] => line
  | line :: rest => line ++ "; ".toList ++ joinReasons rest

def reasonFromQueueItem (item : Json) : Text :=
  let joined := joinReasons (reasonLines item)
  if joined ≠ [] then joined else (textField item "errorMessage".toList).getD []

def isHexText (text : Text) : Bool := text.all isHexDigit

-- The hex digest of a usenet title is a parameter.
def releaseIdFromQueueItem (titleDigest : Text → Text) (item : Json) : Option Text := do
  let protocol ← textField item "protocol".toList
  if Text.eqIgnoreAsciiCase protocol "torrent" then do
    let downloadId ← textField item "downloadId".toList
    if downloadId = [] ∨ !isHexText downloadId then none
    else some (Text.toAsciiLowercase downloadId)
  else if Text.eqIgnoreAsciiCase protocol "usenet" then do
    let title ← textField item "title".toList
    if title = [] then none else some (titleDigest title)
  else none

section

variable [UnicodeTables]

structure HoldLiveItem where
  titleId : TitleId
  releaseId : Text
  addedUnix : Int := 0
  size : UInt64 := 0
  reason : Text := []
  remote : Option (Text × Text) := none
  placement : Option Placement := none
  outputPath : Option Text := none
  deriving DecidableEq

-- The name its Hold is published under.
def HoldLiveItem.name (hold : HoldLiveItem) : Text :=
  hold.titleId.render ++ "-".toList ++ hold.releaseId

def titleIdFromArrItem (item : Json) : Option TitleId :=
  match (nestedOrTop item "movie".toList "tmdbId".toList).bind jsonId with
  | some id => (TitleId.fromParts .Movie .Tmdb id).toOption
  | none =>
      match (nestedOrTop item "series".toList "tvdbId".toList).bind jsonId with
      | some id => (TitleId.fromParts .Series .Tvdb id).toOption
      | none =>
          match (nestedOrTop item "album".toList "foreignAlbumId".toList).bind Json.asStr with
          | some id => (TitleId.fromParts .Album .Mbid id).toOption
          | none => none

def moviePlacement (item : Json) : Option Placement := do
  let movie ← item.get "movie".toList
  let title ← (textField movie "title".toList).bind schemaToken
  let year ← (movie.get "year".toList).bind jsonU16
  let extension := ((extensionFromFileObj (movie.get "movieFile".toList)).or
    (extensionFromOutputPath item)).getD (defaultExtension .Movie)
  pure (.Movie title year extension)

def episodePlacement (item : Json) : Option Placement := do
  let series ← item.get "series".toList
  let title ← (textField series "title".toList).bind schemaToken
  let year ← (series.get "year".toList).bind jsonU16
  let episode ← item.get "episode".toList
  let season ← (episode.get "seasonNumber".toList).bind jsonU8
  let ep ← (episode.get "episodeNumber".toList).bind jsonU16
  let episodeTitle := (textField episode "title".toList).bind schemaToken
  let extension := (((extensionFromFileObj (episode.get "episodeFile".toList)).or
    (extensionFromFileObj (item.get "episodeFile".toList))).or
      (extensionFromOutputPath item)).getD (defaultExtension .Series)
  pure (.episodeTitled title year season ep none episodeTitle extension)

def trackPlacement (item : Json) : Option Placement := do
  let album ← item.get "album".toList
  let albumTitle ← (textField album "title".toList).bind schemaToken
  let artist ← (artistName album item).bind schemaToken
  let year ← ((album.get "year".toList).bind jsonU16).or
    (yearFromReleaseDate (album.get "releaseDate".toList))
  let track ← item.get "track".toList
  let trackNo := (track.get "trackNumber".toList).bind jsonU8
  let disc := ((track.get "mediumNumber".toList).bind jsonU8).filter (1 < ·)
  let trackTitle ← (textField track "title".toList).bind schemaToken
  let extension := (((extensionFromFileObj (item.get "trackFile".toList)).or
    (extensionFromFileObj (track.get "trackFile".toList))).or
      (extensionFromOutputPath item)).getD (defaultExtension .Album)
  pure (.Track artist albumTitle year disc trackNo trackTitle extension)

def placementFromQueueItem (item : Json) (titleId : TitleId) : Option Placement :=
  match titleId.kind with
  | .Movie => moviePlacement item
  | .Series => episodePlacement item
  | .Album => trackPlacement item

variable (titleDigest : Text → Text) (now : Int)

def holdItemFromRecord (item : Json) : Option HoldLiveItem := do
  let state ← textField item "trackedDownloadState".toList
  if !Text.eqIgnoreAsciiCase state "importBlocked" then none
  else do
    let titleId ← titleIdFromArrItem item
    let releaseId ← releaseIdFromQueueItem titleDigest item
    pure {
      titleId, releaseId
      addedUnix := ((item.get "added".toList).bind parseAdded).getD now
      size := UInt64.ofNat (((item.get "size".toList).bind jsonU64).getD 0)
      reason := reasonFromQueueItem item
      placement := placementFromQueueItem item titleId
      outputPath := (textField item "outputPath".toList).filter (· ≠ []) }

def holdItemsFromQueue (queue : Json) : List HoldLiveItem :=
  match ((queue.get "records".toList).bind Json.asArray).or queue.asArray with
  | some records => records.filterMap (holdItemFromRecord titleDigest now)
  | none => []

end

end Mediaops.Arr
