import Mediaops.Arr
import Mediaops.Arr.Server
import Mediaops.Library.Pages
import Mediaops.Library.Remote

namespace Mediaops.Arr.Inbox

-- The download queues and the missing lists of the media applications: held downloads
-- are listed and rejected there, and titles that have arrived are unmonitored.

open Remote (Wire)

def mediaApps : List App := [.Sonarr, .Radarr, .Lidarr]

-- The listings that come in pages.
inductive Feed where
  | Queue
  | Missing
  deriving DecidableEq, Repr

def Feed.name : Feed → Text
  | Queue => "queue".toList
  | Missing => "wanted/missing".toList

-- `queue?{extra}&page={page}`, `queue/{id}?{query}` and `series/{id}`
inductive Target where
  | Page (feed : Feed) (extra : Text) (page : Nat)
  | Queued (id : Int) (query : Text)
  | Parent (kind : TitleKind) (id : Int)

structure Request where
  app : App
  method : Method
  target : Target
  body : Option Json := none

def recordsKey : Text := "records".toList

def totalKey : Text := "totalRecords".toList

def PAGE_SIZE : Nat := 200

def PAGE_LIMIT : Nat := 100

-- How an application answers a listing: the 200 records of the page with the total or
-- without it, or the bare list whatever the page.
inductive Style where
  | Counted
  | Uncounted
  | Bare
  deriving DecidableEq, Repr

structure Site where
  queue : List Json
  missing : List Json
  parent : TitleKind → Int → Option Json
  style : Style := .Counted

abbrev Sites : Type := App → Site

abbrev Net : Type := Wire Sites Request Response

def queueRecordId (item : Json) : Option Int :=
  (item.get idKey).bind fun value =>
    match Serde.readI64 value with
    | some n => if 0 < n then some n else none
    | none => (value.asStr.bind (parseSigned (2 ^ 63))).filter fun n => 0 < n

namespace Site

variable (site : Site)

def listing : Feed → List Json
  | .Queue => site.queue
  | .Missing => site.missing

-- A total is a 64-bit number.
def counts (feed : Feed) : Bool := site.style = .Counted && (site.listing feed).length < 2 ^ 64

def page (feed : Feed) (page : Nat) : Json :=
  let items := site.listing feed
  let records := Json.Array (Pages.slice PAGE_SIZE items page)
  if site.style = .Bare then .Array items
  else if site.counts feed then
    .Object [(recordsKey, records), (totalKey, Serde.ofNat items.length)]
  else .Object [(recordsKey, records)]

local instance : LawfulBEq (Option Int) := inferInstance

def serve (request : Request) : Response × Site :=
  match request.method, request.target, request.body with
  | .Get, .Page feed _ page, _ => ({ status := 200, body := some (site.page feed page) }, site)
  | .Delete, .Queued id _, _ =>
      if some id ∈ site.queue.map queueRecordId then
        ({ status := 200 },
          { site with queue := site.queue.filter fun item => queueRecordId item ≠ some id })
      else ({ status := 404 }, site)
  | .Get, .Parent kind id, _ =>
      match site.parent kind id with
      | some parent => ({ status := 200, body := some parent }, site)
      | none => ({ status := 404 }, site)
  | .Put, .Parent kind id, some body =>
      if (site.parent kind id).isSome then
        ({ status := 202, body := some body },
          { site with parent := fun k n => if k = kind ∧ n = id then some body else site.parent k n })
      else ({ status := 404 }, site)
  | _, _, _ => ({ status := 405 }, site)

end Site

def serve (request : Request) (sites : Sites) : Response × Sites :=
  let (response, site) := (sites request.app).serve request
  (response, Function.update sites request.app site)

-- The errors are those that the calls of a client come to for its callers.
def json (request : Request) : Prog Net ControlError Json := do
  let response ← Prog.perform (Remote.send serve (arrToControl .Transport) request)
  if 400 ≤ response.status then throw (arrToControl (.Http response.status))
  else pure (response.body.getD .Null)

section Paging

def batchOf (value : Json) : Pages.Batch Json :=
  match value.asArray with
  | some items => .Whole items
  | none =>
      .Part (((value.get recordsKey).bind Json.asArray).getD [])
        (((value.get totalKey).bind Json.asU64).map UInt64.toNat)

def docOf : Pages.Listing Json → Json
  | .Bare items => .Array items
  | .Gathered items =>
      .Object [(recordsKey, .Array items), (totalKey, Serde.ofNat items.length)]

def pagedRecords (doc : Json) : List Json :=
  (((doc.get recordsKey).bind Json.asArray).or doc.asArray).getD []

def exceeded (feed : Feed) : ControlError :=
  .Runtime ("paged ".toList ++ feed.name ++ " exceeded 100 pages".toList)

def fetchPage (app : App) (feed : Feed) (extra : Text) (page : Nat) :
    Prog Net ControlError (Pages.Batch Json) := do
  let value ← json { app, method := .Get, target := .Page feed extra page }
  pure (batchOf value)

def pagedInner (app : App) (feed : Feed) (extra : Text) (found : List Json → Bool) :
    Prog Net ControlError Json := do
  let listing ← Pages.gather PAGE_SIZE found (fetchPage app feed extra) (exceeded feed) PAGE_LIMIT 1 []
    none
  pure (docOf listing)

def getPagedWith (app : App) (feed : Feed) (extra : Text) : Prog Net ControlError Json :=
  pagedInner app feed extra fun _ => false

end Paging

section Queue

def queueExtra : App → Text
  | .Sonarr => "includeSeries=true&includeEpisode=true".toList
  | .Radarr => "includeMovie=true".toList
  | _ => "includeArtist=true&includeAlbum=true".toList

variable [UnicodeTables] (titleDigest : Text → Text) (now : Int) (keys : Keys)

def holdListFrom : List App → Prog Net ControlError (List HoldLiveItem)
  | [] => pure []
  | app :: rest =>
      if keys app then do
        let queue ← getPagedWith app .Queue (queueExtra app)
        let others ← holdListFrom rest
        pure (holdItemsFromQueue titleDigest now queue ++ others)
      else holdListFrom rest

def holdList : Prog Net ControlError (List HoldLiveItem) := holdListFrom titleDigest now keys mediaApps

structure HoldKey where
  titleId : TitleId
  releaseId : Text
  deriving DecidableEq

variable (key : HoldKey)

def isHeld (record : Json) : Bool :=
  match holdItemFromRecord titleDigest now record with
  | some item => item.titleId = key.titleId && item.releaseId = key.releaseId
  | none => false

def noNumericId : ControlError :=
  .Runtime "queue record has no numeric id; will not use downloadId as path id".toList

-- The release is taken from the download client, and is not to be grabbed again.
def rejectQuery : Text := "removeFromClient=true&blocklist=true".toList

-- Every record of the hold is taken off the queue.
def holdRejectQueue (app : App) : List Json → Bool → Prog Net ControlError Bool
  | [], deleted => pure deleted
  | record :: rest, deleted =>
      if isHeld titleDigest now key record then
        match queueRecordId record with
        | none => throw noNumericId
        | some id => do
            let _ ← json { app, method := .Delete, target := .Queued id rejectQuery }
            holdRejectQueue app rest true
      else holdRejectQueue app rest deleted

def notInQueue : ControlError := .Runtime "hold not in grabber queue".toList

-- The first application that has the hold is the only one it is taken from.
def holdRejectFrom : List App → Prog Net ControlError Bool
  | [] => pure false
  | app :: rest =>
      if keys app then do
        let queue ← getPagedWith app .Queue (queueExtra app)
        if ← holdRejectQueue titleDigest now key app (pagedRecords queue) false then pure true
        else holdRejectFrom rest
      else holdRejectFrom rest

def holdReject : Prog Net ControlError Unit := do
  if ← holdRejectFrom titleDigest now keys key mediaApps then pure () else throw notInQueue

end Queue

section Missing

variable [UnicodeTables]

def wantedExtra : App → Text
  | .Sonarr => "includeSeries=true".toList
  | .Radarr => "includeMovie=true".toList
  | _ => "includeAlbum=true".toList

-- The nested object, or the record itself where it has the id of that kind.
def nestedOrItem (item : Json) (nested field : Text) : Option Json :=
  (item.get nested).or ((item.get field).map fun _ => item)

def titleAndYear (value : Json) (make : Text → Nat → Except TitleIdError TitleId) : Option TitleId := do
  let title ← textField value "title".toList
  let year ← (value.get "year".toList).bind jsonU16
  (make title year).toOption

-- The identity a library folder has, from the display title.
def keyTitleIdFromArrItem (item : Json) : Option TitleId :=
  match nestedOrItem item "movie".toList "tmdbId".toList with
  | some movie => titleAndYear movie TitleId.movieKey
  | none =>
      match nestedOrItem item "series".toList "tvdbId".toList with
      | some series => titleAndYear series TitleId.seriesKey
      | none =>
          match nestedOrItem item "album".toList "foreignAlbumId".toList with
          | some album => do
              let title ← textField album "title".toList
              let artist ← artistName album item
              (TitleId.albumKey artist title).toOption
          | none => none

def itemMatchesTitle (item : Json) (titleId : TitleId) : Bool :=
  titleIdFromArrItem item = some titleId || keyTitleIdFromArrItem item = some titleId

local instance : LawfulBEq TitleId := inferInstance

def enlist (out : List TitleId) (id : TitleId) : List TitleId := if id ∈ out then out else out ++ [id]

def itemTitleIds (item : Json) : List TitleId :=
  (keyTitleIdFromArrItem item).toList ++ (titleIdFromArrItem item).toList

-- Both identities of every record, each once.
def extendTitleIds (doc : Json) (out : List TitleId) : List TitleId :=
  ((pagedRecords doc).flatMap itemTitleIds).foldl enlist out

def wantedFailed : ControlError := .Runtime "wanted/missing failed".toList

-- An application that fails is passed over, unless none of them answers.
def wantedMissingFrom (keys : Keys) : List App → List TitleId → Bool → Option ControlError →
    Prog Net ControlError (List TitleId)
  | [], out, answered, lastErr =>
      if mediaApps.any keys ∧ answered = false then throw (lastErr.getD wantedFailed) else pure out
  | app :: rest, out, answered, lastErr =>
      if keys app then do
        match ← (getPagedWith app .Missing (wantedExtra app)).attempt with
        | .ok doc => wantedMissingFrom keys rest (extendTitleIds doc out) true lastErr
        | .error e => wantedMissingFrom keys rest out answered (some e)
      else wantedMissingFrom keys rest out answered lastErr

def wantedMissing (keys : Keys) : Prog Net ControlError (List TitleId) :=
  wantedMissingFrom keys mediaApps [] false none

def jsonArrId (value : Option Json) : Option Int :=
  ((value.bind jsonId).bind (parseSigned (2 ^ 63))).filter fun n => 0 ≤ n

def parentNames : TitleKind → Text × Text
  | .Movie => ("movie".toList, "movieId".toList)
  | .Series => ("series".toList, "seriesId".toList)
  | .Album => ("album".toList, "albumId".toList)

-- The id of the parent, never that of the episode or the track.
def unmonitorParent (item : Json) : Option (TitleId × TitleKind × Int) := do
  let titleId ← titleIdFromArrItem item
  let (nested, fallback) := parentNames titleId.kind
  let own := match item.get nested with
    | some parent => jsonArrId (parent.get idKey)
    | none => jsonArrId (item.get idKey)
  let arrId ← own.or (jsonArrId (item.get fallback))
  pure (titleId, titleId.kind, arrId)

def monitoredKey : Text := "monitored".toList

def setUnmonitored : Json → Json
  | .Object map => .Object (Json.assign monitoredKey (.Bool false) map)
  | other => other

def isParentOf (titleId : TitleId) (item : Json) : Bool :=
  (unmonitorParent item).isSome && itemMatchesTitle item titleId

def unmonitorDoc (app : App) (titleId : TitleId) : List Json → Prog Net ControlError Bool
  | [] => pure false
  | item :: rest =>
      match unmonitorParent item with
      | none => unmonitorDoc app titleId rest
      | some (_, kind, arrId) =>
          if itemMatchesTitle item titleId then do
            let parent ← json { app, method := .Get, target := .Parent kind arrId }
            let _ ← json { app, method := .Put, target := .Parent kind arrId
                           body := some (setUnmonitored parent) }
            pure true
          else unmonitorDoc app titleId rest

-- Only the application that owns the kind has the parent.
def ownerOf : TitleKind → App
  | .Series => .Sonarr
  | .Movie => .Radarr
  | .Album => .Lidarr

def unmonitor (keys : Keys) (titleId : TitleId) : Prog Net ControlError Unit :=
  let app := ownerOf titleId.kind
  if keys app then do
    let doc ← pagedInner app .Missing (wantedExtra app) fun batch => batch.any (isParentOf titleId)
    let _ ← unmonitorDoc app titleId (pagedRecords doc)
    pure ()
  else pure ()

end Missing

end Mediaops.Arr.Inbox
