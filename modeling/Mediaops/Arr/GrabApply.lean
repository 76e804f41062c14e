import Mediaops.Arr.DesiredState
import Mediaops.Arr.Server

namespace Mediaops.Arr

-- What the grabber's part of a desired state does to the servers of the four applications.

structure Identity where
  id : Option Int
  name : Text

def identityFromValue (missing : Text) (value : Json) : Except ArrError Identity :=
  match Json.nameOf value with
  | some name => .ok { id := idOf value, name }
  | none => .error (.Json missing)

def identitiesFromArray (fromValue : Json → Except ArrError Identity) (value : Json) :
    Except ArrError (List Identity) :=
  match value.asArray with
  | some items => items.mapM fromValue
  | none => .error (.Json "expected array")

def indexerFromValue : Json → Except ArrError Identity := identityFromValue "indexer missing name"

def clientFromValue : Json → Except ArrError Identity :=
  identityFromValue "download client missing name"

def identities (resource : Resource) (fromValue : Json → Except ArrError Identity) (app : App) :
    Prog Net ArrError (List Identity) := do
  let value ← getJson app (.All resource)
  Prog.lift (identitiesFromArray fromValue value)

def indexers (app : App) : Prog Net ArrError (List Identity) := identities .Indexer indexerFromValue app

-- An answer 409 is a duplicate.
def duplicateOn (duplicate : ArrError) (err : ArrError) : ArrError :=
  if err = .Http 409 then duplicate else err

def postIndexer (app : App) (body : Json) : Prog Net ArrError Json := do
  let name := (Json.nameOf body).getD "indexer"
  let live ← indexers app
  if live.any fun idx => idx.name = name then throw (.DuplicateIndexer name)
  else (postJson app (.All .Indexer) body).mapError (duplicateOn (.DuplicateIndexer name))

def postDownloadClient (app : App) (body : Json) : Prog Net ArrError Json :=
  let name := (Json.nameOf body).getD "downloadclient"
  (postJson app (.All .DownloadClient) body).mapError (duplicateOn (.DuplicateDownloadClient name))

def mergeFields (desired : TextMap Text) (body : Json) : Option Json :=
  if desired.entries = [] then some body
  else
    let entries := desired.entries.map fun entry => (entry.1, Json.String entry.2)
    Json.set fieldsKey (.Array (Json.putEntries entries ((fieldsOf body).getD []))) body

-- Both kinds of object are made alike: scalar members, and then the fields.
def mergedResource (members : List Json.Member) (fields : TextMap Text) (live : Option Json) : Option Json := do
  let body ← Json.setAll members (live.getD (.Object []))
  mergeFields fields body

def priorityKey : Text := "priority"

def enableKey : Text := "enable"

def implementationKey : Text := "implementation"

def protocolKey : Text := "protocol"

def configContractKey : Text := "configContract"

def indexerMembers (spec : GrabIndexer) : List Json.Member :=
  [(Json.nameKey, .String spec.name), (priorityKey, Serde.ofI64 spec.priority.toInt),
    (enableKey, .Bool spec.enable), (implementationKey, .String spec.implementation)] ++
  (spec.protocol.map fun protocol => (protocolKey, Json.String protocol)).toList ++
  (spec.configContract.map fun contract => (configContractKey, Json.String contract)).toList

def indexerResource (spec : GrabIndexer) (live : Option Json) : Option Json :=
  mergedResource (indexerMembers spec) spec.fields live

def clientMembers (spec : GrabDownloadClient) : List Json.Member :=
  [(Json.nameKey, .String spec.name), (priorityKey, Serde.ofI64 spec.priority.toInt),
    (enableKey, .Bool spec.enable), (implementationKey, .String spec.implementationName)]

def clientResource (spec : GrabDownloadClient) (live : Option Json) : Option Json :=
  mergedResource (clientMembers spec) spec.fields live

-- The lists of indexers and of download clients go through one procedure, which has
-- these parts of its own for each.
structure Kind (α : Type) where
  resource : Resource
  fromValue : Json → Except ArrError Identity
  name : α → Text
  body : α → Option Json → Option Json
  post : App → Json → Prog Net ArrError Json
  duplicate : Text → ControlError
  missingId : App → Text → ControlError
  label : App → Text

def indexerKind : Kind GrabIndexer where
  resource := .Indexer
  fromValue := indexerFromValue
  name := (·.name)
  body := indexerResource
  post := postIndexer
  duplicate name := .Policy (quoted "duplicate indexer " name [])
  missingId app name := .Runtime (quoted (app.name ++ " indexer ".toList) name " missing id")
  label app := app.name ++ " indexer ".toList

def clientKind : Kind GrabDownloadClient where
  resource := .DownloadClient
  fromValue := clientFromValue
  name := (·.name)
  body := clientResource
  post := postDownloadClient
  duplicate name := .Policy (quoted "duplicate download client " name [])
  missingId _ name := .Runtime (quoted "download client " name " missing id")
  label _ := "client "

section Named

variable {α : Type} (kind : Kind α) (app : App)

def checkIdentities : List Text → List Identity → Except ControlError Unit
  | _, [] => .ok ()
  | seen, idx :: rest =>
      if idx.name ∈ seen then .error (kind.duplicate idx.name)
      else if idx.id = none then .error (kind.missingId app idx.name)
      else checkIdentities (idx.name :: seen) rest

def deleteOther (want : List α) (idx : Identity) : Prog Net ControlError (List Text) :=
  if want.any fun spec => kind.name spec = idx.name then pure []
  else do
    let id ← orPanic idx.id
    (delete app (.One kind.resource id)).mapError arrToControl
    pure ['-' :: (kind.label app ++ idx.name)]

def applySpec (live : List Identity) (spec : α) : Prog Net ControlError (List Text) :=
  match live.find? fun idx => idx.name = kind.name spec with
  | none => do
      let body ← orPanic (kind.body spec none)
      let _ ← (kind.post app body).mapError arrToControl
      pure ['+' :: (kind.label app ++ kind.name spec)]
  | some idx => do
      let id ← orPanic idx.id
      let liveJson ← (getJson app (.One kind.resource id)).mapError arrToControl
      let merged ← orPanic (kind.body spec (some liveJson))
      if liveJson ≠ merged then do
        let _ ← (putJson app (.One kind.resource id) merged).mapError arrToControl
        pure ['~' :: (kind.label app ++ kind.name spec)]
      else pure []

def applyNamed (want : List α) : Prog Net ControlError (List Text) := do
  let live ← (identities kind.resource kind.fromValue app).mapError arrToControl
  Prog.lift (checkIdentities kind app [] live)
  if want.isEmpty then pure []
  else do
    let removed ← forEach (deleteOther kind app want) live
    let changed ← forEach (applySpec kind app live) want
    pure (removed ++ changed)

end Named

def wantedIndexers (desired : DesiredState) (app : App) : List GrabIndexer :=
  desired.grab.indexers.filter fun idx => idx.app = app.name

def applyIndexers (app : App) (desired : DesiredState) : Prog Net ControlError (List Text) :=
  applyNamed indexerKind app (wantedIndexers desired app)

def applyDownloadClients (app : App) (desired : DesiredState) : Prog Net ControlError (List Text) :=
  applyNamed clientKind app desired.grab.downloadClients

def named (name : Text) (items : List Json) : Option Json :=
  items.find? fun item => Json.nameOf item = some name

-- `json!({"name": name})`
def formatMembers (name : Text) : List Json.Member := [(Json.nameKey, .String name)]

def applyFormat (app : App) (known : List Json) (name : Text) :
    Prog Net ControlError (List Text × List Json) :=
  match named name known with
  | some live =>
      match idOf live with
      | none => throw (.Runtime (quoted "cf " name " missing id"))
      | some id => do
          let body ← orPanic (Json.set Json.nameKey (.String name) live)
          if body ≠ live then do
            let _ ← (putJson app (.One .CustomFormat id) body).mapError arrToControl
            pure (["~cf ".toList ++ name], known)
          else pure ([], known)
  | none => do
      let created ← (postJson app (.All .CustomFormat) (.Object (formatMembers name))).mapError arrToControl
      pure (["+cf ".toList ++ name], known ++ [created])

def applyFormats (app : App) : List Text → List Json → Prog Net ControlError (List Text × List Json)
  | [], known => pure ([], known)
  | name :: rest, known => do
      let (first, known) ← applyFormat app known name
      let (others, known) ← applyFormats app rest known
      pure (first ++ others, known)

def formatKey : Text := "format"

def scoreKey : Text := "score"

def formatItemsKey : Text := "formatItems"

-- `json!({"format": format, "name": name, "score": score})`
def formatItem (format : Int) (name : Text) (score : Int32) : Json :=
  .Object (Json.ofList [(formatKey, Serde.ofI64 format), (Json.nameKey, .String name),
    (scoreKey, Serde.ofI64 score.toInt)])

def scoreItem (cfs : List Json) (score : Text × Int32) : Except ControlError Json :=
  match (named score.1 cfs).bind idOf with
  | some format => .ok (formatItem format score.1 score.2)
  | none => .error (.Runtime (quoted "cf " score.1 " missing id"))

-- The scores of all packs, pack by pack.
def packScores (packs : List CustomFormatPack) : List (Text × Int32) :=
  packs.flatMap fun pack => pack.scores.entries

def applyQualityProfileScores (app : App) (profileName : Text) (packs : List CustomFormatPack)
    (cfs : List Json) : Prog Net ControlError (List Text) := do
  let profiles ← (getJson app (.All .QualityProfile)).mapError arrToControl
  match profiles.asArray with
  | none => throw (.Runtime "qualityprofile not array")
  | some items =>
      match named profileName items with
      | none => throw (.Policy (quoted "quality profile " profileName " missing"))
      | some live =>
          match idOf live with
          | none => throw (.Runtime "quality profile missing id")
          | some id => do
              let formatItems ← Prog.lift ((packScores packs).mapM (scoreItem cfs))
              let body ← orPanic (Json.set formatItemsKey (.Array formatItems) live)
              if body = live then pure []
              else do
                let _ ← (putJson app (.One .QualityProfile id) body).mapError arrToControl
                pure ["~quality profile ".toList ++ profileName ++ " scores".toList]

def applyCfPacks (app : App) (desired : DesiredState) : Prog Net ControlError (List Text) :=
  let packs := desired.grab.customFormatPacks
  if packs.isEmpty then pure []
  else do
    let live ← (getJson app (.All .CustomFormat)).mapError arrToControl
    match live.asArray with
    | none => throw (.Runtime "customformat not array")
    | some items => do
        let (diffs, known) ← applyFormats app ((packScores packs).map Prod.fst) items
        match desired.grab.policy.qualityProfile with
        | none => pure diffs
        | some profileName => do
            let more ← applyQualityProfileScores app profileName packs known
            pure (diffs ++ more)

def usenetDelayKey : Text := "usenetDelay"

def torrentDelayKey : Text := "torrentDelay"

def delayKey : Text := "delay"

def delayMembers (minutes : UInt32) : List Json.Member :=
  [(usenetDelayKey, Serde.ofU32 minutes), (torrentDelayKey, Serde.ofU32 minutes)]

def delayBody (minutes : UInt32) (profile : Json) : Option Json := do
  let body ← Json.setAll (delayMembers minutes) profile
  if (body.get delayKey).isSome then Json.set delayKey (Serde.ofU32 minutes) body
  else some body

def applyDelay (app : App) (minutes : UInt32) (profile : Json) : Prog Net ControlError (List Text) :=
  match idOf profile with
  | none => throw (.Runtime "delay profile missing id")
  | some id => do
      let body ← orPanic (delayBody minutes profile)
      if body ≠ profile then do
        let _ ← (putJson app (.One .DelayProfile id) body).mapError arrToControl
        pure ["~delay ".toList ++ Text.decimal minutes.toNat]
      else pure []

def applyPolicy (app : App) (desired : DesiredState) : Prog Net ControlError (List Text) :=
  match desired.grab.policy.delayMinutes with
  | none => pure []
  | some minutes => do
      let live ← (getJson app (.All .DelayProfile)).mapError arrToControl
      match live.asArray with
      | none => throw (.Runtime "delayprofile not array")
      | some items =>
          if items.isEmpty then throw (.Runtime "no delay profile to apply")
          else forEach (applyDelay app minutes) items

def applyApp (desired : DesiredState) (app : App) (mediaApp : Bool) : Prog Net ControlError (List Text) := do
  let diffs ← applyIndexers app desired
  if mediaApp then do
    let clients ← applyDownloadClients app desired
    let packs ← applyCfPacks app desired
    let policy ← applyPolicy app desired
    pure (diffs ++ clients ++ packs ++ policy)
  else pure diffs

def App.media : App → Bool
  | .Prowlarr => false
  | _ => true

def requireIndexerKeys (keys : Keys) : List GrabIndexer → Except ControlError Unit
  | [] => .ok ()
  | idx :: rest =>
      match apps.find? fun app => app.name = idx.app with
      | none => .error (.Policy (quoted "unknown grab app " idx.app []))
      | some app =>
          if keys app then requireIndexerKeys keys rest
          else .error (.Policy (idx.app ++ " API key missing".toList))

def mediaNeeded (grab : Grab) : Bool :=
  !grab.downloadClients.isEmpty || !grab.customFormatPacks.isEmpty ||
    grab.policy.delayMinutes.isSome || grab.policy.qualityProfile.isSome

def requireKeysForDesired (desired : DesiredState) (keys : Keys) : Except ControlError Unit := do
  requireIndexerKeys keys desired.grab.indexers
  if mediaNeeded desired.grab && !keys .Sonarr && !keys .Radarr && !keys .Lidarr then
    .error (.Policy "media *arr API key missing")
  else .ok ()

def applyKeyed (desired : DesiredState) (keys : Keys) (app : App) : Prog Net ControlError (List Text) :=
  if keys app then applyApp desired app app.media else pure []

def grabApply (desired : DesiredState) (keys : Keys) : Prog Net ControlError GrabApplyReport :=
  if desired.grabber ≠ .Servarr then pure { noop := true, diff := [] }
  else do
    Prog.lift (requireKeysForDesired desired keys)
    let diffs ← forEach (applyKeyed desired keys) apps
    pure (.ofDiffs diffs)

end Mediaops.Arr
