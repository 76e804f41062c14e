import Mediaops.Arr.DesiredState
import Mediaops.Arr.Prowlarr
import Mediaops.Arr.Server

namespace Mediaops.Arr

-- The edge of the four applications: what is applied to their servers, and what the
-- daemon checks there afterwards.

-- What the clients are made with. Requests name the application they go to, so that the
-- addresses are left out.
structure LocalhostGrabOps where
  bind : Text
  auth : Text
  urlBases : TextMap Text

def LocalhostGrabOps.new (desired : DesiredState) : LocalhostGrabOps where
  bind := (desired.edge.map (·.bind)).getD "127.0.0.1"
  auth := (desired.edge.map (·.auth)).getD "forms"
  urlBases := (desired.edge.map (·.urlBases)).getD { entries := [], sorted := List.Pairwise.nil }

structure HostConfig where
  bindAddress : Text
  urlBase : Text
  authenticationMethod : Text

def bindKey : Text := "bindAddress"

def urlBaseKey : Text := "urlBase"

def authKey : Text := "authenticationMethod"

def requireStr (value : Json) (key : Text) : Except ArrError Text :=
  match (value.get key).bind Json.asStr with
  | some text => .ok text
  | none => .error (.Json ("missing ".toList ++ key))

def parseHostConfig (value : Json) : Except ArrError HostConfig := do
  let bindAddress ← requireStr value bindKey
  let urlBase ← requireStr value urlBaseKey
  let authenticationMethod ← requireStr value authKey
  pure { bindAddress, urlBase, authenticationMethod }

def isStar (bind : Text) : Bool := [['*'], "0.0.0.0".toList, "::".toList, "::0".toList].contains bind

def bindDrift (host : HostConfig) (bind app : Text) : List Text :=
  if isStar host.bindAddress then [app ++ " bind-to-star".toList]
  else if host.bindAddress ≠ bind then [app ++ " bind ".toList ++ host.bindAddress]
  else []

def urlBaseDrift (host : HostConfig) (urlBase app : Text) : List Text :=
  if host.urlBase = [] then [app ++ " missing url_base".toList]
  else if host.urlBase ≠ urlBase then [app ++ " url_base ".toList ++ host.urlBase]
  else []

def authDrift (host : HostConfig) (auth app : Text) : List Text :=
  if Text.eqIgnoreAsciiCase host.authenticationMethod auth then []
  else [app ++ " auth ".toList ++ host.authenticationMethod]

def hostConfigDrift (host : HostConfig) (urlBase bind auth app : Text) : List Text :=
  bindDrift host bind app ++ urlBaseDrift host urlBase app ++ authDrift host auth app

def baseUrlKey : Text := "baseUrl"

def urlKey : Text := "url"

-- The flat `baseUrl`, or `url` where there is none.
def flatUrl (app : Json) : Option Text := ((app.get baseUrlKey).or (app.get urlKey)).bind Json.asStr

def prowlarrAppBaseUrl (app : Json) : Option Text :=
  match flatUrl app with
  | some url => some url
  | none => (fieldsOf app).bind fun fields => (Json.entryValue baseUrlKey fields).bind Json.asStr

def setProwlarrAppBaseUrl (url : Text) (app : Json) : Option Json :=
  match fieldsOf app with
  | some fields => Json.set fieldsKey (.Array (Json.putEntry baseUrlKey (.String url) fields)) app
  | none => Json.set baseUrlKey (.String url) app

def lowerName (app : Json) : Text := Text.toAsciiLowercase ((Json.nameOf app).getD [])

def defaultBase (name : Text) : Text :=
  if name = App.Radarr.name then "/radarr"
  else if name = App.Lidarr.name then "/lidarr"
  else if name = App.Prowlarr.name then "/prowlarr"
  else "/sonarr"

def appUrlBase (ops : LocalhostGrabOps) (name : Text) : Text :=
  (ops.urlBases.get name).getD (defaultBase name)

def hostUrlBase (ops : LocalhostGrabOps) (app : App) : Text :=
  (ops.urlBases.get app.name).getD ('/' :: app.name)

def checkHostClient (ops : LocalhostGrabOps) (app : App) : Prog Net ControlError (List Text) := do
  let value ← (getJson app .HostConfig).mapError arrToControl
  let host ← (Prog.lift (parseHostConfig value)).mapError arrToControl
  pure (hostConfigDrift host (hostUrlBase ops app) ops.bind ops.auth app.name)

def applicationDrift (ops : LocalhostGrabOps) (app : Json) : List Text :=
  let url := (prowlarrAppBaseUrl app).getD []
  let base := appUrlBase ops (lowerName app)
  if Prowlarr.applicationUrlOk url base then []
  else [quoted "Prowlarr app URL " url (" missing ".toList ++ base)]

def applicationsDrift (ops : LocalhostGrabOps) (value : Json) : List Text :=
  match value.asArray with
  | some items => items.flatMap (applicationDrift ops)
  | none => ["prowlarr applications missing or not an array".toList]

def checkEdgeApp (ops : LocalhostGrabOps) (keys : Keys) (app : App) :
    Prog Net ControlError (List Text) :=
  if keys app then do
    let drift ← checkHostClient ops app
    if app = .Prowlarr then do
      let value ← (getJson app (.All .Applications)).mapError arrToControl
      pure (drift ++ applicationsDrift ops value)
    else pure drift
  else if (ops.urlBases.get app.name).isSome then
    pure [app.name ++ " key missing; host unchecked".toList]
  else pure []

def checkEdgeApps (ops : LocalhostGrabOps) (keys : Keys) : Prog Net ControlError (List Text) :=
  forEach (checkEdgeApp ops keys) apps

structure EdgeApiReport where
  invariantOk : Bool
  drift : Text

def edgeApiCheck (ops : LocalhostGrabOps) (keys : Keys) : Prog Net ControlError EdgeApiReport := do
  let drift ← checkEdgeApps ops keys
  pure { invariantOk := drift.isEmpty, drift := "; ".toList.intercalate drift }

def applicationPort (name : Text) : Nat :=
  if name = App.Sonarr.name then 8989
  else if name = App.Radarr.name then 7878
  else if name = App.Lidarr.name then 8686
  else 9696

def targetUrl (name base : Text) : Text :=
  "http://127.0.0.1:".toList ++ Text.decimal (applicationPort name) ++ base

-- The desired base comes first, and then that of `ops`.
def desiredBase (ops : LocalhostGrabOps) (desired : DesiredState) (name : Text) : Text :=
  (desired.edge.bind fun edge => edge.urlBases.get name).getD (appUrlBase ops name)

def applyProwlarrApp (ops : LocalhostGrabOps) (desired : DesiredState) (app : Json) :
    Prog Net ControlError (List Text) :=
  let url := (prowlarrAppBaseUrl app).getD []
  let name := lowerName app
  let base := desiredBase ops desired name
  if Prowlarr.applicationUrlOk url base then pure []
  else
    match idOf app with
    | none => throw (.Runtime "prowlarr application missing id")
    | some id => do
        let body ← orPanic (setProwlarrAppBaseUrl (targetUrl name base) app)
        let _ ← (putJson .Prowlarr (.One .Applications id) body).mapError arrToControl
        pure ["~prowlarr app ".toList ++ name ++ " url_base".toList]

def applyProwlarrAppUrls (ops : LocalhostGrabOps) (desired : DesiredState) :
    Prog Net ControlError (List Text) := do
  let value ← (getJson .Prowlarr (.All .Applications)).mapError arrToControl
  match value.asArray with
  | some items => forEach (applyProwlarrApp ops desired) items
  | none => pure []

def desiredBind (ops : LocalhostGrabOps) (desired : DesiredState) : Text :=
  (desired.edge.map (·.bind)).getD ops.bind

-- The members of a host configuration that are set.
def edgeMembers (ops : LocalhostGrabOps) (desired : DesiredState) (app : App) : List Json.Member :=
  [(bindKey, .String (desiredBind ops desired)),
    (urlBaseKey, .String ((desired.edge.bind fun edge => edge.urlBases.get app.name).getD
      ('/' :: app.name))),
    (authKey, .String ((desired.edge.map (·.auth)).getD ops.auth))]

section Apply

-- The text that shows what changes in a document; the report alone has it.
variable (unifiedDiff : Json → Json → Text → Text)

def applyHostConfig (ops : LocalhostGrabOps) (desired : DesiredState) (app : App) :
    Prog Net ControlError (List Text) := do
  let live ← (getJson app .HostConfig).mapError arrToControl
  let body ← orPanic (Json.setAll (edgeMembers ops desired app) live)
  if live ≠ body then do
    let _ ← (putJson app .HostConfig body).mapError arrToControl
    pure [unifiedDiff live body (app.name ++ "/config/host".toList)]
  else pure []

def applyEdgeApp (ops : LocalhostGrabOps) (desired : DesiredState) (keys : Keys) (app : App) :
    Prog Net ControlError (List Text) :=
  if keys app then do
    let diffs ← applyHostConfig unifiedDiff ops desired app
    if app = .Prowlarr then do
      let more ← applyProwlarrAppUrls ops desired
      pure (diffs ++ more)
    else pure diffs
  else pure []

def applyEdgeHost (ops : LocalhostGrabOps) (desired : DesiredState) (keys : Keys) :
    Prog Net ControlError (List Text) :=
  if isStar (desiredBind ops desired) then throw (.Policy "refusing bind-to-star")
  else forEach (applyEdgeApp unifiedDiff ops desired keys) apps

-- The clients are made anew for the desired state that is applied.
def edgeApply (desired : DesiredState) (keys : Keys) : Prog Net ControlError GrabApplyReport := do
  let diffs ← applyEdgeHost unifiedDiff (.new desired) desired keys
  pure (.ofDiffs diffs)

end Apply

end Mediaops.Arr
