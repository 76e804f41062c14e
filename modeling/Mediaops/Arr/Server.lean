import Mediaops.Library.Faults
import Mediaops.Library.Json.Edit
import Mediaops.Library.Serde

namespace Mediaops.Arr

-- The servers of the four applications, and the client that sends them requests.

inductive App where
  | Sonarr
  | Radarr
  | Lidarr
  | Prowlarr
  deriving DecidableEq, Repr

def App.name : App → Text
  | .Sonarr => "sonarr"
  | .Radarr => "radarr"
  | .Lidarr => "lidarr"
  | .Prowlarr => "prowlarr"

def apps : List App := [.Sonarr, .Radarr, .Lidarr, .Prowlarr]

-- Whose API key is discovered. A discovered key is trimmed, and neither empty nor masked,
-- so that a client takes it.
abbrev Keys : Type := App → Bool

-- The lists of objects a server keeps under `/api`.
inductive Resource where
  | Indexer
  | DownloadClient
  | CustomFormat
  | QualityProfile
  | DelayProfile
  | Applications
  deriving DecidableEq, Repr

-- `config/host`, `indexer` and `indexer/{id}`
inductive Target where
  | HostConfig
  | All (resource : Resource)
  | One (resource : Resource) (id : Int)
  deriving DecidableEq, Repr

inductive Method where
  | Get
  | Put
  | Post
  | Delete
  deriving DecidableEq, Repr

structure Request where
  method : Method
  target : Target
  body : Option Json := none

structure Response where
  status : Nat
  body : Option Json := none

-- `value.get("id").and_then(Value::as_i64)`
def idKey : Text := "id"

def idOf (body : Json) : Option Int := (body.get idKey).bind Serde.readI64

def fieldsKey : Text := "fields"

def fieldsOf (body : Json) : Option (List Json) := (body.get fieldsKey).bind Json.asArray

-- An id for a new object is one that is not in use.
def Fresh (items : List Json) (id : Nat) : Prop := id < 2 ^ 63 ∧ some (id : Int) ∉ items.map idOf

instance (items : List Json) (id : Nat) : Decidable (Fresh items id) :=
  inferInstanceAs (Decidable (id < 2 ^ 63 ∧ some (id : Int) ∉ items.map idOf))

structure Server where
  hostConfig : Json
  items : Resource → List Json

namespace Server

variable (server : Server)

def put (resource : Resource) (items : List Json) : Server :=
  { server with items := Function.update server.items resource items }

@[simp] theorem items_put (resource : Resource) (items : List Json) :
    (server.put resource items).items resource = items :=
  Function.update_self _ _ _

theorem items_put_of_ne {resource other : Resource} (h : other ≠ resource) (items : List Json) :
    (server.put resource items).items other = server.items other :=
  Function.update_of_ne h _ _

@[simp] theorem put_put (resource : Resource) (items items' : List Json) :
    (server.put resource items).put resource items' = server.put resource items' := by
  simp [put]

@[simp] theorem put_self (resource : Resource) : server.put resource (server.items resource) = server := by
  simp [put]

-- What a new object is stored as.
def created (id : Nat) (map : List Json.Member) : Json :=
  .Object (Json.assign idKey (Serde.ofNat id) map)

-- The server stores the objects it is sent as they are, and a new one under the id it
-- comes up with, `pick`.
def serve (pick : Nat) (request : Request) : Response × Server :=
  match request.method, request.target, request.body with
  | .Get, .HostConfig, _ => ({ status := 200, body := some server.hostConfig }, server)
  | .Put, .HostConfig, some body =>
      ({ status := 202, body := some body }, { server with hostConfig := body })
  | .Get, .All resource, _ =>
      ({ status := 200, body := some (.Array (server.items resource)) }, server)
  | .Post, .All resource, some (.Object map) =>
      if Fresh (server.items resource) pick then
        ({ status := 201, body := some (created pick map) },
          server.put resource (server.items resource ++ [created pick map]))
      else ({ status := 500 }, server)
  | .Get, .One resource id, _ =>
      match (server.items resource).find? fun item => idOf item = some id with
      | some item => ({ status := 200, body := some item }, server)
      | none => ({ status := 404 }, server)
  | .Put, .One resource id, some body =>
      if some id ∈ (server.items resource).map idOf then
        ({ status := 202, body := some body },
          server.put resource ((server.items resource).map fun item =>
            if idOf item = some id then body else item))
      else ({ status := 404 }, server)
  | .Delete, .One resource id, _ =>
      if some id ∈ (server.items resource).map idOf then
        ({ status := 200 },
          server.put resource ((server.items resource).filter fun item => idOf item ≠ some id))
      else ({ status := 404 }, server)
  | _, _, _ => ({ status := 405 }, server)

end Server

section Ids

theorem fieldsOf_set {live body : Json} {list : List Json} (h : Json.set fieldsKey (.Array list) live = some body) :
    fieldsOf body = some list := by
  rw [fieldsOf, Json.get_set h, if_pos rfl]
  rfl

-- The id of an object is that of no other.
theorem others_of_id {front back : List Json} {item : Json} {id : Int}
    (hdistinct : ((front ++ item :: back).filterMap idOf).Nodup) (hid : idOf item = some id) :
    (∀ other ∈ front, idOf other ≠ some id) ∧ ∀ other ∈ back, idOf other ≠ some id := by
  rw [List.filterMap_append, List.filterMap_cons_some hid, List.nodup_append] at hdistinct
  obtain ⟨_, hback, hcross⟩ := hdistinct
  constructor
  · intro other hother hsame
    exact hcross id (List.mem_filterMap.mpr ⟨other, hother, hsame⟩) id List.mem_cons_self rfl
  · intro other hother hsame
    exact (List.nodup_cons.mp hback).1 (List.mem_filterMap.mpr ⟨other, hother, hsame⟩)

-- So that it alone is replaced.
theorem map_replace {front back : List Json} {item body : Json} {id : Int}
    (hdistinct : ((front ++ item :: back).filterMap idOf).Nodup) (hid : idOf item = some id) :
    (front ++ item :: back).map (fun other => if idOf other = some id then body else other) =
      front ++ body :: back := by
  obtain ⟨hfront, hback⟩ := others_of_id hdistinct hid
  rw [List.map_append, List.map_cons, if_pos hid]
  congr 1
  · rw [List.map_congr_left fun other hother => if_neg (hfront other hother), List.map_id']
  · rw [List.map_congr_left fun other hother => if_neg (hback other hother), List.map_id']

-- And that it alone is removed.
theorem filter_remove {front back : List Json} {item : Json} {id : Int}
    (hdistinct : ((front ++ item :: back).filterMap idOf).Nodup) (hid : idOf item = some id) :
    (front ++ item :: back).filter (fun other => idOf other ≠ some id) = front ++ back := by
  obtain ⟨hfront, hback⟩ := others_of_id hdistinct hid
  rw [List.filter_append, List.filter_cons_of_neg (by simp [hid])]
  congr 1
  · exact List.filter_eq_self.mpr fun other hother => decide_eq_true (hfront other hother)
  · exact List.filter_eq_self.mpr fun other hother => decide_eq_true (hback other hother)

end Ids

-- A request that was sent, with the status of its answer if one came back.
structure Exchange where
  app : App
  request : Request
  status : Option Nat

def Exchange.Failed (exchange : Exchange) : Prop := ∀ status ∈ exchange.status, 400 ≤ status

structure Net where
  servers : App → Server
  log : List Exchange := []

def deliver (app : App) (request : Request) (pick : Nat) (servers : App → Server) :
    Response × (App → Server) :=
  let (response, server) := (servers app).serve pick request
  (response, Function.update servers app server)

inductive ArrError where
  | Transport
  | Http (status : Nat)
  | Json (text : Text)
  | DuplicateIndexer (name : Text)
  | DuplicateDownloadClient (name : Text)
  deriving DecidableEq, Repr

-- A request that comes to nothing may have been served all the same.
def send (app : App) (request : Request) : Call Net ArrError Response where
  run pick net :=
    let (response, servers) := deliver app request pick net.servers
    .ok (response, { servers, log := net.log ++ [⟨app, request, some response.status⟩] })
  partly part net :=
    { servers := match part with
        | 0 => net.servers
        | pick + 1 => (deliver app request pick net.servers).2
      log := net.log ++ [⟨app, request, none⟩] }
  fault := .Transport

def json (app : App) (request : Request) : Prog Net ArrError Json := do
  let response ← Prog.perform (send app request)
  if 400 ≤ response.status then throw (.Http response.status)
  else pure (response.body.getD .Null)

def getJson (app : App) (target : Target) : Prog Net ArrError Json :=
  json app { method := .Get, target }

def putJson (app : App) (target : Target) (body : Json) : Prog Net ArrError Json :=
  json app { method := .Put, target, body := some body }

def postJson (app : App) (target : Target) (body : Json) : Prog Net ArrError Json :=
  json app { method := .Post, target, body := some body }

def delete (app : App) (target : Target) : Prog Net ArrError Unit := do
  let _ ← json app { method := .Delete, target }

-- The policy refusals, the other errors, and a panic, which ends the task alike.
inductive ControlError where
  | Policy (text : Text)
  | Runtime (text : Text)
  | Panicked
  deriving DecidableEq, Repr

def quoted (before name after : Text) : Text := before ++ '\x60' :: name ++ '\x60' :: after

-- What the transport says of a failure is its own.
def ArrError.text : ArrError → Text
  | .Transport => "transport: "
  | .Http status => "http ".toList ++ Text.decimal status
  | .Json text => "json: ".toList ++ text
  | .DuplicateIndexer name => quoted "duplicate indexer " name []
  | .DuplicateDownloadClient name => quoted "duplicate download client " name []

def arrToControl (err : ArrError) : ControlError :=
  match err with
  | .DuplicateIndexer _ | .DuplicateDownloadClient _ => .Policy err.text
  | other => .Runtime other.text

def orPanic {α : Type} : Option α → Prog Net ControlError α
  | some a => pure a
  | none => throw .Panicked

structure GrabApplyReport where
  noop : Bool
  diff : Text

def GrabApplyReport.ofDiffs (diffs : List Text) : GrabApplyReport where
  noop := diffs.isEmpty
  diff := ['\n'].intercalate diffs

-- One part after the other, and what they all report.
def forEach {α β ε : Type} (part : α → Prog Net ε (List β)) : List α → Prog Net ε (List β)
  | [] => pure []
  | item :: rest => do
      let first ← part item
      let others ← forEach part rest
      pure (first ++ others)

-- Nobody but the program changes the servers.
def Alone (moves : Nat → Move Net) : Prop := ∀ n, (moves n).outside = id

-- And each request gets its answer.
def Answered (moves : Nat → Move Net) : Prop := ∀ n, (moves n).outside = id ∧ (moves n).fate = .Goes

def alone (answered : Prop) : Terms Net where
  allowed move := move.outside = id ∧ (answered → move.fate = .Goes)
  guar _ _ _ := True

-- No request of these writes.
def ReadOnly (log : List Exchange) : Prop := ∀ exchange ∈ log, exchange.request.method = .Get

def Refused (log : List Exchange) : Prop := ∃ exchange ∈ log, exchange.Failed

instance : DecidablePred Refused := fun log =>
  inferInstanceAs (Decidable (∃ exchange ∈ log, ∀ status ∈ exchange.status, 400 ≤ status))

-- Runs on servers that are the program's alone, with an answer to each request or without.
abbrev Served {ε α : Type} (answered : Prop) (P : Net → Prop) (m : Prog Net ε α)
    (A : α → Net → Prop) (H : Net → Prop) : Prop :=
  Runs (fun _ net => net) (alone answered) P m A H

section Rules

variable {answered : Prop} {app : App} {request : Request} {P H : Net → Prop}

theorem served_run {ε α : Type} {m : Prog Net ε α} {A : α → Net → Prop} (h : Served answered P m A H)
    {moves : Nat → Move Net} (hmoves : ∀ n, (alone answered).allowed (moves n)) (turn : Nat)
    (net : Net) (hnet : P net) :
    (∀ a, (m moves turn net).outcome = .Done a → A a (m moves turn net).world) ∧
      ((∀ a, (m moves turn net).outcome ≠ .Done a) → H (m moves turn net).world) := by
  have hpost := (h [] net hnet moves turn hmoves).2
  cases ho : (m moves turn net).outcome with
  | Done a =>
      rw [ho] at hpost
      refine ⟨?_, fun hnone => absurd rfl (hnone a)⟩
      rintro _ ⟨⟩
      exact hpost
  | Failed e =>
      rw [ho] at hpost
      refine ⟨?_, fun _ => hpost⟩
      rintro a ⟨⟩
  | Stopped =>
      rw [ho] at hpost
      refine ⟨?_, fun _ => hpost⟩
      rintro a ⟨⟩

theorem served_json {A : Json → Net → Prop}
    (hgoes : ∀ net pick, P net →
      let answer := deliver app request pick net.servers
      let after : Net :=
        { servers := answer.2, log := net.log ++ [⟨app, request, some answer.1.status⟩] }
      if 400 ≤ answer.1.status then H after else A (answer.1.body.getD .Null) after)
    (hfails : ¬answered → ∀ net, P net →
      H { net with log := net.log ++ [⟨app, request, none⟩] } ∧
        ∀ pick, H { servers := (deliver app request pick net.servers).2,
                    log := net.log ++ [⟨app, request, none⟩] }) :
    Served answered P (json app request) A H := by
  intro past net hnet
  apply wp_bind
  apply wp_perform
  rintro move hmove _ o net' rfl hanswer
  rw [hmove.1] at hanswer
  refine ⟨trivial, ?_⟩
  have hpartly : move.fate ≠ .Goes → ∀ part, H ((send app request).partly part net) := by
    intro hfate part
    obtain ⟨hunserved, hserved⟩ := hfails (fun hall => hfate (hmove.2 hall)) net hnet
    cases part with
    | zero => exact hunserved
    | succ pick => exact hserved pick
  unfold Call.answer at hanswer
  cases hfate : move.fate with
  | Goes =>
      rw [hfate] at hanswer
      have hstep := hgoes net move.pick hnet
      have hdone : (Outcome.Done (deliver app request move.pick net.servers).1, _) = (o, net') :=
        hanswer
      obtain ⟨rfl, rfl⟩ := Prod.mk.inj hdone
      dsimp only at hstep
      by_cases hstatus : 400 ≤ (deliver app request move.pick net.servers).1.status
      · rw [if_pos hstatus] at hstep
        show wp (alone answered) (if _ then throw _ else pure _) _ _ _
        rw [if_pos hstatus]
        exact wp_throw hstep
      · rw [if_neg hstatus] at hstep
        show wp (alone answered) (if _ then throw _ else pure _) _ _ _
        rw [if_neg hstatus]
        exact wp_pure hstep
  | Fails part =>
      rw [hfate] at hanswer
      obtain ⟨rfl, rfl⟩ := hanswer
      exact hpartly (by rw [hfate]; exact Fate.noConfusion) part
  | Stops part =>
      rw [hfate] at hanswer
      obtain ⟨rfl, rfl⟩ := hanswer
      exact hpartly (by rw [hfate]; exact Fate.noConfusion) part

theorem served_forEach {α β ε : Type} {part : α → Prog Net ε (List β)} (I : List α → Net → Prop)
    (h : ∀ item rest, Served answered (I (item :: rest)) (part item) (fun _ => I rest) H)
    (items : List α) : Served answered (I items) (forEach part items) (fun _ => I []) H := by
  induction items with
  | nil => exact runs_pure fun _ hnet => hnet
  | cons item rest ih =>
      apply (h item rest).bind
      intro _
      apply ih.bind
      intro _
      exact runs_pure fun _ hnet => hnet

-- The reports of parts that change nothing.
theorem served_flatMap {α β ε : Type} {part : α → Prog Net ε (List β)} {report : α → List β}
    {items : List α}
    (h : ∀ item ∈ items, Served answered P (part item) (fun found net => found = report item ∧ P net) H) :
    Served answered P (forEach part items) (fun found net => found = items.flatMap report ∧ P net) H := by
  induction items with
  | nil => exact runs_pure fun _ hnet => ⟨rfl, hnet⟩
  | cons item rest ih =>
      apply (h item List.mem_cons_self).bind
      intro first
      apply Runs.of_pre (fun _ hnet => hnet.1)
      rintro rfl
      have hrest := ih fun other hother => h other (List.mem_cons_of_mem _ hother)
      apply (hrest.mono (fun _ hnet => hnet.2) (fun _ _ hnet => hnet) fun _ hnet => hnet).bind
      intro others
      refine runs_pure fun net hnet => ⟨?_, hnet.2⟩
      rw [hnet.1, List.flatMap_cons]

end Rules

end Mediaops.Arr
