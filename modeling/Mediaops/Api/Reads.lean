import Mediaops.Api.Serve

namespace Mediaops.Serve

-- The reading requests of the Home API. A watch answers with a stream that goes on
-- reading the store for as long as it is open.

inductive ReadRequest where
  | Get (kind name : Text)
  | List (kind : Text)
  | Watch (kind : Text) (resourceVersion : Int)
  deriving DecidableEq, Repr

def maybeRedact (actor : Actor) (obj : HomeObject) : HomeObject :=
  if actor = .Cli then obj.redact else obj

-- One message of a stream.
abbrev WatchItem := WatchType × HomeObject

def get (s : Store) (actor : Actor) (kind name : Text) : Except HomeError HomeObject := do
  let kind ← Kind.parse kind
  admitOp actor .Get kind
  if name = [] then throw (invalid "name is required")
  match s.get kind name with
  | none => throw (.NotFound kind name)
  | some obj => pure (maybeRedact actor obj)

-- No kind is every kind, and nothing is left to admit then.
def readKind (actor : Actor) (op : HomeOp) (kind : Text) : Except HomeError (Option Kind) :=
  if kind = [] then pure none
  else do
    let kind ← Kind.parse kind
    admitOp actor op kind
    pure (some kind)

def list (s : Store) (actor : Actor) (kind : Text) : Except HomeError (List HomeObject) := do
  let kind ← readKind actor .List kind
  pure ((s.list kind).map (maybeRedact actor))

-- An open stream: what it selects, and the last revision it has read.
structure Stream where
  kind : Option Kind
  after : Int
  deriving DecidableEq, Repr

-- Zero asks for the live objects first; they come as additions.
def watch (s : Store) (actor : Actor) (kind : Text) (resourceVersion : Int) :
    Except HomeError (List WatchItem × Stream) := do
  let kind ← readKind actor .Watch kind
  if resourceVersion < 0 then throw (invalid "resourceVersion must be nonnegative")
  if resourceVersion = 0 then
    let (objects, after) := s.snapshot kind
    pure (objects.map fun obj => (.Added, maybeRedact actor obj), { kind, after })
  else pure ([], { kind, after := resourceVersion })

def itemOf (actor : Actor) (ev : StoreEvent) : WatchItem := (ev.watch, maybeRedact actor ev.object)

-- One turn of the stream: the next page of the history, or the error that ends it.
def poll (s : Store) (actor : Actor) (stream : Stream) :
    List (Except HomeError WatchItem) × Option Stream :=
  match s.eventsAfter stream.after with
  | .ok events =>
      ((events.filter fun ev => Store.ofKind stream.kind ev.object).map fun ev => .ok (itemOf actor ev),
        some { stream with after := (events.getLast?.map StoreEvent.revision).getD stream.after })
  | .error e => ([.error (mapStore e)], none)

-- A reader sends requests and reads its streams, in whatever order.
inductive ReadStep where
  | Send (request : ReadRequest)
  | Poll (stream : Nat)
  deriving DecidableEq, Repr

inductive Response where
  | Object (answer : Except HomeError HomeObject)
  | Objects (answer : Except HomeError (List HomeObject))
  | Opened (answer : Except HomeError (List WatchItem))
  | Items (items : List (Except HomeError WatchItem))

def read (actor : Actor) (s : Store) (streams : List (Option Stream)) :
    ReadStep → Response × List (Option Stream)
  | .Send (.Get kind name) => (.Object (get s actor kind name), streams)
  | .Send (.List kind) => (.Objects (list s actor kind), streams)
  | .Send (.Watch kind resourceVersion) =>
      match watch s actor kind resourceVersion with
      | .ok (items, stream) => (.Opened (.ok items), streams ++ [some stream])
      | .error e => (.Opened (.error e), streams)
  | .Poll i =>
      match streams[i]?.join with
      | some stream =>
          let (items, next) := poll s actor stream
          (.Items items, streams.set i next)
      | none => (.Items [], streams)

-- What the reader is told, with the store as it stands at each step.
def responses (actor : Actor) : List (Option Stream) → List (Store × ReadStep) → List Response
  | _, [] => []
  | streams, (s, step) :: steps =>
      let (response, streams) := read actor s streams step
      response :: responses actor streams steps

end Mediaops.Serve
