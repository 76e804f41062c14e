import Mediaops.Library.Text

namespace Mediaops

-- JSON documents as their reader's accessors see them.

-- A float counts only by its whole part, which is there when it is not negative.
inductive JsonNumber where
  | Unsigned (n : UInt64)
  | Negative (n : Int)
  | Float (whole : Option UInt64)
  deriving DecidableEq, Repr

inductive Json where
  | Null
  | Bool (b : Bool)
  | Number (n : JsonNumber)
  | String (text : Text)
  | Array (items : List Json)
  | Object (fields : List (Text × Json))

namespace Json

def get (key : Text) : Json → Option Json
  | Object fields => (fields.find? fun field => field.1 = key).map Prod.snd
  | _ => none

def asStr : Json → Option Text
  | String text => some text
  | _ => none

def asArray : Json → Option (List Json)
  | Array items => some items
  | _ => none

def asU64 : Json → Option UInt64
  | Number (.Unsigned n) => some n
  | _ => none

-- `as_f64` and then `as u64`, of what is finite and not negative.
def asWhole : Json → Option UInt64
  | Number (.Unsigned n) => some n
  | Number (.Float whole) => whole
  | _ => none

end Json

end Mediaops
