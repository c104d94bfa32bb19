import DiskTier.Element.Codec
import DiskTier.Error
import DiskTier.Stats
import DiskTier.Text.Sorted

/-!
# Responses

The answers of the HTTP service: a status, and perhaps a record as body.
-/

namespace DiskTier.Http

/-- The outcome of a request. -/
inductive Status where
  | ok
  | badRequest
  | notFound
  | methodNotAllowed
  | contentTooLarge
  | unsupportedMediaType
  | unprocessable
  | internalError
  | unavailable
  deriving DecidableEq, Repr

def Status.code : Status → Nat
  | .ok => 200
  | .badRequest => 400
  | .notFound => 404
  | .methodNotAllowed => 405
  | .contentTooLarge => 413
  | .unsupportedMediaType => 415
  | .unprocessable => 422
  | .internalError => 500
  | .unavailable => 503

/-- A body: the members of one JSON record. -/
structure Body where
  members : List (String × Json.Value)
  /-- The value of the member `hit_rate`, which is a fraction, if the body has it. -/
  hitRate : Option Float := none

structure Response where
  status : Status
  body : Option Body

namespace Response

def bare (status : Status) : Response := { status, body := none }

def success (body : Body) : Response := { status := .ok, body := some body }

/-- The status that an error leads to. -/
def statusOf : Error → Status
  | .notFound _ => .notFound
  | .invalidRequest _ => .badRequest
  | .notAlive _ => .unavailable
  | _ => .internalError

def ofError (e : Error) : Response :=
  { status := statusOf e, body := some { members := [("error", .text e.message)] } }

end Response

namespace Body

/-- An element, named `key`. Its value is shown as text. -/
def ofElement (key : String) (e : Element) : Body :=
  { members := [("key", .text key), ("value", .text (Utf8.decodeLossy e.value)),
      ("created_at", .integer e.attributes.createdAt.toInt),
      ("max_life", .optional (fun n => .natural n.toNat) e.attributes.maxLife)] }

/-- That something was stored under `key`. -/
def stored (key : String) : Body :=
  { members := [("message", .text s!"Key '{key}' set successfully"), ("key", .text key)] }

/-- That what `key` names was removed. -/
def removed (key : String) : Body :=
  { members := [("message", .text s!"'{key}' removed successfully"), ("key", .text key)] }

/-- The attributes of a group, in ascending order. -/
def groupKeys (group : String) (keys : List String) : Body :=
  { members := [("group", .text group),
      ("keys", .list ((Text.sortedDistinct keys).map .text))] }

/-- Whether a compaction was started. -/
def compaction (started : Bool) : Body :=
  let message := if started then "Compaction started" else "Compaction already in progress"
  { members := [("started", .bool started), ("message", .text message)] }

def stats (s : Stats) : Body := { members := s.members, hitRate := some s.hitRate }

/-- Whether the region is alive, at the time `timestamp`. -/
def health (alive : Bool) (timestamp : String) : Body :=
  { members := [("status", .text (if alive then "healthy" else "disposed")),
      ("timestamp", .text timestamp)] }

end Body

end DiskTier.Http
