import DiskTier.Http.MediaType
import DiskTier.Http.Response
import DiskTier.Http.Route
import DiskTier.Http.SetRequest
import DiskTier.Region.Call

/-!
# The HTTP service

Turns a request into a plan: an answer at once, or a call to the region and what its outcome is
answered with. A request makes at most one call.
-/

namespace DiskTier.Http

structure Request where
  method : String
  uri : Bytes
  contentType : Option Bytes
  body : Bytes

/-- What the service knows when a request arrives. -/
structure Context where
  cacheName : String
  alive : Bool
  now : Int64
  timestamp : String

/-- How a request is served. -/
inductive Plan : Type 1 where
  /-- Without the region. -/
  | answer (response : Response)
  /-- By a call. -/
  | ask {α : Type} (call : Call α) (answer : Except Error α → Response)

namespace Plan

def map (f : Response → Response) : Plan → Plan
  | .answer r => .answer (f r)
  | .ask c k => .ask c (f ∘ k)

def refuse (status : Status) : Plan := .answer (.bare status)

/-- A call whose failure is answered as what it is. -/
def call {α : Type} (c : Call α) (k : α → Response) : Plan :=
  .ask c fun
    | .ok a => k a
    | .error e => .ofError e

/-- Goes on only if the region is alive. -/
def ifAlive (c : Context) (p : Plan) : Plan :=
  if c.alive then p else .answer (.ofError (.notAlive c.cacheName))

/-- Goes on with the text that an encoded parameter stands for. -/
def withText (s : Bytes) (k : String → Plan) : Plan :=
  match Percent.decode? s with
  | some text => k text
  | none => refuse .badRequest

end Plan

open Plan

/-- The greatest number of bytes of a body. -/
def maxBodySize : Nat := 2 * 1024 * 1024

/-- The status of a body that cannot be read. -/
def statusOfFault : Json.Fault → Status
  | .mismatched => .unprocessable
  | .malformed => .badRequest
  | .unfinished => .badRequest

/-- Stores what a body says. Whatever follows the first value of a body is passed over. -/
def planSet (c : Context) (r : Request) : Plan :=
  if !(r.contentType.any MediaType.announcesJson) then refuse .unsupportedMediaType
  else if maxBodySize < r.body.length then refuse .contentTooLarge
  else match SetRequest.reader.front r.body with
    | .error fault => refuse (statusOfFault fault)
    | .ok set =>
      match set.problem? with
      | some p => .answer (.ofError (.invalidRequest p.message))
      | none =>
        call (.put (set.toElement c.cacheName c.now)) fun () => .success (.stored set.key)

/-- Reads the element of `key`, which the answer calls `name`. -/
def planGet (key : Key) (name : String) : Plan :=
  call (.get key) fun
    | some e => .success (.ofElement name e)
    | none => .ofError (.notFound key.text)

/-- Answers whether what `name` stands for was removed. -/
def removal (name : String) (any : Bool) : Response :=
  if any then .success (.removed name) else .ofError (.notFound name)

/-- Serves a target with the method that it allows. -/
def planTarget (c : Context) (r : Request) : Target → Plan
  | .set => planSet c r
  | .get k => withText k fun name => ifAlive c (planGet (.name name) name)
  | .delete k => withText k fun name => ifAlive c (call (.remove (.name name)) (removal name))
  | .group g => withText g fun name =>
    ifAlive c (call (.removeGroup { cacheName := c.cacheName, groupName := name }) (removal name))
  | .groupKeys g => withText g fun name =>
    ifAlive c (call (.groupKeys name) fun keys => .success (.groupKeys name keys))
  | .groupAttribute g a => withText g fun group => withText a fun name =>
    ifAlive c
      (planGet (.attribute { cacheName := c.cacheName, groupName := group } name) name)
  | .all => call .reset fun () => .success (.removed c.cacheName)
  | .compaction => ifAlive c (call .requestCompaction fun started => .success (.compaction started))
  | .stats => call .stats fun s => .success (.stats s)
  | .health => .answer (.success (.health c.alive c.timestamp))

def plan (c : Context) (r : Request) : Plan :=
  if r.method = "OPTIONS" then .answer (.bare .ok)
  else match Target.ofUri r.uri with
    | none => refuse .notFound
    | some t =>
      if !t.allows r.method then refuse .methodNotAllowed
      else if r.method = "HEAD" then (planTarget c r t).map fun a => .bare a.status
      else planTarget c r t

end DiskTier.Http
