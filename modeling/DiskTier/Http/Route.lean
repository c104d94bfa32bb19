import DiskTier.Http.Percent

/-!
# Routes

What a request is about is told by the names in its path. Each target is served by one method, and
by the head of that method if it is `GET`.
-/

namespace DiskTier.Http

/-- What a request is about; the parameters are still encoded. -/
inductive Target where
  | set
  | get (key : Bytes)
  | delete (key : Bytes)
  | group (group : Bytes)
  | groupKeys (group : Bytes)
  | groupAttribute (group name : Bytes)
  | all
  | compaction
  | stats
  | health
  deriving DecidableEq, Repr

/-- The parts of a path between slashes. -/
def segments : Bytes → List Bytes
  | [] => [[]]
  | b :: s =>
    if b = Ascii.slash then [] :: segments s
    else match segments s with
      | [] => [[b]]
      | part :: parts => (b :: part) :: parts

/-- Whether a scheme may hold the byte. -/
def isSchemeByte (b : UInt8) : Bool :=
  Ascii.isDigit b || Ascii.isLetter b || b = Ascii.plus || b = Ascii.minus || b = Ascii.point ||
    b = Ascii.tilde

/-- What follows the scheme and the two slashes behind it. -/
def afterScheme? : Bytes → Option Bytes
  | [] => none
  | b :: s =>
    if b = Ascii.colon then
      match s with
      | x :: y :: rest => if x = Ascii.slash ∧ y = Ascii.slash then some rest else none
      | _ => none
    else if isSchemeByte b then afterScheme? s
    else none

/-- A request target without its query and its fragment. -/
def beforeQuery (uri : Bytes) : Bytes :=
  uri.takeWhile fun b => b ≠ Ascii.questionMark && b ≠ Ascii.numberSign

/-- The path of a request target. Behind a scheme the path begins after the name of the host. -/
def pathOf (uri : Bytes) : Bytes :=
  match afterScheme? uri with
  | some rest => (beforeQuery rest).dropWhile (· ≠ Ascii.slash)
  | none => beforeQuery uri

namespace Target

/-- The target of a path, given by its segments. A parameter at the end of a path is not empty. -/
def ofSegments (parts : List Bytes) : Option Target :=
  let name := Utf8.encode
  match parts with
  | [a] =>
    if a = name "set" then some .set
    else if a = name "all" then some .all
    else if a = name "optimize" then some .compaction
    else if a = name "stats" then some .stats
    else if a = name "health" then some .health
    else none
  | [a, x] =>
    if x.isEmpty then none
    else if a = name "get" then some (.get x)
    else if a = name "del" then some (.delete x)
    else if a = name "group" then some (.group x)
    else none
  | [a, x, b] => if a = name "group" ∧ b = name "keys" then some (.groupKeys x) else none
  | [a, x, b, y] =>
    if a = name "group" ∧ b = name "get" ∧ !y.isEmpty then some (.groupAttribute x y) else none
  | _ => none

/-- The target of a request target. -/
def ofUri (uri : Bytes) : Option Target :=
  match segments (pathOf uri) with
  | [] :: parts => ofSegments parts
  | _ => none

/-- The method that serves a target. -/
def method : Target → String
  | .set => "PUT"
  | .get _ => "GET"
  | .delete _ => "DELETE"
  | .group _ => "DELETE"
  | .groupKeys _ => "GET"
  | .groupAttribute _ _ => "GET"
  | .all => "DELETE"
  | .compaction => "POST"
  | .stats => "GET"
  | .health => "GET"

/-- Whether a target is served by a method. -/
def allows (t : Target) (method : String) : Bool :=
  t.method = method || (method = "HEAD" && t.method = "GET")

end Target

end DiskTier.Http
