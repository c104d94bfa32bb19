/-!
# Keys

A key is a plain name, or an attribute of a group. Plain names may form a hierarchy with
`Key.delimiter`; a name that ends in it addresses every plain name below it. The text of a group
attribute shows its parts, and is no plain name of its own.
-/

namespace DiskTier

/-- The identity of a group of attributes. -/
structure GroupId where
  cacheName : String
  groupName : String
  deriving DecidableEq, Repr

/-- What an element is stored under. -/
inductive Key where
  | name (name : String)
  | attribute (group : GroupId) (name : String)
  deriving DecidableEq, Repr

namespace Key

/-- Separates the parts of a hierarchical name. -/
def delimiter : Char := ':'

/-- The text that stands for the key in messages. -/
def text : Key → String
  | .name n => n
  | .attribute g n => s!"[{g.cacheName}:{g.groupName}]{n}"

/-- The start of the names that the key addresses, if it addresses a hierarchy. -/
def hierarchy? : Key → Option String
  | .name n => if n.toList.getLast? = some delimiter then some n else none
  | .attribute _ _ => none

/-- Whether the key is a plain name that starts with `start`. -/
def isUnder (start : String) : Key → Bool
  | .name n => start.toList.isPrefixOf n.toList
  | .attribute _ _ => false

/-- The name of the attribute, if the key is one of group `g`. -/
def attributeOf? (g : GroupId) : Key → Option String
  | .name _ => none
  | .attribute g' n => if g' = g then some n else none

/-- Whether the key is an attribute of group `g`. -/
def isAttributeOf (g : GroupId) (k : Key) : Bool := (k.attributeOf? g).isSome

end Key

end DiskTier
