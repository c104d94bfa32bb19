import DiskTier.Element
import DiskTier.Json.Record
import DiskTier.Json.Value

/-!
# Records

A record is the compact JSON form of an element. `Element.encode` writes one; `Element.decode`
reads one back, in any JSON form of the same members.
-/

namespace DiskTier

open Json

/-! ### Groups and keys -/

namespace GroupId

def toJson (g : GroupId) : Value :=
  .record [("cache_name", .text g.cacheName), ("group_name", .text g.groupName)]

/-- The members of an identity that have come. -/
structure Parts where
  cacheName : Option String := none
  groupName : Option String := none

def reader : Reader GroupId :=
  .record [
    .required "cache_name" (·.cacheName) (fun v p => { p with cacheName := some v }) .text,
    .required "group_name" (·.groupName) (fun v p => { p with groupName := some v }) .text]
    ({} : Parts)
    fun p => do pure { cacheName := ← p.cacheName, groupName := ← p.groupName }

end GroupId

namespace Key

/-- The key as JSON: its kind is the name of the only member. -/
def toJson : Key → Value
  | .name n => .record [("Name", .text n)]
  | .attribute g n =>
    .record [("Group", .record [("group_id", g.toJson), ("attr_name", .text n)])]

structure AttributeParts where
  group : Option GroupId := none
  name : Option String := none

def attributeReader : Reader Key :=
  .record [
    .required "group_id" (·.group) (fun v p => { p with group := some v }) GroupId.reader,
    .required "attr_name" (·.name) (fun v p => { p with name := some v }) .text]
    ({} : AttributeParts)
    fun p => do pure (.attribute (← p.group) (← p.name))

def reader : Reader Key :=
  .tagged fun kind =>
    if kind = "Name" then .content (.name <$> .text)
    else if kind = "Group" then .content attributeReader
    else .fail .mismatched

end Key

/-! ### Attributes -/

namespace Attributes

def toJson (a : Attributes) : Value :=
  .record [("created_at", .integer a.createdAt.toInt),
    ("max_life_secs", .optional (fun n => .natural n.toNat) a.maxLife)]

structure Parts where
  createdAt : Option Int64 := none
  maxLife : Option (Option UInt64) := none

def reader : Reader Attributes :=
  .record [
    .required "created_at" (·.createdAt) (fun v p => { p with createdAt := some v }) .signed64,
    .nullable "max_life_secs" (·.maxLife) (fun v p => { p with maxLife := some v }) .word64]
    ({} : Parts)
    fun p => do pure { createdAt := ← p.createdAt, maxLife := ← p.maxLife }

end Attributes

/-! ### Elements -/

namespace Element

/-- The element as JSON; its value is a list of bytes. -/
def toJson (e : Element) : Value :=
  .record [("cache_name", .text e.cacheName), ("key", e.key.toJson),
    ("value", .list (e.value.map fun b => .natural b.toNat)),
    ("attributes", e.attributes.toJson)]

structure Parts where
  cacheName : Option String := none
  key : Option Key := none
  value : Option Bytes := none
  attributes : Option Attributes := none

def reader : Reader Element :=
  .record [
    .required "cache_name" (·.cacheName) (fun v p => { p with cacheName := some v }) .text,
    .required "key" (·.key) (fun v p => { p with key := some v }) Key.reader,
    .required "value" (·.value) (fun v p => { p with value := some v }) (.list .byte),
    .required "attributes" (·.attributes) (fun v p => { p with attributes := some v })
      Attributes.reader]
    ({} : Parts)
    fun p => do
      pure { cacheName := ← p.cacheName, key := ← p.key, value := ← p.value,
             attributes := ← p.attributes }

/-- The record of an element. -/
def encode (e : Element) : Bytes := e.toJson.render

/-- The element that a record holds. -/
def decode (record : Bytes) : Except Fault Element := reader.whole record

end Element

end DiskTier
