import DiskTier.Bytes
import DiskTier.Key

/-!
# Elements

An element is what a caller stores: a key, opaque bytes, and attributes that are kept untouched.
-/

namespace DiskTier

/-- What is known of an element beside its value. -/
structure Attributes where
  /-- The time of creation, in milliseconds. -/
  createdAt : Int64
  /-- The longest life in seconds; without one the element is eternal. -/
  maxLife : Option UInt64
  deriving DecidableEq, Repr

namespace Attributes

def isEternal (a : Attributes) : Bool := a.maxLife.isNone

end Attributes

/-- A value with its key. -/
structure Element where
  cacheName : String
  key : Key
  value : Bytes
  attributes : Attributes
  deriving DecidableEq, Repr

end DiskTier
