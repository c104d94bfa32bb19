import DiskTier.Error
import DiskTier.FileSystem.Path
import DiskTier.Text.Decimal

/-!
# Settings

The settings of a region, their defaults, and how they are taken from named variables. A variable
that is missing, is no text, or holds no number where one is wanted counts as not given.
-/

namespace DiskTier

structure Config where
  /-- The name of the region, with which the names of its files start. -/
  cacheName : String := "default"
  diskPath : Path := ⟨"./cache-data"⟩
  maxKeys : Nat := 5000
  maxFreeSlots : Nat := 5000
  /-- How many removals start a compaction; with 0 none does. -/
  compactAtRemovals : Nat := 0
  /-- The longest time, in seconds, that a disposal is waited for. -/
  disposeTimeout : Nat := 60
  /-- The time, in seconds, between two saves of the keys; with 0 they are not saved. -/
  keySaveInterval : Nat := 0
  serverPort : Nat := 3000
  deriving DecidableEq, Repr

namespace Config

/-- The default settings of the region `name` in the directory `path`. -/
def named (name : String) (path : Path) : Config := { cacheName := name, diskPath := path }

/-! ### From variables -/

def maxWord : Nat := 0xFFFFFFFFFFFFFFFF

def maxServerPort : Nat := 0xFFFF

/-- The settings that variables give. The number of free slots follows the number of keys unless it
is given itself. -/
def ofVariables (lookup : String → Option Bytes) : Config :=
  let text? name := lookup name >>= Utf8.decode?
  let number? limit name := text? name >>= Decimal.parse? limit
  let word name otherwise := (number? maxWord name).getD otherwise
  let defaults : Config := {}
  let maxKeys := word "MAX_KEY_SIZE" defaults.maxKeys
  { cacheName := (text? "CACHE_NAME").getD defaults.cacheName
    diskPath := ((text? "DISK_PATH").map Path.mk).getD defaults.diskPath
    maxKeys
    maxFreeSlots := word "MAX_RECYCLE_BIN_SIZE" maxKeys
    compactAtRemovals := word "OPTIMIZE_AT_REMOVE_COUNT" defaults.compactAtRemovals
    disposeTimeout := word "DISPOSE_TIMEOUT_SECS" defaults.disposeTimeout
    keySaveInterval := word "KEY_SAVE_INTERVAL_SECS" defaults.keySaveInterval
    serverPort := (number? maxServerPort "SERVER_PORT").getD defaults.serverPort }

/-! ### Validity -/

/-- What makes settings unusable. -/
inductive Problem where
  | emptyName
  | separatorInName (name : String)
  | noKeys
  deriving DecidableEq, Repr

def Problem.message : Problem → String
  | .emptyName => "cache_name cannot be empty"
  | .separatorInName name => s!"cache_name '{name}' must not contain path separators"
  | .noKeys => "max_key_size must be at least 1"

/-- A character that separates the names of a path on some system. -/
def isSeparator (c : Char) : Bool := c = '/' || c = '\\'

/-- The first problem of the settings. -/
def problem? (c : Config) : Option Problem :=
  if c.cacheName.isEmpty then some .emptyName
  else if c.cacheName.toList.any isSeparator then some (.separatorInName c.cacheName)
  else if c.maxKeys = 0 then some .noKeys
  else none

def validate (c : Config) : Except Error Unit :=
  match c.problem? with
  | some p => .error (.invalidConfig p.message)
  | none => .ok ()

/-! ### Files -/

/-- The file that holds the records. -/
def dataFile (c : Config) : Path := c.diskPath.join (c.cacheName ++ ".data")

/-- The file that holds the snapshot of the index. -/
def keyFile (c : Config) : Path := c.diskPath.join (c.cacheName ++ ".key")

/-- The file that a compaction fills. -/
def draftFile (c : Config) : Path := c.diskPath.join (c.cacheName ++ "Temp.data")

end Config

end DiskTier
