import DiskTier.Region

/-!
# Calls

What a client can ask of an open region, as data: each call names the type of its answer.
`Call.perform` carries one out.
-/

namespace DiskTier

/-- A request to a region that is answered by an `α`. -/
inductive Call : Type → Type where
  | put (element : Element) : Call Unit
  | get (key : Key) : Call (Option Element)
  | groupKeys (groupName : String) : Call (List String)
  | remove (key : Key) : Call Bool
  | removeGroup (group : GroupId) : Call Bool
  | reset : Call Unit
  | saveKeys : Call Unit
  | size : Call Nat
  | stats : Call Stats
  | requestCompaction : Call Bool

namespace Call

def perform {α : Type} : Call α → Region.Change α
  | .put e => Region.put e
  | .get k => Region.get k
  | .groupKeys g => (·.groupKeys g) <$> FileAction.value
  | .remove k => Region.change (·.remove k)
  | .removeGroup g => Region.change (·.removeGroup g)
  | .reset => Region.reset
  | .saveKeys => Region.saveKeys
  | .size => Region.size <$> FileAction.value
  | .stats => Region.stats <$> FileAction.value
  | .requestCompaction => Region.change Region.requestCompaction

/-- Whether a call takes the lock. -/
def takesLock {α : Type} : Call α → Bool
  | .requestCompaction => false
  | _ => true

end Call

end DiskTier
