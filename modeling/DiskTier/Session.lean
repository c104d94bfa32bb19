import DiskTier.Region.Call

/-!
# Sessions

A session runs an open region and its background tasks on one thread: the compaction pass, tasks
that save the keys at intervals, and disposals. Tasks run only when the session pumps. The lock is
fair, so the order of all holds is fixed:

* In one pump the pass takes the lock up to `holdsPerPump` times. If it is not over then, it is
  paused, with the lock its own next.
* While the pass is paused, everyone else who wants the lock waits for one more of its holds.
-/

namespace DiskTier

/-- A task that saves the keys at intervals. -/
structure Saver where
  /-- The time between two saves, in seconds. -/
  interval : Nat
  /-- When it saves next. -/
  deadline : Nat
  /-- Whether it has ended. -/
  finished : Bool
  deriving DecidableEq, Repr

/-- The longest time that a task sleeps, in seconds: thirty years of 365 days. -/
def Saver.longestSleep : Nat := 30 * 365 * 24 * 60 * 60

/-- When a task that starts to sleep for `interval` at the time `clock` goes on. -/
def Saver.wakeTime (clock interval : Nat) : Nat := clock + min interval longestSleep

/-- An open region and its tasks. -/
structure Session where
  region : Region
  /-- Whether the pass under way gets the lock before anyone else. -/
  paused : Bool
  savers : List Saver
  /-- The time, in seconds. -/
  clock : Nat

namespace Session

/-- An action on a session and the files of its region. -/
abbrev Change (α : Type) : Type := FileAction Session Error α

/-- How often a pass takes the lock in one pump. -/
def holdsPerPump : Nat := 128

/-- How many pumps follow a disposal or a change of the time. -/
def pumpsAfter : Nat := 8

/-- A session of a region that was just opened. -/
def ofRegion (region : Region) : Session := { region, paused := false, savers := [], clock := 0 }

/-- An action on the region. -/
def onRegion (x : Region.Change α) : Change α :=
  x.onPart (·.region) (fun r s => { s with region := r }) id

/-! ### Holds of the lock -/

/-- Up to `n` holds of the pass under way. Keys that are left over are copied in the order in which
they were collected. -/
def runPass : (n : Nat) → Change Unit
  | 0 => pure ()
  | n + 1 => do
    if (← FileAction.value).region.pass.isSome then
      onRegion (ExceptT.lift (Region.holdPass id))
      runPass n

/-- Notes whether the pass is still under way, and so paused. -/
def pause : Change Unit :=
  FileAction.change fun s => { s with paused := s.region.pass.isSome }

/-- An action that takes the lock once, in its turn. -/
def locked (x : Region.Change α) : Change α := do
  if (← FileAction.value).paused then
    runPass 1
    pause
  onRegion x

/-- Carries a call out. A read that fails takes the lock a second time to empty the region. -/
def call {α : Type} : Call α → Change α
  | .get k => do
    match ← (locked (Region.lookup k)).attempt with
    | .ok found => pure found
    | .error e => do
      (locked Region.reset).regardless
      throw e
  | c => if c.takesLock then locked c.perform else onRegion c.perform

/-! ### Tasks -/

/-- What a saving task does once its time has come. -/
def runSaver (t : Saver) : Change Saver := do
  let s ← FileAction.value
  if t.finished || s.clock < t.deadline then pure t
  else if s.region.alive then
    (locked Region.saveKeys).regardless
    pure { t with deadline := Saver.wakeTime s.clock t.interval }
  else pure { t with finished := true }

/-- Lets every task run once. -/
def pump : Change Unit := do
  runPass holdsPerPump
  pause
  let savers ← (← FileAction.value).savers.mapM runSaver
  FileAction.change fun s => { s with savers }

def pumps : (n : Nat) → Change Unit
  | 0 => pure ()
  | n + 1 => do
    pump
    pumps n

/-- Pumps until no pass is under way. -/
def wait : Change Unit := do
  let s ← FileAction.value
  if s.region.compacting then
    runPass s.region.holdsLeft
    pump

/-- Whether the latest saving task has ended, if there is one. -/
def saverFinished? (s : Session) : Option Bool := s.savers.head?.map (·.finished)

/-- Starts a task that saves the keys every `interval` seconds. -/
def startSaver (interval : Nat) : Change Unit := do
  FileAction.change fun s =>
    let t := { interval, deadline := Saver.wakeTime s.clock interval, finished := false }
    { s with savers := t :: s.savers }
  pump

/-- Ends the latest saving task. -/
def abortSaver : Change Unit := do
  match (← FileAction.value).savers with
  | [] => pure ()
  | t :: rest => do
    FileAction.change fun s => { s with savers := { t with finished := true } :: rest }
    pump

/-- Lets `seconds` pass. -/
def advance (seconds : Nat) : Change Unit := do
  FileAction.change fun s => { s with clock := s.clock + seconds }
  pumps pumpsAfter

/-! ### Disposing -/

/-- The region serves no longer. -/
def markDead : Change Unit :=
  FileAction.change fun s => { s with region := { s.region with alive := false } }

/-- Shuts the region down and waits for it, unless the settings allow no time for that: then the
region is dead before anything is done, and a pass under way gives up. -/
def dispose : Change Unit := do
  if (← FileAction.value).region.config.disposeTimeout = 0 then
    markDead
    runPass holdsPerPump
    pause
    (locked Region.shutDown).regardless
    pumps pumpsAfter
  else
    runPass holdsPerPump
    pause
    let outcome ← (locked Region.shutDown).attempt
    markDead
    pumps pumpsAfter
    outcome

end Session

end DiskTier
