import DiskTier.Compaction

/-!
# Compaction passes

A pass is a compaction while the region keeps serving. It takes the lock for a moment at a time:

1. once to list the keys and to have the store collect the keys that are written from then on,
2. once for each listed key, to copy its record,
3. once for each collected key, as often at most as there were listed keys,
4. once to copy what was collected since and to install the draft.

`Pass.hold` is what happens under one such hold of the lock, together with what follows it before
the next. A pass gives up as soon as it finds that the region is no longer alive or was reset. After
a failure in the second or third stage it takes the lock once more, to end the collecting.
-/

namespace DiskTier

/-- A pass that has listed its keys and can go on. -/
structure Work where
  /-- The number of resets when the keys were listed. -/
  generation : Nat
  draft : Draft
  /-- The listed keys that are still to be copied. -/
  todo : List Key
  /-- How often a collected key may still be asked for. -/
  tries : Nat

/-- A compaction pass, between two holds of the lock. -/
inductive Pass where
  /-- Nothing is done yet. -/
  | requested
  /-- Records are being copied. -/
  | running (work : Work)
  /-- It failed, and has to end the collecting that it began. -/
  | stopping (generation : Nat) (draft : Option Draft)

/-- What a hold leads to. -/
inductive Progress where
  | next (pass : Pass)
  /-- The pass is over; whether its draft was installed. -/
  | over (installed : Bool)

namespace Store

/-- Ends the collecting that began in a generation. -/
def stopCollecting (generation : Nat) (s : Store) : Store :=
  if s.generation = generation then { s with pending := none } else s

/-- The first collected key; what is left without it. -/
def takePending (s : Store) : Option (Key × Store) :=
  match s.pending with
  | some (k :: ks) => some (k, { s with pending := some ks })
  | _ => none

end Store

namespace Pass

/-- Something done to the store under a hold. Its failures are dealt with inside. -/
abbrev Held (α : Type) : Type := StateM (FileSystem × Store) α

/-- Does an action, and gives its failure as a value. -/
def outcome (x : Store.Change α) : Held (Except Error α) := x.run

def abandon (d : Draft) : Held Unit :=
  discard (outcome (FileAction.onDisk id d.abandon))

def store : Held Store := do pure (← get).2

def setStore (s : Store) : Held Unit := modify fun p => (p.1, s)

/-- Lists the keys, has the store collect, and begins a draft. -/
def start (draftFile : Path) : Held Progress := do
  let s ← store
  setStore { s with pending := some [] }
  match ← outcome (FileAction.onDisk id (Draft.begin draftFile)) with
  | .error _ => pure (.next (.stopping s.generation none))
  | .ok draft =>
    let todo := s.index.keys
    pure (.next (.running { generation := s.generation, draft, todo, tries := todo.length }))

/-- Copies the record of `k` into the draft of `w`. -/
def copyOne (k : Key) (w : Work) : Held Progress := do
  match ← outcome (FileAction.onDisk id (w.draft.copy (← store) k)) with
  | .error _ => pure (.next (.stopping w.generation (some w.draft)))
  | .ok draft => pure (.next (.running { w with draft }))

/-- Copies what was collected last, in the order that `arrange` gives, and installs the draft. -/
def finish (arrange : List Key → List Key) (w : Work) : Held Progress := do
  let s ← store
  let leftovers := (s.pending.getD []).eraseDups
  setStore { s with pending := none }
  match ← outcome (FileAction.onDisk id (w.draft.copyAll (← store) (arrange leftovers))) with
  | .error _ => do
    abandon w.draft
    pure (.over false)
  | .ok draft => do
    match ← outcome (Store.installDraft draft) with
    | .error _ => pure (.over false)
    | .ok () => pure (.over true)

/-- The next copy, or the end. -/
def work (arrange : List Key → List Key) (w : Work) : Held Progress := do
  match w.todo, w.tries with
  | k :: ks, _ => copyOne k { w with todo := ks }
  | [], n + 1 =>
    match (← store).takePending with
    | none => pure (.next (.running { w with tries := 0 }))
    | some (k, s) => do
      setStore s
      copyOne k { w with tries := n }
  | [], 0 => finish arrange w

/-- One hold of the lock. `alive` tells whether the region is. -/
def hold (arrange : List Key → List Key) (draftFile : Path) (alive : Bool) : Pass → Held Progress
  | .requested => if alive then start draftFile else pure (.over false)
  | .running w => do
    if alive && (← store).generation == w.generation then work arrange w
    else do
      abandon w.draft
      pure (.over false)
  | .stopping generation draft => do
    setStore ((← store).stopCollecting generation)
    match draft with
    | none => pure ()
    | some d => abandon d
    pure (.over false)

/-- How many holds a pass can still take, if it begins with `count` keys. -/
def bound (count : Nat) : Pass → Nat
  | .requested => 2 * count + 2
  | .running w => w.todo.length + w.tries + 1
  | .stopping _ _ => 1

end Pass

end DiskTier
