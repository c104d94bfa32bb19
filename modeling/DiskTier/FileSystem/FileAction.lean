import DiskTier.Error
import DiskTier.FileSystem.Basic

/-!
# Actions on files and a value in memory

What a region does changes files on disk and a value in memory side by side. A `FileAction` is an
action on both; when it fails, each stays as far as it had come.
-/

namespace DiskTier

/-- An action on the file system and a value `σ` in memory. -/
abbrev FileAction (σ ε α : Type) : Type := Action (FileSystem × σ) ε α

namespace FileAction

variable {σ τ ε ε' α : Type}

def value : FileAction σ ε σ := Action.look (·.2)

def change (f : σ → σ) : FileAction σ ε Unit := Action.update fun p => (p.1, f p.2)

/-- An action on files alone. -/
def onDisk (wrap : ε → ε') (x : Action FileSystem ε α) : FileAction σ ε' α :=
  x.zoom (·.1) (fun d p => (d, p.2)) wrap

/-- An action on files and a part of the value in memory. -/
def onPart (get : τ → σ) (put : σ → τ → τ) (wrap : ε → ε') (x : FileAction σ ε α) :
    FileAction τ ε' α :=
  x.zoom (fun p => (p.1, get p.2)) (fun q p => (q.1, put q.2 p.2)) wrap

/-- The action with a value of its own, which is `s` at first; also what the value becomes. -/
def startingWith (x : FileAction σ ε α) (s : σ) : Action FileSystem ε (α × σ) := x.along s

/-! ### Runs -/

@[simp] theorem result_value (p : FileSystem × σ) :
    (value : FileAction σ ε σ).result p = (.ok p.2, p) := rfl

@[simp] theorem result_change (f : σ → σ) (p : FileSystem × σ) :
    (change f : FileAction σ ε Unit).result p = (.ok (), (p.1, f p.2)) := rfl

theorem result_onDisk (wrap : ε → ε') (x : Action FileSystem ε α) (p : FileSystem × σ) :
    (onDisk wrap x).result p = ((x.result p.1).1.mapError wrap, ((x.result p.1).2, p.2)) :=
  Action.result_zoom _ _ _ _ _

theorem result_onPart (get : τ → σ) (put : σ → τ → τ) (wrap : ε → ε') (x : FileAction σ ε α)
    (p : FileSystem × τ) :
    (onPart get put wrap x).result p = ((x.result (p.1, get p.2)).1.mapError wrap,
      ((x.result (p.1, get p.2)).2.1, put (x.result (p.1, get p.2)).2.2 p.2)) :=
  Action.result_zoom _ _ _ _ _

theorem result_startingWith (x : FileAction σ ε α) (s : σ) (d : FileSystem) :
    (x.startingWith s).result d = match x.result (d, s) with
      | (.ok a, (d', s')) => (.ok (a, s'), d')
      | (.error e, (d', _)) => (.error e, d') := by
  rcases h : x.result (d, s) with ⟨(e | a), ⟨d', s'⟩⟩ <;> simp [startingWith, Action.along, h]

end FileAction

/-- The operation as an action on record files. -/
def FileSystem.Operation.lift (x : FileSystem.Operation α) : Action FileSystem FileError α :=
  x.failingAs .refused

@[simp] theorem Action.result_lift {α : Type} (x : FileSystem.Operation α) (d : FileSystem) :
    x.lift.result d = ((x.result d).1.mapError .refused, (x.result d).2) :=
  Action.result_failingAs _ _ _

end DiskTier
