/-!
# Actions

An action reads and changes a state and gives a value or fails. A failed action keeps the changes
that it made before it failed: what is on disk stays on disk.

`Action.result` is an action as a function; each way to make or combine actions is described by
what it does to that.
-/

namespace DiskTier

/-- A computation over a state `σ` that gives an `α` or fails with an `ε`. -/
abbrev Action (σ ε α : Type) : Type := ExceptT ε (StateM σ) α

namespace Action

variable {σ τ ε ε' α β : Type}

/-- Runs an action: the outcome and the state that it leaves. -/
def result (x : Action σ ε α) (s : σ) : Except ε α × σ := x.run.run s

/-- The action with a given run. -/
def ofResult (f : σ → Except ε α × σ) : Action σ ε α := ExceptT.mk fun s => f s

/-- An action that only changes the state. -/
def update (f : σ → σ) : Action σ ε Unit := ofResult fun s => (.ok (), f s)

/-- An action that only looks at the state. -/
def look (f : σ → α) : Action σ ε α := ofResult fun s => (.ok (f s), s)

/-- A failure becomes a value. -/
def attempt (x : Action σ ε α) : Action σ ε' (Except ε α) :=
  ofResult fun s => match x.result s with
    | (r, s') => (.ok r, s')

/-- Whether the action succeeds or fails, go on. -/
def regardless (x : Action σ ε α) : Action σ ε' Unit := discard x.attempt

/-- The action on the part `get` of a larger state, with the failures renamed by `wrap`. -/
def zoom (get : τ → σ) (put : σ → τ → τ) (wrap : ε → ε') (x : Action σ ε α) : Action τ ε' α :=
  ofResult fun t => match x.result (get t) with
    | (.ok a, s) => (.ok a, put s t)
    | (.error e, s) => (.error (wrap e), put s t)

/-- The action with its failures renamed. -/
def failingAs (wrap : ε → ε') (x : Action σ ε α) : Action σ ε' α :=
  ofResult fun s => match x.result s with
    | (.ok a, s') => (.ok a, s')
    | (.error e, s') => (.error (wrap e), s')

/-- The action on the state together with a part of its own, which is `t` at first; also what that
part becomes. The part is lost if the action fails. -/
def along (t : τ) (x : Action (σ × τ) ε α) : Action σ ε (α × τ) :=
  ofResult fun s => match x.result (s, t) with
    | (.ok a, (s', t')) => (.ok (a, t'), s')
    | (.error e, (s', _)) => (.error e, s')

/-! ### Runs -/

@[simp] theorem result_ofResult (f : σ → Except ε α × σ) : (ofResult f).result = f := rfl

@[simp] theorem result_pure (a : α) (s : σ) :
    (pure a : Action σ ε α).result s = (.ok a, s) := rfl

@[simp] theorem result_throw (e : ε) (s : σ) :
    (throw e : Action σ ε α).result s = (.error e, s) := rfl

theorem result_bind (x : Action σ ε α) (f : α → Action σ ε β) (s : σ) :
    (x >>= f).result s = match x.result s with
      | (.ok a, s') => (f a).result s'
      | (.error e, s') => (.error e, s') := by
  change (ExceptT.bind x f).run.run s = _
  simp only [ExceptT.bind, ExceptT.run, ExceptT.mk, result, StateT.run, bind, StateT.bind]
  rcases h : (x s) with ⟨(e | a), s'⟩
  · simp only [ExceptT.bindCont]
    rfl
  · rfl

/-- What an action that succeeds has done before its last part. -/
theorem ok_of_bind {x : Action σ ε α} {f : α → Action σ ε β} {b : β} {s s'' : σ}
    (h : (x >>= f).result s = (.ok b, s'')) :
    ∃ a s', x.result s = (.ok a, s') ∧ (f a).result s' = (.ok b, s'') := by
  rw [result_bind] at h
  rcases hx : x.result s with ⟨e | a, s'⟩
  · rw [hx] at h
    cases h
  · rw [hx] at h
    exact ⟨a, s', rfl, h⟩

@[simp] theorem result_update (f : σ → σ) (s : σ) :
    (update f : Action σ ε Unit).result s = (.ok (), f s) := rfl

@[simp] theorem result_look (f : σ → α) (s : σ) :
    (look f : Action σ ε α).result s = (.ok (f s), s) := rfl

@[simp] theorem result_attempt (x : Action σ ε α) (s : σ) :
    (x.attempt : Action σ ε' _).result s = (.ok (x.result s).1, (x.result s).2) := rfl

@[simp] theorem result_regardless (x : Action σ ε α) (s : σ) :
    (x.regardless : Action σ ε' Unit).result s = (.ok (), (x.result s).2) := rfl

theorem result_failingAs (wrap : ε → ε') (x : Action σ ε α) (s : σ) :
    (x.failingAs wrap).result s = ((x.result s).1.mapError wrap, (x.result s).2) := by
  unfold failingAs
  rw [result_ofResult]
  rcases x.result s with ⟨(e | a), s'⟩ <;> rfl

theorem result_zoom (get : τ → σ) (put : σ → τ → τ) (wrap : ε → ε') (x : Action σ ε α) (t : τ) :
    (x.zoom get put wrap).result t =
      ((x.result (get t)).1.mapError wrap, put (x.result (get t)).2 t) := by
  unfold zoom
  rw [result_ofResult]
  rcases x.result (get t) with ⟨(e | a), s⟩ <;> rfl

@[simp] theorem result_liftM (x : Except ε α) (s : σ) :
    (liftM x : Action σ ε α).result s = (x, s) := by
  cases x <;> rfl

theorem result_map (f : α → β) (x : Action σ ε α) (s : σ) :
    (f <$> x).result s = ((x.result s).1.map f, (x.result s).2) := by
  rw [← bind_pure_comp, result_bind]
  rcases x.result s with ⟨(e | a), s'⟩ <;> rfl

end Action

end DiskTier
