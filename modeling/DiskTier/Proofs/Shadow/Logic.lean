import DiskTier.FileSystem.FileAction

/-!
# Actions in the shadow of a state

What an action does need not depend on all of the state. Next to a state stands a shadow of it, in
which the part that must not matter has another value. `Shadowed` says that the shadow leads to the
same outcome as the state and to a shadow of what the state leads to, and collects what holds then.
The rules are those of a logic of programs, one for each way to make or combine actions.

A state is its own shadow if the part keeps its value. So what is collected also holds of one run
alone.
-/

namespace DiskTier

variable {γ σ τ ε ε' α β : Type}

/-- From the shadow of `s` that `cast g` gives, `f` comes to the same value as from `s`, and to a
shadow of what it leaves; `Q` holds of the value, of what is left, and of its shadow. -/
def Shadowed (cast : γ → σ → σ) (f : σ → α × σ) (s : σ) (g : γ) (Q : α → σ → γ → Prop) : Prop :=
  ∃ g', f (cast g s) = ((f s).1, cast g' (f s).2) ∧ Q (f s).1 (f s).2 g'

namespace Shadowed

variable {cast : γ → σ → σ} {f : σ → α × σ} {s : σ} {g : γ} {Q R : α → σ → γ → Prop}

theorem mono (h : Shadowed cast f s g R) (hQ : ∀ a s' g', R a s' g' → Q a s' g') :
    Shadowed cast f s g Q := by
  obtain ⟨g', heq, hpost⟩ := h
  exact ⟨g', heq, hQ _ _ _ hpost⟩

/-- What is collected holds of the run itself. -/
theorem post (h : Shadowed cast f s g Q) : ∃ g', Q (f s).1 (f s).2 g' := by
  obtain ⟨g', -, hpost⟩ := h
  exact ⟨g', hpost⟩

theorem of_eq {a : α} {s' : σ} {g' : γ} (h : f s = (a, s'))
    (hcast : f (cast g s) = (a, cast g' s')) (hQ : Q a s' g') : Shadowed cast f s g Q := by
  refine ⟨g', ?_, ?_⟩
  · rw [hcast, h]
  · rw [h]
    exact hQ

end Shadowed

/-! ### Actions -/

namespace Action

variable {cast : γ → σ → σ} {x : Action σ ε α} {s : σ} {g : γ} {Q R : Except ε α → σ → γ → Prop}

theorem shadowed_pure {a : α} (h : Q (.ok a) s g) :
    Shadowed cast (pure a : Action σ ε α).result s g Q := ⟨g, rfl, h⟩

theorem shadowed_throw {e : ε} (h : Q (.error e) s g) :
    Shadowed cast (throw e : Action σ ε α).result s g Q := ⟨g, rfl, h⟩

theorem shadowed_liftM {r : Except ε α} (h : Q r s g) :
    Shadowed cast (liftM r : Action σ ε α).result s g Q := by
  refine ⟨g, ?_, ?_⟩
  · rw [result_liftM, result_liftM]
  · rw [result_liftM]
    exact h

/-- What is to hold after `x >>= f` is what is to hold after the action that comes of `x`. -/
theorem shadowed_bind {f : α → Action σ ε β} {Q : Except ε β → σ → γ → Prop}
    (hx : Shadowed cast x.result s g fun r s' g' => match r with
      | .ok a => Shadowed cast (f a).result s' g' Q
      | .error e => Q (.error e) s' g') :
    Shadowed cast (x >>= f).result s g Q := by
  obtain ⟨g', heq, hpost⟩ := hx
  unfold Shadowed
  rw [result_bind, result_bind, heq]
  rcases hr : x.result s with ⟨e | a, s'⟩ <;> rw [hr] at hpost
  · exact ⟨g', rfl, hpost⟩
  · exact hpost

theorem shadowed_map {f : α → β} {Q : Except ε β → σ → γ → Prop}
    (hx : Shadowed cast x.result s g fun r s' g' => Q (r.map f) s' g') :
    Shadowed cast (f <$> x).result s g Q := by
  obtain ⟨g', heq, hpost⟩ := hx
  refine ⟨g', ?_, ?_⟩
  · rw [result_map, result_map, heq]
  · rw [result_map]
    exact hpost

/-- A failure becomes a value. -/
theorem shadowed_attempt {Q : Except ε' (Except ε α) → σ → γ → Prop}
    (hx : Shadowed cast x.result s g fun r s' g' => Q (.ok r) s' g') :
    Shadowed cast (x.attempt : Action σ ε' _).result s g Q := by
  obtain ⟨g', heq, hpost⟩ := hx
  refine ⟨g', ?_, hpost⟩
  rw [result_attempt, result_attempt, heq]

theorem shadowed_regardless {Q : Except ε' Unit → σ → γ → Prop}
    (hx : Shadowed cast x.result s g fun _ s' g' => Q (.ok ()) s' g') :
    Shadowed cast (x.regardless : Action σ ε' Unit).result s g Q := by
  obtain ⟨g', heq, hpost⟩ := hx
  refine ⟨g', ?_, hpost⟩
  rw [result_regardless, result_regardless, heq]

theorem shadowed_failingAs {wrap : ε → ε'} {Q : Except ε' α → σ → γ → Prop}
    (hx : Shadowed cast x.result s g fun r s' g' => Q (r.mapError wrap) s' g') :
    Shadowed cast (x.failingAs wrap).result s g Q := by
  obtain ⟨g', heq, hpost⟩ := hx
  refine ⟨g', ?_, ?_⟩
  · rw [result_failingAs, result_failingAs, heq]
  · rw [result_failingAs]
    exact hpost

end Action

/-! ### Actions on files and a value in memory -/

/-- A shadow of the files; the value in memory is the same. -/
def onFiles (cast : γ → FileSystem → FileSystem) (g : γ) (p : FileSystem × σ) : FileSystem × σ :=
  (cast g p.1, p.2)

namespace FileAction

variable {cast : γ → FileSystem → FileSystem} {d : FileSystem} {s : σ} {g : γ}
  {Q : Except ε α → FileSystem × σ → γ → Prop}

/-- The value in memory is looked at. -/
theorem shadowed_value_bind {f : σ → FileAction σ ε α}
    (h : Shadowed (onFiles cast) (f s).result (d, s) g Q) :
    Shadowed (onFiles cast) (value >>= f).result (d, s) g Q := by
  obtain ⟨g', heq, hpost⟩ := h
  refine ⟨g', ?_, ?_⟩
  · rw [Action.result_bind, Action.result_bind, result_value, result_value]
    exact heq
  · rw [Action.result_bind, result_value]
    exact hpost

/-- The value in memory is changed. -/
theorem shadowed_change_bind {k : σ → σ} {f : Unit → FileAction σ ε α}
    (h : Shadowed (onFiles cast) (f ()).result (d, k s) g Q) :
    Shadowed (onFiles cast) (change k >>= f).result (d, s) g Q := by
  obtain ⟨g', heq, hpost⟩ := h
  refine ⟨g', ?_, ?_⟩
  · rw [Action.result_bind, Action.result_bind, result_change, result_change]
    exact heq
  · rw [Action.result_bind, result_change]
    exact hpost

theorem shadowed_change {k : σ → σ} {Q : Except ε Unit → FileSystem × σ → γ → Prop}
    (h : Q (.ok ()) (d, k s) g) :
    Shadowed (onFiles cast) (change k : FileAction σ ε Unit).result (d, s) g Q := ⟨g, rfl, h⟩

theorem shadowed_onDisk {x : Action FileSystem ε' α} {wrap : ε' → ε}
    (h : Shadowed cast x.result d g fun r d' g' => Q (r.mapError wrap) (d', s) g') :
    Shadowed (onFiles cast) (onDisk wrap x : FileAction σ ε α).result (d, s) g Q := by
  obtain ⟨g', heq, hpost⟩ := h
  refine ⟨g', ?_, ?_⟩
  · rw [result_onDisk, result_onDisk, onFiles, heq]
    rfl
  · rw [result_onDisk]
    exact hpost

theorem shadowed_onPart {get : σ → τ} {put : τ → σ → σ} {wrap : ε' → ε} {x : FileAction τ ε' α}
    (h : Shadowed (onFiles cast) x.result (d, get s) g fun r p g' =>
      Q (r.mapError wrap) (p.1, put p.2 s) g') :
    Shadowed (onFiles cast) (onPart get put wrap x).result (d, s) g Q := by
  obtain ⟨g', heq, hpost⟩ := h
  refine ⟨g', ?_, ?_⟩
  · rw [result_onPart, result_onPart]
    simp only [onFiles] at heq ⊢
    rw [heq]
  · rw [result_onPart]
    exact hpost

/-- A value of its own is lost with a failure. -/
theorem shadowed_startingWith {x : FileAction σ ε α}
    {Q : Except ε (α × σ) → FileSystem → γ → Prop}
    (h : Shadowed (onFiles cast) x.result (d, s) g fun r p g' =>
      Q (r.map fun a => (a, p.2)) p.1 g') :
    Shadowed cast (x.startingWith s).result d g Q := by
  obtain ⟨g', heq, hpost⟩ := h
  unfold Shadowed
  rw [result_startingWith, result_startingWith]
  simp only [onFiles] at heq
  rw [heq]
  rcases hr : x.result (d, s) with ⟨e | a, ⟨d', s'⟩⟩ <;> rw [hr] at hpost
  · exact ⟨g', rfl, hpost⟩
  · exact ⟨g', rfl, hpost⟩

end FileAction

/-! ### One run alone -/

/-- No other files: what is then said in terms of shadows is said of one run. -/
def unchanged : Unit → FileSystem → FileSystem := fun _ d => d

/-- What is known of a run is all that there is to show of it. -/
theorem shadowed_unchanged {f : FileSystem → α × FileSystem} {d : FileSystem}
    {Q : α → FileSystem → Unit → Prop} (h : Q (f d).1 (f d).2 ()) :
    Shadowed unchanged f d () Q := ⟨(), rfl, h⟩

theorem FileAction.shadowed_unchanged {f : FileSystem × σ → α × (FileSystem × σ)}
    {p : FileSystem × σ} {Q : α → FileSystem × σ → Unit → Prop} (h : Q (f p).1 (f p).2 ()) :
    Shadowed (onFiles unchanged) f p () Q := ⟨(), rfl, h⟩

/-- Of an operation on files nothing need be known. -/
theorem shadowed_anyhow (f : FileSystem → α × FileSystem) (d : FileSystem) :
    Shadowed unchanged f d () fun _ _ _ => True := shadowed_unchanged trivial

theorem FileAction.shadowed_anyhow (f : FileSystem × σ → α × (FileSystem × σ))
    (p : FileSystem × σ) : Shadowed (onFiles unchanged) f p () fun _ _ _ => True :=
  FileAction.shadowed_unchanged trivial

end DiskTier
