import DiskTier.FileSystem.FileAction

/-!
# Actions side by side

Two runs may start from states that are alike only in what matters to them. `Paired` says that a
relation holds between what the one leads to and what the other leads to, values and states. The
rules are those of a logic of programs in which the two runs go side by side: where one fails, the
other does.
-/

namespace DiskTier

variable {σ τ ε ε' α β : Type}

/-- `Q` relates what `f` makes of `s` to what `f'` makes of `s'`. -/
def Paired (f f' : σ → α × σ) (s s' : σ) (Q : α → α → σ → σ → Prop) : Prop :=
  Q (f s).1 (f' s').1 (f s).2 (f' s').2

theorem Paired.mono {f f' : σ → α × σ} {s s' : σ} {Q R : α → α → σ → σ → Prop}
    (h : Paired f f' s s' R) (hQ : ∀ a a' t t', R a a' t t' → Q a a' t t') :
    Paired f f' s s' Q := hQ _ _ _ _ h

/-- The answers are the same, and `R` relates what is left. -/
def Agree (R : σ → σ → Prop) (a a' : α) (t t' : σ) : Prop := a' = a ∧ R t t'

/-! ### Actions -/

namespace Action

variable {x x' : Action σ ε α} {s s' : σ} {Q : Except ε α → Except ε α → σ → σ → Prop}
  {R : σ → σ → Prop}

theorem paired_pure {a a' : α} (h : Q (.ok a) (.ok a') s s') :
    Paired (pure a : Action σ ε α).result (pure a' : Action σ ε α).result s s' Q := h

theorem paired_throw {e e' : ε} (h : Q (.error e) (.error e') s s') :
    Paired (throw e : Action σ ε α).result (throw e' : Action σ ε α).result s s' Q := h

theorem paired_liftM {r r' : Except ε α} (h : Q r r' s s') :
    Paired (liftM r : Action σ ε α).result (liftM r' : Action σ ε α).result s s' Q := by
  unfold Paired
  rw [result_liftM, result_liftM]
  exact h

/-- Both actions go on or both fail. -/
theorem paired_bind {f f' : α → Action σ ε β} {Q : Except ε β → Except ε β → σ → σ → Prop}
    (hx : Paired x.result x'.result s s' fun r r' t t' => match r, r' with
      | .ok a, .ok a' => Paired (f a).result (f' a').result t t' Q
      | .error e, .error e' => Q (.error e) (.error e') t t'
      | _, _ => False) :
    Paired (x >>= f).result (x' >>= f').result s s' Q := by
  unfold Paired at hx ⊢
  rw [result_bind, result_bind]
  rcases hr : x.result s with ⟨e | a, t⟩ <;> rcases hr' : x'.result s' with ⟨e' | a', t'⟩ <;>
    rw [hr, hr'] at hx
  · exact hx
  · exact False.elim hx
  · exact False.elim hx
  · exact hx

/-- Both actions go on with the same value. -/
theorem paired_bind_agree {f f' : α → Action σ ε β}
    {Q : Except ε β → Except ε β → σ → σ → Prop} (hx : Paired x.result x'.result s s' (Agree R))
    (hok : ∀ a t t', R t t' → Paired (f a).result (f' a).result t t' Q)
    (herror : ∀ e t t', R t t' → Q (.error e) (.error e) t t') :
    Paired (x >>= f).result (x' >>= f').result s s' Q := by
  apply paired_bind
  refine hx.mono ?_
  rintro (e | a) _ t t' ⟨rfl, hR⟩
  · exact herror e t t' hR
  · exact hok a t t' hR

theorem paired_attempt {Q : Except ε' (Except ε α) → Except ε' (Except ε α) → σ → σ → Prop}
    (hx : Paired x.result x'.result s s' fun r r' => Q (.ok r) (.ok r')) :
    Paired (x.attempt : Action σ ε' _).result (x'.attempt : Action σ ε' _).result s s' Q := hx

theorem paired_regardless {Q : Except ε' Unit → Except ε' Unit → σ → σ → Prop}
    (hx : Paired x.result x'.result s s' fun _ _ => Q (.ok ()) (.ok ())) :
    Paired (x.regardless : Action σ ε' Unit).result (x'.regardless : Action σ ε' Unit).result s s'
      Q := hx

theorem paired_failingAs {wrap : ε → ε'} {Q : Except ε' α → Except ε' α → σ → σ → Prop}
    (hx : Paired x.result x'.result s s' fun r r' => Q (r.mapError wrap) (r'.mapError wrap)) :
    Paired (x.failingAs wrap).result (x'.failingAs wrap).result s s' Q := by
  unfold Paired
  rw [result_failingAs, result_failingAs]
  exact hx

theorem agree_failingAs {wrap : ε → ε'} (hx : Paired x.result x'.result s s' (Agree R)) :
    Paired (x.failingAs wrap).result (x'.failingAs wrap).result s s' (Agree R) :=
  paired_failingAs (hx.mono fun _ _ _ _ h => ⟨congrArg _ h.1, h.2⟩)

end Action

/-! ### Actions on files and a value in memory -/

namespace FileAction

variable {d d' : FileSystem} {s s' : σ}
  {Q : Except ε α → Except ε α → FileSystem × σ → FileSystem × σ → Prop}

/-- The values in memory are looked at. -/
theorem paired_value_bind {f f' : σ → FileAction σ ε α}
    (h : Paired (f s).result (f' s').result (d, s) (d', s') Q) :
    Paired (value >>= f).result (value >>= f').result (d, s) (d', s') Q := by
  unfold Paired at h ⊢
  rw [Action.result_bind, Action.result_bind, result_value, result_value]
  exact h

/-- The values in memory are changed. -/
theorem paired_change_bind {k k' : σ → σ} {f f' : Unit → FileAction σ ε α}
    (h : Paired (f ()).result (f' ()).result (d, k s) (d', k' s') Q) :
    Paired (change k >>= f).result (change k' >>= f').result (d, s) (d', s') Q := by
  unfold Paired at h ⊢
  rw [Action.result_bind, Action.result_bind, result_change, result_change]
  exact h

theorem paired_change {k k' : σ → σ}
    {Q : Except ε Unit → Except ε Unit → FileSystem × σ → FileSystem × σ → Prop}
    (h : Q (.ok ()) (.ok ()) (d, k s) (d', k' s')) :
    Paired (change k : FileAction σ ε Unit).result (change k' : FileAction σ ε Unit).result
      (d, s) (d', s') Q := h

theorem paired_onDisk {x x' : Action FileSystem ε' α} {wrap : ε' → ε}
    (h : Paired x.result x'.result d d' fun r r' e e' =>
      Q (r.mapError wrap) (r'.mapError wrap) (e, s) (e', s')) :
    Paired (onDisk wrap x : FileAction σ ε α).result (onDisk wrap x' : FileAction σ ε α).result
      (d, s) (d', s') Q := by
  unfold Paired
  rw [result_onDisk, result_onDisk]
  exact h

theorem paired_onPart {get : σ → τ} {put : τ → σ → σ} {wrap : ε' → ε} {x x' : FileAction τ ε' α}
    (h : Paired x.result x'.result (d, get s) (d', get s') fun r r' p p' =>
      Q (r.mapError wrap) (r'.mapError wrap) (p.1, put p.2 s) (p'.1, put p'.2 s')) :
    Paired (onPart get put wrap x).result (onPart get put wrap x').result (d, s) (d', s') Q := by
  unfold Paired
  rw [result_onPart, result_onPart]
  exact h

end FileAction

end DiskTier
