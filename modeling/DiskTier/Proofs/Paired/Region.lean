import DiskTier.Proofs.Paired.Store

/-!
# Regions side by side

Two regions are `Level` if their stores are. What they count and what pass is under way does not
matter to anything that a client asks of the store: the answer is the same on both sides.
-/

namespace DiskTier

open FileSystem

/-- A call that does not ask about the counters or the compaction of the region. -/
def Call.concernsStore {α : Type} : Call α → Bool
  | .stats => false
  | .requestCompaction => false
  | _ => true

namespace Region

variable {α : Type} {c : Config} {S : Store.Sides} {d d' : FileSystem} {r r' t t' : Region}

/-- Both regions have the same settings and serve or not, and their stores are level. -/
structure Level (c : Config) (S : Store.Sides) (p p' : World) : Prop where
  store : Store.Level c S (p.1, p.2.store) (p'.1, p'.2.store)
  config : p.2.config = c
  config' : p'.2.config = c
  alive : p'.2.alive = p.2.alive

namespace Level

/-- Counters and passes do not matter. -/
theorem congr (h : Level c S (d, r) (d', r')) (hs : t.store = r.store) (hs' : t'.store = r'.store)
    (hc : t.config = r.config) (hc' : t'.config = r'.config) (ha : t.alive = r.alive)
    (ha' : t'.alive = r'.alive) : Level c S (d, t) (d', t') := by
  refine ⟨?_, hc.trans h.config, hc'.trans h.config', ha'.trans (h.alive.trans ha.symm)⟩
  show Store.Level c S (d, t.store) (d', t'.store)
  rw [hs, hs']
  exact h.store

theorem replan {faults faults' : Nat → Option PlannedFault} (h : Level c S (d, r) (d', r'))
    (hf : Truthful faults) (hf' : Truthful faults')
    (hplan : SamePlan { d with faults } { d' with faults := faults' }) :
    Level c S ({ d with faults }, r) ({ d' with faults := faults' }, r') :=
  ⟨h.store.replan hf hf' hplan, h.config, h.config', h.alive⟩

theorem setStore {e e' : FileSystem} {s s' : Store} (h : Level c S (d, r) (d', r'))
    (hs : Store.Level c S (e, s) (e', s')) :
    Level c S (e, { r with store := s }) (e', { r' with store := s' }) :=
  ⟨hs, h.config, h.config', h.alive⟩

theorem paired_onStore {x : Store.Change α} (h : Level c S (d, r) (d', r'))
    (hx : Paired x.result x.result (d, r.store) (d', r'.store) (Agree (Store.Level c S))) :
    Paired (onStore x).result (onStore x).result (d, r) (d', r') (Agree (Level c S)) := by
  unfold Paired
  rw [result_onStore, result_onStore]
  exact ⟨hx.1, h.setStore hx.2⟩

/-- Both regions serve or both refuse. -/
theorem paired_requireAlive_bind {f : Unit → Change α} (h : Level c S (d, r) (d', r'))
    (hf : Paired (f ()).result (f ()).result (d, r) (d', r') (Agree (Level c S))) :
    Paired (requireAlive >>= f).result (requireAlive >>= f).result (d, r) (d', r')
      (Agree (Level c S)) := by
  have halive : r'.alive = r.alive := h.alive
  unfold Paired
  rw [Action.result_bind, Action.result_bind]
  cases ha : r.alive with
  | true =>
    rw [result_requireAlive ha, result_requireAlive (halive.trans ha)]
    exact hf
  | false =>
    rw [result_requireAlive_dead ha, result_requireAlive_dead (halive.trans ha)]
    exact ⟨by rw [show r.config = c from h.config, show r'.config = c from h.config'], h⟩

/-! ### Calls -/

theorem paired_put (h : Level c S (d, r) (d', r')) (e : Element) :
    Paired (put e).result (put e).result (d, r) (d', r') (Agree (Level c S)) := by
  unfold put
  apply h.paired_requireAlive_bind
  apply Action.paired_bind_agree (h.paired_onStore (h.store.paired_write e.key e.encode))
  · intro reused q q' h₁
    split
    · exact FileAction.paired_change ⟨rfl, h₁.congr rfl rfl rfl rfl rfl rfl⟩
    · exact Action.paired_pure ⟨rfl, h₁⟩
  · exact fun _ _ _ h₁ => ⟨rfl, h₁⟩

theorem paired_reset (h : Level c S (d, r) (d', r')) :
    Paired Region.reset.result Region.reset.result (d, r) (d', r') (Agree (Level c S)) :=
  h.paired_requireAlive_bind (h.paired_onStore h.store.paired_reset)

theorem paired_saveKeys (h : Level c S (d, r) (d', r')) :
    Paired Region.saveKeys.result Region.saveKeys.result (d, r) (d', r') (Agree (Level c S)) :=
  h.paired_requireAlive_bind (h.paired_onStore h.store.paired_saveKeys)

theorem paired_lookup (h : Level c S (d, r) (d', r')) (k : Key) :
    Paired (lookup k).result (lookup k).result (d, r) (d', r') (Agree (Level c S)) := by
  have halive : r'.alive = r.alive := h.alive
  unfold lookup
  apply FileAction.paired_value_bind
  rw [halive]
  split
  swap
  · exact Action.paired_pure ⟨rfl, h⟩
  apply Action.paired_bind
  apply Action.paired_attempt
  apply FileAction.paired_onDisk
  refine (h.store.paired_read k).mono ?_
  rintro _ a e e' ⟨rfl, hi⟩
  have h₁ : Level c S (e, r) (e', r') := h.setStore (h.store.idle hi)
  rcases a with error | _ | found <;> apply FileAction.paired_change_bind
  · exact Action.paired_throw ⟨rfl, h₁.congr rfl rfl rfl rfl rfl rfl⟩
  · exact Action.paired_pure ⟨rfl, h₁.congr rfl rfl rfl rfl rfl rfl⟩
  · exact Action.paired_pure ⟨rfl, h₁.congr rfl rfl rfl rfl rfl rfl⟩

/-- A record that cannot be trusted on one side cannot be trusted on the other. -/
theorem paired_get (h : Level c S (d, r) (d', r')) (k : Key) :
    Paired (Region.get k).result (Region.get k).result (d, r) (d', r') (Agree (Level c S)) := by
  unfold Region.get
  apply Action.paired_bind
  apply Action.paired_attempt
  refine (h.paired_lookup k).mono ?_
  rintro (error | found) _ q q' ⟨rfl, h₁⟩
  · apply Action.paired_bind
    apply Action.paired_regardless
    refine h₁.paired_reset.mono ?_
    rintro a a' p p' ⟨-, h₂⟩
    exact Action.paired_throw ⟨rfl, h₂⟩
  · exact Action.paired_pure ⟨rfl, h₁⟩

/-- What keys are removed depends on the index alone; what is counted does not matter. -/
theorem removeBy {f : Store → Bool × Store} (h : Level c S (d, r) (d', r'))
    (hf : (f r'.store).1 = (f r.store).1 ∧
      Store.Level c S (d, (f r.store).2) (d', (f r'.store).2)) :
    (r'.removeBy f).1 = (r.removeBy f).1 ∧
      Level c S (d, (r.removeBy f).2) (d', (r'.removeBy f).2) := by
  have halive : r'.alive = r.alive := h.alive
  cases ha : r.alive with
  | false =>
    rw [removeBy_dead ha, removeBy_dead (halive.trans ha)]
    exact ⟨rfl, h⟩
  | true =>
    obtain ⟨hsame, hlevel⟩ := hf
    obtain ⟨hanswer, hs, hc, -⟩ := removeBy_eq ha f
    obtain ⟨hanswer', hs', hc', -⟩ := removeBy_eq (halive.trans ha) f
    exact ⟨hanswer'.trans (hsame.trans hanswer.symm),
      (h.setStore hlevel).congr hs hs' hc.config hc'.config hc.alive hc'.alive⟩

theorem paired_change {f : Region → α × Region}
    (hf : (f r').1 = (f r).1 ∧ Level c S (d, (f r).2) (d', (f r').2)) :
    Paired (change f).result (change f).result (d, r) (d', r') (Agree (Level c S)) :=
  ⟨congrArg Except.ok hf.1, hf.2⟩

/-- A call that concerns the store is answered the same on both sides. -/
theorem paired_perform (h : Level c S (d, r) (d', r')) (call : Call α)
    (hcall : call.concernsStore) :
    Paired call.perform.result call.perform.result (d, r) (d', r') (Agree (Level c S)) := by
  have hi : r'.store.index = r.store.index := h.store.index
  cases call with
  | put e => exact h.paired_put e
  | get k => exact h.paired_get k
  | groupKeys g =>
    have hname : r'.config = r.config := Eq.trans h.config' h.config.symm
    refine ⟨congrArg Except.ok ?_, h⟩
    simp only [Region.groupKeys, hname, hi]
  | remove k => exact paired_change (h.removeBy (h.store.remove k))
  | removeGroup g => exact paired_change (h.removeBy (h.store.removeWhere _))
  | reset => exact h.paired_reset
  | saveKeys => exact h.paired_saveKeys
  | size => exact ⟨congrArg (fun i : Index => Except.ok i.size) hi, h⟩
  | stats => cases hcall
  | requestCompaction => cases hcall

end Level

end Region

end DiskTier
