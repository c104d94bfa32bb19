import DiskTier.Proofs.Region
import DiskTier.Proofs.Shadow.Pass

/-!
# Regions in the shadow

A region is `Anchored` if its store is and if a pass that is under way owns its draft. All that is
done to a region keeps it so, and does the same in the shadow. As long as only the pass itself is
not held, it stays what it is.
-/

namespace DiskTier

open FileSystem

variable {α β : Type} {c c' : Config} {D : Nat} {P P' : Key → Prop} {d d' d'' : FileSystem}
  {g g' g'' : Shade} {r r' r'' : Region}

/-- The names of the files depend on the name and the path of the region alone. -/
theorem Store.Rooted.congr (h : Store.Rooted c D P d g) (hname : c'.cacheName = c.cacheName)
    (hpath : c'.diskPath = c.diskPath) : Store.Rooted c' D P d g := by
  obtain ⟨ho, hdata, hkeys, hdraft, hdk, hkk, hl⟩ := h
  simp only [Config.dataFile, Config.keyFile, Config.draftFile, Config.dataName, Config.keyName,
    Config.draftName, ← hname, ← hpath] at hdata hkeys hdraft hdk hkk hl
  exact ⟨ho, hdata, hkeys, hdraft, hdk, hkk, hl⟩

namespace Region

/-- The store of the region is anchored, and a pass that is under way owns its draft. -/
structure Anchored (D : Nat) (P : Key → Prop) (d : FileSystem) (g : Shade) (r : Region) : Prop where
  store : Store.Anchored r.config D P d g r.store
  capacity : r.store.index.capacity = r.config.maxKeys
  freeCapacity : r.store.free.capacity = r.config.maxFreeSlots
  valid : r.config.Valid
  compacting : r.compacting = r.pass.isSome
  bound : ∀ pass ∈ r.pass, Pass.Bound r.config D d g r.store pass

theorem Anchored.replan {faults : Nat → Option PlannedFault} (h : Anchored D P d g r)
    (hf : Truthful faults) : Anchored D P { d with faults } g r :=
  { h with
    store := h.store.replan hf
    bound := fun pass hp => (h.bound pass hp).replan faults }

/-- What an action other than a hold of the pass leaves of a region. -/
structure Stays (D : Nat) (P : Key → Prop) (r : Region) (d' : FileSystem) (g' : Shade)
    (r' : Region) : Prop where
  anchored : Anchored D P d' g' r'
  config : r'.config = r.config
  alive : r'.alive = r.alive
  closed : r'.closed = r.closed
  later : Store.Later r.store r'.store
  pass : ∀ pass, r.pass = some pass → r'.pass = some pass

theorem Anchored.stays (h : Anchored D P d g r) : Stays D P r d g r :=
  ⟨h, rfl, rfl, rfl, .refl _, fun _ => id⟩

theorem Stays.trans (h : Stays D P r d' g' r') (h' : Stays D P' r' d'' g'' r'') :
    Stays D P' r d'' g'' r'' :=
  ⟨h'.anchored, h'.config.trans h.config, h'.alive.trans h.alive, h'.closed.trans h.closed,
    h.later.trans h'.later, fun pass hp => h'.pass pass (h.pass pass hp)⟩

theorem Stays.mono {Q : Key → Prop} (h : Stays D P r d' g' r') (hQ : ∀ k, P k → Q k) :
    Stays D Q r d' g' r' :=
  { h with anchored := { h.anchored with store := h.anchored.store.mono hQ } }

/-- A region apart from its store and its counters. -/
structure Same (r r' : Region) : Prop where
  config : r'.config = r.config
  alive : r'.alive = r.alive
  closed : r'.closed = r.closed
  compacting : r'.compacting = r.compacting
  pass : r'.pass = r.pass

/-- What the store does with its own files does not disturb a pass. -/
theorem Anchored.step {t : Region} (h : Anchored D P d g r) (hsame : Same r t)
    (hs : Store.Remains r.config D P' d g r.store d' g' t.store) : Stays D P' r d' g' t := by
  obtain ⟨hconfig, halive, hclosed, hcompacting, hpass⟩ := hsame
  refine ⟨⟨hconfig ▸ hs.anchored, ?_, ?_, hconfig ▸ h.valid, ?_, fun pass hp => ?_⟩, hconfig,
    halive, hclosed, hs.later, fun pass hp => hpass.trans hp⟩
  · rw [hconfig, hs.later.capacity, h.capacity]
  · rw [hconfig, hs.later.freeCapacity, h.freeCapacity]
  · rw [hcompacting, hpass, h.compacting]
  · rw [hconfig]
    refine (h.bound pass (hpass ▸ hp)).frame (P := P') ?_
    exact hs

/-- Nothing but counters has changed. -/
theorem Anchored.count {t : Region} (h : Anchored D P d g r) (hsame : Same r t)
    (hs : t.store = r.store) (hd : Still d g d' g') : Stays D P r d' g' t :=
  h.step hsame (hs ▸ h.store.remains_still hd)

/-! ### Rules -/

section Rules

variable {γ : Type} {cast : γ → FileSystem → FileSystem} {g : γ}
  {Q : Except Error α → FileSystem × Region → γ → Prop}

theorem shadowed_onStore {x : Store.Change α}
    (h : Shadowed (onFiles cast) x.result (d, r.store) g fun a q g' =>
      Q a (q.1, { r with store := q.2 }) g') :
    Shadowed (onFiles cast) (onStore x).result (d, r) g Q := by
  apply FileAction.shadowed_onPart
  refine h.mono ?_
  rintro (e | a) q g' hQ
  · exact hQ
  · exact hQ

/-- A region that is not alive refuses. -/
theorem shadowed_requireAlive_bind {f : Unit → Change α}
    (halive : r.alive → Shadowed (onFiles cast) (f ()).result (d, r) g Q)
    (hdead : r.alive = false → Q (.error (.notAlive r.config.cacheName)) (d, r) g) :
    Shadowed (onFiles cast) (requireAlive >>= f).result (d, r) g Q := by
  apply Action.shadowed_bind
  cases ha : r.alive with
  | true =>
    refine ⟨g, ?_, ?_⟩
    · rw [onFiles, result_requireAlive ha, result_requireAlive ha]
      rfl
    · rw [result_requireAlive ha]
      exact halive ha
  | false =>
    refine ⟨g, ?_, ?_⟩
    · rw [onFiles, result_requireAlive_dead ha, result_requireAlive_dead ha]
      rfl
    · rw [result_requireAlive_dead ha]
      exact hdead ha

/-- A change of the region alone. -/
theorem shadowed_change {f : Region → α × Region} (h : Q (.ok (f r).1) (d, (f r).2) g) :
    Shadowed (onFiles cast) (change f).result (d, r) g Q := ⟨g, rfl, h⟩

end Rules

/-! ### Calls -/

theorem shadowed_put (h : Anchored D P d g r) (e : Element) :
    Shadowed (onFiles shadow) (put e).result (d, r) g fun a q g' =>
      Stays D (fun k => P k ∨ a.isOk ∧ k = e.key) r q.1 g' q.2 := by
  unfold put
  apply shadowed_requireAlive_bind
  swap
  · exact fun _ => h.stays.mono fun _ => .inl
  intro _
  apply Action.shadowed_bind
  apply shadowed_onStore
  refine (Store.shadowed_write h.store e.key e.encode).mono ?_
  rintro (err | reused) ⟨d', s⟩ g' hs
  · exact h.step (t := { r with store := s }) ⟨rfl, rfl, rfl, rfl, rfl⟩ hs
  · dsimp only
    split
    · apply FileAction.shadowed_change
      exact h.step (t := { r with store := s, reuses := r.reuses + 1 }) ⟨rfl, rfl, rfl, rfl, rfl⟩ hs
    · apply Action.shadowed_pure
      exact h.step (t := { r with store := s }) ⟨rfl, rfl, rfl, rfl, rfl⟩ hs

/-- After a reset the store knows nothing of what it held. -/
theorem shadowed_reset (h : Anchored D P d g r) :
    Shadowed (onFiles shadow) Region.reset.result (d, r) g fun a q g' =>
      Stays D P r q.1 g' q.2 ∧ (a = .ok () → r.alive ∧ q.2.pass = r.pass ∧
        q.2.store.generation = r.store.generation + 1 ∧
        Store.Renewed r.config D r.store q.1 q.2.store) := by
  unfold Region.reset
  apply shadowed_requireAlive_bind
  swap
  · exact fun _ => ⟨h.stays, nofun⟩
  intro ha
  apply shadowed_onStore
  refine (Store.shadowed_reset h.store).mono ?_
  rintro a ⟨d', s⟩ g' ⟨hs, hgen, hnew⟩
  exact ⟨h.step (t := { r with store := s }) ⟨rfl, rfl, rfl, rfl, rfl⟩ hs,
    fun ha' => ⟨ha, rfl, hgen, hnew ha'⟩⟩

theorem shadowed_lookup (h : Anchored D P d g r) (k : Key) :
    Shadowed (onFiles shadow) (lookup k).result (d, r) g fun _ q g' =>
      Stays D P r q.1 g' q.2 := by
  unfold lookup
  apply FileAction.shadowed_value_bind
  split
  swap
  · exact Action.shadowed_pure h.stays
  apply Action.shadowed_bind
  apply Action.shadowed_attempt
  apply FileAction.shadowed_onDisk
  refine (Store.shadowed_read h.store k).mono ?_
  rintro (e | _ | e) d' g' hs
  · apply FileAction.shadowed_change_bind
    exact Action.shadowed_throw
      (h.count (t := { r with misses := r.misses + 1 }) ⟨rfl, rfl, rfl, rfl, rfl⟩ rfl hs)
  · apply FileAction.shadowed_change_bind
    exact Action.shadowed_pure
      (h.count (t := { r with misses := r.misses + 1 }) ⟨rfl, rfl, rfl, rfl, rfl⟩ rfl hs)
  · apply FileAction.shadowed_change_bind
    exact Action.shadowed_pure
      (h.count (t := { r with hits := r.hits + 1 }) ⟨rfl, rfl, rfl, rfl, rfl⟩ rfl hs)

theorem shadowed_get (h : Anchored D P d g r) (k : Key) :
    Shadowed (onFiles shadow) (Region.get k).result (d, r) g fun _ q g' =>
      Stays D P r q.1 g' q.2 := by
  unfold Region.get
  apply Action.shadowed_bind
  apply Action.shadowed_attempt
  refine (shadowed_lookup h k).mono ?_
  rintro (e | found) ⟨d₁, r₁⟩ g₁ h₁
  · apply Action.shadowed_bind
    apply Action.shadowed_regardless
    refine (shadowed_reset h₁.anchored).mono ?_
    rintro a ⟨d₂, r₂⟩ g₂ ⟨h₂, -⟩
    exact Action.shadowed_throw (h₁.trans h₂)
  · exact Action.shadowed_pure h₁

theorem shadowed_saveKeys (h : Anchored D P d g r) :
    Shadowed (onFiles shadow) Region.saveKeys.result (d, r) g fun _ q g' =>
      Stays D P r q.1 g' q.2 := by
  unfold Region.saveKeys
  apply shadowed_requireAlive_bind
  swap
  · exact fun _ => h.stays
  intro _
  apply shadowed_onStore
  refine (Store.shadowed_saveKeys h.store).mono ?_
  rintro a ⟨d', s⟩ g' ⟨hs, -⟩
  exact h.step (t := { r with store := s }) ⟨rfl, rfl, rfl, rfl, rfl⟩ hs

theorem Anchored.requestCompaction (h : Anchored D P d g r) :
    Stays D P r d g r.requestCompaction.2 := by
  unfold Region.requestCompaction
  cases hc : r.compacting with
  | true => exact h.stays
  | false =>
    have hnone : r.pass = none := by
      rw [← Option.isNone_iff_eq_none, ← Option.not_isSome, ← h.compacting, hc]
      rfl
    refine ⟨⟨h.store, h.capacity, h.freeCapacity, h.valid, rfl, ?_⟩, rfl, rfl, rfl, .refl _, ?_⟩
    · rintro pass ⟨⟩
      trivial
    · rw [hnone]
      rintro pass ⟨⟩

/-- What removes keys from the index alone. -/
theorem Anchored.removeBy (h : Anchored D P d g r) {f : Store → Bool × Store}
    (hf : Store.Anchored r.config D P d g (f r.store).2)
    (hlater : Store.Later r.store (f r.store).2) :
    Stays D P r d g (r.removeBy f).2 := by
  have hs : Store.Remains r.config D P d g r.store d g (f r.store).2 :=
    { h.store.remains with anchored := hf, later := hlater }
  unfold Region.removeBy
  split
  swap
  · exact h.stays
  rcases hr : f r.store with ⟨b, s⟩
  rw [hr] at hs
  have h₁ := h.step (t := { r with store := s }) ⟨rfl, rfl, rfl, rfl, rfl⟩ hs
  cases b with
  | false => exact h₁
  | true =>
    unfold countRemoval
    have h₂ := h₁.trans (h₁.anchored.count (t := { r with store := s, removals := r.removals + 1 })
      ⟨rfl, rfl, rfl, rfl, rfl⟩ rfl (h.store.orderly.still_refl g))
    dsimp only at h₂ ⊢
    split
    · exact h₂.trans h₂.anchored.requestCompaction
    · exact h₂

theorem removeWhere_anchored {s : Store} (h : Store.Anchored c D P d g s) (p : Key → Bool) :
    Store.Anchored c D P d g (s.removeWhere p).2 ∧ Store.Later s (s.removeWhere p).2 := by
  obtain ⟨-, -, -, hcap⟩ := h.within.coherent.removeWhere p
  exact ⟨h.congr rfl rfl (h.within.removeWhere p),
    Store.later_of_same rfl hcap (FreeList.releaseAll_capacity _ _) rfl⟩

theorem Anchored.remove (h : Anchored D P d g r) (k : Key) : Stays D P r d g (r.remove k).2 := by
  have hremove : Store.Anchored r.config D P d g (r.store.remove k).2 ∧
      Store.Later r.store (r.store.remove k).2 := by
    unfold Store.remove
    split
    · exact removeWhere_anchored h.store _
    · split
      · exact ⟨h.store, .refl _⟩
      · next slot index heq =>
        have hw := h.store.within.remove k
        have hcap := Index.remove_capacity r.store.index k
        rw [heq] at hw hcap
        exact ⟨h.store.congr rfl rfl hw,
          Store.later_of_same rfl hcap (FreeList.release_capacity _ _) rfl⟩
  exact h.removeBy hremove.1 hremove.2

theorem Anchored.removeGroup (h : Anchored D P d g r) (group : GroupId) :
    Stays D P r d g (r.removeGroup group).2 := by
  obtain ⟨hanchored, hlater⟩ := removeWhere_anchored h.store (·.isAttributeOf group)
  exact h.removeBy hanchored hlater

/-! ### The pass -/

/-- If keys are collected, it is for the pass under way. -/
def Attended (r : Region) : Prop :=
  r.alive → r.store.pending.isSome → ∃ pass, r.pass = some pass ∧ pass.Collects r.store

theorem Stays.attended (h : Stays D P r d' g' r') (ha : r.Attended) : r'.Attended := by
  intro halive hp
  obtain ⟨hp₀, hgen⟩ := h.later.collecting hp
  obtain ⟨pass, hpass, hcollects⟩ := ha (h.alive ▸ halive) hp₀
  refine ⟨pass, h.pass pass hpass, ?_⟩
  cases pass with
  | requested => exact hcollects
  | running w => exact Eq.trans hcollects hgen.symm
  | stopping generation draft => exact Eq.trans hcollects hgen.symm

/-- A hold of the pass. One of a pass that is stale does not install its draft. -/
theorem shadowed_holdPass (arrange : List Key → List Key) (h : Anchored D P d g r) :
    Shadowed (onFiles shadow) (holdPass arrange).run (d, r) g fun _ q g' =>
      Anchored D P q.1 g' q.2 ∧ q.2.alive = r.alive ∧ q.2.closed = r.closed ∧
        (∀ pass, r.pass = some pass → pass.IsStale r.store r.alive →
          q.2.compactions = r.compactions) ∧ (r.Attended → q.2.Attended) := by
  have hrun : ∀ {d r p}, ((holdPass arrange).run (d, r)).2 = p →
      (holdPass arrange).run (d, r) = ((), p) := fun h => Prod.ext rfl h
  cases hpass : r.pass with
  | none =>
    exact .of_eq (hrun (holdPass_none arrange hpass)) (hrun (holdPass_none arrange hpass))
      ⟨h, rfl, rfl, nofun, id⟩
  | some pass =>
    obtain ⟨g', heq, hmoved, hstale, htends⟩ :=
      Pass.shadowed_hold arrange h.store r.alive (h.bound pass hpass)
    rcases hr : (pass.hold arrange r.config.draftFile r.alive).run (d, r.store) with
      ⟨progress, d', s'⟩
    rw [hr] at heq hmoved hstale htends
    have hcollecting : r.Attended → r.alive → Pass.Tends s' progress := by
      intro hattended halive
      refine htends halive fun hp => ?_
      obtain ⟨_, heq, hcollects⟩ := hattended halive hp
      cases hpass.symm.trans heq
      exact hcollects
    rcases progress with pass' | installed
    · refine .of_eq (hrun (holdPass_next hpass hr)) (hrun (holdPass_next hpass heq))
        ⟨⟨hmoved.anchored, hmoved.capacity.trans h.capacity,
          hmoved.freeCapacity.trans h.freeCapacity, h.valid, ?_, ?_⟩, rfl, rfl, ?_, ?_⟩
      · rw [h.compacting, hpass]
        rfl
      · rintro _ ⟨⟩
        exact hmoved.bound pass' rfl
      · rintro _ ⟨⟩ hs
        cases hstale hs
      · intro hattended halive hp
        obtain ⟨_, heq, hcollects⟩ := hcollecting hattended halive hp
        cases heq
        exact ⟨pass', rfl, hcollects⟩
    · refine .of_eq (hrun (holdPass_over hpass hr)) (hrun (holdPass_over hpass heq))
        ⟨⟨hmoved.anchored, hmoved.capacity.trans h.capacity,
          hmoved.freeCapacity.trans h.freeCapacity, h.valid, rfl, nofun⟩, rfl, rfl, ?_, ?_⟩
      · rintro _ ⟨⟩ hs
        cases hstale hs
        rfl
      · intro hattended halive hp
        obtain ⟨_, heq, -⟩ := hcollecting hattended halive hp
        cases heq

/-! ### The end -/

/-- A last compaction may be in vain, but it does not fail. -/
theorem shadowed_compactForGood (h : Anchored D P d g r) :
    Shadowed (onFiles shadow) compactForGood.result (d, r) g fun a q g' =>
      (∃ compacted, a = .ok compacted) ∧ Stays D P r q.1 g' q.2 := by
  unfold compactForGood
  apply FileAction.shadowed_value_bind
  split
  swap
  · exact Action.shadowed_pure ⟨⟨_, rfl⟩, h.stays⟩
  next hcond =>
  have hnone : r.pass = none := by
    rw [← Option.isNone_iff_eq_none, ← Option.not_isSome, ← h.compacting]
    rw [Bool.and_eq_true] at hcond
    exact hcond.2
  have hend : ∀ {installed d' g' s}, Store.Compacted r.config D P d g r.store d' g' s →
      Stays D P r d' g' (endCompaction installed { r with compacting := true, store := s }) := by
    intro installed d' g' s hs
    refine ⟨⟨hs.anchored, hs.later.capacity.trans h.capacity,
      hs.later.freeCapacity.trans h.freeCapacity, h.valid, rfl, nofun⟩, rfl, rfl, rfl, hs.later, ?_⟩
    rw [hnone]
    rintro pass ⟨⟩
  apply FileAction.shadowed_change_bind
  apply Action.shadowed_bind
  apply Action.shadowed_attempt
  apply shadowed_onStore
  refine (Store.shadowed_compactAtOnce h.store).mono ?_
  rintro (e | u) ⟨d', s⟩ g' hs
  · apply FileAction.shadowed_change_bind
    exact Action.shadowed_pure ⟨⟨_, rfl⟩, hend hs⟩
  · apply FileAction.shadowed_change_bind
    exact Action.shadowed_pure ⟨⟨_, rfl⟩, hend hs⟩

/-- Whether a region serves and whether it was closed does not matter. -/
theorem Anchored.anyway {alive closed : Bool} (h : Anchored D P d g r) :
    Anchored D P d g { r with alive, closed } :=
  ⟨h.store, h.capacity, h.freeCapacity, h.valid, h.compacting, h.bound⟩

theorem Stays.die (h : Stays D P r d' g' r') :
    Stays D P { r with alive := false } d' g' { r' with alive := false } :=
  ⟨h.anchored.anyway, h.config, rfl, h.closed, h.later, h.pass⟩

/-- A region that was not closed yet is closed, and does not serve any more. -/
theorem shadowed_shutDown (h : Anchored D P d g r) :
    Shadowed (onFiles shadow) Region.shutDown.result (d, r) g fun _ q g' =>
      if r.closed then Stays D P r q.1 g' q.2
      else Stays D P { r with alive := false, closed := true } q.1 g' q.2 := by
  unfold Region.shutDown
  apply FileAction.shadowed_value_bind
  split
  · exact Action.shadowed_pure h.stays
  have h₀ : Anchored D P d g { r with closed := true } := h.anyway
  have hend : ∀ q g', Stays D P { r with closed := true } q.1 g' q.2 →
      Shadowed (onFiles shadow) (do
        let outcome ← (onStore Store.close).attempt
        FileAction.change fun r => { r with alive := false }
        outcome : Change Unit).result q g' fun _ q g' =>
          Stays D P { r with alive := false, closed := true } q.1 g' q.2 := by
    rintro ⟨d', r'⟩ g' hq
    apply Action.shadowed_bind
    apply Action.shadowed_attempt
    apply shadowed_onStore
    refine (Store.shadowed_close hq.anchored.store).mono ?_
    rintro outcome ⟨d'', s⟩ g'' hs
    apply FileAction.shadowed_change_bind
    exact Action.shadowed_liftM (hq.trans (hq.anchored.step (t := { r' with store := s })
      ⟨rfl, rfl, rfl, rfl, rfl⟩ hs)).die
  apply FileAction.shadowed_change_bind
  apply Action.shadowed_bind
  refine (shadowed_compactForGood h₀).mono ?_
  rintro _ ⟨d₁, r₁⟩ g₁ ⟨⟨compacted, rfl⟩, h₁⟩
  cases compacted with
  | true => exact hend (d₁, r₁) g₁ h₁
  | false =>
    apply Action.shadowed_bind
    apply Action.shadowed_regardless
    apply shadowed_onStore
    refine (Store.shadowed_saveKeys h₁.anchored.store).mono ?_
    rintro a ⟨d₂, s⟩ g₂ ⟨hs, -⟩
    exact hend (d₂, { r₁ with store := s }) g₂
      (h₁.trans (h₁.anchored.step (t := { r₁ with store := s }) ⟨rfl, rfl, rfl, rfl, rfl⟩ hs))

/-! ### Opening -/

/-- Files in their directory are opened, or stay there. -/
theorem shadowed_openAt (h : Store.Rooted c D P d g) :
    Shadowed shadow (Region.openAt c).result d g fun a d' g' =>
      Store.Rooted c D P d' g' ∧
        ∀ r, a = .ok r → Anchored D P d' g' r ∧ r.config = c ∧ r.pass = none ∧ r.Attended := by
  unfold Region.openAt
  apply Action.shadowed_bind
  apply Action.shadowed_liftM
  cases hv : c.validate with
  | error e => exact ⟨h, fun _ heq => by cases heq⟩
  | ok u =>
    have hc := Config.valid_of_validate hv
    obtain ⟨here, hwalk, -⟩ := h.data.lodged.walk hc.walk_dataFile
    apply Action.shadowed_bind
    apply Action.shadowed_failingAs
    apply Action.shadowed_failingAs
    refine (h.orderly.shadowed_createDirectories (h.data.lodged.isPlain.of_join hc.dataName)
      hwalk).mono ?_
    rintro (e | u) d₁ g₁ hs₁
    · exact ⟨h.still hs₁, fun _ heq => by cases heq⟩
    have h₁ := h.still hs₁
    apply Action.shadowed_bind
    apply Action.shadowed_failingAs
    apply Action.shadowed_failingAs
    refine h₁.shadowed_unlinkDraft.mono ?_
    rintro (e | u) d₂ g₂ he₂
    · exact ⟨h₁.frame he₂, fun _ heq => by cases heq⟩
    have h₂ := h₁.frame he₂
    apply Action.shadowed_bind
    refine (Store.shadowed_openAt h₂).mono ?_
    rintro (e | s) d₃ g₃ ⟨h₃, -, hs⟩
    · exact ⟨h₃, fun _ heq => by cases heq⟩
    refine Action.shadowed_pure ⟨h₃, ?_⟩
    rintro _ ⟨⟩
    obtain ⟨ha, hcap, hfree, hnone⟩ := hs s rfl
    refine ⟨⟨ha, hcap, hfree, hc, rfl, nofun⟩, rfl, rfl, fun _ hp => ?_⟩
    simp [hnone] at hp

/-- A region is anchored once it was opened, whatever its files held, and there is no draft. -/
theorem anchored_of_openAt (hd : d.Orderly) (ho : (Region.openAt c).result d = (.ok r, d')) :
    ∃ D g, Anchored D (fun _ => True) d' g r ∧ r.config = c ∧ r.pass = none ∧
      d'.at? (D, c.draftName) = none ∧ r.store.pending = none := by
  obtain ⟨hc, d₁, d₂, hr₁, hr₂, hr₃, hr⟩ := openAt_stages ho
  -- the directory is made, and the draft is taken away
  obtain ⟨hmade, hf₁⟩ := createDirectories_calmed hr₁
  have hg := grown_createDirectories hd.healthy c.diskPath
  rw [hmade] at hg
  have hd₁ : d₁.Orderly := ⟨hg.healthy, hf₁ ▸ hd.truthful⟩
  obtain ⟨hgone, hf₂⟩ := unlinkIfPresent_calmed hd₁ hr₂
  have hl := local_unlinkIfPresent hg.healthy hc.steps_draftFile
  rw [hgone] at hl
  have hd₂ : d₂.Orderly := ⟨hl.healthy, hf₂ ▸ hd₁.truthful⟩
  obtain ⟨D, hdata, hkeys⟩ := Store.sites_of_openAt hc hd₂ hr₃
  obtain ⟨here, hwalk, heq⟩ := hdata.lodged.walk hc.walk_dataFile
  have hwalk' : d₂.calmed.walk [] c.diskPath.steps = .ok here := (walk_calmed _ _ _).trans hwalk
  obtain ⟨hdraft, hnone⟩ := lodged_of_unlinkIfPresent hg.healthy.calm hc.walk_draftFile
    (Path.isDirectoryForm_join hc.draftName) hgone hwalk'
  have hD : here.directory = D := (congrArg Prod.fst heq).symm
  rw [hD] at hdraft hnone
  have hrooted : Store.Rooted c D (fun _ => True) d₂ d₂.contents := by
    refine ⟨hd₂, hdata, hkeys, ⟨hdraft.mono fun _ _ => id, fun m hm => ?_⟩,
      fun n _ => kept_self d₂ n, fun n _ => kept_self d₂ n, fun _ _ _ _ _ => trivial⟩
    cases hnone.symm.trans hm
  obtain ⟨g, -, he, hs⟩ := (Store.shadowed_openAt hrooted).post
  rw [hr₃] at he hs
  obtain ⟨ha, hcap, hfree, hpending⟩ := hs r.store rfl
  refine ⟨D, g, ?_, ?_, ?_, ?_, hpending⟩
  · rw [hr]
    exact ⟨ha, hcap, hfree, hc, rfl, nofun⟩
  · rw [hr]
  · rw [hr]
  · exact (he.nodes _ (Store.not_isOwnName_draftName c)).trans hnone

/-- Where nothing fails, files in their directory can be opened. -/
theorem openAt_total (h : Store.Rooted c D P d g) (hcalm : d.Calm) (hc : c.Valid) :
    ∃ r d', (Region.openAt c).result d = (.ok r, d') := by
  have hd := h.orderly.healthy_of_calm hcalm
  obtain ⟨here, hwalk, -⟩ := h.data.lodged.walk hc.walk_dataFile
  have hmade : (createDirectories c.diskPath).result d = (.ok (), d.tick) := by
    have hwalk' : d.tick.walk [] c.diskPath.steps = .ok here := by
      refine walk_mono ?_ hwalk
      exact fun _ _ hx => hx
    rw [createDirectories_eq, hcalm d.attempts]
    exact makeDirectories_of_walk (h.data.lodged.isPlain.of_join hc.dataName) hwalk' _
  have h₁ := h.still (h.orderly.still_tick g)
  obtain ⟨d₂, hgone⟩ : ∃ d₂, (unlinkIfPresent c.draftFile).result d.tick = (.ok (), d₂) := by
    rw [unlinkIfPresent, Action.result_bind, Action.result_attempt,
      result_unlink hd.tick.calm h₁.draft.lodged]
    rcases hn : d.tick.at? (D, c.draftName) with _ | ⟨m | m⟩
    · exact ⟨_, rfl⟩
    · exact absurd hn (h₁.draft.noDirectory m)
    · exact ⟨_, rfl⟩
  obtain ⟨g₂, he₂⟩ := h₁.shadowed_unlinkDraft.post
  have hl₂ := local_unlinkIfPresent hd.tick hc.steps_draftFile
  rw [hgone] at he₂ hl₂
  obtain ⟨s, d₃, hopened⟩ := Store.openAt_total (h₁.frame he₂) hl₂.healthy.calm
  unfold Region.openAt
  rw [Action.result_bind, Action.result_liftM, hc.validate]
  dsimp only
  rw [Action.result_bind, Action.result_failingAs, Action.result_lift, hmade]
  dsimp only [Except.mapError]
  rw [Action.result_bind, Action.result_failingAs, Action.result_lift, hgone]
  dsimp only [Except.mapError]
  rw [Action.result_bind, hopened]
  exact ⟨_, _, rfl⟩

end Region

end DiskTier
