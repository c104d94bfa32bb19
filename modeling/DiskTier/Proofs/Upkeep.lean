import DiskTier.Proofs.Finality

/-!
# The free list stays in order

Whatever is asked of a region, and whichever operations on its files fail, its free list is in
order: sorted, counted, and no longer than it may be. What happens to the files does not matter, so
they are left out of account: each action is only asked what it does to the value in memory.
-/

namespace DiskTier

variable {σ τ ε ε' α β : Type}

/-- What holds of the value in memory still holds of it afterwards. -/
def Upholds (I : σ → Prop) (f : FileSystem × σ → α × FileSystem × σ) : Prop :=
  ∀ p, I p.2 → I (f p).2.2

namespace FileAction

variable {I : σ → Prop} {x : FileAction σ ε α}

theorem upholds_pure (a : α) : Upholds I (pure a : FileAction σ ε α).result := fun _ h => h

theorem upholds_throw (e : ε) : Upholds I (throw e : FileAction σ ε α).result := fun _ h => h

theorem upholds_value : Upholds I (value : FileAction σ ε σ).result := fun _ h => h

theorem upholds_change {f : σ → σ} (hf : ∀ s, I s → I (f s)) :
    Upholds I (change f : FileAction σ ε Unit).result := fun p => hf p.2

theorem upholds_liftM (r : Except ε α) : Upholds I (liftM r : FileAction σ ε α).result := by
  intro p h
  rw [Action.result_liftM]
  exact h

theorem upholds_bind {f : α → FileAction σ ε β} (hx : Upholds I x.result)
    (hf : ∀ a, Upholds I (f a).result) : Upholds I (x >>= f).result := by
  intro p h
  have hp := hx p h
  rw [Action.result_bind]
  rcases hr : x.result p with ⟨e | a, q⟩
  · rw [hr] at hp
    exact hp
  · rw [hr] at hp
    exact hf a q hp

theorem upholds_map (f : α → β) (hx : Upholds I x.result) : Upholds I (f <$> x).result := by
  rw [← bind_pure_comp]
  exact upholds_bind hx fun a => upholds_pure (f a)

theorem upholds_attempt (hx : Upholds I x.result) :
    Upholds I (x.attempt : FileAction σ ε' _).result := hx

theorem upholds_regardless (hx : Upholds I x.result) :
    Upholds I (x.regardless : FileAction σ ε' Unit).result := hx

theorem upholds_onDisk (wrap : ε' → ε) (x : Action FileSystem ε' α) :
    Upholds I (onDisk wrap x : FileAction σ ε α).result := by
  intro p h
  rw [result_onDisk]
  exact h

theorem of_startingWith {s s' : σ} {d d' : FileSystem} {a : α} (hx : Upholds I x.result)
    (h : (x.startingWith s).result d = (.ok (a, s'), d')) (hs : I s) : I s' := by
  have hp := hx (d, s) hs
  rw [result_startingWith] at h
  rcases hr : x.result (d, s) with ⟨e | b, e', t⟩
  · rw [hr] at h
    cases h
  · rw [hr] at h hp
    cases h
    exact hp

end FileAction

open FileAction

/-! ### Stores -/

namespace Store

variable {s : Store} {k : Key}

/-- The free list is in order. -/
def FreeInOrder (s : Store) : Prop := s.free.Valid

theorem upholds_onData (x : RecordFile.Change α) : Upholds FreeInOrder (onData x).result := by
  intro p h
  rw [onData, result_onPart]
  exact h

theorem upholds_onKeys (x : RecordFile.Change α) : Upholds FreeInOrder (onKeys x).result := by
  intro p h
  rw [onKeys, result_onPart]
  exact h

theorem FreeInOrder.claim (h : s.FreeInOrder) (k : Key) (n : UInt32) :
    (s.claim (s.place k n)).FreeInOrder := by
  unfold place
  split
  · exact h
  · split
    · next slot free hr =>
      obtain ⟨-, -, hfree, -⟩ := FreeList.Valid.reserve? h hr
      exact hfree
    · exact h

theorem FreeInOrder.unclaim (h : s.FreeInOrder) (place : Place) :
    (s.unclaim place).FreeInOrder := by
  cases place with
  | reused slot free => exact (FreeList.Valid.release h slot).1
  | old slot => exact h
  | tail offset => exact h

theorem upholds_write (k : Key) (record : Bytes) : Upholds FreeInOrder (write k record).result := by
  rintro ⟨d, s⟩ h
  cases hn : Slot.lengthOf? record with
  | none =>
    rw [write, hn]
    exact h
  | some n =>
    rw [result_write hn]
    dsimp only
    rcases (RecordFile.write (s.place k n).offset record).result
      (d, (s.claim (s.place k n)).dataFile) with ⟨e | u, d', f⟩
    all_goals
      have hclaimed : ({ s.claim (s.place k n) with dataFile := f } : Store).FreeInOrder :=
        FreeInOrder.claim h k n
    · exact hclaimed.unclaim _
    · exact (install_valid hclaimed k _).1

theorem FreeInOrder.removeWhere (h : s.FreeInOrder) (p : Key → Bool) :
    (s.removeWhere p).2.FreeInOrder := (FreeList.Valid.releaseAll h _).1

theorem FreeInOrder.remove (h : s.FreeInOrder) (k : Key) : (s.remove k).2.FreeInOrder := by
  unfold Store.remove
  split
  · exact h.removeWhere _
  · split
    · exact h
    · next slot index hr => exact (FreeList.Valid.release h slot).1

theorem upholds_saveKeys : Upholds FreeInOrder saveKeys.result := by
  refine upholds_bind upholds_value fun s => ?_
  have hsync : Upholds FreeInOrder (do
      let s ← FileAction.value
      FileAction.onDisk .file s.keyFile.sync : Change Unit).result :=
    upholds_bind upholds_value fun _ => upholds_onDisk _ _
  split
  · exact upholds_bind (upholds_onKeys _) fun _ => hsync
  · exact upholds_bind (upholds_onKeys _) fun _ => hsync

theorem upholds_reset : Upholds FreeInOrder reset.result := by
  refine upholds_bind (upholds_change fun s _ => FreeList.empty_valid _) fun _ => ?_
  refine upholds_bind (upholds_regardless (upholds_onData _)) fun _ => ?_
  refine upholds_bind (upholds_regardless (upholds_onKeys _)) fun _ => ?_
  refine upholds_bind upholds_value fun s => ?_
  refine upholds_bind (upholds_onDisk _ _) fun _ => ?_
  refine upholds_bind (upholds_onDisk _ _) fun _ => ?_
  refine upholds_bind (upholds_onDisk _ _) fun dataFile => ?_
  refine upholds_bind (upholds_change fun _ h => h) fun _ => ?_
  exact upholds_bind (upholds_onDisk _ _) fun keyFile => upholds_change fun _ h => h

theorem upholds_close : Upholds FreeInOrder close.result :=
  upholds_bind (upholds_onData _) fun _ => upholds_onKeys _

theorem upholds_replace (p : Path) (index : Index) :
    Upholds FreeInOrder (replace p index).result := by
  refine upholds_bind upholds_value fun s => ?_
  refine upholds_bind (upholds_onDisk _ _) fun _ => ?_
  refine upholds_bind (upholds_onKeys _) fun _ => ?_
  refine upholds_bind (upholds_onData _) fun _ => ?_
  refine upholds_bind (upholds_onDisk _ _) fun _ => ?_
  refine upholds_bind (upholds_onDisk _ _) fun dataFile => ?_
  exact upholds_bind (upholds_change fun s _ => FreeList.empty_valid _) fun _ => upholds_saveKeys

theorem upholds_installDraft (dr : Draft) : Upholds FreeInOrder (installDraft dr).result := by
  refine upholds_bind upholds_value fun s => ?_
  refine upholds_bind (upholds_attempt (upholds_onDisk _ _)) fun closed => ?_
  cases closed with
  | error e => exact upholds_bind (upholds_onDisk _ _) fun _ => upholds_throw e
  | ok _ =>
    refine upholds_bind (upholds_attempt (upholds_replace _ _)) fun replaced => ?_
    cases replaced with
    | error e => exact upholds_bind upholds_reset fun _ => upholds_throw e
    | ok u => exact upholds_pure ()

theorem upholds_compactAtOnce (p : Path) : Upholds FreeInOrder (compactAtOnce p).result := by
  refine upholds_bind (upholds_onDisk _ _) fun dr => ?_
  refine upholds_bind upholds_value fun s => ?_
  refine upholds_bind (upholds_attempt (upholds_onDisk _ _)) fun copied => ?_
  cases copied with
  | error e => exact upholds_bind (upholds_onDisk _ _) fun _ => upholds_throw e
  | ok dr => exact upholds_installDraft dr

/-! ### Opening -/

/-- A free list that a key file gives is in order, and so is one that is made anew. -/
theorem loadKeys_valid {c : Config} {f : RecordFile} {d d' : FileSystem} {free : FreeList}
    {index : Index} (h : (loadKeys c f).result d = (.ok (free, index), d')) : free.Valid := by
  have hempty := FreeList.empty_valid c.maxFreeSlots
  unfold loadKeys at h
  split at h
  · cases h
    exact hempty
  obtain ⟨outcome, d₁, -, h⟩ := Action.ok_of_bind h
  cases outcome with
  | error e =>
    cases h
    exact hempty
  | ok bytes =>
    dsimp only at h
    split at h
    · cases h
      exact hempty
    · cases h
      exact (hempty.releaseAll _).1

theorem openAt_freeInOrder {c : Config} {d d' : FileSystem}
    (h : (openAt c).result d = (.ok s, d')) : s.FreeInOrder := by
  obtain ⟨dataFile, d₁, -, h⟩ := Action.ok_of_bind h
  obtain ⟨keyFile, d₂, -, h⟩ := Action.ok_of_bind h
  obtain ⟨⟨free, index⟩, d₃, hload, h⟩ := Action.ok_of_bind h
  have hfree := loadKeys_valid hload
  dsimp only at h
  split at h
  · rw [← bind_pure_comp] at h
    obtain ⟨⟨u, s'⟩, d₄, hreset, h⟩ := Action.ok_of_bind h
    cases h
    exact of_startingWith upholds_reset hreset hfree
  · cases h
    exact hfree

end Store

/-! ### Holds -/

namespace Pass

open Store

variable {I : Store → Prop} {arrange : List Key → List Key}

theorem upholds_held_pure (a : α) : Upholds I (pure a : Held α).run := fun _ h => h

theorem upholds_held_bind {x : Held α} {f : α → Held β} (hx : Upholds I x.run)
    (hf : ∀ a, Upholds I (f a).run) : Upholds I (x >>= f).run := by
  intro p h
  rw [run_bind]
  exact hf _ _ (hx p h)

/-- What follows a look at the store. -/
theorem upholds_store_bind {f : Store → Held β} (hf : ∀ s, I s → Upholds I (f s).run) :
    Upholds I (store >>= f).run := fun p h => hf p.2 h p h

theorem upholds_setStore {s : Store} (h : I s) : Upholds I (setStore s).run := fun _ _ => h

theorem upholds_outcome {x : Store.Change α} (hx : Upholds I x.result) :
    Upholds I (outcome x).run := hx

theorem upholds_abandon (dr : Draft) : Upholds I (abandon dr).run := fun _ h => h

theorem upholds_start (p : Path) : Upholds FreeInOrder (start p).run := by
  refine upholds_store_bind fun s h => ?_
  have hcollecting : ({ s with pending := some [] } : Store).FreeInOrder := h
  refine upholds_held_bind (upholds_setStore hcollecting) fun _ => ?_
  refine upholds_held_bind (upholds_outcome (upholds_onDisk _ _)) fun r => ?_
  cases r <;> exact upholds_held_pure _

theorem upholds_copyOne (k : Key) (w : Work) : Upholds FreeInOrder (copyOne k w).run := by
  refine upholds_store_bind fun s h => ?_
  refine upholds_held_bind (upholds_outcome (upholds_onDisk _ _)) fun r => ?_
  cases r <;> exact upholds_held_pure _

theorem upholds_finish (w : Work) : Upholds FreeInOrder (finish arrange w).run := by
  refine upholds_store_bind fun s h => ?_
  have hcollected : ({ s with pending := none } : Store).FreeInOrder := h
  refine upholds_held_bind (upholds_setStore hcollected) fun _ => ?_
  refine upholds_store_bind fun s h => ?_
  refine upholds_held_bind (upholds_outcome (upholds_onDisk _ _)) fun copied => ?_
  cases copied with
  | error e => exact upholds_held_bind (upholds_abandon _) fun _ => upholds_held_pure _
  | ok dr =>
    refine upholds_held_bind (upholds_outcome (upholds_installDraft dr)) fun installed => ?_
    cases installed <;> exact upholds_held_pure _

theorem upholds_work (w : Work) : Upholds FreeInOrder (work arrange w).run := by
  unfold work
  split
  · exact upholds_copyOne _ _
  · refine upholds_store_bind fun s h => ?_
    split
    · exact upholds_held_pure _
    · next k s' htake =>
      obtain ⟨ks, -, rfl⟩ := takePending_eq htake
      have htaken : ({ s with pending := some ks } : Store).FreeInOrder := h
      exact upholds_held_bind (upholds_setStore htaken) fun _ => upholds_copyOne _ _
  · exact upholds_finish w

theorem upholds_hold (arrange : List Key → List Key) (p : Path) (alive : Bool) (pass : Pass) :
    Upholds FreeInOrder (pass.hold arrange p alive).run := by
  unfold hold
  split
  · split
    · exact upholds_start p
    · exact upholds_held_pure _
  · refine upholds_store_bind fun s h => ?_
    split
    · exact upholds_work _
    · exact upholds_held_bind (upholds_abandon _) fun _ => upholds_held_pure _
  · next generation draft =>
    refine upholds_store_bind fun s h => ?_
    have hstopped : (s.stopCollecting generation).FreeInOrder := by
      obtain ⟨pending, hs⟩ := stopCollecting_eq generation s
      rw [hs]
      exact h
    refine upholds_held_bind (upholds_setStore hstopped) fun _ => ?_
    split
    · exact upholds_held_bind (upholds_held_pure ()) fun _ => upholds_held_pure _
    · exact upholds_held_bind (upholds_abandon _) fun _ => upholds_held_pure _

end Pass

/-! ### Regions -/

namespace Region

variable {c : Config} {d d' : FileSystem} {r : Region} {p q : World} {event : Event}
  {events : List Event} {arrange : List Key → List Key}

/-- The free list is in order. -/
def FreeInOrder (r : Region) : Prop := r.store.FreeInOrder

theorem upholds_onStore {x : Store.Change α} (hx : Upholds Store.FreeInOrder x.result) :
    Upholds FreeInOrder (onStore x).result := by
  intro p h
  rw [result_onStore]
  exact hx (p.1, p.2.store) h

theorem upholds_region_change {f : Region → α × Region}
    (hf : ∀ r, FreeInOrder r → FreeInOrder (f r).2) : Upholds FreeInOrder (change f).result :=
  fun p => hf p.2

theorem upholds_requireAlive : Upholds FreeInOrder requireAlive.result := by
  refine upholds_bind upholds_value fun r => ?_
  split
  · exact upholds_pure ()
  · exact upholds_throw _

theorem upholds_put (e : Element) : Upholds FreeInOrder (put e).result := by
  refine upholds_bind upholds_requireAlive fun _ => ?_
  refine upholds_bind (upholds_onStore (Store.upholds_write _ _)) fun reused => ?_
  split
  · exact upholds_change fun _ h => h
  · exact upholds_pure ()

theorem upholds_reset : Upholds FreeInOrder reset.result :=
  upholds_bind upholds_requireAlive fun _ => upholds_onStore Store.upholds_reset

theorem upholds_lookup (k : Key) : Upholds FreeInOrder (lookup k).result := by
  refine upholds_bind upholds_value fun r => ?_
  split
  swap
  · exact upholds_pure none
  refine upholds_bind (upholds_attempt (upholds_onDisk _ _)) fun outcome => ?_
  split
  · exact upholds_bind (upholds_change fun _ h => h) fun _ => upholds_pure _
  · exact upholds_bind (upholds_change fun _ h => h) fun _ => upholds_pure _
  · exact upholds_bind (upholds_change fun _ h => h) fun _ => upholds_throw _

theorem upholds_get (k : Key) : Upholds FreeInOrder (Region.get k).result := by
  refine upholds_bind (upholds_attempt (upholds_lookup k)) fun outcome => ?_
  cases outcome with
  | ok found => exact upholds_pure found
  | error e => exact upholds_bind (upholds_regardless upholds_reset) fun _ => upholds_throw e

theorem upholds_saveKeys : Upholds FreeInOrder Region.saveKeys.result :=
  upholds_bind upholds_requireAlive fun _ => upholds_onStore Store.upholds_saveKeys

theorem FreeInOrder.removeBy {f : Store → Bool × Store} (h : r.FreeInOrder)
    (hf : (f r.store).2.FreeInOrder) : (r.removeBy f).2.FreeInOrder := by
  cases ha : r.alive with
  | false =>
    rw [removeBy_dead ha]
    exact h
  | true =>
    rw [FreeInOrder, (removeBy_eq ha f).2.1]
    exact hf

theorem upholds_perform (call : Call α) : Upholds FreeInOrder call.perform.result := by
  cases call with
  | put e => exact upholds_put e
  | get k => exact upholds_get k
  | groupKeys g => exact upholds_map _ upholds_value
  | remove k => exact upholds_region_change fun r h => FreeInOrder.removeBy h (h.remove k)
  | removeGroup g => exact upholds_region_change fun r h => FreeInOrder.removeBy h (h.removeWhere _)
  | reset => exact upholds_reset
  | saveKeys => exact upholds_saveKeys
  | size => exact upholds_map _ upholds_value
  | stats => exact upholds_map _ upholds_value
  | requestCompaction =>
    refine upholds_region_change fun r h => ?_
    rw [FreeInOrder, (requestCompaction_eq r).1]
    exact h

theorem upholds_holdPass : Upholds FreeInOrder (holdPass arrange).run := by
  rintro ⟨d, r⟩ h
  cases hpass : r.pass with
  | none =>
    rw [holdPass_none arrange hpass]
    exact h
  | some pass =>
    have hs := Pass.upholds_hold arrange r.config.draftFile r.alive pass (d, r.store) h
    rcases hr : (pass.hold arrange r.config.draftFile r.alive).run (d, r.store) with
      ⟨pass' | installed, d', s'⟩
    · rw [hr] at hs
      rw [holdPass_next hpass hr]
      exact hs
    · rw [hr] at hs
      rw [holdPass_over hpass hr]
      exact hs

theorem upholds_compactForGood : Upholds FreeInOrder compactForGood.result := by
  refine upholds_bind upholds_value fun r => ?_
  split
  swap
  · exact upholds_pure false
  refine upholds_bind (upholds_change fun _ h => h) fun _ => ?_
  refine upholds_bind (upholds_attempt (upholds_onStore (Store.upholds_compactAtOnce _)))
    fun outcome => ?_
  cases outcome with
  | ok u => exact upholds_bind (upholds_change fun _ h => h) fun _ => upholds_pure true
  | error e => exact upholds_bind (upholds_change fun _ h => h) fun _ => upholds_pure false

theorem upholds_shutDown : Upholds FreeInOrder shutDown.result := by
  refine upholds_bind upholds_value fun r => ?_
  split
  · exact upholds_pure ()
  have hclose : Upholds FreeInOrder (do
      let outcome ← (onStore Store.close).attempt
      FileAction.change fun r => { r with alive := false }
      outcome : Region.Change Unit).result :=
    upholds_bind (upholds_attempt (upholds_onStore Store.upholds_close)) fun outcome =>
      upholds_bind (upholds_change fun _ h => h) fun _ => upholds_liftM outcome
  refine upholds_bind (upholds_change fun _ h => h) fun _ => ?_
  refine upholds_bind upholds_compactForGood fun compacted => ?_
  split
  · exact upholds_bind (upholds_regardless (upholds_onStore Store.upholds_saveKeys))
      fun _ => hclose
  · exact hclose

/-! ### Events and runs -/

theorem freeInOrder_of_openAt (ho : (Region.openAt c).result d = (.ok r, d')) :
    r.FreeInOrder := by
  obtain ⟨-, d₁, d₂, -, -, hs, -⟩ := openAt_stages ho
  exact Store.openAt_freeInOrder hs

theorem Step.freeInOrder (h : Step p event q) (hp : p.2.FreeInOrder) : q.2.FreeInOrder := by
  cases h with
  | called call p => exact upholds_perform call p hp
  | looked k p => exact upholds_lookup k p hp
  | held harrange p => exact upholds_holdPass p hp
  | died d r => exact hp
  | shutDown p => exact upholds_shutDown p hp
  | reopened hname hpath hopen => exact freeInOrder_of_openAt hopen

theorem Trial.freeInOrder (h : Trial p event q) (hp : p.2.FreeInOrder) : q.2.FreeInOrder := by
  cases h with
  | step hs => exact hs.freeInOrder hp
  | retried hvain hname hpath hopen => exact freeInOrder_of_openAt hopen

/-- The free list of a region is in order at all times, whatever fails. -/
theorem Run.freeInOrder (hr : Run Trial p events q)
    (ho : (Region.openAt c).result d = (.ok p.2, p.1)) : q.2.FreeInOrder := by
  induction hr with
  | nil => exact freeInOrder_of_openAt ho
  | snoc _ he ih => exact he.freeInOrder ih

end Region

end DiskTier
