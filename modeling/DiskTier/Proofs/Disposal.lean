import DiskTier.Proofs.Finality
import DiskTier.Proofs.Installation

/-!
# What becomes of a draft

The file of a draft is there while a compaction fills it, and should be gone when that is over:
taken away when the draft is given up, or under the name of the data file. Whatever else fails, it
is, except in two cases. A draft of which the file was made but could not be emptied is not known to
the pass; and if the draft does not get the name of the data file, the store is reset, which takes
the two files of the store away and not the draft.

`LeavesDraft` tells these cases for each thing that may be done with a draft. The run theorem says
that there is no other way for the file to outlive its pass.
-/

namespace DiskTier

open FileSystem

variable {α β : Type} {c : Config} {D : Nat} {P : Key → Prop} {d d' : FileSystem} {g g' : Shade}
  {s s' live : Store} {dr : Draft} {arrange : List Key → List Key}

/-! ### How a draft is left behind -/

namespace Draft

/-- The draft cannot be closed, or its name cannot be taken away. -/
def IsStuck (dr : Draft) (d : FileSystem) : Prop := (dr.file.delete.result d).1 ≠ .ok ()

/-- The file of a draft is there, but a draft cannot be begun in it. -/
def IsHalfBegun (path : Path) (d : FileSystem) : Prop :=
  ((openFile path).result d).1.isOk ∧ ¬ ((begin path).result d).1.isOk

end Draft

namespace Store

/-- To install the draft leaves it behind: it cannot be closed and is stuck, or it can be closed and
does not get the name of the data file. -/
def InstallLeavesDraft (dr : Draft) (d : FileSystem) (s : Store) : Prop :=
  match RecordFile.close.result (d, dr.file) with
  | (.error _, d', _) => { dr with file.handle := none }.IsStuck d'
  | (.ok (), d', _) => ((moveDraft dr.file.path s.dataFile.path).result (d', s)).1 ≠ .ok ()

/-- To copy the last keys and to install the draft leaves it behind. -/
def FillLeavesDraft (dr : Draft) (keys : List Key) (d : FileSystem) (s : Store) : Prop :=
  match (dr.copyAll s keys).result d with
  | (.error _, d') => dr.IsStuck d'
  | (.ok dr', d') => InstallLeavesDraft dr' d' s

/-- A compaction at once leaves its draft behind. -/
def CompactionLeavesDraft (draftFile : Path) (d : FileSystem) (s : Store) : Prop :=
  match (Draft.begin draftFile).result d with
  | (.error _, _) => Draft.IsHalfBegun draftFile d
  | (.ok dr, d') => FillLeavesDraft dr s.index.keys d' s

end Store

/-- A hold of the pass leaves its draft behind. -/
def Pass.LeavesDraft (arrange : List Key → List Key) (draftFile : Path) (alive : Bool)
    (d : FileSystem) (s : Store) : Pass → Prop
  | .requested => alive ∧ Draft.IsHalfBegun draftFile d
  | .running w =>
    if alive && s.generation == w.generation then
      w.todo = [] ∧ w.tries = 0 ∧
        Store.FillLeavesDraft w.draft (arrange (s.pending.getD []).eraseDups) d
          { s with pending := none }
    else w.draft.IsStuck d
  | .stopping _ draft => ∃ dr ∈ draft, dr.IsStuck d

/-! ### Drafts -/

namespace Draft

/-- A draft that is not stuck is gone when it was given up. -/
theorem gone_of_abandon (h : Store.Rooted c D P d g) (hpath : dr.file.path = c.draftFile)
    (hstuck : ¬ dr.IsStuck d) : (dr.abandon.result d).2.at? (D, c.draftName) = none := by
  obtain ⟨g', -, hgone⟩ :=
    (RecordFile.shadowed_delete (g := g) h.orderly (hpath ▸ h.draft)).post
  rw [abandon, Action.result_regardless]
  exact hgone (not_not.1 hstuck)

/-- Where no file could be opened, there is no other than before. -/
theorem at?_of_begin (hbegun : ¬ IsHalfBegun c.draftFile d) {e : Error}
    (hr : (begin c.draftFile).result d = (.error e, d')) : d'.at? = d.at? := by
  have hopen : ((openFile c.draftFile).result d).1.isOk = false := by
    rw [Bool.eq_false_iff]
    intro hok
    refine hbegun ⟨hok, ?_⟩
    rw [hr]
    exact Bool.false_ne_true
  rw [begin, Action.result_bind, Action.result_failingAs, RecordFile.createEmpty_eq] at hr
  rcases ho : (openFile c.draftFile).result d with ⟨e' | n, d₁⟩
  · rw [ho] at hr
    cases hr
    rw [openFile, operate_eq] at ho
    split at ho
    · cases ho
      rfl
    · split at ho
      · cases ho
        rfl
      · cases ho
  · rw [ho] at hopen
    cases hopen

end Draft

/-! ### The end of a compaction -/

namespace Store

open Draft

theorem orderly_failing (h : d.Healthy) (numbers : List Nat) : (failing numbers d).Orderly := by
  refine ⟨h.orderly.healthy, fun n fault hfault => ?_⟩
  simp only [failing] at hfault
  split at hfault
  · cases hfault
    decide
  · cases hfault

theorem gone_of_reset (h : Anchored c D P d g s) (hgone : d.at? (D, c.draftName) = none) :
    (reset.result (d, s)).2.1.at? (D, c.draftName) = none := by
  obtain ⟨g', hremains, -⟩ := (shadowed_reset h).post
  exact (hremains.effect.nodes _ (not_isOwnName_draftName c)).trans hgone

/-- Once the draft has the name of the data file, nothing is left under its own, whatever fails from
then on. -/
theorem gone_of_replace (h : Anchored c D P d g s) (hk : d.KeptAt g (D, c.draftName))
    {index : Index} (hi : index.Within P) (hcap : index.capacity = s.index.capacity)
    (hmoved : ((moveDraft c.draftFile c.dataFile).result (d, s)).1 = .ok ()) :
    ((replace c.draftFile index).result (d, s)).2.1.at? (D, c.draftName) = none := by
  obtain ⟨g₁, h₁, -, hok⟩ := (shadowed_moveDraft h hk).post
  rw [replace_eq, Action.result_bind, FileAction.result_value]
  simp only
  rw [h.dataPath, Action.result_bind]
  rcases hm : (moveDraft c.draftFile c.dataFile).result (d, s) with ⟨e | u, d₁, s₁⟩ <;>
    rw [hm] at h₁ hok hmoved
  · cases hmoved
  · obtain ⟨hclosed, hgone, -, -⟩ := hok rfl
    obtain ⟨g₂, h₂, -⟩ := (shadowed_takeOver h₁.anchored hclosed hi
      (hcap.trans h₁.later.capacity.symm)).post
    exact (h₂.effect.nodes _ (not_isOwnName_draftName c)).trans hgone

theorem gone_of_installDraft (h : Anchored c D P d g s) (hd : Drafted c D d g dr)
    (hleft : ¬ InstallLeavesDraft dr d s) :
    ((installDraft dr).result (d, s)).2.1.at? (D, c.draftName) = none := by
  have hi := h.within.indexFor hd.coherent
  obtain ⟨g₁, hstill, -⟩ := (RecordFile.shadowed_close (g := g) h.orderly dr.file).post
  rw [result_installDraft]
  unfold InstallLeavesDraft at hleft
  rcases hc : RecordFile.close.result (d, dr.file) with ⟨e | u, d₁, f⟩ <;>
    rw [hc] at hleft hstill <;> simp only at hleft hstill ⊢
  · have hpath : { dr with file.handle := none }.file.path = c.draftFile := hd.path
    exact gone_of_abandon (h.still hstill).rooted hpath hleft
  rw [hd.path, h.dataPath, not_not] at hleft
  rw [hd.path]
  have h₁ := h.still hstill
  have hkept := (hd.frame hstill id).kept
  have hcap := indexFor_capacity dr s
  obtain ⟨g₂, h₂⟩ := (shadowed_replace h₁ hkept hi hcap).post
  have hgone := gone_of_replace h₁ hkept hi hcap hleft
  rcases hr : (replace c.draftFile (dr.indexFor s)).result (d₁, s) with ⟨e | u, d₂, s₂⟩ <;>
    rw [hr] at h₂ hgone
  · -- the reset has nothing to do with the draft
    exact gone_of_reset h₂.anchored hgone
  · exact hgone

theorem gone_of_fill (h : Anchored c D P d g s) (hd : Drafted c D d g dr) {keys : List Key}
    (hleft : ¬ FillLeavesDraft dr keys d s) :
    (∀ e d', (dr.copyAll s keys).result d = (.error e, d') →
      (dr.abandon.result d').2.at? (D, c.draftName) = none) ∧
    ∀ dr' d', (dr.copyAll s keys).result d = (.ok dr', d') →
      ((installDraft dr').result (d', s)).2.1.at? (D, c.draftName) = none := by
  obtain ⟨g', he, hd'⟩ := (shadowed_copyAll h hd keys).post
  unfold FillLeavesDraft at hleft
  refine ⟨fun e d' hr => ?_, fun dr' d' hr => ?_⟩ <;> rw [hr] at he hd' hleft
  · exact gone_of_abandon (h.frame he).rooted hd.path hleft
  · exact gone_of_installDraft (h.frame he) (hd' dr' rfl) hleft

/-- After a compaction at once there is no draft, unless it was left behind or was there before. -/
theorem gone_of_compactAtOnce (h : Anchored c D P d g s)
    (hleft : ¬ CompactionLeavesDraft c.draftFile d s) (hnone : d.at? (D, c.draftName) = none) :
    ((compactAtOnce c.draftFile).result (d, s)).2.1.at? (D, c.draftName) = none := by
  obtain ⟨g₁, he₁, hd₁⟩ := (shadowed_begin h.rooted).post
  rw [compactAtOnce, Action.result_bind, FileAction.result_onDisk]
  unfold CompactionLeavesDraft at hleft
  rcases hb : (Draft.begin c.draftFile).result d with ⟨e | dr, d₁⟩ <;> rw [hb] at he₁ hd₁ hleft
  · rw [← hnone]
    exact congrFun (at?_of_begin hleft hb) _
  obtain ⟨herror, hok⟩ := gone_of_fill (h.frame he₁) (hd₁ dr rfl) hleft
  simp only [Except.mapError]
  rw [Action.result_bind, FileAction.result_value]
  simp only
  rw [Action.result_bind, Action.result_attempt, FileAction.result_onDisk]
  rcases hc : (dr.copyAll s s.index.keys).result d₁ with ⟨e | dr', d₂⟩
  · simp only [Except.mapError]
    rw [Action.result_bind, FileAction.result_onDisk]
    exact herror e d₂ hc
  · exact hok dr' d₂ hc

end Store

/-! ### The end of a pass -/

namespace Pass

open Draft

/-- The draft that a pass has to dispose of. -/
def draft? : Pass → Option Draft
  | .requested => none
  | .running w => some w.draft
  | .stopping _ draft => draft

def HasDraft (pass : Pass) : Prop := pass.draft?.isSome

theorem hasDraft_copyOne (k : Key) (w : Work) (d : FileSystem) (s : Store) :
    ∃ pass, ((copyOne k w).run (d, s)).1 = .next pass ∧ pass.HasDraft := by
  rw [run_copyOne]
  rcases (w.draft.copy s k).result d with ⟨e | dr, d'⟩
  · exact ⟨_, rfl, rfl⟩
  · exact ⟨_, rfl, rfl⟩

/-- A hold ends with a pass that has its draft, or there is none: unless the hold has left it
behind, or there was one of which the pass does not know. -/
theorem gone_of_hold (h : Store.Anchored c D P d g s) {alive : Bool} {pass : Pass}
    (hp : Bound c D d g s pass) (hleft : ¬ pass.LeavesDraft arrange c.draftFile alive d s)
    (hnone : pass.HasDraft ∨ d.at? (D, c.draftName) = none) :
    (∃ pass', ((pass.hold arrange c.draftFile alive).run (d, s)).1 = .next pass' ∧
        pass'.HasDraft) ∨
      ((pass.hold arrange c.draftFile alive).run (d, s)).2.1.at? (D, c.draftName) = none := by
  cases pass with
  | requested =>
    replace hnone := hnone.resolve_left (by simp [HasDraft, draft?])
    cases alive with
    | false => exact .inr hnone
    | true =>
      have hbegun : ¬ IsHalfBegun c.draftFile d := fun hb => hleft ⟨rfl, hb⟩
      rw [hold, if_pos rfl, run_start]
      rcases hb : (Draft.begin c.draftFile).result d with ⟨e | dr, d'⟩
      · right
        rw [← hnone]
        exact congrFun (at?_of_begin hbegun hb) _
      · exact .inl ⟨_, rfl, rfl⟩
  | running w =>
    obtain ⟨hpath, -, hcurrent⟩ := hp
    simp only [LeavesDraft] at hleft
    rw [hold, run_bind, run_store]
    simp only
    split at hleft
    · next hcond =>
      rw [if_pos hcond]
      rw [Bool.and_eq_true, beq_iff_eq] at hcond
      rcases run_work arrange w d s with ⟨k, ks, -, hwork⟩ | ⟨n, k, ks, -, -, -, hwork⟩ |
        ⟨n, -, -, -, hwork⟩ | ⟨htodo, htries, hwork⟩ <;> rw [hwork]
      · exact .inl (hasDraft_copyOne k { w with todo := ks } d s)
      · exact .inl (hasDraft_copyOne k { w with todo := [], tries := n } d _)
      · exact .inl ⟨_, rfl, rfl⟩
      · right
        have h₀ : Store.Anchored c D P d g { s with pending := none } :=
          h.congr rfl rfl h.within
        obtain ⟨herror, hok⟩ := Store.gone_of_fill h₀ (hcurrent hcond.2.symm)
          (fun hfill => hleft ⟨htodo, htries, hfill⟩)
        rw [run_finish]
        rcases hc : (w.draft.copyAll { s with pending := none }
          (arrange (s.pending.getD []).eraseDups)).result d with ⟨e | dr, d'⟩
        · exact herror e d' hc
        · exact hok dr d' hc
    · next hcond =>
      rw [if_neg hcond, run_bind, run_abandon]
      exact .inr (gone_of_abandon h.rooted hpath hleft)
  | stopping generation draft =>
    right
    rw [hold, run_bind, run_store]
    simp only
    rw [run_bind, run_setStore]
    cases draft with
    | none => exact hnone.resolve_left (by simp [HasDraft, draft?])
    | some dr =>
      simp only
      rw [run_bind, run_abandon]
      exact gone_of_abandon h.rooted (hp dr rfl) fun hstuck => hleft ⟨dr, rfl, hstuck⟩

end Pass

/-! ### Events -/

namespace Region

variable {p q q' : World} {r r' : Region} {event : Event} {events : List Event}

/-- An event that leaves a draft behind: the hold of a pass, or a shutdown that compacts. -/
inductive LeavesDraft : World → Event → World → Prop where
  | held {arrange : List Key → List Key} (harrange : ∀ l, (arrange l).Perm l) {p : World}
      {pass : Pass} (hpass : p.2.pass = some pass)
      (h : pass.LeavesDraft arrange p.2.config.draftFile p.2.alive p.1 p.2.store) :
      LeavesDraft p (.held (p.2.compactions < ((holdPass arrange).run p).2.2.compactions))
        ((holdPass arrange).run p).2
  | shutDown {p : World} (hopen : p.2.closed = false) (halive : p.2.alive)
      (hidle : p.2.compacting = false)
      (h : Store.CompactionLeavesDraft p.2.config.draftFile p.1 p.2.store) :
      LeavesDraft p .shutDown (Region.shutDown.result p).2

/-- Something lies where the draft of the region does. -/
def Littered (p : World) : Prop := p.1.holds p.2.config.draftFile

theorem Anchored.littered_iff (h : Anchored D P p.1 g p.2) :
    Littered p ↔ p.1.at? (D, p.2.config.draftName) ≠ none := by
  rw [Littered, h.store.rooted.draft.lodged.holds_eq, Option.isSome_iff_ne_none]

/-! ### Calls -/

/-- An action touches no name but those of the two files of the region. -/
def KeepsToItself (x : Change α) (d : FileSystem) (r : Region) : Prop :=
  Effect (Store.IsOwnName r.config) d d.contents (x.result (d, r)).2.1 (x.result (d, r)).2.1.contents

theorem disk_requireAlive_bind (f : Unit → Change α) (d : FileSystem) (r : Region) :
    ((requireAlive >>= f).result (d, r)).2.1 =
      if r.alive then ((f ()).result (d, r)).2.1 else d := by
  rw [Action.result_bind]
  cases ha : r.alive with
  | true =>
    rw [result_requireAlive ha]
    rfl
  | false =>
    rw [result_requireAlive_dead ha]
    rfl

/-- What a region that is alive does to the files, its store does. -/
theorem keepsToItself_of_store (hd : d.Orderly) {x : Change α} {y : Store.Change β} {s' : Store}
    (hx : (x.result (d, r)).2.1 = if r.alive then (y.result (d, r.store)).2.1 else d)
    (hy : Store.Remains r.config D P d g r.store (y.result (d, r.store)).2.1 g' s') :
    KeepsToItself x d r := by
  rw [KeepsToItself, hx]
  split
  · exact hy.effect.alone
  · exact (hd.still_refl d.contents).of_still

theorem keepsToItself_put (h : Anchored D P d g r) (e : Element) : KeepsToItself (put e) d r := by
  obtain ⟨g', hremains⟩ := (Store.shadowed_write h.store e.key e.encode).post
  refine keepsToItself_of_store h.store.orderly ?_ hremains
  rw [put, disk_requireAlive_bind, Action.result_bind, result_onStore]
  rcases (Store.write e.key e.encode).result (d, r.store) with ⟨err | reused, q⟩
  · rfl
  · cases reused <;> rfl

theorem keepsToItself_reset (h : Anchored D P d g r) : KeepsToItself Region.reset d r := by
  obtain ⟨g', hremains, -⟩ := (Store.shadowed_reset h.store).post
  refine keepsToItself_of_store h.store.orderly ?_ hremains
  rw [Region.reset, disk_requireAlive_bind, result_onStore]

theorem keepsToItself_saveKeys (h : Anchored D P d g r) : KeepsToItself Region.saveKeys d r := by
  obtain ⟨g', hremains, -⟩ := (Store.shadowed_saveKeys h.store).post
  refine keepsToItself_of_store h.store.orderly ?_ hremains
  rw [Region.saveKeys, disk_requireAlive_bind, result_onStore]

theorem keepsToItself_lookup (h : Anchored D P d g r) (k : Key) : KeepsToItself (lookup k) d r := by
  unfold KeepsToItself
  cases ha : r.alive with
  | false =>
    rw [result_lookup_dead ha]
    exact (h.store.orderly.still_refl d.contents).of_still
  | true =>
    obtain ⟨g', hstill⟩ := (Store.shadowed_read h.store k).post
    rw [lookup, Action.result_bind, FileAction.result_value]
    simp only [ha, if_true]
    rw [Action.result_bind, Action.result_attempt, FileAction.result_onDisk]
    rcases hr : (r.store.read k).result d with ⟨e | _ | e, d'⟩ <;> rw [hr] at hstill <;>
      exact hstill.of_still.alone

theorem keepsToItself_get (h : Anchored D P d g r) (k : Key) :
    KeepsToItself (Region.get k) d r := by
  have hlooked := keepsToItself_lookup h k
  obtain ⟨g₁, h₁⟩ := (shadowed_lookup h k).post
  unfold KeepsToItself at hlooked ⊢
  rw [result_get]
  rcases hr : (lookup k).result (d, r) with ⟨e | found, d₁, r₁⟩ <;> rw [hr] at hlooked h₁
  · have hreset := keepsToItself_reset h₁.anchored
    rw [KeepsToItself, h₁.config] at hreset
    exact hlooked.trans hreset
  · exact hlooked

theorem keepsToItself_perform (h : Anchored D P d g r) (call : Call α) :
    KeepsToItself call.perform d r := by
  cases call with
  | put e => exact keepsToItself_put h e
  | get k => exact keepsToItself_get h k
  | reset => exact keepsToItself_reset h
  | saveKeys => exact keepsToItself_saveKeys h
  | _ => exact (h.store.orderly.still_refl d.contents).of_still

/-! ### One event -/

/-- If there is a draft, the pass under way knows of it. -/
def Tidy (D : Nat) (p : World) : Prop :=
  (∃ pass, p.2.pass = some pass ∧ pass.HasDraft) ∨ p.1.at? (D, p.2.config.draftName) = none

/-- What leaves the pass and the draft alone. -/
theorem Tidy.of_stays (h : Tidy D p) (hstays : Stays D P p.2 q.1 g q.2)
    (hself : q.1.at? (D, p.2.config.draftName) = p.1.at? (D, p.2.config.draftName)) :
    Tidy D q := by
  rcases h with ⟨pass, hpass, hhas⟩ | hnone
  · exact .inl ⟨pass, hstays.pass pass hpass, hhas⟩
  · right
    rw [hstays.config, hself, hnone]

theorem tidy_of_openAt (ha : Anchored D P d' g r) (hconfig : r.config = c) (hd : d.Orderly)
    (ho : (Region.openAt c).result d = (.ok r, d')) : Tidy D (d', r) := by
  obtain ⟨D', g', ha', -, -, hnone, -⟩ := anchored_of_openAt hd ho
  right
  have hspot := ha.store.rooted.draft.lodged.unique ha'.store.rooted.draft.lodged
  show d'.at? (D, r.config.draftName) = none
  rw [hspot, hconfig, hnone]

theorem tidy_hold (h : Anchored D P d g r) (ht : Tidy D (d, r))
    (harrange : ∀ l, (arrange l).Perm l)
    (hleft : ¬ LeavesDraft (d, r)
      (.held (r.compactions < ((holdPass arrange).run (d, r)).2.2.compactions))
      ((holdPass arrange).run (d, r)).2) : Tidy D ((holdPass arrange).run (d, r)).2 := by
  cases hpass : r.pass with
  | none =>
    rw [holdPass_none arrange hpass]
    exact ht
  | some pass =>
    have hnone : pass.HasDraft ∨ d.at? (D, r.config.draftName) = none := by
      refine ht.imp_left ?_
      rintro ⟨pass', hpass', hhas⟩
      cases hpass.symm.trans hpass'
      exact hhas
    have hgone := Pass.gone_of_hold h.store (h.bound pass hpass)
      (fun hl => hleft (.held (p := (d, r)) harrange hpass hl)) hnone
    rcases hr : (pass.hold arrange r.config.draftFile r.alive).run (d, r.store) with
      ⟨pass' | installed, d', s'⟩ <;> rw [hr] at hgone
    · rw [holdPass_next hpass hr]
      refine hgone.imp_left ?_
      rintro ⟨_, ⟨⟩, hhas⟩
      exact ⟨pass', rfl, hhas⟩
    · rw [holdPass_over hpass hr]
      exact .inr (hgone.resolve_left nofun)

theorem gone_of_compactForGood (h : Anchored D P d g r)
    (hleft : r.alive → r.compacting = false →
      ¬ Store.CompactionLeavesDraft r.config.draftFile d r.store)
    (hnone : d.at? (D, r.config.draftName) = none) :
    (compactForGood.result (d, r)).2.1.at? (D, r.config.draftName) = none := by
  rw [compactForGood, Action.result_bind, FileAction.result_value]
  simp only
  split
  · next hcond =>
    rw [Bool.and_eq_true, Bool.not_eq_true'] at hcond
    have hgone := Store.gone_of_compactAtOnce h.store (hleft hcond.1 hcond.2) hnone
    rw [Action.result_bind, FileAction.result_change]
    simp only
    rw [Action.result_bind, Action.result_attempt, result_onStore]
    simp only
    rcases hr : (Store.compactAtOnce r.config.draftFile).result (d, r.store) with ⟨e | u, q⟩ <;>
      rw [hr] at hgone <;> exact hgone
  · exact hnone

theorem world_closing (p : World) :
    ((do
      let outcome ← (onStore Store.close).attempt
      FileAction.change fun r => { r with alive := false }
      outcome : Change Unit).result p).2 =
        (((onStore Store.close).result p).2.1,
          { ((onStore Store.close).result p).2.2 with alive := false }) := by
  rw [Action.result_bind, Action.result_attempt]
  simp only
  rw [Action.result_bind, FileAction.result_change]
  simp only
  rw [Action.result_liftM]

/-- A shutdown that does not compact saves the keys; then the files are closed. -/
theorem world_shutDown (hclosed : r.closed = false) {compacted : Bool}
    (hr : compactForGood.result (d, { r with closed := true }) = (.ok compacted, q)) :
    (Region.shutDown.result (d, r)).2 =
      let q' := ((onStore Store.close).result
        (if compacted then q else ((onStore Store.saveKeys).result q).2)).2
      (q'.1, { q'.2 with alive := false }) := by
  rw [Region.shutDown, Action.result_bind, FileAction.result_value]
  simp only [hclosed, Bool.false_eq_true, if_false]
  rw [Action.result_bind, FileAction.result_change]
  simp only
  rw [Action.result_bind, hr]
  cases compacted with
  | true => exact world_closing q
  | false =>
    simp only [Bool.not_false, if_true, Bool.false_eq_true, if_false]
    rw [Action.result_bind, Action.result_regardless]
    exact world_closing _

/-- What a store does with its own files has nothing to do with the draft. -/
theorem gone_of_remains {s : Store} (h : Anchored D P d g r)
    (hs : Store.Remains r.config D P d g r.store d' g' s)
    (hnone : d.at? (D, r.config.draftName) = none) :
    Anchored D P d' g' { r with store := s } ∧ d'.at? (D, r.config.draftName) = none := by
  refine ⟨?_, (hs.effect.nodes _ (Store.not_isOwnName_draftName _)).trans hnone⟩
  exact (h.step (t := { r with store := s }) ⟨rfl, rfl, rfl, rfl, rfl⟩ hs).anchored

theorem gone_of_shutDown (h : Anchored D P d g r)
    (hleft : ¬ LeavesDraft (d, r) .shutDown (Region.shutDown.result (d, r)).2)
    (hnone : d.at? (D, r.config.draftName) = none) :
    (Region.shutDown.result (d, r)).2.1.at? (D, r.config.draftName) = none := by
  cases hclosed : r.closed with
  | true =>
    rw [Region.shutDown, Action.result_bind, FileAction.result_value]
    simp only [hclosed, if_true]
    exact hnone
  | false =>
    have h₀ : Anchored D P d g { r with closed := true } := h.anyway
    have hgone := gone_of_compactForGood h₀
      (fun halive hidle hl => hleft (.shutDown (p := (d, r)) hclosed halive hidle hl)) hnone
    obtain ⟨g₁, ⟨compacted, hok⟩, h₁⟩ := (shadowed_compactForGood h₀).post
    rcases hr : compactForGood.result (d, { r with closed := true }) with ⟨a, d₁, r₁⟩
    rw [hr] at hgone hok h₁
    obtain rfl := hok
    rw [world_shutDown hclosed hr]
    have ha := h₁.anchored
    rw [show r.config = r₁.config from h₁.config.symm] at hgone ⊢
    cases compacted with
    | true =>
      obtain ⟨g₂, hs⟩ := (Store.shadowed_close ha.store).post
      rw [if_pos rfl, result_onStore]
      exact (gone_of_remains ha hs hgone).2
    | false =>
      obtain ⟨g₂, hs, -⟩ := (Store.shadowed_saveKeys ha.store).post
      obtain ⟨ha₂, hgone₂⟩ := gone_of_remains ha hs hgone
      obtain ⟨g₃, hs₃⟩ := (Store.shadowed_close ha₂.store).post
      rw [if_neg Bool.false_ne_true, result_onStore, result_onStore]
      exact (gone_of_remains ha₂ hs₃ hgone₂).2

theorem kept_by_shutDown (h : Anchored D P p.1 g p.2) :
    (Region.shutDown.result p).2.2.config = p.2.config ∧
      ∀ pass, p.2.pass = some pass → (Region.shutDown.result p).2.2.pass = some pass := by
  obtain ⟨g', hstays⟩ := (shadowed_shutDown h).post
  split at hstays
  · exact ⟨hstays.config, hstays.pass⟩
  · exact ⟨hstays.config, hstays.pass⟩

theorem Trial.tidy (h : Anchored D P p.1 g p.2) (ht : Trial p event q) (hp : Tidy D p)
    (hleft : ¬ LeavesDraft p event q) : Tidy D q := by
  obtain ⟨g', -, hleads⟩ := ht.shadowed h
  have hown := Store.not_isOwnName_draftName p.2.config
  cases ht with
  | retried hvain hname hpath hopen =>
    obtain ⟨g₁, -, hr₁⟩ := hvain.shadowed h.store.rooted
    obtain ⟨-, d₁, d₂, -, -, -, hnew⟩ := openAt_stages hopen
    exact tidy_of_openAt hleads.anchored (by rw [hnew]) hr₁.orderly hopen
  | step hs =>
    cases hs with
    | called call p =>
      obtain ⟨g₁, hstays⟩ := (shadowed_perform h call).post
      exact hp.of_stays hstays ((keepsToItself_perform h call).nodes _ hown)
    | looked k p =>
      obtain ⟨g₁, hstays⟩ := (shadowed_lookup h k).post
      exact hp.of_stays hstays ((keepsToItself_lookup h k).nodes _ hown)
    | held harrange p => exact tidy_hold h hp harrange hleft
    | died d r => exact hp
    | shutDown p =>
      obtain ⟨hconfig, hpass⟩ := kept_by_shutDown h
      rcases hp with ⟨pass, hp, hhas⟩ | hnone
      · exact .inl ⟨pass, hpass pass hp, hhas⟩
      · right
        rw [hconfig]
        exact gone_of_shutDown h hleft hnone
    | reopened hname hpath hopen =>
      obtain ⟨-, d₁, d₂, -, -, -, hnew⟩ := openAt_stages hopen
      exact tidy_of_openAt hleads.anchored (by rw [hnew]) h.store.orderly hopen

/-! ### Runs -/

/-- Some event of a run has left a draft behind, and it was there ever since. -/
def LeftSince (p : World) (events : List Event) (q : World) : Prop :=
  ∃ before event after q₁ q₂, events = before ++ event :: after ∧ Run Trial p before q₁ ∧
    LeavesDraft q₁ event q₂ ∧ Littered q₂ ∧
    Run (fun p event q => Trial p event q ∧ Littered q) q₂ after q

theorem LeftSince.snoc (h : LeftSince p events q) (ht : Trial q event q') (hl : Littered q') :
    LeftSince p (events ++ [event]) q' := by
  obtain ⟨before, e, after, q₁, q₂, rfl, hbefore, hleft, hl₂, hafter⟩ := h
  exact ⟨before, e, after ++ [event], q₁, q₂, by simp, hbefore, hleft, hl₂, hafter.snoc ⟨ht, hl⟩⟩

/-- Whatever happens, a draft of which no pass knows was left behind. -/
theorem Run.tidy (h : Anchored D P p.1 g p.2) (hdead : p.2.closed = true → p.2.alive = false)
    (hp : Tidy D p) (hr : Run Trial p events q) : Tidy D q ∨ LeftSince p events q := by
  induction hr with
  | nil => exact .inl hp
  | @snoc q q' events event hr ht ih =>
    obtain ⟨g₁, -, hq, hdead₁⟩ := hr.shadowed h hdead
    obtain ⟨g₂, -, hleads⟩ := ht.shadowed hq
    by_cases hlittered : Littered q'
    · by_cases hleft : LeavesDraft q event q'
      · exact .inr ⟨events, event, [], q, q', rfl, hr, hleft, hlittered, .nil q'⟩
      · refine ih.imp (fun htidy => ht.tidy hq htidy hleft) fun hsince => ?_
        exact hsince.snoc ht hlittered
    · rw [hleads.anchored.littered_iff, not_not] at hlittered
      exact .inl (.inr hlittered)

/-- While no pass is under way there is no draft, whatever has failed before: unless the hold of a
pass or a shutdown has left it behind, and then it was there ever since. -/
theorem no_draft_between_passes (hd : d.Orderly)
    (ho : (Region.openAt c).result d = (.ok p.2, p.1)) (hr : Run Trial p events q)
    (hover : q.2.pass = none) : ¬ Littered q ∨ LeftSince p events q := by
  obtain ⟨D, g, h, hconfig, -, hnone, -⟩ := anchored_of_openAt hd ho
  have hdead : p.2.closed = true → p.2.alive = false := by
    obtain ⟨-, d₁, d₂, -, -, -, hnew⟩ := openAt_stages ho
    rw [hnew]
    nofun
  have hp : Tidy D p := by
    right
    rw [hconfig, hnone]
  refine (hr.tidy h hdead hp).imp_left fun htidy => ?_
  obtain ⟨g', -, hq, -⟩ := hr.shadowed h hdead
  rw [hq.littered_iff, not_not]
  refine htidy.resolve_left ?_
  rintro ⟨pass, hpass, -⟩
  cases hover.symm.trans hpass

/-- A pass that cannot read a record takes its draft away. -/
theorem draft_of_failed_copy_is_gone : ∃ p q : World,
    (Region.openAt (roomFor 2)).result (Store.failing [10] .empty) = (.ok p.2, p.1) ∧
    Run Trial p [.called (.put (note "x" [1])) (.ok ()), .called .requestCompaction (.ok true),
      .held false, .held false, .held false] q ∧ q.2.pass = none ∧ ¬ Littered q ∧
    (¬ Littered q ∨ LeftSince p [.called (.put (note "x" [1])) (.ok ()),
      .called .requestCompaction (.ok true), .held false, .held false, .held false] q) := by
  have h : ((opened? (roomFor 2) (Store.failing [10] .empty)).map fun p =>
      let q₁ := (Call.put (note "x" [1])).perform.result p
      let q₂ := Call.requestCompaction.perform.result q₁.2
      let q₃ := ((holdPass id).run q₂.2).2
      let q₄ := ((holdPass id).run q₃).2
      let q₅ := ((holdPass id).run q₄).2
      decide ((q₁.1 = .ok () ∧ q₂.1 = .ok true) ∧
        (decide (q₂.2.2.compactions < q₃.2.compactions) = false ∧
          decide (q₃.2.compactions < q₄.2.compactions) = false ∧
          decide (q₄.2.compactions < q₅.2.compactions) = false) ∧
        q₅.2.pass.isNone ∧ q₅.1.holds q₅.2.config.draftFile = false)) = some true := by
    decide +kernel
  obtain ⟨p, hp, h⟩ := Option.map_eq_some_iff.1 h
  obtain ⟨⟨h₁, h₂⟩, ⟨h₃, h₄, h₅⟩, hpass, hgone⟩ := of_decide_eq_true h
  have hid : ∀ l : List Key, (id l).Perm l := fun l => .refl l
  have hplan := Store.orderly_failing empty_healthy [10]
  have ho := opened?_eq_some_iff.1 hp
  have hr := (((((Run.nil p).ask _ h₁).ask _ h₂).hold hid h₃).hold hid h₄).hold hid h₅
  have hover := Option.isNone_iff_eq_none.1 hpass
  refine ⟨p, _, ho, hr, hover, ?_, no_draft_between_passes hplan ho hr hover⟩
  rw [Littered, hgone]
  exact Bool.false_ne_true

/-- If the draft cannot get the name of the data file, the region is reset and goes on, and the
draft is still there when the pass is over. Nothing else has failed. -/
theorem draft_outlives_its_pass : ∃ (p q q' : World) (w : Work) (f : RecordFile) (d : FileSystem)
    (q₁ : FileSystem × Store),
    (Region.openAt (roomFor 2)).result (Store.failing [16] .empty) = (.ok p.2, p.1) ∧
    Run Trial p [.called (.put (note "x" [1])) (.ok ()), .called .requestCompaction (.ok true),
      .held false, .held false, .held false] q ∧ q.2.pass = some (.running w) ∧
    (RecordFile.close.startingWith w.draft.file).result q.1 = (.ok ((), f), d) ∧
    ((do
      let _ ← FileAction.onDisk .file (sizeAt w.draft.file.path).lift
      Store.onKeys RecordFile.truncate
      Store.onData RecordFile.close : Store.Change Unit).result
        (d, { q.2.store with pending := none })) = (.ok (), q₁) ∧
    ((rename w.draft.file.path q.2.store.dataFile.path).result q₁.1).1 = .error .deviceFailure ∧
    Trial q (.held false) q' ∧ q'.2.pass = none ∧ q'.2.alive ∧ q'.2.store.generation = 1 ∧
    Littered q' := by
  have h : ((opened? (roomFor 2) (Store.failing [16] .empty)).bind fun p =>
      let q₁ := (Call.put (note "x" [1])).perform.result p
      let q₂ := Call.requestCompaction.perform.result q₁.2
      let q₃ := ((holdPass id).run q₂.2).2
      let q₄ := ((holdPass id).run q₃).2
      let q := ((holdPass id).run q₄).2
      let q' := ((holdPass id).run q).2
      q.2.work?.bind fun w =>
        (answer? ((RecordFile.close.startingWith w.draft.file).result q.1)).map fun closed =>
          let moving := (do
            let _ ← FileAction.onDisk .file (sizeAt w.draft.file.path).lift
            Store.onKeys RecordFile.truncate
            Store.onData RecordFile.close : Store.Change Unit).result
              (closed.2, { q.2.store with pending := none })
          decide ((q₁.1 = .ok () ∧ q₂.1 = .ok true) ∧
            (decide (q₂.2.2.compactions < q₃.2.compactions) = false ∧
              decide (q₃.2.compactions < q₄.2.compactions) = false ∧
              decide (q₄.2.compactions < q.2.compactions) = false) ∧
            moving.1 = .ok () ∧
            ((rename w.draft.file.path q.2.store.dataFile.path).result moving.2.1).1 =
              .error .deviceFailure ∧
            decide (q.2.compactions < q'.2.compactions) = false ∧ q'.2.pass.isNone ∧ q'.2.alive ∧
            q'.2.store.generation = 1 ∧ q'.1.holds q'.2.config.draftFile)) = some true := by
    decide +kernel
  obtain ⟨p, hp, h⟩ := Option.bind_eq_some_iff.1 h
  obtain ⟨w, hw, h⟩ := Option.bind_eq_some_iff.1 h
  obtain ⟨⟨⟨u, f⟩, d⟩, hclose, h⟩ := Option.map_eq_some_iff.1 h
  obtain ⟨⟨h₁, h₂⟩, ⟨h₃, h₄, h₅⟩, hmoving, hrename, h₆, hover, halive, hgen, hlittered⟩ :=
    of_decide_eq_true h
  have hid : ∀ l : List Key, (id l).Perm l := fun l => .refl l
  have ho := opened?_eq_some_iff.1 hp
  have hr := (((((Run.nil p).ask _ h₁).ask _ h₂).hold hid h₃).hold hid h₄).hold hid h₅
  exact ⟨p, _, _, w, f, d, _, ho, hr, work?_eq_some_iff.1 hw, answer?_eq_some_iff.1 hclose,
    Prod.ext hmoving rfl, hrename, .hold hid h₆, Option.isNone_iff_eq_none.1 hover, halive, hgen,
    hlittered⟩

end Region

end DiskTier
