import DiskTier.Proofs.Crash
import DiskTier.Proofs.Paired.Region

/-!
# Passes that are abandoned

A pass that does not come to replace the data file leaves no trace in its region. Until then a hold
changes the draft on disk and what is collected in memory, and nothing else; so the region stays
level with one that had no pass, whatever clients do to both in the meantime.

The two runs do not try their operations at the same time, so failures are not planned by the number
of an operation. Each turn has a plan of its own, which begins with its first operation.
-/

namespace DiskTier

open FileSystem

variable {α : Type} {c : Config} {D : Nat} {P : Key → Prop} {d d' : FileSystem} {g g' : Shade}
  {s s' : Store} {dr : Draft} {arrange : List Key → List Key}

/-! ### Holds that do not touch the store -/

/-- The last keys are copied and the draft is closed, so that the data file is replaced. -/
def Store.comesToReplace (dr : Draft) (keys : List Key) (d : FileSystem) (s : Store) : Bool :=
  match (dr.copyAll s keys).result d with
  | (.error _, _) => false
  | (.ok dr', d') => (RecordFile.close.result (d', dr'.file)).1.isOk

/-- A hold of the pass comes to replace the data file. -/
def Pass.comesToReplace (arrange : List Key → List Key) (alive : Bool) (d : FileSystem)
    (s : Store) : Pass → Bool
  | .running w =>
    alive && s.generation == w.generation && w.todo.isEmpty && w.tries == 0 &&
      Store.comesToReplace w.draft (arrange (s.pending.getD []).eraseDups) d
        { s with pending := none }
  | _ => false

/-- The store is as it was but for what it collects, and nothing on disk has changed but the
draft. -/
def Quiet (c : Config) (d : FileSystem) (g : Shade) (s : Store) (q : FileSystem × Store) : Prop :=
  (∃ pending, q.2 = { s with pending }) ∧ ∃ g', Effect (· = c.draftName) d g q.1 g'

theorem Quiet.after {pending : Option (List Key)} {q : FileSystem × Store}
    (he : Effect (· = c.draftName) d g d' g') (h : Quiet c d' g' { s with pending } q) :
    Quiet c d g s q := by
  obtain ⟨⟨pending', hs⟩, g'', he'⟩ := h
  exact ⟨⟨pending', hs⟩, g'', he.trans he'⟩

namespace Draft

theorem quiet_abandon (h : Store.Rooted c D P d g) (hpath : dr.file.path = c.draftFile) :
    Quiet c d g s ((dr.abandon.result d).2, s) := by
  obtain ⟨g', he⟩ := (shadowed_abandon (g := g) h hpath).post
  exact ⟨⟨s.pending, rfl⟩, g', he⟩

end Draft

namespace Store

open Draft

/-- A draft that cannot be closed is given up. -/
theorem quiet_installDraft (h : Anchored c D P d g s) (hpath : dr.file.path = c.draftFile)
    (hclose : (RecordFile.close.result (d, dr.file)).1.isOk = false) :
    Quiet c d g s ((installDraft dr).result (d, s)).2 := by
  obtain ⟨g₁, hstill, -⟩ := (RecordFile.shadowed_close (g := g) h.orderly dr.file).post
  rw [result_installDraft]
  rcases hc : RecordFile.close.result (d, dr.file) with ⟨e | u, d₁, f⟩ <;> rw [hc] at hclose hstill
  · have hpath' : { dr with file.handle := none }.file.path = c.draftFile := hpath
    exact Quiet.after hstill.of_still (quiet_abandon (h.still hstill).rooted hpath')
  · cases hclose

/-- To copy the last keys without coming to replace the data file. -/
theorem quiet_fill (h : Anchored c D P d g s) (hd : Drafted c D d g dr) {keys : List Key}
    (hstop : comesToReplace dr keys d s = false) :
    (∀ e d', (dr.copyAll s keys).result d = (.error e, d') →
      Quiet c d g s ((dr.abandon.result d').2, s)) ∧
    ∀ dr' d', (dr.copyAll s keys).result d = (.ok dr', d') →
      Quiet c d g s ((installDraft dr').result (d', s)).2 := by
  obtain ⟨g', he, hd'⟩ := (shadowed_copyAll h hd keys).post
  unfold comesToReplace at hstop
  refine ⟨fun e d' hr => ?_, fun dr' d' hr => ?_⟩ <;> rw [hr] at he hd' hstop
  · exact Quiet.after he (quiet_abandon (h.frame he).rooted hd.path)
  · exact Quiet.after he (quiet_installDraft (h.frame he) (hd' dr' rfl).path hstop)

end Store

namespace Pass

open Draft

theorem quiet_copyOne {w : Work} (h : Store.Anchored c D P d g s) (hd : Drafted c D d g w.draft)
    (k : Key) : Quiet c d g s ((copyOne k w).run (d, s)).2 := by
  obtain ⟨g', he, -⟩ := (shadowed_copy h hd k).post
  rw [run_copyOne]
  rcases hr : (w.draft.copy s k).result d with ⟨e | dr, d'⟩ <;> rw [hr] at he
  · exact ⟨⟨s.pending, rfl⟩, g', he⟩
  · exact ⟨⟨s.pending, rfl⟩, g', he⟩

/-- A hold that does not come to replace the data file. -/
theorem quiet_hold (h : Store.Anchored c D P d g s) {alive : Bool} {pass : Pass}
    (hp : Bound c D d g s pass) (hstop : pass.comesToReplace arrange alive d s = false) :
    Quiet c d g s ((pass.hold arrange c.draftFile alive).run (d, s)).2 := by
  have hstill : Effect (· = c.draftName) d g d g := (h.orderly.still_refl g).of_still
  have hsame : Quiet c d g s (d, s) := ⟨⟨s.pending, rfl⟩, g, hstill⟩
  cases pass with
  | requested =>
    rw [hold]
    split
    · obtain ⟨g', he, -⟩ := (shadowed_begin h.rooted).post
      rw [run_start]
      rcases hb : (Draft.begin c.draftFile).result d with ⟨e | dr, d'⟩ <;> rw [hb] at he
      · exact ⟨⟨some [], rfl⟩, g', he⟩
      · exact ⟨⟨some [], rfl⟩, g', he⟩
    · exact hsame
  | running w =>
    obtain ⟨hpath, -, hcurrent⟩ := hp
    rw [hold, run_bind, run_store]
    simp only
    split
    · next hcond =>
      have hgen := hcond
      rw [Bool.and_eq_true, beq_iff_eq] at hgen
      have hd := hcurrent hgen.2.symm
      rcases run_work arrange w d s with ⟨k, ks, -, hwork⟩ | ⟨n, k, ks, -, -, -, hwork⟩ |
        ⟨n, -, -, -, hwork⟩ | ⟨htodo, htries, hwork⟩ <;> rw [hwork]
      · exact quiet_copyOne (w := { w with todo := ks }) h hd k
      · have h₁ : Store.Anchored c D P d g { s with pending := some ks } :=
          h.congr rfl rfl h.within
        exact Quiet.after hstill
          (quiet_copyOne (w := { w with todo := [], tries := n }) h₁ hd k)
      · exact hsame
      · have h₀ : Store.Anchored c D P d g { s with pending := none } :=
          h.congr rfl rfl h.within
        have hfill : Store.comesToReplace w.draft (arrange (s.pending.getD []).eraseDups) d
            { s with pending := none } = false := by
          simpa [comesToReplace, hcond, htodo, htries] using hstop
        obtain ⟨herror, hok⟩ := Store.quiet_fill h₀ hd hfill
        rw [run_finish]
        rcases hc : (w.draft.copyAll { s with pending := none }
          (arrange (s.pending.getD []).eraseDups)).result d with ⟨e | dr, d'⟩
        · exact Quiet.after hstill (herror e d' hc)
        · exact Quiet.after hstill (hok dr d' hc)
    · rw [run_bind, run_abandon]
      exact quiet_abandon h.rooted hpath
  | stopping generation draft =>
    obtain ⟨pending, hs⟩ := stopCollecting_eq generation s
    rw [hold, run_bind, run_store]
    simp only
    rw [run_bind, run_setStore, hs]
    cases draft with
    | none => exact ⟨⟨pending, rfl⟩, g, hstill⟩
    | some dr =>
      simp only
      rw [run_bind, run_abandon]
      exact Quiet.after hstill (quiet_abandon h.rooted (hp dr rfl))

end Pass

namespace FileSystem

variable {plan : Nat → Option PlannedFault}

/-- From here on operations fail as `plan` says, whose first entry is for the next one. -/
def planned (plan : Nat → Option PlannedFault) (d : FileSystem) : FileSystem :=
  { d with faults := fun n => if n < d.attempts then d.faults n else plan (n - d.attempts) }

theorem Orderly.truthful_planned (h : d.Orderly) (hp : Truthful plan) :
    Truthful (d.planned plan).faults := by
  intro n fault hfault
  simp only [planned] at hfault
  split at hfault
  · exact h.truthful n fault hfault
  · exact hp _ fault hfault

theorem samePlan_planned (plan : Nat → Option PlannedFault) (d d' : FileSystem) :
    SamePlan (d.planned plan) (d'.planned plan) := by
  have hplan : ∀ (d : FileSystem) (i : Nat),
      (d.planned plan).faults ((d.planned plan).attempts + i) = plan i := by
    intro d i
    show (if d.attempts + i < d.attempts then _ else plan (d.attempts + i - d.attempts)) = _
    rw [if_neg (Nat.not_lt.2 (Nat.le_add_right _ _)), Nat.add_sub_cancel_left]
  intro i
  rw [hplan, hplan]

/-- What is to come, counted from here on, is a plan. -/
theorem planned_self (d : FileSystem) : d.planned (fun i => d.faults (d.attempts + i)) = d := by
  have hfaults : (d.planned fun i => d.faults (d.attempts + i)).faults = d.faults := by
    funext n
    simp only [planned]
    split
    · rfl
    · next hle => rw [Nat.add_sub_cancel' (Nat.not_lt.1 hle)]
  rw [planned] at hfaults ⊢
  simp only at hfaults
  rw [hfaults]

theorem truthful_none : Truthful fun _ => none := nofun

theorem Effect.calmed {N : String → Prop} (h : Effect N d g d' g') :
    Effect N d.calmed g d'.calmed g' :=
  ⟨h.orderly.replan truthful_none, h.nodes, h.contents, h.directories, h.kept, rfl⟩

end FileSystem

namespace Region

variable {S : Store.Sides} {p p' q q' : World} {r r' t : Region} {events : List Event}

/-! ### Turns -/

/-- What takes the lock once: a call, the first half of a read, or the pass under way. -/
inductive Deed : Type 1 where
  | ask {α : Type} (call : Call α)
  | look (key : Key)
  | hold (arrange : List Key → List Key) (harrange : ∀ l, (arrange l).Perm l)

/-- What happens, and what it leads to. -/
def Deed.perform (p : World) : Deed → Event × World
  | .ask call => (.called call (call.perform.result p).1, (call.perform.result p).2)
  | .look k => (.looked k ((lookup k).result p).1, ((lookup k).result p).2)
  | .hold arrange _ =>
    (.held (p.2.compactions < ((holdPass arrange).run p).2.2.compactions),
      ((holdPass arrange).run p).2)

theorem Deed.step (p : World) (deed : Deed) : Step p (deed.perform p).1 (deed.perform p).2 := by
  cases deed with
  | ask call => exact .called call p
  | look k => exact .looked k p
  | hold arrange harrange => exact .held harrange p

/-- Whether it is for a client of the store, not for the pass. -/
def Deed.concernsStore : Deed → Bool
  | .ask call => call.concernsStore
  | .look _ => true
  | .hold _ _ => false

def Event.concernsStore : Event → Bool
  | .called call _ => call.concernsStore
  | .looked _ _ => true
  | _ => false

theorem Deed.concernsStore_perform (p : World) (deed : Deed) :
    (deed.perform p).1.concernsStore = deed.concernsStore := by
  cases deed <;> rfl

/-- A deed, and which of its operations on files are going to fail. -/
structure Turn where
  deed : Deed
  plan : Nat → Option PlannedFault
  truthful : Truthful plan

namespace Turn

def play (t : Turn) (p : World) : Event × World := t.deed.perform (p.1.planned t.plan, p.2)

/-- The turn holds the pass, which comes to replace the data file. -/
def replaces (t : Turn) (p : World) : Bool :=
  match t.deed, p.2.pass with
  | .hold arrange _, some pass =>
    pass.comesToReplace arrange p.2.alive (p.1.planned t.plan) p.2.store
  | _, _ => false

end Turn

/-- Turns one after the other. -/
def play : List Turn → World → List Event × World
  | [], p => ([], p)
  | t :: ts, p =>
    let (event, q) := t.play p
    let (events, q') := play ts q
    (event :: events, q')

/-- At one of the turns the pass comes to replace the data file. -/
def replaces : List Turn → World → Bool
  | [], _ => false
  | t :: ts, p => t.replaces p || replaces ts (t.play p).2

/-- The turns of clients. -/
def ofClients (turns : List Turn) : List Turn := turns.filter (·.deed.concernsStore)

/-! ### One turn -/

/-- Between two turns: the regions are level but for the failures that are to come. -/
structure Rest (c : Config) (S : Store.Sides) (p p' : World) : Prop where
  level : Level c S (p.1.calmed, p.2) (p'.1.calmed, p'.2)
  left : p.1.Orderly
  right : p'.1.Orderly

theorem Level.rest (h : Level c S p p') : Rest c S p p' :=
  ⟨h.replan truthful_none truthful_none fun _ => rfl, h.store.abreast.left, h.store.abreast.right⟩

/-- During a turn the same operations fail. -/
theorem Rest.planned (h : Rest c S p p') (t : Turn) :
    Level c S (p.1.planned t.plan, p.2) (p'.1.planned t.plan, p'.2) :=
  h.level.replan (h.left.truthful_planned t.truthful) (h.right.truthful_planned t.truthful)
    (samePlan_planned t.plan p.1 p'.1)

/-- A turn of a client, taken on both sides. -/
theorem Rest.play_client {t : Turn} (h : Rest c S p p') (ht : t.deed.concernsStore) :
    (t.play p').1 = (t.play p).1 ∧ Rest c S (t.play p).2 (t.play p').2 := by
  have hlevel := h.planned t
  obtain ⟨deed, plan, htruthful⟩ := t
  cases deed with
  | ask call =>
    obtain ⟨hsame, hafter⟩ := hlevel.paired_perform call ht
    exact ⟨congrArg (Event.called call) hsame, hafter.rest⟩
  | look k =>
    obtain ⟨hsame, hafter⟩ := hlevel.paired_lookup k
    exact ⟨congrArg (Event.looked k) hsame, hafter.rest⟩
  | hold arrange harrange => cases ht

/-- Turns of clients, taken on both sides. -/
theorem Rest.play_clients {turns : List Turn} (h : Rest c S p p')
    (hturns : ∀ t ∈ turns, t.deed.concernsStore) :
    (play turns p').1 = (play turns p).1 ∧ Rest c S (play turns p).2 (play turns p').2 := by
  induction turns generalizing p p' with
  | nil => exact ⟨rfl, h⟩
  | cons t ts ih =>
    obtain ⟨hsame, hrest⟩ := h.play_client (hturns t List.mem_cons_self)
    obtain ⟨hevents, hend⟩ := ih hrest fun u hu => hturns u (List.mem_cons_of_mem t hu)
    exact ⟨congrArg₂ List.cons hsame hevents, hend⟩

/-- What a hold leaves alone stays level. -/
theorem Rest.quiet {e : FileSystem} (h : Rest c S (d, r) p') (hq : Quiet c d g r.store (e, s))
    (ht : t.store = s) (hconfig : t.config = r.config) (halive : t.alive = r.alive) :
    Rest c S (e, t) p' := by
  subst ht
  obtain ⟨⟨pending, hs⟩, g', he⟩ := hq
  have hlevel := h.level
  refine ⟨⟨?_, hconfig.trans hlevel.config, hlevel.config', hlevel.alive.trans halive.symm⟩,
    he.orderly, h.right⟩
  show Store.Level c S (e.calmed, t.store) _
  rw [show t.store = { r.store with pending } from hs]
  exact hlevel.store.frame he.calmed (fun _ => rfl) pending

/-- A turn of the pass, or one that asks about it, taken on one side alone. -/
theorem Rest.play_other {t : Turn} (h : Rest c S p p') (ha : Anchored D P p.1 g p.2)
    (ht : t.deed.concernsStore = false) (hr : t.replaces p = false) :
    Rest c S (t.play p).2 p' := by
  obtain ⟨d, r⟩ := p
  obtain ⟨deed, plan, htruthful⟩ := t
  have hp : Anchored D P (d.planned plan) g r :=
    ha.replan (ha.store.orderly.truthful_planned htruthful)
  have hplanned : Rest c S (d.planned plan, r) p' := ⟨h.level, hp.store.orderly, h.right⟩
  have hsame : Quiet c (d.planned plan) g r.store (d.planned plan, r.store) :=
    ⟨⟨r.store.pending, rfl⟩, g, (hp.store.orderly.still_refl g).of_still⟩
  cases deed with
  | look k => cases ht
  | ask call =>
    cases call with
    | stats => exact hplanned
    | requestCompaction =>
      have hc := changes_requestCompaction r
      exact hplanned.quiet hsame (requestCompaction_eq r).1 hc.config hc.alive
    | _ => cases ht
  | hold arrange harrange =>
    show Rest c S ((holdPass arrange).run (d.planned plan, r)).2 p'
    cases hpass : r.pass with
    | none =>
      rw [holdPass_none arrange hpass]
      exact hplanned
    | some pass =>
      have hstop : pass.comesToReplace arrange r.alive (d.planned plan) r.store = false := by
        simpa only [Turn.replaces, hpass] using hr
      obtain rfl : r.config = c := h.level.config
      have hquiet := Pass.quiet_hold hp.store (hp.bound pass hpass) hstop
      rcases hrun : (pass.hold arrange r.config.draftFile r.alive).run (d.planned plan, r.store)
        with ⟨progress, e, s⟩
      rw [hrun] at hquiet
      rcases progress with pass' | installed
      · rw [holdPass_next hpass hrun]
        exact hplanned.quiet hquiet rfl rfl rfl
      · rw [holdPass_over hpass hrun]
        exact hplanned.quiet hquiet rfl rfl rfl

/-- A turn keeps the region anchored. -/
theorem Anchored.turn (h : Anchored D P p.1 g p.2) (t : Turn) :
    ∃ P' g', Anchored D P' (t.play p).2.1 g' (t.play p).2.2 ∧
      (p.2.Attended → (t.play p).2.2.Attended) := by
  have hp := h.replan (h.store.orderly.truthful_planned t.truthful)
  obtain ⟨g', -, hleads⟩ :=
    Trial.shadowed (p := (p.1.planned t.plan, p.2)) hp (.step (t.deed.step _))
  exact ⟨_, g', hleads.anchored, hleads.attended⟩

/-! ### Many turns -/

/-- Turns of clients lead to the same whether or not the other turns are taken in between. -/
theorem Rest.play {turns : List Turn} (h : Rest c S p p') (ha : Anchored D P p.1 g p.2)
    (hr : replaces turns p = false) :
    (play (ofClients turns) p').1 = (play turns p).1.filter (·.concernsStore) ∧
      Rest c S (play turns p).2 (play (ofClients turns) p').2 := by
  induction turns generalizing p p' P g with
  | nil => exact ⟨rfl, h⟩
  | cons t ts ih =>
    obtain ⟨hnow, hlater⟩ := Bool.or_eq_false_iff.1 hr
    obtain ⟨P', g', ha', -⟩ := ha.turn t
    have hevent : (t.play p).1.concernsStore = t.deed.concernsStore :=
      t.deed.concernsStore_perform _
    cases ht : t.deed.concernsStore with
    | true =>
      obtain ⟨hsame, hrest⟩ := h.play_client ht
      obtain ⟨hevents, hend⟩ := ih hrest ha' hlater
      have hclients : ofClients (t :: ts) = t :: ofClients ts := List.filter_cons_of_pos ht
      rw [hclients]
      refine ⟨?_, hend⟩
      show (t.play p').1 :: _ = List.filter _ ((t.play p).1 :: _)
      rw [List.filter_cons_of_pos (hevent.trans ht), hsame]
      exact congrArg _ hevents
    | false =>
      obtain ⟨hevents, hend⟩ := ih (h.play_other ha ht hnow) ha' hlater
      have hclients : ofClients (t :: ts) = ofClients ts :=
        List.filter_cons_of_neg (Bool.eq_false_iff.1 ht)
      rw [hclients]
      refine ⟨?_, hend⟩
      show _ = List.filter _ ((t.play p).1 :: _)
      rw [List.filter_cons_of_neg (Bool.eq_false_iff.1 (hevent.trans ht))]
      exact hevents

theorem Anchored.attended_play (h : Anchored D P p.1 g p.2) (ha : p.2.Attended)
    (turns : List Turn) : (play turns p).2.2.Attended := by
  induction turns generalizing p P g with
  | nil => exact ha
  | cons t ts ih =>
    obtain ⟨P', g', h', hattended⟩ := h.turn t
    exact ih h' (hattended ha)

theorem play_append (turns more : List Turn) (p : World) :
    play (turns ++ more) p = ((play turns p).1 ++ (play more (play turns p).2).1,
      (play more (play turns p).2).2) := by
  induction turns generalizing p with
  | nil => rfl
  | cons t ts ih =>
    show ((t.play p).1 :: (play (ts ++ more) _).1, (play (ts ++ more) _).2) = _
    rw [ih]
    rfl

/-- An event that takes the lock once and does not end the region. -/
def Event.isTurn : Event → Bool
  | .called _ _ => true
  | .looked _ _ => true
  | .held _ => true
  | _ => false

theorem Trial.deed {event : Event} (h : Trial p event q) (hevent : event.isTurn) :
    ∃ deed : Deed, deed.perform p = (event, q) := by
  cases h with
  | retried => cases hevent
  | step hs =>
    cases hs with
    | called call p => exact ⟨.ask call, rfl⟩
    | looked k p => exact ⟨.look k, rfl⟩
    | held harrange p => exact ⟨.hold _ harrange, rfl⟩
    | _ => cases hevent

/-- Any run of calls, reads and holds is made of turns. -/
theorem Run.played (h : Anchored D P p.1 g p.2) (hdead : p.2.closed = true → p.2.alive = false)
    (hr : Run Trial p events q) (hevents : ∀ e ∈ events, e.isTurn) :
    ∃ turns, play turns p = (events, q) := by
  induction hr with
  | nil => exact ⟨[], rfl⟩
  | @snoc q q' events event hr he ih =>
    obtain ⟨turns, hturns⟩ := ih fun e hmem => hevents e (List.mem_append_left _ hmem)
    obtain ⟨deed, hdeed⟩ := he.deed (hevents event (by simp))
    obtain ⟨g', -, hq, -⟩ := hr.shadowed h hdead
    have htruthful : Truthful fun i => q.1.faults (q.1.attempts + i) := fun _ =>
      hq.store.orderly.truthful _
    refine ⟨turns ++ [⟨deed, _, htruthful⟩], ?_⟩
    have hplay : Turn.play ⟨deed, _, htruthful⟩ q = (event, q') := by
      rw [Turn.play, planned_self]
      exact hdeed
    rw [play_append, hturns]
    show (events ++ [(Turn.play ⟨deed, _, htruthful⟩ q).1],
      (Turn.play ⟨deed, _, htruthful⟩ q).2) = _
    rw [hplay]

/-! ### Two runs, one without the pass -/

/-- Both regions hold the same, in memory and on disk. -/
structure SameHoldings (p p' : World) : Prop where
  view : view p' = view p
  dataLength : p'.2.store.dataFile.length = p.2.store.dataFile.length
  keyLength : p'.2.store.keyFile.length = p.2.store.keyFile.length
  generation : p'.2.store.generation = p.2.store.generation

/-- Regions at rest agree on all but the number of resets. -/
theorem Rest.view_eq (h : Rest c S p p') :
    view p' = view p ∧ p'.2.store.dataFile.length = p.2.store.dataFile.length ∧
      p'.2.store.keyFile.length = p.2.store.keyFile.length := by
  obtain ⟨hs, hc, hc', -⟩ := h.level
  refine ⟨?_, hs.data.length, hs.keys.length⟩
  have hdata := hs.abreast.contentAt?_eq .data
  have hkeys := hs.abreast.contentAt?_eq .keys
  rw [contentAt?_calmed, contentAt?_calmed] at hdata hkeys
  rw [Region.view, Region.view, show p'.2.config = c from hc', show p.2.config = c from hc, hdata,
    hkeys, show p'.2.store.index = p.2.store.index from hs.index,
    show p'.2.store.free = p.2.store.free from hs.free]

theorem Rest.sameHoldings (h : Rest c (.alike D) p p') : SameHoldings p p' := by
  obtain ⟨hview, hdata, hkeys⟩ := h.view_eq
  have hgen : (p.2.store.generation : Int) = p'.2.store.generation + 0 := h.level.store.generation
  exact ⟨hview, hdata, hkeys, by omega⟩

theorem Anchored.rest (h : Anchored D P p.1 g p.2) : Rest p.2.config (.alike D) p p :=
  Level.rest ⟨h.store.level, rfl, rfl, rfl⟩

/-- As long as no pass comes to replace the data file, passes leave no trace. Whatever clients ask
is answered as it is without any hold, and the region holds the same. Once a pass is over, no keys
are collected. -/
theorem abandoned_pass_leaves_no_trace {d₀ : FileSystem} {turns : List Turn} (hd : d₀.Orderly)
    (ho : (Region.openAt c).result d₀ = (.ok p.2, p.1)) (hr : Run Trial p events q)
    (hleft : replaces turns q = false) :
    (play (ofClients turns) q).1 = (play turns q).1.filter (·.concernsStore) ∧
      SameHoldings (play turns q).2 (play (ofClients turns) q).2 ∧
      ((play turns q).2.2.alive → (∀ pass ∈ (play turns q).2.2.pass, pass = .requested) →
        (play turns q).2.2.store.pending = none) := by
  obtain ⟨D, P, g, hq, -, hattended⟩ := hr.anchored hd ho
  obtain ⟨hevents, hrest⟩ := hq.rest.play hq hleft
  refine ⟨hevents, hrest.sameHoldings, fun halive hover => ?_⟩
  by_contra hsome
  obtain ⟨pass, hpass, hcollects⟩ :=
    hq.attended_play hattended turns halive (Option.isSome_iff_ne_none.2 hsome)
  rw [hover pass hpass] at hcollects
  exact hcollects

/-- Nothing fails. -/
def Turn.smooth (deed : Deed) : Turn := ⟨deed, fun _ => none, truthful_none⟩

/-- The first operation on files fails. -/
def Turn.failing (deed : Deed) : Turn where
  deed
  plan i := if i = 0 then some ⟨.deviceFailure, 0⟩ else none
  truthful := by
    intro i fault hfault
    dsimp only at hfault
    split at hfault
    · cases hfault
      exact nofun
    · cases hfault

/-- A pass that cannot copy its first record. In the meantime another key is put, and the record is
read. -/
def failedCopy : List Turn :=
  [.smooth (.ask .requestCompaction), .smooth (.hold id fun _ => .refl _),
    .smooth (.ask (.put (note "y" [2]))), .failing (.hold id fun _ => .refl _),
    .smooth (.ask (.get (.name "x"))), .smooth (.hold id fun _ => .refl _)]

/-- The key that was put is collected until the pass is over. -/
theorem failed_copy_leaves_no_trace : ∃ p q : World,
    (Region.openAt (roomFor 2)).result .empty = (.ok p.2, p.1) ∧
    Run Trial p [.called (.put (note "x" [1])) (.ok ())] q ∧ replaces failedCopy q = false ∧
    (play (failedCopy.take 5) q).2.2.store.pending = some [.name "y"] ∧
    (play failedCopy q).2.2.store.pending = none ∧
    (play failedCopy q).2.2.store.index.keys = [.name "x", .name "y"] ∧
    (play (ofClients failedCopy) q).1 = (play failedCopy q).1.filter (·.concernsStore) ∧
    SameHoldings (play failedCopy q).2 (play (ofClients failedCopy) q).2 := by
  have h : ((opened? (roomFor 2) .empty).map fun p =>
      let q := (Call.put (note "x" [1])).perform.result p
      decide (q.1 = .ok () ∧ replaces failedCopy q.2 = false ∧
        (play (failedCopy.take 5) q.2).2.2.store.pending = some [.name "y"] ∧
        (play failedCopy q.2).2.2.alive ∧ (play failedCopy q.2).2.2.pass.isNone ∧
        (play failedCopy q.2).2.2.store.index.keys = [.name "x", .name "y"])) = some true := by
    decide +kernel
  obtain ⟨p, hp, h⟩ := Option.map_eq_some_iff.1 h
  obtain ⟨hput, hleft, hcollected, halive, hnone, hkeys⟩ := of_decide_eq_true h
  have ho := opened?_eq_some_iff.1 hp
  have hr := (Run.nil p).ask _ hput
  obtain ⟨hevents, hsame, hpending⟩ :=
    abandoned_pass_leaves_no_trace empty_healthy.orderly ho hr hleft
  rw [Option.isNone_iff_eq_none.1 hnone] at hpending
  exact ⟨p, _, ho, hr, hleft, hcollected, hpending halive nofun, hkeys, hevents, hsame⟩

end Region

end DiskTier
