import DiskTier.Proofs.SingleFlight

/-!
# A pass ends

A pass takes the lock once to list the keys, at most once for each of them and as often again for
keys that were put meanwhile, and once to install its draft. In between clients may do what they
like; the more they put the more there is to collect, but not to wait for, because what is collected
is asked for no more often than there were listed keys. The rest is copied under the last hold.

`Pass.bound` counts the holds that are left. No event but a hold changes it, as long as the pass is
under way, and every hold lowers it: so there are at most two for every listed key and two more.
-/

namespace DiskTier

open FileSystem

variable {α : Type} {c : Config} {d d' : FileSystem} {s s' : Store} {w : Work} {k : Key}
  {arrange : List Key → List Key} {draftFile : Path} {alive : Bool} {pass pass' : Pass}

namespace Draft

theorem copyAll_singleton (dr : Draft) (s : Store) (k : Key) (d : FileSystem) :
    (dr.copyAll s [k]).result d = (dr.copy s k).result d := by
  rw [copyAll, Action.result_bind]
  rcases (dr.copy s k).result d with ⟨e | dr', d'⟩ <;> rfl

end Draft

/-! ### Holds -/

namespace Pass

/-- Under the first hold a draft was begun. The pass goes on as `pass'`, with the keys that it
listed, or to give up because it could not begin. -/
structure Begun (draftFile : Path) (d : FileSystem) (s : Store) (pass' : Pass) (d' : FileSystem) :
    Prop where
  files : d' = ((Draft.begin draftFile).result d).2
  goesOn : ∀ draft, ((Draft.begin draftFile).result d).1 = .ok draft →
    pass' = .running ⟨s.generation, draft, s.index.keys, s.index.keys.length⟩
  fails : ∀ e, ((Draft.begin draftFile).result d).1 = .error e →
    pass' = .stopping s.generation none

/-- The keys whose turn it is: the first that is left of the list, or else the first that was
collected. -/
def due (s : Store) (w : Work) : List Key :=
  match w.todo with
  | k :: _ => [k]
  | [] => (s.takePending.map Prod.fst).toList

/-- Under a later hold the records of the keys whose turn it was were copied, at most one, and
nothing else was done to the files. The pass goes on as `pass'`, with less to copy, or to give up
because it could not copy. -/
structure Advanced (d : FileSystem) (s : Store) (w : Work) (pass' : Pass) (d' : FileSystem) :
    Prop where
  left : 0 < w.todo.length + w.tries
  single : (due s w).length ≤ 1
  files : d' = ((w.draft.copyAll s (due s w)).result d).2
  goesOn : ∀ draft, ((w.draft.copyAll s (due s w)).result d).1 = .ok draft → ∃ tries,
    pass' = .running { w with draft, todo := w.todo.tail, tries } ∧
      w.todo.tail.length + tries < w.todo.length + w.tries
  fails : ∀ e, ((w.draft.copyAll s (due s w)).result d).1 = .error e →
    pass' = .stopping w.generation (some w.draft)

/-- What was done under a hold after which the pass goes on as `pass'`. -/
def Leads (draftFile : Path) (d : FileSystem) (s : Store) : Pass → Pass → FileSystem → Prop
  | .requested, pass', d' => Begun draftFile d s pass' d'
  | .running w, pass', d' => Advanced d s w pass' d'
  | .stopping _ _, _, _ => False

/-- What was done under the last hold, which left `q`. The draft was installed, or that was tried;
or else the region is dead or was reset, or an earlier hold failed. -/
def Ends (arrange : List Key → List Key) (alive : Bool) (d : FileSystem) (s : Store)
    (q : FileSystem × Store) : Pass → Prop
  | .requested => alive = false ∧ q = (d, s)
  | .running w =>
    alive = true ∧ s.generation = w.generation ∧ w.todo = [] ∧ w.tries = 0 ∧
        q = ((finish arrange w).run (d, s)).2 ∨
      (alive = false ∨ s.generation ≠ w.generation) ∧ q = ((w.draft.abandon.result d).2, s)
  | .stopping g none => q = (d, s.stopCollecting g)
  | .stopping g (some dr) => q = ((dr.abandon.result d).2, s.stopCollecting g)

/-- To copy the record of one key is a hold of a pass that had more left. -/
theorem copyOne_advanced {tries : Nat} (hdue : due s w = [k])
    (hless : w.todo.tail.length + tries < w.todo.length + w.tries)
    (collected : Option (List Key)) :
    ∃ pass' d', (copyOne k { w with todo := w.todo.tail, tries }).run
        (d, { s with pending := collected }) =
      (.next pass', (d', { s with pending := collected })) ∧ Advanced d s w pass' d' := by
  have hcopy : (w.draft.copyAll s (due s w)).result d =
      (w.draft.copy { s with pending := collected } k).result d :=
    hdue ▸ w.draft.copyAll_singleton s k d
  have hsingle : (due s w).length ≤ 1 := by rw [hdue, List.length_singleton]
  rw [run_copyOne, ← hcopy]
  rcases hr : (w.draft.copyAll s (due s w)).result d with ⟨e | dr, d'⟩
  · refine ⟨_, d', rfl, Nat.zero_lt_of_lt hless, hsingle, by rw [hr], fun draft hok => ?_,
      fun _ _ => rfl⟩
    cases hr ▸ hok
  · refine ⟨_, d', rfl, Nat.zero_lt_of_lt hless, hsingle, by rw [hr], fun draft hok => ?_,
      fun e herror => ?_⟩
    · cases hr ▸ hok
      exact ⟨tries, rfl, hless⟩
    · cases hr ▸ herror

/-- A running pass copies at most one record and goes on, unless nothing is left of its list and of
its tries: then it comes to its last hold. -/
theorem work_cases (arrange : List Key → List Key) (w : Work) (d : FileSystem) (s : Store) :
    (∃ pass' d' s', (work arrange w).run (d, s) = (.next pass', (d', s')) ∧
        Advanced d s w pass' d') ∨
      w.todo = [] ∧ w.tries = 0 ∧ (work arrange w).run (d, s) = (finish arrange w).run (d, s) := by
  obtain ⟨generation, draft, todo, tries⟩ := w
  rcases run_work arrange ⟨generation, draft, todo, tries⟩ d s with ⟨k, ks, rfl, hwork⟩ |
    ⟨n, k, ks, rfl, rfl, hks, hwork⟩ | ⟨n, rfl, rfl, htake, hwork⟩ | ⟨rfl, rfl, hwork⟩
  · have hless : ks.length + tries < (k :: ks).length + tries := by
      rw [List.length_cons]
      omega
    obtain ⟨pass', d', hr, hadvanced⟩ :=
      copyOne_advanced (d := d) (w := ⟨generation, draft, k :: ks, tries⟩) rfl hless s.pending
    exact .inl ⟨pass', d', s, hwork.trans hr, hadvanced⟩
  · have hdue : due s ⟨generation, draft, [], n + 1⟩ = [k] := by
      rw [due, Store.takePending, hks]
      rfl
    have hless : ([] : List Key).length + n < ([] : List Key).length + (n + 1) :=
      Nat.add_lt_add_left (Nat.lt_succ_self n) _
    obtain ⟨pass', d', hr, hadvanced⟩ :=
      copyOne_advanced (d := d) (w := ⟨generation, draft, [], n + 1⟩) hdue hless (some ks)
    exact .inl ⟨pass', d', _, hwork.trans hr, hadvanced⟩
  · -- there was nothing to collect, and it is not asked for again
    have hdue : due s ⟨generation, draft, [], n + 1⟩ = [] := by
      rw [due, htake]
      rfl
    refine .inl ⟨_, d, s, hwork, Nat.succ_pos _, ?_, ?_, ?_, ?_⟩ <;> rw [hdue]
    · exact Nat.zero_le _
    · rfl
    · rintro dr ⟨⟩
      exact ⟨0, rfl, Nat.zero_lt_succ _⟩
    · rintro e ⟨⟩
  · exact .inr ⟨rfl, rfl, hwork⟩

/-- What comes of a hold after which the pass goes on. -/
theorem hold_next (h : (pass.hold arrange draftFile alive).run (d, s) =
    (.next pass', (d', s'))) : pass.Leads draftFile d s pass' d' := by
  cases pass with
  | requested =>
    rw [hold] at h
    cases alive with
    | false => cases h
    | true =>
      rw [if_pos rfl, run_start] at h
      rcases hr : (Draft.begin draftFile).result d with ⟨e | dr, d₁⟩ <;> rw [hr] at h <;> cases h
      · refine ⟨by rw [hr], fun draft hok => ?_, fun _ _ => rfl⟩
        cases hr ▸ hok
      · refine ⟨by rw [hr], fun draft hok => ?_, fun e herror => ?_⟩
        · cases hr ▸ hok
          rfl
        · cases hr ▸ herror
  | running w =>
    rw [hold, run_bind, run_store] at h
    simp only at h
    split at h
    · rcases work_cases arrange w d s with ⟨pass'', d'', s'', hr, hadvanced⟩ | ⟨-, -, hr⟩
      · rw [hr] at h
        cases h
        exact hadvanced
      · rw [hr, run_finish] at h
        split at h <;> cases h
    · cases h
  | stopping g draft =>
    rw [hold, run_bind, run_store] at h
    simp only at h
    rw [run_bind, run_setStore] at h
    cases draft <;> cases h

/-- What comes of the last hold. -/
theorem hold_over {installed : Bool} {q : FileSystem × Store}
    (h : (hold arrange draftFile alive pass).run (d, s) = (.over installed, q)) :
    pass.Ends arrange alive d s q := by
  cases pass with
  | requested =>
    rw [hold] at h
    cases alive with
    | false =>
      cases h
      exact ⟨rfl, rfl⟩
    | true =>
      rw [if_pos rfl, run_start] at h
      split at h <;> cases h
  | stopping g draft =>
    rw [hold, run_bind, run_store] at h
    simp only at h
    rw [run_bind, run_setStore] at h
    cases draft <;> cases h <;> rfl
  | running w =>
    rw [hold, run_bind, run_store] at h
    simp only at h
    split at h
    · next hcurrent =>
      rw [Bool.and_eq_true, beq_iff_eq] at hcurrent
      rcases work_cases arrange w d s with ⟨pass', d', s', hr, -⟩ | ⟨htodo, htries, hr⟩
      · rw [hr] at h
        cases h
      · rw [hr] at h
        exact .inl ⟨hcurrent.1, hcurrent.2, htodo, htries, by rw [h]⟩
    · next hcurrent =>
      refine .inr ⟨?_, by cases h; rfl⟩
      rw [Bool.and_eq_true, beq_iff_eq, Classical.not_and_iff_not_or_not, Bool.not_eq_true]
        at hcurrent
      exact hcurrent

/-! ### How many holds are left -/

/-- A pass that has begun has as many holds left whatever the store holds by now. -/
theorem bound_congr (h : pass ≠ .requested) (m n : Nat) : pass.bound m = pass.bound n := by
  cases pass with
  | requested => exact absurd rfl h
  | running w => rfl
  | stopping g draft => rfl

theorem bound_pos (pass : Pass) (n : Nat) : 0 < pass.bound n := by
  cases pass <;> exact Nat.succ_pos _

/-- After a hold the pass has begun, and has fewer holds left. -/
theorem Leads.shorter (h : pass.Leads draftFile d s pass' d') (n : Nat) :
    pass' ≠ .requested ∧ pass'.bound n < pass.bound s.index.keys.length := by
  cases pass with
  | requested =>
    rcases hr : ((Draft.begin draftFile).result d).1 with e | dr
    · rw [h.fails e hr]
      refine ⟨nofun, ?_⟩
      show 1 < 2 * s.index.keys.length + 2
      omega
    · rw [h.goesOn dr hr]
      refine ⟨nofun, ?_⟩
      show s.index.keys.length + s.index.keys.length + 1 < 2 * s.index.keys.length + 2
      omega
  | running w =>
    rcases hr : ((w.draft.copyAll s (due s w)).result d).1 with e | dr
    · rw [h.fails e hr]
      refine ⟨nofun, ?_⟩
      exact Nat.succ_lt_succ h.left
    · obtain ⟨tries, hpass', hless⟩ := h.goesOn dr hr
      rw [hpass']
      exact ⟨nofun, Nat.succ_lt_succ hless⟩
  | stopping g draft => exact h.elim

end Pass

/-! ### What comes between the holds -/

namespace Region

variable {p q q₁ q₂ : World} {r : Region} {event : Event} {events before later : List Event}
  {installed : Bool}

theorem pass_removeBy (hc : r.compacting = true) (f : Store → Bool × Store) :
    (r.removeBy f).2.pass = r.pass := by
  have hcount : ∀ s, ({ r with store := s } : Region).countRemoval.pass = r.pass := by
    intro s
    unfold countRemoval requestCompaction
    dsimp only
    rw [if_pos hc]
    split <;> rfl
  unfold removeBy
  split
  · rcases f r.store with ⟨_ | _, s⟩
    · rfl
    · exact hcount s
  · rfl

theorem pass_shutDown (hc : r.compacting = true) (d : FileSystem) :
    (Region.shutDown.result (d, r)).2.2.pass = r.pass := by
  cases hclosed : r.closed with
  | true => rw [result_shutDown_closed hclosed]
  | false =>
    have hbusy : (r.alive && !r.compacting) = false := by
      rw [hc, Bool.not_true, Bool.and_false]
    rw [world_shutDown hclosed (result_compactForGood_idle (r := { r with closed := true }) hbusy
      d)]
    exact ((sameTally_onStore Store.saveKeys _).trans (sameTally_onStore Store.close _)).pass

/-- While a compaction is under way, no call starts a pass or ends one. -/
theorem pass_perform (hc : p.2.compacting = true) (call : Call α) :
    (call.perform.result p).2.2.pass = p.2.pass := by
  cases call with
  | put e => exact (sameTally_put e p).pass
  | get k => exact (sameTally_get k p).pass
  | groupKeys name => rfl
  | remove k => exact pass_removeBy hc _
  | removeGroup g => exact pass_removeBy hc _
  | reset => exact (sameTally_reset p).pass
  | saveKeys => exact (sameTally_saveKeys p).pass
  | size => rfl
  | stats => rfl
  | requestCompaction =>
    show p.2.requestCompaction.2.pass = p.2.pass
    rw [requestCompaction, if_pos hc]

theorem Trial.pass_eq (ht : Trial p event q) (he : event.leavesPass)
    (hc : p.2.compacting = true) : q.2.pass = p.2.pass := by
  cases ht with
  | retried hvain hname hpath hopen => exact absurd he id
  | step hs =>
    cases hs with
    | called call p => exact pass_perform hc call
    | looked k p => exact (sameTally_lookup k p).pass
    | held harrange p => exact absurd he id
    | died d r => rfl
    | shutDown p => exact pass_shutDown hc p.1
    | reopened hname hpath hopen => exact absurd he id

/-- A region that was just opened has no pass. -/
theorem pass_of_openAt (ho : (Region.openAt c).result d = (.ok r, d')) : r.pass = none := by
  obtain ⟨-, d₁, d₂, -, -, -, hr⟩ := openAt_stages ho
  rw [hr]

theorem Trial.reopened_pass (ht : Trial p (.reopened c) q) : q.2.pass = none := by
  cases ht with
  | retried hvain hname hpath hopen => exact pass_of_openAt hopen
  | step hs =>
    cases hs with
    | reopened hname hpath hopen => exact pass_of_openAt hopen

/-- What happened since the files were last opened. -/
theorem Run.sinceOpened (ho : (Region.openAt c).result d = (.ok p.2, p.1))
    (hr : Run Trial p events q) : ∃ c' d' p' events',
      (Region.openAt c').result d' = (.ok p'.2, p'.1) ∧ Run Trial p' events' q ∧
        ∀ event ∈ events', event.keepsRegion := by
  have hnone : ∀ event ∈ ([] : List Event), event.keepsRegion := fun _ hmem =>
    absurd hmem List.not_mem_nil
  induction hr with
  | nil => exact ⟨c, d, p, [], ho, .nil p, hnone⟩
  | @snoc q q' events event hr ht ih =>
    by_cases he : event.keepsRegion
    · obtain ⟨c', d', p', events', ho', hr', hkeeps⟩ := ih
      refine ⟨c', d', p', events' ++ [event], ho', hr'.snoc ht, fun e hmem => ?_⟩
      rcases List.mem_append.1 hmem with hmem | hmem
      · exact hkeeps e hmem
      · exact List.mem_singleton.1 hmem ▸ he
    · cases ht with
      | retried hvain hname hpath hopen => exact ⟨_, _, _, [], hopen, .nil _, hnone⟩
      | step hs =>
        cases hs with
        | reopened hname hpath hopen => exact ⟨_, _, _, [], hopen, .nil _, hnone⟩
        | _ => exact absurd trivial he

/-- The flag is set while a pass is under way. -/
theorem Run.compacting (ho : (Region.openAt c).result d = (.ok p.2, p.1))
    (hr : Run Trial p events q) (hpass : q.2.pass.isSome) : q.2.compacting = true := by
  obtain ⟨c', d', p', events', ho', hr', hkeeps⟩ := hr.sinceOpened ho
  obtain ⟨moves, hmoves⟩ := hr'.moves ho' hkeeps
  have hguarded : Guarded c' (Scene.of q) := hmoves ▸ (Guarded.start ho').run moves
  rw [← hguarded.isSome_pass]
  exact hpass

/-! ### The bound -/

/-- The event is a hold of the pass under way. -/
def Event.isHold : Event → Bool
  | .held _ => true
  | _ => false

/-- An event while a pass is under way. -/
def WithPass (p : World) (event : Event) (q : World) : Prop := p.2.pass.isSome ∧ Trial p event q

theorem holdsLeft_eq {pass : Pass} (h : r.pass = some pass) : r.holdsLeft = pass.bound r.size := by
  rw [holdsLeft, h]

theorem holdsLeft_none (h : r.pass = none) : r.holdsLeft = 0 := by
  rw [holdsLeft, h]

theorem holdsLeft_eq_zero_iff : r.holdsLeft = 0 ↔ r.pass = none := by
  refine ⟨fun h => ?_, holdsLeft_none⟩
  cases hp : r.pass with
  | none => rfl
  | some pass =>
    rw [holdsLeft_eq hp] at h
    exact absurd h (Nat.pos_iff_ne_zero.1 (pass.bound_pos _))

/-- Under one hold the pass of a region came from `p` to `q`: it was led on, or ended. -/
def OneHold (p q : World) : Prop :=
  ∃ pass, p.2.pass = some pass ∧
    ((∃ pass', q.2.pass = some pass' ∧ pass.Leads p.2.config.draftFile p.1 p.2.store pass' q.1) ∨
      q.2.pass = none ∧ ∃ arrange : List Key → List Key, (∀ l, (arrange l).Perm l) ∧
        pass.Ends arrange p.2.alive p.1 p.2.store (q.1, q.2.store))

theorem Trial.oneHold (ht : Trial p (.held installed) q) (hpass : p.2.pass.isSome) :
    OneHold p q := by
  obtain ⟨pass, hpass⟩ := Option.isSome_iff_exists.1 hpass
  refine ⟨pass, hpass, ?_⟩
  cases ht with
  | step hs =>
    cases hs with
    | @held arrange harrange =>
      obtain ⟨d, r⟩ := p
      rcases hr : (pass.hold arrange r.config.draftFile r.alive).run (d, r.store) with
        ⟨pass' | done, d', s'⟩
      · rw [holdPass_next hpass hr]
        exact .inl ⟨pass', rfl, Pass.hold_next hr⟩
      · rw [holdPass_over hpass hr]
        exact .inr ⟨rfl, arrange, harrange, Pass.hold_over hr⟩

/-- A hold leaves fewer holds to its pass, counted by the keys that were there before it. -/
theorem OneHold.holdsLeft (h : OneHold p q) : ∃ pass, p.2.pass = some pass ∧
    q.2.pass ≠ some .requested ∧ q.2.holdsLeft + 1 ≤ pass.bound p.2.store.index.keys.length := by
  obtain ⟨pass, hpass, ⟨pass', hq, hleads⟩ | ⟨hq, -⟩⟩ := h
  · obtain ⟨hbegun, hless⟩ := hleads.shorter q.2.size
    rw [holdsLeft_eq hq, hq]
    exact ⟨pass, hpass, fun h => hbegun (Option.some.inj h), hless⟩
  · rw [holdsLeft_none hq, hq]
    exact ⟨pass, hpass, nofun, pass.bound_pos _⟩

/-- No event leaves more holds to a pass that has begun, and a hold leaves fewer. -/
theorem WithPass.holdsLeft (h : WithPass p event q) (hc : p.2.compacting = true)
    (hbegun : p.2.pass ≠ some .requested) :
    q.2.pass ≠ some .requested ∧ q.2.holdsLeft + event.isHold.toNat ≤ p.2.holdsLeft := by
  obtain ⟨hsome, ht⟩ := h
  obtain ⟨pass, hpass⟩ := Option.isSome_iff_exists.1 hsome
  have hne : pass ≠ .requested := fun h => hbegun (h ▸ hpass)
  rw [holdsLeft_eq hpass]
  have hleaves : event.leavesPass → event.isHold = false →
      q.2.pass ≠ some .requested ∧
        q.2.holdsLeft + event.isHold.toNat ≤ pass.bound p.2.size := by
    intro he hhold
    have hq := (ht.pass_eq he hc).trans hpass
    rw [holdsLeft_eq hq, hhold, hq, Pass.bound_congr hne q.2.size p.2.size]
    exact ⟨fun h => hne (Option.some.inj h), Nat.le_refl _⟩
  cases event with
  | held installed =>
    obtain ⟨pass', hpass', hbegun', hless⟩ := (ht.oneHold hsome).holdsLeft
    cases hpass.symm.trans hpass'
    rw [Pass.bound_congr hne p.2.size p.2.store.index.keys.length]
    exact ⟨hbegun', hless⟩
  | reopened c =>
    have hq := ht.reopened_pass
    rw [holdsLeft_none hq, hq]
    exact ⟨nofun, Nat.zero_le _⟩
  | called call answer => exact hleaves trivial rfl
  | looked k answer => exact hleaves trivial rfl
  | died => exact hleaves trivial rfl
  | shutDown => exact hleaves trivial rfl

theorem Run.withPass (hr : Run WithPass p events q) : Run Trial p events q := hr.mono And.right

/-- The holds that were taken and those that are left are at most what was left before. -/
theorem Run.holdsLeft (ho : (Region.openAt c).result d = (.ok p.2, p.1))
    (hbefore : Run Trial p before q) (hbegun : q.2.pass ≠ some .requested)
    (hr : Run WithPass q later q₁) :
    q₁.2.pass ≠ some .requested ∧
      later.countP (·.isHold) + q₁.2.holdsLeft ≤ q.2.holdsLeft := by
  induction hr with
  | nil => exact ⟨hbegun, Nat.le_of_eq (Nat.zero_add _)⟩
  | @snoc q₁ q₂ later event hr he ih =>
    obtain ⟨hbegun₁, hcount⟩ := ih
    have hc := (hbefore.append hr.withPass).compacting ho he.1
    obtain ⟨hbegun₂, hstep⟩ := he.holdsLeft hc hbegun₁
    refine ⟨hbegun₂, ?_⟩
    have hone : (if event.isHold = true then 1 else 0) = event.isHold.toNat := by
      cases event.isHold <;> rfl
    rw [List.countP_append, List.countP_singleton, hone]
    omega

/-- Whatever happens while a pass is under way, its holds are no more than two for every key that
the first of them listed and two more, counting those that it can still take. It is over when none
is left. Every hold but the last copies one record at most, and leads on: to the next copy, or after
a failure to the hold that gives up. -/
theorem pass_is_bounded {i : Bool} (ho : (Region.openAt c).result d = (.ok p.2, p.1))
    (hbefore : Run Trial p before q) (hpass : q.2.pass = some .requested)
    (hfirst : Trial q (.held i) q₁) (hlater : Run WithPass q₁ later q₂) :
    1 + later.countP (·.isHold) + q₂.2.holdsLeft ≤ 2 * q.2.store.index.keys.length + 2 ∧
      (q₂.2.holdsLeft = 0 ↔ q₂.2.pass = none) ∧ OneHold q q₁ ∧
      ∀ j q₃, q₂.2.pass.isSome → Trial q₂ (.held j) q₃ → OneHold q₂ q₃ := by
  have hone := hfirst.oneHold (hpass ▸ rfl)
  refine ⟨?_, holdsLeft_eq_zero_iff, hone, fun j q₃ hsome ht => ht.oneHold hsome⟩
  obtain ⟨pass, hpass', hbegun, hless⟩ := hone.holdsLeft
  cases hpass.symm.trans hpass'
  obtain ⟨-, hcount⟩ := (hbefore.snoc hfirst).holdsLeft ho hbegun hlater
  have hbound : (Pass.requested).bound q.2.store.index.keys.length =
      2 * q.2.store.index.keys.length + 2 := rfl
  omega

theorem Run.holdWithPass {arrange : List Key → List Key} (h : Run WithPass p events q)
    (hsome : q.2.pass.isSome) (harrange : ∀ l, (arrange l).Perm l)
    (hi : decide (q.2.compactions < ((holdPass arrange).run q).2.2.compactions) = installed) :
    Run WithPass p (events ++ [.held installed]) ((holdPass arrange).run q).2 :=
  h.snoc ⟨hsome, .hold harrange hi⟩

theorem Run.askWithPass (h : Run WithPass p events q) (hsome : q.2.pass.isSome) (call : Call α)
    {answer : Except Error α} (ha : (call.perform.result q).1 = answer) :
    Run WithPass p (events ++ [.called call answer]) (call.perform.result q).2 :=
  h.snoc ⟨hsome, .step (.of_result ha)⟩

/-- A pass over one key that finds another collected takes the lock four times, and no more. -/
theorem pass_takes_all_its_holds : ∃ p q q₁ q₂ : World,
    (Region.openAt (roomFor 2)).result .empty = (.ok p.2, p.1) ∧
    Run Trial p [.called (.put (note "x" [1])) (.ok ()), .called .requestCompaction (.ok true)] q ∧
    q.2.pass = some .requested ∧ Trial q (.held false) q₁ ∧
    Run WithPass q₁ [.held false, .called (.put (note "y" [2])) (.ok ()), .held false,
      .held true] q₂ ∧
    1 + 3 + q₂.2.holdsLeft ≤ 2 * q.2.store.index.keys.length + 2 ∧
    q.2.store.index.keys = [.name "x"] ∧ q₂.2.pass = none := by
  have h : ((opened? (roomFor 2) .empty).map fun p =>
      let q₀ := (Call.put (note "x" [1])).perform.result p
      let q := Call.requestCompaction.perform.result q₀.2
      let q₁ := ((holdPass id).run q.2).2
      let q₂ := ((holdPass id).run q₁).2
      let q₃ := (Call.put (note "y" [2])).perform.result q₂
      let q₄ := ((holdPass id).run q₃.2).2
      let q₅ := ((holdPass id).run q₄).2
      decide (q₀.1 = .ok () ∧ q₀.2.2.compacting = false ∧ q.1 = .ok true ∧
        decide (q.2.2.compactions < q₁.2.compactions) = false ∧ q₁.2.pass.isSome ∧
        decide (q₁.2.compactions < q₂.2.compactions) = false ∧ q₂.2.pass.isSome ∧
        q₃.1 = .ok () ∧ q₃.2.2.pass.isSome ∧
        decide (q₃.2.2.compactions < q₄.2.compactions) = false ∧ q₄.2.pass.isSome ∧
        decide (q₄.2.compactions < q₅.2.compactions) = true ∧ q₅.2.pass.isNone ∧
        q.2.2.store.index.keys = [.name "x"])) = some true := by
    decide +kernel
  obtain ⟨p, hp, h⟩ := Option.map_eq_some_iff.1 h
  obtain ⟨hx, hidle, hrequest, hi, hsome₁, hi₁, hsome₂, hy, hsome₃, hi₃, hsome₄, hi₄, hnone,
    hkeys⟩ := of_decide_eq_true h
  have ho := opened?_eq_some_iff.1 hp
  have hbefore := ((Run.nil p).ask _ hx).ask _ hrequest
  have hpass : (Call.requestCompaction.perform.result
      ((Call.put (note "x" [1])).perform.result p).2).2.2.pass = some .requested := by
    show (requestCompaction _).2.pass = _
    rw [requestCompaction, hidle]
    rfl
  have harrange : ∀ l : List Key, (id l).Perm l := fun l => .refl l
  have hlater := ((((Run.nil _).holdWithPass hsome₁ harrange hi₁).askWithPass hsome₂ _
    hy).holdWithPass hsome₃ harrange hi₃).holdWithPass hsome₄ harrange hi₄
  obtain ⟨hcount, -⟩ := pass_is_bounded ho hbefore hpass (.hold harrange hi) hlater
  exact ⟨p, _, _, _, ho, hbefore, hpass, .hold harrange hi, hlater, hcount, hkeys,
    Option.isNone_iff_eq_none.1 hnone⟩

end Region

end DiskTier
