import DiskTier.Proofs.Disposal
import DiskTier.Session

/-!
# The end of a region's life

A region that does not serve any more never serves again. Once its files are closed too, all that
can still happen is that a pass under way finds it dead and gives its draft up: what clients ask for
is refused, a second shutdown does nothing, and what the region held stays as it is, on disk and in
memory. The draft is gone then if it could be closed and its name be taken away; a failure of that
is only reported.
-/

namespace DiskTier

open FileSystem

variable {α : Type} {c : Config} {D : Nat} {P : Key → Prop} {d d' : FileSystem} {g g' : Shade}
  {s : Store} {arrange : List Key → List Key}

namespace FileSystem

variable {path : Path} {x : Spot} {N : String → Prop}

/-- What is seen at a path does not change with other names. -/
theorem Effect.contentAt? (h : Effect N d g d' g') (hs : Site d path x) (hx : ¬ N x.2) :
    d'.contentAt? path = d.contentAt? path := by
  rw [(h.site hs).lodged.contentAt?_eq, hs.lodged.contentAt?_eq, h.nodes x hx]
  cases hn : d.at? x with
  | none => rfl
  | some node =>
    cases node with
    | directory m => rfl
    | file n =>
      show some (d'.content n) = some (d.content n)
      rw [h.contents x n hx hn]

end FileSystem

/-! ### Passes of a dead region -/

namespace Pass

/-- A pass that finds its region dead leaves its draft behind if that is stuck. -/
theorem leavesDraft_dead_iff (pass : Pass) (draftFile : Path) :
    pass.LeavesDraft arrange draftFile false d s ↔ ∃ dr ∈ pass.draft?, dr.IsStuck d := by
  cases pass with
  | requested => simp [LeavesDraft, draft?]
  | running w => simp [LeavesDraft, draft?]
  | stopping generation draft => simp [LeavesDraft, draft?]

/-- It gives its draft up, and may end the collecting. -/
theorem run_hold_dead (pass : Pass) (arrange : List Key → List Key) (draftFile : Path)
    (d : FileSystem) (s : Store) :
    ∃ pending, (pass.hold arrange draftFile false).run (d, s) =
      (.over false, (pass.draft?.elim d fun dr => (dr.abandon.result d).2),
        { s with pending }) := by
  cases pass with
  | requested => exact ⟨s.pending, rfl⟩
  | running w => exact ⟨s.pending, rfl⟩
  | stopping generation draft =>
    obtain ⟨pending, heq⟩ := stopCollecting_eq generation s
    refine ⟨pending, ?_⟩
    rw [← heq]
    cases draft with
    | none => rfl
    | some dr => rfl

/-- The draft lies at its place whatever the pass was before. -/
theorem Bound.draft_path {pass : Pass} (h : Bound c D d g s pass) :
    ∀ dr ∈ pass.draft?, dr.file.path = c.draftFile := by
  cases pass with
  | requested => nofun
  | running w =>
    rintro _ ⟨⟩
    exact h.1
  | stopping generation draft => exact h

end Pass

/-! ### Calls -/

/-- What a region that does not serve answers. The lists of what it holds are still told. -/
def Call.refusal (r : Region) : {α : Type} → Call α → Except Error α
  | _, .put _ => .error (.notAlive r.config.cacheName)
  | _, .get _ => .ok none
  | _, .groupKeys name => .ok (r.groupKeys name)
  | _, .remove _ => .ok false
  | _, .removeGroup _ => .ok false
  | _, .reset => .error (.notAlive r.config.cacheName)
  | _, .saveKeys => .error (.notAlive r.config.cacheName)
  | _, .size => .ok r.size
  | _, .stats => .ok r.stats
  | _, .requestCompaction => .ok r.requestCompaction.1

namespace Region

variable {p q q₁ q' : World} {r r' : Region} {event : Event} {events before after : List Event}

/-- A call is refused, and nothing happens. -/
theorem result_perform_dead (ha : r.alive = false) (call : Call α) (hlock : call.takesLock) :
    call.perform.result (d, r) = (call.refusal r, (d, r)) := by
  cases call with
  | put e =>
    show (put e).result (d, r) = _
    rw [put, Action.result_bind, result_requireAlive_dead ha]
    rfl
  | get k =>
    show (Region.get k).result (d, r) = _
    rw [result_get, result_lookup_dead ha]
    rfl
  | groupKeys name => rfl
  | remove k =>
    show ((Except.ok (r.remove k).1, (d, (r.remove k).2)) : Except Error Bool × World) = _
    rw [remove, removeBy_dead ha]
    rfl
  | removeGroup group =>
    show ((Except.ok (r.removeGroup group).1, (d, (r.removeGroup group).2)) :
      Except Error Bool × World) = _
    rw [removeGroup, removeBy_dead ha]
    rfl
  | reset =>
    show Region.reset.result (d, r) = _
    rw [Region.reset, Action.result_bind, result_requireAlive_dead ha]
    rfl
  | saveKeys =>
    show Region.saveKeys.result (d, r) = _
    rw [Region.saveKeys, Action.result_bind, result_requireAlive_dead ha]
    rfl
  | size => rfl
  | stats => rfl
  | requestCompaction => cases hlock

theorem result_shutDown_closed (hc : r.closed = true) :
    Region.shutDown.result (d, r) = (.ok (), (d, r)) := by
  rw [Region.shutDown, Action.result_bind, FileAction.result_value]
  simp only [hc, if_true]
  rfl

/-! ### Events -/

/-- The event does not open the files anew. -/
def Event.keepsRegion : Event → Prop
  | .reopened _ => False
  | _ => True

/-- What the region holds has not changed, on disk or in memory, and it counts no reads. -/
structure Frozen (p q : World) : Prop where
  config : q.2.config = p.2.config
  dead : q.2.alive = false
  closed : q.2.closed = p.2.closed
  data : q.1.contentAt? p.2.config.dataFile = p.1.contentAt? p.2.config.dataFile
  keys : q.1.contentAt? p.2.config.keyFile = p.1.contentAt? p.2.config.keyFile
  index : q.2.store.index = p.2.store.index
  free : q.2.store.free = p.2.store.free
  generation : q.2.store.generation = p.2.store.generation
  hits : q.2.hits = p.2.hits
  misses : q.2.misses = p.2.misses
  compactions : q.2.compactions = p.2.compactions

theorem frozen_refl (ha : p.2.alive = false) : Frozen p p :=
  ⟨rfl, ha, rfl, rfl, rfl, rfl, rfl, rfl, rfl, rfl, rfl⟩

theorem Frozen.trans (h : Frozen p q) (h' : Frozen q q') : Frozen p q' :=
  ⟨h'.config.trans h.config, h'.dead, h'.closed.trans h.closed,
    by rw [← h.data, ← h.config, h'.data],
    by rw [← h.keys, ← h.config, h'.keys], h'.index.trans h.index, h'.free.trans h.free,
    h'.generation.trans h.generation, h'.hits.trans h.hits, h'.misses.trans h.misses,
    h'.compactions.trans h.compactions⟩

theorem frozen_perform (ha : r.alive = false) (call : Call α) :
    Frozen (d, r) (call.perform.result (d, r)).2 := by
  cases hlock : call.takesLock with
  | true =>
    rw [result_perform_dead ha call hlock]
    exact frozen_refl ha
  | false =>
    cases call with
    | requestCompaction =>
      show Frozen (d, r) (d, r.requestCompaction.2)
      unfold requestCompaction
      split
      · exact frozen_refl ha
      · exact ⟨rfl, ha, rfl, rfl, rfl, rfl, rfl, rfl, rfl, rfl, rfl⟩
    | _ => cases hlock

/-- The hold of a pass that finds the region dead is its last, and touches the draft alone. -/
theorem frozen_hold (h : Anchored D P d g r) (ha : r.alive = false) :
    Frozen (d, r) ((holdPass arrange).run (d, r)).2 ∧
      ((holdPass arrange).run (d, r)).2.2.pass = none := by
  cases hpass : r.pass with
  | none =>
    rw [holdPass_none arrange hpass]
    exact ⟨frozen_refl ha, hpass⟩
  | some pass =>
    obtain ⟨pending, hrun⟩ := pass.run_hold_dead arrange r.config.draftFile d r.store
    rw [holdPass_over hpass (by rw [ha]; exact hrun)]
    have heffect : ∃ g', Effect (· = r.config.draftName) d g
        (pass.draft?.elim d fun dr => (dr.abandon.result d).2) g' := by
      cases hdraft : pass.draft? with
      | none => exact ⟨g, (h.store.orderly.still_refl g).of_still⟩
      | some dr =>
        exact (Draft.shadowed_abandon h.store.rooted
          ((h.bound pass hpass).draft_path dr hdraft)).post
    obtain ⟨g', he⟩ := heffect
    exact ⟨⟨rfl, ha, rfl,
      he.contentAt? h.store.rooted.data r.config.draftName_ne_dataName.symm,
      he.contentAt? h.store.rooted.keys r.config.draftName_ne_keyName.symm, rfl, rfl, rfl, rfl,
      rfl, rfl⟩, rfl⟩

theorem Trial.frozen (h : Anchored D P p.1 g p.2) (ha : p.2.alive = false)
    (hc : p.2.closed = true) (ht : Trial p event q) (he : event.keepsRegion) : Frozen p q := by
  cases ht with
  | retried hvain hname hpath hopen => exact absurd he id
  | step hs =>
    cases hs with
    | called call p => exact frozen_perform ha call
    | looked k p =>
      obtain ⟨d, r⟩ := p
      rw [result_lookup_dead ha]
      exact frozen_refl ha
    | held harrange p => exact (frozen_hold h ha).1
    | died d r => exact ⟨rfl, rfl, rfl, rfl, rfl, rfl, rfl, rfl, rfl, rfl, rfl⟩
    | shutDown p =>
      obtain ⟨d, r⟩ := p
      rw [result_shutDown_closed hc]
      exact frozen_refl ha
    | reopened hname hpath hopen => exact absurd he id

/-- A region that does not serve does not serve after any event but an opening. -/
theorem Trial.stays_dead (h : Anchored D P p.1 g p.2) (ha : p.2.alive = false)
    (ht : Trial p event q) (he : event.keepsRegion) : q.2.alive = false := by
  cases ht with
  | retried hvain hname hpath hopen => exact absurd he id
  | step hs =>
    cases hs with
    | called call p =>
      obtain ⟨g', hstays⟩ := (shadowed_perform h call).post
      exact hstays.alive.trans ha
    | looked k p =>
      obtain ⟨g', hstays⟩ := (shadowed_lookup h k).post
      exact hstays.alive.trans ha
    | held harrange p => exact (frozen_hold h ha).1.dead
    | died d r => rfl
    | shutDown p =>
      obtain ⟨g', hstays⟩ := (shadowed_shutDown h).post
      split at hstays
      · exact hstays.alive.trans ha
      · exact hstays.alive
    | reopened hname hpath hopen => exact absurd he id

theorem Trial.closed (h : Anchored D P p.1 g p.2) (ht : Trial p .shutDown q) :
    q.2.closed = true := by
  cases ht with
  | step hs =>
    cases hs with
    | shutDown p =>
      obtain ⟨g', hstays⟩ := (shadowed_shutDown h).post
      split at hstays
      · next hclosed => exact hstays.closed.trans hclosed
      · exact hstays.closed

/-! ### Runs -/

theorem Run.stays_dead (h : Anchored D P p.1 g p.2) (hdead : p.2.closed = true → p.2.alive = false)
    (ha : p.2.alive = false) (hr : Run Trial p events q) (hevents : ∀ e ∈ events, e.keepsRegion) :
    q.2.alive = false := by
  induction hr with
  | nil => exact ha
  | snoc hr ht ih =>
    obtain ⟨g', -, hq, -⟩ := hr.shadowed h hdead
    exact ht.stays_dead hq (ih fun e he => hevents e (List.mem_append_left _ he))
      (hevents _ (by simp))

theorem Run.frozen (h : Anchored D P p.1 g p.2) (ha : p.2.alive = false) (hc : p.2.closed = true)
    (hr : Run Trial p events q) (hevents : ∀ e ∈ events, e.keepsRegion) : Frozen p q := by
  induction hr with
  | nil => exact frozen_refl ha
  | snoc hr ht ih =>
    have hq := ih fun e he => hevents e (List.mem_append_left _ he)
    obtain ⟨g', -, hanchored, -⟩ := hr.shadowed h fun _ => ha
    exact hq.trans (ht.frozen hanchored hq.dead (hq.closed.trans hc) (hevents _ (by simp)))

/-- What a region is asked for after its end. -/
structure Inert (q : World) : Prop where
  /-- Calls are refused, and change nothing. -/
  calls : ∀ {α : Type} (call : Call α), call.takesLock →
    call.perform.result q = (call.refusal q.2, q)
  lookups : ∀ k, (lookup k).result q = (.ok none, q)
  shutDown : Region.shutDown.result q = (.ok (), q)
  /-- A pass under way has one hold left. -/
  holds : ∀ arrange, ((holdPass arrange).run q).2.2.pass = none
  /-- A task that saves keys does nothing more. -/
  savers : ∀ (session : Session) (t : Saver), session.region = q.2 →
    ∃ t', (Session.runSaver t).result (q.1, session) = (.ok t', (q.1, session))

theorem Anchored.inert (h : Anchored D P q.1 g q.2) (ha : q.2.alive = false)
    (hc : q.2.closed = true) : Inert q := by
  obtain ⟨d, r⟩ := q
  refine ⟨fun call => result_perform_dead ha call, fun k => result_lookup_dead ha k,
    result_shutDown_closed hc, fun arrange => (frozen_hold h ha).2, fun session t hregion => ?_⟩
  rw [Session.runSaver, Action.result_bind, FileAction.result_value]
  simp only
  split
  · exact ⟨t, rfl⟩
  · have hsession : session.region.alive = false := by
      rw [hregion]
      exact ha
    rw [if_neg (by simp [hsession])]
    exact ⟨_, rfl⟩

/-- The draft of a pass could not be closed, or its name not be taken away. -/
def StuckIn (p : World) (events : List Event) : Prop :=
  ∃ before after q pass dr, events = before ++ .held false :: after ∧ Run Trial p before q ∧
    q.2.pass = some pass ∧ pass.draft? = some dr ∧ dr.IsStuck q.1

/-- A dead region leaves no draft behind but one that is stuck. -/
theorem LeftSince.stuck (h : Anchored D P p.1 g p.2) (ha : p.2.alive = false)
    (hc : p.2.closed = true) (hleft : LeftSince p events q)
    (hevents : ∀ e ∈ events, e.keepsRegion) : StuckIn p events := by
  obtain ⟨before, event, after, q₁, q₂, rfl, hbefore, hleaves, -, -⟩ := hleft
  have hq := hbefore.frozen h ha hc fun e he => hevents e (List.mem_append_left _ he)
  cases hleaves with
  | @held arrange harrange q₁ pass hpass hl =>
    rw [hq.dead, Pass.leavesDraft_dead_iff] at hl
    obtain ⟨dr, hdr, hstuck⟩ := hl
    obtain ⟨g', -, ha₁, -⟩ := hbefore.shadowed h fun _ => ha
    have hheld :
        decide (q₁.2.compactions < ((holdPass arrange).run q₁).2.2.compactions) = false := by
      rw [decide_eq_false_iff_not, (frozen_hold ha₁ hq.dead).1.compactions]
      exact Nat.lt_irrefl _
    exact ⟨before, after, q₁, pass, dr, by rw [hheld], hbefore, hpass, hdr, hstuck⟩
  | shutDown hopen halive hidle hl =>
    rw [hq.dead] at halive
    cases halive

/-- A region that does not serve any more never serves again. After it was shut down, whatever is
asked for is refused, a pass under way ends, what the region holds stays as it is, and a draft of
which the pass knows is gone when the pass has ended, unless it is stuck. -/
theorem death_is_final (hd : d.Orderly) (ho : (Region.openAt c).result d = (.ok p.2, p.1))
    (hr : Run Trial p before q) :
    (∀ {more q'}, q.2.alive = false → Run Trial q more q' → (∀ e ∈ more, e.keepsRegion) →
      q'.2.alive = false) ∧
    ∀ {q₁ after q'}, Trial q .shutDown q₁ → Run Trial q₁ after q' →
      (∀ e ∈ after, e.keepsRegion) → Frozen q₁ q' ∧ Inert q' ∧
        ((∃ pass, q₁.2.pass = some pass ∧ pass.HasDraft) ∨ ¬ Littered q₁ → q'.2.pass = none →
          ¬ Littered q' ∨ StuckIn q₁ after) := by
  obtain ⟨D, P, g₁, hq, hdead₁, -⟩ := hr.anchored hd ho
  refine ⟨fun ha hmore hevents => hmore.stays_dead hq hdead₁ ha hevents, ?_⟩
  intro q₁ after q' hshut hafter hevents
  obtain ⟨g₂, -, hleads⟩ := hshut.shadowed hq
  have ha₁ := hleads.anchored
  have hclosed := hshut.closed hq
  have halive := hleads.dead hdead₁ hclosed
  obtain ⟨g₃, -, hq', -⟩ := hafter.shadowed ha₁ fun _ => halive
  have hfrozen := hafter.frozen ha₁ halive hclosed hevents
  refine ⟨hfrozen, hq'.inert hfrozen.dead (hfrozen.closed.trans hclosed), ?_⟩
  intro hknown hover
  have htidy : Tidy D q₁ := by
    refine hknown.imp_right fun hclean => ?_
    rwa [ha₁.littered_iff, not_not] at hclean
  rcases hafter.tidy ha₁ (fun _ => halive) htidy with htidy' | hleft
  · left
    rw [hq'.littered_iff, not_not]
    refine htidy'.resolve_left ?_
    rintro ⟨pass, hpass, -⟩
    cases hover.symm.trans hpass
  · exact .inr (hleft.stuck ha₁ halive hclosed hevents)

theorem Run.die (h : Run Trial p events q) :
    Run Trial p (events ++ [.died]) (q.1, { q.2 with alive := false }) :=
  h.snoc (.step (.died q.1 q.2))

/-- A region that stops serving while a pass is under way, and is shut down later: a key is not
stored any more, the one that was stays in the index, and the draft is gone after one hold. -/
theorem late_shutdown_is_final : ∃ p q q₁ q' : World,
    (Region.openAt (roomFor 2)).result .empty = (.ok p.2, p.1) ∧
    Run Trial p [.called (.put (note "x" [1])) (.ok ()), .called .requestCompaction (.ok true),
      .held false, .died] q ∧ q.2.alive = false ∧ Trial q .shutDown q₁ ∧
    Run Trial q₁ [.called (.put (note "y" [2])) (.error (.notAlive "a")), .held false] q' ∧
    (q₁.2.store.index.keys = [.name "x"] ∧ Littered q₁ ∧ q'.2.pass = none ∧ ¬ Littered q') ∧
    q'.2.alive = false ∧ Frozen q₁ q' ∧ Inert q' ∧ (¬ Littered q' ∨ StuckIn q₁
      [.called (.put (note "y" [2])) (.error (.notAlive "a")), .held false]) := by
  have h : ((opened? (roomFor 2) .empty).map fun p =>
      let q₁ := (Call.put (note "x" [1])).perform.result p
      let q₂ := Call.requestCompaction.perform.result q₁.2
      let q₃ := ((holdPass id).run q₂.2).2
      let q₄ := (Region.shutDown.result (q₃.1, { q₃.2 with alive := false })).2
      let q₅ := (Call.put (note "y" [2])).perform.result q₄
      let q₆ := ((holdPass id).run q₅.2).2
      decide ((q₁.1 = .ok () ∧ q₂.1 = .ok true ∧
          decide (q₂.2.2.compactions < q₃.2.compactions) = false) ∧
        (q₅.1 = .error (.notAlive "a") ∧
          decide (q₅.2.2.compactions < q₆.2.compactions) = false) ∧
        q₄.2.pass.any (·.draft?.isSome) ∧
        q₄.2.store.index.keys = [.name "x"] ∧ q₄.1.holds q₄.2.config.draftFile ∧
        q₆.2.pass.isNone ∧ q₆.1.holds q₆.2.config.draftFile = false)) = some true := by
    decide +kernel
  obtain ⟨p, hp, h⟩ := Option.map_eq_some_iff.1 h
  obtain ⟨⟨h₁, h₂, h₃⟩, ⟨h₄, h₅⟩, hunder, hkeys, hlittered, hover, hgone⟩ := of_decide_eq_true h
  have hid : ∀ l : List Key, (id l).Perm l := fun l => .refl l
  have ho := opened?_eq_some_iff.1 hp
  have hbefore := ((((Run.nil p).ask _ h₁).ask _ h₂).hold hid h₃).die
  have hafter := ((Run.nil _).ask _ h₄).hold hid h₅
  have hevents : ∀ e ∈ [Event.called (.put (note "y" [2])) (.error (.notAlive "a")),
      .held false], e.keepsRegion := by
    simp [Event.keepsRegion]
  obtain ⟨hdead, hfinal⟩ := death_is_final empty_healthy.orderly ho hbefore
  obtain ⟨hfrozen, hinert, hdraft⟩ := hfinal (.step (.shutDown _)) hafter hevents
  have hover := Option.isNone_iff_eq_none.1 hover
  have hlater := ((Run.nil _).snoc (.step (.shutDown _))).append hafter
  refine ⟨p, _, _, _, ho, hbefore, rfl, .step (.shutDown _), hafter,
    ⟨hkeys, hlittered, hover, ?_⟩, hdead rfl hlater ?_, hfrozen, hinert,
    hdraft (.inl ((Option.any_eq_true _ _).1 hunder)) hover⟩
  · rw [Littered, hgone]
    exact Bool.false_ne_true
  · simp [Event.keepsRegion]

/-- The draft of a pass that finds its region dead stays if its name cannot be taken away. -/
theorem stuck_draft_stays : ∃ p q q₁ q' : World,
    (Region.openAt (roomFor 2)).result (Store.failing [16] .empty) = (.ok p.2, p.1) ∧
    Run Trial p [.called (.put (note "x" [1])) (.ok ()), .called .requestCompaction (.ok true),
      .held false, .died] q ∧ Trial q .shutDown q₁ ∧ Run Trial q₁ [.held false] q' ∧
    q₁.2.pass.isSome ∧ q'.2.pass = none ∧ Littered q' := by
  have h : ((opened? (roomFor 2) (Store.failing [16] .empty)).map fun p =>
      let q₁ := (Call.put (note "x" [1])).perform.result p
      let q₂ := Call.requestCompaction.perform.result q₁.2
      let q₃ := ((holdPass id).run q₂.2).2
      let q₄ := (Region.shutDown.result (q₃.1, { q₃.2 with alive := false })).2
      let q₅ := ((holdPass id).run q₄).2
      decide ((q₁.1 = .ok () ∧ q₂.1 = .ok true ∧
          decide (q₂.2.2.compactions < q₃.2.compactions) = false) ∧
        decide (q₄.2.compactions < q₅.2.compactions) = false ∧ q₄.2.pass.isSome ∧
        q₅.2.pass.isNone ∧ q₅.1.holds q₅.2.config.draftFile)) = some true := by
    decide +kernel
  obtain ⟨p, hp, h⟩ := Option.map_eq_some_iff.1 h
  obtain ⟨⟨h₁, h₂, h₃⟩, h₄, hunder, hover, hlittered⟩ := of_decide_eq_true h
  have hid : ∀ l : List Key, (id l).Perm l := fun l => .refl l
  have hbefore := ((((Run.nil p).ask _ h₁).ask _ h₂).hold hid h₃).die
  have hafter := (Run.nil _).hold hid h₄
  exact ⟨p, _, _, _, opened?_eq_some_iff.1 hp, hbefore, .step (.shutDown _), hafter, hunder,
    Option.isNone_iff_eq_none.1 hover, hlittered⟩

end Region

end DiskTier
