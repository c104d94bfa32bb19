import DiskTier.Proofs.StaleKeys
import DiskTier.Proofs.Shadow.Region

/-!
# A reset is final

Runs in which any operation on the files may fail: a planned failure refuses it, or cuts a write
short, and a process that stops in the middle of an event is one whose remaining operations all
fail. Files that could not be opened may be tried again.

Once a reset has returned, nothing depends on what the files held before: next to the run goes a
second one over files that hold nothing at all, with the same answers.
-/

namespace DiskTier.Region

open FileSystem

variable {α : Type} {c : Config} {D : Nat} {P : Key → Prop} {d d' d'' : FileSystem} {g : Shade}
  {p p' p₁ q : World} {r r' : Region} {events before after : List Event} {event : Event}

/-! ### Runs with failures -/

/-- Attempts to open the files of a region that fail, one after the other. -/
inductive Vain (c : Config) : FileSystem → FileSystem → Prop where
  | nil (d : FileSystem) : Vain c d d
  | snoc {d d' d'' : FileSystem} {c' : Config} {e : Error} (h : Vain c d d')
      (hname : c'.cacheName = c.cacheName) (hpath : c'.diskPath = c.diskPath)
      (hfail : (Region.openAt c').result d' = (.error e, d'')) : Vain c d d''

/-- One event. To open the files again may take several attempts. -/
inductive Trial : World → Event → World → Prop where
  | step {p q : World} {event : Event} (h : Step p event q) : Trial p event q
  | retried {d d' d'' : FileSystem} {r r' : Region} {c : Config} (hvain : Vain r.config d d')
      (hname : c.cacheName = r.config.cacheName) (hpath : c.diskPath = r.config.diskPath)
      (hopen : (Region.openAt c).result d' = (.ok r', d'')) :
      Trial (d, r) (.reopened c) (d'', r')

/-- A reset has returned, which was asked for or followed a read that failed. -/
inductive ResetTo : World → World → Prop where
  | asked {p q : World} (h : Region.reset.result p = (.ok (), q)) : ResetTo p q
  | read {p p' q : World} {k : Key} {e : Error} (hlookup : (lookup k).result p = (.error e, p'))
      (h : Region.reset.result p' = (.ok (), q)) : ResetTo p q

/-- An event that neither holds the pass nor ends the process. -/
def Event.leavesPass : Event → Prop
  | .held _ => False
  | .reopened _ => False
  | _ => True

/-- The world with other bytes in its files. -/
abbrev shade (g : Shade) (p : World) : World := (p.1.shadow g, p.2)

/-! ### One event -/

/-- Besides the keys that were there, those of elements that were stored. -/
def OrStored (P : Key → Prop) (events : List Event) (k : Key) : Prop :=
  P k ∨ ∃ e, .called (.put e) (.ok ()) ∈ events ∧ e.key = k

theorem shadowed_perform (h : Anchored D P d g r) (call : Call α) :
    Shadowed (onFiles shadow) call.perform.result (d, r) g fun answer q g' =>
      Stays D (OrStored P [.called call answer]) r q.1 g' q.2 := by
  have hsame : ∀ {event d' g' r'}, Stays D P r d' g' r' →
      Stays D (OrStored P [event]) r d' g' r' := fun hs => hs.mono fun _ => .inl
  cases call with
  | put e =>
    refine (shadowed_put h e).mono ?_
    rintro (err | u) q g' hs
    · exact hs.mono fun k hk => hk.elim .inl nofun
    · refine hs.mono fun k hk => hk.imp_right fun hkey => ⟨e, ?_, hkey.2.symm⟩
      exact List.mem_singleton.2 rfl
  | get k => exact (shadowed_get h k).mono fun _ _ _ => hsame
  | groupKeys name => exact ⟨g, rfl, hsame h.stays⟩
  | remove k => exact shadowed_change (hsame (h.remove k))
  | removeGroup group => exact shadowed_change (hsame (h.removeGroup group))
  | reset => exact (shadowed_reset h).mono fun _ _ _ hs => hsame hs.1
  | saveKeys => exact (shadowed_saveKeys h).mono fun _ _ _ => hsame
  | size => exact ⟨g, rfl, hsame h.stays⟩
  | stats => exact ⟨g, rfl, hsame h.stays⟩
  | requestCompaction => exact shadowed_change (hsame h.requestCompaction)

/-- What one event leads to. -/
structure Leads (D : Nat) (P : Key → Prop) (p : World) (event : Event) (q : World) (g : Shade) :
    Prop where
  anchored : Anchored D (OrStored P [event]) q.1 g q.2
  dead : (p.2.closed = true → p.2.alive = false) → q.2.closed = true → q.2.alive = false
  leavesPass : event.leavesPass → p.2.store.generation ≤ q.2.store.generation ∧
    ∀ pass, p.2.pass = some pass → q.2.pass = some pass
  stale : ∀ installed, event = .held installed → ∀ pass, p.2.pass = some pass →
    pass.IsStale p.2.store p.2.alive → installed = false
  attended : p.2.Attended → q.2.Attended

theorem Stays.leads (h : Stays D (OrStored P [event]) p.2 q.1 g q.2)
    (hevent : ∀ installed, event ≠ .held installed) : Leads D P p event q g :=
  ⟨h.anchored, fun hdead hc => h.alive.trans (hdead (h.closed ▸ hc)),
    fun _ => ⟨h.later.generation, h.pass⟩, fun installed he => absurd he (hevent installed),
    h.attended⟩

/-- Attempts in vain leave the files in their directory, and are in vain in the shadow. -/
theorem Vain.shadowed (h : Vain c d d') (hr : Store.Rooted c D P d g) :
    ∃ g', Vain c (d.shadow g) (d'.shadow g') ∧ Store.Rooted c D P d' g' := by
  induction h with
  | nil => exact ⟨g, .nil _, hr⟩
  | snoc h hname hpath hfail ih =>
    obtain ⟨g₁, hvain, hr₁⟩ := ih
    obtain ⟨g₂, heq, hr₂, -⟩ := shadowed_openAt (hr₁.congr hname hpath)
    rw [hfail] at heq hr₂
    exact ⟨g₂, hvain.snoc hname hpath heq, hr₂.congr hname.symm hpath.symm⟩

/-- Files that are opened again make an anchored region. -/
theorem Anchored.reopened {c : Config} (h : Anchored D P d g r) (hvain : Vain r.config d d')
    (hname : c.cacheName = r.config.cacheName) (hpath : c.diskPath = r.config.diskPath)
    (hopen : (Region.openAt c).result d' = (.ok r', d'')) :
    ∃ g', Trial (d.shadow g, r) (.reopened c) (d''.shadow g', r') ∧
      Leads D P (d, r) (.reopened c) (d'', r') g' := by
  obtain ⟨g₁, hvain₁, hr₁⟩ := hvain.shadowed h.store.rooted
  obtain ⟨g₂, heq, -, hok⟩ := shadowed_openAt (hr₁.congr hname hpath)
  obtain ⟨-, d₁, d₂, -, -, -, hnew⟩ := openAt_stages hopen
  rw [hopen] at heq hok
  obtain ⟨ha, -, -, hattended⟩ := hok r' rfl
  refine ⟨g₂, .retried hvain₁ hname hpath heq, ⟨?_, fun _ hc => ?_, False.elim, ?_, fun _ =>
    hattended⟩⟩
  · exact { ha with store := ha.store.mono fun _ => .inl }
  · rw [show (d'', r').2 = r' from rfl, hnew] at hc
    cases hc
  · rintro installed ⟨⟩

/-- Every event keeps a region anchored, and does the same in the shadow. -/
theorem Trial.shadowed (h : Anchored D P p.1 g p.2) (ht : Trial p event q) :
    ∃ g', Trial (shade g p) event (shade g' q) ∧ Leads D P p event q g' := by
  cases ht with
  | retried hvain hname hpath hopen => exact h.reopened hvain hname hpath hopen
  | step hs =>
    cases hs with
    | called call p =>
      obtain ⟨g', heq, hstays⟩ := shadowed_perform h call
      have hstep := Step.called call (shade g p)
      rw [show call.perform.result (shade g p) = _ from heq] at hstep
      exact ⟨g', .step hstep, hstays.leads nofun⟩
    | looked k p =>
      obtain ⟨g', heq, hstays⟩ := shadowed_lookup h k
      have hstep := Step.looked k (shade g p)
      rw [show (lookup k).result (shade g p) = _ from heq] at hstep
      exact ⟨g', .step hstep, (hstays.mono fun _ => .inl).leads nofun⟩
    | @held arrange harrange p =>
      obtain ⟨g', heq, ha, halive, hclosed, hstale, hattended⟩ := shadowed_holdPass arrange h
      have hstep := Step.held harrange (shade g p)
      rw [show (holdPass arrange).run (shade g p) = _ from heq] at hstep
      refine ⟨g', .step hstep, ⟨{ ha with store := ha.store.mono fun _ => .inl },
        fun hdead hc => halive.trans (hdead (hclosed ▸ hc)), False.elim, ?_, hattended⟩⟩
      rintro _ ⟨⟩ pass hpass hs
      rw [decide_eq_false_iff_not]
      exact Nat.not_lt_of_le (Nat.le_of_eq (hstale pass hpass hs))
    | died d r =>
      refine ⟨g, .step (.died _ r), ⟨?_, fun _ _ => rfl, fun _ => ⟨Nat.le_refl _, fun _ => id⟩,
        nofun, nofun⟩⟩
      have hdied : Anchored D P d g { r with alive := false } := h.anyway
      exact { hdied with store := h.store.mono fun _ => .inl }
    | shutDown p =>
      obtain ⟨g', heq, hstays⟩ := shadowed_shutDown h
      have hstep := Step.shutDown (shade g p)
      rw [show Region.shutDown.result (shade g p) = _ from heq] at hstep
      refine ⟨g', .step hstep, ?_⟩
      split at hstays
      · exact (hstays.mono fun _ => .inl).leads nofun
      · have hstays := hstays.mono (Q := OrStored P [Event.shutDown]) fun _ => .inl
        refine ⟨hstays.anchored, fun _ _ => hstays.alive,
          fun _ => ⟨hstays.later.generation, hstays.pass⟩, nofun, fun _ halive => ?_⟩
        rw [hstays.alive] at halive
        cases halive
    | reopened hname hpath hopen => exact h.reopened (.nil _) hname hpath hopen

/-! ### Runs -/

/-- A run keeps a region anchored, and does the same in the shadow. -/
theorem Run.shadowed (h : Anchored D P p.1 g p.2) (hdead : p.2.closed = true → p.2.alive = false)
    (hr : Run Trial p events q) :
    ∃ g', Run Trial (shade g p) events (shade g' q) ∧
      Anchored D (OrStored P events) q.1 g' q.2 ∧ (q.2.closed = true → q.2.alive = false) := by
  induction hr with
  | nil => exact ⟨g, .nil _, { h with store := h.store.mono fun _ => .inl }, hdead⟩
  | snoc hr he ih =>
    obtain ⟨g₁, hrun, ha, hdead₁⟩ := ih
    obtain ⟨g₂, hstep, hleads⟩ := he.shadowed ha
    refine ⟨g₂, hrun.snoc hstep, ?_, hleads.dead hdead₁⟩
    refine { hleads.anchored with store := hleads.anchored.store.mono fun k hk => ?_ }
    rcases hk with (hk | ⟨e, he, hkey⟩) | ⟨e, he, hkey⟩
    · exact .inl hk
    · exact .inr ⟨e, List.mem_append_left _ he, hkey⟩
    · exact .inr ⟨e, List.mem_append_right _ he, hkey⟩

/-- As long as it is not held, the pass stays what it is. -/
theorem Run.leavesPass (h : Anchored D P p.1 g p.2) (hdead : p.2.closed = true → p.2.alive = false)
    (hr : Run Trial p events q) (hevents : ∀ e ∈ events, e.leavesPass) :
    p.2.store.generation ≤ q.2.store.generation ∧
      ∀ pass, p.2.pass = some pass → q.2.pass = some pass := by
  induction hr with
  | nil => exact ⟨Nat.le_refl _, fun _ => id⟩
  | snoc hr he ih =>
    obtain ⟨hgen, hpass⟩ := ih fun e hmem => hevents e (List.mem_append_left _ hmem)
    obtain ⟨g₁, -, ha, -⟩ := hr.shadowed h hdead
    obtain ⟨g₂, -, hleads⟩ := he.shadowed ha
    obtain ⟨hgen', hpass'⟩ := hleads.leavesPass (hevents _ (by simp))
    exact ⟨Nat.le_trans hgen hgen', fun pass hp => hpass' pass (hpass pass hp)⟩

/-- In no run keys are collected for a pass that is over. -/
theorem Run.attended (h : Anchored D P p.1 g p.2) (hdead : p.2.closed = true → p.2.alive = false)
    (hr : Run Trial p events q) (ha : p.2.Attended) : q.2.Attended := by
  induction hr with
  | nil => exact ha
  | snoc hr he ih =>
    obtain ⟨g₁, -, hq, -⟩ := hr.shadowed h hdead
    obtain ⟨g₂, -, hleads⟩ := he.shadowed hq
    exact hleads.attended ih

/-- Whatever happens to a region that was opened, it stays anchored. -/
theorem Run.anchored (hr : Run Trial p events q) (hd : d.Orderly)
    (ho : (Region.openAt c).result d = (.ok p.2, p.1)) :
    ∃ D P g, Anchored D P q.1 g q.2 ∧ (q.2.closed = true → q.2.alive = false) ∧
      q.2.Attended := by
  obtain ⟨D, g, h, -, -, -, hpending⟩ := anchored_of_openAt hd ho
  have hdead : p.2.closed = true → p.2.alive = false := by
    obtain ⟨-, d₁, d₂, -, -, -, hnew⟩ := openAt_stages ho
    rw [hnew]
    nofun
  have hattended : p.2.Attended := by
    intro _ hp
    rw [hpending] at hp
    cases hp
  obtain ⟨g', -, hq, hdead'⟩ := hr.shadowed h hdead
  exact ⟨D, _, g', hq, hdead', hr.attended h hdead hattended⟩

/-- A run can be cut before any of its events. -/
theorem Run.cut {step : World → Event → World → Prop} {l l' : List Event}
    (hr : Run step p (l ++ event :: l') q) : ∃ q₁ q₂, Run step p l q₁ ∧ step q₁ event q₂ := by
  generalize hevents : l ++ event :: l' = events at hr
  induction hr generalizing l' with
  | nil => simp at hevents
  | @snoc q q' events e hr he ih =>
    rcases List.eq_nil_or_concat l' with rfl | ⟨l'', e', rfl⟩
    · obtain ⟨rfl, heq⟩ := List.append_inj' hevents rfl
      cases heq
      exact ⟨_, _, hr, he⟩
    · rw [List.concat_eq_append, ← List.cons_append, ← List.append_assoc] at hevents
      obtain ⟨heq, -⟩ := List.append_inj' hevents rfl
      exact ih heq

/-! ### After a reset -/

/-- Where nothing fails, a region whose store is new is sound, whatever it held before. -/
theorem Anchored.sound_of_renewed {s : Store} (h : Anchored D P d g r)
    (hnew : Store.Renewed r.config D s d r.store) (hcalm : d.Calm) (hclosed : r.closed = false)
    (hstale : ∀ w, r.pass = some (.running w) → w.generation < r.store.generation) :
    Sound [] d r [] [] := by
  have hholds : ∀ {f : RecordFile} {x : Spot}, RecordFile.Placed d f x → f.isOpen →
      (∀ n, d.at? x = some (.file n) → d.content n = []) → f.length = 0 →
      RecordFile.Holds d f x [] := by
    intro f x hf hopen hempty hlen
    obtain ⟨n, hn⟩ := Option.isSome_iff_exists.1 hopen
    have hx := hf.handle n hn
    refine ⟨hf.site.lodged, ⟨n, hx, ?_, fun m hm => ?_⟩, ?_⟩
    · rw [hempty n hx]
      rfl
    · exact Option.some.inj (hm.symm.trans hn)
    · rw [hlen]
      rfl
  obtain ⟨dataFile, keyFile, heq⟩ := hnew.forgets
  have hindex : r.store.index = .empty s.index.capacity := by rw [heq]; rfl
  have hfree : r.store.free = .empty s.free.capacity := by rw [heq]; rfl
  have hmounted : r.store.Mounted r.config d [] (Store.listing []) :=
    ⟨h.store.orderly.healthy_of_calm hcalm, h.store.dataPath, h.store.keyPath,
      ⟨_, rfl, hholds h.store.dataFile hnew.isOpen.1 hnew.data hnew.dataLength⟩,
      ⟨_, rfl, hholds h.store.keyFile hnew.isOpen.2 hnew.keys hnew.keyLength⟩⟩
  refine ⟨⟨hmounted, Store.sound_of_empty hindex hfree, h.capacity, h.freeCapacity⟩, h.valid,
    fun _ => hnew.isOpen, fun hc => ?_, h.compacting, fun pass hpass => ?_⟩
  · rw [hclosed] at hc
    cases hc
  · have hbound := h.bound pass hpass
    cases pass with
    | requested => trivial
    | stopping generation draft => exact hbound
    | running w =>
      obtain ⟨hpath, hgen, -⟩ := hbound
      exact ⟨hgen, hpath, fun hw => absurd hw (Nat.ne_of_lt (hstale w hpass))⟩

/-- What a region is after a reset: it holds no key, nothing of what its files held is left, and a
pass that had listed its keys is stale. -/
structure Cleared (D : Nat) (p : World) : Prop where
  anchored : Anchored D (fun _ => False) p.1 [] p.2
  dead : p.2.closed = true → p.2.alive = false
  stale : ∀ w, p.2.pass = some (.running w) → w.generation < p.2.store.generation
  sound : p.1.Calm → Sound [] p.1 p.2 [] []

theorem Anchored.cleared (h : Anchored D P p.1 g p.2)
    (hdead : p.2.closed = true → p.2.alive = false)
    (hr : Region.reset.result p = (.ok (), q)) : Cleared D q := by
  obtain ⟨g', hstays, hok⟩ := (shadowed_reset h).post
  rw [show Region.reset.result (p.1, p.2) = _ from hr] at hstays hok
  obtain ⟨halive, hpass, hgen, hnew⟩ := hok rfl
  have ha := hstays.anchored
  have hclosed : q.2.closed = false := by
    rw [hstays.closed, Bool.eq_false_iff]
    intro hc
    rw [hdead hc] at halive
    cases halive
  have hstale : ∀ w, q.2.pass = some (.running w) → w.generation < q.2.store.generation := by
    intro w hw
    obtain ⟨-, hle, -⟩ := h.bound (.running w) (hpass ▸ hw)
    show w.generation < q.2.store.generation
    rw [hgen]
    exact Nat.lt_succ_of_le hle
  rw [← hstays.config] at hnew
  refine ⟨⟨?_, ha.capacity, ha.freeCapacity, ha.valid, ha.compacting, fun pass hpass => ?_⟩,
    fun hc => absurd hc (by simp [hclosed]), hstale,
    fun hcalm => ha.sound_of_renewed hnew hcalm hclosed hstale⟩
  · -- both files are empty, and so they are in a shadow where all files are
    obtain ⟨dataFile, keyFile, heq⟩ := hnew.forgets
    have hkept : ∀ x : Spot, (∀ n, q.1.at? x = some (.file n) → q.1.content n = []) →
        q.1.KeptAt [] x := fun x hx n hn => (hx n hn).symm
    have hlists : Index.Lists (fun _ => False)
        (RecordFile.bytesAt q.1 (D, q.2.config.keyName)) := by
      have hnil : RecordFile.bytesAt q.1 (D, q.2.config.keyName) = [] := by
        unfold RecordFile.bytesAt
        split
        · next n hn =>
          rw [hnew.keys n hn]
          rfl
        · rfl
      rw [hnil]
      exact Index.lists_nil _
    have hwithin : q.2.store.index.Within fun _ => False := by
      rw [heq]
      exact Index.within_empty _ _
    exact ⟨⟨ha.store.orderly, ha.store.rooted.data, ha.store.rooted.keys, ha.store.rooted.draft,
      hkept _ hnew.data, hkept _ hnew.keys, hlists⟩, ha.store.dataPath, ha.store.keyPath,
      ha.store.dataFile, ha.store.keyFile, hwithin⟩
  · have hbound := ha.bound pass hpass
    cases pass with
    | requested => trivial
    | stopping generation draft => exact hbound
    | running w =>
      obtain ⟨hpath, hle, -⟩ := hbound
      exact ⟨hpath, hle, fun hw => absurd hw (Nat.ne_of_lt (hstale w hpass))⟩

theorem ResetTo.cleared (h : Anchored D P p.1 g p.2)
    (hdead : p.2.closed = true → p.2.alive = false) (hr : ResetTo p q) : Cleared D q := by
  cases hr with
  | asked hr => exact h.cleared hdead hr
  | @read p' q k e hlookup hr =>
    obtain ⟨g', hstays⟩ := (shadowed_lookup h k).post
    rw [show (lookup k).result (p.1, p.2) = _ from hlookup] at hstays
    refine hstays.anchored.cleared (fun hc => ?_) hr
    exact hstays.alive.trans (hdead (hstays.closed ▸ hc))

/-- Where nothing fails, files in their directory are opened at the first attempt, unless the
settings are not valid. -/
theorem Vain.eq_of_calm (h : Vain c d d') (hr : Store.Rooted c D P d g) (hcalm : d.Calm) :
    d' = d := by
  induction h with
  | nil => rfl
  | @snoc d' d'' c' e h hname hpath hfail ih =>
    obtain rfl := ih
    cases hv : c'.validate with
    | ok u =>
      obtain ⟨r, d₁, hok⟩ :=
        openAt_total (hr.congr hname hpath) hcalm (Config.valid_of_validate hv)
      cases hok.symm.trans hfail
    | error err =>
      unfold Region.openAt at hfail
      rw [Action.result_bind, Action.result_liftM, hv] at hfail
      cases hfail
      rfl

/-- A run after a reset keeps the region sound if nothing fails. -/
theorem Cleared.isSound (h : Cleared D p) (hcalm : p.1.Calm) (hr : Run Trial p events q) :
    IsSound (Event.stored events) q := by
  induction hr with
  | nil => exact ⟨[], [], h.sound hcalm⟩
  | @snoc q q' events e hr he ih =>
    have hstep : Step q e q' := by
      cases he with
      | step hs => exact hs
      | retried hvain hname hpath hopen =>
        obtain ⟨g, -, ha, -⟩ := hr.shadowed h.anchored h.dead
        obtain ⟨data, listed, hsound⟩ := ih
        cases hvain.eq_of_calm ha.store.rooted hsound.intact.mounted.healthy.calm
        exact .reopened hname hpath hopen
    have hsound := isSound_step ih hstep
    rw [Event.stored, List.filterMap_append]
    exact hsound

/-- What a read answers is what its first half answers. -/
theorem Trusted.get {k : Key} (h : Trusted events p k ((lookup k).result p).1) :
    Trusted events p k ((Region.get k).result p).1 := by
  rw [result_get]
  rcases hr : (lookup k).result p with ⟨e | found, p'⟩ <;> rw [hr] at h
  · exact h
  · exact h

/-- Whatever happens before and after a reset, it is final: whoever is there was stored since, what
is done next is what is done over files that hold nothing, no pass that had listed its keys is
carried through, and if nothing fails, reads find what was stored since. -/
theorem reset_is_final (hd : d.Orderly) (ho : (Region.openAt c).result d = (.ok p.2, p.1))
    (hbefore : Run Trial p before q) (hreset : ResetTo q p₁) (hafter : Run Trial p₁ after p') :
    (∀ k, p'.2.store.index.contains k → ∃ e, .called (.put e) (.ok ()) ∈ after ∧ e.key = k) ∧
      (∃ d', Run Trial ({ p₁.1 with contents := [] }, p₁.2) after (d', p'.2)) ∧
      (∀ w l installed l', p₁.2.pass = some (.running w) → after = l ++ .held installed :: l' →
        (∀ e ∈ l, e.leavesPass) → installed = false) ∧
      (p₁.1.Calm → ∀ k, Trusted after p' k ((lookup k).result p').1 ∧
        Trusted after p' k ((Region.get k).result p').1) := by
  obtain ⟨D, g, h, -, -⟩ := anchored_of_openAt hd ho
  have hdead : p.2.closed = true → p.2.alive = false := by
    obtain ⟨-, d₁, d₂, -, -, -, hnew⟩ := openAt_stages ho
    rw [hnew]
    nofun
  obtain ⟨g₁, -, hq, hdead₁⟩ := hbefore.shadowed h hdead
  have hcleared := hreset.cleared hq hdead₁
  obtain ⟨g₂, hrun, hp', -⟩ := hafter.shadowed hcleared.anchored hcleared.dead
  refine ⟨fun k hk => ?_, ⟨_, hrun⟩, ?_, fun hcalm k => ?_⟩
  · have hk : (p'.2.store.index.get? k).isSome := by
      simpa [Index.contains, Index.get?] using hk
    exact (hp'.store.within.of_get? hk).resolve_left id
  · rintro w l installed l' hpass rfl hl
    obtain ⟨q₁, q₂, hrun₁, hheld⟩ := hafter.cut
    obtain ⟨hgen, hkeep⟩ := hrun₁.leavesPass hcleared.anchored hcleared.dead hl
    obtain ⟨g₃, -, hq₁, -⟩ := hrun₁.shadowed hcleared.anchored hcleared.dead
    obtain ⟨g₄, -, hleads⟩ := hheld.shadowed hq₁
    refine hleads.stale installed rfl _ (hkeep _ hpass) (.inr ?_)
    exact Nat.ne_of_lt (Nat.lt_of_lt_of_le (hcleared.stale w hpass) hgen)
  · obtain ⟨data, listed, hsound⟩ := hcleared.isSound hcalm hafter
    exact ⟨hsound.trusted k, (hsound.trusted k).get⟩

theorem Trial.hold {arrange : List Key → List Key} (harrange : ∀ l, (arrange l).Perm l)
    {installed : Bool}
    (hi : decide (q.2.compactions < ((holdPass arrange).run q).2.2.compactions) = installed) :
    Trial q (.held installed) ((holdPass arrange).run q).2 := by
  subst hi
  exact .step (.held harrange q)

theorem Run.hold {arrange : List Key → List Key} (h : Run Trial p events q)
    (harrange : ∀ l, (arrange l).Perm l) {installed : Bool}
    (hi : decide (q.2.compactions < ((holdPass arrange).run q).2.2.compactions) = installed) :
    Run Trial p (events ++ [.held installed]) ((holdPass arrange).run q).2 :=
  h.snoc (.hold harrange hi)

theorem Run.ask {α : Type} (h : Run Trial p events q) (call : Call α) {answer : Except Error α}
    (ha : (call.perform.result q).1 = answer) :
    Run Trial p (events ++ [.called call answer]) (call.perform.result q).2 := by
  subst ha
  exact h.snoc (.step (.called call q))

/-- A key that is listed by the key file and by a pass when the reset comes does not come back. -/
theorem old_key_stays_away : ∃ p q p₁ p' : World,
    (Region.openAt (roomFor 2)).result .empty = (.ok p.2, p.1) ∧
    Run Trial p [.called (.put (note "x" [1])) (.ok ()), .called .saveKeys (.ok ()),
      .called .requestCompaction (.ok true), .held false] q ∧ ResetTo q p₁ ∧
    Run Trial p₁ [.called (.put (note "y" [2])) (.ok ()), .held false, .called .saveKeys (.ok ()),
      .reopened (roomFor 2)] p' ∧ q.2.pass.isSome ∧ p'.2.store.index.keys = [.name "y"] ∧
    ∀ k, p'.2.store.index.contains k → ∃ e, .called (.put e) (.ok ()) ∈
      ([.called (.put (note "y" [2])) (.ok ()), .held false, .called .saveKeys (.ok ()),
        .reopened (roomFor 2)] : List Event) ∧ e.key = k := by
  have h : ((opened? (roomFor 2) .empty).bind fun p =>
      let q₁ := (Call.put (note "x" [1])).perform.result p
      let q₂ := Call.saveKeys.perform.result q₁.2
      let q₃ := Call.requestCompaction.perform.result q₂.2
      let q₄ := ((holdPass id).run q₃.2).2
      let p₁ := Region.reset.result q₄
      let q₅ := (Call.put (note "y" [2])).perform.result p₁.2
      let q₆ := ((holdPass id).run q₅.2).2
      let q₇ := Call.saveKeys.perform.result q₆
      (opened? (roomFor 2) q₇.2.1).map fun p' =>
        decide ((q₁.1 = .ok () ∧ q₂.1 = .ok () ∧ q₃.1 = .ok true ∧
          decide (q₃.2.2.compactions < q₄.2.compactions) = false) ∧ p₁.1 = .ok () ∧
        (q₅.1 = .ok () ∧ decide (q₅.2.2.compactions < q₆.2.compactions) = false ∧
          q₇.1 = .ok ()) ∧ (q₇.2.2.config.cacheName = "a" ∧ q₇.2.2.config.diskPath = ⟨"d"⟩) ∧
        q₄.2.pass.isSome ∧ p'.2.store.index.keys = [.name "y"])) = some true := by
    decide +kernel
  obtain ⟨p, hp, h⟩ := Option.bind_eq_some_iff.1 h
  obtain ⟨p', hp', h⟩ := Option.map_eq_some_iff.1 h
  obtain ⟨⟨h₁, h₂, h₃, h₄⟩, hreset, ⟨h₅, h₆, h₇⟩, ⟨hname, hpath⟩, hpass, hkeys⟩ :=
    of_decide_eq_true h
  have hid : ∀ l : List Key, (id l).Perm l := fun l => .refl l
  have ho := opened?_eq_some_iff.1 hp
  have hbefore := ((((Run.nil p).ask _ h₁).ask _ h₂).ask _ h₃).hold hid h₄
  have hafter := ((((Run.nil _).ask _ h₅).hold hid h₆).ask _ h₇).snoc
    (.retried (.nil _) hname.symm hpath.symm (opened?_eq_some_iff.1 hp'))
  have hto := ResetTo.asked (Prod.ext hreset rfl)
  exact ⟨p, _, _, p', ho, hbefore, hto, hafter, hpass, hkeys,
    (reset_is_final empty_healthy.orderly ho hbefore hto hafter).1⟩

end DiskTier.Region
