import DiskTier.Proofs.Abandonment

/-!
# Regions that share a directory

The files of a region are told apart from those of another by their names alone, which are made of
the name of the region and an ending. Two regions have a file in common only if the name of one is
that of the other with `Temp` behind it: then the draft of this one is the data file of that one,
and opening it takes the data file away.

Whatever else a region does, and whatever fails, it changes nothing under other names than the three
of its own. So regions without a common file may be opened, compacted, reset and disposed of side by
side, and none of them sees a file of its own change under its hands.
-/

namespace DiskTier

open FileSystem RecordFile

variable {c c' : Config} {d d' : FileSystem} {g g' : Shade} {s : Store} {P : Key → Prop} {D : Nat}

/-! ### Names -/

namespace Config

/-- The files of a region: those that it has open, and the draft of a compaction. -/
def files (c : Config) : List Path := [c.dataFile, c.keyFile, c.draftFile]

/-- Two regions have no file in common. -/
def Apart (c c' : Config) : Prop := ∀ f ∈ c.files, f ∉ c'.files

theorem ne_of_getLast? {a b s t : String} (hs : s ≠ "") (ht : t ≠ "")
    (h : s.toList.getLast? ≠ t.toList.getLast?) : a ++ s ≠ b ++ t := by
  intro heq
  have hlast := congrArg (fun u => u.toList.getLast?) heq
  have hend : ∀ {a s : String}, s ≠ "" → (a ++ s).toList.getLast? = s.toList.getLast? := by
    intro a s hs
    rw [String.toList_append, List.getLast?_append]
    cases hl : s.toList.getLast? with
    | none => exact absurd (String.toList_eq_nil_iff.1 (List.getLast?_eq_none_iff.1 hl)) hs
    | some u => rfl
  exact h (by rwa [hend hs, hend ht] at hlast)

theorem append_cancel {a b s : String} (h : a ++ s = b ++ s) : a = b := by
  have := congrArg String.toList h
  rw [String.toList_append, String.toList_append] at this
  exact String.toList_inj.1 (List.append_cancel_right this)

/-- Two regions of different names have a file name in common only if a draft has the name of the
data file of the other. -/
theorem regionNames_meet_iff (h : c'.cacheName ≠ c.cacheName) :
    (∃ name, Store.IsRegionName c name ∧ Store.IsRegionName c' name) ↔
      c'.cacheName = c.cacheName ++ "Temp" ∨ c.cacheName = c'.cacheName ++ "Temp" := by
  have hdraft : ∀ {a b : String}, a ++ ".data" = b ++ "Temp.data" → a = b ++ "Temp" := by
    intro a b hab
    refine append_cancel (s := ".data") ?_
    rw [hab, String.append_assoc]
    rfl
  have hkey : ∀ {a b t : String}, t.toList.getLast? = some 'a' → a ++ ".key" ≠ b ++ t := by
    intro a b t ht
    refine ne_of_getLast? (by decide) ?_ (by rw [ht]; decide)
    rintro rfl
    cases ht
  constructor
  · rintro ⟨name, (rfl | rfl) | rfl, (heq | heq) | heq⟩
    · exact absurd (append_cancel heq).symm h
    · exact absurd heq.symm (hkey rfl)
    · exact .inr (hdraft heq)
    · exact absurd heq (hkey rfl)
    · exact absurd (append_cancel heq).symm h
    · exact absurd heq (hkey rfl)
    · exact .inl (hdraft heq.symm)
    · exact absurd heq.symm (hkey rfl)
    · exact absurd (append_cancel heq).symm h
  · rintro (heq | heq)
    · refine ⟨c.draftName, .inr rfl, .inl (.inl ?_)⟩
      rw [draftName, dataName, heq, String.append_assoc]
      rfl
    · refine ⟨c'.draftName, .inl (.inl ?_), .inr rfl⟩
      rw [draftName, dataName, heq, String.append_assoc]
      rfl

/-- A name below a directory says which path it is. -/
theorem join_inj {p : Path} {a b : String} (ha : Path.IsName a) (hb : Path.IsName b)
    (h : p.join a = p.join b) : a = b := by
  have hsteps := congrArg Path.steps h
  rw [Path.steps_join ha, Path.steps_join hb] at hsteps
  have hlast := List.append_cancel_left hsteps
  cases hlast
  rfl

/-- The paths of a region end in its names. -/
theorem Valid.mem_files_iff (hc : c.Valid) {name : String} (hname : Path.IsName name) :
    c.diskPath.join name ∈ c.files ↔ Store.IsRegionName c name := by
  simp only [files, List.mem_cons, List.not_mem_nil, or_false]
  constructor
  · rintro (h | h | h)
    · exact .inl (.inl (join_inj hname hc.dataName h))
    · exact .inl (.inr (join_inj hname hc.keyName h))
    · exact .inr (join_inj hname hc.draftName h)
  · rintro ((rfl | rfl) | rfl)
    · exact .inl rfl
    · exact .inr (.inl rfl)
    · exact .inr (.inr rfl)

theorem Valid.exists_of_mem_files (hc : c.Valid) {f : Path} (hf : f ∈ c.files) :
    ∃ name, Path.IsName name ∧ Store.IsRegionName c name ∧ f = c.diskPath.join name := by
  simp only [files, List.mem_cons, List.not_mem_nil, or_false] at hf
  rcases hf with rfl | rfl | rfl
  · exact ⟨_, hc.dataName, .inl (.inl rfl), rfl⟩
  · exact ⟨_, hc.keyName, .inl (.inr rfl), rfl⟩
  · exact ⟨_, hc.draftName, .inr rfl, rfl⟩

theorem apart_iff_names (hc : c.Valid) (hc' : c'.Valid) (hpath : c'.diskPath = c.diskPath) :
    c.Apart c' ↔ ¬ ∃ name, Store.IsRegionName c name ∧ Store.IsRegionName c' name := by
  constructor
  · rintro h ⟨name, hn, hn'⟩
    have hname : Path.IsName name := by
      rcases hn with (rfl | rfl) | rfl
      · exact hc.dataName
      · exact hc.keyName
      · exact hc.draftName
    refine h _ ((hc.mem_files_iff hname).2 hn) ?_
    rw [← hpath]
    exact (hc'.mem_files_iff hname).2 hn'
  · intro h f hf hf'
    obtain ⟨name, hname, hn, rfl⟩ := hc.exists_of_mem_files hf
    rw [← hpath, hc'.mem_files_iff hname] at hf'
    exact h ⟨name, hn, hf'⟩

/-- When two regions in one directory have a file in common. -/
theorem apart_iff (hc : c.Valid) (hc' : c'.Valid) (hpath : c'.diskPath = c.diskPath)
    (hname : c'.cacheName ≠ c.cacheName) :
    c.Apart c' ↔ c'.cacheName ≠ c.cacheName ++ "Temp" ∧ c.cacheName ≠ c'.cacheName ++ "Temp" := by
  rw [apart_iff_names hc hc' hpath, regionNames_meet_iff hname, not_or]

end Config

/-! ### Opening a path -/

namespace FileSystem

variable {α : Type} {p : Path} {name : String}

theorem operate_error_tick {f : FileSystem → Except Refusal (α × FileSystem)} {e : Refusal}
    (h : (operate f).result d = (.error e, d')) : d' = d.tick := by
  rw [operate_eq] at h
  split at h
  · cases h
    rfl
  · split at h
    · cases h
      rfl
    · cases h

/-- Whether a file is opened, made or refused, nothing changes under another name. -/
theorem Orderly.effect_openFile (h : d.Orderly) (hstep : p.steps.getLast? = some (.down name)) :
    Effect (· = name) d d.contents ((openFile p).result d).2
      ((openFile p).result d).2.contents := by
  have ht := h.still_tick d.contents
  rcases hr : (openFile p).result d with ⟨e | n, d'⟩
  · rw [operate_error_tick hr]
    exact ht.of_still
  · obtain ⟨hcalm, -⟩ := openFile_calmed h hr
    obtain ⟨x, rfl, hl⟩ := lodged_of_openFile (d := d.calmed) (fun _ => rfl) hstep hcalm
    have hl : Lodged d p x := hl.mono fun _ _ => id
    rw [openFile_eq hl] at hr
    split at hr
    · cases hr
    · split at hr
      · cases hr
      · cases hr
        exact ht.of_still
      · next hx =>
        cases hr
        have hcreate := (ht.orderly.effect_create (g := d.contents) (x := x) hx).1
        exact (Effect.of_still ht).trans hcreate.alone

theorem Orderly.effect_unlinkIfPresent (h : d.Orderly)
    (hstep : p.steps.getLast? = some (.down name)) :
    Effect (· = name) d d.contents ((unlinkIfPresent p).result d).2
      ((unlinkIfPresent p).result d).2.contents := by
  rcases hr : (unlinkIfPresent p).result d with ⟨e | u, d'⟩
  · have hd' : d' = d.tick := by
      rw [unlinkIfPresent, Action.result_bind, Action.result_attempt] at hr
      rcases hu : (unlink p).result d with ⟨e' | u, d₁⟩ <;> rw [hu] at hr
      · rw [← operate_error_tick hu]
        cases e' <;> cases hr <;> rfl
      · cases hr
    rw [hd']
    exact (h.still_tick d.contents).of_still
  · obtain ⟨hcalm, hfaults⟩ := unlinkIfPresent_calmed h hr
    have hl := local_unlinkIfPresent h.healthy hstep
    rw [hcalm] at hl
    refine h.effect_of_local hl (fun x m hx => ?_) (fun n _ => kept_self d' n) hfaults
    have hx' : ((unlinkIfPresent p).result d.calmed).2.at? x = some (.directory m) := by
      rw [hcalm]
      exact hx
    exact at?_of_unlinkIfPresent (d := d.calmed) (fun _ => rfl) hstep hx'

end FileSystem

theorem RecordFile.effect_openAt {p : Path} {name : String} (h : d.Orderly)
    (hstep : p.steps.getLast? = some (.down name)) :
    Effect (· = name) d d.contents ((RecordFile.openAt p).result d).2
      ((RecordFile.openAt p).result d).2.contents := by
  have he := h.effect_openFile hstep
  rw [RecordFile.openAt, Action.result_bind, Action.result_lift]
  rcases hr : (openFile p).result d with ⟨e | n, d₁⟩ <;> rw [hr] at he
  · exact he
  · -- to ask for the size changes nothing
    have hsize : ((fileSize n).result d₁).2 = d₁.tick := by
      rw [fileSize, operate_eq]
      cases d₁.faults d₁.attempts <;> rfl
    have he₂ := he.trans (he.orderly.still_tick d₁.contents).of_still
    dsimp only [Except.mapError]
    rw [Action.result_bind, Action.result_lift]
    rcases hr₂ : (fileSize n).result d₁ with ⟨e | size, d₂⟩ <;> rw [hr₂] at hsize <;>
      rw [← show d₂ = d₁.tick from hsize] at he₂ <;> exact he₂.alone

/-- Whether the files of a store can be opened or not, no others change. -/
theorem Store.effect_openAt (hd : d.Orderly) (hc : c.Valid)
    (hdraft : ∀ D, Site d c.dataFile (D, c.dataName) → Site d c.draftFile (D, c.draftName)) :
    Effect (IsOwnName c) d d.contents ((Store.openAt c).result d).2
      ((Store.openAt c).result d).2.contents := by
  have hdata := RecordFile.effect_openAt hd hc.steps_dataFile
  rcases hr : (RecordFile.openAt c.dataFile).result d with ⟨e | f, d₁⟩ <;> rw [hr] at hdata
  · rw [Store.openAt, Action.result_bind, Action.result_failingAs, hr]
    exact hdata.mono fun _ => .inl
  have hkeys := RecordFile.effect_openAt hdata.orderly hc.steps_keyFile
  rcases hr' : (RecordFile.openAt c.keyFile).result d₁ with ⟨e | k, d₂⟩ <;> rw [hr'] at hkeys
  · rw [Store.openAt, Action.result_bind, Action.result_failingAs, hr]
    dsimp only [Except.mapError]
    rw [Action.result_bind, Action.result_failingAs, hr']
    exact (hdata.mono fun _ => .inl).trans (hkeys.mono fun _ => .inr)
  · obtain ⟨D, hx, hy⟩ := sites_of_opened hc hd hr hr'
    have hrooted : Rooted c D (fun _ => True) d d.contents :=
      ⟨hd, hx, hy, hdraft D hx, fun n _ => kept_self d n, fun n _ => kept_self d n,
        fun _ _ _ _ _ => trivial⟩
    obtain ⟨g, -, he, -⟩ := (Store.shadowed_openAt hrooted).post
    exact he.alone

namespace Region

/-- Whether a region can be opened or not, no files change but its own. -/
theorem effect_openAt (hd : d.Orderly) {here : Trail} (hplain : c.diskPath.IsPlain)
    (hwalk : d.walk [] c.diskPath.steps = .ok here) :
    Effect (Store.IsRegionName c) d d.contents ((Region.openAt c).result d).2
      ((Region.openAt c).result d).2.contents := by
  unfold Region.openAt
  rw [Action.result_bind, Action.result_liftM]
  cases hv : c.validate with
  | error e => exact (hd.still_refl d.contents).of_still
  | ok u =>
  have hc := Config.valid_of_validate hv
  obtain ⟨g₁, hs₁⟩ := (hd.shadowed_createDirectories (g := d.contents) hplain hwalk).post
  dsimp only
  rw [Action.result_bind, Action.result_failingAs, Action.result_lift]
  rcases hr₁ : (createDirectories c.diskPath).result d with ⟨e | u, d₁⟩ <;> rw [hr₁] at hs₁
  · exact (Effect.of_still hs₁).alone
  have hd₁ := hs₁.orderly
  have he₁ : Effect (Store.IsRegionName c) d d.contents d₁ d₁.contents := (Effect.of_still hs₁).alone
  have he₂ := hd₁.effect_unlinkIfPresent hc.steps_draftFile
  dsimp only [Except.mapError]
  rw [Action.result_bind, Action.result_failingAs, Action.result_lift]
  rcases hr₂ : (unlinkIfPresent c.draftFile).result d₁ with ⟨e | u, d₂⟩ <;> rw [hr₂] at he₂
  · exact he₁.trans (he₂.mono fun _ => .inr)
  have hd₂ := he₂.orderly
  have he₃ : Effect (Store.IsOwnName c) d₂ d₂.contents ((Store.openAt c).result d₂).2
      ((Store.openAt c).result d₂).2.contents := by
    refine Store.effect_openAt hd₂ hc fun D hx => ?_
    obtain ⟨hgone, -⟩ := unlinkIfPresent_calmed hd₁ hr₂
    obtain ⟨there, hwalk₂, heq⟩ := hx.lodged.walk hc.walk_dataFile
    obtain ⟨hl, hnone⟩ := lodged_of_unlinkIfPresent (d := d₁.calmed) (fun _ => rfl)
      hc.walk_draftFile (Path.isDirectoryForm_join hc.draftName) hgone
      ((walk_calmed d₂ [] _).trans hwalk₂)
    have hD : there.directory = D := (congrArg Prod.fst heq).symm
    rw [hD] at hl hnone
    refine ⟨hl.mono fun _ _ => id, fun m hm => ?_⟩
    cases hnone.symm.trans hm
  dsimp only [Except.mapError]
  rw [Action.result_bind]
  have hall := (he₁.trans (he₂.mono fun _ => .inr)).trans (he₃.mono fun _ => .inl)
  rcases hr₃ : (Store.openAt c).result d₂ with ⟨e | s, d₃⟩ <;> rw [hr₃] at hall <;> exact hall

end Region

/-! ### Holds, and the end -/

/-- A hold of a pass changes no files but the region's own. -/
theorem Pass.effect_hold (h : Store.Anchored c D P d g s) (arrange : List Key → List Key)
    (alive : Bool) {pass : Pass} (hp : Bound c D d g s pass) :
    Effect (Store.IsRegionName c) d d.contents
      ((pass.hold arrange c.draftFile alive).run (d, s)).2.1
      ((pass.hold arrange c.draftFile alive).run (d, s)).2.1.contents := by
  cases hreplace : pass.comesToReplace arrange alive d s with
  | false =>
    obtain ⟨-, g', he⟩ := quiet_hold h hp hreplace
    exact (he.mono fun _ => .inr).alone
  | true =>
    cases pass with
    | requested => cases hreplace
    | stopping generation draft => cases hreplace
    | running w =>
      obtain ⟨-, -, hcurrent⟩ := hp
      simp only [comesToReplace, Bool.and_eq_true, beq_iff_eq, List.isEmpty_iff] at hreplace
      obtain ⟨⟨⟨⟨halive, hgen⟩, htodo⟩, htries⟩, hfill⟩ := hreplace
      have h₀ : Store.Anchored c D P d g { s with pending := none } := h.congr rfl rfl h.within
      obtain ⟨g₁, he, hd⟩ := (Draft.shadowed_copyAll h₀ (hcurrent hgen.symm)
        (arrange (s.pending.getD []).eraseDups)).post
      have hrun : (Pass.running w).hold arrange c.draftFile alive = (do
          if alive && (← store).generation == w.generation then work arrange w
          else do
            abandon w.draft
            pure (.over false)) := rfl
      rw [hrun, run_bind, run_store]
      simp only [halive, hgen, beq_self_eq_true, Bool.and_self, if_true]
      unfold work
      simp only [htodo, htries]
      rw [run_finish]
      rcases hc : (w.draft.copyAll { s with pending := none }
        (arrange (s.pending.getD []).eraseDups)).result d with ⟨e | dr, d₁⟩
      · rw [Store.comesToReplace, hc] at hfill
        cases hfill
      · rw [hc] at he hd
        obtain ⟨g₂, hcompacted⟩ :=
          (Store.shadowed_installDraft (h₀.frame he) (hd dr rfl)).post
        exact ((he.mono fun _ => .inr).trans hcompacted.effect).alone

namespace Region

variable {α : Type} {p q : World} {r : Region} {event : Event} {events : List Event}

theorem effect_holdPass (h : Anchored D P d g r) (arrange : List Key → List Key) :
    Effect (Store.IsRegionName r.config) d d.contents ((holdPass arrange).run (d, r)).2.1
      ((holdPass arrange).run (d, r)).2.1.contents := by
  cases hpass : r.pass with
  | none =>
    rw [holdPass_none arrange hpass]
    exact (h.store.orderly.still_refl d.contents).of_still
  | some pass =>
    have he := Pass.effect_hold h.store arrange r.alive (h.bound pass hpass)
    rcases hr : (pass.hold arrange r.config.draftFile r.alive).run (d, r.store) with
      ⟨pass' | installed, d', s'⟩ <;> rw [hr] at he
    · rw [holdPass_next hpass hr]
      exact he
    · rw [holdPass_over hpass hr]
      exact he

theorem effect_compactForGood (h : Anchored D P d g r) :
    Effect (Store.IsRegionName r.config) d d.contents (compactForGood.result (d, r)).2.1
      (compactForGood.result (d, r)).2.1.contents := by
  rw [compactForGood, Action.result_bind, FileAction.result_value]
  simp only
  split
  · obtain ⟨g', hcompacted⟩ := (Store.shadowed_compactAtOnce h.store).post
    rw [Action.result_bind, FileAction.result_change]
    simp only
    rw [Action.result_bind, Action.result_attempt, result_onStore]
    simp only
    rcases hr : (Store.compactAtOnce r.config.draftFile).result (d, r.store) with ⟨e | u, q⟩ <;>
      rw [hr] at hcompacted <;> exact hcompacted.effect.alone
  · exact (h.store.orderly.still_refl d.contents).of_still

theorem effect_shutDown (h : Anchored D P d g r) :
    Effect (Store.IsRegionName r.config) d d.contents (Region.shutDown.result (d, r)).2.1
      (Region.shutDown.result (d, r)).2.1.contents := by
  cases hclosed : r.closed with
  | true =>
    rw [Region.shutDown, Action.result_bind, FileAction.result_value]
    simp only [hclosed, if_true]
    exact (h.store.orderly.still_refl d.contents).of_still
  | false =>
    have h₀ : Anchored D P d g { r with closed := true } := h.anyway
    have he := effect_compactForGood h₀
    obtain ⟨g₁, ⟨compacted, hok⟩, h₁⟩ := (shadowed_compactForGood h₀).post
    rcases hr : compactForGood.result (d, { r with closed := true }) with ⟨a, d₁, r₁⟩
    rw [hr] at he hok h₁
    obtain rfl := hok
    rw [world_shutDown hclosed hr]
    have ha := h₁.anchored
    have hconfig : r₁.config = r.config := h₁.config
    cases compacted with
    | true =>
      obtain ⟨g₂, hs⟩ := (Store.shadowed_close ha.store).post
      rw [if_pos rfl, result_onStore]
      rw [hconfig] at hs
      exact he.trans (hs.effect.mono fun _ => .inl).alone
    | false =>
      obtain ⟨g₂, hs, -⟩ := (Store.shadowed_saveKeys ha.store).post
      obtain ⟨g₃, hs'⟩ := (Store.shadowed_close hs.anchored).post
      rw [if_neg Bool.false_ne_true, result_onStore, result_onStore]
      rw [hconfig] at hs hs'
      exact he.trans ((hs.effect.trans hs'.effect).mono fun _ => .inl).alone

/-! ### Events -/

theorem effect_opening (h : Store.Rooted r.config D P d g) (hname : c.cacheName = r.config.cacheName)
    (hpath : c.diskPath = r.config.diskPath) (hr : r.config.Valid) :
    Effect (Store.IsRegionName r.config) d d.contents ((Region.openAt c).result d).2
      ((Region.openAt c).result d).2.contents := by
  obtain ⟨here, hwalk, -⟩ := h.data.lodged.walk hr.walk_dataFile
  have hplain := h.data.lodged.isPlain.of_join hr.dataName
  rw [← hpath] at hwalk hplain
  refine (effect_openAt h.orderly hplain hwalk).mono fun name hn => ?_
  rw [Store.IsRegionName, Store.IsOwnName, Config.dataName, Config.keyName, Config.draftName,
    hname] at hn
  exact hn

/-- Attempts in vain change no files but the region's own. -/
theorem Vain.effect (h : Vain r.config d d') (hr : Store.Rooted r.config D P d g)
    (hc : r.config.Valid) :
    Effect (Store.IsRegionName r.config) d d.contents d' d'.contents := by
  induction h with
  | nil => exact (hr.orderly.still_refl d.contents).of_still
  | snoc h hname hpath hfail ih =>
    obtain ⟨g₁, -, hr₁⟩ := h.shadowed hr
    have he := effect_opening hr₁ hname hpath hc
    rw [hfail] at he
    exact ih.trans he

/-- Whatever happens to a region, no files change but its own. -/
theorem Trial.effect (h : Anchored D P p.1 g p.2) (ht : Trial p event q) :
    Effect (Store.IsRegionName p.2.config) p.1 p.1.contents q.1 q.1.contents := by
  cases ht with
  | retried hvain hname hpath hopen =>
    have he := hvain.effect h.store.rooted h.valid
    obtain ⟨g₁, -, hr₁⟩ := hvain.shadowed h.store.rooted
    have he' := effect_opening hr₁ hname hpath h.valid
    rw [hopen] at he'
    exact he.trans he'
  | step hs =>
    cases hs with
    | called call p => exact (keepsToItself_perform h call).mono fun _ => .inl
    | looked k p => exact (keepsToItself_lookup h k).mono fun _ => .inl
    | @held arrange harrange p => exact effect_holdPass h arrange
    | died d r => exact (h.store.orderly.still_refl d.contents).of_still
    | shutDown p => exact effect_shutDown h
    | reopened hname hpath hopen =>
      have he := effect_opening h.store.rooted hname hpath h.valid
      rw [hopen] at he
      exact he

/-- A region stays the region of its name and its directory. -/
theorem Trial.names (h : Anchored D P p.1 g p.2) (ht : Trial p event q) :
    q.2.config.cacheName = p.2.config.cacheName ∧ q.2.config.diskPath = p.2.config.diskPath := by
  have hopened : ∀ {c d d' r}, (Region.openAt c).result d = (.ok r, d') → r.config = c := by
    intro c d d' r ho
    obtain ⟨-, d₁, d₂, -, -, -, hnew⟩ := openAt_stages ho
    rw [hnew]
  cases ht with
  | retried hvain hname hpath hopen => exact hopened hopen ▸ ⟨hname, hpath⟩
  | step hs =>
    cases hs with
    | called call p =>
      obtain ⟨g₁, hstays⟩ := (shadowed_perform h call).post
      exact ⟨congrArg _ hstays.config, congrArg _ hstays.config⟩
    | looked k p =>
      obtain ⟨g₁, hstays⟩ := (shadowed_lookup h k).post
      exact ⟨congrArg _ hstays.config, congrArg _ hstays.config⟩
    | @held arrange harrange p =>
      have hconfig : ((holdPass arrange).run p).2.2.config = p.2.config := by
        obtain ⟨d, r⟩ := p
        cases hpass : r.pass with
        | none => rw [holdPass_none arrange hpass]
        | some pass =>
          rcases hr : (pass.hold arrange r.config.draftFile r.alive).run (d, r.store) with
            ⟨pass' | installed, d', s'⟩
          · rw [holdPass_next hpass hr]
          · rw [holdPass_over hpass hr]
            rfl
      exact ⟨congrArg _ hconfig, congrArg _ hconfig⟩
    | died d r => exact ⟨rfl, rfl⟩
    | shutDown p =>
      exact ⟨congrArg _ (kept_by_shutDown h).1, congrArg _ (kept_by_shutDown h).1⟩
    | reopened hname hpath hopen => exact hopened hopen ▸ ⟨hname, hpath⟩

/-! ### Two regions -/

/-- What is known of a region if nothing is asked of its shadow. -/
theorem Anchored.alone (h : Anchored D P d g r) : Anchored D (fun _ => True) d d.contents r := by
  obtain ⟨⟨ho, hdata, hkeys, hdraft, -, -, -⟩, hdp, hkp, hdf, hkf, hw⟩ := h.store
  refine ⟨⟨⟨ho, hdata, hkeys, hdraft, fun n _ => kept_self d n, fun n _ => kept_self d n,
    fun _ _ _ _ _ => trivial⟩, hdp, hkp, hdf, hkf, hw.mono fun _ _ => trivial⟩, h.capacity,
    h.freeCapacity, h.valid, h.compacting, fun pass hp => ?_⟩
  have hb := h.bound pass hp
  cases pass with
  | requested => trivial
  | stopping generation draft => exact hb
  | running w =>
    obtain ⟨hpath, hgen, hcurrent⟩ := hb
    exact ⟨hpath, hgen, fun heq => { hcurrent heq with kept := fun n _ => kept_self d n }⟩

/-- What happens under names that are none of its own does not disturb a region. -/
theorem Anchored.aside {N : String → Prop} (h : Anchored D P d g r) (he : Effect N d g d' g')
    (hN : ∀ name, Store.IsRegionName r.config name → ¬ N name) : Anchored D P d' g' r := by
  have hdata := hN _ (.inl (.inl rfl))
  have hkeys := hN _ (.inl (.inr rfl))
  have hdraft := hN _ (.inr rfl)
  obtain ⟨hr, hdp, hkp, hdf, hkf, hw⟩ := h.store
  have hr' : Store.Rooted r.config D P d' g' :=
    ⟨he.orderly, he.site hr.data, he.site hr.keys, he.site hr.draft, he.keptAt hdata hr.dataKept,
      he.keptAt hkeys hr.keysKept, by rw [he.bytesAt hkeys]; exact hr.lists⟩
  refine ⟨⟨hr', hdp, hkp, hdf.frame he hdata, hkf.frame he hkeys, hw⟩, h.capacity, h.freeCapacity,
    h.valid, h.compacting, fun pass hp => ?_⟩
  have hb := h.bound pass hp
  cases pass with
  | requested => trivial
  | stopping generation draft => exact hb
  | running w =>
    obtain ⟨hpath, hgen, hcurrent⟩ := hb
    exact ⟨hpath, hgen, fun heq => (hcurrent heq).frame he hdraft⟩

/-- Two regions over one file system. -/
structure Neighbours where
  disk : FileSystem
  left : Region
  right : Region

/-- Something happens to one of two regions. -/
inductive Neighbours.Step : Neighbours → Neighbours → Prop where
  | left {n : Neighbours} {event : Event} {q : World} (h : Trial (n.disk, n.left) event q) :
      Step n { n with disk := q.1, left := q.2 }
  | right {n : Neighbours} {event : Event} {q : World} (h : Trial (n.disk, n.right) event q) :
      Step n { n with disk := q.1, right := q.2 }

/-- Both regions have their files in their directories, under the names that their settings give. -/
structure Neighbours.Settled (c c' : Config) (n : Neighbours) : Prop where
  left : ∃ D, Anchored D (fun _ => True) n.disk n.disk.contents n.left
  right : ∃ D, Anchored D (fun _ => True) n.disk n.disk.contents n.right
  leftName : n.left.config.cacheName = c.cacheName
  leftPath : n.left.config.diskPath = c.diskPath
  rightName : n.right.config.cacheName = c'.cacheName
  rightPath : n.right.config.diskPath = c'.diskPath

theorem isRegionName_congr (h : c'.cacheName = c.cacheName) (name : String) :
    Store.IsRegionName c' name ↔ Store.IsRegionName c name := by
  rw [Store.IsRegionName, Store.IsOwnName, Config.dataName, Config.keyName, Config.draftName, h]
  rfl

/-- What happens to one region leaves the files of one without a common name alone. -/
theorem Anchored.contentAt?_aside {N : String → Prop} (h : Anchored D P d g r)
    (he : Effect N d g d' g') (hN : ∀ name, Store.IsRegionName r.config name → ¬ N name) :
    ∀ f ∈ r.config.files, d'.contentAt? f = d.contentAt? f := by
  intro f hf
  simp only [Config.files, List.mem_cons, List.not_mem_nil, or_false] at hf
  rcases hf with rfl | rfl | rfl
  · exact he.contentAt? h.store.rooted.data (hN _ (.inl (.inl rfl)))
  · exact he.contentAt? h.store.rooted.keys (hN _ (.inl (.inr rfl)))
  · exact he.contentAt? h.store.rooted.draft (hN _ (.inr rfl))

theorem settled_of_openAt (hd : d.Orderly) {r s : Region} {d₁ d₂ : FileSystem}
    (ho : (Region.openAt c).result d = (.ok r, d₁)) (ho' : (Region.openAt c').result d₁ = (.ok s, d₂))
    (hpath : c'.diskPath = c.diskPath)
    (hmeet : ∀ name, Store.IsRegionName c name → ¬ Store.IsRegionName c' name) :
    Neighbours.Settled c c' ⟨d₂, r, s⟩ := by
  obtain ⟨D, g, hr, hconfig, -⟩ := anchored_of_openAt hd ho
  obtain ⟨D', g', hs, hconfig', -⟩ := anchored_of_openAt hr.store.orderly ho'
  obtain ⟨here, hwalk, -⟩ := hr.store.rooted.data.lodged.walk hr.valid.walk_dataFile
  have hplain := hr.store.rooted.data.lodged.isPlain.of_join hr.valid.dataName
  rw [hconfig, ← hpath] at hwalk hplain
  have he := effect_openAt hr.store.orderly hplain hwalk
  rw [ho'] at he
  have hr₂ := hr.alone.aside he fun name hn => hmeet name (hconfig ▸ hn)
  exact ⟨⟨D, hr₂⟩, ⟨D', hs.alone⟩, congrArg _ hconfig, congrArg _ hconfig, congrArg _ hconfig',
    congrArg _ hconfig'⟩

section Side

variable {n n' : Neighbours} (hn : n.Settled c c')
  (hmeet : ∀ name, Store.IsRegionName c name → ¬ Store.IsRegionName c' name)

include hn hmeet

theorem Neighbours.Settled.left_aside (ht : Trial (n.disk, n.left) event q) :
    Effect (Store.IsRegionName c) n.disk n.disk.contents q.1 q.1.contents ∧
      ∀ name, Store.IsRegionName n.right.config name → ¬ Store.IsRegionName c name := by
  obtain ⟨D, hl⟩ := hn.left
  refine ⟨(ht.effect hl).mono fun name => (isRegionName_congr hn.leftName name).1, ?_⟩
  intro name hr hname
  exact hmeet name hname ((isRegionName_congr hn.rightName name).1 hr)

theorem Neighbours.Settled.right_aside (ht : Trial (n.disk, n.right) event q) :
    Effect (Store.IsRegionName c') n.disk n.disk.contents q.1 q.1.contents ∧
      ∀ name, Store.IsRegionName n.left.config name → ¬ Store.IsRegionName c' name := by
  obtain ⟨D, hr⟩ := hn.right
  refine ⟨(ht.effect hr).mono fun name => (isRegionName_congr hn.rightName name).1, ?_⟩
  intro name hl
  exact hmeet name ((isRegionName_congr hn.leftName name).1 hl)

/-- Whatever happens to one of two regions without a common file, both have their files. -/
theorem Neighbours.Step.settled (hs : n.Step n') : n'.Settled c c' := by
  obtain ⟨D, hl⟩ := hn.left
  obtain ⟨D', hr⟩ := hn.right
  cases hs with
  | left ht =>
    obtain ⟨he, hother⟩ := hn.left_aside hmeet ht
    obtain ⟨g, -, hleads⟩ := ht.shadowed hl
    obtain ⟨hname, hpath⟩ := ht.names hl
    exact ⟨⟨D, hleads.anchored.alone⟩, ⟨D', hr.aside he hother⟩, hname.trans hn.leftName,
      hpath.trans hn.leftPath, hn.rightName, hn.rightPath⟩
  | right ht =>
    obtain ⟨he, hother⟩ := hn.right_aside hmeet ht
    obtain ⟨g, -, hleads⟩ := ht.shadowed hr
    obtain ⟨hname, hpath⟩ := ht.names hr
    exact ⟨⟨D, hl.aside he hother⟩, ⟨D', hleads.anchored.alone⟩, hn.leftName, hn.leftPath,
      hname.trans hn.rightName, hpath.trans hn.rightPath⟩

theorem Neighbours.Settled.run (hs : Relation.ReflTransGen Neighbours.Step n n') :
    n'.Settled c c' := by
  induction hs with
  | refl => exact hn
  | tail _ hstep ih => exact hstep.settled ih hmeet

end Side

theorem files_congr (hname : c'.cacheName = c.cacheName) (hpath : c'.diskPath = c.diskPath) :
    c'.files = c.files := by
  rw [Config.files, Config.dataFile, Config.keyFile, Config.draftFile, hname, hpath]
  rfl

/-- Opening a region leaves the files of one without a common name alone, whether it succeeds or
not. -/
theorem contentAt?_openAt (hd : d.Orderly) (hc' : c'.Valid) (hpath : c'.diskPath = c.diskPath)
    (hmeet : ∀ name, Store.IsRegionName c name → ¬ Store.IsRegionName c' name) {f : Path}
    (hf : f ∈ c'.files) {content : Content} (hcontent : d.contentAt? f = some content) :
    ((Region.openAt c).result d).2.contentAt? f = some content := by
  obtain ⟨name, hname, hregion, rfl⟩ := hc'.exists_of_mem_files hf
  obtain ⟨n, hlook⟩ : ∃ n, d.look (c'.diskPath.join name) = .ok (some (.file n)) := by
    rw [contentAt?] at hcontent
    split at hcontent
    · next n hlook => exact ⟨n, hlook⟩
    · cases hcontent
  obtain ⟨x, hl, hx⟩ := lodged_of_look hlook
  obtain ⟨here, hwalk, rfl⟩ := hl.walk (Path.steps_join hname)
  have hplain := hl.isPlain.of_join hname
  rw [hpath] at hwalk hplain
  have hsite : Site d (c'.diskPath.join name) (here.directory, name) := by
    refine ⟨hl, fun m hm => ?_⟩
    cases hx.symm.trans hm
  rw [(effect_openAt hd hplain hwalk).contentAt? hsite fun hn => hmeet name hn hregion, hcontent]

/-- Two regions in one directory have a file in common only if the name of one is that of the other
with `Temp` behind it. If they have none, the files of each are left alone by the other: when it is
opened, in vain or not, and at every event after that, whatever happens to both of them before. -/
theorem regions_apart (hc : c.validate = .ok ()) (hc' : c'.validate = .ok ())
    (hpath : c'.diskPath = c.diskPath) (hname : c'.cacheName ≠ c.cacheName) :
    (c.Apart c' ↔
      c'.cacheName ≠ c.cacheName ++ "Temp" ∧ c.cacheName ≠ c'.cacheName ++ "Temp") ∧
    (c.Apart c' → (∀ d : FileSystem, d.Orderly → ∀ f ∈ c'.files, ∀ content,
        d.contentAt? f = some content →
          ((Region.openAt c).result d).2.contentAt? f = some content) ∧
      ∀ (d d₁ : FileSystem) (r s : Region) (d₂ : FileSystem) (n : Neighbours), d.Orderly →
        (Region.openAt c).result d = (.ok r, d₁) → (Region.openAt c').result d₁ = (.ok s, d₂) →
        Relation.ReflTransGen Neighbours.Step ⟨d₂, r, s⟩ n →
        (∀ event q, Trial (n.disk, n.left) event q →
          ∀ f ∈ c'.files, q.1.contentAt? f = n.disk.contentAt? f) ∧
        (∀ event q, Trial (n.disk, n.right) event q →
          ∀ f ∈ c.files, q.1.contentAt? f = n.disk.contentAt? f)) := by
  have hv := Config.valid_of_validate hc
  have hv' := Config.valid_of_validate hc'
  refine ⟨Config.apart_iff hv hv' hpath hname, fun hapart => ?_⟩
  rw [Config.apart_iff_names hv hv' hpath] at hapart
  have hmeet : ∀ name, Store.IsRegionName c name → ¬ Store.IsRegionName c' name :=
    fun name hn hn' => hapart ⟨name, hn, hn'⟩
  refine ⟨fun d hd f hf content => contentAt?_openAt hd hv' hpath hmeet hf, ?_⟩
  intro d d₁ r s d₂ n hd ho ho' hrun
  have hn := (settled_of_openAt hd ho ho' hpath hmeet).run hmeet hrun
  obtain ⟨D, hl⟩ := hn.left
  obtain ⟨D', hr⟩ := hn.right
  refine ⟨fun event q ht => ?_, fun event q ht => ?_⟩
  · obtain ⟨he, hother⟩ := hn.left_aside hmeet ht
    rw [← files_congr hn.rightName hn.rightPath]
    exact hr.contentAt?_aside he hother
  · obtain ⟨he, hother⟩ := hn.right_aside hmeet ht
    rw [← files_congr hn.leftName hn.leftPath]
    exact hl.contentAt?_aside he hother

/-- Settings for a region of another name. -/
def roomNamed (name : String) : Config := { roomFor 2 with cacheName := name }

/-- The region `b` keeps its record while the region `a` in the same directory is reset. -/
theorem reset_beside_another : ∃ (a b : World) (n : Neighbours) (q : World) (content : Content),
    (Region.openAt (roomNamed "a")).result .empty = (.ok a.2, a.1) ∧
    (Region.openAt (roomNamed "b")).result a.1 = (.ok b.2, b.1) ∧
    Relation.ReflTransGen Neighbours.Step ⟨b.1, a.2, b.2⟩ n ∧
    Trial (n.disk, n.left) (.called .reset (.ok ())) q ∧
    q.1.contentAt? (roomNamed "b").dataFile = some content ∧ content.toList ≠ [] := by
  have h : ((opened? (roomNamed "a") .empty).bind fun a =>
      (opened? (roomNamed "b") a.1).bind fun b =>
        let q₁ := (Call.put (note "x" [1])).perform.result b
        let q₂ := Call.reset.perform.result (q₁.2.1, a.2)
        (q₁.2.1.contentAt? (roomNamed "b").dataFile).map fun content =>
          decide (q₂.1 = .ok () ∧ content.toList ≠ [])) = some true := by
    decide +kernel
  obtain ⟨a, ha, h⟩ := Option.bind_eq_some_iff.1 h
  obtain ⟨b, hb, h⟩ := Option.bind_eq_some_iff.1 h
  obtain ⟨content, hcontent, h⟩ := Option.map_eq_some_iff.1 h
  obtain ⟨hreset, hnonempty⟩ := of_decide_eq_true h
  have ho := opened?_eq_some_iff.1 ha
  have ho' := opened?_eq_some_iff.1 hb
  have hput := Neighbours.Step.right (n := ⟨b.1, a.2, b.2⟩)
    (.step (.called (.put (note "x" [1])) b))
  have hstep := Step.called .reset (((Call.put (note "x" [1])).perform.result b).2.1, a.2)
  rw [hreset] at hstep
  have hvalid : (roomNamed "a").validate = .ok () ∧ (roomNamed "b").validate = .ok () := by
    decide +kernel
  obtain ⟨happart, hrest⟩ := regions_apart hvalid.1 hvalid.2 rfl (by decide)
  obtain ⟨-, hbeside⟩ := hrest (happart.2 ⟨by decide, by decide⟩)
  obtain ⟨hleft, -⟩ := hbeside _ _ _ _ _ _ empty_healthy.orderly ho ho' (.single hput)
  have hsame := hleft _ _ (.step hstep) (roomNamed "b").dataFile List.mem_cons_self
  exact ⟨a, b, _, _, content, ho, ho', .single hput, .step hstep, hsame.trans hcontent, hnonempty⟩

/-- Both names are taken by `validate`, and the draft of the one region is the data file of the
other. So opening the first takes the data of the second away, whose key was saved. -/
theorem opening_takes_data_away : ∃ (p q a p' : World),
    (roomNamed "a").validate = .ok () ∧ (roomNamed "aTemp").validate = .ok () ∧
    (roomNamed "aTemp").diskPath = (roomNamed "a").diskPath ∧
    (roomNamed "a").draftFile = (roomNamed "aTemp").dataFile ∧
    opened? (roomNamed "aTemp") .empty = some p ∧
    Run Trial p [.called (.put (note "x" [1])) (.ok ()), .called .saveKeys (.ok ())] q ∧
    q.2.size = 1 ∧ (q.1.contentAt? (roomNamed "aTemp").dataFile).isSome ∧
    opened? (roomNamed "a") q.1 = some a ∧
    a.1.contentAt? (roomNamed "aTemp").dataFile = none ∧
    opened? (roomNamed "aTemp") a.1 = some p' ∧ p'.2.size = 0 := by
  have h : ((opened? (roomNamed "aTemp") .empty).bind fun p =>
      let q₁ := (Call.put (note "x" [1])).perform.result p
      let q := Call.saveKeys.perform.result q₁.2
      (opened? (roomNamed "a") q.2.1).bind fun a =>
        (opened? (roomNamed "aTemp") a.1).map fun p' =>
          decide ((q₁.1 = .ok () ∧ q.1 = .ok ()) ∧ q.2.2.size = 1 ∧
            (q.2.1.contentAt? (roomNamed "aTemp").dataFile).isSome ∧
            (a.1.contentAt? (roomNamed "aTemp").dataFile).isNone ∧ p'.2.size = 0)) = some true := by
    decide +kernel
  obtain ⟨p, hp, h⟩ := Option.bind_eq_some_iff.1 h
  obtain ⟨a, ha, h⟩ := Option.bind_eq_some_iff.1 h
  obtain ⟨p', hp', h⟩ := Option.map_eq_some_iff.1 h
  obtain ⟨⟨h₁, h₂⟩, hsize, hthere, hgone, hlost⟩ := of_decide_eq_true h
  exact ⟨p, _, a, p', by decide +kernel, by decide +kernel, rfl, by decide +kernel, hp,
    ((Run.nil p).ask _ h₁).ask _ h₂, hsize, hthere, ha, Option.isNone_iff_eq_none.1 hgone, hp',
    hlost⟩

end Region

end DiskTier
