import DiskTier.Proofs.Pass
import DiskTier.Proofs.Shadow.Store

/-!
# Compactions in the shadow

A draft is `Drafted` if it is the file that lies at its path and is the same in the shadow, and has
what its index promises; it is so from the moment it is begun, whatever lay there before. So a store
into whose place a draft is put stays anchored. A pass that listed its keys before a reset owns
nothing but the place of its draft: it is given up under its next hold.
-/

namespace DiskTier

open FileSystem RecordFile

variable {α β : Type} {c : Config} {D : Nat} {P P' : Key → Prop} {d d' : FileSystem} {g g' : Shade}
  {s s' live : Store}

/-! ### Drafts -/

namespace Draft

/-- The draft is the file that lies at its path, and the same in the shadow. All slots of its index
lie in it. -/
structure Drafted (c : Config) (D : Nat) (d : FileSystem) (g : Shade) (dr : Draft) : Prop where
  path : dr.file.path = c.draftFile
  file : Placed d dr.file (D, c.draftName)
  kept : d.KeptAt g (D, c.draftName)
  coherent : dr.index.Coherent
  covered : Covered d dr.file (D, c.draftName)
  within : ∀ slot ∈ dr.index.slots, slot.stop ≤ (bytesAt d (D, c.draftName)).length

variable {dr : Draft}

/-- What happens to the files of the store does not matter. -/
theorem Drafted.frame {N : String → Prop} (h : Drafted c D d g dr) (he : Effect N d g d' g')
    (hN : ¬ N c.draftName) : Drafted c D d' g' dr := by
  have hbytes : bytesAt d' (D, c.draftName) = bytesAt d (D, c.draftName) := he.bytesAt hN
  refine ⟨h.path, h.file.frame he hN, he.keptAt hN h.kept, h.coherent, ?_, ?_⟩
  · rw [Covered, hbytes]
    exact h.covered
  · rw [hbytes]
    exact h.within

theorem Drafted.replan (h : Drafted c D d g dr) (faults : Nat → Option PlannedFault) :
    Drafted c D { d with faults } g dr :=
  ⟨h.path, h.file.replan faults, h.kept, h.coherent, h.covered, h.within⟩

/-- A record was appended, and its key has it. -/
theorem Drafted.append {f : RecordFile} {k : Key} {copied : Slot} (h : Drafted c D d g dr)
    (hc : Changed (D, c.draftName) d g dr.file d' g' f) (hf : Covered d' f (D, c.draftName))
    (hgrown : (bytesAt d (D, c.draftName)).length ≤ (bytesAt d' (D, c.draftName)).length)
    (hstop : copied.stop ≤ (bytesAt d' (D, c.draftName)).length) :
    Drafted c D d' g' { file := f, index := (dr.index.insert k copied).index } := by
  obtain ⟨-, -, hcoherent, hlist, -⟩ := h.coherent.insert k copied
  refine ⟨hc.path.trans h.path, hc.placed h.file, hc.keptAt h.kept, hcoherent, hf, ?_⟩
  intro slot hs
  rw [Index.slots, hlist] at hs
  obtain ⟨e, he, rfl⟩ := List.mem_map.1 (List.mem_of_mem_drop (List.map_drop ▸ hs))
  rcases List.mem_append.1 he with he | he
  · have hold := h.within e.2 (List.mem_map_of_mem (List.mem_of_mem_filter he))
    exact Nat.le_trans hold hgrown
  · rw [List.mem_singleton.1 he]
    exact hstop

theorem Drafted.remove (h : Drafted c D d g dr) (k : Key) :
    Drafted c D d g { dr with index := (dr.index.remove k).2 } := by
  refine ⟨h.path, h.file, h.kept, h.coherent.remove k, h.covered, fun slot hs => ?_⟩
  rw [Index.slots, h.coherent.toList_remove] at hs
  exact h.within slot ((List.filter_sublist.map _).subset hs)

theorem shadowed_begin (h : Store.Rooted c D P d g) :
    Shadowed shadow (Draft.begin c.draftFile).result d g fun r d' g' =>
      Effect (· = c.draftName) d g d' g' ∧ ∀ dr, r = .ok dr → Drafted c D d' g' dr := by
  unfold Draft.begin
  apply Action.shadowed_bind
  apply Action.shadowed_failingAs
  refine (RecordFile.shadowed_createEmpty h.orderly h.draft).mono ?_
  rintro (e | f) d' g' ⟨he, hf⟩
  · exact ⟨he, nofun⟩
  · refine Action.shadowed_pure ⟨he, ?_⟩
    rintro _ ⟨⟩
    obtain ⟨hpath, hlength, hplaced, hkept⟩ := hf f rfl
    refine ⟨hpath, hplaced, hkept, Index.empty_coherent _, ?_, nofun⟩
    show f.length.toNat ≤ _
    rw [hlength]
    exact Nat.zero_le _

/-- A copy reads the data file and writes the draft. -/
theorem shadowed_copy (h : Store.Anchored c D P d g live) (hd : Drafted c D d g dr) (k : Key) :
    Shadowed shadow (dr.copy live k).result d g fun r d' g' =>
      Effect (· = c.draftName) d g d' g' ∧ ∀ dr', r = .ok dr' → Drafted c D d' g' dr' := by
  unfold Draft.copy
  split
  · refine Action.shadowed_pure ⟨(h.orderly.still_refl g).of_still, ?_⟩
    rintro _ ⟨⟩
    exact hd.remove k
  next slot _ =>
  apply Action.shadowed_bind
  apply Action.shadowed_failingAs
  refine (RecordFile.shadowed_read h.orderly h.dataFile h.rooted.dataKept slot).mono ?_
  rintro (e | record) d₁ g₁ ⟨hs, -⟩
  · exact ⟨hs.of_still, nofun⟩
  have hd₁ := hd.frame hs id
  apply Action.shadowed_bind
  apply Action.shadowed_failingAs
  apply FileAction.shadowed_startingWith
  refine (RecordFile.shadowed_append hs.orderly hd₁.file record).mono ?_
  rintro (e | copied) ⟨d₂, f⟩ g₂ ⟨hc, happend⟩
  · exact ⟨hs.of_still.trans hc.effect, nofun⟩
  · refine Action.shadowed_pure ⟨hs.of_still.trans hc.effect, ?_⟩
    rintro _ ⟨⟩
    obtain ⟨hf, hgrown, hstop⟩ := happend hd₁.covered copied rfl
    exact hd₁.append hc hf hgrown hstop

theorem shadowed_copyAll (h : Store.Anchored c D P d g live) (hd : Drafted c D d g dr)
    (ks : List Key) :
    Shadowed shadow (dr.copyAll live ks).result d g fun r d' g' =>
      Effect (· = c.draftName) d g d' g' ∧ ∀ dr', r = .ok dr' → Drafted c D d' g' dr' := by
  induction ks generalizing d g dr with
  | nil =>
    refine Action.shadowed_pure ⟨(h.orderly.still_refl g).of_still, ?_⟩
    rintro _ ⟨⟩
    exact hd
  | cons k ks ih =>
    unfold copyAll
    apply Action.shadowed_bind
    refine (shadowed_copy h hd k).mono ?_
    rintro (e | dr₁) d₁ g₁ ⟨he, hd₁⟩
    · exact ⟨he, fun _ heq => by cases heq⟩
    · refine (ih (h.frame he) (hd₁ dr₁ rfl)).mono ?_
      rintro r d₂ g₂ ⟨he₂, hd₂⟩
      exact ⟨he.trans he₂, hd₂⟩

theorem shadowed_abandon (h : Store.Rooted c D P d g) (hpath : dr.file.path = c.draftFile) :
    Shadowed shadow dr.abandon.result d g fun _ d' g' => Effect (· = c.draftName) d g d' g' := by
  apply Action.shadowed_regardless
  refine (RecordFile.shadowed_delete h.orderly (hpath ▸ h.draft)).mono ?_
  rintro r d' g' ⟨he, -⟩
  exact he

end Draft

/-! ### Installing a draft -/

namespace Store

open Draft

/-- What a compaction leaves of a store. -/
structure Compacted (c : Config) (D : Nat) (P : Key → Prop) (d : FileSystem) (g : Shade) (s : Store)
    (d' : FileSystem) (g' : Shade) (s' : Store) : Prop where
  anchored : Anchored c D P d' g' s'
  effect : Effect (IsRegionName c) d g d' g'
  later : Later s s'

theorem Compacted.trans {d'' : FileSystem} {g'' : Shade} {s'' : Store}
    (h : Compacted c D P d g s d' g' s') (h' : Compacted c D P d' g' s' d'' g'' s'') :
    Compacted c D P d g s d'' g'' s'' :=
  ⟨h'.anchored, h.effect.trans h'.effect, h.later.trans h'.later⟩

theorem Remains.compacted (h : Remains c D P d g s d' g' s') : Compacted c D P d g s d' g' s' :=
  ⟨h.anchored, h.effect.mono fun _ => .inl, h.later⟩

theorem Anchored.compacted (h : Anchored c D P d g s) (he : Effect (· = c.draftName) d g d' g') :
    Compacted c D P d g s d' g' s :=
  ⟨h.frame he, he.mono fun _ => .inr, .refl s⟩

/-- The first part of `replace`: the draft gets the name of the data file. -/
def moveDraft (draftFile dataFile : Path) : Change Unit := do
  let _ ← FileAction.onDisk .file (FileSystem.sizeAt draftFile).lift
  onKeys RecordFile.truncate
  onData RecordFile.close
  FileAction.onDisk .file (FileSystem.rename draftFile dataFile).lift

/-- The second part of `replace`: the file of that name is opened, and the keys are saved. -/
def takeOver (dataFile : Path) (index : Index) : Change Unit := do
  let file ← FileAction.onDisk .file (RecordFile.openAt dataFile)
  FileAction.change fun s => { s with dataFile := file, index, free := .empty s.free.capacity }
  saveKeys

theorem replace_eq (draftFile : Path) (index : Index) :
    replace draftFile index = (do
      let s ← FileAction.value
      moveDraft draftFile s.dataFile.path
      takeOver s.dataFile.path index) := by
  simp only [replace, moveDraft, takeOver, bind_assoc]

/-- What the draft was lies under the name of the data file, and no key is listed. -/
structure DraftMoved (c : Config) (D : Nat) (d d' : FileSystem) (s' : Store) : Prop where
  closed : s'.dataFile.handle = none
  gone : d'.at? (D, c.draftName) = none
  data : bytesAt d' (D, c.dataName) = bytesAt d (D, c.draftName)
  keys : bytesAt d' (D, c.keyName) = []

/-- At whatever point the move fails, the store stays anchored, and no bytes are lost but those of
the key file. The data file is closed before. -/
theorem shadowed_moveDraft (h : Anchored c D P d g s) (hk : d.KeptAt g (D, c.draftName)) :
    Shadowed (onFiles shadow) (moveDraft c.draftFile c.dataFile).result (d, s) g fun r q g' =>
      Compacted c D P d g s q.1 g' q.2 ∧ (∀ e, r = .error e → Rekeyed c D d [] r q.1) ∧
        (r = .ok () → DraftMoved c D d q.1 q.2) := by
  unfold moveDraft
  apply Action.shadowed_bind
  apply FileAction.shadowed_onDisk
  apply Action.shadowed_failingAs
  refine (h.orderly.shadowed_sizeAt h.rooted.draft hk).mono ?_
  rintro (e | size) _ g ⟨rfl, rfl, hn⟩
  · exact ⟨(h.remains_still (h.orderly.still_tick _)).compacted,
      fun e _ => ⟨rfl, .inl rfl, nofun⟩, nofun⟩
  obtain ⟨n, hn⟩ := hn rfl
  have hstill := h.orderly.still_tick g
  have h₁ := (h.remains_still hstill).compacted
  apply Action.shadowed_bind
  refine (shadowed_truncateKeys h₁.anchored).mono ?_
  rintro r₂ ⟨d₂, s₂⟩ g₂ ⟨h₂, -, -, hk₂⟩
  replace hk₂ : Rekeyed c D d [] r₂ d₂ := ⟨hk₂.data, hk₂.keys, hk₂.done⟩
  cases r₂ with
  | error e => exact ⟨h₁.trans h₂.compacted, fun _ _ => hk₂, nofun⟩
  | ok u =>
  apply Action.shadowed_bind
  refine (shadowed_closeData h₂.anchored).mono ?_
  rintro r₃ ⟨d₃, s₃⟩ g₃ ⟨h₃, hs₃, hclosed⟩
  have hc₃ := h₁.trans (h₂.trans h₃).compacted
  cases r₃ with
  | error e => exact ⟨hc₃, fun _ _ => hk₂.still hs₃ nofun, nofun⟩
  | ok u =>
  have hk₃ : Rekeyed c D d [] (.ok ()) d₃ := hk₂.still hs₃ fun _ => rfl
  have ha₃ := h₃.anchored
  replace hclosed : s₃.dataFile.handle = none := by rw [show s₃ = _ from hclosed]
  -- the draft was not touched so far
  have he₃ := h₂.effect.trans h₃.effect
  have hown := not_isOwnName_draftName c
  have hn₃ : d₃.at? (D, c.draftName) = some (.file n) := (he₃.nodes _ hown).trans hn
  have hcontent₃ : d₃.content n = d.content n := he₃.contents (D, c.draftName) n hown hn
  have hk₃' : d₃.Kept g₃ n := he₃.kept n (hstill.kept n (hk n hn))
  apply FileAction.shadowed_onDisk
  apply Action.shadowed_failingAs
  refine (ha₃.orderly.shadowed_rename ha₃.rooted.draft ha₃.rooted.data hn₃
    c.draftName_ne_dataName).mono ?_
  rintro (e | u) d₄ g₄ ⟨he₄, hcontent₄, herror, hok⟩
  · obtain ⟨rfl, rfl⟩ := herror e rfl
    have hs₄ := ha₃.orderly.still_tick g₄
    exact ⟨hc₃.trans (ha₃.remains_still hs₄).compacted, fun _ _ => hk₃.still hs₄ nofun, nofun⟩
  obtain ⟨hn₄, hgone⟩ := hok rfl
  have hnot : ¬ (c.keyName = c.draftName ∨ c.keyName = c.dataName) := by
    rintro (heq | heq)
    · exact c.draftName_ne_keyName heq.symm
    · exact c.dataName_ne_keyName heq.symm
  have hr₄ : Rooted c D P d₄ g₄ := by
    refine ha₃.rooted.setData he₄ hnot fun m hm => ?_
    cases hn₄.symm.trans hm
    exact he₄.kept n hk₃'
  refine ⟨⟨⟨hr₄, ha₃.dataPath, ha₃.keyPath, ?_, ha₃.keyFile.frame he₄ hnot, ha₃.within⟩,
    hc₃.effect.trans (he₄.mono fun _ hname => hname.elim .inr fun heq => .inl (.inl heq)),
    hc₃.later⟩, nofun,
    fun _ => ⟨hclosed, hgone, ?_, ?_⟩⟩
  · exact ⟨ha₃.dataPath ▸ hr₄.data, fun m hm => by simp [hclosed] at hm⟩
  · rw [bytesAt, hn₄, bytesAt, hn]
    show (d₄.content n).toList = (d.content n).toList
    rw [hcontent₄, hcontent₃]
  · exact (he₄.bytesAt hnot).trans (hk₃.done rfl)

/-- A store whose data file is closed takes over what lies in its place. -/
theorem shadowed_takeOver (h : Anchored c D P d g s) (hclosed : s.dataFile.handle = none)
    {index : Index} (hi : index.Within P) (hcap : index.capacity = s.index.capacity) :
    Shadowed (onFiles shadow) (takeOver c.dataFile index).result (d, s) g fun r q g' =>
      Remains c D P d g s q.1 g' q.2 ∧ Rekeyed c D d (listing index.toList) r q.1 := by
  unfold takeOver
  apply Action.shadowed_bind
  apply FileAction.shadowed_onDisk
  refine h.rooted.shadowed_openData.mono ?_
  intro r₁ d₁ g₁ hpost₁
  obtain ⟨ho₁, hr₁, hf⟩ := hpost₁
  have hkeys₁ : bytesAt d₁ (D, c.keyName) = bytesAt d (D, c.keyName) :=
    ho₁.effect.bytesAt c.dataName_ne_keyName.symm
  have hkeyFile := h.keyFile.frame ho₁.effect c.dataName_ne_keyName.symm
  have he₁ : Effect (IsOwnName c) d g d₁ g₁ := ho₁.effect.mono fun _ => .inl
  cases r₁ with
  | error e =>
    refine ⟨⟨⟨hr₁, h.dataPath, h.keyPath, ⟨h.dataPath ▸ hr₁.data, fun m hm => ?_⟩, hkeyFile,
      h.within⟩, he₁, .refl s⟩, ho₁.bytes, .inl hkeys₁, nofun⟩
    simp [hclosed] at hm
  | ok f =>
  replace hf := hf f rfl
  apply FileAction.shadowed_change_bind
  have h₁ : Remains c D P d g s d₁ g₁
      { s with dataFile := f, index, free := .empty s.free.capacity } :=
    ⟨⟨hr₁, hf.path, h.keyPath, hf.placed, hkeyFile, hi⟩, he₁, later_of_same rfl hcap rfl rfl⟩
  refine (shadowed_saveKeys h₁.anchored).mono ?_
  intro r q g₂ hpost₂
  obtain ⟨h₂, -, hk₂⟩ := hpost₂
  exact ⟨h₁.trans h₂, hk₂.data.trans ho₁.bytes, hkeys₁ ▸ hk₂.keys, hk₂.done⟩

/-- The draft becomes the data file; at whatever point that fails, the store stays anchored. -/
theorem shadowed_replace (h : Anchored c D P d g s) (hk : d.KeptAt g (D, c.draftName))
    {index : Index} (hi : index.Within P) (hcap : index.capacity = s.index.capacity) :
    Shadowed (onFiles shadow) (replace c.draftFile index).result (d, s) g fun _ q g' =>
      Compacted c D P d g s q.1 g' q.2 := by
  rw [replace_eq]
  apply FileAction.shadowed_value_bind
  rw [h.dataPath]
  apply Action.shadowed_bind
  refine (shadowed_moveDraft h hk).mono ?_
  rintro (e | u) ⟨d₁, s₁⟩ g₁ ⟨h₁, -, hok⟩
  · exact h₁
  have hclosed := (hok rfl).closed
  refine (shadowed_takeOver h₁.anchored hclosed hi (hcap.trans h₁.later.capacity.symm)).mono ?_
  rintro r q g₂ ⟨h₂, -⟩
  exact h₁.trans h₂.compacted

theorem indexFor_capacity (dr : Draft) (live : Store) :
    (dr.indexFor live).capacity = live.index.capacity := Index.popMany_capacity _ _

theorem shadowed_installDraft {dr : Draft} (h : Anchored c D P d g s) (hd : Drafted c D d g dr) :
    Shadowed (onFiles shadow) (installDraft dr).result (d, s) g fun _ q g' =>
      Compacted c D P d g s q.1 g' q.2 := by
  have hi := h.within.indexFor hd.coherent
  unfold installDraft
  apply FileAction.shadowed_value_bind
  apply Action.shadowed_bind
  apply Action.shadowed_attempt
  apply FileAction.shadowed_onDisk
  apply FileAction.shadowed_startingWith
  refine (RecordFile.shadowed_close h.orderly dr.file).mono ?_
  rintro (e | u) ⟨d₁, f⟩ g₁ ⟨hs₁, -⟩
  · apply Action.shadowed_bind
    apply FileAction.shadowed_onDisk
    refine (shadowed_abandon (h.still hs₁).rooted ?_).mono ?_
    · exact hd.path
    rintro (e | u) d₂ g₂ he₂
    · exact h.compacted (hs₁.of_still.trans he₂)
    · exact Action.shadowed_throw (h.compacted (hs₁.of_still.trans he₂))
  have h₁ := h.compacted (hs₁.of_still)
  apply Action.shadowed_bind
  apply Action.shadowed_attempt
  dsimp only
  rw [hd.path]
  refine (shadowed_replace h₁.anchored (hd.frame hs₁ id).kept hi
    (indexFor_capacity dr s)).mono ?_
  rintro (e | u) ⟨d₂, s₂⟩ g₂ h₂
  · -- a store that has lost its data file is reset
    apply Action.shadowed_bind
    refine (shadowed_reset h₂.anchored).mono ?_
    rintro (e | u) ⟨d₃, s₃⟩ g₃ ⟨h₃, -⟩
    · exact h₁.trans (h₂.trans h₃.compacted)
    · exact Action.shadowed_throw (h₁.trans (h₂.trans h₃.compacted))
  · exact Action.shadowed_pure (h₁.trans h₂)

theorem shadowed_compactAtOnce (h : Anchored c D P d g s) :
    Shadowed (onFiles shadow) (compactAtOnce c.draftFile).result (d, s) g fun _ q g' =>
      Compacted c D P d g s q.1 g' q.2 := by
  unfold compactAtOnce
  apply Action.shadowed_bind
  apply FileAction.shadowed_onDisk
  refine (shadowed_begin h.rooted).mono ?_
  rintro (e | dr) d₁ g₁ ⟨he₁, hd₁⟩
  · exact h.compacted he₁
  have h₁ := h.compacted he₁
  have hd₁ := hd₁ dr rfl
  apply FileAction.shadowed_value_bind
  apply Action.shadowed_bind
  apply Action.shadowed_attempt
  apply FileAction.shadowed_onDisk
  refine (shadowed_copyAll h₁.anchored hd₁ s.index.keys).mono ?_
  rintro (e | dr') d₂ g₂ ⟨he₂, hd₂⟩
  · have h₂ := h₁.anchored.compacted he₂
    apply Action.shadowed_bind
    apply FileAction.shadowed_onDisk
    refine (shadowed_abandon h₂.anchored.rooted hd₁.path).mono ?_
    rintro (e | u) d₃ g₃ he₃
    · exact h₁.trans (h₂.trans (h₂.anchored.compacted he₃))
    · exact Action.shadowed_throw (h₁.trans (h₂.trans (h₂.anchored.compacted he₃)))
  · have h₂ := h₁.anchored.compacted he₂
    refine (shadowed_installDraft h₂.anchored (hd₂ dr' rfl)).mono ?_
    rintro r q g₃ h₃
    exact h₁.trans (h₂.trans h₃)

end Store

/-! ### Passes -/

namespace Pass

open Draft

/-- What a pass owns. One from before a reset owns the place of its draft, and no more. -/
def Bound (c : Config) (D : Nat) (d : FileSystem) (g : Shade) (s : Store) : Pass → Prop
  | .requested => True
  | .running w => w.draft.file.path = c.draftFile ∧ w.generation ≤ s.generation ∧
      (w.generation = s.generation → Drafted c D d g w.draft)
  | .stopping _ draft => ∀ dr ∈ draft, dr.file.path = c.draftFile

/-- What the store does with its own files does not disturb a pass. -/
theorem Bound.frame {pass : Pass} (h : Bound c D d g s pass)
    (hr : Store.Remains c D P d g s d' g' s') : Bound c D d' g' s' pass := by
  cases pass with
  | requested => trivial
  | stopping n dr => exact h
  | running w =>
    obtain ⟨hpath, hgen, hcurrent⟩ := h
    refine ⟨hpath, Nat.le_trans hgen hr.later.generation, fun heq => ?_⟩
    have hle := hr.later.generation
    exact (hcurrent (by omega)).frame hr.effect (Store.not_isOwnName_draftName c)

theorem Bound.replan {pass : Pass} (h : Bound c D d g s pass)
    (faults : Nat → Option PlannedFault) : Bound c D { d with faults } g s pass := by
  cases pass with
  | requested => trivial
  | stopping n dr => exact h
  | running w =>
    obtain ⟨hpath, hgen, hcurrent⟩ := h
    exact ⟨hpath, hgen, fun heq => (hcurrent heq).replan faults⟩

section Rules

variable {γ : Type} {cast : γ → FileSystem → FileSystem} {g : γ}
  {Q : β → FileSystem × Store → γ → Prop}

theorem shadowed_bind {x : Held α} {f : α → Held β}
    (h : Shadowed (onFiles cast) x.run (d, s) g fun a q g' =>
      Shadowed (onFiles cast) (f a).run q g' Q) :
    Shadowed (onFiles cast) (x >>= f).run (d, s) g Q := by
  obtain ⟨g₁, heq, g₂, heq', hpost⟩ := h
  refine ⟨g₂, ?_, hpost⟩
  rw [run_bind, run_bind, heq]
  exact heq'

theorem shadowed_store_bind {f : Store → Held β}
    (h : Shadowed (onFiles cast) (f s).run (d, s) g Q) :
    Shadowed (onFiles cast) (store >>= f).run (d, s) g Q := h

theorem shadowed_setStore_bind {f : Unit → Held β}
    (h : Shadowed (onFiles cast) (f ()).run (d, s') g Q) :
    Shadowed (onFiles cast) (setStore s' >>= f).run (d, s) g Q := h

theorem shadowed_pure {b : β} (h : Q b (d, s) g) :
    Shadowed (onFiles cast) (pure b : Held β).run (d, s) g Q := ⟨g, rfl, h⟩

end Rules

/-- What a hold of a pass leaves. -/
structure Moved (c : Config) (D : Nat) (P : Key → Prop) (s : Store) (progress : Progress)
    (d' : FileSystem) (g' : Shade) (s' : Store) : Prop where
  anchored : Store.Anchored c D P d' g' s'
  capacity : s'.index.capacity = s.index.capacity
  freeCapacity : s'.free.capacity = s.free.capacity
  bound : ∀ pass, progress = .next pass → Bound c D d' g' s' pass

/-- The store collects keys for this pass. -/
def Collects (s : Store) : Pass → Prop
  | .requested => False
  | .running w => w.generation = s.generation
  | .stopping generation _ => generation = s.generation

/-- If the store collects keys after a hold, it does so for the pass that goes on. -/
def Tends (s : Store) (progress : Progress) : Prop :=
  s.pending.isSome → ∃ pass, progress = .next pass ∧ pass.Collects s

/-- A draft is given up. -/
theorem shadowed_giveUp (h : Store.Anchored c D P d g s) {dr : Draft}
    (hpath : dr.file.path = c.draftFile) :
    Shadowed (onFiles shadow) (abandon dr >>= fun _ => pure (.over false)).run (d, s) g
      fun progress q g' =>
        progress = .over false ∧ Moved c D P s progress q.1 g' q.2 ∧ q.2 = s := by
  obtain ⟨g', heq, he⟩ := shadowed_abandon h.rooted hpath
  refine ⟨g', ?_, rfl, ⟨h.frame he, rfl, rfl, nofun⟩, rfl⟩
  rw [run_bind, run_bind, onFiles, run_abandon, heq]
  rfl

theorem shadowed_start (h : Store.Anchored c D P d g s) :
    Shadowed (onFiles shadow) (start c.draftFile).run (d, s) g fun progress q g' =>
      Moved c D P s progress q.1 g' q.2 ∧ Tends q.2 progress := by
  unfold start
  apply shadowed_store_bind
  apply shadowed_setStore_bind
  have h₁ : Store.Anchored c D P d g { s with pending := some [] } := h.congr rfl rfl h.within
  apply shadowed_bind
  apply FileAction.shadowed_onDisk
  refine (shadowed_begin h₁.rooted).mono ?_
  rintro (e | dr) d' g' ⟨he, hd⟩
  · refine shadowed_pure ⟨⟨h₁.frame he, rfl, rfl, ?_⟩, fun _ => ⟨_, rfl, rfl⟩⟩
    rintro _ ⟨⟩ dr ⟨⟩
  · refine shadowed_pure ⟨⟨h₁.frame he, rfl, rfl, ?_⟩, fun _ => ⟨_, rfl, rfl⟩⟩
    rintro _ ⟨⟩
    exact ⟨(hd dr rfl).path, Nat.le_refl _, fun _ => hd dr rfl⟩

theorem shadowed_copyOne {w : Work} (h : Store.Anchored c D P d g s)
    (hd : Drafted c D d g w.draft) (hw : w.generation = s.generation) (k : Key) :
    Shadowed (onFiles shadow) (copyOne k w).run (d, s) g fun progress q g' =>
      Moved c D P s progress q.1 g' q.2 ∧ Tends q.2 progress := by
  unfold copyOne
  apply shadowed_store_bind
  apply shadowed_bind
  apply FileAction.shadowed_onDisk
  refine (shadowed_copy h hd k).mono ?_
  rintro (e | dr) d' g' ⟨he, hd'⟩
  · refine shadowed_pure ⟨⟨h.frame he, rfl, rfl, ?_⟩, fun _ => ⟨_, rfl, hw⟩⟩
    rintro _ ⟨⟩ dr ⟨⟩
    exact hd.path
  · refine shadowed_pure ⟨⟨h.frame he, rfl, rfl, ?_⟩, fun _ => ⟨_, rfl, hw⟩⟩
    rintro _ ⟨⟩
    exact ⟨(hd' dr rfl).path, Nat.le_of_eq hw, fun _ => hd' dr rfl⟩

theorem shadowed_finish {w : Work} (arrange : List Key → List Key)
    (h : Store.Anchored c D P d g s) (hd : Drafted c D d g w.draft) :
    Shadowed (onFiles shadow) (finish arrange w).run (d, s) g fun progress q g' =>
      Moved c D P s progress q.1 g' q.2 ∧ Tends q.2 progress := by
  have h₀ : Store.Anchored c D P d g { s with pending := none } := h.congr rfl rfl h.within
  unfold finish
  apply shadowed_store_bind
  apply shadowed_setStore_bind
  apply shadowed_store_bind
  apply shadowed_bind
  apply FileAction.shadowed_onDisk
  refine (shadowed_copyAll h₀ hd _).mono ?_
  rintro (e | dr) d₁ g₁ ⟨he₁, hd₁⟩
  · refine (shadowed_giveUp (h₀.frame he₁) hd.path).mono ?_
    rintro progress q g' ⟨-, ⟨ha, hcap, hfree, hbound⟩, hs⟩
    exact ⟨⟨ha, hcap, hfree, hbound⟩, fun hp => by simp [hs] at hp⟩
  · apply shadowed_bind
    refine (Store.shadowed_installDraft (h₀.frame he₁) (hd₁ dr rfl)).mono ?_
    intro r q g₂ h₂
    obtain ⟨ha, -, -, hcap, hfree, hcollecting⟩ := h₂
    have hnone : ∀ progress, Tends q.2 progress := fun _ hp =>
      absurd (hcollecting hp).1 Bool.false_ne_true
    cases r with
    | error e => exact shadowed_pure ⟨⟨ha, hcap, hfree, nofun⟩, hnone _⟩
    | ok u => exact shadowed_pure ⟨⟨ha, hcap, hfree, nofun⟩, hnone _⟩

/-- A pass that is not from before a reset owns its draft, and goes on. -/
theorem shadowed_work {w : Work} (arrange : List Key → List Key)
    (h : Store.Anchored c D P d g s) (hd : Drafted c D d g w.draft)
    (hw : w.generation = s.generation) :
    Shadowed (onFiles shadow) (work arrange w).run (d, s) g fun progress q g' =>
      Moved c D P s progress q.1 g' q.2 ∧ Tends q.2 progress := by
  unfold work
  cases htodo : w.todo with
  | cons k ks => exact shadowed_copyOne (w := { w with todo := ks }) h hd hw k
  | nil =>
    cases htries : w.tries with
    | zero => exact shadowed_finish arrange h hd
    | succ n =>
      apply shadowed_store_bind
      cases htake : s.takePending with
      | none =>
        refine shadowed_pure ⟨⟨h, rfl, rfl, ?_⟩, fun _ => ⟨_, rfl, hw⟩⟩
        rintro _ ⟨⟩
        exact ⟨hd.path, Nat.le_of_eq hw, fun _ => hd⟩
      | some taken =>
        obtain ⟨k, s₁⟩ := taken
        obtain ⟨ks, -, rfl⟩ := takePending_eq htake
        have h₁ : Store.Anchored c D P d g { s with pending := some ks } :=
          h.congr rfl rfl h.within
        apply shadowed_setStore_bind
        refine (shadowed_copyOne (w := { w with todo := [], tries := n }) h₁ hd hw k).mono ?_
        rintro progress q g' ⟨⟨ha, hcap, hfree, hbound⟩, htends⟩
        exact ⟨⟨ha, hcap, hfree, hbound⟩, htends⟩

/-- A pass that listed its keys before a reset, or whose region has died, is over. -/
def IsStale (s : Store) (alive : Bool) : Pass → Prop
  | .requested => alive = false
  | .running w => alive = false ∨ w.generation ≠ s.generation
  | .stopping _ _ => True

theorem shadowed_hold (arrange : List Key → List Key) (h : Store.Anchored c D P d g s)
    (alive : Bool) {pass : Pass} (hp : Bound c D d g s pass) :
    Shadowed (onFiles shadow) (pass.hold arrange c.draftFile alive).run (d, s) g
      fun progress q g' => Moved c D P s progress q.1 g' q.2 ∧
        (pass.IsStale s alive → progress = .over false) ∧
        (alive → (s.pending.isSome → pass.Collects s) → Tends q.2 progress) := by
  cases pass with
  | requested =>
    rw [hold]
    split
    · next halive =>
      refine (shadowed_start h).mono ?_
      rintro progress q g' ⟨hmoved, htends⟩
      refine ⟨hmoved, fun hstale => ?_, fun _ _ => htends⟩
      cases hstale.symm.trans halive
    · next hdead =>
      exact shadowed_pure ⟨⟨h, rfl, rfl, fun _ heq => by cases heq⟩, fun _ => rfl,
        fun halive => absurd halive hdead⟩
  | running w =>
    obtain ⟨hpath, -, hcurrent⟩ := hp
    rw [hold]
    apply shadowed_store_bind
    split
    · next hcond =>
      rw [Bool.and_eq_true, beq_iff_eq] at hcond
      refine (shadowed_work arrange h (hcurrent hcond.2.symm) hcond.2.symm).mono ?_
      rintro progress q g' ⟨hmoved, htends⟩
      refine ⟨hmoved, ?_, fun _ _ => htends⟩
      rintro (hdead | hold)
      · simp [hdead] at hcond
      · exact absurd hcond.2.symm hold
    · next hcond =>
      refine (shadowed_giveUp h hpath).mono ?_
      rintro progress q g' ⟨rfl, hmoved, hs⟩
      refine ⟨hmoved, fun _ => rfl, fun halive hcollects hp => ?_⟩
      -- the pass is from before a reset, which has ended the collecting
      rw [hs] at hp
      exact absurd (by simp [halive, show w.generation = s.generation from hcollects hp]) hcond
  | stopping generation draft =>
    rw [hold]
    apply shadowed_store_bind
    apply shadowed_setStore_bind
    have h₁ : Store.Anchored c D P d g (s.stopCollecting generation) ∧
        (s.stopCollecting generation).index = s.index ∧
        (s.stopCollecting generation).free = s.free ∧
        ((s.pending.isSome → generation = s.generation) →
          (s.stopCollecting generation).pending = none) := by
      unfold Store.stopCollecting
      split
      · exact ⟨h.congr rfl rfl h.within, rfl, rfl, fun _ => rfl⟩
      · next hne =>
        refine ⟨h, rfl, rfl, fun hcollects => Option.not_isSome_iff_eq_none.1 fun hp => ?_⟩
        exact hne (hcollects hp).symm
    obtain ⟨ha, hi, hf, hnone⟩ := h₁
    have htends : (s.pending.isSome → generation = s.generation) →
        Tends (s.stopCollecting generation) (.over false) := by
      intro hcollects hp
      rw [hnone hcollects] at hp
      cases hp
    cases draft with
    | none =>
      exact shadowed_pure ⟨⟨ha, congrArg _ hi, congrArg _ hf, fun _ heq => by cases heq⟩,
        fun _ => rfl, fun _ => htends⟩
    | some dr =>
      refine (shadowed_giveUp ha (hp dr rfl)).mono ?_
      rintro progress q g' ⟨rfl, ⟨ha', hcap, hfree, hbound⟩, hs⟩
      exact ⟨⟨ha', hcap.trans (congrArg _ hi), hfree.trans (congrArg _ hf), hbound⟩, fun _ => rfl,
        fun _ hcollects => hs ▸ htends hcollects⟩

end Pass

end DiskTier
