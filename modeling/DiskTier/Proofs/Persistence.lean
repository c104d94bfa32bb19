import DiskTier.Proofs.Admission
import DiskTier.Proofs.Finality
import DiskTier.Proofs.LastPuts
import DiskTier.Proofs.Transparency

/-!
# Regions that come back

A save, a compaction that installs its draft, and the end of a region each leave a data file and a
key file that belong together. If nothing is changed after that, a region that is opened over these
files has the newest of the keys, in their order, and each with its record.
-/

namespace DiskTier

open FileSystem

namespace Store

variable {c c₀ : Config} {d d' : FileSystem} {s s' : Store} {data data' keys bytes : Bytes}
  {H : List Element} {listed : List (Key × Slot)} {k : Key} {slot slot' : Slot}

/-! ### Records that have moved -/

/-- Only a message tells where a record lies. -/
theorem found_eq_ok_iff_of_slot {found? : Option Element} :
    found k slot bytes = .ok found? ↔ found k slot' bytes = .ok found? := by
  unfold found
  rcases Element.decode bytes with fault | e
  · exact Iff.rfl
  · by_cases hk : e.key = k
    · simp only [hk, if_true]
    · simp only [hk, if_false]
      constructor <;> rintro ⟨⟩

theorem foundIn_eq_ok_iff {found? : Option Element}
    (h : (s.index.get? k).map (·.slice data) = (s'.index.get? k).map (·.slice data')) :
    s.foundIn data k = .ok found? ↔ s'.foundIn data' k = .ok found? := by
  unfold foundIn
  cases hk : s.index.get? k with
  | none =>
    rw [hk, Option.map_none, eq_comm, Option.map_eq_none_iff] at h
    rw [h]
  | some slot =>
    rw [hk, Option.map_some, eq_comm, Option.map_eq_some_iff] at h
    obtain ⟨slot', hk', hslice⟩ := h
    rw [hk']
    simp only [hslice]
    exact found_eq_ok_iff_of_slot

/-! ### Reading the key file back -/

/-- The files of a sound store are trusted when they are opened. -/
theorem Sound.trustworthy (hs : Sound H s data listed) (hne : listed ≠ [])
    (hread : (Store.listing listed).length ≤ Slot.maxLength) (hmax : data.length ≤ maxPosition) :
    Region.Trustworthy c data (Store.listing listed) listed := by
  refine ⟨hread, ?_, hne, fun e he => ?_⟩
  · rw [Store.listing, if_neg hne, Index.Snapshot.decode_encode]
  · have hmem : e ∈ listed := (Index.lastEach_sublist listed).subset (List.mem_of_mem_drop he)
    have hwithin := hs.listing.within e.2 (List.mem_map_of_mem hmem)
    have hposition : maxPosition ≤ Slot.maxOffset := by decide
    omega

/-- A store that is opened again has the newest keys that its key file lists. -/
theorem Intact.openAt_listed (h : Intact c₀ H d s data listed) (hdata : c₀.dataFile = c.dataFile)
    (hkey : c₀.keyFile = c.keyFile) (hc : c.Valid)
    (hread : (listing listed).length ≤ Slot.maxLength)
    (ho : (Store.openAt c).result d = (.ok s', d')) :
    s'.index.toList = newest c.maxKeys listed ∧
      (listed ≠ [] → s'.Mounted c d' data (listing listed)) := by
  obtain ⟨d₁, s₁, hm₁, -, -, hindex, hcases⟩ := h.mounted.openAt hdata hkey hc ho
  by_cases hne : listed = []
  · subst hne
    have hempty : s'.index = .empty c.maxKeys := by
      rcases hcases with ⟨-, -, -, hi, -⟩ | ⟨-, rfl, rfl⟩
      · exact hi
      · exact hindex
    refine ⟨?_, fun hne => absurd rfl hne⟩
    rw [hempty, Index.toList_empty, newest, List.drop_nil]
  · have htrust := h.sound.trustworthy (c := c) hne hread h.mounted.data_le
    obtain ⟨-, hneeds⟩ := (Region.trustworthy_iff hc hm₁ hindex).1 ⟨listed, htrust⟩
    rcases hcases with ⟨hyes, -⟩ | ⟨-, rfl, rfl⟩
    · exact absurd hyes hneeds
    · obtain ⟨-, hlist⟩ := loaded_index (c := c) htrust.readable htrust.decodes
      rw [← hindex, Index.lastEach_of_nodup h.sound.names] at hlist
      exact ⟨hlist, fun _ => hm₁⟩

/-- A key file that can be read is not longer than a slot can be. -/
theorem Mounted.readable (hm : s.Mounted c₀ d data keys) (hkey : c₀.keyFile = c.keyFile)
    (hc : c.Valid)
    (hread : ((RecordFile.openAt c.keyFile >>= RecordFile.readAll).result d).1.isOk) :
    keys.length ≤ Slot.maxLength := by
  rw [Action.result_bind] at hread
  rcases RecordFile.openAt_cases hm.healthy hc.steps_keyFile with
    ⟨x, d₁, f, -, hr, hl, hf, -, hpath⟩ | ⟨e, d₁, hr, -⟩
  · obtain ⟨y, -, hy⟩ := hm.keyFile
    have hlodged : Lodged d₁ f.path y := by
      rw [hpath, ← hkey, ← hm.keyPath]
      exact hy.lodged.mono hl.directories
    have hlength := hf.length
    rw [hf.lodged.unique hlodged, hy.bytesAt_eq] at hlength
    by_contra hlong
    rw [hr] at hread
    simp only at hread
    rw [RecordFile.readAll, if_neg (by omega)] at hread
    cases hread
  · rw [hr] at hread
    cases hread

end Store

namespace Region

variable {α : Type} {c c₀ : Config} {d d' : FileSystem} {p p₀ q q₁ q₂ : World} {r r' : Region}
  {e : Event} {before events tail : List Event} {H : List Element} {data : Bytes}
  {listed : List (Key × Slot)}

/-! ### What persists a region, and what leaves it as it is -/

/-- An event that succeeds in bringing all keys into the key file. -/
inductive Persists : World → Event → World → Prop where
  | saved {p q : World} (h : Region.saveKeys.result p = (.ok (), q)) :
      Persists p (.called .saveKeys (.ok ())) q
  | installed {p : World} {arrange : List Key → List Key} (harrange : ∀ l, (arrange l).Perm l)
      (h : p.2.compactions < ((holdPass arrange).run p).2.2.compactions) :
      Persists p (.held true) ((holdPass arrange).run p).2
  /-- It does not matter whether the region still serves or a pass is under way. -/
  | shutDown {p : World} (hopen : p.2.closed = false)
      (h : (p.2.lastAction.result (p.1, p.2.store)).1 = .ok ()) :
      Persists p .shutDown (Region.shutDown.result p).2

theorem Persists.step (h : Persists p e q) : Step p e q := by
  cases h with
  | @saved q h =>
    have hstep := Step.called .saveKeys p
    rw [show Call.saveKeys.perform.result p = _ from h] at hstep
    exact hstep
  | installed harrange h =>
    have hstep := Step.held harrange p
    rw [decide_eq_true h] at hstep
    exact hstep
  | shutDown hopen h => exact .shutDown p

/-- An event that asks, or asks in vain for a change. -/
def Event.isIdle : Event → Prop
  | .called (.put _) answer => ∃ e, answer = .error e
  | .called (.remove _) answer => answer = .ok false
  | .called (.removeGroup _) answer => answer = .ok false
  | .called .reset answer => ∃ name, answer = .error (.notAlive name)
  | .called .saveKeys answer => ∃ name, answer = .error (.notAlive name)
  | .held installed => installed = false
  | .shutDown => False
  | .reopened _ => False
  | _ => True

/-- An event that changes nothing of what a region stores. A read or a compaction that fails may
reset the region, which begins another generation. -/
structure Idle (p : World) (e : Event) (q : World) : Prop where
  step : Step p e q
  idle : e.isIdle
  kept : q.2.store.generation = p.2.store.generation

/-! ### Events that change nothing -/

/-- The second region has the files and the keys of the first. -/
structure Rests (H : List Element) (data : Bytes) (listed : List (Key × Slot)) (p q : World) :
    Prop where
  sound : Sound H q.1 q.2 data listed
  toList : q.2.store.index.toList = p.2.store.index.toList
  config : q.2.config = p.2.config
  alive : q.2.alive → p.2.alive

theorem Sound.rests (h : Sound H p.1 p.2 data listed) : Rests H data listed p p :=
  ⟨h, rfl, rfl, id⟩

theorem Rests.trans (h : Rests H data listed p q) (h' : Rests H data listed q q₁) :
    Rests H data listed p q₁ :=
  ⟨h'.sound, h'.toList.trans h.toList, h'.config.trans h.config, fun ha => h.alive (h'.alive ha)⟩

theorem rests_lookup (h : Sound H p.1 p.2 data listed) (k : Key) :
    Rests H data listed p ((lookup k).result p).2 := by
  obtain ⟨d, r⟩ := p
  cases ha : r.alive with
  | false =>
    rw [result_lookup_dead ha]
    exact h.rests
  | true =>
    obtain ⟨d', r', hr, hchanges, hstore, h', -⟩ := lookup_spec h ha k
    rw [hr]
    exact ⟨h', congrArg (·.index.toList) hstore, hchanges.config, fun _ => ha⟩

theorem rests_get (h : Sound H p.1 p.2 data listed) (k : Key)
    (hkept : ((Region.get k).result p).2.2.store.generation = p.2.store.generation) :
    Rests H data listed p ((Region.get k).result p).2 := by
  obtain ⟨d, r⟩ := p
  have hl := rests_lookup h k
  rw [result_get] at hkept ⊢
  cases ha : r.alive with
  | false =>
    rw [result_lookup_dead ha] at hl ⊢
    exact hl
  | true =>
    obtain ⟨d', r', hr, hchanges, hstore, h', -⟩ := lookup_spec h ha k
    rw [hr] at hl hkept ⊢
    cases hfound : r.store.foundIn data k with
    | ok found =>
      rw [hfound] at hl
      exact hl
    | error e =>
      -- a read that fails resets the region
      obtain ⟨d'', r'', hr', -, -, -, -, -, hgen⟩ := reset_spec h' (hchanges.alive.trans ha)
      rw [hfound] at hkept
      simp only at hkept
      rw [hr', hgen, hstore] at hkept
      exact absurd hkept (Nat.succ_ne_self _)

theorem rests_put (h : Sound H p.1 p.2 data listed) (element : Element) {err : Error}
    (herr : ((put element).result p).1 = .error err) :
    Rests H data listed p ((put element).result p).2 := by
  obtain ⟨d, r⟩ := p
  cases ha : r.alive with
  | false =>
    have hr : (put element).result (d, r) = (.error (.notAlive r.config.cacheName), (d, r)) := by
      unfold put
      rw [Action.result_bind, result_requireAlive_dead ha]
    rw [hr]
    exact h.rests
  | true =>
    rcases put_spec h ha element with ⟨d', r', data', hr, -⟩ | ⟨err', d', hr, h', -⟩
    · rw [hr] at herr
      cases herr
    · rw [hr]
      exact ⟨h', rfl, rfl, id⟩

/-- What finds nothing to remove removes nothing. -/
theorem rests_removeBy (h : Sound H d r data listed) {f : Store → Bool × Store} {P : Key → Bool}
    (hf : r.store.Removal H data listed P (f r.store)) (hno : (r.removeBy f).1 = false) :
    Rests H data listed (d, r) (d, (r.removeBy f).2) := by
  cases ha : r.alive with
  | false =>
    rw [removeBy_dead ha]
    exact h.rests
  | true =>
    obtain ⟨hanswer, hchanges, -, -, h', -⟩ := removeBy_spec h ha hf
    refine ⟨h', ?_, hchanges.config, fun _ => ha⟩
    have hany : (r.store.index.records data).any (P ·.1) = false := hanswer ▸ hno
    have hnone : ∀ e ∈ r.store.index.toList, (!P e.1) = true := by
      intro e he
      have hnot := List.any_eq_false.1 hany (e.1, e.2.slice data) (List.mem_map_of_mem he)
      simpa using hnot
    obtain ⟨-, hstore, -⟩ := removeBy_eq ha f
    show (r.removeBy f).2.store.index.toList = r.store.index.toList
    rw [hstore, hf.toList, List.filter_eq_self.2 hnone]

/-- What a region refuses that does not serve is not done. -/
theorem rests_refused (h : Sound H p.1 p.2 data listed) {x : Change α} {name : String}
    (halive : p.2.alive → ∃ d' r' answer, (requireAlive >>= fun _ => x).result p =
      (answer, (d', r')) ∧ answer ≠ .error (.notAlive name))
    (hrefused : ((requireAlive >>= fun _ => x).result p).1 = .error (.notAlive name)) :
    Rests H data listed p ((requireAlive >>= fun _ => x).result p).2 := by
  obtain ⟨d, r⟩ := p
  cases ha : r.alive with
  | false =>
    rw [Action.result_bind, result_requireAlive_dead ha]
    exact h.rests
  | true =>
    obtain ⟨d', r', answer, hr, hne⟩ := halive ha
    rw [hr] at hrefused
    exact absurd hrefused hne

theorem Idle.rests (h : Sound H p.1 p.2 data listed) (hi : Idle p e q) :
    Rests H data listed p q := by
  obtain ⟨hstep, hidle, hkept⟩ := hi
  cases hstep with
  | called call p =>
    cases call with
    | put element =>
      obtain ⟨err, herr⟩ := hidle
      exact rests_put h element herr
    | get k => exact rests_get h k hkept
    | groupKeys name => exact h.rests
    | remove k =>
      exact rests_removeBy h (h.intact.sound.remove k) (Except.ok.inj hidle)
    | removeGroup group =>
      exact rests_removeBy h (h.intact.sound.removeWhere _) (Except.ok.inj hidle)
    | reset =>
      obtain ⟨name, hname⟩ := hidle
      refine rests_refused h (fun ha => ?_) hname
      obtain ⟨d', r', hr, -⟩ := reset_spec h ha
      exact ⟨d', r', _, hr, by rintro ⟨⟩⟩
    | saveKeys =>
      obtain ⟨name, hname⟩ := hidle
      refine rests_refused h (fun ha => ?_) hname
      obtain ⟨answer, d', r', _, hr, -, -, -, -, -, hwhy⟩ := saveKeys_spec h ha
      refine ⟨d', r', answer, hr, ?_⟩
      rcases hwhy with ⟨rfl, -⟩ | rfl <;> rintro ⟨⟩
    | size => exact h.rests
    | stats => exact h.rests
    | requestCompaction =>
      have hchanges := changes_requestCompaction p.2
      obtain ⟨hstore, -⟩ := requestCompaction_eq p.2
      exact ⟨h.count hchanges hstore h.intact.mounted.healthy.alike_refl,
        congrArg (·.index.toList) hstore, hchanges.config, fun ha => hchanges.alive ▸ ha⟩
  | looked k p => exact rests_lookup h k
  | held harrange p =>
    obtain ⟨d', r', data', listed', hr, h', hconf, halive, -, -, hcases⟩ := holdPass_spec h harrange
    have hnot := of_decide_eq_false hidle
    rw [hr] at hnot hkept ⊢
    rcases hcases with ⟨hlt, -⟩ | ⟨-, hstay⟩
    · exact absurd hlt hnot
    · obtain ⟨hindex, rfl, rfl⟩ := hstay hkept
      exact ⟨h', congrArg Index.toList hindex, hconf, fun ha => halive ▸ ha⟩
  | died d r =>
    exact ⟨⟨h.intact, h.valid, h.isOpen, fun _ => rfl, h.compacting, h.follows⟩, rfl, rfl, nofun⟩
  | shutDown p => cases hidle
  | reopened hname hpath ho => cases hidle

theorem Run.rests (h : Sound H p.1 p.2 data listed) (hr : Run Idle p events q) :
    Rests H data listed p q := by
  induction hr with
  | nil => exact h.rests
  | snoc hr he ih => exact ih.trans (he.rests ih.sound)

/-! ### Events that persist -/

/-- After an event that persists the key file lists the index, and all keys have their records;
their order changes only if a pass has installed its draft. -/
theorem Persists.sound (h : Sound H q.1 q.2 data listed) (hs : Persists q e q₁) :
    ∃ data₁, Sound H q₁.1 q₁.2 data₁ q₁.2.store.index.toList ∧ q₁.2.config = q.2.config ∧
      (q₁.2.store.index.records data₁).Perm (q.2.store.index.records data) ∧
      (e ≠ .held true → q₁.2.store.index.records data₁ = q.2.store.index.records data) := by
  obtain ⟨d, r⟩ := q
  cases hs with
  | saved hsave =>
    cases ha : r.alive with
    | false =>
      unfold Region.saveKeys at hsave
      rw [Action.result_bind, result_requireAlive_dead ha] at hsave
      cases hsave
    | true =>
      obtain ⟨answer, d', r', listed', hr, hchanges, -, -, hi, h', hwhy⟩ := saveKeys_spec h ha
      rw [hr] at hsave
      cases hsave
      rcases hwhy with ⟨-, rfl⟩ | ⟨⟨⟩⟩
      have hrecords : r'.store.index.records data = r.store.index.records data := by rw [hi]
      refine ⟨data, ?_, hchanges.config, .of_eq hrecords, fun _ => hrecords⟩
      show Sound H d' r' data r'.store.index.toList
      rw [hi]
      exact h'
  | installed harrange hlt =>
    obtain ⟨d', r', data', listed', hr, h', hconf, -, -, -, hcases⟩ := holdPass_spec h harrange
    rw [hr] at hlt ⊢
    rcases hcases with ⟨-, -, hperm, rfl⟩ | ⟨heq, -⟩
    · exact ⟨data', h', hconf, hperm, fun hne => absurd rfl hne⟩
    · exact absurd hlt (Nat.not_lt_of_le (Nat.le_of_eq heq))
  | shutDown hopen hlast =>
    obtain ⟨d', r', data', listed', hr, h', hconf, hkept⟩ := shutDown_spec h
    obtain ⟨hrecords, rfl⟩ := hkept hopen hlast
    rw [hr]
    exact ⟨data', h', hconf, .of_eq hrecords, fun _ => hrecords⟩

/-- A pass that finds the region dead does not install its draft. -/
theorem hold_dead (pass : Pass) (arrange : List Key → List Key) (draftFile : Path)
    (p : FileSystem × Store) : ((pass.hold arrange draftFile false).run p).1 = .over false := by
  rcases pass with _ | w | ⟨generation, _ | draft⟩ <;> rfl

/-- An event that persists finds the files open. -/
theorem Persists.not_closed (h : Sound H q.1 q.2 data listed) (hs : Persists q e q₁) :
    q.2.closed = false := by
  obtain ⟨d, r⟩ := q
  have hdead : r.closed = true → r.alive = false := h.dead
  rw [Bool.eq_false_iff]
  intro hc
  have ha := hdead hc
  cases hs with
  | saved hsave =>
    unfold Region.saveKeys at hsave
    rw [Action.result_bind, result_requireAlive_dead ha] at hsave
    cases hsave
  | @installed arrange harrange hlt =>
    cases hpass : r.pass with
    | none =>
      rw [holdPass_none arrange hpass] at hlt
      exact absurd hlt (Nat.lt_irrefl _)
    | some pass =>
      have hover := hold_dead pass arrange r.config.draftFile (d, r.store)
      rcases hr : (pass.hold arrange r.config.draftFile false).run (d, r.store) with
        ⟨progress, d', s'⟩
      rw [hr] at hover
      obtain rfl : progress = .over false := hover
      have hrun : (pass.hold arrange r.config.draftFile r.alive).run (d, r.store) =
          (.over false, (d', s')) := ha ▸ hr
      rw [holdPass_over hpass hrun] at hlt
      exact absurd hlt (Nat.lt_irrefl _)
  | shutDown hopen hlast => exact absurd hc (by simp [show r.closed = false from hopen])

/-! ### Coming back -/

/-- The files of a region that was opened stay where they are. -/
theorem exists_anchored (h : OpenedEmpty c p) (hr : Run Step p events q) :
    ∃ D P g, Anchored D P q.1 g q.2 := by
  obtain ⟨-, -, -, -, hclosed, -⟩ := Sound.of_openedEmpty h
  obtain ⟨d, hd, ho, -⟩ := h
  obtain ⟨D, g, ha, -⟩ := anchored_of_openAt hd.orderly ho
  have hdead : p.2.closed = true → p.2.alive = false := fun hc => by
    rw [hclosed] at hc
    cases hc
  obtain ⟨g', -, ha', -⟩ := Run.shadowed ha hdead (hr.mono .step)
  exact ⟨D, _, g', ha'⟩

/-- What a read of a key answers. -/
def answer (p : World) (k : Key) : Except Error (Option Element) := ((Region.get k).result p).1

/-- The world with a region that still serves. -/
def revived (p : World) : World := (p.1, { p.2 with alive := true })

theorem Sound.answer_eq (h : Sound H p.1 p.2 data listed) (ha : p.2.alive) (k : Key) :
    answer p k = p.2.store.foundIn data k := by
  obtain ⟨d', r', hr, -⟩ := lookup_spec h ha k
  rw [answer, result_get, show (lookup k).result p = _ from hr]
  rcases p.2.store.foundIn data k with e | found
  · rfl
  · rfl

theorem Sound.revived (h : Sound H p.1 p.2 data listed) (hc : p.2.closed = false) :
    Sound H (revived p).1 (revived p).2 data listed :=
  ⟨h.intact, h.valid, h.isOpen, fun hclosed => absurd hclosed (by simp [Region.revived, hc]),
    h.compacting, h.follows⟩

/-- What a region that is opened again has of one that was persisted. -/
theorem Sound.reopened (h : Sound H p.1 p.2 data p.2.store.index.toList)
    (hname : c.cacheName = p.2.config.cacheName) (hpath : c.diskPath = p.2.config.diskPath)
    (ho : (Region.openAt c).result p.1 = (.ok q.2, q.1))
    (hread : ((RecordFile.openAt c.keyFile >>= RecordFile.readAll).result p.1).1.isOk) :
    ∃ data' listed', Sound H q.1 q.2 data' listed' ∧ q.2.alive ∧
      q.2.store.index.toList = newest c.maxKeys p.2.store.index.toList ∧
      ∀ k ∈ q.2.store.index.keys, data' = data ∧
        q.2.store.index.get? k = p.2.store.index.get? k := by
  obtain ⟨d, r⟩ := p
  obtain ⟨d', r'⟩ := q
  obtain ⟨data', listed', h'⟩ := isSound_reopened ⟨data, _, h⟩ hname hpath ho
  obtain ⟨hc, hdata, hkey, d₂, hintact, hstore, hnew⟩ := h.openStore hname hpath ho
  have hlength := h.intact.mounted.readable hkey hc hread
  obtain ⟨hlist, hmounted⟩ := hintact.openAt_listed hdata hkey hc hlength hstore
  have hconfig : r'.config = c := congrArg Region.config hnew
  have halive : r'.alive = true := congrArg Region.alive hnew
  refine ⟨data', listed', h', halive, hlist, fun k hk => ?_⟩
  obtain ⟨slot, hslot⟩ := Option.isSome_iff_exists.1 (h'.intact.sound.coherent.mem_keys_iff.1 hk)
  have hmem : (k, slot) ∈ r.store.index.toList := by
    have hmem := h'.intact.sound.coherent.mem_toList_iff.2 hslot
    rw [hlist] at hmem
    exact List.mem_of_mem_drop hmem
  constructor
  · -- the data file was not made anew, since there is a key
    have hcontent := (hmounted (List.ne_nil_of_mem hmem)).contentAt?
    have hcontent' := h'.intact.mounted.contentAt?
    rw [hconfig, hcontent] at hcontent'
    exact (Option.some.inj hcontent').symm
  · rw [hslot, h.intact.sound.coherent.mem_toList_iff.1 hmem]

/-- A region whose last change persisted it comes back when its files are opened: it has the newest
of its keys in their order, as many as there is room for, and of each a read answers as before. A
read that failed fails again, though its message may tell of the place to which a compaction has
moved the record. The newest of the keys are those that were put last, unless a pass that installed
its draft has shuffled them since they were put. -/
theorem comes_back_whole (h : OpenedEmpty c₀ p) (hr₀ : Run Step p before p₀)
    (hr : Run Step p₀ events q) (hs : Persists q e q₁) (hidle : Run Idle q₁ tail q₂)
    (hc : c.validate = .ok ())
    (hname : c.cacheName = q₂.2.config.cacheName) (hpath : c.diskPath = q₂.2.config.diskPath)
    (hread : ((RecordFile.openAt c.keyFile >>= RecordFile.readAll).result q₂.1).1.isOk) :
    SameRecords q q₂ ∧ (e ≠ .held true → q₂.2.store.index.keys = q.2.store.index.keys) ∧
      ∃ q', opened? c q₂.1 = some q' ∧
        q'.2.store.index.keys = newest c.maxKeys q₂.2.store.index.keys ∧
        q'.2.size = min q₂.2.size c.maxKeys ∧
        (q₂.2.size ≤ c.maxKeys → q'.2.store.index.keys = q₂.2.store.index.keys) ∧
        (Run Unshuffled p₀ events q → q₂.2.store.index.keys = q.2.store.index.keys →
          q'.2.store.index.keys = newest c.maxKeys
            ((touchAll p₀.2.store.index.keys (putKeys events)).filter
              (· ∈ q.2.store.index.keys))) ∧
        ∀ k ∈ q'.2.store.index.keys, recordOf? q' k = recordOf? q k ∧
          (∀ found?, answer q' k = .ok found? ↔ answer (revived q) k = .ok found?) ∧
          (q₂.2.alive → answer q' k = answer q₂ k) := by
  have hall := hr₀.append hr
  obtain ⟨data, listed, hq⟩ := hall.isSound h
  obtain ⟨data₁, h₁, hconfig₁, hperm, horder⟩ := hs.sound hq
  have hrests := hidle.rests h₁
  have h₂ := hrests.sound
  rw [← hrests.toList] at h₂
  have hsame : SameRecords q q₂ := by
    refine sameRecords_of_perm hq h₂ (hrests.config.trans hconfig₁) ?_
    rw [Index.records, hrests.toList]
    exact hperm
  refine ⟨hsame, fun hne => ?_, ?_⟩
  · rw [← h₂.intact.sound.coherent.keys_records data₁, ← hq.intact.sound.coherent.keys_records data,
      ← horder hne, Index.records, hrests.toList]
    rfl
  -- nothing is in the way of opening the files
  obtain ⟨D, P, g, ha⟩ := exists_anchored h ((hall.snoc hs.step).append (hidle.mono (·.step)))
  obtain ⟨r', d', ho⟩ := openAt_total (ha.store.rooted.congr hname hpath)
    h₂.intact.mounted.healthy.calm (Config.valid_of_validate hc)
  obtain ⟨data', listed', h', halive, hlist, hget⟩ :=
    h₂.reopened (q := (d', r')) hname hpath ho hread
  have hsize : ∀ {H data listed} {p : World}, Sound H p.1 p.2 data listed →
      p.2.size = p.2.store.index.toList.length := fun hp => hp.intact.sound.coherent.size_eq
  have hkeep : r'.store.index.keys = newest c.maxKeys q₂.2.store.index.keys := by
    rw [← h'.intact.sound.coherent.keys_toList, ← h₂.intact.sound.coherent.keys_toList,
      ← map_newest]
    exact congrArg _ hlist
  refine ⟨(d', r'), opened?_eq_some_iff.2 ho, hkeep, ?_, fun hle => ?_, fun hput hsort => ?_,
    fun k hk => ?_⟩
  · rw [hsize h', hsize h₂, hlist, newest, List.length_drop]
    omega
  · rw [hsize h₂] at hle
    rw [← h'.intact.sound.coherent.keys_toList, ← h₂.intact.sound.coherent.keys_toList, hlist,
      newest_of_length_le hle]
  · exact hkeep.trans (congrArg _ (hsort.trans (hput.keys_eq (hr₀.isSound h))))
  · obtain ⟨rfl, hslot⟩ := hget k hk
    have hfound : r'.store.foundIn data' k = q₂.2.store.foundIn data' k := by
      unfold Store.foundIn
      rw [show r'.store.index.get? k = q₂.2.store.index.get? k from hslot]
    have hrecord : recordOf? (d', r') k = recordOf? q k := by
      rw [← hsame.records k, h'.recordOf?_eq, h₂.recordOf?_eq]
      exact congrArg _ hslot
    refine ⟨hrecord, fun found? => ?_, fun halive₂ => ?_⟩
    · rw [h'.answer_eq halive, (hq.revived (hs.not_closed hq)).answer_eq rfl]
      apply Store.foundIn_eq_ok_iff
      rw [h'.recordOf?_eq, hq.recordOf?_eq] at hrecord
      exact hrecord
    · rw [h'.answer_eq halive, h₂.answer_eq halive₂]
      exact hfound

theorem Idle.hold {arrange : List Key → List Key} (harrange : ∀ l, (arrange l).Perm l)
    (hi : decide (q.2.compactions < ((holdPass arrange).run q).2.2.compactions) = false)
    (hkept : ((holdPass arrange).run q).2.2.store.generation = q.2.store.generation) :
    Idle q (.held false) ((holdPass arrange).run q).2 := by
  have hstep := Step.held harrange q
  rw [hi] at hstep
  exact ⟨hstep, rfl, hkept⟩

/-- A region that is shut down while a pass is under way saves its keys, and the pass gives up.
Where there is room for one key, the one that was put last comes back. -/
theorem newer_key_comes_back : ∃ (p q q₁ q₂ q' : World), OpenedEmpty (roomFor 2) p ∧
    Run Unshuffled p [.called (.put (note "x" [1, 2])) (.ok ()),
      .called (.put (note "y" [1])) (.ok ()), .called .requestCompaction (.ok true)] q ∧
    Persists q .shutDown q₁ ∧ Run Idle q₁ [.held false] q₂ ∧ (roomFor 1).validate = .ok () ∧
    opened? (roomFor 1) q₂.1 = some q' ∧ q₂.2.store.index.keys = [.name "x", .name "y"] ∧
    q'.2.store.index.keys = [.name "y"] ∧ recordOf? q' (.name "y") = recordOf? q (.name "y") := by
  have h : (opened? (roomFor 2) .empty).map (fun p =>
      let q₁ := (Call.put (note "x" [1, 2])).perform.result p
      let q₂ := (Call.put (note "y" [1])).perform.result q₁.2
      let q₃ := Call.requestCompaction.perform.result q₂.2
      let q₄ := Region.shutDown.result q₃.2
      let q₅ := (holdPass id).run q₄.2
      let read := (RecordFile.openAt (roomFor 1).keyFile >>= RecordFile.readAll).result q₅.2.1
      decide (p.2.size = 0 ∧ q₁.1 = .ok () ∧ q₂.1 = .ok () ∧ q₃.1 = .ok true ∧
        q₃.2.2.closed = false ∧ (q₃.2.2.lastAction.result (q₃.2.1, q₃.2.2.store)).1 = .ok () ∧
        decide (q₄.2.2.compactions < q₅.2.2.compactions) = false ∧
        q₅.2.2.store.generation = q₄.2.2.store.generation ∧
        q₅.2.2.store.index.keys = [.name "x", .name "y"] ∧ (roomFor 1).validate = .ok () ∧
        read.1.isOk ∧ q₅.2.2.config = roomFor 2)) = some true := by
    decide +kernel
  obtain ⟨p, hp, h⟩ := Option.map_eq_some_iff.1 h
  obtain ⟨hsize, h₁, h₂, h₃, hopen, hlast, hheld, hkept, hkeys, hvalid, hread, hconfig⟩ :=
    of_decide_eq_true h
  have hempty := openedEmpty_of_eq empty_healthy hp hsize
  have hr := (((Run.nil p).snoc (Unshuffled.call h₁)).snoc (.call h₂)).snoc (.call h₃)
  have hs := Persists.shutDown hopen hlast
  have hid : ∀ l : List Key, (id l).Perm l := fun l => .refl l
  have hidle := (Run.nil _).snoc (Idle.hold hid hheld hkept)
  obtain ⟨-, -, q', hq', hnewest, -, -, -, hback⟩ := comes_back_whole hempty (.nil p)
    (hr.mono (·.step)) hs hidle hvalid (congrArg Config.cacheName hconfig).symm
    (congrArg Config.diskPath hconfig).symm hread
  have hy : q'.2.store.index.keys = [.name "y"] := by
    rw [hnewest, hkeys]
    rfl
  exact ⟨p, _, _, _, q', hempty, hr, hs, hidle, hvalid, hq', hkeys, hy,
    (hback (.name "y") (by rw [hy]; exact List.mem_singleton.2 rfl)).1⟩

/-- A pass that swaps the last keys writes their order to the key file. Where there is room for one
key, another comes back than the one that was put last. -/
theorem newest_stays_away : ∃ (p q q₁ q' : World) (events : List Event),
    OpenedEmpty (roomFor 3) p ∧ Run Step p events q ∧
    putKeys events = [.name "x", .name "x", .name "a", .name "b", .name "a"] ∧
    q.2.store.index.keys = [.name "x", .name "b", .name "a"] ∧ Persists q (.held true) q₁ ∧
    opened? (roomFor 1) q₁.1 = some q' ∧ q'.2.store.index.keys = [.name "b"] := by
  obtain ⟨p, q, events, ho, hr, hput, hinstalled, hbefore, -, hback⟩ := exists_shuffled
  obtain ⟨q', hq', hone⟩ := Option.map_eq_some_iff.1 hback
  exact ⟨p, q, _, q', events, ho, hr, hput, hbefore, .installed List.Perm.refl hinstalled, hq', hone⟩

end Region

end DiskTier
