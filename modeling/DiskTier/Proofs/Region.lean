import DiskTier.Region.Call
import DiskTier.Proofs.Pass

/-!
# What a region does

`Region.Sound` is the invariant of a region between two holds of its lock. Each thing that can be
done to a region is described by what it answers and what it does to the records of the store.
-/

namespace DiskTier.Region

open FileSystem

variable {α : Type} {c : Config} {d d' : FileSystem} {r r' : Region} {s : Store}
  {data data' : Bytes} {H H' : List Element} {listed listed' : List (Key × Slot)}

/-- The region's store is in order, its files are open until it is closed, and a pass that is under
way follows the store. -/
structure Sound (H : List Element) (d : FileSystem) (r : Region) (data : Bytes)
    (listed : List (Key × Slot)) : Prop where
  intact : r.store.Intact r.config H d data listed
  valid : r.config.Valid
  isOpen : r.closed = false → r.store.IsOpen
  dead : r.closed = true → r.alive = false
  compacting : r.compacting = r.pass.isSome
  follows : ∀ pass ∈ r.pass, Pass.Follows H r.config d r.store data pass

theorem Sound.open_of_alive (h : Sound H d r data listed) (ha : r.alive) : r.store.IsOpen := by
  apply h.isOpen
  cases hc : r.closed with
  | false => rfl
  | true =>
    rw [h.dead hc] at ha
    cases ha

/-- What an action on the store may change of a region. -/
structure Changes (r r' : Region) : Prop where
  config : r'.config = r.config
  alive : r'.alive = r.alive
  closed : r'.closed = r.closed
  pass : r'.compacting = r.compacting ∧ r'.pass = r.pass ∨
    r'.compacting = true ∧ r'.pass = some .requested

/-- A region stays sound if its store stays in order and what happens to that does not disturb a
pass. -/
theorem Sound.step (h : Sound H d r data listed) (hsub : H ⊆ H') (hr : Changes r r')
    (hi : r'.store.Intact r.config H' d' data' listed') (hd : Spared r.config.draftName d d')
    (ha : Pass.Advances r.store data r'.store data') (ho : r.store.IsOpen → r'.store.IsOpen) :
    Sound H' d' r' data' listed' := by
  obtain ⟨hconf, halive, hclosed, hpass⟩ := hr
  refine ⟨hconf ▸ hi, hconf ▸ h.valid, fun hc => ho (h.isOpen (hclosed ▸ hc)), fun hc => ?_, ?_, ?_⟩
  · rw [halive]
    exact h.dead (hclosed ▸ hc)
  · rcases hpass with ⟨hc, hp⟩ | ⟨hc, hp⟩
    · rw [hc, hp, h.compacting]
    · rw [hc, hp]
      rfl
  · intro pass hmem
    rw [hconf]
    rcases hpass with ⟨-, hp⟩ | ⟨-, hp⟩
    · exact ((h.follows pass (hp ▸ hmem)).mono hsub).frame hd ha
    · rw [hp] at hmem
      cases hmem
      trivial

theorem advances_refl (s : Store) (data : Bytes) : Pass.Advances s data s data :=
  .inr ⟨rfl, fun collected hp => ⟨[], by rw [hp, List.append_nil], fun _ _ _ => id⟩⟩

/-- A region stays sound if only its counters change. -/
theorem Sound.count (h : Sound H d r data listed) (hr : Changes r r') (hs : r'.store = r.store)
    (hd : Alike d d') : Sound H d' r' data listed := by
  refine h.step (List.Subset.refl H) hr ?_ (hd.spared _) (hs ▸ advances_refl _ _)
    (by rw [hs]; exact id)
  rw [hs]
  exact ⟨h.intact.mounted.alike hd, h.intact.sound, h.intact.capacity, h.intact.freeCapacity⟩

/-! ### Actions on the store -/

theorem result_onStore (x : Store.Change α) (d : FileSystem) (r : Region) :
    (onStore x).result (d, r) = ((x.result (d, r.store)).1,
      ((x.result (d, r.store)).2.1, { r with store := (x.result (d, r.store)).2.2 })) := by
  rw [onStore, FileAction.result_onPart]
  rcases x.result (d, r.store) with ⟨(e | a), p⟩ <;> rfl

theorem result_requireAlive (ha : r.alive) (d : FileSystem) :
    requireAlive.result (d, r) = (.ok (), (d, r)) := by
  rw [requireAlive, Action.result_bind, FileAction.result_value]
  simp only [ha, if_true]
  rfl

theorem result_requireAlive_dead (ha : r.alive = false) (d : FileSystem) :
    requireAlive.result (d, r) = (.error (.notAlive r.config.cacheName), (d, r)) := by
  rw [requireAlive, Action.result_bind, FileAction.result_value]
  simp only [ha, Bool.false_eq_true, if_false]
  rfl

/-! ### Putting -/

/-- A put is a write to the store; if that used a free slot, it is counted. -/
theorem result_put (ha : r.alive) (e : Element) (d : FileSystem) :
    (put e).result (d, r) = match (Store.write e.key e.encode).result (d, r.store) with
      | (.ok reused, (d', s)) => (.ok (), (d',
          { r with store := s, reuses := if reused then r.reuses + 1 else r.reuses }))
      | (.error err, (d', s)) => (.error err, (d', { r with store := s })) := by
  unfold put
  rw [Action.result_bind, result_requireAlive ha]
  simp only
  rw [Action.result_bind, result_onStore]
  rcases (Store.write e.key e.encode).result (d, r.store) with ⟨err | _ | _, q⟩ <;> rfl

theorem advances_put {s s' : Store} {k : Key} {record : Bytes} (hc : s.index.Coherent)
    (hc' : s'.index.Coherent) (hg : s'.generation = s.generation)
    (hp : s'.pending = s.pending.map (· ++ [k])) {n : Nat}
    (hr : s'.index.records data' = putRecord n k record (s.index.records data)) :
    Pass.Advances s data s' data' := by
  refine .inr ⟨hg, fun collected hcol => ⟨[k], by rw [hp, hcol]; rfl, fun k' hk' r' hr' => ?_⟩⟩
  rw [Assoc.find?_eq_some_iff (hc'.nodup_records _), hr] at hr'
  rw [Assoc.find?_eq_some_iff (hc.nodup_records _)]
  have hmem := List.mem_of_mem_drop hr'
  rcases List.mem_append.1 hmem with hmem | hmem
  · exact List.mem_of_mem_filter hmem
  · rw [List.mem_singleton] at hmem
    cases hmem
    exact absurd (List.mem_singleton.2 rfl) hk'

theorem put_spec (h : Sound H d r data listed) (ha : r.alive) (e : Element) :
    (∃ d' r' data', (put e).result (d, r) = (.ok (), (d', r')) ∧ Changes r r' ∧
        r'.hits = r.hits ∧ r'.misses = r.misses ∧ Sound (e :: H) d' r' data' listed ∧
        r'.store.index.records data' =
          putRecord r.config.maxKeys e.key e.encode (r.store.index.records data)) ∨
      ∃ err d', (put e).result (d, r) = (.error err, (d', r)) ∧ Sound H d' r data listed ∧
        (Slot.maxLength < e.encode.length ∨ err = .file (.refused .invalidInput)) := by
  rw [result_put ha]
  have ho := h.open_of_alive ha
  rcases Store.write_spec h.intact.mounted ho h.intact.sound e with
    ⟨reused, d', s', data', hr, hd, hm, ho', hs, hlike, hp, hrecords⟩ | ⟨err, d', hr, halike, hwhy⟩
  · have hintact : s'.Intact r.config (e :: H) d' data' listed :=
      ⟨hm, hs, hlike.capacity.trans h.intact.capacity,
        hlike.freeCapacity.trans h.intact.freeCapacity⟩
    have hadv := advances_put h.intact.sound.coherent hs.coherent hlike.generation hp hrecords
    rw [h.intact.capacity] at hrecords
    rw [hr]
    exact .inl ⟨d', _, data', rfl, ⟨rfl, rfl, rfl, .inl ⟨rfl, rfl⟩⟩, rfl, rfl,
      h.step (List.subset_cons_self e H) ⟨rfl, rfl, rfl, .inl ⟨rfl, rfl⟩⟩ hintact hd hadv
        fun _ => ho', hrecords⟩
  · rw [hr]
    exact .inr ⟨err, d', rfl, h.count ⟨rfl, rfl, rfl, .inl ⟨rfl, rfl⟩⟩ rfl halike, hwhy⟩

/-! ### Removing -/

theorem advances_of_sublist {s s' : Store} (hc : s.index.Coherent) (hc' : s'.index.Coherent)
    (hg : s'.generation = s.generation) (hp : s'.pending = s.pending)
    (hr : (s'.index.records data').Sublist (s.index.records data)) :
    Pass.Advances s data s' data' := by
  refine .inr ⟨hg, fun collected hcol => ⟨[], by rw [hp, hcol, List.append_nil], ?_⟩⟩
  intro k _ record hrecord
  rw [Assoc.find?_eq_some_iff (hc'.nodup_records _)] at hrecord
  rw [Assoc.find?_eq_some_iff (hc.nodup_records _)]
  exact hr.subset hrecord

theorem changes_requestCompaction (r : Region) : Changes r r.requestCompaction.2 := by
  unfold requestCompaction
  split
  · exact ⟨rfl, rfl, rfl, .inl ⟨rfl, rfl⟩⟩
  · exact ⟨rfl, rfl, rfl, .inr ⟨rfl, rfl⟩⟩

theorem requestCompaction_eq (r : Region) : r.requestCompaction.2.store = r.store ∧
    r.requestCompaction.2.hits = r.hits ∧ r.requestCompaction.2.misses = r.misses := by
  unfold requestCompaction
  split <;> exact ⟨rfl, rfl, rfl⟩

theorem changes_countRemoval (r : Region) : Changes r r.countRemoval := by
  unfold countRemoval
  dsimp only
  split
  · obtain ⟨hconf, halive, hclosed, hpass⟩ :=
      changes_requestCompaction { r with removals := r.removals + 1 }
    exact ⟨hconf, halive, hclosed, hpass⟩
  · exact ⟨rfl, rfl, rfl, .inl ⟨rfl, rfl⟩⟩

theorem countRemoval_eq (r : Region) : r.countRemoval.store = r.store ∧
    r.countRemoval.hits = r.hits ∧ r.countRemoval.misses = r.misses := by
  unfold countRemoval
  dsimp only
  split
  · exact requestCompaction_eq { r with removals := r.removals + 1 }
  · exact ⟨rfl, rfl, rfl⟩

theorem removeBy_dead (ha : r.alive = false) (f : Store → Bool × Store) :
    r.removeBy f = (false, r) := by
  rw [removeBy, if_neg (by simp [ha])]

/-- To remove is to remove from the store, and to count. -/
theorem removeBy_eq (ha : r.alive) (f : Store → Bool × Store) :
    (r.removeBy f).1 = (f r.store).1 ∧ (r.removeBy f).2.store = (f r.store).2 ∧
      Changes r (r.removeBy f).2 ∧ (r.removeBy f).2.hits = r.hits ∧
      (r.removeBy f).2.misses = r.misses := by
  rw [removeBy, if_pos ha]
  rcases f r.store with ⟨_ | _, s⟩
  · exact ⟨rfl, rfl, ⟨rfl, rfl, rfl, .inl ⟨rfl, rfl⟩⟩, rfl, rfl⟩
  · obtain ⟨hstore, hhits, hmisses⟩ := countRemoval_eq { r with store := s }
    obtain ⟨hconfig, halive, hclosed, hpass⟩ := changes_countRemoval { r with store := s }
    exact ⟨rfl, hstore, ⟨hconfig, halive, hclosed, hpass⟩, hhits, hmisses⟩

theorem removeBy_spec (h : Sound H d r data listed) (ha : r.alive) {f : Store → Bool × Store}
    {p : Key → Bool} (hf : r.store.Removal H data listed p (f r.store)) :
    (r.removeBy f).1 = (r.store.index.records data).any (p ·.1) ∧ Changes r (r.removeBy f).2 ∧
      (r.removeBy f).2.hits = r.hits ∧ (r.removeBy f).2.misses = r.misses ∧
      Sound H d (r.removeBy f).2 data listed ∧
      (r.removeBy f).2.store.index.records data =
        (r.store.index.records data).filter (!p ·.1) := by
  have hadv : Pass.Advances r.store data (f r.store).2 data :=
    advances_of_sublist h.intact.sound.coherent hf.sound.coherent hf.like.generation hf.pending
      (hf.records ▸ List.filter_sublist)
  have hintact : (f r.store).2.Intact r.config H d data listed :=
    ⟨h.intact.mounted.congr hf.dataFile hf.keyFile, hf.sound,
      hf.like.capacity.trans h.intact.capacity, hf.like.freeCapacity.trans h.intact.freeCapacity⟩
  have hopen : r.store.IsOpen → (f r.store).2.IsOpen := by
    unfold Store.IsOpen
    rw [hf.dataFile, hf.keyFile]
    exact id
  have hspared := h.intact.mounted.healthy.alike_refl.spared r.config.draftName
  obtain ⟨hanswer, hstore, hchanges, hhits, hmisses⟩ := removeBy_eq ha f
  rw [← hstore] at hadv hintact hopen
  refine ⟨hanswer.trans hf.answer, hchanges, hhits, hmisses,
    h.step (List.Subset.refl H) hchanges hintact hspared hadv hopen, ?_⟩
  rw [hstore]
  exact hf.records

/-! ### Reading -/

theorem result_lookup_dead (ha : r.alive = false) (k : Key) :
    (lookup k).result (d, r) = (.ok none, (d, r)) := by
  unfold lookup
  rw [Action.result_bind, FileAction.result_value]
  simp only [ha, Bool.false_eq_true, if_false]
  rfl

/-- A look-up is a read of the store, of which the outcome is counted. -/
theorem result_lookup (ha : r.alive) (k : Key) (d : FileSystem) :
    (lookup k).result (d, r) = match (r.store.read k).result d with
      | (.ok (some e), d') => (.ok (some e), (d', { r with hits := r.hits + 1 }))
      | (.ok none, d') => (.ok none, (d', { r with misses := r.misses + 1 }))
      | (.error err, d') => (.error err, (d', { r with misses := r.misses + 1 })) := by
  unfold lookup
  rw [Action.result_bind, FileAction.result_value]
  simp only
  rw [if_pos ha, Action.result_bind, Action.result_attempt, FileAction.result_onDisk]
  rcases (r.store.read k).result d with ⟨err | _ | e, d'⟩ <;> rfl

/-- A read is a look-up, and a reset if that fails. -/
theorem result_get (k : Key) (p : FileSystem × Region) :
    (Region.get k).result p = match (lookup k).result p with
      | (.ok found, q) => (.ok found, q)
      | (.error e, q) => (.error e, (Region.reset.result q).2) := by
  unfold Region.get
  rw [Action.result_bind, Action.result_attempt]
  rcases (lookup k).result p with ⟨e | found, q⟩
  · simp only
    rw [Action.result_bind, Action.result_regardless]
    rfl
  · rfl

theorem lookup_spec (h : Sound H d r data listed) (ha : r.alive) (k : Key) :
    ∃ d' r', (lookup k).result (d, r) = (r.store.foundIn data k, (d', r')) ∧
      Changes r r' ∧ r'.store = r.store ∧ Sound H d' r' data listed ∧
      r'.hits = r.hits + (match r.store.foundIn data k with | .ok (some _) => 1 | _ => 0) ∧
      r'.misses = r.misses + (match r.store.foundIn data k with | .ok (some _) => 0 | _ => 1) := by
  obtain ⟨d', hr, halike⟩ := Store.read_spec h.intact.mounted (h.open_of_alive ha) h.intact.sound k
  rw [result_lookup ha, hr]
  have hcount : ∀ r' : Region, Changes r r' → r'.store = r.store → Sound H d' r' data listed :=
    fun r' hc hs => h.count hc hs halike
  rcases r.store.foundIn data k with e | _ | e
  · exact ⟨d', { r with misses := r.misses + 1 }, rfl, ⟨rfl, rfl, rfl, .inl ⟨rfl, rfl⟩⟩, rfl,
      hcount _ ⟨rfl, rfl, rfl, .inl ⟨rfl, rfl⟩⟩ rfl, rfl, rfl⟩
  · exact ⟨d', { r with misses := r.misses + 1 }, rfl, ⟨rfl, rfl, rfl, .inl ⟨rfl, rfl⟩⟩, rfl,
      hcount _ ⟨rfl, rfl, rfl, .inl ⟨rfl, rfl⟩⟩ rfl, rfl, rfl⟩
  · exact ⟨d', { r with hits := r.hits + 1 }, rfl, ⟨rfl, rfl, rfl, .inl ⟨rfl, rfl⟩⟩, rfl,
      hcount _ ⟨rfl, rfl, rfl, .inl ⟨rfl, rfl⟩⟩ rfl, rfl, rfl⟩

/-! ### The other calls -/

theorem result_reset (ha : r.alive) (d : FileSystem) :
    Region.reset.result (d, r) = ((Store.reset.result (d, r.store)).1,
      ((Store.reset.result (d, r.store)).2.1,
        { r with store := (Store.reset.result (d, r.store)).2.2 })) := by
  unfold Region.reset
  rw [Action.result_bind, result_requireAlive ha]
  simp only
  rw [result_onStore]

theorem reset_spec (h : Sound H d r data listed) (ha : r.alive) :
    ∃ d' r', Region.reset.result (d, r) = (.ok (), (d', r')) ∧ Changes r r' ∧ r'.hits = r.hits ∧
      r'.misses = r.misses ∧ Sound H d' r' [] [] ∧ r'.store.index.records [] = [] ∧
      r'.store.generation = r.store.generation + 1 := by
  obtain ⟨d', s', hr, hd, hm, ho, hi, hf, -, hg⟩ := Store.reset_spec h.intact.mounted
  have hchanges : Changes r { r with store := s' } := ⟨rfl, rfl, rfl, .inl ⟨rfl, rfl⟩⟩
  have hintact : s'.Intact r.config H d' [] [] := by
    refine ⟨hm, Store.sound_of_empty hi hf, ?_, ?_⟩
    · rw [hi]
      exact h.intact.capacity
    · rw [hf]
      exact h.intact.freeCapacity
  refine ⟨d', { r with store := s' }, ?_, hchanges, rfl, rfl, ?_, ?_, hg⟩
  · rw [result_reset ha, hr]
  · exact h.step (List.Subset.refl H) hchanges hintact hd (.inl (by simp [hg])) fun _ => ho
  · show s'.index.records [] = []
    rw [hi]
    rfl

theorem store_saveKeys_spec (h : Sound H d r data listed) (ho : r.store.IsOpen) :
    ∃ answer d' s' listed', Store.saveKeys.result (d, r.store) = (answer, (d', s')) ∧
      s'.index = r.store.index ∧ s'.IsOpen ∧
      Sound H d' { r with store := s' } data listed' ∧
      (answer = .ok () ∧ listed' = r.store.index.toList ∨
        answer = .error (.file (.refused .invalidInput))) := by
  obtain ⟨answer, d', f, listed', hr, hd, hm, hf, hs, hwhy⟩ :=
    Store.saveKeys_spec h.intact.mounted ho h.intact.sound
  refine ⟨answer, d', { r.store with keyFile := f }, listed', hr, rfl,
    ⟨ho.1, hf⟩, ?_, hwhy.imp_right And.left⟩
  exact h.step (List.Subset.refl H) ⟨rfl, rfl, rfl, .inl ⟨rfl, rfl⟩⟩
    ⟨hm, hs, h.intact.capacity, h.intact.freeCapacity⟩ hd (advances_refl _ _) fun _ => ⟨ho.1, hf⟩

theorem saveKeys_spec (h : Sound H d r data listed) (ha : r.alive) :
    ∃ answer d' r' listed', Region.saveKeys.result (d, r) = (answer, (d', r')) ∧ Changes r r' ∧
      r'.hits = r.hits ∧ r'.misses = r.misses ∧ r'.store.index = r.store.index ∧
      Sound H d' r' data listed' ∧
      (answer = .ok () ∧ listed' = r.store.index.toList ∨
        answer = .error (.file (.refused .invalidInput))) := by
  obtain ⟨answer, d', s', listed', hr, hi, -, hs', hwhy⟩ :=
    store_saveKeys_spec h (h.open_of_alive ha)
  refine ⟨answer, d', { r with store := s' }, listed', ?_, ⟨rfl, rfl, rfl, .inl ⟨rfl, rfl⟩⟩, rfl,
    rfl, hi, hs', hwhy⟩
  unfold Region.saveKeys
  rw [Action.result_bind, result_requireAlive ha]
  simp only
  rw [result_onStore, hr]

/-! ### Compacting -/

theorem holdPass_none (arrange : List Key → List Key) (hp : r.pass = none) :
    ((holdPass arrange).run (d, r)).2 = (d, r) := by
  simp only [holdPass, StateT.run_modify, hp]
  rfl

theorem holdPass_next {arrange : List Key → List Key} {pass pass' : Pass} {d' : FileSystem}
    {s' : Store} (hp : r.pass = some pass)
    (hr : (pass.hold arrange r.config.draftFile r.alive).run (d, r.store) =
      (.next pass', (d', s'))) :
    ((holdPass arrange).run (d, r)).2 = (d', { r with store := s', pass := some pass' }) := by
  simp only [holdPass, StateT.run_modify, hp, hr]
  rfl

theorem holdPass_over {arrange : List Key → List Key} {pass : Pass} {installed : Bool}
    {d' : FileSystem} {s' : Store} (hp : r.pass = some pass)
    (hr : (pass.hold arrange r.config.draftFile r.alive).run (d, r.store) =
      (.over installed, (d', s'))) :
    ((holdPass arrange).run (d, r)).2 = (d', endCompaction installed { r with store := s' }) := by
  simp only [holdPass, StateT.run_modify, hp, hr]
  rfl

/-- A hold of the pass under way. If it installs its draft, the records stay up to order and the key
file lists them. Otherwise the store and its files stay as they are, or are reset. -/
theorem holdPass_spec (h : Sound H d r data listed) {arrange : List Key → List Key}
    (harrange : ∀ l, (arrange l).Perm l) :
    ∃ d' r' data' listed', ((holdPass arrange).run (d, r)).2 = (d', r') ∧
      Sound H d' r' data' listed' ∧ r'.config = r.config ∧ r'.alive = r.alive ∧ r'.hits = r.hits ∧
      r'.misses = r.misses ∧
      (r.compactions < r'.compactions ∧ r'.store.generation = r.store.generation ∧
          (r'.store.index.records data').Perm (r.store.index.records data) ∧
          listed' = r'.store.index.toList ∨
        r'.compactions = r.compactions ∧ (r'.store.generation = r.store.generation →
          r'.store.index = r.store.index ∧ data' = data ∧ listed' = listed)) := by
  cases hpass : r.pass with
  | none =>
    exact ⟨d, r, data, listed, holdPass_none arrange hpass, h, rfl, rfl, rfl, rfl,
      .inr ⟨rfl, fun _ => ⟨rfl, rfl, rfl⟩⟩⟩
  | some pass =>
    obtain ⟨progress, d', s', data', listed', hr, hled⟩ :=
      Pass.hold_spec h.valid harrange h.intact h.open_of_alive (h.follows pass hpass)
    have hopen : r.closed = false → s'.IsOpen := fun hc => hled.isOpen (h.isOpen hc)
    rcases progress with pass' | installed
    · refine ⟨d', { r with store := s', pass := some pass' }, data', listed',
        holdPass_next hpass hr, ⟨hled.intact, h.valid, hopen, h.dead, ?_, ?_⟩, rfl, rfl, rfl, rfl,
        .inr ⟨rfl, hled.kept (by simp)⟩⟩
      · rw [h.compacting, hpass]
        rfl
      · rintro pass ⟨⟩
        exact hled.follows pass' rfl
    · refine ⟨d', endCompaction installed { r with store := s' }, data', listed',
        holdPass_over hpass hr, ⟨hled.intact, h.valid, hopen, h.dead, rfl, ?_⟩, rfl, rfl, rfl, rfl,
        ?_⟩
      · rintro pass ⟨⟩
      · cases installed with
        | true => exact .inl ⟨Nat.lt_succ_self _, hled.installed rfl⟩
        | false => exact .inr ⟨rfl, hled.kept (by simp)⟩

/-- What a region that is shut down does to its store before the files are closed. -/
def lastAction (r : Region) : Store.Change Unit :=
  if r.alive && !r.compacting then Store.compactAtOnce r.config.draftFile else Store.saveKeys

/-- The compaction before a region is closed: it is carried out, or fails, or there is no occasion
for it. Whether the region is already marked as closed does not matter. -/
theorem compactForGood_spec (h : Sound H d r data listed) (hc : r.closed = false) :
    ∃ b d' r' data' listed', compactForGood.result (d, { r with closed := true }) =
        (.ok b, (d', { r' with closed := true })) ∧
      Sound H d' r' data' listed' ∧ r'.closed = false ∧ r'.config = r.config ∧
      (b = true ∧ r'.store.index.records data' = r.store.index.records data ∧
          listed' = r'.store.index.toList ∨
        b = false ∧ (r.lastAction.result (d, r.store)).1 ≠ .ok () ∨
        b = false ∧ r.lastAction = Store.saveKeys ∧ d' = d ∧ r' = r ∧ data' = data) := by
  unfold compactForGood lastAction
  rw [Action.result_bind, FileAction.result_value]
  simp only
  by_cases hcond : r.alive && !r.compacting
  · rw [if_pos hcond, if_pos hcond, Action.result_bind, FileAction.result_change]
    simp only
    rw [Action.result_bind, Action.result_attempt, result_onStore]
    obtain ⟨answer, d', s', data', listed', hr, hm, ho, hs, hcap, hfreeCap, hkept⟩ :=
      Store.compactAtOnce_spec h.valid h.intact.mounted (h.isOpen hc) h.intact.sound
    have hintact : s'.Intact r.config H d' data' listed' :=
      ⟨hm, hs, hcap.trans h.intact.capacity, hfreeCap.trans h.intact.freeCapacity⟩
    have hsound : ∀ installed, Sound H d' (endCompaction installed { r with store := s' }) data'
        listed' := fun installed =>
      ⟨hintact, h.valid, fun _ => ho, h.dead, rfl, by rintro pass ⟨⟩⟩
    simp only [hr]
    cases answer with
    | ok u =>
      exact ⟨true, d', _, data', listed', rfl, hsound true, hc, rfl, .inl ⟨rfl, hkept rfl⟩⟩
    | error e =>
      exact ⟨false, d', _, data', listed', rfl, hsound false, hc, rfl,
        .inr (.inl ⟨rfl, by rintro ⟨⟩⟩)⟩
  · rw [if_neg hcond, if_neg hcond]
    exact ⟨false, d, r, data, listed, rfl, h, hc, rfl, .inr (.inr ⟨rfl, rfl, rfl, rfl, rfl⟩)⟩

/-- Shutting down leaves the store in order. If its last action succeeds the records stay, in their
order, and the key file lists them. -/
theorem shutDown_spec (h : Sound H d r data listed) :
    ∃ d' r' data' listed', (shutDown.result (d, r)).2 = (d', r') ∧ Sound H d' r' data' listed' ∧
      r'.config = r.config ∧
      (r.closed = false → (r.lastAction.result (d, r.store)).1 = .ok () →
        r'.store.index.records data' = r.store.index.records data ∧
        listed' = r'.store.index.toList) := by
  unfold shutDown
  rw [Action.result_bind, FileAction.result_value]
  simp only
  by_cases hc : r.closed
  · rw [if_pos hc]
    refine ⟨d, r, data, listed, rfl, h, rfl, fun hopen => ?_⟩
    rw [hc] at hopen
    cases hopen
  · rw [Bool.not_eq_true] at hc
    rw [if_neg (by simp [hc]), Action.result_bind, FileAction.result_change]
    simp only
    obtain ⟨b, d₁, r₁, data₁, listed₁, hr₁, h₁, hc₁, hconf₁, hcases⟩ := compactForGood_spec h hc
    rw [Action.result_bind, hr₁]
    simp only
    -- without a compaction the keys are saved, as far as that is possible
    obtain ⟨d₂, s₂, listed₂, hr₂, h₂, hlisted⟩ : ∃ d₂ s₂ listed₂,
        (∀ rest : Change Unit, (if !b then do
            (onStore Store.saveKeys).regardless
            rest
          else rest).result (d₁, { r₁ with closed := true }) =
            rest.result (d₂, { r₁ with closed := true, store := s₂ })) ∧
        Sound H d₂ { r₁ with store := s₂ } data₁ listed₂ ∧
        ((r.lastAction.result (d, r.store)).1 = .ok () →
          s₂.index.records data₁ = r.store.index.records data ∧ listed₂ = s₂.index.toList) := by
      cases b with
      | true =>
        refine ⟨d₁, r₁.store, listed₁, fun _ => rfl, h₁, fun _ => ?_⟩
        rcases hcases with ⟨-, hkept⟩ | ⟨⟨⟩, -⟩ | ⟨⟨⟩, -⟩
        exact hkept
      | false =>
        obtain ⟨answer, d₂, s₂, listed₂, hr₂, hi₂, -, h₂, hwhy⟩ :=
          store_saveKeys_spec h₁ (h₁.isOpen hc₁)
        refine ⟨d₂, s₂, listed₂, fun rest => ?_, h₂, fun hok => ?_⟩
        · simp only [Bool.not_false, if_true]
          rw [Action.result_bind, Action.result_regardless, result_onStore, hr₂]
        · rcases hcases with ⟨⟨⟩, -⟩ | ⟨-, hno⟩ | ⟨-, hlast, rfl, rfl, rfl⟩
          · exact absurd hok hno
          · rw [hlast, hr₂] at hok
            rw [hi₂]
            refine ⟨rfl, (hwhy.resolve_right fun he => ?_).2⟩
            cases he.symm.trans hok
    obtain ⟨d₃, s₃, hr₃, halike, hm₃, hi₃, hf₃, hp₃, hg₃⟩ := Store.close_spec h₂.intact.mounted
    rw [hr₂, Action.result_bind, Action.result_attempt, result_onStore, hr₃]
    refine ⟨d₃, { r₁ with closed := true, alive := false, store := s₃ }, data₁, listed₂, rfl, ?_,
      hconf₁, fun _ hok => ?_⟩
    · refine ⟨⟨hm₃, h₂.intact.sound.congr hi₃ hf₃, ?_, ?_⟩, h₁.valid, by simp, fun _ => rfl,
        h₁.compacting, fun pass hmem => ?_⟩
      · rw [hi₃]
        exact h₂.intact.capacity
      · rw [hf₃]
        exact h₂.intact.freeCapacity
      · refine (h₂.follows pass hmem).frame (halike.spared _)
          (.inr ⟨hg₃, fun collected hcol => ?_⟩)
        refine ⟨[], by rw [hp₃, hcol, List.append_nil], fun k _ record hrecord => ?_⟩
        rw [hi₃] at hrecord
        exact hrecord
    · show s₃.index.records data₁ = _ ∧ listed₂ = s₃.index.toList
      rw [hi₃]
      exact hlisted hok

end DiskTier.Region
