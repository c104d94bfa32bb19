import DiskTier.Proofs.BoundedMap

/-!
# A region is a bounded map

A region that began empty, that nobody disturbs, and whose files never fail answers as a bounded map
does: `Mirrors` ties the records of the region to the elements of the map, and every event keeps
that.
-/

namespace DiskTier

namespace Region

open FileSystem

namespace Event

/-- The region serves, and nothing that it writes is refused. -/
def IsServed : Event → Prop
  | .called (.put _) (.error (.file (.refused _))) => False
  | .called .saveKeys (.error (.file (.refused _))) => False
  | .died => False
  | .shutDown => False
  | .reopened _ => False
  | _ => True

end Event

/-- An event of a region that serves and whose files never fail: if they do while the pass takes the
lock, the region is reset, which begins another generation. -/
structure Undisturbed (p : World) (e : Event) (q : World) : Prop where
  step : Step p e q
  served : e.IsServed
  kept : ∀ installed, e = .held installed → q.2.store.generation = p.2.store.generation

/-- What the region keeps for its keys is what the map has. -/
structure Mirrors (p : World) (m : Lru) : Prop where
  records : ∃ H data listed, Sound H p.1 p.2 data listed ∧ p.2.store.index.records data = m.records
  cacheName : p.2.config.cacheName = m.cacheName
  capacity : p.2.config.maxKeys = m.capacity
  alive : p.2.alive
  hits : p.2.hits = m.hits
  misses : p.2.misses = m.misses

variable {α : Type} {c : Config} {p q : World} {d d' : FileSystem} {r r' : Region} {m m' : Lru}
  {data data' : Bytes} {H H' : List Element} {listed listed' : List (Key × Slot)}
  {events : List Event}

theorem Mirrors.step (h : Mirrors (d, r) m) (hr : Changes r r') (hs : Sound H' d' r' data' listed')
    (hrecords : r'.store.index.records data' = m'.records) (hname : m'.cacheName = m.cacheName)
    (hcap : m'.capacity = m.capacity) (hhits : r'.hits = m'.hits)
    (hmisses : r'.misses = m'.misses) :
    Mirrors (d', r') m' := by
  refine ⟨⟨H', data', listed', hs, hrecords⟩, ?_, ?_, ?_, hhits, hmisses⟩
  · rw [hname, ← h.cacheName]
    exact congrArg _ hr.config
  · rw [hcap, ← h.capacity]
    exact congrArg _ hr.config
  · show r'.alive
    rw [hr.alive]
    exact h.alive

/-! ### Looking -/

theorem keys_eq (hs : Sound H d r data listed) (hrecords : r.store.index.records data = m.records) :
    r.store.index.keys = m.elements.map (·.key) := by
  rw [← m.keys_records, ← hrecords, hs.intact.sound.coherent.keys_records]

theorem size_eq (hs : Sound H d r data listed) (hrecords : r.store.index.records data = m.records) :
    r.size = m.elements.length := by
  have hlen := congrArg List.length (keys_eq hs hrecords)
  rw [← hs.intact.sound.coherent.keys_toList, List.length_map, List.length_map] at hlen
  exact hs.intact.sound.coherent.size_eq.trans hlen

theorem lists_groupKeys (hs : Sound H d r data listed)
    (hrecords : r.store.index.records data = m.records)
    (hname : r.config.cacheName = m.cacheName) (groupName : String) :
    m.Lists groupName (r.groupKeys groupName) := by
  unfold Region.groupKeys
  dsimp only
  rw [keys_eq hs hrecords, List.filterMap_map, hname]
  refine ⟨Text.pairwise_sortedDistinct _, fun name => ?_⟩
  rw [Text.mem_sortedDistinct, List.mem_filterMap]
  exact exists_congr fun e => and_congr_right fun _ => Key.attributeOf?_eq_some_iff

/-- A read finds what the map has. -/
theorem foundIn_eq (hs : Sound H d r data listed)
    (hrecords : r.store.index.records data = m.records) (k : Key) :
    r.store.foundIn data k = .ok (m.find? k) := by
  have hfind := hs.intact.sound.coherent.find?_records data k
  rw [hrecords, m.find?_records] at hfind
  unfold Store.foundIn
  cases hk : r.store.index.get? k with
  | none =>
    rw [hk, Option.map_none, Option.map_eq_none_iff] at hfind
    rw [hfind]
  | some slot =>
    -- the slot holds the record of the element, so it is read back as that
    rw [hk, Option.map_some] at hfind
    obtain ⟨e, he, hencode⟩ := Option.map_eq_some_iff.1 hfind
    simp only
    rw [Store.found, ← hencode, Element.decode_encode, he]
    simp only [Lru.key_of_find? he, if_true]

theorem mirrors_lookup (h : Mirrors p m) (k : Key) :
    ∃ q, (lookup k).result p = (.ok (m.find? k), q) ∧ Mirrors q (m.countRead k) := by
  obtain ⟨d, r⟩ := p
  obtain ⟨H, data, listed, hs, hrecords⟩ := h.records
  obtain ⟨d', r', hr, hchanges, hstore, hs', hhits, hmisses⟩ := lookup_spec hs h.alive k
  rw [foundIn_eq hs hrecords k] at hr hhits hmisses
  refine ⟨(d', r'), hr, ?_⟩
  have hrecords' : r'.store.index.records data = m.records := hstore ▸ hrecords
  have hh : r.hits = m.hits := h.hits
  have hm : r.misses = m.misses := h.misses
  unfold Lru.countRead
  cases hk : m.find? k with
  | none =>
    rw [hk] at hhits hmisses
    exact h.step hchanges hs' hrecords' rfl rfl (hhits.trans hh)
      (hmisses.trans (congrArg (· + 1) hm))
  | some e =>
    rw [hk] at hhits hmisses
    exact h.step hchanges hs' hrecords' rfl rfl (hhits.trans (congrArg (· + 1) hh))
      (hmisses.trans hm)

theorem mirrors_get (h : Mirrors p m) (k : Key) :
    ∃ q, (Region.get k).result p = (.ok (m.find? k), q) ∧ Mirrors q (m.countRead k) := by
  obtain ⟨q, hr, hq⟩ := mirrors_lookup h k
  refine ⟨q, ?_, hq⟩
  rw [result_get, hr]

/-! ### Changing -/

/-- A put is carried out, or the record is too long for a slot, or a file fails. -/
theorem mirrors_put (h : Mirrors p m) (e : Element) :
    (∃ q, (put e).result p = (.ok (), q) ∧ Mirrors q (m.put e)) ∨
      ∃ error q, (put e).result p = (.error error, q) ∧ Mirrors q m ∧
        (Slot.maxLength < e.encode.length ∨ error = .file (.refused .invalidInput)) := by
  obtain ⟨d, r⟩ := p
  obtain ⟨H, data, listed, hs, hrecords⟩ := h.records
  rcases put_spec hs h.alive e with
    ⟨d', r', data', hr, hchanges, hhits, hmisses, hs', hrecords'⟩ | ⟨error, d', hr, hs', hwhy⟩
  · refine .inl ⟨(d', r'), hr, ?_⟩
    have hput : r'.store.index.records data' = (m.put e).records := by
      rw [hrecords', hrecords, m.records_put, ← h.capacity]
    exact h.step hchanges hs' hput rfl rfl (hhits.trans h.hits) (hmisses.trans h.misses)
  · exact .inr ⟨error, (d', r), hr, h.step ⟨rfl, rfl, rfl, .inl ⟨rfl, rfl⟩⟩ hs' hrecords rfl rfl
      h.hits h.misses, hwhy⟩

theorem mirrors_removeBy (h : Mirrors (d, r) m) (x : Target) {f : Store → Bool × Store}
    (hf : ∀ H data listed, r.store.Sound H data listed →
      r.store.Removal H data listed x.takes (f r.store)) :
    ((r.removeBy f).1 ↔ m.Has x) ∧ Mirrors (d, (r.removeBy f).2) (m.without x) := by
  obtain ⟨H, data, listed, hs, hrecords⟩ := h.records
  obtain ⟨hanswer, hchanges, hhits, hmisses, hs', hrecords'⟩ :=
    removeBy_spec hs h.alive (hf H data listed hs.intact.sound)
  rw [hrecords] at hanswer
  rw [hanswer, m.any_records]
  refine ⟨.rfl, h.step hchanges hs' ?_ rfl rfl (hhits.trans h.hits) (hmisses.trans h.misses)⟩
  rw [hrecords', hrecords, m.records_without]

theorem mirrors_reset (h : Mirrors p m) :
    ∃ q, Region.reset.result p = (.ok (), q) ∧ Mirrors q { m with elements := [] } := by
  obtain ⟨d, r⟩ := p
  obtain ⟨H, data, listed, hs, -⟩ := h.records
  obtain ⟨d', r', hr, hchanges, hhits, hmisses, hs', hrecords', -⟩ := reset_spec hs h.alive
  exact ⟨(d', r'), hr, h.step hchanges hs' hrecords' rfl rfl (hhits.trans h.hits)
    (hmisses.trans h.misses)⟩

theorem mirrors_saveKeys (h : Mirrors p m) :
    ∃ answer q, Region.saveKeys.result p = (answer, q) ∧ Mirrors q m ∧
      (answer = .ok () ∨ answer = .error (.file (.refused .invalidInput))) := by
  obtain ⟨d, r⟩ := p
  obtain ⟨H, data, listed, hs, hrecords⟩ := h.records
  obtain ⟨answer, d', r', listed', hr, hchanges, hhits, hmisses, hi, hs', hwhy⟩ :=
    saveKeys_spec hs h.alive
  exact ⟨answer, (d', r'), hr, h.step hchanges hs' (hi ▸ hrecords) rfl rfl (hhits.trans h.hits)
    (hmisses.trans h.misses), hwhy.imp_left And.left⟩

theorem mirrors_requestCompaction (h : Mirrors (d, r) m) :
    Mirrors (d, r.requestCompaction.2) m := by
  obtain ⟨H, data, listed, hs, hrecords⟩ := h.records
  have hchanges := changes_requestCompaction r
  obtain ⟨hstore, hhits, hmisses⟩ := requestCompaction_eq r
  have hs' := hs.count hchanges hstore hs.intact.mounted.healthy.alike_refl
  exact h.step hchanges hs' (hstore ▸ hrecords) rfl rfl (hhits.trans h.hits)
    (hmisses.trans h.misses)

/-! ### Events -/

theorem mirrors_call (h : Mirrors p m) (call : Call α)
    (hserved : (Event.called call (call.perform.result p).1).IsServed) :
    ∃ m', Lru.Step m (.called call (call.perform.result p).1) m' ∧
      Mirrors (call.perform.result p).2 m' := by
  -- a call that is answered as the map answers it
  have hdone : ∀ {answer : Except Error α} {a : α} {q : World} {m' : Lru},
      call.perform.result p = (answer, q) → answer = .ok a → m.Answers call a → m.after call = m' →
        Mirrors q m' → ∃ m', Lru.Step m (.called call (call.perform.result p).1) m' ∧
          Mirrors (call.perform.result p).2 m' := by
    intro answer a q m' hr ha hanswers hafter hq
    subst ha hafter
    rw [hr]
    exact ⟨_, .allowed hanswers, hq⟩
  obtain ⟨H, data, listed, hs, hrecords⟩ := h.records
  cases call with
  | put e =>
    rcases mirrors_put h e with ⟨q, hr, hq⟩ | ⟨error, q, hr, hq, hlong | herror⟩
    · exact hdone hr rfl trivial rfl hq
    · refine ⟨m, ?_, ?_⟩
      · show Lru.Step m (.called (.put e) ((put e).result p).1) m
        rw [hr]
        exact .refused m e error hlong
      · show Mirrors ((put e).result p).2 m
        rw [hr]
        exact hq
    · have hcalled : (Event.called (.put e) ((put e).result p).1).IsServed := hserved
      rw [hr, herror] at hcalled
      exact hcalled.elim
  | get k =>
    obtain ⟨q, hr, hq⟩ := mirrors_get h k
    exact hdone hr rfl rfl rfl hq
  | groupKeys g => exact hdone rfl rfl (lists_groupKeys hs hrecords h.cacheName g) rfl h
  | remove k =>
    obtain ⟨hanswer, hq⟩ := mirrors_removeBy (f := (·.remove k)) h (.key k)
      fun _ _ _ hsound => hsound.remove k
    exact hdone rfl rfl hanswer rfl hq
  | removeGroup g =>
    obtain ⟨hanswer, hq⟩ := mirrors_removeBy (f := (·.removeGroup g)) h (.group g)
      fun _ _ _ hsound => hsound.removeWhere _
    exact hdone rfl rfl hanswer rfl hq
  | reset =>
    obtain ⟨q, hr, hq⟩ := mirrors_reset h
    exact hdone hr rfl trivial rfl hq
  | saveKeys =>
    obtain ⟨answer, q, hr, hq, hok | herror⟩ := mirrors_saveKeys h
    · exact hdone hr hok trivial rfl hq
    · have hcalled : (Event.called .saveKeys (Region.saveKeys.result p).1).IsServed := hserved
      rw [hr, herror] at hcalled
      exact hcalled.elim
  | size => exact hdone rfl rfl (size_eq hs hrecords) rfl h
  | stats => exact hdone rfl rfl ⟨size_eq hs hrecords, h.hits, h.misses⟩ rfl h
  | requestCompaction => exact hdone rfl rfl trivial rfl (mirrors_requestCompaction h)

/-- Taking the lock, the pass keeps the records, up to order if it installs its draft. -/
theorem mirrors_held (h : Mirrors p m) {arrange : List Key → List Key}
    (harrange : ∀ l, (arrange l).Perm l)
    (hkept : ((holdPass arrange).run p).2.2.store.generation = p.2.store.generation) :
    ∃ m', Lru.Step m (.held (p.2.compactions < ((holdPass arrange).run p).2.2.compactions)) m' ∧
      Mirrors ((holdPass arrange).run p).2 m' := by
  obtain ⟨d, r⟩ := p
  obtain ⟨H, data, listed, hs, hrecords⟩ := h.records
  obtain ⟨d', r', data', listed', hr, hs', hconf, halive, hhits, hmisses, hcases⟩ :=
    holdPass_spec hs harrange
  rw [hr] at hkept ⊢
  have hmirrors : ∀ m' : Lru, r'.store.index.records data' = m'.records →
      m'.cacheName = m.cacheName →
      m'.capacity = m.capacity → m'.hits = m.hits → m'.misses = m.misses → Mirrors (d', r') m' := by
    intro m' hrecords' hname hcap hh hm
    refine ⟨⟨H, data', listed', hs', hrecords'⟩, ?_, ?_, ?_, (hhits.trans h.hits).trans hh.symm,
      (hmisses.trans h.misses).trans hm.symm⟩
    · rw [hname, ← h.cacheName]
      exact congrArg _ hconf
    · rw [hcap, ← h.capacity]
      exact congrArg _ hconf
    · show r'.alive
      rw [halive]
      exact h.alive
  rcases hcases with ⟨hlt, -, hperm, -⟩ | ⟨hsame, hstay⟩
  · -- the draft was installed: the map takes the order that the index has now
    obtain ⟨elements, hperm', hrecords'⟩ := m.exists_elements (hrecords ▸ hperm)
    have htrue : decide (r.compactions < r'.compactions) = true := decide_eq_true hlt
    show ∃ m', Lru.Step m (.held (decide (r.compactions < r'.compactions))) m' ∧ Mirrors (d', r') m'
    rw [htrue]
    exact ⟨{ m with elements }, .installed m hperm', hmirrors _ hrecords' rfl rfl rfl rfl⟩
  · have hfalse : decide (r.compactions < r'.compactions) = false := by
      rw [hsame]
      exact decide_eq_false (Nat.lt_irrefl _)
    show ∃ m', Lru.Step m (.held (decide (r.compactions < r'.compactions))) m' ∧ Mirrors (d', r') m'
    rw [hfalse]
    obtain ⟨hindex, rfl, -⟩ := hstay hkept
    exact ⟨m, .allowed rfl, hmirrors m (hindex ▸ hrecords) rfl rfl rfl rfl⟩

/-- Every undisturbed event is one of the map. -/
theorem Mirrors.exists_step {e : Event} (h : Mirrors p m) (he : Undisturbed p e q) :
    ∃ m', Lru.Step m e m' ∧ Mirrors q m' := by
  obtain ⟨hstep, hserved, hkept⟩ := he
  cases hstep with
  | called call p => exact mirrors_call h call hserved
  | looked key p =>
    obtain ⟨q, hr, hq⟩ := mirrors_lookup h key
    rw [hr]
    exact ⟨_, .allowed rfl, hq⟩
  | held harrange p => exact mirrors_held h harrange (hkept _ rfl)
  | died => exact hserved.elim
  | shutDown => exact hserved.elim
  | reopened => exact hserved.elim

theorem Mirrors.of_openedEmpty (h : OpenedEmpty c p) : Mirrors p (.empty c) := by
  obtain ⟨hs, hconf, hi, halive, -, hhits, hmisses⟩ := Sound.of_openedEmpty h
  refine ⟨⟨[], [], [], hs, ?_⟩, congrArg _ hconf, congrArg _ hconf, halive, hhits, hmisses⟩
  rw [hi]
  rfl

/-- Every undisturbed run is one of the map. -/
theorem Run.exists_run (h : OpenedEmpty c p) (hr : Run Undisturbed p events q) :
    ∃ m, Run Lru.Step (.empty c) events m ∧ Mirrors q m := by
  induction hr with
  | nil => exact ⟨.empty c, .nil _, .of_openedEmpty h⟩
  | snoc hr he ih =>
    obtain ⟨m, hm, hq⟩ := ih
    obtain ⟨m', hm', hq'⟩ := hq.exists_step he
    exact ⟨m', hm.snoc hm', hq'⟩

theorem Run.serve (h : Run Undisturbed p events q) (call : Call α) {answer : α}
    (ha : (call.perform.result q).1 = .ok answer) :
    Run Undisturbed p (events ++ [.called call (.ok answer)]) (call.perform.result q).2 := by
  refine h.snoc ⟨?_, ?_, fun installed heq => by cases heq⟩
  · rw [← ha]
    exact .called call q
  · cases call <;> trivial

theorem Undisturbed.hold {installed : Bool}
    (hi : decide (q.2.compactions < ((holdPass id).run q).2.2.compactions) = installed)
    (hg : ((holdPass id).run q).2.2.store.generation = q.2.store.generation) :
    Undisturbed q (.held installed) ((holdPass id).run q).2 := by
  subst hi
  exact ⟨.held (fun l => .refl l) q, trivial, fun _ _ => hg⟩

/-! ### What a client can tell -/

/-- The region shows what the map has: its keys in the same order, and for each the record of its
element. -/
structure Presents (p : World) (m : Lru) : Prop where
  keys : p.2.store.index.keys = m.elements.map (·.key)
  records : ∀ k, recordOf? p k = (m.find? k).map Element.encode
  capacity : p.2.store.index.capacity = m.capacity
  hits : p.2.hits = m.hits
  misses : p.2.misses = m.misses

theorem Mirrors.presents (h : Mirrors p m) : Presents p m := by
  obtain ⟨H, data, listed, hs, hrecords⟩ := h.records
  refine ⟨keys_eq hs hrecords, fun k => ?_, ?_, h.hits, h.misses⟩
  · have hfind := hs.intact.sound.coherent.find?_records data k
    rw [hrecords, m.find?_records] at hfind
    rw [hfind]
    exact hs.recordOf?_eq k
  · exact hs.intact.capacity.trans h.capacity

/-- Whatever calls are made, a region that began empty answers them as the map does. -/
theorem agrees_with_map (h : OpenedEmpty c p) (hr : Run Undisturbed p events q)
    (hshort : ∀ event ∈ events, ∀ e ∈ event.put?, e.encode.length < 2 ^ 32)
    (hswap : .held true ∉ events) :
    (Lru.empty c).Agrees events ∧ Presents q (events.foldl Lru.next (.empty c)) ∧
      q.2.hits = events.countP Lru.isHit ∧ q.2.misses = events.countP Lru.isMiss := by
  obtain ⟨m, hm, hq⟩ := hr.exists_run h
  obtain ⟨hagrees, rfl⟩ := Lru.agrees_of_run hm hshort hswap
  obtain ⟨hhits, hmisses⟩ := Lru.counts_of_agrees hagrees
  refine ⟨hagrees, hq.presents, ?_, ?_⟩
  · rw [hq.hits, hhits]
    exact Nat.zero_add _
  · rw [hq.misses, hmisses]
    exact Nat.zero_add _

/-- In a region with room for one key the second put drives the first element out. -/
theorem agrees_after_eviction : ∃ (p q : World) (events : List Event), OpenedEmpty (roomFor 1) p ∧
    Run Undisturbed p events q ∧
    events = [.called (.put (note "x" [1, 2])) (.ok ()), .called (.put (note "y" [1])) (.ok ()),
      .called (.get (.name "x")) (.ok none), .called (.get (.name "y")) (.ok (note "y" [1])),
      .called (.remove (.name "y")) (.ok true), .called .size (.ok 0)] ∧
    (∀ event ∈ events, ∀ e ∈ event.put?, e.encode.length < 2 ^ 32) ∧ .held true ∉ events ∧
    (Lru.empty (roomFor 1)).Agrees events ∧ q.2.hits = 1 ∧ q.2.misses = 1 := by
  have h : (opened? (roomFor 1) .empty).map (fun p =>
      let q₁ := (Call.put (note "x" [1, 2])).perform.result p
      let q₂ := (Call.put (note "y" [1])).perform.result q₁.2
      let q₃ := (Call.get (.name "x")).perform.result q₂.2
      let q₄ := (Call.get (.name "y")).perform.result q₃.2
      let q₅ := (Call.remove (.name "y")).perform.result q₄.2
      let q₆ := Call.size.perform.result q₅.2
      decide (p.2.size = 0 ∧ q₁.1 = .ok () ∧ q₂.1 = .ok () ∧ q₃.1 = .ok none ∧
        q₄.1 = .ok (some (note "y" [1])) ∧ q₅.1 = .ok true ∧ q₆.1 = .ok 0)) = some true := by
    decide +kernel
  obtain ⟨p, hp, h⟩ := Option.map_eq_some_iff.1 h
  obtain ⟨hsize, h₁, h₂, h₃, h₄, h₅, h₆⟩ := of_decide_eq_true h
  have ho := openedEmpty_of_eq empty_healthy hp hsize
  have hr := ((((((Run.nil p).serve _ h₁).serve _ h₂).serve _ h₃).serve _ h₄).serve _ h₅).serve _ h₆
  have hshort : ∀ event ∈ [Event.called (.put (note "x" [1, 2])) (.ok ()),
      .called (.put (note "y" [1])) (.ok ()), .called (.get (.name "x")) (.ok none),
      .called (.get (.name "y")) (.ok (note "y" [1])), .called (.remove (.name "y")) (.ok true),
      .called .size (.ok 0)], ∀ e ∈ event.put?, e.encode.length < 2 ^ 32 := by
    decide +kernel
  obtain ⟨hagrees, -, hhits, hmisses⟩ := agrees_with_map ho hr hshort (by simp)
  exact ⟨p, _, _, ho, hr, rfl, hshort, by simp, hagrees, hhits, hmisses⟩

end Region

end DiskTier
