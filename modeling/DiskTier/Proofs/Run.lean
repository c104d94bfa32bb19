import DiskTier.Proofs.Region

/-!
# Runs of a region

A run takes a region from one release of its lock to the next: calls, holds of a compaction pass,
the end of its life, and crashes after which the files are opened again. Nothing else changes the
files, and no failure is planned for them.
-/

namespace DiskTier.Region

open FileSystem

/-- The files, and the region that has its own open. -/
abbrev World : Type := FileSystem × Region

/-- What happens to a region under one hold of its lock, and what it answers. -/
inductive Event : Type 1 where
  /-- A call is carried out. -/
  | called {α : Type} (call : Call α) (answer : Except Error α)
  /-- The first half of a read is carried out, which a reset may follow later. -/
  | looked (key : Key) (answer : Except Error (Option Element))
  /-- The pass under way takes the lock; whether it installs its draft. -/
  | held (installed : Bool)
  /-- The region stops serving. -/
  | died
  /-- The region compacts or saves its keys, and closes its files. -/
  | shutDown
  /-- The process ends, and a new one opens the files with settings of its own. -/
  | reopened (config : Config)

namespace Event

def put? : Event → Option Element
  | .called (.put e) _ => some e
  | _ => none

/-- The element that a put stored. -/
def stored? : Event → Option Element
  | .called (.put e) (.ok _) => some e
  | _ => none

def stored (events : List Event) : List Element := events.filterMap stored?

end Event

/-- One event. -/
inductive Step : World → Event → World → Prop where
  | called {α : Type} (call : Call α) (p : World) :
      Step p (.called call (call.perform.result p).1) (call.perform.result p).2
  | looked (key : Key) (p : World) :
      Step p (.looked key ((Region.lookup key).result p).1) ((Region.lookup key).result p).2
  /-- Keys that were collected last are visited in any order. -/
  | held {arrange : List Key → List Key} (harrange : ∀ l, (arrange l).Perm l) (p : World) :
      Step p (.held (p.2.compactions < ((Region.holdPass arrange).run p).2.2.compactions))
        ((Region.holdPass arrange).run p).2
  | died (d : FileSystem) (r : Region) : Step (d, r) .died (d, { r with alive := false })
  | shutDown (p : World) : Step p .shutDown (Region.shutDown.result p).2
  /-- The settings may differ in all but the place of the files. -/
  | reopened {d d' : FileSystem} {r r' : Region} {c : Config}
      (hname : c.cacheName = r.config.cacheName) (hpath : c.diskPath = r.config.diskPath)
      (hopen : (Region.openAt c).result d = (.ok r', d')) :
      Step (d, r) (.reopened c) (d', r')

/-- Events one after the other, each of which `step` allows. -/
inductive Run {σ : Type} (step : σ → Event → σ → Prop) : σ → List Event → σ → Prop where
  | nil (p : σ) : Run step p [] p
  | snoc {p q q' : σ} {events : List Event} {e : Event} (h : Run step p events q)
      (he : step q e q') : Run step p (events ++ [e]) q'

/-- The region was just opened, and found no key. -/
def OpenedEmpty (c : Config) (p : World) : Prop :=
  ∃ d : FileSystem, d.Healthy ∧ (Region.openAt c).result d = (.ok p.2, p.1) ∧ p.2.size = 0

variable {c : Config} {p p' q q' : World} {d d' : FileSystem} {r r' : Region} {data : Bytes}
  {H : List Element} {listed : List (Key × Slot)} {events : List Event}

def opened? (c : Config) (d : FileSystem) : Option World :=
  match (Region.openAt c).result d with
  | (.ok r, d') => some (d', r)
  | _ => none

theorem opened?_eq_some_iff :
    opened? c d = some p ↔ (Region.openAt c).result d = (.ok p.2, p.1) := by
  unfold opened?
  rcases (Region.openAt c).result d with ⟨e | r, d'⟩
  · constructor <;> intro h <;> cases h
  · constructor
    · intro h
      cases h
      rfl
    · intro h
      cases h
      rfl

/-- What an action answers and what it leaves, unless it fails. -/
def answer? {α ε σ : Type} : Except ε α × σ → Option (α × σ)
  | (.ok a, s) => some (a, s)
  | _ => none

theorem answer?_eq_some_iff {α ε σ : Type} {x : Except ε α × σ} {a : α} {s : σ} :
    answer? x = some (a, s) ↔ x = (.ok a, s) := by
  rcases x with ⟨e | a', s'⟩
  · constructor <;> intro h <;> cases h
  · constructor
    · intro h
      cases h
      rfl
    · intro h
      cases h
      rfl

/-- What the pass has done and has to do, if it is copying. -/
def work? (r : Region) : Option Work :=
  match r.pass with
  | some (.running w) => some w
  | _ => none

theorem work?_eq_some_iff {w : Work} : r.work? = some w ↔ r.pass = some (.running w) := by
  unfold work?
  constructor
  · intro h
    split at h
    · next hpass =>
      cases h
      exact hpass
    · cases h
  · intro h
    rw [h]

theorem openedEmpty_of_eq (hd : d.Healthy) (h : opened? c d = some p) (hsize : p.2.size = 0) :
    OpenedEmpty c p :=
  ⟨d, hd, opened?_eq_some_iff.1 h, hsize⟩

/-- What each event of a run allows, the run does. -/
theorem Run.mono {step step' : World → Event → World → Prop} (hr : Run step p events q)
    (h : ∀ {p e q}, step p e q → step' p e q) : Run step' p events q := by
  induction hr with
  | nil => exact .nil _
  | snoc hr he ih => exact ih.snoc (h he)

/-- Runs one after the other are a run. -/
theorem Run.append {step : World → Event → World → Prop} {more : List Event}
    (hr : Run step p events q) (hr' : Run step q more q') : Run step p (events ++ more) q' := by
  induction hr' with
  | nil => exact (List.append_nil events).symm ▸ hr
  | snoc hr' he ih =>
    rw [← List.append_assoc]
    exact ih.snoc he

theorem Step.of_result {α : Type} {call : Call α} {answer : Except Error α}
    (ha : (call.perform.result q).1 = answer) :
    Step q (.called call answer) (call.perform.result q).2 := by
  subst ha
  exact .called call q

/-- What a call answers, and where it leads. -/
theorem Step.result_of_called {α : Type} {call : Call α} {answer : Except Error α}
    (h : Step p (.called call answer) q) : call.perform.result p = (answer, q) := by
  cases h
  rfl

theorem Run.call {α : Type} (h : Run Step p events q) (call : Call α) {answer : Except Error α}
    (ha : (call.perform.result q).1 = answer) :
    Run Step p (events ++ [.called call answer]) (call.perform.result q).2 :=
  h.snoc (.of_result ha)

theorem Run.reopen (h : Run Step p events q) (hname : c.cacheName = q.2.config.cacheName)
    (hpath : c.diskPath = q.2.config.diskPath) (ho : opened? c q.1 = some q') :
    Run Step p (events ++ [.reopened c]) q' :=
  h.snoc (.reopened hname hpath (opened?_eq_some_iff.1 ho))

/-- Some files and a key file for which the region is sound. -/
def IsSound (H : List Element) (p : World) : Prop := ∃ data listed, Sound H p.1 p.2 data listed

/-! ### What can be seen of a region -/

/-- The bytes that lie where the index has the record of a key. -/
def recordOf? (p : World) (k : Key) : Option Bytes := do
  let content ← p.1.contentAt? p.2.config.dataFile
  let slot ← p.2.store.index.get? k
  pure (slot.slice content.toList)

theorem Sound.recordOf?_eq (h : Sound H d r data listed) (k : Key) :
    recordOf? (d, r) k = (r.store.index.get? k).map (·.slice data) := by
  obtain ⟨content, hcontent, rfl⟩ := Option.map_eq_some_iff.1 h.intact.mounted.contentAt?
  unfold recordOf?
  rw [hcontent]
  cases r.store.index.get? k <;> rfl

/-- The elements that puts stored are those that the events tell of. -/
theorem Event.mem_stored_iff {e : Element} :
    e ∈ Event.stored events ↔ .called (.put e) (.ok ()) ∈ events := by
  rw [Event.stored, List.mem_filterMap]
  constructor
  · rintro ⟨event, hmem, hstored⟩
    unfold Event.stored? at hstored
    split at hstored
    · cases hstored
      exact hmem
    · cases hstored
  · intro hmem
    exact ⟨_, hmem, rfl⟩

/-! ### The first state -/

theorem Sound.of_openedEmpty (h : OpenedEmpty c p) :
    Sound [] p.1 p.2 [] [] ∧ p.2.config = c ∧ p.2.store.index = .empty c.maxKeys ∧ p.2.alive ∧
      p.2.closed = false ∧ p.2.hits = 0 ∧ p.2.misses = 0 := by
  obtain ⟨d, hd, ho, hsize⟩ := h
  obtain ⟨hc, d₁, d₂, -, hg, -, hl, hs, hr⟩ := openAt_ok hd ho
  obtain ⟨hm, hopen, hi, hf, -⟩ := Store.openAt_empty hc hl.healthy hs hsize
  generalize p.2.store = s at *
  rw [hr]
  refine ⟨⟨⟨hm, Store.sound_of_empty hi hf, ?_, ?_⟩, hc, fun _ => hopen, by simp, rfl, ?_⟩, rfl, hi,
    rfl, rfl, rfl, rfl⟩
  · rw [hi]
    rfl
  · rw [hf]
    rfl
  · rintro pass ⟨⟩

/-! ### What one event keeps -/

theorem Sound.mono {H' : List Element} (h : Sound H d r data listed) (hsub : H ⊆ H') :
    Sound H' d r data listed :=
  { h with
    intact := { h.intact with sound := h.intact.sound.mono hsub }
    follows := fun pass hp => (h.follows pass hp).mono hsub }

theorem isSound_put (h : IsSound H (d, r)) (e : Element) :
    IsSound (H ++ (Event.stored? (.called (.put e) ((put e).result (d, r)).1)).toList)
      ((put e).result (d, r)).2 := by
  obtain ⟨data, listed, h⟩ := h
  cases ha : r.alive with
  | false =>
    have hr : (put e).result (d, r) = (.error (.notAlive r.config.cacheName), (d, r)) := by
      unfold put
      rw [Action.result_bind, result_requireAlive_dead ha]
    rw [hr]
    exact ⟨data, listed, (List.append_nil H).symm ▸ h⟩
  | true =>
    rcases put_spec h ha e with ⟨d', r', data', hr, -, -, -, h', -⟩ | ⟨err, d', hr, h', -⟩
    · rw [hr]
      refine ⟨data', listed, h'.mono ?_⟩
      intro a ha
      exact (List.mem_cons.1 ha).elim (fun heq => by simp [heq, Event.stored?])
        (List.mem_append_left _)
    · rw [hr]
      exact ⟨data, listed, (List.append_nil H).symm ▸ h'⟩

theorem isSound_lookup (h : IsSound H (d, r)) (k : Key) :
    IsSound H ((lookup k).result (d, r)).2 := by
  obtain ⟨data, listed, h⟩ := h
  cases ha : r.alive with
  | false =>
    rw [result_lookup_dead ha]
    exact ⟨data, listed, h⟩
  | true =>
    obtain ⟨d', r', hr, -, -, h', -⟩ := lookup_spec h ha k
    rw [hr]
    exact ⟨data, listed, h'⟩

theorem isSound_reset (h : IsSound H (d, r)) : IsSound H (Region.reset.result (d, r)).2 := by
  obtain ⟨data, listed, h⟩ := h
  cases ha : r.alive with
  | false =>
    unfold Region.reset
    rw [Action.result_bind, result_requireAlive_dead ha]
    exact ⟨data, listed, h⟩
  | true =>
    obtain ⟨d', r', hr, -, -, -, h', -⟩ := reset_spec h ha
    rw [hr]
    exact ⟨[], [], h'⟩

theorem isSound_get (h : IsSound H (d, r)) (k : Key) :
    IsSound H ((Region.get k).result (d, r)).2 := by
  have hl := isSound_lookup h k
  rw [result_get]
  rcases hr : (lookup k).result (d, r) with ⟨e | found, p⟩ <;> rw [hr] at hl
  · exact isSound_reset hl
  · exact hl

theorem isSound_saveKeys (h : IsSound H (d, r)) : IsSound H (Region.saveKeys.result (d, r)).2 := by
  obtain ⟨data, listed, h⟩ := h
  cases ha : r.alive with
  | false =>
    unfold Region.saveKeys
    rw [Action.result_bind, result_requireAlive_dead ha]
    exact ⟨data, listed, h⟩
  | true =>
    obtain ⟨answer, d', r', listed', hr, -, -, -, -, h', -⟩ := saveKeys_spec h ha
    rw [hr]
    exact ⟨data, listed', h'⟩

theorem isSound_removeBy (h : IsSound H (d, r)) {f : Store → Bool × Store} {p : Key → Bool}
    (hf : ∀ data listed, r.store.Sound H data listed →
      r.store.Removal H data listed p (f r.store)) :
    IsSound H (d, (r.removeBy f).2) := by
  obtain ⟨data, listed, h⟩ := h
  cases ha : r.alive with
  | false =>
    rw [removeBy_dead ha]
    exact ⟨data, listed, h⟩
  | true =>
    obtain ⟨-, -, -, -, h', -⟩ := removeBy_spec h ha (hf data listed h.intact.sound)
    exact ⟨data, listed, h'⟩

theorem isSound_requestCompaction (h : IsSound H (d, r)) :
    IsSound H (d, r.requestCompaction.2) := by
  obtain ⟨data, listed, h⟩ := h
  exact ⟨data, listed, h.count (changes_requestCompaction r) (requestCompaction_eq r).1
    h.intact.mounted.healthy.alike_refl⟩

theorem isSound_call {α : Type} (h : IsSound H (d, r)) (call : Call α) :
    IsSound (H ++ (Event.stored? (.called call (call.perform.result (d, r)).1)).toList)
      (call.perform.result (d, r)).2 := by
  have hsame : ∀ p, IsSound H p → IsSound (H ++ (none : Option Element).toList) p := fun p hp =>
    (List.append_nil H).symm ▸ hp
  cases call with
  | put e => exact isSound_put h e
  | get k => exact hsame _ (isSound_get h k)
  | groupKeys g => exact hsame _ h
  | remove k => exact hsame _ (isSound_removeBy h fun _ _ hs => hs.remove k)
  | removeGroup g => exact hsame _ (isSound_removeBy h fun _ _ hs => hs.removeWhere _)
  | reset => exact hsame _ (isSound_reset h)
  | saveKeys => exact hsame _ (isSound_saveKeys h)
  | size => exact hsame _ h
  | stats => exact hsame _ h
  | requestCompaction => exact hsame _ (isSound_requestCompaction h)

/-- Before a region opens its store again, the files are as the one before it left them. -/
theorem Sound.openStore (h : Sound H d r data listed) (hname : c.cacheName = r.config.cacheName)
    (hpath : c.diskPath = r.config.diskPath) (ho : (Region.openAt c).result d = (.ok r', d')) :
    c.Valid ∧ r.config.dataFile = c.dataFile ∧ r.config.keyFile = c.keyFile ∧
      ∃ d₂, r.store.Intact r.config H d₂ data listed ∧
        (Store.openAt c).result d₂ = (.ok r'.store, d') ∧
        r' = { config := c, store := r'.store, alive := true, closed := false, compacting := false,
               removals := 0, compactions := 0, reuses := 0, hits := 0, misses := 0,
               pass := none } := by
  obtain ⟨hc, d₁, d₂, -, hg, -, hl, hs, hr⟩ := openAt_ok h.intact.mounted.healthy ho
  refine ⟨hc, ?_, ?_, d₂, { h.intact with mounted := ?_ }, hs, hr⟩
  · simp only [Config.dataFile, hname, hpath]
  · simp only [Config.keyFile, hname, hpath]
  · refine (h.intact.mounted.grown hg).frame ?_
    simpa only [Config.draftName, hname] using hl

/-- Files that are opened again make a sound region. -/
theorem isSound_reopened (h : IsSound H (d, r)) (hname : c.cacheName = r.config.cacheName)
    (hpath : c.diskPath = r.config.diskPath) (ho : (Region.openAt c).result d = (.ok r', d')) :
    IsSound H (d', r') := by
  obtain ⟨data, listed, h⟩ := h
  obtain ⟨hc, hdata, hkey, d₂, hintact, hs, hr⟩ := h.openStore hname hpath ho
  obtain ⟨⟨data', listed', h'⟩, hopen⟩ := hintact.openAt hdata hkey hc hs
  refine ⟨data', listed', ?_⟩
  rw [hr]
  exact ⟨h', hc, fun _ => hopen, by simp, rfl, by rintro pass ⟨⟩⟩

/-- Every event keeps a region sound. -/
theorem isSound_step {e : Event} (h : IsSound H p) (hs : Step p e p') :
    IsSound (H ++ e.stored?.toList) p' := by
  have hsame : ∀ p, IsSound H p → IsSound (H ++ (none : Option Element).toList) p := fun p hp =>
    (List.append_nil H).symm ▸ hp
  cases hs with
  | called call p => exact isSound_call h call
  | looked key p => exact hsame _ (isSound_lookup h key)
  | held harrange p =>
    obtain ⟨data, listed, h⟩ := h
    obtain ⟨d', r', data', listed', hr, h', -⟩ := holdPass_spec h harrange
    rw [hr]
    exact hsame _ ⟨data', listed', h'⟩
  | died d r =>
    obtain ⟨data, listed, h⟩ := h
    exact hsame _ ⟨data, listed, h.intact, h.valid, h.isOpen, fun _ => rfl, h.compacting, h.follows⟩
  | shutDown p =>
    obtain ⟨data, listed, h⟩ := h
    obtain ⟨d', r', data', listed', hr, h', -⟩ := shutDown_spec h
    rw [hr]
    exact hsame _ ⟨data', listed', h'⟩
  | reopened hname hpath ho => exact hsame _ (isSound_reopened h hname hpath ho)

theorem Run.isSound_from (h : IsSound H p) (hr : Run Step p events p') :
    IsSound (H ++ Event.stored events) p' := by
  induction hr with
  | nil => exact (List.append_nil H).symm ▸ h
  | snoc hr he ih =>
    have := isSound_step ih he
    rw [Event.stored, List.filterMap_append, ← List.append_assoc]
    exact this

/-- Every run from an empty region keeps it sound. -/
theorem Run.isSound (h : OpenedEmpty c p) (hr : Run Step p events p') :
    IsSound (Event.stored events) p' :=
  hr.isSound_from ⟨[], [], (Sound.of_openedEmpty h).1⟩

/-! ### A small region -/

/-- Settings with room for `n` keys and one free slot. -/
def roomFor (n : Nat) : Config := { Config.named "a" ⟨"d"⟩ with maxKeys := n, maxFreeSlots := 1 }

/-- An element with a plain name. -/
def note (name : String) (value : Bytes) : Element :=
  { cacheName := "a", key := .name name, value, attributes := { createdAt := 0, maxLife := none } }

end DiskTier.Region
