import DiskTier.Proofs.Death
import DiskTier.Proofs.Packing

/-!
# One compaction at a time

A flag and a counter tell a region when to compact, and they are not under its lock: a removal is
counted once it has let go of the lock, a pass notes its end after its last hold, and a shutdown
claims the flag as a pass does. A `Scene` is a region in the midst of all that, with as many passes
as there may be, and a `Move` is what can come next. In whatever order the moves come, there is at
most one compaction, the flag says whether there is one, and while there is none the counter is
below the number of removals that calls for one.
-/

namespace DiskTier

open FileSystem

variable {α : Type} {c : Config} {d d' : FileSystem} {s : Store}

/-! ### Drafts that are installed -/

/-- Whether the draft becomes the data file once it has the records of `keys` too. -/
def Draft.installs (dr : Draft) (keys : List Key) (p : FileSystem × Store) : Bool :=
  match (dr.copyAll p.2 keys).result p.1 with
  | (.ok dr, d) => ((Store.installDraft dr).result (d, p.2)).1.isOk
  | (.error _, _) => false

/-- Whether the next hold of the pass makes its draft the data file. -/
def Pass.installs (arrange : List Key → List Key) (alive : Bool) (p : FileSystem × Store) :
    Pass → Bool
  | .running w =>
    (alive && p.2.generation == w.generation) && (w.todo.isEmpty && w.tries == 0) &&
      w.draft.installs (arrange (p.2.pending.getD []).eraseDups) (p.1, { p.2 with pending := none })
  | _ => false

/-- Whether a compaction while nobody else uses the store makes its draft the data file. -/
def Store.installsAtOnce (draftFile : Path) (p : FileSystem × Store) : Bool :=
  match (Draft.begin draftFile).result p.1 with
  | (.ok dr, d) => dr.installs p.2.index.keys (d, p.2)
  | (.error _, _) => false

/-- Whether the pass ended and its draft was installed. -/
def Progress.installed : Progress → Bool
  | .next _ => false
  | .over installed => installed

namespace Pass

/-- A pass tells that its draft was installed exactly when it was. -/
theorem installed_hold (pass : Pass) (arrange : List Key → List Key) (draftFile : Path)
    (alive : Bool) (d : FileSystem) (s : Store) :
    ((pass.hold arrange draftFile alive).run (d, s)).1.installed =
      pass.installs arrange alive (d, s) := by
  have hcopy : ∀ (k : Key) (w : Work) (s : Store),
      ((copyOne k w).run (d, s)).1.installed = false := by
    intro k w s
    rw [run_copyOne]
    split <;> rfl
  cases pass with
  | requested =>
    rw [hold]
    split
    · rw [run_start]
      split <;> rfl
    · rfl
  | stopping generation draft =>
    rw [hold, run_bind, run_store]
    simp only
    rw [run_bind, run_setStore]
    cases draft <;> rfl
  | running w =>
    rw [hold, run_bind, run_store, installs]
    simp only
    cases hcurrent : alive && s.generation == w.generation with
    | false => rfl
    | true =>
      simp only [if_true, Bool.true_and]
      rcases run_work arrange w d s with ⟨k, ks, htodo, hwork⟩ |
        ⟨n, k, ks, htodo, htries, -, hwork⟩ | ⟨n, htodo, htries, -, hwork⟩ |
        ⟨htodo, htries, hwork⟩ <;> rw [hwork, htodo]
      · exact hcopy k _ s
      · rw [htries]
        exact hcopy k _ _
      · rw [htries]
        rfl
      · rw [htries, run_finish, Draft.installs]
        rcases (w.draft.copyAll { s with pending := none }
          (arrange (s.pending.getD []).eraseDups)).result d with ⟨e | dr, d'⟩ <;> rfl

end Pass

/-- A compaction succeeds exactly if its draft is installed. -/
theorem Store.isOk_compactAtOnce (draftFile : Path) (d : FileSystem) (s : Store) :
    ((compactAtOnce draftFile).result (d, s)).1.isOk = installsAtOnce draftFile (d, s) := by
  rw [compactAtOnce, Action.result_bind, FileAction.result_onDisk, installsAtOnce]
  rcases (Draft.begin draftFile).result d with ⟨e | dr, d₁⟩
  · rfl
  · simp only [Except.mapError]
    rw [Action.result_bind, FileAction.result_value]
    simp only
    rw [Action.result_bind, Action.result_attempt, FileAction.result_onDisk, Draft.installs]
    rcases (dr.copyAll s s.index.keys).result d₁ with ⟨e | dr', d₂⟩
    · simp only [Except.mapError]
      rw [Action.result_bind]
      split <;> rfl
    · rfl

namespace Region

/-! ### Scenes -/

/-- A pass on a task of its own. -/
inductive Flight where
  /-- It is to take the lock again. -/
  | underWay (pass : Pass)
  /-- It has let go of the lock for good, and is to note its end. -/
  | over

/-- Where a hold leaves the pass. -/
def Flight.after : Progress → Flight
  | .next pass => .underWay pass
  | .over _ => .over

/-- What a hold changes of the region itself, before the end of the pass is noted. -/
def afterHold (progress : Progress) (r : Region) : Region :=
  match progress with
  | .next pass => { r with pass := some pass }
  | .over installed => { r with compactions := r.compactions + installed.toNat }

/-- How far a shutdown has come, which keeps the lock from beginning to end. -/
inductive Closing where
  /-- It is to see whether a pass is under way. -/
  | begun
  | compacting
  /-- It is to note the end of its compaction, which succeeded or not. -/
  | compacted (done : Bool)
  /-- It is to save the keys, unless it compacted, and to close the files. -/
  | leaving (compacted : Bool)

/-- Whether it has a compaction under way. -/
def Closing.compacts : Closing → Bool
  | .compacting => true
  | .compacted _ => true
  | _ => false

/-- A region and its files between any two things that can happen to them. The pass that the region
itself tells of is not looked at. -/
structure Scene where
  disk : FileSystem
  region : Region
  flights : List Flight
  /-- How many removals are to be counted yet. -/
  uncounted : Nat
  closing : Option Closing
  /-- How many drafts have become the data file. -/
  installed : Nat

/-- What can happen to a region next. -/
inductive Move : Type 1 where
  /-- A call is carried out, which leaves a removal to be counted later. -/
  | asked {α : Type} (call : Call α)
  /-- The first half of a read is carried out. -/
  | looked (key : Key)
  /-- A removal is counted. -/
  | counted
  /-- A pass takes the lock. -/
  | held (arrange : List Key → List Key) (flight : Nat)
  /-- A pass notes its end. -/
  | ended (flight : Nat)
  /-- The region stops serving. -/
  | died
  /-- A shutdown begins, or goes on. -/
  | shutDown

namespace Scene

/-- The scene in a world where nothing is half done. -/
def of (p : World) : Scene :=
  { disk := p.1, region := p.2, flights := p.2.pass.toList.map .underWay, uncounted := 0
    closing := none, installed := p.2.compactions }

/-- The scene of a region that was just opened. -/
def start (p : World) : Scene :=
  { disk := p.1, region := p.2, flights := [], uncounted := 0, closing := none, installed := 0 }

/-- How many compactions there are. -/
def active (s : Scene) : Nat := s.flights.length + (s.closing.any (·.compacts)).toNat

/-- What needs the lock, and does not happen while a shutdown has it. -/
def locking (f : Scene → Scene) (s : Scene) : Scene := if s.closing.isNone then f s else s

def put (p : World) (s : Scene) : Scene := { s with disk := p.1, region := p.2 }

/-- A compaction is requested, and a pass sets out unless there is one. -/
def request (s : Scene) : Scene :=
  { s with
    region := s.region.requestCompaction.2
    flights := if s.region.requestCompaction.1 then s.flights ++ [.underWay .requested]
      else s.flights }

/-- Removes what `f` removes from the store, for which there will be something to count. -/
def remove (f : Store → Bool × Store) (s : Scene) : Scene :=
  if s.region.alive then
    { s with
      region.store := (f s.region.store).2
      uncounted := if (f s.region.store).1 then s.uncounted + 1 else s.uncounted }
  else s

/-- Counts a removal, and requests a compaction if that makes it due. -/
def count (s : Scene) : Scene :=
  match s.uncounted with
  | 0 => s
  | n + 1 =>
    let s := { s with region.removals := s.region.removals + 1, uncounted := n }
    if s.region.isCompactionDue then s.request else s

def ask (s : Scene) : {α : Type} → Call α → Scene
  | _, .requestCompaction => s.request
  | _, .remove k => s.locking (remove (·.remove k))
  | _, .removeGroup g => s.locking (remove (·.removeGroup g))
  | _, call => s.locking fun s => s.put (call.perform.result (s.disk, s.region)).2

/-- A hold of one of the passes. -/
def hold (arrange : List Key → List Key) (flight : Nat) (s : Scene) : Scene :=
  match s.flights[flight]? with
  | some (.underWay pass) =>
    let (progress, (d, store)) :=
      (pass.hold arrange s.region.config.draftFile s.region.alive).run (s.disk, s.region.store)
    let installed := pass.installs arrange s.region.alive (s.disk, s.region.store)
    { s with
      disk := d
      region := { s.region with store }.afterHold progress
      flights := s.flights.set flight (.after progress)
      installed := s.installed + installed.toNat }
  | _ => s

/-- One of the passes notes its end. -/
def conclude (flight : Nat) (s : Scene) : Scene :=
  match s.flights[flight]? with
  | some .over =>
    { s with region := s.region.endCompaction false, flights := s.flights.eraseIdx flight }
  | _ => s

/-- A shutdown takes the lock, if the region was not shut down yet, or goes on. -/
def shutDown (s : Scene) : Scene :=
  match s.closing with
  | none =>
    if s.region.closed then s
    else
      { s with
        region.closed := true
        closing := some (if s.region.alive then .begun else .leaving false) }
  | some .begun =>
    if s.region.compacting then { s with closing := some (.leaving false) }
    else { s with region.compacting := true, closing := some .compacting }
  | some .compacting =>
    let (outcome, (d, store)) :=
      (Store.compactAtOnce s.region.config.draftFile).result (s.disk, s.region.store)
    let installed := Store.installsAtOnce s.region.config.draftFile (s.disk, s.region.store)
    { s with
      disk := d
      region.store := store
      region.compactions := s.region.compactions + outcome.isOk.toNat
      closing := some (.compacted outcome.isOk)
      installed := s.installed + installed.toNat }
  | some (.compacted done) =>
    { s with region := s.region.endCompaction false, closing := some (.leaving done) }
  | some (.leaving compacted) =>
    let p := (s.disk, s.region)
    let saved := if compacted then p else ((onStore Store.saveKeys).result p).2
    let (d, r) := ((onStore Store.close).result saved).2
    { s with disk := d, region := { r with alive := false }, closing := none }

def move (s : Scene) : Move → Scene
  | .asked call => s.ask call
  | .looked k => s.locking fun s => s.put ((lookup k).result (s.disk, s.region)).2
  | .counted => s.count
  | .held arrange flight => s.locking (hold arrange flight)
  | .ended flight => s.conclude flight
  | .died => { s with region.alive := false }
  | .shutDown => s.shutDown

def run (moves : List Move) (s : Scene) : Scene := moves.foldl move s

end Scene

variable {r r' : Region} {sc sc' : Scene}

/-! ### What keeps the flag and the counters -/

/-- What a compaction goes by is the same. -/
structure SameTally (r r' : Region) : Prop where
  config : r'.config = r.config
  compacting : r'.compacting = r.compacting
  removals : r'.removals = r.removals
  compactions : r'.compactions = r.compactions
  pass : r'.pass = r.pass

theorem sameTally_refl (r : Region) : SameTally r r := ⟨rfl, rfl, rfl, rfl, rfl⟩

theorem SameTally.trans {r'' : Region} (h : SameTally r r') (h' : SameTally r' r'') :
    SameTally r r'' :=
  ⟨h'.config.trans h.config, h'.compacting.trans h.compacting, h'.removals.trans h.removals,
    h'.compactions.trans h.compactions, h'.pass.trans h.pass⟩

theorem sameTally_onStore (x : Store.Change α) (p : World) :
    SameTally p.2 ((onStore x).result p).2.2 := by
  rw [result_onStore]
  exact ⟨rfl, rfl, rfl, rfl, rfl⟩

/-- What is done only to a region that is alive. -/
theorem sameTally_required {f : Unit → Change α} (p : World)
    (h : SameTally p.2 ((f ()).result p).2.2) :
    SameTally p.2 ((requireAlive >>= f).result p).2.2 := by
  rw [Action.result_bind]
  cases ha : p.2.alive with
  | true =>
    rw [result_requireAlive ha]
    exact h
  | false =>
    rw [result_requireAlive_dead ha]
    exact sameTally_refl _

theorem sameTally_reset (p : World) : SameTally p.2 (Region.reset.result p).2.2 :=
  sameTally_required p (sameTally_onStore _ p)

theorem sameTally_saveKeys (p : World) : SameTally p.2 (Region.saveKeys.result p).2.2 :=
  sameTally_required p (sameTally_onStore _ p)

theorem sameTally_put (e : Element) (p : World) :
    SameTally p.2 ((Region.put e).result p).2.2 := by
  refine sameTally_required p ?_
  rw [Action.result_bind, result_onStore]
  rcases ((Store.write e.key e.encode).result (p.1, p.2.store)).1 with err | _ | _ <;>
    exact ⟨rfl, rfl, rfl, rfl, rfl⟩

theorem sameTally_lookup (k : Key) (p : World) :
    SameTally p.2 ((lookup k).result p).2.2 := by
  cases ha : p.2.alive with
  | false =>
    rw [result_lookup_dead ha]
    exact sameTally_refl _
  | true =>
    unfold lookup
    rw [Action.result_bind, FileAction.result_value]
    simp only [ha, if_true]
    rw [Action.result_bind, Action.result_attempt, FileAction.result_onDisk]
    rcases ((p.2.store.read k).result p.1).1 with err | _ | found <;> exact ⟨rfl, rfl, rfl, rfl, rfl⟩

theorem sameTally_get (k : Key) (p : World) : SameTally p.2 ((Region.get k).result p).2.2 := by
  have h := sameTally_lookup k p
  rw [result_get]
  rcases hr : (lookup k).result p with ⟨err | found, q⟩ <;> rw [hr] at h
  · exact h.trans (sameTally_reset q)
  · exact h

/-! ### The invariant -/

/-- There is one compaction if the flag is set, and none otherwise; then the counter is below what
makes one due. The compactions that the region counts are those that installed a draft. -/
structure Guarded (c : Config) (sc : Scene) : Prop where
  config : sc.region.config = c
  active : sc.active = sc.region.compacting.toNat
  counted : sc.region.compactions = sc.installed
  below : sc.region.compacting = false → 0 < c.compactAtRemovals →
    sc.region.removals < c.compactAtRemovals

namespace Guarded

/-- Moves that leave alone what a compaction goes by. -/
theorem same (h : Guarded c sc) (hr : SameTally sc.region sc'.region)
    (hflights : sc'.flights = sc.flights) (hclosing : sc'.closing = sc.closing)
    (hinstalled : sc'.installed = sc.installed) : Guarded c sc' := by
  refine ⟨hr.config.trans h.config, ?_, ?_, ?_⟩
  · rw [Scene.active, hflights, hclosing, hr.compacting]
    exact h.active
  · rw [hr.compactions, hinstalled]
    exact h.counted
  · rw [hr.compacting, hr.removals]
    exact h.below

/-- A request leaves a compaction under way, whatever the counter. -/
theorem of_request (hconfig : sc.region.config = c) (hactive : sc.active = sc.region.compacting.toNat)
    (hcounted : sc.region.compactions = sc.installed) : Guarded c sc.request := by
  unfold Scene.request requestCompaction
  split
  · next hc =>
    exact ⟨hconfig, hactive, hcounted, fun hidle => nomatch hc.symm.trans hidle⟩
  · next hc =>
    rw [Bool.not_eq_true] at hc
    refine ⟨hconfig, ?_, hcounted, nofun⟩
    simp only [Scene.active, hc, if_true, List.length_append, List.length_singleton,
      Bool.toNat_true, Bool.toNat_false] at hactive ⊢
    omega

theorem request (h : Guarded c sc) : Guarded c sc.request :=
  of_request h.config h.active h.counted

theorem remove (h : Guarded c sc) (f : Store → Bool × Store) : Guarded c (sc.remove f) := by
  unfold Scene.remove
  split
  · exact h.same ⟨rfl, rfl, rfl, rfl, rfl⟩ rfl rfl rfl
  · exact h

/-- A removal that makes a compaction due requests one, unless there is one. -/
theorem count (h : Guarded c sc) : Guarded c sc.count := by
  unfold Scene.count
  split
  · exact h
  · dsimp only
    split
    · exact of_request h.config h.active h.counted
    · next hdue =>
      refine ⟨h.config, h.active, h.counted, fun _ hpos => ?_⟩
      simp only [isCompactionDue, h.config, Bool.and_eq_true, decide_eq_true_eq] at hdue
      exact Nat.lt_of_not_ge fun hge => hdue ⟨hpos, hge⟩

theorem put (h : Guarded c sc) {p : World} (hp : SameTally sc.region p.2) :
    Guarded c (sc.put p) :=
  h.same hp rfl rfl rfl

theorem locking (h : Guarded c sc) {f : Scene → Scene} (hf : Guarded c (f sc)) :
    Guarded c (sc.locking f) := by
  unfold Scene.locking
  split
  · exact hf
  · exact h

theorem ask (h : Guarded c sc) (call : Call α) : Guarded c (sc.ask call) := by
  cases call with
  | put e => exact h.locking (h.put (sameTally_put e (sc.disk, sc.region)))
  | get k => exact h.locking (h.put (sameTally_get k (sc.disk, sc.region)))
  | groupKeys name => exact h.locking (h.put (sameTally_refl _))
  | remove k => exact h.locking (h.remove _)
  | removeGroup g => exact h.locking (h.remove _)
  | reset => exact h.locking (h.put (sameTally_reset (sc.disk, sc.region)))
  | saveKeys => exact h.locking (h.put (sameTally_saveKeys (sc.disk, sc.region)))
  | size => exact h.locking (h.put (sameTally_refl _))
  | stats => exact h.locking (h.put (sameTally_refl _))
  | requestCompaction => exact h.request

/-- A pass is under way until it notes its end, and tells truly whether its draft was installed. -/
theorem hold (h : Guarded c sc) (arrange : List Key → List Key) (flight : Nat) :
    Guarded c (sc.hold arrange flight) := by
  unfold Scene.hold
  split
  · next pass _ =>
    have htells := pass.installed_hold arrange sc.region.config.draftFile sc.region.alive sc.disk
      sc.region.store
    rw [← htells]
    have hactive := h.active
    rw [Scene.active] at hactive
    rcases (pass.hold arrange sc.region.config.draftFile sc.region.alive).run
      (sc.disk, sc.region.store) with ⟨pass' | installed, d, store⟩
    · refine ⟨h.config, ?_, h.counted, h.below⟩
      rw [Scene.active, List.length_set]
      exact hactive
    · refine ⟨h.config, ?_, congrArg (· + installed.toNat) h.counted, h.below⟩
      rw [Scene.active, List.length_set]
      exact hactive
  · exact h

/-- The pass that notes its end was the only compaction. -/
theorem conclude (h : Guarded c sc) (flight : Nat) : Guarded c (sc.conclude flight) := by
  unfold Scene.conclude
  split
  · next hover =>
    obtain ⟨hlt, -⟩ := List.getElem?_eq_some_iff.1 hover
    refine ⟨h.config, ?_, h.counted, fun _ hpos => hpos⟩
    have hactive := h.active
    have hle := Bool.toNat_le sc.region.compacting
    simp only [Scene.active, List.length_eraseIdx, hlt, if_true, endCompaction,
      Bool.toNat_false] at hactive ⊢
    omega
  · exact h

/-- A shutdown compacts only if no pass is under way, and none sets out until it has noted the end
of its compaction. -/
theorem shutDown (h : Guarded c sc) : Guarded c sc.shutDown := by
  obtain ⟨hconfig, hactive, hcounted, hbelow⟩ := h
  rw [Scene.active] at hactive
  unfold Scene.shutDown
  split
  · next hnone =>
    rw [hnone] at hactive
    split
    · exact ⟨hconfig, by rw [Scene.active, hnone]; exact hactive, hcounted, hbelow⟩
    · refine ⟨hconfig, ?_, hcounted, hbelow⟩
      show _ + (Option.any _ (some _)).toNat = _
      cases sc.region.alive <;> exact hactive
  · next hbegun =>
    rw [hbegun] at hactive
    split
    · exact ⟨hconfig, hactive, hcounted, hbelow⟩
    · next hc =>
      rw [Bool.not_eq_true] at hc
      rw [hc] at hactive
      exact ⟨hconfig, congrArg (· + 1) hactive, hcounted, nofun⟩
  · next hcompacting =>
    rw [hcompacting] at hactive
    have htells := Store.isOk_compactAtOnce sc.region.config.draftFile sc.disk sc.region.store
    rw [← htells]
    exact ⟨hconfig, hactive, congrArg (· + _) hcounted, hbelow⟩
  · next hcompacted =>
    rw [hcompacted] at hactive
    refine ⟨hconfig, ?_, hcounted, fun _ hpos => hpos⟩
    have hle := Bool.toNat_le sc.region.compacting
    simp only [Scene.active, Option.any, Closing.compacts, Bool.toNat_true, Bool.toNat_false,
      endCompaction] at hactive ⊢
    omega
  · next compacted hleaving =>
    rw [hleaving] at hactive
    have hsaved : SameTally sc.region (if compacted then (sc.disk, sc.region)
        else ((onStore Store.saveKeys).result (sc.disk, sc.region)).2).2 := by
      split
      · exact sameTally_refl _
      · exact sameTally_onStore _ (sc.disk, sc.region)
    have hr := hsaved.trans (sameTally_onStore Store.close _)
    refine ⟨hr.config.trans hconfig, ?_, hr.compactions.trans hcounted, ?_⟩
    · exact hactive.trans (congrArg Bool.toNat hr.compacting.symm)
    · intro hc hpos
      exact hr.removals.trans_lt (hbelow (hr.compacting.symm.trans hc) hpos)

/-- Every move keeps the invariant. -/
theorem move (h : Guarded c sc) (t : Move) : Guarded c (sc.move t) := by
  cases t with
  | asked call => exact h.ask call
  | looked k => exact h.locking (h.put (sameTally_lookup k (sc.disk, sc.region)))
  | counted => exact h.count
  | held arrange flight => exact h.locking (h.hold arrange flight)
  | ended flight => exact h.conclude flight
  | died => exact h.same ⟨rfl, rfl, rfl, rfl, rfl⟩ rfl rfl rfl
  | shutDown => exact h.shutDown

/-- Any moves, one after the other, keep the invariant. -/
theorem run (h : Guarded c sc) (moves : List Move) : Guarded c (sc.run moves) := by
  induction moves generalizing sc with
  | nil => exact h
  | cons t moves ih => exact ih (h.move t)

theorem start (ho : (Region.openAt c).result d = (.ok r, d')) : Guarded c (.start (d', r)) := by
  obtain ⟨-, d₁, d₂, -, -, -, hr⟩ := openAt_stages ho
  rw [hr]
  exact ⟨rfl, rfl, rfl, fun _ hpos => hpos⟩

end Guarded

/-- In whatever order clients call, removals are counted, passes take the lock and note their end,
and the region is shut down: there is at most one compaction, the flag is set exactly while there is
one, each draft that was installed counts as one, and while there is none the counter is below
what makes one due. -/
theorem one_compaction_at_a_time (ho : (Region.openAt c).result d = (.ok r, d'))
    (moves : List Move) :
    let scene := Scene.run moves (.start (d', r))
    scene.active ≤ 1 ∧ (scene.region.compacting = true ↔ scene.active = 1) ∧
      scene.region.compactions = scene.installed ∧
      (scene.active = 0 → 0 < c.compactAtRemovals →
        scene.region.removals < c.compactAtRemovals) := by
  have h := (Guarded.start ho).run moves
  have hactive := h.active
  refine ⟨hactive ▸ Bool.toNat_le _, ?_, h.counted, fun hnone hpos => h.below ?_ hpos⟩
  · rw [hactive, Bool.toNat_eq_one]
  · rwa [hactive, Bool.toNat_eq_zero] at hnone

/-- A removal makes a compaction due. Another one is counted while the pass is under way, and the
region is shut down before the pass notes its end, which clears the flag and the counter. -/
theorem counted_twice_compacted_once :
    ∃ (c : Config) (p : World) (moves : List Move), c.compactAtRemovals = 1 ∧
      (Region.openAt c).result .empty = (.ok p.2, p.1) ∧
      let before := Scene.run moves (.start p)
      let scene := Scene.run (moves ++ [.ended 0]) (.start p)
      (before.active = 1 ∧ before.region.removals = 2 ∧ scene.active = 0 ∧ scene.installed = 1) ∧
      scene.active ≤ 1 ∧ (scene.region.compacting = true ↔ scene.active = 1) ∧
      scene.region.compactions = scene.installed ∧
      (scene.active = 0 → 0 < c.compactAtRemovals →
        scene.region.removals < c.compactAtRemovals) := by
  let moves : List Move :=
    [.asked (.put (note "x" [1])), .asked (.put (note "y" [2])), .asked (.remove (.name "x")),
      .counted, .held id 0, .held id 0, .held id 0, .asked (.remove (.name "y")), .counted,
      .held id 0, .shutDown, .shutDown]
  have h : (opened? { roomFor 2 with compactAtRemovals := 1 } .empty).map (fun p =>
      let before := Scene.run moves (.start p)
      let scene := Scene.run (moves ++ [.ended 0]) (.start p)
      decide (before.active = 1 ∧ before.region.removals = 2 ∧ scene.active = 0 ∧
        scene.installed = 1)) = some true := by
    decide +kernel
  obtain ⟨p, hp, h⟩ := Option.map_eq_some_iff.1 h
  have ho := opened?_eq_some_iff.1 hp
  exact ⟨_, p, moves, rfl, ho, of_decide_eq_true h, one_compaction_at_a_time ho _⟩

/-! ### Events as moves -/

variable {p q : World} {event : Event} {events : List Event}

theorem Scene.run_append (before after : List Move) (sc : Scene) :
    sc.run (before ++ after) = (sc.run before).run after :=
  List.foldl_append

/-- Between two events a pass is under way exactly if the flag is set. -/
theorem Guarded.isSome_pass (h : Guarded c (.of p)) : p.2.pass.isSome = p.2.compacting := by
  have hactive := h.active
  rw [Scene.active, Scene.of] at hactive
  cases hp : p.2.pass <;> cases hc : p.2.compacting <;> simp [hp, hc] at hactive ⊢

theorem put_of (h : SameTally p.2 q.2) : (Scene.of p).put q = .of q := by
  unfold Scene.put Scene.of
  rw [h.pass, h.compactions]

theorem request_of (hp : r.pass.isSome = r.compacting) :
    (Scene.of (d, r)).request = .of (d, r.requestCompaction.2) := by
  unfold Scene.request Scene.of requestCompaction
  split
  · rfl
  · next hc =>
    rw [Bool.not_eq_true] at hc
    rw [hc, Option.isSome_eq_false_iff, Option.isNone_iff_eq_none] at hp
    simp only [hp]
    rfl

theorem count_of (hp : r.pass.isSome = r.compacting) :
    ({ Scene.of (d, r) with uncounted := 1 } : Scene).count = .of (d, r.countRemoval) := by
  have hrequest := request_of (d := d) (r := { r with removals := r.removals + 1 }) hp
  simp only [Scene.count, Scene.of, countRemoval] at hrequest ⊢
  by_cases hdue : ({ r with removals := r.removals + 1 } : Region).isCompactionDue
  · simp only [hdue, if_true]
    exact hrequest
  · simp only [hdue, if_false, Bool.false_eq_true]

/-- A removal is one move, and another if there is something to count. -/
theorem moves_of_removeBy (hp : r.pass.isSome = r.compacting) (call : Call α)
    {f : Store → Bool × Store} (hcall : ∀ sc : Scene, sc.ask call = sc.locking (.remove f)) :
    ∃ moves, (Scene.of (d, r)).run moves = .of (d, (r.removeBy f).2) := by
  cases ha : r.alive with
  | false =>
    rw [removeBy_dead ha]
    exact ⟨[], rfl⟩
  | true =>
    have hasked : (Scene.of (d, r)).move (.asked call) =
        { Scene.of (d, { r with store := (f r.store).2 }) with
          uncounted := if (f r.store).1 then 1 else 0 } := (hcall _).trans (if_pos ha)
    rw [removeBy, if_pos ha]
    rcases hf : f r.store with ⟨_ | _, s⟩ <;> rw [hf] at hasked
    · exact ⟨[.asked call], hasked⟩
    · exact ⟨[.asked call, .counted],
        (congrArg Scene.count hasked).trans (count_of (r := { r with store := s }) hp)⟩

theorem moves_of_called (hp : p.2.pass.isSome = p.2.compacting) (call : Call α) :
    ∃ moves, (Scene.of p).run moves = .of (call.perform.result p).2 := by
  cases call with
  | put e => exact ⟨[.asked (.put e)], put_of (sameTally_put e p)⟩
  | get k => exact ⟨[.asked (.get k)], put_of (sameTally_get k p)⟩
  | groupKeys name => exact ⟨[], rfl⟩
  | remove k => exact moves_of_removeBy hp (.remove k) fun _ => rfl
  | removeGroup g => exact moves_of_removeBy hp (.removeGroup g) fun _ => rfl
  | reset => exact ⟨[.asked .reset], put_of (sameTally_reset p)⟩
  | saveKeys => exact ⟨[.asked .saveKeys], put_of (sameTally_saveKeys p)⟩
  | size => exact ⟨[], rfl⟩
  | stats => exact ⟨[], rfl⟩
  | requestCompaction => exact ⟨[.asked .requestCompaction], request_of hp⟩

/-- The last hold of a pass is two moves: it also notes the end of the pass. -/
theorem moves_of_held (arrange : List Key → List Key) (d : FileSystem) (r : Region) :
    ∃ moves, (Scene.of (d, r)).run moves = .of ((holdPass arrange).run (d, r)).2 := by
  cases hpass : r.pass with
  | none =>
    rw [holdPass_none arrange hpass]
    exact ⟨[], rfl⟩
  | some pass =>
    have htells := pass.installed_hold arrange r.config.draftFile r.alive d r.store
    rcases hrun : (pass.hold arrange r.config.draftFile r.alive).run (d, r.store) with
      ⟨pass' | installed, d', store⟩
    · rw [hrun] at htells
      rw [holdPass_next hpass hrun]
      refine ⟨[.held arrange 0], ?_⟩
      simp only [Scene.run, List.foldl_cons, List.foldl_nil, Scene.move, Scene.locking, Scene.of,
        Scene.hold, hpass, Option.toList_some, List.map_cons, List.map_nil,
        List.getElem?_cons_zero, hrun, ← htells, List.set_cons_zero]
      rfl
    · rw [hrun] at htells
      rw [holdPass_over hpass hrun]
      refine ⟨[.held arrange 0, .ended 0], ?_⟩
      simp only [Scene.run, List.foldl_cons, List.foldl_nil, Scene.move, Scene.locking, Scene.of,
        Scene.hold, hpass, Option.toList_some, List.map_cons, List.map_nil,
        List.getElem?_cons_zero, hrun, ← htells, List.set_cons_zero]
      cases installed <;> rfl

/-- The last move of a shutdown. -/
theorem leave_of (p : World) (compacted : Bool) :
    ({ Scene.of p with closing := some (.leaving compacted) } : Scene).shutDown =
      let q := ((onStore Store.close).result
        (if compacted then p else ((onStore Store.saveKeys).result p).2)).2
      .of (q.1, { q.2 with alive := false }) := by
  have hsaved : SameTally p.2
      (if compacted then p else ((onStore Store.saveKeys).result p).2).2 := by
    split
    · exact sameTally_refl _
    · exact sameTally_onStore _ p
  have hr := hsaved.trans (sameTally_onStore Store.close _)
  simp only [Scene.shutDown, Scene.of]
  rw [← hr.pass, ← hr.compactions]

theorem close_of (hclosed : r.closed = false) :
    (Scene.of (d, r)).shutDown =
      { Scene.of (d, { r with closed := true }) with
        closing := some (if r.alive then .begun else .leaving false) } :=
  if_neg (by simp [Scene.of, hclosed])

/-- The compaction of a shutdown is three moves. -/
theorem compact_of (hp : r.pass = none) (hc : r.compacting = false) :
    ({ Scene.of (d, r) with closing := some .begun } : Scene).run
        [.shutDown, .shutDown, .shutDown] =
      let o := (Store.compactAtOnce r.config.draftFile).result (d, r.store)
      { Scene.of (ended r o) with closing := some (.leaving o.1.isOk) } := by
  have htells := Store.isOk_compactAtOnce r.config.draftFile d r.store
  simp only [Scene.run, List.foldl_cons, List.foldl_nil, Scene.move, Scene.shutDown, Scene.of, hc,
    Bool.false_eq_true, if_false, ← htells, hp]
  rcases (Store.compactAtOnce r.config.draftFile).result (d, r.store) with ⟨e | u, q⟩ <;> rfl

theorem moves_of_shutDown (hp : r.pass.isSome = r.compacting) :
    ∃ moves, (Scene.of (d, r)).run moves = .of (Region.shutDown.result (d, r)).2 := by
  cases hclosed : r.closed with
  | true =>
    rw [result_shutDown_closed hclosed]
    exact ⟨[], rfl⟩
  | false =>
    -- closed from the first move on
    have hclose := close_of (d := d) hclosed
    cases hbusy : r.alive && !r.compacting with
    | true =>
      rw [Bool.and_eq_true, Bool.not_eq_true'] at hbusy
      obtain ⟨ha, hc⟩ := hbusy
      rw [hc, Option.isSome_eq_false_iff, Option.isNone_iff_eq_none] at hp
      rw [if_pos ha] at hclose
      have hcompact := compact_of (d := d) (r := { r with closed := true }) hp hc
      rw [world_shutDown hclosed (result_compactForGood (r := { r with closed := true }) ha hc d),
        ← leave_of]
      refine ⟨[.shutDown] ++ ([.shutDown, .shutDown, .shutDown] ++ [.shutDown]), ?_⟩
      rw [Scene.run_append, Scene.run_append]
      exact congrArg Scene.shutDown ((congrArg _ hclose).trans hcompact)
    | false =>
      rw [world_shutDown hclosed (result_compactForGood_idle (r := { r with closed := true }) hbusy
        d), ← leave_of]
      by_cases ha : r.alive
      · rw [ha, Bool.true_and, Bool.not_eq_false'] at hbusy
        rw [if_pos ha] at hclose
        have hgive : (Scene.shutDown { Scene.of (d, { r with closed := true }) with
            closing := some .begun }) = { Scene.of (d, { r with closed := true }) with
            closing := some (.leaving false) } := if_pos hbusy
        exact ⟨[.shutDown, .shutDown, .shutDown],
          congrArg Scene.shutDown ((congrArg Scene.shutDown hclose).trans hgive)⟩
      · rw [if_neg ha] at hclose
        exact ⟨[.shutDown, .shutDown], congrArg Scene.shutDown hclose⟩

/-- Every event that keeps the region is made of moves. -/
theorem Trial.moves (ht : Trial p event q) (he : event.keepsRegion)
    (hp : p.2.pass.isSome = p.2.compacting) : ∃ moves, (Scene.of p).run moves = .of q := by
  cases ht with
  | retried hvain hname hpath hopen => exact absurd he id
  | step hs =>
    cases hs with
    | called call p => exact moves_of_called hp call
    | looked k p => exact ⟨[.looked k], put_of (sameTally_lookup k p)⟩
    | held harrange p => exact moves_of_held _ p.1 p.2
    | died d r => exact ⟨[.died], rfl⟩
    | shutDown p => exact moves_of_shutDown hp
    | reopened hname hpath hopen => exact absurd he id

/-- So is every run of a region that was just opened. -/
theorem Run.moves (ho : (Region.openAt c).result d = (.ok p.2, p.1)) (hr : Run Trial p events q)
    (hevents : ∀ event ∈ events, event.keepsRegion) :
    ∃ moves, (Scene.start p).run moves = .of q := by
  induction hr with
  | nil =>
    obtain ⟨-, d₁, d₂, -, -, -, hnew⟩ := openAt_stages ho
    refine ⟨[], ?_⟩
    show Scene.start p = .of p
    rw [Scene.start, Scene.of, hnew]
    rfl
  | snoc hr ht ih =>
    obtain ⟨before, hbefore⟩ := ih fun event hmem => hevents event (List.mem_append_left _ hmem)
    have hguarded : Guarded c (Scene.of _) := hbefore ▸ (Guarded.start ho).run before
    obtain ⟨after, hafter⟩ := ht.moves (hevents _ (List.mem_append_right _ (List.mem_singleton.2 rfl)))
      hguarded.isSome_pass
    exact ⟨before ++ after, by rw [Scene.run_append, hbefore, hafter]⟩

end Region

end DiskTier
