import DiskTier.Proofs.Admission
import DiskTier.Proofs.Http.Maps
import DiskTier.Proofs.Refinement
import Mathlib

/-!
# The HTTP service is two maps

Requests that are served one after the other by a region with room enough are answered as two maps
would: `Shows` ties a region to the maps, and every request keeps that. Between two requests the
region may be compacted, saved and read.
-/

namespace DiskTier

open Region (World Event Mirrors Undisturbed OpenedEmpty recordOf? opened? roomFor)

variable {α : Type} {c : Config} {p q : World}

namespace Http

/-! ### Serving -/

namespace Plan

/-- Carries a plan out: what is answered, and what becomes of the region. -/
def carryOut (p : World) : Plan → Response × World
  | .answer response => (response, p)
  | .ask call reply => (reply (call.perform.result p).1, (call.perform.result p).2)

/-- Nothing that the plan has written is refused. -/
def IsServed (p : World) : Plan → Prop
  | .answer _ => True
  | .ask call _ => (Event.called call (call.perform.result p).1).IsServed

end Plan

/-- The plan for a request that arrives at the time `now`, which is `timestamp` in words. -/
def planAt (now : Int64) (timestamp : String) (r : Request) (p : World) : Plan :=
  plan { cacheName := p.2.config.cacheName, alive := p.2.alive, now, timestamp } r

/-- Serves a request by a region that nobody else uses meanwhile. -/
def serve (now : Int64) (timestamp : String) (r : Request) (p : World) : Response × World :=
  (planAt now timestamp r p).carryOut p

end Http

namespace Session

theorem result_onRegion (x : Region.Change α) (d : FileSystem) (s : Session) :
    (onRegion x).result (d, s) = ((x.result (d, s.region)).1, (x.result (d, s.region)).2.1,
      { s with region := (x.result (d, s.region)).2.2 }) := by
  rw [onRegion, FileAction.result_onPart]
  cases (x.result (d, s.region)).1 <;> rfl

theorem result_locked {s : Session} (h : s.paused = false) (x : Region.Change α) (d : FileSystem) :
    (locked x).result (d, s) = (onRegion x).result (d, s) := by
  rw [locked, Action.result_bind, FileAction.result_value]
  simp only [h, Bool.false_eq_true, if_false]

/-- A call of a session that no pass holds up is one of its region. -/
theorem result_call {s : Session} (h : s.paused = false) (call : Call α) (d : FileSystem) :
    (Session.call call).result (d, s) = (onRegion call.perform).result (d, s) := by
  cases call with
  | get k =>
    -- a read that fails takes the lock twice
    rw [Session.call, Action.result_bind, Action.result_attempt, result_locked h, result_onRegion,
      result_onRegion, Call.perform, Region.result_get]
    rcases (Region.lookup k).result (d, s.region) with ⟨e | found, d', r'⟩
    · simp only
      rw [Action.result_bind, Action.result_regardless, result_locked (by exact h),
        result_onRegion]
      rfl
    · rfl
  | requestCompaction => rfl
  | _ => exact result_locked h _ d

/-- Without a pass that holds it up, a session serves a request as its region does. -/
theorem result_serve {s : Session} (h : s.paused = false) (now : Int64) (timestamp : String)
    (r : Http.Request) (d : FileSystem) :
    (Session.serve now timestamp r).result (d, s) =
      (.ok (Http.serve now timestamp r (d, s.region)).1,
        (Http.serve now timestamp r (d, s.region)).2.1,
        { s with region := (Http.serve now timestamp r (d, s.region)).2.2 }) := by
  rw [Session.serve, Action.result_bind, FileAction.result_value]
  show ((match Http.planAt now timestamp r (d, s.region) with
    | .answer response => pure response
    | .ask c answer => answer <$> (Session.call c).attempt : Change Http.Response).result (d, s)) = _
  rw [Http.serve]
  cases Http.planAt now timestamp r (d, s.region) with
  | answer response => rfl
  | ask call reply =>
    rw [Action.result_map, Action.result_attempt, result_call h, result_onRegion]
    rfl

end Session

/-! ### What a region keeps for the maps -/

namespace Lru

variable {m m' : Lru}

/-- A call that is carried out does what the map says, if its record fits a slot. -/
theorem Step.of_called {call : Call α} {answer : Except Error α}
    (h : Step m (.called call answer) m')
    (hfits : ∀ e ∈ (Event.called call answer).put?, e.encode.length ≤ Slot.maxLength) :
    ∃ a, answer = .ok a ∧ m.Answers call a ∧ m' = m.after call := by
  cases h with
  | allowed h =>
    cases answer with
    | error error => exact h.elim
    | ok a => exact ⟨a, rfl, h, rfl⟩
  | refused e error hlong => exact absurd (hfits e rfl) (Nat.not_le.2 hlong)

/-- The elements that are found do not depend on their order. -/
theorem find?_eq_of_perm {elements : List Element} (h : (m.elements.map (·.key)).Nodup)
    (hperm : m.elements.Perm elements) (k : Key) : m.find? k = elements.find? (·.key = k) := by
  have hnodup : ((m.elements.map fun e => (e.key, e)).map (·.1)).Nodup := by
    rw [List.map_map]
    exact h
  have hpairs : ∀ l : List Element,
      Assoc.find? (l.map fun e => (e.key, e)) k = l.find? (·.key = k) := by
    intro l
    simpa using find?_pairs id l k
  rw [Lru.find?, ← hpairs, ← hpairs]
  exact Assoc.find?_eq_of_perm hnodup (hperm.map _) k

end Lru

namespace Region

variable {m : Lru}

/-- No two elements of a region have the same key. -/
theorem Mirrors.nodup_keys (h : Mirrors p m) : (m.elements.map (·.key)).Nodup := by
  obtain ⟨H, data, listed, hs, hrecords⟩ := h.records
  rw [← m.keys_records, ← hrecords]
  exact hs.intact.sound.coherent.nodup_records data

/-- The name of a region is short, since its files have it in their names. -/
theorem Mirrors.size_cacheName_le (h : Mirrors p m) : Utf8.size m.cacheName ≤ 255 := by
  obtain ⟨H, data, listed, hs, -⟩ := h.records
  obtain ⟨x, hx, hholds⟩ := hs.intact.mounted.dataFile
  have hshort := hholds.lodged.short
  rw [hx, Config.dataName, h.cacheName, Utf8.size, Utf8.encode, String.toList_append,
    List.flatMap_append, List.length_append] at hshort
  exact (Nat.le_add_right _ _).trans hshort

/-- A call of a region whose files do not fail does what the map says. -/
theorem Mirrors.call (h : Mirrors p m) (call : Call α)
    (hserved : (Event.called call (call.perform.result p).1).IsServed)
    (hfits : ∀ e ∈ (Event.called call (call.perform.result p).1).put?,
      e.encode.length ≤ Slot.maxLength) :
    ∃ a q, call.perform.result p = (.ok a, q) ∧ m.Answers call a ∧ Mirrors q (m.after call) := by
  obtain ⟨m', hstep, hq⟩ := mirrors_call h call hserved
  obtain ⟨a, ha, hanswers, rfl⟩ := hstep.of_called hfits
  exact ⟨a, (call.perform.result p).2, Prod.ext ha rfl, hanswers, hq⟩

end Region

namespace Http

/-- The elements of the map are those that the two maps need. -/
structure Keeps (c : Config) (m : Lru) (maps : Maps) : Prop where
  cacheName : m.cacheName = c.cacheName
  capacity : m.capacity = c.maxKeys
  elements : m.elements.Perm (maps.elements c.cacheName)

/-- The region has what the maps have, and nothing else. -/
def Shows (c : Config) (p : World) (maps : Maps) : Prop :=
  ∃ m : Lru, Mirrors p m ∧ Keeps c m maps

namespace Keeps

variable {m m' : Lru} {maps : Maps}

theorem find?_eq (h : Keeps c m maps) (hnodup : (m.elements.map (·.key)).Nodup) (k : Key) :
    m.find? k = maps.element? c.cacheName k := by
  rw [Lru.find?_eq_of_perm hnodup h.elements, Maps.find?_elements]

theorem length_eq (h : Keeps c m maps) : m.elements.length = maps.size := by
  rw [h.elements.length_eq, Maps.length_elements]

/-- The order of the elements and the counters do not matter. -/
theorem congr (h : Keeps c m maps) (hname : m'.cacheName = m.cacheName)
    (hcap : m'.capacity = m.capacity) (helements : m'.elements.Perm m.elements) :
    Keeps c m' maps :=
  ⟨hname.trans h.cacheName, hcap.trans h.capacity, helements.trans h.elements⟩

theorem countRead (h : Keeps c m maps) (k : Key) : Keeps c (m.countRead k) maps := by
  unfold Lru.countRead
  split <;> exact h.congr rfl rfl (.refl _)

theorem put (h : Keeps c m maps) (r : SetRequest) (now : Int64)
    (hroom : (maps.put r now).size ≤ c.maxKeys) :
    Keeps c (m.put (r.toElement c.cacheName now)) (maps.put r now) := by
  have hput := maps.elements_put r now c.cacheName
  have hperm := (h.elements.filter (·.key ≠ r.target c.cacheName)).append_right
    [r.toElement c.cacheName now]
  have hlen : (m.elements.filter (·.key ≠ r.target c.cacheName) ++
      [r.toElement c.cacheName now]).length ≤ m.capacity := by
    rw [hperm.length_eq, ← hput.length_eq, Maps.length_elements, h.capacity]
    exact hroom
  refine ⟨h.cacheName, h.capacity, ?_⟩
  show (newest m.capacity (m.elements.filter (·.key ≠ r.target c.cacheName) ++
    [r.toElement c.cacheName now])).Perm _
  rw [newest_of_length_le hlen]
  exact hperm.trans hput.symm

/-- What is left of both maps after a removal: `f` says which names stay, and `g` which attributes. -/
theorem without (h : Keeps c m maps) {x : DiskTier.Target} {f : String → Bool}
    {g : String × String → Bool} (hf : ∀ n, f n ↔ ¬ x.Matches (.name n))
    (hg : ∀ a, g a ↔ ¬ x.Matches (Maps.attributeKey c.cacheName a)) :
    Keeps c (m.without x) { names := maps.names.filter (f ·.1),
                            attributes := maps.attributes.filter (g ·.1) } := by
  have hfilter := maps.filter_elements (p := fun k => ¬ x.Matches k) (f := f) (g := g) c.cacheName
    (fun n => by rw [Bool.eq_iff_iff, hf, decide_eq_true_iff])
    fun a => by rw [Bool.eq_iff_iff, hg, decide_eq_true_iff]
  exact ⟨h.cacheName, h.capacity, hfilter ▸ h.elements.filter _⟩

/-- The names that a name denotes go, and no attribute does. -/
theorem delete (h : Keeps c m maps) (n : String) (now : Int64) :
    Keeps c (m.without (.key (.name n))) (maps.after now (.delete n)) := by
  have hleft := h.without (x := .key (.name n)) (f := (!Maps.denotes n ·)) (g := fun _ => true)
    (fun other => by simp [← Maps.denotes_iff])
    fun a => iff_of_true rfl (Target.not_matches_attribute n _ a.2)
  rwa [List.filter_true] at hleft

/-- The attributes of a group go, and no name does. -/
theorem deleteGroup (h : Keeps c m maps) (g : String) (now : Int64) :
    Keeps c (m.without (.group { cacheName := c.cacheName, groupName := g }))
      (maps.after now (.deleteGroup g)) := by
  have hleft := h.without (x := .group { cacheName := c.cacheName, groupName := g })
    (f := fun _ => true) (g := (·.1 ≠ g)) (fun n => by simp [Target.matches_group_iff])
    fun a => by simp [Target.matches_group_iff, Maps.attributeKey]
  rwa [List.filter_true] at hleft

theorem clear (h : Keeps c m maps) : Keeps c { m with elements := [] } {} :=
  ⟨h.cacheName, h.capacity, .refl _⟩

/-- A key of the map is one that has something in the maps. -/
theorem exists_element_iff (h : Keeps c m maps) (P : Key → Prop) :
    (∃ e ∈ m.elements, P e.key) ↔ ∃ k, P k ∧ (maps.element? c.cacheName k).isSome := by
  rw [← maps.exists_element_iff]
  exact exists_congr fun e => and_congr_left' h.elements.mem_iff

theorem has_name_iff (h : Keeps c m maps) (n : String) :
    m.Has (.key (.name n)) ↔ ∃ other, Maps.denotes n other ∧ (maps.name? other).isSome := by
  rw [Lru.Has, h.exists_element_iff]
  constructor
  · rintro ⟨k, hk, hsome⟩
    rcases k with other | ⟨g, a⟩
    · rw [Maps.element?, Option.isSome_map] at hsome
      exact ⟨other, Maps.denotes_iff.2 hk, hsome⟩
    · exact absurd hk (Target.not_matches_attribute n g a)
  · rintro ⟨other, hdenotes, hsome⟩
    refine ⟨.name other, Maps.denotes_iff.1 hdenotes, ?_⟩
    rw [Maps.element?, Option.isSome_map]
    exact hsome

/-- The attributes of a group are those that the maps have for it. -/
theorem attribute_iff (h : Keeps c m maps) (g n : String) :
    (∃ e ∈ m.elements, e.key = .attribute { cacheName := m.cacheName, groupName := g } n) ↔
      (maps.attribute? g n).isSome := by
  rw [h.exists_element_iff (· = _), h.cacheName]
  simp [Maps.element?]

theorem has_group_iff (h : Keeps c m maps) (g : String) :
    m.Has (.group { cacheName := c.cacheName, groupName := g }) ↔
      ∃ n, (maps.attribute? g n).isSome := by
  simp only [Lru.Has, Target.matches_group_iff, ← h.attribute_iff, h.cacheName]
  constructor
  · rintro ⟨e, he, n, hn⟩
    exact ⟨n, e, he, hn⟩
  · rintro ⟨n, e, he, hn⟩
    exact ⟨e, he, n, hn⟩

end Keeps

/-! ### Commands -/

section Commands

variable {m : Lru} {maps : Maps} {ctx : Context}

/-- What the maps have for a key is what a read of it shows. -/
theorem isReadOf_reply {key : Key} (name : String) (stored : Option Stored) :
    Response.IsReadOf (match stored.map (·.element c.cacheName key) with
      | some e => .success (.ofElement name e)
      | none => .ofError (.notFound key.text)) name key.text stored := by
  cases stored with
  | none => exact ⟨iff_of_true rfl rfl, nofun, fun _ => ⟨rfl, rfl⟩⟩
  | some s =>
    have hcode : Status.ok.code ≠ 404 := by decide
    refine ⟨iff_of_false hcode nofun, ?_, nofun⟩
    rintro _ ⟨⟩
    refine ⟨rfl, ?_⟩
    show some (Body.ofElement name (s.element c.cacheName key)) = _
    rw [Body.ofElement, Stored.element, Utf8.decodeLossy_encode]
    cases s.maxLife <;> rfl

theorem isRemovalOf_removal (name : String) {any : Bool} {matched : Prop} (h : any ↔ matched) :
    (removal name any).IsRemovalOf name matched := by
  cases any with
  | true =>
    have hmatched := h.1 rfl
    have hcode : Status.ok.code ≠ 404 := by decide
    exact ⟨iff_of_false hcode (not_not_intro hmatched), fun _ => ⟨rfl, rfl⟩,
      fun hnot => absurd hmatched hnot⟩
  | false =>
    have hnot : ¬ matched := fun hmatched => Bool.false_ne_true (h.2 hmatched)
    exact ⟨iff_of_true rfl hnot, fun hmatched => absurd hmatched hnot, fun _ => ⟨rfl, rfl⟩⟩

/-- A call that stores nothing has no record that could be too long. -/
theorem fits_of_put?_eq_none {e : Event} (h : e.put? = none) :
    ∀ element ∈ e.put?, element.encode.length ≤ Slot.maxLength := by
  intro element helement
  rw [h] at helement
  cases helement

/-- What a call that is carried out leads to. -/
theorem carryOut_call (hm : Mirrors p m) {call : Call α} {reply : α → Response}
    (hserved : (Plan.call call reply).IsServed p)
    (hfits : ∀ e ∈ (Event.called call (call.perform.result p).1).put?,
      e.encode.length ≤ Slot.maxLength) :
    ∃ a q, (Plan.call call reply).carryOut p = (reply a, q) ∧ m.Answers call a ∧
      Mirrors q (m.after call) := by
  obtain ⟨a, q, hr, hanswers, hq⟩ := hm.call call hserved hfits
  refine ⟨a, q, ?_, hanswers, hq⟩
  rw [Plan.call, Plan.carryOut, hr]

theorem shows_get (hm : Mirrors p m) (hk : Keeps c m maps) {key : Key} {name : String}
    {o : Option Stored} (ho : maps.element? c.cacheName key = o.map (·.element c.cacheName key))
    (hserved : (planGet key name).IsServed p) :
    ((planGet key name).carryOut p).1.IsReadOf name key.text o ∧
      Shows c ((planGet key name).carryOut p).2 maps := by
  unfold planGet at hserved ⊢
  obtain ⟨found, q, hr, hanswers, hq⟩ := carryOut_call hm hserved (fits_of_put?_eq_none rfl)
  have hfound : found = o.map (·.element c.cacheName key) := by
    rw [← ho, ← hk.find?_eq hm.nodup_keys]
    exact hanswers
  rw [hr, hfound]
  exact ⟨isReadOf_reply name o, _, hq, hk.countRead key⟩

/-- A removal tells whether something matched, and leaves what is kept for `left`. -/
theorem shows_removal (hm : Mirrors p m) {x : DiskTier.Target} (name : String) {left : Maps}
    (hleft : Keeps c (m.without x) left)
    (hserved : (Plan.call x.call (removal name)).IsServed p) :
    ((Plan.call x.call (removal name)).carryOut p).1.IsRemovalOf name (m.Has x) ∧
      Shows c ((Plan.call x.call (removal name)).carryOut p).2 left := by
  obtain ⟨removed, q, hr, hanswers, hq⟩ := carryOut_call hm hserved
    (fits_of_put?_eq_none (by cases x <;> rfl))
  rw [m.answers_removal] at hanswers
  rw [m.after_removal] at hq
  rw [hr]
  exact ⟨isRemovalOf_removal name hanswers, _, hq, hleft⟩

theorem plan_set (ctx : Context) {r : SetRequest} (h : r.Valid) :
    (Command.set r).plan ctx = .call (.put (r.toElement ctx.cacheName ctx.now)) fun () =>
      .success (.stored r.key) := by
  rw [Command.plan, (r.problem?_eq_none_iff).2 h]

/-- A problem turns a request down for what its message says. -/
theorem turnedDown_of_problem {r : SetRequest} {problem : SetRequest.Problem}
    (h : r.problem? = some problem) : r.TurnedDown problem.message := by
  unfold SetRequest.problem? at h
  split_ifs at h with hempty hlong
  · cases h
    exact .emptyKey (String.isEmpty_iff.1 hempty)
  · cases h
    exact .longKey hlong
  · have hkey := (SetRequest.isName_iff r.key).2 ⟨hempty, hlong⟩
    cases hg : r.group with
    | none =>
      rw [hg] at h
      cases h
    | some g =>
      simp only [hg] at h
      split_ifs at h with hempty hlong
      · cases h
        exact .emptyGroup hkey (hg.trans (congrArg some (String.isEmpty_iff.1 hempty)))
      · cases h
        exact .longGroup hkey hg hlong

/-- A request that is not valid is turned down without the region. -/
theorem plan_set_of_not_valid (ctx : Context) {r : SetRequest} (h : ¬ r.Valid) :
    ∃ reason, r.TurnedDown reason ∧
      (Command.set r).plan ctx = .answer (.ofError (.invalidRequest reason)) := by
  cases hproblem : r.problem? with
  | none => exact absurd ((r.problem?_eq_none_iff).1 hproblem) h
  | some problem =>
    refine ⟨problem.message, turnedDown_of_problem hproblem, ?_⟩
    rw [Command.plan, hproblem]

/-- A command is answered as the maps answer it, and changes the region as it changes them. -/
theorem Shows.command (h : Shows c p maps) {cmd : Command} (hname : ctx.cacheName = c.cacheName)
    (halive : ctx.alive) (hserved : (cmd.plan ctx).IsServed p)
    (hfits : ∀ r, cmd = .set r → r.Valid →
      (r.toElement c.cacheName ctx.now).encode.length ≤ Slot.maxLength)
    (hroom : (maps.after ctx.now cmd).size ≤ c.maxKeys) :
    maps.Answers c.cacheName ((cmd.plan ctx).carryOut p).1 cmd ∧
      Shows c ((cmd.plan ctx).carryOut p).2 (maps.after ctx.now cmd) := by
  obtain ⟨m, hm, hk⟩ := h
  obtain ⟨cacheName, alive, now, timestamp⟩ := ctx
  have hifAlive : ∀ {plan}, Plan.ifAlive ⟨cacheName, alive, now, timestamp⟩ plan = plan :=
    if_pos halive
  subst hname
  cases cmd with
  | set r =>
    by_cases hvalid : r.Valid
    · -- the record fits and nothing has to make room for it, so it is stored
      rw [Maps.after, if_pos hvalid] at hroom ⊢
      rw [plan_set _ hvalid] at hserved ⊢
      obtain ⟨-, q, hr, -, hq⟩ := carryOut_call hm hserved (by
        rintro e ⟨⟩
        exact hfits r rfl hvalid)
      rw [hr]
      exact ⟨⟨fun _ => ⟨rfl, rfl⟩, fun hnot => absurd hvalid hnot⟩, _, hq, hk.put r now hroom⟩
    · obtain ⟨reason, hreason, hplan⟩ := plan_set_of_not_valid ⟨_, alive, now, timestamp⟩ hvalid
      rw [hplan, Maps.after, if_neg hvalid]
      exact ⟨⟨fun h => absurd h hvalid, fun _ => ⟨reason, hreason, rfl, rfl⟩⟩, m, hm, hk⟩
  | get n =>
    rw [Command.plan, hifAlive] at hserved ⊢
    exact shows_get hm hk rfl hserved
  | getAttribute g n =>
    rw [Command.plan, hifAlive] at hserved ⊢
    exact shows_get hm hk (if_pos rfl) hserved
  | delete n =>
    rw [Command.plan, hifAlive] at hserved ⊢
    have hremoval := shows_removal hm n (hk.delete n now) hserved
    rw [hk.has_name_iff] at hremoval
    exact hremoval
  | groupKeys g =>
    rw [Command.plan, hifAlive] at hserved ⊢
    obtain ⟨keys, q, hr, hanswers, hq⟩ := carryOut_call hm hserved (fits_of_put?_eq_none rfl)
    obtain ⟨-, hmem⟩ : m.Lists g keys := hanswers
    rw [hr]
    -- the answer sorts the names again, which changes nothing
    refine ⟨⟨Text.sortedDistinct keys, Text.pairwise_sortedDistinct _, fun n => ?_, rfl, rfl⟩, m,
      hq, hk⟩
    rw [Text.mem_sortedDistinct, hmem, hk.attribute_iff]
  | deleteGroup g =>
    rw [Command.plan, hifAlive] at hserved ⊢
    have hremoval := shows_removal hm g (hk.deleteGroup g now) hserved
    rw [hk.has_group_iff] at hremoval
    exact hremoval
  | deleteAll =>
    rw [Command.plan] at hserved ⊢
    obtain ⟨-, q, hr, -, hq⟩ := carryOut_call hm hserved (fits_of_put?_eq_none rfl)
    rw [hr]
    exact ⟨⟨rfl, rfl⟩, _, hq, hk.clear⟩

end Commands

end Http

end DiskTier
