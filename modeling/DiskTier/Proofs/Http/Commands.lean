import DiskTier.Http.Serve
import DiskTier.Proofs.Codec.Size
import Mathlib

/-!
# Commands

What a client says with a request, once its path and its body have been read: `Request.command?`.
The plan for a request is that of its command (`plan_of_command?`); a request that says no command
changes nothing that is stored (`quiet_of_no_command`).
-/

namespace DiskTier

/-- A call that leaves everything that is stored as it is. -/
def Call.IsQuiet {α : Type} : Call α → Prop
  | .get _ | .groupKeys _ | .saveKeys | .size | .stats | .requestCompaction => True
  | .put _ | .remove _ | .removeGroup _ | .reset => False

namespace Http

/-- What the keyed requests say. -/
inductive Command where
  | set (request : SetRequest)
  | get (name : String)
  | getAttribute (group name : String)
  | delete (name : String)
  | groupKeys (group : String)
  | deleteGroup (group : String)
  | deleteAll
  deriving DecidableEq

/-! ### What a request says -/

/-- What a body asks to store, if it is announced as JSON, is not too long and can be read. -/
def Request.setRequest? (r : Request) : Option SetRequest :=
  if r.contentType.any MediaType.announcesJson ∧ r.body.length ≤ maxBodySize then
    (SetRequest.reader.front r.body).toOption
  else none

def Target.command? (r : Request) : Target → Option Command
  | .set => r.setRequest?.map .set
  | .get k => (Percent.decode? k).map .get
  | .groupAttribute g a => do pure (.getAttribute (← Percent.decode? g) (← Percent.decode? a))
  | .delete k => (Percent.decode? k).map .delete
  | .groupKeys g => (Percent.decode? g).map .groupKeys
  | .group g => (Percent.decode? g).map .deleteGroup
  | .all => some .deleteAll
  | .compaction | .stats | .health => none

/-- The command that a request says with the method of its target. -/
def Request.command? (r : Request) : Option Command := do
  let t ← Target.ofUri r.uri
  if t.method = r.method then t.command? r else none

/-! ### What can be stored -/

namespace SetRequest

/-- A name is acceptable if it is not empty and has at most 256 bytes. -/
def IsName (name : String) : Prop := 1 ≤ Utf8.size name ∧ Utf8.size name ≤ 256

instance (name : String) : Decidable (IsName name) := inferInstanceAs (Decidable (_ ∧ _))

/-- The key and the group, if there is one, are acceptable names. -/
def Valid (r : SetRequest) : Prop := IsName r.key ∧ ∀ g ∈ r.group, IsName g

instance (r : SetRequest) : Decidable r.Valid := inferInstanceAs (Decidable (_ ∧ _))

theorem isEmpty_iff_size (s : String) : s.isEmpty ↔ Utf8.size s = 0 := by
  have hchars := Utf8.length_le_size s
  have hsize := Utf8.size_le s
  rw [String.isEmpty_iff, ← String.toList_eq_nil_iff, ← List.length_eq_zero_iff]
  omega

theorem isName_iff (name : String) :
    IsName name ↔ ¬ name.isEmpty ∧ ¬ maxNameLength < Utf8.size name := by
  rw [isEmpty_iff_size, IsName, maxNameLength]
  omega

/-- A request has no problem exactly if its names are acceptable. -/
theorem problem?_eq_none_iff (r : SetRequest) : r.problem? = none ↔ r.Valid := by
  unfold problem? Valid
  rw [isName_iff]
  split_ifs with hempty hlong
  · simp [hempty]
  · simp [hlong]
  · cases r.group with
    | none => simp [hempty, hlong]
    | some g =>
      simp only [Option.mem_some_iff, forall_eq', isName_iff]
      split_ifs <;> simp_all

/-- The key under which a valid request stores is short. -/
theorem Valid.size_target_le {r : SetRequest} (h : r.Valid) (cacheName : String) :
    (r.target cacheName).size ≤ Utf8.size cacheName + 512 := by
  obtain ⟨hkey, hgroup⟩ := h
  have hle := hkey.2
  unfold target
  cases hg : r.group with
  | none =>
    show Utf8.size r.key ≤ _
    omega
  | some g =>
    have hgle := (hgroup g hg).2
    show Utf8.size cacheName + Utf8.size g + Utf8.size r.key ≤ _
    omega

end SetRequest

theorem Request.setRequest?_eq_some_iff {r : Request} {set : SetRequest} :
    r.setRequest? = some set ↔ (r.contentType.any MediaType.announcesJson ∧
      r.body.length ≤ maxBodySize) ∧ SetRequest.reader.front r.body = .ok set := by
  unfold setRequest?
  split_ifs with hbody
  · cases SetRequest.reader.front r.body <;> simp [Except.toOption, hbody]
  · simp [hbody]

theorem Request.setRequest?_of_command? {r : Request} {set : SetRequest}
    (h : r.command? = some (.set set)) : r.setRequest? = some set := by
  obtain ⟨t, -, h⟩ := Option.bind_eq_some_iff.1 h
  split at h
  · cases t with
    | set => simpa [Target.command?] using h
    | groupAttribute g a => simp [Target.command?, Option.bind_eq_some_iff] at h
    | _ => simp [Target.command?] at h
  · cases h

/-- Whatever a request asks to store fits a slot. -/
theorem Request.fits_slot {r : Request} {set : SetRequest} (h : r.command? = some (.set set))
    (hset : set.Valid) {cacheName : String} (hname : Utf8.size cacheName ≤ 255) (now : Int64) :
    (set.toElement cacheName now).encode.length ≤ Slot.maxLength := by
  obtain ⟨⟨-, hbody⟩, hread⟩ := Request.setRequest?_eq_some_iff.1 (setRequest?_of_command? h)
  have hkey := hset.size_target_le cacheName
  exact SetRequest.fits_slot hread hbody hname (by omega)

/-! ### The plan of a command -/

namespace Command

open Plan

/-- How a command is served. -/
def plan (c : Context) : Command → Plan
  | .set request =>
    match request.problem? with
    | some p => .answer (.ofError (.invalidRequest p.message))
    | none =>
      call (.put (request.toElement c.cacheName c.now)) fun () => .success (.stored request.key)
  | .get n => ifAlive c (planGet (.name n) n)
  | .getAttribute g n =>
    ifAlive c (planGet (.attribute { cacheName := c.cacheName, groupName := g } n) n)
  | .delete n => ifAlive c (call (.remove (.name n)) (removal n))
  | .groupKeys g => ifAlive c (call (.groupKeys g) fun keys => .success (.groupKeys g keys))
  | .deleteGroup g =>
    ifAlive c (call (.removeGroup { cacheName := c.cacheName, groupName := g }) (removal g))
  | .deleteAll => call .reset fun () => .success (.removed c.cacheName)

end Command

variable {c : Context} {r : Request} {cmd : Command}

theorem planTarget_of_command? {t : Target} (h : t.command? r = some cmd) :
    planTarget c r t = cmd.plan c := by
  cases t with
  | set =>
    obtain ⟨set, hset, rfl⟩ := Option.map_eq_some_iff.1 h
    obtain ⟨⟨htype, hlen⟩, hread⟩ := Request.setRequest?_eq_some_iff.1 hset
    simp only [planTarget, planSet, htype, Nat.not_lt.2 hlen, hread, Bool.not_true,
      Bool.false_eq_true, if_false]
    rfl
  | groupAttribute g a =>
    obtain ⟨group, hgroup, h⟩ := Option.bind_eq_some_iff.1 h
    obtain ⟨name, hname, h⟩ := Option.bind_eq_some_iff.1 h
    cases h
    simp only [planTarget, Plan.withText, hgroup, hname]
    rfl
  | all =>
    cases h
    rfl
  | compaction | stats | health => cases h
  | _ =>
    obtain ⟨name, hname, rfl⟩ := Option.map_eq_some_iff.1 h
    simp only [planTarget, Plan.withText, hname]
    rfl

/-- A request is served as the command that it says. -/
theorem plan_of_command? (h : r.command? = some cmd) : plan c r = cmd.plan c := by
  obtain ⟨t, ht, h⟩ := Option.bind_eq_some_iff.1 h
  split at h
  · next hmethod =>
    -- no target is served by `OPTIONS` or `HEAD`
    have hmethods : r.method ≠ "OPTIONS" ∧ r.method ≠ "HEAD" := by
      rw [← hmethod]
      cases t <;> simp [Target.method]
    unfold plan
    rw [if_neg hmethods.1, ht]
    simp only [Target.allows, hmethod, decide_true, Bool.true_or, Bool.not_true, hmethods.2,
      if_false]
    exact planTarget_of_command? h
  · cases h

/-! ### Requests that say no command -/

/-- A plan that leaves everything that is stored as it is. -/
def Plan.IsQuiet : Plan → Prop
  | .answer _ => True
  | .ask call _ => call.IsQuiet

namespace Plan

theorem isQuiet_map {f : Response → Response} {p : Plan} : (p.map f).IsQuiet ↔ p.IsQuiet := by
  cases p <;> rfl

theorem IsQuiet.ifAlive {c : Context} {p : Plan} (h : p.IsQuiet) : (ifAlive c p).IsQuiet := by
  unfold Plan.ifAlive
  split
  · exact h
  · trivial

theorem isQuiet_withText {s : Bytes} {k : String → Plan}
    (h : ∀ text, Percent.decode? s = some text → (k text).IsQuiet) : (withText s k).IsQuiet := by
  unfold withText
  split
  · next text htext => exact h text htext
  · trivial

end Plan

/-- The targets that are served by `GET` only read. -/
theorem isQuiet_planTarget_get {t : Target} (h : t.method = "GET") :
    (planTarget c r t).IsQuiet := by
  cases t with
  | get k => exact Plan.isQuiet_withText fun _ _ => Plan.IsQuiet.ifAlive trivial
  | groupKeys g => exact Plan.isQuiet_withText fun _ _ => Plan.IsQuiet.ifAlive trivial
  | groupAttribute g a =>
    exact Plan.isQuiet_withText fun _ _ => Plan.isQuiet_withText fun _ _ =>
      Plan.IsQuiet.ifAlive trivial
  | stats | health => trivial
  | _ => simp [Target.method] at h

theorem isQuiet_planTarget {t : Target} (h : t.command? r = none) :
    (planTarget c r t).IsQuiet := by
  cases t with
  | set =>
    have hset : r.setRequest? = none := Option.map_eq_none_iff.1 h
    show (planSet c r).IsQuiet
    unfold planSet
    split_ifs with htype hlong
    · trivial
    · trivial
    · split
      · trivial
      · next set hread =>
        have hsome := Request.setRequest?_eq_some_iff.2
          ⟨⟨by simpa using htype, Nat.le_of_not_lt hlong⟩, hread⟩
        rw [hset] at hsome
        cases hsome
  | get | groupKeys | groupAttribute | stats | health => exact isQuiet_planTarget_get rfl
  | compaction => exact Plan.IsQuiet.ifAlive trivial
  | all => cases h
  | delete k | group k =>
    refine Plan.isQuiet_withText fun text htext => ?_
    simp [Target.command?, htext] at h

/-- A request that says no command leaves everything that is stored as it is. -/
theorem quiet_of_no_command (h : r.command? = none) : (plan c r).IsQuiet := by
  unfold plan
  by_cases hoptions : r.method = "OPTIONS"
  · rw [if_pos hoptions]
    trivial
  · rw [if_neg hoptions]
    cases ht : Target.ofUri r.uri with
    | none => trivial
    | some t =>
      simp only
      split_ifs with hallows hhead
      · trivial
      · -- the head of a request is that of a `GET`
        rw [Plan.isQuiet_map]
        refine isQuiet_planTarget_get ?_
        rw [Target.allows, hhead] at hallows
        cases t <;> simp_all [Target.method]
      · refine isQuiet_planTarget ?_
        rw [Request.command?, ht] at h
        have hmethod : t.method = r.method := by
          simpa [Target.allows, hhead] using hallows
        simpa [hmethod] using h

end Http

end DiskTier
