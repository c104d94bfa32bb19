import DiskTier.Proofs.Http.Surface
import DiskTier.Proofs.Http.Writing
import Mathlib

/-!
# Conversations

Requests that come one after the other. Whatever they say, a region with room enough for what they
store answers them as the two maps do that they make: a request leaves a region that shows the maps
as the request changes them (`Shows.serve`), and so does every conversation that began with an empty
region (`serves_two_maps`).
-/

namespace DiskTier

open Region (World Event Mirrors Undisturbed OpenedEmpty recordOf? opened? roomFor)

variable {c : Config} {p q : World}

theorem Assoc.length_put_le {α β : Type} [DecidableEq α] (m : List (α × β)) (a : α) (b : β) :
    (Assoc.put m a b).length ≤ m.length + 1 := by
  rw [Assoc.put, Assoc.erase_eq_filter, List.length_cons]
  exact Nat.succ_le_succ (List.length_filter_le _ _)

/-! ### Between requests -/

/-- An event that leaves everything that is stored as it is. -/
def Region.Event.IsQuiet : Event → Prop
  | .called call _ => call.IsQuiet
  | .looked _ _ | .held _ => True
  | .died | .shutDown | .reopened _ => False

namespace Lru

variable {m m' : Lru}

theorem elements_countRead (m : Lru) (k : Key) : (m.countRead k).cacheName = m.cacheName ∧
    (m.countRead k).capacity = m.capacity ∧ (m.countRead k).elements.Perm m.elements := by
  unfold countRead
  split <;> exact ⟨rfl, rfl, .refl _⟩

/-- A quiet event may change the order of the elements and the counters, but nothing else. -/
theorem Step.of_quiet {e : Event} (h : Step m e m') (he : e.IsQuiet) :
    m'.cacheName = m.cacheName ∧ m'.capacity = m.capacity ∧ m'.elements.Perm m.elements := by
  cases h with
  | allowed h =>
    cases e with
    | called call answer =>
      cases answer with
      | error error => exact h.elim
      | ok answer =>
        cases call with
        | get k => exact m.elements_countRead k
        | groupKeys | saveKeys | size | stats | requestCompaction => exact ⟨rfl, rfl, .refl _⟩
        | put | remove | removeGroup | reset => exact he.elim
    | looked k answer => exact m.elements_countRead k
    | held installed => exact ⟨rfl, rfl, .refl _⟩
    | _ => exact he.elim
  | refused => exact he.elim
  | installed hperm => exact ⟨rfl, rfl, hperm⟩

end Lru

namespace Http

/-- What is quiet does not touch the maps. -/
theorem Shows.quiet {maps : Maps} {e : Event} (h : Shows c p maps) (he : Undisturbed p e q)
    (hquiet : e.IsQuiet) : Shows c q maps := by
  obtain ⟨m, hm, hk⟩ := h
  obtain ⟨m', hstep, hq⟩ := hm.exists_step he
  obtain ⟨hname, hcap, helements⟩ := hstep.of_quiet hquiet
  exact ⟨m', hq, hk.congr hname hcap helements⟩

theorem Shows.carryOut_quiet {maps : Maps} {plan : Plan} (h : Shows c p maps)
    (hserved : plan.IsServed p) (hquiet : plan.IsQuiet) : Shows c (plan.carryOut p).2 maps := by
  cases plan with
  | answer response => exact h
  | ask call reply =>
    exact h.quiet (e := .called call (call.perform.result p).1)
      ⟨.called call p, hserved, fun _ heq => nomatch heq⟩ hquiet

theorem Shows.of_openedEmpty (h : OpenedEmpty c p) : Shows c p {} :=
  ⟨.empty c, .of_openedEmpty h, rfl, rfl, .refl _⟩

/-! ### Conversations -/

/-- A request that was served, and when. -/
structure Exchange where
  now : Int64
  request : Request
  response : Response

/-- Requests that are served one after the other. What else happens to the region between two of them
is quiet: a pass takes the lock, keys are saved, elements are read. Nothing that is written is
refused. -/
inductive Conversation : World → List Exchange → World → Prop where
  | nil (p : World) : Conversation p [] p
  | asked {p q : World} {exchanges : List Exchange} (h : Conversation p exchanges q) (now : Int64)
      (timestamp : String) (r : Request) (hserved : (planAt now timestamp r q).IsServed q) :
      Conversation p (exchanges ++ [⟨now, r, (serve now timestamp r q).1⟩])
        (serve now timestamp r q).2
  | beside {p q q' : World} {exchanges : List Exchange} {e : Event}
      (h : Conversation p exchanges q) (he : Undisturbed q e q') (hquiet : e.IsQuiet) :
      Conversation p exchanges q'

namespace Maps

/-- The maps after an exchange. -/
def next (m : Maps) (e : Exchange) : Maps :=
  match e.request.command? with
  | some cmd => m.after e.now cmd
  | none => m

/-- The maps after a conversation that began with empty ones. -/
def afterAll (exchanges : List Exchange) : Maps := exchanges.foldl next {}

theorem size_put_le (m : Maps) (r : SetRequest) (now : Int64) : (m.put r now).size ≤ m.size + 1 := by
  unfold put size
  cases r.group with
  | none =>
    have hnames := Assoc.length_put_le m.names r.key ⟨r.value, r.maxLife, now⟩
    simp only
    omega
  | some g =>
    have hattributes := Assoc.length_put_le m.attributes (g, r.key) ⟨r.value, r.maxLife, now⟩
    simp only
    omega

/-- An exchange adds one key at most. -/
theorem size_next_le (m : Maps) (e : Exchange) : (m.next e).size ≤ m.size + 1 := by
  unfold next
  split
  · next cmd _ =>
    cases cmd with
    | set r =>
      rw [after]
      split
      · exact m.size_put_le r e.now
      · exact Nat.le_succ _
    | delete n =>
      have hlen := List.length_filter_le (p := fun q => !denotes n q.1) (l := m.names)
      unfold after size
      simp only
      omega
    | deleteGroup g =>
      have hlen := List.length_filter_le (p := fun q => decide (q.1.1 ≠ g)) (l := m.attributes)
      unfold after size
      simp only
      omega
    | deleteAll => exact Nat.zero_le _
    | get | getAttribute | groupKeys => exact Nat.le_succ _
  · exact Nat.le_succ _

/-- A region with room for as many keys as there are requests has room enough. -/
theorem size_afterAll_le (exchanges : List Exchange) :
    (afterAll exchanges).size ≤ exchanges.length := by
  induction exchanges using List.reverseRecOn with
  | nil => exact Nat.le_refl 0
  | append_singleton exchanges e ih =>
    have hnext := (afterAll exchanges).size_next_le e
    rw [afterAll, List.foldl_append, List.length_append]
    exact hnext.trans (Nat.succ_le_succ ih)

end Maps

variable {maps : Maps} {exchanges : List Exchange}

/-- A request is answered as the maps answer what it says, and changes the region as it changes
them. -/
theorem Shows.serve (h : Shows c p maps) {now : Int64} {timestamp : String} {r : Request}
    {response : Response} (hserved : (planAt now timestamp r p).IsServed p)
    (hroom : (maps.next ⟨now, r, response⟩).size ≤ c.maxKeys) :
    (∀ cmd ∈ r.command?, maps.Answers c.cacheName (Http.serve now timestamp r p).1 cmd) ∧
      Shows c (Http.serve now timestamp r p).2 (maps.next ⟨now, r, response⟩) := by
  unfold Http.serve Maps.next at *
  cases hcmd : r.command? with
  | none => exact ⟨nofun, h.carryOut_quiet hserved (quiet_of_no_command hcmd)⟩
  | some cmd =>
    simp only [hcmd] at hroom
    have ⟨m, hm, hk⟩ := h
    have hname : p.2.config.cacheName = c.cacheName := hm.cacheName.trans hk.cacheName
    -- so the record of whatever the body says fits a slot
    have hshort : Utf8.size c.cacheName ≤ 255 := hk.cacheName ▸ hm.size_cacheName_le
    rw [planAt, plan_of_command? hcmd] at hserved ⊢
    obtain ⟨hanswers, hshows⟩ := h.command hname hm.alive hserved (fun set hset hvalid =>
      Request.fits_slot (hset ▸ hcmd) hvalid hshort now) hroom
    refine ⟨?_, hshows⟩
    rintro _ ⟨⟩
    exact hanswers

/-- Every request of a conversation is answered as the maps answer it that were made before. -/
theorem Conversation.answers (h : Shows c p {}) (hc : Conversation p exchanges q)
    (hroom : ∀ before, before <+: exchanges → (Maps.afterAll before).size ≤ c.maxKeys) :
    (∀ before e, before ++ [e] <+: exchanges → ∀ cmd ∈ e.request.command?,
        (Maps.afterAll before).Answers c.cacheName e.response cmd) ∧
      Shows c q (Maps.afterAll exchanges) := by
  induction hc with
  | nil =>
    refine ⟨fun before e hbefore => ?_, h⟩
    simp at hbefore
  | @asked q exchanges hc now timestamp r hserved ih =>
    obtain ⟨hanswers, hshows⟩ := ih fun before hbefore =>
      hroom before (hbefore.trans (List.prefix_append _ _))
    have hafter : Maps.afterAll (exchanges ++ [⟨now, r, (serve now timestamp r q).1⟩]) =
        (Maps.afterAll exchanges).next ⟨now, r, (serve now timestamp r q).1⟩ := by
      rw [Maps.afterAll, List.foldl_append]
      rfl
    have hsize := hroom _ (List.prefix_refl _)
    rw [hafter] at hsize ⊢
    obtain ⟨hanswer, hshows'⟩ := hshows.serve hserved hsize
    refine ⟨?_, hshows'⟩
    intro before e hbefore
    -- the request is the last one, or one of those before
    rcases List.prefix_concat_iff.1 hbefore with heq | hbefore
    · obtain ⟨rfl, hlast⟩ := List.append_inj' heq rfl
      cases hlast
      exact hanswer
    · exact hanswers before e hbefore
  | beside hc he hquiet ih =>
    obtain ⟨hanswers, hshows⟩ := ih hroom
    exact ⟨hanswers, hshows.quiet he hquiet⟩

/-- A request to store under a name that is not acceptable changes nothing at all. -/
theorem serve_of_not_valid {r : Request} {set : SetRequest} (h : r.command? = some (.set set))
    (hset : ¬ set.Valid) (now : Int64) (timestamp : String) (p : World) :
    (serve now timestamp r p).2 = p := by
  rw [serve, planAt, plan_of_command? h]
  obtain ⟨problem, -, hplan⟩ := plan_set_of_not_valid _ hset
  rw [hplan]
  rfl

/-- Whatever requests come, a region that began empty and has room for everything that they store
answers them as the two maps do, and keeps a record for what is in these and nothing else. A request
to store that is not valid changes nothing at all. Requests can say whatever names there are. -/
theorem serves_two_maps (h : OpenedEmpty c p) (hc : Conversation p exchanges q)
    (hroom : ∀ before, before <+: exchanges → (Maps.afterAll before).size ≤ c.maxKeys) :
    (∀ before e, before ++ [e] <+: exchanges → ∀ cmd ∈ e.request.command?,
        (Maps.afterAll before).Answers c.cacheName e.response cmd) ∧
      (∀ k, recordOf? q k =
        ((Maps.afterAll exchanges).element? c.cacheName k).map Element.encode) ∧
      q.2.size = (Maps.afterAll exchanges).size ∧
      (∀ (r : Request) (set : SetRequest), r.command? = some (.set set) → ¬ set.Valid →
        ∀ now timestamp, (serve now timestamp r q).2 = q) ∧
      ∀ cmd : Command, cmd.IsSayable → cmd.request.command? = some cmd := by
  obtain ⟨hanswers, m, hm, hk⟩ := hc.answers (.of_openedEmpty h) hroom
  refine ⟨hanswers, fun k => ?_, ?_, fun r set hr hset now timestamp =>
    serve_of_not_valid hr hset now timestamp q, fun cmd => Command.command?_request⟩
  · rw [hm.presents.records, hk.find?_eq hm.nodup_keys]
  · obtain ⟨H, data, listed, hs, hrecords⟩ := hm.records
    exact (Region.size_eq hs hrecords).trans hk.length_eq

/-! ### A small conversation -/

/-- Whether the call that a plan leads to succeeds. -/
def Plan.succeeds (p : World) : Plan → Bool
  | .answer _ => true
  | .ask call _ => (call.perform.result p).1.toBool

theorem Plan.isServed_of_succeeds {plan : Plan} (h : plan.succeeds p) : plan.IsServed p := by
  cases plan with
  | answer response => trivial
  | ask call reply =>
    rw [Plan.succeeds] at h
    rw [Plan.IsServed]
    cases hr : (call.perform.result p).1 with
    | error e =>
      rw [hr] at h
      cases h
    | ok a => cases call <;> trivial

/-- Serves requests one after the other, as long as the calls that they lead to succeed. -/
def talk? (p : World) : List Request → Option (List Exchange × World)
  | [] => some ([], p)
  | r :: requests =>
    if (planAt 0 "" r p).succeeds p then do
      let (exchanges, q) ← talk? (serve 0 "" r p).2 requests
      some (⟨0, r, (serve 0 "" r p).1⟩ :: exchanges, q)
    else none

theorem Conversation.of_talk? {requests : List Request} {more : List Exchange} {q' : World}
    (hc : Conversation p exchanges q) (h : talk? q requests = some (more, q')) :
    Conversation p (exchanges ++ more) q' := by
  induction requests generalizing q exchanges more with
  | nil =>
    cases h
    rw [List.append_nil]
    exact hc
  | cons r requests ih =>
    rw [talk?] at h
    split at h
    · next hr =>
      obtain ⟨⟨rest, q''⟩, hrest, hmore⟩ := Option.bind_eq_some_iff.1 h
      cases hmore
      have hasked := hc.asked 0 "" r (Plan.isServed_of_succeeds hr)
      rw [List.append_cons]
      exact ih hasked hrest
    · cases h

/-- Commands about a name and an attribute that are called the same. -/
def namesakes : List Command :=
  [.set ⟨"x:[y", "1", none, some 5⟩, .set ⟨"x:[y", "2", some "g:", none⟩, .set ⟨"", "3", none, none⟩,
    .get "x:[y", .delete "x:", .get "x:[y", .getAttribute "g:" "x:[y", .groupKeys "g:"]

/-- Deleting what is below `x:` leaves the attribute of the group `g:`. -/
theorem serves_namesakes : ∃ (p q : World) (exchanges : List Exchange),
    OpenedEmpty (roomFor 8) p ∧ Conversation p exchanges q ∧
    exchanges.map (·.request.command?) = namesakes.map some ∧
    exchanges.map (·.response.status) =
      [.ok, .ok, .badRequest, .ok, .ok, .notFound, .ok, .ok] ∧
    (∀ before, before <+: exchanges → (Maps.afterAll before).size ≤ 8) ∧
    (∀ before e, before ++ [e] <+: exchanges → ∀ cmd ∈ e.request.command?,
      (Maps.afterAll before).Answers "a" e.response cmd) ∧
    (∀ k, recordOf? q k = ((Maps.afterAll exchanges).element? "a" k).map Element.encode) := by
  have h : (opened? (roomFor 8) .empty).bind (fun p =>
      (talk? p (namesakes.map Command.request)).map fun t =>
        decide (p.2.size = 0 ∧ t.1.map (·.request.command?) = namesakes.map some ∧
          t.1.map (·.response.status) =
            [.ok, .ok, .badRequest, .ok, .ok, .notFound, .ok, .ok])) = some true := by
    decide +kernel
  obtain ⟨p, hp, h⟩ := Option.bind_eq_some_iff.1 h
  obtain ⟨⟨exchanges, q⟩, ht, h⟩ := Option.map_eq_some_iff.1 h
  obtain ⟨hsize, hcommands, hstatus⟩ := of_decide_eq_true h
  have ho := Region.openedEmpty_of_eq FileSystem.empty_healthy hp hsize
  have hc : Conversation p exchanges q := (Conversation.nil (p := p)).of_talk? ht
  have hlen : exchanges.length = 8 := by
    simpa [namesakes] using congrArg List.length hcommands
  have hroom : ∀ before, before <+: exchanges → (Maps.afterAll before).size ≤ 8 := by
    intro before hbefore
    exact (Maps.size_afterAll_le before).trans (hlen ▸ hbefore.length_le)
  obtain ⟨hanswers, hrecords, -⟩ := serves_two_maps ho hc hroom
  exact ⟨p, q, exchanges, ho, hc, hcommands, hstatus, hroom, hanswers, hrecords⟩

end Http

end DiskTier
