import DiskTier.Key
import DiskTier.Proofs.FreeList.Order

/-!
# The free list gives the best slot

Whatever comes and goes, a free list holds the slots that were taken in and have not left since. It
gives away the shortest one that is long enough, and it turns a slot away only if it is full of slots
that are no shorter. A slot leaves it when it is given away, or when it is displaced by a longer one.
-/

namespace DiskTier

namespace FreeList

/-! ### Requests -/

/-- What a free list can be asked to do. -/
inductive Request where
  | release (s : Slot)
  | reserve (least : UInt32)
  /-- The slot of a key that an index has evicted comes. -/
  | evicted (k : Key) (s : Slot)

/-- What comes back. -/
inductive Reply where
  /-- Whether the slot was taken. -/
  | released (taken : Bool)
  | reserved (slot : Option Slot)
  /-- Nobody is told whether the slot was taken. -/
  | noted
  deriving DecidableEq, Repr

def respond (f : FreeList) : Request → Reply × FreeList
  | .release s => let (taken, rest) := f.release s; (.released taken, rest)
  | .reserve least =>
    match f.reserve? least with
    | some (s, rest) => (.reserved (some s), rest)
    | none => (.reserved none, f)
  | .evicted _ s => (.noted, (f.release s).2)

/-- The free list after requests. -/
def after (f : FreeList) : List Request → FreeList
  | [] => f
  | request :: requests => (f.respond request).2.after requests

/-- The slot that a request offers. -/
def Request.offered? : Request → Option Slot
  | .release s => some s
  | .reserve _ => none
  | .evicted _ s => some s

/-! ### What goes in and what comes out -/

/-- The slot that a request brings in, if it brings one. -/
def entering (f : FreeList) (request : Request) : List Slot :=
  (request.offered?.filter fun s => (f.release s).1).toList

/-- The slot that has to go for another one: the latest of the shortest. -/
def displaced? (f : FreeList) (s : Slot) : Option Slot :=
  if f.count < f.capacity then none else f.toList.head?.filter (·.length < s.length)

/-- The slot that is given away or displaced. -/
def leaving (f : FreeList) : Request → List Slot
  | .release s => (f.displaced? s).toList
  | .reserve least => ((f.reserve? least).map (·.1)).toList
  | .evicted _ s => (f.displaced? s).toList

/-- The slots that requests bring in, the first one first. -/
def entered (f : FreeList) : List Request → List Slot
  | [] => []
  | request :: requests => f.entering request ++ (f.respond request).2.entered requests

/-- The slots that are given away or displaced, the first one first. -/
def departed (f : FreeList) : List Request → List Slot
  | [] => []
  | request :: requests => f.leaving request ++ (f.respond request).2.departed requests

/-! ### What a request does -/

/-- How a free list answers the next request. -/
structure BestFit (f : FreeList) : Prop where
  /-- The shortest of the slots that are long enough is given away, and only that one goes. -/
  gives : ∀ least s g, f.reserve? least = some (s, g) →
    s ∈ f.toList ∧ least ≤ s.length ∧ (∀ t ∈ f.toList, least ≤ t.length → s.length ≤ t.length) ∧
      g.toList = f.toList.erase s
  /-- None is given away only if none is long enough. -/
  gives_none : ∀ least, f.reserve? least = none ↔ ∀ t ∈ f.toList, t.length < least
  /-- A slot is taken as long as there is room, and then in place of a shorter one. -/
  takes : ∀ s, (f.release s).1 ↔ f.count < f.capacity ∨ ∃ t ∈ f.toList, t.length < s.length
  /-- The slot that goes for a longer one is a shortest one. -/
  displaces : ∀ s t, f.displaced? s = some t →
    t ∈ f.toList ∧ t.length < s.length ∧ ∀ u ∈ f.toList, t.length ≤ u.length
  /-- What was there and what comes in is there or goes. -/
  flow : ∀ request, (f.toList ++ f.entering request).Perm
    ((f.respond request).2.toList ++ f.leaving request)

variable {f g : FreeList} {s t : Slot} {least : UInt32}

theorem Valid.gives (h : f.Valid) (hr : f.reserve? least = some (s, g)) :
    s ∈ f.toList ∧ least ≤ s.length ∧ (∀ t ∈ f.toList, least ≤ t.length → s.length ≤ t.length) ∧
      g.toList = f.toList.erase s := by
  obtain ⟨before, behind, hlist, hrest, hle, hbefore, hbehind⟩ := h.reserve?_split hr
  refine ⟨hlist ▸ by simp, hle, fun t ht hlong => ?_, ?_⟩
  · rw [hlist, List.mem_append, List.mem_cons] at ht
    rcases ht with ht | rfl | ht
    · exact absurd hlong (hbefore t ht)
    · exact UInt32.le_refl _
    · exact hbehind t ht
  · have hnot : s ∉ before := fun hmem => hbefore s hmem hle
    rw [hrest, hlist, List.erase_append_right _ hnot, List.erase_cons_head]

/-- A list in order has a slot that is shorter if its first one is. -/
theorem Valid.exists_shorter_iff (h : f.Valid) {l : List Slot} (hl : f.toList = t :: l) :
    (∃ u ∈ f.toList, u.length < s.length) ↔ t.length < s.length := by
  have hordered := h.ordered
  rw [hl, List.pairwise_cons] at hordered
  rw [hl]
  constructor
  · rintro ⟨u, hu, hlt⟩
    rcases List.mem_cons.1 hu with rfl | hu
    · exact hlt
    · exact UInt32.lt_of_le_of_lt (hordered.1 u hu) hlt
  · exact fun hlt => ⟨t, List.mem_cons_self, hlt⟩

theorem Valid.takes (h : f.Valid) (s : Slot) :
    (f.release s).1 ↔ f.count < f.capacity ∨ ∃ t ∈ f.toList, t.length < s.length := by
  rw [(h.release_eq s).1, h.count_eq]
  by_cases hroom : f.toList.length < f.capacity
  · simp [offered_of_room hroom, hroom]
  · rcases hl : f.toList with _ | ⟨t, l⟩
    · rw [hl] at hroom
      rw [offered_nil hroom]
      simpa using hroom
    · rw [← hl, h.exists_shorter_iff hl, hl]
      rw [hl] at hroom
      rw [offered_cons hroom, or_iff_right hroom]
      by_cases hle : s.length ≤ t.length
      · simp [hle, UInt32.not_lt.2 hle]
      · simp [hle, UInt32.not_le.1 hle]

theorem Valid.displaces (h : f.Valid) (ht : f.displaced? s = some t) :
    t ∈ f.toList ∧ t.length < s.length ∧ ∀ u ∈ f.toList, t.length ≤ u.length := by
  rw [displaced?] at ht
  split at ht
  · cases ht
  · obtain ⟨hhead, hlt⟩ := Option.filter_eq_some_iff.1 ht
    obtain ⟨l, hl⟩ := List.head?_eq_some_iff.1 hhead
    have hordered := h.ordered
    rw [hl, List.pairwise_cons] at hordered
    rw [hl]
    refine ⟨List.mem_cons_self, by simpa using hlt, fun u hu => ?_⟩
    rcases List.mem_cons.1 hu with rfl | hu
    · exact UInt32.le_refl _
    · exact hordered.1 u hu

/-- An offer brings in the slot or nothing, and what it displaces goes. -/
theorem Valid.release_flow (h : f.Valid) (s : Slot) :
    (f.toList ++ ((some s).filter fun s => (f.release s).1).toList).Perm
      ((f.release s).2.toList ++ (f.displaced? s).toList) := by
  obtain ⟨htaken, hlist⟩ := h.release_eq s
  rw [Option.filter, htaken, hlist, displaced?, h.count_eq]
  by_cases hroom : f.toList.length < f.capacity
  · rw [offered_of_room hroom, if_pos hroom]
    simp only [if_true, Option.toList_some, Option.toList_none, List.append_nil]
    exact (List.perm_append_singleton s f.toList).trans (shelve_perm s f.toList).symm
  · rw [if_neg hroom]
    rcases hl : f.toList with _ | ⟨t, l⟩
    · rw [hl] at hroom
      rw [offered_nil hroom]
      exact .refl _
    · rw [hl] at hroom
      rw [offered_cons hroom, List.head?_cons, Option.filter]
      by_cases hle : s.length ≤ t.length
      · simp [hle, UInt32.not_lt.2 hle]
      · simp only [if_neg hle, if_true, Option.toList_some, UInt32.not_le.1 hle, decide_true]
        refine (List.perm_append_singleton s (t :: l)).trans ?_
        refine (List.Perm.swap t s l).trans ?_
        exact ((shelve_perm s l).symm.cons t).trans (List.perm_append_singleton t _).symm

theorem Valid.flow (h : f.Valid) (request : Request) :
    (f.toList ++ f.entering request).Perm
      ((f.respond request).2.toList ++ f.leaving request) := by
  cases request with
  | release s => exact h.release_flow s
  | evicted k s => exact h.release_flow s
  | reserve least =>
    have hnone : f.entering (.reserve least) = [] := rfl
    rw [hnone, List.append_nil, leaving, respond]
    cases hr : f.reserve? least with
    | none => exact .of_eq (List.append_nil _).symm
    | some p =>
      obtain ⟨s, g⟩ := p
      exact (h.reserve? hr).2.1.trans (List.perm_append_singleton s g.toList).symm

theorem Valid.bestFit (h : f.Valid) : f.BestFit where
  gives _ _ _ := h.gives
  gives_none _ := h.reserve?_eq_none_iff
  takes := h.takes
  displaces _ _ := h.displaces
  flow := h.flow

/-! ### Any number of requests -/

theorem Valid.respond (h : f.Valid) (request : Request) :
    (f.respond request).2.Valid ∧ (f.respond request).2.capacity = f.capacity := by
  cases request with
  | release s => exact ⟨(h.release s).1, (h.release s).2.1⟩
  | evicted k s => exact ⟨(h.release s).1, (h.release s).2.1⟩
  | reserve least =>
    rw [FreeList.respond]
    cases hr : f.reserve? least with
    | none => exact ⟨h, rfl⟩
    | some p => exact ⟨(h.reserve? hr).2.2.1, (h.reserve? hr).2.2.2⟩

theorem Valid.after (h : f.Valid) (requests : List Request) :
    (f.after requests).Valid ∧ (f.after requests).capacity = f.capacity := by
  induction requests generalizing f with
  | nil => exact ⟨h, rfl⟩
  | cons request requests ih =>
    obtain ⟨hvalid, hcap⟩ := h.respond request
    obtain ⟨hvalid', hcap'⟩ := ih hvalid
    exact ⟨hvalid', hcap'.trans hcap⟩

/-- What was there and what came in is there or has gone. -/
theorem Valid.flow_after (h : f.Valid) (requests : List Request) :
    (f.toList ++ f.entered requests).Perm ((f.after requests).toList ++ f.departed requests) := by
  induction requests generalizing f with
  | nil => exact .refl _
  | cons request requests ih =>
    have hfirst := h.flow request
    have hrest := ih (h.respond request).1
    rw [entered, departed, FreeList.after]
    -- each slot is there as often before as after
    rw [List.perm_iff_count] at hfirst hrest ⊢
    intro s
    have hfirst := hfirst s
    have hrest := hrest s
    simp only [List.count_append] at hfirst hrest ⊢
    omega

/-- A slot that goes was there. -/
theorem Valid.mem_of_leaving (h : f.Valid) {request : Request} (hs : s ∈ f.leaving request) :
    s ∈ f.toList := by
  cases request with
  | release t => exact (h.displaces (Option.mem_toList.1 hs)).1
  | evicted k t => exact (h.displaces (Option.mem_toList.1 hs)).1
  | reserve least =>
    obtain ⟨⟨t, g⟩, hr, rfl⟩ := Option.map_eq_some_iff.1 (Option.mem_toList.1 hs)
    exact (h.gives hr).1

/-- Nothing comes in that was not offered. -/
theorem entered_sublist (f : FreeList) (requests : List Request) :
    (f.entered requests).Sublist (requests.filterMap Request.offered?) := by
  induction requests generalizing f with
  | nil => exact .slnil
  | cons request requests ih =>
    rw [entered, entering, List.filterMap_cons]
    cases request.offered? with
    | none => exact ih _
    | some s =>
      rw [Option.filter]
      split
      · exact (ih _).cons_cons s
      · exact (ih _).cons s

/-- **A free list is a bounded store that gives the best fit.** After any requests, its buckets are
in order, none is empty, and each has the slots of its own length; the count is the number of slots
that are held, no more than there is room for, and the free bytes are theirs. The next request is
answered as `BestFit` says. The slots that came in are those that are there and those that were given
away or displaced, and all of them had been offered; so a slot that goes next has come in more often
than it has gone. -/
theorem is_best_fit (capacity : Nat) (requests : List Request) :
    let f := (empty capacity).after requests
    f.Valid ∧ f.capacity = capacity ∧ f.freeBytes = (f.toList.map (·.length.toNat)).sum ∧
      f.BestFit ∧
      ((empty capacity).entered requests).Perm (f.toList ++ (empty capacity).departed requests) ∧
      ((empty capacity).entered requests).Sublist (requests.filterMap Request.offered?) ∧
      ∀ request, ∀ s ∈ f.leaving request, ((empty capacity).departed requests).count s <
        ((empty capacity).entered requests).count s := by
  intro f
  obtain ⟨hvalid, hcap⟩ := (empty_valid capacity).after requests
  have hflow : ((empty capacity).entered requests).Perm
      (f.toList ++ (empty capacity).departed requests) := (empty_valid capacity).flow_after requests
  refine ⟨hvalid, hcap, hvalid.freeBytes_eq, hvalid.bestFit, hflow, entered_sublist _ requests,
    fun request s hs => ?_⟩
  have hpos : 0 < f.toList.count s := List.count_pos_iff.2 (hvalid.mem_of_leaving hs)
  have hcount := hflow.count_eq s
  rw [List.count_append] at hcount
  omega

/-- A slot is given away and comes back when an index evicts its key. The list is full by then: it
turns a slot of the same length away, and gives this one up for a longer one. -/
theorem returned_slot_is_displaced :
    let requests : List Request := [.release ⟨0, 10⟩, .reserve 7, .release ⟨10, 20⟩,
      .evicted (.name "a") ⟨0, 10⟩, .release ⟨30, 10⟩]
    let f := (empty 2).after requests
    ⟨0, 10⟩ ∈ f.leaving (.release ⟨40, 11⟩) ∧
      ((empty 2).departed requests).count ⟨0, 10⟩ = 1 ∧
      ((empty 2).departed requests).count ⟨0, 10⟩ < ((empty 2).entered requests).count ⟨0, 10⟩ ∧
      ((empty 2).entered requests).Perm (f.toList ++ (empty 2).departed requests) := by
  intro requests f
  have hleaving : ⟨0, 10⟩ ∈ f.leaving (.release ⟨40, 11⟩) := by decide
  obtain ⟨-, -, -, -, hflow, -, hcount⟩ := is_best_fit 2 requests
  exact ⟨hleaving, by decide, hcount _ _ hleaving, hflow⟩

end FreeList

end DiskTier
