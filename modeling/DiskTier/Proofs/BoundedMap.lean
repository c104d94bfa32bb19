import DiskTier.Proofs.Run

/-!
# The map that a client sees

A bounded map from keys to elements. It has no files: it is the list of its elements in the order in
which they were put, and once there are too many the one that was put first goes. What a removal
takes out is told by `Target.Matches`, and a listing by its order and its members. `Lru.Step` is
what the map makes of an event.
-/

namespace DiskTier

open Region (Event)

/-- A bounded map. -/
structure Lru where
  /-- The name of the region, to which its groups belong. -/
  cacheName : String
  capacity : Nat
  /-- The elements, the one that was put last at the end. -/
  elements : List Element
  hits : Nat
  misses : Nat

namespace Lru

def empty (c : Config) : Lru :=
  { cacheName := c.cacheName, capacity := c.maxKeys, elements := [], hits := 0, misses := 0 }

def find? (m : Lru) (k : Key) : Option Element := m.elements.find? (·.key = k)

/-- Whether some key matches. -/
def Has (m : Lru) (x : Target) : Prop := ∃ e ∈ m.elements, x.Matches e.key

/-- Whether `names` are the attributes of a group: each once, in ascending order, and no others. -/
def Lists (m : Lru) (groupName : String) (names : List String) : Prop :=
  names.Pairwise (· < ·) ∧ ∀ name, name ∈ names ↔
    ∃ e ∈ m.elements, e.key = .attribute { cacheName := m.cacheName, groupName } name

/-- The map with an element in place of the one that its key had. -/
def put (m : Lru) (e : Element) : Lru :=
  { m with elements := newest m.capacity (m.elements.filter (·.key ≠ e.key) ++ [e]) }

/-- The map with the keys that do not match. -/
def without (m : Lru) (x : Target) : Lru :=
  { m with elements := m.elements.filter (¬ x.Matches ·.key) }

/-- The map after a read of a key. -/
def countRead (m : Lru) (k : Key) : Lru :=
  match m.find? k with
  | some _ => { m with hits := m.hits + 1 }
  | none => { m with misses := m.misses + 1 }

/-- Whether `answer` is what the map answers a call, as far as the call is about its elements. -/
def Answers (m : Lru) : {α : Type} → (call : Call α) → (answer : α) → Prop
  | _, .put _, _ => True
  | _, .get k, found => found = m.find? k
  | _, .groupKeys g, names => m.Lists g names
  | _, .remove k, removed => removed ↔ m.Has (.key k)
  | _, .removeGroup g, removed => removed ↔ m.Has (.group g)
  | _, .reset, _ => True
  | _, .saveKeys, _ => True
  | _, .size, n => n = m.elements.length
  | _, .stats, s => s.entryCount = m.elements.length ∧ s.hits = m.hits ∧ s.misses = m.misses
  | _, .requestCompaction, _ => True

def after (m : Lru) : {α : Type} → Call α → Lru
  | _, .put e => m.put e
  | _, .get k => m.countRead k
  | _, .remove k => m.without (.key k)
  | _, .removeGroup g => m.without (.group g)
  | _, .reset => { m with elements := [] }
  | _, _ => m

/-- A removal tells whether some key matched. -/
theorem answers_removal (m : Lru) (x : Target) {removed : Bool} :
    m.Answers x.call removed ↔ (removed ↔ m.Has x) := by
  cases x <;> exact .rfl

theorem after_removal (m : Lru) (x : Target) : m.after x.call = m.without x := by
  cases x <;> rfl

/-- Whether an event tells what the map would answer. -/
def Allows (m : Lru) : Event → Prop
  | .called call (.ok answer) => m.Answers call answer
  | .looked k answer => answer = .ok (m.find? k)
  | .held installed => installed = false
  | _ => False

def next (m : Lru) : Event → Lru
  | .called call (.ok _) => m.after call
  | .looked k _ => m.countRead k
  | _ => m

/-- Whether events tell, one after the other, what the map would answer. -/
def Agrees : Lru → List Event → Prop
  | _, [] => True
  | m, e :: events => m.Allows e ∧ (m.next e).Agrees events

/-- What an event does to the map of a region that is compacted now and then. -/
inductive Step : Lru → Event → Lru → Prop where
  | allowed {m : Lru} {e : Event} (h : m.Allows e) : Step m e (m.next e)
  /-- An element with a record that no slot can hold is refused. -/
  | refused (m : Lru) (e : Element) (error : Error) (h : Slot.maxLength < e.encode.length) :
      Step m (.called (.put e) (.error error)) m
  /-- When a draft is installed, the elements may come into another order. -/
  | installed (m : Lru) {elements : List Element} (h : elements.Perm m.elements) :
      Step m (.held true) { m with elements }

/-! ### Records -/

variable {m m' : Lru} {k : Key} {e : Element} {event : Event} {events : List Event}

def records (m : Lru) : List (Key × Bytes) := m.elements.map fun e => (e.key, e.encode)

theorem records_put (m : Lru) (e : Element) :
    (m.put e).records = putRecord m.capacity e.key e.encode m.records := by
  unfold put records putRecord
  rw [map_newest, List.map_append, List.filter_map]
  rfl

theorem records_without (m : Lru) (x : Target) :
    (m.without x).records = m.records.filter (!x.takes ·.1) := by
  unfold without records
  rw [List.filter_map, x.takes_eq]
  congr 1
  exact List.filter_congr fun e _ => decide_not

theorem any_records (m : Lru) (x : Target) : m.records.any (x.takes ·.1) ↔ m.Has x := by
  rw [records, List.any_map, List.any_eq_true, Has]
  exact exists_congr fun e => and_congr_right fun _ => Target.takes_iff

theorem keys_records (m : Lru) : m.records.map (·.1) = m.elements.map (·.key) := by
  rw [records, List.map_map]
  rfl

theorem key_of_find? (h : m.find? k = some e) : e.key = k := by
  have := List.find?_some h
  exact of_decide_eq_true this

/-- What a key finds among the elements, it finds among things that are made of them. -/
theorem find?_pairs {β : Type} (f : Element → β) (elements : List Element) (k : Key) :
    Assoc.find? (elements.map fun e => (e.key, f e)) k =
      (elements.find? (·.key = k)).map f := by
  induction elements with
  | nil => rfl
  | cons e elements ih =>
    rw [List.map_cons, List.find?_cons]
    by_cases hk : k = e.key
    · subst hk
      simp [Assoc.find?]
    · have hk' : ¬ e.key = k := fun h => hk h.symm
      simp [Assoc.find?, hk, hk', ih]

theorem find?_records (m : Lru) (k : Key) :
    Assoc.find? m.records k = (m.find? k).map Element.encode :=
  find?_pairs Element.encode m.elements k

/-- Records in another order are those of the elements in that order. -/
theorem exists_elements {records : List (Key × Bytes)} (h : records.Perm m.records) :
    ∃ elements : List Element, elements.Perm m.elements ∧
      records = { m with elements }.records := by
  have hpair : List.Forall₂ (fun (r : Key × Bytes) (e : Element) => r = (e.key, e.encode)) m.records
      m.elements := by
    rw [Lru.records, List.forall₂_map_left_iff, List.forall₂_same]
    intro e _
    rfl
  obtain ⟨elements, hpair, hperm⟩ := List.perm_comp_forall₂ h hpair
  refine ⟨elements, hperm, ?_⟩
  rw [Lru.records, ← List.forall₂_eq_eq_eq, List.forall₂_map_right_iff]
  exact hpair

/-! ### Counting -/

/-- Whether the event is a read that found an element. -/
def isHit : Event → Bool
  | .called (.get _) (.ok (some _)) => true
  | .looked _ (.ok (some _)) => true
  | _ => false

/-- Whether the event is a read that found none. -/
def isMiss : Event → Bool
  | .called (.get _) (.ok none) => true
  | .looked _ (.ok none) => true
  | _ => false

theorem counts_next (h : m.Allows event) :
    (m.next event).hits = m.hits + (if isHit event then 1 else 0) ∧
      (m.next event).misses = m.misses + (if isMiss event then 1 else 0) := by
  cases event with
  | called call answer =>
    cases answer with
    | error error => exact h.elim
    | ok answer =>
      cases call with
      | get k =>
        have hfound : answer = m.find? k := h
        subst hfound
        show (m.countRead k).hits = _ ∧ (m.countRead k).misses = _
        unfold countRead
        cases m.find? k <;> exact ⟨rfl, rfl⟩
      | _ => exact ⟨rfl, rfl⟩
  | looked k answer =>
    have hfound : answer = .ok (m.find? k) := h
    subst hfound
    show (m.countRead k).hits = _ ∧ (m.countRead k).misses = _
    unfold countRead
    cases m.find? k <;> exact ⟨rfl, rfl⟩
  | held installed => exact ⟨rfl, rfl⟩
  | _ => exact h.elim

/-- The counters of the map tell how many reads found an element, and how many found none. -/
theorem counts_of_agrees (h : m.Agrees events) :
    (events.foldl next m).hits = m.hits + events.countP isHit ∧
      (events.foldl next m).misses = m.misses + events.countP isMiss := by
  induction events generalizing m with
  | nil => exact ⟨rfl, rfl⟩
  | cons event events ih =>
    obtain ⟨hevent, hevents⟩ := h
    obtain ⟨hhits, hmisses⟩ := counts_next hevent
    obtain ⟨ihhits, ihmisses⟩ := ih hevents
    rw [List.foldl_cons, ihhits, ihmisses, hhits, hmisses, List.countP_cons, List.countP_cons]
    omega

/-! ### Runs -/

theorem agrees_append (event : Event) :
    m.Agrees (events ++ [event]) ↔ m.Agrees events ∧ (events.foldl next m).Allows event := by
  induction events generalizing m with
  | nil =>
    show (m.Allows event ∧ True) ↔ True ∧ m.Allows event
    rw [and_true, true_and]
  | cons e events ih =>
    show (m.Allows e ∧ (m.next e).Agrees (events ++ [event])) ↔
        (m.Allows e ∧ (m.next e).Agrees events) ∧ _
    rw [ih, and_assoc]
    rfl

/-- If no record is too long and no draft is installed, there is one run of the map. -/
theorem agrees_of_run (h : Region.Run Step m events m')
    (hshort : ∀ event ∈ events, ∀ e ∈ event.put?, e.encode.length < 2 ^ 32)
    (hswap : .held true ∉ events) : m.Agrees events ∧ m' = events.foldl next m := by
  induction h with
  | nil => exact ⟨trivial, rfl⟩
  | snoc hr he ih =>
    obtain ⟨hagrees, rfl⟩ := ih (fun event hmem => hshort event (List.mem_append_left _ hmem))
      fun hmem => hswap (List.mem_append_left _ hmem)
    rw [agrees_append, List.foldl_append]
    cases he with
    | allowed hallowed => exact ⟨⟨hagrees, hallowed⟩, rfl⟩
    | refused e error hlong =>
      have hlt := hshort _ (List.mem_append_right _ (List.mem_singleton.2 rfl)) e rfl
      exact absurd (Nat.le_of_lt_succ hlt) (Nat.not_le.2 hlong)
    | installed hperm => exact absurd (List.mem_append_right _ (List.mem_singleton.2 rfl)) hswap

end Lru

end DiskTier
