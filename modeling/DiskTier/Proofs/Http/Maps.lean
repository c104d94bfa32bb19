import DiskTier.Proofs.Compaction
import DiskTier.Proofs.Http.Commands
import Mathlib

/-!
# Two maps

What a client of the HTTP service talks to, without files, keys and records: a map of plain names
and a map of the attributes of groups. `Maps.Answers` says what the maps answer a command, with the
code and the members that the client reads. `Maps.after` is what the command makes of the maps:
`Maps.name?_after` and `Maps.attribute?_after` tell it for each key. `Maps.elements` is what a
region keeps for the maps.
-/

namespace DiskTier

namespace Http

/-! ### The maps -/

/-- What is kept under a name or an attribute. -/
structure Stored where
  value : String
  maxLife : Option UInt64
  createdAt : Int64
  deriving DecidableEq

/-- The two maps. They have no key in common: one has names, the other pairs of names. -/
structure Maps where
  names : List (String × Stored) := []
  /-- By the name of the group and that of the attribute. -/
  attributes : List ((String × String) × Stored) := []
  deriving DecidableEq

namespace Maps

def name? (m : Maps) (name : String) : Option Stored := Assoc.find? m.names name

def attribute? (m : Maps) (group name : String) : Option Stored :=
  Assoc.find? m.attributes (group, name)

def size (m : Maps) : Nat := m.names.length + m.attributes.length

/-- The names that `name` stands for when it is deleted: those that start with it if it ends in a
colon, else itself. -/
def denotes (name other : String) : Bool :=
  if name.toList.getLast? = some ':' then name.toList.isPrefixOf other.toList else other = name

/-! ### Commands -/

/-- The maps with the value of a request in place of the one that its name or attribute had. -/
def put (m : Maps) (r : SetRequest) (now : Int64) : Maps :=
  let s : Stored := { value := r.value, maxLife := r.maxLife, createdAt := now }
  match r.group with
  | none => { m with names := Assoc.put m.names r.key s }
  | some g => { m with attributes := Assoc.put m.attributes (g, r.key) s }

/-- The maps after a command at the time `now`. -/
def after (m : Maps) (now : Int64) : Command → Maps
  | .set r => if r.Valid then m.put r now else m
  | .delete n => { m with names := m.names.filter (!denotes n ·.1) }
  | .deleteGroup g => { m with attributes := m.attributes.filter (·.1.1 ≠ g) }
  | .deleteAll => {}
  | .get _ | .getAttribute _ _ | .groupKeys _ => m

/-- What a name has after a command. Only commands about names matter. -/
theorem name?_after (m : Maps) (now : Int64) (cmd : Command) (name : String) :
    (m.after now cmd).name? name = match cmd with
      | .set r =>
        if r.Valid ∧ r.group = none ∧ name = r.key then
          some { value := r.value, maxLife := r.maxLife, createdAt := now }
        else m.name? name
      | .delete n => if denotes n name then none else m.name? name
      | .deleteAll => none
      | _ => m.name? name := by
  cases cmd with
  | set r =>
    by_cases hvalid : r.Valid
    · rw [after, if_pos hvalid, put]
      cases hg : r.group with
      | none => simp [name?, Assoc.find?_put, hvalid, hg]
      | some g => simp [name?, hg]
    · simp [after, hvalid]
  | delete n =>
    have hfilter := Assoc.find?_filter m.names (!denotes n ·) name
    simp only [after, name?, hfilter]
    cases denotes n name <;> rfl
  | _ => rfl

/-- What an attribute has after a command. Only commands about groups matter. -/
theorem attribute?_after (m : Maps) (now : Int64) (cmd : Command) (group name : String) :
    (m.after now cmd).attribute? group name = match cmd with
      | .set r =>
        if r.Valid ∧ r.group = some group ∧ name = r.key then
          some { value := r.value, maxLife := r.maxLife, createdAt := now }
        else m.attribute? group name
      | .deleteGroup g => if group = g then none else m.attribute? group name
      | .deleteAll => none
      | _ => m.attribute? group name := by
  cases cmd with
  | set r =>
    by_cases hvalid : r.Valid
    · rw [after, if_pos hvalid, put]
      cases hg : r.group with
      | none => simp [attribute?, hg]
      | some g => simp [attribute?, Assoc.find?_put, hvalid, hg, eq_comm]
    · simp [after, hvalid]
  | deleteGroup g =>
    have hfilter := Assoc.find?_filter m.attributes (·.1 ≠ g) (group, name)
    simp only [after, attribute?, hfilter]
    by_cases hg : group = g <;> simp [hg]
  | _ => rfl

end Maps

/-! ### Answers -/

namespace Response

/-- Whether a response has this code, and a body with these members and no others. -/
def Says (r : Response) (code : Nat) (members : List (String × Json.Value)) : Prop :=
  r.status.code = code ∧ r.body = some { members }

/-- The answer to a read of `name`: all that is `stored` there, or, if there is nothing, that
nothing is called `text`. -/
structure IsReadOf (r : Response) (name text : String) (stored : Option Stored) : Prop where
  notFound_iff : r.status.code = 404 ↔ stored = none
  found : ∀ s ∈ stored, r.Says 200 [("key", .text name), ("value", .text s.value),
    ("created_at", .integer s.createdAt.toInt),
    ("max_life", s.maxLife.elim .null fun n => .integer n.toNat)]
  missed : stored = none → r.Says 404 [("error", .text s!"Key not found: {text}")]

/-- The answer to a removal of `name`: that it was removed if something `matched`, else that nothing
is called so. -/
structure IsRemovalOf (r : Response) (name : String) (matched : Prop) : Prop where
  notFound_iff : r.status.code = 404 ↔ ¬ matched
  removed : matched →
    r.Says 200 [("message", .text s!"'{name}' removed successfully"), ("key", .text name)]
  missed : ¬ matched → r.Says 404 [("error", .text s!"Key not found: {name}")]

end Response

/-- Why a request to store is turned down. The group matters only if the key is acceptable. -/
inductive SetRequest.TurnedDown (r : SetRequest) : String → Prop where
  | emptyKey (h : r.key = "") : TurnedDown r "Key cannot be empty"
  | longKey (h : 256 < Utf8.size r.key) :
      TurnedDown r "Key exceeds maximum length of 256 characters"
  | emptyGroup (hkey : IsName r.key) (h : r.group = some "") : TurnedDown r "Group cannot be empty"
  | longGroup {g : String} (hkey : IsName r.key) (hg : r.group = some g) (h : 256 < Utf8.size g) :
      TurnedDown r "Group exceeds maximum length of 256 characters"

/-- Whether `response` is what the maps answer a command in the region `cacheName`. -/
def Maps.Answers (cacheName : String) (m : Maps) (response : Response) : Command → Prop
  | .set r =>
    (r.Valid → response.Says 200
      [("message", .text s!"Key '{r.key}' set successfully"), ("key", .text r.key)]) ∧
    (¬ r.Valid → ∃ reason, r.TurnedDown reason ∧
      response.Says 400 [("error", .text s!"Invalid request: {reason}")])
  | .get n => response.IsReadOf n n (m.name? n)
  | .getAttribute g n => response.IsReadOf n s!"[{cacheName}:{g}]{n}" (m.attribute? g n)
  | .delete n => response.IsRemovalOf n (∃ other, denotes n other ∧ (m.name? other).isSome)
  | .groupKeys g => ∃ keys : List String, keys.Pairwise (· < ·) ∧
      (∀ n, n ∈ keys ↔ (m.attribute? g n).isSome) ∧
      response.Says 200 [("group", .text g), ("keys", .list (keys.map .text))]
  | .deleteGroup g => response.IsRemovalOf g (∃ n, (m.attribute? g n).isSome)
  | .deleteAll => response.Says 200
      [("message", .text s!"'{cacheName}' removed successfully"), ("key", .text cacheName)]

/-! ### Elements -/

/-- The element that keeps what is stored under a key. -/
def Stored.element (s : Stored) (cacheName : String) (key : Key) : Element :=
  { cacheName, key, value := Utf8.encode s.value,
    attributes := { createdAt := s.createdAt, maxLife := s.maxLife } }

namespace Maps

/-- The elements that keep a map whose keys are made by `key`. -/
def elementsOf {α : Type} (cacheName : String) (key : α → Key) (map : List (α × Stored)) :
    List Element :=
  map.map fun p => p.2.element cacheName (key p.1)

/-- The key of the attribute that a pair of names stands for. -/
def attributeKey (cacheName : String) (names : String × String) : Key :=
  .attribute { cacheName, groupName := names.1 } names.2

/-- The elements of a region `cacheName` that keeps the maps. -/
def elements (m : Maps) (cacheName : String) : List Element :=
  elementsOf cacheName .name m.names ++ elementsOf cacheName (attributeKey cacheName) m.attributes

/-- The element of a key in a region `cacheName` that keeps the maps. -/
def element? (m : Maps) (cacheName : String) : Key → Option Element
  | .name n => (m.name? n).map (·.element cacheName (.name n))
  | .attribute g n =>
    if g.cacheName = cacheName then
      (m.attribute? g.groupName n).map (·.element cacheName (.attribute g n))
    else none

variable {cacheName : String} {p : Key → Bool} {f : String → Bool} {g : String × String → Bool}

theorem length_elements (m : Maps) (cacheName : String) :
    (m.elements cacheName).length = m.size := by
  rw [elements, List.length_append, elementsOf, elementsOf, List.length_map, List.length_map]
  rfl

/-- The maps with the keys that are left of a region from which some were removed. -/
theorem filter_elements (m : Maps) (cacheName : String) (hf : ∀ n, p (.name n) = f n)
    (hg : ∀ a, p (attributeKey cacheName a) = g a) :
    (m.elements cacheName).filter (p ·.key) =
      elements { names := m.names.filter (f ·.1), attributes := m.attributes.filter (g ·.1) }
        cacheName := by
  unfold elements elementsOf
  rw [List.filter_append, List.filter_map, List.filter_map]
  congr 2
  · exact List.filter_congr fun q _ => hf q.1
  · exact List.filter_congr fun q _ => hg q.1

/-- Different keys of a map have different elements. -/
theorem find?_elementsOf {α : Type} [DecidableEq α] {key : α → Key} (hkey : key.Injective)
    (map : List (α × Stored)) (a : α) :
    (elementsOf cacheName key map).find? (·.key = key a) =
      (Assoc.find? map a).map (·.element cacheName (key a)) := by
  induction map with
  | nil => rfl
  | cons q map ih =>
    obtain ⟨b, s⟩ := q
    show ((s.element cacheName (key b)) :: elementsOf cacheName key map).find? _ = _
    by_cases h : a = b
    · subst h
      rw [List.find?_cons_of_pos (by simp [Stored.element]), Assoc.find?, if_pos rfl]
      rfl
    · have hne : key b ≠ key a := fun heq => h (hkey heq).symm
      rw [List.find?_cons_of_neg (by simp [Stored.element, hne]), Assoc.find?, if_neg h, ih]

theorem find?_elementsOf_eq_none {α : Type} {key : α → Key} {k : Key} (hk : ∀ a, key a ≠ k)
    (map : List (α × Stored)) : (elementsOf cacheName key map).find? (·.key = k) = none := by
  rw [List.find?_eq_none]
  intro e he
  obtain ⟨q, -, rfl⟩ := List.mem_map.1 he
  simp [Stored.element, hk q.1]

theorem attributeKey_injective (cacheName : String) : (attributeKey cacheName).Injective := by
  rintro ⟨g, n⟩ ⟨g', n'⟩ h
  cases h
  rfl

/-- A key finds its element in one of the maps, and never in the other. -/
theorem find?_elements (m : Maps) (cacheName : String) (k : Key) :
    (m.elements cacheName).find? (·.key = k) = m.element? cacheName k := by
  unfold elements
  rw [List.find?_append]
  rcases k with n | ⟨⟨c, g⟩, n⟩
  · rw [find?_elementsOf (fun _ _ => Key.name.inj), find?_elementsOf_eq_none nofun, Option.or_none]
    rfl
  · rw [find?_elementsOf_eq_none nofun, Option.none_or]
    show _ = if c = cacheName then _ else _
    split_ifs with hc
    · subst hc
      exact find?_elementsOf (attributeKey_injective c) m.attributes (g, n)
    · -- no element is of another region
      refine find?_elementsOf_eq_none (fun a ha => hc ?_) _
      cases ha
      rfl

/-- Some key of which `P` holds has an element exactly if the maps have something for it. -/
theorem exists_element_iff (m : Maps) (cacheName : String) (P : Key → Prop) :
    (∃ e ∈ m.elements cacheName, P e.key) ↔
      ∃ k, P k ∧ (m.element? cacheName k).isSome := by
  have hsome : ∀ k, (m.element? cacheName k).isSome ↔
      ∃ e ∈ m.elements cacheName, e.key = k := by
    intro k
    rw [← m.find?_elements, List.find?_isSome]
    simp only [decide_eq_true_eq]
  constructor
  · rintro ⟨e, he, hP⟩
    exact ⟨e.key, hP, (hsome _).2 ⟨e, he, rfl⟩⟩
  · rintro ⟨k, hP, hk⟩
    obtain ⟨e, he, rfl⟩ := (hsome k).1 hk
    exact ⟨e, he, hP⟩

/-- What a request stores takes the place of what its key had. -/
theorem elements_put (m : Maps) (r : SetRequest) (now : Int64) (cacheName : String) :
    ((m.put r now).elements cacheName).Perm
      ((m.elements cacheName).filter (·.key ≠ r.target cacheName) ++
        [r.toElement cacheName now]) := by
  cases hg : r.group with
  | none =>
    have htarget : r.target cacheName = .name r.key := by rw [SetRequest.target, hg]
    rw [SetRequest.toElement, htarget, put, hg]
    have hfilter := filter_elements (p := fun k => k ≠ .name r.key) (f := (· ≠ r.key))
      (g := fun _ => true) m cacheName (fun n => by simp) fun a => by simp [attributeKey]
    rw [hfilter, ← Assoc.erase_eq_filter, List.filter_true]
    exact (List.perm_append_singleton _ _).symm
  | some g =>
    have htarget : r.target cacheName = attributeKey cacheName (g, r.key) := by
      rw [SetRequest.target, hg]
      rfl
    rw [SetRequest.toElement, htarget, put, hg]
    have hfilter := filter_elements (p := fun k => k ≠ attributeKey cacheName (g, r.key))
      (f := fun _ => true) (g := (· ≠ (g, r.key))) m cacheName (fun n => by simp [attributeKey])
      fun a => by simp [(attributeKey_injective cacheName).eq_iff]
    rw [hfilter, ← Assoc.erase_eq_filter, List.filter_true]
    exact List.perm_middle.trans (List.perm_append_singleton _ _).symm

/-- What a name denotes is what its removal takes out. -/
theorem denotes_iff {n other : String} :
    denotes n other ↔ (Target.key (.name n)).Matches (.name other) := by
  rw [Target.matches_name_iff, denotes, Key.delimiter]
  split_ifs
  · exact List.isPrefixOf_iff_prefix
  · exact decide_eq_true_iff

end Maps

end Http

end DiskTier
