import DiskTier.Region.Call

/-!
# What a removal is aimed at

A removal names a key or a group. `Target.Matches` says which keys it takes out: a name that ends in
the delimiter stands for the names below it, any other key for itself, and a group for its
attributes. `Target.takes` is the test that a store makes.
-/

namespace DiskTier

/-- What a removal is aimed at. -/
inductive Target where
  | key (k : Key)
  | group (g : GroupId)

namespace Target

/-- The call that carries the removal out. -/
def call : Target → Call Bool
  | .key k => .remove k
  | .group g => .removeGroup g

/-- Which keys a removal takes out. -/
inductive Matches : Target → Key → Prop where
  /-- A key stands for itself, unless it ends in the delimiter. -/
  | self {k : Key} (hk : ∀ n, k = .name n → n.toList.getLast? ≠ some Key.delimiter) :
      Matches (.key k) k
  /-- A name that ends in the delimiter stands for the names that start with it. -/
  | below {n m : String} (hn : n.toList.getLast? = some Key.delimiter)
      (hm : n.toList <+: m.toList) : Matches (.key (.name n)) (.name m)
  /-- A group stands for its attributes. -/
  | member (g : GroupId) (a : String) : Matches (.group g) (.attribute g a)

/-- Whether a store takes a key for one that is to go. -/
def takes : Target → Key → Bool
  | .key k, k' => match k.hierarchy? with
    | some start => k'.isUnder start
    | none => k' = k
  | .group g, k => k.isAttributeOf g

end Target

namespace Key

variable {k : Key}

theorem hierarchy?_eq_none_iff :
    k.hierarchy? = none ↔ ∀ n, k = .name n → n.toList.getLast? ≠ some delimiter := by
  rcases k with n | ⟨g, a⟩ <;> simp [hierarchy?]

theorem hierarchy?_eq_some_iff {start : String} :
    k.hierarchy? = some start ↔ k = .name start ∧ start.toList.getLast? = some delimiter := by
  rcases k with n | ⟨g, a⟩
  · simp only [hierarchy?, Option.ite_none_right_eq_some, Option.some.injEq, name.injEq]
    constructor
    · rintro ⟨hlast, rfl⟩
      exact ⟨rfl, hlast⟩
    · rintro ⟨rfl, hlast⟩
      exact ⟨hlast, rfl⟩
  · simp [hierarchy?]

theorem attributeOf?_eq_some_iff {g : GroupId} {n : String} :
    k.attributeOf? g = some n ↔ k = .attribute g n := by
  rcases k with n' | ⟨g', n'⟩
  · simp [attributeOf?]
  · by_cases h : g' = g <;> simp [attributeOf?, h]

end Key

namespace Target

variable {k : Key}

theorem matches_group_iff {g : GroupId} : (group g).Matches k ↔ ∃ a, k = .attribute g a := by
  constructor
  · rintro ⟨⟩
    exact ⟨_, rfl⟩
  · rintro ⟨a, rfl⟩
    exact .member g a

/-- A store takes the keys that match. -/
theorem takes_iff {x : Target} : x.takes k ↔ x.Matches k := by
  cases x with
  | key k' =>
    cases hk : k'.hierarchy? with
    | none =>
      rw [takes, hk]
      rw [Key.hierarchy?_eq_none_iff] at hk
      constructor
      · intro h
        obtain rfl : k = k' := of_decide_eq_true h
        exact .self hk
      · intro h
        cases h with
        | self => exact decide_eq_true rfl
        | below hn => exact absurd hn (hk _ rfl)
    | some start =>
      rw [takes, hk]
      obtain ⟨rfl, hlast⟩ := Key.hierarchy?_eq_some_iff.1 hk
      constructor
      · intro h
        rcases k with m | ⟨g, a⟩
        · exact .below hlast (List.isPrefixOf_iff_prefix.1 h)
        · cases h
      · intro h
        cases h with
        | self hnone => exact absurd hlast (hnone _ rfl)
        | below _ hm => exact List.isPrefixOf_iff_prefix.2 hm
  | group g =>
    rw [takes, Key.isAttributeOf, Option.isSome_iff_exists, matches_group_iff]
    exact exists_congr fun a => Key.attributeOf?_eq_some_iff

instance (x : Target) (k : Key) : Decidable (x.Matches k) := decidable_of_iff _ takes_iff

theorem takes_eq (x : Target) : x.takes = fun k => decide (x.Matches k) := by
  funext k
  rw [Bool.eq_iff_iff, takes_iff, decide_eq_true_iff]

/-- A name takes out no attributes. -/
theorem not_matches_attribute (n : String) (g : GroupId) (a : String) :
    ¬ (key (.name n)).Matches (.attribute g a) :=
  nofun

theorem matches_name_iff {n m : String} : (key (.name n)).Matches (.name m) ↔
    if n.toList.getLast? = some Key.delimiter then n.toList <+: m.toList else m = n := by
  split
  · next hn =>
    constructor
    · intro h
      cases h with
      | self hself => exact absurd hn (hself _ rfl)
      | below _ hm => exact hm
    · exact .below hn
  · next hn =>
    constructor
    · intro h
      cases h with
      | self => rfl
      | below hbelow => exact absurd hbelow hn
    · rintro rfl
      refine .self fun n' h => ?_
      cases h
      exact hn

end Target

end DiskTier
