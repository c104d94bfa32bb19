/-!
# Association lists

Finite maps as lists of pairs with one pair for each key. `put` replaces the pair of its key, so a
list built from `[]` by `put` and `erase` never holds a key twice.
-/

namespace DiskTier.Assoc

variable {α β : Type} [DecidableEq α]

@[specialize] def find? : List (α × β) → α → Option β
  | [], _ => none
  | (k, v) :: m, a => if a = k then some v else find? m a

/-- The pairs of all keys but `a`. -/
def erase : List (α × β) → α → List (α × β)
  | [], _ => []
  | (k, v) :: m, a => if a = k then erase m a else (k, v) :: erase m a

def put (m : List (α × β)) (a : α) (b : β) : List (α × β) := (a, b) :: erase m a

theorem find?_erase (m : List (α × β)) (a b : α) :
    find? (erase m a) b = if b = a then none else find? m b := by
  induction m with
  | nil => simp [erase, find?]
  | cons p m ih =>
    obtain ⟨k, v⟩ := p
    by_cases hk : a = k
    · subst hk
      by_cases hb : b = a
      · subst hb
        simpa [erase] using ih
      · simp [erase, find?, ih, hb]
    · by_cases hb : b = a
      · subst hb
        simp [erase, find?, ih, hk]
      · simp [erase, find?, ih, hk, hb]

theorem find?_put (m : List (α × β)) (a b : α) (v : β) :
    find? (put m a v) b = if b = a then some v else find? m b := by
  by_cases h : b = a <;> simp [put, find?, find?_erase, h]

theorem erase_eq_filter (m : List (α × β)) (a : α) : erase m a = m.filter (·.1 ≠ a) := by
  induction m with
  | nil => rfl
  | cons p m ih =>
    obtain ⟨k, v⟩ := p
    by_cases h : a = k
    · subst h
      simp [erase, ih]
    · simp [erase, h, ih, Ne.symm h]

theorem mem_of_find?_eq_some {m : List (α × β)} {a : α} {b : β} (h : find? m a = some b) :
    (a, b) ∈ m := by
  induction m with
  | nil => cases h
  | cons p m ih =>
    obtain ⟨k, v⟩ := p
    rw [find?] at h
    split at h
    · next hk =>
      cases h
      simp [hk]
    · exact List.mem_cons_of_mem _ (ih h)

theorem find?_eq_none_iff {m : List (α × β)} {a : α} : find? m a = none ↔ a ∉ m.map (·.1) := by
  induction m with
  | nil => simp [find?]
  | cons p m ih =>
    obtain ⟨k, v⟩ := p
    by_cases h : a = k
    · simp [find?, h]
    · simp [find?, h, ih]

theorem find?_eq_some_iff {m : List (α × β)} (hm : (m.map (·.1)).Nodup) {a : α} {b : β} :
    find? m a = some b ↔ (a, b) ∈ m := by
  refine ⟨mem_of_find?_eq_some, fun h => ?_⟩
  induction m with
  | nil => cases h
  | cons p m ih =>
    obtain ⟨k, v⟩ := p
    rw [List.map_cons, List.nodup_cons] at hm
    rcases List.mem_cons.1 h with hab | hab
    · simp only [Prod.mk.injEq] at hab
      simp [find?, hab]
    · have hk : a ≠ k := by
        rintro rfl
        exact hm.1 (List.mem_map.2 ⟨_, hab, rfl⟩)
      rw [find?, if_neg hk]
      exact ih hm.2 hab

/-- The pair of `a`, if it has one. -/
theorem filter_eq {m : List (α × β)} (hm : (m.map (·.1)).Nodup) (a : α) :
    m.filter (·.1 = a) = ((find? m a).map (a, ·)).toList := by
  induction m with
  | nil => rfl
  | cons p m ih =>
    obtain ⟨k, v⟩ := p
    rw [List.map_cons, List.nodup_cons] at hm
    rw [find?]
    by_cases hk : a = k
    · subst hk
      have hnone : find? m a = none := find?_eq_none_iff.2 hm.1
      rw [if_pos rfl, List.filter_cons_of_pos (by simp), ih hm.2, hnone]
      rfl
    · rw [if_neg hk, List.filter_cons_of_neg (by simpa using Ne.symm hk), ih hm.2]

theorem find?_append (m m' : List (α × β)) (a : α) :
    find? (m ++ m') a = (find? m a).or (find? m' a) := by
  induction m with
  | nil => rfl
  | cons p m ih =>
    obtain ⟨k, v⟩ := p
    by_cases h : a = k <;> simp [find?, h, ih]

end DiskTier.Assoc
