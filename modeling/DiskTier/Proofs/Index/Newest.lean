import DiskTier.Proofs.Index

/-!
# The newest of many entries

Entries are inserted one after the other, with keys that may be repeated, into an index that may be
too small for them. What stays is the last entry of each key, `Index.lastEach`, and of these the
newest, as many as there is room for: `Index.Coherent.toList_insertAll`.
-/

namespace DiskTier

/-! ### The end of a list -/

/-- The last `n` entries of a list. -/
def newest {α : Type} (n : Nat) (l : List α) : List α := l.drop (l.length - n)

theorem map_newest {α β : Type} (f : α → β) (n : Nat) (l : List α) :
    (newest n l).map f = newest n (l.map f) := by
  rw [newest, newest, List.map_drop, List.length_map]

theorem take_append_newest {α : Type} (n : Nat) (l : List α) :
    l.take (l.length - n) ++ newest n l = l := List.take_append_drop _ l

theorem length_newest {α : Type} (n : Nat) (l : List α) : (newest n l).length = min n l.length := by
  rw [newest, List.length_drop]
  omega

theorem newest_append {α : Type} {n : Nat} {m : List α} (h : n ≤ m.length) (l : List α) :
    newest n (l ++ m) = newest n m := by
  have hlen : (l ++ m).length - n = l.length + (m.length - n) := by
    rw [List.length_append]
    omega
  rw [newest, hlen, List.drop_length_add_append]
  rfl

theorem newest_of_length_le {α : Type} {n : Nat} {l : List α} (h : l.length ≤ n) :
    newest n l = l := by
  rw [newest, Nat.sub_eq_zero_of_le h, List.drop_zero]

/-! ### Entries with repeated keys -/

namespace Index

variable {i : Index} {k : Key} {l m : List (Key × Slot)}

/-- The last entry of each key, in the order in which these come. -/
def lastEach : List (Key × Slot) → List (Key × Slot)
  | [] => []
  | e :: es => if e.1 ∈ es.map (·.1) then lastEach es else e :: lastEach es

theorem mem_keys_lastEach (l : List (Key × Slot)) (k : Key) :
    k ∈ (lastEach l).map (·.1) ↔ k ∈ l.map (·.1) := by
  induction l with
  | nil => rfl
  | cons e es ih =>
    rw [lastEach]
    split
    · next hmem =>
      rw [ih, List.map_cons, List.mem_cons]
      constructor
      · exact Or.inr
      · rintro (rfl | hk)
        · exact hmem
        · exact hk
    · rw [List.map_cons, List.mem_cons, List.map_cons, List.mem_cons, ih]

theorem lastEach_sublist (l : List (Key × Slot)) : (lastEach l).Sublist l := by
  induction l with
  | nil => exact List.Sublist.slnil
  | cons e es ih =>
    rw [lastEach]
    split
    · exact ih.cons e
    · exact ih.cons_cons e

/-- Of a list only the keys matter that do not come again. -/
theorem lastEach_append (l m : List (Key × Slot)) :
    lastEach (l ++ m) = (lastEach l).filter (·.1 ∉ m.map (·.1)) ++ lastEach m := by
  induction l with
  | nil => rfl
  | cons e es ih =>
    rw [List.cons_append, lastEach, lastEach, List.map_append, ih]
    by_cases hes : e.1 ∈ es.map (·.1)
    · rw [if_pos (List.mem_append_left _ hes), if_pos hes]
    · by_cases hm : e.1 ∈ m.map (·.1)
      · rw [if_pos (List.mem_append_right _ hm), if_neg hes,
          List.filter_cons_of_neg (by simpa using hm)]
      · rw [if_neg (by rw [List.mem_append]; exact not_or.2 ⟨hes, hm⟩), if_neg hes,
          List.filter_cons_of_pos (by simpa using hm), List.cons_append]

theorem lastEach_of_nodup (h : (l.map (·.1)).Nodup) : lastEach l = l := by
  induction l with
  | nil => rfl
  | cons e es ih =>
    rw [List.map_cons, List.nodup_cons] at h
    rw [lastEach, if_neg h.1, ih h.2]

theorem lastEach_ne_nil (h : l ≠ []) : lastEach l ≠ [] := by
  obtain ⟨e, es, rfl⟩ := List.exists_cons_of_ne_nil h
  intro hnil
  have hmem := (mem_keys_lastEach (e :: es) e.1).2 (List.mem_map_of_mem List.mem_cons_self)
  rw [hnil] at hmem
  cases hmem

/-- There are as many keys at least as in a part where none is repeated. -/
theorem length_le_lastEach (h : (l.map (·.1)).Nodup) (m : List (Key × Slot)) :
    l.length ≤ (lastEach (l ++ m)).length := by
  have hsub : l.map (·.1) ⊆ (lastEach (l ++ m)).map (·.1) := by
    intro k hk
    rw [mem_keys_lastEach, List.map_append]
    exact List.mem_append_left _ hk
  have hlen := (h.subperm hsub).length_le
  rwa [List.length_map, List.length_map] at hlen

/-- Entries that have to go may as well go before others come. -/
theorem newest_lastEach_newest (n : Nat) (h : (l.map (·.1)).Nodup) (m : List (Key × Slot)) :
    newest n (lastEach (newest n l ++ m)) = newest n (lastEach (l ++ m)) := by
  by_cases hle : l.length ≤ n
  · rw [newest_of_length_le hle]
  · have hnew : ((newest n l).map (·.1)).Nodup := h.sublist ((List.drop_sublist _ _).map _)
    have hlen : n ≤ (lastEach (newest n l ++ m)).length := by
      refine Nat.le_trans ?_ (length_le_lastEach hnew m)
      rw [length_newest]
      omega
    have hsplit : lastEach (l ++ m) =
        (lastEach (l.take (l.length - n))).filter
          (·.1 ∉ (newest n l ++ m).map (·.1)) ++ lastEach (newest n l ++ m) := by
      rw [← lastEach_append, ← List.append_assoc, newest, List.take_append_drop]
    rw [hsplit, newest_append hlen]

/-- An insert leaves the last entries of all keys, as far as there is room. -/
theorem lastEach_placed (i : Index) (k : Key) (s : Slot) (m : List (Key × Slot)) :
    lastEach (i.placed k s ++ m) = lastEach (i.toList ++ (k, s) :: m) := by
  have hcons : ∀ l : List (Key × Slot), l ++ [(k, s)] ++ m = l ++ (k, s) :: m := fun l => by simp
  rw [placed, hcons, lastEach_append, lastEach_append]
  congr 1
  generalize i.toList = l
  -- what the key had before is dropped either way
  induction l with
  | nil => rfl
  | cons e es ih =>
    by_cases hk : e.1 = k
    · rw [List.filter_cons_of_neg (by simpa), ih, lastEach]
      split
      · rfl
      · rw [List.filter_cons_of_neg (by simp [hk])]
    · have hmem : e.1 ∈ (es.filter (·.1 ≠ k)).map (·.1) ↔ e.1 ∈ es.map (·.1) := by
        simp only [List.mem_map, List.mem_filter]
        constructor
        · rintro ⟨e', ⟨he', -⟩, heq⟩
          exact ⟨e', he', heq⟩
        · rintro ⟨e', he', heq⟩
          exact ⟨e', ⟨he', by simpa [heq]⟩, heq⟩
      rw [List.filter_cons_of_pos (by simpa), lastEach, lastEach]
      by_cases hes : e.1 ∈ es.map (·.1)
      · rw [if_pos (hmem.2 hes), if_pos hes, ih]
      · rw [if_neg (mt hmem.1 hes), if_neg hes, List.filter_cons, List.filter_cons, ih]

/-- Whatever entries are inserted, the newest keys stay, each with its last slot. -/
theorem Coherent.toList_insertAll (h : i.Coherent) (hsize : i.toList.length ≤ i.capacity)
    (es : List (Key × Slot)) : (i.insertAll es).2.Coherent ∧
      (i.insertAll es).2.toList = newest i.capacity (lastEach (i.toList ++ es)) := by
  induction es generalizing i with
  | nil =>
    refine ⟨h, ?_⟩
    rw [List.append_nil, lastEach_of_nodup h.nodup_toList, newest_of_length_le hsize]
    rfl
  | cons e es ih =>
    obtain ⟨k, s⟩ := e
    obtain ⟨-, -, hcoh, hlist, hcap⟩ := h.insert k s
    have hsize' : (i.insert k s).index.toList.length ≤ (i.insert k s).index.capacity := by
      rw [hlist, hcap, List.length_drop]
      omega
    obtain ⟨hcoh', hlist'⟩ := ih hcoh hsize'
    have hnewest : (i.insert k s).index.toList = newest i.capacity (i.placed k s) := hlist
    refine ⟨hcoh', ?_⟩
    show ((i.insert k s).index.insertAll es).2.toList = _
    rw [hlist', hcap, hnewest, newest_lastEach_newest _ (h.nodup_placed k s), lastEach_placed]

end Index

end DiskTier
