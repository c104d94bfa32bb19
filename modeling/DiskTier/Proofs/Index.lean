import DiskTier.Index
import Mathlib

/-!
# The key index as a list

Two maps make up an index, and they belong together: `Index.Coherent`. Every operation keeps that,
and what it does is told by what it does to `Index.toList`, the entries from the oldest to the
newest. Removals are filters, evictions take a piece off the front, and an insert puts its entry
last.
-/

namespace DiskTier

namespace Index

/-- The two maps of an index belong together. -/
structure Coherent (i : Index) : Prop where
  sorted : i.order.Pairwise (·.1 < ·.1)
  below : ∀ p ∈ i.order, p.1 < i.nextStamp
  distinct : (i.entries.map (·.1)).Nodup
  linked : ∀ n k, (n, k) ∈ i.order ↔ ∃ s, Assoc.find? i.entries k = some ⟨s, n⟩

variable {i : Index}

/-! ### The index as a list -/

theorem Coherent.key_unique (h : i.Coherent) {n : Nat} {k k' : Key} (hk : (n, k) ∈ i.order)
    (hk' : (n, k') ∈ i.order) : k = k' := by
  obtain ⟨s, hs⟩ := (h.linked n k).1 hk
  by_contra hne
  have hd := h.sorted
  rw [List.pairwise_iff_getElem] at hd
  obtain ⟨a, ha, hka⟩ := List.mem_iff_getElem.1 hk
  obtain ⟨b, hb, hkb⟩ := List.mem_iff_getElem.1 hk'
  rcases Nat.lt_trichotomy a b with hlt | rfl | hlt
  · have := hd a b ha hb hlt
    simp [hka, hkb] at this
  · rw [hka] at hkb
    cases hkb
    exact hne rfl
  · have := hd b a hb ha hlt
    simp [hka, hkb] at this

theorem Coherent.stamp_unique (h : i.Coherent) {n n' : Nat} {k : Key} (hn : (n, k) ∈ i.order)
    (hn' : (n', k) ∈ i.order) : n = n' := by
  obtain ⟨s, hs⟩ := (h.linked n k).1 hn
  obtain ⟨s', hs'⟩ := (h.linked n' k).1 hn'
  rw [hs] at hs'
  cases hs'
  rfl

theorem Coherent.nodup_keys (h : i.Coherent) : i.keys.Nodup := by
  rw [keys, List.nodup_iff_pairwise_ne, List.pairwise_map]
  refine h.sorted.imp_of_mem fun {p q} hp hq hlt hk => ?_
  have hq' : (q.1, p.2) ∈ i.order := hk ▸ hq
  exact absurd (h.stamp_unique hp hq') (Nat.ne_of_lt hlt)

theorem Coherent.mem_keys_iff (h : i.Coherent) {k : Key} : k ∈ i.keys ↔ (i.get? k).isSome := by
  rw [keys, List.mem_map, get?, Option.isSome_map]
  constructor
  · rintro ⟨⟨n, _⟩, hp, rfl⟩
    obtain ⟨s, hs⟩ := (h.linked _ _).1 hp
    simp [hs]
  · intro hk
    obtain ⟨e, he⟩ := Option.isSome_iff_exists.1 hk
    exact ⟨(e.stamp, k), (h.linked _ _).2 ⟨e.slot, he⟩, rfl⟩

theorem toList_eq (i : Index) : i.toList = i.keys.filterMap fun k => (i.get? k).map (k, ·) := by
  rw [toList, keys, List.filterMap_map]
  rfl

theorem Coherent.keys_toList (h : i.Coherent) : i.toList.map (·.1) = i.keys := by
  rw [toList_eq, List.map_filterMap]
  have hsome : ∀ k ∈ i.keys, ((i.get? k).map (k, ·)).map Prod.fst = some k := by
    intro k hk
    obtain ⟨s, hs⟩ := Option.isSome_iff_exists.1 (h.mem_keys_iff.1 hk)
    simp [hs]
  rw [List.filterMap_congr hsome, List.filterMap_some]

/-- No key comes twice. -/
theorem Coherent.nodup_toList (h : i.Coherent) : (i.toList.map (·.1)).Nodup :=
  h.keys_toList ▸ h.nodup_keys

theorem Coherent.get?_eq (h : i.Coherent) (k : Key) : i.get? k = Assoc.find? i.toList k := by
  cases hk : i.get? k with
  | none =>
    rw [eq_comm, Assoc.find?_eq_none_iff, h.keys_toList, h.mem_keys_iff, hk]
    simp
  | some s =>
    rw [eq_comm, Assoc.find?_eq_some_iff h.nodup_toList, toList_eq, List.mem_filterMap]
    exact ⟨k, h.mem_keys_iff.2 (by simp [hk]), by simp [hk]⟩

theorem Coherent.mem_toList_iff (h : i.Coherent) {k : Key} {s : Slot} :
    (k, s) ∈ i.toList ↔ i.get? k = some s := by
  rw [h.get?_eq, Assoc.find?_eq_some_iff h.nodup_toList]

/-- The entries of an index are that of a key, if it has one, and the others. -/
theorem Coherent.toList_perm (h : i.Coherent) (k : Key) :
    i.toList.Perm (((i.get? k).map (k, ·)).toList ++ i.toList.filter (·.1 ≠ k)) := by
  rw [h.get?_eq, ← Assoc.filter_eq h.nodup_toList]
  have hsplit := List.filter_append_perm (fun e : Key × Slot => decide (e.1 = k)) i.toList
  simpa only [decide_not] using hsplit.symm

theorem Coherent.size_eq (h : i.Coherent) : i.size = i.toList.length := by
  have hperm : (i.entries.map (·.1)).Perm i.keys := by
    rw [List.perm_ext_iff_of_nodup h.distinct h.nodup_keys]
    intro k
    rw [h.mem_keys_iff, get?, Option.isSome_map]
    cases hk : Assoc.find? i.entries k with
    | none => simp [Assoc.find?_eq_none_iff.1 hk]
    | some e => simpa using ⟨e, Assoc.mem_of_find?_eq_some hk⟩
  rw [size, ← List.length_map (·.1), hperm.length_eq, ← h.keys_toList, List.length_map]

theorem Coherent.isEmpty_iff (h : i.Coherent) : i.isEmpty ↔ i.toList = [] := by
  rw [Index.isEmpty, List.isEmpty_iff, ← List.length_eq_zero_iff, ← List.length_eq_zero_iff,
    ← h.size_eq, Index.size]

theorem Coherent.isEmpty_eq_false (h : i.Coherent) (hne : i.toList ≠ []) : i.isEmpty = false :=
  Bool.eq_false_iff.2 (mt h.isEmpty_iff.1 hne)

/-! ### Removing -/

theorem Coherent.stamp_ne_iff (h : i.Coherent) {k : Key} {e : Stamped}
    (he : Assoc.find? i.entries k = some e) {p : Nat × Key} (hp : p ∈ i.order) :
    p.1 ≠ e.stamp ↔ p.2 ≠ k := by
  have hk : (e.stamp, k) ∈ i.order := (h.linked _ _).2 ⟨e.slot, he⟩
  constructor
  · rintro hne rfl
    exact hne (h.stamp_unique hp hk)
  · rintro hne hstamp
    exact hne (h.key_unique hp (hstamp ▸ hk))

theorem Coherent.order_erase (h : i.Coherent) {k : Key} {e : Stamped}
    (he : Assoc.find? i.entries k = some e) :
    Assoc.erase i.order e.stamp = i.order.filter (·.2 ≠ k) := by
  rw [Assoc.erase_eq_filter]
  refine List.filter_congr fun p hp => ?_
  exact decide_eq_decide.2 (h.stamp_ne_iff he hp)

theorem get?_remove (i : Index) (k k' : Key) :
    (i.remove k).2.get? k' = if k' = k then none else i.get? k' := by
  unfold remove get?
  split
  · next hk =>
    split
    · next h => simp [h, hk]
    · rfl
  · rw [Assoc.find?_erase]
    split <;> rfl

theorem remove_fst (i : Index) (k : Key) : (i.remove k).1 = i.get? k := by
  unfold remove get?
  split
  · next hk => simp [hk]
  · next e hk => simp [hk]

@[simp] theorem remove_capacity (i : Index) (k : Key) : (i.remove k).2.capacity = i.capacity := by
  unfold remove
  split <;> rfl

theorem Coherent.keys_remove (h : i.Coherent) (k : Key) :
    (i.remove k).2.keys = i.keys.filter (· ≠ k) := by
  unfold remove
  split
  · next hk =>
    refine (List.filter_eq_self.2 fun k' hk' => ?_).symm
    have := h.mem_keys_iff.1 hk'
    simp only [decide_eq_true_eq]
    rintro rfl
    simp [get?, hk] at this
  · next e hk =>
    rw [keys, keys, h.order_erase hk, List.filter_map]
    rfl

theorem Coherent.remove (h : i.Coherent) (k : Key) : (i.remove k).2.Coherent := by
  unfold Index.remove
  split
  · exact h
  · next e hk =>
    refine ⟨?_, ?_, ?_, ?_⟩
    · exact h.order_erase hk ▸ h.sorted.sublist List.filter_sublist
    · intro p hp
      simp only [h.order_erase hk] at hp
      exact h.below p (List.mem_of_mem_filter hp)
    · simp only [Assoc.erase_eq_filter]
      exact h.distinct.sublist (List.filter_sublist.map _)
    · intro n k'
      simp only [h.order_erase hk, List.mem_filter, h.linked, Assoc.find?_erase]
      by_cases hkk : k' = k <;> simp [hkk]

/-- An index that lost the keys of which `p` does not hold, as a list. -/
theorem toList_filter {j : Index} {p : Key → Bool} (hkeys : j.keys = i.keys.filter p)
    (hget : ∀ k, p k → j.get? k = i.get? k) : j.toList = i.toList.filter (p ·.1) := by
  rw [toList_eq, toList_eq, hkeys, List.filter_filterMap, List.filterMap_filter]
  refine List.filterMap_congr fun k _ => ?_
  by_cases hp : p k
  · cases hk : i.get? k <;> simp [hp, hget k hp, hk, Option.filter]
  · cases hk : i.get? k <;> simp [hp, Option.filter]

theorem Coherent.toList_remove (h : i.Coherent) (k : Key) :
    (i.remove k).2.toList = i.toList.filter (·.1 ≠ k) :=
  toList_filter (h.keys_remove k) fun k' hk' => by
    rw [get?_remove, if_neg (by simpa using hk')]

theorem removeEach_spec (h : i.Coherent) {ks : List Key} (hks : ks.Nodup) :
    (i.removeEach ks).1 = ks.filterMap (fun k => (i.get? k).map (k, ·)) ∧
      (i.removeEach ks).2.Coherent ∧
      (i.removeEach ks).2.toList = i.toList.filter (·.1 ∉ ks) ∧
      (i.removeEach ks).2.capacity = i.capacity := by
  induction ks generalizing i with
  | nil => exact ⟨rfl, h, by simp [removeEach], rfl⟩
  | cons k ks ih =>
    obtain ⟨hk, hks⟩ := List.nodup_cons.1 hks
    obtain ⟨hfst, hcoh, hlist, hcap⟩ := ih (h.remove k) hks
    have hget : ks.filterMap (fun k' => ((i.remove k).2.get? k').map (k', ·)) =
        ks.filterMap (fun k' => (i.get? k').map (k', ·)) := by
      refine List.filterMap_congr fun k' hk' => ?_
      rw [get?_remove, if_neg]
      rintro rfl
      exact hk hk'
    have hall : (i.removeEach (k :: ks)).2 = ((i.remove k).2.removeEach ks).2 ∧
        (i.removeEach (k :: ks)).1 =
          ((i.get? k).map (k, ·)).toList ++ ((i.remove k).2.removeEach ks).1 := by
      rw [removeEach, ← remove_fst]
      rcases i.remove k with ⟨_ | s, j⟩ <;> exact ⟨rfl, rfl⟩
    rw [hall.1, hall.2, hfst, hget, hlist, hcap, h.toList_remove, List.filter_filter]
    refine ⟨?_, hcoh, ?_, remove_capacity i k⟩
    · rw [List.filterMap_cons]
      cases i.get? k <;> rfl
    · refine List.filter_congr fun e _ => ?_
      simp [Bool.and_comm]

/-- What `removeWhere` takes out and what it leaves, both in the order of the index. -/
theorem Coherent.removeWhere (h : i.Coherent) (p : Key → Bool) :
    (i.removeWhere p).1 = i.toList.filter (p ·.1) ∧
      (i.removeWhere p).2.Coherent ∧
      (i.removeWhere p).2.toList = i.toList.filter (!p ·.1) ∧
      (i.removeWhere p).2.capacity = i.capacity := by
  obtain ⟨hfst, hcoh, hlist, hcap⟩ := removeEach_spec h (h.nodup_keys.sublist List.filter_sublist)
  refine ⟨?_, hcoh, hlist.trans ?_, hcap⟩
  · rw [Index.removeWhere, hfst, toList_eq, List.filter_filterMap, List.filterMap_filter]
    refine List.filterMap_congr fun k _ => ?_
    cases i.get? k <;> cases hp : p k <;> simp [hp, Option.filter]
  · refine List.filter_congr fun e he => ?_
    have : e.1 ∈ i.keys := h.keys_toList ▸ List.mem_map_of_mem he
    simp [this]

/-! ### The oldest keys -/

theorem Coherent.popOldest (h : i.Coherent) :
    (i.toList = [] ∧ i.popOldest = none) ∨
      ∃ k s, i.toList.head? = some (k, s) ∧ i.popOldest = some ((k, s), (i.remove k).2) ∧
        (i.remove k).2.toList = i.toList.tail := by
  rcases horder : i.order with _ | ⟨⟨n, k⟩, rest⟩
  · exact .inl ⟨by simp [toList, horder], by simp [Index.popOldest, horder]⟩
  · obtain ⟨s, hs⟩ := (h.linked n k).1 (by simp [horder])
    have hget : i.get? k = some s := by simp [get?, hs]
    have hkeys : i.keys = k :: rest.map (·.2) := by simp [keys, horder]
    have hlist : i.toList =
        (k, s) :: (rest.map (·.2)).filterMap fun k => (i.get? k).map (k, ·) := by
      rw [toList_eq, hkeys, List.filterMap_cons, hget]
      rfl
    have hrest : Assoc.erase i.order n = rest := by
      have hsorted := h.sorted
      rw [horder, List.pairwise_cons] at hsorted
      rw [horder, Assoc.erase, if_pos rfl, Assoc.erase_eq_filter, List.filter_eq_self]
      intro p hp
      have := hsorted.1 p hp
      simp only [decide_eq_true_eq]
      omega
    refine .inr ⟨k, s, by rw [hlist]; rfl, ?_, ?_⟩
    · rw [horder] at hrest
      simp [Index.popOldest, Index.remove, horder, hs, hrest]
    · have hnodup := h.nodup_keys
      rw [hkeys, List.nodup_cons] at hnodup
      rw [h.toList_remove, hlist, List.filter_cons_of_neg (by simp), List.tail_cons,
        List.filter_eq_self]
      intro e he
      obtain ⟨k', hk', hsome⟩ := List.mem_filterMap.1 he
      obtain ⟨s', -, rfl⟩ := Option.map_eq_some_iff.1 hsome
      simp only [decide_eq_true_eq]
      rintro rfl
      exact hnodup.1 hk'

theorem popMany_spec (h : i.Coherent) (n : Nat) :
    (popMany n i).1 = i.toList.take n ∧ (popMany n i).2.Coherent ∧
      (popMany n i).2.toList = i.toList.drop n ∧ (popMany n i).2.capacity = i.capacity := by
  induction n generalizing i with
  | zero => exact ⟨rfl, h, rfl, rfl⟩
  | succ n ih =>
    rcases h.popOldest with ⟨hnil, hpop⟩ | ⟨k, s, hhead, hpop, htail⟩
    · simp [popMany, hpop, hnil, h]
    · obtain ⟨hfst, hcoh, hlist, hcap⟩ := ih (h.remove k)
      have hcons : i.toList = (k, s) :: i.toList.tail := (List.cons_head?_tail hhead).symm
      simp only [popMany, hpop]
      rw [hfst, hlist, hcap, htail]
      refine ⟨?_, hcoh, ?_, remove_capacity i k⟩
      · rw [hcons, List.take_succ_cons, List.tail_cons]
      · rw [hcons, List.drop_succ_cons, List.tail_cons]

/-- Trimming keeps the newest keys and gives the others to the caller. -/
theorem Coherent.trim (h : i.Coherent) :
    i.trim.1 = i.toList.take (i.toList.length - i.capacity) ∧ i.trim.2.Coherent ∧
      i.trim.2.toList = i.toList.drop (i.toList.length - i.capacity) ∧
      i.trim.2.capacity = i.capacity := by
  rw [Index.trim, h.size_eq]
  exact popMany_spec h _

theorem Coherent.setCapacity (h : i.Coherent) (n : Nat) :
    (i.setCapacity n).1 = i.toList.take (i.toList.length - n) ∧ (i.setCapacity n).2.Coherent ∧
      (i.setCapacity n).2.toList = i.toList.drop (i.toList.length - n) ∧
      (i.setCapacity n).2.capacity = n :=
  Coherent.trim (i := { i with capacity := n }) ⟨h.sorted, h.below, h.distinct, h.linked⟩

/-! ### Inserting -/

/-- The index with a new key, before it is trimmed. -/
def push (i : Index) (k : Key) (s : Slot) : Index :=
  { i with
    entries := (k, { slot := s, stamp := i.nextStamp }) :: i.entries
    order := i.order ++ [(i.nextStamp, k)]
    nextStamp := i.nextStamp + 1 }

theorem insert_eq (i : Index) (k : Key) (s : Slot) :
    i.insert k s =
      { previous := i.get? k
        evicted := ((i.remove k).2.push k s).trim.1
        index := ((i.remove k).2.push k s).trim.2 } := by
  unfold insert remove get? push
  cases hk : Assoc.find? i.entries k with
  | none =>
    have : Assoc.erase i.entries k = i.entries := by
      rw [Assoc.erase_eq_filter, List.filter_eq_self]
      intro p hp
      simp only [decide_eq_true_eq]
      rintro rfl
      exact Assoc.find?_eq_none_iff.1 hk (List.mem_map_of_mem hp)
    simp [Assoc.put, this]
  | some e => simp [Assoc.put]

theorem get?_push (i : Index) (k k' : Key) (s : Slot) :
    (i.push k s).get? k' = if k' = k then some s else i.get? k' := by
  by_cases h : k' = k <;> simp [push, get?, Assoc.find?, h]

theorem Coherent.push (h : i.Coherent) {k : Key} (hk : i.get? k = none) (s : Slot) :
    (i.push k s).Coherent ∧ (i.push k s).toList = i.toList ++ [(k, s)] := by
  have hfind : Assoc.find? i.entries k = none := by simpa [get?] using hk
  have hnot : ∀ p ∈ i.order, p.2 ≠ k := by
    rintro ⟨n, _⟩ hp rfl
    obtain ⟨s', hs'⟩ := (h.linked _ _).1 hp
    rw [hfind] at hs'
    cases hs'
  refine ⟨⟨?_, ?_, ?_, ?_⟩, ?_⟩
  · refine List.pairwise_append.2 ⟨h.sorted, List.pairwise_singleton _ _, fun p hp q hq => ?_⟩
    rw [List.mem_singleton.1 hq]
    exact h.below p hp
  · intro p hp
    rcases List.mem_append.1 hp with hp | hp
    · exact Nat.lt_succ_of_lt (h.below p hp)
    · rw [List.mem_singleton.1 hp]
      exact Nat.lt_succ_self _
  · exact List.nodup_cons.2 ⟨Assoc.find?_eq_none_iff.1 hfind, h.distinct⟩
  · intro n k'
    simp only [Index.push, List.mem_append, List.mem_singleton, Assoc.find?, h.linked]
    by_cases hkk : k' = k
    · subst hkk
      simp [hfind, eq_comm]
    · simp [hkk]
  · have hkeys : (i.push k s).keys = i.keys ++ [k] := by simp [Index.push, keys]
    rw [toList_eq, hkeys, List.filterMap_append, toList_eq]
    congr 1
    · refine List.filterMap_congr fun k' hk' => ?_
      obtain ⟨p, hp, rfl⟩ := List.mem_map.1 hk'
      rw [get?_push, if_neg (hnot p hp)]
    · simp [get?_push]

/-- The entries after an insert if none had to go. -/
def placed (i : Index) (k : Key) (s : Slot) : List (Key × Slot) :=
  i.toList.filter (·.1 ≠ k) ++ [(k, s)]

/-- An insert puts its key last, in place of the entry that it had. -/
theorem Coherent.insert (h : i.Coherent) (k : Key) (s : Slot) :
    (i.insert k s).previous = i.get? k ∧
      (i.insert k s).evicted = (i.placed k s).take ((i.placed k s).length - i.capacity) ∧
      (i.insert k s).index.Coherent ∧
      (i.insert k s).index.toList = (i.placed k s).drop ((i.placed k s).length - i.capacity) ∧
      (i.insert k s).index.capacity = i.capacity := by
  obtain ⟨hcoh, hlist⟩ := (h.remove k).push (k := k) (by simp [get?_remove]) s
  obtain ⟨hfst, hcoh', hlist', hcap⟩ := hcoh.trim
  rw [h.toList_remove] at hlist
  have hcapacity : ((i.remove k).2.push k s).capacity = i.capacity := remove_capacity i k
  rw [hlist, hcapacity] at hfst hlist'
  rw [insert_eq]
  exact ⟨rfl, hfst, hcoh', hlist', hcap.trans hcapacity⟩

/-- No key comes twice when one is put last. -/
theorem Coherent.nodup_placed (h : i.Coherent) (k : Key) (s : Slot) :
    ((i.placed k s).map (·.1)).Nodup := by
  rw [placed, List.map_append, List.nodup_append]
  refine ⟨h.nodup_toList.sublist (List.filter_sublist.map _), List.nodup_singleton _, ?_⟩
  rintro a ha b hb rfl
  obtain ⟨e, he, rfl⟩ := List.mem_map.1 ha
  have hne := (List.mem_filter.1 he).2
  rw [List.map_singleton, List.mem_singleton] at hb
  exact absurd hb (by simpa using hne)

/-- A key that is inserted where there is room for any is there. -/
theorem Coherent.get?_insert_self (h : i.Coherent) (hcap : 0 < i.capacity) (k : Key) (s : Slot) :
    (i.insert k s).index.get? k = some s := by
  obtain ⟨-, -, hcoh, hlist, -⟩ := h.insert k s
  rw [← hcoh.mem_toList_iff, hlist, placed, List.drop_append_of_le_length]
  · exact List.mem_append_right _ (List.mem_singleton_self _)
  · rw [List.length_append, List.length_singleton]
    omega

/-- What a key had is given to the caller; the other entries and the new one stay or go. -/
theorem Coherent.insert_perm (h : i.Coherent) (k : Key) (s : Slot) :
    (i.toList ++ [(k, s)]).Perm ((i.insert k s).index.toList ++
      ((i.insert k s).previous.map (k, ·)).toList ++ (i.insert k s).evicted) := by
  obtain ⟨hprev, hevicted, -, hlist, -⟩ := h.insert k s
  have hsplit : (i.insert k s).evicted ++ (i.insert k s).index.toList = i.placed k s := by
    rw [hevicted, hlist, List.take_append_drop]
  have hmine : (i.toList ++ [(k, s)]).Perm (((i.get? k).map (k, ·)).toList ++ i.placed k s) := by
    rw [placed, ← List.append_assoc]
    exact (h.toList_perm k).append_right _
  rw [hprev, List.append_assoc]
  refine hmine.trans ?_
  rw [← hsplit, ← List.append_assoc]
  exact List.perm_append_comm

/-- Of the entries that are taken in none is lost. -/
theorem Coherent.insertAll_perm (h : i.Coherent) (es : List (Key × Slot)) :
    (i.insertAll es).2.Coherent ∧
      (i.toList ++ es).Perm ((i.insertAll es).2.toList ++ (i.insertAll es).1) := by
  induction es generalizing i with
  | nil => exact ⟨h, .refl _⟩
  | cons e es ih =>
    obtain ⟨k, s⟩ := e
    obtain ⟨hlast, hrest⟩ := ih (h.insert k s).2.2.1
    have hfirst := h.insert_perm k s
    have hall : i.insertAll ((k, s) :: es) =
        ((i.insert k s).evicted ++ ((i.insert k s).previous.map (k, ·)).toList ++
          ((i.insert k s).index.insertAll es).1, ((i.insert k s).index.insertAll es).2) := rfl
    rw [hall]
    refine ⟨hlast, ?_⟩
    -- each entry is there as often before as after
    rw [List.perm_iff_count] at hfirst hrest ⊢
    intro e
    have hfirst := hfirst e
    have hrest := hrest e
    rw [← List.singleton_append]
    simp only [List.count_append] at hfirst hrest ⊢
    omega

theorem placed_of_fresh {k : Key} (hk : k ∉ i.toList.map (·.1)) (s : Slot) :
    i.placed k s = i.toList ++ [(k, s)] := by
  rw [placed, List.filter_eq_self.2]
  intro e he
  simp only [decide_eq_true_eq]
  rintro rfl
  exact hk (List.mem_map_of_mem he)

/-- Of entries with new keys the newest stay, and the others are given to the caller. -/
theorem Coherent.insertAll (h : i.Coherent) (hsize : i.toList.length ≤ i.capacity)
    {es : List (Key × Slot)} (hes : ((i.toList ++ es).map (·.1)).Nodup) :
    (i.insertAll es).1 = (i.toList ++ es).take ((i.toList ++ es).length - i.capacity) ∧
      (i.insertAll es).2.Coherent ∧
      (i.insertAll es).2.toList = (i.toList ++ es).drop ((i.toList ++ es).length - i.capacity) ∧
      (i.insertAll es).2.capacity = i.capacity := by
  induction es generalizing i with
  | nil =>
    have : i.toList.length - i.capacity = 0 := by omega
    simp [Index.insertAll, this, h]
  | cons e es ih =>
    obtain ⟨k, s⟩ := e
    have hfresh : k ∉ i.toList.map (·.1) := by
      rw [List.map_append, List.nodup_append] at hes
      exact fun hk => hes.2.2 k hk k (by simp) rfl
    have hnone : i.get? k = none := by
      rw [h.keys_toList, h.mem_keys_iff] at hfresh
      simpa using hfresh
    obtain ⟨hprev, hevicted, hcoh, hlist, hcap⟩ := h.insert k s
    rw [placed_of_fresh hfresh] at hevicted hlist
    -- what goes in the first step, and what is left for the others
    obtain ⟨n, hn⟩ : ∃ n, n = (i.toList ++ [(k, s)]).length - i.capacity := ⟨_, rfl⟩
    rw [← hn] at hevicted hlist
    have hsplit : i.toList ++ (k, s) :: es =
        (i.insert k s).evicted ++ ((i.insert k s).index.toList ++ es) := by
      rw [hevicted, hlist, ← List.append_assoc, List.take_append_drop, List.append_assoc,
        List.singleton_append]
    have hlen : (i.insert k s).evicted.length = n := by
      rw [hevicted, List.length_take]
      omega
    have hlen' : (i.insert k s).index.toList.length = (i.toList ++ [(k, s)]).length - n := by
      rw [hlist, List.length_drop]
    have hcount : (i.toList ++ [(k, s)]).length = i.toList.length + 1 := by simp
    obtain ⟨hdropped, hcoh', hkept, hcap'⟩ := ih hcoh (by omega) (by
      rw [hsplit, List.map_append] at hes
      exact (List.nodup_append.1 hes).2.1)
    have hall : i.insertAll ((k, s) :: es) =
        ((i.insert k s).evicted ++ ((i.insert k s).index.insertAll es).1,
          ((i.insert k s).index.insertAll es).2) := by
      simp [Index.insertAll, hprev, hnone]
    rw [hcount] at hn hlen'
    have htotal : ((i.insert k s).evicted ++ ((i.insert k s).index.toList ++ es)).length -
        i.capacity = n + (((i.insert k s).index.toList ++ es).length - i.capacity) := by
      simp only [List.length_append, hlen, hlen']
      omega
    rw [hall, hsplit, hdropped, hkept, hcap', hcap, htotal, ← hlen, List.take_length_add_append,
      List.drop_length_add_append]
    exact ⟨rfl, hcoh', rfl, rfl⟩

theorem empty_coherent (capacity : Nat) : (Index.empty capacity).Coherent :=
  ⟨List.Pairwise.nil, by simp [empty], List.nodup_nil, by simp [empty, Assoc.find?]⟩

@[simp] theorem toList_empty (capacity : Nat) : (Index.empty capacity).toList = [] := rfl

end Index

end DiskTier
