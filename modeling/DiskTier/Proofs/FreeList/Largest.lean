import DiskTier.Proofs.FreeList.Order

/-!
# A bounded free list keeps the longest slots

Each offer is decided on the spot: the slot is taken, turned away, or takes the place of the shortest
one. All the same, after any offers the free list holds the longest of the slots that were offered,
as many as there is room for, in whatever order they came. The reason is that a free list of bounded
capacity is at any time the end of the one that has room for all, `FreeList.ranked`.
-/

namespace DiskTier

namespace FreeList

variable {f : FreeList} {s t : Slot} {l : List Slot} {slots : List Slot}

/-- Slots in order, the shortest first, and of equally long ones the last first. -/
def ranked (slots : List Slot) : List Slot := slots.foldl (fun l s => shelve s l) []

/-! ### Slots in order -/

theorem shelve_ordered (h : l.Pairwise (·.length ≤ ·.length)) (s : Slot) :
    (shelve s l).Pairwise (·.length ≤ ·.length) := by
  have : Std.Total fun a b : Slot => a.length ≤ b.length := ⟨fun _ _ => UInt32.le_total _ _⟩
  have : IsTrans Slot fun a b => a.length ≤ b.length := ⟨fun _ _ _ => UInt32.le_trans⟩
  exact h.orderedInsert s l

/-- A slot that is no longer than one of the list goes before it. -/
theorem shelve_before (h : s.length ≤ t.length) (l l' : List Slot) :
    shelve s (l ++ t :: l') = shelve s l ++ t :: l' := by
  induction l with
  | nil => exact shelve_cons_of_le h l'
  | cons u l ih =>
    by_cases hu : s.length ≤ u.length
    · rw [List.cons_append, shelve_cons_of_le hu, shelve_cons_of_le hu, List.cons_append,
        List.cons_append]
    · have hlt := UInt32.not_le.1 hu
      rw [List.cons_append, shelve_cons_of_lt hlt, shelve_cons_of_lt hlt, ih, List.cons_append]

theorem length_shelve (s : Slot) (l : List Slot) : (shelve s l).length = l.length + 1 :=
  (shelve_perm s l).length_eq

/-- What a full list makes of an offer is the end of what a longer one makes of it. -/
theorem offered_behind {front rest : List Slot}
    (h : (front ++ t :: rest).Pairwise (·.length ≤ ·.length)) (s : Slot) :
    (offered (t :: rest).length s (t :: rest)).2 =
      (shelve s (front ++ t :: rest)).drop (front.length + 1) := by
  rw [offered_cons (Nat.lt_irrefl _)]
  by_cases hle : s.length ≤ t.length
  · -- the slot comes before the end, which stays
    rw [if_pos hle, shelve_before hle, List.drop_left' (length_shelve s front)]
  · -- the slot comes into the end, which gives up its first one
    have hlt := UInt32.not_le.1 hle
    have hshort : ∀ u ∈ front ++ [t], u.length < s.length := by
      intro u hu
      rcases List.mem_append.1 hu with hu | hu
      · have hut := (List.pairwise_append.1 h).2.2 u hu t List.mem_cons_self
        exact UInt32.lt_of_le_of_lt hut hlt
      · rwa [List.mem_singleton.1 hu]
    rw [if_neg hle, List.append_cons, shelve_append hshort, List.drop_left' (by simp)]

/-- The end of a list makes of an offer what the end of the whole list with the slot is. -/
theorem offered_drop (h : l.Pairwise (·.length ≤ ·.length)) (capacity : Nat) (s : Slot) :
    (offered capacity s (l.drop (l.length - capacity))).2 =
      (shelve s l).drop ((shelve s l).length - capacity) := by
  rw [length_shelve]
  by_cases hroom : l.length < capacity
  · have hall : l.length - capacity = 0 := by omega
    have hall' : l.length + 1 - capacity = 0 := by omega
    rw [hall, hall', List.drop_zero, List.drop_zero, offered_of_room hroom]
  · obtain ⟨front, back, rfl, rfl⟩ : ∃ front back, l = front ++ back ∧ capacity = back.length := by
      refine ⟨l.take (l.length - capacity), l.drop (l.length - capacity), ?_, ?_⟩
      · exact (List.take_append_drop _ l).symm
      · rw [List.length_drop]
        omega
    have hfront : (front ++ back).length - back.length = front.length := by simp
    have hfront' : (front ++ back).length + 1 - back.length = front.length + 1 := by
      rw [List.length_append]
      omega
    rw [hfront, hfront', List.drop_left]
    cases back with
    | nil =>
      -- there is room for nothing
      rw [List.append_nil, ← length_shelve s, List.drop_length]
      rfl
    | cons t rest => exact offered_behind h s

/-! ### Any number of offers -/

/-- A free list that is the end of a list stays that. -/
theorem Valid.toList_releaseAll (h : f.Valid) (hl : l.Pairwise (·.length ≤ ·.length))
    (hf : f.toList = l.drop (l.length - f.capacity)) (slots : List Slot) :
    (f.releaseAll slots).toList =
      (slots.foldl (fun l s => shelve s l) l).drop
        ((slots.foldl (fun l s => shelve s l) l).length - f.capacity) := by
  induction slots generalizing f l with
  | nil => exact hf
  | cons s slots ih =>
    obtain ⟨hvalid, hcap, -⟩ := h.release s
    have hnext : (f.release s).2.toList =
        (shelve s l).drop ((shelve s l).length - (f.release s).2.capacity) := by
      rw [(h.release_eq s).2, hf, offered_drop hl, hcap]
    have hrest := ih hvalid (shelve_ordered hl s) hnext
    rw [hcap] at hrest
    exact hrest

theorem ranked_append_singleton (slots : List Slot) (s : Slot) :
    ranked (slots ++ [s]) = shelve s (ranked slots) := List.foldl_append

theorem ranked_perm (slots : List Slot) : (ranked slots).Perm slots := by
  induction slots using List.reverseRecOn with
  | nil => exact .refl _
  | append_singleton slots s ih =>
    rw [ranked_append_singleton]
    exact (shelve_perm s _).trans ((ih.cons s).trans (List.perm_append_singleton s slots).symm)

theorem ranked_ordered (slots : List Slot) : (ranked slots).Pairwise (·.length ≤ ·.length) := by
  induction slots using List.reverseRecOn with
  | nil => exact .nil
  | append_singleton slots s ih =>
    rw [ranked_append_singleton]
    exact shelve_ordered ih s

/-- What is held is the end of all that was offered, in order. -/
theorem toList_releaseAll (capacity : Nat) (slots : List Slot) :
    ((empty capacity).releaseAll slots).toList =
      (ranked slots).drop (slots.length - capacity) := by
  have h := (empty_valid capacity).toList_releaseAll .nil List.drop_nil.symm slots
  have hlen : (ranked slots).length = slots.length := (ranked_perm slots).length_eq
  rw [← hlen]
  exact h

/-- In order, the same lengths make the same list. -/
theorem lengths_ranked_of_perm {others : List Slot} (h : slots.Perm others) :
    (ranked slots).map (·.length) = (ranked others).map (·.length) := by
  have hperm : ((ranked slots).map (·.length)).Perm ((ranked others).map (·.length)) :=
    ((ranked_perm slots).trans (h.trans (ranked_perm others).symm)).map _
  refine hperm.eq_of_pairwise (fun _ _ _ _ => UInt32.le_antisymm) ?_ ?_
  · exact List.pairwise_map.2 (ranked_ordered slots)
  · exact List.pairwise_map.2 (ranked_ordered others)

/-- Free lists of the same lengths count the same. -/
theorem Valid.counts_eq {g : FreeList} (hf : f.Valid) (hg : g.Valid)
    (h : g.toList.map (·.length) = f.toList.map (·.length)) :
    g.count = f.count ∧ g.freeBytes = f.freeBytes := by
  have hbytes : ∀ l : List Slot, l.map (·.length.toNat) = (l.map (·.length)).map UInt32.toNat := by
    intro l
    rw [List.map_map]
    rfl
  rw [hf.count_eq, hg.count_eq, hf.freeBytes_eq, hg.freeBytes_eq, hbytes, hbytes, h]
  refine ⟨?_, rfl⟩
  rw [← List.length_map (·.length), h, List.length_map]

/-- **A bounded free list keeps the longest slots.** Of the slots that are offered to an empty free
list, one after the other, it holds as many as there is room for, and none of the others is longer
than one of these. So the lengths that are held, the count and the free bytes are the same in
whatever order the slots come. -/
theorem longest_slots_stay (capacity : Nat) (slots : List Slot) :
    let f := (empty capacity).releaseAll slots
    f.count = min capacity slots.length ∧
      (∃ lost, slots.Perm (lost ++ f.toList) ∧
        ∀ s ∈ lost, ∀ t ∈ f.toList, s.length ≤ t.length) ∧
      ∀ {others : List Slot}, slots.Perm others →
        let g := (empty capacity).releaseAll others
        g.toList.map (·.length) = f.toList.map (·.length) ∧ g.count = f.count ∧
          g.freeBytes = f.freeBytes := by
  intro f
  have hvalid : ∀ slots, ((empty capacity).releaseAll slots).Valid := fun slots =>
    ((empty_valid capacity).releaseAll slots).1
  have hlist : f.toList = (ranked slots).drop (slots.length - capacity) :=
    toList_releaseAll capacity slots
  have hlen : (ranked slots).length = slots.length := (ranked_perm slots).length_eq
  have hsplit := List.take_append_drop (slots.length - capacity) (ranked slots)
  rw [← hlist] at hsplit
  refine ⟨?_, ⟨(ranked slots).take (slots.length - capacity), ?_, ?_⟩, fun {others} hperm => ?_⟩
  · rw [(hvalid slots).count_eq, hlist, List.length_drop, hlen]
    omega
  · rw [hsplit]
    exact (ranked_perm slots).symm
  · have hordered := ranked_ordered slots
    rw [← hsplit, List.pairwise_append] at hordered
    exact hordered.2.2
  · have hlengths : ((empty capacity).releaseAll others).toList.map (·.length) =
        f.toList.map (·.length) := by
      rw [hlist, toList_releaseAll, List.map_drop, List.map_drop, lengths_ranked_of_perm hperm,
        hperm.length_eq]
    exact ⟨hlengths, (hvalid slots).counts_eq (hvalid others) hlengths⟩

/-- With room for two, an early short slot is displaced or turned away, whether it comes first or
last, and so is one of three that are equally long. -/
theorem order_of_offers_is_no_matter :
    let slots : List Slot := [⟨0, 5⟩, ⟨5, 9⟩, ⟨14, 9⟩, ⟨23, 0⟩, ⟨23, 9⟩]
    let others : List Slot := [⟨23, 9⟩, ⟨14, 9⟩, ⟨23, 0⟩, ⟨5, 9⟩, ⟨0, 5⟩]
    slots.Perm others ∧ ((empty 2).releaseAll slots).toList = [⟨14, 9⟩, ⟨5, 9⟩] ∧
      ((empty 2).releaseAll others).toList = [⟨14, 9⟩, ⟨23, 9⟩] ∧
      ((empty 2).releaseAll others).toList.map (·.length) =
        ((empty 2).releaseAll slots).toList.map (·.length) := by
  intro slots others
  have hperm : slots.Perm others := by decide
  obtain ⟨-, -, horder⟩ := longest_slots_stay 2 slots
  exact ⟨hperm, by decide, by decide, (horder hperm).1⟩

end FreeList

end DiskTier
