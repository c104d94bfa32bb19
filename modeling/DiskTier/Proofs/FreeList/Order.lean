import DiskTier.Proofs.FreeList

/-!
# The free list in order

`FreeList.toList` has the shortest slots first, and of equally long ones the latest. What an
operation does to the buckets it does to this list: a slot that comes is put before the first one
that is no shorter, the first one that is long enough is given away, and a full list gives up its
first slot for a longer one, `FreeList.offered`.
-/

namespace DiskTier

namespace FreeList

variable {f g : FreeList} {s t : Slot} {l : List Slot} {least : UInt32}
  {buckets rest : List (UInt32 × List Slot)}

/-! ### Lists in order -/

/-- Puts a slot before the first one that is no shorter. -/
def shelve (s : Slot) (l : List Slot) : List Slot :=
  l.orderedInsert (fun a b => a.length ≤ b.length) s

/-- Offers a slot to a list of at most `capacity` slots; also whether it was taken. -/
def offered (capacity : Nat) (s : Slot) (l : List Slot) : Bool × List Slot :=
  if l.length < capacity then (true, shelve s l)
  else
    match l with
    | [] => (false, [])
    | t :: rest => if s.length ≤ t.length then (false, t :: rest) else (true, shelve s rest)

theorem offered_of_room {capacity : Nat} (h : l.length < capacity) (s : Slot) :
    offered capacity s l = (true, shelve s l) := if_pos h

theorem offered_nil {capacity : Nat} (h : ¬ 0 < capacity) (s : Slot) :
    offered capacity s [] = (false, []) := if_neg h

theorem offered_cons {capacity : Nat} (h : ¬ (t :: l).length < capacity) (s : Slot) :
    offered capacity s (t :: l) =
      if s.length ≤ t.length then (false, t :: l) else (true, shelve s l) := if_neg h

theorem shelve_perm (s : Slot) (l : List Slot) : (shelve s l).Perm (s :: l) :=
  List.perm_orderedInsert _ s l

theorem mem_shelve : t ∈ shelve s l ↔ t = s ∨ t ∈ l := List.mem_orderedInsert _

theorem shelve_cons_of_le (h : s.length ≤ t.length) (l : List Slot) :
    shelve s (t :: l) = s :: t :: l := List.orderedInsert_cons_of_le _ l h

theorem shelve_cons_of_lt (h : t.length < s.length) (l : List Slot) :
    shelve s (t :: l) = t :: shelve s l := List.orderedInsert_of_not_le _ l (UInt32.not_le.2 h)

theorem shelve_of_le (h : ∀ t ∈ l, s.length ≤ t.length) : shelve s l = s :: l := by
  cases l with
  | nil => rfl
  | cons t l => exact shelve_cons_of_le (h t List.mem_cons_self) l

theorem shelve_append (h : ∀ t ∈ l, t.length < s.length) (l' : List Slot) :
    shelve s (l ++ l') = l ++ shelve s l' := by
  induction l with
  | nil => rfl
  | cons t l ih =>
    rw [List.cons_append, shelve_cons_of_lt (h t List.mem_cons_self),
      ih fun u hu => h u (List.mem_cons_of_mem t hu), List.cons_append]

/-! ### Buckets in order -/

/-- The slots of the later buckets are longer. -/
theorem Sorted.lt_of_mem {n : UInt32} {slots : List Slot} (h : Sorted ((n, slots) :: rest))
    (ht : t ∈ rest.flatMap (·.2)) : n < t.length := by
  obtain ⟨b, hb, ht⟩ := List.mem_flatMap.1 ht
  rw [h.tail.uniform b hb t ht]
  exact (List.pairwise_cons.1 h.ascending).1 b hb

theorem Sorted.le_of_mem {n : UInt32} {slots : List Slot} (h : Sorted ((n, slots) :: rest))
    (ht : t ∈ slots ++ rest.flatMap (·.2)) : n ≤ t.length := by
  rcases List.mem_append.1 ht with ht | ht
  · exact UInt32.le_of_eq (h.uniform _ List.mem_cons_self t ht).symm
  · exact UInt32.le_of_lt (h.lt_of_mem ht)

theorem Sorted.ordered (h : Sorted buckets) :
    (buckets.flatMap (·.2)).Pairwise (·.length ≤ ·.length) := by
  induction buckets with
  | nil => exact .nil
  | cons b buckets ih =>
    obtain ⟨n, slots⟩ := b
    have hsame := h.uniform (n, slots) List.mem_cons_self
    refine List.pairwise_append.2 ⟨?_, ih h.tail, fun s hs t ht => ?_⟩
    · refine List.pairwise_of_forall_mem_list fun s hs t ht => ?_
      exact UInt32.le_of_eq ((hsame s hs).trans (hsame t ht).symm)
    · rw [hsame s hs]
      exact UInt32.le_of_lt (h.lt_of_mem ht)

theorem Sorted.putInto_eq (h : Sorted buckets) (s : Slot) :
    (putInto s buckets).flatMap (·.2) = shelve s (buckets.flatMap (·.2)) := by
  induction buckets with
  | nil => rfl
  | cons b buckets ih =>
    obtain ⟨n, slots⟩ := b
    have hsame := h.uniform (n, slots) List.mem_cons_self
    rw [putInto, List.flatMap_cons]
    split
    · next hlt =>
      refine (shelve_of_le fun t ht => ?_).symm
      exact UInt32.le_trans (UInt32.le_of_lt hlt) (h.le_of_mem ht)
    · next hge =>
      split
      · next heq => exact (shelve_of_le fun t ht => heq ▸ h.le_of_mem ht).symm
      · next hne =>
        have hlt : n < s.length := UInt32.lt_of_le_of_ne (UInt32.not_lt.1 hge) (Ne.symm hne)
        rw [List.flatMap_cons, ih h.tail, shelve_append fun t ht => ?_]
        rw [hsame t ht]
        exact hlt

/-- The best bucket gives the first slot that is long enough. -/
theorem Sorted.takeFrom_best (h : Sorted buckets) (least : UInt32) :
    ((buckets.find? (least ≤ ·.1)).bind fun b => takeFrom b.1 buckets).map
        (fun p => (p.1, p.2.flatMap (·.2))) =
      ((buckets.flatMap (·.2)).find? (least ≤ ·.length)).map
        (·, (buckets.flatMap (·.2)).eraseP (least ≤ ·.length)) := by
  induction buckets with
  | nil => rfl
  | cons b buckets ih =>
    obtain ⟨n, slots⟩ := b
    have hsame := h.uniform (n, slots) List.mem_cons_self
    rw [List.flatMap_cons]
    by_cases hn : least ≤ n
    · -- the bucket has a slot, and that comes first
      obtain ⟨t, more, rfl⟩ := List.exists_cons_of_ne_nil (h.nonempty _ List.mem_cons_self)
      have ht : least ≤ t.length := by rwa [hsame t List.mem_cons_self]
      rw [List.find?_cons_of_pos (by simpa), List.cons_append, List.find?_cons_of_pos (by simpa),
        List.eraseP_cons_of_pos (by simpa)]
      cases more <;> simp [takeFrom]
    · -- the slots of this bucket are too short, and stay in front of what the others leave
      have hshort : ∀ t ∈ slots, ¬ decide (least ≤ t.length) = true := by
        intro t ht
        rw [hsame t ht]
        simpa using hn
      have hnone : slots.find? (least ≤ ·.length) = none := List.find?_eq_none.2 hshort
      have hother :
          (buckets.find? (least ≤ ·.1)).bind (fun b => takeFrom b.1 ((n, slots) :: buckets)) =
            ((buckets.find? (least ≤ ·.1)).bind fun b => takeFrom b.1 buckets).map
              fun p => (p.1, (n, slots) :: p.2) := by
        cases hbest : buckets.find? (least ≤ ·.1) with
        | none => rfl
        | some b =>
          have hb : least ≤ b.1 := by simpa using List.find?_some hbest
          have hne : n ≠ b.1 := fun heq => hn (heq ▸ hb)
          simp only [Option.bind_some, takeFrom, if_neg hne]
      have hmap := congrArg (Option.map fun p : Slot × List Slot => (p.1, slots ++ p.2)) (ih h.tail)
      rw [Option.map_map, Option.map_map] at hmap
      rw [List.find?_cons_of_neg (by simpa using hn), List.find?_append, hnone, Option.none_or,
        List.eraseP_append_right _ hshort, hother, Option.map_map]
      exact hmap

/-! ### The operations on the list -/

theorem Valid.ordered (h : f.Valid) : f.toList.Pairwise (·.length ≤ ·.length) := h.sorted.ordered

theorem Valid.toList_add (h : f.Valid) (s : Slot) : (f.add s).toList = shelve s f.toList :=
  h.sorted.putInto_eq s

/-- The first slot that is long enough is given away. -/
theorem Valid.reserve?_eq (h : f.Valid) (least : UInt32) :
    (f.reserve? least).map (fun p => (p.1, p.2.toList)) =
      (f.toList.find? (least ≤ ·.length)).map (·, f.toList.eraseP (least ≤ ·.length)) := by
  refine Eq.trans ?_ (h.sorted.takeFrom_best least)
  rw [FreeList.reserve?, bestLength?]
  cases f.buckets.find? (least ≤ ·.1) with
  | none => rfl
  | some b =>
    show ((takeFrom b.1 f.buckets).map _).map _ = (takeFrom b.1 f.buckets).map _
    rw [Option.map_map]
    rfl

theorem Valid.reserve?_eq_some (h : f.Valid) (hr : f.reserve? least = some (s, g)) :
    f.toList.find? (least ≤ ·.length) = some s ∧ g.toList = f.toList.eraseP (least ≤ ·.length) := by
  have heq := h.reserve?_eq least
  rw [hr, Option.map_some, eq_comm, Option.map_eq_some_iff] at heq
  obtain ⟨t, ht, heq⟩ := heq
  obtain ⟨rfl, hlist⟩ := Prod.mk.inj heq
  exact ⟨ht, hlist.symm⟩

/-- The slot that is given away stands behind those that are too short, and before longer ones. -/
theorem Valid.reserve?_split (h : f.Valid) (hr : f.reserve? least = some (s, g)) :
    ∃ before behind, f.toList = before ++ s :: behind ∧ g.toList = before ++ behind ∧
      least ≤ s.length ∧ (∀ t ∈ before, ¬ least ≤ t.length) ∧
      ∀ t ∈ behind, s.length ≤ t.length := by
  obtain ⟨hfind, hrest⟩ := h.reserve?_eq_some hr
  obtain ⟨hs, before, behind, hlist, hshort⟩ := List.find?_eq_some_iff_append.1 hfind
  have hle : least ≤ s.length := by simpa using hs
  have hbefore : ∀ t ∈ before, ¬ least ≤ t.length := fun t ht => by simpa using hshort t ht
  have hordered := h.ordered
  rw [hlist, List.pairwise_append, List.pairwise_cons] at hordered
  refine ⟨before, behind, hlist, ?_, hle, hbefore, hordered.2.1.1⟩
  rw [hrest, hlist, List.eraseP_append_right _ (by simpa using hbefore),
    List.eraseP_cons_of_pos (by simpa using hle)]

theorem Valid.reserve?_eq_none_iff (h : f.Valid) :
    f.reserve? least = none ↔ ∀ t ∈ f.toList, t.length < least := by
  have heq := congrArg Option.isNone (h.reserve?_eq least)
  rw [Option.isNone_map, Option.isNone_map] at heq
  rw [← Option.isNone_iff_eq_none, heq, Option.isNone_iff_eq_none, List.find?_eq_none]
  simp

/-- The shortest length is that of the first slot. -/
theorem Valid.bestLength?_zero (h : f.Valid) :
    f.bestLength? 0 = f.toList.head?.map (·.length) := by
  rw [bestLength?, toList]
  rcases hb : f.buckets with _ | ⟨⟨n, slots⟩, rest⟩
  · rfl
  · have hsorted : Sorted ((n, slots) :: rest) := hb ▸ h.sorted
    obtain ⟨t, more, rfl⟩ := List.exists_cons_of_ne_nil (hsorted.nonempty _ List.mem_cons_self)
    have ht := hsorted.uniform _ List.mem_cons_self t List.mem_cons_self
    rw [List.find?_cons_of_pos (by simp)]
    exact congrArg some ht.symm

/-- Asked for the shortest length, the free list gives its first slot. -/
theorem Valid.takeOne_first (h : f.Valid) (hl : f.toList = t :: l) :
    ∃ g, f.takeOne t.length = some (t, g) ∧ g.toList = l := by
  have hbest := h.reserve?_eq 0
  rw [FreeList.reserve?, h.bestLength?_zero, hl, List.find?_cons_of_pos (by simp),
    List.eraseP_cons_of_pos (by simp)] at hbest
  obtain ⟨⟨u, g⟩, hg, heq⟩ := Option.map_eq_some_iff.1 hbest
  cases heq
  exact ⟨g, hg, rfl⟩

/-- What the free list makes of an offer, its slots in order make of it. -/
theorem Valid.release_eq (h : f.Valid) (s : Slot) :
    (f.release s).1 = (offered f.capacity s f.toList).1 ∧
      (f.release s).2.toList = (offered f.capacity s f.toList).2 := by
  suffices ((f.release s).1, (f.release s).2.toList) = offered f.capacity s f.toList from
    ⟨congrArg Prod.fst this, congrArg Prod.snd this⟩
  have hcount := h.count_eq
  unfold FreeList.release
  by_cases hroom : f.count < f.capacity
  · have hcap : f.capacity ≠ 0 := by omega
    rw [if_neg hcap, if_pos hroom, offered_of_room (hcount ▸ hroom), h.toList_add]
  · rw [if_neg hroom, h.bestLength?_zero]
    rw [hcount] at hroom
    rcases hl : f.toList with _ | ⟨t, l⟩
    · rw [hl] at hroom
      rw [offered_nil hroom]
      split <;> simp [hl]
    · rw [hl] at hroom hcount
      have hcap : f.capacity ≠ 0 := by
        have := h.count_le
        rw [hcount, List.length_cons] at this
        omega
      obtain ⟨g, hg, hgl⟩ := h.takeOne_first hl
      rw [offered_cons hroom, if_neg hcap]
      simp only [List.head?_cons, Option.map_some, hg]
      split
      · rw [hl]
      · rw [(h.takeOne hg).2.2.1.toList_add, hgl]

/-! ### The list determines the buckets -/

/-- The first bucket has all slots of its length. -/
theorem Sorted.filter_first {n : UInt32} {slots : List Slot} (h : Sorted ((n, slots) :: rest)) :
    (slots ++ rest.flatMap (·.2)).filter (·.length = n) = slots := by
  have hfirst : slots.filter (·.length = n) = slots :=
    List.filter_eq_self.2 fun t ht => decide_eq_true (h.uniform _ List.mem_cons_self t ht)
  have hrest : (rest.flatMap (·.2)).filter (·.length = n) = [] := by
    refine List.filter_eq_nil_iff.2 fun t ht => ?_
    simpa using (UInt32.ne_of_lt (h.lt_of_mem ht)).symm
  rw [List.filter_append, hfirst, hrest, List.append_nil]

theorem Sorted.ext {buckets' : List (UInt32 × List Slot)} (h : Sorted buckets)
    (h' : Sorted buckets') (heq : buckets.flatMap (·.2) = buckets'.flatMap (·.2)) :
    buckets = buckets' := by
  induction buckets generalizing buckets' with
  | nil =>
    rcases buckets' with _ | ⟨⟨n, slots⟩, rest⟩
    · rfl
    · have hnil := List.append_eq_nil_iff.1 heq.symm
      exact absurd hnil.1 (h'.nonempty _ List.mem_cons_self)
  | cons b buckets ih =>
    obtain ⟨n, slots⟩ := b
    obtain ⟨t, more, rfl⟩ := List.exists_cons_of_ne_nil (h.nonempty _ List.mem_cons_self)
    rcases buckets' with _ | ⟨⟨m, slots⟩, rest⟩
    · cases heq
    · obtain ⟨u, less, rfl⟩ := List.exists_cons_of_ne_nil (h'.nonempty _ List.mem_cons_self)
      -- both lists have the same first slot, so their first buckets have the same length
      have hfirst : t = u := (List.cons.inj heq).1
      have ht : t.length = n := h.uniform _ List.mem_cons_self t List.mem_cons_self
      have hu : u.length = m := h'.uniform _ List.mem_cons_self u List.mem_cons_self
      have hlength : n = m := by rw [← ht, hfirst, hu]
      have hslots : t :: more = u :: less := by
        have hfilter := congrArg (List.filter (·.length = n)) heq
        rw [List.flatMap_cons, List.flatMap_cons, h.filter_first] at hfilter
        rw [hfilter, hlength, h'.filter_first]
      have hrest := heq
      rw [List.flatMap_cons, List.flatMap_cons, hslots] at hrest
      rw [hlength, hslots, ih h.tail h'.tail (List.append_cancel_left hrest)]

/-- Free lists of the same slots in the same order are equal. -/
theorem Valid.ext (h : f.Valid) (h' : g.Valid) (hcap : f.capacity = g.capacity)
    (heq : f.toList = g.toList) : f = g := by
  have hbuckets : f.buckets = g.buckets := h.sorted.ext h'.sorted heq
  have hcount : f.count = g.count := by rw [h.count_eq, h'.count_eq, heq]
  cases f
  cases g
  cases hbuckets
  cases hcount
  cases hcap
  rfl

/-- A slot that was given away and comes back finds its old place. -/
theorem Valid.release_reserve? (h : f.Valid) (hr : f.reserve? least = some (s, g)) :
    (g.release s).2 = f := by
  obtain ⟨before, behind, hf, hg, hle, hbefore, hbehind⟩ := h.reserve?_split hr
  obtain ⟨-, -, hvalid, hcap⟩ := h.reserve? hr
  obtain ⟨hvalid', hcap', -⟩ := hvalid.release s
  refine hvalid'.ext h (hcap'.trans hcap) ?_
  -- the slot that was taken has left room for itself
  have hroom : g.toList.length < g.capacity := by
    have hcount := h.count_le
    rw [h.count_eq, hf, List.length_append, List.length_cons] at hcount
    rw [hg, hcap, List.length_append]
    omega
  have hshort : ∀ t ∈ before, t.length < s.length := fun t ht =>
    UInt32.lt_of_lt_of_le (UInt32.not_le.1 (hbefore t ht)) hle
  rw [(hvalid.release_eq s).2, offered_of_room hroom, hg, hf, shelve_append hshort,
    shelve_of_le hbehind]

end FreeList

end DiskTier
