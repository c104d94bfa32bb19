import DiskTier.Proofs.Index.Newest

/-!
# The index as a list in the order of insertion

A `Recency` is a bounded list of entries, each key once, with the key that was inserted last at the
end. It has no stamps and no second map, so that what a request makes of it can be read off. An index
`Presents` such a list, and goes on presenting one while both are given the same requests: they give
the same replies, whatever is asked.
-/

namespace DiskTier

namespace Index

/-! ### Requests and replies -/

/-- What an index can be asked to do. -/
inductive Request where
  | insert (k : Key) (s : Slot)
  | remove (k : Key)
  /-- All keys of which `p` holds are to go. -/
  | removeWhere (p : Key → Bool)
  | popOldest
  | setCapacity (n : Nat)

/-- What comes back. Entries stand in the order in which they left the index. -/
inductive Reply where
  /-- The slot that the key had before, and the entries that had to go. -/
  | inserted (previous : Option Slot) (evicted : List (Key × Slot))
  | removed (slot : Option Slot)
  | removedWhere (entries : List (Key × Slot))
  | popped (entry : Option (Key × Slot))
  | resized (evicted : List (Key × Slot))
  deriving DecidableEq, Repr

/-- Gives requests to something, one after the other. -/
def serveAll {σ : Type} (respond : σ → Request → Reply × σ) (s : σ) :
    List Request → List Reply × σ
  | [] => ([], s)
  | request :: requests =>
    let (reply, next) := respond s request
    let (replies, last) := serveAll respond next requests
    (reply :: replies, last)

def respond (i : Index) : Request → Reply × Index
  | .insert k s => let step := i.insert k s; (.inserted step.previous step.evicted, step.index)
  | .remove k => let (slot, rest) := i.remove k; (.removed slot, rest)
  | .removeWhere p => let (entries, rest) := i.removeWhere p; (.removedWhere entries, rest)
  | .popOldest =>
    match i.popOldest with
    | some (e, rest) => (.popped (some e), rest)
    | none => (.popped none, i)
  | .setCapacity n => let (evicted, rest) := i.setCapacity n; (.resized evicted, rest)

/-- The index that requests make of an empty one. -/
def built (capacity : Nat) (requests : List Request) : Index :=
  (serveAll respond (empty capacity) requests).2

def Request.isInsert : Request → Bool
  | .insert _ _ => true
  | _ => false

end Index

open Index (Request Reply serveAll)

/-! ### The list -/

/-- A bounded list of entries, the one that was inserted last at the end. -/
structure Recency where
  capacity : Nat
  entries : List (Key × Slot)

namespace Recency

def empty (capacity : Nat) : Recency := { capacity, entries := [] }

/-- The entries that have to go, which are the oldest, and the list of the others. -/
def keep (capacity : Nat) (entries : List (Key × Slot)) : List (Key × Slot) × Recency :=
  (entries.take (entries.length - capacity), { capacity, entries := newest capacity entries })

def respond (m : Recency) : Request → Reply × Recency
  | .insert k s =>
    let (evicted, rest) := keep m.capacity (m.entries.filter (·.1 ≠ k) ++ [(k, s)])
    (.inserted (Assoc.find? m.entries k) evicted, rest)
  | .remove k =>
    (.removed (Assoc.find? m.entries k), { m with entries := m.entries.filter (·.1 ≠ k) })
  | .removeWhere p =>
    (.removedWhere (m.entries.filter (p ·.1)), { m with entries := m.entries.filter (!p ·.1) })
  | .popOldest => (.popped m.entries.head?, { m with entries := m.entries.tail })
  | .setCapacity n => let (evicted, rest) := keep n m.entries; (.resized evicted, rest)

theorem length_keep_le (capacity : Nat) (entries : List (Key × Slot)) :
    (keep capacity entries).2.entries.length ≤ capacity := by
  show (newest capacity entries).length ≤ capacity
  rw [length_newest]
  exact Nat.min_le_left _ _

end Recency

namespace Index

variable {i j : Index} {m : Recency}

/-- The index has the entries of the list in their order, and keeps to the same bound. -/
structure Presents (i : Index) (m : Recency) : Prop where
  coherent : i.Coherent
  toList : i.toList = m.entries
  capacity : i.capacity = m.capacity
  room : m.entries.length ≤ m.capacity

/-- A reply with what is left, of the index and of the list. -/
def Agree (x : Reply × Index) (y : Reply × Recency) : Prop := x.1 = y.1 ∧ x.2.Presents y.2

theorem presents_empty (capacity : Nat) : (empty capacity).Presents (.empty capacity) :=
  ⟨empty_coherent capacity, toList_empty capacity, rfl, Nat.zero_le _⟩

/-! ### One request -/

theorem Presents.get? (h : i.Presents m) (k : Key) : i.get? k = Assoc.find? m.entries k := by
  rw [h.coherent.get?_eq, h.toList]

/-- Entries that go leave room for the others. -/
theorem Presents.fewer (h : i.Presents m) (hj : j.Coherent) (hcap : j.capacity = i.capacity)
    {entries : List (Key × Slot)} (hlist : j.toList = entries)
    (hsub : entries.Sublist m.entries) : j.Presents { m with entries } :=
  ⟨hj, hlist, hcap.trans h.capacity, Nat.le_trans hsub.length_le h.room⟩

theorem Presents.insert (h : i.Presents m) (k : Key) (s : Slot) :
    Agree (i.respond (.insert k s)) (m.respond (.insert k s)) := by
  obtain ⟨hprevious, hevicted, hcoh, hlist, hcap⟩ := h.coherent.insert k s
  have hplaced : i.placed k s = m.entries.filter (·.1 ≠ k) ++ [(k, s)] := by
    rw [placed, h.toList]
  rw [hplaced, h.capacity] at hevicted hlist
  constructor
  · show Reply.inserted (i.insert k s).previous (i.insert k s).evicted = _
    rw [hprevious, hevicted, h.get?]
    rfl
  · exact ⟨hcoh, hlist, hcap.trans h.capacity, Recency.length_keep_le _ _⟩

theorem Presents.remove (h : i.Presents m) (k : Key) :
    Agree (i.respond (.remove k)) (m.respond (.remove k)) := by
  constructor
  · show Reply.removed (i.remove k).1 = _
    rw [remove_fst, h.get?]
    rfl
  · have hlist := h.coherent.toList_remove k
    rw [h.toList] at hlist
    exact h.fewer (h.coherent.remove k) (remove_capacity i k) hlist List.filter_sublist

theorem Presents.removeWhere (h : i.Presents m) (p : Key → Bool) :
    Agree (i.respond (.removeWhere p)) (m.respond (.removeWhere p)) := by
  obtain ⟨hremoved, hcoh, hlist, hcap⟩ := h.coherent.removeWhere p
  rw [h.toList] at hremoved hlist
  exact ⟨congrArg Reply.removedWhere hremoved, h.fewer hcoh hcap hlist List.filter_sublist⟩

theorem Presents.popOldest (h : i.Presents m) :
    Agree (i.respond .popOldest) (m.respond .popOldest) := by
  rcases h.coherent.popOldest with ⟨hnil, hpop⟩ | ⟨k, s, hhead, hpop, htail⟩
  · -- nothing goes, and nothing changes
    rw [h.toList] at hnil
    have hlist : i.toList = m.entries.tail := by rw [h.toList, hnil, List.tail_nil]
    have hstep : i.respond .popOldest = (.popped none, i) := by rw [respond, hpop]
    rw [hstep]
    refine ⟨?_, h.fewer h.coherent rfl hlist (List.tail_sublist _)⟩
    show Reply.popped none = .popped m.entries.head?
    rw [hnil, List.head?_nil]
  · rw [h.toList] at hhead htail
    have hstep : i.respond .popOldest = (.popped (some (k, s)), (i.remove k).2) := by
      rw [respond, hpop]
    rw [hstep]
    refine ⟨congrArg Reply.popped hhead.symm, ?_⟩
    exact h.fewer (h.coherent.remove k) (remove_capacity i k) htail (List.tail_sublist _)

theorem Presents.setCapacity (h : i.Presents m) (n : Nat) :
    Agree (i.respond (.setCapacity n)) (m.respond (.setCapacity n)) := by
  obtain ⟨hevicted, hcoh, hlist, hcap⟩ := h.coherent.setCapacity n
  rw [h.toList] at hevicted hlist
  exact ⟨congrArg Reply.resized hevicted, hcoh, hlist, hcap, Recency.length_keep_le _ _⟩

/-- Index and list give the same reply, and the one goes on presenting the other. -/
theorem Presents.respond (h : i.Presents m) (request : Request) :
    Agree (i.respond request) (m.respond request) := by
  cases request with
  | insert k s => exact h.insert k s
  | remove k => exact h.remove k
  | removeWhere p => exact h.removeWhere p
  | popOldest => exact h.popOldest
  | setCapacity n => exact h.setCapacity n

/-! ### Any number of requests -/

theorem Presents.serveAll (h : i.Presents m) (requests : List Request) :
    (serveAll Index.respond i requests).1 = (serveAll Recency.respond m requests).1 ∧
      (serveAll Index.respond i requests).2.Presents
        (serveAll Recency.respond m requests).2 := by
  induction requests generalizing i m with
  | nil => exact ⟨rfl, h⟩
  | cons request requests ih =>
    obtain ⟨hreply, hnext⟩ := h.respond request
    obtain ⟨hreplies, hlast⟩ := ih hnext
    exact ⟨congrArg₂ List.cons hreply hreplies, hlast⟩

/-- Indexes that present the same list cannot be told apart by any requests. -/
theorem Presents.replies_eq (hi : i.Presents m) (hj : j.Presents m) (requests : List Request) :
    (Index.serveAll Index.respond i requests).1 = (Index.serveAll Index.respond j requests).1 :=
  (hi.serveAll requests).1.trans (hj.serveAll requests).1.symm

theorem presents_built (capacity : Nat) (requests : List Request) :
    (built capacity requests).Presents
      (Index.serveAll Recency.respond (.empty capacity) requests).2 :=
  ((presents_empty capacity).serveAll requests).2

/-! ### Stamps -/

@[simp] theorem remove_nextStamp (i : Index) (k : Key) :
    (i.remove k).2.nextStamp = i.nextStamp := by
  unfold Index.remove
  split <;> rfl

theorem removeEach_nextStamp (i : Index) (ks : List Key) :
    (i.removeEach ks).2.nextStamp = i.nextStamp := by
  induction ks generalizing i with
  | nil => rfl
  | cons k ks ih =>
    rw [removeEach]
    split
    · next i' hremove => rw [ih, ← remove_nextStamp i k, hremove]
    · next s i' hremove =>
      show (i'.removeEach ks).2.nextStamp = _
      rw [ih, ← remove_nextStamp i k, hremove]

theorem popOldest_nextStamp {e : Key × Slot} (h : i.popOldest = some (e, j)) :
    j.nextStamp = i.nextStamp := by
  unfold Index.popOldest at h
  split at h
  · cases h
  · obtain ⟨found, -, heq⟩ := Option.map_eq_some_iff.1 h
    cases heq
    rfl

theorem popMany_nextStamp (n : Nat) (i : Index) : (popMany n i).2.nextStamp = i.nextStamp := by
  induction n generalizing i with
  | zero => rfl
  | succ n ih =>
    rw [popMany]
    split
    · rfl
    · next e i' hpop => exact (ih i').trans (popOldest_nextStamp hpop)

/-- Each insert takes a stamp of its own, and nothing else takes one. -/
theorem respond_nextStamp (i : Index) (request : Request) :
    (i.respond request).2.nextStamp = i.nextStamp + if request.isInsert then 1 else 0 := by
  cases request with
  | insert k s => exact popMany_nextStamp _ _
  | remove k => exact remove_nextStamp i k
  | removeWhere p => exact removeEach_nextStamp i _
  | popOldest =>
    rw [Index.respond]
    split
    · next e i' hpop => exact popOldest_nextStamp hpop
    · rfl
  | setCapacity n => exact popMany_nextStamp _ _

theorem serveAll_nextStamp (i : Index) (requests : List Request) :
    (Index.serveAll Index.respond i requests).2.nextStamp =
      i.nextStamp + requests.countP Request.isInsert := by
  induction requests generalizing i with
  | nil => rfl
  | cons request requests ih =>
    show (Index.serveAll Index.respond (i.respond request).2 requests).2.nextStamp = _
    rw [ih, respond_nextStamp, List.countP_cons]
    omega

/-! ### What is found in the index -/

/-- All that can be read off the index is what stands in the list. -/
structure Shows (i : Index) (m : Recency) : Prop where
  toList : i.toList = m.entries
  keys : i.keys = m.entries.map (·.1)
  oldest? : i.oldest? = m.entries.head?.map (·.1)
  get? : ∀ k, i.get? k = Assoc.find? m.entries k
  contains : ∀ k, i.contains k ↔ k ∈ m.entries.map (·.1)
  size : i.size = m.entries.length
  isEmpty : i.isEmpty = m.entries.isEmpty
  capacity : i.capacity = m.capacity

theorem Presents.shows (h : i.Presents m) : i.Shows m := by
  have hkeys : i.keys = m.entries.map (·.1) := by rw [← h.coherent.keys_toList, h.toList]
  have hsize : i.size = m.entries.length := by rw [h.coherent.size_eq, h.toList]
  refine ⟨h.toList, hkeys, ?_, h.get?, ?_, hsize, ?_, h.capacity⟩
  · rw [Index.oldest?, hkeys, List.head?_map]
  · intro k
    rw [← hkeys, h.coherent.mem_keys_iff, Index.contains, Index.get?, Option.isSome_map]
  · rw [Bool.eq_iff_iff, h.coherent.isEmpty_iff, h.toList, List.isEmpty_iff]

/-! ### Inserts alone -/

def inserts (es : List (Key × Slot)) : List Request := es.map fun e => .insert e.1 e.2

theorem serveAll_inserts (i : Index) (es : List (Key × Slot)) :
    (Index.serveAll Index.respond i (inserts es)).2 = (i.insertAll es).2 := by
  induction es generalizing i with
  | nil => rfl
  | cons e es ih => exact ih (i.insert e.1 e.2).index

theorem keys_lastEach (es : List (Key × Slot)) :
    (lastEach es).map (·.1) = (es.map (·.1)).dedup := by
  induction es with
  | nil => rfl
  | cons e es ih =>
    rw [lastEach, List.map_cons]
    split
    · next hmem => rw [ih, List.dedup_cons_of_mem hmem]
    · next hmem => rw [List.map_cons, ih, List.dedup_cons_of_notMem hmem]

theorem toList_inserts (capacity : Nat) (es : List (Key × Slot)) :
    (built capacity (inserts es)).toList = newest capacity (lastEach es) := by
  rw [built, serveAll_inserts]
  exact ((empty_coherent capacity).toList_insertAll (Nat.zero_le _) es).2

/-- After inserts alone the newest of the keys are there, in the order in which each was inserted
last. -/
theorem keys_inserts (capacity : Nat) (es : List (Key × Slot)) :
    (built capacity (inserts es)).keys = newest capacity (es.map (·.1)).dedup := by
  rw [← (presents_built capacity (inserts es)).coherent.keys_toList, toList_inserts, map_newest,
    keys_lastEach]

/-- **An index is a list in the order of insertion.** Whatever requests are made of it, it gives the
replies of the list and shows what stands there, its two maps belong together, and it keeps to its
bound. Its stamps are the numbers of its inserts. After inserts alone it has the newest of the keys,
each with its last slot. -/
theorem behaves_as_list (capacity : Nat) (requests : List Request) :
    (Index.serveAll Index.respond (empty capacity) requests).1 =
        (Index.serveAll Recency.respond (.empty capacity) requests).1 ∧
      (built capacity requests).Shows
        (Index.serveAll Recency.respond (.empty capacity) requests).2 ∧
      (built capacity requests).keys.Nodup ∧
      (built capacity requests).Coherent ∧
      (built capacity requests).size ≤ (built capacity requests).capacity ∧
      (built capacity requests).nextStamp = requests.countP Request.isInsert ∧
      ∀ es : List (Key × Slot),
        (built capacity (inserts es)).keys = newest capacity (es.map (·.1)).dedup ∧
        (built capacity (inserts es)).size = min capacity (es.map (·.1)).dedup.length ∧
        (built capacity (inserts es)).toList = newest capacity (lastEach es) := by
  obtain ⟨hreplies, hbuilt⟩ := (presents_empty capacity).serveAll requests
  have hshows := hbuilt.shows
  refine ⟨hreplies, hshows, hbuilt.coherent.nodup_keys, hbuilt.coherent, ?_, ?_, fun es => ?_⟩
  · exact hshows.size ▸ hshows.capacity ▸ hbuilt.room
  · exact (serveAll_nextStamp _ requests).trans (Nat.zero_add _)
  · have hkeys := keys_inserts capacity es
    refine ⟨hkeys, ?_, toList_inserts capacity es⟩
    have hlist := (presents_built capacity (inserts es)).shows
    rw [hlist.size, ← List.length_map (·.1), ← hlist.keys, hkeys, length_newest]

end Index

end DiskTier
