import DiskTier.Store
import DiskTier.Proofs.FreeList
import DiskTier.Proofs.Index.Newest
import DiskTier.Proofs.RecordFile
import DiskTier.Proofs.Target

/-!
# Who owns the data file

`Store.Sound` is the invariant of a store and its two files. The slots of the index and of the free
list divide up the data file. The key file lists slots as they were when it was saved; each slot of
today begins where a listed one does and is not longer, or is apart from it. So whatever is written
today lies at the start of a listed slot or outside of it, and the listed slots stay `Layered`.

`Index.records` is what the store holds for its keys, oldest first. Every operation is told by what
it does to that.
-/

namespace DiskTier

/-! ### Records -/

namespace Index

variable {i : Index} {k : Key} {s : Slot}

/-- The slots of the keys, oldest first. -/
def slots (i : Index) : List Slot := i.toList.map (·.2)

/-- The records of the keys, oldest first. -/
def records (i : Index) (data : Bytes) : List (Key × Bytes) :=
  i.toList.map fun e => (e.1, e.2.slice data)

/-- The slots of an index are that of a key, if it has one, and those of the others. -/
theorem Coherent.slots_perm (h : i.Coherent) (k : Key) :
    i.slots.Perm ((i.get? k).toList ++ (i.toList.filter (·.1 ≠ k)).map (·.2)) := by
  have hmine : ((i.get? k).map (k, ·)).toList.map (·.2) = (i.get? k).toList := by
    cases i.get? k <;> rfl
  rw [slots, ← hmine, ← List.map_append]
  exact (h.toList_perm k).map _

end Index

/-- The records after that of `k` became `record`, if `n` keys have room. -/
def putRecord (n : Nat) (k : Key) (record : Bytes) (records : List (Key × Bytes)) :
    List (Key × Bytes) :=
  newest n (records.filter (·.1 ≠ k) ++ [(k, record)])

namespace Store

/-- All slots that a key or the free list has. -/
def slots (s : Store) : List Slot := s.index.slots ++ s.free.toList

/-- The slots of the store and those that the key file lists divide up the data file, and each slot
with a key holds records of the elements `H`. -/
structure Sound (H : List Element) (s : Store) (data : Bytes) (listed : List (Key × Slot)) :
    Prop where
  coherent : s.index.Coherent
  valid : s.free.Valid
  size_le : s.index.toList.length ≤ s.index.capacity
  owned : Layout data.length s.slots
  listing : Layout data.length (listed.map (·.2))
  names : (listed.map (·.1)).Nodup
  nested : ∀ t ∈ s.slots, ∀ u ∈ listed.map (·.2), t.Nested u
  layered : ∀ t ∈ s.index.slots ++ listed.map (·.2), Layered H (t.slice data)

variable {H H' : List Element} {s s' : Store} {data : Bytes} {listed : List (Key × Slot)} {k : Key}
  {slot : Slot}

theorem Sound.mono (h : Sound H s data listed) (hsub : H ⊆ H') : Sound H' s data listed :=
  { h with layered := fun t ht => (h.layered t ht).mono hsub }

/-- Only the index and the free list matter. -/
theorem Sound.congr (h : Sound H s data listed) (hi : s'.index = s.index) (hf : s'.free = s.free) :
    Sound H s' data listed := by
  have hslots : s'.slots = s.slots := by rw [Store.slots, Store.slots, hi, hf]
  exact ⟨hi ▸ h.coherent, hf ▸ h.valid, hi ▸ h.size_le, hslots ▸ h.owned, h.listing, h.names,
    hslots ▸ h.nested, hi ▸ h.layered⟩

theorem Sound.mem_slots (h : Sound H s data listed) (hk : s.index.get? k = some slot) :
    slot ∈ s.index.slots :=
  List.mem_map.2 ⟨(k, slot), h.coherent.mem_toList_iff.2 hk, rfl⟩

/-- What no operation but a compaction or a reset changes. -/
structure Like (s s' : Store) : Prop where
  generation : s'.generation = s.generation
  capacity : s'.index.capacity = s.index.capacity
  freeCapacity : s'.free.capacity = s.free.capacity

/-- A store that gives up keys and slots stays sound. -/
theorem Sound.shrink (h : Sound H s data listed) (hc : s'.index.Coherent) (hv : s'.free.Valid)
    (hcap : s'.index.capacity = s.index.capacity) (hsub : s'.index.toList.Sublist s.index.toList)
    (hslots : s'.slots.Subperm s.slots) : Sound H s' data listed where
  coherent := hc
  valid := hv
  size_le := hcap ▸ Nat.le_trans hsub.length_le h.size_le
  owned := h.owned.subperm hslots
  listing := h.listing
  names := h.names
  nested t ht := h.nested t (hslots.subset ht)
  layered t ht := by
    apply h.layered
    rcases List.mem_append.1 ht with ht | ht
    · exact List.mem_append_left _ ((hsub.map _).subset ht)
    · exact List.mem_append_right _ ht

/-! ### Putting -/

/-- The slots of the other keys, that which `k` gives up for `slot`, and the free ones. -/
def besides (s : Store) (k : Key) (slot : Slot) : List Slot :=
  (s.index.toList.filter (·.1 ≠ k)).map (·.2) ++
    ((s.index.get? k).filter (·.offset ≠ slot.offset)).toList ++ s.free.toList

theorem install_slots (hc : s.index.Coherent) (hv : s.free.Valid) (k : Key) (slot : Slot) :
    (s.install k slot).slots.Subperm (slot :: s.besides k slot) := by
  obtain ⟨hprev, hevicted, -, hlist, -⟩ := hc.insert k slot
  obtain ⟨-, -, hfree⟩ := hv.releaseAll ((s.index.insert k slot).evicted.map (·.2) ++
    ((s.index.insert k slot).previous.filter (·.offset ≠ slot.offset)).toList)
  rw [Store.slots, Store.install, Index.slots]
  simp only [hlist]
  refine ((List.subperm_append_left _).2 hfree).trans ?_
  rw [hprev, hevicted, ← List.append_assoc, ← List.append_assoc, ← List.map_append]
  -- the kept and the evicted entries are those of the other keys and the new one
  have hall : ((s.index.placed k slot).drop ((s.index.placed k slot).length - s.index.capacity) ++
      (s.index.placed k slot).take ((s.index.placed k slot).length - s.index.capacity)).Perm
      (s.index.placed k slot) := by
    refine List.perm_append_comm.trans ?_
    rw [List.take_append_drop]
  have hplaced : ((s.index.placed k slot).map (·.2)).Perm
      (slot :: (s.index.toList.filter (·.1 ≠ k)).map (·.2)) := by
    rw [Index.placed, List.map_append]
    exact List.perm_append_singleton _ _
  exact ((((hall.map _).trans hplaced).append_right _).append_right _).subperm

theorem install_valid (hv : s.free.Valid) (k : Key) (slot : Slot) :
    (s.install k slot).free.Valid ∧ (s.install k slot).free.capacity = s.free.capacity :=
  ⟨(hv.releaseAll _).1, (hv.releaseAll _).2.1⟩

/-- A slot that a record of `k` may be written into. -/
structure Fits (s : Store) (data : Bytes) (listed : List (Key × Slot)) (k : Key) (slot : Slot) :
    Prop where
  valid : s.free.Valid
  start_le : slot.start ≤ data.length
  layout : Layout (max data.length slot.stop) (slot :: s.besides k slot)
  nested : ∀ t ∈ slot :: s.besides k slot, ∀ u ∈ listed.map (·.2), t.Nested u

theorem besides_subperm (h : s.index.Coherent) (k : Key) (slot : Slot) :
    (s.besides k slot).Subperm s.slots := by
  have hsub : ((s.index.get? k).filter (·.offset ≠ slot.offset)).toList.Sublist
      (s.index.get? k).toList := by
    cases s.index.get? k with
    | none => exact .refl _
    | some t =>
      rw [Option.filter]
      split
      · exact .refl _
      · exact List.nil_sublist _
  refine (List.subperm_append_right _).2 ((hsub.append_left _).subperm.trans ?_)
  exact (List.perm_append_comm.trans (h.slots_perm k).symm).subperm

/-- The place that is found for a record suits it. -/
theorem Sound.fits_place (h : Sound H s data listed) (hlen : s.dataFile.length.toNat = data.length)
    {length : UInt32} (hpos : 0 < length.toNat) :
    (s.claim (s.place k length)).Fits data listed k ⟨(s.place k length).offset, length⟩ ∧
      (s.place k length = .tail s.dataFile.length ∨
        (s.place k length).offset.toNat + length.toNat ≤ data.length) := by
  -- a slot that is owned, and from which the record may take the first bytes
  have hwithin : ∀ t ∈ s.slots, length.toNat ≤ t.length.toNat →
      t.offset.toNat + length.toNat ≤ data.length := fun t ht hle =>
    Nat.le_trans (Nat.add_le_add_left hle _) (h.owned.within t ht)
  have hnested : ∀ slot : Slot, ∀ slots : List Slot, slots.Subperm s.slots →
      (∀ u ∈ listed.map (·.2), slot.Nested u) →
      ∀ t ∈ slot :: slots, ∀ u ∈ listed.map (·.2), t.Nested u := by
    intro slot slots hsub hslot t ht u hu
    rcases List.mem_cons.1 ht with rfl | ht
    · exact hslot u hu
    · exact h.nested t (hsub.subset ht) u hu
  unfold place
  cases hold : (s.index.get? k).filter (length ≤ ·.length) with
  | some t =>
    -- the record goes where the old one lies
    obtain ⟨hget, hle⟩ := Option.filter_eq_some_iff.1 hold
    have hshort : (⟨t.offset, length⟩ : Slot).IsShorter t :=
      ⟨rfl, UInt32.le_iff_toNat_le.1 (of_decide_eq_true hle)⟩
    have hperm : s.slots.Perm (t :: s.besides k ⟨t.offset, length⟩) := by
      have := (h.coherent.slots_perm k).append_right s.free.toList
      rw [hget] at this
      simpa [Store.slots, besides, hget, Option.filter] using this
    have ht : t ∈ s.slots := hperm.mem_iff.2 List.mem_cons_self
    have hin := hwithin t ht hshort.2
    have hlayout := (h.owned.perm hperm).shorten hshort hpos
    refine ⟨⟨h.valid, Nat.le_trans (Nat.le_add_right _ _) hin, hlayout.mono (Nat.le_max_left _ _),
      hnested _ _ (besides_subperm h.coherent k _) fun u hu => ?_⟩, .inr hin⟩
    exact hshort.nested (h.nested t ht u hu)
  | none =>
    cases hfree : s.free.reserve? length with
    | some p =>
      -- the record goes into a free slot
      obtain ⟨t, free⟩ := p
      obtain ⟨hle, hperm, hvalid, -⟩ := h.valid.reserve? hfree
      have hshort : (⟨t.offset, length⟩ : Slot).IsShorter t :=
        ⟨rfl, UInt32.le_iff_toNat_le.1 hle⟩
      have hslots : s.slots.Perm (t :: ({ s with free } : Store).slots) :=
        (hperm.append_left _).trans List.perm_middle
      have ht : t ∈ s.slots := hslots.mem_iff.2 List.mem_cons_self
      have hbesides := besides_subperm (s := { s with free }) h.coherent k ⟨t.offset, length⟩
      have hin := hwithin t ht hshort.2
      refine ⟨⟨hvalid, Nat.le_trans (Nat.le_add_right _ _) hin, (((h.owned.perm hslots).shorten
        hshort hpos).mono (Nat.le_max_left _ _)).subperm ((List.subperm_cons _).2 hbesides),
        hnested _ _ (hbesides.trans ?_) fun u hu => ?_⟩, .inr hin⟩
      · exact (List.sublist_cons_self t _).subperm.trans hslots.symm.subperm
      · exact hshort.nested (h.nested t ht u hu)
    | none =>
      -- the record goes to the end of the file
      have hstart : (⟨s.dataFile.length, length⟩ : Slot).start = data.length := hlen
      have hbesides := besides_subperm h.coherent k ⟨s.dataFile.length, length⟩
      refine ⟨⟨h.valid, Nat.le_of_eq hstart, ?_, hnested _ _ hbesides fun u hu => .inr (.inr ?_)⟩,
        .inl rfl⟩
      · exact ((h.owned.extend hstart hpos).mono (Nat.le_max_right _ _)).subperm
          ((List.subperm_cons _).2 hbesides)
      · exact hstart ▸ h.listing.within u hu

/-- A place takes one slot at most from the free list, and changes nothing else. -/
theorem claim_place (hv : s.free.Valid) (k : Key) (length : UInt32) :
    ∃ free, s.claim (s.place k length) = { s with free } ∧ free.Valid ∧
      free.capacity = s.free.capacity ∧ free.count ≤ s.free.count := by
  unfold place
  cases (s.index.get? k).filter (length ≤ ·.length) with
  | some t => exact ⟨s.free, rfl, hv, rfl, Nat.le_refl _⟩
  | none =>
    cases hfree : s.free.reserve? length with
    | none => exact ⟨s.free, rfl, hv, rfl, Nat.le_refl _⟩
    | some p =>
      obtain ⟨-, hperm, hv', hcap⟩ := hv.reserve? hfree
      refine ⟨p.2, rfl, hv', hcap, ?_⟩
      rw [hv.count_eq, hv'.count_eq, hperm.length_eq]
      exact Nat.le_succ _

theorem Sound.like_install (h : Sound H s data listed) {free : FreeList} (hv : free.Valid)
    (hcap : free.capacity = s.free.capacity) (slot : Slot) :
    Like s (({ s with free } : Store).install k slot) :=
  ⟨rfl, (h.coherent.insert k slot).2.2.2.2,
    (install_valid (s := { s with free }) hv k slot).2.trans hcap⟩

/-- A record that was written into a slot that suits it becomes that of its key. -/
theorem Sound.install (h : Sound H s data listed) {e : Element} {free : FreeList}
    (hfits : ({ s with free } : Store).Fits data listed k slot)
    (hlen : slot.length.toNat = e.encode.length) :
    Sound (e :: H) (({ s with free } : Store).install k slot)
        (data.patch slot.start e.encode) listed ∧
      (({ s with free } : Store).install k slot).index.records (data.patch slot.start e.encode) =
        putRecord s.index.capacity k e.encode (s.index.records data) := by
  obtain ⟨hvalid, hin, hlayout, hnested⟩ := hfits
  obtain ⟨-, -, hc, hlist, hcap⟩ := h.coherent.insert k slot
  have hsize : (data.patch slot.start e.encode).length = max data.length slot.stop := by
    rw [Bytes.length_patch hin, ← hlen]
    rfl
  -- the other keys keep their bytes
  have hother : ∀ p ∈ s.index.toList.filter (·.1 ≠ k),
      p.2.slice (data.patch slot.start e.encode) = p.2.slice data := by
    intro p hp
    have ha := hlayout.cons_apart p.2 (List.mem_append_left _ (List.mem_append_left _
      (List.mem_map_of_mem hp)))
    refine Slot.slice_patch_of_apart hin ?_
    rw [← hlen]
    exact ha
  have hself : slot.slice (data.patch slot.start e.encode) = e.encode :=
    Slot.slice_patch_self hin hlen
  have hrecords : (s.index.placed k slot).map
      (fun p => (p.1, p.2.slice (data.patch slot.start e.encode))) =
        (s.index.records data).filter (·.1 ≠ k) ++ [(k, e.encode)] := by
    rw [Index.placed, List.map_append, List.map_singleton, hself, Index.records, List.filter_map]
    congr 1
    exact List.map_congr_left fun p hp => by rw [hother p hp]
  have hslots := install_slots (s := { s with free }) h.coherent hvalid k slot
  refine ⟨⟨hc, (install_valid (s := { s with free }) hvalid k slot).1, ?_, ?_, ?_, h.names, ?_, ?_⟩,
    ?_⟩
  · show (s.index.insert k slot).index.toList.length ≤ (s.index.insert k slot).index.capacity
    rw [hlist, hcap, List.length_drop]
    omega
  · rw [hsize]
    exact hlayout.subperm hslots
  · rw [hsize]
    exact h.listing.mono (Nat.le_max_left _ _)
  · intro t ht
    exact hnested t (hslots.subset ht)
  · intro t ht
    rcases List.mem_append.1 ht with ht | hu
    · obtain ⟨p, hp, rfl⟩ := List.mem_map.1 ht
      have hp : p ∈ s.index.placed k slot := List.mem_of_mem_drop (hlist ▸ hp)
      rcases List.mem_append.1 hp with hp | hp
      · rw [hother p hp]
        exact (h.layered p.2 (List.mem_append_left _ (List.mem_map_of_mem
          (List.mem_of_mem_filter hp)))).mono (List.subset_cons_self e H)
      · rw [List.mem_singleton.1 hp, hself]
        exact Layered.of_mem List.mem_cons_self
    · have hlayered := (h.layered t (List.mem_append_right _ hu)).mono (List.subset_cons_self e H)
      rcases hnested slot List.mem_cons_self t hu with ⟨hstart, hle⟩ | ha
      · rw [hstart, Slot.slice_patch_of_start (h.listing.within t hu) (hlen ▸ hle)]
        exact hlayered.overwrite List.mem_cons_self
      · rw [Slot.slice_patch_of_apart hin]
        · exact hlayered
        · rw [← hlen]
          exact ha
  · rw [Index.records, putRecord, ← hrecords, ← map_newest]
    exact congrArg _ hlist

/-! ### Removing -/

/-- What removing the keys of which `p` holds leads to. -/
structure Removal (H : List Element) (s : Store) (data : Bytes) (listed : List (Key × Slot))
    (p : Key → Bool) (outcome : Bool × Store) : Prop where
  sound : Sound H outcome.2 data listed
  like : Like s outcome.2
  dataFile : outcome.2.dataFile = s.dataFile
  keyFile : outcome.2.keyFile = s.keyFile
  pending : outcome.2.pending = s.pending
  answer : outcome.1 = (s.index.records data).any (p ·.1)
  toList : outcome.2.index.toList = s.index.toList.filter (!p ·.1)

theorem Removal.records {p : Key → Bool} {outcome : Bool × Store}
    (h : Removal H s data listed p outcome) :
    outcome.2.index.records data = (s.index.records data).filter (!p ·.1) := by
  rw [Index.records, h.toList, Index.records, List.filter_map]
  rfl

/-- What is removed may become free, and nothing else does. -/
theorem removeWhere_slots (hc : s.index.Coherent) (hv : s.free.Valid) (p : Key → Bool) :
    (s.removeWhere p).2.slots.Subperm s.slots := by
  obtain ⟨hremoved, -, hlist, -⟩ := hc.removeWhere p
  obtain ⟨-, -, hfree⟩ := hv.releaseAll ((s.index.removeWhere p).1.map (·.2))
  show (((s.index.removeWhere p).2.toList.map (·.2)) ++ _).Subperm _
  refine ((List.subperm_append_left _).2 hfree).trans ?_
  rw [hlist, hremoved, ← List.append_assoc, ← List.map_append]
  refine (((List.perm_append_comm.trans ?_).map _).append_right _).subperm
  exact List.filter_append_perm (fun e => p e.1) s.index.toList

theorem removeKey_slots {index : Index} (hc : s.index.Coherent) (hv : s.free.Valid)
    (hr : s.index.remove k = (some slot, index)) :
    ({ s with index, free := (s.free.release slot).2 } : Store).slots.Subperm s.slots := by
  have hfst := Index.remove_fst s.index k
  have hlist := hc.toList_remove k
  have hperm := (hc.slots_perm k).append_right s.free.toList
  rw [hr] at hfst hlist
  rw [← hfst, ← hlist] at hperm
  refine ((List.subperm_append_left _).2 (hv.release slot).2.2).trans ?_
  exact (List.perm_middle.trans hperm.symm).subperm

theorem Sound.removeWhere (h : Sound H s data listed) (p : Key → Bool) :
    Removal H s data listed p (s.removeWhere p) := by
  obtain ⟨hremoved, hc, hlist, hcap⟩ := h.coherent.removeWhere p
  obtain ⟨hv, hfreeCap, -⟩ := h.valid.releaseAll ((s.index.removeWhere p).1.map (·.2))
  refine ⟨h.shrink hc hv hcap ?_ (removeWhere_slots h.coherent h.valid p), ⟨rfl, hcap, hfreeCap⟩,
    rfl, rfl, rfl, ?_, hlist⟩
  · exact hlist ▸ List.filter_sublist
  · show (!(s.index.removeWhere p).1.isEmpty) = _
    rw [hremoved, Index.records, List.any_map, Bool.eq_iff_iff]
    simp

/-- Removing a key removes the keys that it stands for. -/
theorem Sound.remove (h : Sound H s data listed) (k : Key) :
    Removal H s data listed (Target.key k).takes (s.remove k) := by
  unfold Store.remove
  cases hk : k.hierarchy? with
  | some start =>
    have htakes : (Target.key k).takes = (·.isUnder start) := by
      funext k'
      rw [Target.takes, hk]
    exact htakes ▸ h.removeWhere _
  | none =>
    -- one key goes, if it is there
    have htakes : ∀ k', (Target.key k).takes k' = decide (k' = k) := fun k' => by
      rw [Target.takes, hk]
    have hfst := Index.remove_fst s.index k
    have hc := h.coherent.remove k
    have hlist := h.coherent.toList_remove k
    have hcap := Index.remove_capacity s.index k
    have hleft : (s.index.remove k).2.toList =
        s.index.toList.filter (!(Target.key k).takes ·.1) := by
      rw [hlist]
      exact List.filter_congr fun e _ => by simp [htakes]
    have hany : (s.index.records data).any ((Target.key k).takes ·.1) =
        (s.index.get? k).isSome := by
      rw [Bool.eq_iff_iff, ← h.coherent.mem_keys_iff, ← h.coherent.keys_toList, Index.records]
      simp [htakes]
    rcases hr : s.index.remove k with ⟨_ | slot, index⟩
    · rw [hr] at hfst
      rw [← hfst] at hany
      refine ⟨h, ⟨rfl, rfl, rfl⟩, rfl, rfl, rfl, hany.symm, ?_⟩
      rw [eq_comm, List.filter_eq_self]
      intro e he
      have := List.any_eq_false.1 hany (e.1, e.2.slice data) (List.mem_map_of_mem he)
      simpa using this
    · have hslots := removeKey_slots h.coherent h.valid hr
      rw [hr] at hfst hc hlist hcap hleft
      obtain ⟨hv, hfreeCap, -⟩ := h.valid.release slot
      refine ⟨h.shrink hc hv hcap ?_ hslots, ⟨rfl, hcap, hfreeCap⟩, rfl, rfl, rfl, ?_, hleft⟩
      · rw [hlist]
        exact List.filter_sublist
      · rw [hany, ← hfst]
        rfl

/-! ### Saving and forgetting -/

/-- What the key file holds when it lists these entries. -/
def listing (entries : List (Key × Slot)) : Bytes :=
  if entries = [] then [] else Index.Snapshot.encode entries

/-- After a save the key file lists the index itself. -/
theorem Sound.save (h : Sound H s data listed) : Sound H s data s.index.toList := by
  have hown : Layout data.length (s.index.toList.map (·.2)) :=
    h.owned.sublist (List.sublist_append_left _ _)
  refine { h with listing := hown, names := ?_, nested := fun t ht u hu => ?_, layered := ?_ }
  · exact h.coherent.nodup_toList
  · exact h.owned.nested ht (List.mem_append_left _ hu)
  · intro t ht
    apply h.layered
    exact List.mem_append_left _ ((List.mem_append.1 ht).elim id id)

/-- A key file that lists nothing cannot be wrong. -/
theorem Sound.unlist (h : Sound H s data listed) : Sound H s data [] :=
  { h with
    listing := Layout.nil _
    names := List.nodup_nil
    nested := by simp
    layered := fun t ht => h.layered t (List.mem_append_left _ (by simpa using ht)) }

/-- A store without keys and free slots is sound whatever its files hold. -/
theorem sound_of_empty {capacity freeCapacity : Nat} (hi : s.index = .empty capacity)
    (hf : s.free = .empty freeCapacity) : Sound H s data [] := by
  refine ⟨hi ▸ Index.empty_coherent _, hf ▸ FreeList.empty_valid _, ?_, ?_, Layout.nil _,
    List.nodup_nil, by simp, ?_⟩
  · rw [hi]
    exact Nat.zero_le _
  · rw [Store.slots, Index.slots, hi, hf]
    exact Layout.nil _
  · intro t ht
    rw [Index.slots, hi] at ht
    cases ht

/-! ### Loading -/

/-- The index that a key file describes is sound, whatever its capacity. -/
theorem Sound.load (h : Sound H s data listed) {capacity freeCapacity : Nat}
    (hi : s'.index = ((Index.empty capacity).insertAll listed).2)
    (hf : s'.free = (FreeList.empty freeCapacity).releaseAll
      (((Index.empty capacity).insertAll listed).1.map (·.2))) : Sound H s' data listed := by
  have hnames : (((Index.empty capacity).toList ++ listed).map (·.1)).Nodup := h.names
  obtain ⟨hdropped, hc, hlist, hcap⟩ := (Index.empty_coherent capacity).insertAll (Nat.zero_le _)
    hnames
  obtain ⟨hv, -, hfree⟩ := (FreeList.empty_valid freeCapacity).releaseAll
    (((Index.empty capacity).insertAll listed).1.map (·.2))
  rw [Index.toList_empty, List.nil_append] at hdropped hlist
  rw [← hf, FreeList.toList_empty, List.append_nil, hdropped] at hfree
  rw [← hi] at hc hlist hcap
  -- what is kept and what is dropped are together the listed entries
  have hslots : s'.slots.Subperm (listed.map (·.2)) := by
    rw [Store.slots, Index.slots, hlist]
    refine ((List.subperm_append_left _).2 hfree).trans ?_
    rw [← List.map_append]
    refine (List.Perm.map _ (List.perm_append_comm.trans ?_)).subperm
    rw [List.take_append_drop]
  refine ⟨hc, hf ▸ hv, ?_, h.listing.subperm hslots, h.listing, h.names, ?_, ?_⟩
  · rw [hlist, hcap, List.length_drop]
    show _ ≤ capacity
    simp only [Index.empty]
    omega
  · intro t ht u hu
    exact h.listing.nested (hslots.subset ht) hu
  · intro t ht
    apply h.layered
    refine List.mem_append_right _ ((List.mem_append.1 ht).elim (fun hm => ?_) id)
    exact hslots.subset (List.mem_append_left _ hm)

end Store

end DiskTier
