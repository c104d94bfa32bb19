import DiskTier.Proofs.Run

/-!
# Every byte has one owner at most

Whatever happens to a region that began empty, the slots of its keys and of its free list divide up
its data file: no byte belongs to two of them, and none lies behind the end of the file.
-/

namespace DiskTier.Region

open FileSystem

/-- How the keys and the free list own the data file. -/
structure Owned (p : World) : Prop where
  /-- The tracked length of the data file is its size on disk. -/
  size : (p.1.contentAt? p.2.config.dataFile).map Content.size =
    some p.2.store.dataFile.length.toNat
  nonempty : ∀ s ∈ p.2.store.slots, 0 < s.length.toNat
  within : ∀ s ∈ p.2.store.slots, s.stop ≤ p.2.store.dataFile.length.toNat
  apart : p.2.store.slots.Pairwise Slot.Apart
  /-- No slot that a key has is missing from the list of slots. -/
  listed : ∀ k s, p.2.store.index.get? k = some s → s ∈ p.2.store.index.slots
  keys_apart : ∀ k k' s s', p.2.store.index.get? k = some s → p.2.store.index.get? k' = some s' →
    k ≠ k' → s.Apart s'
  free_apart : ∀ k s, p.2.store.index.get? k = some s → ∀ t ∈ p.2.store.free.toList, s.Apart t
  keys_le : p.2.store.index.size ≤ p.2.config.maxKeys
  free_le : p.2.store.free.toList.length ≤ p.2.config.maxFreeSlots
  count_eq : p.2.store.free.count = p.2.store.free.toList.length
  bytes_le : (p.2.store.index.slots.map (·.length.toNat)).sum + p.2.store.free.freeBytes ≤
    p.2.store.dataFile.length.toNat

variable {c : Config} {p q : World} {d : FileSystem} {r : Region} {data : Bytes} {H : List Element}
  {listed : List (Key × Slot)} {events : List Event}

/-- Different keys have slots that are apart. -/
theorem slots_apart {s : Store} (h : s.Sound H data listed) {k k' : Key} {t t' : Slot}
    (ht : s.index.get? k = some t) (ht' : s.index.get? k' = some t') (hk : k ≠ k') :
    t.Apart t' := by
  have hlist : s.index.toList.Pairwise fun e e' => e.2.Apart e'.2 := by
    have happart := h.owned.apart
    rw [Store.slots, List.pairwise_append] at happart
    exact List.pairwise_map.1 happart.1
  have : Std.Symm fun e e' : Key × Slot => e.2.Apart e'.2 := ⟨fun _ _ => Slot.Apart.symm⟩
  apply hlist.forall (a := (k, t)) (b := (k', t'))
  · exact h.coherent.mem_toList_iff.2 ht
  · exact h.coherent.mem_toList_iff.2 ht'
  · intro heq
    exact hk (congrArg Prod.fst heq)

theorem Sound.owned (h : Sound H d r data listed) : Owned (d, r) := by
  -- all of it is said of the bytes on disk, of which there are as many as the store believes
  obtain ⟨hm, hs, hcap, hfreeCap⟩ := h.intact
  have hlen : r.store.dataFile.length.toNat = data.length := hm.dataLength
  refine ⟨?_, hs.owned.nonempty, ?_, hs.owned.apart, fun k s hk => hs.mem_slots hk,
    fun k k' s s' hk hk' hne => slots_apart hs hk hk' hne, ?_, ?_, ?_, hs.valid.count_eq, ?_⟩
  · obtain ⟨content, hcontent, heq⟩ := Option.map_eq_some_iff.1 hm.contentAt?
    show (d.contentAt? r.config.dataFile).map Content.size = some r.store.dataFile.length.toNat
    rw [hcontent, hlen, ← heq, Content.length_toList]
    rfl
  · intro s hmem
    exact hlen ▸ hs.owned.within s hmem
  · intro k s hk t ht
    have happart := hs.owned.apart
    rw [Store.slots, List.pairwise_append] at happart
    exact happart.2.2 s (hs.mem_slots hk) t ht
  · show r.store.index.size ≤ r.config.maxKeys
    rw [hs.coherent.size_eq, ← hcap]
    exact hs.size_le
  · show r.store.free.toList.length ≤ r.config.maxFreeSlots
    rw [← hs.valid.count_eq, ← hfreeCap]
    exact hs.valid.count_le
  · show (r.store.index.slots.map (·.length.toNat)).sum + r.store.free.freeBytes ≤
      r.store.dataFile.length.toNat
    rw [hlen, hs.valid.freeBytes_eq, ← List.sum_append_nat, ← List.map_append]
    exact hs.owned.sum_length_le

/-- Every run from an empty region leaves each byte of the data file with one owner at most. -/
theorem owned_of_run (h : OpenedEmpty c p) (hr : Run Step p events q) : Owned q := by
  obtain ⟨data, listed, hsound⟩ := hr.isSound h
  exact hsound.owned

/-- The second of two keys has the first one's place in the index, and after a crash its own. -/
theorem owned_after_crash : ∃ p q : World, OpenedEmpty (roomFor 1) p ∧
    Run Step p [.called (.put (note "x" [1, 2])) (.ok ()), .called (.put (note "y" [1])) (.ok ()),
      .called .saveKeys (.ok ()), .reopened (roomFor 2)] q ∧
    (q.2.size = 1 ∧ q.2.store.dataFile.length = 202) ∧ Owned q := by
  have h : ((opened? (roomFor 1) .empty).bind fun p =>
      let q₁ := (Call.put (note "x" [1, 2])).perform.result p
      let q₂ := (Call.put (note "y" [1])).perform.result q₁.2
      let q₃ := Call.saveKeys.perform.result q₂.2
      (opened? (roomFor 2) q₃.2.1).map fun q =>
        decide (p.2.size = 0 ∧ q₁.1 = .ok () ∧ q₂.1 = .ok () ∧
        q₃.1 = .ok () ∧ (q₃.2.2.config.cacheName = "a" ∧ q₃.2.2.config.diskPath = ⟨"d"⟩) ∧
        q.2.size = 1 ∧ q.2.store.dataFile.length = 202)) = some true := by
    decide +kernel
  obtain ⟨p, hp, h⟩ := Option.bind_eq_some_iff.1 h
  obtain ⟨q, hq, h⟩ := Option.map_eq_some_iff.1 h
  obtain ⟨hsize, h₁, h₂, h₃, ⟨hname, hpath⟩, hend⟩ := of_decide_eq_true h
  have ho := openedEmpty_of_eq empty_healthy hp hsize
  have hr := ((((Run.nil p).call _ h₁).call _ h₂).call _ h₃).reopen hname.symm hpath.symm hq
  exact ⟨p, q, ho, hr, hend, owned_of_run ho hr⟩

end DiskTier.Region
