import DiskTier.Proofs.Codec.Record
import DiskTier.Proofs.Index.Recency

/-!
# An index from its snapshot

A snapshot lists an index from the oldest entry to the newest, and reading it inserts the entries in
turn. So the index that comes of it has them in the same order, and if there is less room, the oldest
go while it is read. The stamps are new, but no request can tell: the index that was read and the one
that was written, with its bound changed to the new one, present the same list.
-/

namespace DiskTier

namespace Index

variable {i : Index}

/-- A changed bound leaves the newest entries. -/
theorem Coherent.presents_setCapacity (h : i.Coherent) (n : Nat) :
    (i.setCapacity n).2.Presents { capacity := n, entries := newest n i.toList } := by
  obtain ⟨-, hcoh, hlist, hcap⟩ := h.setCapacity n
  exact ⟨hcoh, hlist, hcap, Recency.length_keep_le n i.toList⟩

/-- A bound that no entry breaks lets all of them stay. -/
theorem setCapacity_of_size_le {n : Nat} (h : i.size ≤ n) :
    i.setCapacity n = ([], { i with capacity := n }) := by
  have hnone : size { i with capacity := n } - n = 0 := Nat.sub_eq_zero_of_le h
  rw [setCapacity, trim, hnone]
  rfl

/-- The newest entries of an index come back from its snapshot, and the caller gets the others. -/
theorem Coherent.ofSnapshot_snapshot (h : i.Coherent) (n : Nat) :
    ∃ restored, ofSnapshot i.snapshot n =
        .ok (i.toList.take (i.toList.length - n), restored) ∧
      restored.Presents { capacity := n, entries := newest n i.toList } := by
  have hnodup : (((empty n).toList ++ i.toList).map (·.1)).Nodup := by
    rw [toList_empty, List.nil_append, h.keys_toList]
    exact h.nodup_keys
  obtain ⟨hdropped, hcoh, hlist, hcap⟩ := (empty_coherent n).insertAll (Nat.zero_le _) hnodup
  rw [toList_empty, List.nil_append] at hdropped hlist
  replace hdropped : _ = i.toList.take (i.toList.length - n) := hdropped
  refine ⟨((empty n).insertAll i.toList).2, ?_, hcoh, hlist, hcap, ?_⟩
  · rw [ofSnapshot, snapshot, Snapshot.decode_encode, ← hdropped]
    rfl
  · exact Recency.length_keep_le n i.toList

/-- **A snapshot brings the newest entries back, in their order.** Whatever an index has been asked
before, and however many entries there is room for afterwards, its snapshot can be read: the entries
that find no room are given to the caller, oldest first, and the others are there. From then on every
reply is that of the index with its bound changed, which is the index itself if there is room for
all. -/
theorem snapshot_brings_back (capacity : Nat) (requests : List Request) (n : Nat) :
    let i := built capacity requests
    ∃ (dropped : List (Key × Slot)) (restored : Index),
      ofSnapshot i.snapshot n = .ok (dropped, restored) ∧
      restored.capacity = n ∧ restored.Coherent ∧
      dropped ++ restored.toList = i.toList ∧
      restored.toList.length = min n i.size ∧
      (∀ later : List Request, (serveAll respond restored later).1 =
        (serveAll respond (i.setCapacity n).2 later).1) ∧
      (i.size ≤ n → dropped = [] ∧ restored.toList = i.toList ∧
        ∀ later : List Request, (serveAll respond restored later).1 =
          (serveAll respond { i with capacity := n } later).1) := by
  intro i
  have hcoh : i.Coherent := (presents_built capacity requests).coherent
  obtain ⟨restored, hread, hpresents⟩ := hcoh.ofSnapshot_snapshot n
  have hlater := hpresents.replies_eq (hcoh.presents_setCapacity n)
  refine ⟨_, restored, hread, hpresents.capacity, hpresents.coherent, ?_, ?_, hlater, fun hroom => ?_⟩
  · rw [hpresents.toList]
    exact take_append_newest n i.toList
  · rw [hpresents.toList, hcoh.size_eq]
    exact length_newest n i.toList
  · have hlen : i.toList.length ≤ n := hcoh.size_eq ▸ hroom
    rw [setCapacity_of_size_le hroom] at hlater
    refine ⟨?_, ?_, hlater⟩
    · rw [Nat.sub_eq_zero_of_le hlen, List.take_zero]
    · rw [hpresents.toList]
      exact newest_of_length_le hlen

/-- The key that was inserted again is the newest, and after a restart it still is: the other one is
evicted. -/
theorem restored_key_stays_newest :
    let a : Key := .name "a"
    let b : Key := .attribute { cacheName := "c", groupName := "g" } "b"
    let i := built 2 [.insert a ⟨0, 4⟩, .insert b ⟨4, 0xFFFFFFFF⟩, .insert a ⟨0xFFFFFFFFFFFFFFFF, 2⟩]
    i.size ≤ 2 ∧ ∃ restored, ofSnapshot i.snapshot 2 = .ok ([], restored) ∧
      restored.toList = [(b, ⟨4, 0xFFFFFFFF⟩), (a, ⟨0xFFFFFFFFFFFFFFFF, 2⟩)] ∧
      (serveAll respond restored [.insert (.name "c") ⟨9, 9⟩]).1 =
        [.inserted none [(b, ⟨4, 0xFFFFFFFF⟩)]] := by
  intro a b i
  have hroom : i.size ≤ 2 := by decide
  obtain ⟨dropped, restored, hread, -, -, -, -, -, hwhole⟩ := snapshot_brings_back 2
    [.insert a ⟨0, 4⟩, .insert b ⟨4, 0xFFFFFFFF⟩, .insert a ⟨0xFFFFFFFFFFFFFFFF, 2⟩] 2
  obtain ⟨rfl, hlist, hlater⟩ := hwhole hroom
  refine ⟨hroom, restored, hread, hlist.trans (by decide), (hlater _).trans (by decide)⟩

end Index

end DiskTier
