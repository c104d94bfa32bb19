import DiskTier.FreeList
import Mathlib

/-!
# The free list as a list

The buckets of a free list are sorted by length, none is empty, and the count is right:
`FreeList.Valid`. Taking a slot takes one out of `FreeList.toList`, and offering slots keeps some of
the old and the new ones: nothing is held twice, and nothing comes from elsewhere.
-/

namespace DiskTier

namespace FreeList

/-- Buckets in order, each with slots of its own length. -/
structure Sorted (buckets : List (UInt32 × List Slot)) : Prop where
  ascending : buckets.Pairwise (·.1 < ·.1)
  nonempty : ∀ b ∈ buckets, b.2 ≠ []
  uniform : ∀ b ∈ buckets, ∀ s ∈ b.2, s.length = b.1

/-- What holds of every free list that is made by the operations. -/
structure Valid (f : FreeList) : Prop where
  sorted : Sorted f.buckets
  count_eq : f.count = f.toList.length
  count_le : f.count ≤ f.capacity

variable {f g : FreeList} {s : Slot} {buckets rest : List (UInt32 × List Slot)}

theorem empty_valid (capacity : Nat) : (FreeList.empty capacity).Valid :=
  ⟨⟨List.Pairwise.nil, by simp [empty], by simp [empty]⟩, rfl, Nat.zero_le _⟩

@[simp] theorem toList_empty (capacity : Nat) : (FreeList.empty capacity).toList = [] := rfl

/-! ### Buckets -/

theorem Sorted.tail {b : UInt32 × List Slot} (h : Sorted (b :: rest)) : Sorted rest :=
  ⟨(List.pairwise_cons.1 h.ascending).2, fun c hc => h.nonempty c (List.mem_cons_of_mem _ hc),
    fun c hc => h.uniform c (List.mem_cons_of_mem _ hc)⟩

/-- The bytes that the buckets count are those of each slot. -/
theorem Sorted.bytes_eq (h : Sorted buckets) :
    buckets.foldr (fun b total => b.1.toNat * b.2.length + total) 0 =
      ((buckets.flatMap (·.2)).map (·.length.toNat)).sum := by
  induction buckets with
  | nil => rfl
  | cons b buckets ih =>
    -- all slots of a bucket have its length
    have hconst : b.2.map (·.length.toNat) = b.2.map fun _ => b.1.toNat :=
      List.map_congr_left fun s hs => by rw [h.uniform b List.mem_cons_self s hs]
    rw [List.foldr_cons, ih h.tail, List.flatMap_cons, List.map_append, List.sum_append_nat, hconst,
      List.map_const', List.sum_replicate_nat, Nat.mul_comm]

theorem Valid.freeBytes_eq (h : f.Valid) : f.freeBytes = (f.toList.map (·.length.toNat)).sum :=
  h.sorted.bytes_eq

/-- Taking from a bucket takes one slot out of the buckets and no bucket in. -/
theorem takeFrom_spec {n : UInt32} (h : Sorted buckets) (hs : takeFrom n buckets = some (s, rest)) :
    s.length = n ∧ (buckets.flatMap (·.2)).Perm (s :: rest.flatMap (·.2)) ∧ Sorted rest ∧
      (rest.map (·.1)).Sublist (buckets.map (·.1)) := by
  induction buckets generalizing rest with
  | nil => cases hs
  | cons b buckets ih =>
    obtain ⟨m, slots⟩ := b
    obtain ⟨hlt, hasc⟩ := List.pairwise_cons.1 h.ascending
    have hhead := h.uniform (m, slots) List.mem_cons_self
    rw [takeFrom.eq_def] at hs
    dsimp only at hs
    by_cases hm : m = n
    · rw [if_pos hm] at hs
      rcases slots with _ | ⟨t, _ | ⟨u, more⟩⟩
      · cases hs
      · cases hs
        exact ⟨(hhead s (by simp)).trans hm, .refl _, h.tail, List.sublist_cons_self _ _⟩
      · cases hs
        refine ⟨(hhead s (by simp)).trans hm, .refl _, ⟨?_, ?_, ?_⟩, .refl _⟩
        · exact List.pairwise_cons.2 ⟨hlt, hasc⟩
        · simpa using h.tail.nonempty
        · rintro c hc v hv
          rcases List.mem_cons.1 hc with rfl | hc
          · exact hhead v (List.mem_cons_of_mem _ hv)
          · exact h.tail.uniform c hc v hv
    · rw [if_neg hm] at hs
      obtain ⟨⟨t, rest'⟩, ht, heq⟩ := Option.map_eq_some_iff.1 hs
      cases heq
      obtain ⟨hlen, hperm, hsorted, hsub⟩ := ih h.tail ht
      refine ⟨hlen, ?_, ⟨?_, ?_, ?_⟩, hsub.cons_cons m⟩
      · simp only [List.flatMap_cons]
        exact (hperm.append_left slots).trans List.perm_middle
      · refine List.pairwise_cons.2 ⟨fun c hc => ?_, hsorted.ascending⟩
        obtain ⟨c', hc', heq⟩ := List.mem_map.1 (hsub.subset (List.mem_map_of_mem hc))
        exact heq ▸ hlt c' hc'
      · rintro c hc
        rcases List.mem_cons.1 hc with rfl | hc
        · exact h.nonempty _ List.mem_cons_self
        · exact hsorted.nonempty c hc
      · rintro c hc v hv
        rcases List.mem_cons.1 hc with rfl | hc
        · exact hhead v hv
        · exact hsorted.uniform c hc v hv

/-- A bucket that is there can be taken from. -/
theorem takeFrom_isSome {n : UInt32} (h : Sorted buckets) (hn : n ∈ buckets.map (·.1)) :
    (takeFrom n buckets).isSome := by
  induction buckets with
  | nil => cases hn
  | cons b buckets ih =>
    obtain ⟨m, slots⟩ := b
    rw [takeFrom.eq_def]
    dsimp only
    by_cases hm : m = n
    · rw [if_pos hm]
      have := h.nonempty (m, slots) List.mem_cons_self
      rcases slots with _ | ⟨t, _ | ⟨u, more⟩⟩
      · exact absurd rfl this
      · rfl
      · rfl
    · rw [if_neg hm, Option.isSome_map]
      exact ih h.tail (by simpa [Ne.symm hm] using hn)

theorem putInto_perm (s : Slot) (buckets : List (UInt32 × List Slot)) :
    ((putInto s buckets).flatMap (·.2)).Perm (s :: buckets.flatMap (·.2)) := by
  induction buckets with
  | nil => exact .refl _
  | cons b buckets ih =>
    obtain ⟨m, slots⟩ := b
    rw [putInto]
    split
    · exact .refl _
    · split
      · exact .refl _
      · simp only [List.flatMap_cons]
        exact (ih.append_left slots).trans List.perm_middle

/-- Every bucket after putting a slot was there before, or is of the length of the slot. -/
theorem mem_putInto {s : Slot} {c : UInt32 × List Slot} (hc : c ∈ putInto s buckets) :
    c.1 = s.length ∨ c ∈ buckets := by
  induction buckets with
  | nil => exact .inl (by rw [List.mem_singleton.1 hc])
  | cons b buckets ih =>
    obtain ⟨m, slots⟩ := b
    rw [putInto] at hc
    split at hc
    · rcases List.mem_cons.1 hc with rfl | hc
      · exact .inl rfl
      · exact .inr hc
    · split at hc
      · next hm =>
        rcases List.mem_cons.1 hc with rfl | hc
        · exact .inl hm.symm
        · exact .inr (List.mem_cons_of_mem _ hc)
      · rcases List.mem_cons.1 hc with rfl | hc
        · exact .inr List.mem_cons_self
        · exact (ih hc).imp_right (List.mem_cons_of_mem _)

theorem Sorted.cons {b : UInt32 × List Slot} (h : Sorted rest) (hlt : ∀ c ∈ rest, b.1 < c.1)
    (hne : b.2 ≠ []) (hlen : ∀ s ∈ b.2, s.length = b.1) : Sorted (b :: rest) := by
  refine ⟨List.pairwise_cons.2 ⟨hlt, h.ascending⟩, fun c hc => ?_, fun c hc => ?_⟩
  · rcases List.mem_cons.1 hc with rfl | hc
    · exact hne
    · exact h.nonempty c hc
  · rcases List.mem_cons.1 hc with rfl | hc
    · exact hlen
    · exact h.uniform c hc

theorem putInto_sorted (h : Sorted buckets) (s : Slot) : Sorted (putInto s buckets) := by
  induction buckets with
  | nil => exact h.cons (by simp) (by simp) (by simp)
  | cons b buckets ih =>
    obtain ⟨m, slots⟩ := b
    obtain ⟨hlt, -⟩ := List.pairwise_cons.1 h.ascending
    have hhead := h.uniform (m, slots) List.mem_cons_self
    rw [putInto]
    split
    · next hsm =>
      refine h.cons (fun c hc => ?_) (by simp) (by simp)
      rcases List.mem_cons.1 hc with rfl | hc
      · exact hsm
      · exact UInt32.lt_trans hsm (hlt c hc)
    · next hsm =>
      split
      · next heq => exact h.tail.cons hlt (by simp) (by simpa [heq] using hhead)
      · next hne =>
        refine (ih h.tail).cons (fun c hc => ?_) (h.nonempty _ List.mem_cons_self) hhead
        rcases mem_putInto hc with heq | hc
        · rw [heq]
          exact UInt32.lt_of_le_of_ne (UInt32.not_lt.1 hsm) (Ne.symm hne)
        · exact hlt c hc

/-! ### Taking -/

theorem Valid.takeOne (h : f.Valid) {n : UInt32} (hs : f.takeOne n = some (s, g)) :
    s.length = n ∧ f.toList.Perm (s :: g.toList) ∧ g.Valid ∧ g.capacity = f.capacity ∧
      g.count + 1 = f.count := by
  rw [FreeList.takeOne, Option.map_eq_some_iff] at hs
  obtain ⟨⟨t, buckets⟩, ht, heq⟩ := hs
  cases heq
  obtain ⟨hlen, hperm, hsorted, -⟩ := takeFrom_spec h.sorted ht
  have hcount : f.count = (buckets.flatMap (·.2)).length + 1 := h.count_eq.trans hperm.length_eq
  refine ⟨hlen, hperm, ⟨hsorted, ?_, ?_⟩, rfl, ?_⟩
  · exact Nat.sub_eq_of_eq_add hcount
  · exact Nat.le_trans (Nat.sub_le _ _) h.count_le
  · exact Nat.sub_add_cancel (hcount ▸ Nat.succ_pos _)

theorem bestLength?_eq_some {least n : UInt32} (h : f.bestLength? least = some n) :
    least ≤ n ∧ n ∈ f.buckets.map (·.1) := by
  rw [bestLength?, Option.map_eq_some_iff] at h
  obtain ⟨b, hb, rfl⟩ := h
  exact ⟨by simpa using List.find?_some hb, List.mem_map_of_mem (List.mem_of_find?_eq_some hb)⟩

/-- A reserved slot is long enough, and the free list has it no longer. -/
theorem Valid.reserve? (h : f.Valid) {least : UInt32} (hs : f.reserve? least = some (s, g)) :
    least ≤ s.length ∧ f.toList.Perm (s :: g.toList) ∧ g.Valid ∧ g.capacity = f.capacity := by
  obtain ⟨n, hn, hs⟩ := Option.bind_eq_some_iff.1 hs
  obtain ⟨hlen, hperm, hvalid, hcap, -⟩ := h.takeOne hs
  exact ⟨hlen ▸ (bestLength?_eq_some hn).1, hperm, hvalid, hcap⟩

/-! ### Giving -/

theorem Valid.add (h : f.Valid) (hroom : f.count < f.capacity) (s : Slot) :
    (f.add s).Valid ∧ (f.add s).toList.Perm (s :: f.toList) := by
  have hperm : (f.add s).toList.Perm (s :: f.toList) := putInto_perm s f.buckets
  refine ⟨⟨putInto_sorted h.sorted s, ?_, hroom⟩, hperm⟩
  rw [hperm.length_eq, List.length_cons, ← h.count_eq]
  rfl

/-- An offer adds at most the slot that is offered. -/
theorem Valid.release (h : f.Valid) (s : Slot) :
    (f.release s).2.Valid ∧ (f.release s).2.capacity = f.capacity ∧
      (f.release s).2.toList.Subperm (s :: f.toList) := by
  have hold : f.Valid ∧ f.capacity = f.capacity ∧ f.toList.Subperm (s :: f.toList) :=
    ⟨h, rfl, (List.sublist_cons_self s f.toList).subperm⟩
  unfold FreeList.release
  split
  · exact hold
  · split
    · next hroom => exact ⟨(h.add hroom s).1, rfl, (h.add hroom s).2.subperm⟩
    · split
      · exact hold
      · next n hn =>
        split
        · exact hold
        · -- the shortest slot makes room
          split
          · next t g ht =>
            obtain ⟨-, hperm, hvalid, hcap, hcount⟩ := h.takeOne ht
            have hroom : g.count < g.capacity := by
              have := h.count_le
              omega
            refine ⟨(hvalid.add hroom s).1, hcap, (hvalid.add hroom s).2.subperm.trans ?_⟩
            refine (List.subperm_cons s).2 ?_
            exact (List.sublist_cons_self t g.toList).subperm.trans hperm.symm.subperm
          · next hnone =>
            have := takeFrom_isSome h.sorted (bestLength?_eq_some hn).2
            rw [FreeList.takeOne, Option.map_eq_none_iff] at hnone
            simp [hnone] at this

/-- Offers add at most the slots that are offered. -/
theorem Valid.releaseAll (h : f.Valid) (slots : List Slot) :
    (f.releaseAll slots).Valid ∧ (f.releaseAll slots).capacity = f.capacity ∧
      (f.releaseAll slots).toList.Subperm (slots ++ f.toList) := by
  induction slots generalizing f with
  | nil => exact ⟨h, rfl, .refl _⟩
  | cons s slots ih =>
    obtain ⟨hvalid, hcap, hsub⟩ := h.release s
    obtain ⟨hvalid', hcap', hsub'⟩ := ih hvalid
    refine ⟨hvalid', hcap'.trans hcap, hsub'.trans ?_⟩
    exact ((List.subperm_append_left slots).2 hsub).trans List.perm_middle.subperm

end FreeList

end DiskTier
