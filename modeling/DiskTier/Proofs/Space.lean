import DiskTier.Element.Codec
import DiskTier.FileSystem.Content
import DiskTier.Slot
import DiskTier.Proofs.Codec.Record

/-!
# Slots in a file

What it means that slots do not overlap, and what a write into one of them does to the bytes of the
others. A family of slots is a `Layout` of a file if all are non-empty, lie in the file, and are
apart from each other.

Two slots that are described at different times may begin at the same byte, as long as the later one
is not longer: `Slot.Nested`. Then a record that is written into the later one lies at the start of
the earlier one, and what follows it is the end of an older record: `Layered`.
-/

namespace DiskTier

/-! ### Bytes -/

/-- The bytes after `bytes` were written at `offset`, which lies in the file or at its end. -/
def Bytes.patch (data : Bytes) (offset : Nat) (bytes : Bytes) : Bytes :=
  data.take offset ++ bytes ++ data.drop (offset + bytes.length)

def Slot.slice (s : Slot) (data : Bytes) : Bytes := (data.drop s.start).take s.length.toNat

variable {data bytes : Bytes} {offset size n : Nat} {s s' t : Slot} {slots slots' : List Slot}

theorem Slot.stop_eq (s : Slot) : s.stop = s.start + s.length.toNat := rfl

namespace Bytes

@[simp] theorem patch_nil (data : Bytes) (offset : Nat) : patch data offset [] = data := by
  simp [patch]

theorem length_patch (h : offset ≤ data.length) :
    (patch data offset bytes).length = max data.length (offset + bytes.length) := by
  simp only [patch, List.length_append, List.length_take, List.length_drop]
  omega

theorem getElem?_patch_left (h : offset ≤ data.length) (hn : n < offset) :
    (patch data offset bytes)[n]? = data[n]? := by
  have hlen : (data.take offset).length = offset := List.length_take_of_le h
  rw [patch, List.append_assoc, List.getElem?_append_left (by omega), List.getElem?_take_of_lt hn]

theorem getElem?_patch_inside (h : offset ≤ data.length) (hn : offset ≤ n)
    (hn' : n < offset + bytes.length) : (patch data offset bytes)[n]? = bytes[n - offset]? := by
  have hlen : (data.take offset).length = offset := List.length_take_of_le h
  rw [patch, List.append_assoc, List.getElem?_append_right (by omega), hlen,
    List.getElem?_append_left (by omega)]

theorem getElem?_patch_right (h : offset ≤ data.length) (hn : offset + bytes.length ≤ n) :
    (patch data offset bytes)[n]? = data[n]? := by
  have hlen : (data.take offset ++ bytes).length = offset + bytes.length := by
    simp only [List.length_append, List.length_take]
    omega
  rw [patch, List.getElem?_append_right (by omega), hlen, List.getElem?_drop]
  congr 1
  omega

end Bytes

open Bytes

namespace Slot

theorem getElem?_slice (s : Slot) (data : Bytes) (n : Nat) :
    (s.slice data)[n]? = if n < s.length.toNat then data[s.start + n]? else none := by
  rw [slice, List.getElem?_take]
  split
  · rw [List.getElem?_drop]
  · rfl

theorem length_slice (h : s.stop ≤ data.length) : (s.slice data).length = s.length.toNat := by
  rw [stop_eq] at h
  simp only [slice, List.length_take, List.length_drop]
  omega

/-! ### Disjoint slots -/

/-- The slots have no byte in common. -/
def Apart (s t : Slot) : Prop := s.stop ≤ t.start ∨ t.stop ≤ s.start

theorem Apart.symm (h : s.Apart t) : t.Apart s := Or.symm h

instance : Std.Symm Slot.Apart := ⟨fun _ _ => Apart.symm⟩

/-- The first slot takes the first bytes of the second, or the two are apart. -/
def Nested (s t : Slot) : Prop :=
  s.start = t.start ∧ s.length.toNat ≤ t.length.toNat ∨ s.Apart t

theorem nested_refl (s : Slot) : s.Nested s := .inl ⟨rfl, Nat.le_refl _⟩

/-- A slot that begins where another one does, and is not longer. -/
def IsShorter (s' s : Slot) : Prop := s'.start = s.start ∧ s'.length.toNat ≤ s.length.toNat

theorem IsShorter.apart (h : s'.IsShorter s) (ha : s.Apart t) : s'.Apart t := by
  obtain ⟨hstart, hlen⟩ := h
  unfold Apart at *
  simp only [stop_eq] at *
  omega

theorem IsShorter.nested (h : s'.IsShorter s) (hn : s.Nested t) : s'.Nested t := by
  rcases hn with ⟨hstart, hlen⟩ | ha
  · exact .inl ⟨h.1.trans hstart, Nat.le_trans h.2 hlen⟩
  · exact .inr (h.apart ha)

/-- A write that misses a slot leaves its bytes alone. -/
theorem slice_patch_of_apart (hin : offset ≤ data.length)
    (h : offset + bytes.length ≤ s.start ∨ s.stop ≤ offset) :
    s.slice (patch data offset bytes) = s.slice data := by
  refine List.ext_getElem? fun n => ?_
  rw [getElem?_slice, getElem?_slice]
  split
  · next hn =>
    rw [stop_eq] at h
    rcases h with h | h
    · exact getElem?_patch_right hin (by omega)
    · exact getElem?_patch_left hin (by omega)
  · rfl

/-- A write at the start of a slot replaces its first bytes. -/
theorem slice_patch_of_start (hs : s.stop ≤ data.length) (hlen : bytes.length ≤ s.length.toNat) :
    s.slice (patch data s.start bytes) = bytes ++ (s.slice data).drop bytes.length := by
  rw [stop_eq] at hs
  have hin : s.start ≤ data.length := by omega
  refine List.ext_getElem? fun n => ?_
  rw [getElem?_slice]
  by_cases hn : n < bytes.length
  · rw [if_pos (by omega), getElem?_patch_inside hin (by omega) (by omega),
      List.getElem?_append_left hn]
    congr 1
    omega
  · rw [List.getElem?_append_right (by omega), List.getElem?_drop, getElem?_slice,
      Nat.add_sub_cancel' (by omega)]
    split
    · exact getElem?_patch_right hin (by omega)
    · rfl

/-- A slot that is written as a whole holds what was written. -/
theorem slice_patch_self (hin : s.start ≤ data.length) (hlen : s.length.toNat = bytes.length) :
    s.slice (patch data s.start bytes) = bytes := by
  refine List.ext_getElem? fun n => ?_
  rw [getElem?_slice]
  split
  · rw [getElem?_patch_inside hin (by omega) (by omega)]
    congr 1
    omega
  · rw [List.getElem?_eq_none (by omega)]

end Slot

/-! ### Layouts -/

/-- Slots that divide up a part of the first `size` bytes of a file. -/
structure Layout (size : Nat) (slots : List Slot) : Prop where
  nonempty : ∀ s ∈ slots, 0 < s.length.toNat
  within : ∀ s ∈ slots, s.stop ≤ size
  apart : slots.Pairwise Slot.Apart

namespace Layout

theorem nil (size : Nat) : Layout size [] := ⟨by simp, by simp, List.Pairwise.nil⟩

theorem perm (h : Layout size slots) (hp : slots.Perm slots') : Layout size slots' :=
  ⟨fun s hs => h.nonempty s (hp.mem_iff.2 hs), fun s hs => h.within s (hp.mem_iff.2 hs),
    h.apart.perm hp Slot.Apart.symm⟩

theorem sublist (h : Layout size slots) (hs : slots'.Sublist slots) : Layout size slots' :=
  ⟨fun s hm => h.nonempty s (hs.subset hm), fun s hm => h.within s (hs.subset hm),
    h.apart.sublist hs⟩

theorem subperm (h : Layout size slots) (hs : slots'.Subperm slots) : Layout size slots' := by
  obtain ⟨l, hperm, hsub⟩ := hs
  exact (h.sublist hsub).perm hperm

theorem mono (h : Layout size slots) (hn : size ≤ n) : Layout n slots :=
  ⟨h.nonempty, fun s hs => Nat.le_trans (h.within s hs) hn, h.apart⟩

theorem of_cons (h : Layout size (s :: slots)) : Layout size slots :=
  h.sublist (List.sublist_cons_self s slots)

theorem cons_apart (h : Layout size (s :: slots)) : ∀ t ∈ slots, s.Apart t :=
  (List.pairwise_cons.1 h.apart).1

/-- A slot may give up its last bytes. -/
theorem shorten (h : Layout size (s :: slots)) (hs : s'.IsShorter s) (hpos : 0 < s'.length.toNat) :
    Layout size (s' :: slots) := by
  refine ⟨fun t ht => ?_, fun t ht => ?_, ?_⟩
  · rcases List.mem_cons.1 ht with rfl | ht
    · exact hpos
    · exact h.of_cons.nonempty t ht
  · rcases List.mem_cons.1 ht with rfl | ht
    · have := h.within s List.mem_cons_self
      obtain ⟨hstart, hlen⟩ := hs
      simp only [Slot.stop_eq] at *
      omega
    · exact h.of_cons.within t ht
  · exact List.pairwise_cons.2 ⟨fun t ht => hs.apart (h.cons_apart t ht), h.of_cons.apart⟩

/-- A new slot may begin where the file ends. -/
theorem extend (h : Layout size slots) (hstart : s.start = size) (hpos : 0 < s.length.toNat) :
    Layout s.stop (s :: slots) := by
  have hle : size ≤ s.stop := hstart ▸ Nat.le_add_right _ _
  refine ⟨fun t ht => ?_, fun t ht => ?_, ?_⟩
  · rcases List.mem_cons.1 ht with rfl | ht
    · exact hpos
    · exact h.nonempty t ht
  · rcases List.mem_cons.1 ht with rfl | ht
    · exact Nat.le_refl _
    · exact (h.mono hle).within t ht
  · refine List.pairwise_cons.2 ⟨fun t ht => .inr ?_, h.apart⟩
    exact hstart ▸ h.within t ht

/-- Of two slots of a layout one is the other, or they are apart. -/
theorem eq_or_apart (h : Layout size slots) (hs : s ∈ slots) (ht : t ∈ slots) :
    s = t ∨ s.Apart t := by
  by_cases hst : s = t
  · exact .inl hst
  · exact .inr (h.apart.forall hs ht hst)

theorem nested (h : Layout size slots) (hs : s ∈ slots) (ht : t ∈ slots) : s.Nested t := by
  rcases h.eq_or_apart hs ht with rfl | ha
  · exact s.nested_refl
  · exact .inr ha

/-- All slots together have no more bytes than the file. -/
theorem sum_length_le (h : Layout size slots) : (slots.map (·.length.toNat)).sum ≤ size := by
  have hnodup : (slots.flatMap fun s => List.range' s.start s.length.toNat).Nodup := by
    rw [List.nodup_flatMap]
    refine ⟨fun s _ => List.nodup_range', h.apart.imp fun {s t} hst => ?_⟩
    intro n hs ht
    rw [List.mem_range'_1] at hs ht
    rcases hst with hst | hst <;> simp only [Slot.stop_eq] at hst <;> omega
  have hsub : (slots.flatMap fun s => List.range' s.start s.length.toNat) ⊆ List.range size := by
    intro n hn
    obtain ⟨s, hs, hn⟩ := List.mem_flatMap.1 hn
    have := h.within s hs
    rw [Slot.stop_eq] at this
    rw [List.mem_range'_1] at hn
    exact List.mem_range.2 (by omega)
  have hle := (hnodup.subperm hsub).length_le
  simpa [List.length_flatMap] using hle

/-- There are no more slots than bytes in the file. -/
theorem length_le (h : Layout size slots) : slots.length ≤ size := by
  have hle : slots.length ≤ (slots.map (·.length.toNat)).sum := by
    have := List.length_le_sum_of_one_le (slots.map (·.length.toNat)) (by
      simpa [Nat.one_le_iff_ne_zero, Nat.pos_iff_ne_zero] using h.nonempty)
    simpa using this
  exact Nat.le_trans hle h.sum_length_le

end Layout

/-! ### Layered records -/

variable {H H' : List Element} {e : Element}

/-- The record of one of the elements `H`, and after it the end of another record, if anything. -/
def Layered (H : List Element) (bytes : Bytes) : Prop :=
  ∃ e ∈ H, ∃ tail, bytes = e.encode ++ tail ∧
    (tail = [] ∨ tail.getLast? = some Ascii.closeRecord)

namespace Layered

theorem of_mem (h : e ∈ H) : Layered H e.encode := ⟨e, h, [], by simp, .inl rfl⟩

theorem mono (h : Layered H bytes) (hsub : H ⊆ H') : Layered H' bytes := by
  obtain ⟨e, he, tail, heq, htail⟩ := h
  exact ⟨e, hsub he, tail, heq, htail⟩

theorem getLast? (h : Layered H bytes) : bytes.getLast? = some Ascii.closeRecord := by
  obtain ⟨e, -, tail, rfl, rfl | htail⟩ := h
  · rw [List.append_nil, e.getLast?_encode]
  · rw [List.getLast?_append, htail]
    rfl

/-- A record over the start of layered bytes is the first layer of what comes of it. -/
theorem overwrite (h : Layered H bytes) (he : e ∈ H) :
    Layered H (e.encode ++ bytes.drop e.encode.length) := by
  refine ⟨e, he, _, rfl, ?_⟩
  by_cases hlen : e.encode.length < bytes.length
  · exact .inr (by rw [List.getLast?_drop, if_neg (by omega), h.getLast?])
  · exact .inl (List.drop_of_length_le (by omega))

/-- What can be read from layered bytes is one whole record. -/
theorem decode_eq_ok (h : Layered H bytes) (hd : Element.decode bytes = .ok e) :
    e ∈ H ∧ bytes = e.encode := by
  obtain ⟨e', he', tail, rfl, htail⟩ := h
  rcases htail with rfl | htail
  · rw [List.append_nil, Element.decode_encode] at hd
    cases hd
    exact ⟨he', List.append_nil _⟩
  · rw [Element.decode_encode_append htail] at hd
    cases hd

end Layered

end DiskTier
