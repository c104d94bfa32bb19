import DiskTier.Proofs.FreeList.BestFit
import DiskTier.Proofs.Reuse

/-!
# A put writes one record

A put finds the place for its record once, before anything else: in the slot that the key has, in
the shortest free slot that is long enough, or behind all other bytes. What keys give up for it
becomes free only afterwards. `Store.Chooses` says how the place is found, and `Region.PutInto` what
the put does then: it writes into that place and nowhere else.
-/

namespace DiskTier

namespace Index

variable {i : Index} {l : List (Key × Slot)}

/-- The slots of the keys that another index does not have, oldest first. -/
def lost (i i' : Index) : List Slot := (i.toList.filter fun e => (i'.get? e.1).isNone).map (·.2)

/-- Where no key comes twice, the first entries are those whose keys are not among the others. -/
theorem filter_notMem_drop (h : (l.map (·.1)).Nodup) (n : Nat) :
    l.filter (fun e => e.1 ∉ (l.drop n).map (·.1)) = l.take n := by
  have hsplit : l.take n ++ l.drop n = l := List.take_append_drop n l
  have hapart : ((l.take n).map (·.1) ++ (l.drop n).map (·.1)).Nodup := by
    rwa [← List.map_append, hsplit]
  have hfirst : (l.take n).filter (fun e => e.1 ∉ (l.drop n).map (·.1)) = l.take n := by
    refine List.filter_eq_self.2 fun e he => decide_eq_true fun hmem => ?_
    exact (List.nodup_append.1 hapart).2.2 e.1 (List.mem_map_of_mem he) e.1 hmem rfl
  have hrest : (l.drop n).filter (fun e => e.1 ∉ (l.drop n).map (·.1)) = [] :=
    List.filter_eq_nil_iff.2 fun e he => by simpa using List.mem_map_of_mem (f := (·.1)) he
  calc l.filter (fun e => e.1 ∉ (l.drop n).map (·.1))
    _ = (l.take n ++ l.drop n).filter (fun e => e.1 ∉ (l.drop n).map (·.1)) := by rw [hsplit]
    _ = l.take n := by rw [List.filter_append, hfirst, hrest, List.append_nil]

/-- The keys that go for another one are those that are there no longer. -/
theorem Coherent.lost_insert (h : i.Coherent) (hcap : 0 < i.capacity) (k : Key) (s : Slot) :
    i.lost (i.insert k s).index = (i.insert k s).evicted.map (·.2) := by
  obtain ⟨-, hevicted, hc', hlist, -⟩ := h.insert k s
  have hself := h.get?_insert_self hcap k s
  have hnone : ∀ e : Key × Slot, ((i.insert k s).index.get? e.1).isNone =
      decide (e.1 ∉ (i.insert k s).index.toList.map (·.1)) := by
    intro e
    rw [hc'.get?_eq, Bool.eq_iff_iff, Option.isNone_iff_eq_none, Assoc.find?_eq_none_iff,
      decide_eq_true_iff]
  -- the entry that the key had and the one that it gets are both not among them
  have hplaced : i.toList.filter (fun e => ((i.insert k s).index.get? e.1).isNone) =
      (i.placed k s).filter fun e => ((i.insert k s).index.get? e.1).isNone := by
    rw [placed, List.filter_append, List.filter_filter]
    have hnew : [(k, s)].filter (fun e => ((i.insert k s).index.get? e.1).isNone) = [] := by
      simp [hself]
    rw [hnew, List.append_nil]
    refine List.filter_congr fun e _ => ?_
    by_cases hk : e.1 = k
    · simp [hk, hself]
    · simp [hk]
  rw [lost, hplaced, hevicted, ← filter_notMem_drop (h.nodup_placed k s)]
  congr 1
  refine List.filter_congr fun e _ => ?_
  rw [hnone, hlist]

end Index

namespace Store

open FileSystem

variable {c : Config} {d d' : FileSystem} {s s' : Store} {k : Key} {length : UInt32}
  {data keys record : Bytes} {H : List Element} {listed : List (Key × Slot)}

/-! ### The place of a record -/

/-- Where a record lies, and what room that takes. -/
structure Placement where
  slot : Slot
  /-- By how many bytes the data file grows. -/
  growth : Nat
  /-- How many free slots are used. -/
  reuses : Nat
  /-- The slots that stay free. -/
  spare : List Slot

/-- How the place for a record of a key is found. -/
inductive Chooses (s : Store) (k : Key) (length : UInt32) : Placement → Prop where
  /-- The slot that the key has is used if it is long enough. -/
  | own {t : Slot} (hk : s.index.get? k = some t) (hlong : length ≤ t.length) :
      Chooses s k length ⟨⟨t.offset, length⟩, 0, 0, s.free.toList⟩
  /-- Else the shortest free slot that is long enough. -/
  | free {u : Slot} (hshort : ∀ t, s.index.get? k = some t → t.length < length)
      (hu : u ∈ s.free.toList) (hlong : length ≤ u.length)
      (hbest : ∀ v ∈ s.free.toList, length ≤ v.length → u.length ≤ v.length) :
      Chooses s k length ⟨⟨u.offset, length⟩, 0, 1, s.free.toList.erase u⟩
  /-- Else the record goes to the end of the data file. -/
  | tail (hshort : ∀ t, s.index.get? k = some t → t.length < length)
      (hnone : ∀ v ∈ s.free.toList, v.length < length) :
      Chooses s k length ⟨⟨s.dataFile.length, length⟩, length.toNat, 0, s.free.toList⟩

/-- The place that a put takes is found in this way. -/
theorem chooses_place (hv : s.free.Valid) (k : Key) (length : UInt32) :
    ∃ (x : Placement) (free : FreeList), s.Chooses k length x ∧
      x.slot = ⟨(s.place k length).offset, length⟩ ∧
      x.reuses = (if (s.place k length).isReused then 1 else 0) ∧
      s.claim (s.place k length) = { s with free } ∧ free.Valid ∧
      free.capacity = s.free.capacity ∧ free.toList = x.spare := by
  unfold place
  cases hown : (s.index.get? k).filter (length ≤ ·.length) with
  | some t =>
    obtain ⟨hk, hlong⟩ := Option.filter_eq_some_iff.1 hown
    exact ⟨_, s.free, .own hk (of_decide_eq_true hlong), rfl, rfl, rfl, hv, rfl, rfl⟩
  | none =>
    have hshort : ∀ t, s.index.get? k = some t → t.length < length := by
      intro t ht
      simpa using Option.filter_eq_none_iff.1 hown t ht
    cases hfree : s.free.reserve? length with
    | some p =>
      obtain ⟨u, free⟩ := p
      obtain ⟨hu, hlong, hbest, herase⟩ := hv.gives hfree
      obtain ⟨-, -, hv', hcap⟩ := hv.reserve? hfree
      exact ⟨_, free, .free hshort hu hlong hbest, rfl, rfl, rfl, hv', hcap, herase⟩
    | none =>
      exact ⟨_, s.free, .tail hshort (hv.reserve?_eq_none_iff.1 hfree), rfl, rfl, rfl, hv, rfl, rfl⟩

variable {x : Placement}

/-- The data file ends where it did, or where the record does. -/
theorem Chooses.growth_eq (h : s.Chooses k length x) (hs : Sound H s data listed)
    (hlen : s.dataFile.length.toNat = data.length) :
    max data.length x.slot.stop = data.length + x.growth := by
  have hwithin : ∀ t ∈ s.slots, length ≤ t.length →
      max data.length (⟨t.offset, length⟩ : Slot).stop = data.length + 0 := by
    intro t ht hle
    have hin := hs.owned.within t ht
    rw [UInt32.le_iff_toNat_le] at hle
    simp only [Slot.stop] at hin ⊢
    omega
  cases h with
  | own hk hlong => exact hwithin _ (List.mem_append_left _ (hs.mem_slots hk)) hlong
  | free _ hu hlong _ => exact hwithin _ (List.mem_append_right _ hu) hlong
  | tail =>
    simp only [Slot.stop]
    omega

/-- The record moves if the slot that its key has is too short for it, and only then. -/
theorem Chooses.moves_iff (h : s.Chooses k length x) (hs : Sound H s data listed)
    (hlen : s.dataFile.length.toNat = data.length) {t : Slot} (ht : s.index.get? k = some t) :
    t.offset ≠ x.slot.offset ↔ t.length < x.slot.length := by
  have htm := hs.mem_slots ht
  have hpos := hs.owned.nonempty t (List.mem_append_left _ htm)
  cases h with
  | own hk hlong =>
    obtain rfl := Option.some.inj (ht.symm.trans hk)
    simpa using hlong
  | free hshort hu _ _ =>
    -- a free slot is apart from that of the key
    have happart := (List.pairwise_append.1 hs.owned.apart).2.2 t htm _ hu
    have hpos' := hs.owned.nonempty _ (List.mem_append_right _ hu)
    refine iff_of_true (fun heq => ?_) (hshort t ht)
    simp only [Slot.Apart, Slot.stop, Slot.start, heq] at happart
    omega
  | tail hshort _ =>
    have hin := hs.owned.within t (List.mem_append_left _ htm)
    refine iff_of_true (fun heq => ?_) (hshort t ht)
    simp only [Slot.stop, heq] at hin
    omega

/-! ### Writing into it -/

/-- What a write that succeeds leaves, in memory and on disk. -/
theorem write_placed (hm : Mounted c d s data keys) (ho : s.IsOpen) (hs : Sound H s data listed)
    {b : Bool} {e : Element} (hr : (write e.key e.encode).result (d, s) = (.ok b, (d', s'))) :
    ∃ (x : Placement) (free : FreeList), s.Chooses e.key x.slot.length x ∧
      x.slot.length.toNat = e.encode.length ∧ x.slot.start ≤ data.length ∧
      x.reuses = (if b then 1 else 0) ∧
      free.Valid ∧ free.capacity = s.free.capacity ∧ free.toList = x.spare ∧
      s'.index = (s.index.insert e.key x.slot).index ∧
      s'.free = free.releaseAll ((s.index.insert e.key x.slot).evicted.map (·.2) ++
        ((s.index.get? e.key).filter (·.offset ≠ x.slot.offset)).toList) ∧
      Mounted c d' s' (data.patch x.slot.start e.encode) keys := by
  cases hn : Slot.lengthOf? e.encode with
  | none =>
    unfold Store.write at hr
    rw [hn] at hr
    cases hr
  | some length =>
    have hnat : length.toNat = e.encode.length := Slot.lengthOf?_eq_some_iff.1 hn
    obtain ⟨hfits, -⟩ := hs.fits_place (k := e.key) hm.dataLength
      (hnat.symm ▸ encode_length_pos e)
    have hstart := hfits.start_le
    obtain ⟨x, free, hchooses, hslot, hreuses, hclaim, hv, hcap, hspare⟩ :=
      chooses_place hs.valid e.key length
    obtain ⟨hprevious, -⟩ := hs.coherent.insert e.key x.slot
    obtain ⟨z, hz, hdata⟩ := hm.dataFile
    rw [result_write hn] at hr
    dsimp only at hr
    rw [← hslot] at hstart hr
    have hoffset : (s.place e.key length).offset = x.slot.offset :=
      (congrArg Slot.offset hslot).symm
    have hlength : x.slot.length = length := congrArg Slot.length hslot
    rw [hclaim, hoffset] at hr
    rcases hdata.write hm.healthy ho.1 hstart e.encode with
      ⟨d₁, f, hw, hlocal, hholds, -, hpath⟩ | ⟨hw, -⟩
    · rw [show ({ s with free } : Store).dataFile = s.dataFile from rfl, hw] at hr
      cases hr
      have hmounted := hm.setData (hz ▸ hlocal) hz hholds (hpath.trans hm.dataPath)
      refine ⟨x, free, hlength ▸ hchooses, hlength ▸ hnat, hstart, hreuses, hv, hcap, hspare, rfl,
        ?_, hmounted.congr rfl rfl⟩
      rw [← hprevious]
      rfl
    · rw [show ({ s with free } : Store).dataFile = s.dataFile from rfl, hw] at hr
      cases hr

end Store

namespace Region

open FileSystem Store

variable {c : Config} {p q q' : World} {d d' : FileSystem} {r r' : Region} {data data' : Bytes}
  {H H' : List Element} {listed listed' : List (Key × Slot)} {events : List Event} {e : Element}
  {x : Placement}

/-- What a put of `e` does that places its record so. -/
structure PutInto (q q' : World) (e : Element) (x : Placement) : Prop where
  chosen : q.2.store.Chooses e.key x.slot.length x
  length : x.slot.length.toNat = e.encode.length
  /-- The record belongs to its key, and is there. -/
  slot : q'.2.store.index.get? e.key = some x.slot
  record : recordOf? q' e.key = some e.encode
  /-- The tracked length of the data file is its size before and afterwards. -/
  size : dataSize? q = some q.2.store.dataFile.length.toNat
  size' : dataSize? q' = some (q.2.store.dataFile.length.toNat + x.growth)
  tracked : q'.2.store.dataFile.length.toNat = q.2.store.dataFile.length.toNat + x.growth
  /-- Outside of its place every byte stays. -/
  bytes : ∃ before after : Content, q.1.contentAt? q.2.config.dataFile = some before ∧
    q'.1.contentAt? q'.2.config.dataFile = some after ∧
    ∀ n, n < x.slot.start ∨ x.slot.stop ≤ n → after.toList[n]? = before.toList[n]?
  /-- The other keys that are still there have the slots and the bytes that they had. -/
  others : ∀ k, k ≠ e.key → ∀ t, q'.2.store.index.get? k = some t →
    q.2.store.index.get? k = some t ∧ recordOf? q' k = recordOf? q k
  reuses : q'.2.reuses = q.2.reuses + x.reuses
  /-- The record lies elsewhere than before if its key's slot was too short, and only then. -/
  moves : ∀ t, q.2.store.index.get? e.key = some t →
    (t.offset ≠ x.slot.offset ↔ t.length < x.slot.length)
  /-- The slots of keys that had to go are offered to what stays free, and at last the slot that
  the record left. -/
  free : ∃ free : FreeList, free.Valid ∧ free.capacity = q.2.store.free.capacity ∧
    free.toList = x.spare ∧
    q'.2.store.free = free.releaseAll (q.2.store.index.lost q'.2.store.index ++
      ((q.2.store.index.get? e.key).filter (·.offset ≠ x.slot.offset)).toList)

/-- A put of a sound region that succeeds places its record. -/
theorem Sound.putInto (h : Sound H d r data listed) (ha : r.alive)
    (hr : (put e).result (d, r) = (.ok (), (d', r'))) (h' : Sound H' d' r' data' listed') :
    ∃ x, PutInto (d, r) (d', r') e x := by
  obtain ⟨hm, hs, hcapacity, -⟩ := h.intact
  have hcap : 0 < r.store.index.capacity := by
    rw [hcapacity]
    exact h.valid.roomy
  rw [result_put ha] at hr
  rcases hw : (Store.write e.key e.encode).result (d, r.store) with ⟨err | b, d₁, s'⟩
  · rw [hw] at hr
    cases hr
  rw [hw] at hr
  cases hr
  obtain ⟨x, free, hchooses, hnat, hstart, hreuses, hv, hfreeCap, hspare, hindex, hfree, hm'⟩ :=
    write_placed hm (h.open_of_alive ha) hs hw
  -- the bytes of the region after the put are those that were written
  have hdata : data' = data.patch x.slot.start e.encode := by
    have heq := h'.intact.mounted.contentAt?.symm.trans hm'.contentAt?
    exact Option.some.inj heq
  obtain ⟨before, hbefore, hbytes⟩ := Option.map_eq_some_iff.1 hm.contentAt?
  obtain ⟨after, hafter, hbytes'⟩ := Option.map_eq_some_iff.1 h'.intact.mounted.contentAt?
  have hself : s'.index.get? e.key = some x.slot := by
    rw [hindex]
    exact hs.coherent.get?_insert_self hcap e.key x.slot
  have hgrowth := hchooses.growth_eq hs hm.dataLength
  have hlength : data'.length = data.length + x.growth := by
    rw [← hgrowth, hdata, Bytes.length_patch hstart, ← hnat]
    rfl
  have htracked : s'.dataFile.length.toNat = r.store.dataFile.length.toNat + x.growth := by
    rw [h'.intact.mounted.dataLength, hm.dataLength, hlength]
  refine ⟨x, hchooses, hnat, hself, ?_, h.owned.size, ?_, htracked, ?_, ?_, ?_, ?_, ?_⟩
  · rw [h'.recordOf?_eq]
    show (s'.index.get? e.key).map (·.slice data') = _
    rw [hself, Option.map_some, hdata, Slot.slice_patch_self hstart hnat]
  · rw [← htracked]
    exact h'.owned.size
  · refine ⟨before, after, hbefore, hafter, fun n hn => ?_⟩
    rw [hbytes, hbytes', hdata]
    rcases hn with hn | hn
    · exact Bytes.getElem?_patch_left hstart hn
    · refine Bytes.getElem?_patch_right hstart ?_
      rw [← hnat]
      exact hn
  · intro k hk t ht
    -- a key that is still there was there, and its slot is apart from that of the record
    have hmem : (k, t) ∈ r.store.index.placed e.key x.slot := by
      have hafter : (k, t) ∈ s'.index.toList := h'.intact.sound.coherent.mem_toList_iff.2 ht
      rw [hindex, (hs.coherent.insert e.key x.slot).2.2.2.1] at hafter
      exact List.mem_of_mem_drop hafter
    have hbefore' : r.store.index.get? k = some t := by
      rcases List.mem_append.1 hmem with hmem | hmem
      · exact hs.coherent.mem_toList_iff.1 (List.mem_of_mem_filter hmem)
      · exact absurd (congrArg Prod.fst (List.mem_singleton.1 hmem)) hk
    refine ⟨hbefore', ?_⟩
    have happart : x.slot.Apart t := h'.owned.keys_apart _ _ _ _ hself ht (Ne.symm hk)
    rw [h'.recordOf?_eq, h.recordOf?_eq]
    show (s'.index.get? k).map (·.slice data') = (r.store.index.get? k).map (·.slice data)
    rw [ht, hbefore', Option.map_some, Option.map_some, hdata,
      Slot.slice_patch_of_apart hstart (by rw [← hnat]; exact happart)]
  · show (if b then r.reuses + 1 else r.reuses) = r.reuses + x.reuses
    rw [hreuses]
    cases b <;> rfl
  · exact fun t ht => hchooses.moves_iff hs hm.dataLength ht
  · refine ⟨free, hv, hfreeCap, hspare, ?_⟩
    show s'.free = _
    rw [hfree]
    show _ = free.releaseAll (r.store.index.lost s'.index ++ _)
    rw [hindex, hs.coherent.lost_insert hcap]

/-- **A put writes one record and nothing else.** However a region came to its state, a put that
succeeds puts its record into the slot of its key if that is long enough, else into the shortest
free slot that is, else at the end of the data file, which only then grows, by the length of the
record. All bytes outside of that place stay, so every other key that is still there reads as
before. The slots of keys that had to go are offered to the free list, each once, and so is the slot
that the record left, if it moved. -/
theorem put_writes_one_record (h : OpenedEmpty c p) (hr : Run Step p events q) (ha : q.2.alive)
    (hput : Step q (.called (.put e) (.ok ())) q') : ∃ x, PutInto q q' e x := by
  obtain ⟨data, listed, hsound⟩ := hr.isSound h
  obtain ⟨data', listed', hsound'⟩ := isSound_step ⟨data, listed, hsound⟩ hput
  exact hsound.putInto ha hput.result_of_called hsound'

/-- The record of a key moves into the slot of one that was removed. Later that of a new key goes
into the slot that was left, for which the first key has to go. -/
theorem record_moves_into_free_slot : ∃ p q₃ q₄ q₅ q₆ : World, ∃ x y : Placement,
    OpenedEmpty (roomFor 2) p ∧
    Run Step p [.called (.put (note "x" [])) (.ok ()), .called (.put (note "y" [1, 2])) (.ok ()),
      .called (.remove (.name "y")) (.ok true)] q₃ ∧
    Step q₃ (.called (.put (note "x" [1])) (.ok ())) q₄ ∧
    (PutInto q₃ q₄ (note "x" [1]) x ∧ x.slot = ⟨99, 100⟩ ∧ q₄.2.store.free.toList = [⟨0, 99⟩]) ∧
    Step q₄ (.called (.put (note "z" [1, 2])) (.ok ())) q₅ ∧
    Step q₅ (.called (.put (note "w" [])) (.ok ())) q₆ ∧
    (PutInto q₅ q₆ (note "w" []) y ∧ y.slot = ⟨0, 99⟩ ∧ q₆.2.store.free.toList = [⟨99, 100⟩]) := by
  have h : ((opened? (roomFor 2) .empty).map fun p =>
      let q₁ := (Call.put (note "x" [])).perform.result p
      let q₂ := (Call.put (note "y" [1, 2])).perform.result q₁.2
      let q₃ := (Call.remove (.name "y")).perform.result q₂.2
      let q₄ := (Call.put (note "x" [1])).perform.result q₃.2
      let q₅ := (Call.put (note "z" [1, 2])).perform.result q₄.2
      let q₆ := (Call.put (note "w" [])).perform.result q₅.2
      decide ((p.2.size = 0 ∧ q₁.1 = .ok () ∧ q₂.1 = .ok () ∧ q₃.1 = .ok true ∧ q₄.1 = .ok () ∧
          q₅.1 = .ok () ∧ q₆.1 = .ok ()) ∧
        (q₃.2.2.alive ∧ q₄.2.2.store.index.get? (.name "x") = some ⟨99, 100⟩ ∧
          q₄.2.2.store.free.toList = [⟨0, 99⟩]) ∧
        (q₅.2.2.alive ∧ q₆.2.2.store.index.get? (.name "w") = some ⟨0, 99⟩ ∧
          q₆.2.2.store.free.toList = [⟨99, 100⟩]))) = some true := by
    decide +kernel
  obtain ⟨p, hp, h⟩ := Option.map_eq_some_iff.1 h
  obtain ⟨⟨hsize, h₁, h₂, h₃, h₄, h₅, h₆⟩, ⟨ha, hslot, hfree⟩, ha', hslot', hfree'⟩ :=
    of_decide_eq_true h
  have ho := openedEmpty_of_eq empty_healthy hp hsize
  have hr := (((Run.nil p).call _ h₁).call _ h₂).call _ h₃
  have hr' := (hr.call _ h₄).call _ h₅
  obtain ⟨x, hx⟩ := put_writes_one_record ho hr ha (.of_result h₄)
  obtain ⟨y, hy⟩ := put_writes_one_record ho hr' ha' (.of_result h₆)
  exact ⟨p, _, _, _, _, x, y, ho, hr, .of_result h₄,
    ⟨hx, Option.some.inj (hx.slot.symm.trans hslot), hfree⟩, .of_result h₅, .of_result h₆,
    ⟨hy, Option.some.inj (hy.slot.symm.trans hslot'), hfree'⟩⟩

end Region

end DiskTier
