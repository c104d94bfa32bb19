import DiskTier.Proofs.FreeList.Order
import DiskTier.Proofs.Ownership

/-!
# Freed room is used again at once

A slot that a key gives up is offered to the free list, which may turn it away, or take it and drop
another. Either way the list then has a slot that is no shorter: offers make the longest slot of the
list longer or leave it as it is. So the next record that fits into what was given up has a place
within the data file.
-/

namespace DiskTier

namespace FreeList

variable {f : FreeList} {s t : Slot} {l slots : List Slot} {capacity : Nat}

/-! ### The longest slot -/

/-- Whatever is made of an offer, no slot is missed for its length. -/
theorem exists_mem_offered (hcap : 0 < capacity) (ht : t ∈ s :: l) :
    ∃ u ∈ (offered capacity s l).2, t.length ≤ u.length := by
  by_cases hroom : l.length < capacity
  · rw [offered_of_room hroom]
    exact ⟨t, mem_shelve.2 (List.mem_cons.1 ht), UInt32.le_refl _⟩
  · rcases l with _ | ⟨a, rest⟩
    · exact absurd hcap hroom
    · rw [offered_cons hroom]
      split
      · next hle =>
        -- the offer is turned away by a slot that is no shorter
        rcases List.mem_cons.1 ht with rfl | ht
        · exact ⟨a, List.mem_cons_self, hle⟩
        · exact ⟨t, ht, UInt32.le_refl _⟩
      · next hlt =>
        -- the slot that goes is shorter than the one that comes
        rcases List.mem_cons.1 ht with rfl | ht
        · exact ⟨t, mem_shelve.2 (.inl rfl), UInt32.le_refl _⟩
        · rcases List.mem_cons.1 ht with rfl | ht
          · exact ⟨s, mem_shelve.2 (.inl rfl), UInt32.le_of_lt (UInt32.not_le.1 hlt)⟩
          · exact ⟨t, mem_shelve.2 (.inr ht), UInt32.le_refl _⟩

theorem Valid.exists_mem_release (h : f.Valid) (hcap : 0 < f.capacity) (ht : t ∈ s :: f.toList) :
    ∃ u ∈ (f.release s).2.toList, t.length ≤ u.length :=
  (h.release_eq s).2 ▸ exists_mem_offered hcap ht

theorem Valid.exists_mem_releaseAll (h : f.Valid) (hcap : 0 < f.capacity)
    (ht : t ∈ slots ++ f.toList) : ∃ u ∈ (f.releaseAll slots).toList, t.length ≤ u.length := by
  induction slots generalizing f t with
  | nil => exact ⟨t, ht, UInt32.le_refl _⟩
  | cons s slots ih =>
    obtain ⟨hvalid, hcap', -⟩ := h.release s
    have hlater : ∀ u ∈ slots ++ (f.release s).2.toList,
        ∃ v ∈ (f.releaseAll (s :: slots)).toList, u.length ≤ v.length := fun u hu =>
      ih hvalid (hcap' ▸ hcap) hu
    have hsplit : t ∈ slots ∨ t ∈ s :: f.toList := by
      simp only [List.cons_append, List.mem_cons, List.mem_append] at ht ⊢
      tauto
    rcases hsplit with ht | ht
    · exact hlater t (List.mem_append_left _ ht)
    · obtain ⟨u, hu, hle⟩ := h.exists_mem_release hcap ht
      obtain ⟨v, hv, hle'⟩ := hlater u (List.mem_append_right _ hu)
      exact ⟨v, hv, UInt32.le_trans hle hle'⟩

/-! ### Last in, first out -/

theorem find?_shelve (s : Slot) (l : List Slot) :
    (shelve s l).find? (s.length ≤ ·.length) = some s := by
  induction l with
  | nil => exact List.find?_cons_of_pos (by simp)
  | cons t l ih =>
    by_cases hle : s.length ≤ t.length
    · rw [shelve_cons_of_le hle]
      exact List.find?_cons_of_pos (by simp)
    · rw [shelve_cons_of_lt (UInt32.not_le.1 hle), List.find?_cons_of_neg (by simpa using hle)]
      exact ih

/-- A slot that found room is the first to be given away for its length. -/
theorem Valid.reserve?_release (h : f.Valid) (hroom : f.count < f.capacity) (s : Slot) :
    ∃ g, (f.release s).2.reserve? s.length = some (s, g) := by
  have hlist : (f.release s).2.toList = shelve s f.toList := by
    rw [(h.release_eq s).2, offered_of_room (h.count_eq ▸ hroom)]
  have hbest := (h.release s).1.reserve?_eq s.length
  rw [hlist, find?_shelve] at hbest
  obtain ⟨⟨t, g⟩, hg, heq⟩ := Option.map_eq_some_iff.1 hbest
  obtain rfl : t = s := congrArg Prod.fst heq
  exact ⟨g, hg⟩

end FreeList

namespace Store

open FileSystem

variable {c : Config} {d d' : FileSystem} {s s' : Store} {k : Key} {slot : Slot} {data : Bytes}
  {H : List Element} {listed : List (Key × Slot)} {p : Key → Bool} {record : Bytes}
  {length : UInt32}

/-! ### What is given up -/

/-- Whether a key is gone, or has its record elsewhere. -/
def lacks (s : Store) (e : Key × Slot) : Bool := (s.index.get? e.1).all (·.offset ≠ e.2.offset)

/-- The slots that keys have before and give up. -/
def freed (s s' : Store) : List Slot := (s.index.toList.filter s'.lacks).map (·.2)

/-- What keys give up is offered to a free list that has no more slots than the one before. -/
def Yields (s s' : Store) : Prop :=
  ∃ (free : FreeList) (left : List Slot), free.Valid ∧ free.capacity = s.free.capacity ∧
    free.count ≤ s.free.count ∧ s'.free = free.releaseAll left ∧ left.Perm (s.freed s')

theorem lacks_of_none (h : s.index.get? k = none) (t : Slot) : s.lacks (k, t) = true := by
  rw [lacks, h]
  rfl

theorem lacks_of_some (h : s.index.get? k = some slot) (t : Slot) :
    s.lacks (k, t) = decide (slot.offset ≠ t.offset) := by
  rw [lacks, h]
  rfl

theorem lacks_of_mem (h : s.index.Coherent) {e : Key × Slot} (he : e ∈ s.index.toList) :
    s.lacks e = false := by
  rw [lacks_of_some (h.mem_toList_iff.1 he)]
  simp

theorem lacks_of_key (h : s.index.Coherent) {e : Key × Slot}
    (he : e.1 ∉ s.index.toList.map (·.1)) : s.lacks e = true := by
  refine lacks_of_none ?_ e.2
  rw [h.get?_eq]
  exact Assoc.find?_eq_none_iff.2 he

/-- What is left of an index is not given up, and the rest is. -/
theorem freed_of_filter (hc' : s'.index.Coherent)
    (hl : s'.index.toList = s.index.toList.filter (!p ·.1)) :
    s.freed s' = (s.index.toList.filter (p ·.1)).map (·.2) := by
  rw [freed]
  congr 1
  refine List.filter_congr fun e he => ?_
  cases hp : p e.1 with
  | true =>
    apply lacks_of_key hc'
    rw [hl, List.mem_map]
    rintro ⟨e', he', heq⟩
    have := (List.mem_filter.1 he').2
    rw [heq, hp] at this
    cases this
  | false =>
    apply lacks_of_mem hc'
    rw [hl]
    exact List.mem_filter.2 ⟨he, by rw [hp]; rfl⟩

theorem yields_refl (hc : s.index.Coherent) (hv : s.free.Valid) : s.Yields s := by
  refine ⟨s.free, [], hv, rfl, Nat.le_refl _, rfl, ?_⟩
  rw [freed_of_filter (p := fun _ => false) hc (by simp)]
  simp

theorem yields_removeWhere (hc : s.index.Coherent) (hv : s.free.Valid) (p : Key → Bool) :
    s.Yields (s.removeWhere p).2 := by
  obtain ⟨hremoved, hc', hlist, -⟩ := hc.removeWhere p
  refine ⟨s.free, (s.index.removeWhere p).1.map (·.2), hv, rfl, Nat.le_refl _, rfl, ?_⟩
  rw [freed_of_filter hc' hlist, hremoved]

/-- A key that addresses no hierarchy gives up its slot, if it has one. -/
theorem remove_eq (hk : k.hierarchy? = none) (s : Store) :
    (s.remove k).2 = { s with
      index := (s.index.remove k).2, free := s.free.releaseAll (s.index.get? k).toList } := by
  rw [Store.remove, hk, ← Index.remove_fst]
  dsimp only
  unfold Index.remove
  cases Assoc.find? s.index.entries k <;> rfl

theorem yields_remove (hc : s.index.Coherent) (hv : s.free.Valid) (k : Key) :
    s.Yields (s.remove k).2 := by
  cases hk : k.hierarchy? with
  | some start =>
    rw [Store.remove, hk]
    exact yields_removeWhere hc hv _
  | none =>
    have hlist : (s.index.remove k).2.toList = s.index.toList.filter fun e => !decide (e.1 = k) := by
      rw [hc.toList_remove]
      exact List.filter_congr fun e _ => by simp
    rw [remove_eq hk]
    refine ⟨s.free, _, hv, rfl, Nat.le_refl _, rfl, ?_⟩
    rw [freed_of_filter (p := fun k' => decide (k' = k)) (hc.remove k) hlist,
      Assoc.filter_eq hc.nodup_toList, ← hc.get?_eq]
    cases s.index.get? k <;> exact .refl _

/-- The keys that go to make room, and the slot that `k` leaves, are all that is given up. -/
theorem left_perm_freed (hc : s.index.Coherent) (hcap : 0 < s.index.capacity)
    (hs' : s'.index = (s.index.insert k slot).index) :
    ((s.index.insert k slot).evicted.map (·.2) ++
      ((s.index.insert k slot).previous.filter (·.offset ≠ slot.offset)).toList).Perm
        (s.freed s') := by
  obtain ⟨-, hevicted, hc', hlist, -⟩ := hc.insert k slot
  have hself := hc.get?_insert_self hcap k slot
  have hperm := hc.insert_perm k slot
  have honce : (((s.index.insert k slot).evicted ++ (s.index.insert k slot).index.toList).map
      (·.1)).Nodup := by
    rw [hevicted, hlist, List.take_append_drop]
    exact hc.nodup_placed k slot
  rw [← hs'] at hc' hself hperm honce
  -- what is there is not given up, but all that goes is, and `k` gives its slot up if it moves
  have hkept : s'.index.toList.filter s'.lacks = [] :=
    List.filter_eq_nil_iff.2 fun e he => by simp [lacks_of_mem hc' he]
  have hgone : (s.index.insert k slot).evicted.filter s'.lacks =
      (s.index.insert k slot).evicted := by
    refine List.filter_eq_self.2 fun e he => lacks_of_key hc' ?_
    rw [List.map_append, List.nodup_append] at honce
    exact fun hmem => honce.2.2 e.1 (List.mem_map_of_mem he) e.1 hmem rfl
  have hnew : [(k, slot)].filter s'.lacks = [] :=
    List.filter_eq_nil_iff.2 fun e he => by simp [List.mem_singleton.1 he, lacks_of_some hself]
  have hmoved : (((s.index.insert k slot).previous.map (k, ·)).toList.filter s'.lacks).map (·.2) =
      ((s.index.insert k slot).previous.filter (·.offset ≠ slot.offset)).toList := by
    cases (s.index.insert k slot).previous with
    | none => rfl
    | some t =>
      by_cases ht : t.offset = slot.offset
      · simp [lacks_of_some hself, Option.filter, ht]
      · simp [lacks_of_some hself, Option.filter, ht, Ne.symm ht]
  have hfreed := (hperm.filter s'.lacks).map (·.2)
  rw [List.filter_append, hnew, List.append_nil, List.filter_append, List.filter_append, hkept,
    hgone, List.nil_append, List.map_append, hmoved] at hfreed
  exact (hfreed.trans List.perm_append_comm).symm

/-! ### Writing -/

/-- A write that succeeds installs what it wrote. -/
theorem eq_install_of_write {b : Bool} (hr : (write k record).result (d, s) = (.ok b, (d', s'))) :
    ∃ length f, Slot.lengthOf? record = some length ∧
      s' = ({ s.claim (s.place k length) with dataFile := f } : Store).install k
        ⟨(s.place k length).offset, length⟩ := by
  cases hn : Slot.lengthOf? record with
  | none =>
    unfold Store.write at hr
    rw [hn] at hr
    cases hr
  | some length =>
    rw [result_write hn] at hr
    dsimp only at hr
    split at hr
    · cases hr
      exact ⟨length, _, rfl, rfl⟩
    · cases hr

theorem yields_write (hm : Mounted c d s data (listing listed)) (ho : s.IsOpen)
    (hs : Sound H s data listed) (hcap : 0 < s.index.capacity) (e : Element) :
    s.Yields ((write e.key e.encode).result (d, s)).2.2 := by
  rcases write_spec hm ho hs e with ⟨b, d', s', data', hr, -⟩ | ⟨err, d', hr, -⟩
  · obtain ⟨length, f, -, hs'⟩ := eq_install_of_write hr
    obtain ⟨free, hclaim, hv, hfreeCap, hcount⟩ := claim_place hs.valid e.key length
    rw [hclaim] at hs'
    rw [hr]
    refine ⟨free, _, hv, hfreeCap, hcount, congrArg Store.free hs', ?_⟩
    exact left_perm_freed hs.coherent hcap (congrArg Store.index hs')
  · rw [hr]
    exact yields_refl hs.coherent hs.valid

/-- A record that some free slot can hold is not put at the end. -/
theorem place_ne_tail (hv : s.free.Valid) {t : Slot} (ht : t ∈ s.free.toList)
    (hle : length ≤ t.length) (k : Key) (offset : UInt64) : s.place k length ≠ .tail offset := by
  unfold place
  cases (s.index.get? k).filter (length ≤ ·.length) with
  | some u => nofun
  | none =>
    cases hfree : s.free.reserve? length with
    | some p => nofun
    | none => exact absurd hle (UInt32.not_le.2 (hv.reserve?_eq_none_iff.1 hfree t ht))

/-- Such a record is written, and the data file is as long as before. -/
theorem write_inside (hm : Mounted c d s data (listing listed)) (ho : s.IsOpen)
    (hs : Sound H s data listed) (hcap : 0 < s.index.capacity) (e : Element) {t : Slot}
    (ht : t ∈ s.free.toList) (hle : e.encode.length ≤ t.length.toNat) :
    ∃ length b d' s', length.toNat = e.encode.length ∧
      (write e.key e.encode).result (d, s) = (.ok b, (d', s')) ∧
      s'.dataFile.length = s.dataFile.length ∧
      s'.index.get? e.key = some ⟨(s.place e.key length).offset, length⟩ := by
  have hmax : t.length.toNat ≤ Slot.maxLength := Nat.le_of_lt_succ t.length.toNat_lt
  have hlen : e.encode.length ≤ Slot.maxLength := Nat.le_trans hle hmax
  obtain ⟨length, hn⟩ := Slot.lengthOf?_of_le hlen
  have hnat : length.toNat = e.encode.length := Slot.lengthOf?_eq_some_iff.1 hn
  obtain ⟨hfits, htail | hin⟩ := hs.fits_place (k := e.key) hm.dataLength
    (hnat.symm ▸ encode_length_pos e)
  · refine absurd htail (place_ne_tail hs.valid ht ?_ _ _)
    rw [UInt32.le_iff_toNat_le, hnat]
    exact hle
  · obtain ⟨x, -, hdata⟩ := hm.dataFile
    obtain ⟨free, hclaim, -⟩ := claim_place hs.valid e.key length
    rw [result_write hn]
    dsimp only
    have hstart : (s.place e.key length).offset.toNat ≤ data.length := hfits.start_le
    rw [hclaim]
    rw [hnat] at hin
    rcases hdata.write hm.healthy ho.1 hstart e.encode with
      ⟨d', f, hr, -, hholds, -⟩ | ⟨-, htoo⟩
    · refine ⟨length, _, d', _, hnat, by rw [hr], ?_, ?_⟩
      · show f.length = s.dataFile.length
        rw [← UInt64.toNat_inj, hholds.length, hdata.length, Bytes.length_patch hstart]
        exact Nat.max_eq_left hin
      · exact hs.coherent.get?_insert_self hcap e.key _
    · have := hm.data_le
      have : maxPosition < (s.place e.key length).offset.toNat + e.encode.length := htoo
      omega

/-! ### The place after slots are given up -/

theorem Yields.exists_mem_free (h : s.Yields s') (hcap : 0 < s.free.capacity)
    (hmem : slot ∈ s.freed s') : ∃ t ∈ s'.free.toList, slot.length ≤ t.length := by
  obtain ⟨free, left, hv, hfreeCap, -, hfree, hperm⟩ := h
  rw [hfree]
  exact hv.exists_mem_releaseAll (hfreeCap ▸ hcap)
    (List.mem_append_left _ (hperm.mem_iff.2 hmem))

/-- A key that is new gets the one slot that was given up, if its record is as long. -/
theorem Yields.offset_place (h : s.Yields s') (hroom : s.free.count < s.free.capacity)
    (hfreed : s.freed s' = [slot]) (hk : s'.index.get? k = none) :
    (s'.place k slot.length).offset = slot.offset := by
  obtain ⟨free, left, hv, hfreeCap, hcount, hfree, hperm⟩ := h
  rw [hfreed, List.perm_singleton] at hperm
  obtain ⟨g, hg⟩ := hv.reserve?_release (by omega) slot
  have hfree' : s'.free = (free.release slot).2 := by rw [hfree, hperm]; rfl
  rw [place, hk, hfree', hg]
  rfl

end Store

/-- Whether a call can make keys give up slots. A reset does not: it leaves no slot at all. -/
def Call.givesUp {α : Type} : Call α → Bool
  | .put _ => true
  | .remove _ => true
  | .removeGroup _ => true
  | _ => false

namespace Region

open FileSystem

variable {α : Type} {c : Config} {p q q' q'' : World} {d : FileSystem} {r : Region} {data : Bytes}
  {H : List Element} {listed : List (Key × Slot)} {events : List Event}

/-- How many bytes the data file has on disk. -/
def dataSize? (p : World) : Option Nat :=
  (p.1.contentAt? p.2.config.dataFile).map Content.size

/-- The calls that can make keys give up slots offer what is given up to the free list. -/
theorem Sound.yields (h : Sound H d r data listed) (ha : r.alive) {call : Call α}
    (hcall : call.givesUp) :
    r.store.Yields (call.perform.result (d, r)).2.2.store ∧
      Changes r (call.perform.result (d, r)).2.2 := by
  have hs := h.intact.sound
  -- what is removed from the store is removed from the region
  have hremoval : ∀ f : Store → Bool × Store, r.store.Yields (f r.store).2 →
      r.store.Yields (r.removeBy f).2.store ∧ Changes r (r.removeBy f).2 := by
    intro f hf
    obtain ⟨-, hstore, hchanges, -⟩ := removeBy_eq ha f
    exact ⟨hstore ▸ hf, hchanges⟩
  cases call with
  | put e =>
    have hcap : 0 < r.store.index.capacity := by
      rw [h.intact.capacity]
      exact h.valid.roomy
    have hyields := Store.yields_write h.intact.mounted (h.open_of_alive ha) hs hcap e
    show r.store.Yields ((put e).result (d, r)).2.2.store ∧ Changes r ((put e).result (d, r)).2.2
    rw [result_put ha]
    generalize (Store.write e.key e.encode).result (d, r.store) = outcome at hyields ⊢
    rcases outcome with ⟨err | reused, q⟩
    · exact ⟨hyields, rfl, rfl, rfl, .inl ⟨rfl, rfl⟩⟩
    · exact ⟨hyields, rfl, rfl, rfl, .inl ⟨rfl, rfl⟩⟩
  | remove k => exact hremoval (·.remove k) (Store.yields_remove hs.coherent hs.valid k)
  | removeGroup g =>
    exact hremoval (·.removeGroup g) (Store.yields_removeWhere hs.coherent hs.valid _)
  | _ => cases hcall

/-- **Freed room is used again at once.** Let there be room for a free slot at all, and let a call
make keys give up slots: because they are removed, because they have to go for another, or because a
longer record moves. However full the free list is, the next put of a record that is no longer than
one of these slots succeeds, and leaves the data file as long as it is. If one slot alone was given
up and the free list was not full, a key that is not there gets just this slot for a record that is
as long. -/
theorem freed_room_is_used_again (h : OpenedEmpty c p) (hr : Run Step p events q)
    (ha : q.2.alive) (hbin : 1 ≤ q.2.config.maxFreeSlots) {call : Call α}
    {answer : Except Error α} (hcall : call.givesUp) (hstep : Step q (.called call answer) q')
    {slot : Slot} (hfreed : slot ∈ q.2.store.freed q'.2.store) {e : Element}
    (hfit : e.encode.length ≤ slot.length.toNat) {answer' : Except Error Unit}
    (hput : Step q' (.called (.put e) answer') q'') :
    (answer' = .ok () ∧ q''.2.store.dataFile.length = q'.2.store.dataFile.length ∧
      dataSize? q'' = dataSize? q') ∧
    (q.2.store.freed q'.2.store = [slot] → q.2.store.free.count < q.2.config.maxFreeSlots →
      q'.2.store.index.get? e.key = none → e.encode.length = slot.length.toNat →
      q''.2.store.index.get? e.key = some slot) := by
  obtain ⟨data, listed, hsound⟩ := hr.isSound h
  have hsound' := isSound_step ⟨data, listed, hsound⟩ hstep
  obtain ⟨data'', listed'', hsound''⟩ := isSound_step hsound' hput
  obtain ⟨data', listed', hsound'⟩ := hsound'
  have hfreeCap := hsound.intact.freeCapacity
  -- what was given up is offered, so the free list has a slot that is long enough
  obtain ⟨hyields, hchanges⟩ : q.2.store.Yields q'.2.store ∧ Changes q.2 q'.2 := by
    cases hstep
    exact hsound.yields ha hcall
  obtain ⟨t, ht, hle⟩ := hyields.exists_mem_free (by omega) hfreed
  rw [UInt32.le_iff_toNat_le] at hle
  have ha' : q'.2.alive := hchanges.alive.trans ha
  have hcap : 0 < q'.2.store.index.capacity := by
    rw [hsound'.intact.capacity]
    exact hsound'.valid.roomy
  -- and there the record is put
  obtain ⟨length, b, d', s', hnat, hwrite, hlength, hget⟩ :=
    Store.write_inside hsound'.intact.mounted (hsound'.open_of_alive ha') hsound'.intact.sound hcap
      e ht (Nat.le_trans hfit hle)
  have hresult := result_put ha' e q'.1
  rw [hwrite] at hresult
  have hend : answer' = .ok () ∧ q''.2.store = s' := by
    cases hput
    exact ⟨congrArg Prod.fst hresult, congrArg (·.2.2.store) hresult⟩
  obtain ⟨hanswer, hstore⟩ := hend
  refine ⟨⟨hanswer, hstore ▸ hlength, ?_⟩, fun hone hroom hk hsame => ?_⟩
  · rw [dataSize?, dataSize?, hsound''.owned.size, hsound'.owned.size, hstore, hlength]
  · have hlen : length = slot.length := UInt32.toNat_inj.1 (hnat.trans hsame)
    rw [hstore, hget, hlen, hyields.offset_place (hfreeCap ▸ hroom) hone hk]

/-- The slot of a key that is removed goes to the next one. Later the free list has it again and is
full, so that it turns away the slot of the other key, and still there is room. -/
theorem slot_turned_away_leaves_room : ∃ p q₂ q₃ q₄ q₅ q₆ q₇ : World,
    OpenedEmpty (roomFor 2) p ∧
    Run Step p [.called (.put (note "x" [1, 2])) (.ok ()), .called (.put (note "y" [1])) (.ok ())]
      q₂ ∧
    Step q₂ (.called (.remove (.name "x")) (.ok true)) q₃ ∧
    Step q₃ (.called (.put (note "z" [3, 4])) (.ok ())) q₄ ∧
    (q₂.2.store.freed q₃.2.store = [⟨0, 102⟩] ∧
      q₄.2.store.index.get? (.name "z") = some ⟨0, 102⟩) ∧
    Step q₄ (.called (.remove (.name "z")) (.ok true)) q₅ ∧
    Step q₅ (.called (.remove (.name "y")) (.ok true)) q₆ ∧
    (q₅.2.store.freed q₆.2.store = [⟨102, 100⟩] ∧ q₆.2.store.free.toList = [⟨0, 102⟩]) ∧
    Step q₆ (.called (.put (note "w" [5])) (.ok ())) q₇ ∧ dataSize? q₇ = dataSize? q₆ := by
  have h : ((opened? (roomFor 2) .empty).map fun p =>
      let q₁ := (Call.put (note "x" [1, 2])).perform.result p
      let q₂ := (Call.put (note "y" [1])).perform.result q₁.2
      let q₃ := (Call.remove (.name "x")).perform.result q₂.2
      let q₄ := (Call.put (note "z" [3, 4])).perform.result q₃.2
      let q₅ := (Call.remove (.name "z")).perform.result q₄.2
      let q₆ := (Call.remove (.name "y")).perform.result q₅.2
      decide ((p.2.size = 0 ∧ q₁.1 = .ok () ∧ q₂.1 = .ok () ∧ q₃.1 = .ok true ∧ q₅.1 = .ok true ∧
          q₆.1 = .ok true) ∧
        (q₂.2.2.alive ∧ 1 ≤ q₂.2.2.config.maxFreeSlots ∧
          q₂.2.2.store.free.count < q₂.2.2.config.maxFreeSlots ∧
          q₂.2.2.store.freed q₃.2.2.store = [⟨0, 102⟩] ∧
          q₃.2.2.store.index.get? (.name "z") = none ∧ (note "z" [3, 4]).encode.length = 102) ∧
        (q₅.2.2.alive ∧ 1 ≤ q₅.2.2.config.maxFreeSlots ∧
          q₅.2.2.store.freed q₆.2.2.store = [⟨102, 100⟩] ∧
          q₆.2.2.store.free.toList = [⟨0, 102⟩] ∧ (note "w" [5]).encode.length = 100))) =
        some true := by
    decide +kernel
  obtain ⟨p, hp, h⟩ := Option.map_eq_some_iff.1 h
  obtain ⟨⟨hsize, h₁, h₂, h₃, h₅, h₆⟩, ⟨ha, hbin, hroom, hfreed, hnew, hlen⟩,
    ha', hbin', hfreed', hfull, hlen'⟩ := of_decide_eq_true h
  have ho := openedEmpty_of_eq empty_healthy hp hsize
  have hr := ((Run.nil p).call _ h₁).call _ h₂
  -- the next key gets the slot of the first
  obtain ⟨⟨h₄, -⟩, hsame⟩ := freed_room_is_used_again ho hr ha hbin rfl (Step.of_result h₃)
    (by rw [hfreed]; exact List.mem_singleton_self _) (Nat.le_of_eq hlen)
    (.called (.put (note "z" [3, 4])) _)
  -- there is room, though the slot that was given up last is lost
  have hr' := (((hr.call _ h₃).call _ h₄).call _ h₅)
  obtain ⟨⟨h₇, -, hsize'⟩, -⟩ := freed_room_is_used_again ho hr' ha' hbin' rfl (Step.of_result h₆)
    (by rw [hfreed']; exact List.mem_singleton_self _) (Nat.le_of_eq hlen')
    (.called (.put (note "w" [5])) _)
  exact ⟨p, _, _, _, _, _, _, ho, hr, .of_result h₃, .of_result h₄,
    ⟨hfreed, hsame hfreed hroom hnew hlen⟩, .of_result h₅, .of_result h₆, ⟨hfreed', hfull⟩,
    .of_result h₇, hsize'⟩

end Region

end DiskTier
