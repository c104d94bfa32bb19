import DiskTier.Compaction
import DiskTier.Proofs.Store.Actions

/-!
# What a compaction does to a store

A draft is `Filled`: its slots divide up a part of its file, and each holds layered records. A copy
makes it `Fresh` for a key: it has for that key what the store has. A draft that is fresh for every
key of the store, once it is installed, leaves the store with the same records, in another order.
-/

namespace DiskTier

open FileSystem

namespace Assoc

variable {α β : Type} [DecidableEq α]

theorem find?_filter (m : List (α × β)) (p : α → Bool) (a : α) :
    find? (m.filter (p ·.1)) a = if p a then find? m a else none := by
  induction m with
  | nil => simp [find?]
  | cons e m ih =>
    obtain ⟨k, v⟩ := e
    by_cases hk : a = k
    · subst hk
      by_cases hp : p a <;> simp [find?, ih, hp]
    · by_cases hp : p k <;> simp [find?, ih, hp, hk]

/-- Two maps with the same values are the same up to order. -/
theorem perm_of_find?_eq {m m' : List (α × β)} (hm : (m.map (·.1)).Nodup)
    (hm' : (m'.map (·.1)).Nodup) (h : ∀ a, find? m a = find? m' a) : m.Perm m' := by
  rw [List.perm_ext_iff_of_nodup hm.of_map hm'.of_map]
  rintro ⟨a, b⟩
  rw [← find?_eq_some_iff hm, ← find?_eq_some_iff hm', h]

/-- The order of a map with distinct keys does not matter. -/
theorem find?_eq_of_perm {m m' : List (α × β)} (hm : (m.map (·.1)).Nodup) (h : m.Perm m') (a : α) :
    find? m a = find? m' a := by
  have hm' : (m'.map (·.1)).Nodup := (h.map _).nodup_iff.1 hm
  refine Option.ext fun b => ?_
  rw [find?_eq_some_iff hm, find?_eq_some_iff hm']
  exact h.mem_iff

end Assoc

namespace Index

variable {i : Index} {data : Bytes}

theorem Coherent.keys_records (h : i.Coherent) (data : Bytes) :
    (i.records data).map (·.1) = i.keys := by
  rw [records, List.map_map]
  exact h.keys_toList

theorem Coherent.nodup_records (h : i.Coherent) (data : Bytes) :
    ((i.records data).map (·.1)).Nodup := h.keys_records data ▸ h.nodup_keys

/-- The record of a key. -/
theorem Coherent.find?_records (h : i.Coherent) (data : Bytes) (k : Key) :
    Assoc.find? (i.records data) k = (i.get? k).map (·.slice data) := by
  have hnodup := h.nodup_records data
  cases hk : i.get? k with
  | none =>
    rw [Option.map_none, Assoc.find?_eq_none_iff, h.keys_records, h.mem_keys_iff, hk]
    exact Bool.false_ne_true
  | some s =>
    rw [Option.map_some, Assoc.find?_eq_some_iff hnodup, records]
    exact List.mem_map.2 ⟨(k, s), h.mem_toList_iff.2 hk, rfl⟩

end Index

namespace Draft

variable {c : Config} {d d' : FileSystem} {dr : Draft} {live : Store} {data keys bytes : Bytes}
  {H H' : List Element} {listed : List (Key × Slot)}

/-- The file of a draft is the one that the settings name, and its slots divide up a part of it. -/
structure Filled (H : List Element) (c : Config) (d : FileSystem) (dr : Draft) (bytes : Bytes) :
    Prop where
  path : dr.file.path = c.draftFile
  isOpen : dr.file.isOpen
  file : ∃ x : Spot, x.2 = c.draftName ∧ RecordFile.Holds d dr.file x bytes
  coherent : dr.index.Coherent
  capacity : dr.index.capacity = Index.unbounded
  layout : Layout bytes.length dr.index.slots
  layered : ∀ t ∈ dr.index.slots, Layered H (t.slice bytes)

theorem Filled.mono (h : Filled H c d dr bytes) (hsub : H ⊆ H') : Filled H' c d dr bytes :=
  { h with layered := fun t ht => (h.layered t ht).mono hsub }

/-- What happens to the files of the store does not matter. -/
theorem Filled.frame (h : Filled H c d dr bytes) (hd : Spared c.draftName d d') :
    Filled H c d' dr bytes := by
  obtain ⟨x, hx, hf⟩ := h.file
  exact { h with file := ⟨x, hx, hf.frame hd hx⟩ }

/-- A draft can be begun, or nothing changes. -/
theorem begin_cases (hc : c.Valid) (hd : d.Healthy) :
    (∃ d' dr, (Draft.begin c.draftFile).result d = (.ok dr, d') ∧ Local c.draftName d d' ∧
        Filled H c d' dr [] ∧ dr.index.toList = []) ∨
      ∃ e d', (Draft.begin c.draftFile).result d = (.error e, d') ∧ Alike d d' := by
  unfold Draft.begin
  rw [Action.result_bind, Action.result_failingAs]
  rcases RecordFile.createEmpty_cases hd hc.steps_draftFile with
    ⟨x, d', f, hx, hr, hlocal, hholds, hopen, hpath⟩ | ⟨e, d', hr, halike⟩
  · rw [hr]
    exact .inl ⟨d', _, rfl, hlocal, ⟨hpath, hopen, ⟨x, hx, hholds⟩, Index.empty_coherent _, rfl,
      Layout.nil _, by simp [Index.slots]⟩, rfl⟩
  · rw [hr]
    exact .inr ⟨_, d', rfl, halike⟩

/-- Whatever comes of giving a draft up, nothing changes but what lies under its name. -/
theorem abandon_local (hc : c.Valid) (hd : d.Healthy) (hpath : dr.file.path = c.draftFile) :
    Local c.draftName d (dr.abandon.result d).2 :=
  RecordFile.local_delete hd (hpath ▸ hc.steps_draftFile)

/-! ### Copying -/

/-- The draft has for a key what the store has, if the store has anything. -/
def Fresh (live : List (Key × Bytes)) (draft : List (Key × Bytes)) (k : Key) : Prop :=
  ∀ record, Assoc.find? live k = some record → Assoc.find? draft k = some record

/-- The records of a draft once that of `k` has been copied: it is the newest then, or gone if the
store has none. -/
def afterCopy (live draft : List (Key × Bytes)) (k : Key) : List (Key × Bytes) :=
  draft.filter (·.1 ≠ k) ++ ((Assoc.find? live k).map (k, ·)).toList

theorem find?_afterCopy (live draft : List (Key × Bytes)) (k k' : Key) :
    Assoc.find? (afterCopy live draft k) k' =
      if k' = k then Assoc.find? live k else Assoc.find? draft k' := by
  rw [afterCopy, Assoc.find?_append, Assoc.find?_filter draft (· ≠ k)]
  by_cases hk : k' = k
  · subst hk
    cases Assoc.find? live k' <;> simp [Assoc.find?]
  · cases Assoc.find? live k <;> simp [hk, Assoc.find?]

/-- After copies of several keys the draft is up to date for each of them. -/
theorem fresh_of_copies {live draft : List (Key × Bytes)} {ks : List Key} {k : Key}
    (h : k ∈ ks ∨ Fresh live draft k) : Fresh live (ks.foldl (afterCopy live) draft) k := by
  induction ks generalizing draft with
  | nil => exact h.resolve_left List.not_mem_nil
  | cons k' ks ih =>
    apply ih
    by_cases hk : k = k'
    · right
      intro record hrecord
      rw [find?_afterCopy, if_pos hk, ← hk, hrecord]
    · refine h.imp (fun hmem => (List.mem_cons.1 hmem).resolve_left hk) fun hfresh => ?_
      intro record hrecord
      rw [find?_afterCopy, if_neg hk, hfresh record hrecord]

/-- Copies of all keys in turn give a draft the records of the store in their order. -/
theorem copies_of_all {live : List (Key × Bytes)} (hnodup : (live.map (·.1)).Nodup) :
    (live.map (·.1)).foldl (afterCopy live) [] = live := by
  have hgo : ∀ done todo : List (Key × Bytes), live = done ++ todo →
      (todo.map (·.1)).foldl (afterCopy live) done = live := by
    intro done todo hlive
    induction todo generalizing done with
    | nil => rw [hlive, List.append_nil]; rfl
    | cons e todo ih =>
      obtain ⟨k, record⟩ := e
      have hfind : Assoc.find? live k = some record := by
        rw [Assoc.find?_eq_some_iff hnodup, hlive]
        simp
      -- a key that has yet to be copied is none of those that were
      have hnew : ∀ e ∈ done, decide (e.1 ≠ k) = true := by
        intro e he
        rw [hlive, List.map_append, List.nodup_append] at hnodup
        rw [decide_eq_true_eq]
        exact hnodup.2.2 e.1 (List.mem_map_of_mem he) k (by simp)
      rw [List.map_cons, List.foldl_cons, afterCopy, hfind, List.filter_eq_self.2 hnew]
      exact ih _ (by simp [hlive])
  exact hgo [] live rfl

/-- A record that was appended to the draft becomes that of its key, and no key has to go. -/
theorem Filled.insert {record : Bytes} {file : RecordFile} {slot : Slot}
    (hf : Filled H c d dr bytes)
    (k : Key) (hd : d'.Healthy) (hpath : file.path = dr.file.path) (hopen : file.isOpen)
    (hfile : ∃ x : Spot, x.2 = c.draftName ∧
      RecordFile.Holds d' file x (bytes.patch bytes.length record))
    (hstart : slot.start = bytes.length) (hlen : slot.length.toNat = record.length)
    (hpos : 0 < record.length) (hrecord : Layered H record) :
    Filled H c d' { file, index := (dr.index.insert k slot).index }
        (bytes.patch bytes.length record) ∧
      (dr.index.insert k slot).index.records (bytes.patch bytes.length record) =
        (dr.index.records bytes).filter (·.1 ≠ k) ++ [(k, record)] := by
  obtain ⟨-, -, hc, hlist, hcap⟩ := hf.coherent.insert k slot
  obtain ⟨x, hx, hholds⟩ := hfile
  have hsize : (bytes.patch bytes.length record).length = slot.stop := by
    rw [Bytes.length_patch (Nat.le_refl _), Slot.stop_eq, hstart, hlen]
    omega
  -- the new slot begins where the others end
  have hlayout : Layout slot.stop ((dr.index.placed k slot).map (·.2)) := by
    have hsub : ((dr.index.toList.filter (·.1 ≠ k)).map (·.2)).Sublist dr.index.slots :=
      List.filter_sublist.map _
    refine ((hf.layout.sublist hsub).extend hstart (hlen ▸ hpos)).perm ?_
    rw [Index.placed, List.map_append]
    exact (List.perm_append_singleton _ _).symm
  have hall : (dr.index.insert k slot).index.toList = dr.index.placed k slot := by
    have hle := hlayout.length_le
    have hmax := hsize ▸ hholds.length_le hd
    have hlt : maxPosition ≤ Index.unbounded := by decide
    rw [List.length_map] at hle
    rw [hlist, hf.capacity, Nat.sub_eq_zero_of_le (by omega), List.drop_zero]
  have hother : ∀ t ∈ dr.index.slots, t.slice (bytes.patch bytes.length record) = t.slice bytes :=
    fun t ht => Slot.slice_patch_of_apart (Nat.le_refl _) (.inr (hf.layout.within t ht))
  have hself : slot.slice (bytes.patch bytes.length record) = record := by
    rw [← hstart]
    exact Slot.slice_patch_self (Nat.le_of_eq hstart) hlen
  refine ⟨⟨hpath.trans hf.path, hopen, ⟨x, hx, hholds⟩, hc, hcap.trans hf.capacity, ?_, ?_⟩, ?_⟩
  · rw [hsize, Index.slots, hall]
    exact hlayout
  · intro t ht
    rw [Index.slots, hall, Index.placed, List.map_append] at ht
    rcases List.mem_append.1 ht with ht | ht
    · have ht := (List.filter_sublist.map Prod.snd).subset ht
      rw [hother t ht]
      exact hf.layered t ht
    · rw [List.mem_singleton.1 ht, hself]
      exact hrecord
  · rw [Index.records, hall, Index.placed, List.map_append, List.map_singleton, hself,
      Index.records, List.filter_map]
    congr 1
    refine List.map_congr_left fun e he => ?_
    rw [hother e.2 (List.mem_map_of_mem (List.mem_of_mem_filter he))]

/-- A copy brings the draft up to date for its key, or only leaves bytes behind that no key has. -/
theorem copy_cases (hm : live.Mounted c d data keys) (ho : live.IsOpen)
    (hs : live.Sound H data listed) (hf : Filled H c d dr bytes) (k : Key) :
    (∃ d' dr' bytes', (dr.copy live k).result d = (.ok dr', d') ∧ Local c.draftName d d' ∧
        Filled H c d' dr' bytes' ∧ dr'.index.records bytes' =
          afterCopy (live.index.records data) (dr.index.records bytes) k) ∨
      ∃ e d', (dr.copy live k).result d = (.error e, d') ∧ Local c.draftName d d' := by
  unfold Draft.copy
  cases hk : live.index.get? k with
  | none =>
    -- the key is gone, and so the draft forgets it
    have hc := hf.coherent.remove k
    have hlist := hf.coherent.toList_remove k
    have hsub : (dr.index.remove k).2.slots.Sublist dr.index.slots := by
      rw [Index.slots, hlist]
      exact List.filter_sublist.map _
    refine .inl ⟨d, { dr with index := (dr.index.remove k).2 }, bytes, rfl,
      hm.healthy.alike_refl.toLocal _, ?_, ?_⟩
    · exact ⟨hf.path, hf.isOpen, hf.file, hc, (Index.remove_capacity _ _).trans hf.capacity,
        hf.layout.sublist hsub, fun t ht => hf.layered t (hsub.subset ht)⟩
    · rw [afterCopy, hs.coherent.find?_records, hk, Index.records, hlist, Index.records,
        List.filter_map]
      exact (List.append_nil _).symm
  | some slot =>
    have hmem := List.mem_append_left live.free.toList (hs.mem_slots hk)
    have hin := hs.owned.within slot hmem
    have hpos := hs.owned.nonempty slot hmem
    obtain ⟨x, hx, hdata⟩ := hm.dataFile
    obtain ⟨d₁, hr₁, halike⟩ := hdata.read hm.healthy ho.1 hin
    obtain ⟨y, hy, hfile⟩ := hf.file
    have hlen : (slot.slice data).length = slot.length.toNat := Slot.length_slice hin
    have hmax : (slot.slice data).length ≤ Slot.maxLength := by
      rw [hlen]
      exact Nat.le_of_lt_succ slot.length.toNat_lt
    simp only
    rw [Action.result_bind, Action.result_failingAs, hr₁]
    simp only [Except.mapError]
    rw [Action.result_bind, Action.result_failingAs, FileAction.result_startingWith]
    rcases (hfile.alike halike).append halike.healthy hf.isOpen hmax with
      ⟨s, d₂, f, hr₂, hstart, hslen, hlocal, hholds, hopen, hpath⟩ | ⟨hr₂, -⟩
    · rw [hr₂]
      have hlocal' : Local c.draftName d d₂ := (halike.toLocal _).trans (hy ▸ hlocal)
      obtain ⟨hf', hrecords⟩ := hf.insert k hlocal'.healthy hpath hopen ⟨y, hy, hholds⟩ hstart hslen
        (hlen ▸ hpos) (hs.layered slot (List.mem_append_left _ (hs.mem_slots hk)))
      refine .inl ⟨d₂, _, _, rfl, hlocal', hf', ?_⟩
      rw [hrecords, afterCopy, hs.coherent.find?_records, hk]
      rfl
    · rw [hr₂]
      exact .inr ⟨_, _, rfl, (halike.toLocal _).trans (halike.healthy.local_tick _)⟩

/-- Copies of several keys, one after the other. -/
theorem copyAll_cases (hm : live.Mounted c d data keys) (ho : live.IsOpen)
    (hs : live.Sound H data listed) (hf : Filled H c d dr bytes) (ks : List Key) :
    (∃ d' dr' bytes', (dr.copyAll live ks).result d = (.ok dr', d') ∧ Local c.draftName d d' ∧
        Filled H c d' dr' bytes' ∧ dr'.index.records bytes' =
          ks.foldl (afterCopy (live.index.records data)) (dr.index.records bytes)) ∨
      ∃ e d', (dr.copyAll live ks).result d = (.error e, d') ∧ Local c.draftName d d' := by
  induction ks generalizing d dr bytes with
  | nil => exact .inl ⟨d, dr, bytes, rfl, hm.healthy.alike_refl.toLocal _, hf, rfl⟩
  | cons k ks ih =>
    rw [Draft.copyAll, Action.result_bind]
    rcases copy_cases hm ho hs hf k with ⟨d₁, dr₁, bytes₁, hr₁, hlocal₁, hf₁, hrecords₁⟩ |
      ⟨e, d₁, hr₁, hlocal₁⟩
    · rw [hr₁]
      rcases ih (hm.frame hlocal₁) hf₁ with ⟨d', dr', bytes', hr', hlocal', hf', hrecords'⟩ |
        ⟨e, d', hr', hlocal'⟩
      · refine .inl ⟨d', dr', bytes', hr', hlocal₁.trans hlocal', hf', ?_⟩
        rw [hrecords', hrecords₁]
        rfl
      · exact .inr ⟨e, d', hr', hlocal₁.trans hlocal'⟩
    · rw [hr₁]
      exact .inr ⟨e, d₁, rfl, hlocal₁⟩

/-! ### The index that is installed -/

/-- A draft gives a store those of its entries whose keys the store has; of too many the newest. -/
theorem toList_indexFor (h : dr.index.Coherent) (live : Store) :
    (dr.indexFor live).Coherent ∧ (dr.indexFor live).capacity = live.index.capacity ∧
      (dr.indexFor live).toList =
        newest live.index.capacity (dr.index.toList.filter (live.index.contains ·.1)) := by
  obtain ⟨-, hc, hlist, -⟩ := h.removeWhere fun k => !live.index.contains k
  obtain ⟨-, hc', hlist', hcap⟩ := hc.setCapacity live.index.capacity
  simp only [Bool.not_not] at hlist
  refine ⟨hc', hcap, ?_⟩
  rw [Draft.indexFor, hlist', hlist, newest]

/-- The index of a draft that is given to a store is a part of the draft's, and within the bounds of
the store. -/
theorem Filled.indexFor (hf : Filled H c d dr bytes) (live : Store) :
    (dr.indexFor live).Coherent ∧ (dr.indexFor live).toList.Sublist dr.index.toList ∧
      (dr.indexFor live).capacity = live.index.capacity ∧
      (dr.indexFor live).toList.length ≤ live.index.capacity := by
  obtain ⟨hc, hcap, hlist⟩ := toList_indexFor hf.coherent live
  refine ⟨hc, ?_, hcap, ?_⟩
  · rw [hlist]
    exact (List.drop_sublist _ _).trans List.filter_sublist
  · rw [hlist, length_newest]
    exact Nat.min_le_left _ _

/-- A draft that is up to date for all keys of a store gives it an index with the same records. -/
theorem Filled.records_indexFor (hf : Filled H c d dr bytes) (hs : live.Sound H data listed)
    (hfresh : ∀ k, Fresh (live.index.records data) (dr.index.records bytes) k) :
    ((dr.indexFor live).records bytes).Perm (live.index.records data) := by
  obtain ⟨-, -, hlist⟩ := toList_indexFor hf.coherent live
  have hsame : (dr.index.toList.filter (live.index.contains ·.1)).map
        (fun e => (e.1, e.2.slice bytes)) =
      (dr.index.records bytes).filter (live.index.contains ·.1) := by
    rw [Index.records, List.filter_map]
    rfl
  -- the keys that are left are those of the store, and so none has to go
  have hperm : ((dr.index.records bytes).filter (live.index.contains ·.1)).Perm
      (live.index.records data) := by
    apply Assoc.perm_of_find?_eq ((hf.coherent.nodup_records bytes).sublist
      (List.filter_sublist.map _)) (hs.coherent.nodup_records data)
    intro k
    rw [Assoc.find?_filter]
    cases hk : Assoc.find? (live.index.records data) k with
    | none =>
      rw [if_neg]
      rw [hs.coherent.find?_records, Option.map_eq_none_iff] at hk
      rw [Index.get?, Option.map_eq_none_iff] at hk
      simp [Index.contains, hk]
    | some record =>
      rw [if_pos, hfresh k record hk]
      rw [hs.coherent.find?_records, Option.map_eq_some_iff] at hk
      obtain ⟨slot, hslot, -⟩ := hk
      rw [Index.get?, Option.map_eq_some_iff] at hslot
      obtain ⟨e, he, -⟩ := hslot
      simp [Index.contains, he]
  have hlen : (dr.index.toList.filter (live.index.contains ·.1)).length ≤ live.index.capacity := by
    have := hperm.length_eq
    rw [← hsame, Index.records, List.length_map, List.length_map] at this
    exact this ▸ hs.size_le
  rw [Index.records, hlist, newest, Nat.sub_eq_zero_of_le hlen, List.drop_zero, hsame]
  exact hperm

/-- A draft with the records of a store in their order gives it an index that keeps the order. -/
theorem Filled.indexFor_eq (hf : Filled H c d dr bytes) (hs : live.Sound H data listed)
    (h : dr.index.records bytes = live.index.records data) :
    (dr.indexFor live).records bytes = live.index.records data := by
  have hperm := hf.records_indexFor hs fun k record hrecord => h ▸ hrecord
  obtain ⟨-, hsub, -⟩ := hf.indexFor live
  rw [← h] at hperm ⊢
  have hsub : ((dr.indexFor live).records bytes).Sublist (dr.index.records bytes) := hsub.map _
  exact hsub.eq_of_length hperm.length_eq

end Draft

namespace Store

variable {c : Config} {d d' : FileSystem} {dr : Draft} {s : Store} {data keys bytes : Bytes}
  {H : List Element} {listed : List (Key × Slot)}

/-! ### Installing -/

/-- The file of a draft takes the place of the data file, and nothing is left where it was. -/
theorem Mounted.takeDraft {f : RecordFile} {x : Spot} (hm : s.Mounted c d data keys)
    (hf : RecordFile.Holds d f x bytes) (hx : x.2 = c.draftName) (hpath : f.path = c.draftFile) :
    ∃ d₁ d₂ f', (rename c.draftFile s.dataFile.path).result d = (.ok (), d₁) ∧
      (RecordFile.openAt s.dataFile.path).result d₁ = (.ok f', d₂) ∧ f'.isOpen ∧
      Mounted c d₂ { s with dataFile := f' } bytes keys ∧ Lodged d₂ c.draftFile x ∧
      d₂.at? x = none := by
  obtain ⟨y, hy, hkeys⟩ := hm.keyFile
  obtain ⟨z, hz, hdata⟩ := hm.dataFile
  obtain ⟨n, hn, hb, -⟩ := hf.lies
  obtain ⟨m, hm', -⟩ := hdata.lies
  have hxz : x.2 ≠ z.2 := by
    rw [hx, hz]
    exact c.draftName_ne_dataName
  have hyx : y.2 ≠ x.2 := by
    rw [hx, hy]
    exact c.draftName_ne_keyName.symm
  have hyz : y.2 ≠ z.2 := by
    rw [hy, hz]
    exact c.dataName_ne_keyName.symm
  have hl := hm.healthy.local_removeEntry hn
  have hp : Lodged d c.draftFile x := hpath ▸ hf.lodged
  obtain ⟨d₁, hr₁, hl₁, hn₁, hc₁⟩ := rename_spec hm.healthy hp hdata.lodged hn (by simp [hm']) hxz
  obtain ⟨d₂, f', hr₂, hl₂, hf₂, hopen, hpath'⟩ := RecordFile.openAt_spec hl₁.healthy
    ((hdata.lodged.mono hl.directories).mono hl₁.directories) (by simp [hn₁])
  have hbytes : RecordFile.bytesAt d₁ z = bytes := by
    rw [RecordFile.bytesAt, hn₁]
    simp only [hc₁, hb]
  have hkeys₁ := (hkeys.frame (hl.spared hyx) rfl).frame (hl₁.spared hyz) rfl
  refine ⟨d₁, d₂, f', hr₁, hr₂, hopen, ⟨hl₂.healthy, hpath'.trans hm.dataPath, hm.keyPath,
    ⟨z, hz, hbytes ▸ hf₂⟩, ⟨y, hy, hkeys₁.frame (hl₂.spared hyz) rfl⟩⟩,
    ((hp.mono hl.directories).mono hl₁.directories).mono hl₂.directories, ?_⟩
  rw [hl₂.nodes x hxz, hl₁.nodes x hxz, at?_removeEntry, if_pos rfl]

/-- What it does to the files to replace the data file. The key file is left empty if the new index
is too long for a file. -/
theorem Mounted.replace {f : RecordFile} {x : Spot} {index : Index} (hm : s.Mounted c d data keys)
    (ho : s.IsOpen) (hf : RecordFile.Holds d f x bytes) (hx : x.2 = c.draftName)
    (hpath : f.path = c.draftFile) (hi : index.Coherent) :
    ∃ r d' s' listed', (Store.replace c.draftFile index).result (d, s) = (r, (d', s')) ∧
      s'.Mounted c d' bytes (listing listed') ∧ s'.IsOpen ∧ Lodged d' c.draftFile x ∧
      d'.at? x = none ∧ s'.index = index ∧ s'.free = .empty s.free.capacity ∧
      s'.pending = s.pending ∧ s'.generation = s.generation ∧
      (r = .ok () ∧ listed' = index.toList ∨
        (∃ e, r = .error e) ∧ listed' = [] ∧ maxPosition < (listing index.toList).length) := by
  obtain ⟨n, hn, -, -⟩ := hf.lies
  have hm₀ := hm.alike hm.healthy.alike_tick
  have hf₀ := hf.alike hm.healthy.alike_tick
  -- the key file is emptied, and the data file closed
  obtain ⟨y, hy, hkeys⟩ := hm₀.keyFile
  obtain ⟨d₁, g, hr₁, hl₁, hholds₁, hopen₁, hpath₁⟩ := hkeys.truncate hm₀.healthy ho.2
  have hm₁ := hm₀.setKeys (hy ▸ hl₁) hy hholds₁ (hpath₁.trans hm.keyPath)
  have hf₁ := hf₀.frame ((hy ▸ hl₁).spared c.draftName_ne_keyName) hx
  obtain ⟨d₂, hr₂, halike₂⟩ := RecordFile.close_spec hl₁.healthy s.dataFile
  -- the draft takes the name of the data file, and the index goes with it
  obtain ⟨d₃, d₄, f', hr₃, hr₄, hfo, hm₄, hp₄, hx₄⟩ :=
    (hm₁.alike halike₂).takeDraft (hf₁.alike halike₂) hx hpath
  have hmounted : Mounted c d₄
      { s with keyFile := g, dataFile := f', index, free := .empty s.free.capacity } bytes [] :=
    hm₄.congr rfl rfl
  obtain ⟨r, d₅, g', listed', hr₅, hspared, hm₅, hgo, hcases⟩ :=
    hmounted.saveKeys ⟨hfo, hopen₁⟩ hi
  refine ⟨r, d₅, _, listed', ?_, hm₅, ⟨hfo, hgo⟩, hp₄.mono hspared.directories,
    (hspared.nodes x hx).trans hx₄, rfl, rfl, rfl, rfl,
    hcases.imp_right fun h => ⟨⟨_, h.1⟩, h.2⟩⟩
  unfold Store.replace
  rw [Action.result_bind, FileAction.result_value]
  simp only
  rw [Action.result_bind, FileAction.result_onDisk, Action.result_lift,
    result_sizeAt hm.healthy.calm (hpath ▸ hf.lodged) hn]
  simp only [Except.mapError]
  rw [Action.result_bind, result_onKeys, hr₁]
  simp only [Except.mapError]
  rw [Action.result_bind, result_onData, hr₂]
  simp only [Except.mapError]
  rw [Action.result_bind, FileAction.result_onDisk, Action.result_lift, hr₃]
  simp only [Except.mapError]
  rw [Action.result_bind, FileAction.result_onDisk, hr₄]
  simp only [Except.mapError]
  rw [Action.result_bind, FileAction.result_change]
  exact hr₅

/-- To install a draft is to close it, to put it in the place of the data file, and to reset the
store if that fails. -/
theorem result_installDraft (dr : Draft) (d : FileSystem) (s : Store) :
    (installDraft dr).result (d, s) = match RecordFile.close.result (d, dr.file) with
      | (.error e, d₁, _) =>
        (.error (.file e), ({ dr with file.handle := none }.abandon.result d₁).2, s)
      | (.ok _, d₁, _) =>
        match (replace dr.file.path (dr.indexFor s)).result (d₁, s) with
        | (.error e, q) => ((reset.result q).1 >>= fun _ => .error e, (reset.result q).2)
        | (.ok u, q) => (.ok u, q) := by
  rw [installDraft, Action.result_bind, FileAction.result_value]
  simp only
  rw [Action.result_bind, Action.result_attempt, FileAction.result_onDisk,
    FileAction.result_startingWith]
  rcases RecordFile.close.result (d, dr.file) with ⟨e | u, d₁, f⟩ <;> simp only [Except.mapError]
  · rw [Action.result_bind, FileAction.result_onDisk, Draft.abandon, Action.result_regardless]
    rfl
  · rw [Action.result_bind, Action.result_attempt]
    rcases (replace dr.file.path (dr.indexFor s)).result (d₁, s) with ⟨e | u, q⟩
    · simp only
      rw [Action.result_bind]
      rcases reset.result q with ⟨e' | u, q'⟩ <;> rfl
    · rfl

/-- A draft whose index can be listed in a file becomes the data file with its index. -/
theorem Mounted.installDraft {x : Spot} (hm : s.Mounted c d data keys) (ho : s.IsOpen)
    (hf : RecordFile.Holds d dr.file x bytes) (hx : x.2 = c.draftName)
    (hpath : dr.file.path = c.draftFile) (hi : dr.index.Coherent)
    (hroom : (listing (dr.indexFor s).toList).length ≤ maxPosition) :
    ∃ d' s', (Store.installDraft dr).result (d, s) = (.ok (), (d', s')) ∧
      s'.Mounted c d' bytes (listing (dr.indexFor s).toList) ∧ s'.IsOpen ∧
      Lodged d' c.draftFile x ∧ d'.at? x = none ∧ s'.index = dr.indexFor s ∧
      s'.free = .empty s.free.capacity ∧ s'.pending = s.pending := by
  obtain ⟨d₁, hr₁, halike⟩ := RecordFile.close_spec hm.healthy dr.file
  obtain ⟨hi', -, -⟩ := Draft.toList_indexFor hi s
  obtain ⟨r, d₂, s₂, listed', hr₂, hm₂, ho₂, hp₂, hx₂, hindex, hfree, hpending, -, hcases⟩ :=
    (hm.alike halike).replace ho (hf.close.alike halike) hx hpath hi'
  rcases hcases with ⟨rfl, rfl⟩ | ⟨-, -, htoo⟩
  · refine ⟨d₂, s₂, ?_, hm₂, ho₂, hp₂, hx₂, hindex, hfree, hpending⟩
    rw [result_installDraft, hr₁, hpath]
    simp only
    rw [hr₂]
  · exact absurd hroom (Nat.not_le.2 htoo)

/-- A store whose data file was replaced has the index that was meant for it. -/
theorem replace_spec {f : RecordFile} {x : Spot} {index : Index} (hm : s.Mounted c d data keys)
    (ho : s.IsOpen) (hf : RecordFile.Holds d f x bytes) (hx : x.2 = c.draftName)
    (hpath : f.path = c.draftFile) (hc : index.Coherent)
    (hsize : index.toList.length ≤ index.capacity) (hlayout : Layout bytes.length index.slots)
    (hlayered : ∀ t ∈ index.slots, Layered H (t.slice bytes)) :
    ∃ r d' s' listed', (replace c.draftFile index).result (d, s) = (r, (d', s')) ∧
      s'.Mounted c d' bytes (listing listed') ∧ s'.IsOpen ∧ Sound H s' bytes listed' ∧
      s'.index = index ∧ s'.free = .empty s.free.capacity ∧ s'.pending = s.pending ∧
      s'.generation = s.generation ∧ (r = .ok () → listed' = index.toList) := by
  obtain ⟨r, d', s', listed', hr, hm', ho', -, -, hindex, hfree, hpending, hgen, hcases⟩ :=
    hm.replace ho hf hx hpath hc
  have hslots : s'.slots = index.slots := by
    rw [Store.slots, hfree, hindex, FreeList.toList_empty, List.append_nil]
  have hsound : Sound H s' bytes [] := by
    refine ⟨hindex ▸ hc, hfree ▸ FreeList.empty_valid _, hindex ▸ hsize, hslots ▸ hlayout,
      Layout.nil _, List.nodup_nil, by simp, fun t ht => hlayered t ?_⟩
    rwa [List.map_nil, List.append_nil, hindex] at ht
  rcases hcases with ⟨rfl, rfl⟩ | ⟨⟨e, rfl⟩, rfl, -⟩
  · exact ⟨_, d', s', _, hr, hm', ho', hindex ▸ hsound.save, hindex, hfree, hpending, hgen,
      fun _ => rfl⟩
  · exact ⟨_, d', s', [], hr, hm', ho', hsound, hindex, hfree, hpending, hgen, by rintro ⟨⟩⟩

/-- After an attempt to install a draft, the store has the draft's records, or has been reset. -/
theorem installDraft_spec (hm : s.Mounted c d data keys) (ho : s.IsOpen)
    (hf : Draft.Filled H c d dr bytes) :
    ∃ r d' s' data' listed', (installDraft dr).result (d, s) = (r, (d', s')) ∧
      s'.Mounted c d' data' (listing listed') ∧ s'.IsOpen ∧ Sound H s' data' listed' ∧
      s'.index.capacity = s.index.capacity ∧ s'.free.capacity = s.free.capacity ∧
      (r = .ok () ∧ data' = bytes ∧ s'.index = dr.indexFor s ∧ s'.generation = s.generation ∧
          s'.pending = s.pending ∧ listed' = s'.index.toList ∨
        (∃ e, r = .error e) ∧ s'.generation = s.generation + 1) := by
  obtain ⟨d₁, hr₁, halike⟩ := RecordFile.close_spec hm.healthy dr.file
  obtain ⟨x, hx, hfile⟩ := hf.file
  obtain ⟨hc, hsub, hcap, hsize⟩ := hf.indexFor s
  have hslots : (dr.indexFor s).slots.Sublist dr.index.slots := hsub.map _
  obtain ⟨r, d₂, s₂, listed', hr₂, hm₂, ho₂, hs₂, hindex, hfree, hpending, hgen, hlisted⟩ :=
    replace_spec (hm.alike halike) ho (hfile.close.alike halike) hx hf.path hc (hcap ▸ hsize)
      (hf.layout.sublist hslots) fun t ht => hf.layered t (hslots.subset ht)
  rw [result_installDraft, hr₁, hf.path]
  simp only
  rw [hr₂]
  cases r with
  | ok u =>
    refine ⟨_, d₂, s₂, bytes, listed', rfl, hm₂, ho₂, hs₂, ?_, ?_,
      .inl ⟨rfl, rfl, hindex, hgen, hpending, hindex ▸ hlisted rfl⟩⟩
    · rw [hindex, hcap]
    · rw [hfree]
      rfl
  | error e =>
    -- the store forgets an index that the key file could not list
    obtain ⟨d₃, s₃, hr₃, -, hm₃, ho₃, hindex₃, hfree₃, -, hgen₃⟩ := reset_spec hm₂
    refine ⟨.error e, d₃, s₃, [], [], ?_, hm₃, ho₃, sound_of_empty hindex₃ hfree₃, ?_, ?_,
      .inr ⟨⟨e, rfl⟩, by rw [hgen₃, hgen]⟩⟩
    · simp only [hr₃]
      rfl
    · rw [hindex₃, hindex]
      exact hcap
    · rw [hfree₃, hfree]
      rfl

/-- A compaction while nobody else uses the store leaves it sound, whatever comes of it. If it
succeeds the records stay, in their order, and the key file lists them. -/
theorem compactAtOnce_spec (hc : c.Valid) (hm : s.Mounted c d data (listing listed)) (ho : s.IsOpen)
    (hs : Sound H s data listed) :
    ∃ r d' s' data' listed', (compactAtOnce c.draftFile).result (d, s) = (r, (d', s')) ∧
      s'.Mounted c d' data' (listing listed') ∧ s'.IsOpen ∧ Sound H s' data' listed' ∧
      s'.index.capacity = s.index.capacity ∧ s'.free.capacity = s.free.capacity ∧
      (r = .ok () → s'.index.records data' = s.index.records data ∧
        listed' = s'.index.toList) := by
  unfold compactAtOnce
  rw [Action.result_bind, FileAction.result_onDisk]
  rcases Draft.begin_cases hc hm.healthy with ⟨d₁, dr, hr₁, hl₁, hf₁, hempty⟩ |
    ⟨e, d₁, hr₁, halike⟩
  · rw [hr₁]
    simp only [Except.mapError]
    rw [Action.result_bind, FileAction.result_value]
    simp only
    rw [Action.result_bind, Action.result_attempt, FileAction.result_onDisk]
    have hm₁ := hm.frame hl₁
    rcases Draft.copyAll_cases hm₁ ho hs hf₁ s.index.keys with
      ⟨d₂, dr', bytes, hr₂, hl₂, hf₂, hrecords⟩ | ⟨e, d₂, hr₂, hl₂⟩
    · -- all keys are copied in their order, so the draft has the records in their order
      have hnodup := hs.coherent.nodup_records data
      have hkeys := hs.coherent.keys_records data
      have hnone : dr.index.records [] = [] := by
        rw [Index.records, hempty]
        rfl
      rw [← hkeys, hnone, Draft.copies_of_all hnodup] at hrecords
      obtain ⟨r, d', s', data', listed', hr, hm', ho', hs', hcap, hfree, hcases⟩ :=
        installDraft_spec (hm₁.frame hl₂) ho hf₂
      rw [hr₂]
      refine ⟨r, d', s', data', listed', hr, hm', ho', hs', hcap, hfree, ?_⟩
      rintro rfl
      rcases hcases with ⟨-, rfl, hindex, -, -, hlisted⟩ | ⟨⟨e, heq⟩, -⟩
      · exact ⟨hindex ▸ hf₂.indexFor_eq hs hrecords, hlisted⟩
      · cases heq
    · have hl := Draft.abandon_local hc hl₂.healthy hf₁.path
      rw [hr₂]
      refine ⟨.error e, _, s, data, listed, ?_, (hm₁.frame hl₂).frame hl, ho, hs, rfl, rfl, ?_⟩
      · simp only [Except.mapError]
        rw [Action.result_bind, FileAction.result_onDisk]
        rfl
      · rintro ⟨⟩
  · rw [hr₁]
    refine ⟨_, d₁, s, data, listed, rfl, hm.alike halike, ho, hs, rfl, rfl, ?_⟩
    rintro ⟨⟩

end Store

end DiskTier
