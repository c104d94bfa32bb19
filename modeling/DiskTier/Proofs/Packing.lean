import DiskTier.Proofs.Run

/-!
# What a compaction leaves

A compaction writes the records of the live keys into its draft one after the other, oldest key
first. If nothing fails, and nothing else happens meanwhile, the data file is then `joined` from
these records and the index is `packed`: each slot begins where the one before it ends.

There are two ways to compact: at once before a region is closed, and in a pass that takes the lock
for one key at a time. Left alone a pass does what a compaction at once does, whatever fails.
-/

namespace DiskTier

open FileSystem

/-! ### Packed records -/

/-- The bytes of records that lie one after the other. -/
def joined (records : List (Key × Bytes)) : Bytes := records.flatMap (·.2)

/-- The slots of records that lie one after the other from a position on. -/
def packed : (start : Nat) → List (Key × Bytes) → List (Key × Slot)
  | _, [] => []
  | start, (k, record) :: rest =>
    (k, ⟨UInt64.ofNat start, UInt32.ofNat record.length⟩) :: packed (start + record.length) rest

variable {records : List (Key × Bytes)}

@[simp] theorem joined_nil : joined [] = [] := rfl

@[simp] theorem joined_cons (e : Key × Bytes) (records : List (Key × Bytes)) :
    joined (e :: records) = e.2 ++ joined records := rfl

@[simp] theorem joined_append (records records' : List (Key × Bytes)) :
    joined (records ++ records') = joined records ++ joined records' :=
  List.flatMap_append

theorem packed_append (start : Nat) (records records' : List (Key × Bytes)) :
    packed start (records ++ records') =
      packed start records ++ packed (start + (joined records).length) records' := by
  induction records generalizing start with
  | nil => rfl
  | cons e records ih =>
    rw [List.cons_append, packed, packed, ih, joined_cons, List.length_append, Nat.add_assoc]
    rfl

@[simp] theorem keys_packed (start : Nat) (records : List (Key × Bytes)) :
    (packed start records).map (·.1) = records.map (·.1) := by
  induction records generalizing start with
  | nil => rfl
  | cons e records ih => rw [packed, List.map_cons, List.map_cons, ih]

@[simp] theorem length_packed (start : Nat) (records : List (Key × Bytes)) :
    (packed start records).length = records.length := by
  rw [← List.length_map (·.1), keys_packed, List.length_map]

/-- Packed slots lie in the file, and hold the records that they were packed for. -/
theorem packed_spec (before : Bytes) (records : List (Key × Bytes))
    (hshort : ∀ e ∈ records, e.2.length ≤ Slot.maxLength)
    (hmax : (before ++ joined records).length ≤ maxPosition) :
    (∀ e ∈ packed before.length records, e.2.stop ≤ (before ++ joined records).length) ∧
      (packed before.length records).map (fun e => (e.1, e.2.slice (before ++ joined records))) =
        records := by
  induction records generalizing before with
  | nil => exact ⟨by simp [packed], rfl⟩
  | cons e records ih =>
    obtain ⟨k, record⟩ := e
    have hle : record.length ≤ Slot.maxLength := hshort _ List.mem_cons_self
    have hbytes : before ++ joined ((k, record) :: records) =
        (before ++ record) ++ joined records := by
      rw [joined_cons, List.append_assoc]
    have hlen : before.length + record.length = (before ++ record).length :=
      List.length_append.symm
    rw [hbytes] at hmax ⊢
    obtain ⟨hwithin, hslices⟩ := ih (before ++ record)
      (fun e he => hshort e (List.mem_cons_of_mem _ he)) hmax
    -- the numbers of the first slot do not overflow
    have hstart : (UInt64.ofNat before.length).toNat = before.length := by
      have : maxPosition < UInt64.size := by decide
      rw [List.length_append, List.length_append] at hmax
      exact UInt64.toNat_ofNat_of_lt' (by omega)
    have hlength : (UInt32.ofNat record.length).toNat = record.length := by
      have : Slot.maxLength < UInt32.size := by decide
      exact UInt32.toNat_ofNat_of_lt' (by omega)
    rw [packed, hlen]
    constructor
    · intro e he
      rcases List.mem_cons.1 he with rfl | he
      · rw [Slot.stop, hstart, hlength, List.length_append, List.length_append]
        omega
      · exact hwithin e he
    · rw [List.map_cons, hslices]
      have hself : Slot.slice ⟨UInt64.ofNat before.length, UInt32.ofNat record.length⟩
          (before ++ record ++ joined records) = record := by
        rw [Slot.slice, Slot.start, hstart, hlength, List.append_assoc, List.drop_left,
          List.take_left]
      rw [hself]

theorem Bytes.patch_length (data bytes : Bytes) :
    Bytes.patch data data.length bytes = data ++ bytes := by
  simp [Bytes.patch]

/-- Slots without any byte do not count. -/
theorem Slot.sum_length_filter (slots : List Slot) :
    ((slots.filter (0 < ·.length.toNat)).map (·.length.toNat)).sum =
      (slots.map (·.length.toNat)).sum := by
  induction slots with
  | nil => rfl
  | cons t slots ih =>
    by_cases ht : 0 < t.length.toNat
    · rw [List.filter_cons_of_pos (by simpa using ht), List.map_cons, List.map_cons,
        List.sum_cons, List.sum_cons, ih]
    · rw [List.filter_cons_of_neg (by simpa using ht), List.map_cons, List.sum_cons, ih]
      omega

namespace Index

variable {i : Index} {data : Bytes}

theorem length_joined (hin : ∀ e ∈ i.toList, e.2.stop ≤ data.length) :
    (joined (i.records data)).length = (i.slots.map (·.length.toNat)).sum := by
  rw [joined, List.length_flatMap, records, slots, List.map_map, List.map_map]
  congr 1
  refine List.map_congr_left fun e he => ?_
  exact Slot.length_slice (hin e he)

/-- Records that share no byte of a file take no more room than the file has. -/
theorem length_joined_le (hin : ∀ e ∈ i.toList, e.2.stop ≤ data.length)
    (hapart : i.slots.Pairwise fun t u =>
      Disjoint (Set.Ico t.start t.stop) (Set.Ico u.start u.stop)) :
    (joined (i.records data)).length ≤ data.length := by
  -- slots without any byte neither count nor get in the way
  have hlayout : Layout data.length (i.slots.filter (0 < ·.length.toNat)) := by
    refine ⟨fun t ht => by simpa using List.of_mem_filter ht, fun t ht => ?_, ?_⟩
    · obtain ⟨e, he, rfl⟩ := List.mem_map.1 (List.mem_of_mem_filter ht)
      exact hin e he
    · refine (hapart.filter _).imp_of_mem fun {t u} ht hu htu => ?_
      have htpos : 0 < t.length.toNat := by simpa using List.of_mem_filter ht
      have hupos : 0 < u.length.toNat := by simpa using List.of_mem_filter hu
      rw [Set.Ico_disjoint_Ico, Slot.stop_eq, Slot.stop_eq] at htu
      rw [Slot.Apart, Slot.stop_eq, Slot.stop_eq]
      omega
  rw [length_joined hin, ← Slot.sum_length_filter]
  exact hlayout.sum_length_le

end Index

/-! ### The draft -/

namespace Draft

variable {c : Config} {d d' : FileSystem} {dr : Draft} {live : Store} {data keys : Bytes}
  {done : List (Key × Bytes)}

/-- The file of a draft holds nothing but these records, in their order. -/
structure Packed (c : Config) (d : FileSystem) (dr : Draft) (done : List (Key × Bytes)) :
    Prop where
  path : dr.file.path = c.draftFile
  isOpen : dr.file.isOpen
  file : ∃ x : Spot, x.2 = c.draftName ∧ RecordFile.Holds d dr.file x (joined done)
  coherent : dr.index.Coherent
  capacity : dr.index.capacity = Index.unbounded
  toList : dr.index.toList = packed 0 done

/-- A copy adds the record of a new key to the others. -/
theorem Packed.copy {k : Key} {slot : Slot} (h : Packed c d dr done)
    (hm : live.Mounted c d data keys) (ho : live.IsOpen) (hk : live.index.get? k = some slot)
    (hin : slot.stop ≤ data.length) (hnew : k ∉ done.map (·.1))
    (hcount : done.length < Index.unbounded)
    (hmax : (joined done).length + (slot.slice data).length ≤ maxPosition) :
    ∃ d' dr', (dr.copy live k).result d = (.ok dr', d') ∧ Local c.draftName d d' ∧
      Packed c d' dr' (done ++ [(k, slot.slice data)]) := by
  obtain ⟨x, -, hdata⟩ := hm.dataFile
  obtain ⟨d₁, hr₁, halike⟩ := hdata.read hm.healthy ho.1 hin
  obtain ⟨y, hy, hfile⟩ := h.file
  have hlen : (slot.slice data).length = slot.length.toNat := Slot.length_slice hin
  have hshort : (slot.slice data).length ≤ Slot.maxLength :=
    hlen ▸ Nat.le_of_lt_succ slot.length.toNat_lt
  unfold Draft.copy
  simp only [hk]
  rw [Action.result_bind, Action.result_failingAs, hr₁]
  simp only [Except.mapError]
  rw [Action.result_bind, Action.result_failingAs, FileAction.result_startingWith]
  rcases (hfile.alike halike).append halike.healthy h.isOpen hshort with
    ⟨s, d₂, f, hr₂, hstart, hslen, hlocal, hholds, hopen, hpath⟩ | ⟨-, htoo⟩
  · rw [hr₂]
    obtain ⟨-, -, hc, hlist, hcap⟩ := h.coherent.insert k s
    -- the key is new, and so nothing but its slot is added to the index
    have hfresh : k ∉ dr.index.toList.map (·.1) := by
      rw [h.toList, keys_packed]
      exact hnew
    have hslot : s = ⟨UInt64.ofNat (joined done).length,
        UInt32.ofNat (slot.slice data).length⟩ := by
      obtain ⟨offset, length⟩ := s
      rw [← hstart, ← hslen]
      simp [Slot.start]
    have hall : (dr.index.insert k s).index.toList =
        packed 0 (done ++ [(k, slot.slice data)]) := by
      rw [hlist, Index.placed_of_fresh hfresh, h.toList, h.capacity, List.length_append,
        length_packed, List.length_singleton, Nat.sub_eq_zero_of_le hcount, List.drop_zero,
        packed_append, hslot, Nat.zero_add]
      rfl
    refine ⟨d₂, _, rfl, (halike.toLocal _).trans (hy ▸ hlocal), hpath.trans h.path, hopen,
      ⟨y, hy, ?_⟩, hc, hcap.trans h.capacity, hall⟩
    rw [Bytes.patch_length] at hholds
    simpa using hholds
  · omega

/-- Copies of new keys one after the other add their records to those that are there. -/
theorem Packed.copyAll (h : Packed c d dr done) (hm : live.Mounted c d data keys)
    (ho : live.IsOpen) {todo : List (Key × Slot)}
    (hget : ∀ e ∈ todo, live.index.get? e.1 = some e.2 ∧ e.2.stop ≤ data.length)
    (hnodup : (done.map (·.1) ++ todo.map (·.1)).Nodup)
    (hcount : done.length + todo.length ≤ Index.unbounded)
    (hmax : (joined (done ++ todo.map fun e => (e.1, e.2.slice data))).length ≤ maxPosition) :
    ∃ d' dr', (dr.copyAll live (todo.map (·.1))).result d = (.ok dr', d') ∧
      Local c.draftName d d' ∧
      Packed c d' dr' (done ++ todo.map fun e => (e.1, e.2.slice data)) := by
  induction todo generalizing d dr done with
  | nil =>
    refine ⟨d, dr, rfl, hm.healthy.alike_refl.toLocal _, ?_⟩
    rw [List.map_nil, List.append_nil]
    exact h
  | cons e todo ih =>
    obtain ⟨k, slot⟩ := e
    obtain ⟨hk, hin⟩ := hget _ List.mem_cons_self
    have hsplit : done ++ ((k, slot) :: todo).map (fun e => (e.1, e.2.slice data)) =
        (done ++ [(k, slot.slice data)]) ++ todo.map fun e => (e.1, e.2.slice data) := by
      simp
    have hnew : k ∉ done.map (·.1) := by
      intro hmem
      exact (List.nodup_append.1 hnodup).2.2 k hmem k (by simp) rfl
    rw [List.length_cons] at hcount
    rw [hsplit] at hmax ⊢
    have hroom : (joined done).length + (slot.slice data).length ≤ maxPosition := by
      simp only [joined_append, List.length_append, joined_cons, joined_nil] at hmax
      simp only [List.length_nil] at hmax
      omega
    obtain ⟨d₁, dr₁, hr₁, hl₁, h₁⟩ := h.copy hm ho hk hin hnew (by omega) hroom
    obtain ⟨d', dr', hr', hl', h'⟩ := ih h₁ (hm.frame hl₁)
      (fun e he => hget e (List.mem_cons_of_mem _ he)) (by simpa using hnodup)
      (by simp only [List.length_append, List.length_singleton]; omega) hmax
    refine ⟨d', dr', ?_, hl₁.trans hl', h'⟩
    rw [List.map_cons, Draft.copyAll, Action.result_bind, hr₁]
    exact hr'

/-- A draft with the records of all keys of a store gives it its own index. -/
theorem Packed.toList_indexFor (h : Packed c d dr done) (hi : live.index.Coherent)
    (hkeys : done.map (·.1) = live.index.keys) (hsize : done.length ≤ live.index.capacity) :
    (dr.indexFor live).toList = packed 0 done := by
  obtain ⟨-, -, hlist⟩ := Draft.toList_indexFor h.coherent live
  have hall : ∀ e ∈ packed 0 done, live.index.contains e.1 = true := by
    intro e he
    have hmem : e.1 ∈ live.index.keys := by
      rw [← hkeys, ← keys_packed 0]
      exact List.mem_map_of_mem he
    have hsome := hi.mem_keys_iff.1 hmem
    rwa [Index.get?, Option.isSome_map] at hsome
  rw [hlist, h.toList, List.filter_eq_self.2 hall, newest, length_packed,
    Nat.sub_eq_zero_of_le hsize, List.drop_zero]

end Draft

namespace Store

variable {c : Config} {d d' : FileSystem} {s : Store} {data keys : Bytes}

/-! ### A compaction at once -/

/-- Each live record of a store can be read, the file of a draft can be opened, and there is room in
it for all these records, and in the key file for the list of their slots. -/
structure Compactable (c : Config) (d : FileSystem) (s : Store) (data : Bytes) : Prop where
  mounted : ∃ keys, s.Mounted c d data keys
  isOpen : s.IsOpen
  coherent : s.index.Coherent
  size_le : s.index.toList.length ≤ s.index.capacity
  countable : s.index.toList.length ≤ Index.unbounded
  readable : ∀ e ∈ s.index.toList, ∃ record d', (s.dataFile.read e.2).result d = (.ok record, d')
  draftable : ∃ f d', (RecordFile.openAt c.draftFile).result d = (.ok f, d')
  fits : (joined (s.index.records data)).length ≤ maxPosition
  listable : (listing (packed 0 (s.index.records data))).length ≤ maxPosition

namespace Compactable

/-- Only the files and the index matter. -/
theorem congr {s' : Store} (h : s.Compactable c d data) (hd : s'.dataFile = s.dataFile)
    (hk : s'.keyFile = s.keyFile) (hi : s'.index = s.index) : s'.Compactable c d data := by
  obtain ⟨⟨keys, hm⟩, ho, hc, hsize, hcount, hread, hdraft, hfits, hlist⟩ := h
  refine ⟨⟨keys, hm.congr hd hk⟩, ?_, hi ▸ hc, hi ▸ hsize, hi ▸ hcount, ?_, hdraft, hi ▸ hfits,
    hi ▸ hlist⟩
  · rw [IsOpen, hd, hk]
    exact ho
  · rw [hd, hi]
    exact hread

/-- What can be read lies in the data file. -/
theorem within (h : s.Compactable c d data) {e : Key × Slot} (he : e ∈ s.index.toList) :
    e.2.stop ≤ data.length := by
  obtain ⟨keys, hm⟩ := h.mounted
  obtain ⟨record, d', hr⟩ := h.readable e he
  rw [RecordFile.read, Action.result_bind] at hr
  obtain ⟨n, hn⟩ := Option.isSome_iff_exists.1 h.isOpen.1
  simp only [RecordFile.number, hn, Action.result_liftM] at hr
  by_cases hin : e.2.isWithin s.dataFile.length.toNat
  · rw [Slot.isWithin_iff, hm.dataLength] at hin
    exact hin.2
  · rw [if_neg hin] at hr
    cases hr

theorem short (s : Store) (data : Bytes) :
    ∀ e ∈ s.index.records data, e.2.length ≤ Slot.maxLength := by
  intro e he
  obtain ⟨⟨k, slot⟩, -, rfl⟩ := List.mem_map.1 he
  exact (List.length_take_le _ _).trans (Nat.le_of_lt_succ slot.length.toNat_lt)

end Compactable

/-- The data file holds nothing but these records, in their order, with nothing free between them,
and the key file lists them. -/
structure Packed (c : Config) (d : FileSystem) (s : Store) (records : List (Key × Bytes)) :
    Prop where
  mounted : s.Mounted c d (joined records) (listing (packed 0 records))
  toList : s.index.toList = packed 0 records
  free : s.free = .empty s.free.capacity

/-- The records of a packed store are those that it was packed for. -/
theorem Packed.records_eq (h : s.Packed c d records)
    (hshort : ∀ e ∈ records, e.2.length ≤ Slot.maxLength) :
    s.index.records (joined records) = records := by
  obtain ⟨-, hslices⟩ := packed_spec [] records hshort h.mounted.data_le
  rw [Index.records, h.toList]
  exact hslices

/-- A packed store can be compacted. -/
theorem Packed.compactable (h : s.Packed c d records) (ho : s.IsOpen) (hc : s.index.Coherent)
    (hsize : records.length ≤ s.index.capacity) (hcount : records.length ≤ Index.unbounded)
    (hshort : ∀ e ∈ records, e.2.length ≤ Slot.maxLength)
    (hdraft : ∃ f d', (RecordFile.openAt c.draftFile).result d = (.ok f, d'))
    (hlist : (listing (packed 0 records)).length ≤ maxPosition) :
    s.Compactable c d (joined records) := by
  have hlength : s.index.toList.length = records.length := by rw [h.toList, length_packed]
  obtain ⟨hwithin, -⟩ := packed_spec [] records hshort h.mounted.data_le
  obtain ⟨x, -, hdata⟩ := h.mounted.dataFile
  refine ⟨⟨_, h.mounted⟩, ho, hc, hlength ▸ hsize, hlength ▸ hcount, ?_, hdraft, ?_, ?_⟩
  · intro e he
    rw [h.toList] at he
    obtain ⟨d', hr, -⟩ := hdata.read h.mounted.healthy ho.1 (hwithin e he)
    exact ⟨_, d', hr⟩
  · rw [h.records_eq hshort]
    exact h.mounted.data_le
  · rw [h.records_eq hshort]
    exact hlist

/-- All live records can be copied into a new draft. -/
theorem Compactable.fill (hc : c.Valid) (h : s.Compactable c d data) :
    ∃ d₁ d₂ dr₁ dr, (Draft.begin c.draftFile).result d = (.ok dr₁, d₁) ∧
      (dr₁.copyAll s s.index.keys).result d₁ = (.ok dr, d₂) ∧ Local c.draftName d d₂ ∧
      dr.Packed c d₂ (s.index.records data) := by
  obtain ⟨keys, hm⟩ := h.mounted
  obtain ⟨f, d', hdraft⟩ := h.draftable
  obtain ⟨x, hx, hp, hdir⟩ := RecordFile.lodged_of_openAt hm.healthy hc.steps_draftFile hdraft
  have hkeys : s.index.toList.map (·.1) = s.index.keys := h.coherent.keys_toList
  obtain ⟨d₁, f, hr₁, hl₁, hholds, hopen, hpath⟩ :=
    RecordFile.createEmpty_spec hm.healthy hp hdir
  have hl₁ : Local c.draftName d d₁ := hx ▸ hl₁
  have hempty : Draft.Packed c d₁ { file := f, index := .empty Index.unbounded } [] :=
    ⟨hpath, hopen, ⟨x, hx, hholds⟩, Index.empty_coherent _, rfl, rfl⟩
  obtain ⟨d₂, dr, hr₂, hl₂, hpacked⟩ := hempty.copyAll (hm.frame hl₁) h.isOpen
    (fun e he => ⟨h.coherent.mem_toList_iff.1 he, h.within he⟩)
    (by rw [List.map_nil, List.nil_append, hkeys]; exact h.coherent.nodup_keys)
    (by rw [List.length_nil, Nat.zero_add]; exact h.countable)
    (by rw [List.nil_append]; exact h.fits)
  rw [hkeys] at hr₂
  refine ⟨d₁, d₂, _, dr, ?_, hr₂, hl₁.trans hl₂, hpacked⟩
  unfold Draft.begin
  rw [Action.result_bind, Action.result_failingAs, hr₁]
  rfl

/-- A compaction at once packs the live records. It could be done again then, with the same
records. -/
theorem Compactable.compactAtOnce (hc : c.Valid) (h : s.Compactable c d data) :
    ∃ d' s', (compactAtOnce c.draftFile).result (d, s) = (.ok (), (d', s')) ∧
      s'.Packed c d' (s.index.records data) ∧
      s'.Compactable c d' (joined (s.index.records data)) ∧
      s'.free.capacity = s.free.capacity := by
  obtain ⟨keys, hm⟩ := h.mounted
  obtain ⟨d₁, d₂, dr₁, dr, hr₁, hr₂, hl, hpacked⟩ := h.fill hc
  have hlength : (s.index.records data).length = s.index.toList.length := List.length_map _
  have hindex : (dr.indexFor s).toList = packed 0 (s.index.records data) :=
    hpacked.toList_indexFor h.coherent (h.coherent.keys_records data) (hlength ▸ h.size_le)
  obtain ⟨x, hx, hfile⟩ := hpacked.file
  obtain ⟨d', s', hr', hm', ho', hp', hnone, hi', hf', -⟩ := (hm.frame hl).installDraft h.isOpen
    hfile hx hpacked.path hpacked.coherent (by rw [hindex]; exact h.listable)
  obtain ⟨hc', hcap, -⟩ := Draft.toList_indexFor hpacked.coherent s
  have hfree : s'.free.capacity = s.free.capacity := by
    rw [hf']
    rfl
  have hs' : s'.Packed c d' (s.index.records data) :=
    ⟨hindex ▸ hm', hi' ▸ hindex, by rw [hfree]; exact hf'⟩
  refine ⟨d', s', ?_, hs', ?_, hfree⟩
  · unfold Store.compactAtOnce
    rw [Action.result_bind, FileAction.result_onDisk, hr₁]
    simp only [Except.mapError]
    rw [Action.result_bind, FileAction.result_value]
    simp only
    rw [Action.result_bind, Action.result_attempt, FileAction.result_onDisk, hr₂]
    exact hr'
  · obtain ⟨d'', f, hdraft, -⟩ := RecordFile.openAt_spec hm'.healthy hp' (by simp [hnone])
    refine hs'.compactable ho' (hi' ▸ hc') ?_ (hlength ▸ h.countable) (Compactable.short s data)
      ⟨f, d'', hdraft⟩ h.listable
    rw [hlength, hi', hcap]
    exact h.size_le

end Store

/-! ### A pass left alone -/

section Alone

variable {c : Config} {d d' : FileSystem} {dr dr' : Draft} {s s' : Store} {r : Region} {k : Key}
  {ks : List Key} {arrange : List Key → List Key}

/-- Two record files with the same number at the same path. -/
def RecordFile.SameFile (f f' : RecordFile) : Prop := f'.path = f.path ∧ f'.handle = f.handle

/-- A write changes no more of a record file than its length. -/
theorem RecordFile.sameFile_write (offset : UInt64) (bytes : Bytes) (d : FileSystem)
    (f : RecordFile) : f.SameFile ((write offset bytes).result (d, f)).2.2 := by
  cases hn : f.handle with
  | none =>
    rw [result_write_closed hn]
    exact ⟨rfl, rfl⟩
  | some n =>
    rw [result_write hn]
    rcases (writeAt n offset.toNat bytes).result d with ⟨e | u, d'⟩ <;> exact ⟨rfl, rfl⟩

theorem RecordFile.sameFile_append (bytes : Bytes) (d : FileSystem) (f : RecordFile) :
    f.SameFile ((append bytes).result (d, f)).2.2 := by
  rw [result_append]
  cases hslot : Slot.forRecord? f.length bytes with
  | none => exact ⟨rfl, rfl⟩
  | some slot => exact sameFile_write slot.offset bytes d f

theorem Draft.sameFile_copy (h : (dr.copy s k).result d = (.ok dr', d')) :
    dr.file.SameFile dr'.file := by
  unfold Draft.copy at h
  cases hk : s.index.get? k with
  | none =>
    rw [hk] at h
    cases h
    exact ⟨rfl, rfl⟩
  | some slot =>
    simp only [hk] at h
    obtain ⟨record, d₁, -, h⟩ := Action.ok_of_bind h
    obtain ⟨⟨copied, f⟩, d₂, hr, h⟩ := Action.ok_of_bind h
    cases h
    have hsame := RecordFile.sameFile_append record d₁ dr.file
    rw [Action.result_failingAs, FileAction.result_startingWith] at hr
    rcases ha : (RecordFile.append record).result (d₁, dr.file) with ⟨e | t, q⟩
    · rw [ha] at hr
      cases hr
    · rw [ha] at hr hsame
      cases hr
      exact hsame

/-- To give a draft up it only matters where its file is. -/
theorem Draft.abandon_congr (h : dr.file.SameFile dr'.file) (d : FileSystem) :
    dr'.abandon.result d = dr.abandon.result d := by
  obtain ⟨⟨path, handle, length⟩, index⟩ := dr
  obtain ⟨⟨path', handle', length'⟩, index'⟩ := dr'
  obtain ⟨hpath, hhandle⟩ := h
  cases hpath
  cases hhandle
  unfold Draft.abandon RecordFile.delete
  rw [Action.result_regardless, Action.result_regardless, Action.result_bind, Action.result_bind,
    FileAction.result_startingWith, FileAction.result_startingWith]
  cases handle with
  | none => rfl
  | some n =>
    unfold RecordFile.close
    simp only [Action.result_bind, FileAction.result_value, FileAction.result_change,
      FileAction.result_onDisk]
    rcases (FileSystem.sync n).result d with ⟨e | u, d'⟩ <;> rfl

/-- A copy looks at no more of the store than its data file and its index. -/
theorem Draft.copy_congr (dr : Draft) (k : Key) (hd : s'.dataFile = s.dataFile)
    (hi : s'.index = s.index) : dr.copy s' k = dr.copy s k := by
  rw [Draft.copy, Draft.copy, hd, hi]

/-- What is left of a compaction at once when some of the records have been copied. -/
def Store.compactFrom (dr : Draft) (todo : List Key) : Store.Change Unit := do
  let s ← FileAction.value
  match ← (FileAction.onDisk id (dr.copyAll s todo)).attempt with
  | .error e => do
    FileAction.onDisk id dr.abandon
    throw e
  | .ok dr => installDraft dr

theorem Store.result_compactAtOnce (draftFile : Path) (d : FileSystem) (s : Store) :
    (compactAtOnce draftFile).result (d, s) = match (Draft.begin draftFile).result d with
      | (.ok dr, d') => (compactFrom dr s.index.keys).result (d', s)
      | (.error e, d') => (.error e, (d', s)) := by
  unfold compactAtOnce
  rw [Action.result_bind, FileAction.result_onDisk]
  rcases (Draft.begin draftFile).result d with ⟨e | dr, d'⟩ <;> rfl

theorem Store.result_compactFrom_nil (dr : Draft) (d : FileSystem) (s : Store) :
    (compactFrom dr []).result (d, s) = (installDraft dr).result (d, s) := by
  unfold compactFrom
  rw [Action.result_bind, FileAction.result_value]
  simp only
  rw [Action.result_bind, Action.result_attempt, FileAction.result_onDisk]
  rfl

/-- One key more is copied; if that fails the draft is given up. -/
theorem Store.result_compactFrom_cons (dr : Draft) (k : Key) (ks : List Key) (d : FileSystem)
    (s : Store) : (compactFrom dr (k :: ks)).result (d, s) = match (dr.copy s k).result d with
      | (.ok dr', d') => (compactFrom dr' ks).result (d', s)
      | (.error e, d') => (.error e, ((dr.abandon.result d').2, s)) := by
  unfold compactFrom
  rw [Action.result_bind, FileAction.result_value]
  simp only
  rw [Action.result_bind, Action.result_attempt, FileAction.result_onDisk, Draft.copyAll,
    Action.result_bind]
  rcases hr : (dr.copy s k).result d with ⟨e | dr', d'⟩
  · simp only [Except.mapError]
    rw [Action.result_bind, FileAction.result_onDisk]
    rfl
  · simp only
    rw [Action.result_bind, FileAction.result_value]
    simp only
    rw [Action.result_bind, Action.result_attempt, FileAction.result_onDisk]
    rcases (dr'.copyAll s ks).result d' with ⟨e | dr'', d''⟩
    · -- the draft that is given up has the file of the one before
      have habandon := Draft.abandon_congr (Draft.sameFile_copy hr) d''
      simp only [Except.mapError]
      rw [Action.result_bind, Action.result_bind, FileAction.result_onDisk,
        FileAction.result_onDisk, habandon]
    · rfl

/-- A pass with nothing left to copy installs its draft. -/
theorem Pass.run_finish_of_nil (harrange : arrange [] = []) (w : Work) (d : FileSystem) (s : Store)
    (hs : s.pending = some []) :
    (finish arrange w).run (d, s) =
      let installed := (Store.installDraft w.draft).result (d, { s with pending := none })
      (.over installed.1.isOk, installed.2) := by
  rw [run_finish, hs, Option.getD_some, List.eraseDups_nil, harrange]
  rfl

namespace Region

variable {tries m : Nat}

/-- The files and the region once a compaction has come out like this. -/
def ended (r : Region) (o : Except Error Unit × FileSystem × Store) : World :=
  (o.2.1, endCompaction o.1.isOk { r with store := o.2.2 })

theorem result_compactForGood (ha : r.alive) (hi : r.compacting = false) (d : FileSystem) :
    compactForGood.result (d, r) =
      let o := (Store.compactAtOnce r.config.draftFile).result (d, r.store)
      (.ok o.1.isOk, ended r o) := by
  unfold compactForGood
  rw [Action.result_bind, FileAction.result_value]
  simp only [ha, hi, Bool.not_false, Bool.and_self, if_true]
  rw [Action.result_bind, FileAction.result_change]
  simp only
  rw [Action.result_bind, Action.result_attempt, result_onStore]
  rcases (Store.compactAtOnce r.config.draftFile).result (d, r.store) with ⟨e | u, q⟩ <;> rfl

theorem result_compactForGood_idle (h : (r.alive && !r.compacting) = false) (d : FileSystem) :
    compactForGood.result (d, r) = (.ok false, (d, r)) := by
  unfold compactForGood
  rw [Action.result_bind, FileAction.result_value]
  simp only [h, Bool.false_eq_true, if_false]
  rfl

/-- One hold of the pass under way, and nothing else. -/
def held (arrange : List Key → List Key) (p : World) : World := ((holdPass arrange).run p).2

/-- Nothing is left to do when the compaction has ended. -/
theorem held_ended (arrange : List Key → List Key) (m : Nat) (r : Region)
    (o : Except Error Unit × FileSystem × Store) :
    (held arrange)^[m] (ended r o) = ended r o :=
  Function.iterate_fixed (holdPass_none arrange rfl) m

/-- A region with a pass that began when its store was `s`, and that has `todo` to copy. -/
def copying (r : Region) (s : Store) (dr : Draft) (todo : List Key) (tries : Nat) : Region :=
  { r with
    store := { s with pending := some [] }
    pass := some (.running { generation := s.generation, draft := dr, todo, tries }) }

theorem run_hold_copying (ha : r.alive) (arrange : List Key → List Key) (d : FileSystem)
    (s : Store) (w : Work) (hw : w.generation = s.generation) :
    (Pass.hold arrange r.config.draftFile r.alive (.running w)).run (d, s) =
      (Pass.work arrange w).run (d, s) := by
  rw [Pass.hold, Pass.run_bind, Pass.run_store]
  simp only [ha, hw, beq_self_eq_true, Bool.and_self, if_true]

/-- A pass that failed ends its collecting and gives up the draft that it has. -/
theorem held_stopping (arrange : List Key → List Key) (d : FileSystem) (r : Region) (s : Store)
    (draft : Option Draft) (e : Error) :
    held arrange (d, { r with
      store := { s with pending := some [] }
      pass := some (.stopping s.generation draft) }) =
        ended r (.error e, (draft.elim d fun dr => (dr.abandon.result d).2),
          { s with pending := none }) := by
  have hstop : ({ s with pending := some [] } : Store).stopCollecting s.generation =
      { s with pending := none } := if_pos rfl
  have hhold : ((Pass.stopping s.generation draft).hold arrange r.config.draftFile r.alive).run
      (d, { s with pending := some [] }) =
        (.over false, (draft.elim d fun dr => (dr.abandon.result d).2),
          { s with pending := none }) := by
    rw [Pass.hold, Pass.run_bind, Pass.run_store]
    simp only
    rw [Pass.run_bind, Pass.run_setStore]
    simp only [hstop]
    cases draft <;> rfl
  exact holdPass_over rfl hhold

/-- One hold copies one key. If that fails, the next one gives the draft up. -/
theorem held_copying_cons (ha : r.alive) (arrange : List Key → List Key) (d : FileSystem)
    (s : Store) (dr : Draft) (k : Key) (todo : List Key) (tries : Nat) :
    match (dr.copy { s with pending := some [] } k).result d with
    | (.ok dr', d') => held arrange (d, copying r s dr (k :: todo) tries) =
        (d', copying r s dr' todo tries)
    | (.error e, d') => (held arrange)^[2] (d, copying r s dr (k :: todo) tries) =
        ended r (.error e, ((dr.abandon.result d').2, { s with pending := none })) := by
  have hhold := run_hold_copying ha arrange d { s with pending := some [] }
    ⟨s.generation, dr, k :: todo, tries⟩ rfl
  rw [Pass.work, Pass.run_copyOne] at hhold
  rcases hr : (dr.copy { s with pending := some [] } k).result d with ⟨e | dr', d'⟩
  · simp only [hr] at hhold
    have hfailed : held arrange (d, copying r s dr (k :: todo) tries) = (d', { r with
        store := { s with pending := some [] }
        pass := some (.stopping s.generation (some dr)) }) :=
      holdPass_next (r := copying r s dr (k :: todo) tries) rfl hhold
    show held arrange (held arrange _) = _
    rw [hfailed]
    exact held_stopping arrange d' r s (some dr) e
  · simp only [hr] at hhold
    exact holdPass_next rfl hhold

/-- A pass that has copied all keys finds none that were collected, and installs its draft. -/
theorem held_copying_nil (ha : r.alive) (harrange : arrange [] = []) (d : FileSystem) (s : Store)
    (dr : Draft) (tries : Nat) :
    held arrange (d, copying r s dr [] (tries + 1)) = (d, copying r s dr [] 0) ∧
      held arrange (d, copying r s dr [] 0) =
        ended r ((Store.installDraft dr).result (d, { s with pending := none })) := by
  have hhold : ∀ n, (Pass.hold arrange r.config.draftFile r.alive _).run _ = _ := fun n =>
    run_hold_copying ha arrange d { s with pending := some [] } ⟨s.generation, dr, [], n⟩ rfl
  refine ⟨holdPass_next rfl (hhold (tries + 1)), holdPass_over rfl ((hhold 0).trans ?_)⟩
  exact Pass.run_finish_of_nil harrange _ d _ rfl

/-- Left alone, a pass that has begun does the rest of what a compaction at once does. -/
theorem held_copying (ha : r.alive) (harrange : arrange [] = []) {todo : List Key}
    (hm : todo.length + (if tries = 0 then 1 else 2) ≤ m) (d : FileSystem) (s : Store)
    (dr : Draft) :
    (held arrange)^[m] (d, copying r s dr todo tries) =
      ended r ((Store.compactFrom dr todo).result (d, { s with pending := none })) := by
  induction todo generalizing d dr m with
  | nil =>
    obtain ⟨hdrained, hinstalled⟩ := held_copying_nil ha harrange d s dr (tries - 1)
    have hend : ∀ n, 1 ≤ n → (held arrange)^[n] (d, copying r s dr [] 0) =
        ended r ((Store.compactFrom dr []).result (d, { s with pending := none })) := by
      intro n hn
      obtain ⟨n, rfl⟩ := Nat.exists_eq_add_of_le' hn
      rw [Function.iterate_succ_apply, hinstalled, Store.result_compactFrom_nil, held_ended]
    cases tries with
    | zero => exact hend m (by simpa using hm)
    | succ tries =>
      obtain ⟨m, rfl⟩ := Nat.exists_eq_add_of_le' (show 1 ≤ m by simp at hm; omega)
      rw [Function.iterate_succ_apply]
      rw [Nat.add_sub_cancel] at hdrained
      rw [hdrained]
      exact hend m (by simp at hm; omega)
  | cons k todo ih =>
    have hstep := held_copying_cons ha arrange d s dr k todo tries
    rw [List.length_cons] at hm
    have hsame : dr.copy { s with pending := none } k = dr.copy { s with pending := some [] } k :=
      dr.copy_congr k rfl rfl
    rw [Store.result_compactFrom_cons, hsame]
    rcases hr : (dr.copy { s with pending := some [] } k).result d with ⟨e | dr', d'⟩ <;>
      rw [hr] at hstep
    · obtain ⟨m, rfl⟩ := Nat.exists_eq_add_of_le' (show 2 ≤ m by split at hm <;> omega)
      rw [Function.iterate_add_apply, hstep, held_ended]
    · obtain ⟨m, rfl⟩ := Nat.exists_eq_add_of_le' (show 1 ≤ m by omega)
      rw [Function.iterate_succ_apply, hstep]
      exact ih (by omega) d' dr'

/-- Left alone, a pass does what a compaction at once does, whatever the files are and whatever
fails. -/
theorem held_eq_compactForGood (ha : r.alive) (hi : r.compacting = false)
    (harrange : arrange [] = []) (hm : 2 * r.store.index.keys.length + 2 ≤ m) (d : FileSystem) :
    (held arrange)^[m] (d, r.requestCompaction.2) =
      (compactForGood.result (d, { r with store := { r.store with pending := none } })).2 := by
  have hgood := result_compactForGood (r := { r with store := { r.store with pending := none } })
    ha hi d
  have hrequest : r.requestCompaction.2 =
      { r with compacting := true, pass := some .requested } := by
    simp [requestCompaction, hi]
  have hhold : (Pass.hold arrange r.config.draftFile r.alive .requested).run (d, r.store) =
      (Pass.start r.config.draftFile).run (d, r.store) := by
    rw [Pass.hold, if_pos ha]
  rw [Pass.run_start] at hhold
  rw [Store.result_compactAtOnce] at hgood
  obtain ⟨m, rfl⟩ := Nat.exists_eq_add_of_le' (show 1 ≤ m by omega)
  rw [hgood, hrequest, Function.iterate_succ_apply]
  rcases hb : (Draft.begin r.config.draftFile).result d with ⟨e | dr, d'⟩ <;>
    simp only [hb] at hhold ⊢
  · have hfailed : held arrange (d, { r with compacting := true, pass := some .requested }) =
        (d', { r with
          compacting := true
          store := { r.store with pending := some [] }
          pass := some (.stopping r.store.generation none) }) := holdPass_next rfl hhold
    obtain ⟨m, rfl⟩ := Nat.exists_eq_add_of_le' (show 1 ≤ m by omega)
    rw [Function.iterate_succ_apply, hfailed]
    have hstopped := held_stopping arrange d' { r with compacting := true } r.store none e
    rw [hstopped]
    exact held_ended arrange m r _
  · have hbegun : held arrange (d, { r with compacting := true, pass := some .requested }) =
        (d', copying { r with compacting := true } r.store dr r.store.index.keys
          r.store.index.keys.length) := holdPass_next rfl hhold
    have hroom : r.store.index.keys.length +
        (if r.store.index.keys.length = 0 then 1 else 2) ≤ m := by
      split <;> omega
    have hdone := held_copying (r := { r with compacting := true }) ha harrange hroom d' r.store dr
    rw [hbegun]
    exact hdone

/-! ### What both ways leave -/

variable {data : Bytes} {p q q' : World} {records : List (Key × Bytes)}

/-- A region that serves and has no pass under way, whose live records can be read and copied. -/
structure Compactable (p : World) (data : Bytes) : Prop where
  valid : p.2.config.Valid
  alive : p.2.alive
  idle : p.2.compacting = false
  store : p.2.store.Compactable p.2.config p.1 data

/-- A whole compaction while nothing else happens. -/
inductive Compacts (p : World) : World → Prop where
  | atOnce : Compacts p (compactForGood.result p).2
  /-- In a pass that has been requested, by as many holds of the lock as it can take, or more. -/
  | inHolds {arrange : List Key → List Key} (harrange : ∀ l, (arrange l).Perm l) {m : Nat}
      (hm : p.2.requestCompaction.2.holdsLeft ≤ m) :
      Compacts p ((held arrange)^[m] (p.1, p.2.requestCompaction.2))

/-- What the data file holds, the index from the oldest key to the newest, the free slots, and what
the key file holds. -/
def contents (p : World) : Option Bytes × List (Key × Slot) × FreeList × Option Bytes :=
  ((p.1.contentAt? p.2.config.dataFile).map Content.toList, p.2.store.index.toList, p.2.store.free,
    (p.1.contentAt? p.2.config.keyFile).map Content.toList)

/-- The contents of a region with nothing but these records. -/
def packedContents (maxFreeSlots : Nat) (records : List (Key × Bytes)) :
    Option Bytes × List (Key × Slot) × FreeList × Option Bytes :=
  (some (joined records), packed 0 records, .empty maxFreeSlots,
    some (Store.listing (packed 0 records)))

/-- What the region `p` with these records has become. -/
structure Compacted (p : World) (records : List (Key × Bytes)) (q : World) : Prop where
  contents : contents q = packedContents p.2.store.free.capacity records
  freeCapacity : q.2.store.free.capacity = p.2.store.free.capacity
  counted : q.2.compactions = p.2.compactions + 1
  again : Compactable q (joined records)
  records : q.2.store.index.records (joined records) = records

theorem Compactable.compactForGood (hp : Compactable p data) :
    ∃ q, compactForGood.result p = (.ok true, q) ∧
      Compacted p (p.2.store.index.records data) q := by
  obtain ⟨d, r⟩ := p
  obtain ⟨d', s', hr, hs', hagain, hfree⟩ := hp.store.compactAtOnce hp.valid
  have hgood := result_compactForGood hp.alive hp.idle d
  rw [hr] at hgood
  refine ⟨_, hgood, ?_, hfree, rfl, ⟨hp.valid, hp.alive, rfl, hagain⟩,
    hs'.records_eq (Store.Compactable.short r.store data)⟩
  show ((d'.contentAt? r.config.dataFile).map Content.toList, s'.index.toList, s'.free,
    (d'.contentAt? r.config.keyFile).map Content.toList) = _
  rw [hs'.mounted.contentAt?, hs'.mounted.keysAt?, hs'.toList, hs'.free, hfree]
  rfl

/-- Both ways pack the records. -/
theorem Compacts.compacted (hp : Compactable p data) (hq : Compacts p q) :
    Compacted p (p.2.store.index.records data) q := by
  cases hq with
  | atOnce =>
    obtain ⟨q, hr, hq⟩ := hp.compactForGood
    rw [hr]
    exact hq
  | inHolds harrange hm =>
    obtain ⟨d, r⟩ := p
    -- collected keys play no part in a compaction at once
    have hp' : Compactable (d, { r with store := { r.store with pending := none } }) data :=
      ⟨hp.valid, hp.alive, hp.idle, hp.store.congr rfl rfl rfl⟩
    obtain ⟨q, hr, hq⟩ := hp'.compactForGood
    have hkeys : r.store.index.keys.length = r.size := by
      rw [size, hp.store.coherent.size_eq, ← hp.store.coherent.keys_toList, List.length_map]
    have hleft : r.requestCompaction.2.holdsLeft = 2 * r.size + 2 := by
      have hi : r.compacting = false := hp.idle
      simp [requestCompaction, hi, holdsLeft, Pass.bound, size]
    rw [held_eq_compactForGood hp.alive hp.idle (List.perm_nil.1 (harrange [])) ?_, hr]
    · exact ⟨hq.contents, hq.freeCapacity, hq.counted, hq.again, hq.records⟩
    · rw [hkeys, ← hleft]
      exact hm

/-- A region that is in order can be compacted if the file of a draft can be opened and the list of
the new slots is not too long for a file. -/
theorem Sound.compactable {H : List Element} {d : FileSystem} {listed : List (Key × Slot)}
    (h : Sound H d r data listed) (ha : r.alive) (hi : r.compacting = false)
    (hdraft : ∃ f d', (RecordFile.openAt r.config.draftFile).result d = (.ok f, d'))
    (hlist : (Store.listing (packed 0 (r.store.index.records data))).length ≤ maxPosition) :
    Compactable (d, r) data := by
  have hs := h.intact.sound
  have hm := h.intact.mounted
  have ho := h.open_of_alive ha
  have hlayout : Layout data.length r.store.index.slots :=
    hs.owned.sublist (List.sublist_append_left _ _)
  have hin : ∀ e ∈ r.store.index.toList, e.2.stop ≤ data.length := fun e he =>
    hlayout.within e.2 (List.mem_map_of_mem he)
  have hcount : r.store.index.toList.length ≤ Index.unbounded := by
    have hle := hlayout.length_le
    have hmax := hm.data_le
    have : maxPosition ≤ Index.unbounded := by decide
    rw [Index.slots, List.length_map] at hle
    omega
  obtain ⟨x, -, hdata⟩ := hm.dataFile
  refine ⟨h.valid, ha, hi, ⟨_, hm⟩, ho, hs.coherent, hs.size_le, hcount, ?_, hdraft, ?_, hlist⟩
  · intro e he
    obtain ⟨d', hr, -⟩ := hdata.read hm.healthy ho.1 (hin e he)
    exact ⟨_, d', hr⟩
  · rw [Index.length_joined hin]
    exact hlayout.sum_length_le.trans hm.data_le

/-- Both ways to compact a region that nothing disturbs leave the same: the data file is the live
records one after the other, oldest key first, the slots of the index follow each other from the
first byte on, none is free, and the key file lists them. The file has the length of all records
together, which is no more than before if no two of them shared a byte. A second compaction, in
either way, changes nothing. -/
theorem compaction_packs (hp : Compactable p data) (hq : Compacts p q) :
    contents q =
        packedContents p.2.store.free.capacity (p.2.store.index.records data) ∧
      q.2.compactions = p.2.compactions + 1 ∧
      Compactable q (joined (p.2.store.index.records data)) ∧
      (joined (p.2.store.index.records data)).length =
        (p.2.store.index.slots.map (·.length.toNat)).sum ∧
      (p.2.store.index.slots.Pairwise (fun t u =>
          Disjoint (Set.Ico t.start t.stop) (Set.Ico u.start u.stop)) →
        (joined (p.2.store.index.records data)).length ≤ data.length) ∧
      (∀ q', Compacts p q' → contents q' = contents q) ∧
      ∀ q', Compacts q q' → contents q' = contents q := by
  have h := hq.compacted hp
  have hin : ∀ e ∈ p.2.store.index.toList, e.2.stop ≤ data.length := fun e he => hp.store.within he
  refine ⟨h.contents, h.counted, h.again, Index.length_joined hin, Index.length_joined_le hin, ?_,
    ?_⟩
  · intro q' hq'
    rw [(hq'.compacted hp).contents, h.contents]
  · intro q' hq'
    rw [(hq'.compacted h.again).contents, h.records, h.freeCapacity, h.contents]

/-- A record that was moved to the end of the file leaves a gap behind; a pass closes it. -/
theorem gap_is_closed : ∃ (p q : World) (data : Bytes), Compactable p data ∧ Compacts p q ∧
    p.2.store.index.toList = [(.name "y", ⟨100, 100⟩), (.name "x", ⟨200, 104⟩)] ∧
    q.2.store.index.toList = [(.name "y", ⟨0, 100⟩), (.name "x", ⟨100, 104⟩)] ∧
    q.2.store.free.count = 0 := by
  have h : (opened? (roomFor 2) .empty).map (fun p =>
      let q₁ := (Call.put (note "x" [1])).perform.result p
      let q₂ := (Call.put (note "y" [1])).perform.result q₁.2
      let q₃ := (Call.put (note "x" [1, 2, 3])).perform.result q₂.2
      let r := q₃.2.2
      let draft := (RecordFile.openAt r.config.draftFile).result q₃.2.1
      let records := (q₃.2.1.contentAt? r.config.dataFile).map fun content =>
        r.store.index.records content.toList
      decide (p.2.size = 0 ∧ q₁.1 = .ok () ∧ q₂.1 = .ok () ∧ q₃.1 = .ok () ∧ r.alive ∧
        r.compacting = false ∧ draft.1.isOk ∧ (∀ l ∈ records,
          (Store.listing (packed 0 l)).length ≤ maxPosition ∧
          packed 0 l = [(.name "y", ⟨0, 100⟩), (.name "x", ⟨100, 104⟩)]) ∧
        r.store.index.toList = [(.name "y", ⟨100, 100⟩), (.name "x", ⟨200, 104⟩)])) =
      some true := by
    decide +kernel
  obtain ⟨p, hp, h⟩ := Option.map_eq_some_iff.1 h
  obtain ⟨hsize, h₁, h₂, h₃, ha, hi, hdraft, hrecords, hlist⟩ := of_decide_eq_true h
  have ho := openedEmpty_of_eq empty_healthy hp hsize
  have hr := (((Run.nil p).call _ h₁).call _ h₂).call _ h₃
  obtain ⟨data, listed, hsound⟩ := hr.isSound ho
  obtain ⟨content, hcontent, rfl⟩ := Option.map_eq_some_iff.1 hsound.intact.mounted.contentAt?
  obtain ⟨hroom, hpacked⟩ := hrecords _ (by rw [hcontent]; rfl)
  have hopened : ∀ o : Except FileError RecordFile × FileSystem, o.1.isOk →
      ∃ f d', o = (.ok f, d') := by
    rintro ⟨_ | f, d'⟩ hok
    · cases hok
    · exact ⟨f, d', rfl⟩
  have hp := hsound.compactable ha hi (hopened _ hdraft) hroom
  have hq : ∀ p : World, Compacts p ((held id)^[p.2.requestCompaction.2.holdsLeft]
      (p.1, p.2.requestCompaction.2)) := fun p => .inHolds List.Perm.refl (Nat.le_refl _)
  obtain ⟨hcontents, -⟩ := compaction_packs hp (hq _)
  have hindex := congrArg (·.2.1) hcontents
  have hfree := congrArg (·.2.2.1) hcontents
  exact ⟨_, _, _, hp, hq _, hlist, hindex.trans hpacked, congrArg FreeList.count hfree⟩

end Region

end Alone

end DiskTier
