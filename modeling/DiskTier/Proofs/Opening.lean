import DiskTier.Region
import DiskTier.Proofs.Compaction

/-!
# Opening

What a region finds when it opens its files. An index that is read back from a key file is sound, if
the store was when it was saved and only the store wrote to its files since.
-/

namespace DiskTier

open FileSystem

namespace Index

theorem popMany_capacity (n : Nat) (i : Index) : (popMany n i).2.capacity = i.capacity := by
  induction n generalizing i with
  | zero => rfl
  | succ n ih =>
    rw [popMany]
    cases hp : i.popOldest with
    | none => rfl
    | some p =>
      refine (ih p.2).trans ?_
      unfold popOldest at hp
      split at hp
      · cases hp
      · obtain ⟨e, -, rfl⟩ := Option.map_eq_some_iff.1 hp
        rfl

theorem insert_capacity (i : Index) (k : Key) (s : Slot) :
    (i.insert k s).index.capacity = i.capacity := by
  rw [insert_eq]
  exact (popMany_capacity _ _).trans (remove_capacity i k)

theorem insertAll_capacity (i : Index) (es : List (Key × Slot)) :
    (i.insertAll es).2.capacity = i.capacity := by
  induction es generalizing i with
  | nil => rfl
  | cons e es ih => exact (ih _).trans (i.insert_capacity e.1 e.2)

end Index

namespace FreeList

theorem reserve?_capacity {f g : FreeList} {least : UInt32} {s : Slot}
    (h : f.reserve? least = some (s, g)) : g.capacity = f.capacity := by
  unfold reserve? at h
  obtain ⟨length, -, htake⟩ := Option.bind_eq_some_iff.1 h
  obtain ⟨p, -, heq⟩ := Option.map_eq_some_iff.1 htake
  cases heq
  rfl

theorem release_capacity (f : FreeList) (s : Slot) : (f.release s).2.capacity = f.capacity := by
  unfold release
  split
  · rfl
  · split
    · rfl
    · split
      · rfl
      · split
        · rfl
        · split
          · next t g ht =>
            obtain ⟨p, -, heq⟩ := Option.map_eq_some_iff.1 ht
            cases heq
            rfl
          · rfl

theorem releaseAll_capacity (f : FreeList) (slots : List Slot) :
    (f.releaseAll slots).capacity = f.capacity := by
  induction slots generalizing f with
  | nil => rfl
  | cons s slots ih => exact (ih _).trans (f.release_capacity s)

end FreeList

namespace Store

variable {c : Config} {d d' : FileSystem} {s s' : Store} {data keys bytes : Bytes}
  {H : List Element} {listed : List (Key × Slot)} {x : Spot}

/-! ### The index that a key file describes -/

/-- What is made of the bytes of a key file. -/
def loaded (c : Config) (bytes : Bytes) : FreeList × Index :=
  let nothing := (FreeList.empty c.maxFreeSlots, Index.empty c.maxKeys)
  if bytes = [] ∨ Slot.maxLength < bytes.length then nothing
  else
    match Index.ofSnapshot bytes c.maxKeys with
    | .error _ => nothing
    | .ok (dropped, index) => (nothing.1.releaseAll (dropped.map (·.2)), index)

theorem loaded_capacity (c : Config) (bytes : Bytes) :
    (loaded c bytes).2.capacity = c.maxKeys ∧ (loaded c bytes).1.capacity = c.maxFreeSlots := by
  unfold loaded
  split
  · exact ⟨rfl, rfl⟩
  · split
    · exact ⟨rfl, rfl⟩
    · next dropped index h =>
      refine ⟨?_, FreeList.releaseAll_capacity _ _⟩
      rw [Index.ofSnapshot] at h
      cases hdec : Index.Snapshot.decode bytes with
      | error e =>
        rw [hdec] at h
        cases h
      | ok es =>
        rw [hdec] at h
        have heq : (Index.empty c.maxKeys).insertAll es = (dropped, index) := Except.ok.inj h
        have := Index.insertAll_capacity (Index.empty c.maxKeys) es
        rw [heq] at this
        exact this

theorem loadKeys_spec {f : RecordFile} (hd : d.Healthy) (hf : RecordFile.Holds d f x bytes)
    (ho : f.isOpen) (c : Config) :
    ∃ d', (loadKeys c f).result d = (.ok (loaded c bytes), d') ∧ Alike d d' := by
  have hlen := hf.length
  unfold loadKeys loaded
  by_cases hnil : bytes = []
  · have hzero : f.length = 0 := by
      rw [hnil] at hlen
      exact UInt64.toNat_inj.1 hlen
    refine ⟨d, ?_, hd.alike_refl⟩
    simp only [hzero, if_true, hnil, true_or]
    rfl
  · have hpos : f.length ≠ 0 := by
      rintro hzero
      rw [hzero] at hlen
      exact hnil (List.length_eq_zero_iff.1 hlen.symm)
    simp only [hpos, hnil, if_false, false_or]
    rw [Action.result_bind, Action.result_attempt]
    by_cases hlong : Slot.maxLength < bytes.length
    · have hread : f.readAll = throw FileError.tooLong := by
        rw [RecordFile.readAll, if_neg (by omega)]
      refine ⟨d, ?_, hd.alike_refl⟩
      rw [hread, if_pos hlong]
      rfl
    · -- the whole file is one slot
      have hle : f.length.toNat ≤ Slot.maxLength := by omega
      have hword : f.length.toUInt32.toNat = bytes.length := by
        rw [UInt64.toNat_toUInt32, Nat.mod_eq_of_lt (Nat.lt_of_le_of_lt hle (by decide)), hlen]
      obtain ⟨d', hr, halike⟩ := hf.read hd ho
        (show (⟨0, f.length.toUInt32⟩ : Slot).stop ≤ bytes.length from by
          rw [Slot.stop_eq, hword]
          exact Nat.le_of_eq (Nat.zero_add _))
      have hslice : (⟨0, f.length.toUInt32⟩ : Slot).slice bytes = bytes := by
        rw [Slot.slice, hword]
        exact List.take_length
      refine ⟨d', ?_, halike⟩
      rw [RecordFile.readAll, if_pos hle, hr, hslice, if_neg hlong]
      simp only
      cases Index.ofSnapshot bytes c.maxKeys <;> rfl

/-! ### Opening a store -/

/-- The store that is opened is what its files describe, unless they have to be made anew. -/
theorem openAt_ok (hc : c.Valid) (hd : d.Healthy) (ho : (Store.openAt c).result d = (.ok s, d')) :
    ∃ data keys d₁ s₁, (∀ x, Lodged d c.dataFile x → RecordFile.bytesAt d x = data) ∧
      (∀ x, Lodged d c.keyFile x → RecordFile.bytesAt d x = keys) ∧
      s₁.Mounted c d₁ data keys ∧ s₁.IsOpen ∧
      s₁.free = (loaded c keys).1 ∧ s₁.index = (loaded c keys).2 ∧ s₁.pending = none ∧
      Spared c.draftName d d' ∧
      (s₁.needsReset ∧ s.Mounted c d' [] [] ∧ s.IsOpen ∧ s.index = .empty c.maxKeys ∧
          s.free = .empty c.maxFreeSlots ∧ s.pending = none ∨
        ¬ s₁.needsReset ∧ s = s₁ ∧ d' = d₁) := by
  unfold Store.openAt at ho
  rw [Action.result_bind, Action.result_failingAs] at ho
  -- the data file
  rcases RecordFile.openAt_cases hd hc.steps_dataFile with
    ⟨x, d₁, f, hx, hr₁, hl₁, hf, hfo, hfp⟩ | ⟨e, d₁, hr₁, -⟩
  swap
  · rw [hr₁] at ho
    cases ho
  rw [hr₁] at ho
  simp only [Except.mapError] at ho
  rw [Action.result_bind, Action.result_failingAs] at ho
  -- the key file
  rcases RecordFile.openAt_cases hl₁.healthy hc.steps_keyFile with
    ⟨y, d₂, g, hy, hr₂, hl₂, hg, hgo, hgp⟩ | ⟨e, d₂, hr₂, -⟩
  swap
  · rw [hr₂] at ho
    cases ho
  rw [hr₂] at ho
  simp only [Except.mapError] at ho
  obtain ⟨d₃, hr₃, halike⟩ := loadKeys_spec hl₂.healthy hg hgo c
  rw [Action.result_bind, hr₃] at ho
  simp only at ho
  have hkeys : RecordFile.bytesAt d₁ y = RecordFile.bytesAt d y :=
    RecordFile.bytesAt_spared (hl₁.spared c.dataName_ne_keyName.symm) hy
  have hm : Mounted c d₃
      { cacheName := c.cacheName, dataFile := f, keyFile := g,
        index := (loaded c (RecordFile.bytesAt d₁ y)).2,
        free := (loaded c (RecordFile.bytesAt d₁ y)).1, pending := none, generation := 0 }
      (RecordFile.bytesAt d x) (RecordFile.bytesAt d₁ y) :=
    ⟨halike.healthy, hfp, hgp,
      ⟨x, hx, (hf.frame (hl₂.spared c.dataName_ne_keyName) hx).alike halike⟩,
      ⟨y, hy, hg.alike halike⟩⟩
  refine ⟨RecordFile.bytesAt d x, RecordFile.bytesAt d₁ y, d₃, _, fun z hz => ?_, fun z hz => ?_,
    hm, ⟨hfo, hgo⟩, rfl, rfl, rfl, ?_⟩
  · rw [(hz.mono hl₁.directories).unique (hfp ▸ hf.lodged)]
  · rw [((hz.mono hl₁.directories).mono hl₂.directories).unique (hgp ▸ hg.lodged), hkeys]
  · have hspared : Spared c.draftName d d₃ :=
      (hl₁.spared c.draftName_ne_dataName).trans
        ((hl₂.spared c.draftName_ne_keyName).trans (halike.spared _))
    split at ho
    · next hneeds =>
      obtain ⟨d₄, s₄, hr₄, hspared', hm₄, ho₄, hindex, hfree, hpending, -⟩ := reset_spec hm
      rw [Action.result_map, FileAction.result_startingWith, hr₄] at ho
      cases ho
      refine ⟨hspared.trans hspared', ?_⟩
      refine .inl ⟨hneeds, hm₄, ho₄, ?_, ?_, hpending⟩
      · rw [hindex, (loaded_capacity c _).1]
      · rw [hfree, (loaded_capacity c _).2]
    · next hneeds =>
      cases ho
      exact ⟨hspared, .inr ⟨hneeds, rfl, rfl⟩⟩

/-! ### Stores in order -/

/-- The store is sound, its files are on disk, and its bounds are those of the settings. -/
structure Intact (c : Config) (H : List Element) (d : FileSystem) (s : Store) (data : Bytes)
    (listed : List (Key × Slot)) : Prop where
  mounted : s.Mounted c d data (listing listed)
  sound : s.Sound H data listed
  capacity : s.index.capacity = c.maxKeys
  freeCapacity : s.free.capacity = c.maxFreeSlots

theorem Mounted.grown (h : s.Mounted c d data keys) (hd : Grown d d') :
    s.Mounted c d' data keys := by
  have hholds : ∀ {f : RecordFile} {x : Spot} {b : Bytes}, RecordFile.Holds d f x b →
      RecordFile.Holds d' f x b := by
    intro f x b hf
    obtain ⟨n, hn, hb, hh⟩ := hf.lies
    exact ⟨hf.lodged.mono fun x n hx => hd.nodes x _ hx,
      ⟨n, hd.nodes x _ hn, hd.contents n ▸ hb, hh⟩, hf.length⟩
  obtain ⟨x, hx, hf⟩ := h.dataFile
  obtain ⟨y, hy, hg⟩ := h.keyFile
  exact ⟨hd.healthy, h.dataPath, h.keyPath, ⟨x, hx, hholds hf⟩, ⟨y, hy, hholds hg⟩⟩

/-- What a store leaves in its files is what is found when they are opened again. -/
theorem Mounted.openAt {c₀ : Config} (hm : s.Mounted c₀ d data keys)
    (hdata : c₀.dataFile = c.dataFile) (hkey : c₀.keyFile = c.keyFile) (hc : c.Valid)
    (ho : (Store.openAt c).result d = (.ok s', d')) :
    ∃ d₁ s₁, s₁.Mounted c d₁ data keys ∧ s₁.IsOpen ∧
      s₁.free = (loaded c keys).1 ∧ s₁.index = (loaded c keys).2 ∧
      (s₁.needsReset ∧ s'.Mounted c d' [] [] ∧ s'.IsOpen ∧ s'.index = .empty c.maxKeys ∧
          s'.free = .empty c.maxFreeSlots ∧ s'.pending = none ∨
        ¬ s₁.needsReset ∧ s' = s₁ ∧ d' = d₁) := by
  obtain ⟨data₁, keys₁, d₁, s₁, hd₁, hk₁, hm₁, ho₁, hfree, hindex, -, -, hcases⟩ :=
    openAt_ok hc hm.healthy ho
  obtain ⟨x, -, hx⟩ := hm.dataFile
  obtain ⟨y, -, hy⟩ := hm.keyFile
  have hdata₁ := hd₁ x (hdata ▸ hm.dataPath ▸ hx.lodged)
  have hkeys₁ := hk₁ y (hkey ▸ hm.keyPath ▸ hy.lodged)
  rw [hx.bytesAt_eq] at hdata₁
  rw [hy.bytesAt_eq] at hkeys₁
  subst hdata₁ hkeys₁
  exact ⟨d₁, s₁, hm₁, ho₁, hfree, hindex, hcases⟩

/-- What a store was before its process ended says what is found when its files are opened again. -/
theorem Intact.openAt {c₀ : Config} (h : Intact c₀ H d s data listed)
    (hdata : c₀.dataFile = c.dataFile)
    (hkey : c₀.keyFile = c.keyFile) (hc : c.Valid) (ho : (Store.openAt c).result d = (.ok s', d')) :
    (∃ data' listed', Intact c H d' s' data' listed') ∧ s'.IsOpen := by
  obtain ⟨d₁, s₁, hm₁, ho₁, hfree, hindex, hcases⟩ := h.mounted.openAt hdata hkey hc ho
  obtain ⟨hcap, hfreeCap⟩ := loaded_capacity c (listing listed)
  rcases hcases with ⟨-, hm, hopen, hi, hf, -⟩ | ⟨hneeds, rfl, rfl⟩
  · exact ⟨⟨[], [], hm, sound_of_empty hi hf, by rw [hi]; rfl, by rw [hf]; rfl⟩, hopen⟩
  · refine ⟨⟨data, listed, hm₁, ?_, hindex ▸ hcap, hfree ▸ hfreeCap⟩, ho₁⟩
    by_cases hnil : listed = []
    · subst hnil
      exact sound_of_empty hindex hfree
    · have hlisting : listing listed = Index.Snapshot.encode listed := if_neg hnil
      have hne : Index.Snapshot.encode listed ≠ [] := Index.Snapshot.encode_ne_nil listed
      rw [loaded, hlisting] at hindex hfree
      by_cases hlong : Slot.maxLength < (Index.Snapshot.encode listed).length
      · -- a key file that cannot be read is not kept
        simp only [hlong, or_true, if_true] at hindex
        exfalso
        apply hneeds
        have hlen := hm₁.keyLength
        rw [hlisting] at hlen
        have hpos : s'.keyFile.length > 0 := by
          rw [gt_iff_lt, UInt64.lt_iff_toNat_lt, hlen]
          exact List.length_pos_of_ne_nil hne
        rw [needsReset, hindex]
        simp [Index.isEmpty, Index.empty, hpos]
      · have hsnapshot : Index.ofSnapshot (Index.Snapshot.encode listed) c.maxKeys =
            .ok ((Index.empty c.maxKeys).insertAll listed) := by
          rw [Index.ofSnapshot, Index.Snapshot.decode_encode]
          rfl
        simp only [hlong, hne, or_self, if_false, hsnapshot] at hindex hfree
        exact h.sound.load hindex hfree

/-- A region that finds no key starts with empty files. -/
theorem openAt_empty (hc : c.Valid) (hd : d.Healthy) (ho : (Store.openAt c).result d = (.ok s, d'))
    (hsize : s.index.size = 0) :
    s.Mounted c d' [] [] ∧ s.IsOpen ∧ s.index = .empty c.maxKeys ∧ s.free = .empty c.maxFreeSlots ∧
      s.pending = none := by
  obtain ⟨data, keys, d₁, s₁, -, -, hm, ho₁, hfree, hindex, hpending, -, hcases⟩ :=
    openAt_ok hc hd ho
  rcases hcases with ⟨-, hm', hopen, hi, hf, hp⟩ | ⟨hneeds, rfl, rfl⟩
  · exact ⟨hm', hopen, hi, hf, hp⟩
  · have hempty : s.index.isEmpty := by
      rw [Index.isEmpty, List.isEmpty_iff]
      exact List.length_eq_zero_iff.1 hsize
    have hlengths : s.dataFile.length = 0 ∧ s.keyFile.length = 0 := by
      rw [needsReset, if_pos hempty] at hneeds
      simp only [Bool.or_eq_true, decide_eq_true_eq, not_or, gt_iff_lt,
        UInt64.lt_iff_toNat_lt] at hneeds
      exact ⟨UInt64.toNat_inj.1 (Nat.eq_zero_of_not_pos hneeds.1),
        UInt64.toNat_inj.1 (Nat.eq_zero_of_not_pos hneeds.2)⟩
    have hdata : data = [] := by
      rw [← List.length_eq_zero_iff, ← hm.dataLength, hlengths.1]
      rfl
    have hkeys : keys = [] := by
      rw [← List.length_eq_zero_iff, ← hm.keyLength, hlengths.2]
      rfl
    subst hdata hkeys
    exact ⟨hm, ho₁, hindex, hfree, hpending⟩

end Store

namespace Region

variable {c : Config} {d d' : FileSystem} {r : Region}

/-- The stages of a successful opening. -/
theorem openAt_stages (ho : (Region.openAt c).result d = (.ok r, d')) :
    c.Valid ∧ ∃ d₁ d₂, (createDirectories c.diskPath).result d = (.ok (), d₁) ∧
      (unlinkIfPresent c.draftFile).result d₁ = (.ok (), d₂) ∧
      (Store.openAt c).result d₂ = (.ok r.store, d') ∧
      r = { config := c, store := r.store, alive := true, closed := false, compacting := false,
            removals := 0, compactions := 0, reuses := 0, hits := 0, misses := 0,
            pass := none } := by
  unfold Region.openAt at ho
  rw [Action.result_bind, Action.result_liftM] at ho
  cases hv : c.validate with
  | error e =>
    rw [hv] at ho
    cases ho
  | ok u =>
    rw [hv] at ho
    simp only at ho
    rw [Action.result_bind, Action.result_failingAs, Action.result_lift] at ho
    rcases hr₁ : (createDirectories c.diskPath).result d with ⟨e | u, d₁⟩
    · rw [hr₁] at ho
      cases ho
    rw [hr₁] at ho
    simp only [Except.mapError] at ho
    rw [Action.result_bind, Action.result_failingAs, Action.result_lift] at ho
    rcases hr₂ : (unlinkIfPresent c.draftFile).result d₁ with ⟨e | u, d₂⟩
    · rw [hr₂] at ho
      cases ho
    rw [hr₂] at ho
    simp only [Except.mapError] at ho
    rw [Action.result_bind] at ho
    rcases hr₃ : (Store.openAt c).result d₂ with ⟨e | s, d₃⟩
    · rw [hr₃] at ho
      cases ho
    rw [hr₃] at ho
    cases ho
    exact ⟨Config.valid_of_validate hv, d₁, d₂, rfl, hr₂, hr₃, rfl⟩

/-- What happens before a region opens its store. -/
theorem openAt_ok (hd : d.Healthy) (ho : (Region.openAt c).result d = (.ok r, d')) :
    c.Valid ∧ ∃ d₁ d₂, (createDirectories c.diskPath).result d = (.ok (), d₁) ∧ Grown d d₁ ∧
      (unlinkIfPresent c.draftFile).result d₁ = (.ok (), d₂) ∧ Local c.draftName d₁ d₂ ∧
      (Store.openAt c).result d₂ = (.ok r.store, d') ∧
      r = { config := c, store := r.store, alive := true, closed := false, compacting := false,
            removals := 0, compactions := 0, reuses := 0, hits := 0, misses := 0,
            pass := none } := by
  obtain ⟨hc, d₁, d₂, hr₁, hr₂, hr₃, hr⟩ := openAt_stages ho
  have hg := grown_createDirectories hd c.diskPath
  rw [hr₁] at hg
  have hl := local_unlinkIfPresent hg.healthy hc.steps_draftFile
  rw [hr₂] at hl
  exact ⟨hc, d₁, d₂, hr₁, hg, hr₂, hl, hr₃, hr⟩

end Region

end DiskTier
