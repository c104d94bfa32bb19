import DiskTier.Proofs.Codec.Torn
import DiskTier.Proofs.Opening
import DiskTier.Proofs.Shadow.File

/-!
# Stores in the shadow

The files of a region are `Rooted` in a directory if their paths end there, if the data file and the
key file are the same in the shadow, and if the key file lists none but certain keys, however much
of it was written. A store is `Anchored` if moreover its open files are the ones that lie at the
paths, and its index holds none but those keys. Nothing that a store does, whether it fails or not,
makes it come adrift; and so nothing that a store does depends on another file than its own.
-/

namespace DiskTier

open FileSystem RecordFile

/-! ### Keys of an index -/

namespace Index

/-- The index is coherent and no larger than it may be, and all its keys have the property. -/
structure Within (P : Key → Prop) (i : Index) : Prop where
  coherent : i.Coherent
  keys : ∀ e ∈ i.toList, P e.1
  fits : i.toList.length ≤ i.capacity

variable {P P' : Key → Prop} {i : Index}

theorem Within.mono (h : i.Within P) (hP : ∀ k, P k → P' k) : i.Within P' :=
  ⟨h.coherent, fun e he => hP _ (h.keys e he), h.fits⟩

theorem within_empty (P : Key → Prop) (capacity : Nat) : (Index.empty capacity).Within P :=
  ⟨empty_coherent capacity, by rintro e ⟨⟩, Nat.zero_le _⟩

theorem Within.of_get? (h : i.Within P) {k : Key} (hk : (i.get? k).isSome) : P k := by
  obtain ⟨s, hs⟩ := Option.isSome_iff_exists.1 hk
  exact h.keys (k, s) (h.coherent.mem_toList_iff.2 hs)

theorem Within.insert (h : i.Within P) (k : Key) (s : Slot) (hk : P k) :
    (i.insert k s).index.Within P := by
  obtain ⟨-, -, hc, hlist, hcap⟩ := h.coherent.insert k s
  refine ⟨hc, fun e he => ?_, ?_⟩
  · rw [hlist] at he
    rcases List.mem_append.1 (List.mem_of_mem_drop he) with he | he
    · exact h.keys e (List.mem_of_mem_filter he)
    · rw [List.mem_singleton.1 he]
      exact hk
  · rw [hlist, hcap, List.length_drop]
    omega

theorem Within.insertAll (h : i.Within P) {es : List (Key × Slot)} (hes : ∀ e ∈ es, P e.1) :
    (i.insertAll es).2.Within P := by
  induction es generalizing i with
  | nil => exact h
  | cons e es ih =>
    have hfirst := h.insert e.1 e.2 (hes e List.mem_cons_self)
    exact ih hfirst fun e' he' => hes e' (List.mem_cons_of_mem e he')

theorem Within.removeWhere (h : i.Within P) (p : Key → Bool) : (i.removeWhere p).2.Within P := by
  obtain ⟨-, hc, hlist, hcap⟩ := h.coherent.removeWhere p
  refine ⟨hc, fun e he => h.keys e (List.mem_of_mem_filter (hlist ▸ he)), ?_⟩
  rw [hlist, hcap]
  exact Nat.le_trans (List.length_filter_le _ _) h.fits

theorem Within.remove (h : i.Within P) (k : Key) : (i.remove k).2.Within P := by
  refine ⟨h.coherent.remove k, fun e he =>
    h.keys e (List.mem_of_mem_filter (h.coherent.toList_remove k ▸ he)), ?_⟩
  rw [h.coherent.toList_remove k, remove_capacity]
  exact Nat.le_trans (List.length_filter_le _ _) h.fits

/-- No key comes from a draft that the live index does not hold. -/
theorem Within.indexFor {live : Store} {dr : Draft} (h : live.index.Within P)
    (hd : dr.index.Coherent) : (dr.indexFor live).Within P := by
  obtain ⟨-, hc, hlist, -⟩ := hd.removeWhere fun k => !live.index.contains k
  obtain ⟨-, hc', hlist', hcap'⟩ := hc.setCapacity live.index.capacity
  refine ⟨hc', fun e he => ?_, ?_⟩
  · have he := List.mem_of_mem_drop (hlist' ▸ he)
    rw [hlist, List.mem_filter] at he
    apply h.of_get?
    simpa [contains, get?] using he.2
  · have hcap : (dr.indexFor live).capacity = live.index.capacity := hcap'
    have hlist : (dr.indexFor live).toList = _ := hlist'
    rw [hlist, hcap, List.length_drop]
    omega

/-! ### Keys that a file lists -/

/-- Whatever number of these bytes is read, none but such keys are listed. -/
def Lists (P : Key → Prop) (bytes : Bytes) : Prop :=
  ∀ n es, Snapshot.decode (bytes.take n) = .ok es → ∀ e ∈ es, P e.1

theorem Lists.mono {bytes : Bytes} (h : Lists P bytes) (hP : ∀ k, P k → P' k) :
    Lists P' bytes := fun n es hes e he => hP _ (h n es hes e he)

theorem lists_nil (P : Key → Prop) : Lists P [] := by
  intro n es hes
  rw [List.take_nil] at hes
  cases hes

theorem Lists.take {bytes : Bytes} (h : Lists P bytes) (k : Nat) : Lists P (bytes.take k) := by
  intro n es hes
  rw [List.take_take] at hes
  exact h _ es hes

/-- A torn snapshot lists nothing, and a whole one lists its entries. -/
theorem Within.lists (h : i.Within P) : Lists P i.snapshot := by
  intro n es hes
  obtain ⟨rfl, -⟩ := Snapshot.decode_take hes
  exact h.keys

end Index

namespace Store

variable {α : Type} {c : Config} {D : Nat} {P P' : Key → Prop} {d d' : FileSystem} {g g' : Shade}
  {s s' : Store}

/-! ### Files in their directory -/

/-- The data file, the key file and the draft may lie in the directory `D`; the first two are the
same in the shadow, and the key file lists none but the keys `P`. -/
structure Rooted (c : Config) (D : Nat) (P : Key → Prop) (d : FileSystem) (g : Shade) : Prop where
  orderly : d.Orderly
  data : Site d c.dataFile (D, c.dataName)
  keys : Site d c.keyFile (D, c.keyName)
  draft : Site d c.draftFile (D, c.draftName)
  dataKept : d.KeptAt g (D, c.dataName)
  keysKept : d.KeptAt g (D, c.keyName)
  lists : Index.Lists P (bytesAt d (D, c.keyName))

/-- The names of the files that a store has open. -/
def IsOwnName (c : Config) (name : String) : Prop := name = c.dataName ∨ name = c.keyName

/-- The names of the files of a region, with the one that a compaction fills. -/
def IsRegionName (c : Config) (name : String) : Prop := IsOwnName c name ∨ name = c.draftName

theorem not_isOwnName_draftName (c : Config) : ¬ IsOwnName c c.draftName := by
  rintro (h | h)
  · exact c.draftName_ne_dataName h
  · exact c.draftName_ne_keyName h

namespace Rooted

theorem mono (h : Rooted c D P d g) (hP : ∀ k, P k → P' k) : Rooted c D P' d g :=
  { h with lists := h.lists.mono hP }

/-- What happens to the draft does not matter. -/
theorem frame (h : Rooted c D P d g) (he : Effect (· = c.draftName) d g d' g') :
    Rooted c D P d' g' where
  orderly := he.orderly
  data := he.site h.data
  keys := he.site h.keys
  draft := he.site h.draft
  dataKept := he.keptAt c.draftName_ne_dataName.symm h.dataKept
  keysKept := he.keptAt c.draftName_ne_keyName.symm h.keysKept
  lists := by
    rw [he.bytesAt c.draftName_ne_keyName.symm]
    exact h.lists

theorem still (h : Rooted c D P d g) (hs : Still d g d' g') : Rooted c D P d' g' :=
  h.frame hs.of_still

theorem replan {faults : Nat → Option PlannedFault} (h : Rooted c D P d g)
    (hf : Truthful faults) : Rooted c D P { d with faults } g where
  orderly := h.orderly.replan hf
  data := h.data.replan faults
  keys := h.keys.replan faults
  draft := h.draft.replan faults
  dataKept := h.dataKept
  keysKept := h.keysKept
  lists := h.lists

theorem calmed (h : Rooted c D P d g) : Rooted c D P d.calmed g := h.replan nofun

theorem setData {N : String → Prop} (h : Rooted c D P d g) (he : Effect N d g d' g')
    (hN : ¬ N c.keyName) (hk : d'.KeptAt g' (D, c.dataName)) : Rooted c D P d' g' where
  orderly := he.orderly
  data := he.site h.data
  keys := he.site h.keys
  draft := he.site h.draft
  dataKept := hk
  keysKept := he.keptAt hN h.keysKept
  lists := by
    rw [he.bytesAt hN]
    exact h.lists

theorem setKeys (h : Rooted c D P d g) (he : Effect (· = c.keyName) d g d' g')
    (hk : d'.KeptAt g' (D, c.keyName)) (hl : Index.Lists P' (bytesAt d' (D, c.keyName))) :
    Rooted c D P' d' g' where
  orderly := he.orderly
  data := he.site h.data
  keys := he.site h.keys
  draft := he.site h.draft
  dataKept := he.keptAt c.dataName_ne_keyName h.dataKept
  keysKept := hk
  lists := hl

end Rooted

/-! ### Opening and unlinking -/

/-- A file of the region, just opened. -/
structure Fresh (p : Path) (x : Spot) (d : FileSystem) (f : RecordFile) : Prop where
  path : f.path = p
  placed : Placed d f x
  isOpen : f.isOpen
  length : f.length.toNat = (bytesAt d x).length

theorem Rooted.shadowed_openData (h : Rooted c D P d g) :
    Shadowed shadow (RecordFile.openAt c.dataFile).result d g fun r d' g' =>
      Opened (D, c.dataName) d g d' g' ∧ Rooted c D P d' g' ∧
        ∀ f, r = .ok f → Fresh c.dataFile (D, c.dataName) d' f := by
  refine (RecordFile.shadowed_openAt h.orderly h.data h.dataKept).mono ?_
  rintro r d' g' ⟨ho, hf⟩
  refine ⟨ho, h.setData ho.effect c.dataName_ne_keyName.symm (ho.kept h.dataKept), fun f hr => ?_⟩
  obtain ⟨hpath, hplaced, hopen, hlen⟩ := hf f hr
  exact ⟨hpath, hplaced, hopen, hlen⟩

theorem Rooted.shadowed_openKeys (h : Rooted c D P d g) :
    Shadowed shadow (RecordFile.openAt c.keyFile).result d g fun r d' g' =>
      Opened (D, c.keyName) d g d' g' ∧ Rooted c D P d' g' ∧
        ∀ f, r = .ok f → Fresh c.keyFile (D, c.keyName) d' f := by
  refine (RecordFile.shadowed_openAt h.orderly h.keys h.keysKept).mono ?_
  rintro r d' g' ⟨ho, hf⟩
  refine ⟨ho, h.setKeys ho.effect (ho.kept h.keysKept) (ho.bytes ▸ h.lists), fun f hr => ?_⟩
  obtain ⟨hpath, hplaced, hopen, hlen⟩ := hf f hr
  exact ⟨hpath, hplaced, hopen, hlen⟩

theorem keptAt_of_cases {x : Spot} (hk : d.KeptAt g x) (he : ∀ n, d.Kept g n → d'.Kept g' n)
    (hx : d'.at? x = d.at? x ∨ d'.at? x = none) : d'.KeptAt g' x := by
  intro n hn
  rcases hx with hx | hx
  · exact he n (hk n (hx ▸ hn))
  · rw [hx] at hn
    cases hn

theorem Rooted.shadowed_unlinkData (h : Rooted c D P d g) :
    Shadowed shadow (unlinkIfPresent c.dataFile).result d g fun r d' g' =>
      Effect (· = c.dataName) d g d' g' ∧ Rooted c D P d' g' ∧
        (r = .ok () → d'.at? (D, c.dataName) = none) := by
  refine (h.orderly.shadowed_unlinkIfPresent h.data).mono ?_
  rintro r d' g' ⟨he, hx, -, hgone⟩
  exact ⟨he, h.setData he c.dataName_ne_keyName.symm (keptAt_of_cases h.dataKept he.kept hx), hgone⟩

theorem Rooted.shadowed_unlinkKeys (h : Rooted c D P d g) :
    Shadowed shadow (unlinkIfPresent c.keyFile).result d g fun r d' g' =>
      Effect (· = c.keyName) d g d' g' ∧ Rooted c D P d' g' ∧
        (r = .ok () → d'.at? (D, c.keyName) = none) := by
  refine (h.orderly.shadowed_unlinkIfPresent h.keys).mono ?_
  rintro r d' g' ⟨he, hx, hcontent, hgone⟩
  refine ⟨he, h.setKeys he (keptAt_of_cases h.keysKept he.kept hx) ?_, hgone⟩
  rcases hx with hx | hx
  · have hbytes : bytesAt d' (D, c.keyName) = bytesAt d (D, c.keyName) := by
      rw [bytesAt, bytesAt, hx, hcontent]
    exact hbytes ▸ h.lists
  · rw [bytesAt, hx]
    exact Index.lists_nil P

theorem Rooted.shadowed_unlinkDraft (h : Rooted c D P d g) :
    Shadowed shadow (unlinkIfPresent c.draftFile).result d g fun _ d' g' =>
      Effect (· = c.draftName) d g d' g' := by
  refine (h.orderly.shadowed_unlinkIfPresent h.draft).mono ?_
  rintro r d' g' ⟨he, -⟩
  exact he

/-! ### Stores with their files -/

/-- The open files of the store are the ones that lie at its paths, and its index holds none but the
keys `P`. -/
structure Anchored (c : Config) (D : Nat) (P : Key → Prop) (d : FileSystem) (g : Shade)
    (s : Store) : Prop where
  rooted : Rooted c D P d g
  dataPath : s.dataFile.path = c.dataFile
  keyPath : s.keyFile.path = c.keyFile
  dataFile : Placed d s.dataFile (D, c.dataName)
  keyFile : Placed d s.keyFile (D, c.keyName)
  within : s.index.Within P

namespace Anchored

theorem mono (h : Anchored c D P d g s) (hP : ∀ k, P k → P' k) : Anchored c D P' d g s :=
  { h with rooted := h.rooted.mono hP, within := h.within.mono hP }

theorem orderly (h : Anchored c D P d g s) : d.Orderly := h.rooted.orderly

/-- Only the files and the index of a store matter. -/
theorem congr (h : Anchored c D P d g s) (hd : s'.dataFile = s.dataFile)
    (hk : s'.keyFile = s.keyFile) (hi : s'.index.Within P) : Anchored c D P d g s' :=
  ⟨h.rooted, hd ▸ h.dataPath, hk ▸ h.keyPath, hd ▸ h.dataFile, hk ▸ h.keyFile, hi⟩

theorem frame (h : Anchored c D P d g s) (he : Effect (· = c.draftName) d g d' g') :
    Anchored c D P d' g' s :=
  ⟨h.rooted.frame he, h.dataPath, h.keyPath, h.dataFile.frame he c.draftName_ne_dataName.symm,
    h.keyFile.frame he c.draftName_ne_keyName.symm, h.within⟩

theorem replan {faults : Nat → Option PlannedFault} (h : Anchored c D P d g s)
    (hf : Truthful faults) : Anchored c D P { d with faults } g s :=
  ⟨h.rooted.replan hf, h.dataPath, h.keyPath, h.dataFile.replan faults, h.keyFile.replan faults,
    h.within⟩

theorem still (h : Anchored c D P d g s) (hs : Still d g d' g') : Anchored c D P d' g' s :=
  h.frame hs.of_still

theorem setData {f : RecordFile} {N : String → Prop} (h : Anchored c D P d g s)
    (he : Effect N d g d' g') (hN : ¬ N c.keyName) (hk : d'.KeptAt g' (D, c.dataName))
    (hf : Placed d' f (D, c.dataName)) (hpath : f.path = c.dataFile) :
    Anchored c D P d' g' { s with dataFile := f } :=
  ⟨h.rooted.setData he hN hk, hpath, h.keyPath, hf, h.keyFile.frame he hN, h.within⟩

theorem setKeys {f : RecordFile} (h : Anchored c D P d g s)
    (he : Effect (· = c.keyName) d g d' g') (hk : d'.KeptAt g' (D, c.keyName))
    (hl : Index.Lists P (bytesAt d' (D, c.keyName))) (hf : Placed d' f (D, c.keyName))
    (hpath : f.path = c.keyFile) : Anchored c D P d' g' { s with keyFile := f } :=
  ⟨h.rooted.setKeys he hk hl, h.dataPath, hpath, h.dataFile.frame he c.dataName_ne_keyName, hf,
    h.within⟩

/-- The data file was changed in place. -/
theorem changeData {f : RecordFile} (h : Anchored c D P d g s)
    (hc : Changed (D, c.dataName) d g s.dataFile d' g' f) :
    Anchored c D P d' g' { s with dataFile := f } :=
  h.setData hc.effect c.dataName_ne_keyName.symm (hc.keptAt h.rooted.dataKept)
    (hc.placed h.dataFile) (hc.path.trans h.dataPath)

/-- The key file was changed in place. -/
theorem changeKeys {f : RecordFile} (h : Anchored c D P d g s)
    (hc : Changed (D, c.keyName) d g s.keyFile d' g' f)
    (hl : Index.Lists P (bytesAt d' (D, c.keyName))) :
    Anchored c D P d' g' { s with keyFile := f } :=
  h.setKeys hc.effect (hc.keptAt h.rooted.keysKept) hl (hc.placed h.keyFile)
    (hc.path.trans h.keyPath)

end Anchored

/-- What became of a store has the bounds of the store. Keys are collected only if they were, and
not after a reset. -/
structure Later (s s' : Store) : Prop where
  generation : s.generation ≤ s'.generation
  capacity : s'.index.capacity = s.index.capacity
  freeCapacity : s'.free.capacity = s.free.capacity
  collecting : s'.pending.isSome → s.pending.isSome ∧ s'.generation = s.generation

theorem later_of_same (hg : s'.generation = s.generation)
    (hc : s'.index.capacity = s.index.capacity) (hf : s'.free.capacity = s.free.capacity)
    (hp : s'.pending = s.pending) : Later s s' :=
  ⟨Nat.le_of_eq hg.symm, hc, hf, fun h => ⟨hp ▸ h, hg⟩⟩

theorem Later.refl (s : Store) : Later s s := later_of_same rfl rfl rfl rfl

theorem Later.trans {s'' : Store} (h : Later s s') (h' : Later s' s'') : Later s s'' := by
  refine ⟨Nat.le_trans h.generation h'.generation, h'.capacity.trans h.capacity,
    h'.freeCapacity.trans h.freeCapacity, fun hp => ?_⟩
  obtain ⟨hp', hg'⟩ := h'.collecting hp
  obtain ⟨hp'', hg⟩ := h.collecting hp'
  exact ⟨hp'', hg'.trans hg⟩

/-- What an action on its own files leaves of a store. -/
structure Remains (c : Config) (D : Nat) (P : Key → Prop) (d : FileSystem) (g : Shade) (s : Store)
    (d' : FileSystem) (g' : Shade) (s' : Store) : Prop where
  anchored : Anchored c D P d' g' s'
  effect : Effect (IsOwnName c) d g d' g'
  later : Later s s'

theorem Anchored.remains_still (h : Anchored c D P d g s) (hs : Still d g d' g') :
    Remains c D P d g s d' g' s :=
  ⟨h.still hs, hs.of_still, .refl s⟩

theorem Anchored.remains (h : Anchored c D P d g s) : Remains c D P d g s d g s :=
  h.remains_still (h.orderly.still_refl g)

theorem Remains.trans {d'' : FileSystem} {g'' : Shade} {s'' : Store}
    (h : Remains c D P d g s d' g' s') (h' : Remains c D P' d' g' s' d'' g'' s'') :
    Remains c D P' d g s d'' g'' s'' :=
  ⟨h'.anchored, h.effect.trans h'.effect, h.later.trans h'.later⟩

theorem shadowed_onData {γ : Type} {cast : γ → FileSystem → FileSystem} {g : γ}
    {x : RecordFile.Change α} {Q : Except Error α → FileSystem × Store → γ → Prop}
    (h : Shadowed (onFiles cast) x.result (d, s.dataFile) g fun r q g' =>
      Q (r.mapError .file) (q.1, { s with dataFile := q.2 }) g') :
    Shadowed (onFiles cast) (onData x).result (d, s) g Q := FileAction.shadowed_onPart h

theorem shadowed_onKeys {γ : Type} {cast : γ → FileSystem → FileSystem} {g : γ}
    {x : RecordFile.Change α} {Q : Except Error α → FileSystem × Store → γ → Prop}
    (h : Shadowed (onFiles cast) x.result (d, s.keyFile) g fun r q g' =>
      Q (r.mapError .file) (q.1, { s with keyFile := q.2 }) g') :
    Shadowed (onFiles cast) (onKeys x).result (d, s) g Q := FileAction.shadowed_onPart h

/-! ### Reading and writing -/

theorem shadowed_read (h : Anchored c D P d g s) (k : Key) :
    Shadowed shadow (s.read k).result d g fun _ d' g' => Still d g d' g' := by
  unfold Store.read
  split
  · exact Action.shadowed_pure (h.orderly.still_refl g)
  · next slot _ =>
    apply Action.shadowed_bind
    apply Action.shadowed_failingAs
    refine (RecordFile.shadowed_read h.orderly h.dataFile h.rooted.dataKept slot).mono ?_
    rintro (e | record) d' g' ⟨hs, -⟩
    · exact hs
    · dsimp only [Except.mapError]
      split
      · exact Action.shadowed_throw hs
      · split
        · exact Action.shadowed_pure hs
        · exact Action.shadowed_throw hs

/-- To claim a place changes the free list alone. -/
theorem claim_eq (s : Store) (k : Key) (n : UInt32) :
    ∃ free, s.claim (s.place k n) = { s with free } ∧ free.capacity = s.free.capacity := by
  unfold place
  split
  · exact ⟨_, rfl, rfl⟩
  · split
    · next hr => exact ⟨_, rfl, FreeList.reserve?_capacity hr⟩
    · exact ⟨_, rfl, rfl⟩

theorem unclaim_eq (s : Store) (place : Place) :
    ∃ free, s.unclaim place = { s with free } ∧ free.capacity = s.free.capacity := by
  cases place with
  | old slot => exact ⟨_, rfl, rfl⟩
  | reused slot free => exact ⟨_, rfl, FreeList.release_capacity _ _⟩
  | tail offset => exact ⟨_, rfl, rfl⟩

theorem later_install (s : Store) (f : RecordFile) (k : Key) (slot : Slot) :
    Later s (({ s with dataFile := f } : Store).install k slot) where
  generation := Nat.le_refl _
  capacity := Index.insert_capacity _ _ _
  freeCapacity := FreeList.releaseAll_capacity _ _
  collecting hp := ⟨Option.isSome_map.symm.trans hp, rfl⟩

/-- A key is new to the store only if its record was written. -/
theorem shadowed_write (h : Anchored c D P d g s) (k : Key) (record : Bytes) :
    Shadowed (onFiles shadow) (Store.write k record).result (d, s) g fun r q g' =>
      Remains c D (fun k' => P k' ∨ r.isOk ∧ k' = k) d g s q.1 g' q.2 := by
  unfold Store.write
  split
  · exact Action.shadowed_throw (h.mono fun _ => .inl).remains
  next length _ =>
  apply FileAction.shadowed_value_bind
  apply FileAction.shadowed_change_bind
  obtain ⟨free, hclaim, hfree⟩ := claim_eq s k length
  generalize s.place k length = place at hclaim ⊢
  have h₁ : Anchored c D P d g (s.claim place) := by
    rw [hclaim]
    exact h.congr rfl rfl h.within
  have hlater : Later s (s.claim place) := by
    rw [hclaim]
    exact later_of_same rfl rfl hfree rfl
  apply Action.shadowed_bind
  apply Action.shadowed_attempt
  apply shadowed_onData
  refine (RecordFile.shadowed_write h₁.orderly h₁.dataFile place.offset record).mono ?_
  rintro (e | u) ⟨d', f⟩ g' ⟨hc, -, -⟩
  · obtain ⟨free', hunclaim, hfree'⟩ := unclaim_eq { s.claim place with dataFile := f } place
    apply FileAction.shadowed_change_bind
    refine Action.shadowed_throw ⟨?_, hc.effect.mono fun _ => .inl, ?_⟩
    · dsimp only
      rw [hunclaim]
      exact ((h₁.changeData hc).mono fun _ => .inl).congr rfl rfl (h₁.within.mono fun _ => .inl)
    · dsimp only
      rw [hunclaim]
      exact hlater.trans (later_of_same rfl rfl hfree' rfl)
  · apply FileAction.shadowed_change_bind
    refine Action.shadowed_pure ⟨?_, hc.effect.mono fun _ => .inl,
      hlater.trans (later_install _ f k _)⟩
    refine ((h₁.changeData hc).mono fun _ => .inl).congr rfl rfl ?_
    exact (h₁.within.mono fun _ => .inl).insert k _ (.inr ⟨rfl, rfl⟩)

/-! ### The key file -/

theorem Anchored.remains_keys {f : RecordFile} (h : Anchored c D P d g s)
    (hc : Changed (D, c.keyName) d g s.keyFile d' g' f)
    (hl : Index.Lists P (bytesAt d' (D, c.keyName))) :
    Remains c D P d g s d' g' { s with keyFile := f } :=
  ⟨h.changeKeys hc hl, hc.effect.mono fun _ => .inr, later_of_same rfl rfl rfl rfl⟩

/-- The data file is as it was, and the key file as well, or it holds the first of these bytes; all
of them if nothing has failed. -/
structure Rekeyed (c : Config) (D : Nat) (d : FileSystem) (bytes : Bytes) (r : Except Error Unit)
    (d' : FileSystem) : Prop where
  data : bytesAt d' (D, c.dataName) = bytesAt d (D, c.dataName)
  keys : bytesAt d' (D, c.keyName) = bytesAt d (D, c.keyName) ∨
    ∃ k, bytesAt d' (D, c.keyName) = bytes.take k
  done : r = .ok () → bytesAt d' (D, c.keyName) = bytes

theorem Rekeyed.still {bytes : Bytes} {r r' : Except Error Unit} {d'' : FileSystem} {g'' : Shade}
    (h : Rekeyed c D d bytes r d') (hs : Still d' g' d'' g'') (hr : r' = .ok () → r = .ok ()) :
    Rekeyed c D d bytes r' d'' := by
  obtain ⟨hdata, hkeys, hdone⟩ := h
  rw [← hs.bytesAt id] at hdata hkeys hdone
  exact ⟨hdata, hkeys, fun hr' => hdone (hr hr')⟩

/-- Emptied or not, the key file lists none but the keys that it did. -/
theorem shadowed_truncateKeys (h : Anchored c D P d g s) :
    Shadowed (onFiles shadow) (onKeys RecordFile.truncate).result (d, s) g fun r q g' =>
      Remains c D P d g s q.1 g' q.2 ∧ q.2.index = s.index ∧ q.2.dataFile = s.dataFile ∧
        Rekeyed c D d [] r q.1 := by
  apply shadowed_onKeys
  refine (RecordFile.shadowed_truncate h.orderly h.keyFile).mono ?_
  rintro (e | u) ⟨d', f⟩ g' ⟨hc, hok, herror⟩
  · have hsame := herror e rfl
    exact ⟨h.remains_keys hc (by rw [hsame]; exact h.rooted.lists), rfl, rfl,
      hc.effect.bytesAt c.dataName_ne_keyName, .inl hsame, nofun⟩
  · obtain ⟨hnil, -⟩ := hok rfl
    exact ⟨h.remains_keys hc (by rw [hnil]; exact Index.lists_nil P), rfl, rfl,
      hc.effect.bytesAt c.dataName_ne_keyName, .inr ⟨0, hnil⟩, fun _ => hnil⟩

/-- However far a save comes, the key file lists none but keys of the store. -/
theorem shadowed_saveKeys (h : Anchored c D P d g s) :
    Shadowed (onFiles shadow) saveKeys.result (d, s) g fun r q g' =>
      Remains c D P d g s q.1 g' q.2 ∧ q.2.index = s.index ∧
        Rekeyed c D d (listing s.index.toList) r q.1 := by
  have hsync : ∀ q g', Remains c D P d g s q.1 g' q.2 → q.2.index = s.index →
      Rekeyed c D d (listing s.index.toList) (.ok ()) q.1 →
      Shadowed (onFiles shadow) (do
        let s ← FileAction.value
        FileAction.onDisk .file s.keyFile.sync : Change Unit).result q g' fun r q g' =>
          Remains c D P d g s q.1 g' q.2 ∧ q.2.index = s.index ∧
            Rekeyed c D d (listing s.index.toList) r q.1 := by
    intro q g' h₁ hi hk
    apply FileAction.shadowed_value_bind
    apply FileAction.shadowed_onDisk
    refine (RecordFile.shadowed_sync h₁.anchored.orderly q.2.keyFile).mono ?_
    intro r d₂ g₂ hs
    exact ⟨h₁.trans (h₁.anchored.remains_still hs), hi, hk.still hs fun _ => rfl⟩
  have hempty := h.within.coherent.isEmpty_iff
  unfold saveKeys
  apply FileAction.shadowed_value_bind
  dsimp only
  split
  · next hnil =>
    have hlisting : listing s.index.toList = [] := if_pos (hempty.1 hnil)
    apply Action.shadowed_bind
    refine (shadowed_truncateKeys h).mono ?_
    rw [hlisting] at hsync ⊢
    intro r q g' hpost
    obtain ⟨h', hi, -, hk⟩ := hpost
    cases r with
    | error e => exact ⟨h', hi, hk⟩
    | ok u => exact hsync q g' h' hi hk
  · next hnil =>
    have hlisting : listing s.index.toList = s.index.snapshot := if_neg (mt hempty.2 hnil)
    rw [hlisting] at hsync ⊢
    apply Action.shadowed_bind
    apply shadowed_onKeys
    refine (RecordFile.shadowed_overwrite h.orderly h.keyFile s.index.snapshot).mono ?_
    intro r q g' hpost
    obtain ⟨hc, hbytes, hdone⟩ := hpost
    have hdata : bytesAt q.1 (D, c.dataName) = bytesAt d (D, c.dataName) :=
      hc.effect.bytesAt c.dataName_ne_keyName
    have hlists : Index.Lists P (bytesAt q.1 (D, c.keyName)) := by
      rcases hbytes with heq | ⟨k, heq⟩
      · rw [heq]
        exact h.rooted.lists
      · rw [heq]
        exact h.within.lists.take k
    cases r with
    | error e => exact ⟨h.remains_keys hc hlists, rfl, hdata, hbytes, nofun⟩
    | ok u => exact hsync _ g' (h.remains_keys hc hlists) rfl ⟨hdata, hbytes, fun _ => hdone rfl⟩

/-! ### Closing and resetting -/

theorem Anchored.closeData {f : RecordFile} (h : Anchored c D P d g s)
    (hf : f = { s.dataFile with handle := none }) :
    Anchored c D P d g { s with dataFile := f } := by
  subst hf
  exact ⟨h.rooted, h.dataPath, h.keyPath, h.dataFile.closed rfl rfl, h.keyFile, h.within⟩

theorem Anchored.closeKeys {f : RecordFile} (h : Anchored c D P d g s)
    (hf : f = { s.keyFile with handle := none }) : Anchored c D P d g { s with keyFile := f } := by
  subst hf
  exact ⟨h.rooted, h.dataPath, h.keyPath, h.dataFile, h.keyFile.closed rfl rfl, h.within⟩

theorem shadowed_closeData (h : Anchored c D P d g s) :
    Shadowed (onFiles shadow) (onData RecordFile.close).result (d, s) g fun _ q g' =>
      Remains c D P d g s q.1 g' q.2 ∧ Still d g q.1 g' ∧
        q.2 = { s with dataFile := { s.dataFile with handle := none } } := by
  apply shadowed_onData
  refine (RecordFile.shadowed_close h.orderly s.dataFile).mono ?_
  rintro r ⟨d', f⟩ g' ⟨hs, hf⟩
  exact ⟨⟨(h.still hs).closeData hf, hs.of_still, later_of_same rfl rfl rfl rfl⟩, hs, by rw [← hf]⟩

theorem shadowed_closeKeys (h : Anchored c D P d g s) :
    Shadowed (onFiles shadow) (onKeys RecordFile.close).result (d, s) g fun _ q g' =>
      Remains c D P d g s q.1 g' q.2 ∧
        q.2 = { s with keyFile := { s.keyFile with handle := none } } := by
  apply shadowed_onKeys
  refine (RecordFile.shadowed_close h.orderly s.keyFile).mono ?_
  rintro r ⟨d', f⟩ g' ⟨hs, hf⟩
  exact ⟨⟨(h.still hs).closeKeys hf, hs.of_still, later_of_same rfl rfl rfl rfl⟩, by rw [← hf]⟩

theorem shadowed_close (h : Anchored c D P d g s) :
    Shadowed (onFiles shadow) Store.close.result (d, s) g fun _ q g' =>
      Remains c D P d g s q.1 g' q.2 := by
  unfold Store.close
  apply Action.shadowed_bind
  refine (shadowed_closeData h).mono ?_
  rintro (e | u) ⟨d₁, s₁⟩ g₁ ⟨h₁, -⟩
  · exact h₁
  · refine (shadowed_closeKeys h₁.anchored).mono ?_
    rintro r q g' ⟨h₂, -⟩
    exact h₁.trans h₂

/-- The store has two new files, and knows nothing of what it held. -/
structure Renewed (c : Config) (D : Nat) (s : Store) (d' : FileSystem) (s' : Store) : Prop where
  isOpen : s'.IsOpen
  data : ∀ n, d'.at? (D, c.dataName) = some (.file n) → d'.content n = []
  keys : ∀ n, d'.at? (D, c.keyName) = some (.file n) → d'.content n = []
  dataLength : s'.dataFile.length = 0
  keyLength : s'.keyFile.length = 0
  forgets : ∃ dataFile keyFile, s' = { s.forget with dataFile, keyFile }

/-- A reset that fails leaves less than there was; one that succeeds leaves nothing. -/
theorem shadowed_reset (h : Anchored c D P d g s) :
    Shadowed (onFiles shadow) Store.reset.result (d, s) g fun r q g' =>
      Remains c D P d g s q.1 g' q.2 ∧ q.2.generation = s.generation + 1 ∧
        (r = .ok () → Renewed c D s q.1 q.2) := by
  have h₀ : Anchored c D P d g s.forget := h.congr rfl rfl (Index.within_empty P _)
  have hlater : ∀ dataFile keyFile, Later s { s.forget with dataFile, keyFile } :=
    fun _ _ => ⟨Nat.le_succ _, rfl, rfl, nofun⟩
  unfold Store.reset
  apply FileAction.shadowed_change_bind
  -- both files are closed, whether that fails or not
  apply Action.shadowed_bind
  apply Action.shadowed_regardless
  refine (shadowed_closeData h₀).mono ?_
  rintro r ⟨d₁, s₁⟩ g₁ ⟨h₁, -, rfl⟩
  apply Action.shadowed_bind
  apply Action.shadowed_regardless
  refine (shadowed_closeKeys h₁.anchored).mono ?_
  rintro r ⟨d₂, s₂⟩ g₂ ⟨h₂, rfl⟩
  have he₂ : Effect (IsOwnName c) d g d₂ g₂ := h₁.effect.trans h₂.effect
  have ha₂ := h₂.anchored
  apply FileAction.shadowed_value_bind
  dsimp only
  -- a store with closed files stays anchored as long as its directory is in order
  have hclosed : ∀ d' g', Rooted c D P d' g' →
      Anchored c D P d' g' { s.forget with
        dataFile := ⟨c.dataFile, none, s.dataFile.length⟩
        keyFile := ⟨c.keyFile, none, s.keyFile.length⟩ } := fun d' g' hr =>
    ⟨hr, rfl, rfl, ⟨hr.data, by rintro n ⟨⟩⟩, ⟨hr.keys, by rintro n ⟨⟩⟩, ha₂.within⟩
  rw [show s.forget.dataFile.path = c.dataFile from ha₂.dataPath,
    show s.forget.keyFile.path = c.keyFile from ha₂.keyPath]
  apply Action.shadowed_bind
  apply FileAction.shadowed_onDisk
  apply Action.shadowed_failingAs
  refine ha₂.rooted.shadowed_unlinkData.mono ?_
  rintro (e | u) d₃ g₃ ⟨he₃, hr₃, hx₃⟩
  · exact ⟨⟨hclosed d₃ g₃ hr₃, he₂.trans (he₃.mono fun _ => .inl), hlater _ _⟩, rfl, nofun⟩
  have he₃ := he₂.trans (he₃.mono fun _ => .inl)
  apply Action.shadowed_bind
  apply FileAction.shadowed_onDisk
  apply Action.shadowed_failingAs
  refine hr₃.shadowed_unlinkKeys.mono ?_
  rintro (e | u) d₄ g₄ ⟨he₄, hr₄, hy₄⟩
  · exact ⟨⟨hclosed d₄ g₄ hr₄, he₃.trans (he₄.mono fun _ => .inr), hlater _ _⟩, rfl, nofun⟩
  have hx₄ : d₄.at? (D, c.dataName) = none :=
    (he₄.nodes _ c.dataName_ne_keyName).trans (hx₃ rfl)
  have he₄ := he₃.trans (he₄.mono fun _ => .inr)
  -- nothing is left, and so new files are made
  apply Action.shadowed_bind
  apply FileAction.shadowed_onDisk
  refine hr₄.shadowed_openData.mono ?_
  rintro (e | f) d₅ g₅ ⟨ho₅, hr₅, hf⟩
  · exact ⟨⟨hclosed d₅ g₅ hr₅, he₄.trans (ho₅.effect.mono fun _ => .inl), hlater _ _⟩, rfl, nofun⟩
  have hf := hf f rfl
  have hy₅ : d₅.at? (D, c.keyName) = none :=
    (ho₅.effect.nodes _ c.dataName_ne_keyName.symm).trans (hy₄ rfl)
  have he₅ := he₄.trans (ho₅.effect.mono fun _ => .inl)
  apply FileAction.shadowed_change_bind
  apply Action.shadowed_bind
  apply FileAction.shadowed_onDisk
  refine hr₅.shadowed_openKeys.mono ?_
  rintro r d₆ g₆ ⟨ho₆, hr₆, hk⟩
  have hplaced := hf.placed.frame ho₆.effect c.dataName_ne_keyName
  have he₆ := he₅.trans (ho₆.effect.mono fun _ => .inr)
  cases r with
  | error e =>
    exact ⟨⟨⟨hr₆, hf.path, rfl, hplaced, ⟨hr₆.keys, by rintro n ⟨⟩⟩, ha₂.within⟩, he₆, hlater _ _⟩,
      rfl, nofun⟩
  | ok k =>
    have hk := hk k rfl
    have hnil : ∀ {d : FileSystem} {x : Spot}, d.at? x = none → bytesAt d x = [] := by
      intro d x hx
      rw [bytesAt, hx]
    refine FileAction.shadowed_change ⟨⟨⟨hr₆, hf.path, hk.path, hplaced, hk.placed, ha₂.within⟩,
      he₆, hlater _ _⟩, rfl, fun _ => ⟨⟨hf.isOpen, hk.isOpen⟩, fun n hn => ?_, ho₆.fresh hy₅, ?_,
      ?_, f, k, rfl⟩⟩
    · have hn₅ := (ho₆.effect.nodes _ c.dataName_ne_keyName).symm.trans hn
      exact (ho₆.effect.contents _ n c.dataName_ne_keyName hn₅).trans (ho₅.fresh hx₄ n hn₅)
    · apply UInt64.toNat_inj.1
      rw [hf.length, ho₅.bytes, hnil hx₄]
      rfl
    · apply UInt64.toNat_inj.1
      rw [hk.length, ho₆.bytes, hnil hy₅]
      rfl

/-! ### Opening -/

/-- Whatever is made of the key file, it gives none but the keys that it lists. -/
theorem shadowed_loadKeys {f : RecordFile} (h : Rooted c D P d g)
    (hf : Fresh c.keyFile (D, c.keyName) d f) :
    Shadowed shadow (loadKeys c f).result d g fun r d' g' =>
      Still d g d' g' ∧ ∀ loaded, r = .ok loaded → loaded.2.Within P ∧
        loaded.2.capacity = c.maxKeys ∧ loaded.1.capacity = c.maxFreeSlots := by
  have hempty := Index.within_empty P c.maxKeys
  have hstill := h.orderly.still_refl g
  unfold loadKeys
  dsimp only
  split
  · refine Action.shadowed_pure ⟨hstill, ?_⟩
    rintro _ ⟨⟩
    exact ⟨hempty, rfl, rfl⟩
  apply Action.shadowed_bind
  apply Action.shadowed_attempt
  refine (RecordFile.shadowed_readAll h.orderly hf.placed h.keysKept).mono ?_
  rintro (e | bytes) d' g' ⟨hs, hb⟩
  · refine Action.shadowed_pure ⟨hs, ?_⟩
    rintro _ ⟨⟩
    exact ⟨hempty, rfl, rfl⟩
  · dsimp only
    cases hof : Index.ofSnapshot bytes c.maxKeys with
    | error fault =>
      refine Action.shadowed_pure ⟨hs, ?_⟩
      rintro _ ⟨⟩
      exact ⟨hempty, rfl, rfl⟩
    | ok loaded =>
      refine Action.shadowed_pure ⟨hs, ?_⟩
      rintro _ ⟨⟩
      obtain ⟨k, hk⟩ := hb bytes rfl
      unfold Index.ofSnapshot at hof
      cases hdec : Index.Snapshot.decode bytes with
      | error fault =>
        rw [hdec] at hof
        cases hof
      | ok es =>
        rw [hdec] at hof
        cases hof
        exact ⟨hempty.insertAll (h.lists k es (hk ▸ hdec)), Index.insertAll_capacity _ _,
          FreeList.releaseAll_capacity _ _⟩

/-- A store that is opened, and the directory if that fails. -/
theorem shadowed_openAt (h : Rooted c D P d g) :
    Shadowed shadow (Store.openAt c).result d g fun r d' g' =>
      Rooted c D P d' g' ∧ Effect (IsOwnName c) d g d' g' ∧
        ∀ s, r = .ok s → Anchored c D P d' g' s ∧ s.index.capacity = c.maxKeys ∧
          s.free.capacity = c.maxFreeSlots ∧ s.pending = none := by
  unfold Store.openAt
  apply Action.shadowed_bind
  apply Action.shadowed_failingAs
  refine h.shadowed_openData.mono ?_
  rintro (e | f) d₁ g₁ ⟨ho₁, hr₁, hf⟩
  · exact ⟨hr₁, ho₁.effect.mono fun _ => .inl, nofun⟩
  have hf := hf f rfl
  have he₁ : Effect (IsOwnName c) d g d₁ g₁ := ho₁.effect.mono fun _ => .inl
  apply Action.shadowed_bind
  apply Action.shadowed_failingAs
  refine hr₁.shadowed_openKeys.mono ?_
  rintro (e | k) d₂ g₂ ⟨ho₂, hr₂, hk⟩
  · exact ⟨hr₂, he₁.trans (ho₂.effect.mono fun _ => .inr), nofun⟩
  have hk := hk k rfl
  have he₂ := he₁.trans (ho₂.effect.mono fun _ => .inr)
  apply Action.shadowed_bind
  refine (shadowed_loadKeys hr₂ hk).mono ?_
  rintro (e | ⟨free, index⟩) d₃ g₃ ⟨hs₃, hw⟩
  · exact ⟨hr₂.still hs₃, he₂.trans hs₃.of_still, nofun⟩
  have he₃ := he₂.trans hs₃.of_still
  obtain ⟨hw, hcap, hfreeCap⟩ := hw _ rfl
  have ha : Anchored c D P d₃ g₃ (Store.mk c.cacheName f k index free none 0) :=
    ⟨hr₂.still hs₃, hf.path, hk.path,
      (hf.placed.frame ho₂.effect c.dataName_ne_keyName).still hs₃, hk.placed.still hs₃, hw⟩
  dsimp only
  split
  · apply Action.shadowed_map
    apply FileAction.shadowed_startingWith
    refine (shadowed_reset ha).mono ?_
    rintro (e | u) ⟨d₄, s₄⟩ g₄ ⟨h₄, -⟩
    · exact ⟨h₄.anchored.rooted, he₃.trans h₄.effect, nofun⟩
    · refine ⟨h₄.anchored.rooted, he₃.trans h₄.effect, ?_⟩
      rintro _ ⟨⟩
      have hnone : s₄.pending = none :=
        Option.not_isSome_iff_eq_none.1 fun hp => Bool.false_ne_true (h₄.later.collecting hp).1
      exact ⟨h₄.anchored, h₄.later.capacity.trans hcap, h₄.later.freeCapacity.trans hfreeCap, hnone⟩
  · refine Action.shadowed_pure ⟨ha.rooted, he₃, ?_⟩
    rintro _ ⟨⟩
    exact ⟨ha, hcap, hfreeCap, rfl⟩

/-- Where nothing fails, the files in their directory can be opened. -/
theorem openAt_total (h : Rooted c D P d g) (hcalm : d.Calm) :
    ∃ s d', (Store.openAt c).result d = (.ok s, d') := by
  have hd := h.orderly.healthy_of_calm hcalm
  obtain ⟨d₁, f, hr₁, hl₁, hf, hfo, hfp⟩ :=
    RecordFile.openAt_spec hd h.data.lodged h.data.noDirectory
  obtain ⟨g₁, -, h₁, -⟩ := h.shadowed_openData.post
  rw [hr₁] at h₁
  obtain ⟨d₂, k, hr₂, hl₂, hk, hko, hkp⟩ :=
    RecordFile.openAt_spec hl₁.healthy h₁.keys.lodged h₁.keys.noDirectory
  obtain ⟨d₃, hr₃, halike⟩ := loadKeys_spec hl₂.healthy hk hko c
  unfold Store.openAt
  rw [Action.result_bind, Action.result_failingAs, hr₁]
  dsimp only [Except.mapError]
  rw [Action.result_bind, Action.result_failingAs, hr₂]
  dsimp only [Except.mapError]
  rw [Action.result_bind, hr₃]
  dsimp only
  split
  · generalize loaded c (bytesAt d₁ (D, c.keyName)) = found
    have hm : Mounted c d₃ (Store.mk c.cacheName f k found.2 found.1 none 0)
        (bytesAt d (D, c.dataName)) (bytesAt d₁ (D, c.keyName)) :=
      ⟨halike.healthy, hfp, hkp,
        ⟨_, rfl, (hf.frame (hl₂.spared c.dataName_ne_keyName) rfl).alike halike⟩,
        ⟨_, rfl, hk.alike halike⟩⟩
    obtain ⟨d₄, s₄, hr₄, -⟩ := reset_spec hm
    rw [Action.result_map, FileAction.result_startingWith, hr₄]
    exact ⟨_, _, rfl⟩
  · exact ⟨_, _, rfl⟩

/-- The two files of a region lie in one directory if both could be opened. -/
theorem sites_of_opened (hc : c.Valid) (hd : d.Orderly) {d₁ d₂ : FileSystem} {f k : RecordFile}
    (hr : (RecordFile.openAt c.dataFile).result d = (.ok f, d₁))
    (hr' : (RecordFile.openAt c.keyFile).result d₁ = (.ok k, d₂)) :
    ∃ D, Site d c.dataFile (D, c.dataName) ∧ Site d c.keyFile (D, c.keyName) := by
  obtain ⟨⟨D, name⟩, rfl, hdata⟩ := site_of_openAt hd hc.steps_dataFile hr
  obtain ⟨g, ho, -⟩ := (RecordFile.shadowed_openAt hd hdata fun n _ => kept_self d n).post
  rw [hr] at ho
  obtain ⟨x, -, hkey⟩ := site_of_openAt ho.effect.orderly hc.steps_keyFile hr'
  have hlodged := hdata.lodged.sibling hc.walk_dataFile hc.walk_keyFile hkey.lodged
  refine ⟨D, hdata, hlodged, fun m hm => ?_⟩
  -- opening the data file has made no directory
  have hlodged' : Lodged d₁ c.keyFile (D, c.keyName) :=
    hlodged.mono fun y m => (ho.effect.directories y m).2
  rw [hkey.lodged.unique hlodged'] at hkey
  exact hkey.noDirectory m ((ho.effect.directories _ m).2 hm)

/-- The two files that a store was opened from lie in one directory. -/
theorem sites_of_openAt (hc : c.Valid) (hd : d.Orderly)
    (h : (Store.openAt c).result d = (.ok s, d')) :
    ∃ D, Site d c.dataFile (D, c.dataName) ∧ Site d c.keyFile (D, c.keyName) := by
  unfold Store.openAt at h
  rw [Action.result_bind, Action.result_failingAs] at h
  rcases hr : (RecordFile.openAt c.dataFile).result d with ⟨e | f, d₁⟩
  · rw [hr] at h
    cases h
  rw [hr] at h
  simp only [Except.mapError] at h
  rw [Action.result_bind, Action.result_failingAs] at h
  rcases hr' : (RecordFile.openAt c.keyFile).result d₁ with ⟨e | k, d₂⟩
  · rw [hr'] at h
    cases h
  · exact sites_of_opened hc hd hr hr'

end Store

end DiskTier
