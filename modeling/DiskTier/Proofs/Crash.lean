import DiskTier.Proofs.Admission
import DiskTier.Proofs.Disposal

/-!
# A swap that is cut short

When a draft is installed two files are replaced, one after the other, and the process may end in
between. The key file is emptied first and written last. So if it can be read, it lists what the
data file holds: the old entries beside the old records, or the new ones beside the new records. A
key file that is empty or torn cannot be read, and the region is opened empty.

What an opening finds is a function of the bytes of the two files; what is left to show is which
bytes can lie there.
-/

namespace DiskTier

open FileSystem RecordFile

variable {c : Config} {D : Nat} {P : Key → Prop} {d d' : FileSystem} {g g' : Shade} {s s' : Store}
  {dr : Draft}

/-! ### The end of a process -/

namespace FileSystem

/-- Nothing fails in the next `n` operations, after which the process ends. If it ends in a write,
`k` bytes of that are on disk. -/
def halting (n k : Nat) (d : FileSystem) : FileSystem :=
  { d with faults := fun m =>
      if m < d.attempts + n then none
      else some ⟨.deviceFailure, if m = d.attempts + n then k else 0⟩ }

/-- The process has ended: no operation is carried out any more. -/
def Halted (d : FileSystem) : Prop :=
  ∀ m, d.attempts ≤ m → ∃ fault, d.faults m = some fault ∧ fault.refusal = .deviceFailure

theorem Halted.tick (h : d.Halted) : d.tick.Halted := fun m hm => h m (Nat.le_of_succ_le hm)

theorem Halted.result_operate {α : Type} {f : FileSystem → Except Refusal (α × FileSystem)}
    (h : d.Halted) : (operate f).result d = (.error .deviceFailure, d.tick) := by
  obtain ⟨fault, hfault, hrefusal⟩ := h d.attempts (Nat.le_refl _)
  rw [operate_eq, hfault]
  simp only [hrefusal]

theorem Halted.result_unlinkIfPresent (h : d.Halted) (p : Path) :
    (unlinkIfPresent p).result d = (.error .deviceFailure, d.tick) := by
  rw [unlinkIfPresent, Action.result_bind, Action.result_attempt, unlink, h.result_operate]
  rfl

/-- Once the operation at which the process ends was tried, it has ended. -/
theorem halted_of_attempts {n k : Nat} (hf : d'.faults = (d.halting n k).faults)
    (ha : d.attempts + n < d'.attempts) : d'.Halted := by
  intro m hm
  rw [hf]
  refine ⟨⟨.deviceFailure, if m = d.attempts + n then k else 0⟩, if_neg ?_, rfl⟩
  omega

end FileSystem

theorem RecordFile.halted_close (h : d.Halted) (f : RecordFile) :
    ∃ r d', close.result (d, f) = (r, (d', { f with handle := none })) ∧ SameFiles d d' ∧
      d'.Halted := by
  unfold close
  rw [Action.result_bind, FileAction.result_value]
  obtain ⟨path, _ | n, length⟩ := f
  · exact ⟨_, d, rfl, .refl d, h⟩
  · simp only
    rw [Action.result_bind, FileAction.result_change]
    simp only
    rw [FileAction.result_onDisk, FileSystem.sync, h.result_operate]
    exact ⟨_, d.tick, rfl, sameFiles_tick d, h.tick⟩

/-- A process that has ended gives no draft up. -/
theorem Draft.halted_abandon (h : d.Halted) (dr : Draft) :
    SameFiles d (dr.abandon.result d).2 := by
  obtain ⟨r, d', hr, hsame, hhalted⟩ := RecordFile.halted_close h dr.file
  rw [Draft.abandon, Action.result_regardless, RecordFile.delete, Action.result_bind,
    FileAction.result_startingWith, hr]
  cases r with
  | error e => exact hsame
  | ok u =>
    simp only
    rw [Action.result_lift, hhalted.result_unlinkIfPresent]
    exact hsame.trans (sameFiles_tick d')

/-- A process that has ended resets nothing on disk. -/
theorem Store.halted_reset (h : d.Halted) (s : Store) :
    SameFiles d (Store.reset.result (d, s)).2.1 := by
  obtain ⟨r₁, d₁, hr₁, hsame₁, h₁⟩ := RecordFile.halted_close h s.dataFile
  obtain ⟨r₂, d₂, hr₂, hsame₂, h₂⟩ := RecordFile.halted_close h₁ s.keyFile
  unfold Store.reset
  rw [Action.result_bind, FileAction.result_change]
  simp only
  rw [Action.result_bind, Action.result_regardless, Store.result_onData, Store.forget, hr₁]
  simp only
  rw [Action.result_bind, Action.result_regardless, Store.result_onKeys, hr₂]
  simp only
  rw [Action.result_bind, FileAction.result_value]
  simp only
  rw [Action.result_bind, FileAction.result_onDisk, Action.result_lift, h₂.result_unlinkIfPresent]
  exact hsame₁.trans (hsame₂.trans (sameFiles_tick d₂))

theorem halting_truthful (n k : Nat) (d : FileSystem) : Truthful (d.halting n k).faults := by
  intro m fault hfault
  simp only [halting] at hfault
  split at hfault
  · cases hfault
  · cases hfault
    exact nofun

/-! ### The swap -/

namespace Store

open Draft

/-- The draft takes the place of the data file, and the keys are saved: what `installDraft` does as
long as nothing fails. -/
def swap (dr : Draft) : Change Unit := do
  let index := dr.indexFor (← FileAction.value)
  let _ ← FileAction.onDisk .file (RecordFile.close.startingWith dr.file)
  replace dr.file.path index

/-- The key file cannot be read. -/
def Unreadable (keys : Bytes) : Prop := ∀ entries, Index.Snapshot.decode keys ≠ .ok entries

/-- What lies in the two files when a swap has come to its end or was stopped: what lay there
before, a key file that cannot be read, or the draft and a key file that lists its entries. -/
inductive SwapLeaves (c : Config) (D : Nat) (listed : List (Key × Slot)) (d d' : FileSystem) :
    Prop where
  | old (data : bytesAt d' (D, c.dataName) = bytesAt d (D, c.dataName))
      (keys : bytesAt d' (D, c.keyName) = bytesAt d (D, c.keyName))
  | torn (keys : Unreadable (bytesAt d' (D, c.keyName)))
  | new (data : bytesAt d' (D, c.dataName) = bytesAt d (D, c.draftName))
      (keys : bytesAt d' (D, c.keyName) = listing listed)

theorem unreadable_nil : Unreadable [] := fun _ => decode_nil

/-- A part of a listing cannot be read. -/
theorem unreadable_take (entries : List (Key × Slot)) (k : Nat) :
    (listing entries).take k = listing entries ∨ Unreadable ((listing entries).take k) := by
  by_cases hnil : entries = []
  · left
    rw [listing, if_pos hnil, List.take_nil]
  · rw [listing, if_neg hnil]
    by_cases hall : (Index.Snapshot.encode entries).length ≤ k
    · exact .inl (List.take_of_length_le hall)
    · exact .inr fun es hes => hall (Index.Snapshot.decode_take hes).2

/-- The key file is emptied before any other is touched, and is whole only when the draft has the
name of the data file. -/
theorem shadowed_replace_leaves (h : Anchored c D P d g s) (hk : d.KeptAt g (D, c.draftName))
    {index : Index} (hi : index.Within P) (hcap : index.capacity = s.index.capacity) :
    Shadowed (onFiles shadow) (replace c.draftFile index).result (d, s) g fun r q g' =>
      Compacted c D P d g s q.1 g' q.2 ∧ SwapLeaves c D index.toList d q.1 ∧
        (r = .ok () → bytesAt q.1 (D, c.dataName) = bytesAt d (D, c.draftName) ∧
          bytesAt q.1 (D, c.keyName) = listing index.toList) := by
  rw [replace_eq]
  apply FileAction.shadowed_value_bind
  rw [h.dataPath]
  apply Action.shadowed_bind
  refine (shadowed_moveDraft h hk).mono ?_
  intro r₁ q₁ g₁ hpost₁
  obtain ⟨h₁, herror, hok⟩ := hpost₁
  cases r₁ with
  | error e =>
    obtain ⟨hdata, hsame | ⟨k, hnil⟩, -⟩ := herror e rfl
    · exact ⟨h₁, .old hdata hsame, nofun⟩
    · rw [List.take_nil] at hnil
      exact ⟨h₁, .torn (hnil ▸ unreadable_nil), nofun⟩
  | ok u =>
    obtain ⟨hclosed, -, hdata, hnil⟩ := hok rfl
    refine (shadowed_takeOver h₁.anchored hclosed hi (hcap.trans h₁.later.capacity.symm)).mono ?_
    intro r q g₂ hpost₂
    obtain ⟨h₂, hdata₂, hkeys, hdone⟩ := hpost₂
    refine ⟨h₁.trans h₂.compacted, ?_, fun hr => ⟨hdata₂.trans hdata, hdone hr⟩⟩
    rcases hkeys with hsame | ⟨k, htake⟩
    · exact .torn (hsame.trans hnil ▸ unreadable_nil)
    · rcases unreadable_take index.toList k with hall | htorn
      · exact .new (hdata₂.trans hdata) (htake.trans hall)
      · exact .torn (htake ▸ htorn)

/-- Whatever stops a swap. -/
theorem shadowed_swap (h : Anchored c D P d g s) (hd : Drafted c D d g dr) :
    Shadowed (onFiles shadow) (swap dr).result (d, s) g fun r q g' =>
      Compacted c D P d g s q.1 g' q.2 ∧ SwapLeaves c D (dr.indexFor s).toList d q.1 ∧
        (r = .ok () → bytesAt q.1 (D, c.dataName) = bytesAt d (D, c.draftName) ∧
          bytesAt q.1 (D, c.keyName) = listing (dr.indexFor s).toList) := by
  unfold swap
  apply FileAction.shadowed_value_bind
  apply Action.shadowed_bind
  apply FileAction.shadowed_onDisk
  apply FileAction.shadowed_startingWith
  refine (RecordFile.shadowed_close h.orderly dr.file).mono ?_
  intro r₁ q₁ g₁ hpost₁
  obtain ⟨hs₁, -⟩ := hpost₁
  have h₁ := h.compacted hs₁.of_still
  have hbytes : ∀ x, bytesAt q₁.1 x = bytesAt d x := fun x => hs₁.bytesAt id
  cases r₁ with
  | error e => exact ⟨h₁, .old (hbytes _) (hbytes _), nofun⟩
  | ok u =>
    show Shadowed _ (replace dr.file.path (dr.indexFor s)).result _ _ _
    rw [hd.path]
    refine (shadowed_replace_leaves h₁.anchored (hd.frame hs₁ id).kept
      (h.within.indexFor hd.coherent) (indexFor_capacity dr s)).mono ?_
    intro r q g₂ hpost₂
    obtain ⟨h₂, hleaves, hdone⟩ := hpost₂
    rw [hbytes] at hdone
    refine ⟨h₁.trans h₂, ?_, hdone⟩
    cases hleaves with
    | old hdata hkeys => exact .old (hdata.trans (hbytes _)) (hkeys.trans (hbytes _))
    | torn hkeys => exact .torn hkeys
    | new hdata hkeys => exact .new (hdata.trans (hbytes _)) hkeys

/-- If the process has ended in the swap, to deal with the failure changes nothing on disk. -/
theorem sameFiles_installDraft (hhalted : ((swap dr).result (d, s)).2.1.Halted) :
    SameFiles ((swap dr).result (d, s)).2.1 ((installDraft dr).result (d, s)).2.1 := by
  unfold swap at hhalted ⊢
  rw [Action.result_bind, FileAction.result_value] at hhalted ⊢
  simp only at hhalted ⊢
  rw [Action.result_bind, FileAction.result_onDisk, FileAction.result_startingWith] at hhalted ⊢
  rw [result_installDraft]
  rcases hc : RecordFile.close.result (d, dr.file) with ⟨e | u, d₁, f⟩ <;>
    rw [hc] at hhalted <;> simp only [Except.mapError] at hhalted ⊢
  · exact Draft.halted_abandon hhalted { dr with file.handle := none }
  · rcases hr : (replace dr.file.path (dr.indexFor s)).result (d₁, s) with ⟨e | u, d₂, s₂⟩ <;>
      rw [hr] at hhalted
    · exact halted_reset hhalted s₂
    · exact .refl d₂

end Store

/-! ### What an opening finds -/

namespace Region

open Store

variable {c' : Config} {p q : World} {r : Region} {events : List Event} {data keys : Bytes}
  {listed : List (Key × Slot)}

/-- What there is to know of a region between two calls: its keys with their slots, in order, its
free slots, and what its files hold. -/
structure View where
  index : Index
  free : FreeList
  data : Option Bytes
  keys : Option Bytes

def view (p : World) : View where
  index := p.2.store.index
  free := p.2.store.free
  data := (p.1.contentAt? p.2.config.dataFile).map Content.toList
  keys := (p.1.contentAt? p.2.config.keyFile).map Content.toList

/-- An empty region. Both files are there and have no bytes. -/
def View.empty (c : Config) : View where
  index := .empty c.maxKeys
  free := .empty c.maxFreeSlots
  data := some []
  keys := some []

/-- A region with these entries, as many as it has room for, in a data file with these bytes. The
slots of keys that are too many are free. -/
def View.listing (c : Config) (data : Bytes) (entries : List (Key × Slot)) : View where
  index := ((Index.empty c.maxKeys).insertAll entries).2
  free := (FreeList.empty c.maxFreeSlots).releaseAll
    (((Index.empty c.maxKeys).insertAll entries).1.map (·.2))
  data := some data
  keys := some (Store.listing entries)

/-- A region with room for all entries has them in their order, and no free slots. -/
theorem View.listing_of_room (hnodup : (listed.map (·.1)).Nodup) (hroom : listed.length ≤ c.maxKeys)
    (data : Bytes) : (View.listing c data listed).index.toList = listed ∧
      (View.listing c data listed).free = .empty c.maxFreeSlots := by
  have hdistinct : (((Index.empty c.maxKeys).toList ++ listed).map (·.1)).Nodup := hnodup
  obtain ⟨hdropped, -, hlist, -⟩ :=
    (Index.empty_coherent c.maxKeys).insertAll (Nat.zero_le _) hdistinct
  have hnone : (([] : List (Key × Slot)) ++ listed).length - c.maxKeys = 0 :=
    Nat.sub_eq_zero_of_le hroom
  have hempty : (Index.empty c.maxKeys).toList = [] := rfl
  have hcap : (Index.empty c.maxKeys).capacity = c.maxKeys := rfl
  rw [hempty, hcap, hnone] at hdropped hlist
  refine ⟨hlist, ?_⟩
  rw [View.listing, hdropped]
  rfl

/-- What opening makes of files with these bytes. -/
structure Found (c : Config) (data keys : Bytes) (p : World) : Prop where
  trusted : (∃ entries, Trustworthy c data keys entries) →
    view p = ⟨(loaded c keys).2, (loaded c keys).1, some data, some keys⟩
  untrusted : (¬ ∃ entries, Trustworthy c data keys entries) → view p = .empty c

theorem Found.view_eq {p' : World} (h : Found c data keys p) (h' : Found c data keys p') :
    view p' = view p := by
  by_cases ht : ∃ entries, Trustworthy c data keys entries
  · rw [h.trusted ht, h'.trusted ht]
  · rw [h.untrusted ht, h'.untrusted ht]

/-- Nothing but the bytes of the two files matters for what is opened. -/
theorem found_of_openAt (h : Store.Rooted c D P d g) (hcalm : d.Calm)
    (ho : (Region.openAt c).result d = (.ok r, d')) :
    Found c (bytesAt d (D, c.dataName)) (bytesAt d (D, c.keyName)) (d', r) := by
  obtain ⟨hv, d₁, d₂, hr₁, -, hr₂, hl, hs, hr⟩ := openAt_ok (h.orderly.healthy_of_calm hcalm) ho
  obtain ⟨here, hwalk, -⟩ := h.data.lodged.walk hv.walk_dataFile
  -- what comes before the store is opened leaves its files alone
  obtain ⟨g₁, hs₁⟩ := (h.orderly.shadowed_createDirectories (g := g)
    (h.data.lodged.isPlain.of_join hv.dataName) hwalk).post
  rw [hr₁] at hs₁
  have h₁ := h.still hs₁
  obtain ⟨g₂, he₂⟩ := h₁.shadowed_unlinkDraft.post
  rw [hr₂] at he₂
  have h₂ := h₁.frame he₂
  obtain ⟨data, keys, d₃, s₁, hdata, hkeys, hm, -, hfree, hindex, -, -, hcases⟩ :=
    Store.openAt_ok hv hl.healthy hs
  have hdata' : bytesAt d (D, c.dataName) = data := by
    rw [← hdata _ h₂.data.lodged, he₂.bytesAt c.draftName_ne_dataName.symm, hs₁.bytesAt id]
  have hkeys' : bytesAt d (D, c.keyName) = keys := by
    rw [← hkeys _ h₂.keys.lodged, he₂.bytesAt c.draftName_ne_keyName.symm, hs₁.bytesAt id]
  rw [hdata', hkeys']
  have htrust := trustworthy_iff hv hm hindex
  have hconfig : r.config = c := by rw [hr]
  have hview : ∀ {data keys}, r.store.Mounted c d' data keys →
      view (d', r) = ⟨r.store.index, r.store.free, some data, some keys⟩ := by
    intro data keys hm
    rw [view, hconfig, hm.contentAt?, hm.keysAt?]
  have hempty : r.store.Mounted c d' [] [] → r.store.index = .empty c.maxKeys →
      r.store.free = .empty c.maxFreeSlots → view (d', r) = .empty c := by
    intro hm hi hf
    rw [hview hm, hi, hf]
    rfl
  rcases hcases with ⟨hneeds, hm', -, hi, hf, -⟩ | ⟨hneeds, heq, rfl⟩
  · exact ⟨fun ht => absurd hneeds (htrust.1 ht).2, fun _ => hempty hm' hi hf⟩
  · refine ⟨fun _ => ?_, fun hno => ?_⟩
    · rw [hview (heq ▸ hm), heq, hindex, hfree]
    · have hnil : r.store.index.toList = [] := by
        rw [heq]
        by_contra hne
        exact hno (htrust.2 ⟨hne, hneeds⟩)
      have hcoh : r.store.index.Coherent := by
        rw [heq, hindex]
        exact Store.loaded_coherent c keys
      have hsize : r.store.index.size = 0 := by
        rw [hcoh.size_eq, hnil]
        rfl
      obtain ⟨hm', -, hi, hf, -⟩ := Store.openAt_empty hv hl.healthy hs hsize
      exact hempty hm' hi hf

/-- Files that could be opened before can be opened. -/
theorem found_of_rooted (h : Store.Rooted c D P d g) (hc : c.Valid) :
    ∃ p, opened? c d.calmed = some p ∧
      Found c (bytesAt d (D, c.dataName)) (bytesAt d (D, c.keyName)) p := by
  have hcalm : d.calmed.Calm := fun _ => rfl
  obtain ⟨r, d', ho⟩ := openAt_total h.calmed hcalm hc
  have hfound := found_of_openAt h.calmed hcalm ho
  exact ⟨(d', r), opened?_eq_some_iff.2 ho, hfound⟩

/-- A key file that cannot be read makes an empty region. -/
theorem Found.empty (h : Found c data keys p) (hkeys : Store.Unreadable keys) :
    view p = .empty c :=
  h.untrusted fun ⟨entries, ht⟩ => hkeys entries ht.decodes

theorem loaded_listing (hne : listed ≠ [])
    (hlen : (Store.listing listed).length ≤ Slot.maxLength) (c : Config) (data : Bytes) :
    loaded c (Store.listing listed) =
      ((View.listing c data listed).free, (View.listing c data listed).index) := by
  have hencode : Store.listing listed = Index.Snapshot.encode listed := if_neg hne
  have hsnapshot : Index.ofSnapshot (Index.Snapshot.encode listed) c.maxKeys =
      .ok ((Index.empty c.maxKeys).insertAll listed) := by
    rw [Index.ofSnapshot, Index.Snapshot.decode_encode]
    rfl
  have hread : ¬ (Index.Snapshot.encode listed = [] ∨
      Slot.maxLength < (Index.Snapshot.encode listed).length) := by
    rintro (hnil | hlong)
    · exact Index.Snapshot.encode_ne_nil listed hnil
    · exact absurd hlen (hencode ▸ Nat.not_le.2 hlong)
  rw [hencode, loaded, if_neg hread, hsnapshot]
  rfl

/-- A key file that lists entries makes a region with those, or an empty one; and an empty one only
if there are none, if they are too many for a file that can be read, or if one lies outside the data
file. -/
theorem Found.listing (h : Found c data (Store.listing listed) p) :
    (view p = .empty c ∨ view p = .listing c data listed) ∧
      (listed ≠ [] → (Store.listing listed).length ≤ Slot.maxLength →
        (∀ e ∈ listed, e.2.stop ≤ Slot.maxOffset ∧ e.2.stop ≤ data.length) →
          view p = .listing c data listed) := by
  have hview : (∃ entries, Trustworthy c data (Store.listing listed) entries) →
      view p = .listing c data listed := by
    intro ht
    obtain ⟨entries, hread, hdec, -, -⟩ := id ht
    have hne : listed ≠ [] := by
      rintro rfl
      exact decode_nil hdec
    rw [h.trusted ht, loaded_listing hne hread c data]
    rfl
  refine ⟨?_, fun hne hlen hwithin => hview ⟨listed, hlen, ?_, hne, fun e he => ?_⟩⟩
  · by_cases ht : ∃ entries, Trustworthy c data (Store.listing listed) entries
    · exact .inr (hview ht)
    · exact .inl (h.untrusted ht)
  · rw [show Store.listing listed = _ from if_neg hne, Index.Snapshot.decode_encode]
  · exact hwithin e ((Index.lastEach_sublist listed).subset (List.mem_of_mem_drop he))

/-! ### Regions about to swap -/

/-- A region is about to install a draft: its pass has copied the last keys, or a shutdown has
copied all of them. -/
inductive AboutToSwap (q : World) : FileSystem → Store → Draft → Prop where
  | held {arrange : List Key → List Key} {w : Work} {d : FileSystem} {dr : Draft}
      (harrange : ∀ l, (arrange l).Perm l) (hpass : q.2.pass = some (.running w))
      (halive : q.2.alive) (hcurrent : w.generation = q.2.store.generation) (htodo : w.todo = [])
      (htries : w.tries = 0)
      (hcopied : (w.draft.copyAll { q.2.store with pending := none }
        (arrange (q.2.store.pending.getD []).eraseDups)).result q.1 = (.ok dr, d)) :
      AboutToSwap q d { q.2.store with pending := none } dr
  | shutDown {dr₀ dr : Draft} {d₀ d : FileSystem} (hopen : q.2.closed = false) (halive : q.2.alive)
      (hidle : q.2.compacting = false)
      (hbegun : (Draft.begin q.2.config.draftFile).result q.1 = (.ok dr₀, d₀))
      (hcopied : (dr₀.copyAll q.2.store q.2.store.index.keys).result d₀ = (.ok dr, d)) :
      AboutToSwap q d q.2.store dr

theorem AboutToSwap.anchored (h : Anchored D P q.1 g q.2) (hs : AboutToSwap q d s dr) :
    ∃ g', Store.Anchored q.2.config D P d g' s ∧ Draft.Drafted q.2.config D d g' dr := by
  cases hs with
  | @held arrange w d dr harrange hpass halive hcurrent htodo htries hcopied =>
    obtain ⟨-, -, hdrafted⟩ := h.bound _ hpass
    have h₀ : Store.Anchored q.2.config D P q.1 g { q.2.store with pending := none } :=
      h.store.congr rfl rfl h.store.within
    obtain ⟨g', he, hd⟩ := (Draft.shadowed_copyAll h₀ (hdrafted hcurrent)
      (arrange (q.2.store.pending.getD []).eraseDups)).post
    rw [hcopied] at he hd
    exact ⟨g', h₀.frame he, hd dr rfl⟩
  | @shutDown dr₀ dr d₀ d hopen halive hidle hbegun hcopied =>
    obtain ⟨g₁, he₁, hd₁⟩ := (Draft.shadowed_begin h.store.rooted).post
    rw [hbegun] at he₁ hd₁
    obtain ⟨g₂, he₂, hd₂⟩ := (Draft.shadowed_copyAll (h.store.frame he₁) (hd₁ dr₀ rfl)
      q.2.store.index.keys).post
    rw [hcopied] at he₂ hd₂
    exact ⟨g₂, (h.store.frame he₁).frame he₂, hd₂ dr rfl⟩

/-- Every entry of the index that a draft gives to a store lies in the draft. -/
theorem within_of_drafted (h : Store.Anchored c D P d g s) (hd : Draft.Drafted c D d g dr) :
    ∀ e ∈ (dr.indexFor s).toList, e.2.stop ≤ Slot.maxOffset ∧
      e.2.stop ≤ (bytesAt d (D, c.draftName)).length := by
  intro e he
  obtain ⟨-, -, hlist⟩ := Draft.toList_indexFor hd.coherent s
  rw [hlist] at he
  have hstop := hd.within e.2
    (List.mem_map_of_mem (List.mem_of_mem_filter (List.mem_of_mem_drop he)))
  refine ⟨Nat.le_trans hstop ?_, hstop⟩
  have hlt : maxPosition ≤ Slot.maxOffset := by decide
  refine Nat.le_trans ?_ hlt
  rw [bytesAt]
  split
  · rw [Content.length_toList]
    exact h.orderly.healthy.short _
  · exact Nat.zero_le _

/-- Wherever a swap is stopped, the region that is opened next is the one that would have been
opened before it, or an empty one, or the one with the draft for its data file, which it is if the
swap was carried through and its keys can be read. It takes nothing but the swap to tell: to deal
with a failure changes nothing if the process has ended. -/
theorem swap_is_crash_safe {d₀ : FileSystem} (hd : d₀.Orderly)
    (ho : (Region.openAt c).result d₀ = (.ok p.2, p.1)) (hr : Run Trial p events q)
    (hs : AboutToSwap q d s dr) (hc : c'.validate = .ok ())
    (hname : c'.cacheName = q.2.config.cacheName) (hpath : c'.diskPath = q.2.config.diskPath)
    (n k : Nat) : ∃ p₀ p₁, opened? c' d.calmed = some p₀ ∧
      opened? c' ((swap dr).result (d.halting n k, s)).2.1.calmed = some p₁ ∧
      (view p₁ = view p₀ ∨ view p₁ = .empty c' ∨
        view p₁ = .listing c' (bytesOf d dr.file.path) (dr.indexFor s).toList) ∧
      (((swap dr).result (d.halting n k, s)).1 = .ok () → (dr.indexFor s).toList ≠ [] →
        (Store.listing (dr.indexFor s).toList).length ≤ Slot.maxLength →
          view p₁ = .listing c' (bytesOf d dr.file.path) (dr.indexFor s).toList) ∧
      (d.attempts + n < ((swap dr).result (d.halting n k, s)).2.1.attempts →
        SameFiles ((swap dr).result (d.halting n k, s)).2.1
          ((installDraft dr).result (d.halting n k, s)).2.1) := by
  obtain ⟨D, P, g₁, hq, -⟩ := hr.anchored hd ho
  obtain ⟨g₂, ha, hdr⟩ := hs.anchored hq
  have hdraft : bytesOf d dr.file.path = bytesAt d (D, q.2.config.draftName) := by
    rw [hdr.path]
    exact bytesOf_eq ha.rooted.draft.lodged
  rw [hdraft]
  have hwithin := within_of_drafted ha hdr
  obtain ⟨g₃, hcompacted, hleaves, hdone⟩ :=
    (shadowed_swap (ha.replan (halting_truthful n k d)) (hdr.replan _)).post
  have hvalid := Config.valid_of_validate hc
  obtain ⟨p₀, hp₀, hfound₀⟩ := found_of_rooted (ha.rooted.congr hname hpath) hvalid
  obtain ⟨p₁, hp₁, hfound₁⟩ :=
    found_of_rooted (hcompacted.anchored.rooted.congr hname hpath) hvalid
  refine ⟨p₀, p₁, hp₀, hp₁, ?_, fun hok hne hlen => ?_, fun hend => ?_⟩
  · rw [Config.dataName, Config.keyName, hname] at hfound₀ hfound₁
    cases hleaves with
    | old hdata hkeys =>
      rw [Config.dataName] at hdata
      rw [Config.keyName] at hkeys
      rw [hdata, hkeys] at hfound₁
      exact .inl (hfound₀.view_eq hfound₁)
    | torn hkeys => exact .inr (.inl (hfound₁.empty hkeys))
    | new hdata hkeys =>
      rw [Config.dataName] at hdata
      rw [Config.keyName] at hkeys
      rw [hdata, hkeys] at hfound₁
      exact .inr hfound₁.listing.1
  · obtain ⟨hdata, hkeys⟩ := hdone hok
    rw [Config.dataName] at hdata
    rw [Config.keyName] at hkeys
    rw [Config.dataName, Config.keyName, hname, hdata, hkeys] at hfound₁
    exact hfound₁.listing.2 hne hlen hwithin
  · exact sameFiles_installDraft (halted_of_attempts hcompacted.effect.faults hend)

/-- A key that was saved is found if the process ends before the swap, and not if it ends when the
draft has the name of the data file and the keys have not been saved. -/
theorem stopped_with_empty_key_file : ∃ (p q p₀ p₁ : World) (d : FileSystem) (s : Store)
    (dr : Draft), (Region.openAt (roomFor 2)).result .empty = (.ok p.2, p.1) ∧
    Run Trial p [.called (.put (note "x" [1])) (.ok ()), .called .saveKeys (.ok ()),
      .called .requestCompaction (.ok true), .held false, .held false, .held false] q ∧
    AboutToSwap q d s dr ∧ opened? (roomFor 2) d.calmed = some p₀ ∧ p₀.2.size = 1 ∧
    opened? (roomFor 2) ((swap dr).result (d.halting 5 0, s)).2.1.calmed = some p₁ ∧
    p₁.2.size = 0 ∧ (view p₁ = view p₀ ∨ view p₁ = .empty (roomFor 2) ∨
      view p₁ = .listing (roomFor 2) (bytesOf d dr.file.path) (dr.indexFor s).toList) := by
  have h : ((opened? (roomFor 2) .empty).bind fun p =>
      let q₁ := (Call.put (note "x" [1])).perform.result p
      let q₂ := Call.saveKeys.perform.result q₁.2
      let q₃ := Call.requestCompaction.perform.result q₂.2
      let q₄ := ((holdPass id).run q₃.2).2
      let q₅ := ((holdPass id).run q₄).2
      let q := ((holdPass id).run q₅).2
      q.2.work?.bind fun w =>
        (answer? ((w.draft.copyAll { q.2.store with pending := none }
            (q.2.store.pending.getD []).eraseDups).result q.1)).map fun copied =>
          let s := { q.2.store with pending := none }
          let stopped := (swap copied.1).result (copied.2.halting 5 0, s)
          decide ((q₁.1 = .ok () ∧ q₂.1 = .ok () ∧ q₃.1 = .ok true) ∧
            (decide (q₃.2.2.compactions < q₄.2.compactions) = false ∧
              decide (q₄.2.compactions < q₅.2.compactions) = false ∧
              decide (q₅.2.compactions < q.2.compactions) = false) ∧
            (q.2.alive ∧ w.generation = q.2.store.generation ∧ w.todo = [] ∧ w.tries = 0) ∧
            ((roomFor 2).validate = .ok () ∧ q.2.config.cacheName = "a" ∧
              q.2.config.diskPath = ⟨"d"⟩) ∧
            (opened? (roomFor 2) copied.2.calmed).map (·.2.size) = some 1 ∧
            (opened? (roomFor 2) stopped.2.1.calmed).map (·.2.size) = some 0)) = some true := by
    decide +kernel
  obtain ⟨p, hp, h⟩ := Option.bind_eq_some_iff.1 h
  obtain ⟨w, hw, h⟩ := Option.bind_eq_some_iff.1 h
  obtain ⟨⟨dr, d⟩, hcopied, h⟩ := Option.map_eq_some_iff.1 h
  obtain ⟨⟨h₁, h₂, h₃⟩, ⟨h₄, h₅, h₆⟩, ⟨halive, hcurrent, htodo, htries⟩,
    ⟨hvalid, hname, hpath⟩, hbefore, hafter⟩ := of_decide_eq_true h
  have hid : ∀ l : List Key, (id l).Perm l := fun l => .refl l
  have ho := opened?_eq_some_iff.1 hp
  have hasked := (((Run.nil p).ask _ h₁).ask _ h₂).ask _ h₃
  have hr := ((hasked.hold hid h₄).hold hid h₅).hold hid h₆
  have hs := AboutToSwap.held hid (work?_eq_some_iff.1 hw) halive hcurrent htodo htries
    (answer?_eq_some_iff.1 hcopied)
  obtain ⟨p₀, p₁, hp₀, hp₁, hcases, -⟩ := swap_is_crash_safe empty_healthy.orderly ho hr hs
    hvalid hname.symm hpath.symm 5 0
  rw [hp₀] at hbefore
  rw [hp₁] at hafter
  exact ⟨p, _, p₀, p₁, d, _, dr, ho, hr, hs, hp₀, Option.some.inj hbefore, hp₁,
    Option.some.inj hafter, hcases⟩

end Region

end DiskTier
