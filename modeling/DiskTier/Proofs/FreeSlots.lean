import DiskTier.Proofs.Admission
import DiskTier.Proofs.Installation
import DiskTier.Proofs.Shadow.Region

/-!
# Slots that a key file gives away

A key file that lists more keys than there is room for, or a key twice, gives slots to the free
list. Whether the index leads outside the data file is looked at when a region is opened; the free
list is not looked at. So a slot that is free may lie outside if the key file lists one that does,
and only then: if all that is listed lies within the data file, no later put leads outside until a
compaction gives the region other files.
-/

namespace DiskTier

open FileSystem

namespace Index

variable {i : Index}

/-- Of the slots that are taken in none is lost. -/
theorem Coherent.insertAll_slots (h : i.Coherent) (es : List (Key × Slot)) :
    (i.insertAll es).2.Coherent ∧
      ((i.insertAll es).2.slots ++ (i.insertAll es).1.map (·.2)).Perm
        (i.slots ++ es.map (·.2)) := by
  obtain ⟨hcoh, hperm⟩ := h.insertAll_perm es
  refine ⟨hcoh, ?_⟩
  rw [slots, slots, ← List.map_append, ← List.map_append]
  exact (hperm.map _).symm

end Index

namespace RecordFile

variable {d : FileSystem} {f : RecordFile} {offset : UInt64} {bytes : Bytes}

/-- A write that succeeds has reached a position that a file can have. -/
theorem shadowed_write_bounded (hne : bytes.isEmpty = false) :
    Shadowed (onFiles unchanged) (write offset bytes).result (d, f) () fun r q _ =>
      (∀ e, r = .error e → q.2 = f) ∧
      (r = .ok () → q.2 = { f with length := max f.length (endOf offset bytes.length) } ∧
        offset.toNat + bytes.length ≤ maxPosition) := by
  unfold write
  apply shadowed_openNumber_bind
  · exact ⟨fun _ _ => rfl, nofun⟩
  intro n _
  apply Action.shadowed_bind
  apply FileAction.shadowed_onDisk
  refine ⟨(), rfl, ?_⟩
  rw [writeAt_eq n offset.toNat hne]
  by_cases hlt : maxPosition < offset.toNat + bytes.length
  · rw [if_pos hlt]
    exact ⟨fun _ _ => rfl, nofun⟩
  · rw [if_neg hlt]
    rcases (written (d.faults d.attempts) bytes).2 with e | u
    · exact ⟨fun _ _ => rfl, nofun⟩
    · exact FileAction.shadowed_change ⟨nofun, fun _ => ⟨rfl, Nat.not_lt.1 hlt⟩⟩

end RecordFile

namespace Store

variable {α : Type} {c : Config} {d d' : FileSystem} {s s' : Store} {k : Key}

/-! ### Stores that do not lead outside -/

/-- Every slot of the store, be it that of a key or free, ends within the data file. -/
structure Bounded (s : Store) : Prop where
  coherent : s.index.Coherent
  valid : s.free.Valid
  within : ∀ slot ∈ s.slots, slot.stop ≤ s.dataFile.length.toNat

theorem Bounded.congr (h : s.Bounded) (hi : s'.index = s.index) (hf : s'.free = s.free)
    (hl : s'.dataFile.length = s.dataFile.length) : s'.Bounded := by
  have hslots : s'.slots = s.slots := by rw [slots, slots, hi, hf]
  exact ⟨hi ▸ h.coherent, hf ▸ h.valid, fun t ht => hl ▸ h.within t (hslots ▸ ht)⟩

/-- A store that gives up slots leads no further. -/
theorem Bounded.shrink (h : s.Bounded) (hc : s'.index.Coherent) (hv : s'.free.Valid)
    (hslots : s'.slots ⊆ s.slots) (hl : s'.dataFile.length = s.dataFile.length) : s'.Bounded :=
  ⟨hc, hv, fun t ht => hl ▸ h.within t (hslots ht)⟩

theorem bounded_of_empty {capacity freeCapacity : Nat} (hi : s.index = .empty capacity)
    (hf : s.free = .empty freeCapacity) : s.Bounded := by
  refine ⟨hi ▸ Index.empty_coherent _, hf ▸ FreeList.empty_valid _, ?_⟩
  rw [slots, Index.slots, hi, hf]
  rintro t ⟨⟩

theorem Bounded.removeWhere (h : s.Bounded) (p : Key → Bool) : (s.removeWhere p).2.Bounded :=
  h.shrink (h.coherent.removeWhere p).2.1 (h.valid.releaseAll _).1
    (removeWhere_slots h.coherent h.valid p).subset rfl

theorem Bounded.remove (h : s.Bounded) (k : Key) : (s.remove k).2.Bounded := by
  unfold Store.remove
  split
  · exact h.removeWhere _
  · split
    · exact h
    · next slot index hr =>
      have hc := h.coherent.remove k
      rw [hr] at hc
      exact h.shrink hc (h.valid.release slot).1 (removeKey_slots h.coherent h.valid hr).subset rfl

/-- The place of a record, as far as it is none at the end of the file, is one that the store has;
to claim it makes the free list no longer. -/
theorem Bounded.claim (h : s.Bounded) (k : Key) (n : UInt32) :
    (s.claim (s.place k n)).Bounded ∧
      (s.claim (s.place k n)).dataFile.length = s.dataFile.length ∧
      ((s.place k n).offset = s.dataFile.length ∨
        (s.place k n).offset.toNat + n.toNat ≤ s.dataFile.length.toNat) := by
  unfold place
  cases hold : (s.index.get? k).filter (n ≤ ·.length) with
  | some t =>
    obtain ⟨hget, hle⟩ := Option.filter_eq_some_iff.1 hold
    have hmem : t ∈ s.slots := List.mem_append_left _
      (List.mem_map.2 ⟨(k, t), h.coherent.mem_toList_iff.2 hget, rfl⟩)
    have hle := UInt32.le_iff_toNat_le.1 (of_decide_eq_true hle)
    refine ⟨h.congr rfl rfl rfl, rfl, .inr (Nat.le_trans ?_ (h.within t hmem))⟩
    exact Nat.add_le_add_left hle _
  | none =>
    cases hfree : s.free.reserve? n with
    | none => exact ⟨h.congr rfl rfl rfl, rfl, .inl rfl⟩
    | some p =>
      obtain ⟨t, free⟩ := p
      obtain ⟨hle, hperm, hvalid, -⟩ := h.valid.reserve? hfree
      have hle := UInt32.le_iff_toNat_le.1 hle
      have hsub : ({ s with free } : Store).slots ⊆ s.slots := by
        intro u hu
        rcases List.mem_append.1 hu with hu | hu
        · exact List.mem_append_left _ hu
        · exact List.mem_append_right _ (hperm.mem_iff.2 (List.mem_cons_of_mem t hu))
      have hmem : t ∈ s.slots :=
        List.mem_append_right _ (hperm.mem_iff.2 List.mem_cons_self)
      refine ⟨h.shrink h.coherent hvalid hsub rfl, rfl, .inr (Nat.le_trans ?_ (h.within t hmem))⟩
      exact Nat.add_le_add_left hle _

/-- Installing a slot that ends within the data file leads to no other place. -/
theorem Bounded.install (h : s.Bounded) {f : RecordFile} {slot : Slot}
    (hl : s.dataFile.length.toNat ≤ f.length.toNat) (hslot : slot.stop ≤ f.length.toNat) (k : Key) :
    (({ s with dataFile := f } : Store).install k slot).Bounded := by
  obtain ⟨-, -, hc, -⟩ := h.coherent.insert k slot
  refine ⟨hc, (install_valid h.valid k slot).1, fun t ht => ?_⟩
  have ht := (install_slots (s := { s with dataFile := f }) h.coherent h.valid k slot).subset ht
  rcases List.mem_cons.1 ht with rfl | ht
  · exact hslot
  · exact Nat.le_trans (h.within t ((besides_subperm h.coherent k slot).subset ht)) hl

/-- To give a place back makes no slot free that the store did not have. -/
theorem Bounded.unclaim (h : s.Bounded) (k : Key) (n : UInt32) :
    ((s.claim (s.place k n)).unclaim (s.place k n)).Bounded := by
  obtain ⟨hclaimed, -⟩ := h.claim k n
  unfold place at hclaimed ⊢
  split
  · exact h.congr rfl rfl rfl
  · split
    · next t free hr =>
      obtain ⟨-, hperm, hvalid, -⟩ := h.valid.reserve? hr
      obtain ⟨hv, -, hsub⟩ := hvalid.release t
      refine h.shrink h.coherent hv (fun u hu => ?_) rfl
      rcases List.mem_append.1 hu with hu | hu
      · exact List.mem_append_left _ hu
      · exact List.mem_append_right _ (hperm.mem_iff.2 (hsub.subset hu))
    · exact h.congr rfl rfl rfl

theorem shadowed_write_bounded (h : s.Bounded) (k : Key) {record : Bytes}
    (hne : record.isEmpty = false) :
    Shadowed (onFiles unchanged) (write k record).result (d, s) () fun _ q _ => q.2.Bounded := by
  unfold write
  split
  · exact Action.shadowed_throw h
  next n hn =>
  obtain ⟨hclaimed, hlength, hplace⟩ := h.claim k n
  have hunclaimed := h.unclaim k n
  apply FileAction.shadowed_value_bind
  apply FileAction.shadowed_change_bind
  apply Action.shadowed_bind
  apply Action.shadowed_attempt
  apply shadowed_onData
  refine (RecordFile.shadowed_write_bounded hne).mono ?_
  rintro (e | u) ⟨d', f⟩ ⟨⟩ ⟨herror, hok⟩
  · obtain rfl := herror e rfl
    apply FileAction.shadowed_change_bind
    exact Action.shadowed_throw (hunclaimed.congr rfl rfl rfl)
  · obtain ⟨rfl, hpos⟩ := hok rfl
    apply FileAction.shadowed_change_bind
    refine Action.shadowed_pure (hclaimed.install ?_ ?_ k)
    · rw [UInt64.toNat_max]
      exact Nat.le_max_left _ _
    · have hlen : n.toNat = record.length := Slot.lengthOf?_eq_some_iff.1 hn
      have hmax : maxPosition ≤ Slot.maxOffset := by decide
      have hend : (RecordFile.endOf (s.place k n).offset record.length).toNat =
          (s.place k n).offset.toNat + record.length := by
        rw [RecordFile.endOf, Nat.min_eq_left (by omega)]
        exact UInt64.toNat_ofNat_of_lt' (Nat.lt_of_le_of_lt (Nat.le_trans hpos hmax) (by decide))
      rw [UInt64.toNat_max, hend, Slot.stop, hlen]
      exact Nat.le_max_right _ _

/-- Whatever becomes of its files, a store that was reset has no slots. -/
theorem shadowed_reset_bounded (s : Store) :
    Shadowed (onFiles unchanged) Store.reset.result (d, s) () fun _ q _ => q.2.Bounded :=
  (shadowed_reset_forgets s).mono fun _ _ _ h => bounded_of_empty h.1 h.2.1

theorem shadowed_saveKeys_bounded (h : s.Bounded) :
    Shadowed (onFiles unchanged) saveKeys.result (d, s) () fun _ q _ => q.2.Bounded := by
  have hsync : ∀ (d : FileSystem) (f : RecordFile), Shadowed (onFiles unchanged)
      (do let s ← FileAction.value; FileAction.onDisk .file s.keyFile.sync : Change Unit).result
      (d, { s with keyFile := f }) () fun _ q _ => q.2.Bounded := by
    intro d f
    apply FileAction.shadowed_value_bind
    apply FileAction.shadowed_onDisk
    refine (shadowed_anyhow _ _).mono ?_
    rintro - d' ⟨⟩ -
    exact h.congr rfl rfl rfl
  unfold saveKeys
  apply FileAction.shadowed_value_bind
  split
  all_goals
    apply Action.shadowed_bind
    apply shadowed_onKeys
    refine (FileAction.shadowed_anyhow _ _).mono ?_
    rintro (e | u) ⟨d', f⟩ ⟨⟩ -
    · exact h.congr rfl rfl rfl
    · exact hsync d' f

/-- Unless it is carried through, a compaction leaves the slots as they are or takes them all. -/
theorem shadowed_installDraft_bounded (h : s.Bounded) (dr : Draft) :
    Shadowed (onFiles unchanged) (installDraft dr).result (d, s) () fun r q _ =>
      (∃ e, r = .error e) → q.2.Bounded := by
  unfold installDraft
  apply FileAction.shadowed_value_bind
  apply Action.shadowed_bind
  apply Action.shadowed_attempt
  apply FileAction.shadowed_onDisk
  refine (shadowed_anyhow _ _).mono ?_
  rintro (e | u) d₁ ⟨⟩ -
  · apply Action.shadowed_bind
    apply FileAction.shadowed_onDisk
    refine (shadowed_anyhow _ _).mono ?_
    rintro (e | u) d₂ ⟨⟩ -
    · exact fun _ => h
    · exact Action.shadowed_throw fun _ => h
  apply Action.shadowed_bind
  apply Action.shadowed_attempt
  refine (FileAction.shadowed_anyhow _ _).mono ?_
  rintro (e | u) ⟨d₂, s₂⟩ ⟨⟩ -
  · apply Action.shadowed_bind
    refine (shadowed_reset_bounded s₂).mono ?_
    rintro (e | u) ⟨d₃, s₃⟩ ⟨⟩ h₃
    · exact fun _ => h₃
    · exact Action.shadowed_throw fun _ => h₃
  · refine Action.shadowed_pure ?_
    rintro ⟨e, ⟨⟩⟩

end Store

/-! ### Holds -/

namespace Pass

variable {d : FileSystem} {s : Store} {arrange : List Key → List Key}

/-- What a hold leads to. -/
abbrev Harmless (progress : Progress) (s : Store) : Prop := progress ≠ .over true → s.Bounded

theorem shadowed_giveUp_bounded (h : s.Bounded) (dr : Draft) :
    Shadowed (onFiles unchanged) (abandon dr >>= fun _ => pure (.over false)).run (d, s) ()
      fun progress q _ => Harmless progress q.2 := by
  refine ⟨(), rfl, ?_⟩
  rw [run_bind, run_abandon]
  exact fun _ => h

theorem shadowed_copyOne_bounded (h : s.Bounded) (k : Key) (w : Work) :
    Shadowed (onFiles unchanged) (copyOne k w).run (d, s) () fun progress q _ =>
      Harmless progress q.2 := by
  unfold copyOne
  apply shadowed_store_bind
  apply shadowed_bind
  apply FileAction.shadowed_onDisk
  refine (shadowed_anyhow _ _).mono ?_
  rintro (e | dr) d' ⟨⟩ -
  · exact shadowed_pure fun _ => h
  · exact shadowed_pure fun _ => h

theorem shadowed_finish_bounded (h : s.Bounded) (w : Work) :
    Shadowed (onFiles unchanged) (finish arrange w).run (d, s) () fun progress q _ =>
      Harmless progress q.2 := by
  have h₀ : ({ s with pending := none } : Store).Bounded := h.congr rfl rfl rfl
  unfold finish
  apply shadowed_store_bind
  apply shadowed_setStore_bind
  apply shadowed_store_bind
  apply shadowed_bind
  apply FileAction.shadowed_onDisk
  refine (shadowed_anyhow _ _).mono ?_
  rintro (e | dr) d₁ ⟨⟩ -
  · exact shadowed_giveUp_bounded h₀ w.draft
  · apply shadowed_bind
    refine (Store.shadowed_installDraft_bounded h₀ dr).mono ?_
    rintro (e | u) ⟨d₂, s₂⟩ ⟨⟩ h₂
    · exact shadowed_pure fun _ => h₂ ⟨e, rfl⟩
    · exact shadowed_pure fun hne => absurd rfl hne

/-- A hold that does not install the draft leads to no place outside the data file. -/
theorem shadowed_hold_bounded (arrange : List Key → List Key) (h : s.Bounded) (draftFile : Path)
    (alive : Bool) (pass : Pass) :
    Shadowed (onFiles unchanged) (pass.hold arrange draftFile alive).run (d, s) ()
      fun progress q _ => Harmless progress q.2 := by
  cases pass with
  | requested =>
    rw [hold]
    split
    · unfold start
      apply shadowed_store_bind
      apply shadowed_setStore_bind
      have h₁ : ({ s with pending := some [] } : Store).Bounded := h.congr rfl rfl rfl
      apply shadowed_bind
      apply FileAction.shadowed_onDisk
      refine (shadowed_anyhow _ _).mono ?_
      rintro (e | dr) d' ⟨⟩ -
      · exact shadowed_pure fun _ => h₁
      · exact shadowed_pure fun _ => h₁
    · exact shadowed_pure fun _ => h
  | running w =>
    rw [hold]
    apply shadowed_store_bind
    split
    · unfold work
      cases htodo : w.todo with
      | cons k ks => exact shadowed_copyOne_bounded h k _
      | nil =>
        cases htries : w.tries with
        | zero => exact shadowed_finish_bounded h w
        | succ n =>
          apply shadowed_store_bind
          cases htake : s.takePending with
          | none => exact shadowed_pure fun _ => h
          | some taken =>
            obtain ⟨k, s₁⟩ := taken
            obtain ⟨ks, -, rfl⟩ := takePending_eq htake
            have h₁ : ({ s with pending := some ks } : Store).Bounded := h.congr rfl rfl rfl
            apply shadowed_setStore_bind
            exact shadowed_copyOne_bounded h₁ k _
    · exact shadowed_giveUp_bounded h w.draft
  | stopping generation draft =>
    obtain ⟨pending, hs⟩ := stopCollecting_eq generation s
    have h₁ : (s.stopCollecting generation).Bounded := by
      rw [hs]
      exact h.congr rfl rfl rfl
    rw [hold]
    apply shadowed_store_bind
    apply shadowed_setStore_bind
    cases draft with
    | none => exact shadowed_pure fun _ => h₁
    | some dr => exact shadowed_giveUp_bounded h₁ dr

end Pass

/-! ### Regions -/

namespace Region

variable {α : Type} {c : Config} {d d' : FileSystem} {r r' : Region} {p q : World} {e : Event}
  {events : List Event}

/-- An event that leaves the region the data file that it has, or makes a new one with nothing in
it. -/
def Event.keepsFile : Event → Prop
  | .held installed => installed = false
  | .shutDown => False
  | .reopened _ => False
  | _ => True

theorem encode_isEmpty (e : Element) : e.encode.isEmpty = false := by
  rw [List.isEmpty_eq_false_iff]
  exact e.encode_ne_nil

theorem shadowed_reset_bounded (h : r.store.Bounded) :
    Shadowed (onFiles unchanged) Region.reset.result (d, r) () fun _ q _ => q.2.store.Bounded := by
  unfold Region.reset
  apply shadowed_requireAlive_bind
  swap
  · exact fun _ => h
  intro _
  apply shadowed_onStore
  exact Store.shadowed_reset_bounded r.store

theorem shadowed_lookup_bounded (h : r.store.Bounded) (k : Key) :
    Shadowed (onFiles unchanged) (lookup k).result (d, r) () fun _ q _ => q.2.store.Bounded := by
  unfold lookup
  apply FileAction.shadowed_value_bind
  split
  swap
  · exact Action.shadowed_pure h
  apply Action.shadowed_bind
  apply Action.shadowed_attempt
  apply FileAction.shadowed_onDisk
  refine (shadowed_anyhow _ _).mono ?_
  rintro (e | _ | e) d' ⟨⟩ -
  · apply FileAction.shadowed_change_bind
    exact Action.shadowed_throw h
  · apply FileAction.shadowed_change_bind
    exact Action.shadowed_pure h
  · apply FileAction.shadowed_change_bind
    exact Action.shadowed_pure h

theorem bounded_removeBy {f : Store → Bool × Store} (h : r.store.Bounded)
    (hf : (f r.store).2.Bounded) : (r.removeBy f).2.store.Bounded := by
  cases ha : r.alive with
  | false =>
    rw [removeBy_dead ha]
    exact h
  | true =>
    rw [(removeBy_eq ha f).2.1]
    exact hf

theorem shadowed_perform_bounded (h : r.store.Bounded) (call : Call α) :
    Shadowed (onFiles unchanged) call.perform.result (d, r) () fun _ q _ =>
      q.2.store.Bounded := by
  cases call with
  | put e =>
    show Shadowed (onFiles unchanged) (put e).result (d, r) () _
    unfold put
    apply shadowed_requireAlive_bind
    swap
    · exact fun _ => h
    intro _
    apply Action.shadowed_bind
    apply shadowed_onStore
    refine (Store.shadowed_write_bounded h e.key (encode_isEmpty e)).mono ?_
    rintro (err | reused) ⟨d', s⟩ ⟨⟩ hs
    · exact hs
    · dsimp only
      split
      · exact FileAction.shadowed_change hs
      · exact Action.shadowed_pure hs
  | get k =>
    show Shadowed (onFiles unchanged) (Region.get k).result (d, r) () _
    unfold Region.get
    apply Action.shadowed_bind
    apply Action.shadowed_attempt
    refine (shadowed_lookup_bounded h k).mono ?_
    rintro (e | found) ⟨d₁, r₁⟩ ⟨⟩ h₁
    · apply Action.shadowed_bind
      apply Action.shadowed_regardless
      refine (shadowed_reset_bounded h₁).mono ?_
      rintro a ⟨d₂, r₂⟩ ⟨⟩ h₂
      exact Action.shadowed_throw h₂
    · exact Action.shadowed_pure h₁
  | groupKeys name => exact ⟨(), rfl, h⟩
  | remove k => exact shadowed_change (bounded_removeBy h (h.remove k))
  | removeGroup group => exact shadowed_change (bounded_removeBy h (h.removeWhere _))
  | reset => exact shadowed_reset_bounded h
  | saveKeys =>
    show Shadowed (onFiles unchanged) Region.saveKeys.result (d, r) () _
    unfold Region.saveKeys
    apply shadowed_requireAlive_bind
    swap
    · exact fun _ => h
    intro _
    apply shadowed_onStore
    exact Store.shadowed_saveKeys_bounded h
  | size => exact ⟨(), rfl, h⟩
  | stats => exact ⟨(), rfl, h⟩
  | requestCompaction =>
    refine shadowed_change ?_
    rw [(requestCompaction_eq r).1]
    exact h

theorem bounded_holdPass (h : r.store.Bounded) (arrange : List Key → List Key)
    (hi : ¬ r.compactions < ((holdPass arrange).run (d, r)).2.2.compactions) :
    ((holdPass arrange).run (d, r)).2.2.store.Bounded := by
  cases hpass : r.pass with
  | none =>
    rw [holdPass_none arrange hpass]
    exact h
  | some pass =>
    obtain ⟨⟨⟩, hs⟩ := (Pass.shadowed_hold_bounded (d := d) arrange h r.config.draftFile r.alive
      pass).post
    rcases hr : (pass.hold arrange r.config.draftFile r.alive).run (d, r.store) with
      ⟨pass' | installed, d', s'⟩
    · rw [hr] at hs
      rw [holdPass_next hpass hr]
      exact hs nofun
    · rw [hr] at hs
      rw [holdPass_over hpass hr] at hi ⊢
      cases installed with
      | true => exact absurd (Nat.lt_succ_self _) hi
      | false => exact hs nofun

/-- As long as the region keeps its data file, no slot leads outside. -/
theorem Step.bounded (h : p.2.store.Bounded) (hs : Step p e q) (he : e.keepsFile) :
    q.2.store.Bounded := by
  cases hs with
  | called call p =>
    obtain ⟨-, hb⟩ := (shadowed_perform_bounded (d := p.1) h call).post
    exact hb
  | looked k p =>
    obtain ⟨-, hb⟩ := (shadowed_lookup_bounded (d := p.1) h k).post
    exact hb
  | held harrange p =>
    exact bounded_holdPass h _ (by simpa [Event.keepsFile] using he)
  | died d r => exact h
  | shutDown p => cases he
  | reopened hname hpath hopen => cases he

theorem Run.bounded (h : p.2.store.Bounded) (hr : Run Step p events q)
    (hevents : ∀ e ∈ events, e.keepsFile) : q.2.store.Bounded := by
  induction hr with
  | nil => exact h
  | snoc hr hs ih =>
    exact hs.bounded (ih fun e he => hevents e (List.mem_append_left _ he)) (hevents _ (by simp))

end Region

/-! ### What a key file gives away -/

namespace Store

variable {c : Config} {d d' : FileSystem} {s : Store} {keys : Bytes}

/-- The slots that a key file lists; none if it cannot be read. -/
def listedSlots (keys : Bytes) : List Slot :=
  match Index.Snapshot.decode keys with
  | .ok entries => entries.map (·.2)
  | .error _ => []

/-- No slot comes from elsewhere than the key file, and none is given out twice. -/
theorem loaded_slots (c : Config) (keys : Bytes) :
    (loaded c keys).1.Valid ∧
      ((loaded c keys).2.slots ++ (loaded c keys).1.toList).Subperm (listedSlots keys) := by
  unfold loaded
  dsimp only
  split
  · exact ⟨FreeList.empty_valid _, List.nil_subperm⟩
  rw [Index.ofSnapshot, listedSlots]
  rcases Index.Snapshot.decode keys with fault | entries
  · exact ⟨FreeList.empty_valid _, List.nil_subperm⟩
  obtain ⟨-, hperm⟩ := (Index.empty_coherent c.maxKeys).insertAll_slots entries
  obtain ⟨hvalid, -, hfree⟩ := (FreeList.empty_valid c.maxFreeSlots).releaseAll
    (((Index.empty c.maxKeys).insertAll entries).1.map (·.2))
  refine ⟨hvalid, ?_⟩
  rw [FreeList.toList_empty, List.append_nil] at hfree
  exact ((List.subperm_append_left _).2 hfree).trans hperm.subperm

/-- The slots of a store that is opened are from its key file; those of its keys lie within the data
file. -/
theorem slots_of_openAt (hc : c.Valid) (hd : d.Healthy)
    (ho : (Store.openAt c).result d = (.ok s, d')) :
    s.index.Coherent ∧ s.free.Valid ∧
      (∀ slot ∈ s.index.slots, slot.isWithin s.dataFile.length.toNat) ∧
      s.slots.Subperm (listedSlots (Region.bytesOf d' c.keyFile)) := by
  obtain ⟨data, keys, d₁, s₁, -, -, hm, -, hfree, hindex, -, -, hcases⟩ := openAt_ok hc hd ho
  rcases hcases with ⟨-, -, -, hi, hf, -⟩ | ⟨hneeds, rfl, rfl⟩
  · have hnone : s.slots = [] := by
      rw [slots, hi, hf]
      rfl
    rw [hnone, hi, hf]
    refine ⟨Index.empty_coherent _, FreeList.empty_valid _, ?_, List.nil_subperm⟩
    rintro slot ⟨⟩
  · obtain ⟨hvalid, hsub⟩ := loaded_slots c keys
    have hcoh := loaded_coherent c keys
    have hkeys : Region.bytesOf d' c.keyFile = keys := by rw [Region.bytesOf, hm.keysAt?]; rfl
    rw [hkeys, slots]
    rw [← hindex] at hcoh hsub
    rw [← hfree] at hvalid hsub
    refine ⟨hcoh, hvalid, fun slot hslot => ?_, hsub⟩
    obtain ⟨e, he, rfl⟩ := List.mem_map.1 hslot
    -- an index with a slot is not empty, so where it leads was looked at
    rw [needsReset, hcoh.isEmpty_eq_false (List.ne_nil_of_mem he)] at hneeds
    have hconsistent : s.isConsistent := by simpa using hneeds
    exact List.all_eq_true.1 hconsistent e he

end Store

namespace Region

variable {c : Config} {d : FileSystem} {p : World}

/-- The slots of a region that is opened are those that its key file lists, some left out. Those of
keys lie within the data file. If the free ones do, too, then this stays so, and no place for a
record lies outside, until a compaction gives the region another file. -/
theorem opened_slots_stay_inside (hd : d.Healthy) (ho : opened? c d = some p) :
    (∀ slot ∈ p.2.store.index.slots, slot.isWithin p.2.store.dataFile.length.toNat) ∧
      p.2.store.slots.Subperm (Store.listedSlots (bytesOf p.1 c.keyFile)) ∧
      ((∀ slot ∈ p.2.store.free.toList, slot.isWithin p.2.store.dataFile.length.toNat) →
        ∀ {events q}, Run Step p events q → (∀ e ∈ events, e.keepsFile) →
          (∀ slot ∈ q.2.store.slots, slot.stop ≤ q.2.store.dataFile.length.toNat) ∧
          ∀ k n, (q.2.store.place k n).offset = q.2.store.dataFile.length ∨
            (q.2.store.place k n).offset.toNat + n.toNat ≤ q.2.store.dataFile.length.toNat) := by
  obtain ⟨hc, d₁, d₂, -, -, -, hl, hs, -⟩ := openAt_ok hd (opened?_eq_some_iff.1 ho)
  obtain ⟨hcoh, hvalid, hindex, hsub⟩ := Store.slots_of_openAt hc hl.healthy hs
  refine ⟨hindex, hsub, fun hfree events q hr hevents => ?_⟩
  have hp : p.2.store.Bounded := by
    refine ⟨hcoh, hvalid, fun slot hslot => ?_⟩
    rcases List.mem_append.1 hslot with h | h
    · exact (Slot.isWithin_iff.1 (hindex slot h)).2
    · exact (Slot.isWithin_iff.1 (hfree slot h)).2
  have hq := hr.bounded hp hevents
  exact ⟨hq.within, fun k n => (hq.claim k n).2.2⟩

/-- Of two saved keys there is room for one; the slot of the other is free, and takes the next
record. -/
theorem freed_slot_is_used_again : ∃ (d : FileSystem) (p q : World), d.Healthy ∧
    opened? (roomFor 1) d = some p ∧
    (∀ slot ∈ p.2.store.index.slots, slot.isWithin p.2.store.dataFile.length.toNat) ∧
    p.2.store.slots.Subperm (Store.listedSlots (bytesOf p.1 (roomFor 1).keyFile)) ∧
    p.2.store.free.toList = [⟨0, 102⟩] ∧ q.2.store.index.slots = [⟨0, 99⟩] ∧
    ∀ slot ∈ q.2.store.slots, slot.stop ≤ q.2.store.dataFile.length.toNat := by
  have h : ((opened? (roomFor 2) .empty).bind fun p =>
      let q₁ := (Call.put (note "x" [1, 2])).perform.result p
      let q₂ := (Call.put (note "y" [1])).perform.result q₁.2
      let q₃ := Call.saveKeys.perform.result q₂.2
      (opened? (roomFor 1) q₃.2.1).map fun q =>
        let q₄ := (Call.put (note "z" [])).perform.result q
        decide (p.2.size = 0 ∧ q₁.1 = .ok () ∧ q₂.1 = .ok () ∧ q₃.1 = .ok () ∧ q₄.1 = .ok () ∧
          q.2.store.free.toList = [⟨0, 102⟩] ∧ q₄.2.2.store.index.slots = [⟨0, 99⟩] ∧
          ∀ slot ∈ q.2.store.free.toList, slot.isWithin q.2.store.dataFile.length.toNat)) =
        some true := by
    decide +kernel
  obtain ⟨p, hp, h⟩ := Option.bind_eq_some_iff.1 h
  obtain ⟨q, hq, h⟩ := Option.map_eq_some_iff.1 h
  obtain ⟨hsize, h₁, h₂, h₃, h₄, hfree, hend, hwithin⟩ := of_decide_eq_true h
  have hr := (((Run.nil p).call _ h₁).call _ h₂).call _ h₃
  obtain ⟨data, listed, hsound⟩ := hr.isSound (openedEmpty_of_eq empty_healthy hp hsize)
  have hd := hsound.intact.mounted.healthy
  obtain ⟨hindex, hsub, hstay⟩ := opened_slots_stay_inside hd hq
  obtain ⟨hbounds, -⟩ := hstay hwithin ((Run.nil q).call _ h₄) (by simp [Event.keepsFile])
  exact ⟨_, q, _, hd, hq, hindex, hsub, hfree, hend, hbounds⟩

/-- A slot far outside of a small data file, and then one that lies inside. -/
def farAndNear : List (Key × Slot) := [(.name "x", ⟨1000000, 500⟩), (.name "y", ⟨0, 3⟩)]

/-- The files of a region of which others wrote both. Their numbers are those that the first two
files get in an empty directory. -/
def misled (d : FileSystem) : FileSystem :=
  (d.setContent 2 [.ofBytes [0, 0, 0]]).setContent 3
    [.ofBytes (Index.Snapshot.encode farAndNear)]

/-- The slot of a key that finds no room may lie outside the data file; the next record goes
there. -/
theorem free_slot_leads_outside : ∃ (d : FileSystem) (p q : World),
    (roomFor 1).validate = .ok () ∧ d.Healthy ∧
    Store.listedSlots (bytesOf d (roomFor 1).keyFile) = farAndNear.map (·.2) ∧
    opened? (roomFor 1) d = some p ∧ p.2.store.dataFile.length = 3 ∧
    p.2.store.index.slots = [⟨0, 3⟩] ∧ p.2.store.free.toList = [⟨1000000, 500⟩] ∧
    Run Step p [.called (.put (note "z" [])) (.ok ())] q ∧
    q.2.store.index.slots = [⟨1000000, 99⟩] := by
  have h : ((opened? (roomFor 1) .empty).bind fun p =>
      (opened? (roomFor 1) (misled p.1)).map fun q =>
        let q₁ := (Call.put (note "z" [])).perform.result q
        decide (p.2.size = 0 ∧ q₁.1 = .ok () ∧ (roomFor 1).validate = .ok () ∧
          Store.listedSlots (bytesOf (misled p.1) (roomFor 1).keyFile) = farAndNear.map (·.2) ∧
          q.2.store.dataFile.length = 3 ∧ q.2.store.index.slots = [⟨0, 3⟩] ∧
          q.2.store.free.toList = [⟨1000000, 500⟩] ∧
          q₁.2.2.store.index.slots = [⟨1000000, 99⟩])) = some true := by
    decide +kernel
  obtain ⟨p, hp, h⟩ := Option.bind_eq_some_iff.1 h
  obtain ⟨q, hq, h⟩ := Option.map_eq_some_iff.1 h
  obtain ⟨hsize, h₁, hvalid, hlisted, hlength, hindex, hfree, hend⟩ := of_decide_eq_true h
  have hsound := (Sound.of_openedEmpty (openedEmpty_of_eq empty_healthy hp hsize)).1
  have hd := hsound.intact.mounted.healthy
  have hshort : (Index.Snapshot.encode farAndNear).length ≤ maxPosition := by decide +kernel
  have hmisled : (misled p.1).Healthy := by
    refine (hd.setContent 2 ?_).setContent 3 ?_
    · decide
    · exact hshort
  exact ⟨_, q, _, hvalid, hmisled, hlisted, hq, hlength, hindex, hfree, (Run.nil q).call _ h₁,
    hend⟩

end Region

end DiskTier
