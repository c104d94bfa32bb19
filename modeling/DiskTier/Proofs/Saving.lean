import DiskTier.Proofs.Crash

/-!
# A save that is cut short

A save empties the key file and then writes the new listing into it. In between the file holds
nothing, or the beginning of a listing, and neither can be read: if the process ends there, the
region is opened empty, whatever the key file listed before. So the keys of the last save are kept
only if the process ends before the file is emptied, and the new ones only once all of the listing
is on disk.
-/

namespace DiskTier

open FileSystem RecordFile

variable {c : Config} {D : Nat} {P : Key → Prop} {d : FileSystem} {g : Shade} {s : Store}

/-! ### The key file -/

namespace RecordFile

variable {f : RecordFile} {m : Nat} {x : Spot} {bytes : Bytes}

theorem disk_write (hh : f.handle = some m) (hne : bytes.isEmpty = false)
    (hlen : bytes.length ≤ maxPosition) (d : FileSystem) :
    ((write 0 bytes).result (d, f)).2.1 =
      if (written (d.faults d.attempts) bytes).1.isEmpty then d.tick
      else d.tick.setContent m
        ((d.content m).write 0 (written (d.faults d.attempts) bytes).1) := by
  have hshort : ¬ maxPosition < (0 : UInt64).toNat + bytes.length := by
    rw [show (0 : UInt64).toNat = 0 from rfl, Nat.zero_add]
    exact Nat.not_lt.2 hlen
  rw [result_write hh, writeAt_eq m _ hne, if_neg hshort]
  rcases (written (d.faults d.attempts) bytes).2 with e | u <;> rfl

theorem bytesAt_setContent (hx : d.at? x = some (.file m)) (content : Content) :
    bytesAt (d.setContent m content) x = content.toList := by
  have hnodes : (d.setContent m content).at? = d.at? := rfl
  rw [bytesAt_of_nodes hnodes hx, content_setContent, if_pos rfl]

/-- An empty file into which bytes were written holds those of them that were. -/
theorem bytesAt_write (hh : f.handle = some m) (hx : d.at? x = some (.file m))
    (hempty : d.content m = []) (hne : bytes.isEmpty = false) (hlen : bytes.length ≤ maxPosition) :
    bytesAt ((write 0 bytes).result (d, f)).2.1 x = (written (d.faults d.attempts) bytes).1 := by
  rw [disk_write hh hne hlen, hempty]
  split
  · next hnone =>
    have hnodes : d.tick.at? = d.at? := rfl
    rw [bytesAt_of_nodes hnodes hx, content_tick, hempty, List.isEmpty_iff.1 hnone]
    rfl
  · rw [bytesAt_setContent (d := d.tick) hx, Content.toList_write]
    simp

/-- What a file with the bytes `old` holds if it is overwritten with the bytes `new` and the process
ends after `n` operations, when `k` bytes of the next one were done. -/
def leftAfter (n k : Nat) (old new : Bytes) : Bytes :=
  match n with
  | 0 => old
  | 1 => new.take k
  | _ + 2 => new

@[simp] theorem attempts_halting (n k : Nat) (d : FileSystem) :
    (d.halting n k).attempts = d.attempts := rfl

theorem faults_halting_succ (n k : Nat) (d : FileSystem) :
    (d.halting (n + 1) k).faults d.attempts = none :=
  if_pos (Nat.lt_add_of_pos_right (Nat.succ_pos n))

theorem faults_halting_zero (k : Nat) (d : FileSystem) :
    (d.halting 0 k).faults d.attempts = some ⟨.deviceFailure, k⟩ := by
  simp only [halting, Nat.add_zero, Nat.lt_irrefl, if_false, if_true]

theorem bytesAt_truncate_halting (hh : f.handle = some m) (hx : d.at? x = some (.file m))
    (n k : Nat) :
    bytesAt (truncate.result (d.halting n k, f)).2.1 x = leftAfter n k (bytesAt d x) [] := by
  rw [result_truncate hh]
  cases n with
  | zero =>
    rw [attempts_halting, faults_halting_zero]
    rfl
  | succ n =>
    rw [attempts_halting, faults_halting_succ]
    refine (bytesAt_setContent (d := (d.halting (n + 1) k).tick) hx []).trans ?_
    cases n with
    | zero => exact List.take_nil.symm
    | succ n => rfl

theorem bytesAt_overwrite_halting (hh : f.handle = some m) (hx : d.at? x = some (.file m))
    (hne : bytes.isEmpty = false) (hlen : bytes.length ≤ maxPosition) (n k : Nat) :
    bytesAt ((overwrite bytes).result (d.halting n k, f)).2.1 x =
      leftAfter n k (bytesAt d x) bytes := by
  rw [overwrite, Action.result_bind, result_truncate hh]
  cases n with
  | zero =>
    rw [attempts_halting, faults_halting_zero]
    rfl
  | succ n =>
    rw [attempts_halting, faults_halting_succ]
    have hempty : ((d.halting (n + 1) k).tick.setContent m []).content m = [] := by
      rw [content_setContent, if_pos rfl]
    refine (bytesAt_write (f := { f with length := 0 }) (d := (d.halting (n + 1) k).tick.setContent m [])
      hh hx hempty hne hlen).trans ?_
    show (written ((d.halting (n + 1) k).faults (d.attempts + 1)) bytes).1 = _
    cases n with
    | zero => simp [halting, written, leftAfter]
    | succ n => simp [halting, written, leftAfter]

end RecordFile

namespace Store

theorem bytesAt_congr {d' : FileSystem} (h : SameFiles d d') (x : Spot) :
    bytesAt d' x = bytesAt d x := by
  rw [bytesAt, bytesAt, at?_congr h.directories]
  split
  · next n _ => rw [content_congr h.contents]
  · rfl

/-- To force the key file to disk changes no bytes. -/
theorem bytesAt_synced (x : Change Unit) (p : FileSystem × Store) (y : Spot) :
    bytesAt ((do
      x
      let s ← FileAction.value
      FileAction.onDisk .file s.keyFile.sync : Change Unit).result p).2.1 y =
        bytesAt (x.result p).2.1 y := by
  rw [Action.result_bind]
  rcases x.result p with ⟨e | u, q⟩
  · rfl
  · dsimp only
    rw [Action.result_bind, FileAction.result_value]
    dsimp only
    rw [FileAction.result_onDisk]
    exact bytesAt_congr (RecordFile.sameFiles_sync q.2.keyFile q.1) y

/-- Where a save is stopped decides what the key file holds. -/
theorem bytesAt_saveKeys_halting (h : Anchored c D P d g s) (hopen : s.keyFile.isOpen)
    (hlen : (listing s.index.toList).length ≤ maxPosition) (n k : Nat) :
    bytesAt (saveKeys.result (d.halting n k, s)).2.1 (D, c.keyName) =
      leftAfter n k (bytesAt d (D, c.keyName)) (listing s.index.toList) := by
  obtain ⟨m, hm⟩ := Option.isSome_iff_exists.1 hopen
  have hx := h.keyFile.handle m hm
  have hempty := h.within.coherent.isEmpty_iff
  rw [saveKeys, Action.result_bind, FileAction.result_value]
  dsimp only
  split
  · next hnil =>
    rw [bytesAt_synced, result_onKeys, listing, if_pos (hempty.1 hnil)]
    exact bytesAt_truncate_halting hm hx n k
  · next hnil =>
    have hne : listing s.index.toList = s.index.snapshot := if_neg (mt hempty.2 hnil)
    rw [hne] at hlen ⊢
    rw [bytesAt_synced, result_onKeys]
    refine bytesAt_overwrite_halting hm hx ?_ hlen n k
    exact List.isEmpty_eq_false_iff.2 (Index.Snapshot.encode_ne_nil _)

/-- Where the key file is closed a save does nothing. -/
theorem saveKeys_closed (h : s.keyFile.handle = none) (d : FileSystem) :
    (saveKeys.result (d, s)).2.1 = d := by
  rw [saveKeys, Action.result_bind, FileAction.result_value]
  dsimp only
  split
  · rw [Action.result_bind, result_onKeys, result_truncate_closed h]
    rfl
  · rw [Action.result_bind, result_onKeys, overwrite, Action.result_bind, result_truncate_closed h]
    rfl

end Store

/-! ### What is found after a save -/

namespace Region

open Store

variable {p q : World} {events : List Event}

/-- The process ends in a save, after `n` of its operations. If it ends before the first of them,
the region that is opened next is the one that would have been opened before. If it ends before the
listing is on disk, the region is empty, whatever it held. Only after that the keys are found, each
of them in its place. -/
theorem stopped_save (hd : d.Orderly) (ho : (Region.openAt c).result d = (.ok p.2, p.1))
    (hr : Run Trial p events q)
    (hwithin : ∀ e ∈ q.2.store.index.toList,
      e.2.stop ≤ Slot.maxOffset ∧ e.2.stop ≤ (bytesOf q.1 q.2.config.dataFile).length)
    (hlen : (Store.listing q.2.store.index.toList).length ≤ Slot.maxLength) (n k : Nat) :
    ∃ p₀ p₁, opened? q.2.config q.1.calmed = some p₀ ∧
      opened? q.2.config
        (Store.saveKeys.result (q.1.halting n k, q.2.store)).2.1.calmed = some p₁ ∧
      (n = 0 ∨ q.2.store.keyFile.isOpen = false → view p₁ = view p₀) ∧
      (q.2.store.keyFile.isOpen → n = 1 → k < (Store.listing q.2.store.index.toList).length →
        view p₁ = .empty q.2.config) ∧
      (q.2.store.keyFile.isOpen →
        n = 1 ∧ (Store.listing q.2.store.index.toList).length ≤ k ∨ 2 ≤ n →
        p₁.2.store.index.toList = q.2.store.index.toList) := by
  obtain ⟨D, P, g, hq, -⟩ := hr.anchored hd ho
  have hs := hq.store
  have hshort : (Store.listing q.2.store.index.toList).length ≤ maxPosition :=
    Nat.le_trans hlen (by decide)
  rw [bytesOf_eq hs.rooted.data.lodged] at hwithin
  have ha : Store.Anchored q.2.config D P (q.1.halting n k) g q.2.store :=
    hs.replan (halting_truthful n k q.1)
  obtain ⟨g', hremains, -, hrekeyed⟩ := (Store.shadowed_saveKeys ha).post
  have hdata : bytesAt (Store.saveKeys.result (q.1.halting n k, q.2.store)).2.1
      (D, q.2.config.dataName) = bytesAt q.1 (D, q.2.config.dataName) := hrekeyed.data
  obtain ⟨p₀, hp₀, hfound₀⟩ := found_of_rooted hs.rooted hq.valid
  obtain ⟨p₁, hp₁, hfound₁⟩ := found_of_rooted hremains.anchored.rooted hq.valid
  rw [hdata] at hfound₁
  have hkeys := fun hopen => bytesAt_saveKeys_halting hs hopen hshort n k
  refine ⟨p₀, p₁, hp₀, hp₁, fun hsame => ?_, fun hopen hn hk => ?_, fun hopen hn => ?_⟩
  · have hold : bytesAt (Store.saveKeys.result (q.1.halting n k, q.2.store)).2.1
        (D, q.2.config.keyName) = bytesAt q.1 (D, q.2.config.keyName) := by
      cases hopen : q.2.store.keyFile.isOpen with
      | false =>
        rw [saveKeys_closed (Option.not_isSome_iff_eq_none.1 (Bool.eq_false_iff.1 hopen))]
        rfl
      | true =>
        rw [hkeys hopen, hsame.resolve_right (by rw [hopen]; exact nofun)]
        rfl
    rw [hold] at hfound₁
    exact hfound₀.view_eq hfound₁
  · apply hfound₁.empty
    rw [hkeys hopen, hn]
    rcases unreadable_take q.2.store.index.toList k with hall | htorn
    · rw [List.take_eq_self_iff] at hall
      exact absurd hk (Nat.not_lt.2 hall)
    · exact htorn
  · have hnew : bytesAt (Store.saveKeys.result (q.1.halting n k, q.2.store)).2.1
        (D, q.2.config.keyName) = Store.listing q.2.store.index.toList := by
      rw [hkeys hopen]
      rcases hn with ⟨rfl, hall⟩ | hn
      · exact List.take_of_length_le hall
      · obtain ⟨n, rfl⟩ := Nat.exists_eq_add_of_le' hn
        rfl
    rw [hnew] at hfound₁
    by_cases hnil : q.2.store.index.toList = []
    · have hview := hfound₁.empty (by rw [hnil]; exact unreadable_nil)
      rw [hnil, show p₁.2.store.index = _ from congrArg View.index hview]
      rfl
    · have hview := hfound₁.listing.2 hnil hlen hwithin
      have hroom : q.2.store.index.toList.length ≤ q.2.config.maxKeys := by
        rw [← hq.capacity]
        exact hs.within.fits
      rw [show p₁.2.store.index = _ from congrArg View.index hview]
      have hnodup := hs.within.coherent.keys_toList ▸ hs.within.coherent.nodup_keys
      exact (View.listing_of_room hnodup hroom _).1

/-- The keys of a save are found if the process ends after it has written the listing, and even if
that is just before it has forced it to disk. -/
theorem found_once_written : ∃ p q p₁ : World,
    (Region.openAt (roomFor 2)).result .empty = (.ok p.2, p.1) ∧
    Run Trial p [.called (.put (note "x" [1])) (.ok ()), .called .saveKeys (.ok ()),
      .called (.put (note "y" [2])) (.ok ())] q ∧ q.2.store.keyFile.isOpen ∧
    opened? q.2.config (Store.saveKeys.result (q.1.halting 2 0, q.2.store)).2.1.calmed = some p₁ ∧
    p₁.2.store.index.toList = q.2.store.index.toList ∧ q.2.size = 2 := by
  have h : ((opened? (roomFor 2) .empty).map fun p =>
      let q₁ := (Call.put (note "x" [1])).perform.result p
      let q₂ := Call.saveKeys.perform.result q₁.2
      let q := (Call.put (note "y" [2])).perform.result q₂.2
      decide ((q₁.1 = .ok () ∧ q₂.1 = .ok () ∧ q.1 = .ok ()) ∧
        (∀ e ∈ q.2.2.store.index.toList, e.2.stop ≤ Slot.maxOffset ∧
          e.2.stop ≤ (bytesOf q.2.1 q.2.2.config.dataFile).length) ∧
        (Store.listing q.2.2.store.index.toList).length ≤ Slot.maxLength ∧
        q.2.2.store.keyFile.isOpen ∧ q.2.2.size = 2)) = some true := by
    decide +kernel
  obtain ⟨p, hp, h⟩ := Option.map_eq_some_iff.1 h
  obtain ⟨⟨h₁, h₂, h₃⟩, hwithin, hlen, hopen, hsize⟩ := of_decide_eq_true h
  have ho := opened?_eq_some_iff.1 hp
  have hr := (((Run.nil p).ask _ h₁).ask _ h₂).ask _ h₃
  obtain ⟨p₀, p₁, -, hp₁, -, -, hnew⟩ := stopped_save empty_healthy.orderly ho hr hwithin hlen 2 0
  exact ⟨p, _, p₁, ho, hr, hopen, hp₁, hnew hopen (.inr (Nat.le_refl 2)), hsize⟩

/-- One key was saved and a second one was put. If the process ends in the next save when the key
file has been emptied, no key is found, neither of the old listing nor of the new. -/
theorem saved_keys_are_lost : ∃ p q p₀ p₁ p₂ : World,
    (Region.openAt (roomFor 2)).result .empty = (.ok p.2, p.1) ∧
    Run Trial p [.called (.put (note "x" [1])) (.ok ()), .called .saveKeys (.ok ()),
      .called (.put (note "y" [2])) (.ok ())] q ∧
    opened? q.2.config q.1 = some p₀ ∧ p₀.2.store.index.keys = [(note "x" [1]).key] ∧
    opened? q.2.config (Store.saveKeys.result (q.1, q.2.store)).2.1 = some p₂ ∧
    p₂.2.store.index.keys = [(note "x" [1]).key, (note "y" [2]).key] ∧
    opened? q.2.config (Store.saveKeys.result (q.1.halting 1 0, q.2.store)).2.1.calmed = some p₁ ∧
    p₁.2.store.index.keys = [] := by
  have h : ((opened? (roomFor 2) .empty).map fun p =>
      let q₁ := (Call.put (note "x" [1])).perform.result p
      let q₂ := Call.saveKeys.perform.result q₁.2
      let q := (Call.put (note "y" [2])).perform.result q₂.2
      decide ((q₁.1 = .ok () ∧ q₂.1 = .ok () ∧ q.1 = .ok ()) ∧
        (opened? q.2.2.config q.2.1).map (·.2.store.index.keys) = some [(note "x" [1]).key] ∧
        (opened? q.2.2.config (Store.saveKeys.result (q.2.1, q.2.2.store)).2.1).map
          (·.2.store.index.keys) = some [(note "x" [1]).key, (note "y" [2]).key] ∧
        (opened? q.2.2.config
          (Store.saveKeys.result (q.2.1.halting 1 0, q.2.2.store)).2.1.calmed).map
            (·.2.store.index.keys) = some [])) = some true := by
    decide +kernel
  obtain ⟨p, hp, h⟩ := Option.map_eq_some_iff.1 h
  obtain ⟨⟨h₁, h₂, h₃⟩, hbefore, hafter, hstopped⟩ := of_decide_eq_true h
  obtain ⟨p₀, hp₀, hbefore⟩ := Option.map_eq_some_iff.1 hbefore
  obtain ⟨p₂, hp₂, hafter⟩ := Option.map_eq_some_iff.1 hafter
  obtain ⟨p₁, hp₁, hstopped⟩ := Option.map_eq_some_iff.1 hstopped
  exact ⟨p, _, p₀, p₁, p₂, opened?_eq_some_iff.1 hp, (((Run.nil p).ask _ h₁).ask _ h₂).ask _ h₃,
    hp₀, hbefore, hp₂, hafter, hp₁, hstopped⟩

end Region

end DiskTier
