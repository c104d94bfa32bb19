import DiskTier.Proofs.FreeList.Order
import DiskTier.Proofs.Recount
import DiskTier.Proofs.Upkeep

/-!
# A put that fails

A put takes a free slot before it writes, and gives it back if the write fails. The free list is
then the very one that it was, so nothing is left of the put in memory. Unless a failure was planned
for the write, nothing is left of it in the files either, and all that can happen later happens as
if the put had not been made.
-/

namespace DiskTier

open FileSystem

namespace RecordFile

variable {d d' : FileSystem} {f f' : RecordFile} {offset : UInt64} {bytes : Bytes} {err : FileError}

/-- A write that fails leaves the file value as it was. -/
theorem write_failed (h : (write offset bytes).result (d, f) = (.error err, (d', f'))) :
    f' = f ∧ (f.isOpen = false ∧ err = .closed f.path ∧ d' = d ∨
      f.isOpen ∧ (d.faults d.attempts = none → err = .refused .invalidInput ∧ d' = d.tick ∧
        maxPosition < offset.toNat + bytes.length)) := by
  cases hh : f.handle with
  | none =>
    rw [result_write_closed hh] at h
    cases h
    exact ⟨rfl, .inl ⟨by rw [isOpen, hh]; rfl, rfl, rfl⟩⟩
  | some n =>
    rw [result_write hh] at h
    refine ⟨?_, .inr ⟨by rw [isOpen, hh]; rfl, fun hnone => ?_⟩⟩
    · rcases hw : (writeAt n offset.toNat bytes).result d with ⟨e | u, e'⟩ <;> rw [hw] at h <;>
        cases h
      rfl
    · cases hempty : bytes.isEmpty with
      | true =>
        rw [List.isEmpty_iff.1 hempty] at h
        cases h
      | false =>
        rw [writeAt_eq n offset.toNat hempty, hnone] at h
        by_cases hlt : maxPosition < offset.toNat + bytes.length
        · rw [if_pos hlt] at h
          cases h
          exact ⟨rfl, rfl, hlt⟩
        · rw [if_neg hlt] at h
          cases h

end RecordFile

namespace Store

variable {d d' : FileSystem} {s s' : Store} {k : Key} {record : Bytes} {err : Error}

/-- A place that is given back leaves the store as it was before it was taken. -/
theorem unclaim_claim (hv : s.FreeInOrder) (k : Key) (n : UInt32) :
    (s.claim (s.place k n)).unclaim (s.place k n) = s := by
  unfold place
  split
  · rfl
  · split
    · next slot free hr =>
      show ({ s with free := (free.release slot).2 } : Store) = s
      rw [FreeList.Valid.release_reserve? hv hr]
    · rfl

/-- Why a write to the store fails if no failure is planned for it, and the files that it leaves. -/
inductive WriteRefused (d : FileSystem) (s : Store) (k : Key) (record : Bytes) :
    Error → FileSystem → Prop where
  | tooLarge (h : Slot.maxLength < record.length) :
      WriteRefused d s k record (.recordTooLarge record.length) d
  | closed (h : s.dataFile.isOpen = false) :
      WriteRefused d s k record (.file (.closed s.dataFile.path)) d
  /-- The record would end behind the greatest position of a file. -/
  | beyond {length : UInt32} (hlength : Slot.lengthOf? record = some length)
      (h : maxPosition < (s.place k length).offset.toNat + record.length) :
      WriteRefused d s k record (.file (.refused .invalidInput)) d.tick

/-- A write that fails leaves the store as it was. -/
theorem write_failed (hv : s.FreeInOrder)
    (h : (write k record).result (d, s) = (.error err, (d', s'))) :
    s' = s ∧ (d.faults d.attempts = none → WriteRefused d s k record err d') := by
  by_cases hle : record.length ≤ Slot.maxLength
  · obtain ⟨n, hn⟩ := Slot.lengthOf?_of_le hle
    rw [result_write hn] at h
    dsimp only at h
    have hsame : (s.claim (s.place k n)).dataFile = s.dataFile := by
      obtain ⟨free, hclaim, -⟩ := claim_place hv k n
      rw [hclaim]
    rcases hw : (RecordFile.write (s.place k n).offset record).result
      (d, (s.claim (s.place k n)).dataFile) with ⟨e | u, e', f⟩
    · rw [hw] at h
      cases h
      obtain ⟨rfl, hwhy⟩ := RecordFile.write_failed hw
      rw [hsame] at hwhy
      refine ⟨unclaim_claim hv k n, fun hnone => ?_⟩
      rcases hwhy with ⟨hclosed, rfl, rfl⟩ | ⟨-, hwhy⟩
      · exact .closed hclosed
      · obtain ⟨rfl, rfl, hlt⟩ := hwhy hnone
        exact .beyond hn hlt
    · rw [hw] at h
      cases h
  · have hlength : Slot.lengthOf? record = none := if_neg hle
    unfold write at h
    rw [hlength] at h
    cases h
    exact ⟨rfl, fun _ => .tooLarge (Nat.lt_of_not_le hle)⟩

end Store

namespace Region

variable {d d' : FileSystem} {r r' : Region} {e : Element} {err : Error}

/-- Why a put fails if no failure is planned for it, and the files that it leaves. -/
inductive PutRefused (d : FileSystem) (r : Region) (e : Element) : Error → FileSystem → Prop where
  | notAlive (ha : r.alive = false) : PutRefused d r e (.notAlive r.config.cacheName) d
  | write {err : Error} {d' : FileSystem} (ha : r.alive)
      (h : Store.WriteRefused d r.store e.key e.encode err d') : PutRefused d r e err d'

/-- At most an operation was tried in vain. -/
theorem PutRefused.files (h : PutRefused d r e err d') : d' = d ∨ d' = d.tick := by
  cases h with
  | notAlive => exact .inl rfl
  | write _ h =>
    cases h with
    | tooLarge => exact .inl rfl
    | closed => exact .inl rfl
    | beyond => exact .inr rfl

/-- A put that fails leaves the region as it was. -/
theorem put_failed (hv : r.FreeInOrder)
    (h : (put e).result (d, r) = (.error err, (d', r'))) :
    r' = r ∧ (d.faults d.attempts = none → PutRefused d r e err d') := by
  cases ha : r.alive with
  | false =>
    unfold put at h
    rw [Action.result_bind, result_requireAlive_dead ha] at h
    cases h
    exact ⟨rfl, fun _ => .notAlive ha⟩
  | true =>
    rw [result_put ha] at h
    rcases hw : (Store.write e.key e.encode).result (d, r.store) with ⟨err' | b, e', s⟩
    · rw [hw] at h
      cases h
      obtain ⟨rfl, hwhy⟩ := Store.write_failed hv hw
      exact ⟨rfl, fun hnone => .write ha (hwhy hnone)⟩
    · rw [hw] at h
      cases h

/-- What can happen to one region can happen to the other. The regions stay equal, and so do their
files and the failures to come. -/
def SameRuns (p p' : World) : Prop :=
  ∀ events,
    (∀ q, Run Trial p events q → ∃ q', Run Trial p' events q' ∧ Beside Recounted q q') ∧
    ∀ q', Run Trial p' events q' → ∃ q, Run Trial p events q ∧ Beside Recounted q q'

theorem sameRuns_of_recounted (h : Recounted d d') : SameRuns (d, r) (d', r) := by
  intro events
  refine ⟨fun q hq => hq.recount ⟨h, rfl⟩, fun q' hq' => ?_⟩
  obtain ⟨q, hq, hfiles, hregion⟩ := hq'.recount (⟨h.symm, rfl⟩ : Beside Recounted (d', r) (d, r))
  exact ⟨q, hq, hfiles.symm, hregion.symm⟩

/-- **A put that fails changes nothing.** Whatever failure was planned, the region is the one that
it was: its index, its free list, the lengths of its files, what a compaction has collected, and its
counters. All that is asked of the region is that its free list is in order, as that of every region
is (`Run.freeInOrder`). If no failure was planned for the write, then the region is not alive, or
the record fits no slot, or the data file is closed, or the record would lie behind the greatest
position of a file. The files are then as they were, and whatever can happen from here can happen
from the files before the put, if the failures that are to come are the same. -/
theorem failed_put_changes_nothing (hv : r.FreeInOrder)
    (h : (put e).result (d, r) = (.error err, (d', r'))) :
    r' = r ∧ (d.faults d.attempts = none → PutRefused d r e err d') ∧
      (PutRefused d r e err d' → (d' = d ∨ d' = d.tick) ∧
        ∀ faults, SamePlan { d with faults } d' → SameRuns ({ d with faults }, r) (d', r')) := by
  obtain ⟨rfl, hwhy⟩ := put_failed hv h
  refine ⟨rfl, hwhy, fun hrefused => ⟨hrefused.files, fun faults hplan => ?_⟩⟩
  refine sameRuns_of_recounted ?_
  rcases hrefused.files with rfl | rfl
  · exact ⟨rfl, rfl, rfl, hplan⟩
  · exact ⟨rfl, rfl, rfl, hplan⟩

/-- A region whose data file has been closed. -/
def withoutData (r : Region) : Region :=
  { r with store := { r.store with dataFile := { r.store.dataFile with handle := none } } }

/-- The slot of a removed key is the only free one. A put takes it, finds the data file closed, and
gives it back. -/
theorem closed_file_keeps_free_slot : ∃ (d d' : FileSystem) (r r' : Region),
    r.FreeInOrder ∧ r.store.free.toList = [⟨99, 102⟩] ∧
    (r.store.place (.name "z") 100).isReused ∧
    (put (note "z" [1])).result (d, r) =
      (.error (.file (.closed r.store.dataFile.path)), (d', r')) ∧
    r' = r ∧ PutRefused d r (note "z" [1]) (.file (.closed r.store.dataFile.path)) d' ∧
    SameRuns (d, r) (d', r') := by
  have h : ((opened? (roomFor 2) .empty).map fun p =>
      let q₁ := (Call.put (note "x" [])).perform.result p
      let q₂ := (Call.put (note "y" [1, 2])).perform.result q₁.2
      let q₃ := (Call.remove (.name "y")).perform.result q₂.2
      let r := q₃.2.2.withoutData
      let q₄ := (put (note "z" [1])).result (q₃.2.1, r)
      decide (p.2.size = 0 ∧ q₁.1 = .ok () ∧ q₂.1 = .ok () ∧ q₃.1 = .ok true ∧
        r.store.free.toList = [⟨99, 102⟩] ∧ (r.store.place (.name "z") 100).isReused ∧
        q₄.1 = .error (.file (.closed r.store.dataFile.path)))) = some true := by
    decide +kernel
  obtain ⟨p, hp, h⟩ := Option.map_eq_some_iff.1 h
  obtain ⟨hsize, h₁, h₂, h₃, hfree, hreused, h₄⟩ := of_decide_eq_true h
  have hr := (((Run.nil p).call _ h₁).call _ h₂).call _ h₃
  obtain ⟨data, listed, hsound⟩ := hr.isSound (openedEmpty_of_eq empty_healthy hp hsize)
  obtain ⟨d, r, hv, hcalm, hfree, hreused, h₄⟩ : ∃ (d : FileSystem) (r : Region),
      r.withoutData.FreeInOrder ∧ (∀ i, d.faults i = none) ∧
      r.withoutData.store.free.toList = [⟨99, 102⟩] ∧
      (r.withoutData.store.place (.name "z") 100).isReused ∧
      ((put (note "z" [1])).result (d, r.withoutData)).1 =
        .error (.file (.closed r.withoutData.store.dataFile.path)) :=
    ⟨_, _, hsound.intact.sound.valid, hsound.intact.mounted.healthy.calm, hfree, hreused, h₄⟩
  obtain ⟨⟨d', r'⟩, hput⟩ : ∃ q, (put (note "z" [1])).result (d, r.withoutData) =
      (.error (.file (.closed r.withoutData.store.dataFile.path)), q) := ⟨_, Prod.ext h₄ rfl⟩
  obtain ⟨hsame, hwhy, hlater⟩ := failed_put_changes_nothing hv hput
  have hrefused := hwhy (hcalm _)
  obtain ⟨hfiles, hruns⟩ := hlater hrefused
  have hplan : SamePlan d d' := by
    intro i
    rcases hfiles with rfl | rfl <;> exact (hcalm _).trans (hcalm _).symm
  exact ⟨d, d', r.withoutData, r', hv, hfree, hreused, hput, hsame, hrefused, hruns _ hplan⟩

end Region

end DiskTier
