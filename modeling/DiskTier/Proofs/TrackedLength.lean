import DiskTier.Proofs.ByteArray

/-!
# The tracked length of a record file

A record file is told its length when it is opened and reckons it from then on: every write moves it
to where the write ends, if that lies behind it. This comes to the length of the file, with one
exception. A write of no bytes ends where it begins, and behind the end of the file that is a place
that the file does not reach. How far such writes have moved the tracked length is the `reach` of
what was asked; the tracked length is the length of the file or the reach, whichever is greater.

A write that is broken off adds to the file but not to the tracked length, which then is too small.
-/

namespace DiskTier.RecordFile

open FileSystem

/-! ### How far writes of no bytes have reached -/

/-- Whether the file and its tracked length are level after the event, whatever was before: it was
opened or emptied. An overwrite that fails has emptied the file only if that is what is tracked. -/
def Event.levels (e : Event) : Bool :=
  match e.request with
  | .reopen | .createEmpty | .truncate => e.answer.isOk
  | .overwrite _ => e.answer.isOk || e.length = 0
  | _ => false

/-- How far writes of no bytes have reached after the event, if it was `reach` before. -/
def Event.reach (reach : Nat) (e : Event) : Nat :=
  if e.levels then 0
  else match e.request with
    | .write offset [] => if e.answer.isOk then max reach offset.toNat else reach
    | _ => reach

/-- How far writes of no bytes have reached since the file was opened or emptied. -/
def reach (events : List Event) : Nat := events.foldl Event.reach 0

theorem reach_snoc (events : List Event) (e : Event) :
    reach (events ++ [e]) = e.reach (reach events) := by
  rw [reach, List.foldl_append]
  rfl

/-! ### The tracked length in the account -/

namespace Account

variable {breaks : Prop} {a b : Account} {e : Event} {events : List Event} {n : Nat}

/-- The tracked length of an open file is the end of what was written or `n`, whichever is greater,
and no more than that even if writes are broken off. -/
def Level (breaks : Prop) (n : Nat) (a : Account) : Prop :=
  a.isOpen → a.length ≤ max a.writes.extent n ∧ (¬ breaks → a.length = max a.writes.extent n)

theorem level_of_eq (h : a.length = a.writes.extent) : a.Level breaks 0 := fun _ => by
  rw [h, Nat.max_zero]
  exact ⟨Nat.le_refl _, fun _ => rfl⟩

theorem level_cleared (a : Account) : a.cleared.Level breaks 0 := level_of_eq rfl

theorem Level.put (h : a.Level breaks n) (ho : a.isOpen) {offset : Nat} {bytes : Bytes}
    (hne : bytes ≠ []) : (a.put offset bytes).Level breaks n := by
  intro _
  obtain ⟨hle, heq⟩ := h ho
  show max a.length (offset + bytes.length) ≤ max (Writes.extent ((offset, bytes) :: a.writes)) n ∧
    (¬ breaks → max a.length (offset + bytes.length) =
      max (Writes.extent ((offset, bytes) :: a.writes)) n)
  rw [Writes.extent_cons hne]
  refine ⟨by omega, fun hb => ?_⟩
  rw [heq hb]
  omega

theorem Level.put_nil (h : a.Level breaks n) (ho : a.isOpen) (offset : Nat) :
    (a.put offset []).Level breaks (max n offset) := by
  intro _
  obtain ⟨hle, heq⟩ := h ho
  show max a.length offset ≤ max (Writes.extent ((offset, []) :: a.writes)) (max n offset) ∧
    (¬ breaks → max a.length offset =
      max (Writes.extent ((offset, []) :: a.writes)) (max n offset))
  rw [Writes.extent_cons_nil]
  refine ⟨by omega, fun hb => ?_⟩
  rw [heq hb]
  omega

/-- A write that is broken off may leave the file longer than is tracked, but never shorter. -/
theorem Level.brokenOff (h : a.Level breaks n) (ho : a.isOpen) (hb : breaks) (offset : Nat)
    (bytes : Bytes) : Level breaks n { a with writes := (offset, bytes) :: a.writes } := by
  intro _
  have hext := Writes.extent_le_cons offset bytes a.writes
  refine ⟨?_, fun hn => absurd hb hn⟩
  have hle := (h ho).1
  show a.length ≤ max (Writes.extent ((offset, bytes) :: a.writes)) n
  omega

/-- Where nothing is tracked of an open file, nothing has reached behind its end. -/
theorem Level.of_zero (h : a.Level breaks n) (hzero : a.length = 0) : a.Level breaks 0 := by
  intro ho
  refine ⟨by omega, fun hb => ?_⟩
  have heq := (h ho).2 hb
  omega

/-- An overwrite that fails starts anew where the file is empty. -/
theorem reach_overwrite (n : Nat) (bytes : Bytes) (err : FileError) (length : UInt64) :
    Event.reach n ⟨.overwrite bytes, .error err, length⟩ = if length = 0 then 0 else n := by
  by_cases hzero : length = 0 <;>
    simp [Event.reach, Event.levels, Except.isOk, Except.toBool, hzero]

/-- What one request does to the tracked length. -/
theorem Turn.level (ht : Turn breaks a e.request e.answer b) (hlen : e.length.toNat = b.length)
    (h : a.Level breaks n) : b.Level breaks (e.reach n) := by
  obtain ⟨request, answer, length⟩ := e
  dsimp only at ht hlen
  cases ht with
  | reopened => exact level_of_eq rfl
  | created => exact level_of_eq rfl
  | read => exact h
  | written ho offset bytes =>
    cases bytes with
    | nil => exact h.put_nil ho offset.toNat
    | cons byte bytes => exact h.put ho (List.cons_ne_nil _ _)
  | appended ho slot bytes =>
    by_cases hne : bytes = []
    · subst hne
      have hput : a.put a.length [] = { a with writes := (a.length, []) :: a.writes } := by
        rw [Account.put]
        simp
      rw [hput]
      intro ho'
      rw [Writes.extent_cons_nil]
      exact h ho'
    · exact h.put ho hne
  | overwritten ho bytes =>
    by_cases hne : bytes = []
    · subst hne
      exact level_of_eq rfl
    · exact (level_cleared a).put ho hne
  | truncated => exact level_cleared a
  | synced => exact h
  | closed => exact fun ho => absurd ho Bool.false_ne_true
  | failed _ _ err =>
    cases request with
    | overwrite bytes =>
      rw [reach_overwrite]
      split
      · next hzero =>
        subst hzero
        exact h.of_zero hlen.symm
      · exact h
    | write offset bytes => cases bytes <;> exact h
    | _ => exact h
  | emptied ho bytes err =>
    obtain rfl : length = 0 := UInt64.toNat_inj.1 hlen
    rw [reach_overwrite, if_pos rfl]
    exact level_cleared a
  | @brokenOff hb ho _ _ _ left ht k err =>
    cases request with
    | write offset bytes =>
      cases ht
      cases left <;> exact h.brokenOff ho hb _ _
    | append bytes =>
      cases ht
      exact h.brokenOff ho hb _ _
    | overwrite bytes =>
      cases ht
      obtain rfl : length = 0 := UInt64.toNat_inj.1 hlen
      rw [reach_overwrite, if_pos rfl]
      exact (level_cleared a).brokenOff ho hb _ _
    | _ => cases ht

theorem Kept.level (hk : Kept breaks a events b) (h : a.Level breaks 0) :
    b.Level breaks (reach events) := by
  induction hk with
  | nil => exact h
  | snoc hk ht hlen ih =>
    rw [reach_snoc]
    exact ht.level hlen ih

end Account

/-! ### Runs -/

variable {d : FileSystem} {path : Path} {events : List Event} {q : World}

/-- The tracked length of an open file is the length of the file, or as far as writes of no bytes
have reached since the file was opened or emptied, whichever is greater; it is never more, and it is
less only if a write was broken off. So if no such write reached behind the end of the file, what is
tracked is the length of the file, every slot that ends there or before can be read, and an append
takes the bytes behind the last one. -/
theorem length_is_real (hshort : ∀ n, (d.content n).size ≤ maxPosition)
    (hr : Run (d, unopened path) events q) (ho : q.2.isOpen) :
    q.2.length.toNat ≤ max (seen q).length (reach events) ∧
    (¬ d.BreaksWrites → q.2.length.toNat = max (seen q).length (reach events)) ∧
    (reach events ≤ (seen q).length →
      (¬ d.BreaksWrites → q.2.length.toNat = (seen q).length) ∧
      (∀ slot : Slot, slot.stop ≤ q.2.length.toNat → q.1.faults q.1.attempts = none →
        ((Request.read slot).perform.result q).1 = .ok (.bytes (slot.slice (seen q)))) ∧
      ∀ bytes reply q₁, (Request.append bytes).perform.result q = (.ok reply, q₁) →
        ∃ slot, reply = .slot slot ∧ slot.start = q.2.length.toNat ∧
          (¬ d.BreaksWrites → slot.start = (seen q).length)) := by
  obtain ⟨a, hk, ha, h⟩ := hr.kept (seated_unopened hshort) (describes_first d path)
  have hfirst : (Account.first (seen (d, unopened path))).Level d.BreaksWrites 0 := nofun
  have hlevel := hk.level hfirst (ha.isOpen ▸ ho)
  have hreal : (seen q).length = a.writes.extent := by rw [ha.content, Writes.length_content]
  rw [← ha.length, ← hreal] at hlevel
  obtain ⟨hle, heq⟩ := hlevel
  refine ⟨hle, heq, fun hreach => ?_⟩
  rw [Nat.max_eq_left hreach] at hle heq
  refine ⟨heq, fun slot hstop hnone => ?_, fun bytes reply q₁ happend => ?_⟩
  · have hin : slot.stop ≤ a.writes.extent := hreal ▸ Nat.le_trans hstop hle
    have hshows : a.Shows True slot (a.writes.range slot) := ⟨ha.length ▸ hstop, rfl, fun _ => hin⟩
    have hread := h.read_shown ha hshows (Writes.length_range _ _).symm ho hnone
    rw [hread, ha.content, Writes.slice_content hin]
  · obtain ⟨b, ht, -, -⟩ := h.follows ha (.append bytes)
    rw [happend] at ht
    cases ht with
    | appended _ slot _ hstart _ =>
      have hslot : slot.start = q.2.length.toNat := hstart.trans ha.length.symm
      exact ⟨slot, rfl, hslot, fun hb => hslot.trans (heq hb)⟩

/-- After a gap, a write of no bytes within the file and an append, the tracked length is that of
the file, and all of it can be read. -/
theorem whole_file_is_read :
    let q := after (.empty, unopened ⟨"f"⟩) [.reopen, .write 3 [7], .write 2 [], .append [1]]
    q.2.length.toNat = (seen q).length ∧
      ((Request.read ⟨0, 5⟩).perform.result q).1 = .ok (.bytes [0, 0, 0, 7, 1]) := by
  intro q
  have hr := Run.nil.history (p := (.empty, unopened ⟨"f"⟩))
    [.reopen, .write 3 [7], .write 2 [], .append [1]]
  have hseen : seen q = [0, 0, 0, 7, 1] := by decide +kernel
  have hcalm : ¬ empty.BreaksWrites := by
    rintro ⟨n, fault, hfault, -⟩
    cases hfault
  obtain ⟨-, -, h⟩ := length_is_real (fun _ => Nat.zero_le _) hr (by decide +kernel)
  obtain ⟨hlength, hread, -⟩ := h (by decide +kernel)
  refine ⟨hlength hcalm, (hread ⟨0, 5⟩ (by decide +kernel) (by decide +kernel)).trans ?_⟩
  rw [show seen (after (.empty, unopened ⟨"f"⟩) _) = _ from hseen]
  rfl

/-- After a write of no bytes behind the end of an empty file, ten bytes are tracked where there are
none: the first of them cannot be read, and an append leaves a gap. -/
theorem gap_is_tracked :
    let q := after (.empty, unopened ⟨"f"⟩) [.reopen, .write 10 []]
    q.2.isOpen ∧ q.2.length = 10 ∧ seen q = [] ∧
      ((Request.read ⟨0, 1⟩).perform.result q).1 = .error (.refused .shortRead) ∧
      ((Request.append [7]).perform.result q).1 = .ok (.slot ⟨10, 1⟩) := by
  intro q
  exact ⟨by decide +kernel, by decide +kernel, by decide +kernel, by decide +kernel,
    by decide +kernel⟩

end DiskTier.RecordFile
