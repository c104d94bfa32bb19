import DiskTier.Proofs.Account
import DiskTier.Proofs.Isolation
import DiskTier.Proofs.Recovery
import DiskTier.Proofs.Saving

/-!
# A record file is an array of bytes

Whatever is asked of the file at a path that nobody else touches, in whatever order and with
whatever failures, is answered as the account says, and the file holds what the account says. No
invariant of a store is used: writes may overlap, leave gaps, and begin anywhere.

One thing is not as it should be. A write of no bytes behind the end moves the tracked length there,
although the file stays as long as it was. A record without bytes that is then appended lies outside
the file, and can no longer be read once the file is opened anew.
-/

namespace DiskTier

open FileSystem

variable {α : Type} {breaks : Prop} {d d' : FileSystem} {p : Path} {n : Nat}

namespace FileSystem

/-- Some write is planned to fail when some of its bytes are on disk. -/
def BreaksWrites (d : FileSystem) : Prop := ∃ n fault, d.faults n = some fault ∧ 0 < fault.written

theorem breaksWrites_of_take {bytes : Bytes} {fault : PlannedFault}
    (hf : d.faults d.attempts = some fault) (hne : bytes.take fault.written ≠ []) :
    d.BreaksWrites := by
  refine ⟨d.attempts, fault, hf, Nat.pos_of_ne_zero fun h => hne ?_⟩
  rw [h, List.take_zero]

/-- The path of a file that could be opened ends at a name. -/
theorem exists_lodged_of_openFile (h : (openFile p).result d = (.ok n, d')) :
    ∃ x, Lodged d p x := by
  have hf := operate_ok h
  rw [resolve_congr (show d.tick.directories = d.directories from rfl)] at hf
  cases hr : d.resolve p with
  | error e =>
    rw [hr] at hf
    cases hf
  | ok place =>
    rw [hr] at hf
    cases place with
    | within here => cases hf
    | entry here name =>
      simp only [bind, Except.bind] at hf
      cases hplain : p.isDirectoryForm with
      | true =>
        rw [hplain] at hf
        cases hf
      | false =>
        by_cases hlong : Path.maxNameLength < Utf8.size name
        · simp only [hplain, find, if_pos hlong, Bool.false_eq_true, if_false] at hf
          cases hf
        · exact ⟨(here.directory, name), ⟨here, hr, rfl⟩, Nat.not_lt.1 hlong, hplain⟩

/-- A file that is opened was there, or it is made and has no bytes. -/
theorem of_openFile (h : (openFile p).result d = (.ok n, d')) :
    d'.look p = .ok (some (.file n)) ∧
      (d.look p = .ok (some (.file n)) ∧ d' = d.tick ∨
        d.contentAt? p = none ∧ d'.content n = [] ∧ d'.faults = d.faults ∧
          ∀ m, m ≠ n → d'.content m = d.content m) := by
  obtain ⟨x, hl⟩ := exists_lodged_of_openFile h
  rw [openFile_eq hl] at h
  split at h
  · cases h
  · split at h
    · cases h
    · next m hx =>
      cases h
      exact ⟨hl.tick.look hx, .inl ⟨hl.look hx, rfl⟩⟩
    · next hx =>
      cases h
      have hat : (d.tick.create x.1 x.2).2.at? x = some (.file d.nextNumber) := by
        rw [at?_create, if_pos rfl]
        rfl
      have hmono : Lodged (d.tick.create x.1 x.2).2 p x := by
        refine hl.mono fun y m hy => ?_
        rw [at?_create, if_neg]
        · exact hy
        · rintro rfl
          rw [hx] at hy
          cases hy
      refine ⟨hmono.look hat, .inr ⟨?_, ?_, rfl, fun m hm => ?_⟩⟩
      · rw [hl.contentAt?_eq, hx]
      · rw [content_create]
        exact if_pos rfl
      · rw [content_create]
        exact if_neg hm

end FileSystem

namespace RecordFile

variable {f f' : RecordFile} {q q' : World} {a b : Account} {request : Request} {bytes : Bytes}
  {offset : UInt64}

/-! ### What lies at the path -/

/-- The bytes at the path of the file; none if there is no file. -/
def seen (p : World) : Bytes := ((p.1.contentAt? p.2.path).map Content.toList).getD []

theorem seen_of_look (h : d.look f.path = .ok (some (.file n))) :
    seen (d, f) = (d.content n).toList := by
  rw [seen, contentAt?, h]
  rfl

theorem seen_tick (d : FileSystem) (f : RecordFile) : seen (d.tick, f) = seen (d, f) := by
  rw [seen, seen, contentAt?, contentAt?, look_tick]
  rfl

/-- An open file is the one at its path, no file is too long, and writes are broken off only if
`breaks`. -/
structure Seated (breaks : Prop) (p : World) : Prop where
  short : ∀ n, (p.1.content n).size ≤ maxPosition
  plan : p.1.BreaksWrites → breaks
  lies : ∀ n, p.2.handle = some n → p.1.look p.2.path = .ok (some (.file n))

theorem Seated.tick (h : Seated breaks (d, f)) : Seated breaks (d.tick, f) := by
  refine ⟨h.short, h.plan, fun n hn => ?_⟩
  rw [look_tick]
  exact h.lies n hn

/-- The open file may be made to hold anything that is not too long. -/
theorem Seated.setContent (h : Seated breaks (d, f)) (hh : f.handle = some n) {c : Content}
    (hc : c.size ≤ maxPosition) (hhandle : f'.handle = f.handle) (hpath : f'.path = f.path) :
    Seated breaks (d.tick.setContent n c, f') ∧ seen (d.tick.setContent n c, f') = c.toList := by
  have hlook : (d.tick.setContent n c).look f'.path = .ok (some (.file n)) := by
    rw [look_congr (show (d.tick.setContent n c).directories = d.directories from rfl), hpath]
    exact h.lies n hh
  refine ⟨⟨fun m => ?_, h.plan, fun m hm => ?_⟩, ?_⟩
  · rw [content_setContent]
    split
    · exact hc
    · exact h.short m
  · obtain rfl : n = m := Option.some.inj ((hhandle.trans hh).symm.trans hm)
    exact hlook
  · rw [seen_of_look hlook, content_setContent, if_pos rfl]

/-- A file that was opened, perhaps in vain, holds what it held. -/
theorem Seated.openFile (h : Seated breaks (d, f))
    (ho : (openFile f.path).result d = (.ok n, d')) :
    d'.look f.path = .ok (some (.file n)) ∧ Seated breaks (d', f) ∧
      seen (d', f) = seen (d, f) := by
  obtain ⟨hlook, ⟨hthere, rfl⟩ | ⟨hnone, hempty, hfaults, hcontent⟩⟩ := of_openFile ho
  · exact ⟨hlook, h.tick, seen_tick d f⟩
  · refine ⟨hlook, ⟨fun m => ?_, fun hb => h.plan ?_, fun m hm => ?_⟩, ?_⟩
    · by_cases hm : m = n
      · rw [hm, hempty]
        exact Nat.zero_le _
      · rw [hcontent m hm]
        exact h.short m
    · rwa [BreaksWrites, hfaults] at hb
    · have := h.lies m hm
      rw [contentAt?, this] at hnone
      cases hnone
    · rw [seen_of_look hlook, hempty, seen, hnone]
      rfl

/-! ### The account and the file -/

/-- The file is as the account says. -/
structure Account.Describes (a : Account) (p : World) : Prop where
  content : seen p = a.writes.content
  length : p.2.length.toNat = a.length
  isOpen : p.2.isOpen = a.isOpen

/-- A request was answered as the account allows, and the file is as the account then says. -/
def Account.Follows (breaks : Prop) (a : Account) (request : Request)
    (r : Except FileError Reply × World) : Prop :=
  ∃ b, a.Turn breaks request r.1 b ∧ b.Describes r.2 ∧ Seated breaks r.2

theorem Account.Describes.congr (ha : a.Describes (d, f)) (h : seen (d', f) = seen (d, f)) :
    a.Describes (d', f) := ⟨h.trans ha.content, ha.length, ha.isOpen⟩

theorem Account.Describes.tick (ha : a.Describes (d, f)) : a.Describes (d.tick, f) :=
  ha.congr (seen_tick d f)

/-- A request that fails and changes nothing. -/
theorem Seated.follows_refused (h : Seated breaks q) (ha : a.Describes q) (request : Request)
    (hne : request ≠ .close) (e : FileError) : a.Follows breaks request (.error e, q) :=
  ⟨a, .failed request hne e, ha, h⟩

theorem Account.Describes.size_content (h : Seated breaks (d, f)) (ha : a.Describes (d, f))
    (hh : f.handle = some n) : (d.content n).toList = a.writes.content ∧
      (d.content n).size = a.writes.extent := by
  have hcontent : (d.content n).toList = a.writes.content :=
    (seen_of_look (h.lies n hh)).symm.trans ha.content
  exact ⟨hcontent, by rw [← Content.length_toList, hcontent, Writes.length_content]⟩

/-! ### Looking -/

theorem result_looking (x : RecordFile → Action FileSystem FileError α) (p : World) :
    (looking x).result p = (((x p.2).result p.1).1, (((x p.2).result p.1).2, p.2)) := by
  rw [looking, Action.result_bind, FileAction.result_value]
  simp only
  rw [FileAction.result_onDisk]
  rcases (x p.2).result p.1 with ⟨e | r, d'⟩ <;> rfl

theorem Seated.follows_read (h : Seated breaks (d, f)) (ha : a.Describes (d, f)) (slot : Slot) :
    a.Follows breaks (.read slot) ((Request.read slot).perform.result (d, f)) := by
  have hleaves := f.read_leaves slot d
  rw [Request.perform, Action.result_map, result_looking]
  rcases hr : (f.read slot).result d with ⟨e | bytes, d'⟩ <;> rw [hr] at hleaves <;>
    dsimp only at hleaves ⊢
  · rcases hleaves with rfl | rfl
    · exact h.follows_refused ha (.read slot) Request.noConfusion e
    · exact h.tick.follows_refused ha.tick (.read slot) Request.noConfusion e
  · obtain ⟨n, hh, hin, hsize, rfl⟩ := of_read_ok hr
    obtain ⟨hcontent, hextent⟩ := ha.size_content h hh
    have ho : a.isOpen := by rw [← ha.isOpen, RecordFile.isOpen, hh]; rfl
    have hreal : slot.length.toNat ≠ 0 → slot.stop ≤ a.writes.extent := fun hl =>
      hextent ▸ hsize hl
    have hrange : slot.slice (d.content n).toList = a.writes.range slot := by
      rw [hcontent]
      by_cases hl : slot.length.toNat = 0
      · rw [Slot.slice, hl, List.take_zero, Writes.range_of_empty hl]
      · exact Writes.slice_content (hreal hl)
    refine ⟨a, ?_, ?_⟩
    · simp only [Except.map, hrange]
      exact .read ho slot (ha.length ▸ (Slot.isWithin_iff.1 hin).2) hreal
    · rcases hleaves with rfl | rfl
      · exact ⟨ha, h⟩
      · exact ⟨ha.tick, h.tick⟩

/-- What comes of forcing the file to disk. -/
theorem sync_leaves (f : RecordFile) (d : FileSystem) :
    (∃ e, f.sync.result d = (.error e, d)) ∨ (∃ r, f.sync.result d = (r, d.tick) ∧ f.isOpen) := by
  rw [RecordFile.sync, Action.result_bind, Action.result_liftM, number, isOpen]
  cases f.handle with
  | none => exact .inl ⟨_, rfl⟩
  | some n =>
    refine .inr ?_
    simp only [Action.result_lift]
    rw [FileSystem.sync, operate_eq]
    cases d.faults d.attempts with
    | some fault => exact ⟨_, rfl, rfl⟩
    | none => exact ⟨_, rfl, rfl⟩

theorem Seated.follows_sync (h : Seated breaks (d, f)) (ha : a.Describes (d, f)) :
    a.Follows breaks .sync (Request.sync.perform.result (d, f)) := by
  rw [Request.perform, Action.result_map, result_looking]
  rcases sync_leaves f d with ⟨e, hr⟩ | ⟨e | r, hr, ho⟩ <;> rw [hr]
  · exact h.follows_refused ha .sync Request.noConfusion e
  · exact h.tick.follows_refused ha.tick .sync Request.noConfusion e
  · exact ⟨a, .synced (ha.isOpen ▸ ho), ha.tick, h.tick⟩

/-! ### Writing -/

/-- What becomes of the bytes of the open file when others are written into it. -/
theorem Seated.writeAt (h : Seated breaks (d, f)) (ha : a.Describes (d, f)) (hh : f.handle = some n)
    (hne : bytes ≠ []) {offset : Nat} (hle : offset + bytes.length ≤ maxPosition)
    (f' : RecordFile) (hhandle : f'.handle = f.handle) (hpath : f'.path = f.path) :
    Seated breaks (d.tick.setContent n ((d.content n).write offset bytes), f') ∧
      seen (d.tick.setContent n ((d.content n).write offset bytes), f') =
        Writes.content ((offset, bytes) :: a.writes) := by
  obtain ⟨hcontent, hextent⟩ := ha.size_content h hh
  have hsize : ((d.content n).write offset bytes).size ≤ maxPosition := by
    rw [size_write]
    exact Nat.max_le.2 ⟨h.short n, hle⟩
  obtain ⟨hseated, hseen⟩ := h.setContent hh hsize hhandle hpath
  refine ⟨hseated, hseen.trans ?_⟩
  rw [Content.toList_write, hcontent, hextent, Writes.content_cons hne]

/-- Where the tracked length comes to lie. -/
theorem toNat_length_write (f : RecordFile) (offset : UInt64) {size : Nat}
    (h : size = 0 ∨ offset.toNat + size ≤ maxPosition) :
    (max f.length (endOf offset size)).toNat = max f.length.toNat (offset.toNat + size) := by
  rw [toNat_max]
  rcases h with rfl | hle
  · have hoffset : offset.toNat ≤ Slot.maxOffset := Nat.le_of_lt_succ offset.toNat_lt
    rw [endOf, Nat.add_zero, Nat.min_eq_left hoffset, UInt64.ofNat_toNat]
  · rw [toNat_endOf hle]

/-- What a write leaves: all of its bytes if it succeeds, else none or the first ones. -/
theorem Seated.write (h : Seated breaks (d, f)) (ha : a.Describes (d, f)) (ho : f.isOpen)
    (offset : UInt64) (bytes : Bytes) :
    ∃ r q, (write offset bytes).result (d, f) = (r, q) ∧ Seated breaks q ∧
      (r = .ok () ∧ (a.put offset.toNat bytes).Describes q ∨
        ∃ e, r = .error e ∧ (a.Describes q ∨
          breaks ∧ ∃ k, Account.Describes
            { a with writes := (offset.toNat, bytes.take k) :: a.writes } q)) := by
  obtain ⟨n, hh⟩ := Option.isSome_iff_exists.1 ho
  rw [result_write hh]
  by_cases hne : bytes = []
  · -- of no bytes nothing is asked, but the tracked length may grow
    subst hne
    refine ⟨_, _, rfl, ⟨h.short, h.plan, h.lies⟩, .inl ⟨rfl, ?_, ?_, ha.isOpen⟩⟩
    · exact ha.content.trans (Writes.content_cons_nil _ _).symm
    · exact (toNat_length_write f offset (.inl rfl)).trans (by rw [ha.length]; rfl)
  · rw [writeAt_eq n _ (List.isEmpty_eq_false_iff.2 hne)]
    by_cases hlt : maxPosition < offset.toNat + bytes.length
    · rw [if_pos hlt]
      exact ⟨_, _, rfl, h.tick, .inr ⟨_, rfl, .inl ha.tick⟩⟩
    · rw [if_neg hlt]
      cases hfault : d.faults d.attempts with
      | none =>
        obtain ⟨hseated, hseen⟩ := h.writeAt ha hh hne (Nat.not_lt.1 hlt)
          { f with length := max f.length (endOf offset bytes.length) } rfl rfl
        simp only [written, List.isEmpty_iff, hne, if_false]
        refine ⟨_, _, rfl, hseated, .inl ⟨rfl, hseen, ?_, ha.isOpen⟩⟩
        exact (toNat_length_write f offset (.inr (Nat.not_lt.1 hlt))).trans (by rw [ha.length]; rfl)
      | some fault =>
        simp only [written, List.isEmpty_iff]
        by_cases hkept : bytes.take fault.written = []
        · rw [if_pos hkept]
          exact ⟨_, _, rfl, h.tick, .inr ⟨_, rfl, .inl ha.tick⟩⟩
        · rw [if_neg hkept]
          have hle : offset.toNat + (bytes.take fault.written).length ≤ maxPosition := by
            have := List.length_take_le' fault.written bytes
            omega
          obtain ⟨hseated, hseen⟩ := h.writeAt ha hh hkept hle f rfl rfl
          exact ⟨_, _, rfl, hseated, .inr ⟨_, rfl,
            .inr ⟨h.plan (breaksWrites_of_take hfault hkept), _, hseen, ha.length, ha.isOpen⟩⟩⟩

theorem Seated.follows_write (h : Seated breaks (d, f)) (ha : a.Describes (d, f)) (offset : UInt64)
    (bytes : Bytes) :
    a.Follows breaks (.write offset bytes)
      ((Request.write offset bytes).perform.result (d, f)) := by
  rw [Request.perform, Action.result_map]
  by_cases ho : f.isOpen
  · obtain ⟨r, q, hr, hq, ⟨rfl, hput⟩ | ⟨e, rfl, hsame | ⟨hb, k, hbroken⟩⟩⟩ :=
      h.write ha ho offset bytes <;> rw [hr]
    · exact ⟨_, .written (ha.isOpen ▸ ho) offset bytes, hput, hq⟩
    · exact hq.follows_refused hsame (.write offset bytes) Request.noConfusion e
    · exact ⟨_, .brokenOff hb (ha.isOpen ▸ ho) rfl k e, hbroken, hq⟩
  · rw [result_write_closed (Option.not_isSome_iff_eq_none.1 ho)]
    exact h.follows_refused ha (.write offset bytes) Request.noConfusion _

theorem Seated.follows_append (h : Seated breaks (d, f)) (ha : a.Describes (d, f)) (bytes : Bytes) :
    a.Follows breaks (.append bytes) ((Request.append bytes).perform.result (d, f)) := by
  rw [Request.perform, Action.result_map, result_append]
  cases hslot : Slot.forRecord? f.length bytes with
  | none => exact h.follows_refused ha (.append bytes) Request.noConfusion _
  | some slot =>
    obtain ⟨length, hlength, rfl⟩ := Option.map_eq_some_iff.1 hslot
    have hlen := Slot.lengthOf?_eq_some_iff.1 hlength
    dsimp only
    by_cases ho : f.isOpen
    · obtain ⟨r, q, hr, hq, hcases⟩ := h.write ha ho f.length bytes
      rw [ha.length] at hcases
      obtain ⟨rfl, hput⟩ | ⟨e, rfl, hsame | ⟨hb, k, hbroken⟩⟩ := hcases <;> rw [hr]
      · exact ⟨_, .appended (ha.isOpen ▸ ho) ⟨f.length, length⟩ bytes ha.length hlen, hput, hq⟩
      · exact hq.follows_refused hsame (.append bytes) Request.noConfusion e
      · exact ⟨_, .brokenOff hb (ha.isOpen ▸ ho) rfl k e, hbroken, hq⟩
    · rw [result_write_closed (Option.not_isSome_iff_eq_none.1 ho)]
      exact h.follows_refused ha (.append bytes) Request.noConfusion _

/-! ### Emptying -/

/-- The open file without its bytes. -/
theorem Seated.emptied (h : Seated breaks (d, f)) (hh : f.handle = some n) (ha : a.isOpen) :
    Seated breaks (d.tick.setContent n [], { f with length := 0 }) ∧
      a.cleared.Describes (d.tick.setContent n [], { f with length := 0 }) := by
  have hset : Seated breaks (d.tick.setContent n [], { f with length := 0 }) ∧
      seen (d.tick.setContent n [], { f with length := 0 }) = Content.toList [] :=
    h.setContent hh (Nat.zero_le maxPosition) rfl rfl
  obtain ⟨hseated, hseen⟩ := hset
  refine ⟨hseated, hseen, rfl, ?_⟩
  rw [RecordFile.isOpen, hh]
  exact ha.symm

/-- Emptying the file works or changes nothing. -/
theorem Seated.truncate (h : Seated breaks (d, f)) (ha : a.Describes (d, f)) :
    (∃ q, truncate.result (d, f) = (.ok (), q) ∧ f.isOpen ∧ q.2.isOpen ∧
      Seated breaks q ∧ a.cleared.Describes q) ∨
    ∃ e q, truncate.result (d, f) = (.error e, q) ∧ Seated breaks q ∧ a.Describes q := by
  by_cases ho : f.isOpen
  · obtain ⟨n, hh⟩ := Option.isSome_iff_exists.1 ho
    rw [result_truncate hh]
    cases d.faults d.attempts with
    | some fault => exact .inr ⟨_, _, rfl, h.tick, ha.tick⟩
    | none => exact .inl ⟨_, rfl, ho, ho, h.emptied hh (ha.isOpen ▸ ho)⟩
  · rw [result_truncate_closed (Option.not_isSome_iff_eq_none.1 ho)]
    exact .inr ⟨_, _, rfl, h, ha⟩

theorem Seated.follows_truncate (h : Seated breaks (d, f)) (ha : a.Describes (d, f)) :
    a.Follows breaks .truncate (Request.truncate.perform.result (d, f)) := by
  rw [Request.perform, Action.result_map]
  obtain ⟨q, hr, ho, -, hq, hcleared⟩ | ⟨e, q, hr, hq, hsame⟩ := h.truncate ha <;> rw [hr]
  · exact ⟨_, .truncated (ha.isOpen ▸ ho), hcleared, hq⟩
  · exact hq.follows_refused hsame .truncate Request.noConfusion e

theorem Seated.follows_overwrite (h : Seated breaks (d, f)) (ha : a.Describes (d, f))
    (bytes : Bytes) :
    a.Follows breaks (.overwrite bytes) ((Request.overwrite bytes).perform.result (d, f)) := by
  rw [Request.perform, Action.result_map, RecordFile.overwrite, Action.result_bind]
  obtain ⟨⟨d₁, f₁⟩, hr, ho, ho₁, hq, hcleared⟩ | ⟨e, q, hr, hq, hsame⟩ := h.truncate ha <;>
    rw [hr] <;> dsimp only
  · have ha' : a.isOpen := ha.isOpen ▸ ho
    obtain ⟨r, q, hr', hq', ⟨rfl, hput⟩ | ⟨e, rfl, hsame | ⟨hb, k, hbroken⟩⟩⟩ :=
      hq.write hcleared ho₁ 0 bytes <;> rw [hr']
    · exact ⟨_, .overwritten ha' bytes, hput, hq'⟩
    · exact ⟨_, .emptied ha' bytes e, hsame, hq'⟩
    · exact ⟨_, .brokenOff hb ha' rfl k e, hbroken, hq'⟩
  · exact hq.follows_refused hsame (.overwrite bytes) Request.noConfusion e

/-! ### Opening and closing -/

theorem Seated.follows_close (h : Seated breaks (d, f)) (ha : a.Describes (d, f)) :
    a.Follows breaks .close (Request.close.perform.result (d, f)) := by
  have hclosed : ∀ d', Seated breaks (d', f) → a.Describes (d', f) →
      Seated breaks (d', { f with handle := none }) ∧
        Account.Describes { a with isOpen := false } (d', { f with handle := none }) :=
    fun d' h ha => ⟨⟨h.short, h.plan, nofun⟩, ha.content, ha.length, rfl⟩
  rw [Request.perform, Action.result_map, RecordFile.close, Action.result_bind,
    FileAction.result_value]
  obtain ⟨path, _ | n, length⟩ := f
  · obtain ⟨hseated, hdescribes⟩ := hclosed d h ha
    exact ⟨_, .closed _, hdescribes, hseated⟩
  · obtain ⟨hseated, hdescribes⟩ := hclosed d.tick h.tick ha.tick
    simp only
    rw [Action.result_bind, FileAction.result_change]
    simp only
    rw [FileAction.result_onDisk, FileSystem.sync, operate_eq]
    cases d.faults d.attempts with
    | some fault => exact ⟨_, .closed _, hdescribes, hseated⟩
    | none => exact ⟨_, .closed _, hdescribes, hseated⟩

theorem result_renew (x : Path → Action FileSystem FileError RecordFile) (p : World) :
    (renew x).result p = match (x p.2.path).result p.1 with
      | (.ok fresh, d) => (.ok (), (d, fresh))
      | (.error e, d) => (.error e, (d, p.2)) := by
  rw [renew, Action.result_bind, FileAction.result_value]
  simp only
  rw [Action.result_bind, FileAction.result_onDisk]
  rcases (x p.2.path).result p.1 with ⟨e | fresh, d⟩ <;> rfl

/-- An attempt to open the file changes nothing in it. -/
theorem Seated.openAt (h : Seated breaks (d, f)) (ha : a.Describes (d, f)) :
    ∃ d', seen (d', f) = seen (d, f) ∧ Seated breaks (d', f) ∧
      ((∃ e, (openAt f.path).result d = (.error e, d')) ∨
        ∃ fresh, (openAt f.path).result d = (.ok fresh, d') ∧ fresh.path = f.path ∧ fresh.isOpen ∧
          Seated breaks (d', fresh) ∧ fresh.length.toNat = a.writes.extent) := by
  rw [RecordFile.openAt, Action.result_bind, Action.result_lift]
  rcases ho : (FileSystem.openFile f.path).result d with ⟨e | n, d₁⟩
  · obtain rfl := operate_error_tick ho
    exact ⟨d.tick, seen_tick d f, h.tick, .inl ⟨_, rfl⟩⟩
  · obtain ⟨hlook, hseated, hseen⟩ := h.openFile ho
    refine ⟨d₁.tick, (seen_tick d₁ f).trans hseen, hseated.tick, ?_⟩
    simp only [Except.mapError]
    rw [Action.result_bind, Action.result_lift, fileSize, operate_eq]
    cases d₁.faults d₁.attempts with
    | some fault => exact .inl ⟨_, rfl⟩
    | none =>
      refine .inr ⟨_, rfl, rfl, rfl, ⟨hseated.tick.short, hseated.plan, ?_⟩, ?_⟩
      · rintro m ⟨⟩
        rw [look_tick]
        exact hlook
      · have hsize : (d₁.content n).size = a.writes.extent := by
          rw [← Content.length_toList, ← seen_of_look hlook, hseen, ha.content,
            Writes.length_content]
        have hlt : maxPosition < UInt64.size := by decide
        exact (UInt64.toNat_ofNat_of_lt'
          (Nat.lt_of_le_of_lt (hseated.short n) hlt)).trans hsize

theorem Seated.follows_reopen (h : Seated breaks (d, f)) (ha : a.Describes (d, f)) :
    a.Follows breaks .reopen (Request.reopen.perform.result (d, f)) := by
  rw [Request.perform, Action.result_map, result_renew]
  obtain ⟨d', hseen, hseated, ⟨e, hr⟩ | ⟨fresh, hr, hpath, ho, hfresh, hlen⟩⟩ := h.openAt ha <;>
    dsimp only <;> rw [hr]
  · exact hseated.follows_refused (ha.congr hseen) .reopen Request.noConfusion e
  · refine ⟨_, .reopened, ⟨?_, hlen, ho⟩, hfresh⟩
    rw [seen, hpath]
    exact hseen.trans ha.content

theorem Seated.follows_createEmpty (h : Seated breaks (d, f)) (ha : a.Describes (d, f)) :
    a.Follows breaks .createEmpty (Request.createEmpty.perform.result (d, f)) := by
  rw [Request.perform, Action.result_map, result_renew]
  dsimp only
  rw [RecordFile.createEmpty, Action.result_bind]
  obtain ⟨d', hseen, hseated, ⟨e, hr⟩ | ⟨fresh, hr, hpath, ho, hfresh, hlen⟩⟩ := h.openAt ha <;>
    rw [hr] <;> dsimp only
  · exact hseated.follows_refused (ha.congr hseen) .createEmpty Request.noConfusion e
  · rw [Action.result_map, FileAction.result_startingWith]
    obtain ⟨n, hh⟩ := Option.isSome_iff_exists.1 ho
    rw [result_truncate hh]
    cases d'.faults d'.attempts with
    | some fault =>
      exact hseated.tick.follows_refused (ha.congr hseen).tick .createEmpty Request.noConfusion _
    | none =>
      obtain ⟨hq, hdescribes⟩ := hfresh.emptied (a := { a with isOpen := true }) hh rfl
      exact ⟨_, .created, hdescribes, hq⟩

/-! ### Runs -/

/-- Every request is answered as the account allows. -/
theorem Seated.follows (h : Seated breaks q) (ha : a.Describes q) (request : Request) :
    a.Follows breaks request (request.perform.result q) := by
  obtain ⟨d, f⟩ := q
  cases request with
  | reopen => exact h.follows_reopen ha
  | createEmpty => exact h.follows_createEmpty ha
  | read slot => exact h.follows_read ha slot
  | write offset bytes => exact h.follows_write ha offset bytes
  | append bytes => exact h.follows_append ha bytes
  | overwrite bytes => exact h.follows_overwrite ha bytes
  | truncate => exact h.follows_truncate ha
  | sync => exact h.follows_sync ha
  | close => exact h.follows_close ha

/-- An account can be kept of every run. -/
theorem Run.kept {p : World} {events : List Event} (hr : Run p events q) (h : Seated breaks p)
    (ha : a.Describes p) : ∃ b, a.Kept breaks events b ∧ b.Describes q ∧ Seated breaks q := by
  induction hr with
  | nil => exact ⟨a, .nil, ha, h⟩
  | snoc hr request hstep ih =>
    obtain ⟨b, hb, hdescribes, hseated⟩ := ih
    obtain ⟨c, ht, hc, hq⟩ := hseated.follows hdescribes request
    rw [hstep] at ht hc hq
    exact ⟨c, .snoc hb ht hc.length, hc, hq⟩

theorem seated_unopened {path : Path} (hshort : ∀ n, (d.content n).size ≤ maxPosition) :
    Seated d.BreaksWrites (d, unopened path) := ⟨hshort, id, nofun⟩

theorem describes_first (d : FileSystem) (path : Path) :
    (Account.first (seen (d, unopened path))).Describes (d, unopened path) :=
  ⟨(Writes.content_single _).symm, rfl, rfl⟩

/-- A read that answers gives the bytes of the slot. -/
theorem Account.Follows.read {slot : Slot} {reply : Reply}
    (h : a.Follows breaks (.read slot) (.ok reply, q)) : reply = .bytes (a.writes.range slot) := by
  obtain ⟨b, ht, -, -⟩ := h
  cases ht
  rfl

/-- A read that would pass the tracked length fails. -/
theorem read_past_end (ho : q.2.isOpen) {slot : Slot} (hout : ¬ slot.isWithin q.2.length.toNat) :
    (Request.read slot).perform.result q =
      (.error (.pastEnd slot q.2.path q.2.length), q) := by
  obtain ⟨n, hh⟩ := Option.isSome_iff_exists.1 ho
  rw [Request.perform, Action.result_map, result_looking, RecordFile.read, Action.result_bind,
    Action.result_liftM, number, hh]
  simp only [hout]
  rfl

/-- What a slot shows can be read, unless the read is planned to fail. -/
theorem Seated.read_shown {lasting : Prop} {slot : Slot} (h : Seated breaks q) (ha : a.Describes q)
    (hs : a.Shows lasting slot bytes) (hlen : slot.length.toNat = bytes.length) (ho : q.2.isOpen)
    (hnone : q.1.faults q.1.attempts = none) :
    ((Request.read slot).perform.result q).1 = .ok (.bytes bytes) := by
  obtain ⟨d, f⟩ := q
  obtain ⟨n, hh⟩ := Option.isSome_iff_exists.1 ho
  obtain ⟨hcontent, hextent⟩ := ha.size_content h hh
  have hlength : f.length.toNat = a.length := ha.length
  have hin : slot.isWithin f.length.toNat :=
    Slot.isWithin_iff.2 ⟨Nat.le_trans (hlength ▸ hs.within) (Nat.le_of_lt_succ f.length.toNat_lt),
      hlength ▸ hs.within⟩
  have hreal : slot.length.toNat ≠ 0 → slot.stop ≤ (d.content n).size := by
    intro hl
    rw [hextent]
    refine hs.reached (.inl fun hnil => hl ?_)
    rw [hlen, hnil, List.length_nil]
  have hread := read_ok hh hin hreal (h.short n) hnone
  have hfollows := h.follows_read ha slot
  rw [Request.perform, Action.result_map, result_looking] at hfollows ⊢
  dsimp only at hfollows ⊢
  rw [hread] at hfollows ⊢
  exact congrArg Except.ok (hfollows.read.trans (congrArg Reply.bytes hs.holds))

/-- What a failed request leaves of the file. -/
theorem Account.Follows.error {e : FileError} {r : World} (ha : a.Describes q)
    (h : a.Follows breaks request (.error e, r)) :
    (seen r = seen q ∧ r.2.length = q.2.length) ∨
      (∃ bytes, request = .overwrite bytes ∧ seen r = [] ∧ r.2.length = 0) ∨
      breaks ∧ ∃ base offset bytes k, a.target request = some (base, offset, bytes) ∧
        seen r = Writes.content ((offset, bytes.take k) :: base.writes) ∧
        r.2.length.toNat = base.length := by
  obtain ⟨b, ht, hb, -⟩ := h
  have hlength : ∀ {n : UInt64}, n.toNat = a.length → n = q.2.length := fun h =>
    UInt64.toNat_inj.1 (h.trans ha.length.symm)
  cases ht with
  | closed => exact .inl ⟨hb.content.trans ha.content.symm, hlength hb.length⟩
  | failed => exact .inl ⟨hb.content.trans ha.content.symm, hlength hb.length⟩
  | emptied _ bytes =>
    exact .inr (.inl ⟨bytes, rfl, hb.content, UInt64.toNat_inj.1 hb.length⟩)
  | brokenOff hbreaks _ ht k =>
    exact .inr (.inr ⟨hbreaks, _, _, _, k, ht, hb.content, hb.length⟩)

/-- A record file is an array of bytes. Of every run an account can be kept, and a read that answers
gives the bytes that the account says: the newest written to each position since the file was empty,
or zero. A read past the tracked length fails. An append takes the bytes behind the tracked length,
and they can be read from then on until they are overwritten or the file is emptied; only if there
are none, and the tracked length lay behind the end of the file, does this hold no longer than until
the file is opened anew. A request that fails changes nothing, but an overwrite may have emptied the
file, and a write that is broken off leaves its first bytes. -/
theorem is_byte_array {path : Path} {events : List Event}
    (hshort : ∀ n, (d.content n).size ≤ maxPosition) (hr : Run (d, unopened path) events q) :
    (∃ a, (Account.first (seen (d, unopened path))).Kept d.BreaksWrites events a ∧ a.Describes q ∧
      (∀ slot reply q₁, (Request.read slot).perform.result q = (.ok reply, q₁) →
        reply = .bytes (a.writes.range slot) ∧
          (a.writes.range slot).length = slot.length.toNat) ∧
      ∀ request e q₁, request.perform.result q = (.error e, q₁) →
        (seen q₁ = seen q ∧ q₁.2.length = q.2.length) ∨
        (∃ bytes, request = .overwrite bytes ∧ seen q₁ = [] ∧ q₁.2.length = 0) ∨
        d.BreaksWrites ∧ ∃ base offset bytes k, a.target request = some (base, offset, bytes) ∧
          seen q₁ = Writes.content ((offset, bytes.take k) :: base.writes) ∧
          q₁.2.length.toNat = base.length) ∧
    (q.2.isOpen → ∀ slot : Slot, ¬ slot.isWithin q.2.length.toNat →
      ∃ e, (Request.read slot).perform.result q = (.error e, q) ∧ e.kind = .unexpectedEof) ∧
    ∀ bytes reply q₁, (Request.append bytes).perform.result q = (.ok reply, q₁) →
      ∃ slot, reply = .slot slot ∧ slot.start = q.2.length.toNat ∧
        slot.length.toNat = bytes.length ∧
        ∀ later q₂, Run q₁ later q₂ → (∀ e ∈ later, ¬ e.disturbs d.BreaksWrites slot) →
          (bytes = [] → (seen q).length < q.2.length.toNat → ∀ e ∈ later, ¬ e.reopens) →
          q₂.2.isOpen → q₂.1.faults q₂.1.attempts = none →
          ((Request.read slot).perform.result q₂).1 = .ok (.bytes bytes) := by
  obtain ⟨a, hk, ha, h⟩ := hr.kept (seated_unopened hshort) (describes_first d path)
  refine ⟨⟨a, hk, ha, fun slot reply q₁ hread => ?_, fun request e q₁ hfail => ?_⟩,
    fun ho slot hout => ⟨_, read_past_end ho hout, rfl⟩, fun bytes reply q₁ happend => ?_⟩
  · have hfollows := h.follows ha (.read slot)
    rw [hread] at hfollows
    exact ⟨hfollows.read, Writes.length_range _ _⟩
  · have hfollows := h.follows ha request
    rw [hfail] at hfollows
    exact hfollows.error ha
  · obtain ⟨b, ht, hb, hq₁⟩ := h.follows ha (.append bytes)
    rw [happend] at ht hb hq₁
    cases ht with
    | appended ho slot _ hstart hlen =>
      refine ⟨slot, rfl, hstart.trans ha.length.symm, hlen, ?_⟩
      intro later q₂ hlater hkeep hreopen ho₂ hnone
      obtain ⟨c, hc, hdescribes, hq₂⟩ := hlater.kept hq₁ hb
      have hshows := hc.shows (Account.shows_put hstart hlen) hkeep fun e he hre => by
        by_cases hne : bytes = []
        · refine .inr (Nat.not_lt.1 fun hlt => hreopen hne ?_ e he hre)
          rwa [ha.content, Writes.length_content, ha.length]
        · exact .inl hne
      exact hq₂.read_shown hdescribes hshows hlen ho₂ hnone

/-- A record that was appended behind a gap is read back after more was written and the file was
opened anew. -/
theorem record_is_read_back :
    let q := after (.empty, unopened ⟨"f"⟩) [.reopen, .write 3 [7]]
    let q₁ := after q [.append [1, 2]]
    let q₂ := after q₁ [.write 0 [9], .reopen]
    (Request.append [1, 2]).perform.result q = (.ok (.slot ⟨4, 2⟩), q₁) ∧
      seen q₂ = [9, 0, 0, 7, 1, 2] ∧
      ((Request.read ⟨4, 2⟩).perform.result q₂).1 = .ok (.bytes [1, 2]) := by
  intro q q₁ q₂
  have happend : (Request.append [1, 2]).perform.result q = (.ok (.slot ⟨4, 2⟩), q₁) :=
    result_eq_after (by decide +kernel)
  obtain ⟨-, -, h⟩ := is_byte_array (fun _ => Nat.zero_le _)
    (Run.nil.history (p := (.empty, unopened ⟨"f"⟩)) [.reopen, .write 3 [7]])
  obtain ⟨slot, hslot, -, -, hread⟩ := h [1, 2] (.slot ⟨4, 2⟩) q₁ happend
  cases hslot
  refine ⟨happend, by decide +kernel, hread _ q₂ (Run.nil.history [.write 0 [9], .reopen])
    (fun e he => ?_) nofun (by decide +kernel) (by decide +kernel)⟩
  simp only [List.nil_append, history, List.mem_cons, List.not_mem_nil, or_false] at he
  rcases he with rfl | rfl
  · exact fun hd => absurd hd.1 (by unfold overlaps; decide)
  · exact id

/-- A record without bytes that was appended behind the end of the file cannot be read once the file
was opened anew, although nothing fails and nothing was written or emptied meanwhile. -/
theorem empty_record_is_lost :
    let q := after (.empty, unopened ⟨"f"⟩) [.reopen, .write 5 []]
    let q₁ := after q [.append []]
    let q₂ := after q₁ [.reopen]
    (Request.append []).perform.result q = (.ok (.slot ⟨5, 0⟩), q₁) ∧
      (∀ e ∈ history q₁ [.reopen], ∀ slot, ¬ e.disturbs True slot) ∧
      q₂.2.isOpen ∧ q₂.1.faults q₂.1.attempts = none ∧
      ∃ e, (Request.read ⟨5, 0⟩).perform.result q₂ = (.error e, q₂) ∧ e.kind = .unexpectedEof := by
  intro q q₁ q₂
  refine ⟨result_eq_after (by decide +kernel), fun e he slot => ?_, by decide +kernel,
    by decide +kernel, _, read_past_end (by decide +kernel) (by decide +kernel), rfl⟩
  simp only [history, List.mem_singleton] at he
  subst he
  exact id

end RecordFile

end DiskTier
