import DiskTier.RecordFile
import DiskTier.Proofs.FileSystem
import DiskTier.Proofs.Space

/-!
# Record files where nothing is planned to fail

`RecordFile.Holds` ties a record file to the file at its path: it has the number of that file, if it
is open, and its tracked length is the number of bytes there. Every operation on an open file keeps
that, and only a write beyond the greatest position of a file is refused.
-/

namespace DiskTier

open FileSystem

namespace RecordFile

/-- The file lies at a name in a directory and holds these bytes; it may be closed. -/
structure Holds (d : FileSystem) (f : RecordFile) (x : Spot) (bytes : Bytes) : Prop where
  lodged : Lodged d f.path x
  lies : ∃ n, d.at? x = some (.file n) ∧ (d.content n).toList = bytes ∧ ∀ m ∈ f.handle, m = n
  length : f.length.toNat = bytes.length

variable {d d' : FileSystem} {f : RecordFile} {x : Spot} {b bytes : Bytes} {name : String}
  {p : Path}

theorem Holds.frame (h : Holds d f x b) (hd : Spared name d d') (hx : x.2 = name) :
    Holds d' f x b := by
  obtain ⟨hp, ⟨n, hn, hb, hm⟩, hlen⟩ := h
  exact ⟨hp.mono hd.directories,
    ⟨n, (hd.nodes x hx).trans hn, hd.contents x n hx hn ▸ hb, hm⟩, hlen⟩

theorem Holds.alike (h : Holds d f x b) (hd : Alike d d') : Holds d' f x b := by
  obtain ⟨hp, ⟨n, hn, hb, hm⟩, hlen⟩ := h
  exact ⟨hp.mono (hd.toLocal "").directories,
    ⟨n, by rw [hd.nodes, hn], by rw [hd.contents, hb], hm⟩, hlen⟩

theorem Holds.length_le (h : Holds d f x b) (hd : d.Healthy) : b.length ≤ maxPosition := by
  obtain ⟨-, ⟨n, -, rfl, -⟩, -⟩ := h
  rw [Content.length_toList]
  exact hd.short n

/-- The bytes that are seen at the path of the file. -/
theorem Holds.contentAt? (h : Holds d f x b) :
    (d.contentAt? f.path).map Content.toList = some b := by
  obtain ⟨hp, ⟨n, hn, hb, -⟩, -⟩ := h
  rw [hp.contentAt? hn, Option.map_some, hb]

/-- The number of an open file. -/
theorem Holds.opened (h : Holds d f x b) (ho : f.isOpen) :
    ∃ n, f.handle = some n ∧ d.at? x = some (.file n) ∧ (d.content n).toList = b := by
  obtain ⟨-, ⟨n, hn, hb, hm⟩, -⟩ := h
  obtain ⟨m, hh⟩ := Option.isSome_iff_exists.1 ho
  exact ⟨n, by rw [hh, hm m hh], hn, hb⟩

theorem result_openNumber {n : Nat} (hn : f.handle = some n) (d : FileSystem) :
    openNumber.result (d, f) = (.ok n, (d, f)) := by
  rw [openNumber, Action.result_bind]
  simp only [FileAction.result_value, number, hn]
  rfl

theorem result_openNumber_closed (hn : f.handle = none) (d : FileSystem) :
    openNumber.result (d, f) = (.error (.closed f.path), (d, f)) := by
  rw [openNumber, Action.result_bind]
  simp only [FileAction.result_value, number, hn]
  rfl

/-! ### What the operations do -/

theorem result_write {n : Nat} (hn : f.handle = some n) (offset : UInt64) (bytes : Bytes)
    (d : FileSystem) :
    (write offset bytes).result (d, f) =
      match (FileSystem.writeAt n offset.toNat bytes).result d with
        | (.ok _, d') =>
          (.ok (), (d', { f with length := max f.length (endOf offset bytes.length) }))
        | (.error e, d') => (.error (.refused e), (d', f)) := by
  rw [write, Action.result_bind, result_openNumber hn]
  dsimp only
  rw [Action.result_bind, FileAction.result_onDisk]
  rcases (FileSystem.writeAt n offset.toNat bytes).result d with ⟨e | u, d'⟩ <;> rfl

theorem result_write_closed (hn : f.handle = none) (offset : UInt64) (bytes : Bytes)
    (d : FileSystem) : (write offset bytes).result (d, f) = (.error (.closed f.path), (d, f)) := by
  rw [write, Action.result_bind, result_openNumber_closed hn]

theorem result_append (f : RecordFile) (bytes : Bytes) (d : FileSystem) :
    (append bytes).result (d, f) = match Slot.forRecord? f.length bytes with
      | none => (.error (.recordTooLarge bytes.length), (d, f))
      | some slot => (((write slot.offset bytes).result (d, f)).1.map fun _ => slot,
          ((write slot.offset bytes).result (d, f)).2) := by
  rw [append, Action.result_bind, FileAction.result_value]
  simp only
  cases Slot.forRecord? f.length bytes with
  | none => rfl
  | some slot =>
    simp only
    rw [Action.result_bind]
    rcases (write slot.offset bytes).result (d, f) with ⟨e | u, q⟩ <;> rfl

theorem result_truncate {n : Nat} (hn : f.handle = some n) (d : FileSystem) :
    truncate.result (d, f) = match d.faults d.attempts with
      | some fault => (.error (.refused fault.refusal), (d.tick, f))
      | none => (.ok (), (d.tick.setContent n [], { f with length := 0 })) := by
  have hempty : (d.content n).resize 0 = [] := by cases d.content n <;> rfl
  rw [truncate, Action.result_bind, result_openNumber hn]
  dsimp only
  rw [Action.result_bind, FileAction.result_onDisk, resize, operate_eq]
  cases d.faults d.attempts with
  | some fault => rfl
  | none =>
    simp only [content_tick, hempty, Nat.not_lt_zero, if_false]
    rfl

theorem result_truncate_closed (hn : f.handle = none) (d : FileSystem) :
    truncate.result (d, f) = (.error (.closed f.path), (d, f)) := by
  rw [truncate, Action.result_bind, result_openNumber_closed hn]

/-! ### Reading -/

theorem Holds.read (h : Holds d f x b) (hd : d.Healthy) (ho : f.isOpen) {s : Slot}
    (hs : s.stop ≤ b.length) :
    ∃ d', (f.read s).result d = (.ok (s.slice b), d') ∧ Alike d d' := by
  obtain ⟨n, hh, hn, hb⟩ := h.opened ho
  have hmax := h.length_le hd
  have hin : s.isWithin f.length.toNat := by
    rw [Slot.isWithin_iff, h.length]
    refine ⟨Nat.le_trans hs (Nat.le_trans hmax ?_), hs⟩
    decide
  have hsize : (d.content n).size = b.length := by rw [← hb, Content.length_toList]
  have hrange : s.start + s.length.toNat ≤ (d.content n).size := hsize ▸ hs
  obtain ⟨d', hr, hd'⟩ := result_readAt hd.calm n hrange (hsize ▸ hmax)
  refine ⟨d', ?_, ?_⟩
  · rw [RecordFile.read, Action.result_bind]
    simp only [Action.result_liftM, number, hh, hin, if_true, Action.result_lift, hr, hb]
    rfl
  · rcases hd' with rfl | rfl
    · exact hd.alike_refl
    · exact hd.alike_tick

/-! ### Writing -/

theorem toNat_max (a b : UInt64) : (max a b).toNat = max a.toNat b.toNat := by
  rw [show max a b = if a ≤ b then b else a from rfl]
  split <;> next h => rw [UInt64.le_iff_toNat_le] at h; omega

theorem toNat_endOf {offset : UInt64} {size : Nat} (h : offset.toNat + size ≤ maxPosition) :
    (endOf offset size).toNat = offset.toNat + size := by
  have : maxPosition < Slot.maxOffset := by decide
  have : Slot.maxOffset < UInt64.size := by decide
  rw [endOf, Nat.min_eq_left (by omega), UInt64.toNat_ofNat_of_lt' (by omega)]

/-- A write changes the bytes that it is about, or the file would become too long. -/
theorem Holds.write (h : Holds d f x b) (hd : d.Healthy) (ho : f.isOpen) {offset : UInt64}
    (hin : offset.toNat ≤ b.length) (bytes : Bytes) :
    (∃ d' f', (write offset bytes).result (d, f) = (.ok (), (d', f')) ∧ Local x.2 d d' ∧
        Holds d' f' x (b.patch offset.toNat bytes) ∧ f'.isOpen ∧ f'.path = f.path) ∨
      (write offset bytes).result (d, f) = (.error (.refused .invalidInput), (d.tick, f)) ∧
        maxPosition < offset.toNat + bytes.length := by
  obtain ⟨n, hh, hn, hb⟩ := h.opened ho
  have hmax := h.length_le hd
  rw [result_write hh]
  have hsize : (d.content n).size = b.length := by rw [← hb, Content.length_toList]
  have hhandle : ∀ m ∈ f.handle, m = n := by
    intro m hm
    rw [hh] at hm
    exact (Option.some.inj hm).symm
  -- the tracked length covers whatever was written
  have hlength : offset.toNat + bytes.length ≤ maxPosition →
      (max f.length (endOf offset bytes.length)).toNat = (b.patch offset.toNat bytes).length := by
    intro hle
    rw [Bytes.length_patch hin, toNat_max, h.length, toNat_endOf hle]
  by_cases hne : bytes = []
  · have hnop : (writeAt n offset.toNat bytes).result d = (.ok (), d) := by
      rw [hne]
      rfl
    rw [hnop]
    refine .inl ⟨d, _, rfl, (hd.alike_refl).toLocal _, ⟨h.lodged, ⟨n, hn, ?_, hhandle⟩, hlength ?_⟩,
      ho, rfl⟩
    · rw [hne, Bytes.patch_nil, hb]
    · rw [hne]
      exact Nat.le_trans hin hmax
  · rw [result_writeAt hd.calm n hne]
    by_cases hlt : maxPosition < offset.toNat + bytes.length
    · rw [if_pos hlt]
      exact .inr ⟨rfl, hlt⟩
    · rw [if_neg hlt]
      have hbytes : ((d.content n).write offset.toNat bytes).toList =
          b.patch offset.toNat bytes := by
        rw [Content.toList_write, hb, hsize, Nat.sub_eq_zero_of_le hin]
        simp [Bytes.patch]
      refine .inl ⟨_, _, rfl, (hd.local_tick _).trans (hd.tick.local_setContent hn ?_),
        ⟨h.lodged.mono fun _ _ => id, ⟨n, hn, ?_, hhandle⟩, hlength (Nat.not_lt.1 hlt)⟩, ho, rfl⟩
      · rw [← Content.length_toList, hbytes, Bytes.length_patch hin]
        omega
      · rw [content_setContent, if_pos rfl, hbytes]

/-- An append takes a slot at the end of the file, or the file would become too long. -/
theorem Holds.append (h : Holds d f x b) (hd : d.Healthy) (ho : f.isOpen)
    (hb : bytes.length ≤ Slot.maxLength) :
    (∃ s d' f', (append bytes).result (d, f) = (.ok s, (d', f')) ∧ s.start = b.length ∧
        s.length.toNat = bytes.length ∧ Local x.2 d d' ∧
        Holds d' f' x (b.patch b.length bytes) ∧ f'.isOpen ∧ f'.path = f.path) ∨
      (append bytes).result (d, f) = (.error (.refused .invalidInput), (d.tick, f)) ∧
        maxPosition < b.length + bytes.length := by
  obtain ⟨length, hlength⟩ := Slot.lengthOf?_of_le hb
  have hslot : Slot.forRecord? f.length bytes = some ⟨f.length, length⟩ := by
    rw [Slot.forRecord?, hlength]
    rfl
  have hw := h.write hd ho (Nat.le_of_eq h.length) bytes
  rw [result_append, hslot]
  simp only
  rcases hw with ⟨d', f', hr, hlocal, hholds, hopen, hpath⟩ | ⟨hr, htoo⟩
  · rw [hr]
    exact .inl ⟨_, d', f', rfl, h.length, Slot.lengthOf?_eq_some_iff.1 hlength, hlocal,
      h.length ▸ hholds, hopen, hpath⟩
  · rw [hr]
    exact .inr ⟨rfl, h.length ▸ htoo⟩

theorem Holds.truncate (h : Holds d f x b) (hd : d.Healthy) (ho : f.isOpen) :
    ∃ d' f', truncate.result (d, f) = (.ok (), (d', f')) ∧ Local x.2 d d' ∧ Holds d' f' x [] ∧
      f'.isOpen ∧ f'.path = f.path := by
  obtain ⟨n, hh, hn, hb⟩ := h.opened ho
  rw [result_truncate hh, hd.calm d.attempts]
  refine ⟨_, _, rfl, (hd.local_tick _).trans (hd.tick.local_setContent hn (Nat.zero_le _)),
    ⟨h.lodged.mono fun _ _ => id, ⟨n, hn, ?_, ?_⟩, rfl⟩, ho, rfl⟩
  · rw [content_setContent, if_pos rfl]
    rfl
  · intro m hm
    rw [hh] at hm
    exact (Option.some.inj hm).symm

/-- After an overwrite the file holds the new bytes, or none if they are too many. -/
theorem Holds.overwrite (h : Holds d f x b) (hd : d.Healthy) (ho : f.isOpen) (bytes : Bytes) :
    ∃ r d' f', (overwrite bytes).result (d, f) = (r, (d', f')) ∧ Local x.2 d d' ∧ f'.isOpen ∧
      f'.path = f.path ∧ (r = .ok () ∧ Holds d' f' x bytes ∨
        r = .error (.refused .invalidInput) ∧ Holds d' f' x [] ∧ maxPosition < bytes.length) := by
  obtain ⟨d₁, f₁, hr, hlocal, hholds, hopen, hpath⟩ := h.truncate hd ho
  rw [RecordFile.overwrite, Action.result_bind, hr]
  simp only
  have hstart : (0 : UInt64).toNat ≤ ([] : Bytes).length := Nat.le_refl _
  rcases hholds.write hlocal.healthy hopen hstart bytes with ⟨d', f', hr', hlocal', hholds',
    hopen', hpath'⟩ | ⟨hr', htoo⟩
  · refine ⟨_, d', f', hr', hlocal.trans hlocal', hopen', hpath'.trans hpath, .inl ⟨rfl, ?_⟩⟩
    simpa [Bytes.patch] using hholds'
  · have ht := hlocal.healthy.local_tick x.2
    refine ⟨_, _, f₁, hr', hlocal.trans ht, hopen, hpath,
      .inr ⟨rfl, hholds.alike hlocal.healthy.alike_tick, ?_⟩⟩
    rw [show (0 : UInt64).toNat = 0 from rfl, Nat.zero_add] at htoo
    exact htoo

theorem sync_spec (hd : d.Healthy) (ho : f.isOpen) :
    f.sync.result d = (.ok (), d.tick) := by
  obtain ⟨n, hh⟩ := Option.isSome_iff_exists.1 ho
  rw [RecordFile.sync, Action.result_bind, Action.result_liftM, number, hh]
  simp only [Action.result_lift, result_sync hd.calm n]
  rfl

/-! ### Opening and closing -/

/-- A closed file stays on disk as it is. -/
theorem close_spec (hd : d.Healthy) (f : RecordFile) :
    ∃ d', close.result (d, f) = (.ok (), (d', { f with handle := none })) ∧ Alike d d' := by
  obtain ⟨path, _ | n, length⟩ := f
  · exact ⟨d, rfl, hd.alike_refl⟩
  · refine ⟨d.tick, ?_, hd.alike_tick⟩
    rw [RecordFile.close, Action.result_bind, FileAction.result_value]
    simp only
    rw [Action.result_bind, FileAction.result_change]
    simp only
    rw [FileAction.result_onDisk, result_sync hd.calm n]
    rfl

theorem Holds.close (h : Holds d f x b) : Holds d { f with handle := none } x b := by
  obtain ⟨hp, ⟨n, hn, hb, -⟩, hlen⟩ := h
  exact ⟨hp, ⟨n, hn, hb, by simp⟩, hlen⟩

/-- Whatever comes of deleting a file, nothing changes but what lies under its name. -/
theorem local_delete (hd : d.Healthy) (hstep : f.path.steps.getLast? = some (.down name)) :
    Local name d (f.delete.result d).2 := by
  obtain ⟨d', hr, halike⟩ := close_spec hd f
  rw [RecordFile.delete, Action.result_bind, FileAction.result_startingWith, hr]
  simp only [Action.result_lift]
  exact (halike.toLocal name).trans (local_unlinkIfPresent halike.healthy hstep)

/-- The bytes of the file of a name; none if there is no file. -/
def bytesAt (d : FileSystem) (x : Spot) : Bytes :=
  match d.at? x with
  | some (.file n) => (d.content n).toList
  | _ => []

theorem bytesAt_spared (hd : Spared name d d') (hx : x.2 = name) : bytesAt d' x = bytesAt d x := by
  unfold bytesAt
  rw [hd.nodes x hx]
  split
  · next n hn => rw [hd.contents x n hx hn]
  · rfl

theorem Holds.bytesAt_eq (h : Holds d f x b) : bytesAt d x = b := by
  obtain ⟨n, hn, hb, -⟩ := h.lies
  rw [bytesAt, hn]
  exact hb

/-- An opened file holds what lies at its path. -/
theorem openAt_spec (hd : d.Healthy) (hp : Lodged d p x)
    (hx : ∀ m, d.at? x ≠ some (.directory m)) :
    ∃ d' f, (openAt p).result d = (.ok f, d') ∧ Local x.2 d d' ∧ Holds d' f x (bytesAt d x) ∧
      f.isOpen ∧ f.path = p := by
  have hlt : maxPosition < UInt64.size := by decide
  rw [RecordFile.openAt, Action.result_bind, Action.result_lift, result_openFile hd.calm hp]
  cases hn : d.at? x with
  | none =>
    have hlocal := (hd.local_tick x.2).trans (hd.tick.local_create hn)
    have hcontent : (d.tick.create x.1 x.2).2.content d.nextNumber = [] := by
      rw [content_create]
      exact if_pos rfl
    simp only [Except.mapError]
    rw [Action.result_bind, Action.result_lift, result_fileSize hlocal.healthy.calm, hcontent]
    refine ⟨_, _, rfl, hlocal.trans (hlocal.healthy.local_tick _),
      ⟨(hp.mono hlocal.directories).tick, ⟨d.nextNumber, ?_, ?_, ?_⟩, ?_⟩, rfl, rfl⟩
    · rw [at?_tick, at?_create, if_pos rfl]
      rfl
    · rw [content_tick, hcontent, bytesAt, hn]
      rfl
    · rintro m ⟨⟩
      rfl
    · rw [bytesAt, hn]
      rfl
  | some node =>
    cases node with
    | directory m => exact absurd hn (hx m)
    | file n =>
      simp only [Except.mapError]
      rw [Action.result_bind, Action.result_lift, result_fileSize hd.tick.calm]
      refine ⟨_, _, rfl, (hd.local_tick _).trans (hd.tick.local_tick _),
        ⟨hp.tick.tick, ⟨n, hn, ?_, ?_⟩, ?_⟩, rfl, rfl⟩
      · rw [bytesAt, hn]
        rfl
      · rintro m ⟨⟩
        rfl
      · simp only [bytesAt, hn]
        rw [content_tick, Content.length_toList,
          UInt64.toNat_ofNat_of_lt' (Nat.lt_of_le_of_lt (hd.short n) hlt)]

/-- A path that was opened ends at a name that leads to no directory. -/
theorem lodged_of_openAt (hd : d.Healthy) (hstep : p.steps.getLast? = some (.down name))
    (ho : (openAt p).result d = (.ok f, d')) :
    ∃ x : Spot, x.2 = name ∧ Lodged d p x ∧ ∀ m, d.at? x ≠ some (.directory m) := by
  rw [RecordFile.openAt, Action.result_bind, Action.result_lift] at ho
  rcases hr : (openFile p).result d with ⟨e | n, d₁⟩
  · rw [hr] at ho
    cases ho
  · obtain ⟨x, hx, hp⟩ := lodged_of_openFile hd.calm hstep hr
    refine ⟨x, hx, hp, fun m hm => ?_⟩
    rw [result_openFile hd.calm hp, hm] at hr
    cases hr

/-- Opening a path works, or changes nothing. -/
theorem openAt_cases (hd : d.Healthy) (hstep : p.steps.getLast? = some (.down name)) :
    (∃ x d' f, x.2 = name ∧ (openAt p).result d = (.ok f, d') ∧ Local name d d' ∧
        Holds d' f x (bytesAt d x) ∧ f.isOpen ∧ f.path = p) ∨
      ∃ e d', (openAt p).result d = (.error e, d') ∧ Alike d d' := by
  rcases hr : (openAt p).result d with ⟨e | f, d₁⟩
  · refine .inr ⟨e, d₁, rfl, ?_⟩
    rw [RecordFile.openAt, Action.result_bind, Action.result_lift] at hr
    rcases ho : (openFile p).result d with ⟨e' | n, d₂⟩
    · rw [ho] at hr
      cases hr
      rw [operate_error hd.calm ho]
      exact hd.alike_tick
    · -- asking for the size of an open file does not fail
      have hcalm : d₂.Calm := by
        obtain ⟨x, -, hp⟩ := lodged_of_openFile hd.calm hstep ho
        rw [result_openFile hd.calm hp] at ho
        split at ho <;> cases ho <;> exact hd.calm
      rw [ho] at hr
      simp only [Except.mapError] at hr
      rw [Action.result_bind, Action.result_lift, result_fileSize hcalm] at hr
      cases hr
  · obtain ⟨x, hx, hp, hdir⟩ := lodged_of_openAt hd hstep hr
    obtain ⟨d', f', hr', hlocal, hholds, hopen, hpath⟩ := openAt_spec hd hp hdir
    rw [hr] at hr'
    cases hr'
    exact .inl ⟨x, d₁, f, hx, rfl, hx ▸ hlocal, hholds, hopen, hpath⟩

/-- Where a file may lie, a new empty one can be had. -/
theorem createEmpty_spec (hd : d.Healthy) (hp : Lodged d p x)
    (hx : ∀ m, d.at? x ≠ some (.directory m)) :
    ∃ d' f, (createEmpty p).result d = (.ok f, d') ∧ Local x.2 d d' ∧ Holds d' f x [] ∧
      f.isOpen ∧ f.path = p := by
  obtain ⟨d₁, f, hr, hlocal, hholds, hopen, hpath⟩ := openAt_spec hd hp hx
  obtain ⟨d', f', hr', hlocal', hholds', hopen', hpath'⟩ := hholds.truncate hlocal.healthy hopen
  refine ⟨d', f', ?_, hlocal.trans hlocal', hholds', hopen', hpath'.trans hpath⟩
  rw [createEmpty, Action.result_bind, hr]
  simp only
  rw [Action.result_map, FileAction.result_startingWith, hr']
  rfl

/-- A new empty file can be had at a path, or nothing changes. -/
theorem createEmpty_cases (hd : d.Healthy) (hstep : p.steps.getLast? = some (.down name)) :
    (∃ x d' f, x.2 = name ∧ (createEmpty p).result d = (.ok f, d') ∧ Local name d d' ∧
        Holds d' f x [] ∧ f.isOpen ∧ f.path = p) ∨
      ∃ e d', (createEmpty p).result d = (.error e, d') ∧ Alike d d' := by
  rcases openAt_cases hd hstep with ⟨x, d₁, f, -, hr, -⟩ | ⟨e, d₁, hr, halike⟩
  · obtain ⟨x, hx, hp, hdir⟩ := lodged_of_openAt hd hstep hr
    obtain ⟨d', f', hr', hlocal, hholds, hopen, hpath⟩ := createEmpty_spec hd hp hdir
    exact .inl ⟨x, d', f', hx, hr', hx ▸ hlocal, hholds, hopen, hpath⟩
  · refine .inr ⟨e, d₁, ?_, halike⟩
    rw [createEmpty, Action.result_bind, hr]

end RecordFile

end DiskTier
