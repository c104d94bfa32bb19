import DiskTier.Proofs.Run
import DiskTier.Proofs.Shadow.Pass

/-!
# Installing a draft where anything may fail

Nothing is assumed here of the file system or of the failures to come. What is known after an
operation is then little: which file may hold other bytes, and where a name leads if the operation
succeeded. It is enough to tell what a store is left with once a draft was to be installed: the
draft, what it had before, or nothing.
-/

namespace DiskTier

open FileSystem

namespace FileSystem

variable {α : Type} {d d' d'' : FileSystem} {p q : Path} {x : Spot} {m n : Nat}

/-! ### What stays as it is -/

/-- Names lead where they led, and files hold what they held. -/
structure SameFiles (d d' : FileSystem) : Prop where
  directories : d'.directories = d.directories
  contents : d'.contents = d.contents

/-- Names lead where they led, and no file but the one of number `m` holds anything else. -/
structure Edited (m : Nat) (d d' : FileSystem) : Prop where
  directories : d'.directories = d.directories
  contents : ∀ n, n ≠ m → d'.content n = d.content n

theorem SameFiles.refl (d : FileSystem) : SameFiles d d := ⟨rfl, rfl⟩

theorem sameFiles_tick (d : FileSystem) : SameFiles d d.tick := ⟨rfl, rfl⟩

theorem SameFiles.trans (h : SameFiles d d') (h' : SameFiles d' d'') : SameFiles d d'' :=
  ⟨h'.directories.trans h.directories, h'.contents.trans h.contents⟩

theorem content_congr (h : d'.contents = d.contents) (n : Nat) : d'.content n = d.content n := by
  rw [content, content, h]

theorem SameFiles.edited (h : SameFiles d d') (m : Nat) : Edited m d d' :=
  ⟨h.directories, fun n _ => content_congr h.contents n⟩

theorem Edited.trans (h : Edited m d d') (h' : Edited m d' d'') : Edited m d d'' :=
  ⟨h'.directories.trans h.directories, fun n hn => (h'.contents n hn).trans (h.contents n hn)⟩

theorem edited_setContent (d : FileSystem) (m : Nat) (c : Content) :
    Edited m d (d.setContent m c) :=
  ⟨rfl, fun n hn => by rw [content_setContent, if_neg hn]⟩

theorem at?_congr (h : d'.directories = d.directories) : d'.at? = d.at? := by
  funext x
  rw [at?, at?, node?, node?, entries, entries, h]

theorem Lodged.congr (hp : Lodged d p x) (h : d'.directories = d.directories) : Lodged d' p x :=
  hp.mono fun y k hy => by rw [at?_congr h, hy]

/-- A path at which a file is seen is the path of that file. -/
theorem lodged_of_look (h : d.look p = .ok (some (.file n))) :
    ∃ x, Lodged d p x ∧ d.at? x = some (.file n) := by
  unfold look at h
  cases hr : d.resolve p with
  | error e =>
    rw [hr] at h
    cases h
  | ok place =>
    rw [hr] at h
    cases place with
    | within here => cases h
    | entry here name =>
      simp only [bind, Except.bind] at h
      by_cases hlong : Path.maxNameLength < Utf8.size name
      · simp only [find, if_pos hlong] at h
        cases h
      · simp only [find, if_neg hlong] at h
        cases hnode : d.node? here.directory name with
        | none =>
          rw [hnode] at h
          cases h
        | some node =>
          rw [hnode] at h
          cases node with
          | directory k => cases h
          | file k =>
            cases hplain : p.isDirectoryForm with
            | true =>
              rw [hplain] at h
              cases h
            | false =>
              rw [hplain] at h
              cases h
              exact ⟨(here.directory, name), ⟨⟨here, hr, rfl⟩, Nat.not_lt.1 hlong, hplain⟩, hnode⟩

theorem Lodged.look (hp : Lodged d p x) (hx : d.at? x = some (.file n)) :
    d.look p = .ok (some (.file n)) := by
  obtain ⟨here, hr, hd⟩ := hp.resolves
  rw [FileSystem.look, hr]
  simp only [bind, Except.bind, hd, hp.find, hx, hp.plain, Bool.false_eq_true, if_false]

/-! ### Operations -/

theorem operate_ok {f : FileSystem → Except Refusal (α × FileSystem)} {a : α}
    (h : (operate f).result d = (.ok a, d')) : f d.tick = .ok (a, d') := by
  rw [operate_eq] at h
  split at h
  · cases h
  · split at h
    · cases h
    · next b d₁ hf =>
      cases h
      exact hf

/-- An operation that only looks. -/
theorem sameFiles_operate {f : FileSystem → Except Refusal (α × FileSystem)}
    (hf : ∀ a d', f d.tick = .ok (a, d') → d' = d.tick) : SameFiles d ((operate f).result d).2 := by
  rw [operate_eq]
  split
  · exact sameFiles_tick d
  · split
    · exact sameFiles_tick d
    · next a d₁ hr =>
      rw [hf a d₁ hr]
      exact sameFiles_tick d

theorem sameFiles_sync (n : Nat) (d : FileSystem) : SameFiles d ((sync n).result d).2 :=
  sameFiles_operate fun a d' h => by
    cases h
    rfl

theorem sameFiles_fileSize (n : Nat) (d : FileSystem) : SameFiles d ((fileSize n).result d).2 :=
  sameFiles_operate fun a d' h => by
    cases h
    rfl

theorem sameFiles_sizeAt (p : Path) (d : FileSystem) : SameFiles d ((sizeAt p).result d).2 := by
  apply sameFiles_operate
  intro a d' h
  cases hl : d.tick.look p with
  | error e =>
    rw [hl] at h
    cases h
  | ok found =>
    rw [hl] at h
    rcases found with _ | ⟨k | k⟩ <;> cases h <;> rfl

/-- Taking a name away changes no file. -/
theorem contents_unlink (p : Path) (d : FileSystem) :
    ((unlink p).result d).2.contents = d.contents := by
  rw [unlink, operate_eq]
  split
  · rfl
  · split
    · rfl
    · next a d₁ h =>
      cases hr : d.tick.resolve p with
      | error e =>
        rw [hr] at h
        cases h
      | ok place =>
        rw [hr] at h
        cases place with
        | within here => cases h
        | entry here name =>
          simp only [bind, Except.bind] at h
          split at h
          · cases h
          · split at h
            · cases h
            · cases h
            · split at h
              · cases h
              · cases h
                rfl

theorem contents_unlinkIfPresent (p : Path) (d : FileSystem) :
    ((unlinkIfPresent p).result d).2.contents = d.contents := by
  have h := contents_unlink p d
  rw [unlinkIfPresent, Action.result_bind, Action.result_attempt]
  rcases hr : (unlink p).result d with ⟨e | u, d₁⟩
  · rw [hr] at h
    cases e <;> exact h
  · rw [hr] at h
    exact h

/-- A file that could be moved is seen at its new path, and no file has changed. -/
theorem rename_ok (hp : Lodged d p x) (hx : d.at? x = some (.file n))
    (h : (rename p q).result d = (.ok (), d')) :
    d'.contents = d.contents ∧ ∃ y, Lodged d' q y ∧ d'.at? y = some (.file n) := by
  have hf := operate_ok h
  have hl := hp.tick
  obtain ⟨before, hr, hb⟩ := hl.resolves
  cases hq : d.tick.resolve q with
  | error e =>
    rw [hr, hq] at hf
    cases hf
  | ok place =>
    rw [hr, hq] at hf
    cases place with
    | within behind => cases hf
    | entry behind new =>
      simp only [bind, Except.bind, hb, hl.find, at?_tick, hx, hl.plain, Bool.false_or] at hf
      by_cases hlong : Path.maxNameLength < Utf8.size new
      · simp only [find, if_pos hlong] at hf
        cases hf
      · simp only [find, if_neg hlong] at hf
        cases hplain : q.isDirectoryForm with
        | true =>
          rw [hplain] at hf
          cases hf
        | false =>
          rw [hplain] at hf
          -- what lay at the new path was a file or nothing, and so no way has changed
          have hmoved : d' = (d.tick.removeEntry x.1 x.2).setEntry behind.directory new (.file n) ∧
              ∀ k, d.at? (behind.directory, new) ≠ some (.directory k) := by
            simp only [Bool.false_eq_true, if_false] at hf
            split at hf
            · cases hf
            · next hfound =>
              cases hf
              exact ⟨rfl, fun k hk => hfound k hk⟩
          obtain ⟨rfl, hfound⟩ := hmoved
          have hat : ∀ z, ((d.tick.removeEntry x.1 x.2).setEntry behind.directory new
              (.file n)).at? z = if z = (behind.directory, new) then some (.file n)
                else (d.tick.removeEntry x.1 x.2).at? z := fun z =>
            at?_setEntry _ (behind.directory, new) z _
          have hlodged : Lodged d.tick q (behind.directory, new) :=
            ⟨⟨behind, hq, rfl⟩, Nat.not_lt.1 hlong, hplain⟩
          refine ⟨rfl, (behind.directory, new), hlodged.mono ?_, ?_⟩
          · intro z k hz
            rw [at?_tick] at hz
            rw [hat, if_neg, at?_removeEntry, if_neg]
            · exact hz
            · intro heq
              rw [heq, hx] at hz
              cases hz
            · intro heq
              exact hfound k (heq ▸ hz)
          · rw [hat, if_pos rfl]

theorem openFile_ok (hp : Lodged d p x) (hx : d.at? x = some (.file n))
    (h : (openFile p).result d = (.ok m, d')) : m = n ∧ d' = d.tick := by
  have hf := operate_ok h
  obtain ⟨here, hr, hd⟩ := hp.tick.resolves
  rw [hr] at hf
  simp only [bind, Except.bind, hp.plain, hd, hp.tick.find, at?_tick, hx, Bool.false_eq_true,
    if_false] at hf
  cases hf
  exact ⟨rfl, rfl⟩

theorem resize_ok {size : Nat} (h : (resize m size).result d = (.ok (), d')) :
    d' = d.tick.setContent m ((d.content m).resize size) := by
  have hf := operate_ok h
  split at hf
  · cases hf
  · cases hf
    rfl

theorem writeAt_ok {offset : Nat} {bytes : Bytes} (hne : bytes.isEmpty = false)
    (h : (writeAt m offset bytes).result d = (.ok (), d')) :
    d' = d.tick.setContent m ((d.content m).write offset bytes) := by
  rw [writeAt_eq m offset hne] at h
  split at h
  · cases h
  · cases hfault : d.faults d.attempts with
    | some fault =>
      rw [hfault] at h
      cases h
    | none =>
      rw [hfault] at h
      simp only [written, hne, Bool.false_eq_true, if_false] at h
      cases h
      rfl

/-- What a read answers where nothing fails. -/
theorem answer_readAt (m offset length : Nat) (d : FileSystem) :
    ((readAt m offset length).result d.calmed).1 =
      if length = 0 then .ok []
      else if maxPosition < offset + length then .error .invalidInput
      else match (d.content m).read? offset length with
        | some bytes => .ok bytes
        | none => .error .shortRead := by
  have hcontent : d.calmed.tick.content m = d.content m := rfl
  unfold readAt
  split
  · rfl
  · rw [result_operate fun _ => rfl, hcontent]
    by_cases hlt : maxPosition < offset + length
    · simp only [if_pos hlt]
    · simp only [if_neg hlt]
      cases (d.content m).read? offset length <;> rfl

end FileSystem

/-! ### Record files -/

namespace RecordFile

variable {d : FileSystem} {f : RecordFile} {p : Path} {x : Spot} {n : Nat}

/-- The number and the bytes of the file that is open. -/
def opened (d : FileSystem) (f : RecordFile) : Option (Nat × Bytes) :=
  f.handle.map fun n => (n, (d.content n).toList)

theorem shadowed_close_still (d : FileSystem) (f : RecordFile) :
    Shadowed (onFiles unchanged) close.result (d, f) () fun _ q _ =>
      SameFiles d q.1 ∧ q.2 = { f with handle := none } := by
  unfold close
  apply FileAction.shadowed_value_bind
  obtain ⟨path, _ | n, length⟩ := f
  · exact Action.shadowed_pure ⟨.refl d, rfl⟩
  · apply FileAction.shadowed_change_bind
    apply FileAction.shadowed_onDisk
    exact shadowed_unchanged ⟨sameFiles_sync n d, rfl⟩

theorem sameFiles_sync (f : RecordFile) (d : FileSystem) : SameFiles d (f.sync.result d).2 := by
  rw [sync, Action.result_bind, Action.result_liftM, number]
  cases f.handle with
  | none => exact .refl d
  | some n =>
    simp only [Action.result_lift]
    exact FileSystem.sameFiles_sync n d

/-- The file of number `m` has been made to hold `bytes`. -/
structure Rewritten (bytes : Bytes) (m : Nat) (d : FileSystem) (f : RecordFile) (d' : FileSystem)
    (f' : RecordFile) : Prop where
  handle : f.handle = some m
  stillOpen : f'.handle = some m
  edited : Edited m d d'
  content : (d'.content m).toList = bytes

theorem Rewritten.frame {bytes : Bytes} {m : Nat} {d' d'' : FileSystem} {f' : RecordFile}
    (h : Rewritten bytes m d f d' f') (hd : SameFiles d' d'') : Rewritten bytes m d f d'' f' :=
  ⟨h.handle, h.stillOpen, h.edited.trans (hd.edited m),
    by rw [content_congr hd.contents, h.content]⟩

theorem shadowed_truncate_rewritten (d : FileSystem) (f : RecordFile) :
    Shadowed (onFiles unchanged) truncate.result (d, f) () fun r q _ =>
      r = .ok () → ∃ m, Rewritten [] m d f q.1 q.2 := by
  unfold truncate
  apply shadowed_openNumber_bind
  · intro h
    cases h
  intro m hm
  apply Action.shadowed_bind
  apply FileAction.shadowed_onDisk
  refine shadowed_unchanged ?_
  rcases hr : (resize m 0).result d with ⟨e | u, d₁⟩
  · intro h
    cases h
  · have hd₁ := resize_ok hr
    have hempty : ((d.content m).resize 0).toList = [] := by
      rw [Content.toList_resize, List.take_zero, Nat.zero_sub]
      rfl
    refine FileAction.shadowed_change fun _ => ⟨m, hm, hm, ?_, ?_⟩
    · exact hd₁ ▸ ((sameFiles_tick d).edited m).trans (edited_setContent _ m _)
    · show (d₁.content m).toList = []
      rw [hd₁, content_setContent, if_pos rfl, hempty]

theorem shadowed_overwrite_rewritten (d : FileSystem) (f : RecordFile) {bytes : Bytes}
    (hne : bytes.isEmpty = false) :
    Shadowed (onFiles unchanged) (overwrite bytes).result (d, f) () fun r q _ =>
      r = .ok () → ∃ m, Rewritten bytes m d f q.1 q.2 := by
  unfold overwrite
  apply Action.shadowed_bind
  refine (shadowed_truncate_rewritten d f).mono ?_
  rintro (e | u) ⟨d₁, f₁⟩ - h₁
  · intro h
    cases h
  obtain ⟨m, hm, hm₁, he₁, hb₁⟩ := h₁ rfl
  unfold write
  apply shadowed_openNumber_bind
  · intro h
    cases h
  intro m' hm'
  obtain rfl : m' = m := Option.some.inj (hm'.symm.trans hm₁)
  apply Action.shadowed_bind
  apply FileAction.shadowed_onDisk
  refine shadowed_unchanged ?_
  rcases hr : (writeAt m' (0 : UInt64).toNat bytes).result d₁ with ⟨e | u, d₂⟩
  · intro h
    cases h
  · have hd₂ := writeAt_ok hne hr
    refine FileAction.shadowed_change fun _ => ⟨m', hm, hm₁, he₁.trans ?_, ?_⟩
    · exact hd₂ ▸ ((sameFiles_tick d₁).edited m').trans (edited_setContent _ m' _)
    · -- in front of what an empty file holds there is room for all bytes
      have hsize : (d₁.content m').size = 0 := by rw [← Content.length_toList, hb₁]; rfl
      show (d₂.content m').toList = bytes
      rw [hd₂, content_setContent, if_pos rfl, Content.toList_write, hb₁, hsize]
      simp

/-- What a read answers depends on what the open file holds. -/
theorem result_read_congr {d' : FileSystem} (h : d'.contents = d.contents) (f : RecordFile)
    (slot : Slot) : ((f.read slot).result d'.calmed).1 = ((f.read slot).result d.calmed).1 := by
  rw [read, Action.result_bind, Action.result_bind, Action.result_liftM, Action.result_liftM]
  cases f.number with
  | error e => rfl
  | ok m =>
    dsimp only
    split
    · rw [Action.result_lift, Action.result_lift, answer_readAt, answer_readAt, content_congr h]
    · rfl

/-- What is opened where a file is seen is that file. -/
theorem shadowed_openAt_lodged (hp : Lodged d p x) (hx : d.at? x = some (.file n)) :
    Shadowed unchanged (openAt p).result d () fun r d' _ =>
      ∀ f, r = .ok f → SameFiles d d' ∧
        f = { path := p, handle := some n, length := UInt64.ofNat (d.content n).size } := by
  unfold openAt
  apply Action.shadowed_bind
  apply Action.shadowed_failingAs
  refine shadowed_unchanged ?_
  rcases hr : (openFile p).result d with ⟨e | m, d₁⟩
  · intro f h
    cases h
  obtain ⟨rfl, rfl⟩ := openFile_ok hp hx hr
  apply Action.shadowed_bind
  apply Action.shadowed_failingAs
  refine shadowed_unchanged ?_
  have hsame := sameFiles_fileSize m d.tick
  rcases hs : (fileSize m).result d.tick with ⟨e | size, d₂⟩
  · intro f h
    cases h
  rw [hs] at hsame
  have hsize : size = (d.content m).size := by
    have hf := operate_ok hs
    cases hf
    rfl
  refine Action.shadowed_pure fun f h => ?_
  cases h
  rw [hsize]
  exact ⟨(sameFiles_tick d).trans hsame, rfl⟩

end RecordFile

/-! ### Drafts -/

namespace Draft

/-- The index of the draft is one, and the file that it has open is the one at its path, where it
has the number `n`. -/
structure InPlace (d : FileSystem) (dr : Draft) (n : Nat) : Prop where
  coherent : dr.index.Coherent
  handle : dr.file.handle = some n
  look : d.look dr.file.path = .ok (some (.file n))

theorem contents_abandon (dr : Draft) (d : FileSystem) :
    (dr.abandon.result d).2.contents = d.contents := by
  obtain ⟨-, hsame, -⟩ := (RecordFile.shadowed_close_still d dr.file).post
  rw [abandon, Action.result_regardless, RecordFile.delete, Action.result_bind,
    FileAction.result_startingWith]
  rcases hr : RecordFile.close.result (d, dr.file) with ⟨e | u, d₁, f⟩
  · rw [hr] at hsame
    exact hsame.contents
  · rw [hr] at hsame
    simp only [Action.result_lift]
    rw [contents_unlinkIfPresent, hsame.contents]

end Draft

/-! ### Stores -/

namespace Store

variable {d d' : FileSystem} {dr : Draft} {s s' : Store} {index : Index} {p : Path} {x : Spot}
  {n : Nat} {r : Except Error Unit}

/-- Whatever comes of a save, it changes nothing in memory; one that succeeds has made the key file
list the index. -/
theorem shadowed_saveKeys_listing (h : s.index.Coherent) (d : FileSystem) :
    Shadowed (onFiles unchanged) saveKeys.result (d, s) () fun r q _ =>
      (∃ f, q.2 = { s with keyFile := f }) ∧
        (r = .ok () → ∃ m, RecordFile.Rewritten (listing s.index.toList) m d s.keyFile q.1
          q.2.keyFile) := by
  have hsync : ∀ (d₁ : FileSystem) (f : RecordFile) (m : Nat),
      RecordFile.Rewritten (listing s.index.toList) m d s.keyFile d₁ f →
      Shadowed (onFiles unchanged)
        (do let s ← FileAction.value; FileAction.onDisk .file s.keyFile.sync : Change Unit).result
        (d₁, { s with keyFile := f }) () fun r q _ =>
          (∃ f, q.2 = { s with keyFile := f }) ∧
            (r = .ok () → ∃ m, RecordFile.Rewritten (listing s.index.toList) m d s.keyFile q.1
              q.2.keyFile) := by
    intro d₁ f m hf
    apply FileAction.shadowed_value_bind
    apply FileAction.shadowed_onDisk
    exact shadowed_unchanged ⟨⟨f, rfl⟩, fun _ => ⟨m, hf.frame (RecordFile.sameFiles_sync f d₁)⟩⟩
  have hlist := h.isEmpty_iff
  unfold saveKeys
  apply FileAction.shadowed_value_bind
  dsimp only
  split
  · next hempty =>
    have hnone : listing s.index.toList = [] := if_pos (hlist.1 hempty)
    apply Action.shadowed_bind
    apply shadowed_onKeys
    refine (RecordFile.shadowed_truncate_rewritten d s.keyFile).mono ?_
    intro r q u hq
    cases r with
    | error e => exact ⟨⟨q.2, rfl⟩, nofun⟩
    | ok u =>
      obtain ⟨m, hm⟩ := hq rfl
      exact hsync q.1 q.2 m (hnone ▸ hm)
  · next hempty =>
    have hsome : listing s.index.toList = s.index.snapshot :=
      if_neg fun hnil => hempty (hlist.2 hnil)
    have hne : s.index.snapshot.isEmpty = false := by
      rw [List.isEmpty_eq_false_iff]
      exact Index.Snapshot.encode_ne_nil _
    apply Action.shadowed_bind
    apply shadowed_onKeys
    refine (RecordFile.shadowed_overwrite_rewritten d s.keyFile hne).mono ?_
    intro r q u hq
    cases r with
    | error e => exact ⟨⟨q.2, rfl⟩, nofun⟩
    | ok u =>
      obtain ⟨m, hm⟩ := hq rfl
      exact hsync q.1 q.2 m (hsome ▸ hm)

/-- A reset forgets everything, however little of it is carried through. -/
theorem shadowed_reset_forgets (s : Store) :
    Shadowed (onFiles unchanged) reset.result (d, s) () fun _ q _ =>
      q.2.index = .empty s.index.capacity ∧ q.2.free = .empty s.free.capacity ∧
        q.2.generation = s.generation + 1 := by
  unfold reset
  apply FileAction.shadowed_change_bind
  apply Action.shadowed_bind
  apply Action.shadowed_regardless
  apply shadowed_onData
  refine (FileAction.shadowed_anyhow _ _).mono ?_
  intro r₁ q₁ u _
  apply Action.shadowed_bind
  apply Action.shadowed_regardless
  apply shadowed_onKeys
  refine (FileAction.shadowed_anyhow _ _).mono ?_
  intro r₂ q₂ u _
  apply FileAction.shadowed_value_bind
  apply Action.shadowed_bind
  apply FileAction.shadowed_onDisk
  refine (shadowed_anyhow _ _).mono ?_
  intro r₃ d₃ u _
  cases r₃ with
  | error e => exact ⟨rfl, rfl, rfl⟩
  | ok u =>
  apply Action.shadowed_bind
  apply FileAction.shadowed_onDisk
  refine (shadowed_anyhow _ _).mono ?_
  intro r₄ d₄ u _
  cases r₄ with
  | error e => exact ⟨rfl, rfl, rfl⟩
  | ok u =>
  apply Action.shadowed_bind
  apply FileAction.shadowed_onDisk
  refine (shadowed_anyhow _ _).mono ?_
  intro r₅ d₅ u _
  cases r₅ with
  | error e => exact ⟨rfl, rfl, rfl⟩
  | ok f =>
  apply FileAction.shadowed_change_bind
  apply Action.shadowed_bind
  apply FileAction.shadowed_onDisk
  refine (shadowed_anyhow _ _).mono ?_
  intro r₆ d₆ u _
  cases r₆ with
  | error e => exact ⟨rfl, rfl, rfl⟩
  | ok g => exact FileAction.shadowed_change ⟨rfl, rfl, rfl⟩

/-- The store has the file of number `n` for its data file, with the bytes that the file had, and
the index `i` that goes with it, which the key file lists. -/
structure Installed (n : Nat) (i : Index) (d : FileSystem) (s : Store) (d' : FileSystem)
    (s' : Store) : Prop where
  index : s'.index = i
  free : s'.free = .empty s.free.capacity
  dataFile : s'.dataFile =
    { path := s.dataFile.path, handle := some n, length := UInt64.ofNat (d.content n).size }
  look : d'.look s.dataFile.path = .ok (some (.file n))
  content : d'.content n = d.content n
  keys : (s'.keyFile.opened d').map (·.2) = some (listing i.toList)

/-- Once the draft is closed it becomes the data file, or something fails; then what the store still
has is not told. -/
theorem shadowed_replace_installed (hp : Lodged d p x) (hx : d.at? x = some (.file n))
    (hk : s.keyFile.handle ≠ some n) (hi : index.Coherent)
    (hcap : index.capacity = s.index.capacity) :
    Shadowed (onFiles unchanged) (replace p index).result (d, s) () fun r q _ =>
      Like s q.2 ∧ (r = .ok () → Installed n index d s q.1 q.2) := by
  unfold replace
  apply FileAction.shadowed_value_bind
  apply Action.shadowed_bind
  apply FileAction.shadowed_onDisk
  apply Action.shadowed_failingAs
  refine shadowed_unchanged ?_
  have h₁ := sameFiles_sizeAt p d
  generalize (sizeAt p).result d = q₁ at h₁ ⊢
  obtain ⟨e | size, d₁⟩ := q₁
  · exact ⟨⟨rfl, rfl, rfl⟩, nofun⟩
  -- the key file is emptied, and the data file closed
  apply Action.shadowed_bind
  apply shadowed_onKeys
  refine (RecordFile.shadowed_truncate_rewritten d₁ s.keyFile).mono ?_
  intro r₂ q₂ u h₂
  cases r₂ with
  | error e => exact ⟨⟨rfl, rfl, rfl⟩, nofun⟩
  | ok u =>
  obtain ⟨m, hm, hm₂, he₂, -⟩ := h₂ rfl
  apply Action.shadowed_bind
  apply shadowed_onData
  refine (RecordFile.shadowed_close_still q₂.1 s.dataFile).mono ?_
  intro r₃ q₃ u h₃
  cases r₃ with
  | error e => exact ⟨⟨rfl, rfl, rfl⟩, nofun⟩
  | ok u =>
  have he₃ : Edited m d q₃.1 := (h₁.edited m).trans (he₂.trans (h₃.1.edited m))
  -- the draft takes the name of the data file
  apply Action.shadowed_bind
  apply FileAction.shadowed_onDisk
  apply Action.shadowed_failingAs
  refine shadowed_unchanged ?_
  rcases hr₄ : (rename p s.dataFile.path).result q₃.1 with ⟨e | u, d₄⟩
  · exact ⟨⟨rfl, rfl, rfl⟩, nofun⟩
  obtain ⟨hc₄, y, hy, hn₄⟩ := rename_ok (hp.congr he₃.directories)
    (by rw [at?_congr he₃.directories, hx]) hr₄
  apply Action.shadowed_bind
  apply FileAction.shadowed_onDisk
  refine (RecordFile.shadowed_openAt_lodged hy hn₄).mono ?_
  intro r₅ d₅ u h₅
  cases r₅ with
  | error e => exact ⟨⟨rfl, rfl, rfl⟩, nofun⟩
  | ok f =>
  obtain ⟨hsame₅, hf⟩ := h₅ f rfl
  -- and the index goes with it
  apply FileAction.shadowed_change_bind
  refine (shadowed_saveKeys_listing hi d₅).mono ?_
  intro r₆ q₆ u h₆
  obtain ⟨⟨g, hg⟩, hsaved⟩ := h₆
  refine ⟨⟨by rw [hg], by rw [hg]; exact hcap, by rw [hg]; rfl⟩, fun hr => ?_⟩
  obtain ⟨m', hm', hm₆, he₆, hb₆⟩ := hsaved hr
  obtain rfl : m' = m := Option.some.inj (hm'.symm.trans hm₂)
  have hnm : n ≠ m' := fun heq => hk (heq ▸ hm)
  have hcontent : d₄.content n = d.content n :=
    (content_congr hc₄ n).trans (he₃.contents n hnm)
  have hdirs : q₆.1.directories = d₄.directories :=
    he₆.directories.trans hsame₅.directories
  refine ⟨by rw [hg], by rw [hg], ?_, ?_, ?_, ?_⟩
  · rw [hg, ← hcontent]
    exact hf
  · exact (hy.congr hdirs).look (by rw [at?_congr hdirs, hn₄])
  · rw [he₆.contents n hnm, content_congr hsame₅.contents, hcontent]
  · rw [RecordFile.opened, hm₆, ← hb₆]
    rfl

/-- Whatever fails, the store has the draft in the end, or it is as it was and no file has changed,
or it is reset. -/
theorem shadowed_installDraft_cases (hd : dr.InPlace d n) (hk : s.keyFile.handle ≠ some n) :
    Shadowed (onFiles unchanged) (installDraft dr).result (d, s) () fun r q _ =>
      r = .ok () ∧ Installed n (dr.indexFor s) d s q.1 q.2 ∨
        (∃ e, r = .error e) ∧ (q.2 = s ∧ q.1.contents = d.contents ∨
          q.2.index = .empty s.index.capacity ∧ q.2.free = .empty s.free.capacity) := by
  obtain ⟨x, hp, hx⟩ := lodged_of_look hd.look
  obtain ⟨hi, hcap, -⟩ := Draft.toList_indexFor hd.coherent s
  unfold installDraft
  apply FileAction.shadowed_value_bind
  apply Action.shadowed_bind
  apply Action.shadowed_attempt
  apply FileAction.shadowed_onDisk
  apply FileAction.shadowed_startingWith
  refine (RecordFile.shadowed_close_still d dr.file).mono ?_
  intro r₁ q₁ u h₁
  obtain ⟨h₁, -⟩ := h₁
  cases r₁ with
  | error e =>
    apply Action.shadowed_bind
    apply FileAction.shadowed_onDisk
    refine shadowed_unchanged ?_
    have h₂ := Draft.contents_abandon { dr with file.handle := none } q₁.1
    generalize Action.result _ q₁.1 = q₂ at h₂ ⊢
    obtain ⟨e | u, d₂⟩ := q₂
    · exact .inr ⟨⟨_, rfl⟩, .inl ⟨rfl, h₂.trans h₁.contents⟩⟩
    · exact Action.shadowed_throw (.inr ⟨⟨_, rfl⟩, .inl ⟨rfl, h₂.trans h₁.contents⟩⟩)
  | ok u =>
    apply Action.shadowed_bind
    apply Action.shadowed_attempt
    refine (shadowed_replace_installed (hp.congr h₁.directories)
      (by rw [at?_congr h₁.directories, hx]) hk hi hcap).mono ?_
    intro r₂ q₂ u h₂
    obtain ⟨hlike, hok⟩ := h₂
    cases r₂ with
    | error e =>
      -- what the store still has is not known here, but a reset leaves nothing of it
      apply Action.shadowed_bind
      refine (shadowed_reset_forgets q₂.2).mono ?_
      intro r₃ q₃ u h₃
      obtain ⟨hindex, hfree, -⟩ := h₃
      rw [hlike.capacity] at hindex
      rw [hlike.freeCapacity] at hfree
      cases r₃ with
      | error e => exact .inr ⟨⟨_, rfl⟩, .inr ⟨hindex, hfree⟩⟩
      | ok u => exact Action.shadowed_throw (.inr ⟨⟨_, rfl⟩, .inr ⟨hindex, hfree⟩⟩)
    | ok u =>
      have hcontent := content_congr h₁.contents n
      obtain ⟨hindex, hfree, hfile, hlook, hbytes, hkeys⟩ := hok rfl
      exact Action.shadowed_pure (.inl ⟨rfl, hindex, hfree, hcontent ▸ hfile, hlook,
        hbytes.trans hcontent, hkeys⟩)

/-- Whichever operations fail while a draft is installed, in memory all is done or nothing is kept
that describes another file. A success gives the store the entries of the draft whose keys it had,
of too many the newest, the file of the draft, no free slots, and a key file that lists its index.
After a failure the index, the free list and the data file are what they were, or there is neither a
key nor a free slot. So if the slots of the store were those of its open file, and the slots of the
draft those of its own, then the slots of the store are those of the file that it has open. -/
theorem installDraft_all_or_nothing (hd : dr.InPlace d n) (hk : s.keyFile.handle ≠ some n)
    (h : (installDraft dr).result (d, s) = (r, (d', s'))) :
    (r = .ok () →
      s'.index.toList = newest s.index.capacity (dr.index.toList.filter (s.index.contains ·.1)) ∧
      s'.index.capacity = s.index.capacity ∧ s'.free = .empty s.free.capacity ∧
      s'.dataFile.path = s.dataFile.path ∧ s'.dataFile.opened d' = dr.file.opened d ∧
      s'.dataFile.length = UInt64.ofNat (d.content n).size ∧
      d'.look s'.dataFile.path = .ok (some (.file n)) ∧
      (s'.keyFile.opened d').map (·.2) = some (listing s'.index.toList)) ∧
    (∀ e, r = .error e →
      s'.index = s.index ∧ s'.free = s.free ∧ s'.dataFile = s.dataFile ∧
          s'.dataFile.opened d' = s.dataFile.opened d ∨
        s'.index = .empty s.index.capacity ∧ s'.free = .empty s.free.capacity) ∧
    ∀ describes : Slot → Option (Nat × Bytes) → Prop,
      (∀ slot ∈ s.slots, describes slot (s.dataFile.opened d)) →
      (∀ slot ∈ dr.index.slots, describes slot (dr.file.opened d)) →
        ∀ slot ∈ s'.slots, describes slot (s'.dataFile.opened d') := by
  have hcases := (shadowed_installDraft_cases (s := s) hd hk).post
  rw [h] at hcases
  obtain ⟨-, ⟨rfl, hinst⟩ | ⟨⟨e, rfl⟩, ⟨rfl, hcontents⟩ | ⟨hindex, hfree⟩⟩⟩ := hcases
  · obtain ⟨hi, hcap, hlist⟩ := Draft.toList_indexFor hd.coherent s
    have hopened : s'.dataFile.opened d' = dr.file.opened d := by
      rw [RecordFile.opened, RecordFile.opened, hinst.dataFile, hd.handle, Option.map_some,
        Option.map_some, hinst.content]
    have hpath : s'.dataFile.path = s.dataFile.path := by rw [hinst.dataFile]
    refine ⟨fun _ => ⟨?_, ?_, hinst.free, hpath, hopened, ?_, ?_, ?_⟩, by rintro _ ⟨⟩, ?_⟩
    · rw [hinst.index, hlist]
    · rw [hinst.index, hcap]
    · rw [hinst.dataFile]
    · rw [hpath]
      exact hinst.look
    · rw [hinst.keys, hinst.index]
    · intro describes _ hdraft slot hslot
      rw [slots, hinst.free, FreeList.toList_empty, List.append_nil, Index.slots, hinst.index,
        hlist] at hslot
      have hsub := ((List.drop_sublist _ _).trans List.filter_sublist).map Prod.snd |>.subset hslot
      exact hopened ▸ hdraft slot hsub
  · have hopened : s'.dataFile.opened d' = s'.dataFile.opened d := by
      simp only [RecordFile.opened, content_congr hcontents]
    refine ⟨by rintro ⟨⟩, fun e _ => .inl ⟨rfl, rfl, rfl, hopened⟩, ?_⟩
    intro describes hlive _ slot hslot
    exact hopened ▸ hlive slot hslot
  · refine ⟨by rintro ⟨⟩, fun e _ => .inr ⟨hindex, hfree⟩, ?_⟩
    intro describes _ _ slot hslot
    rw [slots, hfree, FreeList.toList_empty, Index.slots, hindex] at hslot
    cases hslot

/-- A store with one key after another was removed, and a draft that has its record. -/
def withDraft? : Option (FileSystem × Store × Draft) := do
  let p ← Region.opened? (Region.roomFor 2) .empty
  let p := ((Call.put (Region.note "x" [1, 2])).perform.result p).2
  let p := ((Call.put (Region.note "y" [1])).perform.result p).2
  let (d, r) := ((Call.remove (.name "x")).perform.result p).2
  match (Draft.begin r.config.draftFile).result d with
  | (.ok dr, d) =>
    match (dr.copyAll r.store r.store.index.keys).result d with
    | (.ok dr, d) => some (d, r.store, dr)
    | _ => none
  | _ => none

/-- Of the operations to come those with the given numbers fail. -/
def failing (numbers : List Nat) (d : FileSystem) : FileSystem :=
  { d with faults := fun n =>
      if n ∈ numbers.map (d.attempts + ·) then some ⟨.deviceFailure, 0⟩ else none }

/-- The draft is installed if all goes well. If it cannot be given the name of the data file, and
then the key file cannot be removed either, nothing is left. -/
theorem installed_or_emptied : ∃ (d : FileSystem) (s : Store) (dr : Draft) (n : Nat)
    (q q' : FileSystem × Store) (e : Error),
    dr.InPlace d n ∧ dr.InPlace (failing [4, 7] d) n ∧ s.keyFile.handle ≠ some n ∧
    s.slots = [⟨102, 100⟩, ⟨0, 102⟩] ∧
    (installDraft dr).result (d, s) = (.ok (), q) ∧ q.2.index.toList = [(.name "y", ⟨0, 100⟩)] ∧
    q.2.dataFile.opened q.1 = dr.file.opened d ∧
    (installDraft dr).result (failing [4, 7] d, s) = (.error e, q') ∧
    q'.2.index = .empty 2 ∧ q'.2.free = .empty 1 := by
  have h : (withDraft?.map fun (d, s, dr) =>
      decide (d.look dr.file.path = .ok (dr.file.handle.map .file) ∧ dr.file.handle.isSome ∧
        s.keyFile.handle ≠ dr.file.handle ∧ s.index.capacity = 2 ∧ s.free.capacity = 1 ∧
        dr.index = ((Index.empty Index.unbounded).insert (.name "y") ⟨0, 100⟩).index ∧
        s.slots = [⟨102, 100⟩, ⟨0, 102⟩] ∧ s.index.contains (.name "y") ∧
        ((installDraft dr).result (d, s)).1 = .ok () ∧
        ((installDraft dr).result (failing [4, 7] d, s)).1 =
          .error (.file (.refused .deviceFailure)) ∧
        ((installDraft dr).result (failing [4, 7] d, s)).2.2.index ≠ s.index)) = some true := by
    decide +kernel
  obtain ⟨⟨d, s, dr⟩, -, h⟩ := Option.map_eq_some_iff.1 h
  obtain ⟨hlook, hopen, hk, hcap, hfreeCap, hindex, hslots, hy, hok, herr, hne⟩ :=
    of_decide_eq_true h
  obtain ⟨n, hn⟩ := Option.isSome_iff_exists.1 hopen
  rw [hn] at hlook hk
  have hd : dr.InPlace d n := by
    refine ⟨?_, hn, hlook⟩
    rw [hindex]
    exact ((Index.empty_coherent _).insert _ _).2.2.1
  have hd' : dr.InPlace (failing [4, 7] d) n := by
    refine ⟨hd.coherent, hn, ?_⟩
    obtain ⟨x, hp, hx⟩ := lodged_of_look hlook
    have hp' : Lodged (failing [4, 7] d) dr.file.path x := hp.congr rfl
    exact hp'.look hx
  obtain ⟨hinst, -⟩ := installDraft_all_or_nothing hd hk (Prod.ext hok rfl)
  obtain ⟨-, hfail, -⟩ := installDraft_all_or_nothing hd' hk (Prod.ext herr rfl)
  obtain ⟨hlist, -, -, -, hopened, -⟩ := hinst rfl
  refine ⟨d, s, dr, n, _, _, _, hd, hd', hk, hslots, Prod.ext hok rfl, ?_, hopened,
    Prod.ext herr rfl, ?_⟩
  · rw [hlist, hcap, hindex]
    have hentries : ((Index.empty Index.unbounded).insert (.name "y") ⟨0, 100⟩).index.toList =
        [(.name "y", ⟨0, 100⟩)] := by decide
    rw [hentries, List.filter_cons_of_pos (by exact hy)]
    rfl
  · rcases hfail _ rfl with ⟨hsame, -⟩ | ⟨hindex', hfree'⟩
    · exact absurd hsame hne
    · exact ⟨hcap ▸ hindex', hfreeCap ▸ hfree'⟩

/-! ### Failures before the data file is closed -/

/-- What a read answers depends on what files hold, not on their names. -/
theorem result_read_congr (h : d'.contents = d.contents) (s : Store) (k : Key) :
    ((s.read k).result d'.calmed).1 = ((s.read k).result d.calmed).1 := by
  have hread := fun slot => RecordFile.result_read_congr h s.dataFile slot
  unfold read
  cases s.index.get? k with
  | none => rfl
  | some slot =>
    specialize hread slot
    simp only [Action.result_bind, Action.result_failingAs]
    generalize (s.dataFile.read slot).result d'.calmed = q' at hread ⊢
    generalize (s.dataFile.read slot).result d.calmed = q at hread ⊢
    obtain ⟨e | record, d₁⟩ := q' <;> obtain ⟨e' | record', d₂⟩ := q <;> cases hread
    · rfl
    · simp only [Except.mapError]
      cases Element.decode record with
      | error fault => rfl
      | ok element =>
        dsimp only
        split <;> rfl

/-- The error of an installation that ended in a reset; what is left of the store then. -/
def Emptied (s : Store) (outcome : Except Error Unit × FileSystem × Store) : Prop :=
  (∃ e, outcome.1 = .error e) ∧ outcome.2.2.index = .empty s.index.capacity ∧
    outcome.2.2.free = .empty s.free.capacity ∧ outcome.2.2.generation = s.generation + 1

/-- Once the draft is closed, each failure of what follows ends in a reset. -/
theorem installDraft_of_replace_error {f : RecordFile} {d₁ d₂ : FileSystem} {s₂ : Store} {e : Error}
    (hclose : (RecordFile.close.startingWith dr.file).result d = (.ok ((), f), d₁))
    (hr : (replace dr.file.path (dr.indexFor s)).result (d₁, s) = (.error e, (d₂, s₂)))
    (hlike : Like s s₂) : Emptied s ((installDraft dr).result (d, s)) := by
  obtain ⟨-, hindex, hfree, hgen⟩ := (shadowed_reset_forgets (d := d₂) s₂).post
  rw [hlike.capacity] at hindex
  rw [hlike.freeCapacity] at hfree
  rw [hlike.generation] at hgen
  unfold installDraft
  rw [Action.result_bind, FileAction.result_value]
  simp only
  rw [Action.result_bind, Action.result_attempt, FileAction.result_onDisk, hclose]
  simp only [Except.mapError]
  rw [Action.result_bind, Action.result_attempt, hr]
  simp only
  rw [Action.result_bind]
  generalize reset.result (d₂, s₂) = q at hindex hfree hgen ⊢
  obtain ⟨e' | u, d₃, s₃⟩ := q
  · exact ⟨⟨_, rfl⟩, hindex, hfree, hgen⟩
  · exact ⟨⟨_, rfl⟩, hindex, hfree, hgen⟩

/-- If the draft cannot be closed, nothing is lost: the store is the same, every file holds what it
held, and each read answers what it answered. But if the draft has no size or the key file cannot be
emptied, the store is reset, although its data file is still open. -/
theorem installDraft_failing_early (dr : Draft) (d : FileSystem) (s : Store) :
    (∀ e d₁, (RecordFile.close.startingWith dr.file).result d = (.error e, d₁) →
      ∃ d', (installDraft dr).result (d, s) = (.error (.file e), (d', s)) ∧
        d'.contents = d.contents ∧
        ∀ k, ((s.read k).result d'.calmed).1 = ((s.read k).result d.calmed).1) ∧
    ∀ f d₁, (RecordFile.close.startingWith dr.file).result d = (.ok ((), f), d₁) →
      (∀ e d₂, (sizeAt dr.file.path).result d₁ = (.error e, d₂) →
        Emptied s ((installDraft dr).result (d, s))) ∧
      ∀ size d₂, (sizeAt dr.file.path).result d₁ = (.ok size, d₂) →
        ∀ e q, RecordFile.truncate.result (d₂, s.keyFile) = (.error e, q) →
          Emptied s ((installDraft dr).result (d, s)) := by
  refine ⟨fun e d₁ hclose => ?_, fun f d₁ hclose => ⟨fun e d₂ hsize => ?_, ?_⟩⟩
  · obtain ⟨-, hsame, -⟩ := (RecordFile.shadowed_close_still d dr.file).post
    have hcontents : d₁.contents = d.contents := by
      rw [FileAction.result_startingWith] at hclose
      rcases hr : RecordFile.close.result (d, dr.file) with ⟨e' | u, d₂, f⟩
      · rw [hr] at hclose hsame
        cases hclose
        exact hsame.contents
      · rw [hr] at hclose
        cases hclose
    have habandon := (Draft.contents_abandon { dr with file.handle := none } d₁).trans hcontents
    refine ⟨_, ?_, habandon, fun k => result_read_congr habandon s k⟩
    unfold installDraft
    rw [Action.result_bind, FileAction.result_value]
    simp only
    rw [Action.result_bind, Action.result_attempt, FileAction.result_onDisk, hclose]
    simp only [Except.mapError]
    rw [Action.result_bind, FileAction.result_onDisk]
    rfl
  · have hr : (replace dr.file.path (dr.indexFor s)).result (d₁, s) =
        (.error (.file (.refused e)), (d₂, s)) := by
      unfold replace
      rw [Action.result_bind, FileAction.result_value]
      simp only
      rw [Action.result_bind, FileAction.result_onDisk, Action.result_lift, hsize]
      rfl
    exact installDraft_of_replace_error hclose hr ⟨rfl, rfl, rfl⟩
  · intro size d₂ hsize e q hkeys
    have hr : (replace dr.file.path (dr.indexFor s)).result (d₁, s) =
        (.error (.file e), (q.1, { s with keyFile := q.2 })) := by
      unfold replace
      rw [Action.result_bind, FileAction.result_value]
      simp only
      rw [Action.result_bind, FileAction.result_onDisk, Action.result_lift, hsize]
      simp only [Except.mapError]
      rw [Action.result_bind, result_onKeys, hkeys]
      rfl
    exact installDraft_of_replace_error hclose hr ⟨rfl, rfl, rfl⟩

/-- If the draft cannot be forced to disk the key is still there; if the size of the draft cannot be
told it is gone. -/
theorem kept_or_emptied : ∃ (d : FileSystem) (s : Store) (dr : Draft), s.index.keys = [.name "y"] ∧
    (∃ e d', (installDraft dr).result (failing [0] d, s) = (.error e, (d', s)) ∧
      ((s.read (.name "y")).result d'.calmed).1 = .ok (some (Region.note "y" [1]))) ∧
    Emptied s ((installDraft dr).result (failing [1] d, s)) := by
  have h : (withDraft?.map fun (d, s, dr) =>
      let closed := (RecordFile.close.startingWith dr.file).result (failing [1] d)
      decide (s.index.keys = [.name "y"] ∧
        ((s.read (.name "y")).result (failing [0] d).calmed).1 =
          .ok (some (Region.note "y" [1])) ∧
        ((RecordFile.close.startingWith dr.file).result (failing [0] d)).1 =
          .error (.refused .deviceFailure) ∧
        closed.1 = .ok ((), { dr.file with handle := none }) ∧
        ((sizeAt dr.file.path).result closed.2).1 = .error .deviceFailure)) = some true := by
    decide +kernel
  obtain ⟨⟨d, s, dr⟩, -, h⟩ := Option.map_eq_some_iff.1 h
  obtain ⟨hkeys, hread, hclose, hclosed, hsize⟩ := of_decide_eq_true h
  obtain ⟨hkept, -⟩ := installDraft_failing_early dr (failing [0] d) s
  obtain ⟨-, hlost⟩ := installDraft_failing_early dr (failing [1] d) s
  obtain ⟨d', hr, -, hsame⟩ := hkept _ _ (Prod.ext hclose rfl)
  refine ⟨d, s, dr, hkeys, ⟨_, d', hr, (hsame _).trans hread⟩, ?_⟩
  exact (hlost _ _ (Prod.ext hclosed rfl)).1 _ _ (Prod.ext hsize rfl)

/-- A draft that others have removed takes the keys of the store with it: telling its size fails
while the data file of the store is open and whole. -/
theorem lost_with_the_draft : ∃ (d d₁ : FileSystem) (s : Store) (dr : Draft) (f : RecordFile)
    (q : FileSystem × Store), s.IsOpen ∧
    (RecordFile.close.startingWith dr.file).result d = (.ok ((), f), d₁) ∧
    ((sizeAt dr.file.path).result d₁).1 = .error .notFound ∧
    (installDraft dr).result (d, s) = (.error (.file (.refused .notFound)), q) ∧
    s.index.keys = [.name "y"] ∧ q.2.index.keys = [] ∧
    ((s.read (.name "y")).result d.calmed).1 = .ok (some (Region.note "y" [1])) ∧
    ((q.2.read (.name "y")).result q.1.calmed).1 = .ok none := by
  have h : (withDraft?.map fun (d, s, dr) =>
      let d := ((unlink dr.file.path).result d).2
      let closed := (RecordFile.close.startingWith dr.file).result d
      let installed := (installDraft dr).result (d, s)
      decide ((s.dataFile.isOpen ∧ s.keyFile.isOpen) ∧
        closed.1 = .ok ((), { dr.file with handle := none }) ∧
        ((sizeAt dr.file.path).result closed.2).1 = .error .notFound ∧
        installed.1 = .error (.file (.refused .notFound)) ∧
        s.index.keys = [.name "y"] ∧ installed.2.2.index.keys = [] ∧
        ((s.read (.name "y")).result d.calmed).1 = .ok (some (Region.note "y" [1])) ∧
        ((installed.2.2.read (.name "y")).result installed.2.1.calmed).1 = .ok none)) =
      some true := by
    decide +kernel
  obtain ⟨⟨d, s, dr⟩, -, h⟩ := Option.map_eq_some_iff.1 h
  obtain ⟨hopen, hclosed, hsize, hinstalled, hkeys, hgone, hread, hnone⟩ := of_decide_eq_true h
  exact ⟨_, _, s, dr, _, _, hopen, Prod.ext hclosed rfl, hsize, Prod.ext hinstalled rfl, hkeys,
    hgone, hread, hnone⟩

end Store

end DiskTier
