import DiskTier.Proofs.Paired.Disk

/-!
# Stores side by side

Two stores are `Level` if their files are abreast, they agree on the index and the free list, and
the left one is as many resets ahead as it was. The files may have other numbers, and keys may be
collected on one side alone.
Whatever is done to both, they answer the same and stay level.
-/

namespace DiskTier

open FileSystem RecordFile

variable {α : Type} {c : Config} {S : Store.Sides} {d d' e e' : FileSystem} {p : Path}
  {name : String} {N : String → Prop} {f f' : RecordFile}

/-! ### Record files -/

namespace RecordFile

open Store

/-- On both sides the file has the path `p` and the same length, and is closed or open as the one
that lies under the name. -/
structure Even (S : Sides) (d d' : FileSystem) (p : Path) (name : String) (f f' : RecordFile) :
    Prop where
  left : f.path = p
  right : f'.path = p
  length : f'.length = f.length
  handles : f.handle = none ∧ f'.handle = none ∨ ∃ n n', f.handle = some n ∧
    f'.handle = some n' ∧ d.at? (S.left name) = some (.file n) ∧
      d'.at? (S.right name) = some (.file n')

theorem Even.of_nodes (h : Even S d d' p name f f')
    (hx : e.at? (S.left name) = d.at? (S.left name))
    (hx' : e'.at? (S.right name) = d'.at? (S.right name)) : Even S e e' p name f f' := by
  refine ⟨h.left, h.right, h.length, ?_⟩
  rw [hx, hx']
  exact h.handles

theorem Even.frame (h : Even S d d' p name f f') (ha : Advance c S N d d' e e') (hx : ¬ N name) :
    Even S e e' p name f f' :=
  h.of_nodes (ha.left.nodes (S.left name) hx) (ha.right.nodes (S.right name) hx)

/-- A closed file may lie anywhere. -/
theorem Even.closed (h : Even S d d' p name f f') :
    Even S e e' p name { f with handle := none } { f' with handle := none } :=
  ⟨h.left, h.right, h.length, .inl ⟨rfl, rfl⟩⟩

/-- Both files are closed or both are open. -/
theorem Even.number (h : Even S d d' p name f f') :
    f.number = .error (.closed p) ∧ f'.number = .error (.closed p) ∨ ∃ n n', f.number = .ok n ∧
      f'.number = .ok n' ∧ d.at? (S.left name) = some (.file n) ∧
        d'.at? (S.right name) = some (.file n') := by
  obtain ⟨rfl, hright, -, hhandles⟩ := h
  unfold RecordFile.number
  rcases hhandles with ⟨hf, hf'⟩ | ⟨n, n', hf, hf', hx, hx'⟩ <;> rw [hf, hf']
  · exact .inl ⟨rfl, by rw [hright]⟩
  · exact .inr ⟨n, n', rfl, rfl, hx, hx'⟩

theorem Even.paired_number_bind {k k' : Nat → Action FileSystem FileError α}
    {Q : Except FileError α → Except FileError α → FileSystem → FileSystem → Prop}
    (h : Even S d d' p name f f') (hclosed : Q (.error (.closed p)) (.error (.closed p)) d d')
    (hopen : ∀ n n', d.at? (S.left name) = some (.file n) →
      d'.at? (S.right name) = some (.file n') →
      Paired (k n).result (k' n').result d d' Q) :
    Paired (do let n ← f.number; k n : Action FileSystem FileError α).result
      (do let n ← f'.number; k' n : Action FileSystem FileError α).result d d' Q := by
  apply Action.paired_bind
  apply Action.paired_liftM
  rcases h.number with ⟨hf, hf'⟩ | ⟨n, n', hf, hf', hx, hx'⟩ <;> rw [hf, hf']
  · exact hclosed
  · exact hopen n n' hx hx'

theorem paired_read (h : Abreast c S d d') (ho : Owns c p name) (hf : Even S d d' p name f f')
    (slot : Slot) :
    Paired (f.read slot).result (f'.read slot).result d d' (Agree (Idle c S d d')) := by
  apply hf.paired_number_bind
  · exact ⟨rfl, h.idle_refl⟩
  · intro n n' hx hx'
    rw [hf.length, hf.left, hf.right]
    split
    · exact Action.agree_failingAs (h.paired_readAt ho hx hx' _ _)
    · exact Action.paired_throw ⟨rfl, h.idle_refl⟩

theorem paired_sync (h : Abreast c S d d') (hf : Even S d d' p name f f') :
    Paired f.sync.result f'.sync.result d d' (Agree (Idle c S d d')) := by
  apply hf.paired_number_bind
  · exact ⟨rfl, h.idle_refl⟩
  · exact fun n n' _ _ => Action.agree_failingAs (h.paired_sync n n')

/-- The same has been done to the file on both sides. -/
structure Changes (c : Config) (S : Sides) (p : Path) (name : String) (d d' : FileSystem)
    (q q' : FileSystem × RecordFile) : Prop where
  advance : Advance c S (· = name) d d' q.1 q'.1
  even : Even S q.1 q'.1 p name q.2 q'.2

theorem Even.changes (hf : Even S d d' p name f f') (h : Abreast c S d d') :
    Changes c S p name d d' (d, f) (d', f') := ⟨h.idle_refl.of_idle, hf⟩

theorem Even.paired_openNumber_bind {k k' : Nat → Change α}
    {Q : Except FileError α → Except FileError α → FileSystem × RecordFile →
      FileSystem × RecordFile → Prop}
    (h : Even S d d' p name f f')
    (hclosed : Q (.error (.closed p)) (.error (.closed p)) (d, f) (d', f'))
    (hopen : ∀ n n', d.at? (S.left name) = some (.file n) →
      d'.at? (S.right name) = some (.file n') →
      Paired (k n).result (k' n').result (d, f) (d', f') Q) :
    Paired (openNumber >>= k).result (openNumber >>= k').result (d, f) (d', f') Q := by
  apply Action.paired_bind
  apply FileAction.paired_value_bind
  apply Action.paired_liftM
  rcases h.number with ⟨hf, hf'⟩ | ⟨n, n', hf, hf', hx, hx'⟩ <;> rw [hf, hf']
  · exact hclosed
  · exact hopen n n' hx hx'

/-- An operation on the open file, and then the length that it has. -/
theorem Even.paired_operation {y : Nat → Operation Unit} {k k' : RecordFile → RecordFile}
    (hf : Even S d d' p name f f') (h : Abreast c S d d')
    (hy : ∀ n n', d.at? (S.left name) = some (.file n) → d'.at? (S.right name) = some (.file n') →
      Paired (y n).result (y n').result d d' (Agree (Abreast.InPlace c S name d d')))
    (hk : ∀ e e', Even S e e' p name f f' → Even S e e' p name (k f) (k' f')) :
    Paired (do
        let n ← openNumber
        FileAction.onDisk .refused (y n)
        FileAction.change k : Change Unit).result
      (do
        let n ← openNumber
        FileAction.onDisk .refused (y n)
        FileAction.change k' : Change Unit).result
      (d, f) (d', f') (Agree (Changes c S p name d d')) := by
  apply hf.paired_openNumber_bind
  · exact ⟨rfl, hf.changes h⟩
  · intro n n' hx hx'
    apply Action.paired_bind
    apply FileAction.paired_onDisk
    refine (hy n n' hx hx').mono ?_
    rintro (r | u) _ e e' ⟨rfl, ha, hnodes, hnodes'⟩
    · exact ⟨rfl, ha, hf.of_nodes (congrFun hnodes _) (congrFun hnodes' _)⟩
    · refine FileAction.paired_change ⟨rfl, ha, hk e e' ?_⟩
      exact hf.of_nodes (congrFun hnodes _) (congrFun hnodes' _)

theorem paired_truncate (h : Abreast c S d d') (hf : Even S d d' p name f f') :
    Paired truncate.result truncate.result (d, f) (d', f') (Agree (Changes c S p name d d')) :=
  hf.paired_operation h (fun _ _ hx hx' => h.paired_resize hx hx')
    fun _ _ hf => ⟨hf.left, hf.right, rfl, hf.handles⟩

theorem paired_write (h : Abreast c S d d') (ho : Owns c p name) (hf : Even S d d' p name f f')
    (offset : UInt64) (bytes : Bytes) :
    Paired (write offset bytes).result (write offset bytes).result (d, f) (d', f')
      (Agree (Changes c S p name d d')) :=
  hf.paired_operation h (fun _ _ hx hx' => h.paired_writeAt ho hx hx' _ _)
    fun _ _ hf => ⟨hf.left, hf.right, congrArg (max · _) hf.length, hf.handles⟩

theorem paired_overwrite (h : Abreast c S d d') (ho : Owns c p name) (hf : Even S d d' p name f f')
    (bytes : Bytes) :
    Paired (overwrite bytes).result (overwrite bytes).result (d, f) (d', f')
      (Agree (Changes c S p name d d')) := by
  apply Action.paired_bind_agree (paired_truncate h hf)
  · rintro u ⟨e, g⟩ ⟨e', g'⟩ ⟨ha, hg⟩
    refine (paired_write ha.abreast ho hg 0 bytes).mono ?_
    rintro r r' q q' ⟨rfl, ha', hq⟩
    exact ⟨rfl, ha.trans ha', hq⟩
  · exact fun _ _ _ hc => ⟨rfl, hc⟩

/-- Both files are given up. -/
theorem paired_close (h : Abreast c S d d') (hf : Even S d d' p name f f') :
    Paired close.result close.result (d, f) (d', f') (Agree fun q q' =>
      Idle c S d d' q.1 q'.1 ∧ q.2 = { f with handle := none } ∧
        q'.2 = { f' with handle := none }) := by
  unfold close
  apply FileAction.paired_value_bind
  obtain ⟨path, handle, length⟩ := f
  obtain ⟨path', handle', length'⟩ := f'
  rcases hf.handles with ⟨rfl, rfl⟩ | ⟨n, n', rfl, rfl, -, -⟩
  · exact Action.paired_pure ⟨rfl, h.idle_refl, rfl, rfl⟩
  · apply FileAction.paired_change_bind
    apply FileAction.paired_onDisk
    refine (h.paired_sync n n').mono ?_
    rintro r r' e e' ⟨rfl, hi⟩
    exact ⟨rfl, hi, rfl, rfl⟩

/-- A file is opened on both sides, with the same length, or on neither. -/
theorem paired_openAt (h : Abreast c S d d') (ho : Owns c p name) :
    Paired (openAt p).result (openAt p).result d d' fun r r' e e' =>
      Advance c S (· = name) d d' e e' ∧
        ((∃ f f', r = .ok f ∧ r' = .ok f' ∧ Even S e e' p name f f') ∨
          ∃ error, r = .error error ∧ r' = .error error) := by
  unfold openAt
  apply Action.paired_bind
  apply Action.paired_failingAs
  refine (h.paired_openFile ho).mono ?_
  rintro r r' e e' ⟨ha, ⟨n, n', rfl, rfl, hx, hx'⟩ | ⟨refusal, rfl, rfl⟩⟩
  · apply Action.paired_bind_agree
      (Action.agree_failingAs (ha.abreast.paired_fileSize ho hx hx'))
    · intro size t t' hi
      have hat := hi.left.nodes (S.left name) id
      have hat' := hi.right.nodes (S.right name) id
      exact Action.paired_pure ⟨ha.trans hi.of_idle, .inl ⟨_, _, rfl, rfl, rfl, rfl, rfl,
        .inr ⟨n, n', rfl, rfl, hat.trans hx, hat'.trans hx'⟩⟩⟩
    · exact fun error t t' hi => ⟨ha.trans hi.of_idle, .inr ⟨error, rfl, rfl⟩⟩
  · exact ⟨ha, .inr ⟨_, rfl, rfl⟩⟩

end RecordFile

/-! ### Stores -/

namespace Store

variable {s s' t t' : Store}

/-- The stores agree on all but the numbers of their files and what they collect. -/
structure Level (c : Config) (S : Sides) (q q' : FileSystem × Store) : Prop where
  abreast : Abreast c S q.1 q'.1
  data : Even S q.1 q'.1 c.dataFile c.dataName q.2.dataFile q'.2.dataFile
  keys : Even S q.1 q'.1 c.keyFile c.keyName q.2.keyFile q'.2.keyFile
  index : q'.2.index = q.2.index
  free : q'.2.free = q.2.free
  generation : (q.2.generation : Int) = q'.2.generation + S.lead

/-- A store is level with itself. -/
theorem Anchored.level {D : Nat} {P : Key → Prop} {g : Shade} (h : Anchored c D P d g s) :
    Level c (.alike D) (d, s) (d, s) := by
  have hsite : ∀ p name, Owns c p name → Site d p (D, name) := by
    rintro p name (_ | _)
    · exact h.rooted.data
    · exact h.rooted.keys
  have heven : ∀ {f : RecordFile} {p : Path} {name : String}, f.path = p → Placed d f (D, name) →
      Even (.alike D) d d p name f f := by
    intro f p name hpath hf
    refine ⟨hpath, hpath, rfl, ?_⟩
    cases hn : f.handle with
    | none => exact .inl ⟨rfl, rfl⟩
    | some n => exact .inr ⟨n, n, rfl, rfl, hf.handle n hn, hf.handle n hn⟩
  exact ⟨⟨h.orderly, h.orderly, fun _ => rfl, hsite, hsite, fun _ _ _ => rfl⟩,
    heven h.dataPath h.dataFile, heven h.keyPath h.keyFile, rfl, rfl, (Int.add_zero _).symm⟩

/-- Open stores that hold the same are level, wherever their files lie. -/
theorem Anchored.level_of_same {D D' : Nat} {P P' : Key → Prop} {g g' : Shade}
    (h : Anchored c D P d g s) (h' : Anchored c D' P' d' g' s') (hplan : SamePlan d d')
    (ho : s.IsOpen) (ho' : s'.IsOpen)
    (hdata : (d'.contentAt? c.dataFile).map Content.toList =
      (d.contentAt? c.dataFile).map Content.toList)
    (hkeys : (d'.contentAt? c.keyFile).map Content.toList =
      (d.contentAt? c.keyFile).map Content.toList)
    (hdataLength : s'.dataFile.length = s.dataFile.length)
    (hkeyLength : s'.keyFile.length = s.keyFile.length) (hi : s'.index = s.index)
    (hf : s'.free = s.free) :
    Level c ⟨D, D', s.generation - s'.generation⟩ (d, s) (d', s') := by
  have heven : ∀ {f f' : RecordFile} {p : Path} {name : String} {lead : Int}, f.path = p →
      f'.path = p → f'.length = f.length → Placed d f (D, name) → Placed d' f' (D', name) →
      f.isOpen → f'.isOpen → Even ⟨D, D', lead⟩ d d' p name f f' := by
    intro f f' p name lead hp hp' hlength hf hf' hopen hopen'
    obtain ⟨n, hn⟩ := Option.isSome_iff_exists.1 hopen
    obtain ⟨n', hn'⟩ := Option.isSome_iff_exists.1 hopen'
    exact ⟨hp, hp', hlength, .inr ⟨n, n', hn, hn', hf.handle n hn, hf'.handle n' hn'⟩⟩
  refine ⟨⟨h.orderly, h'.orderly, hplan, ?_, ?_, ?_⟩,
    heven h.dataPath h'.dataPath hdataLength h.dataFile h'.dataFile ho.1 ho'.1,
    heven h.keyPath h'.keyPath hkeyLength h.keyFile h'.keyFile ho.2 ho'.2, hi, hf, ?_⟩
  · rintro p name (_ | _)
    · exact h.rooted.data
    · exact h.rooted.keys
  · rintro p name (_ | _)
    · exact h'.rooted.data
    · exact h'.rooted.keys
  · rintro p name (_ | _)
    · rw [← h.rooted.data.contentAt?_eq, ← h'.rooted.data.contentAt?_eq, hdata]
    · rw [← h.rooted.keys.contentAt?_eq, ← h'.rooted.keys.contentAt?_eq, hkeys]
  · show (s.generation : Int) = s'.generation + (s.generation - s'.generation)
    omega

namespace Level

theorem idle (h : Level c S (d, s) (d', s')) (hi : Idle c S d d' e e') :
    Level c S (e, s) (e', s') :=
  ⟨hi.abreast, h.data.frame hi id, h.keys.frame hi id, h.index, h.free, h.generation⟩

theorem replan {faults faults' : Nat → Option PlannedFault} (h : Level c S (d, s) (d', s'))
    (hf : Truthful faults) (hf' : Truthful faults')
    (hplan : SamePlan { d with faults } { d' with faults := faults' }) :
    Level c S ({ d with faults }, s) ({ d' with faults := faults' }, s') :=
  ⟨h.abreast.replan hf hf' hplan, h.data.of_nodes rfl rfl, h.keys.of_nodes rfl rfl, h.index, h.free,
    h.generation⟩

/-- What happens to other files on one side, and what is collected there, does not matter. -/
theorem frame {g g' : Shade} (h : Level c S (d, s) (d', s'))
    (he : Effect (· = c.draftName) d g e g') (hplan : SamePlan e d') (pending : Option (List Key)) :
    Level c S (e, { s with pending }) (d', s') := by
  have hown : ∀ name, IsOwnName c name → ¬ name = c.draftName := by
    rintro name ho rfl
    exact not_isOwnName_draftName c ho
  exact ⟨h.abreast.frame he hown hplan,
    h.data.of_nodes (he.nodes _ c.draftName_ne_dataName.symm) rfl,
    h.keys.of_nodes (he.nodes _ c.draftName_ne_keyName.symm) rfl, h.index, h.free, h.generation⟩

/-- The files stay as they are. -/
theorem congr (h : Level c S (d, s) (d', s')) (hd : t.dataFile = s.dataFile)
    (hd' : t'.dataFile = s'.dataFile) (hk : t.keyFile = s.keyFile) (hk' : t'.keyFile = s'.keyFile)
    (hi : t'.index = t.index) (hf : t'.free = t.free)
    (hg : (t.generation : Int) = t'.generation + S.lead) : Level c S (d, t) (d', t') := by
  refine ⟨h.abreast, ?_, ?_, hi, hf, hg⟩
  · show Even S d d' _ _ t.dataFile t'.dataFile
    rw [hd, hd']
    exact h.data
  · show Even S d d' _ _ t.keyFile t'.keyFile
    rw [hk, hk']
    exact h.keys

theorem setData (h : Level c S (d, s) (d', s'))
    (hc : Changes c S c.dataFile c.dataName d d' (e, f) (e', f')) :
    Level c S (e, { s with dataFile := f }) (e', { s' with dataFile := f' }) :=
  ⟨hc.advance.abreast, hc.even, h.keys.frame hc.advance c.dataName_ne_keyName.symm, h.index, h.free,
    h.generation⟩

theorem setKeys (h : Level c S (d, s) (d', s'))
    (hc : Changes c S c.keyFile c.keyName d d' (e, f) (e', f')) :
    Level c S (e, { s with keyFile := f }) (e', { s' with keyFile := f' }) :=
  ⟨hc.advance.abreast, h.data.frame hc.advance c.dataName_ne_keyName, hc.even, h.index, h.free,
    h.generation⟩

theorem paired_onData {x : RecordFile.Change α} (h : Level c S (d, s) (d', s'))
    (hx : Paired x.result x.result (d, s.dataFile) (d', s'.dataFile)
      (Agree (Changes c S c.dataFile c.dataName d d'))) :
    Paired (onData x).result (onData x).result (d, s) (d', s') (Agree (Level c S)) := by
  apply FileAction.paired_onPart
  refine hx.mono ?_
  rintro r r' q q' ⟨rfl, hc⟩
  exact ⟨rfl, h.setData hc⟩

theorem paired_onKeys {x : RecordFile.Change α} (h : Level c S (d, s) (d', s'))
    (hx : Paired x.result x.result (d, s.keyFile) (d', s'.keyFile)
      (Agree (Changes c S c.keyFile c.keyName d d'))) :
    Paired (onKeys x).result (onKeys x).result (d, s) (d', s') (Agree (Level c S)) := by
  apply FileAction.paired_onPart
  refine hx.mono ?_
  rintro r r' q q' ⟨rfl, hc⟩
  exact ⟨rfl, h.setKeys hc⟩

/-! ### Reading and writing -/

theorem paired_read (h : Level c S (d, s) (d', s')) (k : Key) :
    Paired (s.read k).result (s'.read k).result d d' (Agree (Idle c S d d')) := by
  unfold Store.read
  rw [h.index]
  dsimp only
  cases s.index.get? k with
  | none => exact Action.paired_pure ⟨rfl, h.abreast.idle_refl⟩
  | some slot =>
    apply Action.paired_bind_agree
      (Action.agree_failingAs (RecordFile.paired_read h.abreast .data h.data slot))
    · intro record e e' hi
      cases Element.decode record with
      | error fault => exact Action.paired_throw ⟨rfl, hi⟩
      | ok element =>
        dsimp only
        split
        · exact Action.paired_pure ⟨rfl, hi⟩
        · exact Action.paired_throw ⟨rfl, hi⟩
    · exact fun _ _ _ hi => ⟨rfl, hi⟩

theorem place_eq (h : Level c S (d, s) (d', s')) (k : Key) (length : UInt32) :
    s'.place k length = s.place k length := by
  unfold place
  rw [h.index, h.free, h.data.length]

theorem claim (h : Level c S (d, s) (d', s')) (place : Place) :
    Level c S (d, s.claim place) (d', s'.claim place) := by
  cases place with
  | reused slot free => exact h.congr rfl rfl rfl rfl h.index rfl h.generation
  | _ => exact h

theorem unclaim (h : Level c S (d, s) (d', s')) (place : Place) :
    Level c S (d, s.unclaim place) (d', s'.unclaim place) := by
  cases place with
  | reused slot free =>
    exact h.congr rfl rfl rfl rfl h.index (congrArg (fun f => (f.release slot).2) h.free)
      h.generation
  | _ => exact h

/-- Only one of the stores may collect the key. -/
theorem install (h : Level c S (d, s) (d', s')) (k : Key) (slot : Slot) :
    Level c S (d, s.install k slot) (d', s'.install k slot) := by
  have hi : s'.index = s.index := h.index
  have hf : s'.free = s.free := h.free
  refine h.congr rfl rfl rfl rfl ?_ ?_ h.generation
  · simp only [Store.install, hi]
  · simp only [Store.install, hi, hf]

theorem paired_write (h : Level c S (d, s) (d', s')) (k : Key) (record : Bytes) :
    Paired (Store.write k record).result (Store.write k record).result (d, s) (d', s')
      (Agree (Level c S)) := by
  unfold Store.write
  cases Slot.lengthOf? record with
  | none => exact Action.paired_throw ⟨rfl, h⟩
  | some length =>
    apply FileAction.paired_value_bind
    rw [h.place_eq]
    apply FileAction.paired_change_bind
    have h₁ := h.claim (s.place k length)
    apply Action.paired_bind
    apply Action.paired_attempt
    refine (h₁.paired_onData (RecordFile.paired_write h₁.abreast .data h₁.data _ record)).mono ?_
    rintro (error | u) _ q q' ⟨rfl, h₂⟩
    · apply FileAction.paired_change_bind
      exact Action.paired_throw ⟨rfl, h₂.unclaim _⟩
    · apply FileAction.paired_change_bind
      exact Action.paired_pure ⟨rfl, h₂.install k _⟩

/-! ### Removing -/

theorem removeWhere (h : Level c S (d, s) (d', s')) (p : Key → Bool) :
    (s'.removeWhere p).1 = (s.removeWhere p).1 ∧
      Level c S (d, (s.removeWhere p).2) (d', (s'.removeWhere p).2) := by
  have hi : s'.index = s.index := h.index
  have hf : s'.free = s.free := h.free
  refine ⟨?_, h.congr rfl rfl rfl rfl ?_ ?_ h.generation⟩
  · simp only [Store.removeWhere, hi]
  · simp only [Store.removeWhere, hi]
  · simp only [Store.removeWhere, hi, hf]

theorem remove (h : Level c S (d, s) (d', s')) (k : Key) :
    (s'.remove k).1 = (s.remove k).1 ∧ Level c S (d, (s.remove k).2) (d', (s'.remove k).2) := by
  have hi : s'.index = s.index := h.index
  have hf : s'.free = s.free := h.free
  unfold Store.remove
  split
  · exact h.removeWhere _
  · rw [hi]
    rcases s.index.remove k with ⟨_ | slot, index⟩
    · exact ⟨rfl, h⟩
    · exact ⟨rfl, h.congr rfl rfl rfl rfl rfl (congrArg (fun f => (f.release slot).2) hf)
        h.generation⟩

/-! ### The files -/

theorem paired_saveKeys (h : Level c S (d, s) (d', s')) :
    Paired saveKeys.result saveKeys.result (d, s) (d', s') (Agree (Level c S)) := by
  have hi : s'.index = s.index := h.index
  have hsync : ∀ q q', Level c S q q' → Paired
      (do let s ← FileAction.value; FileAction.onDisk .file s.keyFile.sync : Change Unit).result
      (do let s ← FileAction.value; FileAction.onDisk .file s.keyFile.sync : Change Unit).result
      q q' (Agree (Level c S)) := by
    intro q q' h₁
    apply FileAction.paired_value_bind
    apply FileAction.paired_onDisk
    refine (RecordFile.paired_sync h₁.abreast h₁.keys).mono ?_
    rintro r r' e e' ⟨rfl, hidle⟩
    exact ⟨rfl, h₁.idle hidle⟩
  unfold saveKeys
  apply FileAction.paired_value_bind
  rw [hi]
  dsimp only
  split
  · apply Action.paired_bind_agree
      (h.paired_onKeys (RecordFile.paired_truncate h.abreast h.keys))
    · exact fun _ q q' h₁ => hsync q q' h₁
    · exact fun _ _ _ h₁ => ⟨rfl, h₁⟩
  · apply Action.paired_bind_agree
      (h.paired_onKeys (RecordFile.paired_overwrite h.abreast .keys h.keys s.index.snapshot))
    · exact fun _ q q' h₁ => hsync q q' h₁
    · exact fun _ _ _ h₁ => ⟨rfl, h₁⟩

theorem paired_closeData (h : Level c S (d, s) (d', s')) :
    Paired (onData RecordFile.close).result (onData RecordFile.close).result (d, s) (d', s')
      (Agree fun q q' => Idle c S d d' q.1 q'.1 ∧
        q.2 = { s with dataFile := { s.dataFile with handle := none } } ∧
        q'.2 = { s' with dataFile := { s'.dataFile with handle := none } }) := by
  apply FileAction.paired_onPart
  refine (RecordFile.paired_close h.abreast h.data).mono ?_
  rintro r r' ⟨e, f⟩ ⟨e', f'⟩ ⟨rfl, hi, rfl, rfl⟩
  exact ⟨rfl, hi, rfl, rfl⟩

theorem paired_closeKeys (h : Level c S (d, s) (d', s')) :
    Paired (onKeys RecordFile.close).result (onKeys RecordFile.close).result (d, s) (d', s')
      (Agree fun q q' => Idle c S d d' q.1 q'.1 ∧
        q.2 = { s with keyFile := { s.keyFile with handle := none } } ∧
        q'.2 = { s' with keyFile := { s'.keyFile with handle := none } }) := by
  apply FileAction.paired_onPart
  refine (RecordFile.paired_close h.abreast h.keys).mono ?_
  rintro r r' ⟨e, f⟩ ⟨e', f'⟩ ⟨rfl, hi, rfl, rfl⟩
  exact ⟨rfl, hi, rfl, rfl⟩

theorem paired_reset (h : Level c S (d, s) (d', s')) :
    Paired Store.reset.result Store.reset.result (d, s) (d', s') (Agree (Level c S)) := by
  have hgen : (s.generation : Int) = s'.generation + S.lead := h.generation
  have h₀ : Level c S (d, s.forget) (d', s'.forget) :=
    h.congr rfl rfl rfl rfl (congrArg (fun i : Index => Index.empty i.capacity) h.index)
      (congrArg (fun f : FreeList => FreeList.empty f.capacity) h.free)
      (show ((s.generation + 1 : Nat) : Int) = (s'.generation + 1 : Nat) + S.lead by omega)
  unfold Store.reset
  apply FileAction.paired_change_bind
  apply Action.paired_bind
  apply Action.paired_regardless
  refine h₀.paired_closeData.mono ?_
  rintro r r' ⟨d₁, s₁⟩ ⟨d₁', s₁'⟩ ⟨-, hi₁, rfl, rfl⟩
  have h₁ : Level c S (d₁, { s.forget with dataFile := { s.dataFile with handle := none } })
      (d₁', { s'.forget with dataFile := { s'.dataFile with handle := none } }) :=
    ⟨hi₁.abreast, h₀.data.closed, h₀.keys.frame hi₁ id, h₀.index, h₀.free, h₀.generation⟩
  apply Action.paired_bind
  apply Action.paired_regardless
  refine h₁.paired_closeKeys.mono ?_
  rintro r r' ⟨d₂, s₂⟩ ⟨d₂', s₂'⟩ ⟨-, hi₂, rfl, rfl⟩
  -- closed files are even wherever their names lead
  have hclosed : ∀ {e e'}, Abreast c S e e' →
      Level c S (e, { s.forget with
        dataFile := { s.dataFile with handle := none }
        keyFile := { s.keyFile with handle := none } })
        (e', { s'.forget with
          dataFile := { s'.dataFile with handle := none }
          keyFile := { s'.keyFile with handle := none } }) := fun he =>
    ⟨he, h₀.data.closed, h₀.keys.closed, h₀.index, h₀.free, h₀.generation⟩
  apply FileAction.paired_value_bind
  dsimp only [forget] at hclosed ⊢
  rw [show s.dataFile.path = c.dataFile from h.data.left,
    show s'.dataFile.path = c.dataFile from h.data.right,
    show s.keyFile.path = c.keyFile from h.keys.left,
    show s'.keyFile.path = c.keyFile from h.keys.right] at hclosed ⊢
  apply Action.paired_bind
  apply FileAction.paired_onDisk
  refine (Action.agree_failingAs (hi₂.abreast.paired_unlinkIfPresent .data)).mono ?_
  rintro (error | u) _ d₃ d₃' ⟨rfl, ha₃⟩
  · exact ⟨rfl, hclosed ha₃.abreast⟩
  apply Action.paired_bind
  apply FileAction.paired_onDisk
  refine (Action.agree_failingAs (ha₃.abreast.paired_unlinkIfPresent .keys)).mono ?_
  rintro (error | u) _ d₄ d₄' ⟨rfl, ha₄⟩
  · exact ⟨rfl, hclosed ha₄.abreast⟩
  apply Action.paired_bind
  apply FileAction.paired_onDisk
  refine (RecordFile.paired_openAt ha₄.abreast .data).mono ?_
  rintro r r' d₅ d₅' ⟨ha₅, ⟨f, f', rfl, rfl, hf⟩ | ⟨error, rfl, rfl⟩⟩
  swap
  · exact ⟨rfl, hclosed ha₅.abreast⟩
  have h₄ := hclosed ha₄.abreast
  have h₅ := h₄.setData ⟨ha₅, hf⟩
  apply FileAction.paired_change_bind
  apply Action.paired_bind
  apply FileAction.paired_onDisk
  refine (RecordFile.paired_openAt h₅.abreast .keys).mono ?_
  rintro r r' d₆ d₆' ⟨ha₆, ⟨k, k', rfl, rfl, hk⟩ | ⟨error, rfl, rfl⟩⟩
  · exact FileAction.paired_change ⟨rfl, h₅.setKeys ⟨ha₆, hk⟩⟩
  · exact ⟨rfl, ha₆.abreast, h₅.data.frame ha₆ c.dataName_ne_keyName, h₅.keys.closed, h₅.index,
      h₅.free, h₅.generation⟩

end Level

end Store

end DiskTier
