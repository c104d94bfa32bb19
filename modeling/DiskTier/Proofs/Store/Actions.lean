import DiskTier.Proofs.Names
import DiskTier.Proofs.Store.Sound

/-!
# What a store does to its files

`Store.Mounted` ties a store to its two files on disk. Each action of the store is described by what
it answers, what the files hold after it, and that the draft of a compaction is spared. Nothing
fails but a write for which a file would become too long; such a write changes nothing.
-/

namespace DiskTier.Store

open FileSystem

variable {α : Type} {c : Config} {d d' : FileSystem} {s s' : Store} {data data' keys keys' : Bytes}
  {H : List Element} {listed : List (Key × Slot)} {name : String}

theorem result_onData (x : RecordFile.Change α) (d : FileSystem) (s : Store) :
    (onData x).result (d, s) = ((x.result (d, s.dataFile)).1.mapError .file,
      ((x.result (d, s.dataFile)).2.1, { s with dataFile := (x.result (d, s.dataFile)).2.2 })) :=
  FileAction.result_onPart _ _ _ _ _

theorem result_onKeys (x : RecordFile.Change α) (d : FileSystem) (s : Store) :
    (onKeys x).result (d, s) = ((x.result (d, s.keyFile)).1.mapError .file,
      ((x.result (d, s.keyFile)).2.1, { s with keyFile := (x.result (d, s.keyFile)).2.2 })) :=
  FileAction.result_onPart _ _ _ _ _

/-- The files of a store are those that the settings name, and hold these bytes. -/
structure Mounted (c : Config) (d : FileSystem) (s : Store) (data keys : Bytes) : Prop where
  healthy : d.Healthy
  dataPath : s.dataFile.path = c.dataFile
  keyPath : s.keyFile.path = c.keyFile
  dataFile : ∃ x : Spot, x.2 = c.dataName ∧ RecordFile.Holds d s.dataFile x data
  keyFile : ∃ x : Spot, x.2 = c.keyName ∧ RecordFile.Holds d s.keyFile x keys

def IsOpen (s : Store) : Prop := s.dataFile.isOpen ∧ s.keyFile.isOpen

namespace Mounted

/-- Only the files of a store matter. -/
theorem congr (h : Mounted c d s data keys) (hd : s'.dataFile = s.dataFile)
    (hk : s'.keyFile = s.keyFile) : Mounted c d s' data keys :=
  ⟨h.healthy, hd ▸ h.dataPath, hk ▸ h.keyPath, hd ▸ h.dataFile, hk ▸ h.keyFile⟩

theorem alike (h : Mounted c d s data keys) (hd : Alike d d') : Mounted c d' s data keys := by
  obtain ⟨x, hx, hdata⟩ := h.dataFile
  obtain ⟨y, hy, hkeys⟩ := h.keyFile
  exact ⟨hd.healthy, h.dataPath, h.keyPath, ⟨x, hx, hdata.alike hd⟩, ⟨y, hy, hkeys.alike hd⟩⟩

/-- What happens to the draft does not matter. -/
theorem frame (h : Mounted c d s data keys) (hd : Local c.draftName d d') :
    Mounted c d' s data keys := by
  obtain ⟨x, hx, hdata⟩ := h.dataFile
  obtain ⟨y, hy, hkeys⟩ := h.keyFile
  exact ⟨hd.healthy, h.dataPath, h.keyPath,
    ⟨x, hx, hdata.frame (hd.spared c.draftName_ne_dataName.symm) hx⟩,
    ⟨y, hy, hkeys.frame (hd.spared c.draftName_ne_keyName.symm) hy⟩⟩

theorem setData (h : Mounted c d s data keys) {f : RecordFile} {x : Spot}
    (hd : Local c.dataName d d') (hx : x.2 = c.dataName) (hf : RecordFile.Holds d' f x data')
    (hpath : f.path = c.dataFile) : Mounted c d' { s with dataFile := f } data' keys := by
  obtain ⟨y, hy, hkeys⟩ := h.keyFile
  exact ⟨hd.healthy, hpath, h.keyPath, ⟨x, hx, hf⟩,
    ⟨y, hy, hkeys.frame (hd.spared c.dataName_ne_keyName.symm) hy⟩⟩

theorem setKeys (h : Mounted c d s data keys) {f : RecordFile} {x : Spot}
    (hd : Local c.keyName d d') (hx : x.2 = c.keyName) (hf : RecordFile.Holds d' f x keys')
    (hpath : f.path = c.keyFile) : Mounted c d' { s with keyFile := f } data keys' := by
  obtain ⟨y, hy, hdata⟩ := h.dataFile
  exact ⟨hd.healthy, h.dataPath, hpath,
    ⟨y, hy, hdata.frame (hd.spared c.dataName_ne_keyName) hy⟩, ⟨x, hx, hf⟩⟩

theorem dataLength (h : Mounted c d s data keys) : s.dataFile.length.toNat = data.length :=
  h.dataFile.elim fun _ hx => hx.2.length

theorem keyLength (h : Mounted c d s data keys) : s.keyFile.length.toNat = keys.length :=
  h.keyFile.elim fun _ hx => hx.2.length

theorem data_le (h : Mounted c d s data keys) : data.length ≤ maxPosition :=
  h.dataFile.elim fun _ hx => hx.2.length_le h.healthy

/-- The bytes that are seen at the path of the data file. -/
theorem contentAt? (h : Mounted c d s data keys) :
    (d.contentAt? c.dataFile).map Content.toList = some data := by
  obtain ⟨x, -, hx⟩ := h.dataFile
  exact h.dataPath ▸ hx.contentAt?

/-- The bytes that are seen at the path of the key file. -/
theorem keysAt? (h : Mounted c d s data keys) :
    (d.contentAt? c.keyFile).map Content.toList = some keys := by
  obtain ⟨x, -, hx⟩ := h.keyFile
  exact h.keyPath ▸ hx.contentAt?

end Mounted

/-! ### Reading -/

/-- What is found under a key that has layered bytes. -/
def found (k : Key) (slot : Slot) (record : Bytes) : Except Error (Option Element) :=
  match Element.decode record with
  | .error fault => .error (.codec fault)
  | .ok e =>
    if e.key = k then .ok (some e)
    else .error (.corrupted k.text s!"record at {slot.offset} holds key '{e.key.text}'")

/-- What is found under a key, if the data file holds `data`. -/
def foundIn (s : Store) (data : Bytes) (k : Key) : Except Error (Option Element) :=
  match s.index.get? k with
  | none => .ok none
  | some slot => found k slot (slot.slice data)

/-- A read gives what the slot of the key holds. -/
theorem read_spec (hm : Mounted c d s data keys) (ho : s.IsOpen) (hs : Sound H s data listed)
    (k : Key) : ∃ d', (s.read k).result d = (s.foundIn data k, d') ∧ Alike d d' := by
  unfold Store.read foundIn
  cases hk : s.index.get? k with
  | none => exact ⟨d, rfl, hm.healthy.alike_refl⟩
  | some slot =>
    obtain ⟨x, -, hdata⟩ := hm.dataFile
    have hin := hs.owned.within slot (List.mem_append_left _ (hs.mem_slots hk))
    obtain ⟨d', hr, halike⟩ := hdata.read hm.healthy ho.1 hin
    refine ⟨d', ?_, halike⟩
    simp only
    rw [Action.result_bind, Action.result_failingAs, hr]
    simp only [Except.mapError, found]
    cases hdec : Element.decode (slot.slice data) with
    | error fault => rfl
    | ok e =>
      simp only
      split <;> rfl

/-! ### Writing -/

theorem encode_length_pos (e : Element) : 0 < e.encode.length :=
  List.length_pos_of_ne_nil e.encode_ne_nil

/-- What a write does, in terms of its place. -/
theorem result_write (hn : Slot.lengthOf? record = some length) (k : Key) (d : FileSystem)
    (s : Store) :
    (write k record).result (d, s) =
      let place := s.place k length
      match (RecordFile.write place.offset record).result (d, (s.claim place).dataFile) with
      | (.ok (), (d', f)) => (.ok place.isReused,
          (d', ({ s.claim place with dataFile := f } : Store).install k ⟨place.offset, length⟩))
      | (.error e, (d', f)) => (.error (.file e),
          (d', ({ s.claim place with dataFile := f } : Store).unclaim place)) := by
  unfold Store.write
  rw [hn]
  simp only
  rw [Action.result_bind, FileAction.result_value]
  simp only
  rw [Action.result_bind, FileAction.result_change]
  simp only
  rw [Action.result_bind, Action.result_attempt, result_onData]
  rcases (RecordFile.write (s.place k length).offset record).result
    (d, (s.claim (s.place k length)).dataFile) with ⟨e | ⟨⟩, d', f⟩ <;> rfl

/-- A put writes its record into a slot that no other key has, or leaves the store as it is. It
fails only if the record fits no slot, or the data file would become too long. -/
theorem write_spec (hm : Mounted c d s data keys) (ho : s.IsOpen) (hs : Sound H s data listed)
    (e : Element) :
    (∃ b d' s' data', (write e.key e.encode).result (d, s) = (.ok b, (d', s')) ∧
        Spared c.draftName d d' ∧ Mounted c d' s' data' keys ∧ s'.IsOpen ∧
        Sound (e :: H) s' data' listed ∧ Like s s' ∧
        s'.pending = s.pending.map (· ++ [e.key]) ∧
        s'.index.records data' =
          putRecord s.index.capacity e.key e.encode (s.index.records data)) ∨
      ∃ err d', (write e.key e.encode).result (d, s) = (.error err, (d', s)) ∧ Alike d d' ∧
        (Slot.maxLength < e.encode.length ∨ err = .file (.refused .invalidInput)) := by
  by_cases hlen : e.encode.length ≤ Slot.maxLength
  · obtain ⟨length, hn⟩ := Slot.lengthOf?_of_le hlen
    have hnat : length.toNat = e.encode.length := Slot.lengthOf?_eq_some_iff.1 hn
    rw [result_write hn]
    dsimp only
    obtain ⟨hfits, hplace⟩ := hs.fits_place (k := e.key) hm.dataLength
      (hnat.symm ▸ encode_length_pos e)
    obtain ⟨x, hx, hdata⟩ := hm.dataFile
    obtain ⟨free, hclaim, -, hfreeCap, -⟩ := claim_place hs.valid e.key length
    rw [hclaim] at hfits ⊢
    rcases hdata.write hm.healthy ho.1 hfits.start_le e.encode with
      ⟨d', f', hr, hlocal, hholds, hopen, hpath⟩ | ⟨hr, htoo⟩
    · obtain ⟨hsound, hrecords⟩ := hs.install hfits hnat
      have hmounted := hm.setData (hx ▸ hlocal) hx hholds (hpath.trans hm.dataPath)
      have hlike := hs.like_install (k := e.key) hfits.valid hfreeCap
        ⟨(s.place e.key length).offset, length⟩
      simp only [hr]
      exact .inl ⟨_, d', _, _, rfl, (hx ▸ hlocal).spared c.draftName_ne_dataName,
        hmounted.congr rfl rfl, ⟨hopen, ho.2⟩, hsound.congr rfl rfl,
        ⟨rfl, hlike.capacity, hlike.freeCapacity⟩, rfl, hrecords⟩
    · -- only at the end of the file there may be no room
      simp only [hr]
      rcases hplace with htail | hin
      · have hsame : ({ s with free } : Store) = s := by
          rw [← hclaim, htail]
          rfl
        rw [hsame, htail]
        exact .inr ⟨_, d.tick, rfl, hm.healthy.alike_tick, .inr rfl⟩
      · have htoo' : maxPosition < (s.place e.key length).offset.toNat +
            e.encode.length := htoo
        rw [hnat] at hin
        have := hm.data_le
        omega
  · unfold Store.write
    rw [Slot.lengthOf?, if_neg hlen]
    exact .inr ⟨_, d, rfl, hm.healthy.alike_refl, .inl (Nat.lt_of_not_le hlen)⟩

/-! ### The key file -/

/-- What a save does to the files. The key file is left empty if the list is too long for a file. -/
theorem Mounted.saveKeys (hm : s.Mounted c d data keys) (ho : s.IsOpen) (hi : s.index.Coherent) :
    ∃ r d' f listed', saveKeys.result (d, s) = (r, (d', { s with keyFile := f })) ∧
      Spared c.draftName d d' ∧ Mounted c d' { s with keyFile := f } data (listing listed') ∧
      f.isOpen ∧ (r = .ok () ∧ listed' = s.index.toList ∨
        r = .error (.file (.refused .invalidInput)) ∧ listed' = [] ∧
          maxPosition < (listing s.index.toList).length) := by
  have hlist := hi.isEmpty_iff
  obtain ⟨x, hx, hkeys⟩ := hm.keyFile
  unfold Store.saveKeys
  rw [Action.result_bind, FileAction.result_value]
  simp only
  by_cases hempty : s.index.isEmpty
  · obtain ⟨d', f, hr, hlocal, hholds, hopen, hpath⟩ := hkeys.truncate hm.healthy ho.2
    rw [if_pos hempty, Action.result_bind, result_onKeys, hr]
    simp only [Except.mapError]
    rw [Action.result_bind, FileAction.result_value]
    simp only
    rw [FileAction.result_onDisk, RecordFile.sync_spec hlocal.healthy hopen]
    have hmounted := hm.setKeys (hx ▸ hlocal) hx hholds (hpath.trans hm.keyPath)
    exact ⟨_, _, f, [], rfl, ((hx ▸ hlocal).spared c.draftName_ne_keyName).trans
      (hlocal.healthy.alike_tick.spared _), hmounted.alike hlocal.healthy.alike_tick, hopen,
      .inl ⟨rfl, (hlist.1 hempty).symm⟩⟩
  · have hlisting : s.index.snapshot = listing s.index.toList := by
      rw [listing, if_neg fun hnil => hempty (hlist.2 hnil)]
      rfl
    obtain ⟨r, d', f, hr, hlocal, hopen, hpath, hcases⟩ :=
      hkeys.overwrite hm.healthy ho.2 s.index.snapshot
    rw [if_neg hempty, Action.result_bind, result_onKeys, hr]
    rcases hcases with ⟨rfl, hholds⟩ | ⟨rfl, hholds, htoo⟩
    · simp only [Except.mapError]
      rw [Action.result_bind, FileAction.result_value]
      simp only
      rw [FileAction.result_onDisk, RecordFile.sync_spec hlocal.healthy hopen]
      have hmounted := hm.setKeys (hx ▸ hlocal) hx hholds (hpath.trans hm.keyPath)
      exact ⟨_, _, f, s.index.toList, rfl, ((hx ▸ hlocal).spared c.draftName_ne_keyName).trans
        (hlocal.healthy.alike_tick.spared _),
        hlisting ▸ hmounted.alike hlocal.healthy.alike_tick, hopen, .inl ⟨rfl, rfl⟩⟩
    · have hmounted := hm.setKeys (hx ▸ hlocal) hx hholds (hpath.trans hm.keyPath)
      exact ⟨_, d', f, [], rfl, (hx ▸ hlocal).spared c.draftName_ne_keyName, hmounted, hopen,
        .inr ⟨rfl, rfl, hlisting ▸ htoo⟩⟩

/-- After a save the key file lists the index, or nothing if that is too long for a file. -/
theorem saveKeys_spec (hm : Mounted c d s data keys) (ho : s.IsOpen) (hs : Sound H s data listed) :
    ∃ r d' f listed', saveKeys.result (d, s) = (r, (d', { s with keyFile := f })) ∧
      Spared c.draftName d d' ∧ Mounted c d' { s with keyFile := f } data (listing listed') ∧
      f.isOpen ∧ Sound H { s with keyFile := f } data listed' ∧
      (r = .ok () ∧ listed' = s.index.toList ∨
        r = .error (.file (.refused .invalidInput)) ∧ listed' = []) := by
  obtain ⟨r, d', f, listed', hr, hspared, hm', ho', hcases⟩ := hm.saveKeys ho hs.coherent
  refine ⟨r, d', f, listed', hr, hspared, hm', ho', ?_, hcases.imp_right fun h => ⟨h.1, h.2.1⟩⟩
  rcases hcases with ⟨-, rfl⟩ | ⟨-, rfl, -⟩
  · exact hs.save.congr rfl rfl
  · exact hs.unlist.congr rfl rfl

/-- Closing leaves the files as they are. -/
theorem close_spec (hm : Mounted c d s data keys) :
    ∃ d' s', Store.close.result (d, s) = (.ok (), (d', s')) ∧ Alike d d' ∧
      Mounted c d' s' data keys ∧ s'.index = s.index ∧ s'.free = s.free ∧
      s'.pending = s.pending ∧ s'.generation = s.generation := by
  obtain ⟨d₁, hr₁, halike₁⟩ := RecordFile.close_spec hm.healthy s.dataFile
  obtain ⟨d₂, hr₂, halike₂⟩ := RecordFile.close_spec halike₁.healthy s.keyFile
  unfold Store.close
  rw [Action.result_bind, result_onData, hr₁]
  simp only [Except.mapError]
  rw [result_onKeys, hr₂]
  have halike := halike₁.trans halike₂
  refine ⟨d₂, _, rfl, halike, ?_, rfl, rfl, rfl, rfl⟩
  obtain ⟨x, hx, hdata⟩ := (hm.alike halike).dataFile
  obtain ⟨y, hy, hkeys⟩ := (hm.alike halike).keyFile
  exact ⟨halike.healthy, hm.dataPath, hm.keyPath, ⟨x, hx, hdata.close⟩, ⟨y, hy, hkeys.close⟩⟩

/-! ### Resetting -/

/-- A reset makes both files anew, empty, whatever lies at their names. -/
theorem renew_spec {x y : Spot} (hd : d.Healthy) (hp : s.dataFile.path = c.dataFile)
    (hq : s.keyFile.path = c.keyFile) (hx : x.2 = c.dataName) (hy : y.2 = c.keyName)
    (hdata : Lodged d s.dataFile.path x) (hkeys : Lodged d s.keyFile.path y)
    (hfile : ∀ m, d.at? x ≠ some (.directory m)) (hfile' : ∀ m, d.at? y ≠ some (.directory m)) :
    ∃ d' s', reset.result (d, s) = (.ok (), (d', s')) ∧ Spared c.draftName d d' ∧
      Mounted c d' s' [] [] ∧ s'.IsOpen ∧ s'.index = .empty s.index.capacity ∧
      s'.free = .empty s.free.capacity ∧ s'.pending = none ∧ s'.generation = s.generation + 1 := by
  obtain ⟨d₁, hr₁, halike₁⟩ := RecordFile.close_spec hd s.dataFile
  obtain ⟨d₂, hr₂, halike₂⟩ := RecordFile.close_spec halike₁.healthy s.keyFile
  have halike := halike₁.trans halike₂
  have hnodes : d₂.at? = d.at? := halike.nodes
  have hlodged : ∀ {p : Path} {x : Spot}, Lodged d p x → Lodged d₂ p x := fun h =>
    h.mono (halike.toLocal "").directories
  have hxy : y.2 ≠ x.2 := by
    rw [hx, hy]
    exact c.dataName_ne_keyName.symm
  -- both names are taken away, and then given to new files
  obtain ⟨d₃, hr₃, hl₃, hx₃⟩ := unlinkIfPresent_spec halike.healthy (hlodged hdata)
    (hnodes ▸ hfile)
  obtain ⟨d₄, hr₄, hl₄, hy₄⟩ := unlinkIfPresent_spec hl₃.healthy
    ((hlodged hkeys).mono hl₃.directories) (by rw [hl₃.nodes y hxy, hnodes]; exact hfile')
  have hx₄ : d₄.at? x = none := (hl₄.nodes x hxy.symm).trans hx₃
  obtain ⟨d₅, f, hr₅, hl₅, hf, hfo, hfp⟩ := RecordFile.openAt_spec hl₄.healthy
    (((hlodged hdata).mono hl₃.directories).mono hl₄.directories) (by simp [hx₄])
  have hy₅ : d₅.at? y = none := (hl₅.nodes y hxy).trans hy₄
  obtain ⟨d₆, g, hr₆, hl₆, hg, hgo, hgp⟩ := RecordFile.openAt_spec hl₅.healthy
    ((((hlodged hkeys).mono hl₃.directories).mono hl₄.directories).mono hl₅.directories)
    (by simp [hy₅])
  refine ⟨d₆, { s.forget with dataFile := f, keyFile := g }, ?_, ?_, ?_, ⟨hfo, hgo⟩, rfl, rfl, rfl,
    rfl⟩
  · unfold reset
    rw [Action.result_bind, FileAction.result_change]
    simp only
    rw [Action.result_bind, Action.result_regardless, result_onData]
    simp only [forget, hr₁]
    rw [Action.result_bind, Action.result_regardless, result_onKeys]
    simp only [hr₂]
    rw [Action.result_bind, FileAction.result_value]
    simp only
    rw [Action.result_bind, FileAction.result_onDisk, Action.result_lift, hr₃]
    simp only [Except.mapError]
    rw [Action.result_bind, FileAction.result_onDisk, Action.result_lift, hr₄]
    simp only [Except.mapError]
    rw [Action.result_bind, FileAction.result_onDisk, hr₅]
    simp only [Except.mapError]
    rw [Action.result_bind, FileAction.result_change]
    simp only
    rw [Action.result_bind, FileAction.result_onDisk, hr₆]
    rfl
  · refine (halike.spared _).trans
      (((hx ▸ hl₃).spared c.draftName_ne_dataName).trans
      (((hy ▸ hl₄).spared c.draftName_ne_keyName).trans
        (((hx ▸ hl₅).spared c.draftName_ne_dataName).trans
          ((hy ▸ hl₆).spared c.draftName_ne_keyName))))
  · have hb₄ : RecordFile.bytesAt d₄ x = [] := by rw [RecordFile.bytesAt, hx₄]
    have hb₅ : RecordFile.bytesAt d₅ y = [] := by rw [RecordFile.bytesAt, hy₅]
    exact ⟨hl₆.healthy, hfp.trans hp, hgp.trans hq,
      ⟨x, hx, hb₄ ▸ hf.frame (hl₆.spared hxy.symm) rfl⟩, ⟨y, hy, hb₅ ▸ hg⟩⟩

theorem reset_spec (hm : Mounted c d s data keys) :
    ∃ d' s', reset.result (d, s) = (.ok (), (d', s')) ∧ Spared c.draftName d d' ∧
      Mounted c d' s' [] [] ∧ s'.IsOpen ∧ s'.index = .empty s.index.capacity ∧
      s'.free = .empty s.free.capacity ∧ s'.pending = none ∧ s'.generation = s.generation + 1 := by
  obtain ⟨x, hx, hdata⟩ := hm.dataFile
  obtain ⟨y, hy, hkeys⟩ := hm.keyFile
  obtain ⟨n, hn, -⟩ := hdata.lies
  obtain ⟨m, hm', -⟩ := hkeys.lies
  exact renew_spec hm.healthy hm.dataPath hm.keyPath hx hy hdata.lodged hkeys.lodged
    (by simp [hn]) (by simp [hm'])

end DiskTier.Store
