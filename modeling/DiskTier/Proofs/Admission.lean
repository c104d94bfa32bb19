import DiskTier.Proofs.Run

/-!
# All or nothing

A region that is opened keeps what its files hold as it is, or begins with empty files: the key file
is trusted if it can be read, lists an entry, and no slot that it gives to a key lies outside the
data file. Nothing is assumed of what the files hold.
-/

namespace DiskTier

/-! ### Failures -/

namespace Action

variable {σ τ ε ε' α β : Type} {P : ε → Prop} {Q : ε' → Prop}

/-- Whenever the action fails, `P` holds of the error. -/
def FailsOnly (P : ε → Prop) (x : Action σ ε α) : Prop := ∀ s e, (x.result s).1 = .error e → P e

theorem failsOnly_pure (a : α) : FailsOnly P (pure a : Action σ ε α) := by
  intro s e he
  cases he

theorem FailsOnly.bind {x : Action σ ε α} {f : α → Action σ ε β} (hx : FailsOnly P x)
    (hf : ∀ a, FailsOnly P (f a)) : FailsOnly P (x >>= f) := by
  intro s e he
  rw [result_bind] at he
  rcases hr : x.result s with ⟨e' | a, s'⟩
  · rw [hr] at he
    cases he
    exact hx s e (congrArg Prod.fst hr)
  · rw [hr] at he
    exact hf a s' e he

theorem FailsOnly.map {x : Action σ ε α} (hx : FailsOnly P x) (f : α → β) :
    FailsOnly P (f <$> x) := by
  rw [← bind_pure_comp]
  exact hx.bind fun _ => failsOnly_pure _

theorem FailsOnly.zoom {x : Action σ ε α} {get : τ → σ} {put : σ → τ → τ} {wrap : ε → ε'}
    (hx : FailsOnly P x) (hwrap : ∀ e, P e → Q (wrap e)) : FailsOnly Q (x.zoom get put wrap) := by
  intro t e he
  rw [result_zoom] at he
  rcases hr : x.result (get t) with ⟨e' | a, s'⟩
  · rw [hr] at he
    cases he
    exact hwrap e' (hx _ e' (congrArg Prod.fst hr))
  · rw [hr] at he
    cases he

theorem FailsOnly.failingAs {x : Action σ ε α} {wrap : ε → ε'} (hx : FailsOnly P x)
    (hwrap : ∀ e, P e → Q (wrap e)) : FailsOnly Q (x.failingAs wrap) := by
  intro s e he
  rw [result_failingAs] at he
  rcases hr : x.result s with ⟨e' | a, s'⟩
  · rw [hr] at he
    cases he
    exact hwrap e' (hx _ e' (congrArg Prod.fst hr))
  · rw [hr] at he
    cases he

theorem FailsOnly.along {x : Action (σ × τ) ε α} (hx : FailsOnly P x) (t : τ) :
    FailsOnly P (x.along t) := by
  intro s e he
  rcases hr : x.result (s, t) with ⟨e' | a, s', t'⟩
  · have heq : ((x.along t).result s).1 = .error e' := by simp [Action.along, hr]
    rw [heq] at he
    cases he
    exact hx _ e (congrArg Prod.fst hr)
  · have heq : ((x.along t).result s).1 = .ok (a, t') := by simp [Action.along, hr]
    rw [heq] at he
    cases he

end Action

namespace FileError

/-- An operation on files was refused. -/
def IsRefusal (e : FileError) : Prop := ∃ refusal, e = .refused refusal

end FileError

namespace Error

/-- An operation on files was refused. -/
def IsRefusal (e : Error) : Prop := ∃ refusal, e = .file (.refused refusal)

end Error

open FileSystem DiskTier.Action

variable {α : Type}

theorem failsOnly_lift (x : Operation α) : FailsOnly FileError.IsRefusal x.lift := by
  intro d e he
  rw [result_lift] at he
  rcases hr : (x.result d).1 with e' | a
  · rw [hr] at he
    cases he
    exact ⟨e', rfl⟩
  · rw [hr] at he
    cases he

theorem RecordFile.failsOnly_openAt (p : Path) :
    FailsOnly FileError.IsRefusal (RecordFile.openAt p) :=
  (failsOnly_lift _).bind fun _ => (failsOnly_lift _).bind fun _ => failsOnly_pure _

theorem FileError.IsRefusal.file {e : FileError} (h : e.IsRefusal) : Error.IsRefusal (.file e) :=
  h.elim fun refusal heq => ⟨refusal, heq ▸ rfl⟩

namespace Store

theorem failsOnly_onDisk {x : Action FileSystem FileError α}
    (hx : FailsOnly FileError.IsRefusal x) :
    FailsOnly Error.IsRefusal (FileAction.onDisk .file x : Store.Change α) :=
  hx.zoom fun _ => FileError.IsRefusal.file

theorem failsOnly_reset : FailsOnly Error.IsRefusal reset := by
  have hchange : ∀ f, FailsOnly Error.IsRefusal (FileAction.change f : Store.Change Unit) := by
    intro f p e he
    cases he
  have hregardless : ∀ x : Store.Change Unit,
      FailsOnly Error.IsRefusal (x.regardless : Store.Change Unit) := by
    intro x p e he
    cases he
  have hvalue : FailsOnly Error.IsRefusal (FileAction.value : Store.Change Store) := by
    intro p e he
    cases he
  refine (hchange _).bind fun _ => (hregardless _).bind fun _ => (hregardless _).bind fun _ =>
    hvalue.bind fun s => ?_
  refine (failsOnly_onDisk (failsOnly_lift _)).bind fun _ =>
    (failsOnly_onDisk (failsOnly_lift _)).bind fun _ => ?_
  exact (failsOnly_onDisk (RecordFile.failsOnly_openAt _)).bind fun _ => (hchange _).bind fun _ =>
    (failsOnly_onDisk (RecordFile.failsOnly_openAt _)).bind fun _ => hchange _

/-- A key file that cannot be read is no reason to fail. -/
theorem failsOnly_loadKeys (c : Config) (f : RecordFile) :
    FailsOnly Error.IsRefusal (loadKeys c f) := by
  unfold loadKeys
  dsimp only
  split
  · exact failsOnly_pure _
  · apply FailsOnly.bind
    · intro d e he
      cases he
    · rintro (e | bytes)
      · exact failsOnly_pure _
      · dsimp only
        split
        · exact failsOnly_pure _
        · exact failsOnly_pure _

theorem failsOnly_openAt (c : Config) : FailsOnly Error.IsRefusal (Store.openAt c) := by
  have hopen : ∀ p, FailsOnly Error.IsRefusal ((RecordFile.openAt p).failingAs Error.file) :=
    fun p => (RecordFile.failsOnly_openAt p).failingAs fun _ => FileError.IsRefusal.file
  refine (hopen _).bind fun dataFile => (hopen _).bind fun keyFile =>
    (failsOnly_loadKeys c keyFile).bind fun found => ?_
  dsimp only
  split
  · exact (failsOnly_reset.along _).map _
  · exact failsOnly_pure _

end Store

/-- Opening a region with usable settings fails only if an operation on files is refused. -/
theorem Region.failsOnly_openAt {c : Config} (hc : c.validate = .ok ()) :
    FailsOnly Error.IsRefusal (Region.openAt c) := by
  have hlift : ∀ x : Operation Unit, FailsOnly Error.IsRefusal (x.lift.failingAs Error.file) :=
    fun x => (failsOnly_lift x).failingAs fun _ => FileError.IsRefusal.file
  apply FailsOnly.bind
  · intro d e he
    rw [hc] at he
    cases he
  · intro u
    exact (hlift _).bind fun _ => (hlift _).bind fun _ =>
      (Store.failsOnly_openAt c).bind fun _ => failsOnly_pure _

/-! ### What is found in the files -/

namespace Store

variable {c : Config} {keys : Bytes} {entries : List (Key × Slot)}

theorem decode_nil : Index.Snapshot.decode [] ≠ .ok entries := by
  intro h
  cases h

/-- A key file that can be read gives the newest of its keys, each with its last slot. -/
theorem loaded_index (hlen : keys.length ≤ Slot.maxLength)
    (hdec : Index.Snapshot.decode keys = .ok entries) :
    (loaded c keys).2.Coherent ∧
      (loaded c keys).2.toList = newest c.maxKeys (Index.lastEach entries) := by
  have hne : keys ≠ [] := by
    rintro rfl
    exact decode_nil hdec
  have hsnapshot : Index.ofSnapshot keys c.maxKeys =
      .ok ((Index.empty c.maxKeys).insertAll entries) := by
    rw [Index.ofSnapshot, hdec]
    rfl
  have hread : ¬ (keys = [] ∨ Slot.maxLength < keys.length) := by
    rintro (hnil | hlong)
    · exact hne hnil
    · exact absurd hlen (Nat.not_le.2 hlong)
  rw [loaded, if_neg hread, hsnapshot]
  exact (Index.empty_coherent c.maxKeys).toList_insertAll (Nat.zero_le _) entries

/-- A key file that cannot be read gives nothing. -/
theorem loaded_nothing (h : keys.length ≤ Slot.maxLength → ∀ entries,
    Index.Snapshot.decode keys ≠ .ok entries) :
    loaded c keys = (FreeList.empty c.maxFreeSlots, Index.empty c.maxKeys) := by
  unfold loaded
  dsimp only
  split
  · rfl
  · next hread =>
    have hlen : keys.length ≤ Slot.maxLength := Nat.not_lt.1 fun hlong => hread (.inr hlong)
    cases hdec : Index.Snapshot.decode keys with
    | ok entries => exact absurd hdec (h hlen entries)
    | error fault =>
      rw [Index.ofSnapshot, hdec]
      rfl

theorem loaded_coherent (c : Config) (keys : Bytes) : (loaded c keys).2.Coherent := by
  by_cases h : keys.length ≤ Slot.maxLength ∧ ∃ entries, Index.Snapshot.decode keys = .ok entries
  · obtain ⟨hlen, entries, hdec⟩ := h
    exact (loaded_index hlen hdec).1
  · rw [loaded_nothing fun hlen entries hdec => h ⟨hlen, entries, hdec⟩]
    exact Index.empty_coherent _

end Store

namespace Region

variable {c : Config} {d d' : FileSystem} {r : Region} {p : World} {x : Spot} {data keys : Bytes}

/-- The bytes of the file at a path; none if there is no file. -/
def bytesOf (d : FileSystem) (p : Path) : Bytes := ((d.contentAt? p).map Content.toList).getD []

theorem bytesOf_eq {path : Path} (h : Lodged d path x) :
    bytesOf d path = RecordFile.bytesAt d x := by
  rw [bytesOf, h.contentAt?_eq, RecordFile.bytesAt]
  rcases d.at? x with _ | ⟨n | n⟩ <;> rfl

/-- A key file with these bytes, beside a data file with those, is trusted for `entries`. -/
structure Trustworthy (c : Config) (data keys : Bytes) (entries : List (Key × Slot)) : Prop where
  readable : keys.length ≤ Slot.maxLength
  decodes : Index.Snapshot.decode keys = .ok entries
  nonempty : entries ≠ []
  /-- Only the slots of keys that find room are asked for. -/
  within : ∀ e ∈ newest c.maxKeys (Index.lastEach entries),
    e.2.stop ≤ Slot.maxOffset ∧ e.2.stop ≤ data.length

/-- The files hold what they held, and the index has what the key file lists. -/
structure Kept (c : Config) (data keys : Bytes) (p : World) : Prop where
  dataFile : (p.1.contentAt? c.dataFile).map Content.toList = some data
  keyFile : (p.1.contentAt? c.keyFile).map Content.toList = some keys
  index : ∃ entries, Index.Snapshot.decode keys = .ok entries ∧
    p.2.store.index.toList = newest c.maxKeys (Index.lastEach entries)
  nonempty : p.2.store.index.toList ≠ []
  within : ∀ e ∈ p.2.store.index.toList, e.2.stop ≤ Slot.maxOffset ∧ e.2.stop ≤ data.length

/-- Nothing is stored, and both files are there and hold nothing. -/
structure Emptied (c : Config) (p : World) : Prop where
  index : p.2.store.index.toList = []
  size : p.2.size = 0
  free : p.2.store.free.toList = []
  dataFile : (p.1.contentAt? c.dataFile).map Content.size = some 0
  keyFile : (p.1.contentAt? c.keyFile).map Content.size = some 0

theorem Kept.not_emptied (h : Kept c data keys p) : ¬ Emptied c p := fun he => h.nonempty he.index

/-- A region without keys and with empty files has forgotten everything. -/
theorem emptied_of_mounted (hm : r.store.Mounted c d [] [])
    (hi : r.store.index = .empty c.maxKeys) (hf : r.store.free = .empty c.maxFreeSlots) :
    Emptied c (d, r) := by
  have hsize : ∀ {path : Path}, (d.contentAt? path).map Content.toList = some [] →
      (d.contentAt? path).map Content.size = some 0 := by
    intro path h
    obtain ⟨content, hcontent, hnil⟩ := Option.map_eq_some_iff.1 h
    rw [hcontent, Option.map_some, ← Content.length_toList, hnil]
    rfl
  refine ⟨?_, ?_, ?_, ?_, ?_⟩
  · show r.store.index.toList = []
    rw [hi]
    rfl
  · show r.store.index.size = 0
    rw [hi]
    rfl
  · show r.store.free.toList = []
    rw [hf]
    rfl
  · exact hsize hm.contentAt?
  · exact hsize hm.keysAt?

/-- Whether a store that was read from its files can stay as it is. -/
theorem trustworthy_iff {s : Store} (hc : c.Valid) (hm : s.Mounted c d data keys)
    (hindex : s.index = (Store.loaded c keys).2) :
    (∃ entries, Trustworthy c data keys entries) ↔ s.index.toList ≠ [] ∧ ¬ s.needsReset := by
  have hconsistent : s.isConsistent ↔
      ∀ e ∈ s.index.toList, e.2.stop ≤ Slot.maxOffset ∧ e.2.stop ≤ data.length := by
    rw [Store.isConsistent, List.all_eq_true, hm.dataLength]
    constructor
    · intro h e he
      exact Slot.isWithin_iff.1 (h e he)
    · intro h e he
      exact Slot.isWithin_iff.2 (h e he)
  constructor
  · rintro ⟨entries, hread, hdec, hne, hwithin⟩
    obtain ⟨hcoh, hlist⟩ := Store.loaded_index (c := c) hread hdec
    rw [← hindex] at hcoh hlist
    have hlist_ne : s.index.toList ≠ [] := by
      rw [hlist]
      have hpos := List.length_pos_iff.2 (Index.lastEach_ne_nil hne)
      have hroom := hc.roomy
      apply List.ne_nil_of_length_pos
      rw [newest, List.length_drop]
      omega
    refine ⟨hlist_ne, ?_⟩
    rw [Store.needsReset, hcoh.isEmpty_eq_false hlist_ne, hconsistent.2 (hlist ▸ hwithin)]
    exact Bool.false_ne_true
  · rintro ⟨hlist_ne, hneeds⟩
    -- an index with a key was read from the key file
    obtain ⟨hread, entries, hdec⟩ : keys.length ≤ Slot.maxLength ∧
        ∃ entries, Index.Snapshot.decode keys = .ok entries := by
      by_contra hno
      apply hlist_ne
      rw [hindex, Store.loaded_nothing fun hlen entries hdec => hno ⟨hlen, entries, hdec⟩]
      rfl
    obtain ⟨hcoh, hlist⟩ := Store.loaded_index (c := c) hread hdec
    rw [← hindex] at hcoh hlist
    rw [Store.needsReset, hcoh.isEmpty_eq_false hlist_ne] at hneeds
    refine ⟨entries, hread, hdec, ?_, ?_⟩
    · rintro rfl
      apply hlist_ne
      rw [hlist]
      exact List.drop_nil
    · rw [← hlist]
      exact hconsistent.1 (by simpa using hneeds)

/-! ### Opening -/

/-- The data file of a store that was opened lay in a directory that was there. -/
theorem lodged_of_openStore {s : Store} (hc : c.Valid) (hd : d.Healthy)
    (ho : (Store.openAt c).result d = (.ok s, d')) :
    ∃ x : Spot, x.2 = c.dataName ∧ Lodged d c.dataFile x := by
  unfold Store.openAt at ho
  rw [Action.result_bind, Action.result_failingAs] at ho
  rcases hr : (RecordFile.openAt c.dataFile).result d with ⟨e | f, d₁⟩
  · rw [hr] at ho
    cases ho
  · obtain ⟨x, hx, hl, -⟩ := RecordFile.lodged_of_openAt hd hc.steps_dataFile hr
    exact ⟨x, hx, hl⟩

/-- A region that can be opened keeps what its files hold, or begins with empty files, and the key
file decides which. Making the directory of the files changes none of them. -/
theorem openAt_all_or_nothing (hc : c.validate = .ok ()) (hd : d.Healthy) :
    match (Region.openAt c).result d with
    | (.error e, _) => ∃ refusal, e = .file (.refused refusal)
    | (.ok r, d') => ∃ d₁, (createDirectories c.diskPath).result d = (.ok (), d₁) ∧ Grown d d₁ ∧
        d'.holds c.draftFile = false ∧
        (Kept c (bytesOf d₁ c.dataFile) (bytesOf d₁ c.keyFile) (d', r) ∧ ¬ Emptied c (d', r) ∨
          Emptied c (d', r) ∧ ¬ Kept c (bytesOf d₁ c.dataFile) (bytesOf d₁ c.keyFile) (d', r)) ∧
        (Kept c (bytesOf d₁ c.dataFile) (bytesOf d₁ c.keyFile) (d', r) ↔
          ∃ entries, Trustworthy c (bytesOf d₁ c.dataFile) (bytesOf d₁ c.keyFile) entries) := by
  rcases hr : (Region.openAt c).result d with ⟨e | r, d'⟩
  · exact Region.failsOnly_openAt hc d e (congrArg Prod.fst hr)
  obtain ⟨hv, d₁, d₂, hr₁, hg, hu, hl, hs, -⟩ := openAt_ok hd hr
  obtain ⟨data, keys, d₃, s, hdata, hkeys, hm, -, hfree, hindex, -, hspared, hcases⟩ :=
    Store.openAt_ok hv hl.healthy hs
  -- the way to the files was there before the draft was removed
  obtain ⟨x, hx, hlx⟩ := lodged_of_openStore hv hl.healthy hs
  obtain ⟨y', -, hly'⟩ := hm.keyFile
  have hly := hlx.sibling hv.walk_dataFile hv.walk_keyFile (hm.keyPath ▸ hly'.lodged)
  have hback : ∀ z n, d₂.at? z = some (.directory n) → d₁.at? z = some (.directory n) := by
    intro z n hz
    apply at?_of_unlinkIfPresent hg.healthy.calm hv.steps_draftFile
    rw [hu]
    exact hz
  have hdata₁ : bytesOf d₁ c.dataFile = data := by
    rw [bytesOf_eq (hlx.mono hback), ← hdata x hlx]
    exact (RecordFile.bytesAt_spared (hl.spared c.draftName_ne_dataName.symm) hx).symm
  have hkeys₁ : bytesOf d₁ c.keyFile = keys := by
    rw [bytesOf_eq (hly.mono hback), ← hkeys _ hly]
    exact (RecordFile.bytesAt_spared (hl.spared c.draftName_ne_keyName.symm) rfl).symm
  have htrust := trustworthy_iff hv hm hindex
  refine ⟨d₁, hr₁, hg, ?_, ?_⟩
  · -- nothing has been put where the draft was since it was removed
    obtain ⟨here, hw, -⟩ := hlx.walk hv.walk_dataFile
    obtain ⟨hlodged, hnone⟩ := lodged_of_unlinkIfPresent hg.healthy.calm hv.walk_draftFile
      (Path.isDirectoryForm_join hv.draftName) hu hw
    rw [(hlodged.mono hspared.directories).holds_eq, hspared.nodes _ rfl, hnone]
    rfl
  · rw [hdata₁, hkeys₁, htrust]
    rcases hcases with ⟨hneeds, hm', -, hindex', hfree', -⟩ | ⟨hneeds, rfl, rfl⟩
    · have hempty : Emptied c (d', r) := emptied_of_mounted hm' hindex' hfree'
      have hnot : ¬ Kept c data keys (d', r) := fun hk => hk.not_emptied hempty
      exact ⟨.inr ⟨hempty, hnot⟩, iff_of_false hnot fun h => h.2 hneeds⟩
    · by_cases hne : r.store.index.toList = []
      · have hcoh : r.store.index.Coherent := hindex ▸ Store.loaded_coherent c keys
        have hsize : r.store.index.size = 0 := by
          rw [hcoh.size_eq, hne]
          rfl
        obtain ⟨hm', -, hindex', hfree', -⟩ := Store.openAt_empty hv hl.healthy hs hsize
        have hempty : Emptied c (d', r) := emptied_of_mounted hm' hindex' hfree'
        have hnot : ¬ Kept c data keys (d', r) := fun hk => hk.not_emptied hempty
        exact ⟨.inr ⟨hempty, hnot⟩, iff_of_false hnot fun h => h.1 hne⟩
      · obtain ⟨entries, ht⟩ := htrust.2 ⟨hne, hneeds⟩
        have hlist := (Store.loaded_index (c := c) ht.readable ht.decodes).2
        rw [← hindex] at hlist
        have hkept : Kept c data keys (d', r) :=
          ⟨hm.contentAt?, hm.keysAt?, ⟨entries, ht.decodes, hlist⟩, hne, hlist ▸ ht.within⟩
        exact ⟨.inl ⟨hkept, hkept.not_emptied⟩, iff_of_true hkept ⟨hne, hneeds⟩⟩

/-- Of two saved keys the newer one is found where there is room for one. -/
theorem newer_key_is_kept : ∃ (d d₁ : FileSystem) (q : World), (roomFor 1).validate = .ok () ∧
    d.Healthy ∧ opened? (roomFor 1) d = some q ∧ q.2.size = 1 ∧ Grown d d₁ ∧
    q.1.holds (roomFor 1).draftFile = false ∧
    Kept (roomFor 1) (bytesOf d₁ (roomFor 1).dataFile) (bytesOf d₁ (roomFor 1).keyFile) q := by
  have h : ((opened? (roomFor 2) .empty).bind fun p =>
      let q₁ := (Call.put (note "x" [1, 2])).perform.result p
      let q₂ := (Call.put (note "y" [1])).perform.result q₁.2
      let q₃ := Call.saveKeys.perform.result q₂.2
      (opened? (roomFor 1) q₃.2.1).map fun q =>
        decide (p.2.size = 0 ∧ q₁.1 = .ok () ∧ q₂.1 = .ok () ∧ q₃.1 = .ok () ∧
        (roomFor 1).validate = .ok () ∧ q.2.size = 1)) = some true := by
    decide +kernel
  obtain ⟨p, hp, h⟩ := Option.bind_eq_some_iff.1 h
  obtain ⟨q, hq, h⟩ := Option.map_eq_some_iff.1 h
  obtain ⟨hsize, h₁, h₂, h₃, hvalid, hend⟩ := of_decide_eq_true h
  have hr := (((Run.nil p).call _ h₁).call _ h₂).call _ h₃
  obtain ⟨data, listed, hsound⟩ := hr.isSound (openedEmpty_of_eq empty_healthy hp hsize)
  have hd := hsound.intact.mounted.healthy
  have hall := openAt_all_or_nothing hvalid hd
  rw [opened?_eq_some_iff.1 hq] at hall
  obtain ⟨d₁, -, hgrown, hdraft, hcases, -⟩ := hall
  refine ⟨_, d₁, q, hvalid, hd, hq, hend, hgrown, hdraft, ?_⟩
  rcases hcases with ⟨hkept, -⟩ | ⟨hempty, -⟩
  · exact hkept
  · have hzero : q.2.size = 0 := hempty.size
    rw [hend] at hzero
    cases hzero

end Region

end DiskTier
