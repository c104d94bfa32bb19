import DiskTier.Proofs.Abandonment

/-!
# Damage to the data file

Others may write to the data file of a region while that has it open. No read takes what they wrote
for the record of a key unless it is one. A read of another record fails and empties the region;
and from then on a client cannot tell it from a region that was just opened over no files.
-/

namespace DiskTier

open FileSystem

variable {α : Type} {c : Config} {d d' : FileSystem}

namespace FileSystem

variable {p : Path} {x : Spot} {n : Nat}

theorem Lodged.at?_of_look (hp : Lodged d p x) (h : d.look p = .ok (some (.file n))) :
    d.at? x = some (.file n) := by
  obtain ⟨here, hr, hx⟩ := hp.resolves
  rw [FileSystem.look, hr] at h
  simp only [bind, Except.bind, hx, hp.find, hp.plain, Bool.false_eq_true, if_false] at h
  rcases hn : d.at? x with _ | ⟨m | m⟩ <;> rw [hn] at h <;> cases h
  rfl

/-- What comes of an attempt to read bytes. -/
theorem readAt_eq {length : Nat} (hl : length ≠ 0) (n offset : Nat) (d : FileSystem) :
    (readAt n offset length).result d = match d.faults d.attempts with
      | some fault => (.error fault.refusal, d.tick)
      | none =>
        if maxPosition < offset + length then (.error .invalidInput, d.tick)
        else match (d.content n).read? offset length with
          | some bytes => (.ok bytes, d.tick)
          | none => (.error .shortRead, d.tick) := by
  rw [readAt, if_neg hl, operate_eq]
  cases d.faults d.attempts with
  | some fault => rfl
  | none =>
    by_cases hlt : maxPosition < offset + length
    · simp only [if_pos hlt]
    · simp only [if_neg hlt, content_tick]
      cases (d.content n).read? offset length <;> rfl

end FileSystem

/-! ### Reading -/

namespace RecordFile

variable {f : RecordFile} {slot : Slot} {n : Nat} {bytes : Bytes}

/-- A read leaves the files as they are. -/
theorem read_leaves (f : RecordFile) (slot : Slot) (d : FileSystem) :
    ((f.read slot).result d).2 = d ∨ ((f.read slot).result d).2 = d.tick := by
  rw [RecordFile.read, Action.result_bind, Action.result_liftM]
  cases f.number with
  | error e => exact .inl rfl
  | ok n =>
    simp only
    split
    · rw [Action.result_lift]
      by_cases hl : slot.length.toNat = 0
      · rw [readAt, if_pos hl]
        exact .inl rfl
      · rw [readAt_eq hl]
        refine .inr ?_
        split
        · rfl
        · split
          · rfl
          · split <;> rfl
    · exact .inl rfl

/-- The bytes that are read are those of the slot. -/
theorem of_read_ok (h : (f.read slot).result d = (.ok bytes, d')) :
    ∃ n, f.handle = some n ∧ slot.isWithin f.length.toNat ∧
      (slot.length.toNat ≠ 0 → slot.stop ≤ (d.content n).size) ∧
      bytes = slot.slice (d.content n).toList := by
  rw [RecordFile.read, Action.result_bind, Action.result_liftM] at h
  cases hh : f.handle with
  | none =>
    rw [number, hh] at h
    cases h
  | some n =>
    rw [number, hh] at h
    simp only at h
    by_cases hin : slot.isWithin f.length.toNat
    · refine ⟨n, rfl, hin, ?_⟩
      rw [if_pos hin, Action.result_lift] at h
      by_cases hl : slot.length.toNat = 0
      · rw [readAt, if_pos hl] at h
        cases h
        rw [Slot.slice, hl, List.take_zero]
        exact ⟨fun hne => absurd rfl hne, rfl⟩
      · rw [readAt_eq hl, Content.read?_eq] at h
        cases hnone : d.faults d.attempts with
        | some fault =>
          rw [hnone] at h
          cases h
        | none =>
          rw [hnone] at h
          simp only at h
          split at h
          · cases h
          · by_cases hsize : slot.start + slot.length.toNat ≤ (d.content n).size
            · rw [if_pos (.inl hsize)] at h
              cases h
              exact ⟨fun _ => hsize, rfl⟩
            · rw [if_neg (not_or.2 ⟨hsize, hl⟩)] at h
              cases h
    · rw [if_neg hin] at h
      cases h

/-- The bytes of a slot that lies in the file can be read. -/
theorem read_ok (hh : f.handle = some n) (hin : slot.isWithin f.length.toNat)
    (hsize : slot.length.toNat ≠ 0 → slot.stop ≤ (d.content n).size)
    (hmax : (d.content n).size ≤ maxPosition) (hnone : d.faults d.attempts = none) :
    ((f.read slot).result d).1 = .ok (slot.slice (d.content n).toList) := by
  rw [RecordFile.read, Action.result_bind, Action.result_liftM, number, hh]
  simp only [hin, if_true]
  rw [Action.result_lift]
  by_cases hl : slot.length.toNat = 0
  · rw [readAt, if_pos hl, Slot.slice, hl, List.take_zero]
    rfl
  · have hle : ¬ maxPosition < slot.start + slot.length.toNat :=
      Nat.not_lt.2 (Nat.le_trans (hsize hl) hmax)
    have hread : (d.content n).read? slot.start slot.length.toNat =
        some (slot.slice (d.content n).toList) := by
      rw [Content.read?_eq, if_pos (.inl (hsize hl))]
      rfl
    rw [readAt_eq hl, hnone, hread]
    simp only [if_neg hle]
    rfl

end RecordFile

namespace Store

variable {s : Store} {k : Key} {e : Element}

/-- The index leads from a key to a slot that lies in the data file, and what is there is a record
of the key. -/
def Readable (d : FileSystem) (s : Store) (k : Key) (e : Element) : Prop :=
  ∃ slot n, s.index.get? k = some slot ∧ s.dataFile.handle = some n ∧
    slot.isWithin s.dataFile.length.toNat ∧ slot.stop ≤ (d.content n).size ∧
    Element.decode (slot.slice (d.content n).toList) = .ok e ∧ e.key = k

theorem result_read (s : Store) (k : Key) (d : FileSystem) :
    (s.read k).result d = match s.index.get? k with
      | none => (.ok none, d)
      | some slot => match (s.dataFile.read slot).result d with
        | (.ok record, d') => (found k slot record, d')
        | (.error err, d') => (.error (.file err), d') := by
  unfold Store.read
  cases s.index.get? k with
  | none => rfl
  | some slot =>
    simp only
    rw [Action.result_bind, Action.result_failingAs]
    rcases (s.dataFile.read slot).result d with ⟨err | record, d'⟩
    · rfl
    · simp only [Except.mapError, found]
      cases Element.decode record with
      | error fault => rfl
      | ok e =>
        simp only
        split <;> rfl

theorem read_leaves (s : Store) (k : Key) (d : FileSystem) :
    ((s.read k).result d).2 = d ∨ ((s.read k).result d).2 = d.tick := by
  rw [result_read]
  cases s.index.get? k with
  | none => exact .inl rfl
  | some slot =>
    have hleaves := s.dataFile.read_leaves slot d
    simp only
    rcases hr : (s.dataFile.read slot).result d with ⟨err | record, d'⟩ <;> rw [hr] at hleaves <;>
      exact hleaves

/-- Nothing is found under a key only if the index does not have it. -/
theorem get?_eq_none_of_read (h : (s.read k).result d = (.ok none, d')) :
    s.index.get? k = none := by
  rw [result_read] at h
  cases hk : s.index.get? k with
  | none => rfl
  | some slot =>
    rw [hk] at h
    simp only at h
    rcases hr : (s.dataFile.read slot).result d with ⟨err | record, e⟩ <;> rw [hr] at h
    · cases h
    · simp only [found] at h
      cases hdec : Element.decode record with
      | error fault =>
        rw [hdec] at h
        cases h
      | ok element =>
        rw [hdec] at h
        simp only at h
        split at h <;> cases h

/-- What is found under a key is a record of that key. -/
theorem readable_of_read (h : (s.read k).result d = (.ok (some e), d')) : s.Readable d k e := by
  rw [result_read] at h
  cases hk : s.index.get? k with
  | none =>
    rw [hk] at h
    cases h
  | some slot =>
    rw [hk] at h
    simp only at h
    rcases hr : (s.dataFile.read slot).result d with ⟨err | record, t⟩ <;> rw [hr] at h
    · cases h
    · simp only [found] at h
      cases hdec : Element.decode record with
      | error fault =>
        rw [hdec] at h
        cases h
      | ok element =>
        rw [hdec] at h
        simp only at h
        split at h
        · next hkey =>
          cases h
          obtain ⟨n, hn, hin, hsize, rfl⟩ := RecordFile.of_read_ok hr
          refine ⟨slot, n, hk, hn, hin, hsize fun hl => ?_, hdec, hkey⟩
          rw [Slot.slice, hl, List.take_zero] at hdec
          cases hdec
        · cases h

/-- A record of the key is found, unless the read is planned to fail. -/
theorem Readable.read (h : s.Readable d k e) (hd : d.Orderly)
    (hnone : d.faults d.attempts = none) : ((s.read k).result d).1 = .ok (some e) := by
  obtain ⟨slot, n, hk, hn, hin, hsize, hdec, rfl⟩ := h
  have hread := RecordFile.read_ok hn hin (fun _ => hsize) (hd.healthy.short n) hnone
  rw [result_read, hk]
  simp only
  rcases hr : (s.dataFile.read slot).result d with ⟨err | record, t⟩ <;> rw [hr] at hread <;>
    cases hread
  simp only [found, hdec, if_true]

end Store

/-! ### Empty regions -/

namespace Region

variable {D D' : Nat} {P P' : Key → Prop} {g g' : Shade} {r r' : Region} {p q p' q' : World}

/-- A region without keys and free slots, whose files are open and have no bytes. -/
structure Blank (p : World) : Prop where
  holds : view p = .empty p.2.config
  isOpen : p.2.store.IsOpen
  dataLength : p.2.store.dataFile.length = 0
  keyLength : p.2.store.keyFile.length = 0

/-- Two empty regions are level, wherever their files lie. -/
theorem Anchored.rest_of_blank (h : Anchored D P p.1 g p.2) (h' : Anchored D' P' p'.1 g' p'.2)
    (hp : Blank p) (hp' : Blank p') (hconfig : p'.2.config = p.2.config)
    (halive : p'.2.alive = p.2.alive) : ∃ S, Rest p.2.config S p p' := by
  have hs := h.store.replan truthful_none
  have hs' := h'.store.replan truthful_none
  rw [hconfig] at hs'
  have hview : view p' = view p := by rw [hp'.holds, hp.holds, hconfig]
  have hdata := congrArg View.data hview
  have hkeys := congrArg View.keys hview
  simp only [view, hconfig] at hdata hkeys
  rw [← contentAt?_calmed p.1, ← contentAt?_calmed p'.1] at hdata hkeys
  exact ⟨_, ⟨hs.level_of_same hs' (fun _ => rfl) hp.isOpen hp'.isOpen hdata hkeys
    (hp'.dataLength.trans hp.dataLength.symm) (hp'.keyLength.trans hp.keyLength.symm)
    (congrArg View.index hview) (congrArg View.free hview), rfl, hconfig, halive⟩,
    h.store.orderly, h'.store.orderly⟩

/-- A region that was just opened and found no key is empty. -/
theorem OpenedEmpty.blank (h : OpenedEmpty c p) : Blank p ∧ p.2.config = c ∧ p.2.alive := by
  obtain ⟨hsound, hconfig, hindex, halive, -⟩ := Sound.of_openedEmpty h
  obtain ⟨d, hd, ho, hsize⟩ := h
  obtain ⟨hc, d₁, d₂, -, -, -, hl, hs, -⟩ := openAt_ok hd ho
  obtain ⟨hm, hopen, -, hfree, -⟩ := Store.openAt_empty hc hl.healthy hs hsize
  have hlength : ∀ {n : UInt64}, n.toNat = 0 → n = 0 := fun h => UInt64.toNat_inj.1 h
  refine ⟨⟨?_, hopen, hlength hm.dataLength, hlength hm.keyLength⟩, hconfig, halive⟩
  rw [view, hconfig, hindex, hfree, hm.contentAt?, hm.keysAt?]
  rfl

/-! ### Damage -/

/-- Others have changed what the data file of a region holds. -/
inductive Damaged : World → World → Prop where
  | data {d : FileSystem} {r : Region} {n : Nat} {content : Content}
      (hfile : d.look r.config.dataFile = .ok (some (.file n)))
      (hsize : content.size ≤ maxPosition) : Damaged (d, r) (d.setContent n content, r)

/-- What comes of a region whose data file others may change at any time. -/
inductive Exposed : World → Prop where
  | opened {c : Config} {d : FileSystem} {p : World} (hd : d.Orderly)
      (ho : (Region.openAt c).result d = (.ok p.2, p.1)) : Exposed p
  | event {p q : World} {event : Event} (h : Exposed p) (he : Trial p event q) : Exposed q
  | damaged {p q : World} (h : Exposed p) (hd : Damaged p q) : Exposed q

/-- The files of a damaged region lie where they lay. -/
theorem Anchored.damaged (h : Anchored D P p.1 g p.2) (hd : Damaged p q) :
    ∃ g', Anchored D P q.1 g' q.2 := by
  cases hd with
  | @data d r n content hfile hsize =>
    have hx : d.at? (D, r.config.dataName) = some (.file n) :=
      h.store.rooted.data.lodged.at?_of_look hfile
    have heffect : Effect (· = (D, r.config.dataName).2) d g (d.setContent n content)
        (Assoc.put g n content) :=
      h.store.orderly.effect_setContent hx hsize fun _ => rfl
    have hkept : (d.setContent n content).KeptAt (Assoc.put g n content)
        (D, r.config.dataName) := by
      intro m hm
      cases hx.symm.trans hm
      exact kept_setContent_self d g n content
    have hplaced : RecordFile.Placed (d.setContent n content) r.store.dataFile
        (D, r.config.dataName) :=
      ⟨heffect.site h.store.dataFile.site, h.store.dataFile.handle⟩
    have hstore : Store.Anchored r.config D P (d.setContent n content) (Assoc.put g n content)
        r.store :=
      h.store.setData heffect r.config.dataName_ne_keyName.symm hkept hplaced h.store.dataPath
    have hremains : Store.Remains r.config D P d g r.store (d.setContent n content)
        (Assoc.put g n content) r.store :=
      ⟨hstore, heffect.mono fun _ => .inl, .refl _⟩
    exact ⟨_, (h.step ⟨rfl, rfl, rfl, rfl, rfl⟩ hremains).anchored⟩

theorem Exposed.anchored (h : Exposed p) : ∃ D P g, Anchored D P p.1 g p.2 := by
  induction h with
  | opened hd ho =>
    obtain ⟨D, g, h, -⟩ := anchored_of_openAt hd ho
    exact ⟨D, _, g, h⟩
  | event _ he ih =>
    obtain ⟨D, P, g, h⟩ := ih
    obtain ⟨g', -, hleads⟩ := he.shadowed h
    exact ⟨D, _, g', hleads.anchored⟩
  | damaged _ hd ih =>
    obtain ⟨D, P, g, h⟩ := ih
    obtain ⟨g', h'⟩ := h.damaged hd
    exact ⟨D, P, g', h'⟩

/-! ### After a read that fails -/

/-- What a reset leaves of a region. -/
structure WipedTo (p q : World) : Prop extends Blank q where
  config : q.2.config = p.2.config
  alive : q.2.alive = p.2.alive
  capacity : q.2.store.index.capacity = p.2.store.index.capacity
  freeCapacity : q.2.store.free.capacity = p.2.store.free.capacity
  pending : q.2.store.pending = none
  generation : q.2.store.generation = p.2.store.generation + 1

/-- Whatever clients ask, they are answered as by a region that was just opened and found no key,
and both hold the same. -/
def LikeNew (q : World) : Prop :=
  ∀ p, OpenedEmpty q.2.config p → ∀ turns : List Turn, (∀ t ∈ turns, t.deed.concernsStore) →
    (play turns q).1 = (play turns p).1 ∧ view (play turns q).2 = view (play turns p).2 ∧
      (play turns q).2.2.store.dataFile.length = (play turns p).2.2.store.dataFile.length ∧
      (play turns q).2.2.store.keyFile.length = (play turns p).2.2.store.keyFile.length

theorem Anchored.wiped (h : Anchored D P p.1 g p.2)
    (hr : Region.reset.result p = (.ok (), q)) : WipedTo p q ∧ q.2.alive ∧
      ∃ g', Anchored D P q.1 g' q.2 := by
  obtain ⟨g', hstays, hok⟩ := (shadowed_reset h).post
  rw [show Region.reset.result (p.1, p.2) = _ from hr] at hstays hok
  obtain ⟨halive, -, hgen, hnew⟩ := hok rfl
  obtain ⟨dataFile, keyFile, heq⟩ := hnew.forgets
  have ha := hstays.anchored
  have hindex : q.2.store.index = .empty p.2.store.index.capacity := by
    rw [heq]
    rfl
  have hfree : q.2.store.free = .empty p.2.store.free.capacity := by
    rw [heq]
    rfl
  -- what is seen at the path of an open file is what the file holds
  have hcontent : ∀ {f : RecordFile} {x : Spot}, RecordFile.Placed q.1 f x → f.isOpen →
      (∀ n, q.1.at? x = some (.file n) → q.1.content n = []) →
      (q.1.contentAt? f.path).map Content.toList = some [] := by
    intro f x hf hopen hempty
    obtain ⟨n, hn⟩ := Option.isSome_iff_exists.1 hopen
    have hx := hf.handle n hn
    rw [hf.site.contentAt?_eq, fileAt?_eq hx, hempty n hx, Content.toList_nil]
  have hdata := hcontent ha.store.dataFile hnew.isOpen.1 (hstays.config ▸ hnew.data)
  have hkeys := hcontent ha.store.keyFile hnew.isOpen.2 (hstays.config ▸ hnew.keys)
  rw [ha.store.dataPath] at hdata
  rw [ha.store.keyPath] at hkeys
  refine ⟨⟨⟨?_, hnew.isOpen, hnew.dataLength, hnew.keyLength⟩, hstays.config, hstays.alive,
    hstays.later.capacity, hstays.later.freeCapacity, ?_, hgen⟩, hstays.alive.trans halive, g', ha⟩
  · rw [view, hindex, hfree, hdata, hkeys, h.capacity, h.freeCapacity, hstays.config]
    rfl
  · rw [heq]
    rfl

theorem Anchored.likeNew (h : Anchored D P q.1 g q.2) (hq : Blank q) (ha : q.2.alive) :
    LikeNew q := by
  intro p hp turns hturns
  obtain ⟨hblank, hconfig, halive⟩ := hp.blank
  obtain ⟨d, hd, ho, -⟩ := hp
  obtain ⟨D', g', hp', -⟩ := anchored_of_openAt hd.orderly ho
  obtain ⟨S, hrest⟩ := hp'.rest_of_blank h hblank hq hconfig.symm (ha.trans halive.symm)
  obtain ⟨hevents, hend⟩ := hrest.play_clients hturns
  exact ⟨hevents, hend.view_eq⟩

/-- Nothing stands in the way of a reset but failures to come. -/
theorem Anchored.reset_ok (h : Anchored D P d g r) (ha : r.alive)
    (hcalm : ∀ i, d.faults (d.attempts + i) = none) : (Region.reset.result (d, r)).1 = .ok () := by
  have hs := h.store.replan truthful_none
  have hhealthy : d.calmed.Healthy := h.store.orderly.healthy
  obtain ⟨d', s', hr, -⟩ := Store.renew_spec hhealthy hs.dataPath hs.keyPath rfl rfl
    hs.dataFile.site.lodged hs.keyFile.site.lodged hs.dataFile.site.noDirectory
    hs.keyFile.site.noDirectory
  -- next to it goes a reset for which no failure is planned at all
  have hlevel : Store.Level r.config (.alike D) (d, r.store) (d.calmed, r.store) :=
    h.store.level.replan h.store.orderly.truthful truthful_none fun i => (hcalm i).symm
  have hsame := hlevel.paired_reset.1
  rw [hr] at hsame
  rw [result_reset ha]
  exact hsame.symm

/-- What comes of reading a key, and what it leaves. -/
inductive ReadsTo (p : World) (k : Key) : Except Error (Option Element) × World → Prop where
  /-- The index does not have the key. -/
  | absent (hk : p.2.store.index.get? k = none) :
      ReadsTo p k (.ok none, (p.1, { p.2 with misses := p.2.misses + 1 }))
  /-- The data file has a record of the key. -/
  | found {e : Element} {d : FileSystem} (he : p.2.store.Readable p.1 k e)
      (hd : d = p.1 ∨ d = p.1.tick) :
      ReadsTo p k (.ok (some e), (d, { p.2 with hits := p.2.hits + 1 }))
  /-- The read fails, and the region is emptied if that can be done. -/
  | failed {slot : Slot} {err : Error} {d : FileSystem} {done : Except Error Unit} {q : World}
      (hk : p.2.store.index.get? k = some slot)
      (hread : (p.2.store.read k).result p.1 = (.error err, d))
      (hunreadable : p.1.faults p.1.attempts = none → ∀ e, ¬ p.2.store.Readable p.1 k e)
      (hreset : Region.reset.result (d, { p.2 with misses := p.2.misses + 1 }) = (done, q))
      (hcounts : q.2.hits = p.2.hits ∧ q.2.misses = p.2.misses + 1)
      (hdone : (∀ i, p.1.faults (p.1.attempts + i) = none) → done = .ok ())
      (hempty : done = .ok () → WipedTo p q ∧ LikeNew q) : ReadsTo p k (.error err, q)

/-- **Damage is contained, and a region recovers from it.** Whatever others have written to the data
file, to read a key gives nothing if the index does not have it, and an element only if the bytes
of its slot are a record of that key; neither changes more than a counter. Else it fails, which
counts as a miss, and the region is reset. Once that is done, it has no keys and no free slots, as
much room for them as before, and both files are open and have no bytes; from then on clients cannot
tell it from a region that was just opened and found no key. -/
theorem damage_is_contained (h : Exposed p) (ha : p.2.alive) (k : Key) :
    ReadsTo p k ((Region.get k).result p) := by
  obtain ⟨D, P, g, h⟩ := h.anchored
  obtain ⟨d, r⟩ := p
  change r.alive at ha
  have hleaves := r.store.read_leaves k d
  rw [result_get, result_lookup ha]
  rcases hr : (r.store.read k).result d with ⟨err | _ | e, d'⟩ <;> rw [hr] at hleaves
  · -- what the failed read leaves is reset
    simp only
    have hstill : Still d g d' g := by
      rcases hleaves with rfl | rfl
      · exact h.store.orderly.still_refl g
      · exact h.store.orderly.still_tick g
    have h₁ := (h.count (t := { r with misses := r.misses + 1 }) ⟨rfl, rfl, rfl, rfl, rfl⟩ rfl
      hstill).anchored
    rcases hreset : Region.reset.result (d', { r with misses := r.misses + 1 }) with ⟨done, q⟩
    have hcounts := hreset
    rw [result_reset (r := { r with misses := r.misses + 1 }) ha] at hcounts
    cases hk : r.store.index.get? k with
    | none =>
      rw [Store.result_read, hk] at hr
      cases hr
    | some slot =>
      refine .failed hk hr (fun hnone e he => ?_) hreset ?_ (fun hcalm => ?_) fun hdone => ?_
      · have hok := he.read h.store.orderly hnone
        rw [hr] at hok
        cases hok
      · cases hcounts
        exact ⟨rfl, rfl⟩
      · have hok := h₁.reset_ok ha fun i => ?_
        · rw [hreset] at hok
          exact hok
        · rcases hleaves with rfl | rfl
          · exact hcalm i
          · exact (congrArg d.faults (Nat.add_right_comm d.attempts 1 i)).trans (hcalm (i + 1))
      · subst hdone
        obtain ⟨hempty, halive, g', hq⟩ := h₁.wiped hreset
        exact ⟨{ hempty with }, hq.likeNew hempty.toBlank halive⟩
  · have hk := Store.get?_eq_none_of_read hr
    rw [Store.result_read, hk] at hr
    cases hr
    exact .absent hk
  · exact .found (Store.readable_of_read hr) hleaves

/-- The data file holds a record of another key, where that of a key should lie. -/
theorem foreign_record_empties : ∃ p q q' q'' : World, OpenedEmpty (roomFor 2) p ∧
    Run Trial p [.called (.put (note "x" [1])) (.ok ())] q ∧ Damaged q q' ∧ Exposed q' ∧
    q'.2.alive ∧ q'.2.store.index.get? (.name "x") = some ⟨0, 100⟩ ∧
    (Region.get (.name "x")).result q' =
      (.error (.corrupted "x" "record at 0 holds key 'y'"), q'') ∧
    ReadsTo q' (.name "x") (.error (.corrupted "x" "record at 0 holds key 'y'"), q'') ∧
    WipedTo q' q'' ∧ LikeNew q'' := by
  have h : ((opened? (roomFor 2) .empty).map fun p =>
      let q := (Call.put (note "x" [1])).perform.result p
      let q' := (q.2.1.setContent 2 [.ofBytes (note "y" [1]).encode], q.2.2)
      decide (p.2.size = 0 ∧ q.1 = .ok () ∧
        q.2.1.look q.2.2.config.dataFile = .ok (some (.file 2)) ∧ q.2.2.alive ∧
        q.2.2.store.index.get? (.name "x") = some ⟨0, 100⟩ ∧
        ((Region.get (.name "x")).result q').1 =
          .error (.corrupted "x" "record at 0 holds key 'y'"))) = some true := by
    decide +kernel
  obtain ⟨p, hp, h⟩ := Option.map_eq_some_iff.1 h
  obtain ⟨hsize, h₁, hlook, ha, hk, hget⟩ := of_decide_eq_true h
  have ho := openedEmpty_of_eq empty_healthy hp hsize
  have hr := (Run.nil p).ask _ h₁
  obtain ⟨data, listed, hsound⟩ := ((Run.nil p).call _ h₁).isSound ho
  have hcalm := hsound.intact.mounted.healthy.calm
  let torn : Content := [.ofBytes (note "y" [1]).encode]
  have hdamaged : Damaged _ (FileSystem.setContent _ 2 torn, _) := .data hlook (by decide +kernel)
  have hexposed := ((Exposed.opened empty_healthy.orderly (opened?_eq_some_iff.1 hp)).event
    (.step (.of_result h₁))).damaged hdamaged
  obtain ⟨q'', hresult⟩ : ∃ q'', (Region.get (.name "x")).result _ =
      (.error (.corrupted "x" "record at 0 holds key 'y'"), q'') := ⟨_, Prod.ext hget rfl⟩
  have hreads := damage_is_contained hexposed ha (.name "x")
  rw [hresult] at hreads
  cases hreads with
  | failed hk' hread hunreadable hreset hcounts hdone hempty =>
    obtain ⟨hwiped, hnew⟩ := hempty (hdone fun i => hcalm _)
    exact ⟨p, _, _, q'', ho, hr, hdamaged, hexposed, ha, hk, hresult,
      .failed hk' hread hunreadable hreset hcounts hdone hempty, hwiped, hnew⟩

end Region

end DiskTier
