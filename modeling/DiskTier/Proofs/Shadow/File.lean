import DiskTier.Proofs.Shadow.Disk

/-!
# Record files in the shadow

A record file is `Placed` if its path ends where a file may lie and, while it is open, it is the
file that lies there. What it does to that file, whether it fails or not, changes nothing under
another name. A file that is made empty is kept from then on.
-/

namespace DiskTier.RecordFile

open FileSystem

variable {α : Type} {d d' : FileSystem} {g g' : Shade} {f f' : RecordFile} {x : Spot} {p : Path}
  {bytes : Bytes} {N : String → Prop}

/-- The file may lie at `x`, and if it is open, it is the one that does. -/
structure Placed (d : FileSystem) (f : RecordFile) (x : Spot) : Prop where
  site : Site d f.path x
  handle : ∀ n ∈ f.handle, d.at? x = some (.file n)

theorem Placed.frame (h : Placed d f x) (he : Effect N d g d' g') (hx : ¬ N x.2) :
    Placed d' f x :=
  ⟨he.site h.site, fun n hn => (he.nodes x hx).trans (h.handle n hn)⟩

theorem Placed.still (h : Placed d f x) (hs : Still d g d' g') : Placed d' f x := h.frame hs id

theorem Placed.replan (h : Placed d f x) (faults : Nat → Option PlannedFault) :
    Placed { d with faults } f x := ⟨h.site.replan faults, h.handle⟩

/-- A closed file may lie where an open one does. -/
theorem Placed.closed (h : Placed d f x) (hpath : f'.path = f.path) (hhandle : f'.handle = none) :
    Placed d f' x :=
  ⟨hpath ▸ h.site, fun n hn => by
    rw [hhandle] at hn
    cases hn⟩

/-- A change of an open file leaves it where it is. -/
structure Changed (x : Spot) (d : FileSystem) (g : Shade) (f : RecordFile) (d' : FileSystem)
    (g' : Shade) (f' : RecordFile) : Prop where
  effect : Effect (· = x.2) d g d' g'
  nodes : d'.at? = d.at?
  path : f'.path = f.path
  handle : f'.handle = f.handle

theorem changed_refl (h : d.Orderly) (g : Shade) (f : RecordFile) (x : Spot) :
    Changed x d g f d g f :=
  ⟨(h.still_refl g).of_still, rfl, rfl, rfl⟩

theorem changed_tick (h : d.Orderly) (g : Shade) (f : RecordFile) (x : Spot) :
    Changed x d g f d.tick g f :=
  ⟨(h.still_tick g).of_still, rfl, rfl, rfl⟩

variable {d'' : FileSystem} {g'' : Shade} {f'' : RecordFile}

theorem Changed.trans (h : Changed x d g f d' g' f') (h' : Changed x d' g' f' d'' g'' f'') :
    Changed x d g f d'' g'' f'' :=
  ⟨h.effect.trans h'.effect, h'.nodes.trans h.nodes, h'.path.trans h.path,
    h'.handle.trans h.handle⟩

theorem Changed.placed (h : Changed x d g f d' g' f') (hf : Placed d f x) : Placed d' f' x :=
  ⟨h.path ▸ h.effect.site hf.site, fun n hn => by
    rw [h.nodes]
    exact hf.handle n (h.handle ▸ hn)⟩

theorem Changed.keptAt (h : Changed x d g f d' g' f') (hk : d.KeptAt g x) : d'.KeptAt g' x :=
  fun n hn => h.effect.kept n (hk n (h.nodes ▸ hn))

/-! ### Looking -/

theorem shadowed_number_bind {x : Nat → Action FileSystem FileError α}
    {Q : Except FileError α → FileSystem → Shade → Prop}
    (hclosed : Q (.error (.closed f.path)) d g)
    (hopen : ∀ n ∈ f.handle, Shadowed shadow (x n).result d g Q) :
    Shadowed shadow (do let n ← f.number; x n : Action FileSystem FileError α).result d g Q := by
  apply Action.shadowed_bind
  apply Action.shadowed_liftM
  unfold number
  cases hh : f.handle with
  | none => exact hclosed
  | some n => exact hopen n hh

/-- A read of a kept file is the same in the shadow. -/
theorem shadowed_read (h : d.Orderly) (hf : Placed d f x) (hk : d.KeptAt g x) (slot : Slot) :
    Shadowed shadow (f.read slot).result d g fun r d' g' => Still d g d' g' ∧
      ∀ bytes, r = .ok bytes →
        bytes = ((bytesAt d x).drop slot.start).take slot.length.toNat := by
  apply shadowed_number_bind
  · exact ⟨h.still_refl g, by simp⟩
  · intro n hn
    have hx := hf.handle n hn
    split
    · apply Action.shadowed_failingAs
      refine (h.shadowed_readAt (hk n hx) slot.start slot.length.toNat).mono ?_
      rintro (e | b) d' g' ⟨hs, hb⟩
      · exact ⟨hs, by simp [Except.mapError]⟩
      · refine ⟨hs, ?_⟩
        rintro _ ⟨⟩
        rw [hb b rfl, bytesAt, hx]
    · exact Action.shadowed_throw ⟨h.still_refl g, by simp⟩

theorem shadowed_readAll (h : d.Orderly) (hf : Placed d f x) (hk : d.KeptAt g x) :
    Shadowed shadow f.readAll.result d g fun r d' g' => Still d g d' g' ∧
      ∀ bytes, r = .ok bytes → ∃ k, bytes = (bytesAt d x).take k := by
  unfold readAll
  split
  · refine (shadowed_read h hf hk _).mono ?_
    rintro r d' g' ⟨hs, hb⟩
    exact ⟨hs, fun bytes hr => ⟨_, hb bytes hr⟩⟩
  · exact Action.shadowed_throw ⟨h.still_refl g, by simp⟩

theorem shadowed_sync (h : d.Orderly) (f : RecordFile) :
    Shadowed shadow f.sync.result d g fun _ d' g' => Still d g d' g' := by
  apply shadowed_number_bind
  · exact h.still_refl g
  · intro n _
    apply Action.shadowed_failingAs
    refine (h.shadowed_sync n).mono ?_
    rintro r _ g ⟨rfl, rfl⟩
    exact h.still_tick g

/-! ### Opening -/

/-- The length of a file that was just opened is that of what lies there. -/
theorem shadowed_openAt (h : d.Orderly) (hs : Site d p x) (hk : d.KeptAt g x) :
    Shadowed shadow (openAt p).result d g fun r d' g' => Opened x d g d' g' ∧
      ∀ f, r = .ok f → f.path = p ∧ Placed d' f x ∧ f.isOpen ∧
        f.length.toNat = (bytesAt d' x).length := by
  unfold openAt
  apply Action.shadowed_bind
  apply Action.shadowed_failingAs
  refine (h.shadowed_openFile hs).mono ?_
  rintro (e | n) d₁ g₁ ⟨ho, hn⟩
  · exact ⟨ho, by simp⟩
  have hx := hn n rfl
  have horderly := ho.effect.orderly
  apply Action.shadowed_bind
  apply Action.shadowed_failingAs
  refine (horderly.shadowed_fileSize (ho.kept hk n hx)).mono ?_
  rintro (e | size) _ g₁ ⟨rfl, rfl, hsize⟩
  · exact ⟨⟨ho.effect.trans (horderly.still_tick g₁).of_still, ho.bytes, ho.kept, ho.fresh⟩,
      by simp⟩
  · refine Action.shadowed_pure ⟨⟨ho.effect.trans (horderly.still_tick g₁).of_still, ho.bytes,
      ho.kept, ho.fresh⟩, ?_⟩
    rintro _ ⟨⟩
    refine ⟨rfl, ⟨(horderly.still_tick g₁).site (ho.effect.site hs), ?_⟩, rfl, ?_⟩
    · rintro _ ⟨⟩
      exact hx
    · have hshort : (d₁.content n).size ≤ maxPosition := horderly.healthy.short n
      have hlt : maxPosition < UInt64.size := by decide
      have hbytes : bytesAt d₁.tick x = (d₁.content n).toList := by
        rw [bytesAt, at?_tick, hx]
        rfl
      rw [hbytes, Content.length_toList, hsize size rfl,
        UInt64.toNat_ofNat_of_lt' (Nat.lt_of_le_of_lt hshort hlt)]

/-! ### Changing -/

theorem shadowed_openNumber_bind {γ : Type} {cast : γ → FileSystem → FileSystem} {g : γ}
    {x : Nat → Change α} {Q : Except FileError α → FileSystem × RecordFile → γ → Prop}
    (hclosed : Q (.error (.closed f.path)) (d, f) g)
    (hopen : ∀ n ∈ f.handle, Shadowed (onFiles cast) (x n).result (d, f) g Q) :
    Shadowed (onFiles cast) (openNumber >>= x).result (d, f) g Q := by
  apply Action.shadowed_bind
  apply FileAction.shadowed_value_bind
  apply Action.shadowed_liftM
  unfold number
  cases hh : f.handle with
  | none => exact hclosed
  | some n => exact hopen n hh

theorem bytesAt_of_nodes (h : d'.at? = d.at?) {n : Nat} (hx : d.at? x = some (.file n)) :
    bytesAt d' x = (d'.content n).toList := by
  rw [bytesAt, h, hx]

/-- A file that is emptied is kept from then on. -/
theorem shadowed_truncate (h : d.Orderly) (hf : Placed d f x) :
    Shadowed (onFiles shadow) truncate.result (d, f) g fun r q g' => Changed x d g f q.1 g' q.2 ∧
      (r = .ok () → bytesAt q.1 x = [] ∧ q.1.KeptAt g' x) ∧
      ∀ e, r = .error e → bytesAt q.1 x = bytesAt d x := by
  unfold truncate
  apply shadowed_openNumber_bind
  · exact ⟨changed_refl h g f x, by simp, fun _ _ => rfl⟩
  · intro n hn
    have hx := hf.handle n hn
    apply Action.shadowed_bind
    apply FileAction.shadowed_onDisk
    refine (h.shadowed_resize hx).mono ?_
    rintro (e | u) d' g' ⟨he, hnodes, herror, hok⟩
    · obtain ⟨rfl, rfl⟩ := herror e rfl
      exact ⟨changed_tick h _ f x, by simp, fun _ _ => rfl⟩
    · obtain ⟨hempty, hkept⟩ := hok rfl
      refine FileAction.shadowed_change ⟨⟨he, hnodes, rfl, rfl⟩, fun _ => ⟨?_, ?_⟩, by simp⟩
      · rw [bytesAt_of_nodes hnodes hx, hempty]
        rfl
      · intro m hm
        rw [hnodes, hx] at hm
        cases hm
        exact hkept

/-- Making a file empty asks for its size and does nothing with it. -/
theorem createEmpty_eq (p : Path) (d : FileSystem) :
    (createEmpty p).result d = match (openFile p).result d with
      | (.error e, d₁) => (.error (.refused e), d₁)
      | (.ok n, d₁) =>
        match d₁.faults d₁.attempts with
        | some fault => (.error (.refused fault.refusal), d₁.tick)
        | none =>
          match (resize n 0).result d₁.tick with
          | (.error e, d₂) => (.error (.refused e), d₂)
          | (.ok (), d₂) => (.ok { path := p, handle := some n, length := 0 }, d₂) := by
  unfold createEmpty openAt
  rw [Action.result_bind, Action.result_bind, Action.result_lift]
  rcases (openFile p).result d with ⟨e | n, d₁⟩
  · rfl
  simp only [Except.mapError]
  rw [Action.result_bind, Action.result_lift, fileSize, operate_eq]
  cases d₁.faults d₁.attempts with
  | some fault => rfl
  | none =>
    simp only [Except.mapError, Action.result_pure]
    rw [Action.result_map, FileAction.result_startingWith, truncate, Action.result_bind,
      result_openNumber rfl]
    simp only
    rw [Action.result_bind, FileAction.result_onDisk]
    rcases (resize n 0).result d₁.tick with ⟨e | u, d₂⟩
    · rfl
    · rfl

/-- Whatever lay at the path, in the shadow or not, is forgotten. -/
theorem shadowed_createEmpty (h : d.Orderly) (hs : Site d p x) :
    Shadowed shadow (createEmpty p).result d g fun r d' g' => Effect (· = x.2) d g d' g' ∧
      ∀ f, r = .ok f → f.path = p ∧ f.length = 0 ∧ Placed d' f x ∧ d'.KeptAt g' x := by
  obtain ⟨g₁, heq, ho, hn⟩ := h.shadowed_openFile (g := g) hs
  unfold Shadowed
  rw [createEmpty_eq, createEmpty_eq, heq]
  rcases hr : (openFile p).result d with ⟨e | n, d₁⟩ <;> rw [hr] at ho hn
  · exact ⟨g₁, rfl, ho.effect, by simp⟩
  have hx : d₁.at? x = some (.file n) := hn n rfl
  have ht := ho.effect.orderly.still_tick g₁
  have hplan : (d₁.shadow g₁).faults (d₁.shadow g₁).attempts = d₁.faults d₁.attempts := rfl
  have htick : (d₁.shadow g₁).tick = d₁.tick.shadow g₁ := rfl
  dsimp only
  rw [hplan, htick]
  cases d₁.faults d₁.attempts with
  | some fault => exact ⟨g₁, rfl, ho.effect.trans ht.of_still, by simp⟩
  | none =>
    obtain ⟨g₂, heq₂, he, hnodes, -, hok⟩ := ht.orderly.shadowed_resize (g := g₁) (x := x) hx
    dsimp only
    rw [heq₂]
    have heffect := ho.effect.trans (ht.of_still.trans he)
    rcases hr₂ : (resize n 0).result d₁.tick with ⟨e | u, d₂⟩ <;> rw [hr₂] at he hnodes hok heffect
    · exact ⟨g₂, rfl, heffect, by simp⟩
    · refine ⟨g₂, rfl, heffect, ?_⟩
      rintro _ ⟨⟩
      have hx₂ : d₂.at? x = some (.file n) := (congrFun hnodes x).trans hx
      refine ⟨rfl, rfl, ⟨heffect.site hs, ?_⟩, ?_⟩
      · rintro _ ⟨⟩
        exact hx₂
      · intro m hm
        cases hx₂.symm.trans hm
        exact (hok rfl).2

/-- All of the bytes are in the file. -/
structure Written (x : Spot) (offset : UInt64) (bytes : Bytes) (d : FileSystem) (f : RecordFile)
    (d' : FileSystem) (f' : RecordFile) : Prop where
  grown : (bytesAt d x).length ≤ (bytesAt d' x).length
  reaches : bytes ≠ [] → offset.toNat + bytes.length ≤ (bytesAt d' x).length
  length : f'.length = max f.length (endOf offset bytes.length)

/-- A write at the start of an empty file leaves the first bytes there, and all of them unless it
fails. -/
theorem shadowed_write (h : d.Orderly) (hf : Placed d f x) (offset : UInt64) (bytes : Bytes) :
    Shadowed (onFiles shadow) (write offset bytes).result (d, f) g fun r q g' =>
      Changed x d g f q.1 g' q.2 ∧ (offset = 0 → bytesAt d x = [] →
        ∃ k, bytesAt q.1 x = bytes.take k ∧ (r = .ok () → bytes.length ≤ k)) ∧
      (r = .ok () → Written x offset bytes d f q.1 q.2) := by
  unfold write
  apply shadowed_openNumber_bind
  · exact ⟨changed_refl h g f x, fun _ hb => ⟨0, hb, nofun⟩, nofun⟩
  · intro n hn
    have hx := hf.handle n hn
    apply Action.shadowed_bind
    apply FileAction.shadowed_onDisk
    refine (h.shadowed_writeAt hx offset.toNat bytes).mono ?_
    intro r d' g' hpost
    obtain ⟨he, hnodes, hcontent⟩ := hpost
    have hold := bytesAt_of_nodes rfl hx
    have hnew := bytesAt_of_nodes hnodes hx
    have hbytes : offset = 0 → bytesAt d x = [] →
        ∃ k, bytesAt d' x = bytes.take k ∧ (r = .ok () → bytes.length ≤ k) := by
      rintro rfl hb
      rw [hold] at hb
      rw [hnew]
      rcases hcontent with ⟨heq, hall⟩ | ⟨k, heq, hall⟩
      · exact ⟨0, by rw [heq, hb]; rfl, fun hok => by rw [hall hok]; exact Nat.le_refl 0⟩
      · refine ⟨k, ?_, hall⟩
        rw [heq, Content.toList_write, hb]
        simp
    cases r with
    | error e =>
      refine ⟨⟨he, hnodes, rfl, rfl⟩, fun h₀ hb => ?_, nofun⟩
      obtain ⟨k, hk, -⟩ := hbytes h₀ hb
      exact ⟨k, hk, nofun⟩
    | ok u =>
      refine FileAction.shadowed_change ⟨⟨he, hnodes, rfl, rfl⟩, fun h₀ hb => ?_,
        fun _ => ⟨?_, ?_, rfl⟩⟩
      · obtain ⟨k, hk, hall⟩ := hbytes h₀ hb
        exact ⟨k, hk, fun _ => hall rfl⟩
      · rw [hold, hnew, Content.length_toList, Content.length_toList]
        rcases hcontent with ⟨heq, -⟩ | ⟨k, heq, -⟩
        · rw [heq]
        · rw [heq, size_write]
          exact Nat.le_max_left _ _
      · intro hne
        rw [hnew, Content.length_toList]
        rcases hcontent with ⟨-, hall⟩ | ⟨k, heq, hall⟩
        · exact absurd (hall rfl) hne
        · rw [heq, List.take_of_length_le (hall rfl), size_write]
          exact Nat.le_max_right _ _

/-- No more bytes are tracked than there are. -/
def Covered (d : FileSystem) (f : RecordFile) (x : Spot) : Prop :=
  f.length.toNat ≤ (bytesAt d x).length

theorem toNat_endOf_le (offset : UInt64) (size : Nat) :
    (endOf offset size).toNat ≤ offset.toNat + size := by
  rw [endOf, UInt64.toNat_ofNat']
  exact Nat.le_trans (Nat.mod_le _ _) (Nat.min_le_left _ _)

/-- What is appended to a file lies behind what it held, and in it. -/
theorem shadowed_append (h : d.Orderly) (hf : Placed d f x) (bytes : Bytes) :
    Shadowed (onFiles shadow) (append bytes).result (d, f) g fun r q g' =>
      Changed x d g f q.1 g' q.2 ∧ (Covered d f x → ∀ slot, r = .ok slot →
        Covered q.1 q.2 x ∧ (bytesAt d x).length ≤ (bytesAt q.1 x).length ∧
          slot.stop ≤ (bytesAt q.1 x).length) := by
  unfold append
  apply FileAction.shadowed_value_bind
  split
  · exact Action.shadowed_throw ⟨changed_refl h g f x, fun _ _ hok => by cases hok⟩
  · next slot hslot =>
    obtain ⟨length, hlength, rfl⟩ := Option.map_eq_some_iff.1 hslot
    have hstop : (Slot.mk f.length length).stop ≤ f.length.toNat + bytes.length := by
      rw [Slot.stop, Slot.lengthOf?_eq_some_iff.1 hlength]
    apply Action.shadowed_bind
    refine (shadowed_write h hf f.length bytes).mono ?_
    intro r q g' hpost
    obtain ⟨hc, -, hwritten⟩ := hpost
    cases r with
    | error e => exact ⟨hc, fun _ _ hok => by cases hok⟩
    | ok u =>
      refine Action.shadowed_pure ⟨hc, fun hcovered slot heq => ?_⟩
      cases heq
      obtain ⟨hgrown, hreaches, hlen⟩ := hwritten rfl
      -- of no bytes none have to be there
      have hend : f.length.toNat + bytes.length ≤ (bytesAt q.1 x).length := by
        by_cases hnil : bytes = []
        · rw [hnil]
          exact Nat.le_trans hcovered hgrown
        · exact hreaches hnil
      refine ⟨?_, hgrown, Nat.le_trans hstop hend⟩
      rw [Covered, hlen, toNat_max]
      exact Nat.max_le.2 ⟨Nat.le_trans hcovered hgrown,
        Nat.le_trans (toNat_endOf_le _ _) hend⟩

/-- What is written over a file is there up to some byte, unless the file is as it was; if that
succeeds, it is there. -/
theorem shadowed_overwrite (h : d.Orderly) (hf : Placed d f x) (bytes : Bytes) :
    Shadowed (onFiles shadow) (overwrite bytes).result (d, f) g fun r q g' =>
      Changed x d g f q.1 g' q.2 ∧
        (bytesAt q.1 x = bytesAt d x ∨ ∃ k, bytesAt q.1 x = bytes.take k) ∧
        (r = .ok () → bytesAt q.1 x = bytes) := by
  unfold overwrite
  apply Action.shadowed_bind
  refine (shadowed_truncate h hf).mono ?_
  rintro (e | u) ⟨d₁, f₁⟩ g₁ ⟨hc, hok, herror⟩
  · exact ⟨hc, .inl (herror e rfl), nofun⟩
  · obtain ⟨hempty, -⟩ := hok rfl
    refine (shadowed_write hc.effect.orderly (hc.placed hf) 0 bytes).mono ?_
    rintro r ⟨d₂, f₂⟩ g₂ ⟨hc', hb, -⟩
    obtain ⟨k, hk, hall⟩ := hb rfl hempty
    exact ⟨hc.trans hc', .inr ⟨k, hk⟩, fun hr => by rw [hk, List.take_of_length_le (hall hr)]⟩

/-- A file is given up even if that fails. -/
theorem shadowed_close (h : d.Orderly) (f : RecordFile) :
    Shadowed (onFiles shadow) close.result (d, f) g fun _ q g' =>
      Still d g q.1 g' ∧ q.2 = { f with handle := none } := by
  unfold close
  apply FileAction.shadowed_value_bind
  obtain ⟨path, _ | n, length⟩ := f
  · exact Action.shadowed_pure ⟨h.still_refl g, rfl⟩
  · apply FileAction.shadowed_change_bind
    apply FileAction.shadowed_onDisk
    refine (h.shadowed_sync n).mono ?_
    rintro r _ g ⟨rfl, rfl⟩
    exact ⟨h.still_tick g, rfl⟩

/-- A file that was deleted lies there no more. -/
theorem shadowed_delete (h : d.Orderly) (hs : Site d f.path x) :
    Shadowed shadow f.delete.result d g fun r d' g' =>
      Effect (· = x.2) d g d' g' ∧ (r = .ok () → d'.at? x = none) := by
  unfold delete
  apply Action.shadowed_bind
  apply FileAction.shadowed_startingWith
  refine (shadowed_close h f).mono ?_
  rintro (e | u) ⟨d₁, f₁⟩ g₁ ⟨hs₁, rfl⟩
  · exact ⟨hs₁.of_still, nofun⟩
  · apply Action.shadowed_failingAs
    refine (hs₁.orderly.shadowed_unlinkIfPresent (hs₁.site hs)).mono ?_
    rintro (e | u) d₂ g₂ ⟨he, -, -, hgone⟩
    · exact ⟨hs₁.of_still.trans he, nofun⟩
    · exact ⟨hs₁.of_still.trans he, fun _ => hgone rfl⟩

/-- A path that was opened ends at a name that leads to no directory. -/
theorem site_of_openAt {name : String} (hd : d.Orderly)
    (hstep : p.steps.getLast? = some (.down name)) (h : (openAt p).result d = (.ok f, d')) :
    ∃ x : Spot, x.2 = name ∧ Site d p x := by
  have hcalm : d.calmed.Calm := fun _ => rfl
  rw [RecordFile.openAt, Action.result_bind, Action.result_lift] at h
  rcases hr : (openFile p).result d with ⟨e | n, d₁⟩
  · rw [hr] at h
    cases h
  · obtain ⟨heq, -⟩ := openFile_calmed hd hr
    obtain ⟨x, hx, hl⟩ := lodged_of_openFile hcalm hstep heq
    refine ⟨x, hx, hl.mono fun _ _ => id, fun m hm => ?_⟩
    rw [result_openFile hcalm hl, show d.calmed.at? x = some (.directory m) from hm] at heq
    cases heq

end DiskTier.RecordFile
