import DiskTier.Proofs.RecordFile
import DiskTier.Proofs.Shadow.Logic

/-!
# File systems in which operations may fail, and their shadows

The shadow of a file system has the same names and the same failures to come, but its files hold
other bytes. A file is `Kept` if it holds the same bytes in both. No operation but a read tells the
two apart, and a read does not either if the file is kept.

Nothing is assumed of the failures that are planned but that none of them reports a file as missing.
What an operation may do is told by its `Effect`: whether it fails or not, nothing changes outside
certain names, and what is kept stays so.
-/

namespace DiskTier.FileSystem

open RecordFile

variable {α : Type} {d d' d'' : FileSystem} {p q : Path} {x y : Spot} {n : Nat}

/-! ### Shadows -/

/-- What the files of a shadow hold. -/
abbrev Shade : Type := List (Nat × Content)

/-- The file system with other bytes in its files. -/
def shadow (g : Shade) (d : FileSystem) : FileSystem := { d with contents := g }

/-- A file holds the same bytes in the shadow. -/
def Kept (d : FileSystem) (g : Shade) (n : Nat) : Prop := (d.shadow g).content n = d.content n

variable {g g' g'' : Shade}

theorem kept_self (d : FileSystem) (n : Nat) : d.Kept d.contents n := rfl

@[simp] theorem walk_shadow (g : Shade) (d : FileSystem) (here : Trail) (steps : List Path.Step) :
    (d.shadow g).walk here steps = d.walk here steps :=
  walk_congr (show (d.shadow g).directories = d.directories from rfl) here steps

@[simp] theorem resolve_shadow (g : Shade) (d : FileSystem) (p : Path) :
    (d.shadow g).resolve p = d.resolve p :=
  resolve_congr (show (d.shadow g).directories = d.directories from rfl) p

@[simp] theorem find_shadow (g : Shade) (d : FileSystem) (n : Nat) (name : String) :
    (d.shadow g).find n name = d.find n name := rfl

@[simp] theorem look_shadow (g : Shade) (d : FileSystem) (p : Path) :
    (d.shadow g).look p = d.look p :=
  look_congr (show (d.shadow g).directories = d.directories from rfl) p

/-! ### File systems in order -/

/-- The file system without its planned failures. -/
def calmed (d : FileSystem) : FileSystem := { d with faults := fun _ => none }

/-- No planned failure reports a file as missing. -/
def Truthful (faults : Nat → Option PlannedFault) : Prop :=
  ∀ n fault, faults n = some fault → fault.refusal ≠ .notFound

/-- All is well but for failures to come, and none of those reports a file as missing. -/
structure Orderly (d : FileSystem) : Prop where
  healthy : d.calmed.Healthy
  truthful : Truthful d.faults

theorem Healthy.orderly (h : d.Healthy) : d.Orderly :=
  ⟨⟨fun _ => rfl, h.single, h.numbered, h.short⟩, fun n fault hf => by simp [h.calm n] at hf⟩

/-- Other failures may be to come. -/
theorem Orderly.replan {faults : Nat → Option PlannedFault} (h : d.Orderly) (hf : Truthful faults) :
    { d with faults }.Orderly := ⟨h.healthy, hf⟩

theorem Orderly.healthy_of_calm (h : d.Orderly) (hc : d.Calm) : d.Healthy :=
  ⟨hc, h.healthy.single, h.healthy.numbered, h.healthy.short⟩

/-! ### Effects -/

/-- Nothing has changed outside the names `N`, no directory has come or gone, and what was kept in
the shadow still is. -/
structure Effect (N : String → Prop) (d : FileSystem) (g : Shade) (d' : FileSystem) (g' : Shade) :
    Prop where
  orderly : d'.Orderly
  nodes : ∀ x : Spot, ¬ N x.2 → d'.at? x = d.at? x
  contents : ∀ (x : Spot) n, ¬ N x.2 → d.at? x = some (.file n) → d'.content n = d.content n
  directories : ∀ x m, d'.at? x = some (.directory m) ↔ d.at? x = some (.directory m)
  kept : ∀ n, d.Kept g n → d'.Kept g' n
  faults : d'.faults = d.faults

variable {N N' : String → Prop} {name : String}

theorem Effect.trans (h : Effect N d g d' g') (h' : Effect N d' g' d'' g'') :
    Effect N d g d'' g'' := by
  refine ⟨h'.orderly, fun x hx => (h'.nodes x hx).trans (h.nodes x hx), fun x n hx hn => ?_,
    fun x m => (h'.directories x m).trans (h.directories x m), fun n hn => h'.kept n (h.kept n hn),
    h'.faults.trans h.faults⟩
  exact (h'.contents x n hx ((h.nodes x hx).trans hn)).trans (h.contents x n hx hn)

theorem Effect.mono (h : Effect N d g d' g') (hN : ∀ name, N name → N' name) :
    Effect N' d g d' g' :=
  { h with
    nodes := fun x hx => h.nodes x (mt (hN x.2) hx)
    contents := fun x n hx => h.contents x n (mt (hN x.2) hx) }

/-- An effect without a word on what is kept in a shadow. -/
theorem Effect.alone (h : Effect N d g d' g') : Effect N d d.contents d' d'.contents :=
  { h with kept := fun n _ => kept_self d' n }

/-- Nothing has changed but the number of attempts. -/
abbrev Still (d : FileSystem) (g : Shade) (d' : FileSystem) (g' : Shade) : Prop :=
  Effect (fun _ => False) d g d' g'

theorem Effect.of_still (h : Still d g d' g') : Effect N d g d' g' := h.mono fun _ => False.elim

theorem Still.at? (h : Still d g d' g') (x : Spot) : d'.at? x = d.at? x := h.nodes x id

theorem Orderly.still_refl (h : d.Orderly) (g : Shade) : Still d g d g :=
  ⟨h, fun _ _ => rfl, fun _ _ _ _ => rfl, fun _ _ => .rfl, fun _ => id, rfl⟩

theorem Orderly.still_tick (h : d.Orderly) (g : Shade) : Still d g d.tick g :=
  ⟨⟨h.healthy.tick, h.truthful⟩, fun _ _ => rfl, fun _ _ _ _ => rfl, fun _ _ => .rfl, fun _ => id,
    rfl⟩

/-- A change at one name, as it is where nothing fails. -/
theorem Orderly.effect_of_local (h : d.Orderly) (hl : Local name d.calmed d'.calmed)
    (hd : ∀ x m, d'.at? x = some (.directory m) → d.at? x = some (.directory m))
    (hk : ∀ n, d.Kept g n → d'.Kept g' n) (hf : d'.faults = d.faults) :
    Effect (· = name) d g d' g' :=
  ⟨⟨hl.healthy, fun n fault => by rw [hf]; exact h.truthful n fault⟩, hl.nodes, hl.contents,
    fun x m => ⟨hd x m, hl.directories x m⟩, hk, hf⟩

/-! ### Places of files -/

/-- A path ends at a name that leads to no directory. -/
structure Site (d : FileSystem) (p : Path) (x : Spot) : Prop where
  lodged : Lodged d p x
  noDirectory : ∀ m, d.at? x ≠ some (.directory m)

theorem Effect.site (h : Effect N d g d' g') (hs : Site d p x) : Site d' p x :=
  ⟨hs.lodged.mono fun y m => (h.directories y m).2,
    fun m hm => hs.noDirectory m ((h.directories x m).1 hm)⟩

theorem Site.replan (h : Site d p x) (faults : Nat → Option PlannedFault) :
    Site { d with faults } p x :=
  ⟨h.lodged.mono fun _ _ => id, h.noDirectory⟩

/-- The file of a name holds the same bytes in the shadow. -/
def KeptAt (d : FileSystem) (g : Shade) (x : Spot) : Prop :=
  ∀ n, d.at? x = some (.file n) → d.Kept g n

theorem Effect.keptAt (h : Effect N d g d' g') (hx : ¬ N x.2) (hk : d.KeptAt g x) :
    d'.KeptAt g' x := fun n hn => h.kept n (hk n ((h.nodes x hx).symm.trans hn))

theorem Effect.bytesAt (h : Effect N d g d' g') (hx : ¬ N x.2) :
    RecordFile.bytesAt d' x = RecordFile.bytesAt d x := by
  unfold RecordFile.bytesAt
  rw [h.nodes x hx]
  split
  · next n hn => rw [h.contents x n hx hn]
  · rfl

/-! ### Single changes -/

theorem kept_setContent {c c' : Content} {m : Nat} (hm : d.Kept g m)
    (hn : m = n → c' = c) : (d.setContent n c).Kept (Assoc.put g n c') m := by
  unfold Kept at hm ⊢
  show ((d.shadow g).setContent n c').content m = _
  rw [content_setContent, content_setContent]
  split
  · next h => exact hn h
  · exact hm

theorem kept_setContent_self (d : FileSystem) (g : Shade) (n : Nat) (c : Content) :
    (d.setContent n c).Kept (Assoc.put g n c) n := by
  unfold Kept
  show ((d.shadow g).setContent n c).content n = _
  rw [content_setContent, content_setContent, if_pos rfl, if_pos rfl]

theorem Orderly.effect_setContent (h : d.Orderly) (hx : d.at? x = some (.file n)) {c c' : Content}
    (hc : c.size ≤ maxPosition) (hk : d.Kept g n → c' = c) :
    Effect (· = x.2) d g (d.setContent n c) (Assoc.put g n c') := by
  refine h.effect_of_local (h.healthy.local_setContent hx hc) (fun _ _ => id) (fun m hm => ?_) rfl
  exact kept_setContent hm fun heq => hk (heq ▸ hm)

theorem Orderly.effect_removeEntry (h : d.Orderly) (hx : d.at? x = some (.file n)) :
    Effect (· = x.2) d g (d.removeEntry x.1 x.2) g := by
  refine h.effect_of_local (h.healthy.local_removeEntry hx) (fun y m hy => ?_) (fun _ => id) rfl
  rw [at?_removeEntry] at hy
  split at hy
  · cases hy
  · exact hy

/-- A new file is empty, and so it is in the shadow. -/
theorem Orderly.effect_create (h : d.Orderly) (hx : d.at? x = none) :
    Effect (· = x.2) d g (d.create x.1 x.2).2 (Assoc.put g d.nextNumber []) ∧
      (d.create x.1 x.2).2.Kept (Assoc.put g d.nextNumber []) d.nextNumber := by
  refine ⟨h.effect_of_local (h.healthy.local_create hx) (fun y m hy => ?_) (fun m hm => ?_) rfl,
    kept_setContent_self _ g d.nextNumber []⟩
  · rw [at?_create] at hy
    split at hy
    · cases hy
    · exact hy
  · exact kept_setContent (d := d) hm fun _ => rfl

/-! ### Operations -/

/-- An operation fails and changes nothing, or does what it does where nothing fails. That a file is
missing is reported only where it is. -/
theorem Orderly.shadowed_operate (h : d.Orderly)
    {f : FileSystem → Except Refusal (α × FileSystem)}
    {Q : Except Refusal α → FileSystem → Shade → Prop}
    (herror : ∀ e, f d.tick = .error e ∨ e ≠ .notFound → Q (.error e) d.tick g)
    (hf : ∀ a d', f d.tick = .ok (a, d') →
      ∃ g', f (d.tick.shadow g) = .ok (a, d'.shadow g') ∧ Q (.ok a) d' g')
    (hsame : ∀ e, f d.tick = .error e → f (d.tick.shadow g) = .error e) :
    Shadowed shadow (operate f).result d g Q := by
  have htick : (d.shadow g).tick = d.tick.shadow g := rfl
  have hplan : (d.shadow g).faults (d.shadow g).attempts = d.faults d.attempts := rfl
  unfold Shadowed
  rw [operate_eq, operate_eq, hplan, htick]
  cases hfault : d.faults d.attempts with
  | some fault => exact ⟨g, rfl, herror _ (.inr (h.truthful _ fault hfault))⟩
  | none =>
    rcases hr : f d.tick with e | ⟨a, d'⟩
    · simp only [hsame e hr]
      exact ⟨g, rfl, herror e (.inl hr)⟩
    · obtain ⟨g', heq, hQ⟩ := hf a d' hr
      simp only [heq]
      exact ⟨g', rfl, hQ⟩

/-! ### Operations on an open file -/

theorem Orderly.shadowed_fileSize (h : d.Orderly) (hk : d.Kept g n) :
    Shadowed shadow (fileSize n).result d g fun r d' g' =>
      d' = d.tick ∧ g' = g ∧ ∀ size, r = .ok size → size = (d.content n).size := by
  apply h.shadowed_operate
  · exact fun e _ => ⟨rfl, rfl, by simp⟩
  · rintro size d' ⟨⟩
    have hsize : ((d.shadow g).content n).size = (d.content n).size := congrArg Content.size hk
    refine ⟨g, ?_, rfl, rfl, by simp⟩
    show Except.ok (((d.shadow g).content n).size, d.tick.shadow g) = _
    rw [hsize]
    rfl
  · rintro e ⟨⟩

theorem Orderly.shadowed_sync (h : d.Orderly) (n : Nat) :
    Shadowed shadow (sync n).result d g fun _ d' g' => d' = d.tick ∧ g' = g := by
  apply h.shadowed_operate
  · exact fun e _ => ⟨rfl, rfl⟩
  · rintro a d' ⟨⟩
    exact ⟨g, rfl, rfl, rfl⟩
  · rintro e ⟨⟩

/-- An open file that is emptied is kept from then on. -/
theorem Orderly.shadowed_resize (h : d.Orderly) (hx : d.at? x = some (.file n)) :
    Shadowed shadow (resize n 0).result d g fun r d' g' =>
      Effect (· = x.2) d g d' g' ∧ d'.at? = d.at? ∧
        (∀ e, r = .error e → d' = d.tick ∧ g' = g) ∧
        (r = .ok () → d'.content n = [] ∧ d'.Kept g' n) := by
  have hempty : ∀ c : Content, c.resize 0 = [] := by
    rintro (_ | ⟨r, rs⟩) <;> rfl
  have hle : ¬ maxPosition < 0 := Nat.not_lt_zero _
  apply h.shadowed_operate
  · exact fun e _ => ⟨(h.still_tick g).of_still, rfl, fun _ _ => ⟨rfl, rfl⟩, by simp⟩
  · intro a d' hr
    rw [if_neg hle] at hr
    cases hr
    refine ⟨Assoc.put g n [], ?_, (Effect.of_still (h.still_tick g)).trans
      ((h.still_tick g).orderly.effect_setContent hx ?_ fun _ => ?_), rfl, by simp,
      fun _ => ⟨?_, ?_⟩⟩
    · rw [if_neg hle, hempty]
      rfl
    · rw [hempty]
      exact Nat.zero_le _
    · rw [hempty]
    · rw [content_setContent, if_pos rfl, hempty]
    · rw [hempty]
      exact kept_setContent_self _ _ _ _
  · intro e he
    rw [if_neg hle] at he
    cases he

theorem Orderly.shadowed_readAt (h : d.Orderly) (hk : d.Kept g n) (offset length : Nat) :
    Shadowed shadow (readAt n offset length).result d g fun r d' g' =>
      Still d g d' g' ∧
        ∀ bytes, r = .ok bytes → bytes = ((d.content n).toList.drop offset).take length := by
  unfold readAt
  by_cases hl : length = 0
  · rw [if_pos hl]
    refine Action.shadowed_pure ⟨h.still_refl g, ?_⟩
    rintro bytes ⟨⟩
    rw [hl, List.take_zero]
  have hkept : (d.tick.shadow g).content n = d.tick.content n := hk
  rw [if_neg hl]
  apply h.shadowed_operate
  · exact fun e _ => ⟨h.still_tick g, by simp⟩
  · intro bytes d' hr
    obtain ⟨hle, hb, rfl⟩ : ¬ maxPosition < offset + length ∧
        (d.tick.content n).read? offset length = some bytes ∧ d' = d.tick := by
      split at hr
      · cases hr
      · next hle =>
        split at hr
        · next b hb =>
          cases hr
          exact ⟨hle, hb, rfl⟩
        · cases hr
    refine ⟨g, ?_, h.still_tick g, ?_⟩
    · rw [if_neg hle, hkept, hb]
    · rintro _ ⟨⟩
      rw [Content.read?_eq] at hb
      split at hb
      · exact (Option.some.inj hb).symm
      · cases hb
  · intro e he
    rw [hkept]
    split at he
    · next hlt => rw [if_pos hlt, he]
    · next hle =>
      rw [if_neg hle]
      split at he
      · cases he
      · exact he

theorem size_write (c : Content) (offset : Nat) (bytes : Bytes) :
    (c.write offset bytes).size = max c.size (offset + bytes.length) := by
  rw [← Content.length_toList, Content.toList_write]
  simp only [List.length_append, List.length_take, List.length_replicate, List.length_drop,
    Content.length_toList]
  omega

/-- A write leaves its first bytes in the file, and all of them unless it fails. -/
theorem Orderly.shadowed_writeAt (h : d.Orderly) (hx : d.at? x = some (.file n)) (offset : Nat)
    (bytes : Bytes) :
    Shadowed shadow (writeAt n offset bytes).result d g fun r d' g' =>
      Effect (· = x.2) d g d' g' ∧ d'.at? = d.at? ∧
        (d'.content n = d.content n ∧ (r = .ok () → bytes = []) ∨
          ∃ k, d'.content n = (d.content n).write offset (bytes.take k) ∧
            (r = .ok () → bytes.length ≤ k)) := by
  have hstay : Still d g d.tick g := h.still_tick g
  cases hempty : bytes.isEmpty with
  | true =>
    rw [writeAt, if_pos hempty]
    exact Action.shadowed_pure ⟨(h.still_refl g).of_still, rfl,
      .inl ⟨rfl, fun _ => List.isEmpty_iff.1 hempty⟩⟩
  | false =>
    have hplan : (d.shadow g).faults (d.shadow g).attempts = d.faults d.attempts := rfl
    unfold Shadowed
    rw [writeAt_eq n offset hempty, writeAt_eq n offset hempty, hplan]
    obtain ⟨k, hk, hall⟩ := written_eq_take (d.faults d.attempts) bytes
    by_cases hle : maxPosition < offset + bytes.length
    · rw [if_pos hle, if_pos hle]
      exact ⟨g, rfl, hstay.of_still, rfl, .inl ⟨rfl, fun hok => by cases hok⟩⟩
    rw [if_neg hle, if_neg hle]
    by_cases hnone : (written (d.faults d.attempts) bytes).1.isEmpty
    · rw [if_pos hnone, if_pos hnone]
      refine ⟨g, rfl, hstay.of_still, rfl, .inl ⟨rfl, fun hok => ?_⟩⟩
      rwa [hk, List.take_of_length_le (hall hok), List.isEmpty_iff] at hnone
    rw [if_neg hnone, if_neg hnone, hk]
    refine ⟨Assoc.put g n (((d.shadow g).content n).write offset (bytes.take k)), rfl,
      hstay.of_still.trans (hstay.orderly.effect_setContent hx ?_ fun hkept => ?_), rfl,
      .inr ⟨k, ?_, hall⟩⟩
    · have hshort : (d.content n).size ≤ maxPosition := h.healthy.short n
      rw [size_write, List.length_take]
      omega
    · rw [show (d.shadow g).content n = d.content n from hkept]
    · rw [content_setContent, if_pos rfl]

/-! ### Operations at a path -/

/-- The file system after an operation at `x` that may have made a file there. -/
structure Opened (x : Spot) (d : FileSystem) (g : Shade) (d' : FileSystem) (g' : Shade) :
    Prop where
  effect : Effect (· = x.2) d g d' g'
  bytes : bytesAt d' x = bytesAt d x
  kept : d.KeptAt g x → d'.KeptAt g' x
  fresh : d.at? x = none → ∀ n, d'.at? x = some (.file n) → d'.content n = []

theorem Orderly.opened_tick (h : d.Orderly) (g : Shade) (x : Spot) : Opened x d g d.tick g :=
  ⟨(h.still_tick g).of_still, rfl, id, fun hx n hn => by
    rw [at?_tick, hx] at hn
    cases hn⟩

theorem Orderly.shadowed_openFile (h : d.Orderly) (hs : Site d p x) :
    Shadowed shadow (openFile p).result d g fun r d' g' =>
      Opened x d g d' g' ∧ ∀ n, r = .ok n → d'.at? x = some (.file n) := by
  have hl := hs.lodged.tick
  have ht := h.still_tick g
  obtain ⟨here, hr, hx⟩ := hl.resolves
  unfold openFile
  apply h.shadowed_operate
  · exact fun e _ => ⟨h.opened_tick g x, by simp⟩
  · intro n d' ho
    simp only [bind, Except.bind, hr, hl.plain, hx, hl.find, at?_tick, Bool.false_eq_true,
      if_false, resolve_shadow, find_shadow] at ho ⊢
    cases hn : d.at? x with
    | none =>
      rw [hn] at ho
      have ho : d.tick.create x.1 x.2 = (n, d') := Except.ok.inj ho
      obtain rfl : d' = (d.tick.create x.1 x.2).2 := by rw [ho]
      obtain rfl : d.nextNumber = n := congrArg Prod.fst ho
      obtain ⟨he, hk⟩ := ht.orderly.effect_create (g := g) (x := x) hn
      have hat : (d.tick.create x.1 x.2).2.at? x = some (.file d.nextNumber) := by
        rw [at?_create, if_pos rfl]
        rfl
      have hempty : (d.tick.create x.1 x.2).2.content d.nextNumber = [] := by
        rw [content_create]
        exact if_pos rfl
      refine ⟨Assoc.put g d.nextNumber [], rfl, ⟨ht.of_still.trans he, ?_, fun _ m hm => ?_,
        fun _ m hm => ?_⟩, ?_⟩
      · unfold bytesAt
        rw [hat, hn]
        exact congrArg Content.toList hempty
      · cases hat.symm.trans hm
        exact hk
      · cases hat.symm.trans hm
        exact hempty
      · rintro m ⟨⟩
        exact hat
    | some node =>
      rw [hn] at ho
      cases node with
      | directory m => exact absurd hn (hs.noDirectory m)
      | file m =>
        cases ho
        refine ⟨g, rfl, h.opened_tick g x, ?_⟩
        rintro _ ⟨⟩
        exact hn
  · intro e he
    simp only [bind, Except.bind, hr, hl.plain, hx, hl.find, at?_tick, Bool.false_eq_true,
      if_false, resolve_shadow, find_shadow] at he ⊢
    cases hn : d.at? x with
    | none =>
      rw [hn] at he
      cases he
    | some node =>
      rw [hn] at he
      cases node with
      | directory m => exact absurd hn (hs.noDirectory m)
      | file m => cases he

/-- What may be left at a path is what was there; nothing is if that succeeds. -/
theorem Orderly.shadowed_unlinkIfPresent (h : d.Orderly) (hs : Site d p x) :
    Shadowed shadow (unlinkIfPresent p).result d g fun r d' g' =>
      Effect (· = x.2) d g d' g' ∧ (d'.at? x = d.at? x ∨ d'.at? x = none) ∧
        d'.content = d.content ∧ (r = .ok () → d'.at? x = none) := by
  have hl := hs.lodged.tick
  have ht := h.still_tick g
  obtain ⟨here, hr, hx⟩ := hl.resolves
  -- a file is reported as missing only where there is none
  have hunlink : Shadowed shadow (unlink p).result d g fun r d' g' =>
      Effect (· = x.2) d g d' g' ∧ (d'.at? x = d.at? x ∨ d'.at? x = none) ∧
        d'.content = d.content ∧ (r = .ok () ∨ r = .error .notFound → d'.at? x = none) := by
    unfold unlink
    cases hn : d.at? x with
    | none =>
      apply h.shadowed_operate
      · exact fun e _ => ⟨ht.of_still, .inl hn, rfl, fun _ => hn⟩
      · intro a d' ho
        simp only [bind, Except.bind, hr, hx, hl.find, at?_tick, hn] at ho
        cases ho
      · intro e he
        simp only [bind, Except.bind, hr, hx, hl.find, at?_tick, hn, resolve_shadow,
          find_shadow] at he ⊢
        exact he
    | some node =>
      cases node with
      | directory m => exact absurd hn (hs.noDirectory m)
      | file m =>
        apply h.shadowed_operate
        · rintro e he
          refine ⟨ht.of_still, .inl hn, rfl, ?_⟩
          rintro (⟨⟨⟩⟩ | ⟨⟨⟩⟩)
          simp only [bind, Except.bind, hr, hl.plain, hx, hl.find, at?_tick, hn] at he
          simp at he
        · intro a d' ho
          simp only [bind, Except.bind, hr, hl.plain, hx, hl.find, at?_tick, hn, resolve_shadow,
            find_shadow, Bool.false_eq_true, if_false] at ho ⊢
          cases ho
          have hgone : (d.tick.removeEntry x.1 x.2).at? x = none := by
            rw [at?_removeEntry, if_pos rfl]
          exact ⟨g, rfl, ht.of_still.trans (ht.orderly.effect_removeEntry (x := x) hn), .inr hgone,
            rfl, fun _ => hgone⟩
        · intro e he
          simp only [bind, Except.bind, hr, hl.plain, hx, hl.find, at?_tick, hn, Bool.false_eq_true,
            if_false] at he
          cases he
  unfold unlinkIfPresent
  apply Action.shadowed_bind
  apply Action.shadowed_attempt
  refine hunlink.mono ?_
  rintro (e | a) d' g' ⟨he, hcases, hc, hgone⟩
  · cases e with
    | notFound => exact Action.shadowed_pure ⟨he, hcases, hc, fun _ => hgone (.inr rfl)⟩
    | _ => exact Action.shadowed_throw ⟨he, hcases, hc, by simp⟩
  · exact Action.shadowed_pure ⟨he, hcases, hc, fun _ => hgone (.inl rfl)⟩

theorem Orderly.shadowed_sizeAt (h : d.Orderly) (hs : Site d p x) (hk : d.KeptAt g x) :
    Shadowed shadow (sizeAt p).result d g fun r d' g' =>
      d' = d.tick ∧ g' = g ∧ (r.isOk → ∃ n, d.at? x = some (.file n)) := by
  have hl := hs.lodged.tick
  obtain ⟨here, hr, hx⟩ := hl.resolves
  unfold sizeAt
  cases hn : d.at? x with
  | none =>
    apply h.shadowed_operate
    · exact fun e _ => ⟨rfl, rfl, by simp [Except.isOk, Except.toBool]⟩
    · intro a d' ho
      simp only [bind, Except.bind, look, hr, hx, hl.find, at?_tick, hn] at ho
      cases ho
    · intro e he
      simp only [bind, Except.bind, look, hr, hx, hl.find, at?_tick, hn, resolve_shadow,
        find_shadow] at he ⊢
      exact he
  | some node =>
    cases node with
    | directory m => exact absurd hn (hs.noDirectory m)
    | file m =>
      have hsize : ((d.tick.shadow g).content m).size = (d.tick.content m).size :=
        congrArg Content.size (hk m hn)
      apply h.shadowed_operate
      · exact fun e _ => ⟨rfl, rfl, fun _ => ⟨m, rfl⟩⟩
      · intro a d' ho
        simp only [bind, Except.bind, look, hr, hl.plain, hx, hl.find, at?_tick, hn,
          resolve_shadow, find_shadow, Bool.false_eq_true, if_false] at ho ⊢
        cases ho
        exact ⟨g, by rw [hsize], rfl, rfl, fun _ => ⟨m, rfl⟩⟩
      · intro e he
        simp only [bind, Except.bind, look, hr, hl.plain, hx, hl.find, at?_tick, hn,
          Bool.false_eq_true, if_false] at he
        cases he

/-- A file that is moved keeps its bytes. -/
theorem Orderly.shadowed_rename (h : d.Orderly) (hp : Site d p x) (hq : Site d q y)
    (hn : d.at? x = some (.file n)) (hxy : x.2 ≠ y.2) :
    Shadowed shadow (rename p q).result d g fun r d' g' =>
      Effect (fun name => name = x.2 ∨ name = y.2) d g d' g' ∧ d'.content = d.content ∧
        (∀ e, r = .error e → d' = d.tick ∧ g' = g) ∧
        (r = .ok () → d'.at? y = some (.file n) ∧ d'.at? x = none) := by
  have hl := hp.lodged.tick
  have hl' := hq.lodged.tick
  have ht := h.still_tick g
  obtain ⟨before, hr, hb⟩ := hl.resolves
  obtain ⟨behind, hr', hb'⟩ := hl'.resolves
  unfold rename
  apply h.shadowed_operate
  · exact fun e _ => ⟨ht.of_still, rfl, fun _ _ => ⟨rfl, rfl⟩, by simp⟩
  · intro a d' ho
    have hy : ∀ m, d.at? y ≠ some (.directory m) := hq.noDirectory
    simp only [bind, Except.bind, hr, hr', hl.plain, hl'.plain, hb, hb', hl.find, hl'.find,
      at?_tick, hn, Bool.or_self, resolve_shadow, find_shadow, Bool.false_eq_true, if_false] at ho ⊢
    cases ho
    have hcalm : d.calmed.Calm := fun _ => rfl
    have hlc : Lodged d.calmed p x := hp.lodged.mono fun _ _ => id
    have hlc' : Lodged d.calmed q y := hq.lodged.mono fun _ _ => id
    -- the change at the new name is the one that is made where nothing fails
    obtain ⟨d₁, hrun, hlocal, hat, -⟩ := rename_spec h.healthy hlc hlc' hn hy hxy
    rw [result_rename hcalm hlc hlc' hn hy] at hrun
    cases hrun
    have hgone := ht.orderly.effect_removeEntry (g := g) (x := x) hn
    have hmoved : Effect (· = y.2) (d.tick.removeEntry x.1 x.2) g
        ((d.tick.removeEntry x.1 x.2).setEntry y.1 y.2 (.file n)) g := by
      refine hgone.orderly.effect_of_local ⟨hlocal.healthy, hlocal.nodes, hlocal.contents,
        hlocal.directories⟩ (fun z m hz => ?_) (fun _ => id) rfl
      rw [at?_setEntry] at hz
      split at hz
      · cases hz
      · exact hz
    refine ⟨g, rfl, ht.of_still.trans ((hgone.mono fun _ => .inl).trans
      (hmoved.mono fun _ => .inr)), rfl, by simp, fun _ => ⟨hat, ?_⟩⟩
    rw [at?_setEntry, if_neg, at?_removeEntry, if_pos rfl]
    rintro rfl
    exact hxy rfl
  · intro e he
    have hy : ∀ m, d.at? y ≠ some (.directory m) := hq.noDirectory
    simp only [bind, Except.bind, hr, hr', hl.plain, hl'.plain, hb, hb', hl.find, hl'.find,
      at?_tick, hn, Bool.or_self, Bool.false_eq_true, if_false] at he
    cases he

/-- Where there is a directory none is made. -/
theorem Orderly.shadowed_createDirectories {here : Trail} (h : d.Orderly) (hp : p.IsPlain)
    (hw : d.walk [] p.steps = .ok here) :
    Shadowed shadow (createDirectories p).result d g fun _ d' g' => Still d g d' g' := by
  have hw₀ : d.tick.walk [] p.steps = .ok here := by
    refine walk_mono ?_ hw
    exact fun _ _ hx => hx
  have hw₁ : (d.shadow g).tick.walk [] p.steps = .ok here :=
    (walk_shadow g d.tick _ _).trans hw₀
  have hplan : (d.shadow g).faults (d.shadow g).attempts = d.faults d.attempts := rfl
  unfold Shadowed
  rw [createDirectories_eq, createDirectories_eq, hplan, makeDirectories_of_walk hp hw₀, makeDirectories_of_walk hp hw₁]
  cases d.faults d.attempts with
  | some fault => exact ⟨g, rfl, h.still_tick g⟩
  | none => exact ⟨g, rfl, h.still_tick g⟩

/-! ### Successes -/

@[simp] theorem walk_calmed (d : FileSystem) (here : Trail) (steps : List Path.Step) :
    d.calmed.walk here steps = d.walk here steps :=
  walk_congr (show d.calmed.directories = d.directories from rfl) here steps

@[simp] theorem resolve_calmed (d : FileSystem) (p : Path) : d.calmed.resolve p = d.resolve p :=
  resolve_congr (show d.calmed.directories = d.directories from rfl) p

@[simp] theorem find_calmed (d : FileSystem) (n : Nat) (name : String) :
    d.calmed.find n name = d.find n name := rfl

@[simp] theorem look_calmed (d : FileSystem) (p : Path) : d.calmed.look p = d.look p :=
  look_congr (show d.calmed.directories = d.directories from rfl) p

@[simp] theorem contentAt?_calmed (d : FileSystem) (p : Path) :
    d.calmed.contentAt? p = d.contentAt? p := by
  simp only [contentAt?, look_calmed]
  rfl

/-- What an operation does in itself takes no notice of failures to come. -/
def Heedless (f : FileSystem → Except Refusal (α × FileSystem)) : Prop :=
  ∀ d, f d.calmed = (f d).map (Prod.map id calmed) ∧
    ∀ a d', f d = .ok (a, d') → d'.faults = d.faults

/-- What succeeds does what it does where nothing fails; so does what reports a file as missing. -/
theorem Heedless.result_operate {f : FileSystem → Except Refusal (α × FileSystem)}
    {answer : Except Refusal α} (hf : Heedless f) (hd : d.Orderly)
    (h : (operate f).result d = (answer, d')) (ha : ∀ e, answer = .error e → e = .notFound) :
    (operate f).result d.calmed = (answer, d'.calmed) ∧ d'.faults = d.faults := by
  have hplan : d.calmed.faults d.calmed.attempts = none := rfl
  have htick : d.calmed.tick = d.tick.calmed := rfl
  obtain ⟨hcalmed, hfaults⟩ := hf d.tick
  rw [operate_eq] at h ⊢
  rw [hplan, htick]
  dsimp only
  rw [hcalmed]
  cases hfault : d.faults d.attempts with
  | some fault =>
    rw [hfault] at h
    cases h
    exact absurd (ha _ rfl) (hd.truthful _ fault hfault)
  | none =>
    rw [hfault] at h
    rcases hr : f d.tick with e | ⟨a, d₁⟩
    · simp only [hr] at h
      cases h
      exact ⟨rfl, rfl⟩
    · simp only [hr] at h
      cases h
      exact ⟨rfl, hfaults _ _ hr⟩

theorem openFile_calmed (hd : d.Orderly) (h : (openFile p).result d = (.ok n, d')) :
    (openFile p).result d.calmed = (.ok n, d'.calmed) ∧ d'.faults = d.faults := by
  refine Heedless.result_operate (fun d => ?_) hd h (by simp)
  simp only [resolve_calmed, find_calmed]
  cases d.resolve p with
  | error e => exact ⟨rfl, nofun⟩
  | ok place =>
    cases place with
    | within here => exact ⟨rfl, nofun⟩
    | entry here name =>
      simp only [bind, Except.bind]
      split
      · exact ⟨rfl, nofun⟩
      · rcases d.find here.directory name with e | _ | ⟨m | m⟩
        · exact ⟨rfl, nofun⟩
        · exact ⟨rfl, by rintro a d' ⟨⟩; rfl⟩
        · exact ⟨rfl, nofun⟩
        · exact ⟨rfl, by rintro a d' ⟨⟩; rfl⟩

theorem unlink_calmed {answer : Except Refusal Unit} (hd : d.Orderly)
    (h : (unlink p).result d = (answer, d')) (ha : ∀ e, answer = .error e → e = .notFound) :
    (unlink p).result d.calmed = (answer, d'.calmed) ∧ d'.faults = d.faults := by
  refine Heedless.result_operate (fun d => ?_) hd h ha
  simp only [resolve_calmed, find_calmed]
  cases d.resolve p with
  | error e => exact ⟨rfl, nofun⟩
  | ok place =>
    cases place with
    | within here => exact ⟨rfl, nofun⟩
    | entry here name =>
      simp only [bind, Except.bind]
      rcases d.find here.directory name with e | _ | ⟨m | m⟩
      · exact ⟨rfl, nofun⟩
      · exact ⟨rfl, nofun⟩
      · exact ⟨rfl, nofun⟩
      · dsimp only
        split
        · exact ⟨rfl, nofun⟩
        · exact ⟨rfl, by rintro a d' ⟨⟩; rfl⟩

theorem unlinkIfPresent_calmed (hd : d.Orderly)
    (h : (unlinkIfPresent p).result d = (.ok (), d')) :
    (unlinkIfPresent p).result d.calmed = (.ok (), d'.calmed) ∧ d'.faults = d.faults := by
  rw [unlinkIfPresent, Action.result_bind, Action.result_attempt] at h ⊢
  rcases hr : (unlink p).result d with ⟨e | u, d₁⟩
  · rw [hr] at h
    cases e <;> cases h
    obtain ⟨heq, hfaults⟩ := unlink_calmed hd hr (by simp)
    rw [heq]
    exact ⟨rfl, hfaults⟩
  · rw [hr] at h
    cases h
    obtain ⟨heq, hfaults⟩ := unlink_calmed hd hr (by simp)
    rw [heq]
    exact ⟨rfl, hfaults⟩

theorem ensureDirectory_calmed (p : Path) (d : FileSystem) :
    ensureDirectory p d.calmed = ((ensureDirectory p d).1, (ensureDirectory p d).2.calmed) ∧
      (ensureDirectory p d).2.faults = d.faults := by
  have hmake : d.calmed.makeDirectory p = (d.makeDirectory p).map calmed ∧
      ∀ d', d.makeDirectory p = .ok d' → d'.faults = d.faults := by
    simp only [makeDirectory, resolve_calmed, find_calmed]
    cases d.resolve p with
    | error e => exact ⟨rfl, nofun⟩
    | ok place =>
      cases place with
      | within here => exact ⟨rfl, nofun⟩
      | entry here name =>
        simp only [bind, Except.bind]
        rcases d.find here.directory name with e | _ | node
        · exact ⟨rfl, nofun⟩
        · exact ⟨rfl, by rintro d' ⟨⟩; rfl⟩
        · exact ⟨rfl, nofun⟩
  obtain ⟨heq, hfaults⟩ := hmake
  unfold ensureDirectory
  rw [heq]
  rcases hr : d.makeDirectory p with e | d'
  · simp only [Except.map, isDirectory, look_calmed]
    exact ⟨rfl, trivial⟩
  · exact ⟨rfl, hfaults d' hr⟩

theorem makeDirectories_calmed (ps : List Path) (d : FileSystem) :
    makeDirectories ps d.calmed = ((makeDirectories ps d).1, (makeDirectories ps d).2.calmed) ∧
      (makeDirectories ps d).2.faults = d.faults := by
  induction ps generalizing d with
  | nil => exact ⟨rfl, rfl⟩
  | cons p above ih =>
    obtain ⟨heq, hfaults⟩ := ensureDirectory_calmed p d
    rw [makeDirectories, makeDirectories, heq]
    rcases hr : ensureDirectory p d with ⟨e | u, d₁⟩ <;> rw [hr] at hfaults
    · by_cases he : e = .notFound
      · subst he
        obtain ⟨heq', hfaults'⟩ := ih d₁
        dsimp only at hfaults ⊢
        rw [heq']
        rcases hr' : makeDirectories above d₁ with ⟨e | u, d₂⟩ <;> rw [hr'] at hfaults'
        · exact ⟨rfl, hfaults'.trans hfaults⟩
        · obtain ⟨heq'', hfaults''⟩ := ensureDirectory_calmed p d₂
          exact ⟨heq'', hfaults''.trans (hfaults'.trans hfaults)⟩
      · cases e <;> first | exact absurd rfl he | exact ⟨rfl, hfaults⟩
    · exact ⟨rfl, hfaults⟩

theorem createDirectories_calmed (h : (createDirectories p).result d = (.ok (), d')) :
    (createDirectories p).result d.calmed = (.ok (), d'.calmed) ∧ d'.faults = d.faults := by
  rw [createDirectories_eq] at h ⊢
  have hplan : d.calmed.faults d.calmed.attempts = none := rfl
  cases hfault : d.faults d.attempts with
  | some fault =>
    rw [hfault] at h
    cases h
  | none =>
    rw [hfault] at h
    obtain ⟨heq, hfaults⟩ := makeDirectories_calmed (p :: p.above) d.tick
    have hmade : makeDirectories (p :: p.above) d.tick = (.ok (), d') := h
    rw [hmade] at heq hfaults
    rw [hplan]
    exact ⟨heq, hfaults⟩

end DiskTier.FileSystem
