import DiskTier.Proofs.Death
import DiskTier.Proofs.Paired.Logic

/-!
# File systems abreast

Two file systems are `Abreast` if the data file and the key file of a region hold the same in both
and the same failures are to come, counted from here on. The numbers of files and directories, and
what lies under other names, may differ. Every operation on one of the two files answers the same on
both sides and leaves them abreast.
-/

namespace DiskTier

open FileSystem

variable {α : Type} {c : Config} {d d' e e' t t' : FileSystem} {p q : Path} {x : Spot}
  {n n' : Nat} {name other : String} {N N' : String → Prop} {g g' : Shade}

namespace FileSystem

/-- The bytes of the file of a name, if there is one. -/
def fileAt? (d : FileSystem) (x : Spot) : Option Bytes :=
  match d.at? x with
  | some (.file n) => some (d.content n).toList
  | _ => none

theorem fileAt?_eq (hx : d.at? x = some (.file n)) :
    d.fileAt? x = some (d.content n).toList := by
  rw [fileAt?, hx]

/-- What is seen at a path. -/
theorem Site.contentAt?_eq (h : Site d p x) :
    (d.contentAt? p).map Content.toList = d.fileAt? x := by
  rw [h.lodged.contentAt?_eq, fileAt?]
  rcases d.at? x with _ | ⟨_ | _⟩ <;> rfl

theorem Effect.fileAt? (h : Effect N d g d' g') (hx : ¬ N x.2) : d'.fileAt? x = d.fileAt? x := by
  rw [FileSystem.fileAt?, FileSystem.fileAt?, h.nodes x hx]
  split
  · next n hn => rw [h.contents x n hx hn]
  · rfl

/-- What comes of an attempt to open a file. -/
theorem openFile_eq (h : Lodged d p x) :
    (openFile p).result d = match d.faults d.attempts with
      | some fault => (.error fault.refusal, d.tick)
      | none => match d.at? x with
        | some (.directory _) => (.error .isADirectory, d.tick)
        | some (.file n) => (.ok n, d.tick)
        | none => (.ok d.nextNumber, (d.tick.create x.1 x.2).2) := by
  obtain ⟨here, hr, hx⟩ := h.tick.resolves
  rw [openFile, operate_eq, hr]
  simp only [bind, Except.bind, h.plain, hx, h.tick.find, at?_tick, Bool.false_eq_true, if_false]
  cases d.faults d.attempts with
  | some fault => rfl
  | none => rcases d.at? x with _ | ⟨_ | _⟩ <;> rfl

theorem unlink_eq (h : Lodged d p x) :
    (unlink p).result d = match d.faults d.attempts with
      | some fault => (.error fault.refusal, d.tick)
      | none => match d.at? x with
        | some (.directory _) => (.error .isADirectory, d.tick)
        | some (.file _) => (.ok (), d.tick.removeEntry x.1 x.2)
        | none => (.error .notFound, d.tick) := by
  obtain ⟨here, hr, hx⟩ := h.tick.resolves
  rw [unlink, operate_eq, hr]
  simp only [bind, Except.bind, h.plain, hx, h.tick.find, at?_tick, Bool.false_eq_true, if_false]
  cases d.faults d.attempts with
  | some fault => rfl
  | none => rcases d.at? x with _ | ⟨_ | _⟩ <;> rfl

/-- The same failures are to come. -/
def SamePlan (d d' : FileSystem) : Prop :=
  ∀ i, d'.faults (d'.attempts + i) = d.faults (d.attempts + i)

theorem SamePlan.tick (h : SamePlan d d') : SamePlan d.tick d'.tick := by
  intro i
  show d'.faults (d'.attempts + 1 + i) = d.faults (d.attempts + 1 + i)
  rw [Nat.add_assoc, Nat.add_assoc]
  exact h (1 + i)

end FileSystem

namespace Store

/-- Where the two sides have the files of a region, and how many resets the left one is ahead. -/
structure Sides where
  leftDirectory : Nat
  rightDirectory : Nat
  lead : Int

namespace Sides

/-- The place of a name on the left. -/
abbrev left (S : Sides) (name : String) : Spot := (S.leftDirectory, name)

/-- The place of a name on the right. -/
abbrev right (S : Sides) (name : String) : Spot := (S.rightDirectory, name)

/-- The files lie in the same directory, and there were as many resets. -/
abbrev alike (directory : Nat) : Sides := ⟨directory, directory, 0⟩

end Sides

variable {S : Sides}

/-- The two files of a region. -/
inductive Owns (c : Config) : Path → String → Prop where
  | data : Owns c c.dataFile c.dataName
  | keys : Owns c c.keyFile c.keyName

theorem Owns.isOwnName (h : Owns c p name) : IsOwnName c name := by
  cases h
  · exact .inl rfl
  · exact .inr rfl

/-- The two files of a region are the same on both sides, and the same failures are to come. -/
structure Abreast (c : Config) (S : Sides) (d d' : FileSystem) : Prop where
  left : d.Orderly
  right : d'.Orderly
  plan : SamePlan d d'
  leftSite : ∀ p name, Owns c p name → Site d p (S.left name)
  rightSite : ∀ p name, Owns c p name → Site d' p (S.right name)
  same : ∀ p name, Owns c p name → d'.fileAt? (S.right name) = d.fileAt? (S.left name)

/-- Both sides have gone on and are abreast. Nothing has changed outside the names `N`. -/
structure Advance (c : Config) (S : Sides) (N : String → Prop) (d d' e e' : FileSystem) : Prop where
  abreast : Abreast c S e e'
  left : Effect N d d.contents e e.contents
  right : Effect N d' d'.contents e' e'.contents

theorem Advance.trans (h : Advance c S N d d' e e') (h' : Advance c S N e e' t t') :
    Advance c S N d d' t t' := ⟨h'.abreast, h.left.trans h'.left, h.right.trans h'.right⟩

theorem Advance.mono (h : Advance c S N d d' e e') (hN : ∀ name, N name → N' name) :
    Advance c S N' d d' e e' := ⟨h.abreast, h.left.mono hN, h.right.mono hN⟩

/-- Nothing has changed on either side but the number of attempts. -/
abbrev Idle (c : Config) (S : Sides) (d d' e e' : FileSystem) : Prop :=
  Advance c S (fun _ => False) d d' e e'

theorem Advance.of_idle (h : Idle c S d d' e e') : Advance c S N d d' e e' :=
  h.mono fun _ => False.elim

namespace Abreast

theorem idle_refl (h : Abreast c S d d') : Idle c S d d' d d' :=
  ⟨h, h.left.still_refl _, h.right.still_refl _⟩

theorem idle_tick (h : Abreast c S d d') : Idle c S d d' d.tick d'.tick := by
  have hl := h.left.still_tick d.contents
  have hr := h.right.still_tick d'.contents
  exact ⟨⟨hl.orderly, hr.orderly, h.plan.tick, fun p name ho => hl.site (h.leftSite p name ho),
    fun p name ho => hr.site (h.rightSite p name ho), h.same⟩, hl, hr⟩

/-- The same has happened on both sides to one of the two files. -/
theorem advance (h : Abreast c S d d') (hl : Effect (· = name) d g e g')
    {u u' : Shade} (hr : Effect (· = name) d' u e' u') (hplan : SamePlan e e')
    (hx : e'.fileAt? (S.right name) = e.fileAt? (S.left name)) :
    Advance c S (· = name) d d' e e' := by
  refine ⟨⟨hl.orderly, hr.orderly, hplan, fun q y hy => hl.site (h.leftSite q y hy),
    fun q y hy => hr.site (h.rightSite q y hy), fun q y hy => ?_⟩, hl.alone, hr.alone⟩
  by_cases hname : y = name
  · rw [hname]
    exact hx
  · rw [hl.fileAt? (x := S.left y) hname, hr.fileAt? (x := S.right y) hname]
    exact h.same q y hy

/-- There is a file on both sides or on neither. -/
theorem cases (h : Abreast c S d d') (ho : Owns c p name) :
    d.at? (S.left name) = none ∧ d'.at? (S.right name) = none ∨
      ∃ n n', d.at? (S.left name) = some (.file n) ∧ d'.at? (S.right name) = some (.file n') := by
  have hsame := h.same p name ho
  unfold fileAt? at hsame
  rcases hx : d.at? (S.left name) with _ | ⟨m | n⟩
  · rcases hx' : d'.at? (S.right name) with _ | ⟨m | n'⟩
    · exact .inl ⟨rfl, rfl⟩
    · exact absurd hx' ((h.rightSite p name ho).noDirectory m)
    · rw [hx, hx'] at hsame
      cases hsame
  · exact absurd hx ((h.leftSite p name ho).noDirectory m)
  · rcases hx' : d'.at? (S.right name) with _ | ⟨m | n'⟩
    · rw [hx, hx'] at hsame
      cases hsame
    · exact absurd hx' ((h.rightSite p name ho).noDirectory m)
    · exact .inr ⟨n, n', rfl, rfl⟩

/-- What is seen at the path of one of the files is the same on both sides. -/
theorem contentAt?_eq (h : Abreast c S d d') (ho : Owns c p name) :
    (d'.contentAt? p).map Content.toList = (d.contentAt? p).map Content.toList := by
  rw [(h.rightSite p name ho).contentAt?_eq, (h.leftSite p name ho).contentAt?_eq]
  exact h.same p name ho

/-- Other failures are to come. -/
theorem replan {faults faults' : Nat → Option PlannedFault} (h : Abreast c S d d')
    (hf : Truthful faults) (hf' : Truthful faults')
    (hplan : SamePlan { d with faults } { d' with faults := faults' }) :
    Abreast c S { d with faults } { d' with faults := faults' } :=
  ⟨h.left.replan hf, h.right.replan hf', hplan,
    fun p name ho => (h.leftSite p name ho).replan faults,
    fun p name ho => (h.rightSite p name ho).replan faults', h.same⟩

/-- What happens to other files on one side does not matter, as long as the same failures are to
come. -/
theorem frame (h : Abreast c S d d') (he : Effect N d g e g')
    (hN : ∀ name, IsOwnName c name → ¬ N name) (hplan : SamePlan e d') : Abreast c S e d' :=
  ⟨he.orderly, h.right, hplan, fun p name ho => he.site (h.leftSite p name ho), h.rightSite,
    fun p name ho => (h.same p name ho).trans (he.fileAt? (hN name ho.isOwnName)).symm⟩

theorem content_eq (h : Abreast c S d d') (ho : Owns c p name)
    (hx : d.at? (S.left name) = some (.file n))
    (hx' : d'.at? (S.right name) = some (.file n')) :
    (d'.content n').toList = (d.content n).toList := by
  have hsame := h.same p name ho
  rw [fileAt?_eq hx, fileAt?_eq hx'] at hsame
  exact Option.some.inj hsame

/-! ### Single changes -/

theorem setContent (h : Abreast c S d d') (hx : d.at? (S.left name) = some (.file n))
    (hx' : d'.at? (S.right name) = some (.file n')) {k k' : Content} (hk : k.size ≤ maxPosition)
    (hsame : k'.toList = k.toList) :
    Advance c S (· = name) d d' (d.setContent n k) (d'.setContent n' k') := by
  have hk' : k'.size ≤ maxPosition := by
    rwa [← Content.length_toList, hsame, Content.length_toList]
  refine h.advance (h.left.effect_setContent (g := d.contents) hx hk fun _ => rfl)
    (h.right.effect_setContent (g := d'.contents) hx' hk' fun _ => rfl) h.plan ?_
  have hat : ∀ {d : FileSystem} {n : Nat} {k : Content} {x : Spot}, d.at? x = some (.file n) →
      (d.setContent n k).fileAt? x = some k.toList := by
    intro d n k x hx
    rw [fileAt?_eq (d := d.setContent n k) hx, content_setContent, if_pos rfl]
  rw [hat hx, hat hx', hsame]

theorem create (h : Abreast c S d d') (hx : d.at? (S.left name) = none)
    (hx' : d'.at? (S.right name) = none) :
    Advance c S (· = name) d d' (d.create S.leftDirectory name).2
      (d'.create S.rightDirectory name).2 := by
  have hat : ∀ (d : FileSystem) (x : Spot), (d.create x.1 x.2).2.fileAt? x = some [] := by
    intro d x
    have hx : (d.create x.1 x.2).2.at? x = some (.file d.nextNumber) := by
      rw [at?_create, if_pos rfl]
    rw [fileAt?_eq hx, content_create, if_pos rfl, Content.toList_nil]
  exact h.advance (h.left.effect_create (g := d.contents) hx).1
    (h.right.effect_create (g := d'.contents) hx').1 h.plan
    ((hat d' (S.right name)).trans (hat d (S.left name)).symm)

theorem removeEntry (h : Abreast c S d d') (hx : d.at? (S.left name) = some (.file n))
    (hx' : d'.at? (S.right name) = some (.file n')) :
    Advance c S (· = name) d d' (d.removeEntry S.leftDirectory name)
      (d'.removeEntry S.rightDirectory name) := by
  have hat : ∀ (d : FileSystem) (x : Spot), (d.removeEntry x.1 x.2).fileAt? x = none := by
    intro d x
    rw [fileAt?, at?_removeEntry, if_pos rfl]
  exact h.advance (h.left.effect_removeEntry (g := d.contents) hx)
    (h.right.effect_removeEntry (g := d'.contents) hx') h.plan
    ((hat d' (S.right name)).trans (hat d (S.left name)).symm)

/-! ### Operations on an open file -/

/-- An operation fails on both sides, or does what it does where nothing fails. -/
theorem paired_operate (h : Abreast c S d d')
    {f f' : FileSystem → Except Refusal (α × FileSystem)}
    {Q : Except Refusal α → Except Refusal α → FileSystem → FileSystem → Prop}
    (herror : ∀ r, Q (.error r) (.error r) d.tick d'.tick)
    (hrun : (∃ r, f d.tick = .error r ∧ f' d'.tick = .error r) ∨
      ∃ a a' e e', f d.tick = .ok (a, e) ∧ f' d'.tick = .ok (a', e') ∧ Q (.ok a) (.ok a') e e') :
    Paired (operate f).result (operate f').result d d' Q := by
  have hplan : d'.faults d'.attempts = d.faults d.attempts := h.plan 0
  unfold Paired
  rw [operate_eq, operate_eq, hplan]
  cases d.faults d.attempts with
  | some fault => exact herror fault.refusal
  | none =>
    rcases hrun with ⟨r, hr, hr'⟩ | ⟨a, a', e, e', hr, hr', hQ⟩
    · simp only [hr, hr']
      exact herror r
    · simp only [hr, hr']
      exact hQ

/-- An operation that changes nothing and answers the same. -/
theorem paired_operate_idle (h : Abreast c S d d')
    {f f' : FileSystem → Except Refusal (α × FileSystem)} {r : Except Refusal α}
    (hf : f d.tick = r.map (·, d.tick)) (hf' : f' d'.tick = r.map (·, d'.tick)) :
    Paired (operate f).result (operate f').result d d' (Agree (Idle c S d d')) := by
  apply h.paired_operate
  · exact fun _ => ⟨rfl, h.idle_tick⟩
  · cases r with
    | error r => exact .inl ⟨r, hf, hf'⟩
    | ok a => exact .inr ⟨a, a, d.tick, d'.tick, hf, hf', rfl, h.idle_tick⟩

theorem paired_sync (h : Abreast c S d d') (n n' : Nat) :
    Paired (sync n).result (sync n').result d d' (Agree (Idle c S d d')) :=
  h.paired_operate_idle (r := .ok ()) rfl rfl

theorem paired_fileSize (h : Abreast c S d d') (ho : Owns c p name)
    (hx : d.at? (S.left name) = some (.file n))
    (hx' : d'.at? (S.right name) = some (.file n')) :
    Paired (fileSize n).result (fileSize n').result d d' (Agree (Idle c S d d')) := by
  refine h.paired_operate_idle (r := .ok (d.content n).size) rfl ?_
  have hsize : (d'.content n').size = (d.content n).size := by
    rw [← Content.length_toList, h.content_eq ho hx hx', Content.length_toList]
  simp only [content_tick, hsize]
  rfl

theorem paired_readAt (h : Abreast c S d d') (ho : Owns c p name)
    (hx : d.at? (S.left name) = some (.file n))
    (hx' : d'.at? (S.right name) = some (.file n')) (offset length : Nat) :
    Paired (readAt n offset length).result (readAt n' offset length).result d d'
      (Agree (Idle c S d d')) := by
  unfold readAt
  split
  · exact Action.paired_pure ⟨rfl, h.idle_refl⟩
  · refine h.paired_operate_idle (r := if maxPosition < offset + length then .error .invalidInput
      else ((d.content n).read? offset length).elim (.error .shortRead) .ok) ?_ ?_
    · simp only [content_tick]
      split
      · rfl
      · cases (d.content n).read? offset length <;> rfl
    · have hread : (d'.content n').read? offset length = (d.content n).read? offset length := by
        rw [Content.read?_eq, Content.read?_eq, ← Content.length_toList, h.content_eq ho hx hx',
          Content.length_toList]
      simp only [content_tick, hread]
      split
      · rfl
      · cases (d.content n).read? offset length <;> rfl

/-- The two files still lie where they lay. -/
structure InPlace (c : Config) (S : Sides) (name : String) (d d' e e' : FileSystem) : Prop extends
    Advance c S (· = name) d d' e e' where
  leftNodes : e.at? = d.at?
  rightNodes : e'.at? = d'.at?

theorem paired_resize (h : Abreast c S d d') (hx : d.at? (S.left name) = some (.file n))
    (hx' : d'.at? (S.right name) = some (.file n')) :
    Paired (resize n 0).result (resize n' 0).result d d' (Agree (InPlace c S name d d')) := by
  have hle : ¬ maxPosition < 0 := Nat.not_lt_zero _
  have hempty : ∀ k : Content, k.resize 0 = [] := by
    rintro (_ | ⟨r, rs⟩) <;> rfl
  have ht := h.idle_tick
  apply h.paired_operate
  · exact fun _ => ⟨rfl, ht.of_idle, rfl, rfl⟩
  · refine .inr ⟨(), (), d.tick.setContent n [], d'.tick.setContent n' [], ?_, ?_, rfl,
      ht.of_idle.trans (ht.abreast.setContent hx hx' (Nat.zero_le _) rfl), rfl, rfl⟩
    · rw [if_neg hle, hempty]
    · rw [if_neg hle, hempty]

/-- The first bytes of a write that fails are there on both sides. -/
theorem paired_writeAt (h : Abreast c S d d') (ho : Owns c p name)
    (hx : d.at? (S.left name) = some (.file n))
    (hx' : d'.at? (S.right name) = some (.file n')) (offset : Nat) (bytes : Bytes) :
    Paired (writeAt n offset bytes).result (writeAt n' offset bytes).result d d'
      (Agree (InPlace c S name d d')) := by
  have ht := h.idle_tick
  cases hempty : bytes.isEmpty with
  | true =>
    rw [writeAt, writeAt, if_pos hempty, if_pos hempty]
    exact Action.paired_pure ⟨rfl, h.idle_refl.of_idle, rfl, rfl⟩
  | false =>
    have hplan : d'.faults d'.attempts = d.faults d.attempts := h.plan 0
    obtain ⟨k, hk, -⟩ := written_eq_take (d.faults d.attempts) bytes
    unfold Paired
    rw [writeAt_eq n offset hempty, writeAt_eq n' offset hempty, hplan]
    by_cases hle : maxPosition < offset + bytes.length
    · rw [if_pos hle, if_pos hle]
      exact ⟨rfl, ht.of_idle, rfl, rfl⟩
    rw [if_neg hle, if_neg hle]
    by_cases hnone : (written (d.faults d.attempts) bytes).1.isEmpty
    · rw [if_pos hnone, if_pos hnone]
      exact ⟨rfl, ht.of_idle, rfl, rfl⟩
    rw [if_neg hnone, if_neg hnone]
    refine ⟨rfl, ht.of_idle.trans (ht.abreast.setContent hx hx' ?_ ?_), rfl, rfl⟩
    · have hshort : (d.content n).size ≤ maxPosition := h.left.healthy.short n
      rw [hk, size_write, List.length_take]
      omega
    · have hsame := h.content_eq ho hx hx'
      rw [Content.toList_write, Content.toList_write, ← Content.length_toList, hsame,
        Content.length_toList]

/-! ### Operations at a path -/

/-- A file is opened on both sides or on neither. -/
theorem paired_openFile (h : Abreast c S d d') (ho : Owns c p name) :
    Paired (openFile p).result (openFile p).result d d' fun r r' e e' =>
      Advance c S (· = name) d d' e e' ∧ ((∃ n n', r = .ok n ∧ r' = .ok n' ∧
        e.at? (S.left name) = some (.file n) ∧ e'.at? (S.right name) = some (.file n')) ∨
          ∃ refusal, r = .error refusal ∧ r' = .error refusal) := by
  have ht := h.idle_tick
  have hplan : d'.faults d'.attempts = d.faults d.attempts := h.plan 0
  unfold Paired
  rw [openFile_eq (h.leftSite p name ho).lodged, openFile_eq (h.rightSite p name ho).lodged, hplan]
  cases d.faults d.attempts with
  | some fault => exact ⟨ht.of_idle, .inr ⟨_, rfl, rfl⟩⟩
  | none =>
    rcases h.cases ho with ⟨hx, hx'⟩ | ⟨n, n', hx, hx'⟩
    · have hat : ∀ (d : FileSystem) (x : Spot),
          (d.create x.1 x.2).2.at? x = some (.file d.nextNumber) := by
        intro d x
        rw [at?_create, if_pos rfl]
      rw [hx, hx']
      exact ⟨ht.of_idle.trans (ht.abreast.create hx hx'),
        .inl ⟨_, _, rfl, rfl, hat _ (S.left name), hat _ (S.right name)⟩⟩
    · rw [hx, hx']
      exact ⟨ht.of_idle, .inl ⟨_, _, rfl, rfl, hx, hx'⟩⟩

theorem paired_unlinkIfPresent (h : Abreast c S d d') (ho : Owns c p name) :
    Paired (unlinkIfPresent p).result (unlinkIfPresent p).result d d'
      (Agree (Advance c S (· = name) d d')) := by
  have ht := h.idle_tick
  have hunlink : Paired (unlink p).result (unlink p).result d d'
      (Agree (Advance c S (· = name) d d')) := by
    have hplan : d'.faults d'.attempts = d.faults d.attempts := h.plan 0
    unfold Paired
    rw [unlink_eq (h.leftSite p name ho).lodged, unlink_eq (h.rightSite p name ho).lodged, hplan]
    cases d.faults d.attempts with
    | some fault => exact ⟨rfl, ht.of_idle⟩
    | none =>
      rcases h.cases ho with ⟨hx, hx'⟩ | ⟨n, n', hx, hx'⟩
      · rw [hx, hx']
        exact ⟨rfl, ht.of_idle⟩
      · rw [hx, hx']
        exact ⟨rfl, ht.of_idle.trans (ht.abreast.removeEntry hx hx')⟩
  unfold unlinkIfPresent
  apply Action.paired_bind
  apply Action.paired_attempt
  refine hunlink.mono ?_
  rintro (refusal | u) _ e e' ⟨rfl, he⟩
  · cases refusal with
    | notFound => exact Action.paired_pure ⟨rfl, he⟩
    | _ => exact Action.paired_throw ⟨rfl, he⟩
  · exact Action.paired_pure ⟨rfl, he⟩

end Abreast

end Store

end DiskTier
