import DiskTier.FileSystem.Basic
import DiskTier.Proofs.Names

/-!
# What the operations of the file system do

An operation fails as planned, or it does what it does where no failure is planned. A file system is
`Healthy` if no failure is planned at all, every file has one name only, new numbers are really new,
and no file is longer than a file can be.

The path of a file is used through the name in a directory at which it ends, its `Spot`. Every
operation on a file changes what lies under one name: `Local`. Making directories changes no file:
`Grown`.
-/

namespace DiskTier.FileSystem

variable {α : Type} {d d' d'' : FileSystem} {p q : Path}

/-! ### What operations do -/

/-- The file system after an operation was tried. -/
def tick (d : FileSystem) : FileSystem := { d with attempts := d.attempts + 1 }

theorem nextFault_eq (d : FileSystem) :
    nextFault.result d = (.ok (d.faults d.attempts), d.tick) := rfl

theorem operate_eq (f : FileSystem → Except Refusal (α × FileSystem)) (d : FileSystem) :
    (operate f).result d = match d.faults d.attempts with
      | some fault => (.error fault.refusal, d.tick)
      | none => match f d.tick with
        | .error e => (.error e, d.tick)
        | .ok (a, d') => (.ok a, d') := by
  rw [operate, Action.result_bind, nextFault_eq]
  cases d.faults d.attempts with
  | some fault => rfl
  | none =>
    have hget : (get : Operation FileSystem).result d.tick = (.ok d.tick, d.tick) := rfl
    simp only
    rw [Action.result_bind, hget]
    rcases hr : f d.tick with e | ⟨a, d'⟩
    · simp only [hr]
      rfl
    · simp only [hr]
      rfl

theorem createDirectories_eq (p : Path) (d : FileSystem) :
    (createDirectories p).result d = match d.faults d.attempts with
      | some fault => (.error fault.refusal, d.tick)
      | none => makeDirectories (p :: p.above) d.tick := by
  rw [createDirectories, Action.result_bind, nextFault_eq]
  cases d.faults d.attempts <;> rfl

/-- No failure is planned. -/
def Calm (d : FileSystem) : Prop := ∀ n, d.faults n = none

theorem result_operate (h : d.Calm) (f : FileSystem → Except Refusal (α × FileSystem)) :
    (operate f).result d = match f d.tick with
      | .ok (a, d') => (.ok a, d')
      | .error e => (.error e, d.tick) := by
  rw [operate_eq, h d.attempts]
  rcases f d.tick with e | ⟨a, d'⟩ <;> rfl

theorem operate_error (h : d.Calm) {f : FileSystem → Except Refusal (α × FileSystem)} {e : Refusal}
    (he : (operate f).result d = (.error e, d')) : d' = d.tick := by
  rw [result_operate h] at he
  split at he <;> cases he
  rfl

/-! ### Names and numbers -/

/-- A name in a directory. -/
abbrev Spot : Type := Nat × String

/-- What a name in a directory leads to. -/
def at? (d : FileSystem) (x : Spot) : Option Node := d.node? x.1 x.2

@[simp] theorem at?_tick (d : FileSystem) (x : Spot) : d.tick.at? x = d.at? x := rfl

@[simp] theorem content_tick (d : FileSystem) (n : Nat) : d.tick.content n = d.content n := rfl

@[simp] theorem at?_setContent (d : FileSystem) (n : Nat) (c : Content) (x : Spot) :
    (d.setContent n c).at? x = d.at? x := rfl

theorem content_setContent (d : FileSystem) (n m : Nat) (c : Content) :
    (d.setContent n c).content m = if m = n then c else d.content m := by
  by_cases h : m = n <;> simp [content, setContent, Assoc.find?_put, h]

theorem at?_setEntry (d : FileSystem) (x y : Spot) (node : Node) :
    (d.setEntry x.1 x.2 node).at? y = if y = x then some node else d.at? y := by
  simp only [at?, node?_setEntry, Prod.ext_iff]

theorem at?_removeEntry (d : FileSystem) (x y : Spot) :
    (d.removeEntry x.1 x.2).at? y = if y = x then none else d.at? y := by
  simp only [at?, node?_removeEntry, Prod.ext_iff]

theorem at?_create (d : FileSystem) (x y : Spot) :
    (d.create x.1 x.2).2.at? y = if y = x then some (.file d.nextNumber) else d.at? y :=
  at?_setEntry d x y _

theorem content_create (d : FileSystem) (x : Spot) (n : Nat) :
    (d.create x.1 x.2).2.content n = if n = d.nextNumber then [] else d.content n := by
  by_cases h : n = d.nextNumber <;>
    simp [create, content, setContent, setEntry, setEntries, Assoc.find?_put, h]

/-- No failure is planned, every file has one name, and no file is too long. -/
structure Healthy (d : FileSystem) : Prop where
  calm : d.Calm
  single : ∀ x y n, d.at? x = some (.file n) → d.at? y = some (.file n) → x = y
  numbered : ∀ x n, d.at? x = some (.file n) → n < d.nextNumber
  short : ∀ n, (d.content n).size ≤ maxPosition

theorem empty_healthy : empty.Healthy := by
  refine ⟨fun _ => rfl, fun x y n hx => ?_, fun x n hx => ?_, fun n => Nat.zero_le _⟩ <;> cases hx

theorem Healthy.tick (h : d.Healthy) : d.tick.Healthy := ⟨h.calm, h.single, h.numbered, h.short⟩

/-! ### Changes at one name -/

/-- The second file system is healthy and differs from the first at most in what lies under
`name`. -/
structure Local (name : String) (d d' : FileSystem) : Prop where
  healthy : d'.Healthy
  nodes : ∀ x : Spot, x.2 ≠ name → d'.at? x = d.at? x
  contents : ∀ (x : Spot) n, x.2 ≠ name → d.at? x = some (.file n) → d'.content n = d.content n
  directories : ∀ x n, d.at? x = some (.directory n) → d'.at? x = some (.directory n)

variable {name : String} {x : Spot} {n : Nat}

theorem Local.trans (h : Local name d d') (h' : Local name d' d'') : Local name d d'' := by
  refine ⟨h'.healthy, fun x hx => (h'.nodes x hx).trans (h.nodes x hx), fun x n hx hn => ?_,
    fun x n hn => h'.directories x n (h.directories x n hn)⟩
  exact (h'.contents x n hx (h.nodes x hx ▸ hn)).trans (h.contents x n hx hn)

theorem Healthy.local_tick (h : d.Healthy) (name : String) : Local name d d.tick :=
  ⟨h.tick, fun _ _ => rfl, fun _ _ _ _ => rfl, fun _ _ => id⟩

/-- The second file system is healthy and has the same under `name` as the first. -/
structure Spared (name : String) (d d' : FileSystem) : Prop where
  healthy : d'.Healthy
  nodes : ∀ x : Spot, x.2 = name → d'.at? x = d.at? x
  contents : ∀ (x : Spot) n, x.2 = name → d.at? x = some (.file n) → d'.content n = d.content n
  directories : ∀ x n, d.at? x = some (.directory n) → d'.at? x = some (.directory n)

theorem Spared.trans (h : Spared name d d') (h' : Spared name d' d'') : Spared name d d'' := by
  refine ⟨h'.healthy, fun x hx => (h'.nodes x hx).trans (h.nodes x hx), fun x n hx hn => ?_,
    fun x n hn => h'.directories x n (h.directories x n hn)⟩
  exact (h'.contents x n hx (h.nodes x hx ▸ hn)).trans (h.contents x n hx hn)

theorem Local.spared {other : String} (h : Local name d d') (hne : other ≠ name) :
    Spared other d d' :=
  ⟨h.healthy, fun x hx => h.nodes x (hx ▸ hne), fun x n hx => h.contents x n (hx ▸ hne),
    h.directories⟩

/-- A file that is not too long may hold anything. -/
theorem Healthy.setContent (h : d.Healthy) (n : Nat) {c : Content} (hc : c.size ≤ maxPosition) :
    (d.setContent n c).Healthy := by
  refine ⟨h.calm, h.single, h.numbered, fun m => ?_⟩
  rw [content_setContent]
  split
  · exact hc
  · exact h.short m

theorem Healthy.local_setContent (h : d.Healthy) (hx : d.at? x = some (.file n)) {c : Content}
    (hc : c.size ≤ maxPosition) : Local x.2 d (d.setContent n c) := by
  refine ⟨h.setContent n hc, fun _ _ => rfl, fun y m hy hm => ?_, fun _ _ => id⟩
  rw [content_setContent, if_neg]
  rintro rfl
  exact hy (h.single y x m hm hx ▸ rfl)

theorem Healthy.local_removeEntry (h : d.Healthy) (hx : d.at? x = some (.file n)) :
    Local x.2 d (d.removeEntry x.1 x.2) := by
  have hfile : ∀ y node, (d.removeEntry x.1 x.2).at? y = some node → d.at? y = some node := by
    intro y node hy
    rw [at?_removeEntry] at hy
    split at hy
    · cases hy
    · exact hy
  refine ⟨⟨h.calm, fun y z m hy hz => h.single y z m (hfile _ _ hy) (hfile _ _ hz),
    fun y m hy => h.numbered y m (hfile _ _ hy), h.short⟩, fun y hy => ?_, fun _ _ _ _ => rfl,
    fun y m hy => ?_⟩
  · rw [at?_removeEntry, if_neg]
    rintro rfl
    exact hy rfl
  · rw [at?_removeEntry, if_neg]
    · exact hy
    rintro rfl
    rw [hx] at hy
    cases hy

theorem Healthy.local_create (h : d.Healthy) (hx : d.at? x = none) :
    Local x.2 d (d.create x.1 x.2).2 := by
  have hold : ∀ y m, d.at? y = some (.file m) → m ≠ d.nextNumber := fun y m hy =>
    Nat.ne_of_lt (h.numbered y m hy)
  refine ⟨⟨h.calm, fun y z m hy hz => ?_, fun y m hy => ?_, fun m => ?_⟩, fun y hy => ?_,
    fun y m _ hm => ?_, fun y m hm => ?_⟩
  · rw [at?_create] at hy hz
    split at hy <;> split at hz
    · next hyx hzx => rw [hyx, hzx]
    · cases hy
      exact absurd rfl (hold z _ hz)
    · cases hz
      exact absurd rfl (hold y _ hy)
    · exact h.single y z m hy hz
  · rw [at?_create] at hy
    split at hy
    · cases hy
      exact Nat.lt_succ_self _
    · exact Nat.lt_succ_of_lt (h.numbered y m hy)
  · rw [content_create]
    split
    · exact Nat.zero_le _
    · exact h.short m
  · rw [at?_create, if_neg]
    rintro rfl
    exact hy rfl
  · rw [content_create, if_neg (hold y m hm)]
  · rw [at?_create, if_neg]
    · exact hm
    rintro rfl
    rw [hx] at hm
    cases hm

/-- The second file system is healthy and differs from the first at most in the number of
attempts. -/
structure Alike (d d' : FileSystem) : Prop where
  healthy : d'.Healthy
  nodes : d'.at? = d.at?
  contents : d'.content = d.content

theorem Healthy.alike_refl (h : d.Healthy) : Alike d d := ⟨h, rfl, rfl⟩

theorem Healthy.alike_tick (h : d.Healthy) : Alike d d.tick := ⟨h.tick, rfl, rfl⟩

theorem Alike.trans (h : Alike d d') (h' : Alike d' d'') : Alike d d'' :=
  ⟨h'.healthy, h'.nodes.trans h.nodes, h'.contents.trans h.contents⟩

theorem Alike.toLocal (h : Alike d d') (name : String) : Local name d d' :=
  ⟨h.healthy, fun _ _ => by rw [h.nodes], fun _ _ _ _ => by rw [h.contents],
    fun _ _ hx => by rw [h.nodes, hx]⟩

theorem Alike.spared (h : Alike d d') (name : String) : Spared name d d' :=
  ⟨h.healthy, fun _ _ => by rw [h.nodes], fun _ _ _ _ => by rw [h.contents],
    fun _ _ hx => by rw [h.nodes, hx]⟩

/-! ### Paths -/

theorem find_congr (h : d'.directories = d.directories) (n : Nat) (name : String) :
    d'.find n name = d.find n name := by
  rw [FileSystem.find, FileSystem.find, node?, node?, entries, entries, h]

theorem walk_congr (h : d'.directories = d.directories) (here : Trail) (steps : List Path.Step) :
    d'.walk here steps = d.walk here steps := by
  induction steps generalizing here with
  | nil => rfl
  | cons step steps ih =>
    cases step with
    | stay => exact ih here
    | up => exact ih here.tail
    | down name =>
      simp only [walk, find_congr h, ih]

theorem resolve_congr (h : d'.directories = d.directories) (p : Path) :
    d'.resolve p = d.resolve p := by
  simp only [resolve, walk_congr h]

/-- Where a path leads depends on the directories alone. -/
theorem look_congr (h : d'.directories = d.directories) (p : Path) : d'.look p = d.look p := by
  simp only [look, resolve_congr h, find_congr h]

@[simp] theorem look_tick (d : FileSystem) (p : Path) : d.tick.look p = d.look p :=
  look_congr (show d.tick.directories = d.directories from rfl) p

theorem walk_mono (h : ∀ x n, d.at? x = some (.directory n) → d'.at? x = some (.directory n))
    {here there : Trail} {steps : List Path.Step} (hw : d.walk here steps = .ok there) :
    d'.walk here steps = .ok there := by
  induction steps generalizing here with
  | nil => exact hw
  | cons step steps ih =>
    cases step with
    | stay => exact ih hw
    | up => exact ih hw
    | down name =>
      rw [walk, find] at hw ⊢
      by_cases hlong : Path.maxNameLength < Utf8.size name
      · rw [if_pos hlong] at hw
        cases hw
      · rw [if_neg hlong] at hw ⊢
        cases hn : d.node? here.directory name with
        | none =>
          rw [hn] at hw
          cases hw
        | some node =>
          rw [hn] at hw
          cases node with
          | file m => cases hw
          | directory m =>
            have : d'.node? here.directory name = _ := h (here.directory, name) m hn
            rw [this]
            exact ih hw

/-- The path of a file ends at a name in a directory. -/
structure Lodged (d : FileSystem) (p : Path) (x : Spot) : Prop where
  resolves : ∃ here, d.resolve p = .ok (.entry here x.2) ∧ here.directory = x.1
  short : Utf8.size x.2 ≤ Path.maxNameLength
  plain : p.isDirectoryForm = false

theorem Lodged.mono (h : Lodged d p x)
    (hd : ∀ x n, d.at? x = some (.directory n) → d'.at? x = some (.directory n)) :
    Lodged d' p x := by
  obtain ⟨⟨here, hr, hx⟩, hshort, hplain⟩ := h
  refine ⟨⟨here, ?_, hx⟩, hshort, hplain⟩
  unfold resolve at hr ⊢
  split
  · next hnul => rw [if_pos hnul] at hr; cases hr
  · next hnul =>
    rw [if_neg hnul] at hr
    split
    · next hlong => rw [if_pos hlong] at hr; cases hr
    · next hlong =>
      rw [if_neg hlong] at hr
      cases hw : d.walk [] p.steps.dropLast with
      | error e => rw [hw] at hr; cases hr
      | ok there =>
        rw [walk_mono hd hw]
        rw [hw] at hr
        exact hr

theorem Lodged.tick (h : Lodged d p x) : Lodged d.tick p x := h.mono fun _ _ => id

/-- A path ends in one place. -/
theorem Lodged.unique {y : Spot} (hx : Lodged d p x) (hy : Lodged d p y) : x = y := by
  obtain ⟨here, hr, hd⟩ := hx.resolves
  obtain ⟨here', hr', hd'⟩ := hy.resolves
  rw [hr] at hr'
  simp only [Except.ok.injEq, Place.entry.injEq] at hr'
  exact Prod.ext (hd.symm.trans ((congrArg _ hr'.1).trans hd')) hr'.2

theorem Lodged.find (h : Lodged d p x) : d.find x.1 x.2 = .ok (d.at? x) := by
  rw [FileSystem.find, if_neg (Nat.not_lt.2 h.short)]
  rfl

/-- What is seen at a path is the file there, if there is one. -/
theorem Lodged.contentAt?_eq (h : Lodged d p x) :
    d.contentAt? p = match d.at? x with
      | some (.file n) => some (d.content n)
      | _ => none := by
  obtain ⟨here, hr, hd⟩ := h.resolves
  rw [contentAt?, look, hr]
  simp only [bind, Except.bind, hd, h.find, h.plain, Bool.false_eq_true, if_false]
  rcases d.at? x with _ | ⟨n | n⟩ <;> rfl

theorem Lodged.contentAt? (h : Lodged d p x) (hx : d.at? x = some (.file n)) :
    d.contentAt? p = some (d.content n) := by
  rw [h.contentAt?_eq, hx]

theorem Lodged.holds_eq (h : Lodged d p x) : d.holds p = (d.at? x).isSome := by
  obtain ⟨here, hr, hd⟩ := h.resolves
  rw [holds, look, hr]
  simp only [bind, Except.bind, hd, h.find]
  rcases d.at? x with _ | ⟨n | n⟩
  · rfl
  · rfl
  · simp only [h.plain, Bool.false_eq_true, if_false]
    rfl

/-- The way to the directory in which a file lies. -/
theorem Lodged.walk {steps : List Path.Step} (h : Lodged d p x)
    (hsteps : p.steps = steps ++ [.down name]) :
    ∃ here, d.walk [] steps = .ok here ∧ x = (here.directory, name) := by
  obtain ⟨there, hr, hd⟩ := h.resolves
  unfold resolve at hr
  split at hr
  · cases hr
  · split at hr
    · cases hr
    · rw [hsteps, List.dropLast_concat, List.getLast?_concat] at hr
      cases hw : d.walk [] steps with
      | error e =>
        rw [hw] at hr
        cases hr
      | ok here =>
        rw [hw] at hr
        simp only [bind, Except.bind, Except.ok.injEq, Place.entry.injEq] at hr
        exact ⟨here, rfl, Prod.ext (by rw [← hd, hr.1]) hr.2.symm⟩

/-- Paths that go the same way to different names lead into the same directory. -/
theorem Lodged.sibling {other : String} {steps : List Path.Step} {y : Spot} (h : Lodged d p x)
    (hp : p.steps = steps ++ [.down name]) (hq : q.steps = steps ++ [.down other])
    (h' : Lodged d' q y) : Lodged d q (x.1, other) := by
  obtain ⟨here, hw, rfl⟩ := h.walk hp
  obtain ⟨there, -, hy⟩ := h'.walk hq
  obtain ⟨place, hr, -⟩ := h'.resolves
  refine ⟨⟨here, ?_, rfl⟩, by simpa [hy] using h'.short, h'.plain⟩
  unfold resolve at hr ⊢
  split at hr
  · cases hr
  · split at hr
    · cases hr
    · next hnul hlong =>
      rw [if_neg hnul, if_neg hlong, hq, List.dropLast_concat, List.getLast?_concat, hw]
      rfl

theorem Lodged.isPlain (h : Lodged d p x) : p.IsPlain := by
  obtain ⟨here, hr, -⟩ := h.resolves
  unfold resolve at hr
  split at hr
  · cases hr
  · next hnul =>
    split at hr
    · cases hr
    · next hlong => exact ⟨Bool.eq_false_iff.2 hnul, Bool.eq_false_iff.2 hlong⟩

theorem walk_append (d : FileSystem) (here : Trail) (steps more : List Path.Step) :
    d.walk here (steps ++ more) = d.walk here steps >>= fun there => d.walk there more := by
  induction steps generalizing here with
  | nil => rfl
  | cons step steps ih =>
    cases step with
    | stay => exact ih here
    | up => exact ih here.tail
    | down name =>
      rw [List.cons_append, FileSystem.walk, FileSystem.walk]
      split
      · rfl
      · rfl
      · rfl
      · next n hn => exact ih (n :: here)

/-- A path that can be walked ends in a directory. -/
theorem resolve_of_walk {here : Trail} (hp : p.IsPlain) (hw : d.walk [] p.steps = .ok here) :
    (∃ there, d.resolve p = .ok (.within there)) ∨
      ∃ there name m, d.resolve p = .ok (.entry there name) ∧
        d.find there.directory name = .ok (some (.directory m)) := by
  unfold resolve
  rw [hp.1, hp.2]
  simp only [Bool.false_eq_true, if_false]
  rcases List.eq_nil_or_concat p.steps with hnil | ⟨steps, step, hsteps⟩
  · rw [hnil]
    exact .inl ⟨_, rfl⟩
  · rw [hsteps, List.concat_eq_append] at hw ⊢
    rw [walk_append] at hw
    rw [List.dropLast_concat, List.getLast?_concat]
    cases hthere : d.walk [] steps with
    | error e =>
      rw [hthere] at hw
      cases hw
    | ok there =>
      rw [hthere] at hw
      cases step with
      | stay => exact .inl ⟨_, rfl⟩
      | up => exact .inl ⟨_, rfl⟩
      | down name =>
        refine .inr ⟨there, name, ?_⟩
        simp only [bind, Except.bind, FileSystem.walk] at hw
        split at hw
        · cases hw
        · cases hw
        · cases hw
        · next n hn => exact ⟨n, rfl, hn⟩

/-! ### Operations on a file at a path -/

theorem result_openFile (h : d.Calm) (hp : Lodged d p x) :
    (openFile p).result d = match d.at? x with
      | some (.directory _) => (.error .isADirectory, d.tick)
      | some (.file n) => (.ok n, d.tick)
      | none => (.ok d.nextNumber, (d.tick.create x.1 x.2).2) := by
  obtain ⟨here, hr, hx⟩ := hp.tick.resolves
  rw [openFile, result_operate h, hr]
  simp only [bind, Except.bind, hp.plain, hx, hp.tick.find, at?_tick, Bool.false_eq_true, if_false]
  rcases d.at? x with _ | ⟨_ | _⟩ <;> rfl

theorem result_unlink (h : d.Calm) (hp : Lodged d p x) :
    (unlink p).result d = match d.at? x with
      | some (.directory _) => (.error .isADirectory, d.tick)
      | some (.file _) => (.ok (), d.tick.removeEntry x.1 x.2)
      | none => (.error .notFound, d.tick) := by
  obtain ⟨here, hr, hx⟩ := hp.tick.resolves
  rw [unlink, result_operate h, hr]
  simp only [bind, Except.bind, hp.plain, hx, hp.tick.find, at?_tick, Bool.false_eq_true, if_false]
  rcases d.at? x with _ | ⟨_ | _⟩ <;> rfl

theorem result_sizeAt (h : d.Calm) (hp : Lodged d p x) (hn : d.at? x = some (.file n)) :
    (sizeAt p).result d = (.ok (d.content n).size, d.tick) := by
  obtain ⟨here, hr, hx⟩ := hp.tick.resolves
  rw [sizeAt, result_operate h, look, hr]
  simp only [bind, Except.bind, hp.plain, hx, hp.tick.find, at?_tick, hn, Bool.false_eq_true,
    if_false, content_tick]

theorem result_rename {y : Spot} (h : d.Calm) (hp : Lodged d p x) (hq : Lodged d q y)
    (hx : d.at? x = some (.file n)) (hy : ∀ m, d.at? y ≠ some (.directory m)) :
    (rename p q).result d = (.ok (), (d.tick.removeEntry x.1 x.2).setEntry y.1 y.2 (.file n)) := by
  obtain ⟨before, hr, hb⟩ := hp.tick.resolves
  obtain ⟨behind, hr', hb'⟩ := hq.tick.resolves
  rw [rename, result_operate h, hr, hr']
  simp only [bind, Except.bind, hp.plain, hq.plain, hb, hb', hp.tick.find, hq.tick.find, at?_tick,
    hx, Bool.or_self, Bool.false_eq_true, if_false]

/-! ### Operations on an open file -/

theorem result_fileSize (h : d.Calm) (n : Nat) :
    (fileSize n).result d = (.ok (d.content n).size, d.tick) := by
  rw [fileSize, result_operate h]
  rfl

theorem result_sync (h : d.Calm) (n : Nat) : (sync n).result d = (.ok (), d.tick) := by
  rw [sync, result_operate h]

/-- A read of bytes that are there gives them. -/
theorem result_readAt (h : d.Calm) (n : Nat) {offset length : Nat}
    (hs : offset + length ≤ (d.content n).size) (hmax : (d.content n).size ≤ maxPosition) :
    ∃ d', (readAt n offset length).result d =
        (.ok (((d.content n).toList.drop offset).take length), d') ∧ (d' = d ∨ d' = d.tick) := by
  unfold readAt
  split
  · next hl => exact ⟨d, by rw [hl, List.take_zero]; rfl, .inl rfl⟩
  · refine ⟨d.tick, ?_, .inr rfl⟩
    rw [result_operate h, if_neg (Nat.not_lt.2 (Nat.le_trans hs hmax)), content_tick,
      Content.read?_eq, if_pos (.inl hs)]

/-- How many bytes a write leaves on disk, and what it answers. -/
def written (fault : Option PlannedFault) (bytes : Bytes) : Bytes × Except Refusal Unit :=
  match fault with
  | none => (bytes, .ok ())
  | some f => (bytes.take f.written, .error f.refusal)

theorem written_eq_take (fault : Option PlannedFault) (bytes : Bytes) :
    ∃ k, (written fault bytes).1 = bytes.take k ∧
      ((written fault bytes).2 = .ok () → bytes.length ≤ k) := by
  cases fault with
  | none => exact ⟨bytes.length, List.take_length.symm, fun _ => Nat.le_refl _⟩
  | some f => exact ⟨f.written, rfl, nofun⟩

theorem writeAt_eq (n offset : Nat) {bytes : Bytes} (hne : bytes.isEmpty = false) (d : FileSystem) :
    (writeAt n offset bytes).result d =
      if maxPosition < offset + bytes.length then (.error .invalidInput, d.tick)
      else ((written (d.faults d.attempts) bytes).2,
        if (written (d.faults d.attempts) bytes).1.isEmpty then d.tick
        else d.tick.setContent n
          ((d.content n).write offset (written (d.faults d.attempts) bytes).1)) := by
  rw [writeAt, hne]
  simp only [Bool.false_eq_true, if_false]
  rw [Action.result_bind, nextFault_eq]
  by_cases hlt : maxPosition < offset + bytes.length
  · simp only [hlt, if_true]
    rfl
  · cases d.faults d.attempts with
    | none =>
      simp only [hlt, if_false, written, hne, Bool.not_false, if_true, Bool.false_eq_true]
      rfl
    | some f =>
      by_cases hk : (bytes.take f.written).isEmpty
      · simp only [hlt, if_false, written, hk, Bool.not_true, if_true, Bool.false_eq_true]
        rfl
      · rw [Bool.not_eq_true] at hk
        simp only [hlt, if_false, written, hk, Bool.not_false, if_true, Bool.false_eq_true]
        rfl

/-- A write succeeds as long as no byte comes behind the greatest position. -/
theorem result_writeAt (h : d.Calm) (n : Nat) {offset : Nat} {bytes : Bytes} (hne : bytes ≠ []) :
    (writeAt n offset bytes).result d =
      if maxPosition < offset + bytes.length then (.error .invalidInput, d.tick)
      else (.ok (), d.tick.setContent n ((d.content n).write offset bytes)) := by
  have hempty : bytes.isEmpty = false := List.isEmpty_eq_false_iff.2 hne
  rw [writeAt_eq n offset hempty, h d.attempts]
  simp only [written, hempty, Bool.false_eq_true, if_false]

/-! ### Opening a region -/

theorem resolve_entry {here : Trail} {other : String} (h : d.resolve p = .ok (.entry here other))
    (hstep : p.steps.getLast? = some (.down name)) : other = name := by
  unfold resolve at h
  split at h
  · cases h
  · split at h
    · cases h
    · cases hw : d.walk [] p.steps.dropLast with
      | error e =>
        rw [hw] at h
        cases h
      | ok there =>
        rw [hw, hstep] at h
        cases h
        rfl

/-- A path that could be opened as a file ends at a name in a directory. -/
theorem lodged_of_openFile (h : d.Calm) (hstep : p.steps.getLast? = some (.down name))
    (ho : (openFile p).result d = (.ok n, d')) : ∃ x : Spot, x.2 = name ∧ Lodged d p x := by
  rw [openFile, result_operate h] at ho
  cases hr : d.tick.resolve p with
  | error e =>
    rw [hr] at ho
    cases ho
  | ok place =>
    rw [hr] at ho
    cases place with
    | within here => cases ho
    | entry here other =>
      cases resolve_entry hr hstep
      by_cases hplain : p.isDirectoryForm
      · simp [bind, Except.bind, hplain] at ho
      · by_cases hlong : Path.maxNameLength < Utf8.size name
        · simp [bind, Except.bind, hplain, find, hlong] at ho
        · exact ⟨(here.directory, name), rfl,
            Lodged.mono (d := d.tick) ⟨⟨here, hr, rfl⟩, Nat.not_lt.1 hlong, by simpa using hplain⟩
              fun _ _ => id⟩

/-- Unlinking takes away the name of a file, or nothing. -/
theorem unlinkIfPresent_cases (h : d.Calm) (hstep : p.steps.getLast? = some (.down name)) :
    ((unlinkIfPresent p).result d).2 = d.tick ∨
      ∃ (x : Spot) (n : Nat), x.2 = name ∧ d.at? x = some (.file n) ∧
        ((unlinkIfPresent p).result d).2 = d.tick.removeEntry x.1 x.2 := by
  have hsame : ((unlinkIfPresent p).result d).2 = ((unlink p).result d).2 := by
    rw [unlinkIfPresent, Action.result_bind, Action.result_attempt]
    rcases (unlink p).result d with ⟨e | a, d'⟩
    · cases e <;> rfl
    · rfl
  rw [hsame, unlink, result_operate h]
  cases hr : d.tick.resolve p with
  | error e => exact .inl rfl
  | ok place =>
    cases place with
    | within here => exact .inl rfl
    | entry here other =>
      cases resolve_entry hr hstep
      by_cases hlong : Path.maxNameLength < Utf8.size name
      · simp only [bind, Except.bind, find, if_pos hlong]
        exact .inl trivial
      · simp only [bind, Except.bind, find, if_neg hlong]
        cases hm : d.tick.node? here.directory name with
        | none => exact .inl rfl
        | some node =>
          cases node with
          | directory m => exact .inl rfl
          | file m =>
            dsimp only
            split
            · next heq =>
              split at heq
              · cases heq
              · cases heq
                exact .inr ⟨(here.directory, name), m, rfl, hm, rfl⟩
            · exact .inl rfl

/-- Whatever comes of unlinking a path, nothing changes but what lies under its last name. -/
theorem local_unlinkIfPresent (h : d.Healthy) (hstep : p.steps.getLast? = some (.down name)) :
    Local name d ((unlinkIfPresent p).result d).2 := by
  rcases unlinkIfPresent_cases h.calm hstep with heq | ⟨x, n, hx, hn, heq⟩
  · rw [heq]
    exact h.local_tick name
  · rw [heq]
    exact (h.local_tick name).trans (hx ▸ h.tick.local_removeEntry hn)

/-- What is there after unlinking was there before. -/
theorem at?_of_unlinkIfPresent (h : d.Calm) (hstep : p.steps.getLast? = some (.down name))
    {node : Node} (hx : ((unlinkIfPresent p).result d).2.at? x = some node) :
    d.at? x = some node := by
  rcases unlinkIfPresent_cases h hstep with heq | ⟨y, n, -, -, heq⟩
  · rw [heq] at hx
    exact hx
  · rw [heq, at?_removeEntry] at hx
    split at hx
    · cases hx
    · exact hx

/-- What is no directory can be unlinked, be it there or not. -/
theorem unlinkIfPresent_spec (h : d.Healthy) (hp : Lodged d p x)
    (hx : ∀ m, d.at? x ≠ some (.directory m)) :
    ∃ d', (unlinkIfPresent p).result d = (.ok (), d') ∧ Local x.2 d d' ∧ d'.at? x = none := by
  rw [unlinkIfPresent, Action.result_bind, Action.result_attempt, result_unlink h.calm hp]
  rcases hn : d.at? x with _ | ⟨m | n⟩
  · exact ⟨d.tick, rfl, h.local_tick x.2, hn⟩
  · exact absurd hn (hx m)
  · refine ⟨d.tick.removeEntry x.1 x.2, rfl,
      (h.local_tick x.2).trans (h.tick.local_removeEntry hn), ?_⟩
    rw [at?_removeEntry, if_pos rfl]

/-- Once the way to a path is there, a success of unlinking tells that nothing is left at it. -/
theorem lodged_of_unlinkIfPresent {steps : List Path.Step} {here : Trail} (h : d.Calm)
    (hsteps : p.steps = steps ++ [.down name]) (hplain : p.isDirectoryForm = false)
    (ho : (unlinkIfPresent p).result d = (.ok (), d')) (hw : d'.walk [] steps = .ok here) :
    Lodged d' p (here.directory, name) ∧ d'.at? (here.directory, name) = none := by
  have hlast : p.steps.getLast? = some (.down name) := by rw [hsteps, List.getLast?_concat]
  -- whatever the operation found, the path ends at the name
  suffices hend : ∃ y, Lodged d' p (y, name) ∧ d'.at? (y, name) = none by
    obtain ⟨y, hy, hnone⟩ := hend
    obtain ⟨there, hwalk, heq⟩ := hy.walk hsteps
    cases hw.symm.trans hwalk
    cases heq
    exact ⟨hy, hnone⟩
  rw [unlinkIfPresent, Action.result_bind, Action.result_attempt] at ho
  cases hr : d.tick.resolve p with
  | error e =>
    rw [unlink, result_operate h, hr] at ho
    cases e <;> cases ho
    -- the way to the path is there, and so this is not what was missing
    have hw' : d.tick.walk [] steps = .ok here := hw
    unfold resolve at hr
    split at hr
    · cases hr
    · split at hr
      · cases hr
      · rw [hsteps, List.dropLast_concat, List.getLast?_concat, hw'] at hr
        cases hr
  | ok place =>
    cases place with
    | within there =>
      rw [unlink, result_operate h, hr] at ho
      cases ho
    | entry there other =>
      by_cases hlong : Path.maxNameLength < Utf8.size name
      · cases resolve_entry hr hlast
        rw [unlink, result_operate h, hr] at ho
        simp only [bind, Except.bind, find, if_pos hlong] at ho
        cases ho
      · cases resolve_entry hr hlast
        have hl : Lodged d p (there.directory, name) :=
          Lodged.mono (d := d.tick) ⟨⟨there, hr, rfl⟩, Nat.not_lt.1 hlong, hplain⟩ fun _ _ => id
        rw [result_unlink h hl] at ho
        cases hn : d.at? (there.directory, name) with
        | none =>
          rw [hn] at ho
          cases ho
          exact ⟨_, hl.tick, hn⟩
        | some node =>
          rw [hn] at ho
          cases node with
          | directory m => cases ho
          | file m =>
            cases ho
            refine ⟨_, hl.mono fun y k hy => ?_, ?_⟩
            · rw [at?_removeEntry, if_neg]
              · exact hy
              · rintro rfl
                rw [hn] at hy
                cases hy
            · rw [at?_removeEntry, if_pos rfl]

/-- A file that is moved keeps its content, and takes the place of what lay at its new name. -/
theorem rename_spec {y : Spot} (h : d.Healthy) (hp : Lodged d p x) (hq : Lodged d q y)
    (hx : d.at? x = some (.file n)) (hy : ∀ m, d.at? y ≠ some (.directory m)) (hxy : x.2 ≠ y.2) :
    ∃ d', (rename p q).result d = (.ok (), d') ∧ Local y.2 (d.removeEntry x.1 x.2) d' ∧
      d'.at? y = some (.file n) ∧ d'.content n = d.content n := by
  have hl := h.tick.local_removeEntry hx
  have hat : ∀ z, ((d.tick.removeEntry x.1 x.2).setEntry y.1 y.2 (.file n)).at? z =
      if z = y then some (.file n) else (d.tick.removeEntry x.1 x.2).at? z := fun z =>
    at?_setEntry _ y z _
  have hgone : ∀ z, (d.tick.removeEntry x.1 x.2).at? z ≠ some (.file n) := by
    intro z hz
    rw [at?_removeEntry] at hz
    split at hz
    · cases hz
    · next hne => exact hne (h.single z x n hz hx)
  refine ⟨_, result_rename h.calm hp hq hx hy, ⟨⟨h.calm, fun z w m hz hw => ?_, fun z m hz => ?_,
    h.short⟩, fun z hz => ?_, fun _ _ _ _ => rfl, fun z m hz => ?_⟩, ?_, rfl⟩
  · rw [hat] at hz hw
    split at hz <;> split at hw
    · next hzy hwy => rw [hzy, hwy]
    · cases hz
      exact absurd hw (hgone w)
    · cases hw
      exact absurd hz (hgone z)
    · exact hl.healthy.single z w m hz hw
  · rw [hat] at hz
    split at hz
    · cases hz
      exact h.numbered x n hx
    · exact hl.healthy.numbered z m hz
  · rw [hat, if_neg]
    · rfl
    · rintro rfl
      exact hz rfl
  · have hzy : z ≠ y := by
      rintro rfl
      rw [at?_removeEntry] at hz
      split at hz
      · cases hz
      · exact hy m hz
    rw [hat, if_neg hzy]
    exact hz
  · rw [hat, if_pos rfl]

/-- The second file system is healthy and has more directories than the first, but the same
files. -/
structure Grown (d d' : FileSystem) : Prop where
  healthy : d'.Healthy
  nodes : ∀ x node, d.at? x = some node → d'.at? x = some node
  files : ∀ x n, d'.at? x = some (.file n) → d.at? x = some (.file n)
  contents : ∀ n, d'.content n = d.content n

theorem Grown.trans (h : Grown d d') (h' : Grown d' d'') : Grown d d'' :=
  ⟨h'.healthy, fun x node hx => h'.nodes x node (h.nodes x node hx),
    fun x n hx => h.files x n (h'.files x n hx), fun n => (h'.contents n).trans (h.contents n)⟩

theorem Healthy.grown_refl (h : d.Healthy) : Grown d d :=
  ⟨h, fun _ _ => id, fun _ _ => id, fun _ => rfl⟩

theorem Healthy.grown_tick (h : d.Healthy) : Grown d d.tick :=
  ⟨h.tick, fun _ _ => id, fun _ _ => id, fun _ => rfl⟩

theorem Healthy.grown_createDirectory (h : d.Healthy) (hx : d.at? x = none) :
    Grown d (d.createDirectory x.1 x.2) := by
  have hat : ∀ y, (d.createDirectory x.1 x.2).at? y =
      if y = x then some (.directory d.nextNumber) else d.at? y := fun y => at?_setEntry d x y _
  have hfiles : ∀ y n, (d.createDirectory x.1 x.2).at? y = some (.file n) →
      d.at? y = some (.file n) := by
    intro y n hy
    rw [hat] at hy
    split at hy
    · cases hy
    · exact hy
  refine ⟨⟨h.calm, fun y z n hy hz => h.single y z n (hfiles y n hy) (hfiles z n hz),
    fun y n hy => Nat.lt_succ_of_lt (h.numbered y n (hfiles y n hy)), h.short⟩,
    fun y node hy => ?_, hfiles, fun _ => rfl⟩
  rw [hat, if_neg]
  · exact hy
  rintro rfl
  rw [hx] at hy
  cases hy

theorem grown_makeDirectory (h : d.Healthy) (hm : d.makeDirectory p = .ok d') : Grown d d' := by
  unfold makeDirectory at hm
  cases hr : d.resolve p with
  | error e =>
    rw [hr] at hm
    cases hm
  | ok place =>
    rw [hr] at hm
    cases place with
    | within here => cases hm
    | entry here name =>
      by_cases hlong : Path.maxNameLength < Utf8.size name
      · simp [bind, Except.bind, find, hlong] at hm
      · simp only [bind, Except.bind, find, if_neg hlong] at hm
        cases hn : d.node? here.directory name with
        | none =>
          rw [hn] at hm
          cases hm
          exact h.grown_createDirectory (x := (here.directory, name)) hn
        | some node =>
          rw [hn] at hm
          cases hm

theorem grown_ensureDirectory (h : d.Healthy) (p : Path) : Grown d (ensureDirectory p d).2 := by
  unfold ensureDirectory
  split
  · next hm => exact grown_makeDirectory h hm
  · exact h.grown_refl

theorem grown_makeDirectories (h : d.Healthy) (ps : List Path) :
    Grown d (makeDirectories ps d).2 := by
  induction ps generalizing d with
  | nil => exact h.grown_refl
  | cons p above ih =>
    have hp := grown_ensureDirectory h p
    rw [makeDirectories]
    split
    · next e d' he =>
      rw [he] at hp
      have habove := ih hp.healthy
      split
      · next d'' hd =>
        rw [hd] at habove
        exact (hp.trans habove).trans (grown_ensureDirectory habove.healthy p)
      · exact hp.trans habove
    · exact hp

/-- Where there is a directory none is made. -/
theorem makeDirectories_of_walk {here : Trail} (hp : p.IsPlain)
    (hw : d.walk [] p.steps = .ok here) (above : List Path) :
    makeDirectories (p :: above) d = (.ok (), d) := by
  have hensure : ensureDirectory p d = (.ok (), d) := by
    unfold ensureDirectory makeDirectory isDirectory look
    rcases resolve_of_walk hp hw with ⟨there, hr⟩ | ⟨there, name, m, hr, hf⟩
    · rw [hr]
      rfl
    · simp only [hr, bind, Except.bind, hf, if_true]
  rw [makeDirectories, hensure]

theorem grown_createDirectories (h : d.Healthy) (p : Path) :
    Grown d ((createDirectories p).result d).2 := by
  rw [createDirectories_eq, h.calm d.attempts]
  exact h.grown_tick.trans (grown_makeDirectories h.tick _)

end DiskTier.FileSystem
