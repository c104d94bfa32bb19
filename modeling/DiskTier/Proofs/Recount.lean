import DiskTier.Proofs.Paired.Region

/-!
# The number of operations does not matter

Operations on files are numbered, so that a failure can be planned for one of them. Nothing else
depends on the numbers: from two file systems with the same files, in which the same failures are to
come, every event of a region leads to the same answer, the same region, and again to such file
systems. A run can therefore be repeated where operations were tried before that left no trace.
-/

namespace DiskTier

variable {σ τ ε ε' α β : Type}

/-! ### Actions that keep a relation -/

/-- Alike states lead to the same value and to alike states. -/
def Steady (R : σ → σ → Prop) (f : σ → α × σ) : Prop :=
  ∀ s s', R s s' → Paired f f s s' (Agree R)

theorem Steady.exists_result {R : σ → σ → Prop} {f : σ → α × σ} {s s' t : σ} {a : α}
    (hf : Steady R f) (hs : R s s') (h : f s = (a, t)) : ∃ t', f s' = (a, t') ∧ R t t' := by
  obtain ⟨ha, ht⟩ := hf s s' hs
  rw [h] at ha ht
  exact ⟨(f s').2, Prod.ext ha rfl, ht⟩

/-- The values in memory are the same, and the files are alike. -/
def Beside (R : FileSystem → FileSystem → Prop) (p p' : FileSystem × σ) : Prop :=
  R p.1 p'.1 ∧ p'.2 = p.2

namespace Action

variable {R : σ → σ → Prop} {x : Action σ ε α}

theorem steady_pure (a : α) : Steady R (pure a : Action σ ε α).result := fun _ _ h => ⟨rfl, h⟩

theorem steady_throw (e : ε) : Steady R (throw e : Action σ ε α).result := fun _ _ h => ⟨rfl, h⟩

theorem steady_liftM (r : Except ε α) : Steady R (liftM r : Action σ ε α).result :=
  fun _ _ h => paired_liftM ⟨rfl, h⟩

theorem steady_bind {f : α → Action σ ε β} (hx : Steady R x.result)
    (hf : ∀ a, Steady R (f a).result) : Steady R (x >>= f).result :=
  fun s s' h => paired_bind_agree (hx s s' h) (fun a t t' => hf a t t') fun _ _ _ ht => ⟨rfl, ht⟩

theorem steady_map (f : α → β) (hx : Steady R x.result) : Steady R (f <$> x).result := by
  rw [← bind_pure_comp]
  exact steady_bind hx fun a => steady_pure (f a)

theorem steady_attempt (hx : Steady R x.result) :
    Steady R (x.attempt : Action σ ε' _).result := fun s s' h =>
  ⟨congrArg Except.ok (hx s s' h).1, (hx s s' h).2⟩

theorem steady_regardless (hx : Steady R x.result) :
    Steady R (x.regardless : Action σ ε' Unit).result := fun s s' h => ⟨rfl, (hx s s' h).2⟩

theorem steady_failingAs (wrap : ε → ε') (hx : Steady R x.result) :
    Steady R (x.failingAs wrap).result := fun s s' h => agree_failingAs (hx s s' h)

/-- What follows a success or a failure. -/
theorem steady_attempt_bind {f : Except ε α → Action σ ε' β} (hx : Steady R x.result)
    (hok : ∀ a, Steady R (f (.ok a)).result) (herror : ∀ e, Steady R (f (.error e)).result) :
    Steady R (x.attempt >>= f).result := by
  refine steady_bind (steady_attempt hx) fun r => ?_
  cases r with
  | ok a => exact hok a
  | error e => exact herror e

end Action

namespace FileAction

variable {R : FileSystem → FileSystem → Prop}

theorem steady_value : Steady (Beside R) (value : FileAction σ ε σ).result :=
  fun _ _ h => ⟨congrArg Except.ok h.2, h⟩

theorem steady_change (k : σ → σ) : Steady (Beside R) (change k : FileAction σ ε Unit).result :=
  fun _ _ h => ⟨rfl, h.1, congrArg k h.2⟩

theorem steady_onDisk (wrap : ε' → ε) {x : Action FileSystem ε' α} (hx : Steady R x.result) :
    Steady (Beside R) (onDisk wrap x : FileAction σ ε α).result := by
  rintro ⟨d, s⟩ ⟨d', _⟩ ⟨hd, rfl⟩
  exact paired_onDisk ((hx d d' hd).mono fun _ _ _ _ h => ⟨congrArg _ h.1, h.2, rfl⟩)

theorem steady_onPart (get : σ → τ) (put : τ → σ → σ) (wrap : ε' → ε) {x : FileAction τ ε' α}
    (hx : Steady (Beside R) x.result) : Steady (Beside R) (onPart get put wrap x).result := by
  rintro ⟨d, s⟩ ⟨d', s'⟩ ⟨hd, hs⟩
  obtain rfl : s = s' := hs.symm
  refine paired_onPart ((hx (d, get s) (d', get s) ⟨hd, rfl⟩).mono ?_)
  rintro r r' p p' ⟨hr, hp, hvalue⟩
  exact ⟨congrArg _ hr, hp, by rw [hvalue]⟩

theorem steady_startingWith {x : FileAction σ ε α} (hx : Steady (Beside R) x.result) (s : σ) :
    Steady R (x.startingWith s).result := by
  intro d d' hd
  obtain ⟨hr, hp, hs⟩ := hx (d, s) (d', s) ⟨hd, rfl⟩
  unfold Paired
  rw [result_startingWith, result_startingWith]
  rcases hx' : x.result (d', s) with ⟨r', e', t'⟩
  rcases hx'' : x.result (d, s) with ⟨r, e, t⟩
  rw [hx', hx''] at hr hp hs
  obtain rfl : r' = r := hr
  obtain rfl : t' = t := hs
  cases r' with
  | error e => exact ⟨rfl, hp⟩
  | ok a => exact ⟨rfl, hp⟩

end FileAction

/-! ### File systems -/

namespace FileSystem

variable {d d' : FileSystem} {n : Nat} {faults : Nat → Option PlannedFault}

/-- The same files, and the same failures to come. -/
structure Recounted (d d' : FileSystem) : Prop where
  directories : d'.directories = d.directories
  contents : d'.contents = d.contents
  nextNumber : d'.nextNumber = d.nextNumber
  plan : SamePlan d d'

theorem Recounted.symm (h : Recounted d d') : Recounted d' d :=
  ⟨h.directories.symm, h.contents.symm, h.nextNumber.symm, fun i => (h.plan i).symm⟩

/-- The files with other numbers of operations. -/
def recount (n : Nat) (faults : Nat → Option PlannedFault) (d : FileSystem) : FileSystem :=
  { d with attempts := n, faults }

theorem Recounted.eq_recount (h : Recounted d d') : d' = d.recount d'.attempts d'.faults := by
  obtain ⟨directories, contents, number, -⟩ := h
  rw [recount, ← directories, ← contents, ← number]

@[simp] theorem resolve_recount (p : Path) : (d.recount n faults).resolve p = d.resolve p :=
  resolve_congr (show (d.recount n faults).directories = d.directories from rfl) p

@[simp] theorem find_recount (m : Nat) (name : String) :
    (d.recount n faults).find m name = d.find m name := rfl

@[simp] theorem look_recount (p : Path) : (d.recount n faults).look p = d.look p :=
  look_congr (show (d.recount n faults).directories = d.directories from rfl) p

/-- What does not look at the numbers keeps the relation. -/
theorem steady_of_recount {f : FileSystem → α × FileSystem}
    (hf : ∀ d n faults, f (recount n faults d) = Prod.map id (recount n faults) (f d)) :
    Steady Recounted f := by
  intro d d' h
  -- it does not change them either
  have hkept : (f d).2.attempts = d.attempts ∧ (f d).2.faults = d.faults := by
    have hd : (f d).2 = (f d).2.recount d.attempts d.faults :=
      congrArg Prod.snd (hf d d.attempts d.faults)
    have hattempts := congrArg (·.attempts) hd
    have hfaults := congrArg (·.faults) hd
    exact ⟨hattempts, hfaults⟩
  have hsame : f d' = Prod.map id (recount d'.attempts d'.faults) (f d) := by
    conv_lhs => rw [h.eq_recount, hf]
  unfold Paired
  rw [hsame]
  refine ⟨rfl, rfl, rfl, rfl, fun i => ?_⟩
  rw [hkept.1, hkept.2]
  exact h.plan i

theorem steady_nextFault : Steady Recounted nextFault.result := fun _ _ h =>
  ⟨congrArg Except.ok (h.plan 0), h.directories, h.contents, h.nextNumber, h.plan.tick⟩

theorem steady_operate {f : FileSystem → Except Refusal (α × FileSystem)}
    (hf : ∀ d n faults, f (recount n faults d) = (f d).map (Prod.map id (recount n faults))) :
    Steady Recounted (operate f).result := by
  have hrun : Steady Recounted fun d =>
      ((f d).map Prod.fst, ((f d).toOption.map Prod.snd).getD d) := by
    refine steady_of_recount fun d n faults => ?_
    rw [hf]
    rcases f d with e | ⟨a, d'⟩ <;> rfl
  have htried : ∀ {d : FileSystem}, d.faults d.attempts = none → (operate f).result d =
      ((f d.tick).map Prod.fst, ((f d.tick).toOption.map Prod.snd).getD d.tick) := by
    intro d hnone
    rw [operate_eq, hnone]
    rcases f d.tick with e | ⟨a, d'⟩ <;> rfl
  intro d d' h
  have hplan : d'.faults d'.attempts = d.faults d.attempts := h.plan 0
  have htick : Recounted d.tick d'.tick := (steady_nextFault d d' h).2
  unfold Paired
  cases hfault : d.faults d.attempts with
  | some fault =>
    rw [operate_eq, operate_eq, hplan, hfault]
    exact ⟨rfl, htick⟩
  | none =>
    rw [htried hfault, htried (hplan.trans hfault)]
    exact hrun _ _ htick

theorem steady_openFile (p : Path) : Steady Recounted (openFile p).result := by
  refine steady_operate fun d n faults => ?_
  simp only [resolve_recount, find_recount]
  rcases d.resolve p with e | here | ⟨here, name⟩
  · rfl
  · rfl
  · simp only [bind, Except.bind]
    split
    · rfl
    · rcases d.find here.directory name with e | _ | _ | _ <;> rfl

theorem steady_fileSize (m : Nat) : Steady Recounted (fileSize m).result :=
  steady_operate fun _ _ _ => rfl

theorem steady_sync (m : Nat) : Steady Recounted (FileSystem.sync m).result :=
  steady_operate fun _ _ _ => rfl

theorem steady_sizeAt (p : Path) : Steady Recounted (sizeAt p).result := by
  refine steady_operate fun d n faults => ?_
  simp only [look_recount]
  rcases d.look p with e | _ | _ | _ <;> rfl

theorem steady_resize (m size : Nat) : Steady Recounted (resize m size).result := by
  refine steady_operate fun d n faults => ?_
  split <;> rfl

theorem steady_readAt (m offset length : Nat) :
    Steady Recounted (readAt m offset length).result := by
  unfold readAt
  split
  · exact Action.steady_pure []
  · refine steady_operate fun d n faults => ?_
    split
    · rfl
    · rw [show (d.recount n faults).content m = d.content m from rfl]
      cases (d.content m).read? offset length <;> rfl

theorem steady_writeAt (m offset : Nat) (bytes : Bytes) :
    Steady Recounted (writeAt m offset bytes).result := by
  intro d d' h
  cases hempty : bytes.isEmpty with
  | true =>
    rw [writeAt, if_pos hempty]
    exact ⟨rfl, h⟩
  | false =>
    have hplan : d'.faults d'.attempts = d.faults d.attempts := h.plan 0
    have hcontent : d'.content m = d.content m := by rw [content, content, h.contents]
    have hafter : Recounted d.tick d'.tick := ⟨h.directories, h.contents, h.nextNumber, h.plan.tick⟩
    unfold Paired
    rw [writeAt_eq m offset hempty, writeAt_eq m offset hempty, hplan, hcontent]
    split
    · exact ⟨rfl, hafter⟩
    · split
      · exact ⟨rfl, hafter⟩
      · refine ⟨rfl, h.directories, ?_, h.nextNumber, h.plan.tick⟩
        show Assoc.put d'.contents m _ = Assoc.put d.contents m _
        rw [h.contents]

theorem steady_unlink (p : Path) : Steady Recounted (unlink p).result := by
  refine steady_operate fun d n faults => ?_
  simp only [resolve_recount, find_recount]
  rcases d.resolve p with e | here | ⟨here, name⟩
  · rfl
  · rfl
  · simp only [bind, Except.bind]
    rcases d.find here.directory name with e | _ | _ | _
    · rfl
    · rfl
    · rfl
    · dsimp only
      split <;> rfl

theorem steady_unlinkIfPresent (p : Path) : Steady Recounted (unlinkIfPresent p).result := by
  unfold unlinkIfPresent
  refine Action.steady_attempt_bind (steady_unlink p) (fun _ => Action.steady_pure ()) fun e => ?_
  cases e with
  | notFound => exact Action.steady_pure ()
  | _ => exact Action.steady_throw _

theorem steady_rename (source target : Path) : Steady Recounted (rename source target).result := by
  refine steady_operate fun d n faults => ?_
  have hentries : ∀ m, (d.recount n faults).entries m = d.entries m := fun _ => rfl
  simp only [resolve_recount, find_recount, hentries]
  rcases d.resolve source with e | here | ⟨before, old⟩
  · rfl
  · rcases d.resolve target with e | _ | _ <;> rfl
  rcases d.resolve target with e | here | ⟨behind, new⟩
  · rfl
  · rfl
  simp only [bind, Except.bind]
  rcases d.find before.directory old with e | _ | node
  · rfl
  · rfl
  rcases d.find behind.directory new with e | found
  · cases node <;> rfl
  cases node with
  | directory m =>
    dsimp only
    split
    · rfl
    · rcases found with _ | l | l
      · rfl
      · dsimp only
        split
        · rfl
        · split <;> rfl
      · rfl
  | file m =>
    dsimp only
    split
    · rfl
    · rcases found with _ | _ | _ <;> rfl

theorem ensureDirectory_recount (p : Path) (d : FileSystem) :
    ensureDirectory p (d.recount n faults) =
      Prod.map id (recount n faults) (ensureDirectory p d) := by
  have hmake : (d.recount n faults).makeDirectory p =
      (d.makeDirectory p).map (recount n faults) := by
    unfold makeDirectory
    simp only [resolve_recount, find_recount]
    rcases d.resolve p with e | here | ⟨here, name⟩
    · rfl
    · rfl
    · simp only [bind, Except.bind]
      rcases d.find here.directory name with e | _ | _ <;> rfl
  unfold ensureDirectory
  rw [hmake]
  rcases d.makeDirectory p with e | e
  · simp only [Except.map, isDirectory, look_recount]
    rfl
  · rfl

theorem makeDirectories_recount (ps : List Path) (d : FileSystem) :
    makeDirectories ps (d.recount n faults) =
      Prod.map id (recount n faults) (makeDirectories ps d) := by
  induction ps generalizing d with
  | nil => rfl
  | cons p ps ih =>
    simp only [makeDirectories, ensureDirectory_recount]
    rcases ensureDirectory p d with ⟨e | u, d₁⟩
    · cases e with
      | notFound =>
        simp only [Prod.map, id, ih]
        rcases makeDirectories ps d₁ with ⟨e | u, d₂⟩
        · rfl
        · simp only [Prod.map, id, ensureDirectory_recount]
      | _ => rfl
    · rfl

theorem steady_createDirectories (p : Path) : Steady Recounted (createDirectories p).result := by
  refine Action.steady_bind steady_nextFault fun fault => ?_
  cases fault with
  | some fault => exact Action.steady_throw _
  | none => exact steady_of_recount fun d _ _ => makeDirectories_recount _ d

theorem Operation.steady_lift {x : Operation α} (hx : Steady Recounted x.result) :
    Steady Recounted x.lift.result := Action.steady_failingAs _ hx

end FileSystem

/-! ### Record files -/

open FileSystem DiskTier.Action FileAction

namespace RecordFile

theorem steady_read (f : RecordFile) (slot : Slot) : Steady Recounted (f.read slot).result := by
  unfold read
  refine steady_bind (steady_liftM _) fun n => ?_
  split
  · exact Operation.steady_lift (steady_readAt _ _ _)
  · exact steady_throw _

theorem steady_readAll (f : RecordFile) : Steady Recounted f.readAll.result := by
  unfold readAll
  split
  · exact f.steady_read _
  · exact steady_throw _

theorem steady_forceToDisk (f : RecordFile) : Steady Recounted f.sync.result :=
  steady_bind (steady_liftM _) fun n => Operation.steady_lift (FileSystem.steady_sync n)

theorem steady_openAt (p : Path) : Steady Recounted (openAt p).result :=
  steady_bind (Operation.steady_lift (steady_openFile p)) fun n =>
    steady_bind (Operation.steady_lift (steady_fileSize n)) fun _ => steady_pure _

theorem steady_openNumber : Steady (Beside Recounted) openNumber.result :=
  steady_bind steady_value fun _ => steady_liftM _

theorem steady_truncate : Steady (Beside Recounted) truncate.result :=
  steady_bind steady_openNumber fun n =>
    steady_bind (steady_onDisk _ (steady_resize n 0)) fun _ => steady_change _

theorem steady_createEmpty (p : Path) : Steady Recounted (createEmpty p).result :=
  steady_bind (steady_openAt p) fun f =>
    steady_map _ (steady_startingWith steady_truncate f)

theorem steady_write (offset : UInt64) (bytes : Bytes) :
    Steady (Beside Recounted) (write offset bytes).result :=
  steady_bind steady_openNumber fun n =>
    steady_bind (steady_onDisk _ (steady_writeAt n _ bytes)) fun _ => steady_change _

theorem steady_append (bytes : Bytes) : Steady (Beside Recounted) (append bytes).result := by
  refine steady_bind steady_value fun f => ?_
  split
  · exact steady_throw _
  · exact steady_bind (steady_write _ bytes) fun _ => steady_pure _

theorem steady_overwrite (bytes : Bytes) : Steady (Beside Recounted) (overwrite bytes).result :=
  steady_bind steady_truncate fun _ => steady_write 0 bytes

theorem steady_close : Steady (Beside Recounted) close.result := by
  refine steady_bind steady_value fun f => ?_
  split
  · exact steady_pure ()
  · exact steady_bind (steady_change _) fun _ => steady_onDisk _ (FileSystem.steady_sync _)

theorem steady_delete (f : RecordFile) : Steady Recounted f.delete.result :=
  steady_bind (steady_startingWith steady_close f) fun p =>
    Operation.steady_lift (steady_unlinkIfPresent p.2.path)

end RecordFile

/-! ### Drafts -/

namespace Draft

theorem steady_begin (p : Path) : Steady Recounted (Draft.begin p).result :=
  steady_bind (steady_failingAs _ (RecordFile.steady_createEmpty p)) fun _ => steady_pure _

theorem steady_copy (dr : Draft) (live : Store) (k : Key) :
    Steady Recounted (dr.copy live k).result := by
  unfold copy
  split
  · exact steady_pure _
  · exact steady_bind (steady_failingAs _ (live.dataFile.steady_read _)) fun record =>
      steady_bind (steady_failingAs _ (steady_startingWith (RecordFile.steady_append record) _))
        fun _ => steady_pure _

theorem steady_copyAll (dr : Draft) (live : Store) (ks : List Key) :
    Steady Recounted (dr.copyAll live ks).result := by
  induction ks generalizing dr with
  | nil => exact steady_pure dr
  | cons k ks ih => exact steady_bind (dr.steady_copy live k) ih

theorem steady_abandon (dr : Draft) : Steady Recounted dr.abandon.result :=
  steady_regardless dr.file.steady_delete

end Draft

/-! ### Stores -/

namespace Store

theorem steady_read (s : Store) (k : Key) : Steady Recounted (s.read k).result := by
  unfold Store.read
  split
  · exact steady_pure none
  · refine steady_bind (steady_failingAs _ (s.dataFile.steady_read _)) fun record => ?_
    split
    · exact steady_throw _
    · split
      · exact steady_pure _
      · exact steady_throw _

theorem steady_onData {x : RecordFile.Change α} (hx : Steady (Beside Recounted) x.result) :
    Steady (Beside Recounted) (onData x).result := steady_onPart _ _ _ hx

theorem steady_onKeys {x : RecordFile.Change α} (hx : Steady (Beside Recounted) x.result) :
    Steady (Beside Recounted) (onKeys x).result := steady_onPart _ _ _ hx

theorem steady_write (k : Key) (record : Bytes) :
    Steady (Beside Recounted) (write k record).result := by
  unfold Store.write
  split
  · exact steady_throw _
  · refine steady_bind steady_value fun s => steady_bind (steady_change _) fun _ => ?_
    exact steady_attempt_bind (steady_onData (RecordFile.steady_write _ record))
      (fun _ => steady_bind (steady_change _) fun _ => steady_pure _)
      fun _ => steady_bind (steady_change _) fun _ => steady_throw _

theorem steady_saveKeys : Steady (Beside Recounted) saveKeys.result := by
  refine steady_bind steady_value fun s => ?_
  have hsync : Steady (Beside Recounted) (do
      let s ← FileAction.value
      FileAction.onDisk .file s.keyFile.sync : Change Unit).result :=
    steady_bind steady_value fun s => steady_onDisk _ s.keyFile.steady_forceToDisk
  dsimp only
  split
  · exact steady_bind (steady_onKeys RecordFile.steady_truncate) fun _ => hsync
  · exact steady_bind (steady_onKeys (RecordFile.steady_overwrite _)) fun _ => hsync

theorem steady_reset : Steady (Beside Recounted) reset.result :=
  steady_bind (steady_change _) fun _ =>
    steady_bind (steady_regardless (steady_onData RecordFile.steady_close)) fun _ =>
    steady_bind (steady_regardless (steady_onKeys RecordFile.steady_close)) fun _ =>
    steady_bind steady_value fun _ =>
    steady_bind (steady_onDisk _ (Operation.steady_lift (steady_unlinkIfPresent _))) fun _ =>
    steady_bind (steady_onDisk _ (Operation.steady_lift (steady_unlinkIfPresent _))) fun _ =>
    steady_bind (steady_onDisk _ (RecordFile.steady_openAt _)) fun _ =>
    steady_bind (steady_change _) fun _ =>
    steady_bind (steady_onDisk _ (RecordFile.steady_openAt _)) fun _ => steady_change _

theorem steady_close : Steady (Beside Recounted) Store.close.result :=
  steady_bind (steady_onData RecordFile.steady_close) fun _ =>
    steady_onKeys RecordFile.steady_close

theorem steady_loadKeys (c : Config) (f : RecordFile) : Steady Recounted (loadKeys c f).result := by
  unfold loadKeys
  dsimp only
  split
  · exact steady_pure _
  · refine steady_attempt_bind f.steady_readAll (fun bytes => ?_) fun _ => steady_pure _
    dsimp only
    split
    · exact steady_pure _
    · exact steady_pure _

theorem steady_openAt (c : Config) : Steady Recounted (Store.openAt c).result := by
  refine steady_bind (steady_failingAs _ (RecordFile.steady_openAt _)) fun dataFile =>
    steady_bind (steady_failingAs _ (RecordFile.steady_openAt _)) fun keyFile =>
    steady_bind (steady_loadKeys c keyFile) fun loaded => ?_
  dsimp only
  split
  · exact steady_map _ (steady_startingWith steady_reset _)
  · exact steady_pure _

theorem steady_replace (p : Path) (i : Index) : Steady (Beside Recounted) (replace p i).result :=
  steady_bind steady_value fun _ =>
    steady_bind (steady_onDisk _ (Operation.steady_lift (steady_sizeAt p))) fun _ =>
    steady_bind (steady_onKeys RecordFile.steady_truncate) fun _ =>
    steady_bind (steady_onData RecordFile.steady_close) fun _ =>
    steady_bind (steady_onDisk _ (Operation.steady_lift (steady_rename _ _))) fun _ =>
    steady_bind (steady_onDisk _ (RecordFile.steady_openAt _)) fun _ =>
    steady_bind (steady_change _) fun _ => steady_saveKeys

theorem steady_installDraft (dr : Draft) : Steady (Beside Recounted) (installDraft dr).result := by
  refine steady_bind steady_value fun _ => steady_attempt_bind
    (steady_onDisk _ (steady_startingWith RecordFile.steady_close _)) (fun _ => ?_)
    fun _ => steady_bind (steady_onDisk _ (Draft.steady_abandon _)) fun _ => steady_throw _
  exact steady_attempt_bind (steady_replace _ _) (fun _ => steady_pure ())
    fun _ => steady_bind steady_reset fun _ => steady_throw _

theorem steady_compactAtOnce (p : Path) : Steady (Beside Recounted) (compactAtOnce p).result :=
  steady_bind (steady_onDisk _ (Draft.steady_begin p)) fun dr =>
    steady_bind steady_value fun s => steady_attempt_bind
      (steady_onDisk _ (dr.steady_copyAll s _)) steady_installDraft
      fun _ => steady_bind (steady_onDisk _ dr.steady_abandon) fun _ => steady_throw _

end Store

/-! ### Passes -/

namespace Pass

variable {arrange : List Key → List Key}

theorem steady_held_pure (a : α) :
    Steady (Beside Recounted) (pure a : Held α).run := fun _ _ h => ⟨rfl, h⟩

theorem steady_held_bind {x : Held α} {f : α → Held β} (hx : Steady (Beside Recounted) x.run)
    (hf : ∀ a, Steady (Beside Recounted) (f a).run) :
    Steady (Beside Recounted) (x >>= f).run := by
  intro p p' h
  obtain ⟨ha, hp⟩ := hx p p' h
  unfold Paired
  rw [run_bind, run_bind, ha]
  exact hf _ _ _ hp

theorem steady_store : Steady (Beside Recounted) store.run := fun _ _ h => ⟨h.2, h⟩

theorem steady_setStore (s : Store) : Steady (Beside Recounted) (setStore s).run :=
  fun _ _ h => ⟨rfl, h.1, rfl⟩

theorem steady_outcome {x : Store.Change α} (hx : Steady (Beside Recounted) x.result) :
    Steady (Beside Recounted) (outcome x).run := hx

theorem steady_abandon (dr : Draft) : Steady (Beside Recounted) (abandon dr).run :=
  fun p p' h => ⟨rfl, (steady_onDisk id dr.steady_abandon p p' h).2⟩

theorem steady_start (p : Path) : Steady (Beside Recounted) (start p).run := by
  refine steady_held_bind steady_store fun _ => steady_held_bind (steady_setStore _) fun _ =>
    steady_held_bind (steady_outcome (steady_onDisk _ (Draft.steady_begin p))) fun r => ?_
  cases r <;> exact steady_held_pure _

theorem steady_copyOne (k : Key) (w : Work) : Steady (Beside Recounted) (copyOne k w).run := by
  refine steady_held_bind steady_store fun s =>
    steady_held_bind (steady_outcome (steady_onDisk _ (w.draft.steady_copy s k))) fun r => ?_
  cases r <;> exact steady_held_pure _

theorem steady_finish (w : Work) : Steady (Beside Recounted) (finish arrange w).run := by
  refine steady_held_bind steady_store fun s => steady_held_bind (steady_setStore _) fun _ =>
    steady_held_bind steady_store fun s => steady_held_bind
      (steady_outcome (steady_onDisk _ (w.draft.steady_copyAll s _))) fun r => ?_
  rcases r with e | draft
  · exact steady_held_bind (steady_abandon _) fun _ => steady_held_pure _
  · refine steady_held_bind (steady_outcome (Store.steady_installDraft draft)) fun r => ?_
    cases r <;> exact steady_held_pure _

theorem steady_work (w : Work) : Steady (Beside Recounted) (work arrange w).run := by
  unfold work
  split
  · exact steady_copyOne _ _
  · refine steady_held_bind steady_store fun s => ?_
    split
    · exact steady_held_pure _
    · exact steady_held_bind (steady_setStore _) fun _ => steady_copyOne _ _
  · exact steady_finish w

theorem steady_hold (p : Path) (alive : Bool) (pass : Pass) :
    Steady (Beside Recounted) (pass.hold arrange p alive).run := by
  unfold hold
  split
  · split
    · exact steady_start p
    · exact steady_held_pure _
  · refine steady_held_bind steady_store fun s => ?_
    split
    · exact steady_work _
    · exact steady_held_bind (steady_abandon _) fun _ => steady_held_pure _
  · refine steady_held_bind steady_store fun s => steady_held_bind (steady_setStore _) fun _ => ?_
    split
    · exact steady_held_bind (steady_held_pure ()) fun _ => steady_held_pure _
    · exact steady_held_bind (steady_abandon _) fun _ => steady_held_pure _

end Pass

/-! ### Regions -/

namespace Region

variable {c : Config} {arrange : List Key → List Key} {p p' q : World} {events : List Event}

theorem steady_onStore {x : Store.Change α} (hx : Steady (Beside Recounted) x.result) :
    Steady (Beside Recounted) (onStore x).result := steady_onPart _ _ _ hx

theorem steady_region_change (f : Region → α × Region) :
    Steady (Beside Recounted) (Region.change f).result :=
  steady_bind steady_value fun _ => steady_bind (steady_change _) fun _ => steady_pure _

theorem steady_requireAlive : Steady (Beside Recounted) requireAlive.result := by
  refine steady_bind steady_value fun r => ?_
  split
  · exact steady_pure ()
  · exact steady_throw _

theorem steady_put (e : Element) : Steady (Beside Recounted) (put e).result := by
  refine steady_bind steady_requireAlive fun _ =>
    steady_bind (steady_onStore (Store.steady_write _ _)) fun reused => ?_
  split
  · exact steady_change _
  · exact steady_pure ()

theorem steady_reset : Steady (Beside Recounted) Region.reset.result :=
  steady_bind steady_requireAlive fun _ => steady_onStore Store.steady_reset

theorem steady_lookup (k : Key) : Steady (Beside Recounted) (lookup k).result := by
  refine steady_bind steady_value fun r => ?_
  split
  · refine steady_attempt_bind (steady_onDisk _ (r.store.steady_read k)) (fun found => ?_)
      fun _ => steady_bind (steady_change _) fun _ => steady_throw _
    cases found <;> exact steady_bind (steady_change _) fun _ => steady_pure _
  · exact steady_pure none

theorem steady_get (k : Key) : Steady (Beside Recounted) (Region.get k).result :=
  steady_attempt_bind (steady_lookup k) (fun _ => steady_pure _)
    fun _ => steady_bind (steady_regardless steady_reset) fun _ => steady_throw _

theorem steady_saveKeys : Steady (Beside Recounted) Region.saveKeys.result :=
  steady_bind steady_requireAlive fun _ => steady_onStore Store.steady_saveKeys

theorem steady_perform (call : Call α) : Steady (Beside Recounted) call.perform.result := by
  cases call with
  | put e => exact steady_put e
  | get k => exact steady_get k
  | groupKeys g => exact steady_map _ steady_value
  | remove k => exact steady_region_change _
  | removeGroup g => exact steady_region_change _
  | reset => exact steady_reset
  | saveKeys => exact steady_saveKeys
  | size => exact steady_map _ steady_value
  | stats => exact steady_map _ steady_value
  | requestCompaction => exact steady_region_change _

theorem steady_holdPass : Steady (Beside Recounted) (holdPass arrange).run := by
  rintro ⟨d, r⟩ ⟨d', r'⟩ ⟨hd, hr⟩
  obtain rfl : r = r' := hr.symm
  unfold Paired
  cases hpass : r.pass with
  | none =>
    rw [holdPass_none arrange hpass, holdPass_none arrange hpass]
    exact ⟨rfl, hd, rfl⟩
  | some pass =>
    have hsteady : Steady (Beside Recounted) (pass.hold arrange r.config.draftFile r.alive).run :=
      Pass.steady_hold r.config.draftFile r.alive pass
    obtain ⟨hprogress, hd', hstore⟩ := hsteady (d, r.store) (d', r.store) ⟨hd, rfl⟩
    rcases hrun : (pass.hold arrange r.config.draftFile r.alive).run (d, r.store) with
      ⟨progress, e, s⟩
    rcases hrun' : (pass.hold arrange r.config.draftFile r.alive).run (d', r.store) with
      ⟨progress', e', s'⟩
    rw [hrun, hrun'] at hprogress hd' hstore
    obtain rfl : progress = progress' := hprogress.symm
    obtain rfl : s = s' := hstore.symm
    rcases progress with pass' | installed
    · rw [holdPass_next hpass hrun, holdPass_next hpass hrun']
      exact ⟨rfl, hd', rfl⟩
    · rw [holdPass_over hpass hrun, holdPass_over hpass hrun']
      exact ⟨rfl, hd', rfl⟩

theorem steady_compactForGood : Steady (Beside Recounted) compactForGood.result := by
  refine steady_bind steady_value fun r => ?_
  split
  · exact steady_bind (steady_change _) fun _ =>
      steady_attempt_bind (steady_onStore (Store.steady_compactAtOnce _))
        (fun _ => steady_bind (steady_change _) fun _ => steady_pure true)
        fun _ => steady_bind (steady_change _) fun _ => steady_pure false
  · exact steady_pure false

theorem steady_shutDown : Steady (Beside Recounted) shutDown.result := by
  refine steady_bind steady_value fun r => ?_
  split
  · exact steady_pure ()
  · have hclose : Steady (Beside Recounted) (do
        let outcome ← (onStore Store.close).attempt
        FileAction.change fun r => { r with alive := false }
        outcome : Region.Change Unit).result :=
      steady_bind (steady_attempt (steady_onStore Store.steady_close)) fun outcome =>
        steady_bind (steady_change _) fun _ => steady_liftM outcome
    refine steady_bind (steady_change _) fun _ => steady_bind steady_compactForGood fun done => ?_
    split
    · exact steady_bind (steady_regardless (steady_onStore Store.steady_saveKeys)) fun _ => hclose
    · exact hclose

theorem steady_openAt (c : Config) : Steady Recounted (Region.openAt c).result :=
  steady_bind (steady_liftM _) fun _ =>
    steady_bind (steady_failingAs _ (Operation.steady_lift (steady_createDirectories _))) fun _ =>
    steady_bind (steady_failingAs _ (Operation.steady_lift (steady_unlinkIfPresent _))) fun _ =>
    steady_bind (Store.steady_openAt c) fun _ => steady_pure _

/-! ### Events and runs -/

theorem Step.recount {event : Event} (h : Step p event q) (hp : Beside Recounted p p') :
    ∃ q', Step p' event q' ∧ Beside Recounted q q' := by
  cases h with
  | called call p =>
    obtain ⟨hanswer, hq⟩ := steady_perform call p p' hp
    exact ⟨_, hanswer ▸ .called call p', hq⟩
  | looked k p =>
    obtain ⟨hanswer, hq⟩ := steady_lookup k p p' hp
    exact ⟨_, hanswer ▸ .looked k p', hq⟩
  | held harrange p =>
    obtain ⟨-, hq⟩ := steady_holdPass p p' hp
    have hcount : p'.2.compactions = p.2.compactions := by rw [hp.2]
    rw [← hcount, ← hq.2]
    exact ⟨_, .held harrange p', hq⟩
  | died d r =>
    obtain ⟨hd, hr⟩ := hp
    exact ⟨_, .died p'.1 p'.2, hd, by rw [hr]⟩
  | shutDown p => exact ⟨_, .shutDown p', (steady_shutDown p p' hp).2⟩
  | @reopened d e r r' c hname hpath hopen =>
    obtain ⟨d', r₁⟩ := p'
    obtain ⟨hd, hr⟩ := hp
    obtain rfl : r = r₁ := hr.symm
    obtain ⟨e', hopen', he⟩ := (steady_openAt c).exists_result hd hopen
    exact ⟨(e', r'), .reopened hname hpath hopen', he, rfl⟩

theorem Vain.recount {d d' e : FileSystem} (h : Vain c d d') (hd : Recounted d e) :
    ∃ e', Vain c e e' ∧ Recounted d' e' := by
  induction h with
  | nil => exact ⟨e, .nil e, hd⟩
  | @snoc d' d'' c' error h hname hpath hfail ih =>
    obtain ⟨e', hvain, he'⟩ := ih
    obtain ⟨e'', hfail', he''⟩ := (steady_openAt c').exists_result he' hfail
    exact ⟨e'', hvain.snoc hname hpath hfail', he''⟩

theorem Trial.recount {event : Event} (h : Trial p event q) (hp : Beside Recounted p p') :
    ∃ q', Trial p' event q' ∧ Beside Recounted q q' := by
  cases h with
  | step hs =>
    obtain ⟨q', hs', hq⟩ := hs.recount hp
    exact ⟨q', .step hs', hq⟩
  | @retried d e f r r' c hvain hname hpath hopen =>
    obtain ⟨d', r₁⟩ := p'
    obtain ⟨hd, hr⟩ := hp
    obtain rfl : r = r₁ := hr.symm
    obtain ⟨e', hvain', he'⟩ := hvain.recount hd
    obtain ⟨f', hopen', hf⟩ := (steady_openAt c).exists_result he' hopen
    exact ⟨(f', r'), .retried hvain' hname hpath hopen', hf, rfl⟩

/-- A run is possible wherever the files and the failures to come are the same. -/
theorem Run.recount (hr : Run Trial p events q) (hp : Beside Recounted p p') :
    ∃ q', Run Trial p' events q' ∧ Beside Recounted q q' := by
  induction hr with
  | nil => exact ⟨p', .nil p', hp⟩
  | snoc hr he ih =>
    obtain ⟨q₁, hr', hq₁⟩ := ih
    obtain ⟨q', he', hq'⟩ := he.recount hq₁
    exact ⟨q', hr'.snoc he', hq'⟩

end Region

end DiskTier
