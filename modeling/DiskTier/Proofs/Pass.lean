import DiskTier.Compaction.Pass
import DiskTier.Proofs.Opening

/-!
# What a compaction pass does

Between two holds of the lock a running pass is behind the store only for keys that it has yet to
copy: those that are left of its list, and those that the store has collected since. `Pass.Follows`
says so, and every hold keeps it. The last hold copies what was collected, so that the draft is
fresh for all keys, and therefore installing it changes no record.
-/

namespace DiskTier.Pass

open FileSystem

variable {α β : Type} {c : Config} {d d' : FileSystem} {s s' : Store} {data : Bytes}
  {H H' : List Element} {listed : List (Key × Slot)} {w : Work} {arrange : List Key → List Key}

/-! ### Holds -/

theorem run_bind (x : Held α) (f : α → Held β) (p : FileSystem × Store) :
    (x >>= f).run p = (f (x.run p).1).run (x.run p).2 := rfl

theorem run_outcome (x : Store.Change α) (p : FileSystem × Store) :
    (outcome x).run p = x.result p := rfl

@[simp] theorem run_store (p : FileSystem × Store) : store.run p = (p.2, p) := rfl

@[simp] theorem run_setStore (s : Store) (p : FileSystem × Store) :
    (setStore s).run p = ((), (p.1, s)) := rfl

@[simp] theorem run_pure (a : α) (p : FileSystem × Store) : (pure a : Held α).run p = (a, p) := rfl

theorem run_abandon (dr : Draft) (d : FileSystem) (s : Store) :
    (abandon dr).run (d, s) = ((), ((dr.abandon.result d).2, s)) := rfl

theorem run_onDisk (x : Action FileSystem Error α) (d : FileSystem) (s : Store) :
    (outcome (FileAction.onDisk id x)).run (d, s) = ((x.result d).1, ((x.result d).2, s)) := by
  rw [run_outcome, FileAction.result_onDisk]
  rcases x.result d with ⟨(e | a), d'⟩ <;> rfl

/-! ### What is collected -/

/-- To end the collecting changes nothing else. -/
theorem stopCollecting_eq (generation : Nat) (s : Store) :
    ∃ pending, s.stopCollecting generation = { s with pending } := by
  unfold Store.stopCollecting
  split
  · exact ⟨none, rfl⟩
  · exact ⟨s.pending, rfl⟩

/-- The first collected key is taken out, and nothing else changes. -/
theorem takePending_eq {k : Key} (h : s.takePending = some (k, s')) :
    ∃ ks, s.pending = some (k :: ks) ∧ s' = { s with pending := some ks } := by
  unfold Store.takePending at h
  split at h
  · next hp =>
    cases h
    exact ⟨_, hp, rfl⟩
  · cases h

/-! ### What a hold does -/

/-- The first hold lists the keys, and begins a draft. -/
theorem run_start (draftFile : Path) (d : FileSystem) (s : Store) :
    (start draftFile).run (d, s) = match (Draft.begin draftFile).result d with
      | (.ok dr, d') => (.next (.running ⟨s.generation, dr, s.index.keys, s.index.keys.length⟩),
          (d', { s with pending := some [] }))
      | (.error _, d') =>
          (.next (.stopping s.generation none), (d', { s with pending := some [] })) := by
  rw [start, run_bind, run_store]
  simp only
  rw [run_bind, run_setStore]
  simp only
  rw [run_bind, run_onDisk]
  rcases (Draft.begin draftFile).result d with ⟨e | dr, d'⟩ <;> rfl

/-- A hold that copies a key adds to the draft, or ends the pass. -/
theorem run_copyOne (k : Key) (w : Work) (d : FileSystem) (s : Store) :
    (copyOne k w).run (d, s) = match (w.draft.copy s k).result d with
      | (.ok dr, d') => (.next (.running { w with draft := dr }), (d', s))
      | (.error _, d') => (.next (.stopping w.generation (some w.draft)), (d', s)) := by
  rw [copyOne, run_bind, run_store]
  simp only
  rw [run_bind, run_onDisk]
  rcases (w.draft.copy s k).result d with ⟨e | dr, d'⟩ <;> rfl

/-- The last hold copies what is left, and installs the draft. -/
theorem run_finish (arrange : List Key → List Key) (w : Work) (d : FileSystem) (s : Store) :
    (finish arrange w).run (d, s) =
      match (w.draft.copyAll { s with pending := none }
          (arrange (s.pending.getD []).eraseDups)).result d with
      | (.ok dr, d') =>
          let installed := (Store.installDraft dr).result (d', { s with pending := none })
          (.over installed.1.isOk, installed.2)
      | (.error _, d') =>
          (.over false, ((w.draft.abandon.result d').2, { s with pending := none })) := by
  rw [finish, run_bind, run_store]
  simp only
  rw [run_bind, run_setStore]
  simp only
  rw [run_bind, run_store]
  simp only
  rw [run_bind, run_onDisk]
  rcases (w.draft.copyAll { s with pending := none }
    (arrange (s.pending.getD []).eraseDups)).result d with ⟨e | dr, d'⟩
  · rfl
  · simp only
    rw [run_bind, run_outcome]
    rcases (Store.installDraft dr).result (d', { s with pending := none }) with ⟨e | u, q⟩ <;> rfl

/-- A hold of a running pass copies the next of the listed keys, or a collected one, or finds none
collected, or it is the last one. -/
theorem run_work (arrange : List Key → List Key) (w : Work) (d : FileSystem) (s : Store) :
    (∃ k ks, w.todo = k :: ks ∧
        (work arrange w).run (d, s) = (copyOne k { w with todo := ks }).run (d, s)) ∨
      (∃ n k ks, w.todo = [] ∧ w.tries = n + 1 ∧ s.pending = some (k :: ks) ∧
        (work arrange w).run (d, s) =
          (copyOne k { w with todo := [], tries := n }).run (d, { s with pending := some ks })) ∨
      (∃ n, w.todo = [] ∧ w.tries = n + 1 ∧ s.takePending = none ∧
        (work arrange w).run (d, s) =
          (.next (.running { w with todo := [], tries := 0 }), (d, s))) ∨
      w.todo = [] ∧ w.tries = 0 ∧ (work arrange w).run (d, s) = (finish arrange w).run (d, s) := by
  obtain ⟨generation, draft, todo, tries⟩ := w
  cases todo with
  | cons k ks => exact .inl ⟨k, ks, rfl, rfl⟩
  | nil =>
    cases tries with
    | zero => exact .inr (.inr (.inr ⟨rfl, rfl, rfl⟩))
    | succ n =>
      cases htake : s.takePending with
      | none =>
        refine .inr (.inr (.inl ⟨n, rfl, rfl, rfl, ?_⟩))
        rw [work]
        simp only
        rw [run_bind, run_store]
        simp only
        rw [htake]
        rfl
      | some taken =>
        obtain ⟨k, s'⟩ := taken
        obtain ⟨ks, hks, rfl⟩ := takePending_eq htake
        refine .inr (.inl ⟨n, k, ks, rfl, rfl, hks, ?_⟩)
        rw [work]
        simp only
        rw [run_bind, run_store]
        simp only
        rw [htake]
        rfl

/-! ### What holds between two holds -/

/-- What a pass has reached. Of a pass from before a reset only the place of its draft matters. -/
def Follows (H : List Element) (c : Config) (d : FileSystem) (s : Store) (data : Bytes) :
    Pass → Prop
  | .requested => True
  | .running w => w.generation ≤ s.generation ∧ w.draft.file.path = c.draftFile ∧
      (w.generation = s.generation → ∃ bytes, Draft.Filled H c d w.draft bytes ∧
        ∃ collected, s.pending = some collected ∧ ∀ k, k ∉ w.todo → k ∉ collected →
          Draft.Fresh (s.index.records data) (w.draft.index.records bytes) k)
  | .stopping _ draft => ∀ dr ∈ draft, dr.file.path = c.draftFile

theorem Follows.mono {pass : Pass} (h : Follows H c d s data pass) (hsub : H ⊆ H') :
    Follows H' c d s data pass := by
  cases pass with
  | requested => trivial
  | running w =>
    obtain ⟨hgen, hpath, hcurrent⟩ := h
    refine ⟨hgen, hpath, fun hw => ?_⟩
    obtain ⟨bytes, hf, hfresh⟩ := hcurrent hw
    exact ⟨bytes, hf.mono hsub, hfresh⟩
  | stopping g draft => exact h

/-- The store was reset, or has new records only for keys that it has collected meanwhile. -/
def Advances (s : Store) (data : Bytes) (s' : Store) (data' : Bytes) : Prop :=
  s.generation < s'.generation ∨ s'.generation = s.generation ∧
    ∀ collected, s.pending = some collected → ∃ more, s'.pending = some (collected ++ more) ∧
      ∀ k, k ∉ more → ∀ record, Assoc.find? (s'.index.records data') k = some record →
        Assoc.find? (s.index.records data) k = some record

/-- A pass is not disturbed by what the store does meanwhile. -/
theorem Follows.frame {pass : Pass} {data' : Bytes} (h : Follows H c d s data pass)
    (hd : Spared c.draftName d d') (ha : Advances s data s' data') :
    Follows H c d' s' data' pass := by
  cases pass with
  | requested => trivial
  | stopping g draft => exact h
  | running w =>
    obtain ⟨hgen, hpath, hcurrent⟩ := h
    rcases ha with hlt | ⟨heq, hmore⟩
    · refine ⟨by omega, hpath, fun hw => ?_⟩
      omega
    · refine ⟨heq ▸ hgen, hpath, fun hw => ?_⟩
      obtain ⟨bytes, hf, collected, hpending, hfresh⟩ := hcurrent (hw.trans heq)
      obtain ⟨more, hpending', hold⟩ := hmore collected hpending
      refine ⟨bytes, hf.frame hd, collected ++ more, hpending', fun k htodo hk record hrecord => ?_⟩
      rw [List.mem_append, not_or] at hk
      exact hfresh k htodo hk.1 record (hold k hk.2 record hrecord)

/-! ### The stages -/

/-- What a hold of a pass leads to. Unless the draft is installed, the store and its files stay as
they are, or are reset. -/
structure Led (H : List Element) (c : Config) (s : Store) (data : Bytes)
    (listed : List (Key × Slot)) (progress : Progress) (d' : FileSystem) (s' : Store)
    (data' : Bytes) (listed' : List (Key × Slot)) : Prop where
  intact : s'.Intact c H d' data' listed'
  isOpen : s.IsOpen → s'.IsOpen
  generation : s.generation ≤ s'.generation
  /-- A draft that is installed has the same records, and the key file lists its index. -/
  installed : progress = .over true → s'.generation = s.generation ∧
    (s'.index.records data').Perm (s.index.records data) ∧ listed' = s'.index.toList
  kept : progress ≠ .over true → s'.generation = s.generation →
    s'.index = s.index ∧ data' = data ∧ listed' = listed
  follows : ∀ pass, progress = .next pass → Follows H c d' s' data' pass

/-- A hold that leaves the records of the store alone. -/
theorem Led.of_same {progress : Progress} (h : s.Intact c H d data listed)
    (hd : Local c.draftName d d') (hdata : s'.dataFile = s.dataFile) (hkey : s'.keyFile = s.keyFile)
    (hi : s'.index = s.index) (hf : s'.free = s.free) (hg : s'.generation = s.generation)
    (hp : ∀ pass, progress = .next pass → Follows H c d' s' data pass)
    (hne : progress ≠ .over true) :
    Led H c s data listed progress d' s' data listed where
  intact := ⟨(h.mounted.frame hd).congr hdata hkey, h.sound.congr hi hf, hi ▸ h.capacity,
    hf ▸ h.freeCapacity⟩
  isOpen ho := by
    unfold Store.IsOpen
    rw [hdata, hkey]
    exact ho
  generation := Nat.le_of_eq hg.symm
  installed heq := absurd heq hne
  kept _ _ := ⟨hi, rfl, rfl⟩
  follows := hp

/-- The first hold lists the keys. -/
theorem start_spec (hc : c.Valid) (h : s.Intact c H d data listed) :
    ∃ progress d' s' data' listed', (start c.draftFile).run (d, s) = (progress, (d', s')) ∧
      Led H c s data listed progress d' s' data' listed' := by
  rw [run_start]
  rcases Draft.begin_cases hc h.mounted.healthy with ⟨d', dr, hr, hl, hf, hlist⟩ | ⟨e, d', hr, ha⟩
  · rw [hr]
    refine ⟨_, d', _, data, listed, rfl, Led.of_same h hl rfl rfl rfl rfl rfl ?_ (by simp)⟩
    rintro pass ⟨⟩
    refine ⟨Nat.le_refl _, hf.path, fun _ => ⟨[], hf, [], rfl, fun k hk _ record hrecord => ?_⟩⟩
    -- a key that is not listed has no record
    rw [h.sound.coherent.find?_records, Option.map_eq_some_iff] at hrecord
    obtain ⟨slot, hslot, -⟩ := hrecord
    exact absurd (h.sound.coherent.mem_keys_iff.2 (by rw [hslot]; rfl)) hk
  · rw [hr]
    refine ⟨_, d', _, data, listed, rfl,
      Led.of_same h (ha.toLocal _) rfl rfl rfl rfl rfl ?_ (by simp)⟩
    rintro pass ⟨⟩ dr hdr
    cases hdr

/-- A hold that copies the record of a key. -/
theorem copyOne_spec {k : Key} {bytes : Bytes} {collected : List Key}
    (h : s.Intact c H d data listed) (ho : s.IsOpen) (hf : Draft.Filled H c d w.draft bytes)
    (hgen : w.generation = s.generation) (hp : s.pending = some collected)
    (hfresh : ∀ k', k' ≠ k → k' ∉ w.todo → k' ∉ collected →
      Draft.Fresh (s.index.records data) (w.draft.index.records bytes) k') :
    ∃ progress d' s' data' listed', (copyOne k w).run (d, s) = (progress, (d', s')) ∧
      Led H c s data listed progress d' s' data' listed' := by
  rw [run_copyOne]
  rcases Draft.copy_cases h.mounted ho h.sound hf k with
    ⟨d', dr', bytes', hr, hl, hf', hrecords⟩ | ⟨e, d', hr, hl⟩
  · rw [hr]
    refine ⟨_, d', s, data, listed, rfl, Led.of_same h hl rfl rfl rfl rfl rfl ?_ (by simp)⟩
    rintro pass ⟨⟩
    refine ⟨Nat.le_of_eq hgen, hf'.path, fun _ => ⟨bytes', hf', collected, hp, ?_⟩⟩
    intro k' htodo hk' record hrecord
    rw [hrecords, Draft.find?_afterCopy]
    split
    · next heq => exact heq ▸ hrecord
    · next hne => exact hfresh k' hne htodo hk' record hrecord
  · rw [hr]
    refine ⟨_, d', s, data, listed, rfl, Led.of_same h hl rfl rfl rfl rfl rfl ?_ (by simp)⟩
    rintro pass ⟨⟩ dr hdr
    cases hdr
    exact hf.path

/-- The last hold copies what was collected since, in any order, and installs the draft. -/
theorem finish_spec (hc : c.Valid) (harrange : ∀ l, (arrange l).Perm l) {bytes : Bytes}
    {collected : List Key} (h : s.Intact c H d data listed) (ho : s.IsOpen)
    (hf : Draft.Filled H c d w.draft bytes) (hp : s.pending = some collected)
    (hfresh : ∀ k, k ∉ collected →
      Draft.Fresh (s.index.records data) (w.draft.index.records bytes) k) :
    ∃ progress d' s' data' listed', (finish arrange w).run (d, s) = (progress, (d', s')) ∧
      Led H c s data listed progress d' s' data' listed' := by
  rw [run_finish, hp]
  have hmem : ∀ k, k ∈ arrange ((some collected).getD []).eraseDups ↔ k ∈ collected := by
    intro k
    rw [(harrange _).mem_iff, Option.getD_some, List.mem_eraseDups]
  have hs₁ : ({ s with pending := none } : Store).Sound H data listed := h.sound.congr rfl rfl
  have hm₁ : ({ s with pending := none } : Store).Mounted c d data (Store.listing listed) :=
    h.mounted.congr rfl rfl
  rcases Draft.copyAll_cases hm₁ ho hs₁ hf (arrange ((some collected).getD []).eraseDups) with
    ⟨d₁, dr, bytes₁, hr₁, hl₁, hf₁, hrecords₁⟩ | ⟨e, d₁, hr₁, hl₁⟩
  · -- the draft is now up to date for all keys
    have hall : ∀ k, Draft.Fresh (s.index.records data) (dr.index.records bytes₁) k := by
      intro k
      rw [hrecords₁]
      apply Draft.fresh_of_copies
      by_cases hk : k ∈ collected
      · exact .inl ((hmem k).2 hk)
      · exact .inr (hfresh k hk)
    obtain ⟨r, d₂, s₂, data₂, listed₂, hr₂, hm₂, ho₂, hs₂, hcap, hfreeCap, hcases⟩ :=
      Store.installDraft_spec (hm₁.frame hl₁) ho hf₁
    have hintact : s₂.Intact c H d₂ data₂ listed₂ :=
      ⟨hm₂, hs₂, hcap.trans h.capacity, hfreeCap.trans h.freeCapacity⟩
    rw [hr₁]
    simp only
    rw [hr₂]
    rcases hcases with ⟨rfl, rfl, hindex, hgen, -, hlisted⟩ | ⟨⟨e, rfl⟩, hgen⟩
    · refine ⟨_, d₂, s₂, data₂, listed₂, rfl, hintact, fun _ => ho₂, Nat.le_of_eq hgen.symm,
        fun _ => ⟨hgen, ?_, hlisted⟩, fun hne => absurd rfl hne, by simp⟩
      rw [hindex]
      exact hf₁.records_indexFor hs₁ hall
    · -- the store was reset
      have hgen' : s₂.generation ≠ s.generation := by
        rw [hgen]
        exact Nat.succ_ne_self _
      exact ⟨.over false, d₂, s₂, data₂, listed₂, rfl, hintact, fun _ => ho₂, hgen ▸ Nat.le_succ _,
        by simp, fun _ heq => absurd heq hgen', by simp⟩
  · rw [hr₁]
    exact ⟨_, _, _, data, listed, rfl, Led.of_same h
      (hl₁.trans (Draft.abandon_local hc hl₁.healthy hf.path)) rfl rfl rfl rfl rfl (by simp)
      (by simp)⟩

/-- Each hold of a running pass keeps the pass behind the store only for keys that it has yet to
copy. -/
theorem work_spec (hc : c.Valid) (harrange : ∀ l, (arrange l).Perm l)
    (h : s.Intact c H d data listed) (ho : s.IsOpen) (hgen : w.generation = s.generation)
    (hw : Follows H c d s data (.running w)) :
    ∃ progress d' s' data' listed', (work arrange w).run (d, s) = (progress, (d', s')) ∧
      Led H c s data listed progress d' s' data' listed' := by
  obtain ⟨-, -, hcurrent⟩ := hw
  obtain ⟨bytes, hf, collected, hp, hfresh⟩ := hcurrent hgen
  rcases run_work arrange w d s with ⟨k, ks, htodo, hr⟩ | ⟨n, k, ks, htodo, -, hks, hr⟩ |
    ⟨n, htodo, -, -, hr⟩ | ⟨htodo, -, hr⟩ <;> rw [htodo] at hfresh <;> rw [hr]
  · refine copyOne_spec (w := { w with todo := ks }) h ho hf hgen hp fun k' hne hk hk' => ?_
    exact hfresh k' (by simp [hne, hk]) hk'
  · -- the first collected key is taken out, and copied
    cases hp.symm.trans hks
    have h₁ : ({ s with pending := some ks } : Store).Intact c H d data listed :=
      ⟨h.mounted.congr rfl rfl, h.sound.congr rfl rfl, h.capacity, h.freeCapacity⟩
    obtain ⟨progress, d', s', data', listed', hr', hled⟩ := copyOne_spec (k := k)
      (w := { w with todo := [], tries := n }) h₁ ho hf hgen rfl fun k' hne _ hk' =>
        hfresh k' List.not_mem_nil (by simp [hne, hk'])
    exact ⟨progress, d', s', data', listed', hr', hled.intact, hled.isOpen, hled.generation,
      hled.installed, hled.kept, hled.follows⟩
  · refine ⟨_, d, s, data, listed, rfl, Led.of_same h (h.mounted.healthy.alike_refl.toLocal _)
      rfl rfl rfl rfl rfl ?_ (by simp)⟩
    rintro pass ⟨⟩
    refine ⟨Nat.le_of_eq hgen, hf.path, fun _ => ⟨bytes, hf, collected, hp, fun k _ hk => ?_⟩⟩
    exact hfresh k List.not_mem_nil hk
  · exact finish_spec hc harrange h ho hf hp fun k hk => hfresh k List.not_mem_nil hk

/-- Every hold of a pass leaves the store in order. -/
theorem hold_spec (hc : c.Valid) (harrange : ∀ l, (arrange l).Perm l)
    (h : s.Intact c H d data listed) {alive : Bool} (ho : alive → s.IsOpen) {pass : Pass}
    (hpass : Follows H c d s data pass) :
    ∃ progress d' s' data' listed',
      (pass.hold arrange c.draftFile alive).run (d, s) = (progress, (d', s')) ∧
      Led H c s data listed progress d' s' data' listed' := by
  have hgiveUp : ∀ (s' : Store) (dr : Draft), s'.dataFile = s.dataFile → s'.keyFile = s.keyFile →
      s'.index = s.index → s'.free = s.free → s'.generation = s.generation →
      dr.file.path = c.draftFile →
      ∃ progress d' s'' data' listed', (abandon dr >>= fun _ => pure (.over false)).run (d, s') =
        (progress, (d', s'')) ∧ Led H c s data listed progress d' s'' data' listed' := by
    intro s' dr hdata hkey hi hf hg hpath
    exact ⟨_, _, s', data, listed, rfl,
      Led.of_same h (Draft.abandon_local hc h.mounted.healthy hpath) hdata hkey hi hf hg (by simp)
        (by simp)⟩
  have hstay : Local c.draftName d d := h.mounted.healthy.alike_refl.toLocal _
  cases pass with
  | requested =>
    rw [hold]
    split
    · exact start_spec hc h
    · exact ⟨_, d, s, data, listed, rfl,
        Led.of_same h hstay rfl rfl rfl rfl rfl (by simp) (by simp)⟩
  | running w =>
    rw [hold, run_bind, run_store]
    simp only
    split
    · next hcond =>
      rw [Bool.and_eq_true, beq_iff_eq] at hcond
      exact work_spec hc harrange h (ho hcond.1) hcond.2.symm hpass
    · obtain ⟨-, hpath, -⟩ := hpass
      exact hgiveUp s w.draft rfl rfl rfl rfl rfl hpath
  | stopping g draft =>
    obtain ⟨pending, hs⟩ := stopCollecting_eq g s
    rw [hold, run_bind, run_store]
    simp only
    rw [run_bind, run_setStore, hs]
    cases draft with
    | none =>
      exact ⟨_, d, _, data, listed, rfl,
        Led.of_same h hstay rfl rfl rfl rfl rfl (by simp) (by simp)⟩
    | some dr => exact hgiveUp _ dr rfl rfl rfl rfl rfl (hpass dr rfl)

end DiskTier.Pass
