import DiskTier.Proofs.Run

/-!
# The order of eviction across a compaction

The keys of an index stand in the order in which they were put last, and the first is the next to be
evicted. A pass copies the listed keys in that order and then the collected ones as they came, so
that at any time, if it went on like this to the end, its draft would have the order of the store:
`Pass.Keeps`. But the last hold visits the keys that are left in any order, each once. So an
installed draft may have them in another order among themselves, though still behind all others.
-/

namespace DiskTier

open FileSystem

/-! ### Keys in the order of their last insertion -/

section Lists

variable {α : Type} [DecidableEq α] {keys keys' more : List α}

/-- A key becomes the last. -/
def touch (keys : List α) (k : α) : List α := keys.filter (· ≠ k) ++ [k]

/-- Keys become the last, one after the other. -/
def touchAll (keys more : List α) : List α := more.foldl touch keys

theorem touchAll_append (keys more more' : List α) :
    touchAll keys (more ++ more') = touchAll (touchAll keys more) more' :=
  List.foldl_append

/-- The keys that were touched stand behind the others, in the order in which each was touched
last. -/
theorem touchAll_eq (keys more : List α) :
    touchAll keys more = keys.filter (· ∉ more) ++ more.dedup := by
  induction more generalizing keys with
  | nil => simp [touchAll]
  | cons k more ih =>
    have hstep : touchAll keys (k :: more) = touchAll (touch keys k) more := rfl
    rw [hstep, ih, touch, List.filter_append, List.filter_filter, List.append_assoc]
    congr 1
    · refine List.filter_congr fun a _ => ?_
      simp [Bool.and_comm]
    · by_cases hk : k ∈ more
      · simp [hk]
      · simp [hk]

theorem mem_touchAll {a : α} : a ∈ touchAll keys more ↔ a ∈ keys ∨ a ∈ more := by
  rw [touchAll_eq, List.mem_append, List.mem_filter, List.mem_dedup, decide_eq_true_eq]
  tauto

theorem nodup_touchAll (h : keys.Nodup) (more : List α) : (touchAll keys more).Nodup := by
  rw [touchAll_eq]
  refine (h.sublist List.filter_sublist).append more.nodup_dedup ?_
  intro a ha hmem
  rw [List.mem_filter, decide_eq_true_eq] at ha
  exact ha.2 (List.mem_dedup.1 hmem)

theorem touchAll_sublist (h : keys'.Sublist keys) (more : List α) :
    (touchAll keys' more).Sublist (touchAll keys more) := by
  rw [touchAll_eq, touchAll_eq]
  exact (h.filter _).append (List.Sublist.refl _)

theorem filter_touch (p : α → Bool) (keys : List α) (k : α) :
    (touch keys k).filter p = if p k then touch (keys.filter p) k else keys.filter p := by
  have hcomm : (keys.filter (· ≠ k)).filter p = (keys.filter p).filter (· ≠ k) := by
    rw [List.filter_filter, List.filter_filter]
    exact List.filter_congr fun a _ => Bool.and_comm _ _
  rw [touch, List.filter_append, hcomm]
  cases hk : p k with
  | true => simp [touch, hk]
  | false =>
    have hall : ∀ a ∈ keys.filter p, decide (a ≠ k) = true := by
      intro a ha
      rw [decide_eq_true_eq]
      rintro rfl
      rw [List.mem_filter, hk] at ha
      cases ha.2
    rw [List.filter_eq_self.2 hall]
    simp [hk]

/-- Whether keys are left out before or after does not matter. -/
theorem filter_touchAll (p : α → Bool) (keys more : List α) :
    (touchAll keys more).filter p = touchAll (keys.filter p) (more.filter p) := by
  induction more generalizing keys with
  | nil => rfl
  | cons k more ih =>
    show (touchAll (touch keys k) more).filter p = _
    rw [ih, filter_touch]
    by_cases hk : p k
    · rw [if_pos hk, List.filter_cons_of_pos hk]
      rfl
    · rw [if_neg hk, List.filter_cons_of_neg hk]

/-- A part of a list without duplicates is told by its members. -/
theorem filter_mem_of_sublist (h : keys'.Sublist keys) (hnodup : keys.Nodup) :
    keys.filter (· ∈ keys') = keys' := by
  have hsub : keys'.Sublist (keys.filter (· ∈ keys')) := by
    have hfilter := h.filter (fun a => decide (a ∈ keys'))
    rwa [List.filter_eq_self.2 (by simp)] at hfilter
  refine (hsub.eq_of_length (List.Perm.length_eq ?_)).symm
  rw [List.perm_ext_iff_of_nodup (hnodup.sublist h) (hnodup.sublist List.filter_sublist)]
  intro a
  rw [List.mem_filter, decide_eq_true_eq]
  exact ⟨fun ha => ⟨h.subset ha, ha⟩, And.right⟩

/-- The order of some keys in another list is kept when both are touched alike and some keys go. -/
theorem order_touchAll {draft : List α} (hnodup : keys.Nodup)
    (h : keys = draft.filter (· ∈ keys)) (hsub : keys'.Sublist (touchAll keys more)) :
    keys' = (touchAll draft more).filter (· ∈ keys') := by
  have hsame : (keys.filter (· ∉ more)).filter (· ∈ keys') =
      (draft.filter (· ∉ more)).filter (· ∈ keys') := by
    conv_lhs => rw [h]
    rw [List.filter_filter, List.filter_filter, List.filter_filter]
    refine List.filter_congr fun a _ => ?_
    -- what is left and was not touched was there before
    have hold : a ∈ keys' → a ∉ more → a ∈ keys := fun ha hmore =>
      (mem_touchAll.1 (hsub.subset ha)).resolve_right hmore
    by_cases ha : a ∈ keys' <;> by_cases hmore : a ∈ more <;> simp [ha, hmore]
    exact hold ha hmore
  have hleft := filter_mem_of_sublist hsub (nodup_touchAll hnodup more)
  rw [touchAll_eq, List.filter_append, hsame, ← List.filter_append, ← touchAll_eq] at hleft
  exact hleft.symm

theorem nodup_eraseDups : ∀ l : List α, l.eraseDups.Nodup
  | [] => by simp
  | a :: l => by
    rw [List.eraseDups_cons, List.nodup_cons, List.mem_eraseDups]
    exact ⟨by simp, nodup_eraseDups _⟩
termination_by l => l.length
decreasing_by exact Nat.lt_succ_of_le (List.length_filter_le _ _)

omit [DecidableEq α] in
/-- One key alone has only one order. -/
theorem eq_of_perm_of_length_le_one (h : keys.Perm keys') (hone : keys'.length ≤ 1) :
    keys = keys' := by
  match keys' with
  | [] => exact h.eq_nil
  | [k] => exact List.perm_singleton.1 h
  | k :: k' :: rest => simp at hone

/-- Two orders of the keys that were touched last make no difference for the others. -/
theorem order_split {draft more' : List α} (h : keys = (touchAll draft more).filter (· ∈ keys))
    (hmem : ∀ a, a ∈ more' ↔ a ∈ more) :
    (touchAll draft more').filter (· ∈ keys) =
      keys.filter (· ∉ more) ++ more'.dedup.filter (· ∈ keys) := by
  have hothers : keys.filter (· ∉ more) = (draft.filter (· ∉ more)).filter (· ∈ keys) := by
    have hnone : (more.dedup.filter (· ∈ keys)).filter (· ∉ more) = [] := by
      rw [List.filter_eq_nil_iff]
      intro a ha
      simpa using (List.mem_filter.1 ha).1
    conv_lhs => rw [h, touchAll_eq, List.filter_append, List.filter_append, hnone]
    rw [List.append_nil, List.filter_filter, List.filter_filter, List.filter_filter]
    refine List.filter_congr fun a _ => ?_
    by_cases ha : a ∈ more <;> simp [ha]
  rw [touchAll_eq, List.filter_append, hothers]
  simp only [hmem]

end Lists

/-- A record that is put has its key as the last. -/
theorem map_putRecord (n : Nat) (k : Key) (record : Bytes) (records : List (Key × Bytes)) :
    (putRecord n k record records).map (·.1) = newest n (touch (records.map (·.1)) k) := by
  rw [putRecord, map_newest, List.map_append, touch, List.filter_map]
  rfl

namespace Draft

/-! ### The keys of a draft -/

/-- Of the keys that the store has, the one that is copied becomes the last of the draft. -/
theorem keys_afterCopy (live draft : List (Key × Bytes)) (k : Key) :
    ((afterCopy live draft k).map (·.1)).filter (· ∈ live.map (·.1)) =
      (touch (draft.map (·.1)) k).filter (· ∈ live.map (·.1)) := by
  have hrest : (draft.filter (·.1 ≠ k)).map (·.1) = (draft.map (·.1)).filter (· ≠ k) := by
    rw [List.filter_map]
    rfl
  rw [afterCopy, List.map_append, hrest, touch, List.filter_append, List.filter_append]
  congr 1
  cases hk : Assoc.find? live k with
  | none =>
    have hgone : k ∉ live.map (·.1) := Assoc.find?_eq_none_iff.1 hk
    rw [List.filter_singleton, decide_eq_false hgone]
    rfl
  | some record => rfl

theorem keys_copies (live draft : List (Key × Bytes)) (ks : List Key) :
    ((ks.foldl (afterCopy live) draft).map (·.1)).filter (· ∈ live.map (·.1)) =
      (touchAll (draft.map (·.1)) ks).filter (· ∈ live.map (·.1)) := by
  induction ks generalizing draft with
  | nil => rfl
  | cons k ks ih =>
    show ((ks.foldl (afterCopy live) (afterCopy live draft k)).map (·.1)).filter _ =
      (touchAll (touch (draft.map (·.1)) k) ks).filter _
    rw [ih, filter_touchAll, filter_touchAll, keys_afterCopy]

/-- The index that a draft gives to a store has the keys that the draft shares with the store. -/
theorem keys_indexFor {dr : Draft} {live : Store} (h : dr.index.Coherent)
    (hi : live.index.Coherent) (hsize : live.index.toList.length ≤ live.index.capacity) :
    (dr.indexFor live).keys = dr.index.keys.filter (· ∈ live.index.keys) := by
  obtain ⟨hc, -, hlist⟩ := toList_indexFor h live
  have hcontains : live.index.contains = fun k => decide (k ∈ live.index.keys) := by
    funext k
    rw [Bool.eq_iff_iff, decide_eq_true_eq, hi.mem_keys_iff, Index.get?, Option.isSome_map]
    rfl
  have hshared : (dr.index.toList.filter (live.index.contains ·.1)).map (·.1) =
      dr.index.keys.filter (· ∈ live.index.keys) := by
    rw [← h.keys_toList, List.filter_map, hcontains]
    rfl
  have hle : (dr.index.keys.filter (· ∈ live.index.keys)).length ≤ live.index.capacity := by
    have hsub : dr.index.keys.filter (· ∈ live.index.keys) ⊆ live.index.keys := by
      intro k hk
      exact of_decide_eq_true (List.mem_filter.1 hk).2
    have hsubperm := (h.nodup_keys.sublist List.filter_sublist).subperm hsub
    refine hsubperm.length_le.trans ?_
    rw [← hi.keys_toList, List.length_map]
    exact hsize
  rw [← hc.keys_toList, hlist, map_newest, hshared, newest, Nat.sub_eq_zero_of_le hle,
    List.drop_zero]

end Draft

namespace Pass

variable {c : Config} {d d' : FileSystem} {s s' : Store} {data : Bytes} {H : List Element}
  {listed : List (Key × Slot)} {w : Work} {pass pass' : Pass} {arrange : List Key → List Key}
  {collected : List Key} {bytes : Bytes}

/-! ### What holds between two holds -/

/-- If a pass went on to copy, key by key, all that it has to, its draft would have the keys of the
store in their order. -/
def Keeps (s : Store) : Pass → Prop
  | .running w => w.generation = s.generation → ∀ collected, s.pending = some collected →
      s.index.keys =
        (touchAll w.draft.index.keys (w.todo ++ collected)).filter (· ∈ s.index.keys)
  | _ => True

/-- A store was reset, or has collected the keys that were put meanwhile, and they are its last. -/
def Shifts (s s' : Store) : Prop :=
  s.generation < s'.generation ∨ s'.generation = s.generation ∧
    ∃ more, s'.pending = s.pending.map (· ++ more) ∧
      s'.index.keys.Sublist (touchAll s.index.keys more)

theorem shifts_refl (s : Store) : Shifts s s :=
  .inr ⟨rfl, [], by simp, List.Sublist.refl _⟩

theorem Keeps.frame (h : pass.Keeps s) (hpass : Follows H c d s data pass)
    (hi : s.index.Coherent) (hs : Shifts s s') : pass.Keeps s' := by
  cases pass with
  | requested => trivial
  | stopping generation draft => trivial
  | running w =>
    obtain ⟨hgen, -, hcurrent⟩ := hpass
    intro hw collected' hp'
    rcases hs with hlt | ⟨heq, more, hp, hsub⟩
    · omega
    · rw [heq] at hw
      obtain ⟨-, -, collected, hcollected, -⟩ := hcurrent hw
      rw [hcollected, hp', Option.map_some, Option.some.injEq] at hp
      rw [hp, ← List.append_assoc, touchAll_append]
      exact order_touchAll hi.nodup_keys (h hw collected hcollected) hsub

/-- A hold that copies a key does what was still to be done. -/
theorem keeps_copyOne {k : Key} (h : s.Intact c H d data listed) (ho : s.IsOpen)
    (hf : Draft.Filled H c d w.draft bytes)
    (hw : ∀ collected, s.pending = some collected → s.index.keys =
      (touchAll w.draft.index.keys (k :: (w.todo ++ collected))).filter (· ∈ s.index.keys))
    (hr : (copyOne k w).run (d, s) = (.next pass', (d', s'))) : pass'.Keeps s' := by
  rw [run_copyOne] at hr
  rcases Draft.copy_cases h.mounted ho h.sound hf k with
    ⟨d₁, dr, bytes', hr₁, -, hf', hrecords⟩ | ⟨e, d₁, hr₁, -⟩
  · rw [hr₁] at hr
    cases hr
    intro _ collected hp
    have hkeys := congrArg (List.map (·.1)) hrecords
    have hcopied := Draft.keys_afterCopy (s.index.records data) (w.draft.index.records bytes) k
    rw [← hkeys, h.sound.coherent.keys_records, hf'.coherent.keys_records,
      hf.coherent.keys_records] at hcopied
    have hold := hw collected hp
    show _ = (touchAll dr.index.keys (w.todo ++ collected)).filter _
    rw [filter_touchAll, hcopied, ← filter_touchAll]
    exact hold
  · rw [hr₁] at hr
    cases hr
    trivial

/-- The listed keys are those of the store, in their order. -/
theorem keeps_start (hc : c.Valid) (h : s.Intact c H d data listed)
    (hr : (start c.draftFile).run (d, s) = (.next pass', (d', s'))) : pass'.Keeps s' := by
  rw [run_start] at hr
  rcases Draft.begin_cases (H := H) hc h.mounted.healthy with
    ⟨d₁, dr, hr₁, -, hf, hlist⟩ | ⟨e, d₁, hr₁, -⟩
  · rw [hr₁] at hr
    cases hr
    intro _ collected hp
    cases hp
    have hempty : dr.index.keys = [] := by rw [← hf.coherent.keys_toList, hlist, List.map_nil]
    show s.index.keys = (touchAll dr.index.keys (s.index.keys ++ [])).filter (· ∈ s.index.keys)
    rw [hempty, List.append_nil, touchAll_eq, List.filter_nil, List.nil_append,
      h.sound.coherent.nodup_keys.dedup, List.filter_eq_self.2 (by simp)]
  · rw [hr₁] at hr
    cases hr
    trivial

/-- Each hold of a running pass does the first of what was still to be done, or all of it. -/
theorem keeps_work (h : s.Intact c H d data listed) (ho : s.IsOpen)
    (hgen : w.generation = s.generation) (hw : Follows H c d s data (.running w))
    (hkeeps : Keeps s (.running w))
    (hr : (work arrange w).run (d, s) = (.next pass', (d', s'))) : pass'.Keeps s' := by
  obtain ⟨-, -, hcurrent⟩ := hw
  obtain ⟨bytes, hf, -⟩ := hcurrent hgen
  have hold := hkeeps hgen
  rcases run_work arrange w d s with ⟨k, ks, htodo, hwork⟩ | ⟨n, k, ks, htodo, -, hks, hwork⟩ |
    ⟨n, htodo, -, -, hwork⟩ | ⟨htodo, -, hwork⟩ <;> rw [hwork] at hr <;> rw [htodo] at hold
  · exact keeps_copyOne (w := { w with todo := ks }) h ho hf hold hr
  · have h₁ : ({ s with pending := some ks } : Store).Intact c H d data listed :=
      ⟨h.mounted.congr rfl rfl, h.sound.congr rfl rfl, h.capacity, h.freeCapacity⟩
    refine keeps_copyOne (w := { w with todo := [], tries := n }) h₁ ho hf ?_ hr
    intro collected hcollected
    cases hcollected
    exact hold _ hks
  · cases hr
    exact fun _ => hold
  · rw [run_finish] at hr
    split at hr <;> cases hr

/-- Each hold of a pass keeps the order that its draft would have. -/
theorem keeps_hold (hc : c.Valid) (h : s.Intact c H d data listed) {alive : Bool}
    (ho : alive → s.IsOpen) (hpass : Follows H c d s data pass) (hkeeps : pass.Keeps s)
    (hr : (pass.hold arrange c.draftFile alive).run (d, s) = (.next pass', (d', s'))) :
    pass'.Keeps s' := by
  cases pass with
  | requested =>
    rw [hold] at hr
    split at hr
    · exact keeps_start hc h hr
    · cases hr
  | stopping generation draft =>
    rw [hold, run_bind, run_store] at hr
    simp only at hr
    rw [run_bind, run_setStore] at hr
    cases draft <;> cases hr
  | running w =>
    rw [hold, run_bind, run_store] at hr
    simp only at hr
    split at hr
    · next hcond =>
      rw [Bool.and_eq_true, beq_iff_eq] at hcond
      exact keeps_work h (ho hcond.1) hcond.2.symm hpass hkeeps hr
    · cases hr

/-! ### Installing -/

/-- Only the last hold of a pass installs its draft. -/
theorem hold_installs {alive : Bool}
    (hr : (pass.hold arrange c.draftFile alive).run (d, s) = (.over true, (d', s'))) :
    ∃ w, pass = .running w ∧ alive ∧ w.generation = s.generation ∧ w.todo = [] ∧
      (finish arrange w).run (d, s) = (.over true, (d', s')) := by
  have hcopy : ∀ (k : Key) (w : Work) (s : Store),
      (copyOne k w).run (d, s) ≠ (.over true, (d', s')) := by
    intro k w s hr
    rw [run_copyOne] at hr
    split at hr <;> cases hr
  cases pass with
  | requested =>
    rw [hold] at hr
    split at hr
    · rw [run_start] at hr
      split at hr <;> cases hr
    · cases hr
  | stopping generation draft =>
    rw [hold, run_bind, run_store] at hr
    simp only at hr
    rw [run_bind, run_setStore] at hr
    cases draft <;> cases hr
  | running w =>
    rw [hold, run_bind, run_store] at hr
    simp only at hr
    split at hr
    · next hcond =>
      rw [Bool.and_eq_true, beq_iff_eq] at hcond
      rcases run_work arrange w d s with ⟨k, ks, -, hwork⟩ | ⟨n, k, ks, -, -, -, hwork⟩ |
        ⟨n, -, -, -, hwork⟩ | ⟨htodo, -, hwork⟩ <;> rw [hwork] at hr
      · exact absurd hr (hcopy k _ s)
      · exact absurd hr (hcopy k _ _)
      · cases hr
      · exact ⟨w, rfl, hcond.1, hcond.2.symm, htodo, hr⟩
    · cases hr

/-- A draft that is installed gives the store the keys that it has, the copied ones as the last. -/
theorem keys_finish (h : s.Intact c H d data listed) (ho : s.IsOpen)
    (hf : Draft.Filled H c d w.draft bytes) (hp : s.pending = some collected)
    (hr : (finish arrange w).run (d, s) = (.over true, (d', s'))) :
    s'.index.keys =
      (touchAll w.draft.index.keys (arrange collected.eraseDups)).filter (· ∈ s.index.keys) := by
  rw [run_finish, hp, Option.getD_some] at hr
  have hs₁ : ({ s with pending := none } : Store).Sound H data listed := h.sound.congr rfl rfl
  have hm₁ : ({ s with pending := none } : Store).Mounted c d data (Store.listing listed) :=
    h.mounted.congr rfl rfl
  rcases Draft.copyAll_cases hm₁ ho hs₁ hf (arrange collected.eraseDups) with
    ⟨d₁, dr, bytes₁, hr₁, hl₁, hf₁, hrecords⟩ | ⟨e, d₁, hr₁, -⟩
  · rw [hr₁] at hr
    simp only at hr
    obtain ⟨r, d₂, s₂, data₂, listed₂, hr₂, -, -, -, -, -, hcases⟩ :=
      Store.installDraft_spec (hm₁.frame hl₁) ho hf₁
    rw [hr₂] at hr
    rcases hcases with ⟨rfl, -, hindex, -⟩ | ⟨⟨e, rfl⟩, -⟩
    · cases hr
      have hcopied := Draft.keys_copies (s.index.records data) (w.draft.index.records bytes)
        (arrange collected.eraseDups)
      have hkeys := hs₁.coherent.keys_records data
      rw [← hrecords, hf₁.coherent.keys_records, hf.coherent.keys_records, hkeys] at hcopied
      rw [hindex, Draft.keys_indexFor hf₁.coherent hs₁.coherent hs₁.size_le]
      exact hcopied
    · cases hr
  · rw [hr₁] at hr
    cases hr

/-! ### The store -/

/-- A key that is put becomes the last. -/
theorem shifts_write (hm : s.Mounted c d data (Store.listing listed)) (ho : s.IsOpen)
    (hs : s.Sound H data listed) (e : Element) :
    Shifts s ((Store.write e.key e.encode).result (d, s)).2.2 := by
  rcases Store.write_spec hm ho hs e with
    ⟨b, d', s', data', hr, -, -, -, hs', hlike, hp, hrecords⟩ | ⟨err, d', hr, -⟩
  · rw [hr]
    refine .inr ⟨hlike.generation, [e.key], hp, ?_⟩
    have hkeys := congrArg (List.map (·.1)) hrecords
    rw [map_putRecord, hs'.coherent.keys_records, hs.coherent.keys_records] at hkeys
    rw [hkeys]
    exact List.drop_sublist _ _
  · rw [hr]
    exact shifts_refl s

theorem shifts_of_keys (hg : s'.generation = s.generation) (hp : s'.pending = s.pending)
    (hi : s'.index.keys.Sublist s.index.keys) : Shifts s s' :=
  .inr ⟨hg, [], by simp [hp], hi⟩

end Pass

namespace Region

open Pass (Shifts)

variable {c : Config} {p p' q : World} {d d' : FileSystem} {r r' : Region} {data : Bytes}
  {H : List Element} {listed : List (Key × Slot)} {events : List Event}
  {arrange : List Key → List Key}

/-! ### Runs -/

/-- The pass under way keeps the order of the keys, as long as the region is alive. -/
def KeepsOrder (r : Region) : Prop := r.alive → ∀ pass ∈ r.pass, pass.Keeps r.store

theorem KeepsOrder.step (hk : r.KeepsOrder) (h : Sound H d r data listed) (hr : Changes r r')
    (hs : Shifts r.store r'.store) : r'.KeepsOrder := by
  intro ha pass hpass
  rw [hr.alive] at ha
  rcases hr.pass with ⟨-, hsame⟩ | ⟨-, hrequested⟩
  · rw [hsame] at hpass
    exact (hk ha pass hpass).frame (h.follows pass hpass) h.intact.sound.coherent hs
  · rw [hrequested] at hpass
    cases hpass
    trivial

theorem keeps_put (hk : r.KeepsOrder) (h : Sound H d r data listed) (e : Element) :
    ((put e).result (d, r)).2.2.KeepsOrder := by
  cases ha : r.alive with
  | false =>
    unfold put
    rw [Action.result_bind, result_requireAlive_dead ha]
    exact hk
  | true =>
    have hs := Pass.shifts_write h.intact.mounted (h.open_of_alive ha) h.intact.sound e
    rw [result_put ha]
    generalize (Store.write e.key e.encode).result (d, r.store) = outcome at hs ⊢
    rcases outcome with ⟨err | reused, q⟩
    · exact hk.step h ⟨rfl, rfl, rfl, .inl ⟨rfl, rfl⟩⟩ hs
    · exact hk.step h ⟨rfl, rfl, rfl, .inl ⟨rfl, rfl⟩⟩ hs

theorem keeps_lookup (hk : r.KeepsOrder) (h : Sound H d r data listed) (k : Key) :
    ((lookup k).result (d, r)).2.2.KeepsOrder := by
  cases ha : r.alive with
  | false =>
    rw [result_lookup_dead ha]
    exact hk
  | true =>
    obtain ⟨d', r', hr, hchanges, hstore, -⟩ := lookup_spec h ha k
    rw [hr]
    exact hk.step h hchanges (hstore ▸ Pass.shifts_refl _)

theorem keeps_reset (hk : r.KeepsOrder) (h : Sound H d r data listed) :
    (Region.reset.result (d, r)).2.2.KeepsOrder := by
  cases ha : r.alive with
  | false =>
    unfold Region.reset
    rw [Action.result_bind, result_requireAlive_dead ha]
    exact hk
  | true =>
    obtain ⟨d', r', hr, hchanges, -, -, -, -, hgen⟩ := reset_spec h ha
    rw [hr]
    exact hk.step h hchanges (.inl (hgen ▸ Nat.lt_succ_self _))

theorem keeps_get (hk : r.KeepsOrder) (h : Sound H d r data listed) (k : Key) :
    ((Region.get k).result (d, r)).2.2.KeepsOrder := by
  have hl := keeps_lookup hk h k
  obtain ⟨data', listed', h'⟩ := isSound_lookup ⟨data, listed, h⟩ k
  rw [result_get]
  rcases hr : (lookup k).result (d, r) with ⟨e | found, q⟩ <;> rw [hr] at hl h'
  · exact keeps_reset hl h'
  · exact hl

theorem keeps_saveKeys (hk : r.KeepsOrder) (h : Sound H d r data listed) :
    (Region.saveKeys.result (d, r)).2.2.KeepsOrder := by
  unfold Region.saveKeys
  cases ha : r.alive with
  | false =>
    rw [Action.result_bind, result_requireAlive_dead ha]
    exact hk
  | true =>
    obtain ⟨answer, d', f, listed', hr, -⟩ :=
      Store.saveKeys_spec h.intact.mounted (h.open_of_alive ha) h.intact.sound
    rw [Action.result_bind, result_requireAlive ha]
    simp only
    rw [result_onStore, hr]
    exact hk.step h ⟨rfl, rfl, rfl, .inl ⟨rfl, rfl⟩⟩
      (Pass.shifts_of_keys rfl rfl (List.Sublist.refl _))

theorem keeps_removeBy (hk : r.KeepsOrder) (h : Sound H d r data listed)
    {f : Store → Bool × Store} {p : Key → Bool}
    (hf : r.store.Removal H data listed p (f r.store)) : (r.removeBy f).2.KeepsOrder := by
  cases ha : r.alive with
  | false =>
    rw [removeBy_dead ha]
    exact hk
  | true =>
    obtain ⟨-, hchanges, -⟩ := removeBy_spec h ha hf
    obtain ⟨-, hstore, -⟩ := removeBy_eq ha f
    refine hk.step h hchanges ?_
    rw [hstore]
    refine Pass.shifts_of_keys hf.like.generation hf.pending ?_
    rw [← hf.sound.coherent.keys_toList, ← h.intact.sound.coherent.keys_toList, hf.toList]
    exact List.filter_sublist.map _

theorem keeps_call {α : Type} (hk : r.KeepsOrder) (h : Sound H d r data listed) (call : Call α) :
    (call.perform.result (d, r)).2.2.KeepsOrder := by
  cases call with
  | put e => exact keeps_put hk h e
  | get k => exact keeps_get hk h k
  | groupKeys g => exact hk
  | remove k => exact keeps_removeBy hk h (h.intact.sound.remove k)
  | removeGroup g => exact keeps_removeBy hk h (h.intact.sound.removeWhere _)
  | reset => exact keeps_reset hk h
  | saveKeys => exact keeps_saveKeys hk h
  | size => exact hk
  | stats => exact hk
  | requestCompaction =>
    exact hk.step h (changes_requestCompaction r) ((requestCompaction_eq r).1 ▸ Pass.shifts_refl _)

theorem keeps_holdPass (hk : r.KeepsOrder) (h : Sound H d r data listed)
    (arrange : List Key → List Key) : ((holdPass arrange).run (d, r)).2.2.KeepsOrder := by
  cases hpass : r.pass with
  | none =>
    rw [holdPass_none arrange hpass]
    exact hk
  | some pass =>
    rcases hr : (pass.hold arrange r.config.draftFile r.alive).run (d, r.store) with
      ⟨pass' | installed, d', s'⟩
    · rw [holdPass_next hpass hr]
      intro ha pass hmem
      cases hmem
      exact Pass.keeps_hold h.valid h.intact h.open_of_alive (h.follows _ hpass)
        (hk ha _ hpass) hr
    · rw [holdPass_over hpass hr]
      intro ha pass hmem
      cases hmem

/-- A region that is shut down is not alive after it. -/
theorem alive_shutDown (h : Sound H d r data listed) (hc : r.closed = false) :
    (shutDown.result (d, r)).2.2.alive = false := by
  unfold shutDown
  rw [Action.result_bind, FileAction.result_value]
  simp only [hc, Bool.false_eq_true, if_false]
  rw [Action.result_bind, FileAction.result_change]
  simp only
  obtain ⟨b, d₁, r₁, -, -, hr₁, -⟩ := compactForGood_spec h hc
  rw [Action.result_bind, hr₁]
  cases b <;> rfl

theorem keeps_step {e : Event} (hk : p.2.KeepsOrder) (h : IsSound H p) (hs : Step p e p') :
    p'.2.KeepsOrder := by
  obtain ⟨data, listed, h⟩ := h
  cases hs with
  | called call p => exact keeps_call hk h call
  | looked key p => exact keeps_lookup hk h key
  | held harrange p => exact keeps_holdPass hk h _
  | died d r =>
    intro ha
    cases ha
  | shutDown p =>
    cases hc : p.2.closed with
    | false =>
      intro ha
      rw [alive_shutDown h hc] at ha
      cases ha
    | true =>
      have hsame : (shutDown.result p).2 = p := by
        unfold shutDown
        rw [Action.result_bind, FileAction.result_value]
        simp only [hc, if_true]
        rfl
      rw [hsame]
      exact hk
  | reopened hname hpath ho =>
    obtain ⟨-, -, -, -, -, -, hr⟩ := h.openStore hname hpath ho
    intro _ pass hpass
    rw [hr] at hpass
    cases hpass

/-- In every run the pass under way keeps the order of the keys. -/
theorem Run.keepsOrder (h : OpenedEmpty c p) (hr : Run Step p events q) : q.2.KeepsOrder := by
  induction hr with
  | nil =>
    obtain ⟨d, hd, ho, -⟩ := h
    obtain ⟨-, -, -, -, -, -, -, -, hr⟩ := openAt_ok hd ho
    intro _ pass hpass
    rw [hr] at hpass
    cases hpass
  | snoc hr he ih => exact keeps_step ih (hr.isSound h) he

/-! ### Installing -/

/-- A hold that installs a draft is the last one of the pass under way. -/
theorem holdPass_installs (hinstalled : r.compactions <
    ((holdPass arrange).run (d, r)).2.2.compactions) :
    ∃ w d' s', r.pass = some (.running w) ∧ r.alive ∧ w.generation = r.store.generation ∧
      w.todo = [] ∧ (Pass.finish arrange w).run (d, r.store) = (.over true, (d', s')) ∧
      ((holdPass arrange).run (d, r)).2 = (d', endCompaction true { r with store := s' }) := by
  cases hpass : r.pass with
  | none =>
    rw [holdPass_none arrange hpass] at hinstalled
    exact absurd hinstalled (Nat.lt_irrefl _)
  | some pass =>
    rcases hhold : (pass.hold arrange r.config.draftFile r.alive).run (d, r.store) with
      ⟨pass' | _ | _, d', s'⟩
    · rw [holdPass_next hpass hhold] at hinstalled
      exact absurd hinstalled (Nat.lt_irrefl _)
    · rw [holdPass_over hpass hhold] at hinstalled
      exact absurd hinstalled (Nat.lt_irrefl _)
    · obtain ⟨w, rfl, ha, hgen, htodo, hfinish⟩ := Pass.hold_installs hhold
      exact ⟨w, d', s', rfl, ha, hgen, htodo, hfinish, holdPass_over hpass hhold⟩

/-- Before and after a draft is installed the order of the keys is that of the draft, but with the
keys that are left touched as they came, or as the last hold visits them. -/
theorem keys_install (h : Sound H d r data listed) (hk : r.KeepsOrder) (hinstalled : r.compactions <
    ((holdPass arrange).run (d, r)).2.2.compactions) :
    ∃ leftovers draft, r.store.pending = some leftovers ∧
      r.store.index.keys = (touchAll draft leftovers).filter (· ∈ r.store.index.keys) ∧
      ((holdPass arrange).run (d, r)).2.2.store.index.keys =
        (touchAll draft (arrange leftovers.eraseDups)).filter (· ∈ r.store.index.keys) := by
  obtain ⟨w, d', s', hpass, ha, hgen, htodo, hfinish, hr⟩ := holdPass_installs hinstalled
  obtain ⟨-, -, hcurrent⟩ := h.follows _ hpass
  obtain ⟨bytes, hf, leftovers, hp, -⟩ := hcurrent hgen
  have hbefore := hk ha _ hpass hgen leftovers hp
  rw [htodo, List.nil_append] at hbefore
  have hafter := Pass.keys_finish h.intact (h.open_of_alive ha) hf hp hfinish
  rw [hr]
  exact ⟨leftovers, w.draft.index.keys, hp, hbefore, hafter⟩

/-- When a pass installs its draft, the keys that were collected and are left stand behind the
others. Before, they stand in the order in which they were put last; then, in the order in which the
last hold visits them. So the order is the same if that is, and surely if only one key is left. -/
theorem order_after_install (h : OpenedEmpty c p) (hr : Run Step p events q)
    (harrange : ∀ l, (arrange l).Perm l)
    (hinstalled : q.2.compactions < ((holdPass arrange).run q).2.2.compactions) :
    ∃ leftovers, q.2.store.pending = some leftovers ∧
      let keys := q.2.store.index.keys
      let keys' := ((holdPass arrange).run q).2.2.store.index.keys
      let others := keys.filter (· ∉ leftovers)
      let visited := (arrange leftovers.eraseDups).filter (· ∈ keys)
      keys = others ++ leftovers.dedup.filter (· ∈ keys) ∧ keys' = others ++ visited ∧
        (keys' = keys ↔ visited = leftovers.dedup.filter (· ∈ keys)) ∧
        ((leftovers.dedup.filter (· ∈ keys)).length ≤ 1 → keys' = keys) := by
  obtain ⟨data, listed, hs⟩ := hr.isSound h
  obtain ⟨leftovers, draft, hp, hbefore, hafter⟩ := keys_install hs (hr.keepsOrder h) hinstalled
  have hmem : ∀ k, k ∈ arrange leftovers.eraseDups ↔ k ∈ leftovers := by
    intro k
    rw [(harrange _).mem_iff, List.mem_eraseDups]
  have hnodup : (arrange leftovers.eraseDups).Nodup :=
    (harrange _).nodup_iff.2 (nodup_eraseDups leftovers)
  have hkeys := order_split hbefore fun _ => Iff.rfl
  have hkeys' := order_split hbefore hmem
  rw [← hbefore] at hkeys
  rw [← hafter, hnodup.dedup] at hkeys'
  have hiff : ((holdPass arrange).run q).2.2.store.index.keys = q.2.store.index.keys ↔
      (arrange leftovers.eraseDups).filter (· ∈ q.2.store.index.keys) =
        leftovers.dedup.filter (· ∈ q.2.store.index.keys) := by
    constructor
    · intro heq
      exact List.append_cancel_left (hkeys'.symm.trans (heq.trans hkeys))
    · intro heq
      exact hkeys'.trans (heq ▸ hkeys.symm)
  refine ⟨leftovers, hp, hkeys, hkeys', hiff, fun hone => hiff.2 ?_⟩
  have hperm : (arrange leftovers.eraseDups).Perm leftovers.dedup := by
    rw [List.perm_ext_iff_of_nodup hnodup leftovers.nodup_dedup]
    intro k
    rw [hmem, List.mem_dedup]
  exact eq_of_perm_of_length_le_one (hperm.filter _) hone

/-- A key that is put again while a pass is at its end is the newest before and after. -/
theorem newest_stays_newest : ∃ (p q : World) (events : List Event), OpenedEmpty (roomFor 2) p ∧
    Run Step p events q ∧ q.2.store.pending = some [.name "x"] ∧
    q.2.compactions < ((holdPass id).run q).2.2.compactions ∧
    q.2.store.index.keys = [.name "y", .name "x"] ∧
    ((holdPass id).run q).2.2.store.index.keys = [.name "y", .name "x"] := by
  have h : (opened? (roomFor 2) .empty).map (fun p =>
      let q₁ := (Call.put (note "x" [1])).perform.result p
      let q₂ := Call.requestCompaction.perform.result q₁.2
      let q₃ := ((holdPass id).run q₂.2).2
      let q₄ := ((holdPass id).run q₃).2
      let q₅ := (Call.put (note "y" [1])).perform.result q₄
      let q₆ := (Call.put (note "x" [2])).perform.result q₅.2
      let q₇ := ((holdPass id).run q₆.2).2
      decide (p.2.size = 0 ∧ q₁.1 = .ok () ∧ q₂.1 = .ok true ∧ q₅.1 = .ok () ∧ q₆.1 = .ok () ∧
        q₇.2.store.pending = some [.name "x"] ∧
        q₇.2.compactions < ((holdPass id).run q₇).2.2.compactions ∧
        q₇.2.store.index.keys = [.name "y", .name "x"])) = some true := by
    decide +kernel
  obtain ⟨p, hp, h⟩ := Option.map_eq_some_iff.1 h
  obtain ⟨hsize, h₁, h₂, h₅, h₆, hpending, hinstalled, hkeys⟩ := of_decide_eq_true h
  have ho := openedEmpty_of_eq empty_healthy hp hsize
  have hid : ∀ l : List Key, (id l).Perm l := List.Perm.refl
  have hheld := fun q : World => Step.held hid q
  have hr := ((((((((Run.nil p).call _ h₁).call _ h₂).snoc (hheld _)).snoc (hheld _)).call _
    h₅).call _ h₆).snoc (hheld _))
  obtain ⟨leftovers, hp', -, -, -, hone⟩ := order_after_install ho hr hid hinstalled
  cases hpending.symm.trans hp'
  refine ⟨p, _, _, ho, hr, hpending, hinstalled, hkeys, ?_⟩
  exact (hone (List.length_filter_le _ _)).trans hkeys

/-- While a pass copies one key, it is put again and two others are put, the first of them twice. So
these two are left when the pass comes to its end, and are swapped. -/
theorem exists_shuffled : ∃ (p q : World) (events : List Event), OpenedEmpty (roomFor 3) p ∧
    Run Step p events q ∧
    (Event.stored events).map (·.key) = [.name "x", .name "x", .name "a", .name "b", .name "a"] ∧
    q.2.compactions < ((holdPass id).run q).2.2.compactions ∧
    q.2.store.index.keys = [.name "x", .name "b", .name "a"] ∧
    ((holdPass id).run q).2.2.store.index.keys = [.name "x", .name "a", .name "b"] ∧
    (opened? (roomFor 1) ((holdPass id).run q).2.1).map (·.2.store.index.keys) =
      some [.name "b"] := by
  have h : (opened? (roomFor 3) .empty).map (fun p =>
      let q₁ := (Call.put (note "x" [1])).perform.result p
      let q₂ := Call.requestCompaction.perform.result q₁.2
      let q₃ := ((holdPass id).run q₂.2).2
      let q₄ := ((holdPass id).run q₃).2
      let q₅ := (Call.put (note "x" [1])).perform.result q₄
      let q₆ := (Call.put (note "a" [1])).perform.result q₅.2
      let q₇ := (Call.put (note "b" [1])).perform.result q₆.2
      let q₈ := (Call.put (note "a" [1])).perform.result q₇.2
      let q₉ := ((holdPass id).run q₈.2).2
      decide (p.2.size = 0 ∧ q₁.1 = .ok () ∧ q₂.1 = .ok true ∧ q₅.1 = .ok () ∧ q₆.1 = .ok () ∧
        q₇.1 = .ok () ∧ q₈.1 = .ok () ∧
        q₉.2.compactions < ((holdPass id).run q₉).2.2.compactions ∧
        q₉.2.store.index.keys = [.name "x", .name "b", .name "a"] ∧
        ((holdPass id).run q₉).2.2.store.index.keys = [.name "x", .name "a", .name "b"] ∧
        (opened? (roomFor 1) ((holdPass id).run q₉).2.1).map (·.2.store.index.keys) =
          some [.name "b"])) = some true := by
    decide +kernel
  obtain ⟨p, hp, h⟩ := Option.map_eq_some_iff.1 h
  obtain ⟨hsize, h₁, h₂, h₅, h₆, h₇, h₈, hend⟩ := of_decide_eq_true h
  have hid : ∀ l : List Key, (id l).Perm l := List.Perm.refl
  have hheld := fun q : World => Step.held hid q
  have hr := ((((((((((Run.nil p).call _ h₁).call _ h₂).snoc (hheld _)).snoc (hheld _)).call _
    h₅).call _ h₆).call _ h₇).call _ h₈).snoc (hheld _))
  exact ⟨p, _, _, openedEmpty_of_eq empty_healthy hp hsize, hr, rfl, hend⟩

/-- Two keys that are left when the pass comes to its end are swapped: the one that was put last is
no longer the newest. -/
theorem newest_is_overtaken : ∃ (p q : World) (events : List Event), OpenedEmpty (roomFor 3) p ∧
    Run Step p events q ∧ q.2.compactions < ((holdPass id).run q).2.2.compactions ∧
    q.2.store.index.keys = [.name "x", .name "b", .name "a"] ∧
    ((holdPass id).run q).2.2.store.index.keys = [.name "x", .name "a", .name "b"] := by
  obtain ⟨p, q, events, ho, hr, -, hinstalled, hbefore, hafter, -⟩ := exists_shuffled
  exact ⟨p, q, events, ho, hr, hinstalled, hbefore, hafter⟩

end Region

end DiskTier
