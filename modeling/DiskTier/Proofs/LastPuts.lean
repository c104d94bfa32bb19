import DiskTier.Proofs.EvictionOrder
import DiskTier.Proofs.Installation

/-!
# The order of the last puts

While a region stays open, each put makes its key the last of the index, and nothing else moves a
key but a pass that installs its draft: what does not install one leaves the index alone, or empties
it. So as long as the drafts keep the order, the keys of the index are some of those that it had at
first and of those that were put, in the order in which each was put last.
-/

namespace DiskTier

open FileSystem

namespace Store

variable {d d' : FileSystem} {s s' : Store} {dr : Draft}

/-- A draft that cannot be installed leaves the index as it is, or empty. -/
theorem index_installDraft {e : Error}
    (hr : (installDraft dr).result (d, s) = (.error e, (d', s'))) :
    s'.index = s.index ∨ s'.index.keys = [] := by
  rw [result_installDraft] at hr
  rcases hclose : RecordFile.close.result (d, dr.file) with ⟨e₁ | u, d₁, f⟩ <;> rw [hclose] at hr
  · cases hr
    exact .inl rfl
  · simp only at hr
    rcases hreplace : (replace dr.file.path (dr.indexFor s)).result (d₁, s) with
      ⟨e₂ | u, d₂, s₂⟩ <;> rw [hreplace] at hr
    · -- the reset may fail as well, but then it has forgotten the index already
      obtain ⟨-, hindex, -⟩ := (shadowed_reset_forgets (d := d₂) s₂).post
      have hs' : (reset.result (d₂, s₂)).2.2 = s' := congrArg (·.2.2) hr
      right
      rw [← hs', hindex]
      rfl
    · cases hr

end Store

namespace Pass

variable {d d' : FileSystem} {s s' : Store} {pass : Pass} {w : Work} {progress : Progress}
  {arrange : List Key → List Key} {draftFile : Path} {alive : Bool}

theorem store_copyOne (k : Key) (w : Work) (d : FileSystem) (s : Store) :
    ((copyOne k w).run (d, s)).2.2 = s := by
  rw [run_copyOne]
  split <;> rfl

theorem index_finish (hr : (finish arrange w).run (d, s) = (progress, (d', s')))
    (hne : progress ≠ .over true) : s'.index = s.index ∨ s'.index.keys = [] := by
  rw [run_finish] at hr
  split at hr
  · next dr d₁ hcopied =>
    rcases hi : (Store.installDraft dr).result (d₁, { s with pending := none }) with
      ⟨e | u, d₂, s₂⟩ <;> rw [hi] at hr
    · cases hr
      exact Store.index_installDraft (s := { s with pending := none }) hi
    · cases hr
      exact absurd rfl hne
  · cases hr
    exact .inl rfl

theorem index_work (hr : (work arrange w).run (d, s) = (progress, (d', s')))
    (hne : progress ≠ .over true) : s'.index = s.index ∨ s'.index.keys = [] := by
  rcases run_work arrange w d s with ⟨k, ks, -, hwork⟩ | ⟨n, k, ks, -, -, -, hwork⟩ |
    ⟨n, -, -, -, hwork⟩ | ⟨-, -, hwork⟩ <;> rw [hwork] at hr
  · have hindex := congrArg Store.index (store_copyOne k { w with todo := ks } d s)
    rw [hr] at hindex
    exact .inl hindex
  · have hindex := congrArg Store.index
      (store_copyOne k { w with todo := [], tries := n } d { s with pending := some ks })
    rw [hr] at hindex
    exact .inl hindex
  · cases hr
    exact .inl rfl
  · exact index_finish hr hne

/-- A hold that does not install the draft leaves the index as it is, or empty. -/
theorem index_hold (hr : (pass.hold arrange draftFile alive).run (d, s) = (progress, (d', s')))
    (hne : progress ≠ .over true) : s'.index = s.index ∨ s'.index.keys = [] := by
  cases pass with
  | requested =>
    rw [hold] at hr
    split at hr
    · rw [run_start] at hr
      split at hr <;> cases hr <;> exact .inl rfl
    · cases hr
      exact .inl rfl
  | stopping generation draft =>
    obtain ⟨pending, hs⟩ := stopCollecting_eq generation s
    rw [hold, run_bind, run_store] at hr
    simp only at hr
    rw [run_bind, run_setStore, hs] at hr
    cases draft <;> cases hr <;> exact .inl rfl
  | running w =>
    rw [hold, run_bind, run_store] at hr
    simp only at hr
    split at hr
    · exact index_work hr hne
    · cases hr
      exact .inl rfl

end Pass

namespace Region

/-- The keys that were put, in the order of the puts. -/
def putKeys (events : List Event) : List Key := (Event.stored events).map (·.key)

/-- An event that leaves a region open. -/
def Event.staysOpen : Event → Prop
  | .shutDown => False
  | .reopened _ => False
  | _ => True

/-- An event that leaves a region open, and does not shuffle the keys if it installs a draft. -/
structure Unshuffled (p : World) (e : Event) (q : World) : Prop where
  step : Step p e q
  stays : e.staysOpen
  order : e = .held true → q.2.store.index.keys = p.2.store.index.keys

variable {c : Config} {p q : World} {d d' : FileSystem} {r r' : Region} {e : Event}
  {events : List Event} {data data' : Bytes} {H H' : List Element}
  {listed listed' : List (Key × Slot)}

theorem putKeys_append (events more : List Event) :
    putKeys (events ++ more) = putKeys events ++ putKeys more := by
  rw [putKeys, Event.stored, List.filterMap_append, List.map_append]
  rfl

theorem keys_sublist_of_records (h : Sound H d r data listed) (h' : Sound H' d' r' data' listed')
    (hr : (r'.store.index.records data').Sublist (r.store.index.records data)) :
    r'.store.index.keys.Sublist r.store.index.keys := by
  rw [← h.intact.sound.coherent.keys_records data, ← h'.intact.sound.coherent.keys_records data']
  exact hr.map _

theorem keys_put (h : Sound H d r data listed) (element : Element) :
    ((put element).result (d, r)).2.2.store.index.keys.Sublist
      (touchAll r.store.index.keys
        (putKeys [.called (.put element) ((put element).result (d, r)).1])) := by
  cases ha : r.alive with
  | false =>
    have hr : (put element).result (d, r) = (.error (.notAlive r.config.cacheName), (d, r)) := by
      unfold put
      rw [Action.result_bind, result_requireAlive_dead ha]
    rw [hr]
    exact List.Sublist.refl _
  | true =>
    rcases put_spec h ha element with
      ⟨d', r', data', hr, -, -, -, h', hrecords⟩ | ⟨err, d', hr, -⟩
    · have hkeys := congrArg (List.map (·.1)) hrecords
      rw [map_putRecord, h.intact.sound.coherent.keys_records,
        h'.intact.sound.coherent.keys_records] at hkeys
      rw [hr, show r'.store.index.keys = _ from hkeys]
      exact List.drop_sublist _ _
    · rw [hr]
      exact List.Sublist.refl _

theorem keys_lookup (h : Sound H d r data listed) (k : Key) :
    ((lookup k).result (d, r)).2.2.store.index.keys = r.store.index.keys := by
  cases ha : r.alive with
  | false => rw [result_lookup_dead ha]
  | true =>
    obtain ⟨d', r', hr, -, hstore, -⟩ := lookup_spec h ha k
    rw [hr]
    exact congrArg (·.index.keys) hstore

theorem keys_reset (h : Sound H d r data listed) :
    (Region.reset.result (d, r)).2.2.store.index.keys.Sublist r.store.index.keys := by
  cases ha : r.alive with
  | false =>
    unfold Region.reset
    rw [Action.result_bind, result_requireAlive_dead ha]
  | true =>
    obtain ⟨d', r', hr, -, -, -, h', hnone, -⟩ := reset_spec h ha
    rw [hr]
    exact keys_sublist_of_records h h' (hnone ▸ List.nil_sublist _)

theorem keys_get (h : Sound H d r data listed) (k : Key) :
    ((Region.get k).result (d, r)).2.2.store.index.keys.Sublist r.store.index.keys := by
  have hl := keys_lookup h k
  obtain ⟨data', listed', h'⟩ := isSound_lookup ⟨data, listed, h⟩ k
  rw [result_get]
  rcases hr : (lookup k).result (d, r) with ⟨e | found, q⟩ <;> rw [hr] at hl h'
  · rw [← show q.2.store.index.keys = _ from hl]
    exact keys_reset h'
  · exact hl ▸ List.Sublist.refl _

theorem keys_saveKeys (h : Sound H d r data listed) :
    (Region.saveKeys.result (d, r)).2.2.store.index.keys = r.store.index.keys := by
  cases ha : r.alive with
  | false =>
    unfold Region.saveKeys
    rw [Action.result_bind, result_requireAlive_dead ha]
  | true =>
    obtain ⟨answer, d', r', listed', hr, -, -, -, hi, -⟩ := saveKeys_spec h ha
    rw [hr]
    exact congrArg Index.keys hi

theorem keys_removeBy (h : Sound H d r data listed) {f : Store → Bool × Store} {P : Key → Bool}
    (hf : r.store.Removal H data listed P (f r.store)) :
    (r.removeBy f).2.store.index.keys.Sublist r.store.index.keys := by
  cases ha : r.alive with
  | false => rw [removeBy_dead ha]
  | true =>
    obtain ⟨-, -, -, -, h', hrecords⟩ := removeBy_spec h ha hf
    exact keys_sublist_of_records h h' (hrecords ▸ List.filter_sublist)

theorem keys_call {α : Type} (h : Sound H d r data listed) (call : Call α) :
    (call.perform.result (d, r)).2.2.store.index.keys.Sublist
      (touchAll r.store.index.keys
        (putKeys [.called call (call.perform.result (d, r)).1])) := by
  cases call with
  | put element => exact keys_put h element
  | get k => exact keys_get h k
  | groupKeys name => exact List.Sublist.refl _
  | remove k => exact keys_removeBy h (h.intact.sound.remove k)
  | removeGroup name => exact keys_removeBy h (h.intact.sound.removeWhere _)
  | reset => exact keys_reset h
  | saveKeys => exact keys_saveKeys h ▸ List.Sublist.refl _
  | size => exact List.Sublist.refl _
  | stats => exact List.Sublist.refl _
  | requestCompaction =>
    exact congrArg (·.index.keys) (requestCompaction_eq r).1 ▸ List.Sublist.refl _

/-- A hold that does not install the draft moves no key. -/
theorem keys_holdPass {arrange : List Key → List Key}
    (hnot : ¬ r.compactions < ((holdPass arrange).run (d, r)).2.2.compactions) :
    ((holdPass arrange).run (d, r)).2.2.store.index.keys.Sublist r.store.index.keys := by
  have hsub : ∀ s' : Store, s'.index = r.store.index ∨ s'.index.keys = [] →
      s'.index.keys.Sublist r.store.index.keys := by
    rintro s' (hsame | hnone)
    · rw [hsame]
    · rw [hnone]
      exact List.nil_sublist _
  cases hpass : r.pass with
  | none => rw [holdPass_none arrange hpass]
  | some pass =>
    rcases hr : (pass.hold arrange r.config.draftFile r.alive).run (d, r.store) with
      ⟨pass' | _ | _, d', s'⟩
    · rw [holdPass_next hpass hr]
      exact hsub s' (Pass.index_hold hr (by simp))
    · rw [holdPass_over hpass hr]
      exact hsub s' (Pass.index_hold hr (by simp))
    · rw [holdPass_over hpass hr] at hnot
      exact absurd (Nat.lt_succ_self _) hnot

theorem Unshuffled.call {α : Type} {call : Call α} {answer : Except Error α}
    (ha : (call.perform.result p).1 = answer) :
    Unshuffled p (.called call answer) (call.perform.result p).2 :=
  ⟨.of_result ha, trivial, nofun⟩

/-- One event puts at most one key behind the others, and drops some. -/
theorem Unshuffled.keys_sublist (h : IsSound H p) (he : Unshuffled p e q) :
    q.2.store.index.keys.Sublist (touchAll p.2.store.index.keys (putKeys [e])) := by
  obtain ⟨data, listed, h⟩ := h
  obtain ⟨hstep, hstays, horder⟩ := he
  cases hstep with
  | called call p => exact keys_call h call
  | looked k p => exact keys_lookup h k ▸ List.Sublist.refl _
  | @held arrange harrange p =>
    by_cases hinstalled : p.2.compactions < ((holdPass arrange).run p).2.2.compactions
    · have hsame := horder (congrArg Event.held (decide_eq_true hinstalled))
      exact hsame ▸ List.Sublist.refl _
    · exact keys_holdPass hinstalled
  | died d r => exact List.Sublist.refl _
  | shutDown p => cases hstays
  | reopened hname hpath ho => cases hstays

theorem Run.keys_sublist (h : IsSound H p) (hr : Run Unshuffled p events q) :
    q.2.store.index.keys.Sublist (touchAll p.2.store.index.keys (putKeys events)) := by
  induction hr with
  | nil => exact List.Sublist.refl _
  | snoc hr he ih =>
    rw [putKeys_append, touchAll_append]
    exact (he.keys_sublist ((hr.mono (·.step)).isSound_from h)).trans (touchAll_sublist ih _)

/-- While a region stays open, its keys stand in the order in which they were put last, behind those
that it had at first. -/
theorem Run.keys_eq (h : IsSound H p) (hr : Run Unshuffled p events q) :
    q.2.store.index.keys = (touchAll p.2.store.index.keys (putKeys events)).filter
      (· ∈ q.2.store.index.keys) := by
  obtain ⟨data, listed, hs⟩ := h
  have hnodup := hs.intact.sound.coherent.nodup_keys
  exact (filter_mem_of_sublist (hr.keys_sublist ⟨data, listed, hs⟩)
    (nodup_touchAll hnodup _)).symm

end Region

end DiskTier
