import DiskTier.Proofs.Finality
import DiskTier.Proofs.Reuse

/-!
# Removal frees what it removes

`Target.Matches` says which keys a removal takes out. The other keys keep their slots and their
order, and no file is touched. The slots of the keys that go are offered to the free list, oldest
key first. So a removal of many keys is the same as one removal after the other, in the order of the
index.
-/

namespace DiskTier

/-- A key is found in what is left of an index unless it is one of those that went. -/
theorem Index.Coherent.get?_of_filter {i i' : Index} {p : Key → Bool} (h : i.Coherent)
    (h' : i'.Coherent) (hlist : i'.toList = i.toList.filter (!p ·.1)) (k : Key) :
    i'.get? k = if p k then none else i.get? k := by
  ext slot
  rw [← h'.mem_toList_iff, hlist, List.mem_filter, h.mem_toList_iff]
  cases p k <;> simp

/-- An index that does not hold the key stays as it is. -/
theorem Index.eq_of_remove_none {i j : Index} {k : Key} (h : i.remove k = (none, j)) : j = i := by
  unfold Index.remove at h
  cases hfind : Assoc.find? i.entries k with
  | none =>
    rw [hfind] at h
    exact (congrArg Prod.snd h).symm
  | some e =>
    rw [hfind] at h
    cases h

namespace Store

variable {s : Store} {k : Key}

/-! ### One key after the other -/

/-- Removes one key, whatever it addresses; its slot becomes free. -/
def drop (s : Store) (k : Key) : Store :=
  match s.index.remove k with
  | (none, _) => s
  | (some slot, index) => { s with index, free := (s.free.release slot).2 }

/-- A key that addresses no hierarchy is removed so. -/
theorem remove_eq_drop (hk : k.hierarchy? = none) (s : Store) : (s.remove k).2 = s.drop k := by
  rw [Store.remove, hk, drop]
  rcases s.index.remove k with ⟨_ | slot, index⟩ <;> rfl

/-- What comes of removing some keys, one after the other. -/
theorem foldl_drop (ks : List Key) (s : Store) :
    ks.foldl drop s = { s with
      index := (s.index.removeEach ks).2
      free := s.free.releaseAll ((s.index.removeEach ks).1.map (·.2)) } := by
  induction ks generalizing s with
  | nil => rfl
  | cons k ks ih =>
    rw [List.foldl_cons, ih, drop, Index.removeEach]
    rcases hk : s.index.remove k with ⟨_ | slot, index⟩
    · rw [Index.eq_of_remove_none hk]
    · rfl

theorem removeWhere_eq_foldl (s : Store) (p : Key → Bool) :
    (s.removeWhere p).2 = (s.index.keys.filter p).foldl drop s :=
  (foldl_drop _ s).symm

/-- Removing a key is removing the keys that it stands for. -/
theorem remove_eq_removeWhere (hc : s.index.Coherent) (k : Key) :
    s.remove k = s.removeWhere (Target.key k).takes := by
  cases hk : k.hierarchy? with
  | some start =>
    have htakes : (Target.key k).takes = (·.isUnder start) := by
      funext k'
      rw [Target.takes, hk]
    rw [Store.remove, hk, htakes]
  | none =>
    -- no other key goes
    have htakes : (Target.key k).takes = fun k' => decide (k' = k) := by
      funext k'
      rw [Target.takes, hk]
    have hone : s.index.keys.filter (Target.key k).takes =
        (s.index.get? k).toList.map fun _ => k := by
      rw [htakes, List.filter_eq, hc.nodup_keys.count]
      cases hget : s.index.get? k <;> simp [hc.mem_keys_iff, hget]
    rw [Store.remove, hk, removeWhere, Index.removeWhere, hone, ← Index.remove_fst]
    rcases hr : s.index.remove k with ⟨_ | slot, index⟩
    · rfl
    · simp only [Option.toList_some, List.map_cons, List.map_nil, Index.removeEach, hr]
      rfl

end Store

namespace Region

open FileSystem

variable {c : Config} {p q q' : World} {d : FileSystem} {r : Region} {events : List Event}

/-- The keys of a store that match go, and no others. -/
theorem perform_removal (hc : r.store.index.Coherent) (ha : r.alive) (x : Target)
    (d : FileSystem) : ∃ r', x.call.perform.result (d, r) =
        (.ok (r.store.removeWhere x.takes).1, (d, r')) ∧
      r'.store = (r.store.removeWhere x.takes).2 := by
  cases x with
  | key k =>
    obtain ⟨hanswer, hstore, -⟩ := removeBy_eq ha (·.remove k)
    rw [Store.remove_eq_removeWhere hc] at hanswer hstore
    refine ⟨(r.remove k).2, ?_, hstore⟩
    rw [← hanswer]
    rfl
  | group g =>
    obtain ⟨hanswer, hstore, -⟩ := removeBy_eq ha (·.removeGroup g)
    refine ⟨(r.removeGroup g).2, ?_, hstore⟩
    show _ = (Except.ok (r.store.removeGroup g).1, _)
    rw [← hanswer]
    rfl

/-- **Removal frees exactly what it removes.** Whatever happened to a region that was opened, also
if files failed it, a removal answers whether any key matched. The keys that match are gone, each of
the others has its slot and its turn, and nothing happens to the files. The slots of the keys that
are gone are offered to the free list, each once and that of the oldest key first. This is the same
as removing those keys one after the other, in the order of the index. -/
theorem removal_frees_what_it_removes (hd : d.Orderly)
    (ho : (Region.openAt c).result d = (.ok p.2, p.1)) (hr : Run Trial p events q)
    (ha : q.2.alive) {x : Target} {answer : Except Error Bool}
    (hstep : Step q (.called x.call answer) q') :
    (∃ any : Bool, answer = .ok any ∧ (any ↔ ∃ k ∈ q.2.store.index.keys, x.Matches k)) ∧
    (∀ k, q'.2.store.index.get? k = if x.Matches k then none else q.2.store.index.get? k) ∧
    q'.2.store.index.toList = q.2.store.index.toList.filter (¬ x.Matches ·.1) ∧
    q'.2.store.free = q.2.store.free.releaseAll
      ((q.2.store.index.toList.filter (x.Matches ·.1)).map (·.2)) ∧
    (q'.1 = q.1 ∧ q'.2.store.dataFile = q.2.store.dataFile ∧
      q'.2.store.keyFile = q.2.store.keyFile) ∧
    q'.2.store = (q.2.store.index.keys.filter (x.Matches ·)).foldl Store.drop q.2.store := by
  obtain ⟨D, P, g, hanchored, -⟩ := hr.anchored hd ho
  have hc := hanchored.store.within.coherent
  obtain ⟨hremoved, hc', hlist, -⟩ := hc.removeWhere x.takes
  obtain ⟨r', hresult, hstore⟩ := perform_removal hc ha x q.1
  rw [hstep.result_of_called] at hresult
  obtain ⟨hanswer, rfl⟩ := Prod.mk.inj hresult
  have htakes := x.takes_eq
  dsimp only at hstore ⊢
  rw [hstore]
  refine ⟨⟨_, hanswer, ?_⟩, fun k => ?_, ?_, ?_, ⟨rfl, rfl, rfl⟩, ?_⟩
  · show (!(q.2.store.index.removeWhere x.takes).1.isEmpty) ↔ _
    rw [hremoved, ← hc.keys_toList]
    simp [htakes]
  · show (q.2.store.index.removeWhere x.takes).2.get? k = _
    rw [hc.get?_of_filter hc' hlist, htakes]
    simp
  · show (q.2.store.index.removeWhere x.takes).2.toList = _
    rw [hlist, htakes]
    exact List.filter_congr fun e _ => by simp
  · show q.2.store.free.releaseAll ((q.2.store.index.removeWhere x.takes).1.map (·.2)) = _
    rw [hremoved, htakes]
  · rw [Store.removeWhere_eq_foldl, htakes]

/-- Two names go, of which the free list keeps the longer slot; an attribute whose group has the
name that is removed stays, and so does a name that only begins alike. -/
theorem names_below_are_removed : ∃ p q q' : World,
    (Region.openAt (roomFor 4)).result .empty = (.ok p.2, p.1) ∧
    Run Trial p [.called (.put (note "h:1" [])) (.ok ()), .called (.put (note "h" [])) (.ok ()),
      .called (.put { note "" [] with key := .attribute ⟨"a", "h:"⟩ "1" }) (.ok ()),
      .called (.put (note "h:" [1, 2])) (.ok ())] q ∧
    Step q (.called (.remove (.name "h:")) (.ok true)) q' ∧
    q'.2.store.index.keys = [.name "h", .attribute ⟨"a", "h:"⟩ "1"] ∧
    q'.2.store.free.toList = (q.2.store.index.get? (.name "h:")).toList ∧
    q'.2.store = [Key.name "h:1", Key.name "h:"].foldl Store.drop q.2.store := by
  have h : ((opened? (roomFor 4) .empty).map fun p =>
      let q₁ := (Call.put (note "h:1" [])).perform.result p
      let q₂ := (Call.put (note "h" [])).perform.result q₁.2
      let q₃ := (Call.put { note "" [] with key := .attribute ⟨"a", "h:"⟩ "1" }).perform.result q₂.2
      let q₄ := (Call.put (note "h:" [1, 2])).perform.result q₃.2
      let q₅ := (Call.remove (.name "h:")).perform.result q₄.2
      decide ((q₁.1 = .ok () ∧ q₂.1 = .ok () ∧ q₃.1 = .ok () ∧ q₄.1 = .ok () ∧ q₅.1 = .ok true) ∧
        q₄.2.2.alive ∧ q₅.2.2.store.index.keys = [.name "h", .attribute ⟨"a", "h:"⟩ "1"] ∧
        q₅.2.2.store.free.toList = (q₄.2.2.store.index.get? (.name "h:")).toList ∧
        q₄.2.2.store.index.keys.filter ((Target.key (.name "h:")).Matches ·) =
          [.name "h:1", .name "h:"])) = some true := by
    decide +kernel
  obtain ⟨p, hp, h⟩ := Option.map_eq_some_iff.1 h
  obtain ⟨⟨h₁, h₂, h₃, h₄, h₅⟩, ha, hkeys, hfree, hgone⟩ := of_decide_eq_true h
  have ho := opened?_eq_some_iff.1 hp
  have hr := ((((Run.nil p).ask _ h₁).ask _ h₂).ask _ h₃).ask _ h₄
  obtain ⟨-, -, -, -, -, hstore⟩ := removal_frees_what_it_removes empty_healthy.orderly ho hr ha
    (x := .key (.name "h:")) (.of_result h₅)
  exact ⟨p, _, _, ho, hr, .of_result h₅, hkeys, hfree, hgone ▸ hstore⟩

end Region

end DiskTier
