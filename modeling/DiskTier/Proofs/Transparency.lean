import DiskTier.Proofs.Refinement

/-!
# Compaction cannot be noticed

A region answers as a bounded map does while it is compacted, however its calls and the holds of the
pass alternate. When the draft is installed, the keys and their records stay as they are; only the
order of the keys may change.
-/

namespace DiskTier.Region

open FileSystem

variable {c : Config} {p q q' : World} {d d' : FileSystem} {r r' : Region} {data data' : Bytes}
  {H H' : List Element} {listed listed' : List (Key × Slot)} {events : List Event}

/-- The two regions have the same keys with the same records, and room for the same number. -/
structure SameRecords (p q : World) : Prop where
  keys : q.2.store.index.keys.Perm p.2.store.index.keys
  records : ∀ k, recordOf? q k = recordOf? p k
  capacity : q.2.store.index.capacity = p.2.store.index.capacity

theorem sameRecords_of_perm (h : Sound H d r data listed) (h' : Sound H' d' r' data' listed')
    (hconf : r'.config = r.config)
    (hperm : (r'.store.index.records data').Perm (r.store.index.records data)) :
    SameRecords (d, r) (d', r') := by
  have hc := h.intact.sound.coherent
  have hc' := h'.intact.sound.coherent
  refine ⟨?_, fun k => ?_, ?_⟩
  · have hkeys := hperm.map (·.1)
    rw [hc.keys_records, hc'.keys_records] at hkeys
    exact hkeys
  · have hfind := Assoc.find?_eq_of_perm (hc'.nodup_records data') hperm k
    rw [hc'.find?_records, hc.find?_records] at hfind
    rw [h'.recordOf?_eq, h.recordOf?_eq, hfind]
  · show r'.store.index.capacity = r.store.index.capacity
    rw [h'.intact.capacity, h.intact.capacity, hconf]

theorem sameRecords_of_held {installed : Bool} (h : IsSound H q)
    (he : Undisturbed q (.held installed) q') : SameRecords q q' := by
  obtain ⟨data, listed, h⟩ := h
  obtain ⟨hstep, -, hkept⟩ := he
  have hsame := hkept installed rfl
  cases hstep with
  | held harrange q =>
    obtain ⟨d', r', data', listed', hr, h', hconf, -, -, -, hcases⟩ := holdPass_spec h harrange
    rw [hr] at hsame ⊢
    rcases hcases with ⟨-, -, hperm, -⟩ | ⟨-, hstay⟩
    · exact sameRecords_of_perm h h' hconf hperm
    · obtain ⟨hindex, rfl, -⟩ := hstay hsame
      exact sameRecords_of_perm h h' hconf (hindex ▸ .refl _)

/-- However calls and holds of passes alternate, reads find what was put last, and each hold, that
which installs the draft too, leaves every key with its record. -/
theorem compaction_unnoticed (h : OpenedEmpty c p) (hr : Run Undisturbed p events q) :
    (∃ m, Run Lru.Step (.empty c) events m ∧ Presents q m) ∧
      ∀ installed q', Undisturbed q (.held installed) q' → SameRecords q q' := by
  obtain ⟨m, hm, hq⟩ := hr.exists_run h
  obtain ⟨H, data, listed, hsound, -⟩ := hq.records
  exact ⟨⟨m, hm, hq.presents⟩, fun installed q' he => sameRecords_of_held ⟨data, listed, hsound⟩ he⟩

/-- A key that is put while a pass copies another one is there when the draft is installed. -/
theorem put_survives_compaction : ∃ (p q q' : World) (events : List Event),
    OpenedEmpty (roomFor 2) p ∧ Run Undisturbed p events q ∧
    events = [.called (.put (note "x" [1, 2])) (.ok ()), .called .requestCompaction (.ok true),
      .held false, .called (.put (note "y" [1])) (.ok ()), .held false, .held false] ∧
    Undisturbed q (.held true) q' ∧ q'.2.size = 2 ∧
    (∃ m, Run Lru.Step (.empty (roomFor 2)) events m ∧ Presents q m) ∧ SameRecords q q' := by
  have h : (opened? (roomFor 2) .empty).map (fun p =>
      let q₁ := (Call.put (note "x" [1, 2])).perform.result p
      let q₂ := Call.requestCompaction.perform.result q₁.2
      let q₃ := ((holdPass id).run q₂.2).2
      let q₄ := (Call.put (note "y" [1])).perform.result q₃
      let q₅ := ((holdPass id).run q₄.2).2
      let q₆ := ((holdPass id).run q₅).2
      let q₇ := ((holdPass id).run q₆).2
      let held := fun (q q' : World) (installed : Bool) =>
        decide (q.2.compactions < q'.2.compactions) = installed ∧
          q'.2.store.generation = q.2.store.generation
      decide (p.2.size = 0 ∧ q₁.1 = .ok () ∧ q₂.1 = .ok true ∧ held q₂.2 q₃ false ∧ q₄.1 = .ok () ∧
        held q₄.2 q₅ false ∧ held q₅ q₆ false ∧ held q₆ q₇ true ∧ q₇.2.size = 2)) = some true := by
    decide +kernel
  obtain ⟨p, hp, h⟩ := Option.map_eq_some_iff.1 h
  obtain ⟨hsize, h₁, h₂, ⟨h₃, hg₃⟩, h₄, ⟨h₅, hg₅⟩, ⟨h₆, hg₆⟩, ⟨h₇, hg₇⟩, hend⟩ :=
    of_decide_eq_true h
  have ho := openedEmpty_of_eq empty_healthy hp hsize
  have hr := ((((((Run.nil p).serve _ h₁).serve _ h₂).snoc (.hold h₃ hg₃)).serve _ h₄).snoc
    (.hold h₅ hg₅)).snoc (.hold h₆ hg₆)
  obtain ⟨hmap, hsame⟩ := compaction_unnoticed ho hr
  have hswap := Undisturbed.hold h₇ hg₇
  exact ⟨p, _, _, _, ho, hr, rfl, hswap, hend, hmap, hsame true _ hswap⟩

end DiskTier.Region
