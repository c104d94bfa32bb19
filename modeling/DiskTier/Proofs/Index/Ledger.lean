import DiskTier.Proofs.Codec.Record
import DiskTier.Proofs.Index.Recency

/-!
# The ledger of an index

An entry that is given to an index stays there until it leaves in one of two ways: a request returns
it to the caller, or it has to go because there is no room for it, and is reported as evicted. So
what was given is at any time what is held, what was returned and what was reported, each entry as
often on the one side as on the other. Entries and not slots alone are counted, which says of every
slot whose it was.
-/

namespace DiskTier

namespace Index

variable {i j : Index} {k : Key}

/-! ### What goes in and what comes out -/

/-- The entries that a request gives to the index. -/
def Request.given : Request → List (Key × Slot)
  | .insert k s => [(k, s)]
  | _ => []

/-- The entries that a request returns: those that it asks for, and the one that an insert
replaces. -/
def returned : Request → Reply → List (Key × Slot)
  | .insert k _, .inserted previous _ => (previous.map (k, ·)).toList
  | .remove k, .removed slot => (slot.map (k, ·)).toList
  | .removeWhere _, .removedWhere entries => entries
  | .popOldest, .popped entry => entry.toList
  | _, _ => []

/-- The entries that are reported as evicted. -/
def Reply.evicted : Reply → List (Key × Slot)
  | .inserted _ evicted => evicted
  | .resized evicted => evicted
  | _ => []

/-- The entries in the map from keys to slots, in no certain order. -/
def held (i : Index) : List (Key × Slot) := i.entries.map fun p => (p.1, p.2.slot)

/-- The books of one request. -/
structure Balanced (i : Index) (request : Request) : Prop where
  /-- An entry that was there or is given stays, is returned or is reported. -/
  balance : (i.held ++ request.given).Perm
    ((i.respond request).2.held ++ returned request (i.respond request).1 ++
      (i.respond request).1.evicted)
  /-- A key that is reported is reported once, and is not there any more. -/
  once : (((i.respond request).1.evicted ++ (i.respond request).2.held).map (·.1)).Nodup

/-- The books of a run. -/
def BalancedOver (i : Index) (requests : List Request) : Prop :=
  let run := serveAll respond i requests
  (i.held ++ requests.flatMap Request.given).Perm
    (run.2.held ++ (List.zipWith returned requests run.1).flatten ++
      run.1.flatMap Reply.evicted)

/-! ### What is held -/

/-- The two maps of an index have the same entries. -/
theorem Coherent.held_perm (h : i.Coherent) : i.held.Perm i.toList := by
  have hkeys : i.held.map (·.1) = i.entries.map (·.1) := by rw [held, List.map_map]; rfl
  have hnodup : (i.held.map (·.1)).Nodup := hkeys ▸ h.distinct
  rw [List.perm_ext_iff_of_nodup (.of_map _ hnodup) (.of_map _ h.nodup_toList)]
  rintro ⟨k, s⟩
  rw [h.mem_toList_iff, get?, Option.map_eq_some_iff, held, List.mem_map]
  constructor
  · rintro ⟨⟨k', e⟩, he, heq⟩
    cases heq
    exact ⟨e, (Assoc.find?_eq_some_iff h.distinct).2 he, rfl⟩
  · rintro ⟨e, he, rfl⟩
    exact ⟨(k, e), Assoc.mem_of_find?_eq_some he, rfl⟩

/-! ### One request -/

/-- What a request does to the list of entries balances its books. -/
theorem Coherent.balanced_of (h : i.Coherent) {request : Request} {reply : Reply}
    (hr : i.respond request = (reply, j)) (hj : j.Coherent)
    (hbalance : (i.toList ++ request.given).Perm
      (j.toList ++ returned request reply ++ reply.evicted))
    (honce : ((reply.evicted ++ j.toList).map (·.1)).Nodup) : i.Balanced request := by
  constructor
  · rw [hr]
    refine (h.held_perm.append_right _).trans (hbalance.trans ?_)
    exact (hj.held_perm.symm.append_right _).append_right _
  · rw [hr]
    exact ((hj.held_perm.append_left _).map _).nodup_iff.2 honce

theorem Coherent.balanced_insert (h : i.Coherent) (k : Key) (s : Slot) :
    i.Balanced (.insert k s) := by
  obtain ⟨-, hevicted, hcoh, hlist, -⟩ := h.insert k s
  refine h.balanced_of rfl hcoh (h.insert_perm k s) ?_
  show (((i.insert k s).evicted ++ (i.insert k s).index.toList).map (·.1)).Nodup
  rw [hevicted, hlist, List.take_append_drop]
  exact h.nodup_placed k s

/-- If nothing is reported, the keys that are left are told apart anyway. -/
theorem Coherent.once_of_none (h : i.Coherent) {reply : Reply} (hr : reply.evicted = []) :
    ((reply.evicted ++ i.toList).map (·.1)).Nodup := by
  rw [hr, List.nil_append, h.keys_toList]
  exact h.nodup_keys

theorem Coherent.balanced_remove (h : i.Coherent) (k : Key) : i.Balanced (.remove k) := by
  have hcoh := h.remove k
  refine h.balanced_of rfl hcoh ?_ (hcoh.once_of_none rfl)
  show (i.toList ++ []).Perm
    ((i.remove k).2.toList ++ ((i.remove k).1.map (k, ·)).toList ++ [])
  rw [List.append_nil, List.append_nil, remove_fst, h.toList_remove]
  exact (h.toList_perm k).trans List.perm_append_comm

theorem Coherent.balanced_removeWhere (h : i.Coherent) (p : Key → Bool) :
    i.Balanced (.removeWhere p) := by
  obtain ⟨hremoved, hcoh, hlist, -⟩ := h.removeWhere p
  refine h.balanced_of rfl hcoh ?_ (hcoh.once_of_none rfl)
  show (i.toList ++ []).Perm ((i.removeWhere p).2.toList ++ (i.removeWhere p).1 ++ [])
  rw [List.append_nil, List.append_nil, hremoved, hlist]
  exact (List.filter_append_perm (p ·.1) i.toList).symm.trans List.perm_append_comm

theorem Coherent.balanced_popOldest (h : i.Coherent) : i.Balanced .popOldest := by
  rcases h.popOldest with ⟨-, hpop⟩ | ⟨k, s, hhead, hpop, htail⟩
  · have hr : i.respond .popOldest = (.popped none, i) := by rw [respond, hpop]
    refine h.balanced_of hr h ?_ (h.once_of_none rfl)
    show (i.toList ++ []).Perm (i.toList ++ [] ++ [])
    rw [List.append_nil, List.append_nil]
  · have hr : i.respond .popOldest = (.popped (some (k, s)), (i.remove k).2) := by
      rw [respond, hpop]
    have hcoh := h.remove k
    refine h.balanced_of hr hcoh ?_ (hcoh.once_of_none rfl)
    show (i.toList ++ []).Perm ((i.remove k).2.toList ++ [(k, s)] ++ [])
    rw [List.append_nil, List.append_nil, htail, ← List.cons_head?_tail hhead, List.tail_cons]
    exact (List.perm_append_singleton _ _).symm

theorem Coherent.balanced_setCapacity (h : i.Coherent) (n : Nat) :
    i.Balanced (.setCapacity n) := by
  obtain ⟨hevicted, hcoh, hlist, -⟩ := h.setCapacity n
  have hsplit : (i.setCapacity n).1 ++ (i.setCapacity n).2.toList = i.toList := by
    rw [hevicted, hlist, List.take_append_drop]
  refine h.balanced_of rfl hcoh ?_ ?_
  · show (i.toList ++ []).Perm ((i.setCapacity n).2.toList ++ [] ++ (i.setCapacity n).1)
    rw [List.append_nil, List.append_nil, ← hsplit]
    exact List.perm_append_comm
  · show (((i.setCapacity n).1 ++ (i.setCapacity n).2.toList).map (·.1)).Nodup
    rw [hsplit, h.keys_toList]
    exact h.nodup_keys

theorem Coherent.balanced (h : i.Coherent) (request : Request) : i.Balanced request := by
  cases request with
  | insert k s => exact h.balanced_insert k s
  | remove k => exact h.balanced_remove k
  | removeWhere p => exact h.balanced_removeWhere p
  | popOldest => exact h.balanced_popOldest
  | setCapacity n => exact h.balanced_setCapacity n

/-! ### Any number of requests -/

theorem Coherent.respond (h : i.Coherent) (request : Request) :
    (i.respond request).2.Coherent := by
  cases request with
  | insert k s => exact (h.insert k s).2.2.1
  | remove k => exact h.remove k
  | removeWhere p => exact (h.removeWhere p).2.1
  | popOldest =>
    rcases h.popOldest with ⟨-, hpop⟩ | ⟨k, s, -, hpop, -⟩
    · rw [Index.respond, hpop]
      exact h
    · rw [Index.respond, hpop]
      exact h.remove k
  | setCapacity n => exact (h.setCapacity n).2.1

theorem Coherent.serveAll (h : i.Coherent) (requests : List Request) :
    (serveAll Index.respond i requests).2.Coherent := by
  induction requests generalizing i with
  | nil => exact h
  | cons request requests ih => exact ih (h.respond request)

/-- What balances with each request balances over a run. -/
theorem Coherent.balancedOver (h : i.Coherent) (requests : List Request) :
    i.BalancedOver requests := by
  induction requests generalizing i with
  | nil =>
    show (i.held ++ []).Perm (i.held ++ [] ++ [])
    simp
  | cons request requests ih =>
    have hrest := ih (h.respond request)
    have hfirst := (h.balanced request).balance
    unfold BalancedOver at hrest ⊢
    simp only [Index.serveAll, List.flatMap_cons, List.zipWith_cons_cons, List.flatten_cons]
    rw [List.perm_iff_count] at hfirst hrest ⊢
    intro e
    have hfirst := hfirst e
    have hrest := hrest e
    simp only [List.count_append] at hfirst hrest ⊢
    omega

/-! ### From the beginning -/

/-- The books balance, whatever is asked. -/
def Accounted (i : Index) : Prop :=
  ∀ requests, i.BalancedOver requests ∧
    ∀ request, (serveAll respond i requests).2.Balanced request

theorem Coherent.accounted (h : i.Coherent) : i.Accounted := fun requests =>
  ⟨h.balancedOver requests, (h.serveAll requests).balanced⟩

/-- **No slot is lost, and none is there twice.** Whatever is asked of an index that began empty, or
that a snapshot was read into, the entries that were given to it are those that it holds, those that
it returned and those that it reported as evicted, each as often as it was given. With each request,
a key that is reported is reported once and gone, and with it comes the slot that it had. Of a
snapshot this holds whatever it lists: more entries than there is room for, or a key again and
again. -/
theorem no_slot_is_lost (capacity : Nat) :
    (empty capacity).Accounted ∧
      ∀ {bytes : Bytes} {entries : List (Key × Slot)}, Snapshot.decode bytes = .ok entries →
        ∃ (reported : List (Key × Slot)) (i : Index),
          ofSnapshot bytes capacity = .ok (reported, i) ∧
          entries.Perm (i.held ++ reported) ∧ i.Accounted := by
  refine ⟨(empty_coherent capacity).accounted, fun {bytes entries} hread => ?_⟩
  obtain ⟨hcoh, hperm⟩ := (empty_coherent capacity).insertAll_perm entries
  refine ⟨((empty capacity).insertAll entries).1, ((empty capacity).insertAll entries).2, ?_,
    hperm.trans (hcoh.held_perm.symm.append_right _), hcoh.accounted⟩
  rw [ofSnapshot, hread]
  rfl

/-- A key that comes three times, when there is room for one: it is replaced once and evicted once
before it comes for the last time, and all of this is reported. -/
theorem repeated_key_is_accounted_for :
    let a : Key := .name "a"
    let b : Key := .attribute { cacheName := "c", groupName := "g" } "b"
    let bytes := Snapshot.encode [(a, ⟨0, 4⟩), (a, ⟨4, 2⟩), (b, ⟨6, 3⟩), (a, ⟨9, 0⟩)]
    Snapshot.decode bytes = .ok [(a, ⟨0, 4⟩), (a, ⟨4, 2⟩), (b, ⟨6, 3⟩), (a, ⟨9, 0⟩)] ∧
      ∃ (reported : List (Key × Slot)) (i : Index), ofSnapshot bytes 1 = .ok (reported, i) ∧
        reported = [(a, ⟨0, 4⟩), (a, ⟨4, 2⟩), (b, ⟨6, 3⟩)] ∧ i.held = [(a, ⟨9, 0⟩)] ∧
        [(a, ⟨0, 4⟩), (a, ⟨4, 2⟩), (b, ⟨6, 3⟩), (a, ⟨9, 0⟩)].Perm (i.held ++ reported) ∧
        i.BalancedOver [.insert b ⟨20, 1⟩, .insert b ⟨21, 2⟩, .setCapacity 0] := by
  intro a b bytes
  have hread : Snapshot.decode bytes = .ok [(a, ⟨0, 4⟩), (a, ⟨4, 2⟩), (b, ⟨6, 3⟩), (a, ⟨9, 0⟩)] :=
    Snapshot.decode_encode _
  obtain ⟨reported, i, hi, hperm, hbooks⟩ := (no_slot_is_lost 1).2 hread
  have hloaded := hi
  rw [ofSnapshot, hread] at hloaded
  obtain ⟨rfl, rfl⟩ := Prod.mk.inj (Except.ok.inj hloaded)
  exact ⟨hread, _, _, hi, by decide, by decide, hperm, (hbooks _).1⟩

end Index

end DiskTier
