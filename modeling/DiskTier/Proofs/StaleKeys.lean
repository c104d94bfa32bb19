import DiskTier.Proofs.Run

/-!
# Reads that cannot be misled

After a crash the index says where records lay when it was saved last, and the bytes there may have
been written over since. A read still gives a whole element that was once put under the key, or an
error: the bytes in a slot of the index begin with a whole record, and one that has more bytes
behind it is refused.
-/

namespace DiskTier

namespace Store

variable {H : List Element} {k : Key} {slot : Slot} {bytes : Bytes} {e : Element}

/-- Of layered bytes a read gives what is a whole record of the key. -/
theorem found_eq_ok_iff (h : Layered H bytes) :
    found k slot bytes = .ok (some e) ↔ e.key = k ∧ bytes = e.encode := by
  constructor
  · intro hfound
    unfold found at hfound
    cases hd : Element.decode bytes with
    | error fault =>
      rw [hd] at hfound
      cases hfound
    | ok e' =>
      rw [hd] at hfound
      simp only at hfound
      split at hfound
      · next hk =>
        cases hfound
        exact ⟨hk, (h.decode_eq_ok hd).2⟩
      · cases hfound
  · rintro ⟨hk, rfl⟩
    rw [found, Element.decode_encode]
    simp only [hk, if_true]

theorem found_ne_none : found k slot bytes ≠ .ok none := by
  unfold found
  split
  · intro h
    cases h
  · split <;> intro h <;> cases h

end Store

namespace Region

open FileSystem

/-- What a read of `k` may answer after these events. -/
structure Trusted (events : List Event) (p : World) (k : Key)
    (answer : Except Error (Option Element)) : Prop where
  /-- An element is one that was put under the key, and its record lies there as a whole. -/
  found : ∀ e, answer = .ok (some e) →
    e.key = k ∧ .called (.put e) (.ok ()) ∈ events ∧ recordOf? p k = some e.encode
  /-- Nothing is found only if the index does not have the key. -/
  missing : answer = .ok none → p.2.alive → p.2.store.index.get? k = none
  /-- Bytes that are no whole record of the key are refused. -/
  refused : p.2.alive → ∀ bytes, recordOf? p k = some bytes →
    (∀ e : Element, e.key = k → bytes ≠ e.encode) → ∃ err, answer = .error err
  /-- Nothing else is refused. -/
  sound : ∀ err, answer = .error err →
    ∃ bytes, recordOf? p k = some bytes ∧ ∀ e : Element, e.key = k → bytes ≠ e.encode

variable {c : Config} {p q : World} {d : FileSystem} {r : Region} {data : Bytes}
  {listed : List (Key × Slot)} {events : List Event}

theorem Sound.trusted (h : Sound (Event.stored events) d r data listed) (k : Key) :
    Trusted events (d, r) k ((lookup k).result (d, r)).1 := by
  have hrecord := h.recordOf?_eq k
  cases ha : r.alive with
  | false =>
    rw [result_lookup_dead ha]
    refine ⟨fun e he => ?_, fun _ halive => ?_, fun halive => ?_, fun err he => ?_⟩
    · cases he
    · exact absurd halive (by simp [ha])
    · exact absurd halive (by simp [ha])
    · cases he
  | true =>
    obtain ⟨d', r', hr, -⟩ := lookup_spec h ha k
    rw [hr]
    unfold Store.foundIn
    cases hk : r.store.index.get? k with
    | none =>
      rw [hk] at hrecord
      refine ⟨fun e he => ?_, fun _ _ => hk, fun _ bytes hb => ?_, fun err he => ?_⟩
      · cases he
      · rw [hrecord] at hb
        cases hb
      · cases he
    | some slot =>
      -- whatever was written there since, the bytes begin with a record and end like one
      rw [hk, Option.map_some] at hrecord
      have hmem := List.mem_append_left (listed.map (·.2)) (h.intact.sound.mem_slots hk)
      have hlayered := h.intact.sound.layered slot hmem
      have hiff : ∀ e, Store.found k slot (slot.slice data) = .ok (some e) ↔
          e.key = k ∧ slot.slice data = e.encode := fun e => Store.found_eq_ok_iff hlayered
      have hnone : Store.found k slot (slot.slice data) ≠ .ok none := Store.found_ne_none
      simp only
      refine ⟨fun e he => ?_, fun hn => absurd hn hnone, fun _ bytes hb hne => ?_, fun err he => ?_⟩
      · obtain ⟨hkey, hbytes⟩ := (hiff e).1 he
        refine ⟨hkey, Event.mem_stored_iff.1 ?_, hrecord.trans (congrArg some hbytes)⟩
        exact (hlayered.decode_eq_ok (hbytes ▸ e.decode_encode)).1
      · cases hrecord.symm.trans hb
        rcases hf : Store.found k slot (slot.slice data) with err | _ | e
        · exact ⟨err, rfl⟩
        · exact absurd hf hnone
        · obtain ⟨hkey, hbytes⟩ := (hiff e).1 hf
          exact absurd hbytes (hne e hkey)
      · refine ⟨_, hrecord, fun e hkey hbytes => ?_⟩
        rw [(hiff e).2 ⟨hkey, hbytes⟩] at he
        cases he

/-- After every run from an empty region, crashes included, reads can be trusted. -/
theorem trusted_of_run (h : OpenedEmpty c p) (hr : Run Step p events q) (k : Key) :
    Trusted events q k ((lookup k).result q).1 ∧
      Trusted events q k ((Region.get k).result q).1 := by
  obtain ⟨data, listed, hsound⟩ := hr.isSound h
  have htrusted : Trusted events q k ((lookup k).result q).1 := hsound.trusted k
  refine ⟨htrusted, ?_⟩
  -- a read answers what its first half answers
  rw [result_get]
  rcases hr : (lookup k).result q with ⟨e | found, q'⟩ <;> rw [hr] at htrusted
  · exact htrusted
  · exact htrusted

/-- A key file from before a removal lists a slot that now begins with a shorter record. -/
theorem trusted_after_crash : ∃ p q : World, OpenedEmpty (roomFor 2) p ∧
    Run Step p [.called (.put (note "x" [1, 2])) (.ok ()), .called .saveKeys (.ok ()),
      .called (.remove (.name "x")) (.ok true), .called (.put (note "y" [1])) (.ok ()),
      .reopened (roomFor 2)] q ∧
    ((Region.get (.name "x")).result q).1.isOk = false ∧
    Trusted [.called (.put (note "x" [1, 2])) (.ok ()), .called .saveKeys (.ok ()),
      .called (.remove (.name "x")) (.ok true), .called (.put (note "y" [1])) (.ok ()),
      .reopened (roomFor 2)] q (.name "x") ((Region.get (.name "x")).result q).1 := by
  have h : ((opened? (roomFor 2) .empty).bind fun p =>
      let q₁ := (Call.put (note "x" [1, 2])).perform.result p
      let q₂ := Call.saveKeys.perform.result q₁.2
      let q₃ := (Call.remove (.name "x")).perform.result q₂.2
      let q₄ := (Call.put (note "y" [1])).perform.result q₃.2
      (opened? (roomFor 2) q₄.2.1).map fun q =>
        decide (p.2.size = 0 ∧ q₁.1 = .ok () ∧ q₂.1 = .ok () ∧ q₃.1 = .ok true ∧ q₄.1 = .ok () ∧
        (q₄.2.2.config.cacheName = "a" ∧ q₄.2.2.config.diskPath = ⟨"d"⟩) ∧
        ((Region.get (.name "x")).result q).1.isOk = false)) = some true := by
    decide +kernel
  obtain ⟨p, hp, h⟩ := Option.bind_eq_some_iff.1 h
  obtain ⟨q, hq, h⟩ := Option.map_eq_some_iff.1 h
  obtain ⟨hsize, h₁, h₂, h₃, h₄, ⟨hname, hpath⟩, hget⟩ := of_decide_eq_true h
  have ho := openedEmpty_of_eq empty_healthy hp hsize
  have hr :=
    (((((Run.nil p).call _ h₁).call _ h₂).call _ h₃).call _ h₄).reopen hname.symm hpath.symm hq
  exact ⟨p, q, ho, hr, hget, (trusted_of_run ho hr _).2⟩

end Region

end DiskTier
