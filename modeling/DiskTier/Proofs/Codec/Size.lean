import DiskTier.Http.SetRequest
import DiskTier.Proofs.Codec.Record
import Mathlib

/-!
# How large things get

What a request to store says is not much larger than its body, and the record of an element is not
much larger than what the element holds. The bounds are generous: they only have to show that a slot
can hold whatever a body of the greatest size asks to store.

On the way in, `Within n P` says of a reader that whatever it takes off an input of at most `n` bytes
is a `P`. A reader that is made of others is within what they are.
-/

namespace DiskTier

/-! ### Texts -/

namespace Utf8

theorem length_encodeChar (c : Char) : 1 ≤ (encodeChar c).length ∧ (encodeChar c).length ≤ 4 := by
  unfold encodeChar
  dsimp only
  split_ifs <;> simp

/-- A text has at least as many bytes as characters. -/
theorem length_le_size (s : String) : s.toList.length ≤ size s := by
  unfold size encode
  induction s.toList with
  | nil => exact Nat.le_refl 0
  | cons c cs ih =>
    have hc := (length_encodeChar c).1
    rw [List.flatMap_cons, List.length_append, List.length_cons]
    omega

/-- A text has at most four bytes for each character. -/
theorem size_le (s : String) : size s ≤ 4 * s.toList.length := by
  unfold size encode
  induction s.toList with
  | nil => exact Nat.le_refl 0
  | cons c cs ih =>
    have hc := (length_encodeChar c).2
    rw [List.flatMap_cons, List.length_append, List.length_cons]
    omega

theorem length_charsOnto {acc cs : List Char} {s : Bytes} (h : charsOnto acc s = some cs) :
    cs.length ≤ acc.length + s.length := by
  fun_induction charsOnto acc s with
  | case1 acc s hf =>
    cases h
    rw [List.length_reverse]
    exact Nat.le_add_right _ _
  | case2 acc s c r hf hlt ih =>
    have hle := ih h
    rw [List.length_cons] at hle
    omega
  | case3 => cases h

/-- Bytes that are a text have a byte for each character. -/
theorem length_le_of_decode? {t : String} {s : Bytes} (h : decode? s = some t) :
    t.toList.length ≤ s.length := by
  obtain ⟨cs, hcs, rfl⟩ := Option.map_eq_some_iff.1 h
  rw [String.toList_ofList]
  simpa using length_charsOnto hcs

theorem lossyCharsOnto_encode (acc cs : List Char) :
    lossyCharsOnto acc (cs.flatMap encodeChar) = acc.reverse ++ cs := by
  induction cs generalizing acc with
  | nil =>
    rw [List.flatMap_nil, lossyCharsOnto]
    split
    · rw [List.append_nil]
    · next h => cases h
    · next h => cases h
  | cons c cs ih =>
    rw [List.flatMap_cons, lossyCharsOnto]
    split
    · next h =>
      rw [front_encodeChar] at h
      cases h
    · next d r h =>
      rw [front_encodeChar] at h
      cases h
      rw [ih, List.reverse_cons, List.append_assoc]
      rfl
    · next h =>
      rw [front_encodeChar] at h
      cases h

/-- A text is shown as it was stored. -/
theorem decodeLossy_encode (s : String) : decodeLossy (encode s) = s := by
  rw [decodeLossy, encode, lossyCharsOnto_encode, List.reverse_nil, List.nil_append,
    String.ofList_toList]

end Utf8

/-! ### Writing -/

theorem Decimal.length_ofNat_le {n k : Nat} (hk : 0 < k) (hn : n < 10 ^ k) :
    (ofNat n).length ≤ k := by
  rw [ofNat, List.length_map]
  exact Nat.toDigits_length 10 n k hk hn

theorem Decimal.length_ofInt_le {n : Int} (k : Nat) (hk : 0 < k) (hn : n.natAbs < 10 ^ k) :
    (ofInt n).length ≤ k + 1 := by
  cases n with
  | ofNat n => exact Nat.le_succ_of_le (length_ofNat_le hk hn)
  | negSucc n => exact Nat.succ_le_succ (length_ofNat_le hk hn)

namespace Json

open Reader

theorem length_escapeChar_le (c : Char) : (escapeChar c).length ≤ 6 := by
  have hsize : ∀ c, (Utf8.encodeChar c).length ≤ 4 := fun c => (Utf8.length_encodeChar c).2
  unfold escapeChar
  split
  · next letter _ =>
    have hletter := hsize letter
    rw [List.length_cons]
    omega
  · split
    · simp
    · exact (hsize c).trans (by decide)

theorem length_quoted_le (s : String) : (quoted s).length ≤ 6 * Utf8.size s + 2 := by
  have hchars := Utf8.length_le_size s
  have hescaped : (s.toList.flatMap escapeChar).length ≤ 6 * s.toList.length := by
    induction s.toList with
    | nil => exact Nat.le_refl 0
    | cons c cs ih =>
      have hc := length_escapeChar_le c
      rw [List.flatMap_cons, List.length_append, List.length_cons]
      omega
  rw [quoted, List.length_append, List.length_cons, List.length_singleton]
  omega

theorem length_commaSeparated_le (parts : List Bytes) :
    (commaSeparated parts).length ≤ (parts.map (·.length + 1)).sum := by
  cases parts with
  | nil => exact Nat.le_refl 0
  | cons part parts =>
    have hrest : (parts.flatMap (Ascii.comma :: ·)).length = (parts.map (·.length + 1)).sum := by
      rw [List.length_flatMap]
      rfl
    rw [commaSeparated_cons, List.length_append, hrest, List.map_cons, List.sum_cons]
    omega

namespace Value

theorem length_render_list_le (items : List Value) :
    (Value.list items).render.length ≤ (items.map fun v => v.render.length + 1).sum + 2 := by
  have h := length_commaSeparated_le (items.map render)
  rw [List.map_map] at h
  rw [render_list, List.length_append, List.length_cons, List.length_singleton]
  exact Nat.add_le_add_right (Nat.succ_le_succ h) 1

theorem length_render_record_le (members : List (String × Value)) :
    (Value.record members).render.length ≤
      (members.map fun m => (quoted m.1).length + m.2.render.length + 2).sum + 2 := by
  have h := length_commaSeparated_le
    ((members.map fun m => (m.1, m.2.render)).map memberBytes)
  have hsum : ((members.map fun m => (m.1, m.2.render)).map memberBytes).map (·.length + 1) =
      members.map fun m => (quoted m.1).length + m.2.render.length + 2 := by
    rw [List.map_map, List.map_map]
    refine List.map_congr_left fun m _ => ?_
    simp only [Function.comp_apply, memberBytes, List.length_append, List.length_cons]
    omega
  rw [hsum] at h
  rw [render_record, List.length_append, List.length_cons, List.length_singleton]
  omega

end Value

end Json

open Json

/-- The bytes of the names that a key is made of. -/
def Key.size : Key → Nat
  | .name n => Utf8.size n
  | .attribute g n => Utf8.size g.cacheName + Utf8.size g.groupName + Utf8.size n

theorem length_memberName : ∀ name ∈ ["cache_name", "key", "value", "attributes", "Name", "Group",
    "group_id", "attr_name", "group_name", "created_at", "max_life_secs"],
      (quoted name).length ≤ 15 := by
  decide +kernel

theorem Key.length_toJson_le (k : Key) : k.toJson.render.length ≤ 6 * k.size + 150 := by
  have hname := length_memberName
  simp only [List.forall_mem_cons] at hname
  have hrecord := Value.length_render_record_le
  rcases k with n | ⟨g, n⟩
  · have hn := length_quoted_le n
    refine (hrecord _).trans ?_
    simp only [List.map_cons, List.map_nil, List.sum_cons, List.sum_nil, Value.render, Key.size]
    omega
  · have hn := length_quoted_le n
    have hc := length_quoted_le g.cacheName
    have hg := length_quoted_le g.groupName
    have hid := hrecord [("cache_name", .text g.cacheName), ("group_name", .text g.groupName)]
    have hmember := hrecord [("group_id", g.toJson), ("attr_name", .text n)]
    refine (hrecord _).trans ?_
    simp only [List.map_cons, List.map_nil, List.sum_cons, List.sum_nil, Value.render, Key.size,
      GroupId.toJson] at hid hmember ⊢
    omega

theorem Attributes.length_toJson_le (a : Attributes) : a.toJson.render.length ≤ 90 := by
  have hname := length_memberName
  simp only [List.forall_mem_cons] at hname
  have hcreated : (Decimal.ofInt a.createdAt.toInt).length ≤ 21 := by
    refine Decimal.length_ofInt_le 20 (by decide) ?_
    have hlow := a.createdAt.le_toInt
    have hhigh := a.createdAt.toInt_lt
    omega
  have hlife : (Value.optional (fun n => .natural n.toNat) a.maxLife : Value).render.length ≤ 21 := by
    cases a.maxLife with
    | none => decide +kernel
    | some n =>
      rw [Value.optional, Value.natural, Value.render]
      refine Decimal.length_ofInt_le 20 (by decide) ?_
      have hn := n.toNat_lt
      omega
  refine (Value.length_render_record_le _).trans ?_
  simp only [List.map_cons, List.map_nil, List.sum_cons, List.sum_nil, Value.render]
  omega

theorem length_valueBytes_le (bytes : Bytes) :
    (Value.list (bytes.map fun b => .natural b.toNat)).render.length ≤ 5 * bytes.length + 2 := by
  have hbyte : ∀ b : UInt8, (Value.natural b.toNat).render.length ≤ 4 := by
    intro b
    rw [Value.natural, Value.render]
    refine Decimal.length_ofInt_le 3 (by decide) ?_
    have hb := b.toNat_lt
    omega
  refine (Value.length_render_list_le _).trans (Nat.add_le_add_right ?_ 2)
  rw [List.map_map]
  induction bytes with
  | nil => exact Nat.le_refl 0
  | cons b bytes ih =>
    have hb := hbyte b
    rw [List.map_cons, List.sum_cons, List.length_cons, Function.comp_apply]
    omega

/-- A record is at most six times as long as the names in it and five times as long as the value,
and some more. -/
theorem Element.length_encode_le (e : Element) :
    e.encode.length ≤ 6 * (Utf8.size e.cacheName + e.key.size) + 5 * e.value.length + 400 := by
  have hname := length_memberName
  simp only [List.forall_mem_cons] at hname
  have hc := length_quoted_le e.cacheName
  have hk := e.key.length_toJson_le
  have hv := length_valueBytes_le e.value
  have ha := e.attributes.length_toJson_le
  refine (Value.length_render_record_le _).trans ?_
  simp only [List.map_cons, List.map_nil, List.sum_cons, List.sum_nil]
  rw [show (Value.text e.cacheName).render = quoted e.cacheName by rw [Value.render]]
  omega

/-! ### Reading -/

namespace Json

namespace Reader

variable {α β σ : Type} {x : Reader α} {n : Nat} {P P' : α → Prop} {Q : β → Prop}

/-- Whatever the reader takes off an input of at most `n` bytes is a `P`. -/
def Within (n : Nat) (P : α → Prop) (x : Reader α) : Prop :=
  ∀ s a r, s.length ≤ n → x.run s = .ok (a, r) → P a

theorem within_true (x : Reader α) : Within n (fun _ => True) x := fun _ _ _ _ _ => trivial

theorem within_pure {a : α} (ha : P a) : Within n P (pure a) := by
  rintro s _ _ - ⟨⟩
  exact ha

theorem within_fail (e : Fault) : Within n P (fail e : Reader α) := by
  rintro s _ _ - ⟨⟩

/-- What is left is no longer than the input. -/
theorem Within.bind {f : α → Reader β} (hx : Within n P x) (hf : ∀ a, P a → Within n Q (f a)) :
    Within n Q (x >>= f) := by
  intro s b r hs h
  rw [run_bind] at h
  cases hr : x.run s with
  | error e =>
    rw [hr] at h
    cases h
  | ok q =>
    obtain ⟨a, t⟩ := q
    rw [hr] at h
    exact hf a (hx s a t hs hr) t b r ((x.length_le hr).trans hs) h

/-- As `Within.bind`, if nothing has to be known of the first value. -/
theorem within_then {f : α → Reader β} (hf : ∀ a, Within n Q (f a)) : Within n Q (x >>= f) :=
  (within_true x).bind fun a _ => hf a

theorem Within.map (hx : Within n P x) {f : α → β} (hf : ∀ a, P a → Q (f a)) :
    Within n Q (f <$> x) := by
  show Within n Q (x >>= fun a => pure (f a))
  exact hx.bind fun a ha => within_pure (hf a ha)

theorem Within.ite {p : Prop} [Decidable p] {y : Reader α} (hx : Within n P x) (hy : Within n P y) :
    Within n P (if p then x else y) := by
  split
  · exact hx
  · exact hy

theorem within_ofOption {o : Option α} (h : ∀ a, o = some a → P a) : Within n P (ofOption o) := by
  cases o with
  | none => exact within_fail _
  | some a => exact within_pure (h a rfl)

theorem within_ofExcept {o : Except Fault α} (h : ∀ a, o = .ok a → P a) :
    Within n P (ofExcept o) := by
  cases o with
  | error e => exact within_fail e
  | ok a => exact within_pure (h a rfl)

theorem Within.content (hx : Within n P x) : Within n P (content x) := within_then fun _ => hx

theorem Within.optional (hx : Within n P x) :
    Within n (fun o : Option α => ∀ a ∈ o, P a) x.optional := by
  refine within_then fun _ => within_then fun b => Within.ite ?_ ?_
  · exact within_then fun _ => within_pure nofun
  · refine hx.map fun a ha a' h => ?_
    cases h
    exact ha

/-- Each turn of a loop begins with an input no longer than the first. -/
theorem within_loop {step : UInt8 → α → Reader (α ⊕ β)}
    (hstep : ∀ b a, P a → Within n (Sum.elim P Q) (step b a)) {a : α} (ha : P a) :
    Within n Q (loop step a) := by
  intro s v r hs h
  change loopRun step a s = .ok (v, r) at h
  fun_induction loopRun step a s with
  | case1 => cases h
  | case2 a b s a' t hr hlt ih =>
    have hs' : s.length ≤ n := (Nat.le_succ _).trans hs
    exact ih (hstep b a ha s _ t hs' hr) (hlt.trans hs') h
  | case3 a b s w t hr =>
    cases h
    exact hstep b a ha s _ _ ((Nat.le_succ _).trans hs) hr
  | case4 => cases h

/-! ### Readers of texts -/

theorem within_mismatch : Within n P (mismatch : Reader α) := by
  refine within_then fun b => ?_
  split
  · exact within_then fun _ => within_then fun _ => within_fail _
  · refine Within.ite (within_then fun _ => within_fail _) ?_
    refine Within.ite (within_then fun _ => within_then fun _ => within_fail _) ?_
    exact Within.ite (within_fail _) (within_fail _)

/-- One byte of a text, or an escape, gives four bytes at most. -/
theorem within_textStep (b : UInt8) (acc : Bytes) :
    Within n (Sum.elim (fun acc' => acc'.length ≤ acc.length + 4) (fun v => v.length ≤ acc.length))
      (textStep b acc) := by
  refine Within.ite (within_pure (Nat.le_of_eq List.length_reverse)) ?_
  refine Within.ite (within_then fun c => within_pure ?_) ?_
  · show ((Utf8.encodeChar c).reverse ++ acc).length ≤ acc.length + 4
    have hc := (Utf8.length_encodeChar c).2
    rw [List.length_append, List.length_reverse]
    omega
  · refine Within.ite (within_fail _) (within_pure ?_)
    show (b :: acc).length ≤ acc.length + 4
    exact Nat.add_le_add_left (by decide) _

theorem length_loopRun_textStep {acc s v r : Bytes} (h : loopRun textStep acc s = .ok (v, r)) :
    v.length ≤ acc.length + 4 * s.length := by
  fun_induction loopRun textStep acc s with
  | case1 => cases h
  | case2 acc b s acc' t hr hlt ih =>
    have hstep : acc'.length ≤ acc.length + 4 :=
      within_textStep b acc s _ t (Nat.le_refl _) hr
    have hle := ih h
    rw [List.length_cons]
    omega
  | case3 acc b s w t hr =>
    cases h
    have hstep : v.length ≤ acc.length := within_textStep b acc s _ _ (Nat.le_refl _) hr
    omega
  | case4 => cases h

/-- A text between quotes has no more than sixteen bytes for each byte of the input. -/
theorem within_text : Within n (fun t => Utf8.size t ≤ 16 * n) text := by
  refine within_then fun b => Within.ite (within_then fun _ => ?_) within_mismatch
  intro s t r hs h
  rw [textBody, run_bind] at h
  cases hr : (loop textStep []).run s with
  | error e =>
    rw [hr] at h
    cases h
  | ok q =>
    obtain ⟨v, u⟩ := q
    rw [hr] at h
    have hv : v.length ≤ 4 * s.length := by simpa using length_loopRun_textStep hr
    cases hd : Utf8.decode? v with
    | none =>
      simp only [hd] at h
      cases h
    | some t' =>
      simp only [hd] at h
      cases h
      have hchars := Utf8.length_le_of_decode? hd
      have hsize := Utf8.size_le t
      omega

end Reader

/-! ### Readers of records -/

open Reader

variable {α σ : Type} {n : Nat} {P : σ → Prop} {Q : α → Prop} {fields : List (Field σ)}

namespace Field

/-- Whether the member comes, is left out or is cut off, what holds of the members stays true. -/
structure Keeps (n : Nat) (P : σ → Prop) (f : Field σ) : Prop where
  read : ∀ acc, P acc → Within n P (f.read acc)
  absent : ∀ acc acc', P acc → f.absent acc = .ok acc' → P acc'
  cutShort : ∀ acc acc', P acc → f.cutShort acc = .ok acc' → P acc'

theorem keeps_required {name : String} {get : σ → Option α} {put : α → σ → σ} {x : Reader α}
    (hx : Within n Q x) (hput : ∀ a acc, Q a → P acc → P (put a acc)) :
    Keeps n P (required name get put x) where
  read _ hacc := hx.map fun _ ha => hput _ _ ha hacc
  absent := nofun
  cutShort := nofun

theorem keeps_defaulted {name : String} {get : σ → Option (Option α)} {put : Option α → σ → σ}
    {x : Reader α} (hput : ∀ o acc, P acc → P (put o acc)) :
    Keeps n P (defaulted name get put x) where
  read _ hacc := (within_true x.optional).map fun _ _ => hput _ _ hacc
  absent := by
    rintro acc _ hacc ⟨⟩
    exact hput none acc hacc
  cutShort := by
    rintro acc _ hacc ⟨⟩
    exact hput none acc hacc

end Field

namespace Reader

theorem within_memberValue (hfields : ∀ f ∈ fields, f.Keeps n P) (name : String) {acc : σ}
    (hacc : P acc) : Within n P (memberValue fields name acc) := by
  unfold memberValue
  split
  · next f hf =>
    have hread := (hfields f (List.mem_of_find?_eq_some hf)).read acc hacc
    exact (within_fail _).ite hread.content
  · exact within_then fun _ => within_pure hacc

theorem within_member (hfields : ∀ f ∈ fields, f.Keeps n P) {acc : σ} (hacc : P acc) :
    Within n P (member fields acc) :=
  within_then fun name => within_memberValue hfields name hacc

theorem within_members (hfields : ∀ f ∈ fields, f.Keeps n P) {acc : σ} (hacc : P acc) :
    Within n P (members fields acc) := by
  refine within_then fun _ => Within.ite (within_then fun _ => within_pure hacc) ?_
  refine within_then fun _ => (within_member hfields hacc).bind fun acc' hacc' => ?_
  refine within_loop (P := P) (fun b acc hacc => ?_) hacc'
  refine Within.ite (within_pure hacc) (Within.ite (within_pure hacc) ?_)
  refine Within.ite (within_then fun _ => ?_) (within_fail _)
  exact (within_member hfields hacc).map fun _ h => h

theorem keeps_absentMembers (hfields : ∀ f ∈ fields, f.Keeps n P) {acc acc' : σ} (hacc : P acc)
    (h : absentMembers fields acc = .ok acc') : P acc' := by
  induction fields generalizing acc with
  | nil =>
    cases h
    exact hacc
  | cons f fields ih =>
    have hrest : ∀ g ∈ fields, g.Keeps n P := fun g hg => hfields g (List.mem_cons_of_mem f hg)
    rw [absentMembers] at h
    split at h
    · exact ih hrest hacc h
    · cases ha : f.absent acc with
      | error e =>
        rw [ha] at h
        cases h
      | ok acc₁ =>
        rw [ha] at h
        exact ih hrest ((hfields f List.mem_cons_self).absent acc acc₁ hacc ha) h

theorem within_positional (hfields : ∀ f ∈ fields, f.Keeps n P) (first : Bool) {acc : σ}
    (hacc : P acc) : Within n P (positional first fields acc) := by
  induction fields generalizing first acc with
  | nil => exact within_then fun _ => within_pure hacc
  | cons f fields ih =>
    have hrest : ∀ g ∈ fields, g.Keeps n P := fun g hg => hfields g (List.mem_cons_of_mem f hg)
    have hf := hfields f List.mem_cons_self
    refine within_then fun _ => Within.ite ?_ ?_
    · exact (hf.read acc hacc).bind fun _ h => ih hrest false h
    · exact (within_ofExcept fun acc' h => hf.cutShort acc acc' hacc h).bind fun _ h =>
        ih hrest first h

/-- What holds of a record holds by what its members keep. -/
theorem within_record {start : σ} {finish : σ → Option α} (hfields : ∀ f ∈ fields, f.Keeps n P)
    (hstart : P start) (hfinish : ∀ acc a, P acc → finish acc = some a → Q a) :
    Within n Q (record fields start finish) := by
  have hend : ∀ acc, P acc → Within n Q (ofOption (finish acc)) := fun acc hacc =>
    within_ofOption fun a ha => hfinish acc a hacc ha
  refine within_then fun _ => Within.ite (within_then fun _ => ?_)
    (Within.ite (within_then fun _ => ?_) within_mismatch)
  · refine (within_members hfields hstart).bind fun acc hacc => ?_
    exact (within_ofExcept fun acc' h => keeps_absentMembers hfields hacc h).bind hend
  · exact (within_positional hfields true hstart).bind hend

end Reader

end Json

/-! ### Requests to store -/

namespace Http.SetRequest

open Json Reader

/-- The value that a body asks to store. -/
theorem size_value_le {body : Bytes} {r : SetRequest} (h : reader.front body = .ok r) :
    Utf8.size r.value ≤ 16 * body.length := by
  have hrecord : Within body.length (fun r : SetRequest => Utf8.size r.value ≤ 16 * body.length)
      reader := by
    refine within_record (P := fun p : Parts => ∀ v ∈ p.value, Utf8.size v ≤ 16 * body.length)
      ?_ nofun ?_
    · simp only [List.forall_mem_cons]
      refine ⟨Field.keeps_required (within_true _) fun _ _ _ h => h,
        Field.keeps_required within_text ?_, Field.keeps_defaulted fun _ _ h => h,
        Field.keeps_defaulted fun _ _ h => h, nofun⟩
      intro v p hv _ v' hv'
      cases hv'
      exact hv
    · intro p a hp ha
      obtain ⟨key, -, ha⟩ := Option.bind_eq_some_iff.1 ha
      obtain ⟨value, hvalue, ha⟩ := Option.bind_eq_some_iff.1 ha
      obtain ⟨group, -, ha⟩ := Option.bind_eq_some_iff.1 ha
      obtain ⟨life, -, ha⟩ := Option.bind_eq_some_iff.1 ha
      cases ha
      exact hp value hvalue
  cases hr : reader.run body with
  | error e =>
    rw [Reader.front, hr] at h
    cases h
  | ok q =>
    obtain ⟨r', rest⟩ := q
    rw [Reader.front, hr] at h
    cases h
    exact hrecord body _ rest (Nat.le_refl _) hr

/-- Whatever a body of the greatest size asks to store fits a slot, if the names are not too long. -/
theorem fits_slot {body : Bytes} {r : SetRequest} {cacheName : String} {now : Int64}
    (h : reader.front body = .ok r) (hbody : body.length ≤ 2 ^ 21)
    (hname : Utf8.size cacheName ≤ 255) (hkey : (r.target cacheName).size ≤ 1000) :
    (r.toElement cacheName now).encode.length ≤ Slot.maxLength := by
  have hvalue : (Utf8.encode r.value).length ≤ 16 * body.length := size_value_le h
  have hlen : (r.toElement cacheName now).encode.length ≤
      6 * (Utf8.size cacheName + (r.target cacheName).size) +
        5 * (Utf8.encode r.value).length + 400 :=
    (r.toElement cacheName now).length_encode_le
  have hmax : Slot.maxLength = 4294967295 := rfl
  omega

end Http.SetRequest

end DiskTier
