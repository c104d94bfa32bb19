import DiskTier.Proofs.Codec.Record

/-!
# A torn text is no text

A reader is `Steady`: if it leaves something of its input, then more input behind that changes
nothing. Every reader reads from left to right, so it is with all of them. Lists and records show
their own end, so there it does not matter whether anything is left, and the reader is `Closed`: what
is read as a whole list or record is not the start of a longer one. So the first bytes of a snapshot
or of the record of an element, if some are missing, cannot be read: `Index.Snapshot.decode_take` and
`Element.decode_take`.
-/

namespace DiskTier.Json.Reader

variable {α β σ : Type} {x : Reader α} {s t r : Bytes} {a : α}

/-- More input behind what the reader leaves changes nothing. -/
def Steady (x : Reader α) : Prop :=
  ∀ s a r, x.run s = .ok (a, r) → r ≠ [] → ∀ t, x.run (s ++ t) = .ok (a, r ++ t)

/-! ### Making and combining readers -/

theorem steady_pure (a : α) : Steady (pure a : Reader α) := by
  rintro s _ _ ⟨⟩ - t
  rfl

theorem steady_fail (e : Fault) : Steady (fail e : Reader α) := by
  intro s a r h
  cases h

theorem Steady.bind {f : α → Reader β} (hx : Steady x) (hf : ∀ a, Steady (f a)) :
    Steady (x >>= f) := by
  intro s b r h hne t
  rw [run_bind] at h ⊢
  cases hr : x.run s with
  | error e =>
    rw [hr] at h
    cases h
  | ok p =>
    obtain ⟨a, u⟩ := p
    rw [hr] at h
    have hu : u ≠ [] := by
      rintro rfl
      exact hne (List.suffix_nil.1 ((f a).suffix h))
    rw [hx s a u hr hu t]
    exact hf a u b r h hne t

theorem Steady.map (hx : Steady x) (f : α → β) : Steady (f <$> x) := by
  show Steady (x >>= fun a => pure (f a))
  exact hx.bind fun _ => steady_pure _

theorem Steady.ite {p : Prop} [Decidable p] {y : Reader α} (hx : Steady x) (hy : Steady y) :
    Steady (if p then x else y) := by
  split
  · exact hx
  · exact hy

/-- Two ways to go on that meet again. -/
theorem Steady.ite_bind {p : Prop} [Decidable p] {y : Reader α} {f : α → Reader β} (hx : Steady x)
    (hy : Steady y) (hf : ∀ a, Steady (f a)) : Steady (if p then x >>= f else y >>= f) :=
  (hx.bind hf).ite (hy.bind hf)

theorem steady_ofOption (o : Option α) : Steady (ofOption o) := by
  cases o with
  | none => exact steady_fail _
  | some a => exact steady_pure a

/-! ### Bytes and blanks -/

theorem dropWhile_append_of_ne_nil {p : UInt8 → Bool} (h : s.dropWhile p ≠ []) (t : Bytes) :
    (s ++ t).dropWhile p = s.dropWhile p ++ t := by
  rw [List.dropWhile_append, if_neg (by simpa [List.isEmpty_iff] using h)]

theorem takeWhile_append_of_ne_nil {p : UInt8 → Bool} (h : s.dropWhile p ≠ []) (t : Bytes) :
    (s ++ t).takeWhile p = s.takeWhile p := by
  have hlen : (s.takeWhile p).length ≠ s.length := by
    intro heq
    have hall := List.takeWhile_append_dropWhile (p := p) (l := s)
    have hlen := congrArg List.length hall
    rw [List.length_append, heq] at hlen
    exact h (List.length_eq_zero_iff.1 (by omega))
  rw [List.takeWhile_append, if_neg hlen]

theorem steady_peek : Steady peek := by
  rintro s _ _ ⟨⟩ hne t
  obtain ⟨b, s, rfl⟩ := List.exists_cons_of_ne_nil hne
  rfl

theorem steady_skip : Steady skip := by
  rintro s _ _ ⟨⟩ hne t
  cases s with
  | nil => exact absurd rfl hne
  | cons b s => rfl

theorem steady_blanks : Steady blanks := by
  rintro s _ _ ⟨⟩ hne t
  show Except.ok ((), dropBlank (s ++ t)) = _
  rw [dropBlank, dropWhile_append_of_ne_nil hne]
  rfl

theorem steady_digits : Steady digits := by
  rintro s _ _ ⟨⟩ hne t
  show Except.ok ((s ++ t).takeWhile Ascii.isDigit, (s ++ t).dropWhile Ascii.isDigit) = _
  rw [dropWhile_append_of_ne_nil hne, takeWhile_append_of_ne_nil hne]

theorem steady_token : Steady token := by
  refine steady_blanks.bind fun _ => steady_peek.bind fun b => ?_
  cases b with
  | none => exact steady_fail _
  | some b => exact steady_pure b

theorem steady_punctuation (b : UInt8) : Steady (punctuation b) :=
  steady_token.bind fun _ => steady_skip.ite (steady_fail _)

theorem steady_exactly (bs : Bytes) : Steady (exactly bs) := by
  induction bs with
  | nil => exact steady_pure ()
  | cons b bs ih =>
    refine steady_peek.bind fun c => ?_
    cases c with
    | none => exact steady_fail _
    | some c => exact (steady_skip.bind fun _ => ih).ite (steady_fail _)

/-! ### Loops -/

theorem loopRun_ne_nil {step : UInt8 → α → Reader (α ⊕ β)} {a : α} {v : β}
    (h : loopRun step a s = .ok (v, r)) : s ≠ [] := by
  rintro rfl
  rw [loopRun] at h
  cases h

/-- A loop is steady if its steps are; nothing need be left if the last step takes nothing. -/
theorem loopRun_append {step : UInt8 → α → Reader (α ⊕ β)} (hstep : ∀ b a, Steady (step b a))
    {a : α} {v : β} (h : loopRun step a s = .ok (v, r))
    (hend : r ≠ [] ∨ ∀ b a s v r, (step b a).run s = .ok (.inr v, r) → ∀ t,
      (step b a).run (s ++ t) = .ok (.inr v, r ++ t)) (t : Bytes) :
    loopRun step a (s ++ t) = .ok (v, r ++ t) := by
  fun_induction loopRun step a s with
  | case1 => cases h
  | case2 a b s a' u hs _ ih =>
    -- another byte follows, and so something is left
    rw [List.cons_append, loopRun_cons_inl (hstep b a s _ u hs (loopRun_ne_nil h) t)]
    exact ih h
  | case3 a b s w u hs =>
    cases h
    rw [List.cons_append, loopRun_cons_inr]
    rcases hend with hne | hend
    · exact hstep b a s _ r hs hne t
    · exact hend b a s v r hs t
  | case4 => cases h

theorem steady_loop {step : UInt8 → α → Reader (α ⊕ β)} (hstep : ∀ b a, Steady (step b a)) (a : α) :
    Steady (loop step a) := fun _ _ _ h hne t => loopRun_append hstep h (.inl hne) t

/-! ### Numbers -/

theorem steady_takeIf (p : UInt8 → Bool) : Steady (takeIf p) := by
  refine steady_peek.bind fun b => ?_
  cases b with
  | none => exact steady_pure false
  | some b => exact (steady_skip.bind fun _ => steady_pure true).ite (steady_pure false)

theorem steady_someDigits (atEnd : Fault) : Steady (someDigits atEnd) := by
  apply Steady.bind
  · refine steady_peek.bind fun b => ?_
    cases b with
    | none => exact steady_fail _
    | some b => exact steady_pure b
  · exact fun _ => steady_digits.ite (steady_fail _)

theorem steady_wholePart (atEnd : Fault) : Steady (wholePart atEnd) := by
  refine (steady_someDigits atEnd).bind fun ds => ?_
  split
  · exact (steady_fail _).ite (steady_pure _)
  · exact steady_pure _

theorem steady_numberText (atEnd : Fault) : Steady (numberText atEnd) := by
  have hdigits := steady_someDigits atEnd
  unfold numberText
  refine (steady_takeIf _).bind fun negative => (steady_wholePart atEnd).bind fun whole => ?_
  refine (steady_takeIf _).bind fun _ => (hdigits.map _).ite_bind (steady_pure _) fun fraction => ?_
  refine (steady_takeIf _).bind fun _ => Steady.ite ?exponent (steady_pure _)
  case exponent =>
    refine (steady_takeIf _).bind fun minus => ?_
    have hrest : ∀ r : Unit, Steady (do
        let ds ← someDigits atEnd
        pure (NumberText.mk negative whole fraction (some (minus, ds)))) :=
      fun _ => hdigits.bind fun _ => steady_pure _
    exact (((steady_takeIf _).map _).bind hrest).ite (hrest ())

theorem steady_number : Steady number := by
  refine (steady_numberText _).bind fun t => ?_
  split
  · exact steady_pure _
  · exact (steady_fail _).ite (steady_pure _)

theorem steady_skipNumber : Steady skipNumber := (steady_numberText _).map _

/-! ### Texts -/

theorem steady_codeUnit : Steady codeUnit := by
  intro s n r h _ t
  match s with
  | a :: b :: c :: d :: s =>
    simp only [codeUnit, List.cons_append] at h ⊢
    split at h
    · cases h
      rfl
    · cases h
  | [] | [_] | [_, _] | [_, _, _] => cases h

theorem steady_codePoint : Steady codePoint := by
  refine steady_codeUnit.bind fun n => (steady_fail _).ite (Steady.ite ?pair (steady_pure _))
  case pair =>
    exact (steady_exactly _).bind fun _ => steady_codeUnit.bind fun _ =>
      (steady_pure _).ite (steady_fail _)

theorem steady_escapeLetter : Steady escapeLetter := by
  refine steady_peek.bind fun b => ?_
  cases b with
  | none => exact steady_fail _
  | some b => exact steady_skip.bind fun _ => steady_pure b

theorem steady_escaped : Steady escaped := by
  refine steady_escapeLetter.bind fun b => ?_
  cases shortEscaped? b with
  | some c => exact steady_pure c
  | none => exact steady_codePoint.ite (steady_fail _)

theorem steady_skipEscaped : Steady skipEscaped := by
  refine steady_escapeLetter.bind fun b => ?_
  cases shortEscaped? b with
  | some c => exact steady_pure ()
  | none => exact (steady_codeUnit.map _).ite (steady_fail _)

theorem steady_textStep (b : UInt8) (acc : Bytes) : Steady (textStep b acc) :=
  (steady_pure _).ite <| (steady_escaped.bind fun _ => steady_pure _).ite <|
    (steady_fail _).ite (steady_pure _)

theorem steady_textBody : Steady textBody := by
  refine (steady_loop steady_textStep []).bind fun s => ?_
  cases Utf8.decode? s with
  | some s => exact steady_pure s
  | none => exact steady_fail _

theorem steady_skipText : Steady skipText :=
  steady_loop (fun _ _ => (steady_pure _).ite <| (steady_skipEscaped.bind fun _ =>
    steady_pure _).ite <| (steady_fail _).ite (steady_pure _)) ()

/-! ### Values that are not kept -/

theorem steady_mismatch : Steady (mismatch : Reader α) := by
  refine steady_token.bind fun b => ?_
  cases wordAfter? b with
  | some w => exact steady_skip.bind fun _ => (steady_exactly w).bind fun _ => steady_fail _
  | none =>
    apply Steady.ite
    · exact (steady_number.map _).bind fun _ => steady_fail _
    apply Steady.ite
    · exact steady_skip.bind fun _ => (steady_textBody.map _).bind fun _ => steady_fail _
    · exact (steady_fail _).ite (steady_fail _)

theorem steady_skipName : Steady skipName :=
  steady_token.bind fun _ => (steady_skip.bind fun _ => steady_skipText.bind fun _ =>
    steady_punctuation _).ite (steady_fail _)

theorem steady_skippingItem (stack : List Bracket) : Steady (Skipping.item stack) := by
  have hitem : ∀ u : Unit, Steady (do
      if startsNumber (← token) then do skipNumber; pure (Skipping.ended stack)
      else pure (.inl { stack, valueEnded := false })) :=
    fun _ => steady_token.bind fun _ =>
      (steady_skipNumber.bind fun _ => steady_pure _).ite (steady_pure _)
  unfold Skipping.item
  split
  · exact steady_skipName.bind hitem
  · exact (steady_pure ()).bind hitem

theorem steady_skippingValue (b : UInt8) (stack : List Bracket) :
    Steady (Skipping.value b stack) := by
  have hopened : ∀ bracket, Steady (Skipping.value.opened stack bracket) :=
    fun bracket => steady_token.bind fun _ =>
      (steady_skip.bind fun _ => steady_pure _).ite (steady_skippingItem _)
  unfold Skipping.value
  split
  · exact (steady_exactly _).bind fun _ => steady_pure _
  · exact (steady_skipText.bind fun _ => steady_pure _).ite <|
      (hopened _).ite <| (hopened _).ite (steady_fail _)

theorem steady_skippingStep (b : UInt8) (k : Skipping) : Steady (Skipping.step b k) := by
  refine (steady_pure _).ite (Steady.ite ?between (steady_skippingValue b k.stack))
  case between =>
    cases k.stack with
    | nil => exact steady_fail _
    | cons bracket rest => exact (steady_skippingItem _).ite ((steady_pure _).ite (steady_fail _))

theorem steady_skipValue : Steady skipValue := by
  refine (steady_skippingItem []).bind fun k => ?_
  cases k with
  | inr _ => exact steady_pure ()
  | inl k => exact steady_loop steady_skippingStep k

/-! ### Typed values -/

theorem steady_integer (accept : Int → Option α) : Steady (integer accept) := by
  refine steady_token.bind fun _ => Steady.ite ?_ steady_mismatch
  refine steady_number.bind fun n => ?_
  cases n with
  | integer n => exact steady_ofOption _
  | real => exact steady_fail _

theorem steady_text : Steady text :=
  steady_token.bind fun _ => (steady_skip.bind fun _ => steady_textBody).ite steady_mismatch

theorem Steady.optional (hx : Steady x) : Steady (optional x) := by
  refine steady_blanks.bind fun _ => steady_peek.bind fun _ => Steady.ite ?_ (hx.map some)
  exact (steady_exactly _).bind fun _ => steady_pure none

theorem Steady.content (hx : Steady x) : Steady (content x) :=
  (steady_punctuation _).bind fun _ => hx

theorem steady_tagged {read : String → Reader α} (h : ∀ name, Steady (read name)) :
    Steady (tagged read) := by
  refine steady_token.bind fun b => Steady.ite ?_ (steady_mismatch.ite (steady_fail _))
  exact steady_skip.bind fun _ => (steady_punctuation _).bind fun _ =>
    steady_textBody.bind fun name => (h name).bind fun _ => (steady_punctuation _).bind fun _ =>
      steady_pure _

theorem steady_memberValue {fields : List (Field σ)} (h : ∀ f ∈ fields, ∀ acc, Steady (f.read acc))
    (name : String) (acc : σ) : Steady (memberValue fields name acc) := by
  unfold memberValue
  cases hf : fields.find? (·.name == name) with
  | none => exact steady_skipValue.content.bind fun _ => steady_pure acc
  | some f => exact (steady_fail _).ite (h f (List.mem_of_find?_eq_some hf) acc).content

theorem steady_member {fields : List (Field σ)} (h : ∀ f ∈ fields, ∀ acc, Steady (f.read acc))
    (acc : σ) : Steady (member fields acc) :=
  steady_textBody.bind fun name => steady_memberValue h name acc

theorem steady_memberStep {fields : List (Field σ)}
    (h : ∀ f ∈ fields, ∀ acc, Steady (f.read acc)) (b : UInt8) (acc : σ) :
    Steady (memberStep fields b acc) := by
  refine (steady_pure _).ite ((steady_pure _).ite (Steady.ite ?_ (steady_fail _)))
  exact (steady_punctuation _).bind fun _ => (steady_member h acc).map _

/-! ### Values that show their own end -/

/-- More input behind what the reader takes changes nothing, even if nothing is left. -/
def Closed (x : Reader α) : Prop :=
  ∀ s a r, x.run s = .ok (a, r) → ∀ t, x.run (s ++ t) = .ok (a, r ++ t)

/-- As `Closed`, for an input of which `b` is the next byte. -/
def ClosedAt (b : UInt8) (x : Reader α) : Prop :=
  ∀ s a r, x.run (b :: s) = .ok (a, r) → ∀ t, x.run (b :: s ++ t) = .ok (a, r ++ t)

/-- The reader gives no value of any input. -/
def Refuses (x : Reader α) : Prop := ∀ s p, x.run s ≠ .ok p

theorem Closed.steady (h : Closed x) : Steady x := fun s a r hrun _ t => h s a r hrun t

theorem Closed.at (h : Closed x) (b : UInt8) : ClosedAt b x := fun s => h (b :: s)

theorem closed_pure (a : α) : Closed (pure a : Reader α) := by
  intro s _ _ h t
  cases h
  rfl

theorem Refuses.closed (h : Refuses x) : Closed x := fun s _ _ hrun => absurd hrun (h s _)

theorem refuses_fail (e : Fault) : Refuses (fail e : Reader α) := by
  intro s p h
  cases h

theorem Refuses.after {f : α → Reader β} (h : ∀ a, Refuses (f a)) : Refuses (x >>= f) := by
  intro s p hrun
  rw [run_bind] at hrun
  split at hrun
  · exact h _ _ p hrun
  · cases hrun

theorem Closed.bind {f : α → Reader β} (hx : Closed x) (hf : ∀ a, Closed (f a)) :
    Closed (x >>= f) := by
  intro s b r h t
  rw [run_bind] at h ⊢
  cases hr : x.run s with
  | error e =>
    rw [hr] at h
    cases h
  | ok p =>
    rw [hr] at h
    rw [hx s p.1 p.2 hr t]
    exact hf p.1 p.2 b r h t

theorem Closed.map (hx : Closed x) (f : α → β) : Closed (f <$> x) := by
  show Closed (x >>= fun a => pure (f a))
  exact hx.bind fun _ => closed_pure _

/-- If something must follow, it is enough that the first reader is steady. -/
theorem Steady.bind_closed {f : α → Reader β} (hx : Steady x) (hf : ∀ a, Closed (f a))
    (hmore : ∀ a p, (f a).run [] ≠ .ok p) : Closed (x >>= f) := by
  intro s b r h t
  rw [run_bind] at h ⊢
  cases hr : x.run s with
  | error e =>
    rw [hr] at h
    cases h
  | ok p =>
    rw [hr] at h
    have hne : p.2 ≠ [] := by
      intro hnil
      simp only [hnil] at h
      exact hmore p.1 _ h
    rw [hx s p.1 p.2 hr hne t]
    exact hf p.1 p.2 b r h t

theorem closed_ofOption (o : Option α) : Closed (ofOption o) := by
  cases o with
  | none => exact (refuses_fail _).closed
  | some a => exact closed_pure a

theorem closed_ofExcept (o : Except Fault α) : Closed (ofExcept o) := by
  cases o with
  | error e => exact (refuses_fail e).closed
  | ok a => exact closed_pure a

theorem ClosedAt.ite {b : UInt8} {p : Prop} [Decidable p] {y : Reader α} (hx : ClosedAt b x)
    (hy : ClosedAt b y) : ClosedAt b (if p then x else y) := by
  split
  · exact hx
  · exact hy

theorem closedAt_skip (b : UInt8) : ClosedAt b skip := by
  intro s _ _ h t
  cases h
  rfl

theorem closedAt_skip_bind {f : Unit → Reader α} (h : Closed (f ())) (b : UInt8) :
    ClosedAt b (skip >>= f) := fun s => h s

/-- The byte that a token shows is not taken, so that it is left. -/
theorem token_left {b : UInt8} (h : token.run s = .ok (b, r)) : ∃ u, r = b :: u := by
  simp only [token, run_bind, blanks, peek] at h
  cases hb : dropBlank s with
  | nil => simp [hb] at h
  | cons c u =>
    simp only [hb, List.head?_cons, run_pure] at h
    cases h
    exact ⟨u, rfl⟩

theorem closed_token_bind {f : UInt8 → Reader α} (h : ∀ b, ClosedAt b (f b)) :
    Closed (token >>= f) := by
  intro s a r hrun t
  rw [run_bind] at hrun ⊢
  cases hb : token.run s with
  | error e =>
    rw [hb] at hrun
    cases hrun
  | ok p =>
    obtain ⟨b, v⟩ := p
    obtain ⟨u, rfl⟩ := token_left hb
    rw [hb] at hrun
    rw [steady_token s b _ hb (List.cons_ne_nil _ _) t]
    exact h b u a r hrun t

theorem closed_punctuation (b : UInt8) : Closed (punctuation b) :=
  closed_token_bind fun c => (closedAt_skip c).ite ((refuses_fail _).closed.at c)

theorem refuses_mismatch : Refuses (mismatch : Reader α) := by
  have hfail : Refuses (fail .mismatched : Reader α) := refuses_fail _
  refine Refuses.after fun b => ?_
  cases wordAfter? b with
  | some w => exact Refuses.after fun _ => Refuses.after fun _ => hfail
  | none =>
    dsimp only
    split_ifs
    · exact Refuses.after fun _ => hfail
    · exact Refuses.after fun _ => Refuses.after fun _ => hfail
    · exact hfail
    · exact refuses_fail _

/-- What is read up to a closing byte shows its own end, if the step that ends the loop takes that
byte alone. -/
theorem Steady.closed_loop {start : Reader α} {step : UInt8 → α → Reader (α ⊕ β)}
    (hstart : Steady start) (hstep : ∀ b a, Steady (step b a))
    (hend : ∀ b a s v r, (step b a).run s = .ok (.inr v, r) → ∀ t,
      (step b a).run (s ++ t) = .ok (.inr v, r ++ t)) : Closed (start >>= loop step) := by
  refine hstart.bind_closed (fun a s v r h t => loopRun_append hstep h (.inr hend) t) ?_
  intro a p h
  exact loopRun_ne_nil h rfl

/-! ### Lists -/

theorem steady_itemStep {item : σ → Reader σ} (h : ∀ acc, Steady (item acc)) (b : UInt8) (acc : σ) :
    Steady (itemStep item b acc) := by
  refine (steady_pure _).ite ((steady_pure _).ite (Steady.ite ?_ (steady_fail _)))
  exact steady_token.bind fun _ => (steady_fail _).ite ((h acc).map _)

/-- The step that ends a list takes the closing bracket alone. -/
theorem itemStep_inr {item : σ → Reader σ} {b : UInt8} {acc last : σ}
    (h : (itemStep item b acc).run s = .ok (.inr last, r)) (t : Bytes) :
    (itemStep item b acc).run (s ++ t) = .ok (.inr last, r ++ t) := by
  unfold itemStep at h ⊢
  by_cases hblank : isBlank b
  · rw [if_pos hblank] at h
    cases h
  rw [if_neg hblank] at h ⊢
  by_cases hclose : b = Ascii.closeList
  · rw [if_pos hclose] at h ⊢
    cases h
    rfl
  -- behind a comma comes an item, and not the end
  rw [if_neg hclose] at h
  split at h
  · rw [run_bind] at h
    split at h
    · split at h
      · cases h
      · rw [run_map] at h
        split at h <;> cases h
    · cases h
  · cases h

theorem closed_listInto {item : σ → Reader σ} (h : ∀ acc, Steady (item acc)) (acc : σ) :
    Closed (listInto item acc) := by
  have hitems : Closed (item acc >>= loop (itemStep item)) :=
    (h acc).closed_loop (steady_itemStep h) fun _ _ _ _ _ hlast => itemStep_inr hlast
  refine closed_token_bind fun b => ClosedAt.ite ?_ (refuses_mismatch.closed.at b)
  refine closedAt_skip_bind (closed_token_bind fun c => ?_) b
  exact (closedAt_skip_bind (closed_pure acc) c).ite (hitems.at c)

/-- What is read as a list is not the start of a longer one. -/
theorem closed_list {item : Reader α} (h : Steady item) : Closed (list item) :=
  (closed_listInto (fun _ => h.map _) []).map _

/-! ### Records -/

/-- The step that ends a record takes the closing brace alone. -/
theorem memberStep_inr {fields : List (Field σ)} {b : UInt8} {acc last : σ}
    (h : (memberStep fields b acc).run s = .ok (.inr last, r)) (t : Bytes) :
    (memberStep fields b acc).run (s ++ t) = .ok (.inr last, r ++ t) := by
  unfold memberStep at h ⊢
  by_cases hblank : isBlank b
  · rw [if_pos hblank] at h
    cases h
  rw [if_neg hblank] at h ⊢
  by_cases hclose : b = Ascii.closeRecord
  · rw [if_pos hclose] at h ⊢
    cases h
    rfl
  -- behind a comma comes a member, and not the end
  rw [if_neg hclose] at h
  split at h
  · rw [run_bind] at h
    split at h
    · rw [run_map] at h
      split at h <;> cases h
    · cases h
  · cases h

theorem closed_members {fields : List (Field σ)} (h : ∀ f ∈ fields, ∀ acc, Steady (f.read acc))
    (acc : σ) : Closed (members fields acc) := by
  have hmembers : Closed (member fields acc >>= loop (memberStep fields)) :=
    (steady_member h acc).closed_loop (steady_memberStep h) fun _ _ _ _ _ hlast =>
      memberStep_inr hlast
  refine closed_token_bind fun b => ?_
  refine (closedAt_skip_bind (closed_pure acc) b).ite (Closed.at ?_ b)
  exact (closed_punctuation _).bind fun _ => hmembers

theorem closed_hasItem (first : Bool) : Closed (hasItem first) := by
  have hfail : Closed (fail .malformed : Reader Bool) := (refuses_fail _).closed
  refine closed_token_bind fun b => ?_
  refine ((closed_pure false).at b).ite (((closed_pure true).at b).ite (ClosedAt.ite ?_ (hfail.at b)))
  refine closedAt_skip_bind (closed_token_bind fun c => ?_) b
  exact (hfail.at c).ite ((closed_pure true).at c)

theorem closed_positional {fields : List (Field σ)}
    (h : ∀ f ∈ fields, ∀ acc, Steady (f.read acc)) (first : Bool) (acc : σ) :
    Closed (positional first fields acc) := by
  induction fields generalizing first acc with
  | nil => exact (closed_punctuation _).bind fun _ => closed_pure acc
  | cons f fs ih =>
    have ih := ih fun g hg => h g (List.mem_cons_of_mem _ hg)
    -- whatever members are still to come, the closing bracket has to
    have hmore : ∀ acc p, (positional false fs acc).run [] ≠ .ok p := by
      intro acc p hrun
      cases fs <;> cases hrun
    refine (closed_hasItem first).bind fun more => ?_
    cases more with
    | true => exact (h f List.mem_cons_self acc).bind_closed (ih false) hmore
    | false => exact (closed_ofExcept _).bind (ih first)

/-- What is read as a record, in either form, is not the start of a longer one. -/
theorem closed_record {fields : List (Field σ)} (h : ∀ f ∈ fields, ∀ acc, Steady (f.read acc))
    (start : σ) (finish : σ → Option α) : Closed (record fields start finish) := by
  refine closed_token_bind fun b =>
    ClosedAt.ite ?braces (ClosedAt.ite ?brackets (refuses_mismatch.closed.at b))
  case braces =>
    refine closedAt_skip_bind ((closed_members h start).bind fun _ => ?_) b
    exact (closed_ofExcept _).bind fun _ => closed_ofOption _
  case brackets =>
    exact closedAt_skip_bind ((closed_positional h true start).bind fun _ => closed_ofOption _) b

theorem steady_record {fields : List (Field σ)} (h : ∀ f ∈ fields, ∀ acc, Steady (f.read acc))
    (start : σ) (finish : σ → Option α) : Steady (record fields start finish) :=
  (closed_record h start finish).steady

/-- **A torn text is no text.** What is read of the first bytes of a text that shows its own end, as
if they were the whole, is read of all of it. -/
theorem Closed.whole_take (hx : Closed x) {bytes : Bytes} {b : α} {n : Nat}
    (hall : x.run bytes = .ok (a, [])) (h : x.whole (bytes.take n) = .ok b) :
    b = a ∧ bytes.length ≤ n := by
  unfold whole at h
  split at h
  · next c u hrun =>
    split at h
    · cases h
      have happend := hx _ _ _ hrun (bytes.drop n)
      rw [List.take_append_drop, hall] at happend
      obtain ⟨heq, hrest⟩ := Prod.mk.inj (Except.ok.inj happend)
      exact ⟨heq.symm, List.drop_eq_nil_iff.1 (List.append_eq_nil_iff.1 hrest.symm).2⟩
    · cases h
  · cases h

end DiskTier.Json.Reader

namespace DiskTier

open Json Json.Reader

theorem GroupId.steady_reader : Steady GroupId.reader := by
  apply steady_record
  simp [Field.required, steady_text.map]

theorem Key.steady_reader : Steady Key.reader := by
  refine steady_tagged fun kind => (steady_text.map _).content.ite ?_
  refine Steady.ite (Steady.content ?_) (steady_fail _)
  apply steady_record
  simp [Field.required, steady_text.map, GroupId.steady_reader.map]

theorem Slot.steady_reader : Steady Slot.reader := by
  apply steady_record
  simp [Field.required, word64, word32, (steady_integer _).map]

namespace Index.Snapshot

theorem steady_entryReader : Steady entryReader := by
  apply steady_record
  simp [Field.required, Key.steady_reader.map, Slot.steady_reader.map]

/-- **A torn snapshot lists nothing.** What decodes at all of the first bytes of a snapshot is the
whole of it. -/
theorem decode_take {entries es : List (Key × Slot)} {n : Nat}
    (h : decode ((encode entries).take n) = .ok es) :
    es = entries ∧ (encode entries).length ≤ n := by
  have hall := list_entryReader_takes entries []
  rw [List.append_nil] at hall
  exact (closed_list steady_entryReader).whole_take hall h

end Index.Snapshot

theorem Attributes.steady_reader : Steady Attributes.reader := by
  apply steady_record
  simp [Field.required, Field.nullable, signed64, word64, (steady_integer _).map,
    (steady_integer _).optional.map]

namespace Element

theorem closed_reader : Closed reader := by
  apply closed_record
  simp [Field.required, byte, steady_text.map, Key.steady_reader.map, Attributes.steady_reader.map,
    (closed_list (steady_integer _)).steady.map]

/-- **A torn record holds nothing.** What decodes at all of the first bytes of a record is the whole
of it. -/
theorem decode_take {e f : Element} {n : Nat} (h : decode (e.encode.take n) = .ok f) :
    f = e ∧ e.encode.length ≤ n := by
  have hall := e.reader_takes []
  rw [List.append_nil] at hall
  exact closed_reader.whole_take hall h

end Element

end DiskTier
