import DiskTier.Json.Record
import DiskTier.Proofs.Codec.Number

/-!
# Lists, records and tagged values are read back as they were written

What a reader does in front of other input is said in two strengths. `Reader.Takes`: it takes
exactly these bytes, whatever follows; so it is with every value that shows its own end.
`Reader.Reads`: it takes them where a number could end; so it is with numbers too, and with the
members and items of larger values. The statements about containers go from `Reads` of the parts to
`Takes` of the whole.
-/

namespace DiskTier.Json

namespace Reader

variable {α β σ : Type}

/-- `x` takes exactly `bytes` and gives `a`, whatever comes behind. -/
def Takes (x : Reader α) (bytes : Bytes) (a : α) : Prop :=
  ∀ rest, x.run (bytes ++ rest) = .ok (a, rest)

/-- `x` takes exactly `bytes` and gives `a`, if a number could end where they do. -/
def Reads (x : Reader α) (bytes : Bytes) (a : α) : Prop :=
  ∀ rest, EndsNumber rest → x.run (bytes ++ rest) = .ok (a, rest)

theorem Takes.reads {x : Reader α} {bytes : Bytes} {a : α} (h : x.Takes bytes a) :
    x.Reads bytes a := fun rest _ => h rest

theorem Reads.map {x : Reader α} {bytes : Bytes} {a : α} (h : x.Reads bytes a) (f : α → β) :
    (f <$> x).Reads bytes (f a) := fun rest hrest => by simp [h rest hrest]

theorem endsNumber_cons {b : UInt8}
    (h : Ascii.isDigit b = false ∧ b ≠ Ascii.point ∧ b ≠ 0x65 ∧ b ≠ 0x45) (s : Bytes) :
    EndsNumber (b :: s) := by
  intro c hc
  cases hc
  exact h

theorem endsNumber_comma (s : Bytes) : EndsNumber (Ascii.comma :: s) :=
  endsNumber_cons (by decide) s

theorem endsNumber_closeList (s : Bytes) : EndsNumber (Ascii.closeList :: s) :=
  endsNumber_cons (by decide) s

theorem endsNumber_closeRecord (s : Bytes) : EndsNumber (Ascii.closeRecord :: s) :=
  endsNumber_cons (by decide) s

/-! ### Tokens -/

/-- A byte with which a number, a text, a list or a record begins. -/
def startsValue (b : UInt8) : Bool :=
  startsNumber b || b == Ascii.quote || b == Ascii.openList || b == Ascii.openRecord

/-- The bytes of a value other than a word. -/
def BeginsValue (bytes : Bytes) : Prop := ∃ b s, bytes = b :: s ∧ startsValue b

theorem startsValue_ne {b : UInt8} (h : startsValue b) :
    isBlank b = false ∧ b ≠ Ascii.closeList ∧ b ≠ Ascii.closeRecord ∧ b ≠ 0x6E := by
  refine ⟨Bool.eq_false_iff.2 fun hb => ?_, ?_, ?_, ?_⟩
  · simp only [isBlank, Bool.or_eq_true, beq_iff_eq] at hb
    rcases hb with ((rfl | rfl) | rfl) | rfl <;> exact absurd h (by decide)
  all_goals rintro rfl; exact absurd h (by decide)

theorem token_run {b : UInt8} (h : isBlank b = false) (s : Bytes) :
    token.run (b :: s) = .ok (b, b :: s) := by
  simp [token, blanks, dropBlank, h, run_peek_cons]

theorem punctuation_run {b : UInt8} (h : isBlank b = false) (s : Bytes) :
    (punctuation b).run (b :: s) = .ok ((), s) := by
  simp [punctuation, token_run h, run_skip_cons]

/-! ### Single values -/

theorem text_takes (s : String) : text.Takes (quoted s) s := by
  intro rest
  have hb : isBlank Ascii.quote = false := by decide
  simp [text, quoted, token_run hb, run_skip_cons, textBody_run]

theorem startsNumber_ofInt (n : Int) : ∃ b s, Decimal.ofInt n = b :: s ∧ startsNumber b := by
  cases n with
  | ofNat n =>
    cases hd : Decimal.ofNat n with
    | nil => exact absurd hd (Decimal.ofNat_ne_nil n)
    | cons d ds =>
      have := Decimal.isDigit_of_mem_ofNat (n := n) (b := d) (by simp [hd])
      exact ⟨d, ds, hd, by simp [startsNumber, this]⟩
  | negSucc n => exact ⟨_, _, rfl, by decide⟩

theorem beginsValue_ofInt (n : Int) : BeginsValue (Decimal.ofInt n) := by
  obtain ⟨b, s, h, hb⟩ := startsNumber_ofInt n
  exact ⟨b, s, h, by simp [startsValue, hb]⟩

theorem integer_reads {accept : Int → Option α} {n : Int} {a : α} (hlow : -2 ^ 63 ≤ n)
    (hhigh : n < 2 ^ 64) (ha : accept n = some a) : (integer accept).Reads (Decimal.ofInt n) a := by
  intro rest hrest
  have hnum := number_run_ofInt hlow hhigh hrest
  obtain ⟨b, s, hd, hb⟩ := startsNumber_ofInt n
  have hblank := (startsValue_ne (b := b) (by simp [startsValue, hb])).1
  rw [hd, List.cons_append] at hnum ⊢
  simp [integer, token_run hblank, hb, hnum, ha, ofOption]

theorem byte_reads (b : UInt8) : byte.Reads (Decimal.ofInt b.toNat) b := by
  have := b.toNat_lt
  refine integer_reads (by omega) (by omega) ?_
  rw [if_pos (by omega)]
  simp

theorem word32_reads (w : UInt32) : word32.Reads (Decimal.ofInt w.toNat) w := by
  have := w.toNat_lt
  refine integer_reads (by omega) (by omega) ?_
  rw [if_pos (by omega)]
  simp

theorem word64_reads (w : UInt64) : word64.Reads (Decimal.ofInt w.toNat) w := by
  have := w.toNat_lt
  refine integer_reads (by omega) (by omega) ?_
  rw [if_pos (by omega)]
  simp

theorem signed64_reads (w : Int64) : signed64.Reads (Decimal.ofInt w.toInt) w := by
  have hlow := w.le_toInt
  have hhigh := w.toInt_lt
  refine integer_reads (by omega) (by omega) ?_
  rw [if_pos (by omega)]
  simp

theorem optional_takes_none (x : Reader α) : (optional x).Takes (Utf8.encode "null") none := by
  intro rest
  have h : Utf8.encode "null" = [0x6E, 0x75, 0x6C, 0x6C] := by decide
  rw [h]
  rfl

theorem optional_reads_some {x : Reader α} {bytes : Bytes} {a : α} (h : x.Reads bytes a)
    (hb : BeginsValue bytes) : (optional x).Reads bytes (some a) := by
  intro rest hrest
  have hx := h rest hrest
  obtain ⟨b, s, rfl, hb⟩ := hb
  obtain ⟨hblank, -, -, hn⟩ := startsValue_ne hb
  rw [List.cons_append] at hx ⊢
  simp [optional, blanks, dropBlank, hblank, run_peek_cons, hn, hx]

theorem content_reads {x : Reader α} {bytes : Bytes} {a : α} (h : x.Reads bytes a) :
    (content x).Reads (Ascii.colon :: bytes) a := by
  intro rest hrest
  have hb : isBlank Ascii.colon = false := by decide
  simp [content, punctuation_run hb, h rest hrest]


/-! ### Lists -/

theorem commaSeparated_cons (part : Bytes) (parts : List Bytes) :
    commaSeparated (part :: parts) = part ++ parts.flatMap (Ascii.comma :: ·) := by
  induction parts generalizing part with
  | nil => simp [commaSeparated]
  | cons q qs ih =>
    have h := ih q
    simp only [commaSeparated] at h ⊢
    simp [h]

theorem endsNumber_items (parts : List Bytes) {b : UInt8} {rest : Bytes}
    (h : EndsNumber (b :: rest)) :
    EndsNumber (parts.flatMap (Ascii.comma :: ·) ++ b :: rest) := by
  cases parts with
  | nil => exact h
  | cons p ps => exact endsNumber_comma _

/-- Items that stand behind the first one are gathered up to the end of the list. -/
theorem loopRun_itemStep {item : Reader α} {write : α → Bytes} {items : List α}
    (h : ∀ a ∈ items, item.Reads (write a) a ∧ BeginsValue (write a)) (acc : List α)
    (rest : Bytes) :
    loopRun (itemStep fun acc => (· :: acc) <$> item) acc
      ((items.map write).flatMap (Ascii.comma :: ·) ++ Ascii.closeList :: rest) =
        .ok (items.reverse ++ acc, rest) := by
  have hclose : isBlank Ascii.closeList = false := by decide
  have hcomma : isBlank Ascii.comma = false ∧ Ascii.comma ≠ Ascii.closeList := by decide
  induction items generalizing acc with
  | nil =>
    apply loopRun_cons_inr
    simp [itemStep, hclose]
  | cons a as ih =>
    obtain ⟨hread, b, s, hb, hstart⟩ := h a (by simp)
    obtain ⟨hblank, hne, -, -⟩ := startsValue_ne hstart
    have hrun := hread _ (endsNumber_items (as.map write) (endsNumber_closeList rest))
    rw [List.map_cons, List.flatMap_cons, List.cons_append, List.cons_append, List.append_assoc]
    rw [loopRun_cons_inl, ih (fun x hx => h x (by simp [hx])) (a :: acc)]
    · simp
    · rw [hb, List.cons_append] at hrun ⊢
      simp [itemStep, hcomma.1, hcomma.2, token_run hblank, hne, hrun]

/-- A list is read back if each of its items is. -/
theorem list_takes {item : Reader α} {write : α → Bytes} {items : List α}
    (h : ∀ a ∈ items, item.Reads (write a) a ∧ BeginsValue (write a)) :
    (list item).Takes
      (Ascii.openList :: commaSeparated (items.map write) ++ [Ascii.closeList]) items := by
  have hopen : isBlank Ascii.openList = false := by decide
  have hclose : isBlank Ascii.closeList = false := by decide
  intro rest
  cases items with
  | nil =>
    simp [list, listInto, commaSeparated, token_run hopen, run_skip_cons, token_run hclose]
  | cons a as =>
    obtain ⟨hread, b, s, hb, hstart⟩ := h a (by simp)
    obtain ⟨hblank, hne, -, -⟩ := startsValue_ne hstart
    have hrun := hread _ (endsNumber_items (as.map write) (endsNumber_closeList rest))
    have hothers : ∀ x ∈ as, item.Reads (write x) x ∧ BeginsValue (write x) :=
      fun x hx => h x (List.mem_cons_of_mem _ hx)
    have hloop := loopRun_itemStep hothers [a] rest
    rw [List.map_cons, commaSeparated_cons]
    simp only [List.cons_append, List.append_assoc, List.nil_append]
    rw [hb, List.cons_append] at hrun ⊢
    simp [list, listInto, token_run hopen, run_skip_cons, token_run hblank, hne, hrun, loop, hloop]

/-! ### Tagged values -/

/-- A value that is read by the name of its kind. -/
theorem tagged_takes {read : String → Reader α} {name : String} {bytes : Bytes} {a : α}
    (h : (read name).Reads (Ascii.colon :: bytes) a) :
    (tagged read).Takes
      (Ascii.openRecord :: commaSeparated [quoted name ++ Ascii.colon :: bytes] ++
        [Ascii.closeRecord]) a := by
  have hopen : isBlank Ascii.openRecord = false := by decide
  have hquote : isBlank Ascii.quote = false := by decide
  have hclose : isBlank Ascii.closeRecord = false := by decide
  intro rest
  have hrun := h _ (endsNumber_closeRecord rest)
  simp only [List.cons_append] at hrun
  simp [tagged, commaSeparated_cons, quoted, token_run hopen, run_skip_cons,
    punctuation_run hquote, textBody_run, hrun, punctuation_run hclose]

/-! ### Records -/

def memberBytes (m : String × Bytes) : Bytes := quoted m.1 ++ Ascii.colon :: m.2

/-- Reading these members one after the other leads from one state to another. -/
inductive Gathers (fields : List (Field σ)) : List (String × Bytes) → σ → σ → Prop
  | nil (acc : σ) : Gathers fields [] acc acc
  | cons {name : String} {bytes : Bytes} {members : List (String × Bytes)} {acc next last : σ}
      {f : Field σ} (found : fields.find? (·.name == name) = some f)
      (fresh : f.given acc = false) (read : (f.read acc).Reads bytes next)
      (others : Gathers fields members next last) :
      Gathers fields ((name, bytes) :: members) acc last

theorem member_run {fields : List (Field σ)} {name : String} {bytes : Bytes} {acc next : σ}
    {f : Field σ} (found : fields.find? (·.name == name) = some f) (fresh : f.given acc = false)
    (read : (f.read acc).Reads bytes next) {rest : Bytes} (hrest : EndsNumber rest) :
    (nameQuote >>= fun _ => member fields acc).run (memberBytes (name, bytes) ++ rest) =
      .ok (next, rest) := by
  have hquote : isBlank Ascii.quote = false := by decide
  have hrun := content_reads read rest hrest
  rw [List.cons_append] at hrun
  simp [nameQuote, memberBytes, quoted, punctuation_run hquote, member, textBody_run, memberValue,
    found, fresh, hrun]

/-- Members that stand behind the first one are gathered up to the end of the record. -/
theorem loopRun_memberStep {fields : List (Field σ)} {members : List (String × Bytes)}
    {acc last : σ} (h : Gathers fields members acc last) (rest : Bytes) :
    loopRun (memberStep fields) acc
      ((members.map memberBytes).flatMap (Ascii.comma :: ·) ++ Ascii.closeRecord :: rest) =
        .ok (last, rest) := by
  have hclose : isBlank Ascii.closeRecord = false := by decide
  have hcomma : isBlank Ascii.comma = false ∧ Ascii.comma ≠ Ascii.closeRecord := by decide
  induction h with
  | nil acc =>
    apply loopRun_cons_inr
    simp [memberStep, hclose]
  | @cons name bytes members acc next last f found fresh read others ih =>
    have hends := endsNumber_items (members.map memberBytes) (endsNumber_closeRecord rest)
    have hrun := member_run found fresh read hends
    rw [List.map_cons, List.flatMap_cons, List.cons_append, List.cons_append, List.append_assoc]
    rw [loopRun_cons_inl, ih]
    rw [run_bind] at hrun
    simp only [memberStep, hcomma.1, hcomma.2, if_false, if_true, Bool.false_eq_true, run_bind,
      run_map]
    revert hrun
    cases nameQuote.run (memberBytes (name, bytes) ++
      ((members.map memberBytes).flatMap (Ascii.comma :: ·) ++ Ascii.closeRecord :: rest)) with
    | error e => intro hrun; cases hrun
    | ok p => intro hrun; simp only at hrun ⊢; rw [hrun]

/-- A record is read back if its members lead to a state from which its value is made. -/
theorem record_takes {fields : List (Field σ)} {start last : σ} {finish : σ → Option α} {a : α}
    {m : String × Bytes} {ms : List (String × Bytes)}
    (h : Gathers fields (m :: ms) start last) (habsent : absentMembers fields last = .ok last)
    (hfinish : finish last = some a) :
    (record fields start finish).Takes
      (Ascii.openRecord :: commaSeparated ((m :: ms).map memberBytes) ++ [Ascii.closeRecord])
      a := by
  have hopen : isBlank Ascii.openRecord = false := by decide
  have hquote : isBlank Ascii.quote = false ∧ Ascii.quote ≠ Ascii.closeRecord := by decide
  intro rest
  cases h with
  | @cons name bytes _ _ next _ f found fresh read others =>
    have hends := endsNumber_items (ms.map memberBytes) (endsNumber_closeRecord rest)
    have hrun := member_run found fresh read hends
    have hloop := loopRun_memberStep others rest
    rw [List.map_cons, commaSeparated_cons]
    simp only [nameQuote, memberBytes, quoted, List.cons_append, List.append_assoc, run_bind,
      punctuation_run hquote.1, List.nil_append] at hrun
    simp only [memberBytes, quoted, List.cons_append, List.append_assoc, List.nil_append] at hloop ⊢
    simp [record, token_run hopen, run_skip_cons, members, token_run hquote.1, hquote.2, nameQuote,
      punctuation_run hquote.1, hrun, loop, hloop, habsent, ofExcept, hfinish, ofOption]

end Reader
end DiskTier.Json
