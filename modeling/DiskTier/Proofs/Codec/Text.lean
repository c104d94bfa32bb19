import DiskTier.Json.Quoted
import DiskTier.Json.Value
import Mathlib

/-!
# Texts are read back as they were written

Two round trips, one inside the other. `Utf8.decode?_encode`: a text is read back from its bytes.
`Json.Reader.textBody_run`: a text is read back from between its quotes, whatever follows the
closing one. The second is proved character by character: however a character is written, by itself
or by an escape, the reader has gathered its bytes when it comes to the next one.
-/

namespace DiskTier.Utf8

/-! ### One character -/

theorem toNat_tailByte (n : Nat) : (tailByte n).toNat = 0x80 + n % 64 := by
  have : n % 64 < 64 := Nat.mod_lt _ (by decide)
  simp only [tailByte, UInt8.toNat_ofNat']
  omega

theorem tails_tailByte (k n m : Nat) (s : Bytes) :
    tails (k + 1) n (tailByte m :: s) = tails k (n * 64 + m % 64) s := by
  have h := toNat_tailByte m
  have hl : (0x80 : UInt8) ≤ tailByte m := UInt8.le_iff_toNat_le.2 (by simp; omega)
  have hu : tailByte m ≤ 0xBF := UInt8.le_iff_toNat_le.2 (by simp; omega)
  simp [tails, hl, hu, h]

/-- The second byte of a character, behind a lead that admits it. -/
theorem afterLead_tailByte {l : Lead} {m : Nat} (s : Bytes)
    (hlow : l.low.toNat ≤ 0x80 + m % 64) (hhigh : 0x80 + m % 64 ≤ l.high.toNat) :
    afterLead l (tailByte m :: s) = tails l.more (l.bits * 64 + m % 64) s := by
  have h := toNat_tailByte m
  have hl : l.low ≤ tailByte m := UInt8.le_iff_toNat_le.2 (by omega)
  have hu : tailByte m ≤ l.high := UInt8.le_iff_toNat_le.2 (by omega)
  simp [afterLead, hl, hu, h]

/-- The lead of a character of two bytes. -/
theorem lead?_two {n : Nat} (h1 : 0x80 ≤ n) (h2 : n < 0x800) :
    lead? (UInt8.ofNat (0xC0 + n / 64)) = some ⟨n / 64, 0x80, 0xBF, 0⟩ := by
  have ha : (UInt8.ofNat (0xC0 + n / 64)).toNat = 0xC0 + n / 64 := by
    simp only [UInt8.toNat_ofNat']; omega
  grind [lead?, UInt8.lt_iff_toNat_lt]

/-- A lead byte is known from its number. -/
theorem lead?_eq (a : UInt8) :
    lead? a =
      if a.toNat < 0xC2 then none
      else if a.toNat < 0xE0 then some ⟨a.toNat - 0xC0, 0x80, 0xBF, 0⟩
      else if a.toNat = 0xE0 then some ⟨0, 0xA0, 0xBF, 1⟩
      else if a.toNat = 0xED then some ⟨0xD, 0x80, 0x9F, 1⟩
      else if a.toNat < 0xF0 then some ⟨a.toNat - 0xE0, 0x80, 0xBF, 1⟩
      else if a.toNat = 0xF0 then some ⟨0, 0x90, 0xBF, 2⟩
      else if a.toNat < 0xF4 then some ⟨a.toNat - 0xF0, 0x80, 0xBF, 2⟩
      else if a.toNat = 0xF4 then some ⟨4, 0x80, 0x8F, 2⟩
      else none := by
  simp only [lead?, UInt8.lt_iff_toNat_lt, ← UInt8.toNat_inj, UInt8.reduceToNat]

/-- The lead of a character of three bytes admits the second byte, whatever its range is. -/
theorem lead?_three {n : Nat} (h1 : 0x800 ≤ n) (h2 : n < 0x10000) (h3 : n < 0xD800 ∨ 0xDFFF < n) :
    ∃ low high, lead? (UInt8.ofNat (0xE0 + n / 4096)) = some ⟨n / 4096, low, high, 1⟩ ∧
      low.toNat ≤ 0x80 + n / 64 % 64 ∧ 0x80 + n / 64 % 64 ≤ high.toNat := by
  have ha : (UInt8.ofNat (0xE0 + n / 4096)).toNat = 0xE0 + n / 4096 := by
    simp only [UInt8.toNat_ofNat']; omega
  have hsub : 0xE0 + n / 4096 - 0xE0 = n / 4096 := by omega
  rw [lead?_eq, ha, if_neg (by omega), if_neg (by omega)]
  split
  · exact ⟨0xA0, 0xBF, by simp; omega, by simp only [UInt8.reduceToNat]; omega,
      by simp only [UInt8.reduceToNat]; omega⟩
  split
  · exact ⟨0x80, 0x9F, by simp; omega, by simp only [UInt8.reduceToNat]; omega,
      by simp only [UInt8.reduceToNat]; omega⟩
  · rw [if_pos (by omega), hsub]
    exact ⟨0x80, 0xBF, rfl, by simp only [UInt8.reduceToNat]; omega,
      by simp only [UInt8.reduceToNat]; omega⟩

/-- The lead of a character of four bytes admits the second byte, whatever its range is. -/
theorem lead?_four {n : Nat} (h1 : 0x10000 ≤ n) (h2 : n < 0x110000) :
    ∃ low high, lead? (UInt8.ofNat (0xF0 + n / 262144)) = some ⟨n / 262144, low, high, 2⟩ ∧
      low.toNat ≤ 0x80 + n / 4096 % 64 ∧ 0x80 + n / 4096 % 64 ≤ high.toNat := by
  have ha : (UInt8.ofNat (0xF0 + n / 262144)).toNat = 0xF0 + n / 262144 := by
    simp only [UInt8.toNat_ofNat']; omega
  have hsub : 0xF0 + n / 262144 - 0xF0 = n / 262144 := by omega
  rw [lead?_eq, ha, if_neg (by omega), if_neg (by omega), if_neg (by omega), if_neg (by omega),
    if_neg (by omega)]
  split
  · exact ⟨0x90, 0xBF, by simp; omega, by simp only [UInt8.reduceToNat]; omega,
      by simp only [UInt8.reduceToNat]; omega⟩
  split
  · rw [hsub]
    exact ⟨0x80, 0xBF, rfl, by simp only [UInt8.reduceToNat]; omega,
      by simp only [UInt8.reduceToNat]; omega⟩
  · rw [if_pos (by omega)]
    exact ⟨0x80, 0x8F, by simp; omega, by simp only [UInt8.reduceToNat]; omega,
      by simp only [UInt8.reduceToNat]; omega⟩

/-- The bytes of a character are read back as that character, whatever follows them. -/
theorem front_encodeChar (c : Char) (rest : Bytes) :
    front (encodeChar c ++ rest) = .char c rest := by
  have hv : c.toNat < 0xD800 ∨ 0xDFFF < c.toNat ∧ c.toNat < 0x110000 := c.valid
  have hc : Char.ofNat c.toNat = c := Char.ofNat_toNat c
  unfold encodeChar
  simp only
  generalize c.toNat = n at hv hc
  split
  · next h =>
    have ha : (UInt8.ofNat n).toNat = n := by simp only [UInt8.toNat_ofNat']; omega
    have hlt : UInt8.ofNat n < 0x80 := UInt8.lt_iff_toNat_lt.2 (by rw [ha]; exact h)
    simp [front, hlt, hc, ha]
  split
  · next h1 h2 =>
    have hge : ¬ UInt8.ofNat (0xC0 + n / 64) < 0x80 := by
      rw [UInt8.lt_iff_toNat_lt, UInt8.toNat_ofNat']; simp only [UInt8.reduceToNat]; omega
    have hn : n / 64 * 64 + n % 64 = n := by omega
    simp only [List.cons_append, List.nil_append, front, hge, if_false,
      lead?_two (Nat.le_of_not_lt h1) h2]
    rw [afterLead_tailByte rest (by simp) (by simp only [UInt8.reduceToNat]; omega), hn]
    simp [tails, hc]
  split
  · next h1 h2 h3 =>
    have hge : ¬ UInt8.ofNat (0xE0 + n / 4096) < 0x80 := by
      rw [UInt8.lt_iff_toNat_lt, UInt8.toNat_ofNat']; simp only [UInt8.reduceToNat]; omega
    obtain ⟨low, high, hl, hlow, hhigh⟩ := lead?_three (n := n) (by omega) h3 (by omega)
    have hn : (n / 4096 * 64 + n / 64 % 64) * 64 + n % 64 = n := by omega
    simp only [List.cons_append, List.nil_append, front, hge, if_false, hl]
    rw [afterLead_tailByte _ hlow hhigh, tails_tailByte, hn]
    simp [tails, hc]
  · next h1 h2 h3 =>
    have hge : ¬ UInt8.ofNat (0xF0 + n / 262144) < 0x80 := by
      rw [UInt8.lt_iff_toNat_lt, UInt8.toNat_ofNat']; simp only [UInt8.reduceToNat]; omega
    obtain ⟨low, high, hl, hlow, hhigh⟩ := lead?_four (n := n) (by omega) (by omega)
    have hn : ((n / 262144 * 64 + n / 4096 % 64) * 64 + n / 64 % 64) * 64 + n % 64 = n := by omega
    simp only [List.cons_append, List.nil_append, front, hge, if_false, hl]
    rw [afterLead_tailByte _ hlow hhigh, tails_tailByte, tails_tailByte, hn]
    simp [tails, hc]

/-! ### Texts -/

theorem charsOnto_encode (acc cs : List Char) :
    charsOnto acc (cs.flatMap encodeChar) = some (acc.reverse ++ cs) := by
  induction cs generalizing acc with
  | nil =>
    rw [List.flatMap_nil, charsOnto]
    split
    · simp
    · next h => cases h
    · next h => cases h
  | cons c cs ih =>
    rw [List.flatMap_cons, charsOnto]
    split
    · next h => rw [front_encodeChar] at h; cases h
    · next d r h =>
      rw [front_encodeChar] at h
      cases h
      simpa using ih (c :: acc)
    · next h => rw [front_encodeChar] at h; cases h

/-- A text is read back from its bytes. -/
theorem decode?_encode (s : String) : decode? (encode s) = some s := by
  simp [decode?, encode, charsOnto_encode]

end DiskTier.Utf8

namespace DiskTier.Json.Reader

variable {α β : Type}

/-! ### Loops -/

theorem loopRun_cons_inl {step : UInt8 → α → Reader (α ⊕ β)} {b : UInt8} {a a' : α} {s r : Bytes}
    (h : (step b a).run s = .ok (.inl a', r)) :
    loopRun step a (b :: s) = loopRun step a' r := by
  rw [loopRun]
  split
  · next h' => rw [h] at h'; cases h'; rfl
  · next h' => rw [h] at h'; cases h'
  · next h' => rw [h] at h'; cases h'

theorem loopRun_cons_inr {step : UInt8 → α → Reader (α ⊕ β)} {b : UInt8} {a : α} {v : β}
    {s r : Bytes} (h : (step b a).run s = .ok (.inr v, r)) :
    loopRun step a (b :: s) = .ok (v, r) := by
  rw [loopRun]
  split
  · next h' => rw [h] at h'; cases h'
  · next h' => rw [h] at h'; cases h'; rfl
  · next h' => rw [h] at h'; cases h'

/-! ### Characters between quotes -/

/-- A byte that stands for itself between quotes. -/
def IsPlain (b : UInt8) : Prop := b ≠ Ascii.quote ∧ b ≠ Ascii.backslash ∧ ¬ b < 0x20

theorem loopRun_textStep_plain {bs : Bytes} (h : ∀ b ∈ bs, IsPlain b) (acc rest : Bytes) :
    loopRun textStep acc (bs ++ rest) = loopRun textStep (bs.reverse ++ acc) rest := by
  induction bs generalizing acc with
  | nil => rfl
  | cons b bs ih =>
    obtain ⟨hq, hb, hc⟩ := h b (by simp)
    have hstep : (textStep b acc).run (bs ++ rest) = .ok (.inl (b :: acc), bs ++ rest) := by
      simp [textStep, hq, hb, hc]
    rw [List.cons_append, loopRun_cons_inl hstep, ih (fun x hx => h x (by simp [hx]))]
    simp

/-- What stands behind a backslash gives the character back. -/
theorem loopRun_textStep_escaped {c : Char} {bs : Bytes} (acc rest : Bytes)
    (h : escaped.run (bs ++ rest) = .ok (c, rest)) :
    loopRun textStep acc (Ascii.backslash :: (bs ++ rest)) =
      loopRun textStep ((Utf8.encodeChar c).reverse ++ acc) rest := by
  apply loopRun_cons_inl
  have hne : Ascii.backslash ≠ Ascii.quote := by decide
  simp [textStep, hne, h]

theorem run_peek_cons (b : UInt8) (s : Bytes) : peek.run (b :: s) = .ok (some b, b :: s) := rfl

theorem run_skip_cons (b : UInt8) (s : Bytes) : skip.run (b :: s) = .ok ((), s) := rfl

theorem escaped_run_short {c letter : Char} (h : shortEscape? c = some letter) (rest : Bytes) :
    escaped.run (Utf8.encodeChar letter ++ rest) = .ok (c, rest) := by
  unfold shortEscape? at h
  repeat' split at h
  all_goals first | (cases h; subst_vars; rfl) | cases h

theorem codeUnit_run_control {n : Nat} (h : n < 0x20) (rest : Bytes) :
    codeUnit.run (Ascii.zero :: Ascii.zero :: Ascii.hexDigit (n / 16) :: Ascii.hexDigit (n % 16) ::
      rest) = .ok (n, rest) := by
  have h0 : Ascii.hexValue? Ascii.zero = some 0 := by decide
  have h1 := Ascii.hexValue?_hexDigit (n / 16) (by omega)
  have h2 := Ascii.hexValue?_hexDigit (n % 16) (by omega)
  have hn : ((0 * 16 + 0) * 16 + n / 16) * 16 + n % 16 = n := by omega
  simp only [codeUnit, h0, h1, h2, hn]

theorem escaped_run_control {c : Char} (h : c.toNat < 0x20) (rest : Bytes) :
    escaped.run (Ascii.letterU :: Ascii.zero :: Ascii.zero :: Ascii.hexDigit (c.toNat / 16) ::
      Ascii.hexDigit (c.toNat % 16) :: rest) = .ok (c, rest) := by
  have hs : shortEscaped? Ascii.letterU = none := by decide
  have ht : isTrailing c.toNat = false := by simp [isTrailing]; omega
  have hl : isLeading c.toNat = false := by simp [isLeading]; omega
  simp [escaped, escapeLetter, run_peek_cons, run_skip_cons, hs, codePoint,
    codeUnit_run_control h, ht, hl]


theorem isPlain_of_le_toNat {b : UInt8} (h : 0x80 ≤ b.toNat) : IsPlain b := by
  refine ⟨?_, ?_, ?_⟩
  · rintro rfl; exact absurd h (by decide)
  · rintro rfl; exact absurd h (by decide)
  · rw [UInt8.lt_iff_toNat_lt]
    simp only [UInt8.reduceToNat]
    omega

theorem isPlain_tailByte (n : Nat) : IsPlain (Utf8.tailByte n) :=
  isPlain_of_le_toNat (by rw [Utf8.toNat_tailByte]; omega)

/-- A character without an escape is written in bytes that stand for themselves. -/
theorem isPlain_of_mem_encodeChar {c : Char} (hs : shortEscape? c = none) (hc : ¬ c.toNat < 0x20) :
    ∀ b ∈ Utf8.encodeChar c, IsPlain b := by
  have hmax : c.toNat < 0x110000 := by
    have hv : c.toNat < 0xD800 ∨ 0xDFFF < c.toNat ∧ c.toNat < 0x110000 := c.valid
    omega
  have hquote : c.toNat ≠ 0x22 := by
    intro h
    have : c = '"' := Char.toNat_inj.1 h
    subst this
    cases hs
  have hback : c.toNat ≠ 0x5C := by
    intro h
    have : c = '\\' := Char.toNat_inj.1 h
    subst this
    cases hs
  intro b hb
  unfold Utf8.encodeChar at hb
  simp only at hb
  generalize c.toNat = n at hb hc hmax hquote hback
  split at hb
  · next h =>
    have hb : b = UInt8.ofNat n := by simpa using hb
    have hn : b.toNat = n := by
      rw [hb, UInt8.toNat_ofNat']
      omega
    refine ⟨?_, ?_, ?_⟩
    · rintro rfl; exact hquote hn.symm
    · rintro rfl; exact hback hn.symm
    · rw [UInt8.lt_iff_toNat_lt, hn]
      exact hc
  split at hb
  · simp only [List.mem_cons, List.not_mem_nil, or_false] at hb
    rcases hb with rfl | rfl
    · exact isPlain_of_le_toNat (by rw [UInt8.toNat_ofNat']; omega)
    · exact isPlain_tailByte _
  split at hb
  · simp only [List.mem_cons, List.not_mem_nil, or_false] at hb
    rcases hb with rfl | rfl | rfl
    · exact isPlain_of_le_toNat (by rw [UInt8.toNat_ofNat']; omega)
    · exact isPlain_tailByte _
    · exact isPlain_tailByte _
  · simp only [List.mem_cons, List.not_mem_nil, or_false] at hb
    rcases hb with rfl | rfl | rfl | rfl
    · exact isPlain_of_le_toNat (by rw [UInt8.toNat_ofNat']; omega)
    · exact isPlain_tailByte _
    · exact isPlain_tailByte _
    · exact isPlain_tailByte _

/-- However a character is written between quotes, its bytes are gathered. -/
theorem loopRun_textStep_escapeChar (c : Char) (acc rest : Bytes) :
    loopRun textStep acc (escapeChar c ++ rest) =
      loopRun textStep ((Utf8.encodeChar c).reverse ++ acc) rest := by
  unfold escapeChar
  split
  · next letter hs =>
    exact loopRun_textStep_escaped acc rest (escaped_run_short hs rest)
  · next hs =>
    split
    · next hc =>
      rw [List.cons_append]
      exact loopRun_textStep_escaped acc rest (escaped_run_control hc rest)
    · next hc =>
      exact loopRun_textStep_plain (isPlain_of_mem_encodeChar hs hc) acc rest

theorem loopRun_textStep_flatMap (cs : List Char) (acc rest : Bytes) :
    loopRun textStep acc (cs.flatMap escapeChar ++ Ascii.quote :: rest) =
      .ok (acc.reverse ++ cs.flatMap Utf8.encodeChar, rest) := by
  induction cs generalizing acc with
  | nil =>
    have hq : (textStep Ascii.quote acc).run rest = .ok (.inr acc.reverse, rest) := by
      simp [textStep]
    simpa using loopRun_cons_inr hq
  | cons c cs ih =>
    rw [List.flatMap_cons, List.append_assoc, loopRun_textStep_escapeChar, ih]
    simp

/-- A text is read back from between its quotes. -/
theorem textBody_run (s : String) (rest : Bytes) :
    textBody.run (s.toList.flatMap escapeChar ++ Ascii.quote :: rest) = .ok (s, rest) := by
  have hs : Utf8.decode? (s.toList.flatMap Utf8.encodeChar) = some s := Utf8.decode?_encode s
  simp [textBody, loop, loopRun_textStep_flatMap, hs]

end DiskTier.Json.Reader
