import DiskTier.Json.Number
import DiskTier.Proofs.Codec.Text

/-!
# Numbers are read back as they were written

A number ends where no digit, point or exponent follows, which is what `EndsNumber` says of the rest
of the input. Main statement: `Json.Reader.number_run_ofInt`, for the integers of 64 bits.
-/

namespace DiskTier.Decimal

/-! ### Digits -/

theorem isDigit_ofChar {c : Char} (h : c.isDigit) : Ascii.isDigit (UInt8.ofNat c.toNat) := by
  have h' : 48 ≤ c.toNat ∧ c.toNat ≤ 57 := by
    simpa [Char.isDigit, UInt32.le_iff_toNat_le] using h
  have hn : (UInt8.ofNat c.toNat).toNat = c.toNat := by rw [UInt8.toNat_ofNat']; omega
  simp only [Ascii.isDigit, Bool.and_eq_true, decide_eq_true_eq, UInt8.le_iff_toNat_le, hn,
    UInt8.reduceToNat]
  exact h'

theorem digitValue_ofChar {c : Char} (h : c.isDigit) :
    Ascii.digitValue (UInt8.ofNat c.toNat) = c.toNat - '0'.toNat := by
  have h' : 48 ≤ c.toNat ∧ c.toNat ≤ 57 := by
    simpa [Char.isDigit, UInt32.le_iff_toNat_le] using h
  have hn : (UInt8.ofNat c.toNat).toNat = c.toNat := by rw [UInt8.toNat_ofNat']; omega
  simp [Ascii.digitValue, hn]

theorem isDigit_of_mem_ofNat {n : Nat} {b : UInt8} (h : b ∈ ofNat n) : Ascii.isDigit b := by
  obtain ⟨c, hc, rfl⟩ := List.mem_map.1 h
  exact isDigit_ofChar (Nat.isDigit_of_mem_toDigits (by decide) (by decide) hc)

theorem ofNat_ne_nil (n : Nat) : ofNat n ≠ [] := by
  simp [ofNat, Nat.toDigits_ne_nil]

theorem head?_toDigits_ne_zero {n : Nat} (hn : 0 < n) : (Nat.toDigits 10 n).head? ≠ some '0' := by
  induction n using Nat.strongRecOn with
  | ind n ih =>
    by_cases h : n < 10
    · rw [Nat.toDigits_of_lt_base h]
      have hall : ∀ m < 10, 0 < m → [m.digitChar].head? ≠ some '0' := by decide
      exact hall n h hn
    · have hq := ih (n / 10) (by omega) (by omega)
      rw [Nat.toDigits_of_base_le (by decide) (by omega), List.head?_append]
      cases hd : Nat.toDigits 10 (n / 10) with
      | nil => exact absurd hd Nat.toDigits_ne_nil
      | cons c cs => simpa [hd] using hq

/-- A number of more than one digit does not start with a zero. -/
theorem ofNat_no_leading_zero {n : Nat} {d e : UInt8} {ds : Bytes} (h : ofNat n = d :: e :: ds) :
    d ≠ Ascii.zero := by
  have hn : 0 < n := by
    rcases Nat.eq_zero_or_pos n with rfl | hn
    · simp [ofNat, Nat.toDigits_zero] at h
    · exact hn
  have hhead := head?_toDigits_ne_zero hn
  rw [ofNat] at h
  cases hd : Nat.toDigits 10 n with
  | nil => simp [hd] at h
  | cons c cs =>
    have hc : c.isDigit :=
      Nat.isDigit_of_mem_toDigits (by decide) (by decide) (hd ▸ List.mem_cons_self)
    have hdc : UInt8.ofNat c.toNat = d := by
      rw [hd, List.map_cons, List.cons.injEq] at h
      exact h.1
    rintro rfl
    have hval := digitValue_ofChar hc
    have hrange : 48 ≤ c.toNat ∧ c.toNat ≤ 57 := by
      simpa [Char.isDigit, UInt32.le_iff_toNat_le] using hc
    rw [hdc] at hval
    have hzero : Ascii.digitValue Ascii.zero = 0 := by decide
    have h48 : '0'.toNat = 48 := by decide
    have hc0 : c = '0' := Char.toNat_inj.1 (by omega)
    exact hhead (by rw [hd, hc0]; rfl)

/-- A digit more never makes a number smaller. -/
theorem le_ofDigitChars (cs : List Char) (init : Nat) : init ≤ Nat.ofDigitChars 10 cs init := by
  induction cs generalizing init with
  | nil => simp
  | cons c cs ih =>
    rw [Nat.ofDigitChars_cons]
    exact Nat.le_trans (by omega) (ih _)

end DiskTier.Decimal

namespace DiskTier.Json

theorem appendDigits_map {cs : List Char} (hcs : ∀ c ∈ cs, c.isDigit) {init : Nat} (count : Nat)
    (h : Nat.ofDigitChars 10 cs init < 2 ^ 64) :
    appendDigits init count (cs.map fun c => UInt8.ofNat c.toNat) =
      (Nat.ofDigitChars 10 cs init, count + cs.length) := by
  induction cs generalizing init count with
  | nil => simp [appendDigits]
  | cons c cs ih =>
    have hval := Decimal.digitValue_ofChar (hcs c (by simp))
    rw [Nat.ofDigitChars_cons] at h ⊢
    have hm : init * 10 + (c.toNat - '0'.toNat) = 10 * init + (c.toNat - '0'.toNat) := by omega
    have hlt : 10 * init + (c.toNat - '0'.toNat) < 0x10000000000000000 :=
      Nat.lt_of_le_of_lt (Decimal.le_ofDigitChars cs _) h
    rw [List.map_cons, appendDigits, hval, hm, if_pos hlt,
      ih (fun x hx => hcs x (by simp [hx])) _ h]
    simp only [List.length_cons, Prod.mk.injEq, true_and]
    omega

/-- The digits of a number of 64 bits are read back as that number. -/
theorem appendDigits_ofNat {n : Nat} (h : n < 2 ^ 64) :
    appendDigits 0 0 (Decimal.ofNat n) = (n, (Decimal.ofNat n).length) := by
  have hdigits : ∀ c ∈ Nat.toDigits 10 n, c.isDigit :=
    fun c hc => Nat.isDigit_of_mem_toDigits (by decide) (by decide) hc
  have hall := Nat.ofDigitChars_ten_toDigits (n := n)
  have hmap := appendDigits_map hdigits 0 (by rw [hall]; exact h)
  simpa [Decimal.ofNat] using hmap

namespace Reader

/-! ### Reading -/

/-- Whether a number that stands before this input ends where the input begins. -/
def EndsNumber (rest : Bytes) : Prop :=
  ∀ b, rest.head? = some b →
    Ascii.isDigit b = false ∧ b ≠ Ascii.point ∧ b ≠ 0x65 ∧ b ≠ 0x45

theorem takeIf_run_of_head {p : UInt8 → Bool} {s : Bytes}
    (h : ∀ b, s.head? = some b → p b = false) : (takeIf p).run s = .ok (false, s) := by
  cases s with
  | nil => rfl
  | cons b s => simp [takeIf, run_peek_cons, h b rfl]

theorem digits_run_append {ds rest : Bytes} (hds : ∀ b ∈ ds, Ascii.isDigit b)
    (hrest : ∀ b, rest.head? = some b → Ascii.isDigit b = false) :
    digits.run (ds ++ rest) = .ok (ds, rest) := by
  have ht : rest.takeWhile Ascii.isDigit = [] := by
    cases rest with
    | nil => rfl
    | cons b r => simp [hrest b rfl]
  have hd : rest.dropWhile Ascii.isDigit = rest := by
    cases rest with
    | nil => rfl
    | cons b r => simp [hrest b rfl]
  simp [digits, List.takeWhile_append_of_pos hds, List.dropWhile_append_of_pos hds, ht, hd]

theorem someDigits_run_append {ds rest : Bytes} (atEnd : Fault) (hne : ds ≠ [])
    (hds : ∀ b ∈ ds, Ascii.isDigit b)
    (hrest : ∀ b, rest.head? = some b → Ascii.isDigit b = false) :
    (someDigits atEnd).run (ds ++ rest) = .ok (ds, rest) := by
  cases ds with
  | nil => exact absurd rfl hne
  | cons d ds =>
    have hd : Ascii.isDigit d = true := hds d (by simp)
    have hrun := digits_run_append hds hrest
    rw [List.cons_append] at hrun ⊢
    simp [someDigits, nextOr, run_peek_cons, hd, hrun]

theorem wholePart_run_ofNat (n : Nat) (atEnd : Fault) {rest : Bytes} (hrest : EndsNumber rest) :
    (wholePart atEnd).run (Decimal.ofNat n ++ rest) = .ok (Decimal.ofNat n, rest) := by
  have hrun := someDigits_run_append atEnd (Decimal.ofNat_ne_nil n)
    (fun b hb => Decimal.isDigit_of_mem_ofNat hb) (fun b hb => (hrest b hb).1)
  rw [wholePart, run_bind, hrun]
  simp only
  split
  · next d e ds h =>
    rw [if_neg (Decimal.ofNat_no_leading_zero h)]
    simp
  · simp

/-- A number without fraction and exponent is read up to its last digit. -/
theorem numberText_run (n : Nat) (atEnd : Fault) {rest : Bytes} (hrest : EndsNumber rest) :
    (numberText atEnd).run (Decimal.ofNat n ++ rest) =
      .ok ({ negative := false, whole := Decimal.ofNat n, fraction := none, exponent := none },
        rest) := by
  have hsign : (takeIf (· == Ascii.minus)).run (Decimal.ofNat n ++ rest) =
      .ok (false, Decimal.ofNat n ++ rest) := by
    apply takeIf_run_of_head
    intro b hb
    cases hd : Decimal.ofNat n with
    | nil => exact absurd hd (Decimal.ofNat_ne_nil n)
    | cons d ds =>
      have hdig := Decimal.isDigit_of_mem_ofNat (n := n) (b := d) (by simp [hd])
      have hbd : d = b := by simpa [hd] using hb
      have : b ≠ Ascii.minus := by
        rintro rfl
        rw [hbd] at hdig
        exact absurd hdig (by decide)
      simpa using this
  have hpoint : (takeIf (· == Ascii.point)).run rest = .ok (false, rest) :=
    takeIf_run_of_head fun b hb => by simpa using (hrest b hb).2.1
  have hexp : (takeIf fun b => b == 0x65 || b == 0x45).run rest = .ok (false, rest) :=
    takeIf_run_of_head fun b hb => by simpa using (hrest b hb).2.2
  simp [numberText, hsign, wholePart_run_ofNat n atEnd hrest, hpoint, hexp]

theorem numberText_run_neg (n : Nat) (atEnd : Fault) {rest : Bytes} (hrest : EndsNumber rest) :
    (numberText atEnd).run (Ascii.minus :: (Decimal.ofNat n ++ rest)) =
      .ok ({ negative := true, whole := Decimal.ofNat n, fraction := none, exponent := none },
        rest) := by
  have hpoint : (takeIf (· == Ascii.point)).run rest = .ok (false, rest) :=
    takeIf_run_of_head fun b hb => by simpa using (hrest b hb).2.1
  have hexp : (takeIf fun b => b == 0x65 || b == 0x45).run rest = .ok (false, rest) :=
    takeIf_run_of_head fun b hb => by simpa using (hrest b hb).2.2
  have hsign : (takeIf (· == Ascii.minus)).run (Ascii.minus :: (Decimal.ofNat n ++ rest)) =
      .ok (true, Decimal.ofNat n ++ rest) := by
    simp [takeIf, run_peek_cons, run_skip_cons]
  simp [numberText, hsign, wholePart_run_ofNat n atEnd hrest, hpoint, hexp]

/-- The text of a negative number of 64 bits is understood as that number. -/
theorem integer?_ofNat_neg {n : Nat} (hn : n + 1 ≤ 2 ^ 63) :
    NumberText.integer? ⟨true, Decimal.ofNat (n + 1), none, none⟩ = some (Int.negSucc n) := by
  have hneg : (decide (0 < n + 1) && decide (n + 1 ≤ 0x8000000000000000)) = true := by
    rw [Bool.and_eq_true, decide_eq_true_eq, decide_eq_true_eq]
    exact ⟨Nat.succ_pos n, hn⟩
  unfold NumberText.integer?
  rw [appendDigits_ofNat (by omega)]
  simp only [Option.isSome_none, Bool.or_self, Nat.lt_irrefl, decide_false, Bool.false_eq_true,
    if_false, if_true, hneg]
  rfl

/-- An integer of 64 bits, signed or unsigned, is read back as it was written. -/
theorem number_run_ofInt {n : Int} (hlow : -2 ^ 63 ≤ n) (hhigh : n < 2 ^ 64) {rest : Bytes}
    (hrest : EndsNumber rest) :
    number.run (Decimal.ofInt n ++ rest) = .ok (.integer n, rest) := by
  cases n with
  | ofNat n =>
    have hn : n < 2 ^ 64 := by
      rw [Int.ofNat_eq_natCast] at hhigh
      omega
    simp [number, Decimal.ofInt, numberText_run n .unfinished hrest, NumberText.integer?,
      appendDigits_ofNat hn]
  | negSucc n =>
    have hn : n + 1 ≤ 2 ^ 63 := by omega
    simp [number, Decimal.ofInt, numberText_run_neg (n + 1) .unfinished hrest,
      integer?_ofNat_neg hn]

end Reader

end DiskTier.Json
