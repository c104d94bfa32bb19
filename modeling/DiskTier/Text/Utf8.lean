import DiskTier.Bytes

/-!
# UTF-8

Texts are stored as UTF-8. `encode` writes a text; `decode?` reads one back and refuses bytes that
are no text; `decodeLossy` reads any bytes, with U+FFFD for each longest start of a character that
breaks off.

The two readers share `front`, which looks at the first character only. A lead byte fixes how many
bytes follow and, for the four leads that could start an overlong form, a surrogate or a code point
above U+10FFFF, a narrower range for the second byte. Every other rule is "a tail byte is one of
0x80 to 0xBF".
-/

namespace DiskTier.Utf8

/-! ### Writing -/

/-- The tail byte that carries the six lowest bits of `n`. -/
def tailByte (n : Nat) : UInt8 := UInt8.ofNat (0x80 + n % 64)

/-- The one to four bytes of a character. -/
def encodeChar (c : Char) : Bytes :=
  let n := c.toNat
  if n < 0x80 then [UInt8.ofNat n]
  else if n < 0x800 then [UInt8.ofNat (0xC0 + n / 64), tailByte n]
  else if n < 0x10000 then
    [UInt8.ofNat (0xE0 + n / 4096), tailByte (n / 64), tailByte n]
  else
    [UInt8.ofNat (0xF0 + n / 262144), tailByte (n / 4096), tailByte (n / 64), tailByte n]

def encode (s : String) : Bytes := s.toList.flatMap encodeChar

def size (s : String) : Nat := (encode s).length

/-! ### Reading one character -/

/-- What a lead byte says about the character it starts. -/
structure Lead where
  /-- The bits that the lead itself carries. -/
  bits : Nat
  /-- The least second byte. -/
  low : UInt8
  /-- The greatest second byte. -/
  high : UInt8
  /-- The number of bytes after the second. -/
  more : Nat

/-- The lead that a byte of 0x80 or above is, if it is one. -/
def lead? (b : UInt8) : Option Lead :=
  if b < 0xC2 then none
  else if b < 0xE0 then some ⟨b.toNat - 0xC0, 0x80, 0xBF, 0⟩
  else if b = 0xE0 then some ⟨0, 0xA0, 0xBF, 1⟩
  else if b = 0xED then some ⟨0xD, 0x80, 0x9F, 1⟩
  else if b < 0xF0 then some ⟨b.toNat - 0xE0, 0x80, 0xBF, 1⟩
  else if b = 0xF0 then some ⟨0, 0x90, 0xBF, 2⟩
  else if b < 0xF4 then some ⟨b.toNat - 0xF0, 0x80, 0xBF, 2⟩
  else if b = 0xF4 then some ⟨4, 0x80, 0x8F, 2⟩
  else none

/-- What stands at the front of a byte sequence. -/
inductive Front where
  | done
  | char (c : Char) (rest : Bytes)
  /-- A start of a character that breaks off before `rest`, or a byte that starts none. -/
  | broken (rest : Bytes)

/-- Reads `count` tail bytes after bits worth `n`. -/
def tails : (count n : Nat) → Bytes → Front
  | 0, n, s => .char (Char.ofNat n) s
  | _ + 1, _, [] => .broken []
  | k + 1, n, b :: s =>
    if 0x80 ≤ b && b ≤ 0xBF then tails k (n * 64 + (b.toNat - 0x80)) s else .broken (b :: s)

/-- Reads the bytes after a lead. -/
def afterLead (l : Lead) : Bytes → Front
  | [] => .broken []
  | b :: s =>
    if l.low ≤ b && b ≤ l.high then tails l.more (l.bits * 64 + (b.toNat - 0x80)) s
    else .broken (b :: s)

def front : Bytes → Front
  | [] => .done
  | a :: s =>
    if a < 0x80 then .char (Char.ofNat a.toNat) s
    else match lead? a with
      | none => .broken s
      | some l => afterLead l s

/-- The bytes that `front` leaves. -/
def Front.rest : Front → Bytes
  | .done => []
  | .char _ r => r
  | .broken r => r

theorem tails_rest_length (count n : Nat) (s : Bytes) :
    (tails count n s).rest.length ≤ s.length := by
  induction count generalizing n s with
  | zero => simp [tails, Front.rest]
  | succ k ih =>
    cases s with
    | nil => simp [tails, Front.rest]
    | cons b s =>
      rw [tails]
      split
      · exact Nat.le_succ_of_le (ih _ _)
      · simp [Front.rest]

theorem afterLead_rest_length (l : Lead) (s : Bytes) :
    (afterLead l s).rest.length ≤ s.length := by
  cases s with
  | nil => simp [afterLead, Front.rest]
  | cons b s =>
    rw [afterLead]
    split
    · exact Nat.le_succ_of_le (tails_rest_length _ _ _)
    · simp [Front.rest]

/-- Whatever stands at the front takes at least one byte. -/
theorem front_rest_length (a : UInt8) (s : Bytes) :
    (front (a :: s)).rest.length < (a :: s).length := by
  rw [front]
  split
  · simp [Front.rest]
  · split
    · simp [Front.rest]
    · exact Nat.lt_succ_of_le (afterLead_rest_length _ _)

theorem front_char_length {s : Bytes} {c : Char} {r : Bytes} (h : front s = .char c r) :
    r.length < s.length := by
  cases s with
  | nil => simp [front] at h
  | cons a s => simpa [h, Front.rest] using front_rest_length a s

theorem front_broken_length {s r : Bytes} (h : front s = .broken r) : r.length < s.length := by
  cases s with
  | nil => simp [front] at h
  | cons a s => simpa [h, Front.rest] using front_rest_length a s

/-! ### Reading texts -/

/-- The characters of `s`, after those of `acc` in reverse; `none` at the first broken one. -/
def charsOnto (acc : List Char) (s : Bytes) : Option (List Char) :=
  match h : front s with
  | .done => some acc.reverse
  | .char c r =>
    have := front_char_length h
    charsOnto (c :: acc) r
  | .broken _ => none
termination_by s.length

/-- The text that `s` is, if it is one. -/
def decode? (s : Bytes) : Option String := (charsOnto [] s).map String.ofList

/-- As `charsOnto`, with U+FFFD for every broken start. -/
def lossyCharsOnto (acc : List Char) (s : Bytes) : List Char :=
  match h : front s with
  | .done => acc.reverse
  | .char c r =>
    have := front_char_length h
    lossyCharsOnto (c :: acc) r
  | .broken r =>
    have := front_broken_length h
    lossyCharsOnto ('\uFFFD' :: acc) r
termination_by s.length

/-- The text that `s` holds, with U+FFFD where it holds none. -/
def decodeLossy (s : Bytes) : String := String.ofList (lossyCharsOnto [] s)

end DiskTier.Utf8
