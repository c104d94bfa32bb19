import DiskTier.Json.Skip

/-!
# Readers of typed values

Integers in a range, texts, optional values, lists, records with known members, and tagged values.

A record may come in two forms: between braces, with named members in any order, or between square
brackets, with its members in their declared order. Between braces a member that is not declared is
passed over, and one that comes twice is a mismatch, which is found before its second value is
read.
-/

namespace DiskTier.Json

namespace Reader

variable {α σ : Type}

/-! ### Single values -/

/-- An integer that `accept` turns into an `α`. -/
def integer (accept : Int → Option α) : Reader α := do
  if startsNumber (← token) then
    match ← number with
    | .integer n => ofOption (accept n)
    | .real => fail .mismatched
  else mismatch

def byte : Reader UInt8 :=
  integer fun n => if 0 ≤ n ∧ n < 0x100 then some (UInt8.ofNat n.toNat) else none

def word32 : Reader UInt32 :=
  integer fun n => if 0 ≤ n ∧ n < 0x100000000 then some (UInt32.ofNat n.toNat) else none

def word64 : Reader UInt64 :=
  integer fun n => if 0 ≤ n ∧ n < 0x10000000000000000 then some (UInt64.ofNat n.toNat) else none

/-- An integer of 64 bits with a sign. -/
def signed64 : Reader Int64 :=
  integer fun n =>
    if -0x8000000000000000 ≤ n ∧ n < 0x8000000000000000 then some (Int64.ofInt n) else none

def text : Reader String := do
  if (← token) = Ascii.quote then do skip; textBody else mismatch

/-- The word `null`, or what `x` reads. -/
def optional (x : Reader α) : Reader (Option α) := do
  blanks
  if (← peek) = some 0x6E then do
    exactly [0x6E, 0x75, 0x6C, 0x6C]
    pure none
  else some <$> x

/-! ### Lists -/

/-- Whether another item comes in an open list; a comma before it is taken. -/
def hasItem (first : Bool) : Reader Bool := do
  let b ← token
  if b = Ascii.closeList then pure false
  else if first then pure true
  else if b = Ascii.comma then do
    skip
    if (← token) = Ascii.closeList then fail .malformed else pure true
  else fail .malformed

/-- The byte `b` behind an item, and the next item if it is a comma. -/
def itemStep (item : σ → Reader σ) (b : UInt8) (acc : σ) : Reader (σ ⊕ σ) :=
  if isBlank b then pure (.inl acc)
  else if b = Ascii.closeList then pure (.inr acc)
  else if b = Ascii.comma then do
    if (← token) = Ascii.closeList then fail .malformed else .inl <$> item acc
  else fail .malformed

/-- A list whose items are gathered by `item`. -/
def listInto (item : σ → Reader σ) (acc : σ) : Reader σ := do
  if (← token) = Ascii.openList then do
    skip
    if (← token) = Ascii.closeList then do skip; pure acc
    else loop (itemStep item) (← item acc)
  else mismatch

def list (item : Reader α) : Reader (List α) :=
  List.reverse <$> listInto (fun acc => (· :: acc) <$> item) []

/-! ### Tagged values -/

/-- A record with one member, whose name says how to read its value. -/
def tagged (read : String → Reader α) : Reader α := do
  let b ← token
  if b = Ascii.openRecord then do
    skip
    punctuation Ascii.quote
    let a ← read (← textBody)
    punctuation Ascii.closeRecord
    pure a
  else if b = Ascii.quote then mismatch
  else fail .malformed

/-- A colon, and the value behind it. -/
def content (x : Reader α) : Reader α := do
  punctuation Ascii.colon
  x

end Reader

/-! ### Records -/

/-- A member of a record that is gathered in a `σ`. -/
structure Field (σ : Type) where
  name : String
  /-- Whether the member has come. -/
  given : σ → Bool
  /-- Reads the member's value. -/
  read : σ → Reader σ
  /-- What stands for the member if it does not come between braces. -/
  absent : σ → Except Fault σ
  /-- What stands for the member if a list ends before it. -/
  cutShort : σ → Except Fault σ

namespace Field

variable {α σ : Type}

/-- A member that must come. -/
def required (name : String) (get : σ → Option α) (put : α → σ → σ) (x : Reader α) : Field σ where
  name
  given acc := (get acc).isSome
  read acc := (put · acc) <$> x
  absent _ := .error .mismatched
  cutShort _ := .error .mismatched

/-- A member that may be `null`, and may be left out between braces. -/
def nullable (name : String) (get : σ → Option (Option α)) (put : Option α → σ → σ)
    (x : Reader α) : Field σ where
  name
  given acc := (get acc).isSome
  read acc := (put · acc) <$> x.optional
  absent acc := .ok (put none acc)
  cutShort _ := .error .mismatched

/-- A member that may be `null`, and may be left out in both forms. -/
def defaulted (name : String) (get : σ → Option (Option α)) (put : Option α → σ → σ)
    (x : Reader α) : Field σ :=
  { nullable name get put x with cutShort := fun acc => .ok (put none acc) }

end Field

namespace Reader

variable {α σ : Type}

/-- The colon and the value of the member called `name`. -/
def memberValue (fields : List (Field σ)) (name : String) (acc : σ) : Reader σ :=
  match fields.find? (·.name == name) with
  | some f => if f.given acc then fail .mismatched else content (f.read acc)
  | none => do content skipValue; pure acc

/-- A member whose opening quote is taken. -/
def member (fields : List (Field σ)) (acc : σ) : Reader σ := do
  memberValue fields (← textBody) acc

/-- The quote of the next member's name; nothing else may come. -/
def nameQuote : Reader Unit := punctuation Ascii.quote

/-- The byte `b` behind a member, and the next member if it is a comma. -/
def memberStep (fields : List (Field σ)) (b : UInt8) (acc : σ) : Reader (σ ⊕ σ) :=
  if isBlank b then pure (.inl acc)
  else if b = Ascii.closeRecord then pure (.inr acc)
  else if b = Ascii.comma then do nameQuote; .inl <$> member fields acc
  else fail .malformed

/-- The members between braces, the first of which is taken. -/
def members (fields : List (Field σ)) (acc : σ) : Reader σ := do
  if (← token) = Ascii.closeRecord then do skip; pure acc
  else do
    nameQuote
    loop (memberStep fields) (← member fields acc)

/-- What stands for the members that have not come. -/
def absentMembers : List (Field σ) → σ → Except Fault σ
  | [], acc => .ok acc
  | f :: fs, acc => if f.given acc then absentMembers fs acc else f.absent acc >>= absentMembers fs

/-- The members between square brackets, the first of which is taken. -/
def positional : (first : Bool) → List (Field σ) → σ → Reader σ
  | _, [], acc => do punctuation Ascii.closeList; pure acc
  | first, f :: fs, acc => do
    if ← hasItem first then positional false fs (← f.read acc)
    else positional first fs (← ofExcept (f.cutShort acc))

/-- A record with these members; `finish` makes the value once all have come. -/
def record (fields : List (Field σ)) (start : σ) (finish : σ → Option α) : Reader α := do
  let b ← token
  if b = Ascii.openRecord then do
    skip
    let acc ← members fields start
    ofOption (finish (← ofExcept (absentMembers fields acc)))
  else if b = Ascii.openList then do
    skip
    ofOption (finish (← positional true fields start))
  else mismatch

end Reader

end DiskTier.Json
