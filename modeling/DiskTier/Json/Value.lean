import DiskTier.Text.Decimal
import DiskTier.Text.Utf8

/-!
# JSON values and their compact form

A `Value` keeps the members of a record in the order in which they are written. `Value.render`
writes it with no blank between the tokens.

A text is written with seven short escapes, with `\u00` and two digits for the other characters
below the space, and with every other character as it is.
-/

namespace DiskTier.Json

/-- The values that this library writes. None of its records holds a fraction. -/
inductive Value where
  | null
  | bool (b : Bool)
  | integer (n : Int)
  | text (s : String)
  | list (items : List Value)
  | record (members : List (String × Value))

namespace Value

/-- A natural number. -/
def natural (n : Nat) : Value := .integer n

/-- `null`, or the value that is there. -/
def optional (f : α → Value) : Option α → Value
  | none => .null
  | some a => f a

end Value

/-! ### Texts -/

/-- The letter of the short escape of a character, if it has one. -/
def shortEscape? (c : Char) : Option Char :=
  if c = '"' then some '"'
  else if c = '\\' then some '\\'
  else if c = '\n' then some 'n'
  else if c = '\r' then some 'r'
  else if c = '\t' then some 't'
  else if c = '\x08' then some 'b'
  else if c = '\x0c' then some 'f'
  else none

/-- One character as it stands between quotes. -/
def escapeChar (c : Char) : Bytes :=
  match shortEscape? c with
  | some letter => Ascii.backslash :: Utf8.encodeChar letter
  | none =>
    if c.toNat < 0x20 then
      [Ascii.backslash, Ascii.letterU, Ascii.zero, Ascii.zero,
        Ascii.hexDigit (c.toNat / 16), Ascii.hexDigit (c.toNat % 16)]
    else Utf8.encodeChar c

def quoted (s : String) : Bytes :=
  Ascii.quote :: s.toList.flatMap escapeChar ++ [Ascii.quote]

/-! ### Values -/

/-- The parts with a comma between them. -/
def commaSeparated (parts : List Bytes) : Bytes := (parts.intersperse [Ascii.comma]).flatten

def Value.render : Value → Bytes
  | .null => Utf8.encode "null"
  | .bool true => Utf8.encode "true"
  | .bool false => Utf8.encode "false"
  | .integer n => Decimal.ofInt n
  | .text s => quoted s
  | .list items =>
    Ascii.openList :: commaSeparated (items.map fun v => v.render) ++ [Ascii.closeList]
  | .record members =>
    Ascii.openRecord ::
      commaSeparated (members.map fun m => quoted m.1 ++ Ascii.colon :: m.2.render) ++
      [Ascii.closeRecord]
termination_by v => sizeOf v
decreasing_by
  all_goals simp_wf
  · have := List.sizeOf_lt_of_mem ‹_ ∈ items›
    omega
  · have := List.sizeOf_lt_of_mem ‹_ ∈ members›
    have : sizeOf m.2 < sizeOf m := by
      cases m
      simp only [Prod.mk.sizeOf_spec]
      omega
    omega

end DiskTier.Json
