import DiskTier.Bytes

/-!
# Media types

The media type of a body, such as `application/json; charset=utf-8`: a type and a subtype, perhaps
with a suffix behind a plus sign, and parameters. Letters are compared without regard to case.
Parameters only have to be well formed.
-/

namespace DiskTier.Http

/-- A media type without its parameters, in lower case. -/
structure MediaType where
  kind : List Char
  subtype : List Char
  suffix : Option (List Char)
  deriving DecidableEq, Repr

namespace MediaType

def isTokenChar (c : Char) : Bool := c.isAlphanum || "!#$%&'*+-.^_`|~".toList.contains c

/-- A character between the quotes of a parameter's value. -/
def isQuotedChar (c : Char) : Bool := 31 < c.toNat && c.toNat ≠ 127

/-! ### Parameters -/

/-- Where the reader of the parameters stands. -/
inductive Place where
  /-- Before a parameter's name. -/
  | start
  /-- In a name. -/
  | name
  /-- Before a value. -/
  | beforeValue
  /-- In a value. -/
  | value
  /-- Behind the opening quote of a value. -/
  | afterQuote
  /-- In a quoted value that is not empty. -/
  | quoted
  /-- Behind the closing quote of a value. -/
  | behind
  deriving DecidableEq

namespace Place

/-- Where the reader stands behind a character, if the character may come. -/
def next : Place → Char → Option Place
  | start, c => if c = ' ' then some start else if isTokenChar c then some name else none
  | name, c => if isTokenChar c then some name else if c = '=' then some beforeValue else none
  | beforeValue, c =>
    if c = '"' then some afterQuote else if isTokenChar c then some value else none
  | value, c => if isTokenChar c then some value else if c = ';' then some start else none
  | afterQuote, c => if isQuotedChar c then some quoted else none
  | quoted, c => if c = '"' then some behind else if isQuotedChar c then some quoted else none
  | behind, c => if c = ';' then some start else if c = ' ' then some behind else none

/-- Whether the text may end here. -/
def isFinal : Place → Bool
  | start | beforeValue | value | behind => true
  | name | afterQuote | quoted => false

end Place

/-- Whether the text behind the first semicolon is a list of parameters. -/
def areParameters (s : List Char) : Bool := go .start s
where
  go (p : Place) : List Char → Bool
    | [] => p.isFinal
    | c :: cs => match p.next c with
      | some p' => go p' cs
      | none => false

/-! ### Whole types -/

/-- The subtype and the suffix of the text between the slash and the parameters: the suffix stands
behind the last plus sign that is not the first character. -/
def splitSuffix (s : List Char) : List Char × Option (List Char) :=
  let behind := s.reverse.takeWhile (· ≠ '+')
  if behind.length + 1 < s.length then
    (s.take (s.length - behind.length - 1), some behind.reverse)
  else (s, none)

/-- The media type that a text names. -/
def parse? (text : List Char) : Option MediaType :=
  let kind := text.takeWhile isTokenChar
  match text.dropWhile isTokenChar with
  | '/' :: rest =>
    let name := rest.takeWhile isTokenChar
    let wellFormed := match rest.dropWhile isTokenChar with
      | [] => true
      | ';' :: parameters => !name.isEmpty && areParameters parameters
      | _ => false
    if kind.isEmpty || !wellFormed then none
    else
      let (subtype, suffix) := splitSuffix (name.map Char.toLower)
      some { kind := kind.map Char.toLower, subtype, suffix }
  | _ => none

/-- Whether a body of this type is JSON. -/
def isJson (m : MediaType) : Bool :=
  m.kind = "application".toList &&
    (m.subtype = "json".toList || m.suffix = some "json".toList)

/-- A byte that a header may show: a tab or a visible ASCII character. -/
def isVisible (b : UInt8) : Bool := b = Ascii.tab || (0x20 ≤ b && b < 0x7F)

/-- Whether a header announces JSON. -/
def announcesJson (header : Bytes) : Bool :=
  header.all isVisible &&
    match parse? (header.map fun b => Char.ofNat b.toNat) with
    | some m => m.isJson
    | none => false

end MediaType

end DiskTier.Http
