import Isthmus.Config.Document

/-!
# Config/Toml — reading configuration text

`read` takes a whole text line by line: a key with its value, a header, or nothing, and a comment
after it.  A line belongs to the table of the header above it.  Values nest at most `maxDepth` deep.
-/

namespace Isthmus.Config

/-- Reads something from the front of a text and leaves the rest, or refuses the text. -/
abbrev Reader := StateT (List Char) Option

namespace Toml

/-- How many arrays and inline tables may lie inside each other. -/
def maxDepth : Nat := 79

/-! ## Characters -/

/-- The next character, not consumed. -/
def peek : Reader (Option Char) :=
  return (← get).head?

/-- Any one character. -/
def item : Reader Char := fun cs =>
  match cs with
  | c :: rest => some (c, rest)
  | [] => none

/-- The given text. -/
def expect (s : String) : Reader Unit := fun cs =>
  if s.toList.isPrefixOf cs then some ((), cs.drop s.length) else none

/-- Whether the given text comes next; it is consumed if so. -/
def optional (s : String) : Reader Bool := fun cs =>
  if s.toList.isPrefixOf cs then some (true, cs.drop s.length) else some (false, cs)

/-- The longest run of characters of a class. -/
def run (p : Char → Bool) : Reader (List Char) := fun cs =>
  some (cs.takeWhile p, cs.dropWhile p)

/-- The longest run of characters of a class, at least one. -/
def run1 (p : Char → Bool) : Reader (List Char) := do
  let cs ← run p
  if cs.isEmpty then failure
  return cs

/-- Refuses the text unless the condition holds. -/
def require (condition : Bool) : Reader Unit :=
  if condition then pure () else failure

/-- Repeats a step that consumes something until it answers `none`; collects the answers. -/
def repeated {α : Type} (step : Reader (Option α)) : Reader (List α) := fun cs =>
  go (cs.length + 1) cs
where
  go : Nat → List Char → Option (List α × List Char)
    | 0, _ => none
    | fuel + 1, cs =>
      match step cs with
      | none => none
      | some (none, rest) => some ([], rest)
      | some (some a, rest) => (go fuel rest).map fun (as, rest) => (a :: as, rest)

def isBlank (c : Char) : Bool :=
  c = ' ' || c = '\t'

def isDigit (c : Char) : Bool :=
  '0' ≤ c && c ≤ '9'

def isLetter (c : Char) : Bool :=
  ('a' ≤ c && c ≤ 'z') || ('A' ≤ c && c ≤ 'Z')

def isHexDigit (c : Char) : Bool :=
  isDigit c || ('a' ≤ c && c ≤ 'f') || ('A' ≤ c && c ≤ 'F')

/-- A character that may stand in a comment or, apart from the delimiters, in a string. -/
def isText (c : Char) : Bool :=
  c = '\t' || (' ' ≤ c && c ≠ '\x7f')

def blanks : Reader Unit := do
  let _ ← run isBlank

/-- Whether a line end comes next; it is consumed if so. -/
def lineEnd : Reader Bool := do
  if ← optional "\n" then return true
  optional "\r\n"

/-- A comment, if one comes next. -/
def comment : Reader Unit := do
  if ← optional "#" then
    let _ ← run isText

/-- Blanks, comments and line ends. -/
def filler : Reader Unit := do
  let _ ← repeated do
    blanks
    comment
    return if ← lineEnd then some () else none

/-! ## Numbers -/

/-- The value of a digit in any base up to sixteen. -/
def digitValue (c : Char) : Nat :=
  if isDigit c then c.toNat - '0'.toNat
  else if 'a' ≤ c then c.toNat - 'a'.toNat + 10
  else c.toNat - 'A'.toNat + 10

/-- The number of a run of digits. -/
def ofDigits (base : Nat) (cs : List Char) : Nat :=
  cs.foldl (fun n c => base * n + digitValue c) 0

/-- Digits of a class, where one underscore may stand between two of them. -/
def digits? (p : Char → Bool) : List Char → Option (List Char)
  | [] => none
  | [c] => if p c then some [c] else none
  | c :: '_' :: rest => if p c then (digits? p rest).map (c :: ·) else none
  | c :: rest => if p c then (digits? p rest).map (c :: ·) else none

/-- A decimal whole number without sign and without needless zeros. -/
def decimal? (cs : List Char) : Option Nat := do
  let ds ← digits? isDigit cs
  if ds.head? = some '0' ∧ 1 < ds.length then none
  return ofDigits 10 ds

/-- Takes a sign off: whether it is a minus, and the rest. -/
def unsigned : List Char → Bool × List Char
  | '-' :: rest => (true, rest)
  | '+' :: rest => (false, rest)
  | cs => (false, cs)

/-- A whole number of 64 bits, decimal or with the mark of another base. -/
def integer? (cs : List Char) : Option Int := do
  let n ← match cs with
    | '0' :: 'x' :: rest => (digits? isHexDigit rest).map fun ds => (ofDigits 16 ds : Int)
    | '0' :: 'o' :: rest =>
      (digits? (fun c => '0' ≤ c && c ≤ '7') rest).map fun ds => (ofDigits 8 ds : Int)
    | '0' :: 'b' :: rest =>
      (digits? (fun c => c = '0' || c = '1') rest).map fun ds => (ofDigits 2 ds : Int)
    | _ =>
      let (negative, rest) := unsigned cs
      (decimal? rest).map fun n => if negative then -(n : Int) else n
  if -9223372036854775808 ≤ n ∧ n ≤ 9223372036854775807 then some n else none

/-- The exponent of a float. -/
def isExponent (cs : List Char) : Bool :=
  (digits? isDigit (unsigned cs).2).isSome

/-- The part of a float from its point or exponent on. -/
def isFraction : List Char → Bool
  | '.' :: rest =>
    let places := rest.takeWhile fun c => isDigit c || c = '_'
    (digits? isDigit places).isSome &&
      match rest.drop places.length with
      | [] => true
      | e :: exponent => (e = 'e' || e = 'E') && isExponent exponent
  | e :: exponent => (e = 'e' || e = 'E') && isExponent exponent
  | [] => false

/-- The token is a float. -/
def isFloat (cs : List Char) : Bool :=
  let rest := (unsigned cs).2
  if rest = "inf".toList || rest = "nan".toList then true
  else
    let whole := rest.takeWhile fun c => isDigit c || c = '_'
    (decimal? whole).isSome && isFraction (rest.drop whole.length)

/-! ## Points in time -/

/-- Exactly `count` digits at the front: their number and the rest. -/
def fixed? (count : Nat) (cs : List Char) : Option (Nat × List Char) :=
  let ds := cs.take count
  if ds.length = count ∧ ds.all isDigit then some (ofDigits 10 ds, cs.drop count) else none

/-- The given character at the front: the rest. -/
def after? (c : Char) : List Char → Option (List Char)
  | d :: rest => if c = d then some rest else none
  | [] => none

/-- The days of a month. -/
def daysIn (year month : Nat) : Nat :=
  if month = 2 then
    if year % 4 = 0 ∧ (year % 100 ≠ 0 ∨ year % 400 = 0) then 29 else 28
  else if month = 4 ∨ month = 6 ∨ month = 9 ∨ month = 11 then 30
  else 31

/-- A date at the front: the rest. -/
def date? (cs : List Char) : Option (List Char) := do
  let (year, cs) ← fixed? 4 cs
  let (month, cs) ← fixed? 2 (← after? '-' cs)
  let (day, cs) ← fixed? 2 (← after? '-' cs)
  if 1 ≤ month ∧ month ≤ 12 ∧ 1 ≤ day ∧ day ≤ daysIn year month then some cs else none

/-- A time of day at the front: the rest. -/
def time? (cs : List Char) : Option (List Char) := do
  let (hour, cs) ← fixed? 2 cs
  let (minute, cs) ← fixed? 2 (← after? ':' cs)
  let (second, cs) ← fixed? 2 (← after? ':' cs)
  if 23 < hour ∨ 59 < minute ∨ 60 < second then none
  match cs with
  | '.' :: places =>
    if (places.takeWhile isDigit).isEmpty then none else some (places.dropWhile isDigit)
  | _ => some cs

/-- The text is an offset from universal time, or empty. -/
def isOffset (cs : List Char) : Bool :=
  match cs with
  | [] | ['Z'] | ['z'] => true
  | sign :: rest =>
    (sign = '+' || sign = '-') &&
      match (do
        let (hour, rest) ← fixed? 2 rest
        let (minute, rest) ← fixed? 2 (← after? ':' rest)
        if 23 < hour ∨ 59 < minute then none
        return rest) with
      | some [] => true
      | _ => false

/-- The token is a time of day and perhaps an offset. -/
def isOffsetTime (cs : List Char) : Bool :=
  match time? cs with
  | some rest => isOffset rest
  | none => false

/-- The token is a date, a time of day, or both. -/
def isMoment (cs : List Char) : Bool :=
  match date? cs with
  | some [] => true
  | some (sep :: rest) => (sep = 'T' || sep = 't' || sep = ' ') && isOffsetTime rest
  | none => time? cs = some []

/-! ## Strings -/

/-- The character of a code point given in hexadecimal digits. -/
def codePoint (count : Nat) : Reader Char := fun cs =>
  let ds := cs.take count
  let n := ofDigits 16 ds
  if ds.length = count ∧ ds.all isHexDigit ∧ n.isValidChar then
    some (Char.ofNat n, cs.drop count)
  else none

/-- The character of an escape, after the backslash. -/
def escaped : Reader Char := do
  match ← item with
  | 'b' => return '\x08'
  | 't' => return '\t'
  | 'n' => return '\n'
  | 'f' => return '\x0c'
  | 'r' => return '\r'
  | '"' => return '"'
  | '\\' => return '\\'
  | 'u' => codePoint 4
  | 'U' => codePoint 8
  | _ => failure

/-- The rest of a string in one line, after the opening `quote`; only double quotes have escapes. -/
def lineString (quote : Char) : Reader String := do
  let cs ← repeated do
    let c ← item
    if c = quote then return none
    else if c = '\\' && quote = '"' then return some (← escaped)
    else
      require (isText c)
      return some c
  return String.ofList cs

/-- After a backslash in a string over several lines: whether blanks up to a line end follow, which
are then skipped with all blanks and line ends after them. -/
def continuation : Reader Bool := fun cs =>
  match lineEnd (cs.dropWhile isBlank) with
  | some (true, rest) =>
    (repeated (do
      blanks
      return if ← lineEnd then some () else none) rest).map fun (_, rest) => (true, rest)
  | _ => some (false, cs)

/-- How many quotes come next. -/
def quotesAhead (quote : Char) : Reader Nat :=
  return ((← get).takeWhile (· = quote)).length

/-- The rest of a string over several lines, after the opening quotes.  Three quotes close it, and up
to two before those belong to it. -/
def blockString (quote : Char) : Reader String := do
  let _ ← lineEnd
  let pieces ← repeated do
    if 3 ≤ (← quotesAhead quote) then return none
    else if ← lineEnd then return some ['\n']
    else
      let c ← item
      if c = '\\' && quote = '"' then
        if ← continuation then return some []
        else return some [← escaped]
      else
        require (isText c)
        return some [c]
  let quotes ← run (· = quote)
  require (quotes.length ≤ 5)
  return String.ofList (pieces.flatten ++ quotes.drop 3)

/-- A string after its first quote, in one line or over several. -/
def stringAfter (quote : Char) : Reader String := do
  if ← optional (String.ofList [quote, quote]) then blockString quote
  else lineString quote

/-! ## Keys and values -/

/-- One part of a key. -/
def keyPart : Reader String := do
  if ← optional "\"" then lineString '"'
  else if ← optional "'" then lineString '\''
  else return String.ofList (← run1 fun c => isLetter c || isDigit c || c = '_' || c = '-')

/-- A key of parts joined by points: all parts but the last, and the last. -/
def key : Reader (List String × String) := do
  blanks
  let first ← keyPart
  blanks
  let others ← repeated do
    if ← optional "." then
      blanks
      let part ← keyPart
      blanks
      return some part
    else return none
  let parts := first :: others
  require (parts.length ≤ maxDepth)
  return (parts.dropLast, others.getLastD first)

/-- The characters of a token that is no string. -/
def isToken (c : Char) : Bool :=
  isLetter c || isDigit c || c = '_' || c = '+' || c = '-' || c = '.' || c = ':'

/-- A token; a date takes in a time that follows after one space. -/
def token : Reader (List Char) := do
  let cs ← run1 isToken
  match ← get with
  | ' ' :: d :: _ =>
    if date? cs = some [] && isDigit d then
      let _ ← item
      return cs ++ ' ' :: (← run1 isToken)
    else return cs
  | _ => return cs

/-- The value of a token. -/
def ofToken? (cs : List Char) : Option Node :=
  if cs = "true".toList then some (.boolean true)
  else if cs = "false".toList then some (.boolean false)
  else
    match integer? cs with
    | some n => some (.integer n)
    | none => if isFloat cs then some .float else if isMoment cs then some .moment else none

/-- The rest of an array, after its bracket. -/
def arrayOf (value : Reader Node) : Reader Node := do
  filler
  let items ← repeated do
    if ← optional "]" then return none
    let v ← value
    filler
    if ← optional "," then filler
    else require ((← peek) = some ']')
    return some v
  return .array items

/-- The rest of an inline table, after its brace. -/
def inlineTableOf (value : Reader Node) : Reader Node := do
  blanks
  if ← optional "\x7d" then return .table .inline []
  let pairs ← repeated do
    if ← optional "\x7d" then return none
    let (path, last) ← key
    expect "="
    blanks
    let v ← value
    blanks
    if ← optional "," then
      blanks
      require ((← peek) ≠ some '\x7d')
    else require ((← peek) = some '\x7d')
    return some (path, last, v)
  let entries ← (pairs.foldlM (fun es (path, last, v) => Entries.addValue .inline es path last v) [] :
    Option Entries)
  return .table .inline entries

/-- A value inside at most `depth` more arrays and inline tables. -/
def value (depth : Nat) : Reader Node := do
  if ← optional "\"" then return .string (← stringAfter '"')
  if ← optional "'" then return .string (← stringAfter '\'')
  match depth, ← peek with
  | depth + 1, some '[' =>
    expect "["
    arrayOf (value depth)
  | depth + 1, some '\x7b' =>
    expect "\x7b"
    inlineTableOf (value depth)
  | _, _ => (ofToken? (← token) : Option Node)

/-! ## Lines -/

/-- What a line says. -/
inductive Line where
  | blank
  | entry (path : List String) (last : String) (v : Node)
  | header (path : List String) (last : String)
  | repeatedHeader (path : List String) (last : String)

/-- The content of a line, up to its comment. -/
def content : Reader Line := do
  blanks
  match ← peek with
  | none | some '\n' | some '\r' | some '#' => return .blank
  | some '[' =>
    if ← optional "[[" then
      let (path, last) ← key
      expect "]]"
      return .repeatedHeader path last
    else
      expect "["
      let (path, last) ← key
      expect "]"
      return .header path last
  | _ =>
    let (path, last) ← key
    expect "="
    blanks
    return .entry path last (← value maxDepth)

/-- All lines of a text. -/
def lines : Reader (List Line) := do
  let _ ← optional "\uFEFF"
  repeated do
    if (← peek).isNone then return none
    let line ← content
    blanks
    comment
    if !(← lineEnd) then require (← peek).isNone
    return some line

/-- The document so far, and the header that is open. -/
structure Progress where
  entries : Entries := []
  header : Option (List String × String) := none

/-- Takes in one line. -/
def Progress.add (p : Progress) : Line → Option Progress
  | .blank => some p
  | .header path last => do
    return ⟨← Entries.openTable p.entries path last, some (path, last)⟩
  | .repeatedHeader path last => do
    return ⟨← Entries.openRepeated p.entries path last, some (path, last)⟩
  | .entry path last v => do
    let change := fun form es => Entries.addValue form es path last v
    let entries ← match p.header with
      | none => change .headed p.entries
      | some (path, last) => Entries.alterOpen change (path ++ [last]) p.entries
    return { p with entries }

end Toml

/-- The document that a text says, if it is one. -/
def Toml.read (text : String) : Option Entries := do
  let (lines, _) ← Toml.lines text.toList
  let p ← lines.foldlM Toml.Progress.add {}
  return p.entries

end Isthmus.Config
