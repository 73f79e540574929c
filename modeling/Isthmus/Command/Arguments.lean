import Isthmus.Text.Numeral

/-!
# Command/Arguments — what a command line asks for

Options may stand before or after the name of the command; where both give the same one, the later
counts.  An option may be given only once on each side.  Reading goes from left to right and ends at
the first thing that is wrong, or at a request for help or for the version.
-/

namespace Isthmus.Command

/-- What to demonstrate. -/
inductive Scenario where
  | calculator
  | imaging
  | events
  | all
  deriving DecidableEq, Repr

/-- The scenario of a name. -/
def Scenario.ofName? : String → Option Scenario
  | "calculator" => some calculator
  | "imaging" => some imaging
  | "events" => some events
  | "all" => some all
  | _ => none

/-- What to do. -/
inductive Task where
  | info
  | describe (type : Option String) (json : Bool)
  | demo (scenario : Scenario)
  deriving DecidableEq, Repr

/-- What a command line asks for. -/
structure Request where
  config : Option String := none
  threads : Option Nat := none
  task : Task
  deriving DecidableEq, Repr

/-- Why a command line asks for no task. -/
inductive Interruption where
  | misuse
  | version
  | help
  deriving DecidableEq, Repr

/-- The part of a command line that is being read: before the name of the command, or after it. -/
inductive Level where
  | top
  | info
  | describe
  | demo
  deriving DecidableEq, Repr

/-- The commands by their names. -/
def Level.ofName? : String → Option Level
  | "info" => some info
  | "describe" => some describe
  | "demo" => some demo
  | _ => none

/-- The options. -/
inductive Key where
  | config
  | threads
  | verbose
  | json
  | version
  | help
  deriving DecidableEq, Repr

namespace Key

def takesValue : Key → Bool
  | config | threads => true
  | _ => false

/-- The option may be given at a level. -/
def isKnown (level : Level) : Key → Bool
  | json => level = .describe
  | version => level = .top
  | _ => true

/-- The option of a long name. -/
def ofLong? (level : Level) (name : String) : Option Key :=
  let key : Option Key := match name with
    | "config" => some config
    | "threads" => some threads
    | "verbose" => some verbose
    | "json" => some json
    | "version" => some version
    | "help" => some help
    | _ => none
  key.filter (isKnown level)

/-- The option of a short name. -/
def ofShort? (level : Level) (c : Char) : Option Key :=
  let key : Option Key := match c with
    | 'c' => some config
    | 't' => some threads
    | 'v' => some verbose
    | 'V' => some version
    | 'h' => some help
    | _ => none
  key.filter (isKnown level)

end Key

/-- What one part of a command line gave so far. -/
structure Given where
  config : Option String := none
  threads : Option Nat := none
  json : Bool := false
  /-- The word that is no option. -/
  word : Option String := none

/-- A thread count: digits, perhaps after a plus sign, within 64 bits. -/
def count? (s : String) : Option Nat :=
  Text.numeral? s.toList

namespace Given

/-- Takes the value of an option. -/
def setValue (g : Given) (key : Key) (value : String) : Except Interruption Given :=
  match key with
  | .config =>
    if g.config.isSome || value.isEmpty then .error .misuse else .ok { g with config := value }
  | .threads =>
    match g.threads, count? value with
    | none, some n => .ok { g with threads := n }
    | _, _ => .error .misuse
  | _ => .error .misuse

/-- Takes an option without a value. -/
def setFlag (g : Given) : Key → Except Interruption Given
  | .json => if g.json then .error .misuse else .ok { g with json := true }
  | .verbose => .ok g
  | .version => .error .version
  | .help => .error .help
  | _ => .error .misuse

/-- Takes a word that is no option. -/
def setWord (level : Level) (g : Given) (word : String) : Except Interruption Given :=
  match level, g.word with
  | .describe, none => .ok { g with word := word }
  | .demo, none =>
    if (Scenario.ofName? word).isSome then .ok { g with word := word } else .error .misuse
  | _, _ => .error .misuse

/-- Takes a cluster of short options; the second part is an option that still needs its value. -/
def setShort (level : Level) (g : Given) : List Char → Except Interruption (Given × Option Key)
  | [] => .ok (g, none)
  | c :: rest =>
    match Key.ofShort? level c with
    | none => .error .misuse
    | some key =>
      if key.takesValue then
        match rest with
        | [] => .ok (g, some key)
        | '=' :: value => (g.setValue key (String.ofList value)).map (·, none)
        | value => (g.setValue key (String.ofList value)).map (·, none)
      else do setShort level (← g.setFlag key) rest

/-- Takes a long option, written without its dashes; the second part is an option that still needs its
value. -/
def setLong (level : Level) (g : Given) (cs : List Char) : Except Interruption (Given × Option Key) :=
  match Key.ofLong? level (String.ofList (cs.takeWhile (· ≠ '='))), cs.dropWhile (· ≠ '=') with
  | none, _ => .error .misuse
  | some key, [] => if key.takesValue then .ok (g, some key) else (g.setFlag key).map (·, none)
  | some key, _ :: value =>
    if key.takesValue then (g.setValue key (String.ofList value)).map (·, none)
    else .error .misuse

end Given

/-- How an argument reads. -/
inductive Shape where
  | escape
  | long (cs : List Char)
  | short (cs : List Char)
  | word

/-- An argument that begins with a dash is an option, or ends the options; a dash alone is a word. -/
def shape (arg : String) : Shape :=
  match arg.toList with
  | ['-', '-'] => .escape
  | '-' :: '-' :: cs => .long cs
  | ['-'] => .word
  | '-' :: cs => .short cs
  | _ => .word

/-- Reads words after the end of the options. -/
def readWords (level : Level) (g : Given) (words : List String) : Except Interruption Given :=
  words.foldlM (Given.setWord level) g

/-- Reads the arguments of one part.  `pending` is an option that still needs its value.  Before the
name of the command reading ends at that name, which comes with the arguments after it. -/
def read (level : Level) (g : Given) (pending : Option Key) :
    List String → Except Interruption (Given × Option (String × List String))
  | [] => if pending.isSome then .error .misuse else .ok (g, none)
  | arg :: rest => do
    match shape arg, pending with
    | .word, some key => read level (← g.setValue key arg) none rest
    | .word, none =>
      if level = .top then .ok (g, some (arg, rest))
      else read level (← g.setWord level arg) none rest
    | _, some _ => .error .misuse
    | .escape, none => return (← readWords level g rest, none)
    | .long cs, none =>
      let (g, pending) ← g.setLong level cs
      read level g pending rest
    | .short cs, none =>
      let (g, pending) ← g.setShort level cs
      read level g pending rest

/-- The task of a command with what was given after its name. -/
def task : Level → Given → Except Interruption Task
  | .top, _ => .error .misuse
  | .info, _ => .ok .info
  | .describe, g => .ok (.describe g.word g.json)
  | .demo, g => .ok (.demo ((g.word.bind Scenario.ofName?).getD .all))

/-- Reads a command line. -/
def parse (args : List String) : Except Interruption Request := do
  match ← read .top {} none args with
  | (_, none) => .error .misuse
  | (_, some ("help", names)) =>
    match names with
    | [] => .error .help
    | [name] =>
      if name = "help" || (Level.ofName? name).isSome then .error .help else .error .misuse
    | _ => .error .misuse
  | (before, some (name, rest)) =>
    match Level.ofName? name with
    | none => .error .misuse
    | some level =>
      let (after, _) ← read level {} none rest
      return {
        config := after.config <|> before.config
        threads := after.threads <|> before.threads
        task := ← task level after }

end Isthmus.Command
