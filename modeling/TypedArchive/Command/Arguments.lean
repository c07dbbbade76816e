/-! The arguments of the generator's command line. -/

namespace TypedArchive.Command

/-- What the command line asks for. -/
structure Arguments where
  input : Option String := none
  output : Option String := none
  catalog : Option String := none
  config : Option String := none
  verbose : Bool := false
  deriving DecidableEq, Repr

/-- What reading the arguments leads to. -/
inductive Request where
  | run (arguments : Arguments)
  /-- Help or the version was asked for. -/
  | information
  | misuse
  deriving DecidableEq, Repr

/-- The options, which take a value. -/
inductive Setting where
  | input | output | catalog | config
  deriving DecidableEq, Repr

/-- The switches, which take none. -/
inductive Switch where
  | verbose | information
  deriving DecidableEq, Repr

inductive Flag where
  | setting (s : Setting)
  | switch (s : Switch)
  deriving DecidableEq, Repr

def Flag.ofLetter? : Char → Option Flag
  | 'i' => some (.setting .input)
  | 'o' => some (.setting .output)
  | 'c' => some (.setting .config)
  | 'v' => some (.switch .verbose)
  | 'h' | 'V' => some (.switch .information)
  | _ => none

def Flag.ofWord? : String → Option Flag
  | "input" => some (.setting .input)
  | "output" => some (.setting .output)
  | "catalog" => some (.setting .catalog)
  | "config" => some (.setting .config)
  | "verbose" => some (.switch .verbose)
  | "help" | "version" => some (.switch .information)
  | _ => none

namespace Arguments

def get (a : Arguments) : Setting → Option String
  | .input => a.input
  | .output => a.output
  | .catalog => a.catalog
  | .config => a.config

/-- Takes an option over; each may be given once, and not empty. -/
def set (a : Arguments) (s : Setting) (value : String) : Except Request Arguments :=
  if value.isEmpty ∨ (a.get s).isSome then .error .misuse
  else .ok (match s with
    | .input => { a with input := some value }
    | .output => { a with output := some value }
    | .catalog => { a with catalog := some value }
    | .config => { a with config := some value })

def switch (a : Arguments) : Switch → Except Request Arguments
  | .information => .error .information
  | .verbose => if a.verbose then .error .misuse else .ok { a with verbose := true }

end Arguments

/-- Whether a word is taken as flags. -/
def isFlagWord (word : String) : Bool := word.startsWith "-" && word != "-"

/-- Reads letters behind one hyphen. What follows the letter of an option is its value; if nothing
follows, the option is left waiting for the next word. -/
def readLetters (a : Arguments) : List Char → Except Request (Arguments × Option Setting)
  | [] => .ok (a, none)
  | c :: rest =>
    match Flag.ofLetter? c with
    | none => .error .misuse
    | some (.switch s) => do readLetters (← a.switch s) rest
    | some (.setting s) =>
      match rest with
      | [] => .ok (a, some s)
      | '=' :: value => do return (← a.set s (String.ofList value), none)
      | value => do return (← a.set s (String.ofList value), none)

/-- Reads a word behind two hyphens, with its value if an equals sign stands in it. -/
def readWord (a : Arguments) (word : List Char) : Except Request (Arguments × Option Setting) :=
  let name := String.ofList (word.takeWhile (· != '='))
  match Flag.ofWord? name, word.dropWhile (· != '=') with
  | none, _ => .error .misuse
  | some (.switch s), [] => do return (← a.switch s, none)
  | some (.switch _), _ => .error .misuse
  | some (.setting s), [] => .ok (a, some s)
  | some (.setting s), _ :: value => do return (← a.set s (String.ofList value), none)

/-- Reads words; `waiting` is the option that the next word is the value of. -/
def readArguments (a : Arguments) (waiting : Option Setting) :
    List String → Except Request Arguments
  | [] => if waiting.isSome then .error .misuse else .ok a
  | word :: rest =>
    match waiting with
    | some s =>
      if isFlagWord word then .error .misuse
      else do readArguments (← a.set s word) none rest
    | none =>
      match word.toList with
      | ['-', '-'] => if rest.isEmpty then .ok a else .error .misuse
      | '-' :: '-' :: name => do
        let (a, waiting) ← readWord a name
        readArguments a waiting rest
      | '-' :: c :: letters => do
        let (a, waiting) ← readLetters a (c :: letters)
        readArguments a waiting rest
      | _ => .error .misuse

/-- What the words of a command line ask for. -/
def Request.ofWords (words : List String) : Request :=
  match readArguments {} none words with
  | .ok a => .run a
  | .error r => r

end TypedArchive.Command
