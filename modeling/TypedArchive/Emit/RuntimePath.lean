import TypedArchive.Emit.Identifier
import TypedArchive.Text.Comment
import TypedArchive.Text.Identifier

/-! The path at which emitted code finds its runtime: names separated by `::`, some of them with
arguments in angle brackets, with blanks and comments between them. -/

namespace TypedArchive.Emit

/-- A step of a path. The arguments are tokens, the angle brackets among them. -/
structure Step where
  name : String
  /-- Whether `::` stands between the name and the arguments. -/
  marked : Bool := false
  arguments : List String := []
  deriving DecidableEq, Repr

/-- A path of emitted code. -/
structure CodePath where
  /-- Whether the path begins with `::`. -/
  rooted : Bool := false
  steps : List Step
  deriving DecidableEq, Repr

namespace CodePath

/-- A path that begins with a name in scope. -/
def of (names : List String) : CodePath := ⟨false, names.map fun name => { name := name }⟩

/-- A path below a path. -/
def child (p : CodePath) (names : List String) : CodePath :=
  ⟨p.rooted, p.steps ++ names.map fun name => { name := name }⟩

/-- Whether the path can stand both for a type and in an expression. An expression has to mark
arguments, and no type begins with `try`. -/
def isVersatile (p : CodePath) : Bool :=
  (p.rooted || p.steps.head?.map Step.name != some "try") &&
    p.steps.all fun step => step.arguments.isEmpty || step.marked

end CodePath

/-- The words that can name a step of a path though they are reserved. -/
def pathWords : List String := ["super", "self", "Self", "crate", "try"]

/-- The rest of a text after blanks and plain comments. A comment that documents something is none
of them. -/
def skipBlanks : (budget : Nat) → List Char → List Char
  | 0, cs => cs
  | budget + 1, cs =>
    match cs with
    | '/' :: '/' :: rest =>
      match rest with
      | '/' :: '/' :: _ => skipBlanks budget (rest.dropWhile (· != '\n'))
      | '/' :: _ | '!' :: _ => cs
      | _ => skipBlanks budget (rest.dropWhile (· != '\n'))
    | '/' :: '*' :: '*' :: '/' :: rest => skipBlanks budget rest
    | '/' :: '*' :: rest =>
      let documents := match rest with
        | '!' :: _ => true
        | '*' :: '*' :: _ => false
        | '*' :: _ => true
        | _ => false
      if documents then cs
      else match Text.afterComment 1 rest with
        | some after => skipBlanks budget after
        | none => cs
    | c :: rest =>
      if Text.isBlank c || c == '\u200e' || c == '\u200f' then skipBlanks budget rest else cs
    | [] => []

/-- Splits an identifier off; a raw identifier keeps its mark. -/
def splitIdentifier (cs : List Char) : Option (String × List Char) :=
  let (mark, body) := match cs with
    | 'r' :: '#' :: rest => ("r#", rest)
    | _ => ("", cs)
  match body with
  | c :: rest =>
    if Text.isIdentifierStart c || c == '_' then
      let word := String.ofList (c :: rest.takeWhile Text.isIdentifierRest)
      if mark = "r#" ∧ word ∈ unmarkableWords then none
      else some (mark ++ word, rest.dropWhile Text.isIdentifierRest)
    else none
  | [] => none

/-- A token of a path. -/
inductive PathToken where
  | word (name : String)
  | lifetime (name : String)
  | number (digits : String)
  | mark (text : String)
  deriving DecidableEq, Repr

/-- The first token of a text that begins with no blank, and the rest. -/
def splitToken (cs : List Char) : Option (PathToken × List Char) :=
  match cs with
  | ':' :: ':' :: rest => some (.mark "::", rest)
  | '\'' :: rest => do
    let (name, rest) ← splitIdentifier rest
    if rest.head? = some '\'' then none else some (.lifetime ("'" ++ name), rest)
  | c :: rest =>
    if c ∈ ['<', '>', ',', '&', '*', '!', '(', ')', '[', ']'] then
      some (.mark (String.ofList [c]), rest)
    else if c.isDigit then
      let isDigit (c : Char) : Bool := c.isDigit || c == '_'
      some (.number (String.ofList (c :: rest.takeWhile isDigit)), rest.dropWhile isDigit)
    else (splitIdentifier cs).map fun (name, rest) => (.word name, rest)
  | [] => none

/-- All tokens of a text. -/
def pathTokens : (budget : Nat) → List Char → Option (List PathToken)
  | 0, _ => none
  | budget + 1, cs =>
    match skipBlanks cs.length cs with
    | [] => some []
    | rest => do
      let (token, rest) ← splitToken rest
      return token :: (← pathTokens budget rest)

/-- The tokens of arguments: lifetimes stand before the others, and a comma stands after the last
one if it did so before. -/
def orderedArguments (arguments : List (Bool × List String)) (trailing : Bool) : List String :=
  let lifetimes := arguments.filter Prod.fst
  let others := arguments.filter fun a => !a.1
  let ended := trailing || (!others.isEmpty && arguments.getLast?.any Prod.fst)
  ["<"] ++ [","].intercalate ((lifetimes ++ others).map Prod.snd) ++
    (if ended && !arguments.isEmpty then [","] else []) ++ [">"]

/-- The tokens of steps. -/
def stepTokens (steps : List Step) : List String :=
  ["::"].intercalate (steps.map fun step =>
    [step.name] ++ (if step.marked then ["::"] else []) ++ step.arguments)

mutual

/-- Reads the steps of a path, the first of them next. -/
def readSteps : (budget : Nat) → List PathToken → Option (List Step × List PathToken)
  | budget + 1, .word name :: rest => do
    if name ∈ reservedWords ∧ name ∉ pathWords then none
    let opened := if name ∈ pathWords ∧ name ≠ "Self" then none else
      match rest with
      | .mark "<" :: rest => some (false, rest)
      | .mark "::" :: .mark "<" :: rest => some (true, rest)
      | _ => none
    let (step, rest) ← match opened with
      | none => pure ({ name : Step }, rest)
      | some (marked, rest) => do
        let (arguments, rest) ← readArguments budget [] rest
        pure ({ name, marked, arguments : Step }, rest)
    match rest with
    | .mark "::" :: rest => do
      let (steps, rest) ← readSteps budget rest
      return (step :: steps, rest)
    | _ => return ([step], rest)
  | _, _ => none

/-- Reads the arguments after those read already, up to the closing bracket. -/
def readArguments : (budget : Nat) → (before : List (Bool × List String)) → List PathToken →
    Option (List String × List PathToken)
  | budget + 1, before, tokens => do
    if let .mark ">" :: rest := tokens then return (orderedArguments before true, rest)
    let (argument, rest) ← match tokens with
      | .lifetime name :: rest => pure ((true, [name]), rest)
      | .number digits :: rest => pure ((false, [digits]), rest)
      | .word "true" :: rest => pure ((false, ["true"]), rest)
      | .word "false" :: rest => pure ((false, ["false"]), rest)
      | _ => do
        let (type, rest) ← readType budget tokens
        pure ((false, type), rest)
    match rest with
    | .mark ">" :: rest => return (orderedArguments (before ++ [argument]) false, rest)
    | .mark "," :: rest => readArguments budget (before ++ [argument]) rest
    | _ => none
  | 0, _, _ => none

/-- Reads a type: a path, a reference or pointer, a tuple, a slice, or one of the types that are
written as a mark. -/
def readType : (budget : Nat) → List PathToken → Option (List String × List PathToken)
  | budget + 1, tokens =>
    match tokens with
    | .mark "!" :: rest => some (["!"], rest)
    | .word "_" :: rest => some (["_"], rest)
    | .mark "::" :: rest => do
      let (steps, rest) ← readSteps budget rest
      return ("::" :: stepTokens steps, rest)
    | .mark "&" :: rest => do
      let (lifetime, rest) := match rest with
        | .lifetime name :: rest => ([name], rest)
        | _ => ([], rest)
      let (exclusive, rest) := match rest with
        | .word "mut" :: rest => (["mut"], rest)
        | _ => ([], rest)
      let (type, rest) ← readType budget rest
      return (["&"] ++ lifetime ++ exclusive ++ type, rest)
    | .mark "*" :: .word access :: rest => do
      if access ≠ "const" ∧ access ≠ "mut" then none
      let (type, rest) ← readType budget rest
      return (["*", access] ++ type, rest)
    | .mark "(" :: rest => do
      let (types, rest) ← readTypes budget rest
      return (["("] ++ types ++ [")"], rest)
    | .mark "[" :: rest => do
      let (type, rest) ← readType budget rest
      match rest with
      | .mark "]" :: rest => return (["["] ++ type ++ ["]"], rest)
      | _ => none
    | _ => do
      let (steps, rest) ← readSteps budget tokens
      return (stepTokens steps, rest)
  | 0, _ => none

/-- Reads types separated by commas, up to the closing parenthesis. -/
def readTypes : (budget : Nat) → List PathToken → Option (List String × List PathToken)
  | budget + 1, tokens => do
    if let .mark ")" :: rest := tokens then return ([], rest)
    let (type, rest) ← readType budget tokens
    match rest with
    | .mark ")" :: rest => return (type, rest)
    | .mark "," :: rest => do
      let (types, rest) ← readTypes budget rest
      return (type ++ [","] ++ types, rest)
    | _ => none
  | 0, _ => none

end

/-- Reads a path. -/
def CodePath.parse? (s : String) : Option CodePath := do
  let tokens ← pathTokens (s.length + 1) s.toList
  let (rooted, rest) := match tokens with
    | .mark "::" :: rest => (true, rest)
    | _ => (false, tokens)
  match ← readSteps (2 * tokens.length) rest with
  | (steps, []) => return ⟨rooted, steps⟩
  | _ => none

end TypedArchive.Emit
