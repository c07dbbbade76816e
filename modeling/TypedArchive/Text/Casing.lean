import TypedArchive.Text.CaseMap
import TypedArchive.Text.Letter

/-! Words of an identifier in any spelling, and two spellings made from the words. A word ends
before anything that is no letter or digit, before an upper-case letter that follows lower case,
and before the last letter of an upper-case run that lower case follows. -/

namespace TypedArchive.Text

/-- The case of the last cased character of the current word. -/
inductive WordCase where
  | none | lower | upper
  deriving DecidableEq, Repr

/-- Cuts a run of letters and digits into words; `word` is the current one, last character first. -/
def splitRun (mode : WordCase) (word : List Char) : List Char → List (List Char)
  | [] => []
  | [c] => [(c :: word).reverse]
  | c :: next :: rest =>
    let following :=
      if isLowercase c then WordCase.lower else if isUppercase c then .upper else mode
    if following = .lower ∧ isUppercase next then
      (c :: word).reverse :: splitRun .none [] (next :: rest)
    else if mode = .upper ∧ isUppercase c ∧ isLowercase next then
      word.reverse :: splitRun .none [c] (next :: rest)
    else splitRun following (c :: word) (next :: rest)

/-- The maximal runs of letters and digits; `run` is the current run, last character first. -/
def alphanumericRuns (run : List Char) : List Char → List (List Char)
  | [] => if run.isEmpty then [] else [run.reverse]
  | c :: rest =>
    if isAlphanumeric c then alphanumericRuns (c :: run) rest
    else if run.isEmpty then alphanumericRuns [] rest
    else run.reverse :: alphanumericRuns [] rest

def words (s : String) : List (List Char) :=
  (alphanumericRuns [] s.toList).flatMap (splitRun .none [])

/-- Lower case throughout; a sigma that ends the word takes its final form. -/
def lowercaseWord : List Char → List Char
  | [] => []
  | ['Σ'] => ['ς']
  | c :: rest => lowercase c ++ lowercaseWord rest

def capitalizeWord : List Char → List Char
  | [] => []
  | c :: rest => uppercase c ++ lowercaseWord rest

/-- Words run together, each with a capital: `LikeThis`. -/
def pascalCase (s : String) : String :=
  String.ofList ((words s).flatMap capitalizeWord)

/-- Words in lower case joined by underscores: `like_this`. -/
def snakeCase (s : String) : String :=
  String.ofList (['_'].intercalate ((words s).map lowercaseWord))

end TypedArchive.Text
