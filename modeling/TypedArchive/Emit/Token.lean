import TypedArchive.Emit.Literal
import TypedArchive.Emit.Tree

/-! Emitted code as a sequence of tokens. -/

namespace TypedArchive.Emit

/-- Tokens one by one, with a separator after each. -/
def ended (separator : String) (parts : List (List String)) : List String :=
  parts.flatMap fun part => part ++ [separator]

/-- Tokens one by one, with a separator between each two. -/
def separated (separator : String) (parts : List (List String)) : List String :=
  [separator].intercalate parts

def inParens (tokens : List String) : List String := ["("] ++ tokens ++ [")"]

def inBraces (tokens : List String) : List String := ["\x7b"] ++ tokens ++ ["\x7d"]

def CodePath.tokens (p : CodePath) : List String :=
  (if p.rooted then ["::"] else []) ++ stepTokens p.steps

mutual

def CodeType.tokens : CodeType → List String
  | .path p [] => p.tokens
  | .path p (t :: args) => p.tokens ++ ["<"] ++ t.tokens ++ argumentTokens args ++ [">"]
  | .lifetime name => [name]
  | .borrowed lifetime t => ["&"] ++ lifetime.toList ++ t.tokens
  | .exclusive t => ["&", "mut"] ++ t.tokens
  | .unit => ["(", ")"]

/-- The arguments after the first. -/
def argumentTokens : List CodeType → List String
  | [] => []
  | t :: args => [","] ++ t.tokens ++ argumentTokens args

end

def Pattern.tokens : Pattern → List String
  | .path p => p.tokens
  | .payload p name => p.tokens ++ inParens [name]
  | .text s => [textLiteral s]
  | .wildcard => ["_"]

mutual

def Expr.tokens : Expr → List String
  | .path p => p.tokens
  | .traitItem t trait name => ["<"] ++ t.tokens ++ ["as"] ++ trait.tokens ++ [">", "::", name]
  | .text s => [textLiteral s]
  | .integer i => (if i.toInt < 0 then ["-"] else []) ++ [integerLiteral i]
  | .boolean b => [if b then "true" else "false"]
  | .borrow e => ["&"] ++ e.tokens
  | .deref e => ["*"] ++ e.tokens
  | .call function args => function.tokens ++ inParens (operandTokens args)
  | .method receiver name args => receiver.tokens ++ [".", name] ++ inParens (operandTokens args)
  | .orReturn e => e.tokens ++ ["?"]
  | .binary left operator right => left.tokens ++ [operator] ++ right.tokens
  | .closure parameter body => ["|", parameter, "|"] ++ body.tokens
  | .record p fields => p.tokens ++ inBraces (memberTokens fields)
  | .choice e arms => ["match"] ++ e.tokens ++ inBraces (armTokens arms)

def operandTokens : List Expr → List String
  | [] => []
  | [e] => e.tokens
  | e :: rest => e.tokens ++ [","] ++ operandTokens rest

def memberTokens : List (String × Expr) → List String
  | [] => []
  | (name, e) :: rest => [name, ":"] ++ e.tokens ++ [","] ++ memberTokens rest

def armTokens : List (Pattern × Expr) → List String
  | [] => []
  | (pattern, e) :: rest => pattern.tokens ++ ["=>"] ++ e.tokens ++ [","] ++ armTokens rest

end

def Statement.tokens : Statement → List String
  | .bind mutable name e =>
    ["let"] ++ (if mutable then ["mut"] else []) ++ [name, "="] ++ e.tokens ++ [";"]
  | .returnIf condition value =>
    ["if"] ++ condition.tokens ++ inBraces (["return"] ++ value.tokens ++ [";"])
  | .result e => e.tokens

def serdeKeyTokens : String × Option String → List String
  | (key, none) => [key]
  | (key, some value) => [key, "=", textLiteral value]

def Attribute.tokens : Attribute → List String
  | .doc line fixed =>
    ["#", "[", "doc", "=", if fixed then "r\"" ++ line ++ "\"" else textLiteral line, "]"]
  | .derive traits =>
    ["#", "[", "derive"] ++ inParens (separated "," (traits.map CodePath.tokens)) ++ ["]"]
  | .serde keys =>
    ["#", "[", "serde"] ++ inParens (separated "," (keys.map serdeKeyTokens)) ++ ["]"]

def attributeTokens (attributes : List Attribute) : List String :=
  attributes.flatMap Attribute.tokens

def Function.tokens (f : Function) : List String :=
  let arguments := (if f.receiver then [["&", "self"]] else []) ++
    f.arguments.map fun (name, type) => [name, ":"] ++ type.tokens
  (if f.visible then ["pub"] else []) ++ ["fn", f.name] ++
    (match f.parameter with
      | some (name, _) => ["<", name, ">"]
      | none => []) ++
    inParens (if f.spread then ended "," arguments else separated "," arguments) ++
    ["->"] ++ f.result.tokens ++
    (match f.parameter with
      | some (name, bound) => ["where", name, ":"] ++ bound.tokens ++ [","]
      | none => []) ++
    inBraces (f.body.flatMap Statement.tokens)

def Member.tokens : Member → List String
  | .function f => f.tokens
  | .constant name type value =>
    ["const", name, ":"] ++ type.tokens ++ ["="] ++ value.tokens ++ [";"]

def FieldItem.tokens (f : FieldItem) : List String :=
  attributeTokens f.attributes ++ ["pub", f.name, ":"] ++ f.type.tokens

def VariantItem.tokens (v : VariantItem) : List String :=
  attributeTokens v.attributes ++ [v.name] ++
    (match v.payload with
      | some t => inParens t.tokens
      | none => [])

def Item.tokens : Item → List String
  | .alias attributes name type =>
    attributeTokens attributes ++ ["pub", "type", name, "="] ++ type.tokens ++ [";"]
  | .struct attributes name fields =>
    attributeTokens attributes ++ ["pub", "struct", name] ++
      inBraces (ended "," (fields.map FieldItem.tokens))
  | .enumeration attributes name variants =>
    attributeTokens attributes ++ ["pub", "enum", name] ++
      inBraces (ended "," (variants.map VariantItem.tokens))
  | .implementation lifetime trait name members =>
    ["impl"] ++ (match lifetime with
        | some l => ["<", l, ">"]
        | none => []) ++
      (match trait with
        | some t => t.tokens ++ ["for"]
        | none => []) ++
      [name] ++ inBraces (members.flatMap Member.tokens)

/-- Whether a token follows another without a space: inside parentheses and brackets. -/
def touches (token next : String) : Bool :=
  token == "(" || token == "[" || next == ")" || next == "]"

/-- Tokens and the spaces between them. -/
def spaced : List String → List String
  | [] => []
  | [token] => [token]
  | token :: next :: rest =>
    token :: ((if touches token next then [] else [" "]) ++ spaced (next :: rest))

def renderTokens (tokens : List String) : String := String.join (spaced tokens)

end TypedArchive.Emit
