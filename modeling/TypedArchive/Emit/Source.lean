import TypedArchive.Emit.Layout
import TypedArchive.Emit.Literal
import TypedArchive.Emit.Tree

/-! Emitted code as source text: how each construct breaks into lines. -/

namespace TypedArchive.Emit

/-- The columns that each level of nesting adds. -/
def indentation : Int := 4

/-- The widest content of a record expression that stays on one line. -/
def recordWidth : Nat := 34

namespace Layout

/-- A group whose lines are indented and break together. -/
def block (body : List Layout) : Layout := group true indentation body

/-- A group that takes one level of indentation back. -/
def unindented (body : List Layout) : Layout := group true (-indentation) body

/-- A gap of width zero. -/
def softBreak : Layout := gap {}

def space : Layout := gap { blank := 1 }

/-- Always ends the line. -/
def hardBreak : Layout := gap { blank := unbounded }

/-- Ends the line before a closing brace. -/
def closingBreak : Layout := gap { blank := unbounded, offset := -indentation }

/-- Never ends the line. -/
def joint : Layout := gap { solid := true }

/-- Parts with commas between them and a last gap; a comma ends the last line if lines break. -/
def commaSeparated (last : Gap) : List (List Layout) → List Layout
  | [] => []
  | [part] => part ++ [gap { last with before := "," }]
  | part :: rest => part ++ [text ",", space] ++ commaSeparated last rest

/-- Parts on one line, or else indented on a line each. -/
def enclosed (parts : List (List Layout)) : List Layout :=
  if parts.isEmpty then []
  else [block (softBreak :: commaSeparated { offset := -indentation } parts)]

/-- Parts that each end their line; the last one ends it before a closing brace. -/
def lined : List (List Layout) → List Layout
  | [] => []
  | [part] => part ++ [closingBreak]
  | part :: rest => part ++ [hardBreak] ++ lined rest

/-- A construct that gets braces when it moves to a line of its own; `flat` follows it if it does
not. -/
def braced (flat : String) (body : List Layout) : Layout :=
  block ([gap { before := "\x7b" }] ++ body ++
    [gap { offset := -indentation, after := "\x7d", flat := flat }])

end Layout

open Layout

/-- The text of arguments: a comma is followed by a blank, and none stands before the bracket. -/
def argumentText : List String → String
  | "," :: ">" :: rest => ">" ++ argumentText rest
  | "," :: rest => ", " ++ argumentText rest
  | [token] => token
  | token :: next :: rest =>
    let isWord (s : String) : Bool := (s.toList.getLast?.any Text.isIdentifierRest)
    token ++ (if isWord token && isWord next then " " else "") ++ argumentText (next :: rest)
  | [] => ""

/-- The text of a step; empty brackets are left out. -/
def Step.text (step : Step) (mark : String) : String :=
  if step.arguments.length ≤ 2 then step.name
  else step.name ++ mark ++ argumentText step.arguments

/-- The text of a path, with a mark between a name and its arguments. -/
def CodePath.textWith (p : CodePath) (mark : String) : String :=
  (if p.rooted then "::" else "") ++ "::".intercalate (p.steps.map fun step => step.text mark)

/-- The text of a path in an expression or a pattern. -/
def CodePath.text (p : CodePath) : String := p.textWith "::"

/-- The text of a path that names a type or a trait. -/
def CodePath.typeText (p : CodePath) : String := p.textWith ""

mutual

def CodeType.layout : CodeType → List Layout
  | .path p args =>
    match argumentLayouts args with
    | [] => [text p.typeText]
    | parts => [text (p.typeText ++ "<")] ++ enclosed parts ++ [text ">"]
  | .lifetime name => [text name]
  | .borrowed lifetime t =>
    [text "&"] ++ (lifetime.toList.map fun l => text (l ++ " ")) ++ t.layout
  | .exclusive t => text "&mut " :: t.layout
  | .unit => [text "()"]

def argumentLayouts : List CodeType → List (List Layout)
  | [] => []
  | t :: rest => t.layout :: argumentLayouts rest

end

def Pattern.layout : Pattern → List Layout
  | .path p => [Layout.text p.text]
  | .payload p name =>
    [Layout.text (p.text ++ "(")] ++ enclosed [[Layout.text name]] ++ [Layout.text ")"]
  | .text s => [Layout.text (textLiteral s)]
  | .wildcard => [Layout.text "_"]

/-- Whether an expression alone in parentheses hugs them. -/
def Expr.hugs : Expr → Bool
  | .closure .. | .record .. => true
  | _ => false

/-- Whether an expression that is the body of a closure gets no braces when it breaks. -/
def Expr.staysBare : Expr → Bool
  | .closure .. | .record .. | .call .. | .choice .. => true
  | _ => false

/-- Whether an opening brace moves to a line of its own after the expression breaks. -/
def Expr.detachesBrace : Expr → Bool
  | .method .. | .binary .. => true
  | _ => false

/-- An expression that heads a chain of calls takes the chain's indentation back. -/
def headed (head : Bool) (parts : List Layout) : List Layout :=
  if head then [unindented parts] else parts

/-- A tested expression up to the brace that follows it. -/
def condition (detached : Bool) (e : List Layout) : Layout :=
  unindented [group true 0 (e ++ [if detached then space else Layout.text " "])]

mutual

/-- The layout of an expression, in front of a method call or not: chained calls break together. -/
def Expr.layoutIn (head : Bool) : Expr → List Layout
  | .path p => headed head [Layout.text p.text]
  | .traitItem t trait name =>
    headed head ([Layout.text "<"] ++ t.layout ++
      [Layout.text (" as " ++ trait.typeText ++ ">::" ++ name)])
  | .text s => headed head [Layout.text (textLiteral s)]
  | .integer i =>
    headed head [Layout.text ((if i.toInt < 0 then "-" else "") ++ integerLiteral i)]
  | .boolean b => headed head [Layout.text (if b then "true" else "false")]
  | .borrow e => headed head (Layout.text "&" :: e.layoutIn false)
  | .deref e => headed head (Layout.text "*" :: e.layoutIn false)
  | .call function args => function.layoutIn head ++ parenthesized args
  | .method receiver name args =>
    let parts := receiver.layoutIn true ++
      [softBreak, Layout.text ("." ++ name), group true 0 (parenthesized args)]
    if head then parts else [block parts]
  | .orReturn e => e.layoutIn head ++ [Layout.text "?"]
  | .binary left operator right =>
    headed head [group false indentation ([group false (-indentation) (left.layoutIn false), space,
      Layout.text (operator ++ " ")] ++ right.layoutIn false)]
  | .closure parameter body =>
    let inner := body.layoutIn false
    headed head ([Layout.text "|", block [softBreak, Layout.text (parameter ++ "|"),
      gap { blank := 1, offset := -indentation }], joint] ++
      (if body.staysBare then inner else [braced "" inner]))
  | .record p fields =>
    let content := [group false (-indentation) [Layout.text p.text], Layout.text " \x7b", space] ++
      commaSeparated { blank := 1, offset := -indentation } (memberLayouts fields)
    headed head [block (content ++ if widths content > recordWidth then [wide] else []),
      Layout.text "\x7d"]
  | .choice e arms =>
    headed head [block ([Layout.text "match ",
      condition e.detachesBrace (e.layoutIn false), Layout.text "\x7b", hardBreak] ++
        lined (armLayouts arms)), Layout.text "\x7d"]

/-- Operands in parentheses. -/
def parenthesized : List Expr → List Layout
  | [] => [Layout.text "()"]
  | e :: rest =>
    let first := e.layoutIn false
    [Layout.text "("] ++
      (if rest.isEmpty && e.hugs then first else enclosed (first :: operandLayouts rest)) ++
      [Layout.text ")"]

def operandLayouts : List Expr → List (List Layout)
  | [] => []
  | e :: rest => e.layoutIn false :: operandLayouts rest

def memberLayouts : List (String × Expr) → List (List Layout)
  | [] => []
  | (name, e) :: rest =>
    [Layout.text (name ++ ": "), group false 0 (e.layoutIn false)] :: memberLayouts rest

def armLayouts : List (Pattern × Expr) → List (List Layout)
  | [] => []
  | (pattern, e) :: rest =>
    [group false 0 (pattern.layout ++ [Layout.text " =>", Layout.text " ", joint,
      braced "," (e.layoutIn false)])] :: armLayouts rest

end

def Expr.layout (e : Expr) : List Layout := e.layoutIn false

def Statement.layout : Statement → List Layout
  | .bind mutable name e =>
    [group false 0 ([text ((if mutable then "let mut " else "let ") ++ name ++ " = "), joint] ++
      e.layout ++ [text ";"])]
  | .returnIf test value =>
    [group false 0 [block ([text "if ", condition test.detachesBrace test.layout, text "\x7b",
      hardBreak] ++ lined [[group false 0 ([text "return "] ++ value.layout ++ [text ";"])]]),
      text "\x7d"]]
  | .result e => [group false 0 e.layout]

def serdeKeyText : String × Option String → String
  | (key, none) => key
  | (key, some value) => key ++ " = " ++ textLiteral value

/-- An attribute with operands, which get no comma at their end. -/
def operandAttribute (name : String) (operands : List String) : List Layout :=
  [text ("#[" ++ name ++ "("),
    block ([softBreak] ++
      [text ",", space].intercalate (operands.map fun operand => [text operand]) ++
      [gap { offset := -indentation }]),
    text ")]", space]

/-- An attribute and the end of its line. -/
def Attribute.layout : Attribute → List Layout
  | .doc line _ =>
    [text (String.ofList ("///".toList ++ (line.toList.reverse.dropWhile (· == ' ')).reverse)),
      hardBreak]
  | .derive traits => operandAttribute "derive" (traits.map CodePath.text)
  | .serde keys => operandAttribute "serde" (keys.map serdeKeyText)

/-- Parameters of a type or function between angle brackets. -/
def parameters (names : List String) : List Layout :=
  if names.isEmpty then []
  else [text "<",
    group true 0 (softBreak ::
      commaSeparated { offset := -indentation } (names.map fun name => [text name])),
    text ">"]

/-- The condition on a type parameter, if there is one, up to the brace of the body. -/
def boundLayout : Option (String × CodeType) → List Layout
  | none => [text " "]
  | some (name, bound) =>
    [closingBreak, text "where", hardBreak, text (name ++ ": "), group false 0 bound.layout,
      text ",", closingBreak]

def Function.layout (f : Function) : List Layout :=
  let arguments := (if f.receiver then [[text "&self"]] else []) ++
    f.arguments.map fun (name, type) => text (name ++ ": ") :: type.layout
  [block ([text ((if f.visible then "pub fn " else "fn ") ++ f.name)] ++
      parameters (f.parameter.toList.map fun p => p.1) ++
      [text "(", joint,
        group true 0 (softBreak :: commaSeparated { offset := -indentation } arguments),
        text ")", unindented (text " -> " :: f.result.layout)] ++
      boundLayout f.parameter ++
      [text "\x7b", hardBreak] ++ lined (f.body.map Statement.layout)),
    text "\x7d"]

def Member.layout : Member → List Layout
  | .function f => f.layout
  | .constant name type value =>
    [group true 0 ([text ("const " ++ name ++ ": ")] ++ type.layout ++ [text " = ", joint] ++
      value.layout ++ [text ";"])]

def FieldItem.layout (f : FieldItem) : List Layout :=
  f.attributes.flatMap Attribute.layout ++ [text ("pub " ++ f.name ++ ": ")] ++ f.type.layout ++
    [text ","]

def VariantItem.layout (v : VariantItem) : List Layout :=
  v.attributes.flatMap Attribute.layout ++ [text v.name] ++
    (match v.payload with
      | some t => [block ([text "(", softBreak] ++ t.layout ++
          [gap { before := ",", offset := -indentation }, text ")"])]
      | none => []) ++
    [text ","]

/-- A construct with parts in braces. -/
def bracedBody (head : List Layout) (parts : List (List Layout)) : List Layout :=
  [block (head ++ [text " \x7b", hardBreak] ++ lined parts), text "\x7d"]

def Item.layout : Item → List Layout
  | .alias attributes name type =>
    attributes.flatMap Attribute.layout ++
      [block [text ("pub type " ++ name ++ " = "), joint,
        group false (-indentation) type.layout, text ";"]]
  | .struct attributes name fields =>
    attributes.flatMap Attribute.layout ++
      bracedBody [text ("pub struct " ++ name)] (fields.map FieldItem.layout)
  | .enumeration attributes name variants =>
    attributes.flatMap Attribute.layout ++
      bracedBody [text ("pub enum " ++ name)] (variants.map VariantItem.layout)
  | .implementation lifetime trait name members =>
    let head := [block (text "impl" :: parameters lifetime.toList), text " "] ++
      (match trait with
        | some t => t.layout ++ [space, text "for "]
        | none => []) ++
      [text name]
    bracedBody [group false (-indentation) head] (members.map Member.layout)

/-- Whether a line is to be followed by a blank line: it ends an item and another one follows. -/
def endsItem (line next : List Char) : Bool := line == ['\x7d'] && !next.isEmpty

/-- Blank lines between items. -/
def spacedLines : List (List Char) → List (List Char)
  | line :: next :: rest =>
    line :: ((if endsItem line next then [[]] else []) ++ spacedLines (next :: rest))
  | lines => lines

/-- What stands at the top of every emitted file. -/
def sourceHeader : String :=
  "// @generated by sketch-codegen. DO NOT EDIT.\n//\n" ++
  "// This file was automatically generated from the Sketch file format schemas.\n" ++
  "// Any manual changes will be overwritten on the next regeneration.\n\n"

/-- The source file that holds the items. -/
def renderSource (items : List Item) : String :=
  let body := Layout.render [group true 0 (items.flatMap fun item => item.layout ++ [hardBreak])]
  let lines := spacedLines (Text.splitLines [] body.toList)
  sourceHeader ++ String.ofList (['\n'].intercalate lines) ++ "\n"

end TypedArchive.Emit
