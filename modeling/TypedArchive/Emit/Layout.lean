/-! Text broken into lines: groups of text and gaps, where a group that does not fit its line
breaks at its gaps. Widths count bytes of UTF-8. -/

namespace TypedArchive.Emit

/-- A place where a line may end. -/
structure Gap where
  /-- The number of spaces if the line goes on. -/
  blank : Nat := 0
  /-- What the next line is indented by, beyond its group. -/
  offset : Int := 0
  /-- What ends a broken line. -/
  before : String := ""
  /-- What begins the line after a break. -/
  after : String := ""
  /-- What stands in the line if it goes on. -/
  flat : String := ""
  /-- Whether the line always goes on; the gap only ends what has to fit before it. -/
  solid : Bool := false
  deriving DecidableEq, Repr

inductive Layout where
  | text (s : String)
  | gap (g : Gap)
  /-- Indents its broken lines by an offset; an even group breaks at all its gaps or none. -/
  | group (even : Bool) (offset : Int) (body : List Layout)
  /-- Nothing to see, and too wide for any line. -/
  | wide
  deriving Repr

namespace Layout

/-- Wider than any line. -/
def unbounded : Nat := 0xFFFF

def lineWidth : Int := 89

/-- The room on a line however far it is indented. -/
def minimalRoom : Int := 60

mutual

/-- The width if no line ends inside. -/
def width : Layout → Nat
  | text s => s.utf8ByteSize
  | gap g => g.blank
  | group _ _ body => widths body
  | wide => unbounded

def widths : List Layout → Nat
  | [] => 0
  | part :: rest => part.width + widths rest

end

/-- The width up to the next gap beside the parts; `after` is the width beyond them. -/
def reach (after : Nat) : List Layout → Nat
  | [] => after
  | gap _ :: _ => 0
  | part :: rest => part.width + reach after rest

/-- The state of writing. -/
structure Page where
  text : String := ""
  /-- Spaces that precede the next text. -/
  pending : Nat := 0
  /-- The room left on the line. -/
  room : Int := lineWidth

namespace Page

def put (p : Page) (s : String) : Page :=
  { text := p.text ++ "".pushn ' ' p.pending ++ s, pending := 0, room := p.room - s.utf8ByteSize }

/-- Goes on in the line. -/
def stay (p : Page) (g : Gap) : Page :=
  { text := p.text ++ g.flat
    pending := p.pending + g.blank
    room := p.room - g.blank - g.flat.utf8ByteSize }

/-- Ends the line; the next one is indented. -/
def endLine (p : Page) (indent : Int) (g : Gap) : Page :=
  let p := if g.before.isEmpty then p else p.put g.before
  let indent := indent + g.offset
  let next : Page :=
    { text := p.text ++ "\n"
      pending := indent.toNat
      room := max (lineWidth - indent) minimalRoom }
  if g.after.isEmpty then next else next.put g.after

end Page

/-- How a group breaks: not at all, at every gap, or at each gap whose next part does not fit. -/
inductive Breaking where
  | never | always | asNeeded
  deriving DecidableEq, Repr

mutual

/-- Writes a part; `after` is the width from its end to the next gap. -/
def write (breaking : Breaking) (indent : Int) (after : Nat) (page : Page) : Layout → Page
  | text s => page.put s
  | gap g =>
    let fits := g.solid || match breaking with
      | .never => true
      | .always => false
      | .asNeeded => decide ((g.blank + after : Int) ≤ page.room)
    if fits then page.stay g else page.endLine indent g
  | group even offset body =>
    if page.room < (widths body + after : Nat) then
      writeAll (if even then .always else .asNeeded) (indent + offset) after page body
    else writeAll .never indent after page body
  | wide => page

/-- Writes parts one after another; `after` is the width from their end to the next gap. -/
def writeAll (breaking : Breaking) (indent : Int) (after : Nat) (page : Page) :
    List Layout → Page
  | [] => page
  | part :: rest =>
    writeAll breaking indent after (write breaking indent (reach after rest) page part) rest

end

/-- Lays text out on lines. -/
def render (body : List Layout) : String := (writeAll .asNeeded 0 0 {} body).text

end Layout

end TypedArchive.Emit
