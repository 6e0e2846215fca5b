import DialectScript.Report
import DialectScript.Text.Blank
import DialectScript.Text.Lines
import DialectScript.Text.Width

/-!
# Snippets

The drawing that the program uses for its reports: the line of the source, a row of marks below
the place, and a row with an arrow to the label. It is made for places that do not reach over the
end of a line.
-/

namespace DialectScript

namespace Report

/-- A line of a source: its number from one on, its first byte and its characters. -/
structure Line where
  number : Nat
  offset : Nat
  chars : List Char

/-- The last line, of one and those that follow it, that starts at or before a byte. -/
def lineAt (byte : Nat) (line : Line) : List (List Char) → Line
  | [] => line
  | next :: rest =>
    let offset := line.offset + Text.byteLength line.chars
    if offset ≤ byte then lineAt byte ⟨line.number + 1, offset, next⟩ rest else line

/-- The line of a source that a byte belongs to; an empty source is one empty line. -/
def locate (source : List Char) (byte : Nat) : Line :=
  match Text.linesOf source with
  | [] => ⟨1, 0, []⟩
  | first :: rest => lineAt byte ⟨1, 0, first⟩ rest

/-- The number of characters that start within the first bytes of a text. -/
def charsWithin (bytes : Nat) : List Char → Nat
  | [] => 0
  | c :: cs => if bytes = 0 then 0 else 1 + charsWithin (bytes - c.utf8Size) cs

/-- The columns taken by the character at an index of a line: a tab goes to the next multiple of
four, other white space and what lies beyond the line take one. -/
def columns (row : List Char) (index : Nat) : Nat :=
  match row[index]? with
  | none => 1
  | some c => if c == '\t' then 4 - index % 4 else if Text.isBlank c then 1 else Text.width c

/-- A line as it is shown, white space replaced by spaces. -/
def showLine (line : List Char) : List Char :=
  line.zipIdx.flatMap fun (c, i) =>
    if Text.isBlank c then List.replicate (columns line i) ' ' else [c]

/-- A character once, and another for the rest of a width; nothing if there is no width. -/
def fill (first other : Char) : Nat → List Char
  | 0 => []
  | n + 1 => first :: List.replicate n other

/-- The marks below the characters from `start` to `stop`, with a joint at their middle. -/
def markRow (line : List Char) (start stop : Nat) : List Char :=
  (List.range (stop + 2)).flatMap fun i =>
    let width := columns line i
    if i = (start + stop) / 2 then
      if start = stop then fill '│' ' ' width else fill '┬' '─' width
    else if start ≤ i ∧ i < stop then List.replicate width '─'
    else List.replicate width ' '

/-- The arrow from the middle of the marks to the label. -/
def arrowRow (line : List Char) (start stop : Nat) : List Char :=
  (List.range (stop + 2)).flatMap fun i =>
    let width := columns line i
    if i = (start + stop) / 2 then fill '╰' '─' width
    else if (start + stop) / 2 < i then List.replicate width '─'
    else List.replicate width ' '

/-- A message about a place within one line of a source, drawn below the line. -/
def draw : Drawing := fun name source place message label =>
  let line := locate source.toList place.start
  let start := charsWithin (place.start - line.offset) line.chars
  let stop := charsWithin (place.stop - line.offset) line.chars
  let shown := Text.trimEnd line.chars
  let number := toString line.number
  let margin := "".pushn ' ' (number.length + 2)
  let rows : List String :=
    [ "Error: " ++ message,
      margin ++ "╭─[ " ++ name ++ ":" ++ number ++ ":" ++ toString (start + 1) ++ " ]",
      margin ++ "│",
      " " ++ number ++ " │ " ++ .ofList (showLine shown),
      margin ++ "│ " ++ .ofList (markRow shown start stop),
      margin ++ "│ " ++ .ofList (arrowRow shown start stop) ++ " " ++ label,
      "".pushn '─' (number.length + 2) ++ "╯" ]
  String.join (rows.map (· ++ "\n"))

end Report

/-- The report of a syntax error in a named source, drawn as a snippet. -/
def SyntaxError.report (name source : String) (e : SyntaxError) : String :=
  e.reportWith Report.draw name source

end DialectScript
