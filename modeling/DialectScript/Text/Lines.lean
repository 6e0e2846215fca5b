/-!
# Lines

Two ways to cut a text into lines. A source shown in a report ends its lines at every line
terminator of the Unicode standard, and keeps the terminators. Typed input ends its lines at a
line feed, with a carriage return before it, and drops them; a line of input that is not UTF-8
cannot be read.
-/

namespace DialectScript.Text

/-- The characters that end a line of a source. -/
def isTerminator (c : Char) : Bool :=
  c == '\n' || c == '\r' || c == '\x0b' || c == '\x0c' || c == '\u0085' || c == '\u2028' ||
    c == '\u2029'

/-- The lines of a text, each with its terminator; no empty line follows the last one. -/
def linesOf : List Char → List (List Char)
  | [] => []
  | '\r' :: '\n' :: cs => ['\r', '\n'] :: linesOf cs
  | c :: cs =>
    if isTerminator c then [c] :: linesOf cs
    else
      match linesOf cs with
      | [] => [[c]]
      | line :: lines => (c :: line) :: lines

/-- The lines of a byte sequence, without the line feeds; no empty line follows the last one. A
carriage return before a line feed is dropped with it. -/
def byteLines : List UInt8 → List (List UInt8)
  | [] => []
  | 13 :: 10 :: bs => [] :: byteLines bs
  | b :: bs =>
    if b == 10 then [] :: byteLines bs
    else
      match byteLines bs with
      | [] => [[b]]
      | line :: lines => (b :: line) :: lines

/-- The lines of typed input; none stands for a line that is not UTF-8. -/
def inputLines (input : ByteArray) : List (Option String) :=
  (byteLines input.toList).map fun line => String.fromUTF8? ⟨line.toArray⟩

end DialectScript.Text
