import DialectScript.Program.Outline
import DialectScript.Report.Snippet
import DialectScript.Session

/-!
# The command line

What the program does for a list of arguments: run a file, list its tokens, outline its
statements, talk to a person, or say how it is used. Files are seen through a function from
paths to what is found there.
-/

namespace DialectScript

/-- An interactive session over input lines, with its reports drawn as snippets. -/
def Session.converse (fuel : Nat) (s : Session) (lines : List (Option String)) :
    List Piece × Ending :=
  s.converseWith Report.draw fuel lines

/-- What is found at a path. -/
inductive FileContent where
  | missing
  | directory
  | bytes (content : ByteArray)

/-- What a command writes and whether it succeeds. -/
structure Response where
  out : String
  err : String
  success : Bool
deriving DecidableEq

/-- What a list of positional arguments asks for. -/
inductive Command where
  | converse
  | run (path : String)
  | tokens (path : String)
  | outline (path : String)
  | missingFile (verb : String)
  | help
  | version
  | unknown (args : List String)
deriving DecidableEq

namespace Command

/-- The command that positional arguments ask for. -/
def ofArgs : List String → Command
  | [] => .converse
  | ["repl"] => .converse
  | ["run", path] => .run path
  | ["lex", path] => .tokens path
  | ["parse", path] => .outline path
  | ["run"] => .missingFile "run"
  | ["lex"] => .missingFile "lex"
  | ["parse"] => .missingFile "parse"
  | ["help"] => .help
  | ["-h"] => .help
  | ["version"] => .version
  | ["-V"] => .version
  | [path] => if path.toList.head? = some '-' then .unknown [path] else .run path
  | args => .unknown args

/-- The file that a command reads. -/
def path? : Command → Option String
  | .run path => some path
  | .tokens path => some path
  | .outline path => some path
  | _ => none

/-- How the program is used. -/
def usage : String := "Ember interpreter

Usage: ember [command] [options]

Commands:
  <file>               Run an Ember program
  run <file>           Run an Ember program
  repl                 Start an interactive session (default)
  lex <file>           Tokenize and display tokens
  parse <file>         Parse and display the syntax tree
  help                 Show this help message
  version              Show version information

Options:
  --dialect=<name>     Starting keyword dialect: standard (default), prose
  --max-depth=<n>      Maximum function call depth (default: 1000)

Environment:
  EMBER_LOG            Tracing filter, e.g. EMBER_LOG=ember_eval=debug

Examples:
  ember main.em
  ember run main.em --max-depth=200
  ember --dialect=prose
"

/-- The name and version of the program. -/
def versionText : String := "Ember 0.1.0\n"

/-- The text of a file, or the message that says why there is none. -/
def readText (path : String) : FileContent → Except String String
  | .missing => .error s!"cannot find file '{path}'"
  | .directory => .error s!"error reading '{path}': Is a directory (os error 21)"
  | .bytes content =>
    match String.fromUTF8? content with
    | some text => .ok text
    | none => .error s!"'{path}' contains invalid UTF-8 data"

/-- Run a source in a session of its own. -/
def runSource (fuel : Nat) (options : Options) (output : Output) (name source : String) :
    Outcome × Session × String :=
  let (outcome, s) := (Session.start options output).runSource fuel source
  match outcome with
  | .value v => (.value v, s, "")
  | .syntaxError e => (.syntaxError e, s, e.report name source)
  | .fault f => (.fault f, s, f.report)
  | .outOfFuel => (.outOfFuel, s, "")

/-- Whether an outcome is a value. -/
def succeeded : Outcome → Bool
  | .value _ => true
  | _ => false

/-- Run a source and show what it prints and what goes wrong. -/
def runText (fuel : Nat) (options : Options) (path source : String) : Response :=
  let (outcome, s, report) := runSource fuel options (.console "") path source
  ⟨s.release.1, report, succeeded outcome⟩

/-- List the tokens of a source. -/
def listTokens (options : Options) (path source : String) : Response :=
  match tokenize options.dialect source with
  | .error e => ⟨"", (SyntaxError.ofLexical e).report path source, false⟩
  | .ok found =>
    let lines := found.map fun t =>
      "  " ++ t.kind.name ++ " " ++ Text.quote t.text ++ " @ " ++ t.span.text ++ "\n"
    ⟨s!"Tokens for '{path}' ({found.length} tokens):\n" ++ String.join lines, "", true⟩

/-- Outline the statements of a source. -/
def outlineProgram (options : Options) (path source : String) : Response :=
  match Program.ofSource options.dialect source with
  | .error e => ⟨"", e.report path source, false⟩
  | .ok program =>
    let lines := program.flatMap Stmt.outline
    ⟨s!"Parse result for '{path}' ({program.length} statements):\n" ++
      String.join (lines.map (· ++ "\n")), "", true⟩

/-- Do something with the text of a file, or say why there is none. -/
def withFile (files : String → FileContent) (path : String) (act : String → Response) :
    Response :=
  match readText path (files path) with
  | .ok text => act text
  | .error message => ⟨"", message ++ "\n", false⟩

/-- Talk to a person. -/
def talk (fuel : Nat) (options : Options) (input : ByteArray) : Response :=
  let (pieces, ending) :=
    (Session.start options (.console "")).converse fuel (Text.inputLines input)
  let text := String.join (pieces.map Piece.text)
  match ending with
  | .finished => ⟨text, "", true⟩
  | .unreadable => ⟨text, s!"error: {Session.unreadableMessage}\n", false⟩

/-- Do what a command asks for. -/
def perform (fuel : Nat) (options : Options) (files : String → FileContent) (input : ByteArray) :
    Command → Response
  | .converse => talk fuel options input
  | .run path => withFile files path (runText fuel options path)
  | .tokens path => withFile files path (listTokens options path)
  | .outline path => withFile files path (outlineProgram options path)
  | .missingFile verb => ⟨"", s!"Usage: ember {verb} <file> [options]\n", false⟩
  | .help => ⟨usage, "", true⟩
  | .version => ⟨versionText, "", true⟩
  | .unknown args => ⟨usage, "Unknown command: " ++ " ".intercalate args ++ "\n\n", false⟩

/-- Do what a list of arguments asks for. -/
def respond (fuel : Nat) (args : List String) (files : String → FileContent) (input : ByteArray) :
    Response :=
  match Options.read args with
  | .error problem => ⟨usage, "error: " ++ problem.message ++ "\n\n", false⟩
  | .ok (options, positional) => perform fuel options files input (ofArgs positional)

end Command

end DialectScript
