import DialectScript.Command

/-!
# The program

Arguments, files, input and output. All that is decided is decided by `Command` and `Session`.
-/

namespace DialectScript.Main

/-- More steps than a run can take in practice. -/
def fuel : Nat := twoTo 62

/-- What is found at a path. -/
def look (path : String) : IO FileContent := do
  try
    return .bytes (← IO.FS.readBinFile path)
  catch
    | .noFileOrDirectory .. => return .missing
    | .inappropriateType .. => return .directory
    | e => throw e

/-- Read bytes up to a line feed or the end of the input. -/
partial def readBytes (input : IO.FS.Stream) (before : ByteArray) : IO ByteArray := do
  let byte ← input.read 1
  let bytes := before ++ byte
  if byte.isEmpty || byte.toList == [10] then return bytes else readBytes input bytes

/-- Read a line of input: nothing at the end, and no text if it is not UTF-8. -/
def readLine (input : IO.FS.Stream) : IO (Option (Option String)) := do
  let bytes ← readBytes input .empty
  return if bytes.isEmpty then none else some (String.fromUTF8? bytes)

/-- Show pieces at once. -/
def present (output : IO.FS.Stream) (pieces : List Piece) : IO Unit := do
  for piece in pieces do
    output.putStr piece.text
  output.flush

/-- Talk to a person until they leave. -/
partial def converse (session : Session) (input output : IO.FS.Stream) : IO Ending := do
  present output [.said Session.prompt]
  match ← readLine input with
  | none =>
    present output Session.farewell
    return .finished
  | some line =>
    let (pieces, next) := session.hear Report.draw fuel line
    present output pieces
    match next with
    | .goOn session => converse session input output
    | .stop ending => return ending

/-- Write what a command has to say. -/
def deliver (r : Response) : IO UInt32 := do
  (← IO.getStdout).putStr r.out
  (← IO.getStderr).putStr r.err
  return if r.success then 0 else 1

/-- Talk to a person, and report an input that cannot be read. -/
def talk (options : Options) : IO UInt32 := do
  let output ← IO.getStdout
  present output [.said Session.welcome]
  match ← converse (Session.start options (.console "")) (← IO.getStdin) output with
  | .finished => return 0
  | .unreadable =>
    (← IO.getStderr).putStrLn ("error: " ++ Session.unreadableMessage)
    return 1

/-- Do what the arguments ask for. -/
def run (args : List String) : IO UInt32 := do
  match Options.read args with
  | .error _ => deliver (Command.respond fuel args (fun _ => .missing) .empty)
  | .ok (options, positional) =>
    let command := Command.ofArgs positional
    if command = .converse then talk options
    else
      let content ← match command.path? with
        | some path => look path
        | none => pure .missing
      deliver (command.perform fuel options (fun _ => content) .empty)

end DialectScript.Main

def main (args : List String) : IO UInt32 := DialectScript.Main.run args
