/-!
# Printed output

Where printed lines go: to the console, into a buffer, or nowhere. Only a buffer can be read
back and cleared. What is sent to the console waits there until it is released.
-/

namespace DialectScript

/-- A destination of printed lines. -/
inductive Output where
  | console (waiting : String)
  | buffer (text : String)
  | silent
deriving DecidableEq, Inhabited

namespace Output

/-- Print a line. -/
def printLine (line : String) : Output → Output
  | .console waiting => .console (waiting ++ line ++ "\n")
  | .buffer text => .buffer (text ++ line ++ "\n")
  | .silent => .silent

/-- What a buffer has collected; other destinations collect nothing. -/
def captured : Output → String
  | .buffer text => text
  | _ => ""

/-- Forget what a buffer has collected. -/
def clear : Output → Output
  | .buffer _ => .buffer ""
  | o => o

/-- What waits at the console, and the output with nothing waiting. -/
def release : Output → String × Output
  | .console waiting => (waiting, .console "")
  | o => ("", o)

end Output

end DialectScript
