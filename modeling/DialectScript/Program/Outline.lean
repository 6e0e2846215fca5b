import DialectScript.Decimal.Style
import DialectScript.Program.Basic
import DialectScript.Text.Quoted

/-!
# Outlines of programs

A statement drawn as an indented tree, one part a line. Every part of a node stands on lines of
its own, four spaces further in, and ends with a comma.
-/

namespace DialectScript

namespace Outline

/-- A part of a node: further in, after its label, and with a comma at its end. -/
def part (label : String) : List String → List String
  | [] => []
  | [line] => ["    " ++ label ++ line ++ ","]
  | first :: rest =>
    ("    " ++ label ++ first) :: (rest.dropLast.map ("    " ++ ·)) ++
      (rest.getLast?.toList.map ("    " ++ · ++ ","))

/-- A node with labelled parts. -/
def record (name : String) (fields : List (String × List String)) : List String :=
  (name ++ " \x7b") :: fields.flatMap (fun (label, lines) => part (label ++ ": ") lines) ++ ["\x7d"]

/-- A node with one part. -/
def wrap (name : String) (inner : List String) : List String :=
  (name ++ "(") :: part "" inner ++ [")"]

/-- A list of nodes. -/
def list (items : List (List String)) : List String :=
  if items.isEmpty then ["[]"] else "[" :: items.flatMap (part "") ++ ["]"]

/-- A quoted text. -/
def text (s : String) : List String := [Text.quote s]

/-- A truth value. -/
def flag (b : Bool) : List String := [if b then "true" else "false"]

/-- Something that may be absent. -/
def option : Option (List String) → List String
  | none => ["None"]
  | some inner => wrap "Some" inner

end Outline

open Outline

/-- The name of an operator in an outline. -/
def Operator.outline : Operator → String
  | .add => "Add"
  | .subtract => "Sub"
  | .multiply => "Mul"
  | .divide => "Div"
  | .remainder => "Mod"
  | .equal => "Eq"
  | .notEqual => "NotEq"
  | .less => "Lt"
  | .greater => "Gt"
  | .lessEqual => "LtEq"
  | .greaterEqual => "GtEq"
  | .and => "And"
  | .or => "Or"

mutual

/-- The outline of an expression, line by line. -/
def Expr.outline : Expr → List String
  | .identifier name => wrap "Identifier" (text name)
  | .number x => wrap "Number" [NumberStyle.outline.write x]
  | .string s => wrap "String" (text s)
  | .binary operator left right =>
    record "Binary" [("op", [operator.outline]), ("left", left.outline), ("right", right.outline)]
  | .assign target value =>
    record "Assignment" [("target", target.outline), ("value", value.outline)]
  | .object properties => wrap "Object" (list (Property.outlines properties))
  | .array elements => wrap "Array" (list (Expr.outlines elements))
  | .member object property access =>
    record "Member"
      [("object", object.outline), ("property", property.outline),
        ("computed", flag (access == .bracket))]
  | .call callee arguments =>
    record "Call" [("callee", callee.outline), ("args", list (Expr.outlines arguments))]

/-- The outlines of expressions. -/
def Expr.outlines : List Expr → List (List String)
  | [] => []
  | e :: rest => e.outline :: Expr.outlines rest

/-- The outlines of the entries of an object literal. -/
def Property.outlines : List (Property Expr) → List (List String)
  | [] => []
  | .shorthand key :: rest =>
    record "Property" [("key", text key), ("value", option none)] :: Property.outlines rest
  | .pair key value :: rest =>
    record "Property" [("key", text key), ("value", option (some value.outline))] ::
      Property.outlines rest

end

mutual

/-- The outline of a statement, line by line. -/
def Stmt.outline : Stmt → List String
  | .declare mutability name init =>
    record "VariableDeclaration"
      [("constant", flag (mutability == .constant)), ("name", text name),
        ("init", option (init.map Expr.outline))]
  | .function name params body =>
    wrap "FunctionDeclaration"
      (record "FunctionDecl"
        [("name", text name), ("params", list (params.map text)),
          ("body", list (Stmt.outlines body))])
  | .branch condition thenBody none =>
    record "If"
      [("condition", condition.outline), ("then_branch", list (Stmt.outlines thenBody)),
        ("else_branch", option none)]
  | .branch condition thenBody (some elseBody) =>
    record "If"
      [("condition", condition.outline), ("then_branch", list (Stmt.outlines thenBody)),
        ("else_branch", option (some (list (Stmt.outlines elseBody))))]
  | .loop condition body =>
    record "While" [("condition", condition.outline), ("body", list (Stmt.outlines body))]
  | .importPath path => record "Import" [("path", text path)]
  | .expression e => wrap "Expr" e.outline

/-- The outlines of statements. -/
def Stmt.outlines : List Stmt → List (List String)
  | [] => []
  | s :: rest => s.outline :: Stmt.outlines rest

end

end DialectScript
