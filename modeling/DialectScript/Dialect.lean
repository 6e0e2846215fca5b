import DialectScript.Token

/-!
# Dialects

A dialect is a choice of keyword spellings for one grammar. Each also has a switch word, which
leads to the other dialect. Words are compared without regard to the case of ASCII letters.
-/

namespace DialectScript

/-- The spellings in effect while a source is scanned. -/
inductive Dialect where
  /-- `let const fn if else while import` -/
  | standard
  /-- `set fix define when otherwise during use` -/
  | prose
deriving DecidableEq, Inhabited

/-- What a run of letters means under a dialect. -/
inductive Word where
  | keyword (kind : Kind)
  | switch (target : Dialect)
  | identifier
deriving DecidableEq

/-- Whether a text spells a lower-case word, up to the case of its ASCII letters. -/
def Word.spells (letters : List Char) (word : String) : Bool :=
  letters.map Char.toLower == word.toList

namespace Dialect

def all : List Dialect := [.standard, .prose]

def name : Dialect → String
  | .standard => "standard"
  | .prose => "prose"

/-- The keywords of a dialect with their meanings. -/
def keywords : Dialect → List (String × Kind)
  | .standard =>
    [("let", .letKeyword), ("const", .constKeyword), ("fn", .functionKeyword),
      ("if", .ifKeyword), ("else", .elseKeyword), ("while", .whileKeyword),
      ("import", .importKeyword)]
  | .prose =>
    [("set", .letKeyword), ("fix", .constKeyword), ("define", .functionKeyword),
      ("when", .ifKeyword), ("otherwise", .elseKeyword), ("during", .whileKeyword),
      ("use", .importKeyword)]

/-- The dialect that the switch word leads to. -/
def target : Dialect → Dialect
  | .standard => .prose
  | .prose => .standard

/-- The word that leaves the dialect: the name of the one it leads to. -/
def switchWord (d : Dialect) : String := d.target.name

/-- The meaning of a run of letters; the switch word is looked at first. -/
def classify (d : Dialect) (letters : List Char) : Word :=
  if Word.spells letters d.switchWord then .switch d.target
  else
    match d.keywords.find? fun entry => Word.spells letters entry.1 with
    | some (_, kind) => .keyword kind
    | none => .identifier

/-- The dialect of a given name, in any ASCII case. -/
def ofName? (s : String) : Option Dialect := all.find? fun d => Word.spells s.toList d.name

/-- The wording of the error for a name that no dialect has. -/
def unknownMessage (s : String) : String :=
  s!"unknown dialect `{s}` (expected `standard` or `prose`)"

end Dialect

end DialectScript
