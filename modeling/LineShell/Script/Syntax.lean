/-
Scripts: the words and statements of the standard shell's language.

A word is a list of pieces, each marked with whether it stood in quotes,
since only what did not is split into fields and matched against file
names later. A script whose output is wanted, between `$(` and `)`, is a
statement inside a word, so that words and statements are one family of
types.
-/
import LineShell.Text.Utf8

namespace LineShell.Script

-- =========================================================== redirections

/-- What a redirection does with its descriptor. -/
inductive Direction where
  | read
  /-- `clobber`: even where files are not to be overwritten. -/
  | write (clobber : Bool)
  | append
  | readWrite
  /-- Another descriptor, or none for `-`. -/
  | copy
  /-- The text of a document that follows the line, by its number. -/
  | document (number : Nat)
  deriving DecidableEq, Repr

/-- A redirection, with the word that it names its target by. -/
structure Diversion (Word : Type) where
  fd : Nat
  direction : Direction
  target : Word

-- ================================================================= syntax

/-- What a text in a parameter's braces is for. -/
inductive Rule where
  /-- It stands in for a value that is missing. -/
  | orElse
  /-- It stands in for a value that is there. -/
  | instead
  /-- It becomes the value if that is missing. -/
  | assign
  /-- It says what is wrong if the value is missing. -/
  | require
  deriving DecidableEq, Repr

mutual

inductive Piece where
  | text (bytes : Bytes) (quoted : Bool)
  /-- A pair of quotes, which makes a field of nothing. -/
  | quotes
  | parameter (name : Bytes) (use : Use) (quoted : Bool)
  /-- What a script prints. -/
  | output (body : Statement) (quoted : Bool)
  /-- The value of an expression. -/
  | arithmetic (expression : List Piece) (quoted : Bool)

/-- What is made of a parameter. -/
inductive Use where
  | value
  | length
  /-- A rule with its text; `emptyToo`: an empty value counts as missing. -/
  | replaced (rule : Rule) (emptyToo : Bool) (word : List Piece)
  /-- The value without what fits a pattern at one end. -/
  | trimmed (atEnd longest : Bool) (pattern : List Piece)
  | bad

inductive Statement where
  | nothing
  | simple (line : Nat) (assignments : List (Bytes × List Piece)) (words : List (List Piece))
      (diversions : List (Diversion (List Piece)))
  | pipeline (parts : List Statement)
  | andThen (left right : Statement)
  | orElse (left right : Statement)
  | negation (body : Statement)
  | sequence (left right : Statement)
  | background (line : Nat) (body : Statement)
  | subshell (line : Nat) (body : Statement) (diversions : List (Diversion (List Piece)))
  | diverted (line : Nat) (body : Statement) (diversions : List (Diversion (List Piece)))
  | conditional (test yes no : Statement)
  /-- Repeat while the test comes out as given. -/
  | loop (expected : Bool) (test body : Statement)
  | forEach (line : Nat) (name : Bytes) (words : List (List Piece)) (body : Statement)
  /-- The first branch with a pattern that the subject fits. -/
  | choice (line : Nat) (subject : List Piece) (branches : List (List (List Piece) × Statement))
  | definition (name : Bytes) (body : Statement)

end

abbrev Word := List Piece

instance : Inhabited Piece := ⟨.quotes⟩
instance : Inhabited Statement := ⟨.nothing⟩

/-- The letters of a word that is plain text without quotes. -/
def bare? (word : Word) : Option Bytes :=
  let letters : Piece → Option Bytes
    | .text b false => some b
    | _ => none
  (word.mapM letters).map List.flatten

/-- Does the word have quotes of any kind? -/
def isQuoted (word : Word) : Bool :=
  word.any fun
    | .text _ quoted => quoted
    | .quotes => true
    | _ => false

-- ================================================================== names

/-- Can the byte start a name? -/
def startsName (b : UInt8) : Bool := (Char.ofNat b.toNat).isAlpha && b < 128 || b = 95

/-- Can the byte go on in a name? -/
def continuesName (b : UInt8) : Bool := startsName b || (48 ≤ b && b ≤ 57)

/-- Is the text a name? -/
def isName : Bytes → Bool
  | b :: rest => startsName b && rest.all continuesName
  | [] => false

/-- Parameters with a name of one sign that is no digit. -/
def isSpecial (b : UInt8) : Bool := ([63, 36, 35, 64, 42, 33, 45] : Bytes).contains b

/-- Is the byte a decimal digit? -/
def isDigit (b : UInt8) : Bool := 48 ≤ b && b ≤ 57

/-- The name and the value of a word that is an assignment. -/
def assignment? : Word → Option (Bytes × Word)
  | .text b false :: rest =>
      let name := b.takeWhile (· ≠ 61)
      if isName name && name.length < b.length then
        some (name, .text (b.drop (name.length + 1)) false :: rest)
      else none
  | _ => none

/-- The builtins that a function cannot replace, and whose failure ends a
script. -/
def specialBuiltins : List String :=
  [":", ".", "break", "continue", "eval", "exec", "exit", "export", "local", "readonly", "return",
   "set", "shift", "times", "trap", "unset"]

/-- The words that are no commands where a statement could start. -/
def keywords : List String :=
  ["!", "case", "do", "done", "elif", "else", "esac", "fi", "for", "if", "in", "then", "until",
   "while", "\x7b", "\x7d"]

/-- The statement for two in turn, the first possibly missing. -/
def Statement.after (first : Option Statement) (second : Statement) : Statement :=
  match first with
  | some s => .sequence s second
  | none => second

end LineShell.Script
