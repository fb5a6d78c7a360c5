/-
Commands and trees of commands.

A command is a verb, its words (the verb as a rule the first of them) and
at most one redirection per standard stream. A tree joins commands by
five binary operators. A position names a subtree by the way to it from
the root.
-/

namespace LineShell

/-- A file that an output stream goes to, emptied first or added to. -/
structure Redirect where
  path : String
  append : Bool
  deriving DecidableEq, Repr, Inhabited

structure Command where
  verb : String
  argv : List String
  input : Option String := none
  output : Option Redirect := none
  error : Option Redirect := none
  deriving DecidableEq, Repr, Inhabited

namespace Command

/-- The command that a list of words spells. The verb is the first word,
empty where there is none. -/
def ofWords (words : List String) : Command :=
  { verb := words.head?.getD "", argv := words }

/-- The words after the first. -/
def params (c : Command) : List String := c.argv.drop 1

/-- Do output and error name one path? The file is then opened once. -/
def sharesOutputAndError (c : Command) : Bool :=
  match c.output, c.error with
  | some out, some err => out.path == err.path
  | _, _ => false

end Command

inductive Operator where
  | sequential
  | parallel
  | andThen
  | orElse
  | pipe
  deriving DecidableEq, Repr, Inhabited

/-- The operator as it is written. -/
def Operator.symbol : Operator → String
  | sequential => ";"
  | parallel => "&"
  | andThen => "&&"
  | orElse => "||"
  | pipe => "|"

inductive Tree where
  | leaf (command : Command)
  | node (op : Operator) (left right : Tree)
  deriving DecidableEq, Repr, Inhabited

/-- What the log calls a tree. -/
def Tree.label : Tree → String
  | leaf c => "leaf `" ++ c.verb ++ "`"
  | node op _ _ => "op `" ++ op.symbol ++ "`"

inductive Side where
  | left
  | right
  deriving DecidableEq, Repr, Inhabited

/-- The way down to a subtree, from the root on. -/
abbrev Position := List Side

/-- The subtree at a position. -/
def Tree.sub? : Tree → Position → Option Tree
  | t, [] => some t
  | leaf _, _ :: _ => none
  | node _ l _, .left :: q => l.sub? q
  | node _ _ r, .right :: q => r.sub? q

/-- The operator at a position, if it is that of a node. -/
def Tree.op? (t : Tree) (q : Position) : Option Operator :=
  match t.sub? q with
  | some (node op _ _) => some op
  | _ => none

end LineShell
