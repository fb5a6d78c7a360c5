/-
Parsing: from the tokens of a line to a command tree.

Four levels of operators, each joining the level below it from the left:
`;` loosest, then `&`, then `&&` and `||` together, then `|`. A `;` may
also end the line. A simple command is words and redirections in any
order, at least one of either; of several redirections of one stream the
last counts.

The reader stands at a token and has the rest of the scan before it
(`Parser`). It can be asked for a command again after it has given one
or failed, and goes on from where it stands: a failed scan leaves the
token where it was, and reading past the end gives `eof` for ever.
-/
import LineShell.Token.Scan
import LineShell.Command

namespace LineShell

open Token (Scan)

/-- A reader of commands: the token it stands at, and what comes after
it. -/
structure Parser where
  current : Token
  ahead : Scan
  deriving DecidableEq, Repr, Inhabited

namespace Parser

/-- Reading that may fail; the reader stays usable either way. -/
abbrev Read := EStateM SyntaxError Parser

/-- Goes on to the next token. -/
def advance : Read Unit := fun p =>
  match p.ahead.tokens, p.ahead.failure with
  | t :: ts, _ => .ok () { p with current := t, ahead := { p.ahead with tokens := ts } }
  | [], some e => .error e { p with ahead := { p.ahead with failure := none } }
  | [], none => .ok () { p with current := .eof }

/-- The token at which the reader stands. -/
def token : Read Token := fun p => .ok p.current p

/-- A reader at the first token of a line. -/
def ofLine (line : String) : Except SyntaxError Parser :=
  match advance ⟨.eof, Scan.ofLine line⟩ with
  | .ok () p => .ok p
  | .error e _ => .error e

/-- A bound on the rounds of any loop over tokens: the tokens ahead, and
one round that finds none. -/
def rounds (p : Parser) : Nat := p.ahead.tokens.length + 2

-- ====================================================== simple commands

/-- The operator's effect on a command, given its file name. -/
def applyRedirect (c : Command) : RedirectOp × String → Command
  | (.input, path) => { c with input := some path }
  | (.output, path) => { c with output := some ⟨path, false⟩ }
  | (.append, path) => { c with output := some ⟨path, true⟩ }
  | (.error, path) => { c with error := some ⟨path, false⟩ }
  | (.errorAppend, path) => { c with error := some ⟨path, true⟩ }
  | (.both, path) => { c with output := some ⟨path, false⟩, error := some ⟨path, false⟩ }
  | (.bothAppend, path) => { c with output := some ⟨path, true⟩, error := some ⟨path, true⟩ }

/-- The file name after a redirection operator. -/
def filename : Read String := do
  advance
  match ← token with
  | .word path => advance; pure path
  | _ => throw .expectedFilename

/-- Words and redirections, each in their order, up to a token that is
neither. -/
def items : Nat → Read (List String × List (RedirectOp × String))
  | 0 => pure ([], [])
  | n + 1 => do
      match ← token with
      | .word w =>
          advance
          let (words, redirects) ← items n
          pure (w :: words, redirects)
      | .redirect op =>
          let path ← filename
          let (words, redirects) ← items n
          pure (words, (op, path) :: redirects)
      | _ => pure ([], [])

/-- One simple command. -/
def simple : Read Command := do
  let (words, redirects) ← items (← get).rounds
  if words.isEmpty && redirects.isEmpty then
    throw (.expectedCommand (← token))
  else
    pure (redirects.foldl applyRedirect (.ofWords words))

-- ============================================================ operators

/-- Joins operands from the left for as long as one of the level's
operators follows. -/
def chain (operator : Token → Option Operator) (operand : Read Tree) : Nat → Tree → Read Tree
  | 0, tree => pure tree
  | n + 1, tree => do
      match operator (← token) with
      | none => pure tree
      | some op =>
          advance
          let right ← operand
          chain operator operand n (.node op tree right)

/-- One level of operators over the level below it. -/
def level (operator : Token → Option Operator) (operand : Read Tree) : Read Tree := do
  let first ← operand
  chain operator operand (← get).rounds first

/-- Commands joined by `|`. -/
def pipeline : Read Tree :=
  level (fun | .pipe => some .pipe | _ => none) (Tree.leaf <$> simple)

/-- Pipelines joined by `&&` and `||`. -/
def conditional : Read Tree :=
  level (fun | .and => some .andThen | .or => some .orElse | _ => none) pipeline

/-- Conditionals joined by `&`. -/
def parallel : Read Tree :=
  level (fun | .background => some .parallel | _ => none) conditional

/-- What follows the first operand of `;`; a `;` with nothing after it
ends the line. -/
def sequence : Nat → Tree → Read Tree
  | 0, tree => pure tree
  | n + 1, tree => do
      if (← token) = .semi then
        advance
        if (← token) = .eof then pure tree
        else
          let right ← parallel
          sequence n (.node .sequential tree right)
      else pure tree

/-- The command that starts at the current token, up to the end of the
line; none at the end of the line. -/
def command : Read (Option Tree) := do
  if (← token) = .eof then pure none
  else
    let first ← parallel
    let tree ← sequence (← get).rounds first
    match ← token with
    | .eof => pure (some tree)
    | t => throw (.unexpected t)

end Parser

/-- The command tree of a line; none for a blank line. -/
def Tree.parse (line : String) : Except SyntaxError (Option Tree) :=
  match Parser.ofLine line with
  | .error e => .error e
  | .ok p =>
      match Parser.command p with
      | .ok tree _ => .ok tree
      | .error e _ => .error e

end LineShell
