/-
Tokens of a command line: words, five control operators, seven
redirection operators, and the end of the line, which counts as a token
so that a syntax error can name it.
-/
import LineShell.Text.Quoted

namespace LineShell

/-- Which stream a redirection replaces, and how the file is opened. -/
inductive RedirectOp where
  | input
  | output
  | append
  | error
  | errorAppend
  | both
  | bothAppend
  deriving DecidableEq, Repr, Inhabited

inductive Token where
  | word (text : String)
  | pipe
  | or
  | and
  | background
  | semi
  | redirect (op : RedirectOp)
  | eof
  deriving DecidableEq, Repr, Inhabited

namespace RedirectOp

/-- The name by which answers and messages call the operator. -/
def name : RedirectOp → String
  | input => "Input"
  | output => "Output"
  | append => "Append"
  | error => "Error"
  | errorAppend => "ErrorAppend"
  | both => "Both"
  | bothAppend => "BothAppend"

end RedirectOp

namespace Token

/-- How a message names the token. -/
def name : Token → String
  | word text => "Word(" ++ Text.quoted text ++ ")"
  | pipe => "Pipe"
  | or => "Or"
  | and => "And"
  | background => "Background"
  | semi => "Semi"
  | redirect op => "Redirect(" ++ op.name ++ ")"
  | eof => "EOF"

/-- Does the token separate commands? -/
def isControl : Token → Bool
  | pipe | or | and | background | semi => true
  | word _ | redirect _ | eof => false

end Token

/-- Why a line has no command tree. -/
inductive SyntaxError where
  /-- A quote of this kind is never closed. -/
  | unterminated (quote : Char)
  | expectedCommand (found : Token)
  | expectedFilename
  | unexpected (found : Token)
  deriving DecidableEq, Repr, Inhabited

namespace SyntaxError

/-- The wording of a syntax error. -/
def message : SyntaxError → String
  | unterminated quote => "unterminated " ++ String.singleton quote ++ " quote"
  | expectedCommand found => "expected command, found " ++ found.name
  | expectedFilename => "expected filename after redirection operator"
  | unexpected found => "unexpected token " ++ found.name

end SyntaxError

end LineShell
