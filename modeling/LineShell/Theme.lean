/-
The prompt and its colours.

A prompt shows the working directory and a `$` whose colour tells
whether the last command line failed. Colour is a pair of escape
sequences around a text; where the text already holds the sequence that
ends colours, the colour is started again after it.
-/

namespace LineShell

/-- The foreground colours in use, by their code. -/
inductive Colour where
  | brightCyan
  | brightGreen
  | red
  deriving DecidableEq, Repr

namespace Colour

/-- The select-graphic-rendition parameter. -/
def code : Colour → String
  | brightCyan => "96"
  | brightGreen => "92"
  | red => "31"

/-- The sequence that starts the colour. -/
def start (c : Colour) : String := "\x1b[" ++ c.code ++ "m"

/-- The sequence that ends every colour. -/
def stop : String := "\x1b[0m"

/-- Writes `again` after each `stop` in a text. -/
def resume (again : List Char) : List Char → List Char
  | '\x1b' :: '[' :: '0' :: 'm' :: rest => '\x1b' :: '[' :: '0' :: 'm' :: again ++ resume again rest
  | c :: rest => c :: resume again rest
  | [] => []

/-- A text in a colour. -/
def paint (c : Colour) (text : String) : String :=
  c.start ++ String.ofList (resume c.start.toList text.toList) ++ stop

end Colour

/-- How a prompt is coloured: not at all, or by the default colours. -/
inductive Theme where
  | plain
  | coloured
  deriving DecidableEq, Repr, Inhabited

namespace Theme

/-- The theme of a name; every name but one is the default theme. -/
def named (name : String) : Theme := if name = "plain" then plain else coloured

/-- Paints where the theme and the terminal allow it. -/
def style (theme : Theme) (colour : Bool) (c : Colour) (text : String) : String :=
  if theme = coloured && colour then c.paint text else text

/-- The prompt for a working directory and the status of the last line. -/
def prompt (theme : Theme) (colour : Bool) (cwd : String) (status : Int) : String :=
  theme.style colour .brightCyan ("minish:" ++ cwd) ++
    theme.style colour (if status = 0 then .brightGreen else .red) "$" ++ " "

end Theme

end LineShell
