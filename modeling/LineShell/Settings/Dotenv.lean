/-
Files of settings: lines `NAME=value`, read into an environment.

A line may start with `export`, and `#` begins a comment where a value
could begin or after blanks behind one. A value is a sequence of bare
text, text in single quotes, which stands for itself, and text in double
quotes; outside single quotes a backslash protects a few characters and
`$NAME` or `$` with a name in braces stands for a value, from the
environment if the variable is set there, else from the lines above. In
braces the name may hold an equals sign, and then stands for the end of a
value.

A variable that is already set keeps its value. Reading stops at the
first line that does not fit, and what came before it stays.
-/
import LineShell.Text.Alphanumeric
import LineShell.Text.Blank
import LineShell.Environment

namespace LineShell.Dotenv

-- ================================================================ values

/-- How far the reader of a value has come with a reference to another
variable. -/
inductive Reference where
  | none
  /-- After `$`, with the name read so far, the last character first. -/
  | pending (name : List Char)
  /-- After `$` and a brace, likewise. -/
  | inBraces (name : List Char)

/-- Where the reader of a value stands. -/
structure Reader where
  single : Bool := false
  double : Bool := false
  escaped : Bool := false
  /-- A blank was read outside quotes: only a comment may follow. -/
  ended : Bool := false
  reference : Reference := .none
  /-- The value so far, the last character first. -/
  output : List Char := []

/-- What names refer to. -/
abbrev Lookup := String → String

def Reader.substitute (value : Lookup) (name : List Char) (r : Reader) : Reader :=
  { r with
    output := (value (String.ofList name.reverse)).toList.reverse ++ r.output
    reference := .none }

/-- Reads one character outside references. -/
def Reader.plain (r : Reader) (c : Char) : Reader :=
  if c = '$' then { r with reference := .pending [] }
  else if r.double then
    if c = '"' then { r with double := false }
    else if c = '\\' then { r with escaped := true }
    else { r with output := c :: r.output }
  else if c = '\x27' then { r with single := true }
  else if c = '"' then { r with double := true }
  else if c = '\\' then { r with escaped := true }
  else if c = ' ' || c = '\t' then { r with ended := true }
  else { r with output := c :: r.output }

/-- Reads one character; `none` where it does not fit. -/
def Reader.step (value : Lookup) (r : Reader) (c : Char) : Option Reader :=
  if r.escaped then
    if c = '\\' || c = '\x27' || c = '"' || c = '$' || c = ' ' then
      some { r with escaped := false, output := c :: r.output }
    else if c = 'n' then some { r with escaped := false, output := '\n' :: r.output }
    else none
  else if r.single then
    if c = '\x27' then some { r with single := false }
    else some { r with output := c :: r.output }
  else
    match r.reference with
    | .none => some (r.plain c)
    | .pending name =>
        if Text.isAlphanumeric c then some { r with reference := .pending (c :: name) }
        else if c = '\x7b' && name.isEmpty then some { r with reference := .inBraces [] }
        else
          let r := r.substitute value name
          if c = '$' then some { r with reference := .pending [] }
          else some { r with output := c :: r.output }
    | .inBraces name =>
        if c = '\x7d' then some (r.substitute value name)
        else some { r with reference := .inBraces (c :: name) }

/-- The value that the rest of a line spells. -/
def readValue (value : Lookup) : List Char → Reader → Option String
  | [], r =>
      if r.single || r.double then none
      else
        match r.reference with
        | .none => some (String.ofList r.output.reverse)
        | .pending name => some (String.ofList (r.substitute value name).output.reverse)
        | .inBraces _ => none
  | c :: cs, r =>
      if r.ended then
        if c = ' ' || c = '\t' then readValue value cs r
        else if c = '#' then readValue value [] r
        else none
      else (r.step value c).bind (readValue value cs)

-- ================================================================= lines

/-- A name at the start of a text, and what follows it. -/
def takeKey (cs : List Char) : Option (String × List Char) :=
  let isKeyChar (c : Char) := c.isAlphanum || c = '_' || c = '.'
  match cs with
  | c :: _ =>
      if c.isAlpha || c = '_' then
        some (String.ofList (cs.takeWhile isKeyChar), Text.skipBlank (cs.dropWhile isKeyChar))
      else none
  | [] => none

/-- What follows an equals sign. -/
def afterEquals : List Char → Option (List Char)
  | '=' :: cs => some (Text.skipBlank cs)
  | _ => none

/-- The name on a line, and the text of its value. The word `export` may
stand before the name, or be the name. -/
def splitLine (cs : List Char) : Option (String × List Char) := do
  let (key, rest) ← takeKey cs
  match key, afterEquals rest with
  | _, some text => pure (key, text)
  | "export", none =>
      let (key, rest) ← takeKey rest
      let text ← afterEquals rest
      pure (key, text)
  | _, none => none

/-- What a line says: nothing, a variable with its value, or (`none`)
something that does not fit. -/
def parseLine (value : Lookup) (line : String) : Option (Option (String × Option String)) := do
  let trimmed := (line.toList.reverse.dropWhile Text.isBlank).reverse
  let cs := Text.skipBlank trimmed
  if cs.isEmpty || cs.head? = some '#' then return none
  let (key, text) ← splitLine cs
  if text.isEmpty || text.head? = some '#' then return some (key, none)
  let value ← readValue value text {}
  return some (key, some value)

/-- Reads lines into an environment. `seen` holds what the lines above
said, whether or not it took effect. -/
def loadLines (env seen : Environment) : List (Option String) → Environment
  | [] => env
  | none :: _ => env
  | some line :: rest =>
      let value name := (env.spelled? name).getD ((seen.get? name).getD "")
      match parseLine value line with
      | none => env
      | some none => loadLines env seen rest
      | some (some (key, text)) =>
          let text := text.getD ""
          let env' := if (env.get? key).isSome then env else env.set key text
          loadLines env' (seen.set key text) rest

/-- Reads the lines of a file into an environment; a line that is no text
ends the reading. -/
def load (env : Environment) (lines : List (Option String)) : Environment :=
  loadLines env {} lines

end LineShell.Dotenv
