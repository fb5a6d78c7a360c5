/-
Expanding a script's words.

The pieces of a word become items: bytes, each marked with whether it may
stand for more than itself and whether it can end a field, marks of
quotes, and borders between arguments. Items make fields: what came from
an expansion outside quotes is split at separators, and blanks among
those never make an empty field. A field with an unquoted `*`, `?` or `[`
stands for the names of files that fit it, if there are any.
-/
import LineShell.Script.Arithmetic
import LineShell.Script.Pattern

namespace LineShell.Script

open Posix

variable {ρ : Type}

-- ================================================================== items

inductive Item where
  /-- `literal`: it is no pattern; `divides`: it may separate fields. -/
  | byte (b : UInt8) (literal divides : Bool)
  /-- Quotes, which make a field even of nothing. -/
  | quotes
  /-- The end of one argument before the next. -/
  | border
  deriving DecidableEq, Repr

/-- A value as items. -/
def itemsOf (quoted : Bool) (value : Bytes) : List Item := value.map (.byte · quoted (!quoted))

/-- Items outside quotes from a text within an expansion can be split. -/
def Item.splitting : Item → Item
  | .byte b false _ => .byte b false true
  | item => item

/-- The bytes of items, with their marks. -/
def markedOf (items : List Item) : List Marked :=
  items.filterMap fun
    | .byte b literal _ => some (b, literal)
    | _ => none

-- ================================================================= fields

/-- Fields so far, the last one first; the open one has its last byte
first. -/
structure Fields where
  closed : List (List Marked) := []
  current : Option (List Marked) := none
  /-- Did a blank end the last field? A separator after it ends no other. -/
  afterBlank : Bool := false

namespace Fields

/-- Closes the open field. -/
def close (fs : Fields) : Fields :=
  match fs.current with
  | some field => { closed := field.reverse :: fs.closed }
  | none => fs

/-- Takes one item. -/
def take (separators : Bytes) (fs : Fields) : Item → Fields
  | .quotes => { fs with current := some (fs.current.getD []), afterBlank := false }
  | .border => fs.close
  | .byte b literal divides =>
      if divides && separators.contains b then
        if defaultSeparators.contains b then
          if fs.current.isSome then { fs.close with afterBlank := true } else fs
        else if fs.current.isSome then fs.close
        else if fs.afterBlank then { fs with afterBlank := false }
        else { fs with closed := [] :: fs.closed }
      else { fs with current := some ((b, literal) :: fs.current.getD []), afterBlank := false }

/-- All fields in order. -/
def toList (fs : Fields) : List (List Marked) := fs.close.closed.reverse

end Fields

/-- The fields that items make. -/
def fieldsOf (separators : Bytes) (items : List Item) : List (List Marked) :=
  (items.foldl (Fields.take separators) {}).toList

-- ================================================================= tildes

/-- The home directory that a name after a tilde stands for. -/
def homeOf (f : Frame) (user : Bytes) : Option Bytes :=
  if user.isEmpty then f.text? "HOME"
  else if user = Bytes.ofString "root" then some (Bytes.ofString "/root")
  else none

/-- A text with the home directory in place of a tilde at its start.
`complete`: nothing follows the text in its word. -/
def tildeIn (f : Frame) (text : Bytes) (complete : Bool) : Word :=
  match text with
  | 126 :: rest =>
      let user := rest.takeWhile (· ≠ 47)
      let after := rest.drop user.length
      match if after.isEmpty && !complete then none else homeOf f user with
      | some home => [.text home true, .text after false]
      | none => [.text text false]
  | _ => [.text text false]

/-- Texts with colons between them, each with its tilde expanded. -/
def tildesIn (f : Frame) (complete : Bool) : List Bytes → Word
  | [] => []
  | [last] => tildeIn f last complete
  | text :: rest => tildeIn f text true ++ .text [58] false :: tildesIn f complete rest

/-- A word with home directories in place of tildes: at its start, and in
the value of an assignment also after a colon. -/
def expandTildes (f : Frame) (isValue : Bool) (w : Word) : Word :=
  match w with
  | .text text false :: rest =>
      (if isValue then tildesIn f rest.isEmpty (text.splitOnP (· == 58))
      else tildeIn f text rest.isEmpty) ++ rest
  | _ => w

-- ============================================================== expansion

/-- How the output of a script within a word is had. -/
abbrev Capture (ρ : Type) := Statement → Act ρ Bytes

/-- Output without the line ends after it, and without NULs. -/
def asText (printed : Bytes) : Bytes :=
  (((printed.filter (· ≠ 0)).reverse.dropWhile (· = 10)).reverse)

/-- Is the parameter that of all arguments? -/
def isAll (name : Bytes) : Bool := name = [64] || name = [42]

/-- The items of a parameter's value. Where fields are made, arguments
stay apart, unless quotes join them. -/
def parameterItems (f : Frame) (apart quoted : Bool) (name : Bytes) : List Item :=
  if isAll name && apart && !(name = [42] && quoted) then
    let one (arg : Bytes) : List Item := (if quoted then [.quotes] else []) ++ itemsOf quoted arg
    ((f.args.map one).intersperse [.border]).flatten
  else itemsOf quoted ((f.value? name).getD [])

/-- The value of a parameter that has to have one if the script says so. -/
def needed (name : Bytes) : Act ρ Bytes := do
  let f ← get
  match f.value? name with
  | some value => pure value
  | none => if f.has 'u' && !isAll name then failOf name "parameter not set" else pure []

/-- The items of a piece, so many nested texts deep. `apart`: fields are
made of them. -/
def expandPiece (capture : Capture ρ) : Nat → Bool → Piece → Act ρ (List Item)
  | 0, _, _ => pure []
  | n + 1, apart, p => do
      let inside (apart : Bool) (w : Word) : Act ρ (List Item) := do
        let w := expandTildes (← get) false w
        pure (← w.mapM (expandPiece capture n apart)).flatten
      match p with
      | .text b quoted => pure (b.map (.byte · quoted false))
      | .quotes => pure [.quotes]
      | .output body quoted => pure (itemsOf quoted (asText (← capture body)))
      | .arithmetic e quoted => do
          let value ← Arithmetic.evaluate (plainly (markedOf (← inside false e)))
          pure (itemsOf quoted (Bytes.ofString (toString value)))
      | .parameter name use quoted =>
          match use with
          | .value => do
              let _ ← needed name
              pure (parameterItems (← get) apart quoted name)
          | .length => do
              let value ← needed name
              pure (itemsOf quoted (Bytes.ofString (toString value.length)))
          | .trimmed atEnd longest pattern => do
              let value ← needed name
              let pattern ← inside false pattern
              pure (itemsOf quoted (trim atEnd longest (markedOf pattern) value))
          | .bad => fail (Bytes.ofString "Bad substitution")
          | .replaced rule emptyToo w => do
              let value := (← get).value? name
              let missing := value.isNone || (emptyToo && value = some [])
              match rule, missing with
              | .orElse, true | .instead, false => do
                  pure ((← inside apart w).map fun i => if quoted then i else i.splitting)
              | .orElse, false | .assign, false | .require, false =>
                  pure (parameterItems (← get) apart quoted name)
              | .instead, true => pure []
              | .assign, true => do
                  let text := plainly (markedOf (← inside false w))
                  if !isName name then failOf name "bad variable name"
                  setVariable name text
                  pure (itemsOf quoted text)
              | .require, true => do
                  let text := plainly (markedOf (← inside false w))
                  if w.isEmpty then
                    failOf name ("parameter not set" ++ if emptyToo then " or null" else "")
                  else fail (name ++ Bytes.ofString ": " ++ text)

/-- How deep texts in braces are read. -/
def nesting : Nat := 64

/-- The items of a word. -/
def expandItems (capture : Capture ρ) (apart : Bool) (w : Word) : Act ρ (List Item) := do
  pure (← w.mapM (expandPiece capture nesting apart)).flatten

/-- The arguments that a word stands for. -/
def expandWord (capture : Capture ρ) (w : Word) : Act ρ (List Bytes) := do
  let items ← expandItems capture true (expandTildes (← get) false w)
  let f ← get
  let fields := fieldsOf f.separators items
  if f.has 'f' then pure (fields.map plainly)
  else
    let v ← (Task.view id : Task ρ View)
    pure (fields.flatMap (matchNames v))

/-- The arguments that words stand for. -/
def expandWords (capture : Capture ρ) (words : List Word) : Act ρ (List Bytes) := do
  pure (← words.mapM (expandWord capture)).flatten

/-- The text that a word stands for where no fields are made. -/
def expandText (capture : Capture ρ) (w : Word) : Act ρ Bytes := do
  let items ← expandItems capture false (expandTildes (← get) false w)
  pure (plainly (markedOf items))

/-- The value that a word gives a variable. -/
def expandValue (capture : Capture ρ) (w : Word) : Act ρ Bytes := do
  let items ← expandItems capture false (expandTildes (← get) true w)
  pure (plainly (markedOf items))

/-- The pattern that a word stands for. -/
def expandPattern (capture : Capture ρ) (w : Word) : Act ρ (List Marked) := do
  pure (markedOf (← expandItems capture false (expandTildes (← get) false w)))

end LineShell.Script
