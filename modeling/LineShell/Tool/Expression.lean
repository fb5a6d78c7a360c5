/-
`expr`: expressions as arguments, each word a sign or an operand.

Signs bind in six strengths; what a sign needs not to know is read and
not worked out. A text that looks like an integer is one wherever a
number is asked for.
-/
import LineShell.Tool.Regular
import LineShell.Tool.Sort

namespace LineShell.Tool

open Posix

variable {ρ : Type}

namespace Expression

-- ================================================================== values

inductive Value where
  | number (n : Int)
  | text (b : Bytes)
  deriving DecidableEq, Repr, Inhabited

/-- Why words have no value. -/
inductive Fault where
  | missingAfter (word : Bytes)
  | unexpected (word : Bytes)
  | unexpectedClosing
  | unclosed (last : Bytes)
  | closedBy (word : Bytes)
  | notInteger
  | divisionByZero
  | regular (f : Regular.Fault)
  deriving DecidableEq, Repr

def Fault.text : Fault → Bytes
  | missingAfter w => Bytes.ofString "syntax error: missing argument after " ++ marked w
  | unexpected w => Bytes.ofString "syntax error: unexpected argument " ++ marked w
  | unexpectedClosing => Bytes.ofString "syntax error: unexpected ')'"
  | unclosed w => Bytes.ofString "syntax error: expecting ')' after " ++ marked w
  | closedBy w => Bytes.ofString "syntax error: expecting ')' instead of " ++ marked w
  | notInteger => Bytes.ofString "non-integer argument"
  | divisionByZero => Bytes.ofString "division by zero"
  | regular f => Bytes.ofString f.text

namespace Value

/-- How a value is written. -/
def toBytes : Value → Bytes
  | number n => decimalOf n
  | text b => b

/-- The integer that a value is or looks like. -/
def integer? : Value → Option Int
  | number n => some n
  | text (45 :: digits) => (decimal? digits).map fun n => -(n : Int)
  | text digits => (decimal? digits).map Int.ofNat

/-- Is the value empty or zero? -/
def isNull : Value → Bool
  | number n => n = 0
  | text b =>
      let digits := if b.head? = some 45 then b.drop 1 else b
      b.isEmpty || (!digits.isEmpty && digits.all (· = 48))

/-- A truth as a value. -/
def ofBool (b : Bool) : Value := .number (if b then 1 else 0)

end Value

-- ================================================================== reader

/-- A reader of words, which remembers the latest one read. -/
abbrev Reader := StateT (Bytes × List Bytes) (Except Fault)

/-- Takes the next word if it is one of some signs. -/
def sign? (signs : List String) : Reader (Option String) := do
  match (← get).2 with
  | word :: rest =>
      match signs.find? fun s => Bytes.ofString s = word with
      | some s => do
          set (word, rest)
          pure (some s)
      | none => pure none
  | [] => pure none

/-- Takes the next word, which has to be there. -/
def operand : Reader Bytes := do
  match ← get with
  | (_, word :: rest) => do
      set (word, rest)
      pure word
  | (last, []) => throw (.missingAfter last)

/-- What a text comes to when it is matched: what the first group did, or
how many bytes. -/
def matchValue (text pattern : Value) : Except Fault Value := do
  let source := pattern.toBytes
  match Regular.read source with
  | .error f => throw (.regular f)
  | .ok (r, groups) =>
      match Regular.longest? r source.length text.toBytes with
      | some p =>
          pure (if groups = 0 then .number p.matched else .text ((p.groups.lookup 1).getD []))
      | none => pure (if groups = 0 then .number 0 else .text [])

/-- Does a sign hold between two values? -/
def compare (sign : String) (a b : Value) : Bool :=
  let order : Ordering :=
    match a.integer?, b.integer? with
    | some x, some y => Ord.compare x y
    | _, _ => compareBytes a.toBytes b.toBytes
  match sign with
  | "<" => order = .lt
  | "<=" => order ≠ .gt
  | "=" | "==" => order = .eq
  | "!=" => order ≠ .eq
  | ">=" => order ≠ .lt
  | _ => order = .gt

/-- The value of two integers under a sign. -/
def calculate (sign : String) (a b : Value) : Except Fault Value :=
  match a.integer?, b.integer? with
  | some x, some y =>
      match sign with
      | "+" => .ok (.number (x + y))
      | "-" => .ok (.number (x - y))
      | "*" => .ok (.number (x * y))
      | "/" => if y = 0 then .error .divisionByZero else .ok (.number (x.tdiv y))
      | _ => if y = 0 then .error .divisionByZero else .ok (.number (x.tmod y))
  | _, _ => .error .notInteger

/-- A part of a text by its place and length. -/
def part (text place length : Value) : Value :=
  match place.integer?, length.integer? with
  | some p, some n =>
      if p ≤ 0 || n ≤ 0 then .text [] else .text ((text.toBytes.drop (p.toNat - 1)).take n.toNat)
  | _, _ => .text []

/-- The place of the first byte of a text that is in a set, or 0. -/
def firstOf (text set : Value) : Value :=
  match text.toBytes.findIdx? (set.toBytes.contains ·) with
  | some i => .number (i + 1)
  | none => .number 0

/-- The signs of each strength, the weakest first. -/
def levels : List (List String) :=
  [["|"], ["&"], ["<", "<=", "=", "==", "!=", ">=", ">"], ["+", "-"], ["*", "/", "%"], [":"]]

/-- The value of two operands under a sign. `live` says whether it is
asked for. -/
def combine (live : Bool) (sign : String) (a b : Value) : Except Fault Value :=
  match sign with
  | "|" => .ok (if !a.isNull then a else if b.isNull then .number 0 else b)
  | "&" => .ok (if a.isNull || b.isNull then .number 0 else a)
  | _ =>
      if !live then .ok a
      else if sign = ":" then matchValue a b
      else if (["+", "-", "*", "/", "%"]).contains sign then calculate sign a b
      else .ok (.ofBool (compare sign a b))

mutual

/-- An expression of some strength. -/
def level : Nat → Bool → List (List String) → Reader Value
  | 0, _, _ => throw .notInteger
  | n + 1, live, [] => single n live
  | n + 1, live, signs :: stronger => do
      chain n live signs stronger (← level n live stronger)

/-- What follows an operand: signs of one strength with an operand each. -/
def chain : Nat → Bool → List String → List (List String) → Value → Reader Value
  | 0, _, _, _, a => pure a
  | n + 1, live, signs, stronger, a => do
      match ← sign? signs with
      | none => pure a
      | some sign => do
          let wanted :=
            live && (if sign = "|" then a.isNull else if sign = "&" then !a.isNull else true)
          let b ← level n wanted stronger
          chain n live signs stronger (← combine live sign a b)

/-- An operand: a word, an expression in parentheses, or a name of a
function with what it takes. -/
def single : Nat → Bool → Reader Value
  | 0, _ => throw .notInteger
  | n + 1, live => do
      match ← sign? ["+", "length", "match", "index", "substr", "("] with
      | some "+" => pure (.text (← operand))
      | some "length" => pure (.number (← single n live).toBytes.length)
      | some "match" => do
          let a ← single n live
          let b ← single n live
          if live then matchValue a b else pure a
      | some "index" => do
          let a ← single n live
          pure (firstOf a (← single n live))
      | some "substr" => do
          let a ← single n live
          let p ← single n live
          pure (part a p (← single n live))
      | some _ => do
          let a ← level n live levels
          match ← get with
          | (last, []) => throw (.unclosed last)
          | (_, [41] :: rest) => do
              set (([41] : Bytes), rest)
              pure a
          | (_, word :: _) => throw (.closedBy word)
      | none => do
          let word ← operand
          if word = [41] then throw .unexpectedClosing
          pure (.text word)

end

/-- The value of words. -/
def value (words : List Bytes) : Except Fault Value := do
  let (v, _, rest) ← (level (8 * words.length + 16) true levels).run ([], words)
  match rest with
  | [] => pure v
  | word :: _ => throw (.unexpected word)

end Expression

/-- The statuses of `expr` for faults in the words, and where what it
prints cannot be written. -/
def expressionFault : Int := 2
def expressionTrouble : Int := 3

def exprTool : Body ρ := fun args => do
  let words := if args.head? = some [45, 45] then args.drop 1 else args
  if words.isEmpty then Job.missingOperand expressionFault
  match Expression.value words with
  | .error e => Job.die e.text expressionFault
  | .ok v => do
      Job.say (v.toBytes ++ [10])
      pure (if v.isNull then failure else 0)

end LineShell.Tool
