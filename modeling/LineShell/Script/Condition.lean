/-
`test` and `[` as scripts have them: an expression of words read by rising
strength of `-o`, `-a`, `!` and parentheses.

A word is a sign only where one makes sense: one for a single operand is
an operand itself if nothing or a sign for two follows it. What is left
over once the expression ends is an error.
-/
import LineShell.Tool.Condition
import LineShell.Script.Arithmetic

namespace LineShell.Script.Condition

open Posix Tool

-- ================================================================== signs

inductive Sign where
  | operand
  | unary (letter : Char)
  | binary (text : String)
  | or | and | not
  | opening | closing
  | finish
  deriving DecidableEq, Repr

/-- Signs between two operands. -/
def binarySigns : List String :=
  ["=", "!=", "<", ">", "-eq", "-ne", "-gt", "-ge", "-lt", "-le", "-nt", "-ot", "-ef"]

/-- The sign that a word can be. -/
def sign? (word : Bytes) : Option Sign :=
  match word with
  | [40] => some .opening
  | [41] => some .closing
  | [33] => some .not
  | [45, 97] => some .and
  | [45, 111] => some .or
  | _ =>
      match (binarySigns.find? fun s => Bytes.ofString s = word), word with
      | some s, _ => some (.binary s)
      | none, [45, b] =>
          let c := Char.ofNat b.toNat
          if "bcdefghknprstuwxzGLOS".toList.contains c then some (.unary c) else none
      | none, _ => none

/-- Is the word a sign between two operands? -/
def isBinary (word : Bytes) : Bool :=
  match sign? word with
  | some (.binary _) => true
  | _ => false

/-- What the first of some words is there. -/
def signAt : List Bytes → Sign
  | [] => .finish
  | word :: rest =>
      let asOperand : Bool :=
        match rest with
        | [] => true
        | [_] => false
        | next :: _ => isBinary next
      match sign? word with
      | none => .operand
      | some (.unary c) => if asOperand then .operand else .unary c
      | some .opening => if rest.isEmpty then .operand else .opening
      | some s => s

-- ============================================================ expressions

/-- A reader of words. It leaves the last word of what it read in place. -/
abbrev Reader := StateT (List Bytes) (Except Bytes)

/-- Refuses words, naming one of them. -/
def refuse {α : Type} (word : Bytes) (why : String) : Reader α :=
  throw (word ++ Bytes.ofString (": " ++ why))

/-- The number that a word is. -/
def number (word : Bytes) : Reader Int :=
  match spacedNumber? word with
  | some n => pure n
  | none => throw (Bytes.ofString "Illegal number: " ++ word)

/-- Two operands with a sign between them. -/
def binary (v : View) (sign : String) (a b : Bytes) : Reader Bool :=
  match numberCondition sign with
  | some holds => do
      let x ← number a
      let y ← number b
      pure (holds x y)
  | none =>
      match sign with
      | "<" => pure (decide (a < b))
      | ">" => pure (decide (b < a))
      | _ => pure ((pairCondition v sign a b).getD false)

/-- An operand after its sign. -/
def unary (v : View) (letter : Char) (word : Bytes) : Reader Bool :=
  match letter with
  | 'z' => pure word.isEmpty
  | 'n' => pure (!word.isEmpty)
  | 't' => do
      let _ ← number word
      pure false
  | c => pure ((fileCondition v c word).getD false)

mutual

/-- Conditions of which one has to hold, the first one being of a kind. -/
def disjunction (v : View) : Nat → Sign → Reader Bool
  | 0, _ => pure false
  | n + 1, s => do
      let a ← conjunction v n s
      let words ← get
      if signAt (words.drop 1) = .or then
        set (words.drop 2)
        pure ((← disjunction v n (signAt (words.drop 2))) || a)
      else pure a

/-- Conditions that all have to hold. -/
def conjunction (v : View) : Nat → Sign → Reader Bool
  | 0, _ => pure false
  | n + 1, s => do
      let a ← negation v n s
      let words ← get
      if signAt (words.drop 1) = .and then
        set (words.drop 2)
        pure ((← conjunction v n (signAt (words.drop 2))) && a)
      else pure a

/-- A condition, possibly negated. -/
def negation (v : View) : Nat → Sign → Reader Bool
  | 0, _ => pure false
  | n + 1, s => do
      if s = .not then
        let words ← get
        let next := signAt (words.drop 1)
        if next ≠ .finish then set (words.drop 1)
        pure !(← negation v n next)
      else primary v n s

/-- A single condition. -/
def primary (v : View) : Nat → Sign → Reader Bool
  | 0, _ => pure false
  | n + 1, s => do
      let words ← get
      match s, words with
      | .finish, _ | _, [] => pure false
      | .opening, _ => do
          set (words.drop 1)
          let next := signAt (words.drop 1)
          if next = .closing then pure false
          else
            let a ← disjunction v n next
            let rest := (← get).drop 1
            set rest
            if signAt rest = .closing then pure a
            else throw (Bytes.ofString "closing paren expected")
      | .unary c, sign :: rest =>
          match rest with
          | [] => refuse sign "argument expected"
          | word :: _ => do
              set rest
              unary v c word
      | _, a :: rest =>
          match signAt rest, rest with
          | .binary sign, text :: rest =>
              match rest with
              | [] => refuse text "argument expected"
              | b :: _ => do
                  set rest
                  binary v sign a b
          | _, _ => pure (!a.isEmpty)

end

/-- Does the condition hold? The error says why it is none. -/
def holds (v : View) : Nat → List Bytes → Except Bytes Bool
  | 0, _ | _, [] => pure false
  | n + 1, words => do
      let evaluate (words : List Bytes) (s : Sign) : Except Bytes Bool := do
        let (a, rest) ← (disjunction v (4 * words.length + 8) s).run words
        match rest with
        | word :: _ :: _ => throw (word ++ Bytes.ofString ": unexpected operator")
        | _ => pure a
      let few := words.length = 3 || words.length = 4
      if words.length = 3 && isBinary (words[1]?.getD []) then evaluate words .operand
      else if few && words.head? = some [40] && words.getLast? = some [41] then
        let inside := (words.drop 1).dropLast
        evaluate inside (signAt inside)
      else if few && words.head? = some [33] then do
        pure !(← holds v n (words.drop 1))
      else evaluate words (signAt words)

end LineShell.Script.Condition
