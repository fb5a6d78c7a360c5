/-
`test`: conditions on texts, numbers and files, as a list of words.

Up to four words, their number decides what they mean, so that a word
that looks like a sign can be tested too. More of them are an expression
with `-o`, `-a`, `!` and parentheses, in rising order of strength.
-/
import LineShell.Posix.Directory
import LineShell.Tool.Options

namespace LineShell.Tool

open Posix

variable {ρ : Type}

-- ================================================================== files

/-- The node at a path, if there is one. -/
def nodeFor? (v : View) (path : Bytes) (last : FileTree.Last) : Option Node :=
  match (Call.nodeAt path last).attempt v with
  | (.ok id, _) => v.world.tree.nodes[id]?
  | _ => none

/-- Is the node a file with data? -/
def isFile (n : Node) : Bool :=
  match n.content with
  | .file _ | .program _ => true
  | _ => false

def isDirectoryNode (n : Node) : Bool :=
  match n.content with
  | .directory _ _ | .descriptors => true
  | _ => false

def isLink (n : Node) : Bool :=
  match n.content with
  | .link _ => true
  | _ => false

/-- Is the node a device that gives or takes single characters? -/
def isDevice (n : Node) : Bool :=
  match n.content with
  | .null | .zero | .full | .terminal => true
  | _ => false

def isPipe (n : Node) : Bool :=
  match n.content with
  | .pipe _ => true
  | _ => false

/-- Does the node hold anything? -/
def isFull (n : Node) : Bool :=
  match n.content with
  | .file data => !data.isEmpty
  | .null | .zero | .full | .terminal | .pipe _ | .descriptors => false
  | .directory _ _ | .link _ | .program _ => true

/-- What a sign of one letter says of the file at a path; none if there is
no such sign. All files belong to who asks. -/
def fileCondition (v : View) (letter : Char) (path : Bytes) : Option Bool :=
  let there := nodeFor? v path .target
  match letter with
  | 'e' | 'r' | 'w' | 'O' | 'G' => some there.isSome
  | 'f' => some (there.any isFile)
  | 'd' => some (there.any isDirectoryNode)
  | 'L' | 'h' => some ((nodeFor? v path .self).any isLink)
  | 's' => some (there.any isFull)
  | 'x' => some (there.any fun n => n.executable || isDirectoryNode n)
  | 'c' => some (there.any isDevice)
  | 'p' => some (there.any isPipe)
  | 'u' => some (there.any fun n => n.mode &&& 0o4000 ≠ 0)
  | 'g' => some (there.any fun n => n.mode &&& 0o2000 ≠ 0)
  | 'k' => some (there.any fun n => n.mode &&& 0o1000 ≠ 0)
  | 'b' | 'S' => some false
  | _ => none

/-- Do two paths lead to one file? -/
def sameFile (v : View) (a b : Bytes) : Bool :=
  match (Call.nodeAt a).attempt v, (Call.nodeAt b).attempt v with
  | (.ok x, _), (.ok y, _) => x = y
  | _, _ => false

/-- What a sign says of two texts or paths; none if it is no such sign.
Files that are both there count as equally old. -/
def pairCondition (v : View) (sign : String) (a b : Bytes) : Option Bool :=
  let isThere (path : Bytes) : Bool := (nodeFor? v path .target).isSome
  match sign with
  | "=" => some (a = b)
  | "!=" => some (a ≠ b)
  | "-ef" => some (sameFile v a b)
  | "-nt" => some (isThere a && !isThere b)
  | "-ot" => some (isThere b && !isThere a)
  | _ => none

/-- How a sign compares two numbers; none if it does not. -/
def numberCondition (sign : String) : Option (Int → Int → Bool) :=
  match sign with
  | "-eq" => some fun x y => x = y
  | "-ne" => some fun x y => x ≠ y
  | "-lt" => some fun x y => x < y
  | "-le" => some fun x y => x ≤ y
  | "-gt" => some fun x y => x > y
  | "-ge" => some fun x y => x ≥ y
  | _ => none

/-- A number with blanks around it and a sign. -/
def spacedNumber? (text : Bytes) : Option Int :=
  let isBlank (b : UInt8) : Bool := b = 32 || (9 ≤ b && b ≤ 13)
  signed? ((text.dropWhile isBlank).reverse.dropWhile isBlank).reverse

-- ============================================================ expressions

/-- Why words are no condition. -/
inductive ConditionError where
  | missingAfter (word : Bytes)
  | notUnary (word : Bytes)
  | notBinary (word : Bytes)
  | notInteger (word : Bytes)
  | noClosing (found : Option Bytes)
  | extra (word : Bytes)
  deriving DecidableEq, Repr

def ConditionError.text : ConditionError → Bytes
  | missingAfter word => Bytes.ofString "missing argument after " ++ marked word
  | notUnary word => marked word ++ Bytes.ofString ": unary operator expected"
  | notBinary word => marked word ++ Bytes.ofString ": binary operator expected"
  | notInteger word => Bytes.ofString "invalid integer " ++ marked word
  | noClosing none => Bytes.ofString "')' expected"
  | noClosing (some found) => Bytes.ofString "')' expected, found " ++ marked found
  | extra word => Bytes.ofString "extra argument " ++ marked word

/-- A reader of words, which says whether they hold. -/
abbrev ConditionReader := StateT (List Bytes) (Except ConditionError)

namespace Condition

/-- Does a word stand between two others? -/
def isBinary (word : Bytes) : Bool :=
  ((["=", "==", "!=", "-ef", "-nt", "-ot", "-eq", "-ne", "-lt", "-le", "-gt", "-ge"]).map
    Bytes.ofString).contains word

/-- The only letter of a sign. -/
def letter? : Bytes → Option Char
  | [45, b] => some (Char.ofNat b.toNat)
  | _ => none

/-- A word, which is there if it is not empty. -/
def one : ConditionReader Bool := do
  let word := (← get).headD []
  modify (·.drop 1)
  pure (!word.isEmpty)

/-- A sign and the word after it. -/
def unary (v : View) : ConditionReader Bool := do
  match ← get with
  | sign :: word :: rest => do
      set rest
      match letter? sign with
      | some 'n' => pure (!word.isEmpty)
      | some 'z' => pure word.isEmpty
      | some 't' => if (spacedNumber? word).isSome then pure false else throw (.notInteger word)
      | some c =>
          match fileCondition v c word with
          | some answer => pure answer
          | none => throw (.notUnary sign)
      | none => throw (.notUnary sign)
  | [sign] =>
      match letter? sign with
      | some c =>
          if "nzt".toList.contains c || (fileCondition v c []).isSome then
            throw (.missingAfter sign)
          else throw (.notUnary sign)
      | none => throw (.notUnary sign)
  | [] => pure false

/-- Two words with a sign between them. -/
def binary (v : View) : ConditionReader Bool := do
  match ← get with
  | a :: sign :: b :: rest => do
      set rest
      let sign := sign.decodeLossy
      match numberCondition sign with
      | some holds =>
          match spacedNumber? a, spacedNumber? b with
          | some x, some y => pure (holds x y)
          | none, _ => throw (.notInteger a)
          | _, none => throw (.notInteger b)
      | none => pure ((pairCondition v (if sign = "==" then "=" else sign) a b).getD false)
  | words => throw (.missingAfter (words.getLast?.getD []))

mutual

/-- So many words, of which the number decides what they mean. `last` is
the last word of all. -/
def counted (v : View) (last : Bytes) : Nat → Nat → ConditionReader Bool
  | 0, _ => throw (.missingAfter last)
  | n + 1, count => do
      let words ← get
      let first := words.headD []
      let isNot := first = [33]
      match count with
      | 1 => one
      | 2 =>
          if isNot then
            modify (·.drop 1)
            pure !(← one)
          else if (letter? first).isSome then unary v
          else throw (.missingAfter last)
      | 3 =>
          let second := words[1]?.getD []
          if isBinary second then binary v
          else if isNot then
            modify (·.drop 1)
            pure !(← counted v last n 2)
          else if first = [40] && words[2]? = some [41] then
            modify (·.drop 1)
            let answer ← one
            modify (·.drop 1)
            pure answer
          else if second = [45, 97] || second = [45, 111] then disjunction v last n
          else throw (.notBinary second)
      | 4 =>
          if isNot then
            modify (·.drop 1)
            pure !(← counted v last n 3)
          else if first = [40] && words[3]? = some [41] then
            modify (·.drop 1)
            let answer ← counted v last n 2
            modify (·.drop 1)
            pure answer
          else disjunction v last n
      | _ => disjunction v last n

/-- Conditions of which one has to hold. -/
def disjunction (v : View) (last : Bytes) : Nat → ConditionReader Bool
  | 0 => throw (.missingAfter last)
  | n + 1 => do
      let a ← conjunction v last n
      if (← get).head? = some [45, 111] then
        modify (·.drop 1)
        pure ((← disjunction v last n) || a)
      else pure a

/-- Conditions that all have to hold. -/
def conjunction (v : View) (last : Bytes) : Nat → ConditionReader Bool
  | 0 => throw (.missingAfter last)
  | n + 1 => do
      let a ← term v last n
      if (← get).head? = some [45, 97] then
        modify (·.drop 1)
        pure ((← conjunction v last n) && a)
      else pure a

/-- A single condition. -/
def term (v : View) (last : Bytes) : Nat → ConditionReader Bool
  | 0 => throw (.missingAfter last)
  | n + 1 => do
      match ← get with
      | [] => throw (.missingAfter last)
      | [33] :: rest => do
          set rest
          pure !(← term v last n)
      | [40] :: rest => do
          set rest
          if rest.isEmpty then throw (.missingAfter last)
          let inside := rest.take 1 ++ (rest.drop 1).takeWhile (· ≠ [41])
          let answer ← counted v last n (if inside.length ≤ 4 then inside.length else rest.length)
          match ← get with
          | [41] :: rest => do
              set rest
              pure answer
          | words => throw (.noClosing words.head?)
      | first :: rest =>
          if 2 ≤ rest.length && isBinary (rest.headD []) then binary v
          else if (letter? first).isSome then unary v
          else one

end

/-- Does the condition hold? -/
def holds (v : View) (words : List Bytes) : Except ConditionError Bool := do
  match words.getLast? with
  | none => pure false
  | some last => do
      let (answer, rest) ← (counted v last (4 * words.length + 8) words.length).run words
      match rest with
      | [] => pure answer
      | word :: _ => throw (.extra word)

end Condition

/-- The status of `test` where words are no condition. -/
def conditionFailure : Int := 2

/-- `test`, and `[`, which takes its last argument for its end. -/
def testTool : Body ρ := fun args => do
  let bracketed := (← get).tool.getLast? = some 91
  let v ← Job.view id
  if bracketed && args.getLast? ≠ some [93] then
    Job.die (Bytes.ofString "missing ']'") conditionFailure
  else
    match Condition.holds v (if bracketed then args.dropLast else args) with
    | .ok true => pure 0
    | .ok false => pure failure
    | .error e => Job.die e.text conditionFailure

end LineShell.Tool
