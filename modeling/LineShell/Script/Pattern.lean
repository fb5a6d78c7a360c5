/-
Patterns: texts in which `*`, `?` and bracketed sets stand for more than
themselves, unless a byte is marked as literal. They are matched against
texts, and against the names of files.
-/
import LineShell.Posix.Directory
import LineShell.Script.Syntax

namespace LineShell.Script

open Posix

/-- A byte of a text, and whether it stands for itself. -/
abbrev Marked := UInt8 × Bool

/-- A text without its marks. -/
def plainly (text : List Marked) : Bytes := text.map Prod.fst

/-- A text as a pattern, where a backslash marks the byte after it as
literal. -/
def unescaped : List Marked → List Marked
  | (92, false) :: (b, _) :: rest => (b, true) :: unescaped rest
  | m :: rest => m :: unescaped rest
  | [] => []

-- =================================================================== sets

/-- Is the byte in the class of a name? No class has other names. -/
def inClass (name : String) (b : UInt8) : Bool :=
  let c := Char.ofNat b.toNat
  b < 128 &&
    match name with
    | "alpha" => c.isAlpha
    | "digit" => c.isDigit
    | "alnum" => c.isAlphanum
    | "upper" => c.isUpper
    | "lower" => c.isLower
    | "space" => b = 32 || (9 ≤ b && b ≤ 13)
    | "blank" => b = 32 || b = 9
    | "punct" => 32 < b && b < 127 && !c.isAlphanum
    | "print" => 32 ≤ b && b < 127
    | "graph" => 32 < b && b < 127
    | "cntrl" => b < 32 || b = 127
    | "xdigit" => c.isDigit || (97 ≤ b && b ≤ 102) || (65 ≤ b && b ≤ 70)
    | _ => false

/-- A member of a bracketed set. -/
inductive Member where
  | range (lo hi : UInt8)
  | named (name : String)
  deriving DecidableEq, Repr

def Member.has (b : UInt8) : Member → Bool
  | range lo hi => lo ≤ b && b ≤ hi
  | named name => inClass name b

/-- The class at the start of a text after its first bracket, and what
follows it. -/
def takeClass (text : List Marked) : Option (String × List Marked) := do
  guard (text.head? = some (58, false))
  let name := (text.drop 1).takeWhile fun (b, _) => b ≠ 58
  let rest := text.drop (1 + name.length)
  guard (rest.take 2 = [(58, false), (93, false)])
  let name ← (plainly name).decode
  pure (name, rest.drop 2)

/-- The members of a bracketed set, in so many steps, and what follows it;
none if it is not closed. -/
def takeMembers : Nat → List Marked → List Member → Option (List Member × List Marked)
  | 0, _, _ | _, [], _ => none
  | n + 1, (b, literal) :: rest, members =>
      if b = 93 && !literal && !members.isEmpty then some (members, rest)
      else
        match if b = 91 && !literal then takeClass rest else none with
        | some (name, rest) => takeMembers n rest (.named name :: members)
        | none =>
            match rest with
            | (45, false) :: (c, l) :: rest' =>
                if c = 93 && !l then takeMembers n rest (.range b b :: members)
                else takeMembers n rest' (.range b c :: members)
            | _ => takeMembers n rest (.range b b :: members)

-- =============================================================== matching

/-- Does a text fit a pattern? In so many steps. -/
def fitsIn : Nat → List Marked → Bytes → Bool
  | 0, _, _ => false
  | _, [], text => text.isEmpty
  | n + 1, (b, literal) :: rest, text =>
      if b = 42 && !literal then
        fitsIn n rest text || (match text with
          | [] => false
          | _ :: more => fitsIn n ((b, literal) :: rest) more)
      else
        match text with
        | [] => false
        | c :: more =>
            if b = 63 && !literal then fitsIn n rest more
            else if b = 91 && !literal then
              let negated := match rest with
                | (33, false) :: _ | (94, false) :: _ => true
                | _ => false
              let inside := if negated then rest.drop 1 else rest
              match takeMembers (inside.length + 1) inside [] with
              | some (members, rest) => members.any (·.has c) != negated && fitsIn n rest more
              | none => b = c && fitsIn n rest more
            else b = c && fitsIn n rest more

/-- Does a text fit a pattern? -/
def fits (pattern : List Marked) (text : Bytes) : Bool :=
  fitsIn (2 * (pattern.length + text.length) + 2) (unescaped pattern) text

/-- The text without its shortest or longest end (or beginning) that fits
a pattern. -/
def trim (atEnd longest : Bool) (pattern : List Marked) (text : Bytes) : Bytes :=
  let sizes := List.range (text.length + 1)
  let sizes := if longest then sizes.reverse else sizes
  let isFit (size : Nat) : Bool :=
    fits pattern (if atEnd then text.drop (text.length - size) else text.take size)
  match sizes.find? isFit with
  | some size => if atEnd then text.take (text.length - size) else text.drop size
  | none => text

-- ================================================================== names

/-- Does a text hold a sign that matches more than itself? -/
def isPattern (text : List Marked) : Bool :=
  text.any fun (b, literal) => !literal && (b = 42 || b = 63 || b = 91)

/-- The names in a directory that fit a pattern; a leading dot has to be
matched by one. -/
def namesFitting (v : View) (dir : Bytes) (pattern : List Marked) : List Bytes :=
  match (Call.nodeAt (if dir.isEmpty then FileTree.dot else dir)).attempt v with
  | (.ok id, _) =>
      let names := FileTree.dot :: FileTree.dotDot :: Call.namesIn v.world.tree id
      let fitting := names.filter fun name =>
        (name.head? ≠ some 46 || (pattern.head?.map Prod.fst) = some 46) && fits pattern name
      fitting.mergeSort fun a b => !(decide (b < a))
  | _ => []

/-- The paths that fit the components of a pattern, below paths found so
far. -/
def pathsFitting (v : View) : List (List Marked) → List Bytes → List Bytes
  | [], found => found
  | c :: rest, found =>
      let next := found.flatMap fun dir =>
        if isPattern c then (namesFitting v dir c).map (dir ++ ·) else [dir ++ plainly c]
      let more := !rest.isEmpty
      pathsFitting v rest (next.map fun p => if more then p ++ [FileTree.slash] else p)

/-- Is something at a path? -/
def isThere (v : View) (path : Bytes) : Bool :=
  match (Call.nodeAt path .self).attempt v with
  | (.ok _, _) => true
  | _ => false

/-- The names of files that a text stands for, in order; the text itself
if there are none. -/
def matchNames (v : View) (text : List Marked) : List Bytes :=
  let pattern := unescaped text
  if !isPattern pattern then [plainly text]
  else
    let components := pattern.splitOnP fun (b, _) => b = FileTree.slash
    let paths := (pathsFitting v components [[]]).filter (isThere v)
    if paths.isEmpty then [plainly text] else paths

end LineShell.Script
