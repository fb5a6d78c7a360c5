/-
Regular expressions over bytes, in the basic form in which groups,
counts and alternatives are written with backslashes.

An expression is matched by following every way it can go; of all ways
that come to the same end the first counts, repetitions going on as long
as they can. The longest match is the match.
-/
import LineShell.Tool.Exchange

namespace LineShell.Tool

-- ============================================================= expressions

inductive Regular where
  | byte (b : UInt8)
  | any
  | oneOf (isNegated : Bool) (members : Bytes)
  | empty
  | seq (a b : Regular)
  | either (a b : Regular)
  /-- So many times at least, and at most. -/
  | times (low : Nat) (high : Option Nat) (r : Regular)
  | group (number : Nat) (r : Regular)
  /-- What a group matched. -/
  | again (number : Nat)
  | start
  | finish
  deriving DecidableEq, Repr, Inhabited

namespace Regular

/-- Why a text is no expression. -/
inductive Fault where
  | openGroup
  | closedGroup
  | openCount
  | badCount
  | bigCount
  | reference
  | openSet
  | noSet
  | className
  | backslash
  deriving DecidableEq, Repr

def Fault.text : Fault → String
  | openGroup => "Unmatched ( or \\("
  | closedGroup => "Unmatched ) or \\)"
  | openCount => "Unmatched \\\x7b"
  | badCount => "Invalid content of \\\x7b\\\x7d"
  | bigCount => "Regular expression too big"
  | reference => "Invalid back reference"
  | openSet => "Unmatched [, [^, [:, [., or [="
  | noSet => "Invalid regular expression"
  | className => "Invalid character class name"
  | backslash => "Trailing backslash"

-- ================================================================= reading

/-- The members of a set up to its end, and what follows it. `isFirst`
tells that none was read, so that a closing bracket is a member. -/
def readMembers : Nat → Bool → Bytes → Except Fault (Bytes × Bytes)
  | 0, _, _ | _, _, [] => .error .openSet
  | n + 1, isFirst, b :: rest =>
      if b = 93 && !isFirst then .ok ([], rest)
      else
        match b, rest with
        | 91, 58 :: more => do
            let name := more.takeWhile (· ≠ 58)
            match classBytes name with
            | none => throw .className
            | some bytes => do
                let (others, rest) ← readMembers n false (more.drop (name.length + 2))
                pure (bytes ++ others, rest)
        | 91, mark :: c :: more =>
            if (mark = 46 || mark = 61) && more.take 2 = [mark, 93] then do
              let (others, rest) ← readMembers n false (more.drop 2)
              pure (c :: others, rest)
            else do
              let (others, rest) ← readMembers n false rest
              pure (b :: others, rest)
        | _, 45 :: last :: more =>
            if last = 93 then do
              let (others, rest) ← readMembers n false rest
              pure (b :: others, rest)
            else do
              let (others, rest) ← readMembers n false more
              pure ((List.range' b.toNat (last.toNat + 1 - b.toNat)).map
                UInt8.ofNat ++ others, rest)
        | _, _ => do
            let (others, rest) ← readMembers n false rest
            pure (b :: others, rest)

/-- The largest count. -/
def countMax : Nat := 32767

/-- A count after its opening brace, and what follows it. -/
def readCount (text : Bytes) : Except Fault ((Nat × Option Nat) × Bytes) := do
  let isDigit (b : UInt8) : Bool := 48 ≤ b && b ≤ 57
  let inside := text.takeWhile (· ≠ 92)
  if (text.drop inside.length).take 2 ≠ [92, 125] then
    throw (if (inside.all fun b => isDigit b || b = 44) then .openCount else .badCount)
  let rest := text.drop (inside.length + 2)
  let number (t : Bytes) : Except Fault Nat :=
    match decimal? t with
    | some n => if countMax < n then .error .bigCount else .ok n
    | none => .error .badCount
  match inside.splitOnP (· == 44) with
  | [one] => do
      let n ← number one
      pure ((n, some n), rest)
  | [low, high] => do
      let low ← if low.isEmpty then pure 0 else number low
      if high.isEmpty then pure ((low, none), rest)
      else
        let high ← number high
        if high < low then throw .badCount
        pure ((low, some high), rest)
  | _ => throw .badCount

/-- What has been read of a branch: the groups opened and closed so far,
the expression, and what is left. -/
structure Reading where
  opened : Nat := 0
  closed : Nat := 0
  regular : Regular := .empty
  rest : Bytes

/-- The marks of repetition after an expression. -/
def readMarks : Nat → Regular → Bytes → Except Fault (Regular × Bytes)
  | 0, r, rest => .ok (r, rest)
  | n + 1, r, rest =>
      match rest with
      | 42 :: more => readMarks n (.times 0 none r) more
      | 92 :: 43 :: more => readMarks n (.times 1 none r) more
      | 92 :: 63 :: more => readMarks n (.times 0 (some 1) r) more
      | 92 :: 123 :: more => do
          let ((low, high), more) ← readCount more
          readMarks n (.times low high r) more
      | _ => .ok (r, rest)

/-- Bytes of words: letters, digits and the underscore. -/
def wordBytes : Bytes := ((classBytes (Bytes.ofString "alnum")).getD []) ++ [95]

mutual

/-- Alternatives, up to the end or the end of a group. -/
def readAlternatives : Nat → Bool → Reading → Except Fault Reading
  | 0, _, r => .ok r
  | n + 1, inGroup, r => do
      let first ← readBranch n inGroup true { r with regular := .empty }
      match first.rest with
      | 92 :: 124 :: more => do
          let others ← readAlternatives n inGroup { first with rest := more }
          pure { others with regular := .either first.regular others.regular }
      | _ => pure first

/-- Expressions one after another. `atStart` tells that nothing stands
before. -/
def readBranch : Nat → Bool → Bool → Reading → Except Fault Reading
  | 0, _, _, r => .ok r
  | n + 1, inGroup, atStart, r => do
      match r.rest with
      | [] => pure r
      | 92 :: 124 :: _ => pure r
      | 92 :: 41 :: _ => if inGroup then pure r else throw .closedGroup
      | _ =>
          let one ← readOne n inGroup atStart r
          let (repeated, rest) ←
            if one.regular = .start then pure (one.regular, one.rest)
            else readMarks one.rest.length one.regular one.rest
          let following ←
            readBranch n inGroup (one.regular = .start) { one with rest, regular := .empty }
          pure { following with regular := .seq repeated following.regular }

/-- One expression without its marks of repetition. -/
def readOne : Nat → Bool → Bool → Reading → Except Fault Reading
  | 0, _, _, r => .ok r
  | n + 1, inGroup, atStart, r => do
      match r.rest with
      | [] => pure r
      | [92] => throw .backslash
      | 92 :: 40 :: more => do
          let number := r.opened + 1
          let inside ← readAlternatives n true { r with opened := number, rest := more }
          match inside.rest with
          | 92 :: 41 :: more =>
              pure { inside with
                closed := inside.closed + 1
                regular := .group number inside.regular
                rest := more }
          | _ => throw .openGroup
      | 92 :: 123 :: more => pure { r with regular := .byte 123, rest := more }
      | 92 :: b :: more =>
          if 49 ≤ b && b ≤ 57 then
            let number := (b - 48).toNat
            if r.closed < number then throw .reference
            pure { r with regular := .again number, rest := more }
          else if b = 119 then pure { r with regular := .oneOf false wordBytes, rest := more }
          else if b = 87 then pure { r with regular := .oneOf true wordBytes, rest := more }
          else if b = 115 then
            pure { r with regular := .oneOf false [9, 10, 11, 12, 13, 32], rest := more }
          else if b = 83 then
            pure { r with regular := .oneOf true [9, 10, 11, 12, 13, 32], rest := more }
          else pure { r with regular := .byte b, rest := more }
      | 46 :: more => pure { r with regular := .any, rest := more }
      | 91 :: more => do
          let isNegated := more.head? = some 94
          let more := if isNegated then more.drop 1 else more
          if more.isEmpty then throw .noSet
          let (members, rest) ← readMembers (more.length + 1) true more
          pure { r with regular := .oneOf isNegated members, rest }
      | 94 :: more => pure { r with regular := if atStart then .start else .byte 94, rest := more }
      | 36 :: more =>
          let atEnd :=
            more.isEmpty || more.take 2 = [92, 124] || (inGroup && more.take 2 = [92, 41])
          pure { r with regular := if atEnd then .finish else .byte 36, rest := more }
      | b :: more => pure { r with regular := .byte b, rest := more }

end

/-- Reads an expression, and counts its groups. -/
def read (text : Bytes) : Except Fault (Regular × Nat) := do
  let r ← readAlternatives (4 * text.length + 4) false { rest := text }
  pure (r.regular, r.opened)

-- ================================================================ matching

/-- How far a match has come: the bytes matched, those left, and what the
groups matched, the latest first. -/
structure Progress where
  matched : Nat := 0
  left : Bytes
  groups : List (Nat × Bytes) := []
  deriving DecidableEq, Repr

/-- Goes on by so many bytes. -/
def Progress.advance (p : Progress) (n : Nat) : Progress :=
  { p with matched := p.matched + n, left := p.left.drop n }

/-- All ways to go on by an expression, the preferred ones first. -/
def ways : Nat → Regular → Progress → List Progress
  | 0, _, _ => []
  | n + 1, r, p =>
      let one (holds : UInt8 → Bool) : List Progress :=
        if p.left.head?.any holds then [p.advance 1] else []
      match r with
      | .byte b => one (· == b)
      | .any => one fun _ => true
      | .oneOf isNegated members => one fun b => members.contains b != isNegated
      | .empty => [p]
      | .seq a b => (ways n a p).flatMap (ways n b)
      | .either a b => ways n a p ++ ways n b p
      | .times low high r =>
          let further : List Progress :=
            if high = some 0 then []
            else
              (ways n r p).flatMap fun q =>
                if q.matched = p.matched then if low = 0 then [] else [q]
                else ways n (.times (low - 1) (high.map (· - 1)) r) q
          further ++ if low = 0 then [p] else []
      | .group number r =>
          (ways n r p).map fun q =>
            { q with groups := (number, p.left.take (q.matched - p.matched)) :: q.groups }
      | .again number =>
          match p.groups.lookup number with
          | some text => if text.isPrefixOf p.left then [p.advance text.length] else []
          | none => []
      | .start => if p.matched = 0 then [p] else []
      | .finish => if p.left.isEmpty then [p] else []

/-- The longest match at the start of a text; of equally long ones the
first. -/
def longest? (r : Regular) (size : Nat) (text : Bytes) : Option Progress :=
  (ways ((size + 2) * (text.length + 2)) r { left := text }).foldl
    (fun best p =>
      match best with
      | some b => if b.matched < p.matched then some p else some b
      | none => some p)
    none

end Regular

end LineShell.Tool
