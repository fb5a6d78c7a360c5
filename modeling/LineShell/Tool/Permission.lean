/-
Permission bits as programs take and show them.

A mode is either an octal number, or clauses with commas between them:
for whom (`u`, `g`, `o`, `a`), then signs, each with what is added, taken
away or set. Where a clause names nobody it is for everybody, less what
the mask for new files holds back.
-/
import LineShell.Tool.Size

namespace LineShell.Tool.Permission

-- ================================================================= clauses

/-- What is given to files by a clause. -/
inductive Grant where
  /-- These bits. -/
  | bits (value : Nat)
  /-- These bits, and execution for directories and files that anybody
  may execute. -/
  | bitsAndSearch (value : Nat)
  /-- What those have whose three bits these are. -/
  | asFor (value : Nat)
  deriving DecidableEq, Repr

/-- One change of the bits. -/
structure Change where
  /-- `+`, `-` or `=`. -/
  sign : UInt8
  /-- The bits that the change is about; 0 if it names nobody. -/
  affected : Nat
  grant : Grant
  /-- The bits that the change spells out. -/
  mentioned : Nat
  deriving DecidableEq, Repr

/-- All twelve bits. -/
def allBits : Nat := 0o7777

/-- The bits for execution, and those for taking on owner and group. -/
def searchBits : Nat := 0o111
def identityBits : Nat := 0o6000

/-- The bits of a letter that says for whom. -/
def whoBits (b : UInt8) : Option Nat :=
  [(117, 0o4700), (103, 0o2070), (111, 0o1007), (97, allBits)].lookup b

/-- The bits of a letter that says what. -/
def whatBits (b : UInt8) : Option Nat :=
  [(114, 0o444), (119, 0o222), (120, 0o111), (115, 0o6000), (116, 0o1000)].lookup b

/-- The three bits of a letter to copy from. -/
def copiedBits (b : UInt8) : Option Nat := [(117, 0o700), (103, 0o070), (111, 0o007)].lookup b

def isSign (b : UInt8) : Bool := b = 43 || b = 45 || b = 61

/-- The value of octal digits, if it is one of twelve bits. -/
def octal? (text : Bytes) : Option Nat :=
  let (value, rest) := digits 8 text.length 0 text
  if text.isEmpty || !rest.isEmpty || allBits < value then none else some value

/-- What the letters after a sign give, and what follows them. -/
def readLetters : Bytes → Nat → Bool → Grant × Bytes
  | [], value, search => (if search then .bitsAndSearch value else .bits value, [])
  | b :: rest, value, search =>
      if b = 88 then readLetters rest value true
      else
        match whatBits b with
        | some bits => readLetters rest (value ||| bits) search
        | none => (if search then .bitsAndSearch value else .bits value, b :: rest)

/-- The changes of one clause from a sign on; in a clause that names
nobody a number may follow the sign. -/
def readChanges (affected : Nat) : Nat → Bytes → Option (List Change)
  | 0, _ | _, [] => none
  | n + 1, sign :: rest => do
      guard (isSign sign)
      let isDigit (b : UInt8) : Bool := 48 ≤ b && b ≤ 55
      let (change, rest) ←
        match rest with
        | b :: more =>
            if isDigit b then do
              guard (affected = 0)
              let number := rest.takeWhile isDigit
              let value ← octal? number
              pure (({ sign, affected := allBits,
                       grant := .bits value, mentioned := allBits } : Change),
                rest.drop number.length)
            else
              match copiedBits b with
              | some bits =>
                  some ({ sign, affected, grant := .asFor bits,
                          mentioned := if affected = 0 then bits else affected &&& bits }, more)
              | none =>
                  let (grant, rest) := readLetters rest 0 false
                  let value :=
                    match grant with
                    | .bits v | .bitsAndSearch v | .asFor v => v
                  some ({ sign, affected, grant,
                          mentioned := if affected = 0 then value else affected &&& value }, rest)
        | [] => some ({ sign, affected, grant := .bits 0, mentioned := 0 }, [])
      match rest with
      | [] => pure [change]
      | _ => do pure (change :: (← readChanges affected n rest))

/-- The changes that a mode asks for. -/
def read? (text : Bytes) : Option (List Change) :=
  match text with
  | [] => none
  | b :: _ =>
      if 48 ≤ b && b ≤ 57 then do
        let value ← octal? text
        let mentioned := if text.length < 5 then (value &&& identityBits) ||| 0o1777 else allBits
        pure [{ sign := 61, affected := allBits, grant := .bits value, mentioned }]
      else do
        let parts ← (text.splitOnP (· == 44)).mapM fun clause =>
          let who := clause.takeWhile fun b => (whoBits b).isSome
          let affected := who.foldl (fun bits b => bits ||| (whoBits b).getD 0) 0
          readChanges affected (clause.length + 1) (clause.drop who.length)
        pure parts.flatten

/-- The bits of a file after a change. -/
def Change.apply (c : Change) (isDirectory : Bool) (mask old : Nat) : Nat :=
  let omitted :=
    (if isDirectory then identityBits else 0) &&& (allBits ^^^ (c.mentioned &&& allBits))
  let value :=
    match c.grant with
    | .bits value => value
    | .bitsAndSearch value =>
        if isDirectory || old &&& searchBits ≠ 0 then value ||| searchBits else value
    | .asFor value =>
        let own := value &&& old
        own ||| (if own &&& 0o444 ≠ 0 then 0o444 else 0) |||
          (if own &&& 0o222 ≠ 0 then 0o222 else 0) |||
          (if own &&& 0o111 ≠ 0 then 0o111 else 0)
  let reach := if c.affected = 0 then allBits ^^^ (mask &&& allBits) else c.affected
  let value := value &&& reach &&& (allBits ^^^ omitted)
  if c.sign = 43 then old ||| value
  else if c.sign = 45 then old &&& (allBits ^^^ value)
  else
    let preserved := (if c.affected = 0 then 0 else allBits ^^^ c.affected) ||| omitted
    (old &&& preserved) ||| value

/-- The bits of a file after all changes. -/
def applyAll (changes : List Change) (isDirectory : Bool) (mask old : Nat) : Nat :=
  changes.foldl (fun bits c => c.apply isDirectory mask bits) old

-- ================================================================== shown

/-- The bits as four octal digits. -/
def fourOctal (bits : Nat) : Bytes :=
  let ds := Nat.toDigits 8 bits
  Bytes.ofString (String.ofList (List.replicate (4 - ds.length) '0' ++ ds))

/-- The bits as nine letters. -/
def letters (bits : Nat) : Bytes :=
  let three (shift special : Nat) (plain alone : Char) : List Char :=
    let own := bits >>> shift
    let marked := bits &&& special ≠ 0
    [if own &&& 4 ≠ 0 then 'r' else '-', if own &&& 2 ≠ 0 then 'w' else '-',
     if own &&& 1 ≠ 0 then (if marked then plain else 'x') else if marked then alone else '-']
  Bytes.ofString (String.ofList
    (three 6 0o4000 's' 'S' ++ three 3 0o2000 's' 'S' ++ three 0 0o1000 't' 'T'))

end LineShell.Tool.Permission
