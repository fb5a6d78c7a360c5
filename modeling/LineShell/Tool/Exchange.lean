/-
`tr`: replacing, deleting and squeezing bytes.

Sets are written with escapes, ranges, classes and repetitions. A set
that is too short to say what becomes of every byte of the first goes on
with its last byte, or with the one whose number of repetitions is open.
-/
import LineShell.Tool.Size

namespace LineShell.Tool

open Posix

variable {ρ : Type}

-- ==================================================================== sets

/-- A part of a set. -/
inductive SetPart where
  | bytes (list : Bytes)
  /-- A class of bytes; `shift`: between capitals and small letters. -/
  | classOf (list : Bytes) (shift : Bool)
  /-- A byte so often as is needed. -/
  | filling (b : UInt8)
  deriving DecidableEq, Repr

/-- All bytes. -/
def allBytes : Bytes := (List.range 256).map UInt8.ofNat

/-- The bytes of a named class. -/
def classBytes (name : Bytes) : Option Bytes :=
  let among (p : Char → Bool) : Option Bytes :=
    some (allBytes.filter fun b => b < 128 && p (Char.ofNat b.toNat))
  match name.decode with
  | some "alpha" => among Char.isAlpha
  | some "digit" => among Char.isDigit
  | some "alnum" => among Char.isAlphanum
  | some "upper" => among Char.isUpper
  | some "lower" => among Char.isLower
  | some "xdigit" => among fun c => c.isDigit || ('a' ≤ c.toLower && c.toLower ≤ 'f')
  | some "space" => some (allBytes.filter fun b => b = 32 || (9 ≤ b && b ≤ 13))
  | some "blank" => some [9, 32]
  | some "punct" => among fun c => isShown (UInt8.ofNat c.toNat) && c ≠ ' ' && !c.isAlphanum
  | some "graph" => some (allBytes.filter fun b => isShown b && b ≠ 32)
  | some "print" => some (allBytes.filter isShown)
  | some "cntrl" => some (allBytes.filter fun b => b < 32 || b = 127)
  | _ => none

/-- A byte of a set, and whether a backslash protects it. -/
abbrev SetByte := UInt8 × Bool

/-- The bytes of a set's text without its backslashes. -/
def unescapeSet : Nat → Bytes → List SetByte
  | 0, _ | _, [] => []
  | _, [92] => [(92, false)]
  | n + 1, 92 :: rest =>
      let (value, after) := digits 8 3 0 rest
      let taken := rest.length - after.length
      if taken = 0 then
        match rest with
        | b :: rest =>
            let b := if b = 101 then b else (letterEscape b).getD b
            (b, true) :: unescapeSet n rest
        | [] => []
      else if value < 256 then (UInt8.ofNat value, true) :: unescapeSet n after
      else (UInt8.ofNat (digits 8 2 0 rest).1, true) :: unescapeSet n (rest.drop 2)
  | n + 1, b :: rest => (b, false) :: unescapeSet n rest

/-- Why a text is no set. -/
inductive SetError where
  | reversed (first last : UInt8)
  | noClass (name : Bytes)
  | badCount (count : Bytes)
  deriving DecidableEq, Repr

def SetError.text : SetError → Bytes
  | reversed a b =>
      let one (b : UInt8) : Bytes := if isShown b then [b] else escaped b
      Bytes.ofString "range-endpoints of '" ++ one a ++ [45] ++ one b ++
        Bytes.ofString "' are in reverse collating sequence order"
  | noClass name => Bytes.ofString "invalid character class " ++ marked name
  | badCount count =>
      Bytes.ofString "invalid repeat count " ++ marked count ++ Bytes.ofString " in [c*n] construct"

/-- The bytes before a pair of signs, and what follows the pair. -/
def upToPair (a b : UInt8) : List SetByte → Option (Bytes × List SetByte)
  | (x, false) :: (y, false) :: rest =>
      if x = a && y = b then some ([], rest)
      else (upToPair a b ((y, false) :: rest)).map fun (bytes, rest) => (x :: bytes, rest)
  | (x, _) :: rest => (upToPair a b rest).map fun (bytes, rest) => (x :: bytes, rest)
  | [] => none

/-- The number of repetitions that digits ask for, octal after a zero; no
number leaves it open. -/
def repetition (b : UInt8) (count : Bytes) : Except SetError SetPart :=
  let (n, rest) := digits (if count.head? = some 48 then 8 else 10) count.length 0 count
  if !rest.isEmpty then .error (.badCount count)
  else if n = 0 then .ok (.filling b)
  else .ok (.bytes (List.replicate n b))

/-- A class, an equivalence or a repetition in brackets at the start of a
set, and what follows it. -/
def bracketPart : List SetByte → Except SetError (Option (SetPart × List SetByte))
  | (91, false) :: (58, false) :: rest =>
      match upToPair 58 93 rest with
      | some (name, after) =>
          match classBytes name with
          | some list =>
              .ok (some (.classOf list (name = Bytes.ofString "upper" ||
                    name = Bytes.ofString "lower"), after))
          | none => .error (.noClass name)
      | none => .ok none
  | (91, false) :: (61, false) :: (b, _) :: (61, false) :: (93, false) :: rest =>
      .ok (some (.bytes [b], rest))
  | (91, false) :: (b, _) :: (42, false) :: rest =>
      let count := rest.takeWhile fun (c, safe) => c ≠ 93 || safe
      if count.length < rest.length && count.all fun (c, _) => 48 ≤ c && c ≤ 57 then do
        let part ← repetition b (count.map Prod.fst)
        pure (some (part, rest.drop (count.length + 1)))
      else .ok none
  | _ => .ok none

/-- The parts of a set, so many at most. -/
def setParts : Nat → List SetByte → Except SetError (List SetPart)
  | 0, _ | _, [] => .ok []
  | n + 1, (b, p) :: rest => do
      match ← bracketPart ((b, p) :: rest) with
      | some (part, after) => do pure (part :: (← setParts n after))
      | none =>
          match rest with
          | (45, false) :: (last, _) :: after =>
              if last < b then throw (.reversed b last)
              else
                let run := (List.range' b.toNat (last.toNat - b.toNat + 1)).map UInt8.ofNat
                pure (.bytes run :: (← setParts n after))
          | _ => do pure (.bytes [b] :: (← setParts n rest))

/-- The bytes of a set, with the open repetition grown to a size. -/
def setBytes (size : Nat) (parts : List SetPart) : Bytes :=
  let grown (gap : Nat) : Bytes := parts.flatMap fun
    | .bytes list | .classOf list _ => list
    | .filling b => List.replicate gap b
  grown (size - (grown 0).length)

-- ================================================================= changes

/-- Drops each byte that repeats the one before it, if it is in the set. -/
def squeeze (set : Bytes) : Option UInt8 → Bytes → Bytes
  | _, [] => []
  | last, b :: rest =>
      if last = some b && set.contains b then squeeze set last rest
      else b :: squeeze set (some b) rest

/-- How `tr` changes a run of bytes, after a last byte written. -/
structure Exchange where
  deleted : Bytes := []
  table : List (UInt8 × UInt8) := []
  squeezed : Bytes := []

/-- The bytes that become of some. -/
def Exchange.apply (t : Exchange) (last : Option UInt8) (block : Bytes) : Bytes :=
  let kept := if t.deleted.isEmpty then block else block.filter (!t.deleted.contains ·)
  let mapped := if t.table.isEmpty then kept else kept.map fun b => (t.table.lookup b).getD b
  if t.squeezed.isEmpty then mapped else squeeze t.squeezed last mapped

/-- The first set grown or cut, and the second set as long as that. -/
def pairUp (truncate : Bool) (a : Bytes) (second : List SetPart) : Except String (Bytes × Bytes) :=
  let b := setBytes a.length second
  match b.getLast? with
  | none =>
      if a.isEmpty || truncate then .ok ([], [])
      else .error "when not truncating set1, string2 must be non-empty"
  | some last =>
      if truncate then .ok (a.take b.length, b)
      else .ok (a, b ++ List.replicate (a.length - b.length) last)

/-- What options and sets come to. -/
def Exchange.of (o : Options) (first : List SetPart) (second : Option (List SetPart)) :
    Except String Exchange := do
  let complemented := o.has 'c' || o.has 'C'
  let a := setBytes 0 first
  let a := if complemented then allBytes.filter (!a.contains ·) else a
  let isClass : SetPart → Bool
    | .classOf _ shift => !shift
    | _ => false
  match second, o.has 'd', o.has 's' with
  | none, true, _ => pure { deleted := a }
  | none, false, _ => pure { squeezed := a }
  | some second, true, _ => pure { deleted := a, squeezed := setBytes 256 second }
  | some second, false, squeezes => do
      if second.any isClass then
        throw ("when translating, the only character classes that may appear in\n" ++
          "string2 are 'upper' and 'lower'")
      let (a, b) ← pairUp (o.has 't') a second
      pure { table := (a.zip b).reverse,
             squeezed := if squeezes then setBytes a.length second else [] }

-- ============================================================= the program

def trSpec : Spec :=
  { plain := "cCdst", inFront := true
    long :=
      [("complement", 'c'), ("delete", 'd'), ("squeeze-repeats", 's'), ("truncate-set1", 't')] }

/-- Complains of how the program was called, gives a reason, and ends it. -/
def trMisused (message : Bytes) (reason : Option String) : Job ρ Unit := do
  Job.complain message
  match reason with
  | some reason => let _ ← Job.task (Task.writeAll Fd.stderr (Bytes.ofLine reason))
  | none => pure ()
  Job.adviseHelp failure

/-- Are there as many operands as the options need? -/
def checkOperands (o : Options) : Job ρ Unit := do
  let deletes := o.has 'd'
  let squeezes := o.has 's'
  let least := if deletes = squeezes then 2 else 1
  let most := if deletes && !squeezes then 1 else 2
  let n := o.operands.length
  if n = 0 then Job.missingOperand
  else if n < least then
    trMisused (Bytes.ofString "missing operand after " ++ marked (o.operands.getLast?.getD []))
      (some (if squeezes then "Two strings must be given when both deleting and squeezing repeats."
        else "Two strings must be given when translating."))
  else if most < n then
    trMisused (Bytes.ofString "extra operand " ++ marked ((o.operands[most]?).getD []))
      (if n = 2 then some "Only one string may be given when deleting without squeezing repeats." else none)

/-- Warns of what a set's text may not mean everywhere. -/
def warnOfSet : Nat → Bytes → Job ρ Unit
  | 0, _ | _, [] => pure ()
  | _, [92] => Job.complainText "warning: an unescaped backslash at end of string is not portable"
  | n + 1, 92 :: a :: b :: c :: rest => do
      if 52 ≤ a && a ≤ 55 && 48 ≤ b && b ≤ 55 && 48 ≤ c && c ≤ 55 then
        Job.complain (Bytes.ofString "warning: the ambiguous octal escape \\" ++ [a, b, c] ++
          Bytes.ofString " is being\n\tinterpreted as the 2-byte sequence \\0" ++ [a, b] ++
          Bytes.ofString ", " ++ [c])
      warnOfSet n (b :: c :: rest)
  | n + 1, 92 :: _ :: rest => warnOfSet n rest
  | n + 1, _ :: rest => warnOfSet n rest

/-- Reads a set, or complains and ends the program. -/
def readSet (text : Bytes) : Job ρ (List SetPart) := do
  warnOfSet text.length text
  match setParts (text.length + 1) (unescapeSet (text.length + 1) text) with
  | .ok parts => pure parts
  | .error e => Job.die e.text

def trTool : Body ρ := fun args =>
  withOptions trSpec args failure fun o => do
    checkOperands o
    let first ← readSet (o.operands.headD [])
    let second ← match o.operands.drop 1 with
      | text :: _ => do pure (some (← readSet text))
      | [] => pure none
    match Exchange.of o first second with
    | .error message => Job.die (Bytes.ofString message)
    | .ok t => do
        let pass (last : Option UInt8) (block : Bytes) : Job ρ (Option UInt8 × Bool) := do
          let out := t.apply last block
          Job.say out
          pure (out.getLast?.or last, true)
        match ← Job.readBlocks Fd.stdin pass none with
        | (_, none) => Job.closeStandardInput "standard input" [dash] 0
        | (_, some e) => Job.die (Bytes.ofString ("read error: " ++ e.libraryText))

end LineShell.Tool
