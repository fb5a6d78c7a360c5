/-
Options on a program's arguments.

An argument that starts with `-` holds option letters; a letter that
takes a value takes the rest of its argument, or else the next one. A
letter may also have long names, which follow `--` and may be cut short
where only one fits. All other arguments are operands, wherever they
stand, and so is everything after `--`.
-/
import LineShell.Tool.Job

namespace LineShell.Tool

open Posix

-- ================================================================= letters

/-- The options that a program knows. -/
structure Spec where
  /-- Letters without a value. -/
  plain : String := ""
  /-- Letters with a value. -/
  valued : String := ""
  /-- Long names of letters. -/
  long : List (String × Char) := []
  /-- Do options end at the first operand? -/
  inFront : Bool := false
  /-- Is the advice after a misuse given under the program's name? -/
  advisesByName : Bool := false

structure Options where
  /-- The letters given, with their values, the last one first. -/
  given : List (Char × Bytes) := []
  operands : List Bytes := []
  deriving Repr

/-- Why arguments cannot be read. -/
inductive OptionError where
  | unknown (letter : UInt8)
  | noValue (letter : Char)
  | unknownWord (word : Bytes)
  | noWordValue (word : String)
  | wordValue (word : String)
  | ambiguous (word : Bytes) (words : List String)
  deriving DecidableEq, Repr

def OptionError.text : OptionError → Bytes
  | unknown b => Bytes.ofString "invalid option -- '" ++ [b, 39]
  | noValue c => Bytes.ofString ("option requires an argument -- '" ++ toString c ++ "'")
  | unknownWord w => Bytes.ofString "unrecognized option '" ++ w ++ [39]
  | noWordValue w => Bytes.ofString ("option '--" ++ w ++ "' requires an argument")
  | wordValue w => Bytes.ofString ("option '--" ++ w ++ "' doesn't allow an argument")
  | ambiguous w words =>
      Bytes.ofString "option '" ++ w ++ Bytes.ofString "' is ambiguous; possibilities:" ++
        words.flatMap fun word => Bytes.ofString (" '--" ++ word ++ "'")

namespace Options

/-- Is the letter among those given? -/
def has (o : Options) (c : Char) : Bool := (o.given.lookup c).isSome

/-- The last value of a letter. -/
def value? (o : Options) (c : Char) : Option Bytes := o.given.lookup c

/-- The values of a letter in order. -/
def values (o : Options) (c : Char) : List Bytes :=
  (o.given.reverse.filter (·.1 = c)).map Prod.snd

/-- The last given of some letters. -/
def lastOf (o : Options) (letters : String) : Option Char :=
  (o.given.find? fun (c, _) => letters.toList.contains c).map Prod.fst

/-- Adds a letter. -/
def add (o : Options) (c : Char) (value : Bytes) : Options :=
  { o with given := (c, value) :: o.given }

/-- The letters of one argument. The result may ask for a value from the
next argument. -/
def readLetters (spec : Spec) (o : Options) :
    Bytes → Except OptionError (Options × Option Char)
  | [] => .ok (o, none)
  | b :: rest =>
      let c := Char.ofNat b.toNat
      if spec.plain.toList.contains c then readLetters spec (o.add c []) rest
      else if !spec.valued.toList.contains c then .error (.unknown b)
      else if rest.isEmpty then .ok (o, some c)
      else .ok (o.add c rest, none)

/-- The long name that the start of a word stands for. -/
def findLong (spec : Spec) (whole : Bytes) : Except OptionError (String × Char) :=
  let shown := 45 :: 45 :: whole
  let word := whole.takeWhile (· ≠ 61)
  match spec.long.filter fun (name, _) => word.isPrefixOf (Bytes.ofString name) with
  | [] => .error (.unknownWord shown)
  | [found] => .ok found
  | several =>
      match several.find? fun (name, _) => Bytes.ofString name = word with
      | some found => .ok found
      | none =>
          if several.all fun (_, c) => some c = several.head?.map Prod.snd then
            .ok (several.headD ("", ' '))
          else .error (.ambiguous shown (several.map Prod.fst))

/-- The letter of a word after `--`, with its value. The result may ask
for a value from the next argument. -/
def readWord (spec : Spec) (o : Options) (word : Bytes) :
    Except OptionError (Options × Option Char) := do
  let name := word.takeWhile (· ≠ 61)
  let value := if name.length = word.length then none else some (word.drop (name.length + 1))
  let (found, c) ← findLong spec word
  match value, spec.valued.toList.contains c with
  | none, true => pure (o, some c)
  | none, false => pure (o.add c [], none)
  | some value, true => pure (o.add c value, none)
  | some _, false => throw (.wordValue found)

/-- The error for a letter without its value, after the argument that asks
for it. -/
def lacking (spec : Spec) (arg : Bytes) (c : Char) : OptionError :=
  match arg with
  | 45 :: 45 :: word =>
      match findLong spec word with
      | .ok (name, _) => .noWordValue name
      | .error e => e
  | _ => .noValue c

/-- The options and operands of arguments. `pending` is a letter that
waits for its value, with the argument that it is in. -/
def read (spec : Spec) : List Bytes → Option (Bytes × Char) → Options → Except OptionError Options
  | [], none, o => .ok o
  | [], some (arg, c), _ => .error (lacking spec arg c)
  | arg :: rest, some (_, c), o => read spec rest none (o.add c arg)
  | arg :: rest, none, o =>
      match arg with
      | [45, 45] => .ok { o with operands := o.operands ++ rest }
      | 45 :: 45 :: word => do
          let (o, pending) ← readWord spec o word
          read spec rest (pending.map (arg, ·)) o
      | 45 :: b :: letters => do
          let (o, pending) ← readLetters spec o (b :: letters)
          read spec rest (pending.map (arg, ·)) o
      | _ =>
          if spec.inFront then .ok { o with operands := o.operands ++ arg :: rest }
          else read spec rest none { o with operands := o.operands ++ [arg] }

end Options

variable {ρ : Type}

/-- Complains of how the program was called, and ends it. -/
def Spec.misused {α : Type} (spec : Spec) (message : Bytes) (status : Int) : Job ρ α := do
  Job.complain message
  if spec.advisesByName then
    Job.die (Bytes.ofString "Try '" ++ (← get).tool ++
      Bytes.ofString " --help' for more information.") status
  else Job.adviseHelp status

/-- Goes on with the options and operands, or complains and ends the
program with a status. -/
def withOptions (spec : Spec) (args : List Bytes) (bad : Int) (k : Options → Job ρ Int) :
    Job ρ Int :=
  match Options.read spec args none {} with
  | .ok o => k o
  | .error e => spec.misused e.text bad

end LineShell.Tool
