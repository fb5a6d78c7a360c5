/-
The builtins about variables, arguments and options: `set`, `shift`,
`export`, `readonly`, `local`, `unset`, `read`, `getopts`.
-/
import LineShell.Script.Expand

namespace LineShell.Script

open Posix

variable {ρ : Type}

/-- A statement that the script runs itself, with its arguments; the value
is its status. -/
abbrev Builtin (ρ : Type) := List Bytes → Act ρ Int

-- ================================================================= output

/-- Writes what a builtin prints; the status says whether that worked. -/
def emit (text : Bytes) : Act ρ Int := do
  match ← (Task.writeAll Fd.stdout text : Task ρ (Except Errno Unit)) with
  | .ok () => pure 0
  | .error _ => do
      warn (((← get).builtin.getD []) ++ Bytes.ofString ": I/O error")
      pure Tool.failure

/-- A text in single quotes, as a script can read it back. -/
def inSingleQuotes (text : Bytes) : Bytes :=
  let isQuote (b : UInt8) : Bool := b = 39
  let groups := text.splitBy fun a b => isQuote a = isQuote b
  let shown := groups.flatMap fun g =>
    if g.any isQuote then 34 :: g ++ [34] else 39 :: g ++ [39]
  if text.head?.all isQuote then [39, 39] ++ shown else shown

-- =============================================================== options

/-- Options at the start of arguments: letters of which those in `valued`
take a value. -/
def takeOptions (plain valued : String) :
    Nat → List Bytes → Act ρ (List (Char × Bytes) × List Bytes)
  | 0, args => pure ([], args)
  | n + 1, args =>
      match args with
      | [45, 45] :: rest => pure ([], rest)
      | (45 :: b :: more) :: rest => do
          let c := Char.ofNat b.toNat
          if plain.toList.contains c then
            let next := if more.isEmpty then rest else (45 :: more) :: rest
            let (given, operands) ← takeOptions plain valued n next
            pure ((c, []) :: given, operands)
          else if valued.toList.contains c then
            match more, rest with
            | [], [] => fail (Bytes.ofString s!"No arg for -{c} option")
            | [], value :: rest => do
                let (given, operands) ← takeOptions plain valued n rest
                pure ((c, value) :: given, operands)
            | value, rest => do
                let (given, operands) ← takeOptions plain valued n rest
                pure ((c, value) :: given, operands)
          else fail (Bytes.ofString s!"Illegal option -{c}")
      | _ => pure ([], args)

/-- The options of a builtin and its operands. -/
def optionsOf (plain valued : String) (args : List Bytes) :
    Act ρ (List (Char × Bytes) × List Bytes) :=
  takeOptions plain valued (args.flatten.length + 1) args

/-- The number that an argument is. -/
def numberOf (arg : Bytes) : Act ρ Nat :=
  match Tool.decimal? arg with
  | some n => pure n
  | none => failNumber arg

/-- The letters of a script's options, with their names. -/
def optionNames : List (Char × String) :=
  [('e', "errexit"), ('f', "noglob"), ('I', "ignoreeof"), ('i', "interactive"), ('m', "monitor"),
   ('n', "noexec"), ('s', "stdin"), ('x', "xtrace"), ('v', "verbose"), ('V', "vi"), ('E', "emacs"),
   ('C', "noclobber"), ('a', "allexport"), ('b', "notify"), ('u', "nounset"), ('p', "privileged"),
   ('L', "nolog"), ('D', "debug")]

/-- Turns an option on or off. -/
def setOption (letter : Char) (on : Bool) : Act ρ Unit :=
  modify fun f =>
    { f with options := if on then letter :: f.options.erase letter else f.options.erase letter }

/-- All options with their state, to be read by people or by a script. -/
def shownOptions (f : Frame) (forPeople : Bool) : Bytes :=
  let row : Char × String → String := fun (letter, name) =>
    if forPeople then
      name ++ String.ofList (List.replicate (16 - name.length) ' ') ++
        if f.has letter then "on" else "off"
    else "set " ++ (if f.has letter then "-o " else "+o ") ++ name
  let heading := if forPeople then Bytes.ofLine "Current option settings" else []
  heading ++ optionNames.flatMap fun entry => Bytes.ofLine (row entry)

/-- What a row of options came to. -/
structure Settled where
  /-- The arguments after the options. -/
  operands : List Bytes
  /-- Did something end the options that is no option? -/
  ended : Bool := false
  /-- Is the first operand a script? Only where the script starts. -/
  script : Bool := false

/-- Sets options named by letters. `starting`: the script is being started.
By letter, one way of editing lines turns the other off. -/
def setLetters (on starting : Bool) : Bytes → List Bytes → Act ρ (List Bytes × Bool)
  | [], rest => pure (rest, false)
  | b :: more, rest => do
      let c := Char.ofNat b.toNat
      if c = 'c' && starting then
        let (rest, _) ← setLetters on starting more rest
        pure (rest, true)
      else if c = 'o' then
        match rest with
        | [] => do
            let _ ← emit (shownOptions (← get) on)
            setLetters on starting more []
        | name :: rest => do
            match optionNames.find? fun (_, n) => Bytes.ofString n = name with
            | some (letter, _) => setOption letter on
            | none => fail (Bytes.ofString "Illegal option -o " ++ name)
            setLetters on starting more rest
      else if "efIimnsxvVECabup".toList.contains c then
        setOption c on
        if on && c = 'V' then setOption 'E' false
        if on && c = 'E' then setOption 'V' false
        setLetters on starting more rest
      else fail (Bytes.ofString s!"Illegal option -{c}")

/-- Sets options at the start of arguments. -/
def setOptions (starting : Bool) : Nat → List Bytes → Act ρ Settled
  | 0, args => pure { operands := args }
  | n + 1, args =>
      match args with
      | [45] :: rest => do
          if !starting then
            setOption 'x' false
            setOption 'v' false
          pure { operands := rest }
      | [45, 45] :: rest => pure { operands := rest, ended := true }
      | (45 :: letters) :: rest => go n true letters rest
      | (43 :: letters) :: rest => go n false letters rest
      | _ => pure { operands := args }
where
  go (n : Nat) (on : Bool) (letters : Bytes) (rest : List Bytes) : Act ρ Settled := do
    let (rest, script) ← setLetters on starting letters rest
    let s ← setOptions starting n rest
    pure { s with script := s.script || script }

-- ============================================================== variables

/-- A list of variables by name, each after a text. -/
def listed (heading : String) (vs : Variables) : Bytes :=
  (vs.mergeSort fun a b => !(decide (b.name < a.name))).flatMap fun v =>
    Bytes.ofString heading ++ v.name ++
      (v.value.elim [] fun value => 61 :: inSingleQuotes value) ++ [10]

/-- `set`: lists variables, or sets options and arguments. -/
def setBuiltin : Builtin ρ := fun args => do
  if args.isEmpty then emit (listed "" ((← get).vars.filter fun v => v.value.isSome))
  else
    let s ← setOptions false (args.length + 1) args
    if s.ended || !s.operands.isEmpty then
      modify ({ · with args := s.operands, index := 1, letter := 0 })
    pure 0

/-- `shift`: drops arguments. -/
def shiftBuiltin : Builtin ρ := fun args => do
  let n ← match args with
    | [] => pure 1
    | arg :: _ => numberOf arg
  if (← get).args.length < n then fail (Bytes.ofString "can't shift that many")
  modify fun f => { f with args := f.args.drop n, index := 1, letter := 0 }
  pure 0

/-- The two sides of an equals sign in an argument. -/
def splitAssignment (arg : Bytes) : Bytes × Option Bytes :=
  let name := arg.takeWhile (· ≠ 61)
  (name, if name.length = arg.length then none else some (arg.drop (name.length + 1)))

/-- Refuses what cannot name a variable. -/
def checkName (name : Bytes) : Act ρ Unit := do
  if !isName name then failOf name "bad variable name"

/-- Marks variables, with or without a value, or lists those marked. -/
def markVariables (word : String) (isMarked : Variable → Bool)
    (mark : Variable → Variable) : Builtin ρ :=
  fun args => do
    let (given, operands) ← optionsOf "p" "" args
    if !given.isEmpty || operands.isEmpty then
      emit (listed (word ++ " ") ((← get).vars.filter isMarked))
    else
      for arg in operands do
        let (name, value) := splitAssignment arg
        checkName name
        match value with
        | some value => setVariable name value
        | none => pure ()
        modify fun f => { f with vars := f.vars.put (mark ((f.vars.find? name).getD { name })) }
      pure 0

/-- `export`: variables that programs get. -/
def exportBuiltin : Builtin ρ := markVariables "export" (·.exported) ({ · with exported := true })

/-- `readonly`: variables that never change again. -/
def readonlyBuiltin : Builtin ρ :=
  markVariables "readonly" (·.readOnly) ({ · with readOnly := true })

/-- `local`: variables that a call has for itself. -/
def localBuiltin : Builtin ρ := fun args => do
  if (← get).calls = 0 then fail (Bytes.ofString "not in a function")
  let (_, operands) ← optionsOf "" "" args
  for arg in operands do
    if arg = Tool.dash then
      modify fun f => { f with outerOptions := f.outerOptions.or (some f.options) }
    else
      let (name, value) := splitAssignment arg
      checkName name
      hideVariable name
      match value with
      | some value => setVariable name value
      | none => pure ()
  pure 0

/-- `unset`: removes variables or functions. -/
def unsetBuiltin : Builtin ρ := fun args => do
  let (given, operands) ← optionsOf "vf" "" args
  for name in operands do
    if given.getLast?.any (·.1 = 'f') then
      modify fun f => { f with functions := f.functions.filter (·.1 ≠ name) }
    else
      checkName name
      unsetVariable name
  pure 0

-- ================================================================ reading

/-- Reads a line byte by byte, so many at most, to leave what follows it
to others. A backslash protects the next byte, and joins lines, unless
`raw`. The value says whether the line had an end. -/
def readLine (raw : Bool) : Nat → List Item → Task ρ (List Item × Bool)
  | 0, line => pure (line.reverse, false)
  | n + 1, line => do
      match ← Task.read Fd.stdin 1 with
      | .ok [b] =>
          if b = 10 then pure (line.reverse, true)
          else if b = 0 then readLine raw n line
          else if b = 92 && !raw then
            match ← Task.read Fd.stdin 1 with
            | .ok [10] => readLine raw n line
            | .ok [c] => readLine raw n (.byte c true false :: line)
            | _ => pure (line.reverse, false)
          else readLine raw n (.byte b true true :: line)
      | _ => pure (line.reverse, false)

/-- Is the item a separator? -/
def isSeparator (separators : Bytes) : Item → Bool
  | .byte b _ true => separators.contains b
  | _ => false

/-- Is the item a separator that is a blank? -/
def isBlankSeparator (separators : Bytes) (i : Item) : Bool :=
  isSeparator separators i &&
    match i with
    | .byte b _ _ => defaultSeparators.contains b
    | _ => false

/-- The first field of a line, and what follows its separator. -/
def takeField (separators : Bytes) (line : List Item) : List Item × List Item :=
  let isBlank := isBlankSeparator separators
  let line := line.dropWhile isBlank
  let field := line.takeWhile (!isSeparator separators ·)
  let rest := (line.drop field.length).dropWhile isBlank
  let rest := if rest.head?.any (isSeparator separators) then rest.drop 1 else rest
  (field, rest.dropWhile isBlank)

/-- The fields of a line for so many variables; the last one gets all that
is left, without a separator after its only field. -/
def shareOut (separators : Bytes) : List Bytes → List Item → List (Bytes × Bytes)
  | [], _ => []
  | [name], line =>
      let isBlank := isBlankSeparator separators
      let line := line.dropWhile isBlank
      let (field, rest) := takeField separators line
      let whole := ((line.reverse.dropWhile isBlank).reverse)
      [(name, plainly (markedOf (if rest.isEmpty then field else whole)))]
  | name :: names, line =>
      let (field, rest) := takeField separators line
      (name, plainly (markedOf field)) :: shareOut separators names rest

/-- `read`: reads a line into variables. -/
def readBuiltin : Builtin ρ := fun args => do
  let (given, names) ← optionsOf "r" "p" args
  if names.isEmpty then fail (Bytes.ofString "arg count")
  let raw := given.any (·.1 = 'r')
  let (line, whole) ← (readLine raw Tool.blockBound [] : Task ρ (List Item × Bool))
  for (name, value) in shareOut (← get).separators names line do
    checkName name
    setVariable name value
  pure (if whole then 0 else 1)

-- ================================================================ getopts

/-- What one step through options finds. -/
structure OptionFound where
  letter : UInt8
  /-- The value of `OPTARG`, if it is to have one. -/
  value : Option Bytes
  /-- The number of the next argument, and how far the current one has
  been read; 0 if it is done. -/
  next : Nat
  offset : Nat := 0
  done : Bool := false
  complaint : Option String := none

/-- The next option among arguments: `index` is the number of the next
argument, and `offset` how far the one before it has been read. -/
def findOption (wanted : Bytes) (args : List Bytes) (index offset : Nat) : OptionFound :=
  let before := (args[index - 2]?).getD []
  let pending :=
    if index ≤ 1 || offset = 0 || before.length < offset then [] else before.drop offset
  let quiet := wanted.head? = some 58
  let stop (next : Nat) : OptionFound := { letter := 63, value := none, next, done := true }
  let take (index : Nat) (text : Bytes) : OptionFound :=
    match text with
    | [] => stop index
    | c :: more =>
        let current := (args[index - 2]?).getD []
        let offset := if more.isEmpty then current.length else current.length - more.length
        match if c = 58 then none else (wanted.dropWhile (· ≠ c)).head? with
        | none =>
            { letter := 63
              value := if quiet then some [c] else none
              next := index, offset
              complaint := if quiet then none else some s!"Illegal option -{Char.ofNat c.toNat}" }
        | some _ =>
            if ((wanted.dropWhile (· ≠ c)).drop 1).head? ≠ some 58 then
              { letter := c, value := some [], next := index, offset }
            else if !more.isEmpty then { letter := c, value := some more, next := index }
            else
              match args[index - 1]? with
              | some value => { letter := c, value := some value, next := index + 1 }
              | none =>
                  { letter := if quiet then 58 else 63
                    value := if quiet then some [c] else none
                    next := index, offset
                    complaint :=
                      if quiet then none else some s!"No arg for -{Char.ofNat c.toNat} option" }
  if !pending.isEmpty then take index pending
  else
    match args[index - 1]? with
    | some (45 :: b :: more) =>
        if b = 45 && more.isEmpty then stop (index + 1) else take (index + 1) (b :: more)
    | _ => stop index

/-- `getopts`: the next option among arguments. -/
def getoptsBuiltin : Builtin ρ := fun args => do
  match args with
  | wanted :: name :: given => do
      let f ← get
      let args := if given.isEmpty then f.args else given
      let (index, offset) := if args.length + 1 < f.index then (1, 0) else (f.index, f.letter)
      let found := findOption wanted args index offset
      match found.complaint with
      | some text => tell (Bytes.ofLine text)
      | none => pure ()
      if !found.done then
        match found.value with
        | some value => setVariable (Bytes.ofString "OPTARG") value
        | none => unsetVariable (Bytes.ofString "OPTARG")
      setVariable (Bytes.ofString "OPTIND") (Bytes.ofString (toString found.next))
      checkName name
      setVariable name [found.letter]
      modify ({ · with index := found.next, letter := found.offset })
      pure (if found.done then 1 else 0)
  | _ => fail (Bytes.ofString "Usage: getopts optstring var [arg...]")

end LineShell.Script
