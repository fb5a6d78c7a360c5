/-
The builtins about processes: `kill`, `wait`, `trap`, `umask`, `ulimit`.
-/
import LineShell.Script.Builtin.Variables
import LineShell.Tool.Print

namespace LineShell.Script

open Posix

variable {ρ : Type}

-- =============================================================== children

/-- The status that an ending amounts to. -/
def statusOf : Ending → Int
  | .exited code => code
  | .signaled n => 128 + n

/-- Waits until a child ends, and remembers its status. What is said of
one that a signal ended goes to standard error if it is among those waited
for; broken pipes and interrupts pass without a word. The value says
whether there was a child. -/
def waitForOne (awaited : List Pid) : Act ρ Bool := do
  match ← (Task.wait (-1) : Task ρ (Except Errno (Pid × Ending))) with
  | .error _ => pure false
  | .ok (pid, how) => do
      modify fun f => { f with ended := (pid, statusOf how) :: f.ended }
      match how with
      | .signaled n =>
          if awaited.contains pid && n ≠ Signal.pipe && n ≠ Signal.interrupt then
            tell (Bytes.ofLine (Signal.text n.toNat))
      | .exited _ => pure ()
      pure true

/-- Waits for processes, for so many children at most, and gives the
status of the last one. -/
def waitForThese (pids : List Pid) : Nat → Act ρ Int
  | 0 => pure exitNotFound
  | n + 1 => do
      let f ← get
      if pids.all fun p => (f.ended.lookup p).isSome then
        pure ((pids.getLast?.bind fun p => f.ended.lookup p).getD 0)
      else if ← waitForOne pids then waitForThese pids n
      else pure exitNotFound

/-- Waits for the processes of one statement and gives its status. -/
def waitForJob (pids : List Pid) : Act ρ Int := waitForThese pids Tool.blockBound

/-- Waits until there is no child left, for so many at most. -/
def waitForAll : Nat → Act ρ Unit
  | 0 => pure ()
  | n + 1 => do
      if ← waitForOne [] then waitForAll n

/-- The processes of the statement in the background whose last one has
the number that an argument is. -/
def jobOf (arg : Bytes) : Act ρ (Option (List Pid)) := do
  let pid ← numberOf arg
  pure ((← get).jobs.find? (·.getLast? = some pid))

/-- `wait`: waits for children, those given or all. -/
def waitBuiltin : Builtin ρ := fun args => do
  let (_, operands) ← optionsOf "" "" args
  if operands.isEmpty then
    waitForAll Tool.blockBound
    pure 0
  else
    operands.foldlM
      (fun _ arg => do
        match ← jobOf arg with
        | some pids => waitForJob pids
        | none => pure exitNotFound)
      (0 : Int)

-- ================================================================ signals

/-- The signal that a text names, by number or name, from a number on. -/
def signalOf (least : Nat) (text : Bytes) : Option Nat :=
  match Tool.decimal? text with
  | some n => if n ≤ Signal.lastRealTime then some n else none
  | none => (text.decode.bind Signal.number?).filter (least ≤ ·)

/-- How `kill` is used. -/
def killUsage : Bytes :=
  Bytes.ofString
    "Usage: kill [-s sigspec | -signum | -sigspec] [pid | job]... or\nkill -l [exitstatus]"

/-- The names of signals, or of the one that a number or status stands
for. -/
def listSignals (args : List Bytes) : Act ρ Int := do
  match args with
  | [] =>
      let names :=
        (List.range Signal.lastRealTime).map fun n => Bytes.ofLine (Signal.shortName (n + 1))
      emit (Bytes.ofLine "0" ++ names.flatten)
  | arg :: _ => do
      let n ← numberOf arg
      let n := if 128 < n then n - 128 else n
      if 0 < n && n ≤ Signal.lastRealTime then emit (Bytes.ofLine (Signal.shortName n))
      else fail (Bytes.ofString "invalid signal number or exit status: " ++ arg)

/-- Sends a signal to processes. -/
def sendSignal (signal : Nat) (targets : List Bytes) : Act ρ Int := do
  targets.foldlM
    (fun status target => do
      let pid : Int ← match target with
        | 45 :: digits => do pure (-(← numberOf digits : Int))
        | _ => do pure (← numberOf target : Int)
      match ← (Task.kill pid signal : Task ρ (Except Errno Unit)) with
      | .ok () => pure status
      | .error e => do
          warn (Bytes.ofString (e.libraryText ++ "\n"))
          pure Tool.failure)
    (0 : Int)

/-- `kill`: sends a signal, or lists signals. -/
def killBuiltin : Builtin ρ := fun args => do
  match args with
  | [] => fail killUsage
  | first :: rest => do
      let named := if first.head? = some 45 then signalOf 1 (first.drop 1) else none
      let (signal, list, targets) : Option Nat × Bool × List Bytes ←
        match named with
        | some n => pure (some n, false, rest)
        | none =>
            if first.head? ≠ some 45 then pure (none, false, args)
            else do
              let (given, operands) ← optionsOf "l" "s" args
              let signal ← given.foldlM
                (fun found (letter, value) => do
                  if letter = 's' then
                    match signalOf 1 value with
                    | some n => pure (some n)
                    | none => fail (Bytes.ofString "invalid signal number or name: " ++ value)
                  else pure found)
                (none : Option Nat)
              pure (signal, given.any (·.1 = 'l'), operands)
      if list then if signal.isSome then fail killUsage else listSignals targets
      else if targets.isEmpty then fail killUsage
      else sendSignal (signal.getD Signal.terminate) targets

/-- What the process does on a signal from now on. -/
def setDisposition (signal : Nat) (action : Option Bytes) (v : View) : View :=
  v.modifyProcess fun p =>
    let ignored := p.ignored.erase signal
    let caught := p.caught.erase signal
    match action with
    | none => { p with ignored, caught }
    | some [] => { p with ignored := signal :: ignored, caught }
    | some _ => { p with ignored, caught := signal :: caught }

/-- `trap`: lists what is to be done on signals, or sets it. -/
def trapBuiltin : Builtin ρ := fun args => do
  let (_, operands) ← optionsOf "" "" args
  match operands with
  | [] =>
      let traps := (← get).traps.mergeSort fun a b => a.1 ≤ b.1
      emit (traps.flatMap fun (n, action) =>
        Bytes.ofString "trap -- " ++ inSingleQuotes action ++
          Bytes.ofLine (" " ++ Signal.shortName n))
  | first :: rest => do
      let (action, signals) : Option Bytes × List Bytes :=
        if rest.isEmpty then (none, operands)
        else (if first = Tool.dash then none else some first, rest)
      signals.foldlM
        (fun status signal => do
          if status ≠ 0 then pure status
          else
            match signalOf 0 signal with
            | none => do
                tell (Bytes.ofString "trap: " ++ signal ++ Bytes.ofLine ": bad trap")
                pure Tool.failure
            | some n => do
                modify fun f =>
                  { f with traps := (action.map ((n, ·))).toList ++ f.traps.filter (·.1 ≠ n) }
                if n ≠ 0 then (Task.modify (setDisposition n action) : Task ρ Unit)
                pure status)
        (0 : Int)

/-- What a process that a script starts for a part of itself forgets: what
to do on signals, ignoring them excepted. -/
def forgetTraps (f : Frame) : Task ρ Frame := do
  let kept := f.traps.filter fun (n, action) => n ≠ 0 && action.isEmpty
  (f.traps.filter fun (n, action) => n ≠ 0 && !action.isEmpty).forM fun (n, _) =>
    Task.modify (setDisposition n none)
  pure { f with traps := kept }

-- ================================================================= limits

/-- The mask for new files as letters of what it leaves to whom. -/
def symbolicMask (mask : Nat) : String :=
  let rights (shift : Nat) : String :=
    let bits := 7 - mask / Nat.pow 8 shift % 8
    (if bits &&& 4 ≠ 0 then "r" else "") ++ (if bits &&& 2 ≠ 0 then "w" else "") ++
      if bits &&& 1 ≠ 0 then "x" else ""
  "u=" ++ rights 2 ++ ",g=" ++ rights 1 ++ ",o=" ++ rights 0

/-- The bits of everybody whom letters name. -/
def positionBits (letters : Bytes) : Nat :=
  letters.foldl
    (fun bits b => bits ||| (if b = 97 then 0o111 else
              if b = 117 then 0o100 else if b = 103 then 0o010 else 0o001))
    0

/-- The rights that letters name, where those of others may be meant. -/
def rightBits (rights : Nat) (letters : Bytes) : Nat :=
  letters.foldl
    (fun bits b =>
      bits ||| match b.toNat with
        | 114 => 4
        | 119 => 2
        | 120 => 1
        | 117 => rights / 64
        | 103 => rights / 8
        | 111 => rights
        | 88 => if rights &&& 0o111 ≠ 0 then 1 else 0
        | _ => 0)
    0 &&& 7

/-- The rights after changes spelled with letters, in so many steps; none
if they are not spelled well. `old` are the rights before all changes. -/
def changeRights (old : Nat) : Nat → Nat → Bytes → Option Nat
  | 0, _, _ => none
  | _, rights, [] => some rights
  | n + 1, rights, text =>
      let whom := text.takeWhile fun b => "augo".toList.contains (Char.ofNat b.toNat)
      let positions := if whom.isEmpty then 0o111 else positionBits whom
      actions n rights positions (text.drop whom.length)
where
  /-- Changes for those whose bits are given. -/
  actions (n rights positions : Nat) (text : Bytes) : Option Nat :=
    match text with
    | op :: rest =>
        if op = 61 || op = 43 || op = 45 then
          let letters := rest.takeWhile fun b => "rwxugoXs".toList.contains (Char.ofNat b.toNat)
          let bits := rightBits old letters * positions
          let everything := 0o777
          let rights :=
            if op = 45 then rights &&& (everything ^^^ bits)
            else if op = 43 then rights ||| bits
            else bits ||| (rights &&& (everything ^^^ (positions * 7)))
          match n, rest.drop letters.length with
          | n + 1, 44 :: more => changeRights old n rights more
          | _, [] => some rights
          | n + 1, more => actions n rights positions more
          | 0, _ => none
        else none
    | [] => none

/-- `umask`: shows the mask for new files, or sets it. -/
def umaskBuiltin : Builtin ρ := fun args => do
  let (given, operands) ← optionsOf "S" "" args
  let mask ← (Task.view fun v => v.process.umask : Task ρ Nat)
  match operands with
  | [] =>
      if given.isEmpty then
        let ds := Nat.toDigits 8 mask
        emit (Bytes.ofLine (String.ofList (List.replicate (4 - ds.length) '0' ++ ds)))
      else emit (Bytes.ofLine (symbolicMask mask))
  | arg :: _ => do
      let mask ←
        if arg.head?.any isDigit then
          let (mask, rest) := Tool.digits 8 arg.length 0 arg
          if rest.isEmpty then pure mask else failNumber arg
        else
          match changeRights (0o777 - mask) (2 * arg.length + 2) (0o777 - mask) arg with
          | some rights => pure (0o777 - rights)
          | none => fail (Bytes.ofString "Illegal mode: " ++ arg)
      (Task.modify fun v => v.modifyProcess ({ · with umask := mask % 0o1000 }) : Task ρ Unit)
      pure 0

/-- `ulimit`: shows the limit on descriptors, or sets it; nothing else is
limited. -/
def ulimitBuiltin : Builtin ρ := fun args => do
  let (given, operands) ← optionsOf "HStfdscmlpnvwr" "" args
  let ofDescriptors := given.any (·.1 = 'n')
  match operands with
  | [] =>
      if ofDescriptors then
        let limit ← (Task.view fun v => v.process.fdLimit : Task ρ Nat)
        emit (Bytes.ofLine (toString limit))
      else emit (Bytes.ofLine "unlimited")
  | arg :: _ =>
      match Tool.decimal? arg with
      | none =>
          if arg = Bytes.ofString "unlimited" then pure 0 else fail (Bytes.ofString "bad number")
      | some n => do
          if ofDescriptors then
            (Task.modify fun v => v.modifyProcess ({ · with fdLimit := n }) : Task ρ Unit)
          pure 0

end LineShell.Script
