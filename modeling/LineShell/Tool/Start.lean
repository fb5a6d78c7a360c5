/-
Programs that start others: `env`, `nohup`, `nice`, `timeout`.

They run another program in their own place, after a change to what it
will see; only `timeout` stays beside it, to end it when its time is up.
-/
import LineShell.Posix.Search
import LineShell.Posix.Signal
import LineShell.Tool.Make

namespace LineShell.Tool

open Posix

variable {ρ : Type}

-- ================================================================= statuses

/-- The status of a starter that did not come to starting anything. -/
def notStarted : Int := 125

/-- The status where a program cannot be run, and where there is none. -/
def startStatus (e : Errno) : Int := if e = .ENOENT then 127 else 126

/-- Runs a program in place of this one, or complains under some words. -/
def startOrComplain (use : Bytes → Bytes) (command : List Bytes) : Job ρ Int := do
  let name := command.headD []
  let _ ← Job.flush
  let e ← Job.task (Search.execByName name command)
  Job.complainOf (use name) e
  pure (startStatus e)

-- ====================================================================== env

/-- Takes a variable out of the environment. -/
def unsetVariable (name : Bytes) : Job ρ Unit := do
  if name.isEmpty || name.contains 61 then
    Job.complainOf (Bytes.ofString "cannot unset " ++ marked name) .EINVAL
    Job.exit notStarted
  Job.modifyView (·.modifyProcess fun p => { p with env := p.env.unset name.decodeLossy })

/-- Puts an assignment into the environment. -/
def setVariable (assignment : Bytes) : Job ρ Unit := do
  let name := assignment.takeWhile (· ≠ 61)
  let value := assignment.drop (name.length + 1)
  Job.modifyView (Call.setVar (Bytes.decodeLossy name) (Bytes.decodeLossy value)).after

def envTool : Body ρ := fun args =>
  withOptions
    { plain := "i0", valued := "uC", inFront := true
      long := [("ignore-environment", 'i'), ("null", '0'), ("unset", 'u'), ("chdir", 'C')] }
    args notStarted fun o => do
      let dashed := o.operands.head? = some dash
      let words := if dashed then o.operands.drop 1 else o.operands
      if dashed || o.has 'i' then Job.modifyView (·.modifyProcess ({ · with env := {} }))
      (o.values 'u').forM unsetVariable
      let assignments := words.takeWhile (·.contains 61)
      assignments.forM setVariable
      let command := words.drop assignments.length
      if o.has '0' && !command.isEmpty then
        Job.misused (Bytes.ofString "cannot specify --null (-0) with command") notStarted
      match o.value? 'C' with
      | none => pure ()
      | some dir =>
          if command.isEmpty then
            Job.misused (Bytes.ofString "must specify command with --chdir (-C)") notStarted
          match ← Job.call (Call.changeDir dir) with
          | .ok () => pure ()
          | .error e => do
              Job.complainOf (Bytes.ofString "cannot change directory to " ++ marked dir) e
              Job.exit notStarted
      match command with
      | [] => do
          Job.say (withEnd (o.has '0')
            ((← Job.view fun v => v.process.env).bindings.map bindingText))
          pure 0
      | name :: _ => do
          let status ← startOrComplain marked command
          if status = startStatus .ENOENT && name.contains 32 then
            Job.complainText "use -[v]S to pass options in shebang lines"
          pure status

-- =========================================================== nohup and nice

/-- The words of complaint about a command. -/
def failedToRun (name : Bytes) : Bytes := Bytes.ofString "failed to run command " ++ inQuotes name

/-- The signal that a terminal sends when it goes away. -/
def hangup : Nat := 1

def nohupTool : Body ρ := fun args =>
  withOptions { inFront := true } args notStarted fun o => do
    if o.operands.isEmpty then Job.missingOperand notStarted
    Job.modifyView (·.modifyProcess fun p => { p with ignored := hangup :: p.ignored.erase hangup })
    startOrComplain failedToRun o.operands

/-- `nice`: nothing here runs faster or slower for it. -/
def niceTool : Body ρ := fun args =>
  let args :=
    match args with
    | (45 :: b :: digits) :: rest =>
        if 48 ≤ b && b ≤ 57 then [45, 110] :: (b :: digits) :: rest else args
    | _ => args
  withOptions { valued := "n", inFront := true, long := [("adjustment", 'n')] }
        args notStarted fun o => do
    match o.value? 'n' with
    | some text =>
        if (signed? text).isNone then
          Job.die (Bytes.ofString "invalid adjustment " ++ marked text) notStarted
    | none => pure ()
    if o.operands.isEmpty then
      if o.has 'n' then
        Job.misused (Bytes.ofString "a command must be given with an adjustment") notStarted
      else do
        Job.say (Bytes.ofLine "0")
        pure 0
    else startOrComplain marked o.operands

-- ================================================================== timeout

/-- A signal by its name, with or without `SIG`, or by its number. -/
def signalNamed? (text : Bytes) : Option Nat :=
  match decimal? text with
  | some n => if n ≤ Signal.lastRealTime then some n else none
  | none => do
      let name := (← text.decode).map Char.toUpper
      let short := if name.startsWith "SIG" then (name.drop 3).toString else name
      if short = "EXIT" then some 0 else Signal.number? short

/-- The status of a command that was ended in time, and of one that was
not. -/
def timedOut : Int := 124

/-- Runs a command beside a clock that ends it. The clock is given the
moment that it takes to end by itself, which tells that it rang. What was
ended by a signal otherwise takes the one who waits with it, and the
signal that nobody can ignore does so too. -/
def runWithin (duration : Nat) (signal : Nat) (keeps : Bool) (command : List Bytes) :
    Task ρ Int := do
  let worker ← Task.fork (Task.run do
    let e ← Search.execByName (command.headD []) command
    let _ ← Task.writeAll Fd.stderr (Bytes.ofString "timeout: " ++ failedToRun (command.headD []) ++
      Bytes.ofLine (": " ++ e.libraryText))
    Task.exit (startStatus e))
  let clock ← Task.fork (Task.run do
    Task.sleep duration
    let _ ← Task.kill worker signal
    Task.exit 0)
  let ended ← Task.wait worker
  Task.sleep 1
  let _ ← Task.kill clock Signal.kill
  let rang : Bool :=
    match ← Task.wait clock with
    | .ok (_, .exited _) => true
    | _ => false
  match ended with
  | .ok (_, .exited code) => pure (if rang && !keeps then timedOut else code)
  | .ok (_, .signaled n) => do
      if !rang || signal = Signal.kill then
        let _ ← Task.kill 0 n.toNat
      pure (if rang && !keeps then timedOut else 128 + n)
  | .error _ => pure notStarted

def timeoutTool : Body ρ := fun args =>
  withOptions
    { plain := "pf", valued := "sk", inFront := true
      long := [("preserve-status", 'p'), ("foreground", 'f'), ("signal", 's'),
              ("kill-after", 'k')] }
    args notStarted fun o => do
      if o.operands.length < 2 then Job.adviseHelp notStarted
      let signal : Nat ←
        match o.value? 's' with
        | none => pure Signal.terminate
        | some text =>
            match signalNamed? text with
            | some n => pure n
            | none => Job.misused (inQuotes text ++ Bytes.ofString ": invalid signal") notStarted
      let text := o.operands.headD []
      match microseconds? text with
      | none => Job.misused (Bytes.ofString "invalid time interval " ++ marked text) notStarted
      | some 0 => startOrComplain failedToRun (o.operands.drop 1)
      | some duration => Job.task (runWithin duration signal (o.has 'p') (o.operands.drop 1))

end LineShell.Tool
