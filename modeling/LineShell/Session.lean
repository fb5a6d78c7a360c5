/-
A session: steps taken one after the other by one shell process.

A step is a line, a tree, or one of the parts that executing a tree is
made of: a builtin, the opening and attaching of redirections, the start
of a child and the waiting for it. Each step's answer says how it went
and what it changed: the working directory, what was written to the two
output streams, the variables set, and what was asked of the launcher.
The session ends early when a step ends the shell process.
-/
import LineShell.Session.Setup
import LineShell.Command.Parse
import LineShell.Posix.Machine
import LineShell.Launch
import LineShell.Rehearsal.Scripted
import LineShell.Rehearsal.Recorded

namespace LineShell.Session

open Posix

/-- Who answers the walks of a session. -/
inductive Launching where
  | forking
  | scripted (script : Scripted.Script)
  | recorded (endings : List (String × Ending))
  deriving Repr, Inhabited

inductive Step where
  | line (text : String)
  | tree (t : Tree)
  | builtin (b : Builtin) (c : Command)
  /-- Open the redirections, attach them under a guard, and use the
  streams before and after it is restored. -/
  | redirect (c : Command)
  /-- The same, attaching for good; the streams are put back by hand. -/
  | attach (c : Command)
  /-- Start a program and wait for it, a second time if so asked. -/
  | launch (c : Command) (again : Bool)
  | fork (t : Tree) (again : Bool)
  | wait (child : Int) (again : Bool)
  /-- A step for which only so many descriptors can be opened. -/
  | spare (count : Nat) (step : Step)
  deriving Repr, Inhabited

/-- What a step came to. -/
inductive Result where
  | blank
  | invalid (e : SyntaxError)
  | status (code : Int)
  | failed (e : ExecError)
  | notOpened (e : RedirectError)
  | notAttached (e : Errno)
  /-- What was read while the files were attached, and afterwards. -/
  | streams (during after : Except Errno Bytes)
  | child (first : Except ExecError Ending) (again : Option (Except ExecError Ending))

structure Answer where
  result : Result
  cwd : String
  out : Bytes
  err : Bytes
  /-- Variables set or changed, with their new values. -/
  vars : List (String × String)
  /-- The log lines that start subtrees. -/
  trace : List String
  scripted : List Scripted.Call
  recorded : List String

-- ======================================================== single streams

/-- Writes a line to each output stream, the given number in it. -/
def markStreams (n : String) (v : View) : View :=
  let v := (Call.writeNow Fd.stdout (Bytes.ofLine ("o" ++ n))).after v
  (Call.writeNow Fd.stderr (Bytes.ofLine ("e" ++ n))).after v

/-- Uses the streams twice, with something in between that gives them
back. -/
def useStreams (giveBack : View → View) (v : View) : Result × View :=
  let (during, v) := (Call.readToEnd Fd.stdin).attempt (markStreams "2" (markStreams "1" v))
  let (after, v) := (Call.readToEnd Fd.stdin).attempt (markStreams "3" (giveBack v))
  (.streams during after, v)

def redirectStep (c : Command) (v : View) : Result × View :=
  match Redirection.openAll c v with
  | (.error e, v) => (.notOpened e, v)
  | (.ok opened, v) =>
      match Redirection.attachScoped opened v with
      | (.error e, v) => (.notAttached e, v)
      | (.ok guard, v) => useStreams (Redirection.restore guard) v

def attachStep (c : Command) (v : View) : Result × View :=
  let fds := v.process.fds
  let giveBack (v : View) := v.modifyFds fun _ => fds
  match Redirection.openAll c v with
  | (.error e, v) => (.notOpened e, v)
  | (.ok opened, v) =>
      match Redirection.attach opened v with
      | (.error e, v) => (.notAttached e, giveBack v)
      | (.ok (), v) => useStreams giveBack v

-- ====================================================== steps as programs

/-- The outcome of a tree as a result. -/
def Result.ofStatus : Except ExecError Int → Result
  | .ok s => .status s
  | .error e => .failed e

/-- Waits for a child once or twice. -/
def waitStep (child : Int) (again : Bool) : Task Result Result := do
  let first ← waitFor child
  if again then
    let second ← waitFor child
    pure (.child first (some second))
  else pure (.child first none)

/-- What a step does in the shell process, trees and lines aside. -/
def Step.task : Step → Task Result Result
  | .line _ | .tree _ => pure .blank
  | .builtin b c => do
      match ← Task.act (b.run c) with
      | .status s => pure (.status s)
      | .leave => Task.exit 0
  | .redirect c => Task.act (redirectStep c)
  | .attach c => Task.act (attachStep c)
  | .launch c again => do
      let child ← launchProgram c
      waitStep child again
  | .fork t again => do
      let child ← launchBranch t .parallel .inherit (Walk.execute t 1 (some .parallel)).perform
      waitStep child again
  | .wait child again => waitStep child again
  | .spare _ s => s.task

/-- The tree that a step executes, if any: what kind of step it is besides
is left to `task`. -/
def Step.tree? : Step → Option (Except SyntaxError (Option Tree))
  | .line text => some (Tree.parse text)
  | .tree t => some (.ok (some t))
  | .spare _ s => s.tree?
  | _ => none

-- ============================================================ descriptors

/-- The limit under which descriptors are made scarce. -/
def scarceLimit : Nat := 64

/-- Leaves a process exactly so many descriptors to open: the limit is
lowered, and what is free below it beyond that number is filled with
descriptors that executed programs do not get. -/
def makeScarce (count : Nat) (v : View) : View :=
  let free := (List.range scarceLimit).filter fun fd => !v.process.fds.isOpen fd
  let filler : Handle := ⟨v.world.files.size, true⟩
  let directory : OpenFile := { target := .node FileTree.root, readable := true, writable := false }
  let v := v.modifyWorld fun w => { w with files := w.files.push directory }
  v.modifyProcess fun p =>
    { p with
      fdLimit := scarceLimit
      fds := (free.drop count).foldl (fun t fd => t.set fd filler) p.fds }

/-- Takes the scarcity back, given the number of open files before it. -/
def endScarcity (filler limit : Nat) (v : View) : View :=
  v.modifyProcess fun p =>
    { p with fdLimit := limit, fds := ⟨p.fds.rows.filter (·.2.file ≠ filler)⟩ }

/-- How many descriptors a step leaves to open, if it says. -/
def Step.spare? : Step → Option Nat
  | .spare count _ => some count
  | _ => none

-- ================================================================ running

/-- A session under way. -/
structure State where
  stage : Stage
  machine : Machine Result
  launching : Launching
  scripted : Scripted.State
  recorded : Recorded.State

/-- How many moves of the machine a step may take. -/
def fuel : Nat := 1000000000

/-- Executes the tree of a step; the result, or none where the process
left. -/
def executeTree (programs : Installed Result) (t : Tree) (s : State) : Option Result × State :=
  let walk := Walk.execute t 0 none
  let result : Outcome → Option Result
    | .finished status => some (.status status)
    | .failed e => some (.failed e)
    | .left => none
  match s.launching with
  | .forking =>
      let todo : Task Result Result := Result.ofStatus <$> walk.perform
      let m := s.machine.perform programs fuel (todo .ret)
      match m.standing with
      | .result r => (some r, { s with machine := m })
      | _ => (none, { s with machine := m })
  | .scripted _ =>
      let (o, scripted, v) := walk.rehearse Scripted.launcher s.scripted s.machine.view
      (result o, { s with scripted, machine := s.machine.setView v })
  | .recorded _ =>
      let (o, recorded, v) := walk.rehearse Recorded.launcher s.recorded s.machine.view
      (result o, { s with recorded, machine := s.machine.setView v })

/-- Takes a step; the result, or none where the process left. -/
def takeStep (programs : Installed Result) (step : Step) (s : State) : Option Result × State :=
  match step.tree? with
  | some (.error e) => (some (.invalid e), s)
  | some (.ok none) => (some .blank, s)
  | some (.ok (some t)) => executeTree programs t s
  | none =>
      let m := s.machine.perform programs fuel (step.task .ret)
      match m.standing with
      | .result r => (some r, { s with machine := m })
      | _ => (none, { s with machine := m })

/-- Takes a step with as many descriptors as it says. -/
def takeScarceStep (programs : Installed Result) (step : Step) (s : State) :
    Option Result × State :=
  match step.spare? with
  | none => takeStep programs step s
  | some count =>
      let v := s.machine.view
      let (r, s) :=
        takeStep programs step { s with machine := s.machine.setView (makeScarce count v) }
      let restore := endScarcity v.world.files.size v.process.fdLimit
      (r, { s with machine := s.machine.setView (restore s.machine.view) })

/-- What a file has gained. -/
def gained (id : NodeId) (before after : View) : Bytes :=
  (contentsOf after.world.tree id).drop (contentsOf before.world.tree id).length

/-- The variables that differ, with their new values. -/
def changedVars (before after : Environment) : List (String × String) :=
  after.bindings.filter fun (name, value) => before.get? name ≠ some value

/-- The answer to a step, from the states before and after it. -/
def answer (result : Result) (before after : State) : Answer :=
  let old := before.machine.view
  let new := after.machine.view
  let logged := new.process.log.take (new.process.log.length - old.process.log.length)
  { result
    cwd := new.cwdText
    out := gained before.stage.out old new
    err := gained before.stage.err old new
    vars := changedVars old.process.env new.process.env
    trace := (logged.reverse.map LogRecord.text).filter ("execute ".isPrefixOf ·)
    scripted := after.scripted.calls.drop before.scripted.calls.length
    recorded := after.recorded.lines.drop before.recorded.lines.length }

/-- How a session ended: the answers to the steps taken, the code with
which the shell process ended if it did, and the state at the end. -/
structure Report where
  answers : List Answer
  terminated : Option Int
  final : State

/-- The code with which the shell process ended. A rehearsed `exit` ends
it with zero. -/
def exitCode (s : State) : Int :=
  match s.machine.standing with
  | .ended (.exited code) => code
  | .ended (.signaled n) => 128 + n
  | _ => 0

/-- Takes steps until none is left or the shell process ends. -/
def takeSteps (programs : Installed Result) : List Step → State → Report
  | [], s => ⟨[], none, s⟩
  | step :: rest, s =>
      match takeScarceStep programs step s with
      | (none, s') => ⟨[], some (exitCode s'), s'⟩
      | (some r, s') =>
          let report := takeSteps programs rest s'
          { report with answers := answer r s s' :: report.answers }

/-- Runs a session from its start. -/
def run (programs : Installed Result) (names : List String) (setup : Setup)
    (launching : Launching) (steps : List Step) : Report :=
  let stage := setup.stage names
  let scripted : Scripted.State :=
    match launching with
    | .scripted script => { script }
    | _ => { script := {} }
  let recorded : Recorded.State :=
    match launching with
    | .recorded endings => { endings }
    | _ => {}
  takeSteps programs steps
    { stage, machine := .start stage.view .blank, launching, scripted, recorded }

/-- Everything that was written to the two output streams. -/
def Report.written (r : Report) : Bytes × Bytes :=
  let tree := r.final.machine.world.tree
  (contentsOf tree r.final.stage.out, contentsOf tree r.final.stage.err)

/-- What the session's directory holds at the end. -/
def Report.files (r : Report) : List (Bytes × Listed) :=
  list r.final.machine.world.tree r.final.stage.root

end LineShell.Session
