/-
A scripted launcher: how the programs end and which primitives fail is
written down in advance, and every call is recorded.

Children are numbered from 1 in the order in which they are registered;
channels are numbered likewise, and their ends named after them. A call
that fails by the script is recorded as such and has no other effect,
but it counts. What a branch did to working directory and environment is
undone when the branch is over, as if it had been a process.
-/
import LineShell.Rehearsal

namespace LineShell.Scripted

open Posix

/-- The primitives that a script can make fail. -/
inductive Primitive where
  | launch
  | fork
  | channel
  | wait
  deriving DecidableEq, Repr, Inhabited

namespace Primitive

def name : Primitive → String
  | launch => "launch"
  | fork => "fork"
  | channel => "channel"
  | wait => "wait"

/-- The error that a failing primitive gives. -/
def error : Primitive → Errno → ExecError
  | launch, e | fork, e => .fork e
  | channel, e => .channel e
  | wait, e => .wait e

end Primitive

/-- A call that is to fail: the how-manieth of its kind, from 1. -/
structure Fault where
  primitive : Primitive
  nth : Nat
  cause : Errno
  deriving DecidableEq, Repr, Inhabited

structure Script where
  /-- The endings of the programs of a verb, one a start, the last one
  over and over. -/
  endings : List (String × List Ending) := []
  faults : List Fault := []
  deriving Repr, Inhabited

/-- One end of a numbered channel. -/
structure EndName where
  channel : Nat
  writing : Bool
  deriving DecidableEq, Repr, Inhabited

def EndName.text (e : EndName) : String :=
  "c" ++ toString e.channel ++ (if e.writing then ".w" else ".r")

/-- A wiring in terms of channel ends. -/
structure NamedWiring where
  stdin : Option EndName
  stdout : Option EndName
  close : List EndName
  deriving DecidableEq, Repr, Inhabited

inductive Call where
  | launch (c : Command) (child : Child)
  | fork (parent : Operator) (depth : Nat) (label : String) (wiring : NamedWiring)
  | exec (c : Command) (child : Child)
  | branch (status : Int) (child : Child)
  | channel (number : Nat)
  | wait (child : Child) (openEnds : List EndName)
  | fail (p : Primitive) (nth : Nat)
  deriving DecidableEq, Repr, Inhabited

structure State where
  script : Script
  /-- All calls so far, failing ones included, by kind. -/
  asked : List Primitive := []
  /-- The verbs of all programs started. -/
  started : List String := []
  /-- How many children have been registered. -/
  children : Nat := 0
  /-- Registered children, with the way they end. -/
  pending : List (Child × Ending) := []
  /-- How many channels have been made. -/
  channels : Nat := 0
  /-- Channels not given up, the oldest first. -/
  openChannels : List (Nat × Channel) := []
  calls : List Call := []
  deriving Repr, Inhabited

namespace State

def record (s : State) (c : Call) : State := { s with calls := s.calls ++ [c] }

/-- Counts a call; where the script has it fail, the failure is recorded
and given. -/
def ask (s : State) (p : Primitive) : Except ExecError Unit × State :=
  let s := { s with asked := p :: s.asked }
  let nth := s.asked.count p
  match s.script.faults.find? fun f => f.primitive = p && f.nth = nth with
  | some f => (.error (p.error f.cause), s.record (.fail p nth))
  | none => (.ok (), s)

/-- Registers a child that ends as given. -/
def register (s : State) (e : Ending) : Child × State :=
  let child := s.children + 1
  (child, { s with children := child, pending := (child, e) :: s.pending })

/-- Starts a program of a verb. -/
def start (s : State) (verb : String) : Child × State :=
  let endings := (s.script.endings.lookup verb).getD []
  let nth := s.started.count verb
  let ending := (endings[nth]?.or endings.getLast?).getD (.exited 0)
  { s with started := verb :: s.started }.register ending

/-- The name of a channel end by its descriptor. -/
def endOf (s : State) (fd : Fd) : EndName :=
  match s.openChannels.find? fun (_, ch) => ch.read = fd || ch.write = fd with
  | some (n, ch) => ⟨n, ch.write = fd⟩
  | none => ⟨0, false⟩

/-- The ends of all channels not given up. -/
def openEnds (s : State) : List EndName :=
  s.openChannels.flatMap fun (n, _) => [⟨n, false⟩, ⟨n, true⟩]

def nameWiring (s : State) (w : Wiring) : NamedWiring :=
  { stdin := w.stdin.map s.endOf, stdout := w.stdout.map s.endOf, close := w.close.map s.endOf }

end State

/-- The launcher that follows a script. -/
def launcher : Launcher State where
  launch c s :=
    match s.ask .launch with
    | (.error e, s) => (.error e, s)
    | (.ok (), s) =>
        let (child, s) := s.start c.verb
        (.ok child, s.record (.launch c child))
  enter q s :=
    match s.ask .fork with
    | (.error e, s) => (.error e, s)
    | (.ok (), s) =>
        (.ok (), s.record (.fork q.parent q.depth q.tree.label (s.nameWiring q.wiring)))
  exec c s :=
    let (child, s) := s.start c.verb
    (child, s.record (.exec c child))
  finish status s :=
    let (child, s) := s.register (.exited status)
    (child, s.record (.branch status child))
  connect s := s.ask .channel
  connected ch s :=
    let n := s.channels + 1
    { s with channels := n, openChannels := s.openChannels ++ [(n, ch)] }.record (.channel n)
  released ch s := { s with openChannels := s.openChannels.filter (·.2 ≠ ch) }
  wait child s :=
    match s.ask .wait with
    | (.error e, s) => (.error e, s)
    | (.ok (), s) =>
        let ending := (s.pending.lookup child).getD (.exited 0)
        (.ok ending, s.record (.wait child s.openEnds))
  leaveBranch before after :=
    after.modifyProcess fun p => { p with cwd := before.process.cwd, env := before.process.env }

end LineShell.Scripted
