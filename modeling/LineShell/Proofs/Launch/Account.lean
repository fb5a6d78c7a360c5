/-
What each process of an execution has done, and what it is about to do.

# Accounts

The machine knows what a process will do next, not what it did or for
which part of the tree it was started. An `Account` keeps that beside the
machine, for the shell and for every process started for a part of the
tree: where that part stands, what the process did on its walk and with
which view (its `Deed`s), what its ancestors had done when it was started,
and how far it has come (its `Stage`). Accounts follow the moves of the
machine (`Account.after`) and answer nothing.

# Turns

A watched run is a run of the machine with the accounts kept along. What
a move of a process means for its account and its view is a `Turn`; here
the machine is no longer mentioned. `Watch.invariant` is the induction
over runs, made once: what holds at the beginning and is preserved by
turns, by starts of processes, and by whatever others do meanwhile, holds
of every process at all times.
-/
import Mathlib.Logic.Relation
import LineShell.Proofs.Launch.Perform
import LineShell.Proofs.Walk.Contract

namespace LineShell

open Posix

variable {ρ : Type}

-- ============================================================== accounts

/-- Something that a process did on its walk. -/
structure Deed where
  exchange : Exchange
  /-- What the process saw before it. -/
  view : View
  /-- How the child ended that was waited for. -/
  ending : Option Ending := none

/-- How far a process has come. -/
inductive Stage where
  /-- A branch that has not wired its streams yet. -/
  | wiring (parent : Operator) (wiring : Wiring)
  /-- This is left of its walk. -/
  | walking (rest : Walk)
  /-- It is to run an external command, and has done nothing for it yet. -/
  | program (c : Command)
  /-- The command's redirections are put in place and its file is looked for. -/
  | preparing (c : Command)
  /-- The command's program has taken over, and has done nothing yet. -/
  | loaded (c : Command)
  /-- A builtin ends the process. -/
  | leaving (site : Position)
  /-- Nothing is left to do but to report and exit. -/
  | quitting
  /-- What the process does now is no longer done for the tree. -/
  | away

structure Account where
  /-- Where the part of the tree stands that the process was started for. -/
  site : Position
  tree : Tree
  depth : Nat
  parent : Option Operator
  isShell : Bool
  /-- What its ancestors had done when it was started, the oldest deed
  first. -/
  inherited : List Deed
  own : List Deed
  stage : Stage

namespace Account

/-- A process that is about to execute a tree itself. -/
def evaluator (t : Tree) (depth : Nat) (parent : Option Operator) : Account :=
  { site := [], tree := t, depth, parent, isShell := true, inherited := [], own := [],
    stage := .walking (.execute t depth parent) }

/-- A branch that was just started for a tree. -/
def branch (t : Tree) (depth : Nat) (op : Operator) : Account :=
  { site := [], tree := t, depth, parent := some op, isShell := false, inherited := [], own := [],
    stage := .wiring op .inherit }

/-- The whole walk of the process, if it takes one. -/
def walk (a : Account) : Walk := .execute a.tree a.depth a.parent a.site

/-- All that led to where the process is. -/
def deeds (a : Account) : List Deed := a.inherited ++ a.own

/-- What is left to do when the walk is over. -/
def finish (result : Except ExecError Int → ρ) (a : Account) : Except ExecError Int → Prog ρ :=
  if a.isShell then fun r => .ret (result r) else endBranch a.tree

/-- What the process is about to do, where the account tells. -/
def todo? (result : Except ExecError Int → ρ) (a : Account) : Option (Prog ρ) :=
  match a.stage with
  | .wiring p w => some (runBranch a.tree p w a.walk.perform).run
  | .walking rest => some (rest.perform (a.finish result))
  | .program c => some (runExternal c).run
  | .leaving _ => some (.exit (.exited 0))
  | .preparing _ | .loaded _ | .quitting | .away => none

/-- Does the process take a walk? Others run one program. -/
def walks (a : Account) : Bool := a.isShell || a.parent.isSome

/-- Is it an external command that the process is there for now? -/
def runsProgram (a : Account) : Bool :=
  match a.stage with
  | .program _ | .preparing _ | .loaded _ | .away => true
  | .wiring _ _ | .walking _ | .leaving _ | .quitting => false

/-- One deed more, and what is left of the walk after it. -/
def does (a : Account) (x : Exchange) (v : View) (rest : Walk) (ending : Option Ending := none) :
    Account :=
  { a with own := a.own ++ [⟨x, v, ending⟩], stage := .walking rest }

/-- The account after a move on its walk. -/
def walked (a : Account) (m : Machine ρ) (s : Slot ρ) : Walk → Account
  | .done _ | .failed _ => { a with stage := .quitting }
  | .log _ _ next => { a with stage := .walking next }
  | .builtin q b c next =>
      match (b.run c ⟨s.process, m.world⟩).1 with
      | .status n => a.does (.builtin q b c n) ⟨s.process, m.world⟩ (next n)
      | .leave => { a with stage := .leaving q }
  | .launch q c next =>
      a.does (.launch q c (.ok m.nextPid)) ⟨s.process, m.world⟩
        (.afterLaunch c m.nextPid (next (.ok m.nextPid)))
  | .fork q tree depth parent wiring _ next =>
      a.does (.fork q tree depth parent wiring (.ok m.nextPid)) ⟨s.process, m.world⟩
        (.afterFork tree parent m.nextPid (next (.ok m.nextPid)))
  | .channel q next =>
      let r := Walk.channelAnswer (Call.pipe.attempt ⟨s.process, m.world⟩).1
      a.does (.channel q r) ⟨s.process, m.world⟩ (next r)
  | .release ch next => a.does (.release ch) ⟨s.process, m.world⟩ next
  | .wait child next =>
      match m.waitResult s child with
      | none => a
      | some raw =>
          a.does (.wait child (Walk.waitAnswer raw)) ⟨s.process, m.world⟩
            (.afterWait child raw (next (Walk.waitAnswer raw))) (raw.toOption.map Prod.snd)

/-- What a branch has to do once its wiring is in place. -/
def onceWired (a : Account) : Stage :=
  match a.tree.external? with
  | some c => .program c
  | none => .walking a.walk

/-- The account after a move of its process. -/
def after (a : Account) (m : Machine ρ) (s : Slot ρ) : Account :=
  match a.stage with
  | .wiring _ w =>
      match (w.apply.attempt ⟨s.process, m.world⟩).1 with
      | .error _ => { a with stage := .quitting }
      | .ok _ => { a with stage := a.onceWired }
  | .walking rest => a.walked m s rest
  | .program c => { a with stage := .preparing c }
  | .preparing c => if m.loads s then { a with stage := .loaded c } else a
  | .leaving _ | .quitting => { a with stage := .quitting }
  | .loaded _ | .away => { a with stage := .away }

/-- The account of the process that is about to be started. -/
def child? (a : Account) : Option Account :=
  match a.stage with
  | .walking (.launch q c _) =>
      some { site := q, tree := .leaf c, depth := 0, parent := none, isShell := false,
             inherited := a.deeds, own := [], stage := .program c }
  | .walking (.fork q tree depth parent wiring _ _) =>
      some { site := q, tree, depth, parent := some parent, isShell := false,
             inherited := a.deeds, own := [], stage := .wiring parent wiring }
  | _ => none

end Account

/-- The machine's answer to what a walk asks, as something that was done. -/
inductive Deed.Answers (m : Machine ρ) (s : Slot ρ) : Walk → Deed → Prop where
  | builtin {q : Position} {b : Builtin} {c : Command} {next : Int → Walk} {n : Int} :
      (b.run c ⟨s.process, m.world⟩).1 = .status n →
      Answers m s (.builtin q b c next) { exchange := .builtin q b c n, view := ⟨s.process, m.world⟩ }
  | launch {q : Position} {c : Command} {next : Except ExecError Child → Walk} :
      Answers m s (.launch q c next)
        { exchange := .launch q c (.ok m.nextPid), view := ⟨s.process, m.world⟩ }
  | fork {q : Position} {tree : Tree} {depth : Nat} {parent : Operator} {wiring : Wiring}
      {branch : Walk} {next : Except ExecError Child → Walk} :
      Answers m s (.fork q tree depth parent wiring branch next)
        { exchange := .fork q tree depth parent wiring (.ok m.nextPid), view := ⟨s.process, m.world⟩ }
  | channel {q : Position} {next : Except ExecError Channel → Walk} :
      Answers m s (.channel q next)
        { exchange := .channel q (Walk.channelAnswer (Call.pipe.attempt ⟨s.process, m.world⟩).1),
          view := ⟨s.process, m.world⟩ }
  | release {ch : Channel} {next : Walk} :
      Answers m s (.release ch next) { exchange := .release ch, view := ⟨s.process, m.world⟩ }
  | wait {child : Child} {next : Except ExecError Ending → Walk} {raw : Except Errno (Pid × Ending)} :
      m.waitResult s child = some raw →
      Answers m s (.wait child next)
        { exchange := .wait child (Walk.waitAnswer raw), view := ⟨s.process, m.world⟩,
          ending := raw.toOption.map Prod.snd }

namespace Account

/-- A move adds nothing to what the process did, or else the answer to what
its walk asked. -/
theorem own_after (a : Account) (m : Machine ρ) (s : Slot ρ) : (a.after m s).own = a.own ∨
    ∃ rest d, a.stage = .walking rest ∧ d.Answers m s rest ∧ (a.after m s).own = a.own ++ [d] := by
  cases hstage : a.stage with
  | wiring p w =>
      refine .inl ?_
      simp only [after, hstage]
      split <;> rfl
  | program c | loaded c | leaving q | quitting | away =>
      simp only [after, hstage, true_or]
  | preparing c =>
      refine .inl ?_
      simp only [after, hstage]
      split <;> rfl
  | walking rest =>
      simp only [after, hstage]
      cases rest with
      | done n | failed e | log level text next => exact .inl rfl
      | builtin q b c next =>
          simp only [walked]
          split
          · next n hn => exact .inr ⟨_, _, rfl, .builtin hn, rfl⟩
          · exact .inl rfl
      | launch q c next => exact .inr ⟨_, _, rfl, .launch, rfl⟩
      | fork q t d p w branch next => exact .inr ⟨_, _, rfl, .fork, rfl⟩
      | channel q next => exact .inr ⟨_, _, rfl, .channel, rfl⟩
      | release ch next => exact .inr ⟨_, _, rfl, .release, rfl⟩
      | wait child next =>
          simp only [walked]
          split
          · exact .inl rfl
          · next raw hraw => exact .inr ⟨_, _, rfl, .wait hraw, rfl⟩

/-- Only deeds and stage are ever different. -/
theorem after_same (a : Account) (m : Machine ρ) (s : Slot ρ) :
    a.after m s = { a with own := (a.after m s).own, stage := (a.after m s).stage } := by
  unfold after walked
  repeat' split
  all_goals rfl

end Account

-- =============================================================== watching

/-- A machine, and the accounts of its processes. -/
structure Watch (ρ : Type) where
  machine : Machine ρ
  accounts : Pid → Option Account

namespace Watch

/-- A watch that begins when the main process is to execute a tree. -/
def begin (t : Tree) (depth : Nat) (parent : Option Operator) (m : Machine ρ) : Watch ρ where
  machine := m
  accounts p :=
    if p = Machine.mainPid then
      some { site := [], tree := t, depth, parent, isShell := true, inherited := [], own := [],
             stage := .walking (.execute t depth parent) }
    else none

/-- A watch in which one process has an account so far. -/
def alone (p : Pid) (a : Account) (m : Machine ρ) : Watch ρ where
  machine := m
  accounts q := if q = p then some a else none

/-- The watch after a move of one process. -/
def moved (w : Watch ρ) (s : Slot ρ) (m : Machine ρ) : Watch ρ where
  machine := m
  accounts p :=
    if p = s.process.pid then (w.accounts p).map (·.after w.machine s)
    else if p = w.machine.nextPid then (w.accounts s.process.pid).bind Account.child?
    else w.accounts p

/-- Some process moves, or time passes. -/
inductive Step (programs : Installed ρ) : Watch ρ → Watch ρ → Prop where
  | move {w : Watch ρ} {s : Slot ρ} {m : Machine ρ} : s ∈ w.machine.slots →
      w.machine.move programs s = some m → Step programs w (w.moved s m)
  | pass {w : Watch ρ} (clock : Nat) : Step programs w { w with machine := { w.machine with clock } }

/-- A run, in which any process may move that can. -/
def Run (programs : Installed ρ) : Watch ρ → Watch ρ → Prop :=
  Relation.ReflTransGen (Step programs)

end Watch

/-- What the execution of a tree begins with: a sound machine whose main
process is to take the walk of the tree, whatever is made of its result. -/
structure Posix.Machine.Begins (result : Except ExecError Int → ρ) (t : Tree) (depth : Nat)
    (parent : Option Operator) (m : Machine ρ) : Prop where
  sound : m.Sound
  main : ∃ s ∈ m.slots, s.process.pid = Machine.mainPid ∧
    s.life = .running ((Walk.execute t depth parent).perform fun r => .ret (result r))

-- ================================================================== turns

/-- A process with a number of its own and nothing in its log, but
otherwise a copy. -/
structure Posix.View.Copies (v v' : View) : Prop where
  process : ∃ pid parent, v'.process = { v.process with pid, parent, pending := [], log := [] }
  world : v'.world = v.world

/-- What a move of a process means for its account and its view. -/
inductive Account.Turn : Account → View → Account → View → Prop where
  | wired {a : Account} {p : Operator} {w : Wiring} {v v' : View} :
      a.stage = .wiring p w → w.apply.attempt v = (.ok (), v') →
      Turn a v { a with stage := a.onceWired } v'
  | log {a : Account} {level : Level} {text : String} {next : Walk} {v : View} :
      a.stage = .walking (.log level text next) →
      Turn a v { a with stage := .walking next } (v.note level text)
  | builtin {a : Account} {q : Position} {b : Builtin} {c : Command} {next : Int → Walk} {n : Int}
      {v v' : View} : a.stage = .walking (.builtin q b c next) → b.run c v = (.status n, v') →
      Turn a v (a.does (.builtin q b c n) v (next n)) v'
  | leave {a : Account} {q : Position} {b : Builtin} {c : Command} {next : Int → Walk}
      {v v' : View} : a.stage = .walking (.builtin q b c next) → b.run c v = (.leave, v') →
      Turn a v { a with stage := .leaving q } v'
  | launch {a : Account} {q : Position} {c : Command} {next : Except ExecError Child → Walk}
      {v : View} (pid : Pid) : a.stage = .walking (.launch q c next) →
      Turn a v (a.does (.launch q c (.ok pid)) v (.afterLaunch c pid (next (.ok pid)))) v
  | fork {a : Account} {q : Position} {tree : Tree} {depth : Nat} {parent : Operator}
      {wiring : Wiring} {branch : Walk} {next : Except ExecError Child → Walk} {v : View}
      (pid : Pid) : a.stage = .walking (.fork q tree depth parent wiring branch next) →
      Turn a v (a.does (.fork q tree depth parent wiring (.ok pid)) v
        (.afterFork tree parent pid (next (.ok pid)))) v
  | channel {a : Account} {q : Position} {next : Except ExecError Channel → Walk}
      {r : Except Errno (Fd × Fd)} {v v' : View} : a.stage = .walking (.channel q next) →
      Call.pipe.attempt v = (r, v') →
      Turn a v (a.does (.channel q (Walk.channelAnswer r)) v (next (Walk.channelAnswer r))) v'
  | release {a : Account} {ch : Channel} {next : Walk} {v : View} :
      a.stage = .walking (.release ch next) →
      Turn a v (a.does (.release ch) v next) (Redirection.closeAll [ch.read, ch.write] v)
  | wait {a : Account} {child : Child} {next : Except ExecError Ending → Walk} {v : View}
      (raw : Except Errno (Pid × Ending)) : a.stage = .walking (.wait child next) →
      Turn a v (a.does (.wait child (Walk.waitAnswer raw)) v
        (.afterWait child raw (next (Walk.waitAnswer raw))) (raw.toOption.map Prod.snd)) v
  /-- The first act for an external command. -/
  | prepare {a : Account} {c : Command} {v v' : View} : a.stage = .program c → v.Quiet v' →
      Turn a v { a with stage := .preparing c } v'
  | prepared {a : Account} {c : Command} {v v' : View} {stage : Stage} : a.stage = .preparing c →
      v.Quiet v' → (stage = .preparing c ∨ stage = .loaded c) → Turn a v { a with stage } v'
  | quit {a : Account} {v v' : View} : a.runsProgram = false → v.world.Extends v'.world →
      Turn a v { a with stage := .quitting } v'
  | away {a : Account} {v v' : View} : (∃ c, a.stage = .loaded c) ∨ a.stage = .away →
      v.world.Extends v'.world → Turn a v { a with stage := .away } v'

/-- Only deeds and stage are ever different. -/
theorem Account.Turn.same {a a' : Account} {v v' : View} (h : a.Turn v a' v') :
    a' = { a with own := a'.own, stage := a'.stage } := by
  cases h <;> rfl

/-- What holds of accounts, and of accounts with their views, at all
times. -/
structure Account.Invariant (A : Account → Prop) (P : Account → View → Prop) : Prop where
  meanwhile : ∀ {a v v'}, P a v → v.Meanwhile v' → P a v'
  turn : ∀ {a v a' v'}, A a → P a v → a.Turn v a' v' → A a' ∧ P a' v'
  birth : ∀ {a v b v'}, A a → P a v → a.child? = some b → v.Copies v' → A b ∧ P b v'

end LineShell
