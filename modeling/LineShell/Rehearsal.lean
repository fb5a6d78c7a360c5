/-
Rehearsals: executing a tree without starting processes.

A launcher answers the questions of a walk from a state of its own.
Branches are evaluated on the spot, in the one process there is, and
builtins run for real; so a rehearsal shows which programs would be
started, which branches forked and which children waited for, in order.
Channels are real pipes, so that it also shows which of their ends are
open when.
-/
import LineShell.Walk

namespace LineShell

open Posix

/-- How the execution of a tree leaves off: with a status, with a failed
primitive, or because the process itself ended. -/
inductive Outcome where
  | finished (status : Int)
  | failed (cause : ExecError)
  | left
  deriving DecidableEq, Repr, Inhabited

/-- A start of a branch, as the walk asks for it. -/
structure ForkRequest where
  tree : Tree
  depth : Nat
  parent : Operator
  wiring : Wiring
  deriving DecidableEq, Repr, Inhabited

/-- The answers to a walk, from a state `σ`. -/
structure Launcher (σ : Type) where
  /-- A program to start. -/
  launch : Command → σ → Except ExecError Child × σ
  /-- A branch is about to start. -/
  enter : ForkRequest → σ → Except ExecError Unit × σ
  /-- The branch is nothing but this program. -/
  exec : Command → σ → Child × σ
  /-- The branch was evaluated to this status. -/
  finish : Int → σ → Child × σ
  /-- A channel is asked for. -/
  connect : σ → Except ExecError Unit × σ
  /-- The channel was made. -/
  connected : Channel → σ → σ
  /-- A channel was given up. -/
  released : Channel → σ → σ
  wait : Child → σ → Except ExecError Ending × σ
  /-- The view after a branch, from the views before and after it. -/
  leaveBranch : View → View → View

namespace Walk

/-- Answers a walk to its end. -/
def rehearse {σ : Type} (l : Launcher σ) : Walk → σ → View → Outcome × σ × View
  | done s, st, v => (.finished s, st, v)
  | failed e, st, v => (.failed e, st, v)
  | log level text next, st, v => next.rehearse l st (v.note level text)
  | builtin _ b c next, st, v =>
      match b.run c v with
      | (.status s, v) => (next s).rehearse l st v
      | (.leave, v) => (.left, st, v)
  | launch _ c next, st, v =>
      let (r, st) := l.launch c st
      (next r).rehearse l st v
  | fork _ tree depth parent wiring branch next, st, v =>
      match l.enter ⟨tree, depth, parent, wiring⟩ st with
      | (.error e, st) => (next (.error e)).rehearse l st v
      | (.ok (), st) =>
          match tree.external? with
          | some c =>
              let (child, st) := l.exec c st
              (next (.ok child)).rehearse l st v
          | none =>
              match branch.rehearse l st v with
              | (.finished s, st, after) =>
                  let (child, st) := l.finish s st
                  (next (.ok child)).rehearse l st (l.leaveBranch v after)
              | (.failed e, st, after) =>
                  (next (.error e)).rehearse l st (l.leaveBranch v after)
              | (.left, st, after) => (.left, st, after)
  | channel _ next, st, v =>
      match l.connect st with
      | (.error e, st) => (next (.error e)).rehearse l st v
      | (.ok (), st) =>
          match Call.pipe.attempt v with
          | (.error e, v) => (next (.error (.channel e))).rehearse l st v
          | (.ok (r, w), v) => (next (.ok ⟨r, w⟩)).rehearse l (l.connected ⟨r, w⟩ st) v
  | release ch next, st, v =>
      next.rehearse l (l.released ch st) (Redirection.closeAll [ch.read, ch.write] v)
  | wait child next, st, v =>
      let (r, st) := l.wait child st
      (next r).rehearse l st v

end Walk

end LineShell
