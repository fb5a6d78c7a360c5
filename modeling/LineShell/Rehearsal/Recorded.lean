/-
A recording launcher: every program ends as its verb is known to, nothing
fails, and each call leaves a line of text. Branches are evaluated in the
process itself and their effects on it stay.
-/
import LineShell.Rehearsal

namespace LineShell.Recorded

open Posix

structure State where
  /-- The ending of the programs of a verb; zero where none is known. -/
  endings : List (String × Ending) := []
  /-- Registered children not yet waited for. -/
  pending : List (Child × Ending) := []
  /-- How many children have been registered. -/
  children : Nat := 0
  lines : List String := []
  deriving Repr, Inhabited

namespace State

def record (s : State) (line : String) : State := { s with lines := s.lines ++ [line] }

def ending (s : State) (verb : String) : Ending := (s.endings.lookup verb).getD (.exited 0)

/-- Registers a child that ends as given. -/
def register (s : State) (e : Ending) : Child × State :=
  let child := s.children + 1
  (child, { s with children := child, pending := (child, e) :: s.pending })

end State

/-- The words of a command in one line. -/
def spelled (c : Command) : String := String.intercalate " " c.argv

/-- The launcher that records. -/
def launcher : Launcher State where
  launch c s :=
    let (child, s) := (s.record ("launch " ++ spelled c)).register (s.ending c.verb)
    (.ok child, s)
  enter q s := (.ok (), s.record ("fork " ++ q.parent.symbol))
  exec c s := (s.record ("exec " ++ spelled c)).register (s.ending c.verb)
  finish status s := s.register (.exited status)
  connect s := (.ok (), s.record "channel")
  connected _ s := s
  released _ s := s
  wait child s :=
    let ending := (s.pending.lookup child).getD (.exited 0)
    (.ok ending,
      { s.record ("wait " ++ toString child) with
        pending := s.pending.filter (·.1 ≠ child) })
  leaveBranch _ after := after

end LineShell.Recorded
