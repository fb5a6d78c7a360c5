/-
Execution of a tree, as a dialogue.

Walking a tree needs six things done by somebody else: a builtin run, a
program started, a branch started in a process of its own, a channel
made, a channel given up, a child waited for. A `Walk` is the walk with
these as questions: each says what comes next for every answer. Who
answers is a matter of interpretation; the walk itself holds all of the
control flow and none of the effects, so what is true of every path of
the walk is true of every way of starting processes.

`;`, `&&` and `||` go on in the same process. `&` and `|` start two
branches and wait for both; the first is waited for even when the second
cannot be started. Each branch carries the walk of its own subtree, for
whoever evaluates it.

A question that starts something names the site it is asked for: the
position of the leaf, of the pipe, or of the branch's subtree. No answer
depends on it; it is there for whoever follows a walk.
-/
import LineShell.Builtin

namespace LineShell

open Posix

/-- The two ends of a pipe between branches, by their descriptors in the
process that made it. -/
structure Channel where
  read : Fd
  write : Fd
  deriving DecidableEq, Repr, Inhabited

/-- What a branch does to its descriptors before anything else: put one
in place of standard input, one in place of standard output, then close
those listed. -/
structure Wiring where
  stdin : Option Fd := none
  stdout : Option Fd := none
  close : List Fd := []
  deriving DecidableEq, Repr, Inhabited

namespace Wiring

/-- The branch keeps the streams of its parent. -/
def inherit : Wiring := {}

/-- The branch writes into the channel. -/
def writer (ch : Channel) : Wiring := { stdout := some ch.write, close := [ch.read, ch.write] }

/-- The branch reads from the channel. -/
def reader (ch : Channel) : Wiring := { stdin := some ch.read, close := [ch.read, ch.write] }

end Wiring

/-- A child that was started, by its process number. -/
abbrev Child := Nat

inductive Walk where
  /-- The tree is done. -/
  | done (status : Int)
  /-- A process primitive failed. -/
  | failed (cause : ExecError)
  | log (level : Level) (text : String) (next : Walk)
  | builtin (site : Position) (b : Builtin) (c : Command) (next : Int → Walk)
  | launch (site : Position) (c : Command) (next : Except ExecError Child → Walk)
  /-- Start a branch: the subtree, its depth, the operator above it, its
  wiring, and its own walk. -/
  | fork (site : Position) (tree : Tree) (depth : Nat) (parent : Operator) (wiring : Wiring)
      (branch : Walk) (next : Except ExecError Child → Walk)
  | channel (site : Position) (next : Except ExecError Channel → Walk)
  /-- Give up both ends of a channel. -/
  | release (ch : Channel) (next : Walk)
  | wait (child : Child) (next : Except ExecError Ending → Walk)

namespace Walk

/-- Goes on after a walk that is done; a failure is final. -/
def bind : Walk → (Int → Walk) → Walk
  | done s, k => k s
  | failed e, _ => failed e
  | log level text next, k => log level text (next.bind k)
  | builtin q b c next, k => builtin q b c fun s => (next s).bind k
  | launch q c next, k => launch q c fun r => (next r).bind k
  | fork q t d p w branch next, k => fork q t d p w branch fun r => (next r).bind k
  | channel q next, k => channel q fun r => (next r).bind k
  | release ch next, k => release ch (next.bind k)
  | wait child next, k => wait child fun r => (next r).bind k

end Walk

/-- The program that a branch runs in place of itself: the command of a
leaf that is neither empty nor a builtin. -/
def Tree.external? : Tree → Option Command
  | .leaf c => if !c.verb.isEmpty && (Builtin.lookup c).isNone then some c else none
  | .node _ _ _ => none

namespace Walk

-- ================================================================ leaves

/-- Runs a program and waits for it. -/
def runProgram (site : Position) (c : Command) : Walk :=
  launch site c fun
    | .error e => failed e
    | .ok child =>
        wait child fun
          | .error e => failed e
          | .ok ending =>
              log .debug ("`" ++ c.verb ++ "` finished: " ++ ending.describe) (done ending.status)

/-- A leaf: nothing where there is no verb, a builtin, or a program. -/
def ofCommand (site : Position) (c : Command) : Walk :=
  if c.verb.isEmpty then done 0
  else
    match Builtin.lookup c with
    | some b =>
        log .debug ("builtin " ++ b.name ++ ": " ++ Text.quotedList c.argv) (builtin site b c done)
    | none => runProgram site c

-- ============================================================== branches

/-- Waits for two children in order, whatever becomes of the first; then
the first failure, if any, counts. -/
def waitBoth (first second : Child) (k : Ending → Ending → Walk) : Walk :=
  wait first fun r₁ => wait second fun r₂ =>
    match r₁, r₂ with
    | .error e, _ => failed e
    | .ok _, .error e => failed e
    | .ok e₁, .ok e₂ => k e₁ e₂

/-- The last stage decides, unless a stage was killed. -/
def pipeStatus (left right : Ending) : Int :=
  if left.isAbnormal || right.isAbnormal then exitFailure else right.status

/-- The first branch that did not exit with zero decides. -/
def parallelStatus (first second : Ending) : Int :=
  if !first.isSuccess then first.status
  else if !second.isSuccess then second.status
  else 0

/-- A branch to start: its subtree, and the walk of it. -/
structure Branch where
  tree : Tree
  walk : Walk

/-- `left | right`. The channel is given up before anything is waited
for: the reader sees the end of its input only when nobody else holds
the writing end. -/
def runPipe (site : Position) (left right : Branch) (depth : Nat) : Walk :=
  channel site fun
    | .error e => failed e
    | .ok ch =>
        fork (site ++ [.left]) left.tree depth .pipe (.writer ch) left.walk fun
          | .error e => release ch (failed e)
          | .ok writer =>
              fork (site ++ [.right]) right.tree depth .pipe (.reader ch) right.walk fun
                | .error e => release ch (wait writer fun _ => failed e)
                | .ok reader =>
                    release ch <| waitBoth writer reader fun l r =>
                      log .debug ("pipe finished: " ++ l.describe ++ " | " ++ r.describe)
                        (done (pipeStatus l r))

/-- `left & right`. -/
def runParallel (site : Position) (left right : Branch) (depth : Nat) : Walk :=
  fork (site ++ [.left]) left.tree depth .parallel .inherit left.walk fun
    | .error e => failed e
    | .ok first =>
        fork (site ++ [.right]) right.tree depth .parallel .inherit right.walk fun
          | .error e => wait first fun _ => failed e
          | .ok second =>
              waitBoth first second fun l r =>
                log .debug ("parallel finished: " ++ l.describe ++ " & " ++ r.describe)
                  (done (parallelStatus l r))

-- ================================================================= trees

/-- The log line at the start of every subtree. -/
def heading (t : Tree) (depth : Nat) (parent : Option Operator) : String :=
  "execute depth=" ++ toString depth ++ " " ++ t.label ++
    " (parent: " ++ (parent.map Operator.symbol).getD "-" ++ ")"

/-- The walk of a tree that stands at a site. Depth and parent only feed
the log. -/
def execute : Tree → Nat → Option Operator → (site : Position := []) → Walk
  | t@(.leaf c), depth, parent, site => log .debug (heading t depth parent) (ofCommand site c)
  | t@(.node op left right), depth, parent, site =>
      log .debug (heading t depth parent) <|
        let inner := depth + 1
        let onLeft := execute left inner (some op) (site ++ [.left])
        let onRight := execute right inner (some op) (site ++ [.right])
        match op with
        | .sequential => onLeft.bind fun _ => onRight
        | .andThen => onLeft.bind fun s => if s = 0 then onRight else done s
        | .orElse => onLeft.bind fun s => if s ≠ 0 then onRight else done 0
        | .parallel => runParallel site ⟨left, onLeft⟩ ⟨right, onRight⟩ inner
        | .pipe => runPipe site ⟨left, onLeft⟩ ⟨right, onRight⟩ inner

end Walk

end LineShell
