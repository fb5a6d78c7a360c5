/-
The machine: processes that share a world.

Every process has a slot, in the order of process numbers, with its own
state and what it still has to do. One move of the machine is one request
of the first process that can go on. A request that has to wait leaves
the process where it is:

- reading from an empty pipe waits as long as some process holds a write
  end, and is at the end of the input after that;
- writing to a full pipe waits; where no process holds a read end it
  fails, or kills the writer;
- waiting for a child waits until it has ended.

When all processes wait and some sleep, the clock moves to the first
waking. Ends of pipes are found by looking at all tables, not counted,
so there is nothing to keep in step.

The scheduler is fair only as far as processes block; the programs here
all do. There is room for any number of processes, so a fork always makes
one; what the shell does where none can be made is seen in rehearsals.
-/
import LineShell.Posix.Program
import LineShell.Posix.Signal

namespace LineShell.Posix

/-- What has become of a process. -/
inductive Life (ρ : Type) where
  | running (todo : Prog ρ)
  | sleeping (wake : Nat) (next : Prog ρ)
  /-- Ended, and not yet waited for. -/
  | ended (how : Ending)

structure Slot (ρ : Type) where
  process : Process
  life : Life ρ

/-- Has the process not ended? -/
def Slot.alive {ρ : Type} (s : Slot ρ) : Bool :=
  match s.life with
  | .ended _ => false
  | _ => true

structure Machine (ρ : Type) where
  world : World
  slots : List (Slot ρ)
  nextPid : Pid
  clock : Nat := 0

namespace Machine

variable {ρ : Type}

-- ================================================================= pipes

/-- How many bytes a pipe takes before writers wait. -/
def pipeCapacity : Nat := 65536

/-- Writes up to this size are not split. -/
def pipeAtom : Nat := 4096

/-- Does a living process hold an open file that leads to the target? -/
def holds (m : Machine ρ) (target : Target) : Bool :=
  m.slots.any fun s =>
    s.alive && s.process.fds.rows.any fun (_, h) =>
      (m.world.files[h.file]?.map OpenFile.target) == some target

/-- The bytes in a pipe. -/
def held (m : Machine ρ) (pipe : Nat) : Bytes := (m.world.pipes[pipe]?).getD []

-- ================================================================= slots

/-- Puts a slot in place of the one with its process number. -/
def put (m : Machine ρ) (s : Slot ρ) : Machine ρ :=
  { m with slots := m.slots.map fun t => if t.process.pid = s.process.pid then s else t }

/-- Gives a process something else to do. -/
def proceed (m : Machine ρ) (s : Slot ρ) (todo : Prog ρ) : Machine ρ :=
  m.put { s with life := .running todo }

/-- Gives a process its view back, and something else to do. -/
def resume (m : Machine ρ) (s : Slot ρ) (v : View) (todo : Prog ρ) : Machine ρ :=
  { m with world := v.world }.put { s with process := v.process, life := .running todo }

/-- Ends a process. Its children have no parent any more, and those of
them that have ended are gone; it is gone itself if it has no parent. -/
def terminate (m : Machine ρ) (s : Slot ρ) (how : Ending) : Machine ρ :=
  let slots := m.slots.filterMap fun t =>
    if t.process.pid = s.process.pid then
      if s.process.parent = 0 && s.process.pid ≠ 1 then none
      else some { s with life := .ended how, process := { s.process with fds := {} } }
    else if t.process.parent = s.process.pid then
      if t.alive then some { t with process := { t.process with parent := 0 } } else none
    else some t
  { m with slots }

/-- Notes a signal that a process wants to see to. -/
def notice (m : Machine ρ) (pid : Pid) (signal : Nat) : Machine ρ :=
  { m with
    slots := m.slots.map fun s =>
      if s.process.pid = pid then
        { s with process := { s.process with pending := signal :: s.process.pending.erase signal } }
      else s }

-- ============================================================== requests

/-- The code that others see of an exit. -/
def eightBits : Ending → Ending
  | .exited code => .exited (code % 256)
  | .signaled n => .signaled n

/-- Answers a request to read; `none` while it has to wait. -/
def answerRead (m : Machine ρ) (s : Slot ρ) (fd : Fd) (count : Nat)
    (next : Except Errno Bytes → Prog ρ) : Option (Machine ρ) :=
  let v : View := ⟨s.process, m.world⟩
  match v.file? fd with
  | none => some (m.proceed s (next (.error .EBADF)))
  | some (n, f) =>
      if !f.readable then some (m.proceed s (next (.error .EBADF)))
      else
        match f.target with
        | .node id =>
            let (r, v) := (Call.readNode n f id count).attempt v
            some (m.resume s v (next r))
        | .reader p | .writer p =>
            match m.held p with
            | [] =>
                if m.holds (.writer p) then none else some (m.proceed s (next (.ok [])))
            | data =>
                let v := v.modifyWorld fun w =>
                  { w with pipes := w.pipes.modify p fun _ => data.drop count }
                some (m.resume s v (next (.ok (data.take count))))

/-- Answers a request to write; `none` while it has to wait. -/
def answerWrite (m : Machine ρ) (s : Slot ρ) (fd : Fd) (data : Bytes)
    (next : Except Errno Nat → Prog ρ) : Option (Machine ρ) :=
  let v : View := ⟨s.process, m.world⟩
  match v.file? fd with
  | none => some (m.proceed s (next (.error .EBADF)))
  | some (n, f) =>
      if !f.writable then some (m.proceed s (next (.error .EBADF)))
      else
        match f.target with
        | .node id =>
            let (r, v) := (Call.writeNode n f id data).attempt v
            some (m.resume s v (next (r.map fun () => data.length)))
        | .reader p | .writer p =>
            if !m.holds (.reader p) then
              if s.process.ignored.contains Signal.pipe then
                some (m.proceed s (next (.error .EPIPE)))
              else if s.process.caught.contains Signal.pipe then
                some ((m.proceed s (next (.error .EPIPE))).notice s.process.pid Signal.pipe)
              else some (m.terminate s (.signaled Signal.pipe))
            else
              let space := pipeCapacity - (m.held p).length
              if data.length ≤ space || (pipeAtom < data.length && 0 < space) then
                let chunk := data.take space
                let v := v.modifyWorld fun w =>
                  { w with pipes := w.pipes.modify p (· ++ chunk) }
                some (m.resume s v (next (.ok chunk.length)))
              else none

/-- Starts a child with a copy of the process. -/
def answerFork (m : Machine ρ) (s : Slot ρ) (child : Prog ρ) (next : Pid → Prog ρ) : Machine ρ :=
  let pid := m.nextPid
  let new : Slot ρ :=
    { process := { s.process with pid, parent := s.process.pid, pending := [], log := [] },
      life := .running child }
  let m := m.proceed s (next pid)
  { m with slots := m.slots ++ [new], nextPid := pid + 1 }

/-- What a request to wait comes to: the first child in question that has
ended; `none` while there is none. -/
def waitResult (m : Machine ρ) (s : Slot ρ) (child : Int) :
    Option (Except Errno (Pid × Ending)) :=
  if child = -2147483648 then some (.error .ESRCH)
  else
    let mine := m.slots.filter fun t =>
      t.process.parent = s.process.pid && (child = -1 || child = t.process.pid)
    if mine.isEmpty then some (.error .ECHILD)
    else
      mine.findSome? fun t =>
        match t.life with
        | .ended how => some (.ok (t.process.pid, how))
        | _ => none

/-- Removes a child that was waited for. -/
def reap (m : Machine ρ) (pid : Pid) : Machine ρ :=
  { m with slots := m.slots.filter (·.process.pid ≠ pid) }

/-- Answers a request to wait; `none` while no child in question has
ended. -/
def answerWait (m : Machine ρ) (s : Slot ρ) (child : Int)
    (next : Except Errno (Pid × Ending) → Prog ρ) : Option (Machine ρ) :=
  (m.waitResult s child).map fun r =>
    match r with
    | .error _ => m.proceed s (next r)
    | .ok (pid, _) => (m.proceed s (next r)).reap pid

/-- Sends a signal to a process. -/
def answerKill (m : Machine ρ) (s : Slot ρ) (process : Int) (signal : Nat)
    (next : Except Errno Unit → Prog ρ) : Machine ρ :=
  let target := if process = 0 then (s.process.pid : Int) else process
  match m.slots.find? fun t => (t.process.pid : Int) = target with
  | none => m.proceed s (next (.error .ESRCH))
  | some t =>
      if signal > 64 then m.proceed s (next (.error .EINVAL))
      else
        let m := m.proceed s (next (.ok ()))
        if !t.alive then m
        else if signal = Signal.kill then m.terminate t (.signaled signal)
        else if t.process.ignored.contains signal then m
        else if t.process.caught.contains signal then m.notice t.process.pid signal
        else if Signal.isHarmless signal then m
        else m.terminate t (.signaled signal)

-- ================================================================== exec

/-- What an executable file asks to be run: an installed program with its
arguments. -/
structure Image where
  program : String
  argv : List Bytes
  deriving DecidableEq, Repr

/-- How much of a file is looked at to find its interpreter. -/
def headSize : Nat := 256

/-- The first line of a script after its mark, as far as it is looked at:
what comes before the newline, or else the whole head, provided that the
interpreter's name does not run over its end. A NUL ends the text that a
newline is looked for in. -/
def scriptLine (data : Bytes) : Option Bytes :=
  let isBlank (b : UInt8) := b == 32 || b == 9
  let head := (data ++ List.replicate (headSize - data.length) 0).take headSize
  let text := head.drop 2
  let line := text.takeWhile fun b => b != 10 && b != 0
  if (text.drop line.length).head? = some 10 then
    some (line.reverse.dropWhile isBlank).reverse
  else
    let named := text.dropWhile isBlank
    if named.any fun b => isBlank b || b == 0 then
      some (text.dropLast.reverse.dropWhile isBlank).reverse
    else none

/-- The interpreter named on the first line of a script, and the one
argument that may follow it. -/
def interpreter (data : Bytes) : Option (Bytes × Option Bytes) := do
  let isBlank (b : UInt8) := b == 32 || b == 9
  guard (data.take 2 == [35, 33])
  let line ← scriptLine data
  let name := (line.dropWhile isBlank).takeWhile fun b => !isBlank b && b != 0
  guard !name.isEmpty
  let rest := (line.dropWhile isBlank).drop name.length
  match rest with
  | [] => pure (name, none)
  | b :: _ =>
      if b == 0 then pure (name, none)
      else pure (name, some ((rest.dropWhile isBlank).takeWhile (· != 0)))

/-- What running the file at a path comes to. A script is run by its
interpreter, which may be a script, so many times over. -/
def image (tree : FileTree) (held : FileTree.Held) (cwd : NodeId) :
    Nat → Bytes → List Bytes → Except Errno Image
  | depth, path, argv => do
      let id ← tree.find held cwd path
      let node := (tree.nodes[id]?).getD { mode := 0, content := .file [] }
      match depth, node.content with
      | 0, .program _ => throw .ELOOP
      | _, .program name => pure ⟨name, argv⟩
      | depth, .file data =>
          if !node.executable then throw .EACCES
          match depth, interpreter data with
          | 0, _ => throw .ELOOP
          | depth + 1, some (interp, arg) =>
              image tree held cwd depth interp (interp :: arg.toList ++ path :: argv.drop 1)
          | _, none => throw .ENOEXEC
      | _, _ => throw .EACCES

/-- How often a file may be replaced by its interpreter, plus one. -/
def scriptDepth : Nat := 6

/-- The microseconds that a program takes to get going. A process that
does its work itself is ahead of one that starts a program for it. -/
def loadTime : Nat := 1000

/-- Replaces a process's program. -/
def answerExec (programs : Installed ρ) (m : Machine ρ) (s : Slot ρ) (path : Bytes)
    (argv : List Bytes) (next : Errno → Prog ρ) : Machine ρ :=
  let argv := if argv.isEmpty then [[]] else argv
  match image m.world.tree (View.held ⟨s.process, m.world⟩) s.process.cwd scriptDepth path argv with
  | .error e => m.proceed s (next e)
  | .ok i =>
      let process := { s.process with fds := s.process.fds.afterExec, caught := [], pending := [] }
      m.put { s with process, life := .sleeping (m.clock + loadTime) (programs i.program i.argv) }

-- ============================================================= scheduling

/-- One request of one process; `none` where it cannot go on. -/
def move (programs : Installed ρ) (m : Machine ρ) (s : Slot ρ) : Option (Machine ρ) :=
  match s.life with
  | .ended _ => none
  | .sleeping wake next => if wake ≤ m.clock then some (m.proceed s next) else none
  | .running todo =>
      match todo with
      | .ret _ => none
      | .exit how => some (m.terminate s (eightBits how))
      | .step act next =>
          let v : View := ⟨s.process, m.world⟩
          some (m.resume s (act v) (next v))
      | .read fd count next => m.answerRead s fd count next
      | .write fd data next => m.answerWrite s fd data next
      | .fork child next => some (m.answerFork s child next)
      | .wait child next => m.answerWait s child next
      | .kill process signal next => some (m.answerKill s process signal next)
      | .sleep duration next =>
          some (m.put { s with life := .sleeping (m.clock + duration) next })
      | .exec path argv next => some (m.answerExec programs s path argv next)

/-- The first waking after now. -/
def firstWake (m : Machine ρ) : Option Nat :=
  (m.slots.filterMap fun s =>
    match s.life with
    | .sleeping wake _ => some wake
    | _ => none).min?

/-- One move of the machine; `none` where nothing can go on. -/
def advance (programs : Installed ρ) (m : Machine ρ) : Option (Machine ρ) :=
  (m.slots.findSome? (move programs m)).or
    (m.firstWake.map fun wake => { m with clock := wake })

-- ================================================================= running

/-- The number of the process that a machine is started with. -/
def mainPid : Pid := 1

/-- A machine with one process, which has nothing to do yet. -/
def start (v : View) (idle : ρ) : Machine ρ :=
  { world := v.world
    slots := [{ process := { v.process with pid := mainPid, parent := 0 },
                   life := .running (.ret idle) }]
    nextPid := mainPid + 1 }

/-- The slot of the main process. -/
def main? (m : Machine ρ) : Option (Slot ρ) := m.slots.find? (·.process.pid = mainPid)

/-- What the main process sees. -/
def view (m : Machine ρ) : View := ⟨(m.main?.map Slot.process).getD {}, m.world⟩

/-- Changes what the main process sees. -/
def setView (m : Machine ρ) (v : View) : Machine ρ :=
  { m with
    world := v.world
    slots := m.slots.map fun s =>
      if s.process.pid = mainPid then { s with process := v.process } else s }

/-- How the main process stands. -/
inductive Standing (ρ : Type) where
  | result (r : ρ)
  | ended (how : Ending)
  | busy

def standing (m : Machine ρ) : Standing ρ :=
  match m.main?.map Slot.life with
  | some (.running (.ret r)) => .result r
  | some (.ended how) => .ended how
  | _ => .busy

/-- Moves until the main process has a result or has ended, so many times
at most. -/
def settle (programs : Installed ρ) : Nat → Machine ρ → Machine ρ
  | 0, m => m
  | fuel + 1, m =>
      match m.standing with
      | .busy =>
          match m.advance programs with
          | some m' => settle programs fuel m'
          | none => m
      | _ => m

/-- Has the main process do something, and runs the machine until it is
done. -/
def perform (programs : Installed ρ) (fuel : Nat) (todo : Prog ρ) (m : Machine ρ) : Machine ρ :=
  settle programs fuel
    { m with
      slots := m.slots.map fun s =>
        if s.process.pid = mainPid then { s with life := .running todo } else s }

end Machine

end LineShell.Posix
