/-
What one process sees, and the system calls that need no other process.

A process has descriptors, a working directory, an environment, a mask
for new files, a limit on descriptor numbers and a disposition for each
signal; it also keeps its own log. All processes share the
world: the file tree, the open files with their offsets, and the bytes in
pipes. A `View` is the two together.

A call changes the view and gives a value or an error number. Calls that
may have to wait for another process (reading from a pipe, writing to a
full one, waiting for a child) are not here but in the machine.
-/
import LineShell.Posix.Descriptor
import LineShell.Posix.FileTree
import LineShell.Environment
import LineShell.Log

namespace LineShell.Posix

/-- What an open file leads to. -/
inductive Target where
  | node (id : NodeId)
  | reader (pipe : Nat)
  | writer (pipe : Nat)
  deriving DecidableEq, Repr, Inhabited

/-- An open file: all descriptors made from one opening share it, and
with it the offset. -/
structure OpenFile where
  target : Target
  readable : Bool
  writable : Bool
  append : Bool := false
  offset : Nat := 0
  deriving DecidableEq, Repr, Inhabited

/-- What all processes share. -/
structure World where
  tree : FileTree
  files : Array OpenFile := #[]
  /-- The bytes written to each pipe and not yet read. -/
  pipes : Array Bytes := #[]
  deriving Repr, Inhabited

/-- What a process has to itself. -/
structure Process where
  pid : Nat := 1
  /-- The process that may wait for this one; 0 for none. -/
  parent : Nat := 0
  fds : FdTable := {}
  /-- Descriptor numbers are below this. -/
  fdLimit : Nat := 1024
  cwd : NodeId := FileTree.root
  env : Environment := {}
  /-- The permission bits that new files do not get. -/
  umask : Nat := 0o022
  /-- The signals that do nothing. -/
  ignored : List Nat := []
  /-- The signals that wait to be seen to, and those that have come. -/
  caught : List Nat := []
  pending : List Nat := []
  /-- The records of its log, the last one first. -/
  log : List LogRecord := []
  deriving Repr, Inhabited

structure View where
  process : Process
  world : World
  deriving Repr, Inhabited

/-- A system call: a value or an error number, and the view after it. -/
abbrev Call := EStateM Errno View

namespace View

-- ========================================================= descriptors

/-- Changes the process. -/
def modifyProcess (v : View) (f : Process → Process) : View := { v with process := f v.process }

/-- Changes the world. -/
def modifyWorld (v : View) (f : World → World) : View := { v with world := f v.world }

/-- Changes the descriptor table. -/
def modifyFds (v : View) (f : FdTable → FdTable) : View :=
  v.modifyProcess fun p => { p with fds := f p.fds }

/-- Changes the file tree. -/
def modifyTree (v : View) (f : FileTree → FileTree) : View :=
  v.modifyWorld fun w => { w with tree := f w.tree }

/-- The open file behind a descriptor. -/
def file? (v : View) (fd : Fd) : Option (Nat × OpenFile) := do
  let h ← v.process.fds.get? fd
  let f ← v.world.files[h.file]?
  pure (h.file, f)

/-- The node that a descriptor leads to. -/
def held (v : View) : FileTree.Held := fun fd =>
  match v.file? fd with
  | some (_, f) =>
      match f.target with
      | .node id => some id
      | .reader p | .writer p => v.world.tree.nodes.findIdx? (·.content == .pipe p)
  | none => none

/-- Adds a record to the process's log. -/
def note (level : Level) (text : String) (v : View) : View :=
  v.modifyProcess fun p => { p with log := ⟨level, text⟩ :: p.log }

end View

namespace Call

/-- A call that may refuse, and never changes the view when it does. -/
def ofExcept {α : Type} (r : Except Errno α) : Call α := fun v =>
  match r with
  | .ok a => .ok a v
  | .error e => .error e v

/-- Runs a call; an error is given back as a value. -/
def attempt {α : Type} (c : Call α) (v : View) : Except Errno α × View :=
  match c v with
  | .ok a v' => (.ok a, v')
  | .error e v' => (.error e, v')

/-- Runs a call for its effect alone. -/
def after {α : Type} (c : Call α) (v : View) : View := (c.attempt v).2

/-- The lowest free descriptor from a number on. -/
def freeFdFrom (low : Nat) : Call Fd := fun v =>
  match v.process.fds.freeFrom low v.process.fdLimit with
  | some fd => .ok fd v
  | none => .error .EMFILE v

/-- The lowest free descriptor. -/
def freeFd : Call Fd := freeFdFrom 0

/-- Makes a descriptor for a new open file. -/
def install (fd : Fd) (f : OpenFile) (closeOnExec : Bool) : Call Unit :=
  modify fun v =>
    let v' := v.modifyFds (·.set fd ⟨v.world.files.size, closeOnExec⟩)
    v'.modifyWorld fun w => { w with files := w.files.push f }

/-- The handle of an open descriptor. -/
def handle (fd : Fd) : Call Handle := fun v =>
  match v.process.fds.get? fd with
  | some h => .ok h v
  | none => .error .EBADF v

/-- Closes a descriptor. -/
def close (fd : Fd) : Call Unit := do
  let _ ← handle fd
  modify (·.modifyFds (·.erase fd))

/-- Gives the open file of a descriptor a second one, the lowest free
from a number on. -/
def dupFrom (low : Nat) (closeOnExec : Bool) (fd : Fd) : Call Fd := do
  let h ← handle fd
  let copy ← freeFdFrom low
  modify (·.modifyFds (·.set copy { h with closeOnExec }))
  pure copy

/-- Gives the open file of a descriptor a second one. -/
def dup (fd : Fd) : Call Fd := dupFrom 0 false fd

/-- Makes one descriptor stand for the open file of another. -/
def dup2 (fd onto : Fd) : Call Unit := do
  let h ← handle fd
  if fd = onto then pure ()
  else modify (·.modifyFds (·.set onto { h with closeOnExec := false }))

/-- A new pipe: the descriptors of its read end and its write end. Both
are had or neither. -/
def pipe : Call (Fd × Fd) := do
  let r ← freeFd
  let w ← freeFdFrom (r + 1)
  let n := (← get).world.pipes.size
  modify (·.modifyWorld fun world =>
    { world with pipes := world.pipes.push [], tree := world.tree.addUnnamed (.pipe n) })
  install r { target := .reader n, readable := true, writable := false } false
  install w { target := .writer n, readable := false, writable := true } false
  pure (r, w)

-- =============================================================== files

/-- How a file is opened. -/
structure Mode where
  read : Bool := false
  write : Bool := false
  create : Bool := false
  truncate : Bool := false
  append : Bool := false
  closeOnExec : Bool := true
  /-- The permission bits of a file that is created. -/
  bits : Nat := 0o644

namespace Mode

def forReading : Mode := { read := true }

/-- For output: created where missing, then emptied or added to. -/
def forOutput (append : Bool) : Mode :=
  { write := true, create := true, truncate := !append, append }

end Mode

/-- The path's place in the tree, seen from the working directory. -/
def place (path : Bytes) (last : FileTree.Last) : Call FileTree.Place := fun v =>
  ofExcept (v.world.tree.resolve v.held v.process.cwd path last) v

/-- The node at a path. -/
def nodeAt (path : Bytes) (last : FileTree.Last := .target) : Call NodeId := do
  match (← place path last).node with
  | some id => pure id
  | none => throw .ENOENT

/-- Makes a node at a place where there is none yet. A directory that was
itself removed takes none. -/
def create (spot : FileTree.Place) (bits : Nat) (c : Content) : Call NodeId := do
  let v ← get
  unless (v.world.tree.nodes[spot.dir]?.map Node.linked).getD false do throw .ENOENT
  let bits := bits &&& (0o7777 ^^^ v.process.umask)
  let (tree, id) := v.world.tree.add spot.dir spot.name bits c
  set (v.modifyTree fun _ => tree)
  pure id

/-- The node that an opening leads to, created if asked for. -/
def openNode (path : Bytes) (m : Mode) : Call NodeId := do
  let found ← place path (if m.create then .file else .target)
  match found.node with
  | none =>
      if m.create then create found m.bits (.file []) else throw .ENOENT
  | some id =>
      let tree := (← get).world.tree
      if tree.isDirectory id && (m.write || m.create) then throw .EISDIR
      match tree.content id with
      | .file _ => if m.truncate then modify (·.modifyTree (·.setContent id (.file [])))
      | .terminal => throw .ENXIO
      | _ => pure ()
      pure id

/-- What an opening of a node leads to. A pipe is opened at one of its
ends. -/
def targetOf (t : FileTree) (id : NodeId) (m : Mode) : Target :=
  match t.content id with
  | .pipe p => if m.write then .writer p else .reader p
  | _ => .node id

/-- Opens a path. A descriptor is reserved first, so that a full table is
noticed before anything about the path except its length. -/
def openFile (path : Bytes) (m : Mode) : Call Fd := do
  if path.isEmpty then throw .ENOENT
  if path.length ≥ FileTree.pathMax then throw .ENAMETOOLONG
  let fd ← freeFd
  let id ← openNode path m
  let target := targetOf (← get).world.tree id m
  install fd { target, readable := m.read, writable := m.write, append := m.append } m.closeOnExec
  pure fd

/-- The open file behind a descriptor, by number and value. -/
def openFileOf (fd : Fd) : Call (Nat × OpenFile) := fun v =>
  match v.file? fd with
  | some f => .ok f v
  | none => .error .EBADF v

/-- Moves the offset of an open file. -/
def seekTo (file offset : Nat) : Call Unit :=
  modify (·.modifyWorld fun w => { w with files := w.files.modify file ({ · with offset }) })

/-- Reads up to `count` bytes from a node at the open file's offset. -/
def readNode (file : Nat) (f : OpenFile) (id : NodeId) (count : Nat) : Call Bytes := do
  match (← get).world.tree.content id with
  | .file data =>
      let chunk := (data.drop f.offset).take count
      seekTo file (f.offset + chunk.length)
      pure chunk
  | .zero | .full => pure (List.replicate count 0)
  | .directory _ _ | .descriptors => throw .EISDIR
  | .null | .terminal | .pipe _ | .program _ | .link _ => pure []

/-- Data with a chunk written over it from an offset on; a gap is filled
with zeros. -/
def overwrite (data : Bytes) (offset : Nat) (chunk : Bytes) : Bytes :=
  data.take offset ++ List.replicate (offset - data.length) 0 ++ chunk ++
    data.drop (offset + chunk.length)

/-- Writes to a node at the open file's offset, or at its end. -/
def writeNode (file : Nat) (f : OpenFile) (id : NodeId) (chunk : Bytes) : Call Unit := do
  match (← get).world.tree.content id with
  | .file data =>
      let start := if f.append then data.length else f.offset
      let data' := if f.append then data ++ chunk else overwrite data f.offset chunk
      modify (·.modifyTree (·.setContent id (.file data')))
      seekTo file (start + chunk.length)
  | .full => throw .ENOSPC
  | _ => pure ()

/-- Writes without waiting: a pipe takes what it is given. -/
def writeNow (fd : Fd) (chunk : Bytes) : Call Unit := do
  let (n, f) ← openFileOf fd
  unless f.writable do throw .EBADF
  match f.target with
  | .node id => writeNode n f id chunk
  | .writer p | .reader p =>
      modify (·.modifyWorld fun w => { w with pipes := w.pipes.modify p (· ++ chunk) })

/-- All that a descriptor of a node still holds, up to its end. -/
def readToEnd (fd : Fd) : Call Bytes := do
  let (n, f) ← openFileOf fd
  unless f.readable do throw .EBADF
  match f.target with
  | .node id =>
      match (← get).world.tree.content id with
      | .zero | .full => pure []
      | .file data => readNode n f id data.length
      | _ => readNode n f id 0
  | .reader p | .writer p =>
      let held := ((← get).world.pipes[p]?).getD []
      modify (·.modifyWorld fun w => { w with pipes := w.pipes.modify p fun _ => [] })
      pure held

/-- Makes a directory the working directory. -/
def changeDir (path : Bytes) : Call Unit := do
  let id ← nodeAt path
  unless (← get).world.tree.isDirectory id do throw .ENOTDIR
  modify (·.modifyProcess ({ · with cwd := id }))

/-- Sets an environment variable. -/
def setVar (name value : String) : Call Unit :=
  modify (·.modifyProcess fun p => { p with env := p.env.set name value })

end Call

/-- The absolute path of the working directory; none once it is gone. -/
def View.cwdPath (v : View) : Option Bytes := v.world.tree.pathOf v.process.cwd

/-- The working directory as text, empty once it is gone. -/
def View.cwdText (v : View) : String := (v.cwdPath.map Bytes.decodeLossy).getD ""

end LineShell.Posix
