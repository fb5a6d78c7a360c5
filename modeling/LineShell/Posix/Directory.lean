/-
The system calls that change directories: making and removing
directories, giving files names and taking them away.

All look up the last component of a path without following it when it
is a symbolic link, since it is the name that they are about.
-/
import LineShell.Posix.View

namespace LineShell.Posix.Call

/-- The names in a directory. -/
def namesIn (t : FileTree) (dir : NodeId) : List Bytes :=
  match t.content dir with
  | .directory _ entries => entries.map Prod.fst
  | _ => []

/-- The names that an open directory lists. The directory of descriptors
lists those of the process that reads it. -/
def list (fd : Fd) : Call (List Bytes) := do
  let (_, f) ← openFileOf fd
  let v ← get
  match f.target with
  | .node id =>
      match v.world.tree.content id with
      | .directory _ entries => pure (entries.map Prod.fst)
      | .descriptors => pure (v.process.fds.rows.map fun (fd, _) => Bytes.ofString (toString fd))
      | _ => throw .ENOTDIR
  | _ => throw .ENOTDIR

/-- A place where something new may be named; only a directory may be
named before a slash. -/
def vacant (path : Bytes) (isDirectory : Bool) : Call FileTree.Place := do
  let spot ← place path .name
  if spot.node.isSome then throw .EEXIST
  if spot.slashed && !isDirectory then throw .ENOENT
  pure spot

/-- Makes a directory. -/
def makeDirectory (path : Bytes) (bits : Nat) : Call Unit := do
  let spot ← vacant path true
  let _ ← create spot bits (.directory spot.dir [])

/-- Makes a symbolic link with a text. -/
def makeLink (text path : Bytes) : Call Unit := do
  if text.isEmpty then throw .ENOENT
  let spot ← vacant path false
  let v ← get
  unless (v.world.tree.nodes[spot.dir]?.map Node.linked).getD false do throw .ENOENT
  set (v.modifyTree fun t => (t.add spot.dir spot.name 0o777 (.link text)).1)

/-- The place of something that is there, by a name of its own; the root
and the two names with dots are refused, each for a reason of its own. -/
def occupied (path : Bytes) (atRoot atDot atDotDot : Errno) : Call (FileTree.Place × NodeId) := do
  let spot ← place path .name
  if spot.name.isEmpty then throw atRoot
  if spot.name = FileTree.dot then throw atDot
  if spot.name = FileTree.dotDot then throw atDotDot
  match spot.node with
  | none => throw .ENOENT
  | some id => pure (spot, id)

/-- Removes an empty directory. -/
def removeDirectory (path : Bytes) : Call Unit := do
  let (spot, id) ← occupied path .EBUSY .EINVAL .ENOTEMPTY
  let t := (← get).world.tree
  unless t.isDirectory id do throw .ENOTDIR
  unless (namesIn t id).isEmpty do throw .ENOTEMPTY
  modify (·.modifyTree (·.unlink spot.dir spot.name))

/-- Takes the name of a file away. -/
def removeFile (path : Bytes) : Call Unit := do
  let (spot, id) ← occupied path .EISDIR .EISDIR .EISDIR
  if (← get).world.tree.isDirectory id then throw .EISDIR
  if spot.slashed then throw .ENOTDIR
  modify (·.modifyTree (·.unlink spot.dir spot.name))

/-- Gives a file a further name. -/
def addName (path new : Bytes) (last : FileTree.Last := .self) : Call Unit := do
  let id ← nodeAt path last
  let spot ← vacant new false
  if (← get).world.tree.isDirectory id then throw .EPERM
  modify (·.modifyTree (·.link spot.dir spot.name id))

/-- Is one directory the other, or above it, so many levels up at most? -/
def isAbove (t : FileTree) (upper : NodeId) : Nat → NodeId → Bool
  | 0, _ => false
  | n + 1, dir => dir = upper || (dir ≠ FileTree.root && isAbove t upper n (t.parent dir))

/-- Gives a file or directory another name, in place of what had that name
before. A directory can go neither into itself nor in place of one that it
is in. -/
def rename (old new : Bytes) : Call Unit := do
  let (source, id) ← occupied old .EBUSY .EBUSY .EBUSY
  let target ← place new .name
  if target.name.isEmpty || target.name = FileTree.dot || target.name = FileTree.dotDot then
    throw .EBUSY
  let t := (← get).world.tree
  unless t.isDirectory id do
    if source.slashed || target.slashed then throw .ENOTDIR
  if t.isDirectory id && isAbove t id (t.nodes.size + 1) target.dir then throw .EINVAL
  match target.node with
  | none => pure ()
  | some there =>
      if t.isDirectory there && isAbove t there (t.nodes.size + 1) source.dir then throw .ENOTEMPTY
      if t.isDirectory there && !t.isDirectory id then throw .EISDIR
      if !t.isDirectory there && t.isDirectory id then throw .ENOTDIR
      unless (namesIn t there).isEmpty do throw .ENOTEMPTY
  if target.node ≠ some id then
    modify (·.modifyTree fun t =>
      let t := (t.unlink source.dir source.name).unlink target.dir target.name
      let t := t.link target.dir target.name id
      match t.content id with
      | .directory _ entries => t.setContent id (.directory target.dir entries)
      | _ => t)

/-- Gives a file permission bits. -/
def changeMode (path : Bytes) (bits : Nat) : Call Unit := do
  let id ← nodeAt path
  modify (·.modifyTree (·.setMode id bits))

/-- Is there a directory at a path? -/
def isDirectoryAt (path : Bytes) (last : FileTree.Last) (v : View) : Bool :=
  match (nodeAt path last).attempt v with
  | (.ok id, _) => v.world.tree.isDirectory id
  | _ => false

end LineShell.Posix.Call
