/-
The builtins about where things are: `cd`, `pwd`, `type`, and how the
program of a name is found.

A script keeps the path by which it came to its working directory, with
the symbolic links in it.
-/
import LineShell.Script.Builtin.Alias

namespace LineShell.Script

open Posix

variable {ρ : Type}

-- ====================================================== working directory

/-- The path of a directory from another one, with `.` and `..` resolved
by name. Two slashes at the start stay two. -/
def follow (current path : Bytes) : Bytes :=
  let whole := if path.head? = some FileTree.slash then path else current ++ FileTree.slash :: path
  let doubled := whole.take 2 = [47, 47] && (whole.drop 2).head? ≠ some FileTree.slash
  let names := (FileTree.components whole).foldl
    (fun above name =>
      if name = FileTree.dot then above
      else if name = FileTree.dotDot then above.drop 1
      else name :: above)
    []
  (if doubled then [47, 47] else [47]) ++ (names.reverse.intersperse [FileTree.slash]).flatten

/-- The path of the working directory without symbolic links; where there
is none any more, that is said. -/
def physicalDirectory : Act ρ Bytes := do
  match ← (Task.view View.cwdPath : Task ρ (Option Bytes)) with
  | some path => pure path
  | none => do
      warn (Bytes.ofString ("getcwd() failed: " ++ Errno.ENOENT.libraryText))
      pure []

/-- Notes the path of the working directory. -/
def setDirectory (path : Bytes) : Act ρ Unit := do
  modify ({ · with directory := path })
  setVariable (Bytes.ofString "PWD") path true

/-- Finds out where the script starts: where the environment says, if that
is the working directory, else by the file tree. -/
def startDirectory : Act ρ Unit := do
  let given := ((← get).text? "PWD").getD []
  let v ← (Task.view id : Task ρ View)
  let isHere := given.head? = some FileTree.slash &&
    match (Call.nodeAt given).attempt v with
    | (.ok id, _) => id = v.process.cwd
    | _ => false
  let path ← if isHere then pure given else physicalDirectory
  setDirectory path

/-- Goes to a directory, by name or by the file tree; the value says
whether that worked. -/
def goTo (physical : Bool) (path : Bytes) : Act ρ Bool := do
  let f ← get
  let followed := !physical && (path.head? = some FileTree.slash || !f.directory.isEmpty)
  let path := if followed then follow f.directory path else path
  match ← (Task.call (Call.changeDir path) : Task ρ (Except Errno Unit)) with
  | .error _ => pure false
  | .ok () => do
      setVariable (Bytes.ofString "OLDPWD") f.directory true
      let reached ← if followed then pure path else physicalDirectory
      setDirectory reached
      pure true

/-- Is the path one that is not looked for elsewhere? -/
def isFixedPath (path : Bytes) : Bool :=
  path.head? = some FileTree.slash ||
    (FileTree.components path).head?.any fun name => name = FileTree.dot || name = FileTree.dotDot

/-- The directory that a name leads to by the search path for directories,
and whether it is worth saying. -/
def searchDirectory (f : Frame) (v : View) (path : Bytes) : Bytes × Bool :=
  match f.text? "CDPATH" with
  | none => (path, false)
  | some search =>
      if isFixedPath path then (path, false)
      else
        let candidates := (search.splitOnP (· == 58)).map fun dir =>
          (if dir.isEmpty then path else dir ++ FileTree.slash :: path, !dir.isEmpty)
        (candidates.find? fun (p, _) => Call.isDirectoryAt p .target v).getD (path, false)

/-- `cd`: goes to a directory. -/
def cdBuiltin : Builtin ρ := fun args => do
  let (given, operands) ← optionsOf "LP" "" args
  let physical := given.getLast?.any (·.1 = 'P')
  let f ← get
  let (path, back) : Bytes × Bool :=
    match operands with
    | [] => ((f.text? "HOME").getD [], false)
    | path :: _ => if path = Tool.dash then ((f.text? "OLDPWD").getD [], true) else (path, false)
  let v ← (Task.view id : Task ρ View)
  let (found, shows) := searchDirectory f v (if path.isEmpty then FileTree.dot else path)
  if ← goTo physical found then
    if back || shows then emit ((← get).directory ++ [10]) else pure 0
  else fail (Bytes.ofString "can't cd to " ++ path)

/-- `pwd`: shows the working directory. -/
def pwdBuiltin : Builtin ρ := fun args => do
  let (given, _) ← optionsOf "LP" "" args
  let path ← if given.getLast?.any (·.1 = 'P') then physicalDirectory else pure (← get).directory
  emit (path ++ [10])

-- =============================================================== programs

/-- Why no program of a name was found, as it is said. -/
def programFault (e : Errno) : String :=
  if e = .ENOENT || e = .ENOTDIR then "not found" else e.libraryText

/-- Is the node at a path a plain file? The error says why not. -/
def plainFileAt (path : Bytes) (v : View) : Except Errno Unit := do
  let id ← ((Call.nodeAt path).attempt v).1
  match v.world.tree.content id with
  | .file _ | .program _ => pure ()
  | _ => throw .EACCES

/-- The paths of a name in directories, from the first one on where it is
a plain file. What is in the way without being one is remembered as the
error. -/
def findIn (v : View) (name : Bytes) : List Bytes → Errno → Except Errno (List Bytes)
  | [], e => .error e
  | dir :: rest, e =>
      let pathIn (dir : Bytes) : Bytes :=
        if dir.isEmpty then name else dir ++ FileTree.slash :: name
      match plainFileAt (pathIn dir) v with
      | .ok () => .ok (pathIn dir :: rest.map pathIn)
      | .error e' => findIn v name rest (if e' = .ENOENT || e' = .ENOTDIR then e else e')

/-- The directories of a search path. -/
def directoriesOf (path : Bytes) : List Bytes := path.splitOnP (· == 58)

/-- The search path for programs. -/
def Frame.searchPath (f : Frame) : List Bytes := directoriesOf ((f.text? "PATH").getD [])

/-- The search path that every system has. -/
def standardSearchPath : List Bytes :=
  directoriesOf (Bytes.ofString "/usr/local/sbin:/usr/local/bin:/usr/sbin:/usr/bin:/sbin:/bin")

/-- What a name stands for, as a text: itself or a path, or with `wordy` a
sentence; and whether it stands for anything. -/
def describe (builtins : List String) (wordy : Bool)
    (search : List Bytes) (name : Bytes) (f : Frame)
    (v : View) : Bytes × Bool :=
  let text := name.decodeLossy
  let said (short long : Bytes) : Bytes × Bool :=
    ((if wordy then name ++ long else short) ++ [10], true)
  let is (kind : String) : Bytes × Bool := said name (Bytes.ofString (" is a " ++ kind))
  let missing : Bytes × Bool := (if wordy then name ++ Bytes.ofLine ": not found" else [], false)
  if keywords.contains text then is "shell keyword"
  else if let some aliased := f.aliases.lookup name then
    if wordy then said [] (Bytes.ofString " is an alias for " ++ aliased)
    else (Bytes.ofString "alias " ++ shownAlias name aliased, true)
  else if (f.functions.lookup name).isSome then is "shell function"
  else if specialBuiltins.contains text then is "special shell builtin"
  else if builtins.contains text then is "shell builtin"
  else if name.contains FileTree.slash then
    match (Call.nodeAt name).attempt v with
    | (.ok _, _) => said name (Bytes.ofString " is " ++ name)
    | _ => missing
  else
    match findIn v name search .ENOENT with
    | .ok (path :: _) =>
        let known := if f.found.contains name then " a tracked alias for " else " "
        said path (Bytes.ofString (" is" ++ known) ++ path)
    | _ => missing

/-- `type`: says what names stand for. -/
def typeBuiltin (builtins : List String) : Builtin ρ := fun args => do
  let f ← get
  let v ← (Task.view id : Task ρ View)
  let found := args.map fun name => describe builtins true f.searchPath name f v
  let status ← emit (found.flatMap Prod.fst)
  pure (if found.all Prod.snd then status else exitNotFound)

end LineShell.Script
