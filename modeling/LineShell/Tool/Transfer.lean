/-
Programs that copy and move files: `cp`, `mv`.

What is in the way of a file is written over or replaced, unless it is of
another kind: a directory never gives way to a file, nor a file to a
directory.
-/
import LineShell.Tool.Remove

namespace LineShell.Tool

open Posix

variable {ρ : Type}

/-- Complains that two names lead to one file. -/
def sameFiles (a b : Bytes) : Job ρ Bool := do
  complainBetween "" a " and " b " are the same file"
  pure false

/-- The node at a path and whether it is a directory, if there is one. -/
def found? (path : Bytes) (last : FileTree.Last) : Job ρ (Except Errno (NodeId × Node × Bool)) :=
  Job.view fun v => (nodeAt? v path last).map fun (id, node) =>
    (id, node, v.world.tree.isDirectory id)

/-- Is a directory the same as another, or above it? -/
def isWithin (upper path : Bytes) (v : View) : Bool :=
  match nodeAt? v upper .target, (Call.place path .name).attempt v with
  | .ok (id, _), (.ok spot, _) =>
      v.world.tree.isDirectory id &&
        Call.isAbove v.world.tree id (v.world.tree.nodes.size + 1) spot.dir
  | _, _ => false

/-- The options that say where sources go. -/
def goals : List (String × Char) :=
  [("target-directory", 't'), ("no-target-directory", 'T'), ("verbose", 'v'), ("force", 'f'),
   ("interactive", 'i'), ("no-clobber", 'n'), ("update", 'u')]

/-- Goes on with each source and the path that it gets; a source that is
named twice is passed over, and what was put somewhere stays. -/
def eachSource (remembers : Bool) (use : Bytes → Bytes → Job ρ Bool) (destination : Destination) :
    List Bytes → List Bytes → List Bytes → Job ρ Bool
  | _, _, [] => pure true
  | earlier, made, source :: rest => do
      let path := destination.pathFor source
      let done ←
        if remembers && earlier.contains source then do
          let isDirectory ← Job.view (Call.isDirectoryAt source .target)
          Job.complain (Bytes.ofString
            (if isDirectory then "warning: source directory "
              else "warning: source file ") ++
            inQuotes source ++ Bytes.ofString " specified more than once")
          pure true
        else if made.contains path && (← Job.view fun v => match nodeAt? v source .self with
            | .ok _ => true
            | .error _ => false) then do
          complainBetween "will not overwrite just-created " path " with " source ""
          pure false
        else use source path
      let others ← eachSource remembers use destination (source :: earlier) (path :: made) rest
      pure (done && others)

-- ====================================================================== cp

/-- How `cp` copies. -/
structure Copying where
  recursive : Bool := false
  /-- Are links followed? -/
  follows : Bool := true
  preserves : Bool := false
  verbose : Bool := false
  noClobber : Bool := false
  /-- Are links made in place of copies, and symbolic ones? -/
  links : Bool := false
  symbolic : Bool := false

/-- Refuses a copy for a reason. -/
def refuseCopy (use : String) (path : Bytes) (e : Errno) : Job ρ Bool := do
  Job.complainCannot use path e
  pure false

/-- Tells of a copy. -/
def tellCopy (c : Copying) (source path : Bytes) : Job ρ Unit := do
  if c.verbose then
    Job.say (inQuotes source ++ Bytes.ofString " -> " ++ inQuotes path ++ [10])

/-- Copies all that one descriptor gives to another. -/
def relay (source path : Bytes) (input output : Fd) : Job ρ Bool := do
  let pass (_ : Option Errno) (block : Bytes) : Job ρ (Option Errno × Bool) := do
    match ← Job.task (Task.writeAll output block) with
    | .ok () => pure (none, true)
    | .error e => pure (some e, false)
  match ← Job.readBlocks input pass none with
  | (some e, _) => refuseCopy "error writing" path e
  | (none, some e) => refuseCopy "error reading" source e
  | (none, none) => pure true

/-- Copies the data of a file to a path, where `there` tells whether
something is there. -/
def copyData (c : Copying) (source path : Bytes) (node : Node) (there : Bool) : Job ρ Bool := do
  match ← Job.call (Call.openFile source .forReading) with
  | .error e => do
      Job.complainOf (Bytes.ofString "cannot open " ++ inQuotes source ++
        Bytes.ofString " for reading") e
      pure false
  | .ok input => do
      let mode : Call.Mode :=
        { write := true, create := !there, truncate := there, bits := node.mode &&& 0o777 }
      match ← Job.call (Call.openFile path mode) with
      | .error e => do
          Job.closeInput input
          let e := if e = .EISDIR && !path.isEmpty then .ENOTDIR else e
          refuseCopy "cannot create regular file" path e
      | .ok output => do
          let done ← relay source path input output
          Job.closeInput output
          Job.closeInput input
          if c.preserves then
            let _ ← Job.call (Call.changeMode path node.mode)
          pure done

/-- Copies what is at a path, so many levels down. -/
def copyAt (c : Copying) : Nat → Bool → Bytes → Bytes → Job ρ Bool
  | 0, _, source, _ => refuseCopy "cannot stat" source .ELOOP
  | depth + 1, isOperand, source, path => do
      match ← found? source (if c.follows then .target else .self) with
      | .error e => refuseCopy "cannot stat" source e
      | .ok (id, node, isDirectory) => do
          if isDirectory && !c.recursive then
            Job.complain (Bytes.ofString "-r not specified; omitting directory " ++ inQuotes source)
            pure false
          else
          let isLinkNode := (kindOf node).1 = 'l'
          let there ← found? path .self
          let target ← found? path .target
          match there, target with
          | .error e, _ =>
              if e ≠ .ENOENT && isOperand then return ← refuseCopy "cannot stat" path e
          | .ok _, .error _ =>
              if !isDirectory && !isLinkNode && !c.links then
                Job.complain (Bytes.ofString "not writing through dangling symlink " ++
                  inQuotes path)
                return false
          | .ok _, .ok (other, _, otherIsDirectory) =>
              if c.noClobber && !isDirectory then return true
              if other = id && !isDirectory then return ← sameFiles source path
              if otherIsDirectory && !isDirectory then
                Job.complain (Bytes.ofString "cannot overwrite directory " ++ inQuotes path ++
                  Bytes.ofString " with non-directory")
                return false
              if isDirectory && !otherIsDirectory then
                complainBetween "cannot overwrite non-directory " path " with directory " source ""
                return false
          let there : Bool := match target with
            | .ok _ => true
            | .error _ => false
          if isDirectory then
            if ← Job.view (isWithin source path) then
              complainBetween "cannot copy a directory, " source ", into itself, " path ""
              return false
            let made ←
              if there then pure (.ok ())
              else do
                tellCopy c source path
                Job.call (Call.makeDirectory path (node.mode &&& 0o7777))
            match made with
            | .error e => refuseCopy "cannot create directory" path e
            | .ok () => do
                let names ← Job.view fun v => Call.namesIn v.world.tree id
                let done ← names.mapM fun name =>
                  copyAt c depth false (inDirectory source name) (inDirectory path name)
                pure (done.all (· = true))
          else if isLinkNode then do
            if there then
              let _ ← Job.call (Call.removeFile path)
            tellCopy c source path
            let text ← Job.view fun v => (linkText v source).toOption.getD []
            match ← Job.call (Call.makeLink text path) with
            | .ok () => pure true
            | .error e => do
                complainBetween "cannot create symbolic link " path
                  " to " text (": " ++ e.libraryText)
                pure false
          else if c.links then do
            let made ← Job.call (if c.symbolic then Call.makeLink source path
                  else Call.addName source path)
            match made with
            | .ok () => do
                tellCopy c source path
                pure true
            | .error e => do
                let use :=
                  if c.symbolic then "cannot create symbolic link " else "cannot create hard link "
                complainBetween use path " to " source (": " ++ e.libraryText)
                pure false
          else do
            tellCopy c source path
            copyData c source path node there

def cpTool : Body ρ := fun args =>
  withOptions
    { plain := "rRafpvnuiTPdLHsl", valued := "t"
      long :=
        goals ++
          [("recursive", 'r'), ("archive", 'a'), ("dereference", 'L'),
           ("no-dereference", 'P'), ("link", 'l'),
           ("symbolic-link", 's')] }
    args failure fun o => do
      let recursive := o.has 'r' || o.has 'R' || o.has 'a'
      let follows :=
        match o.lastOf "LPHda" with
        | some 'L' | some 'H' => true
        | some _ => false
        | none => !recursive
      let c : Copying :=
        { recursive
          follows
          preserves := o.has 'p' || o.has 'a'
          verbose := o.has 'v'
          noClobber := o.has 'n'
          links := o.has 'l' || o.has 's'
          symbolic := o.has 's' }
      let (sources, destination) ← destinationOf o (fun path v => Call.isDirectoryAt path .target v)
      if o.has 'n' then
        Job.complainText
          ("warning: behavior of -n is non-portable and may change in future; " ++
            "use --update=none instead")
      let depth ← Job.view fun v => v.world.tree.nodes.size + 1
      let done ← eachSource true (copyAt c depth true) destination [] [] sources
      pure (if done then 0 else failure)

-- ====================================================================== mv

/-- Moves one file or directory. -/
def moveTo (o : Options) (source path : Bytes) : Job ρ Bool := do
  match ← found? source .self with
  | .error e => refuseCopy "cannot stat" source e
  | .ok (id, node, isDirectory) => do
      let isLinkNode := (kindOf node).1 = 'l'
      match ← found? path .self with
      | .error e =>
          if e ≠ .ENOENT && e ≠ .ELOOP then return ← refuseCopy "cannot stat" path e
      | .ok (other, otherNode, otherIsDirectory) => do
          let otherIsLink := (kindOf otherNode).1 = 'l'
          if o.has 'n' then
            Job.complain (Bytes.ofString "not replacing " ++ inQuotes path)
            return false
          let resolved ← found? source .target
          let leadsThere : Bool :=
            match resolved with
            | .ok (target, _, _) => isLinkNode && !otherIsLink && target == other
            | .error _ => false
          let sameName ← Job.view fun v =>
            match (Call.place source .name).attempt v, (Call.place path .name).attempt v with
            | (.ok a, _), (.ok b, _) => a.dir = b.dir && a.name = b.name
            | _, _ => false
          if leadsThere || (other = id && (sameName || isDirectory)) then
            return ← sameFiles source path
          if other = id then
            let _ ← Job.call (Call.removeFile source)
            return true
          if otherIsDirectory && !isDirectory then
            Job.complain (Bytes.ofString "cannot overwrite directory " ++ inQuotes path ++
              Bytes.ofString " with non-directory")
            return false
          if isDirectory && !otherIsDirectory then
            complainBetween "cannot overwrite non-directory " path " with directory " source ""
            return false
      match ← Job.call (Call.rename source path) with
      | .ok () => do
          if o.has 'v' then
            Job.say (Bytes.ofString "renamed " ++ inQuotes source ++ Bytes.ofString " -> " ++
              inQuotes path ++ [10])
          pure true
      | .error .EINVAL => do
          complainBetween "cannot move " source " to a subdirectory of itself, " path ""
          pure false
      | .error e => do
          if e = .ENOTEMPTY || e = .EEXIST then refuseCopy "cannot overwrite" path e
          else do
            complainBetween "cannot move " source " to " path (": " ++ e.libraryText)
            pure false

def mvTool : Body ρ := fun args =>
  withOptions { plain := "fvnuiT", valued := "t", long := goals } args failure fun o => do
    let (sources, destination) ← destinationOf o (fun path v => Call.isDirectoryAt path .target v)
    let done ← eachSource false (moveTo o) destination [] [] sources
    pure (if done then 0 else failure)

end LineShell.Tool
