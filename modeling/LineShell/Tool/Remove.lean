/-
Programs that take names away: `rm`, `rmdir`, `unlink`.

A directory is removed from the inside out, each name by a request of its
own, so that what could be removed is gone even where something else
cannot be.
-/
import LineShell.Tool.Make

namespace LineShell.Tool

open Posix

variable {ρ : Type}

-- =================================================================== rmdir

/-- The directories above a path that its text names, the nearest first. -/
def pathsAbove : Nat → Bytes → List Bytes
  | 0, _ => []
  | n + 1, path =>
      let bare := withoutSlashes path
      let above := bare.take (bare.length - (lastName bare).length)
      if above.isEmpty then []
      else
        let next := withoutSlashes above
        if next.isEmpty then [[FileTree.slash]] else next :: pathsAbove n next

/-- Why a path that ends in a slash leads to no directory to remove: the
error, or the link that it names. -/
def removalFault (v : View) (path : Bytes) (e : Errno) : String :=
  let isLinked : Bool :=
    match linkText v (withoutSlashes path) with
    | .ok _ => true
    | .error _ => false
  let leads : Bool :=
    match nodeAt? v path .target with
    | .ok (id, _) => v.world.tree.isDirectory id
    | .error e => e ≠ .ENOTDIR
  if FileTree.endsInSlash path && e = .ENOTDIR && isLinked && leads
    then "Symbolic link not followed"
  else e.libraryText

/-- Removes a directory. -/
def removeEmpty (o : Options) (use : String) (path : Bytes) : Job ρ Bool := do
  if o.has 'v' then
    Job.say ((← get).tool ++ Bytes.ofString ": removing directory, " ++ inQuotes path ++ [10])
  match ← Job.call (Call.removeDirectory path) with
  | .ok () => pure true
  | .error e => do
      if o.has 'i' && (e = .ENOTEMPTY || e = .EEXIST) then pure true
      else do
        let fault ← Job.view fun v => removalFault v path e
        Job.complain (Bytes.ofString (use ++ " ") ++
          inQuotes path ++ Bytes.ofString (": " ++ fault))
        pure false

/-- Removes directories up to the first that cannot be. -/
def removeEach (o : Options) : List Bytes → Job ρ Bool
  | [] => pure true
  | path :: rest => do
      if ← removeEmpty o "failed to remove directory" path then removeEach o rest else pure false

def rmdirTool : Body ρ := fun args =>
  withOptions
    { plain := "pvi"
      long := [("parents", 'p'), ("verbose", 'v'), ("ignore-fail-on-non-empty", 'i')] }
    args failure fun o => do
      if o.operands.isEmpty then Job.missingOperand
      eachName o.operands fun path => do
        if !(← removeEmpty o "failed to remove" path) then pure false
        else if o.has 'p' then removeEach o (pathsAbove path.length path)
        else pure true

-- ====================================================================== rm

/-- How `rm` removes. -/
structure Removal where
  recursive : Bool := false
  force : Bool := false
  /-- Are empty directories removed? -/
  directories : Bool := false
  verbose : Bool := false
  /-- Is each removal asked about? -/
  asks : Bool := false

/-- A line of standard input, read byte by byte; so many at most. -/
def answerLine : Nat → Bytes → Job ρ Bytes
  | 0, line => pure line
  | n + 1, line => do
      match ← Job.task (Task.read Fd.stdin 1) with
      | .ok [b] => if b = 10 then pure line else answerLine n (line ++ [b])
      | _ => pure line

/-- Asks a question, and says whether the answer is yes. -/
def agrees (question : Bytes) : Job ρ Bool := do
  let _ ← Job.flush
  let _ ← Job.task (Task.writeAll Fd.stderr ((← get).tool ++ Bytes.ofString ": " ++ question))
  let answer ← answerLine Job.bufferSize []
  pure (answer.head? = some 121 || answer.head? = some 89)

/-- Does the user agree, if asked at all? -/
def isAllowed (r : Removal) (question : Bytes) : Job ρ Bool :=
  if r.asks then agrees question else pure true

/-- Complains that something cannot be removed. -/
def refuseRemoval (r : Removal) (path : Bytes) (e : Errno) : Job ρ Bool := do
  if r.force && (e = .ENOENT || e = .ENOTDIR || e = .EINVAL) then pure true
  else do
    Job.complainCannot "cannot remove" path e
    pure false

/-- Removes one name by a call, and tells of it. -/
def removeName (r : Removal) (what : String) (path : Bytes) (c : Call Unit) : Job ρ Bool := do
  match ← Job.call c with
  | .ok () => do
      if r.verbose then Job.say (Bytes.ofString ("removed " ++ what) ++ inQuotes path ++ [10])
      pure true
  | .error e => refuseRemoval r path e

/-- Removes what is at a path, and all below it if that is asked for; so
many levels down. -/
def removeAt (r : Removal) : Nat → Bytes → Job ρ Bool
  | 0, path => refuseRemoval r path .ELOOP
  | depth + 1, path => do
      let v ← Job.view id
      match nodeAt? v path .self with
      | .error _ => removeName r "" path (Call.removeFile path)
      | .ok (id, node) => do
          let question (verb kind : String) : Bytes :=
            Bytes.ofString (verb ++ " " ++ kind ++ " ") ++ inQuotes path ++ Bytes.ofString "? "
          if !v.world.tree.isDirectory id then
            if !(← isAllowed r (question "remove" (kindOf node).2.1)) then pure true
            else removeName r "" path (Call.removeFile path)
          else if r.recursive then do
            let names := Call.namesIn v.world.tree id
            let enters ←
              if names.isEmpty then pure true else isAllowed r (question "descend into" "directory")
            if !enters then pure true
            else do
              let done ← names.mapM fun name => removeAt r depth (inDirectory path name)
              if !done.all (· = true) then pure false
              else if !(← isAllowed r (question "remove" "directory")) then pure true
              else removeName r "directory " path (Call.removeDirectory path)
          else if r.directories then removeName r "directory " path (Call.removeDirectory path)
          else refuseRemoval r path .EISDIR

/-- Removes an operand of `rm`, unless it is one that must stay. -/
def removeOperand (r : Removal) (path : Bytes) : Job ρ Bool := do
  let own := lastName path
  let depth ← Job.view fun v => v.world.tree.nodes.size + 1
  if r.recursive && !path.isEmpty && (FileTree.components path).isEmpty then
    Job.complain (Bytes.ofString "it is dangerous to operate recursively on " ++ inQuotes path)
    Job.complainText "use --no-preserve-root to override this failsafe"
    pure false
  else if (r.recursive || r.directories) && (own = FileTree.dot || own = FileTree.dotDot) then
    Job.complain (Bytes.ofString "refusing to remove '.' or '..' directory: skipping " ++
      inQuotes path)
    pure false
  else removeAt r depth path

def rmTool : Body ρ := fun args =>
  withOptions
    { plain := "rRfdviI"
      long :=
        [("recursive", 'r'), ("force", 'f'), ("dir", 'd'), ("verbose", 'v'), ("preserve-root", 'P'),
         ("no-preserve-root", 'N'), ("one-file-system", 'x')] }
    args failure fun o => do
      let forced := o.lastOf "fi" = some 'f'
      if o.operands.isEmpty then
        if forced then Job.exit 0 else Job.missingOperand
      let r : Removal :=
        { recursive := o.has 'r' || o.has 'R', force := forced, directories := o.has 'd'
          verbose := o.has 'v', asks := o.lastOf "fi" = some 'i' }
      eachName o.operands (removeOperand r)

def unlinkTool : Body ρ := fun args =>
  withOptions {} args failure fun o =>
    match o.operands with
    | [] => Job.missingOperand
    | [path] => do
        match ← Job.call (Call.removeFile path) with
        | .ok () => pure 0
        | .error e => do
            Job.complainCannot "cannot unlink" path e
            pure failure
    | _ :: extra :: _ => Job.extraOperand extra

end LineShell.Tool
