/-
Programs that make files, names and directories and change what they are
like: `touch`, `mkdir`, `ln`, `link`, `chmod`, `truncate`.
-/
import LineShell.Tool.Name

namespace LineShell.Tool

open Posix

variable {ρ : Type}

/-- Does something with each of several names, and gives the first bad
status. -/
def eachName (names : List Bytes) (use : Bytes → Job ρ Bool) : Job ρ Int := do
  let done ← names.mapM use
  pure (if done.all id then 0 else failure)

/-- Complains that no file was named, and ends the program. -/
def missingFile {α : Type} : Job ρ α := Job.misused (Bytes.ofString "missing file operand")

/-- Complains of names with what stands between them. -/
def complainBetween (before : String) (first : Bytes) (between : String)
    (second : Bytes) (after : String) :
    Job ρ Unit :=
  Job.complain (Bytes.ofString before ++ inQuotes first ++ Bytes.ofString between ++
    inQuotes second ++
    Bytes.ofString after)

-- =================================================================== touch

/-- How `touch` opens a file: it is created, and never emptied. -/
def touching : Call.Mode := { write := true, create := true, bits := 0o666 }

/-- Is the text a time of `touch`, all digits but for seconds after a dot? -/
def isTime (text : Bytes) : Bool :=
  let parts := text.splitOnP (· == 46)
  let isNumber (part : Bytes) : Bool := (decimal? part).isSome
  match parts with
  | [whole] => isNumber whole && [8, 10, 12].contains whole.length
  | [whole, seconds] =>
      isNumber whole && [8, 10, 12].contains whole.length && isNumber seconds && seconds.length = 2
  | _ => false

/-- Creates a file if need be, and sees whether it is there. -/
def touch (create : Bool) (name : Bytes) : Job ρ Bool := do
  let opened : Option Errno ←
    if !create then pure none
    else
      match ← Job.call (do let fd ← Call.openFile name touching; Call.close fd) with
      | .ok () => pure none
      | .error e => pure (if e = .EISDIR || e = .ENXIO then none else some e)
  match opened, ← Job.view fun v => nodeAt? v name .target with
  | _, .ok _ => pure true
  | some e, .error _ => do
      Job.complainCannot "cannot touch" name e
      pure false
  | none, .error e =>
      if !create && e = .ENOENT then pure true
      else do
        Job.complainCannot "setting times of" name e
        pure false

def touchTool : Body ρ := fun args =>
  withOptions
    { plain := "acfmh", valued := "dtr"
      long := [("no-create", 'c'), ("date", 'd'), ("reference", 'r'), ("no-dereference", 'h')] }
    args failure fun o => do
      match o.value? 't' with
      | some text =>
          if !isTime text then Job.die (Bytes.ofString "invalid date format " ++ inQuotes text)
      | none => pure ()
      match o.value? 'r' with
      | some other =>
          match ← Job.view fun v => nodeAt? v other .target with
          | .ok _ => pure ()
          | .error e => do
              Job.complainCannot "failed to get attributes of" other e
              Job.exit failure
      | none => pure ()
      if o.operands.isEmpty then missingFile
      eachName o.operands fun name => if name = dash then pure true else touch (!o.has 'c') name

-- =================================================================== mkdir

/-- The stages of a path: each name on the way with its path. -/
def stages (path : Bytes) : List Bytes :=
  let names := FileTree.components path
  let root : Bytes := if path.head? = some FileTree.slash then [FileTree.slash] else []
  (List.range names.length).map fun n =>
    root ++ ((names.take (n + 1)).intersperse [FileTree.slash]).flatten

/-- Makes directories on the way to a path that are not there. -/
def makeStages (announce : Bytes → Job ρ Unit) : List Bytes → Job ρ Bool
  | [] => pure true
  | path :: rest => do
      let refuse (e : Errno) : Job ρ Bool := do
        Job.complainCannot "cannot create directory" path e
        pure false
      match ← Job.call (Call.makeDirectory path 0o777) with
      | .ok () => do
          announce path
          makeStages announce rest
      | .error e => do
          match ← Job.view fun v => nodeAt? v path .target with
          | .ok (id, _) => do
              if ← Job.view fun v => v.world.tree.isDirectory id then makeStages announce rest
              else refuse (if e = .EEXIST then .ENOTDIR else e)
          | .error e' => refuse (if e = .EEXIST && e' ≠ .ENOENT then e' else e)

/-- Makes a directory, and those on the way to it if so asked. -/
def makeDirectory (o : Options) (bits : Nat) (path : Bytes) : Job ρ Bool := do
  let announce (name : Bytes) : Job ρ Unit := do
    if o.has 'v' then
      Job.say ((← get).tool ++ Bytes.ofString ": created directory " ++ inQuotes name ++ [10])
  let above := if o.has 'p' then (stages path).dropLast else []
  if !(← makeStages announce above) then pure false
  else
    match ← Job.call (Call.makeDirectory path 0o777) with
    | .ok () => do
        announce path
        if o.has 'm' then
          let _ ← Job.call (Call.changeMode path bits)
        pure true
    | .error e => do
        if o.has 'p' && (← Job.view (Call.isDirectoryAt path .target)) then pure true
        else do
          Job.complainCannot "cannot create directory" path e
          pure false

def mkdirTool : Body ρ := fun args =>
  withOptions
    { plain := "pv", valued := "m", long := [("parents", 'p'), ("verbose", 'v'), ("mode", 'm')] }
    args failure fun o => do
      if o.operands.isEmpty then Job.missingOperand
      let mask ← Job.view fun v => v.process.umask
      let bits : Nat ←
        match o.value? 'm' with
        | none => pure 0o777
        | some text =>
            match Permission.read? text with
            | some changes => pure (Permission.applyAll changes true mask 0o777)
            | none => Job.die (Bytes.ofString "invalid mode " ++ inQuotes text)
      eachName o.operands (makeDirectory o bits)

-- ====================================================================== ln

/-- Where several sources go. -/
inductive Destination where
  | into (dir : Bytes)
  | as (path : Bytes)

/-- Sources and where they go, by operands and by options `t` and `T`.
`looks` says whether a path is a directory to put something into. -/
def destinationOf (o : Options) (looks : Bytes → View → Bool) :
    Job ρ (List Bytes × Destination) := do
  match o.value? 't', o.operands with
  | _, [] => missingFile
  | some dir, sources => do
      let links := (← get).tool = Bytes.ofString "ln"
      match ← Job.view fun v => nodeAt? v dir .target with
      | .ok (id, _) => do
          if ← Job.view fun v => v.world.tree.isDirectory id then pure (sources, .into dir)
          else if links then
            Job.die (Bytes.ofString "target " ++ inQuotes dir ++
              Bytes.ofString " is not a directory")
          else do
            Job.complainCannot "target directory" dir .ENOTDIR
            Job.exit failure
      | .error e => do
          Job.complainCannot (if links then "failed to access" else "target directory") dir e
          Job.exit failure
  | none, [only] =>
      if (← get).tool = Bytes.ofString "ln" && !o.has 'T' then pure ([only], .into FileTree.dot)
      else Job.misused (Bytes.ofString "missing destination file operand after " ++ inQuotes only)
  | none, [source, path] => do
      if !o.has 'T' && (← Job.view (looks path)) then pure ([source], .into path)
      else pure ([source], .as path)
  | none, _ :: _ :: third :: _ =>
      if o.has 'T' then Job.misused (Bytes.ofString "extra operand " ++ inQuotes third)
      else do
        let dir := (o.operands.getLast?).getD []
        if ← Job.view (looks dir) then pure (o.operands.dropLast, .into dir)
        else do
          let e ← Job.view fun v =>
            match nodeAt? v dir .target with
            | .ok _ => Errno.ENOTDIR
            | .error e => e
          Job.complainCannot "target" dir e
          Job.exit failure

/-- The path that a source gets at its destination. -/
def Destination.pathFor (d : Destination) (source : Bytes) : Bytes :=
  match d with
  | .into dir => inDirectory dir (lastName source)
  | .as path => path

/-- Makes way for a link where something is in its place; the answer is
whether it can be made. -/
def makeWay (source path : Bytes) (symbolic : Bool) : Job ρ Bool := do
  match ← Job.view fun v => nodeAt? v path .self with
  | .error _ => pure true
  | .ok (id, _) => do
      let isDirectory ← Job.view fun v => v.world.tree.isDirectory id
      let sameNode ← Job.view fun v =>
        match nodeAt? v source (if symbolic then .target else .self) with
        | .ok (other, _) => other == id
        | .error _ => false
      if isDirectory then
        Job.complain (shown path ++ Bytes.ofString ": cannot overwrite directory")
        pure false
      else if sameNode then
        complainBetween "" source " and " path " are the same file"
        pure false
      else
        let _ ← Job.call (Call.removeFile path)
        pure true

/-- Makes one link. -/
def makeOneLink (o : Options) (source path : Bytes) : Job ρ Bool := do
  let symbolic := o.has 's'
  let found ← Job.view fun v => nodeAt? v source (if o.has 'L' then .target else .self)
  let isDirectory ← Job.view fun v =>
    match found with
    | .ok (id, _) => v.world.tree.isDirectory id
    | .error _ => false
  match symbolic, found, isDirectory with
  | false, .error e, _ => do
      Job.complainCannot "failed to access" source e
      pure false
  | false, .ok _, true => do
      Job.complain (shown source ++ Bytes.ofString ": hard link not allowed for directory")
      pure false
  | _, _, _ => do
      let clear ← if o.has 'f' then makeWay source path symbolic else pure true
      if !clear then pure false
      else
        let last : FileTree.Last := if o.has 'L' then .target else .self
        match ← Job.call (if symbolic then Call.makeLink source path
                else Call.addName source path last) with
        | .ok () => do
            if o.has 'v' then
              Job.say (inQuotes path ++ Bytes.ofString (if symbolic then " -> " else " => ") ++
                inQuotes source ++ [10])
            pure true
        | .error e => do
            let use :=
              if symbolic then "failed to create symbolic link " else "failed to create hard link "
            let whole :=
              if symbolic && source.isEmpty then
                inQuotes path ++ Bytes.ofString " -> " ++ inQuotes source
              else if symbolic || e = .EEXIST then inQuotes path
              else inQuotes path ++ Bytes.ofString " => " ++ inQuotes source
            Job.complainOf (Bytes.ofString use ++ whole) e
            pure false

def lnTool : Body ρ := fun args =>
  withOptions
    { plain := "sfnvTLPF", valued := "t"
      long :=
        [("symbolic", 's'), ("force", 'f'), ("no-dereference", 'n'), ("verbose", 'v'),
         ("no-target-directory", 'T'), ("target-directory", 't'), ("logical", 'L'),
         ("physical", 'P')] }
    args failure fun o => do
      let looks (path : Bytes) (v : View) : Bool :=
        Call.isDirectoryAt path (if o.has 'n' then .self else .target) v
      let (sources, destination) ← destinationOf o looks
      eachName sources fun source => makeOneLink o source (destination.pathFor source)

def linkTool : Body ρ := fun args =>
  withOptions {} args failure fun o =>
    match o.operands with
    | [] => Job.missingOperand
    | [only] => Job.misused (Bytes.ofString "missing operand after " ++ marked only)
    | [old, new] => do
        match ← Job.call (Call.addName old new) with
        | .ok () => pure 0
        | .error e => do
            complainBetween "cannot create link " new " to " old (": " ++ e.libraryText)
            pure failure
    | _ :: _ :: extra :: _ => Job.extraOperand extra

-- =================================================================== chmod

/-- Arguments with the modes among those that start with a dash set apart. -/
def dashModes : List Bytes → List Bytes × List Bytes
  | [] => ([], [])
  | arg :: rest =>
      if arg = [45, 45] then ([], arg :: rest)
      else
        let (modes, others) := dashModes rest
        match arg with
        | 45 :: b :: _ =>
            if (Bytes.ofString "rwxXstugoa,+=01234567").contains b then (arg :: modes, others)
            else (modes, arg :: others)
        | _ => (modes, arg :: others)

/-- A path and all that is below it, the path first; so many levels. -/
def pathsBelow (v : View) : Nat → Bytes → List Bytes
  | 0, path => [path]
  | depth + 1, path =>
      match nodeAt? v path .self with
      | .ok (id, _) =>
          if v.world.tree.isDirectory id then
            path :: (Call.namesIn v.world.tree id).flatMap fun name =>
              pathsBelow v depth (inDirectory path name)
          else [path]
      | .error _ => [path]

/-- Gives a file its new bits. -/
def changeBits (o : Options) (changes : List Permission.Change) (name : Bytes) : Job ρ Bool := do
  let v ← Job.view id
  match nodeAt? v name .target with
  | .error e => do
      let dangling :=
        e = .ENOENT && (match nodeAt? v name .self with | .ok _ => true | .error _ => false)
      if !o.has 'f' then
        if dangling then
          Job.complain (Bytes.ofString "cannot operate on dangling symlink " ++ inQuotes name)
        else Job.complainCannot "cannot access" name e
      pure false
  | .ok (id, node) => do
      let bits :=
        Permission.applyAll changes (v.world.tree.isDirectory id) v.process.umask node.mode
      let _ ← Job.call (Call.changeMode name bits)
      let said (bits : Nat) : Bytes :=
        Permission.fourOctal bits ++ Bytes.ofString " (" ++
          Permission.letters bits ++ Bytes.ofString ")"
      let start := Bytes.ofString "mode of " ++ inQuotes name
      if bits ≠ node.mode then
        if o.has 'v' || o.has 'c' then
          Job.say (start ++ Bytes.ofString " changed from " ++ said node.mode ++
            Bytes.ofString " to " ++
            said bits ++ [10])
      else if o.has 'v' then
        Job.say (start ++ Bytes.ofString " retained as " ++ said bits ++ [10])
      pure true

/-- The bits that a file asked for by name has. -/
def referenceBits (name : Bytes) : Job ρ (List Permission.Change) := do
  match ← Job.view fun v => nodeAt? v name .target with
  | .ok (_, node) =>
      pure [{ sign := 61, affected := Permission.allBits, grant := .bits node.mode,
              mentioned := Permission.allBits }]
  | .error e => do
      Job.complainCannot "failed to get attributes of" name e
      Job.exit failure

def chmodTool : Body ρ := fun args =>
  let (modes, args) := dashModes args
  withOptions
    { plain := "Rcfv", valued := "="
      long :=
        [("recursive", 'R'), ("changes", 'c'), ("quiet", 'f'), ("silent", 'f'), ("verbose", 'v'),
         ("reference", '=')] }
    args failure fun o => do
      let mode : Option Bytes :=
        if !modes.isEmpty then some ((modes.intersperse [44]).flatten)
        else if o.has '=' then none
        else some (o.operands.headD [])
      let names := if modes.isEmpty && !o.has '=' then o.operands.drop 1 else o.operands
      if names.isEmpty then
        match o.operands.getLast? with
        | none => Job.missingOperand
        | some last => Job.misused (Bytes.ofString "missing operand after " ++ inQuotes last)
      let changes ←
        match mode, o.value? '=' with
        | some text, _ =>
            match Permission.read? text with
            | some changes => pure changes
            | none => Job.misused (Bytes.ofString "invalid mode: " ++ inQuotes text)
        | none, some other => referenceBits other
        | none, none => pure []
      eachName names fun name => do
        if o.has 'R' then
          let paths ← Job.view fun v => pathsBelow v v.world.tree.nodes.size name
          let plain ← Job.view fun v => paths.filter fun path =>
            path = name || (match linkText v path with | .ok _ => false | .error _ => true)
          let done ← plain.mapM (changeBits o changes)
          pure (done.all id)
        else changeBits o changes name

-- ================================================================ truncate

/-- The new size of a file by a text: a number, with a sign before it that
says how it is meant. -/
def newSize (text : Bytes) (old : Nat) : Except SizeError Nat := do
  let (sign, rest) : UInt8 × Bytes :=
    match text with
    | b :: rest => if ([43, 45, 60, 62, 47, 37] : Bytes).contains b then (b, rest) else (0, text)
    | [] => (0, [])
  let n ← readSize rest
  pure <|
    match Char.ofNat sign.toNat with
    | '+' => old + n
    | '-' => old - n
    | '<' => min old n
    | '>' => max old n
    | '/' => if n = 0 then old else old / n * n
    | '%' => if n = 0 then old else (old + n - 1) / n * n
    | _ => n

/-- Data of a size: cut, or filled with zeros. -/
def resized (size : Nat) (data : Bytes) : Bytes :=
  data.take size ++ List.replicate (size - data.length) 0

def truncateTool : Body ρ := fun args =>
  withOptions
    { plain := "co", valued := "sr",
      long := [("no-create", 'c'), ("size", 's'), ("reference", 'r')] }
    args failure fun o => do
      if !o.has 's' && !o.has 'r' then
        Job.misused (Bytes.ofString "you must specify either '--size' or '--reference'")
      let text : Bytes ←
        match o.value? 's', o.value? 'r' with
        | some text, _ =>
            match newSize text 0 with
            | .ok _ => pure text
            | .error _ => Job.die (Bytes.ofString "Invalid number: " ++ inQuotes text)
        | none, other => do
            let name := other.getD []
            match ← Job.view fun v => nodeAt? v name .target with
            | .ok (_, node) => pure (decimalOf (sizeTold node))
            | .error e => do
                Job.complainCannot "cannot stat" name e
                Job.exit failure
      if o.operands.isEmpty then missingFile
      eachName o.operands fun name => do
        let mode : Call.Mode := { write := true, create := !o.has 'c', bits := 0o666 }
        match ← Job.call (Call.openFile name mode) with
        | .error e =>
            if o.has 'c' && e = .ENOENT then pure true
            else do
              Job.complainOf (Bytes.ofString "cannot open " ++ inQuotes name ++
                Bytes.ofString " for writing") e
              pure false
        | .ok fd => do
            match ← Job.view fun v => nodeAt? v name .target with
            | .ok (id, node) => do
                match node.content, newSize text (sizeTold node) with
                | .file data, .ok size =>
                    Job.modifyView (·.modifyTree (·.setContent id (.file (resized size data))))
                | _, _ => pure ()
            | .error _ => pure ()
            Job.closeInput fd
            pure true

end LineShell.Tool
