/-
Names of files: the programs that take them apart and follow them,
`basename`, `dirname`, `readlink`, `realpath` and `stat`.
-/
import LineShell.Posix.Directory
import LineShell.Tool.Permission

namespace LineShell.Tool

open Posix

variable {ρ : Type}

-- ================================================================ names

/-- The last component of a path. -/
def lastName (path : Bytes) : Bytes := ((FileTree.components path).getLast?).getD []

/-- A path without the slashes at its end. -/
def withoutSlashes (path : Bytes) : Bytes :=
  (path.reverse.dropWhile (· = FileTree.slash)).reverse

/-- A name in a directory. -/
def inDirectory (dir name : Bytes) : Bytes :=
  if dir.isEmpty || FileTree.endsInSlash dir then dir ++ name else dir ++ FileTree.slash :: name

/-- What a path is called by itself. -/
def ownName (path : Bytes) : Bytes :=
  if path.isEmpty then []
  else if (FileTree.components path).isEmpty then [FileTree.slash]
  else lastName path

/-- A path without its last component. -/
def withoutLast (path : Bytes) : Bytes :=
  let bare := withoutSlashes path
  let above := withoutSlashes (bare.take (bare.length - (lastName path).length))
  if !above.isEmpty then above
  else if path.head? = some FileTree.slash then [FileTree.slash]
  else FileTree.dot

/-- A name without an ending, unless it is nothing else. -/
def withoutEnding (ending name : Bytes) : Bytes :=
  if ending.isSuffixOf name && ending ≠ name then name.take (name.length - ending.length) else name

def basenameTool : Body ρ := fun args =>
  withOptions
    { plain := "az", valued := "s", inFront := true
      long := [("multiple", 'a'), ("suffix", 's'), ("zero", 'z')] } args failure fun o => do
    let many := o.has 'a' || o.has 's'
    let names : List Bytes ←
      match o.operands with
      | [] => Job.missingOperand
      | name :: rest =>
          if many then pure ((name :: rest).map fun n =>
            withoutEnding ((o.value? 's').getD []) (ownName n))
          else
            match rest with
            | _ :: extra :: _ => Job.extraOperand extra
            | _ => pure [withoutEnding (rest.headD []) (ownName name)]
    Job.say (withEnd (o.has 'z') names)
    pure 0

def dirnameTool : Body ρ := fun args =>
  withOptions { plain := "z", long := [("zero", 'z')] } args failure fun o => do
    if o.operands.isEmpty then Job.missingOperand
    Job.say (withEnd (o.has 'z') (o.operands.map withoutLast))
    pure 0

-- ================================================================= links

/-- The node at a path with its number, if there is one. -/
def nodeAt? (v : View) (path : Bytes) (last : FileTree.Last) : Except Errno (NodeId × Node) :=
  match (Call.nodeAt path last).attempt v with
  | (.ok id, _) =>
      match v.world.tree.nodes[id]? with
      | some node => .ok (id, node)
      | none => .error .ENOENT
  | (.error e, _) => .error e

/-- The text of the symbolic link at a path. -/
def linkText (v : View) (path : Bytes) : Except Errno Bytes := do
  match (← nodeAt? v path .self).2.content with
  | .link text => pure text
  | _ => throw .EINVAL

/-- What may be missing of a path that is followed. -/
inductive Missing where
  | nothing
  | last
  | anything
  deriving DecidableEq, Repr

/-- The absolute path without links, once the given components have been
followed from a path; so many components at most. -/
def followed (v : View) (missing : Missing) (keepsLinks : Bool) :
    Nat → List Bytes → List Bytes → Except Errno (List Bytes)
  | 0, _, _ => .error .ELOOP
  | _, done, [] => .ok done
  | n + 1, done, name :: rest =>
      if name = FileTree.dot then followed v missing keepsLinks n done rest
      else if name = FileTree.dotDot then followed v missing keepsLinks n done.dropLast rest
      else
        let path := (done ++ [name]).flatMap (FileTree.slash :: ·)
        match nodeAt? v path .name with
        | .error e =>
            let excused : Bool :=
              match missing with
              | .nothing => false
              | .last => e = .ENOENT && rest.isEmpty
              | .anything => true
            if excused then followed v missing keepsLinks n (done ++ [name]) rest else .error e
        | .ok (_, node) =>
            match node.content, keepsLinks with
            | .link text, false =>
                let start := if text.head? = some FileTree.slash then [] else done
                followed v missing keepsLinks n start (FileTree.components text ++ rest)
            | _, _ =>
                let isDirectory : Bool :=
                  match nodeAt? v path .target with
                  | .ok (id, _) => v.world.tree.isDirectory id
                  | .error _ => false
                if !rest.isEmpty && !isDirectory && missing ≠ .anything then .error .ENOTDIR
                else followed v missing keepsLinks n (done ++ [name]) rest

/-- The absolute path that a path leads to. -/
def absolutePath (v : View) (missing : Missing) (keepsLinks : Bool) (path : Bytes) :
    Except Errno Bytes := do
  if path.isEmpty then throw .ENOENT
  let start : List Bytes :=
    if path.head? = some FileTree.slash then [] else FileTree.components (v.cwdPath.getD [])
  let last := if FileTree.endsInSlash path then [FileTree.dot] else []
  let names ← followed v missing keepsLinks 2000 start (FileTree.components path ++ last)
  pure (if names.isEmpty then [FileTree.slash] else names.flatMap (FileTree.slash :: ·))

/-- What options say may be missing. -/
def missingAllowed (o : Options) (default : Option Missing) : Option Missing :=
  match o.lastOf "fem" with
  | some 'e' => some .nothing
  | some 'm' => some .anything
  | some _ => some .last
  | none => default

def readlinkTool : Body ρ := fun args =>
  withOptions
    { plain := "femnqsvz"
      long :=
        [("canonicalize", 'f'), ("canonicalize-existing", 'e'), ("canonicalize-missing", 'm'),
         ("no-newline", 'n'), ("quiet", 'q'), ("silent", 's'), ("verbose", 'v'), ("zero", 'z')] }
    args failure fun o => do
      if o.operands.isEmpty then Job.missingOperand
      if o.has 'n' && 1 < o.operands.length then
        Job.complainText "ignoring --no-newline with multiple arguments"
      let bare := o.has 'n' && o.operands.length = 1
      let statuses ← o.operands.mapM fun name => do
        let found ← Job.view fun v =>
          match missingAllowed o none with
          | some missing => absolutePath v missing false name
          | none => linkText v name
        match found with
        | .ok text => do
            Job.say (if bare then text else withEnd (o.has 'z') [text])
            pure 0
        | .error e => do
            if o.has 'v' then Job.complainOf (shown name) e
            pure failure
      pure (firstBad statuses)

def realpathTool : Body ρ := fun args =>
  withOptions
    { plain := "eLPmsqz"
      long :=
        [("canonicalize-existing", 'e'), ("canonicalize-missing", 'm'), ("no-symlinks", 's'),
         ("strip", 's'), ("quiet", 'q'), ("zero", 'z')] }
    args failure fun o => do
      if o.operands.isEmpty then Job.missingOperand
      let statuses ← o.operands.mapM fun name => do
        let missing := (missingAllowed o (some .last)).getD .last
        match ← Job.view fun v => absolutePath v missing (o.has 's') name with
        | .ok path => do
            Job.say (withEnd (o.has 'z') [path])
            pure 0
        | .error e => do
            if !o.has 'q' then Job.complainOf (shown name) e
            pure failure
      pure (firstBad statuses)

-- ================================================================= status

/-- The letter and the words for a kind of file, and its bits in a mode. -/
def kindOf (n : Node) : Char × String × Nat :=
  match n.content with
  | .file data => ('-', if data.isEmpty then "regular empty file" else "regular file", 0o100000)
  | .program _ => ('-', "regular file", 0o100000)
  | .directory _ _ | .descriptors => ('d', "directory", 0o040000)
  | .link _ => ('l', "symbolic link", 0o120000)
  | .null | .zero | .full | .terminal => ('c', "character special file", 0o020000)
  | .pipe _ => ('p', "fifo", 0o010000)

/-- The size that is told of a node. -/
def sizeTold (n : Node) : Nat :=
  match n.content with
  | .file data => data.length
  | .link text => text.length
  | .directory _ _ => 4096
  | _ => 0

/-- How many names a node has. -/
def nameCount (t : FileTree) (id : NodeId) : Nat :=
  let entries : List NodeId := t.nodes.toList.flatMap fun n =>
    match n.content with
    | .directory _ entries => entries.map Prod.snd
    | _ => []
  match t.content id with
  | .directory _ own => 2 + (own.filter fun (_, child) => t.isDirectory child).length
  | _ => entries.count id

/-- What a letter of a format tells of a file. -/
def statField (t : FileTree) (name : Bytes) (id : NodeId) (n : Node) (letter : UInt8) : Bytes :=
  let (kind, words, kindBits) := kindOf n
  match Char.ofNat letter.toNat with
  | 'a' => Bytes.ofString (String.ofList (Nat.toDigits 8 n.mode))
  | 'A' => Bytes.ofString (toString kind) ++ Permission.letters n.mode
  | 'f' => Bytes.ofString (String.ofList (Nat.toDigits 16 (kindBits ||| n.mode)))
  | 'F' => Bytes.ofString words
  | 'h' => decimalOf (nameCount t id)
  | 'n' => name
  | 'N' =>
      match n.content with
      | .link text => inQuotes name ++ Bytes.ofString " -> " ++ inQuotes text
      | _ => inQuotes name
  | 's' => decimalOf (sizeTold n)
  | 'u' | 'g' => [48]
  | 'U' | 'G' => Bytes.ofString userName
  | '%' => [37]
  | _ => [63]

/-- A format with what it tells of a file. -/
def statText (field : UInt8 → Bytes) : Nat → Bytes → Bytes
  | 0, _ | _, [] => []
  | n + 1, 37 :: rest =>
      let isFlag (b : UInt8) : Bool := ([35, 45, 43, 32, 48] : Bytes).contains b
      let flags := rest.takeWhile isFlag
      let number := (rest.drop flags.length).takeWhile fun b => 48 ≤ b && b ≤ 57
      match rest.drop (flags.length + number.length) with
      | letter :: rest =>
          let text := field letter
          let gap := ((decimal? number).getD 0) - text.length
          let filled :=
            if flags.contains 45 then text ++ List.replicate gap 32
            else List.replicate gap (if flags.contains 48 then 48 else 32) ++ text
          filled ++ statText field n rest
      | [] => 37 :: rest
  | n + 1, b :: rest => b :: statText field n rest

def statTool : Body ρ := fun args =>
  withOptions
    { plain := "L", valued := "cp",
      long := [("dereference", 'L'), ("format", 'c'), ("printf", 'p')] }
    args failure fun o => do
      if o.operands.isEmpty then Job.missingOperand
      let (format, ending) : Bytes × Bytes :=
        match o.lastOf "cp" with
        | some 'p' =>
            let text := (o.value? 'p').getD []
            ((Escapes.replace {} (text.length + 1) text).1, [])
        | _ => ((o.value? 'c').getD (Bytes.ofString "%n"), [10])
      let statuses ← o.operands.mapM fun name => do
        match ← Job.view fun v =>
            (nodeAt? v name (if o.has 'L' then .target else .self), v.world.tree) with
        | (.ok (id, node), tree) => do
            Job.say (statText (statField tree name id node) (format.length + 1) format ++ ending)
            pure 0
        | (.error e, _) => do
            Job.complainCannot "cannot statx" name e
            pure failure
      pure (firstBad statuses)

end LineShell.Tool
