/-
`ls`: listings of directories and of the operands themselves.

What is no directory is listed first, in the order of names, then each
directory under its name. A symbolic link among the operands counts as
what it leads to, unless signs for kinds are asked for.
-/
import LineShell.Tool.Sort
import LineShell.Tool.Transfer

namespace LineShell.Tool

open Posix

variable {ρ : Type}

/-- The status of `ls` where something could not be listed. -/
def listingFailure : Int := 2

/-- Something to list. -/
structure Listed where
  /-- The name that is shown, and the path to it. -/
  name : Bytes
  path : Bytes
  node : Option Node := none
  isDirectory : Bool := false
  /-- Is it a directory or a link to one? -/
  leadsToDirectory : Bool := false

/-- The names that a listing of a directory shows. -/
def shownNames (o : Options) (names : List Bytes) : List Bytes :=
  let all := if o.has 'a' || o.has 'f' then FileTree.dot :: FileTree.dotDot :: names else names
  let isBackup (n : Bytes) : Bool := o.has 'B' && n.getLast? = some 126
  all.filter fun n => (o.has 'a' || o.has 'A' || o.has 'f' || n.head? ≠ some 46) && !isBackup n

/-- What stands after the last dot of a name, with the dot. -/
def extensionOf (name : Bytes) : Bytes :=
  if name.contains 46 then 46 :: (name.reverse.takeWhile (· ≠ 46)).reverse else []

/-- Does one entry belong before another by size or ending, or at least
not after it by name? -/
def listedBefore (o : Options) (a b : Listed) : Bool :=
  let size (l : Listed) : Nat := (l.node.map sizeTold).getD 0
  if o.has 'S' && size a ≠ size b then size b < size a
  else if o.has 'X' && extensionOf a.name ≠ extensionOf b.name then
    notAfter (extensionOf a.name) (extensionOf b.name)
  else notAfter a.name b.name

/-- Entries in the order of a listing. -/
def inListingOrder (o : Options) (entries : List Listed) : List Listed :=
  if o.has 'U' || o.has 'f' then entries
  else
    let sorted := entries.mergeSort (listedBefore o)
    let sorted := if o.has 'r' then sorted.reverse else sorted
    if o.has 'g' then sorted.filter (·.leadsToDirectory) ++ sorted.filter (!·.leadsToDirectory)
    else sorted

/-- The sign for the kind of an entry. -/
def kindSign (o : Options) (l : Listed) : Bytes :=
  match l.node with
  | none => []
  | some n =>
      let kind := (kindOf n).1
      if (o.has 'F' || o.has 'p') && kind = 'd' then [FileTree.slash]
      else if !o.has 'F' then []
      else if kind = 'l' then [64]
      else if kind = 'p' then [124]
      else if kind = '-' && n.executable then [42]
      else []

/-- A name as it is shown. -/
def nameShown (o : Options) (name : Bytes) : Bytes :=
  if o.has 'Q' then
    34 :: (name.flatMap fun b =>
      if b = 34 || b = 92 then [92, b] else if isShown b then [b] else escaped b) ++ [34]
  else if o.has 'b' then
    name.flatMap fun b => if b = 32 || b = 92 then [92, b] else if isShown b then [b] else escaped b
  else if o.has 'q' then name.map fun b => if isShown b then b else 63
  else name

/-- The time that is shown of every file. -/
def timeShown : String := "Jan  1 00:00"

/-- The columns of a long listing before the name, but for the time. -/
def longColumns (v : View) (o : Options) (l : Listed) : List Bytes :=
  let owner := Bytes.ofString (if o.has 'n' then "0" else userName)
  match nodeAt? v l.path (if o.has 'L' then .target else .self) with
  | .error _ => ["?????????", "?", "?", "?", "?"].map Bytes.ofString
  | .ok (id, n) =>
      let kind := (kindOf n).1
      let size :=
        match n.content with
        | .null => Bytes.ofString "1, 3"
        | .zero => Bytes.ofString "1, 5"
        | .full => Bytes.ofString "1, 7"
        | .terminal => Bytes.ofString "5, 0"
        | _ => decimalOf (sizeTold n)
      [Bytes.ofString (toString kind) ++ Permission.letters n.mode,
       decimalOf (nameCount v.world.tree id),
       owner, owner, size]

/-- The blocks that a file takes, in units of 1024 bytes. -/
def blocksOf (l : Listed) : Nat :=
  match l.node with
  | some n =>
      match n.content with
      | .file data => (data.length + 4095) / 4096 * 4
      | .directory _ _ => 4
      | _ => 0
  | none => 0

/-- The blocks that several take. -/
def totalBlocks (entries : List Listed) : Nat := entries.foldl (fun n l => n + blocksOf l) 0

/-- The lines of a long listing, in columns wide enough for some other
entries too. -/
def longText (v : View) (o : Options) (others entries : List Listed) : Bytes :=
  let rows := entries.map fun l => (l, longColumns v o l)
  let all := rows.map Prod.snd ++ others.map (longColumns v o)
  let width (i : Nat) : Nat := (all.map fun columns => (columns.getD i []).length).foldl max 0
  rows.flatMap fun (l, columns) =>
    let cells := (columns.zipIdx).map fun (text, i) =>
      let gap := List.replicate (width i - text.length) 32
      if i = 1 || i = 4 then gap ++ text else text ++ gap
    let leads :=
      match l.node.map Node.content with
      | some (.link text) =>
          let target :=
            match nodeAt? v l.path .target with
            | .ok (_, node) => some node
            | .error _ => none
          Bytes.ofString " -> " ++ nameShown o text ++
            if o.has 'F' then kindSign o { l with node := target } else []
      | _ => []
    joined (cells ++ [Bytes.ofString timeShown, nameShown o l.name]) ++
      (if leads.isEmpty then kindSign o l else leads) ++ [10]

/-- The lines of a listing, beside which others are listed elsewhere. -/
def listingText (v : View) (o : Options) (others entries : List Listed) : Bytes :=
  let names := entries.map fun l => nameShown o l.name ++ kindSign o l
  if o.has 'l' || o.has 'n' then longText v o others entries
  else if o.has 'm' then
    if names.isEmpty then [] else (names.intersperse [44, 32]).flatten ++ [10]
  else withEnd (o.has 'z') names

/-- An entry with what is known of its node. -/
def entryAt (v : View) (name path : Bytes) (last : FileTree.Last) : Listed :=
  let leadsToDirectory := Call.isDirectoryAt path .target v
  match nodeAt? v path last with
  | .ok (id, node) =>
      { name, path, node := some node, isDirectory := v.world.tree.isDirectory id,
        leadsToDirectory }
  | .error _ => { name, path }

/-- Lists a directory, and those in it if so asked; `first` says whether
anything was listed before. The answer is the status, and whether this is
still so. -/
def listDirectory (o : Options) (headed : Bool) : Nat → Bool → Bytes → Job ρ (Int × Bool)
  | 0, first, _ => pure (listingFailure, first)
  | depth + 1, first, path => do
      match ← Job.call (Call.openFile path .forReading) with
      | .error e => do
          Job.complainCannot "cannot open directory" path e
          pure (listingFailure, first)
      | .ok fd => do
          let names ← Job.call (Call.list fd)
          Job.closeInput fd
          match names with
          | .error e => do
              Job.complainCannot "reading directory" path e
              pure (listingFailure, first)
          | .ok names => do
              if headed then
                Job.say ((if first then [] else [10]) ++ nameShown o path ++ [58, 10])
              let v ← Job.view id
              let entries := inListingOrder o ((shownNames o names).map fun name =>
                entryAt v name (inDirectory path name) .self)
              if o.has 'l' || o.has 'n' then
                Job.say (Bytes.ofString "total " ++ decimalOf (totalBlocks entries) ++ [10])
              Job.say (listingText v o [] entries)
              if !o.has 'R' then pure (0, false)
              else
                let below := entries.filter fun l =>
                  l.isDirectory && l.name ≠ FileTree.dot && l.name ≠ FileTree.dotDot
                let statuses ← below.mapM fun l => do
                  pure (← listDirectory o true depth false l.path).1
                pure (firstBad statuses, false)

/-- An operand with what is known of it; none where there is nothing. -/
def operandListed (o : Options) (name : Bytes) : Job ρ (Option Listed) := do
  let v ← Job.view id
  let direct := o.has 'F' || o.has 'd' || o.has 'l' || o.has 'n'
  let follows : Bool := o.has 'H' || o.has 'L' || !direct
  match nodeAt? v name (if follows then .target else .self) with
  | .ok _ =>
      let l := entryAt v name name (if follows then .target else .self)
      pure (some (if l.isDirectory || o.has 'L' then l else entryAt v name name .self))
  | .error e =>
      match nodeAt? v name .self with
      | .ok _ =>
          if o.has 'L' then do
            Job.complainCannot "cannot access" name e
            pure none
          else pure (some (entryAt v name name .self))
      | .error e => do
          Job.complainCannot "cannot access" name e
          pure none

/-- Lists directories one after another. -/
def listEach (o : Options) (headed : Bool) (depth : Nat) : Bool → List Bytes → Job ρ Int
  | _, [] => pure 0
  | first, path :: rest => do
      let (status, first) ← listDirectory o headed depth first path
      let others ← listEach o headed depth first rest
      pure (firstBad [status, others])

def lsTool : Body ρ := fun args =>
  withOptions
    { plain := "1aAdFpRrUfmQbNqHLBXSvCln", valued := "wI"
      long :=
        [("all", 'a'), ("almost-all", 'A'), ("directory", 'd'), ("classify", 'F'),
         ("recursive", 'R'),
         ("reverse", 'r'), ("quote-name", 'Q'), ("escape", 'b'), ("literal", 'N'),
         ("ignore-backups", 'B'),
         ("dereference", 'L'), ("group-directories-first", 'g'), ("zero", 'z')] }
    args listingFailure fun o => do
      let names := if o.operands.isEmpty then [FileTree.dot] else o.operands
      let found ← names.mapM (operandListed o)
      let known := inListingOrder o (found.filterMap id)
      let (directories, files) :=
        if o.has 'd' then ([], known)
        else (known.filter (·.isDirectory), known.filter (!·.isDirectory))
      if !files.isEmpty then Job.say (listingText (← Job.view id) o directories files)
      let headed := 1 < names.length || o.has 'R'
      let depth ← Job.view fun v => v.world.tree.nodes.size + 1
      let status ← listEach o headed depth files.isEmpty (directories.map (·.path))
      pure (firstBad [if found.any Option.isNone then listingFailure else 0, status])

end LineShell.Tool
