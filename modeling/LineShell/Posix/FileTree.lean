/-
The file tree: nodes that hold data, other nodes, or the text of a
symbolic link, and the rules by which a path leads through them.

A node is known by its number; directories map names, which are bytes,
to nodes. A node whose last name is removed stays in the tree, because
processes may still hold it open or stand in it, but no path leads
there. The root is node 0 and its own parent.

`resolve` follows a path component by component: `.` and `..` stay and
go up, a symbolic link is replaced by its text, at most forty times, and
everything but the last component has to be a directory. The last
component is reported together with the directory it stands in, present
or not, so that the same walk serves opening, creating and removing; what
these ask of the last component differs (`Last`).

The directory of descriptors holds links that lead straight to the
reader's open files, so a walk is told what those are.
-/
import LineShell.Text.Utf8
import LineShell.Errno

namespace LineShell.Posix

/-- A node's number. -/
abbrev NodeId := Nat

inductive Content where
  | file (data : Bytes)
  | directory (parent : NodeId) (entries : List (Bytes × NodeId))
  | link (target : Bytes)
  /-- The device that swallows what is written and is empty to read. -/
  | null
  /-- The device that gives zeros without end. -/
  | zero
  /-- The device that gives zeros, and has no room for anything. -/
  | full
  /-- The controlling terminal, which no process here has. -/
  | terminal
  /-- A pipe, by its number. -/
  | pipe (number : Nat)
  /-- An installed program. -/
  | program (name : String)
  /-- The directory that lists the reader's own open descriptors. -/
  | descriptors
  deriving DecidableEq, Repr, Inhabited

structure Node where
  /-- The twelve permission bits. -/
  mode : Nat
  content : Content
  /-- Does some directory name the node? -/
  linked : Bool := true
  /-- Is the node a directory that never takes new names? -/
  fixed : Bool := false
  deriving DecidableEq, Repr, Inhabited

/-- May anybody execute a node with these bits? -/
def Node.executable (n : Node) : Bool := n.mode &&& 0o111 ≠ 0

structure FileTree where
  nodes : Array Node
  deriving DecidableEq, Repr, Inhabited

namespace FileTree

/-- The node of the path `/`. -/
def root : NodeId := 0

/-- A tree that holds an empty root directory. -/
def empty : FileTree := ⟨#[{ mode := 0o755, content := .directory root [] }]⟩

/-- What a node holds; nothing known about it reads as an empty file. -/
def content (t : FileTree) (id : NodeId) : Content :=
  (t.nodes[id]?.map Node.content).getD (.file [])

def isDirectory (t : FileTree) (id : NodeId) : Bool :=
  match t.content id with
  | .directory _ _ | .descriptors => true
  | _ => false

/-- The node of a name in a directory. A directory without a name of its
own has lost its entries. -/
def entry? (t : FileTree) (dir : NodeId) (name : Bytes) : Option NodeId :=
  match t.content dir with
  | .directory _ entries => entries.lookup name
  | _ => none

/-- The directory above; the root is above itself. -/
def parent (t : FileTree) (dir : NodeId) : NodeId :=
  match t.content dir with
  | .directory up _ => up
  | _ => dir

-- =============================================================== changes

def setContent (t : FileTree) (id : NodeId) (c : Content) : FileTree :=
  ⟨t.nodes.modify id fun n => { n with content := c }⟩

def setMode (t : FileTree) (id : NodeId) (mode : Nat) : FileTree :=
  ⟨t.nodes.modify id fun n => { n with mode }⟩

def setLinked (t : FileTree) (id : NodeId) (linked : Bool) : FileTree :=
  ⟨t.nodes.modify id fun n => { n with linked }⟩

/-- From now on the directory takes no new names. -/
def setFixed (t : FileTree) (id : NodeId) : FileTree :=
  ⟨t.nodes.modify id fun n => { n with fixed := true }⟩

/-- Names a node in a directory. -/
def link (t : FileTree) (dir : NodeId) (name : Bytes) (id : NodeId) : FileTree :=
  match t.content dir with
  | .directory up entries =>
      (t.setContent dir (.directory up (entries ++ [(name, id)]))).setLinked id true
  | _ => t

/-- Takes a name out of a directory. -/
def unlink (t : FileTree) (dir : NodeId) (name : Bytes) : FileTree :=
  match t.content dir with
  | .directory up entries =>
      let t' := t.setContent dir (.directory up (entries.filter (·.1 ≠ name)))
      match entries.lookup name with
      | some id => t'.setLinked id false
      | none => t'
  | _ => t

/-- Makes a node under a new name in a directory. -/
def add (t : FileTree) (dir : NodeId) (name : Bytes) (mode : Nat) (c : Content) :
    FileTree × NodeId :=
  let id := t.nodes.size
  (FileTree.link ⟨t.nodes.push { mode, content := c }⟩ dir name id, id)

/-- Adds a node that no directory names. -/
def addUnnamed (t : FileTree) (c : Content) : FileTree :=
  ⟨t.nodes.push { mode := 0o600, content := c, linked := false }⟩

/-- Makes an empty directory under a new name. -/
def addDirectory (t : FileTree) (dir : NodeId) (name : Bytes) (mode : Nat) : FileTree × NodeId :=
  t.add dir name mode (.directory dir [])

-- ================================================================= paths

/-- The byte between components. -/
def slash : UInt8 := 47

/-- The non-empty components of a path. -/
def components (path : Bytes) : List Bytes :=
  (path.splitOnP (· == slash)).filter (· ≠ [])

/-- A path that ends in a slash names a directory. -/
def endsInSlash (path : Bytes) : Bool := path.getLast? == some slash

/-- What is asked of the last component of a path. -/
inductive Last where
  /-- The node that it stands for, links followed. -/
  | target
  /-- The node that it names, links followed only before a slash. -/
  | self
  /-- The name as such, which is to be made or removed: links are never
  followed. -/
  | name
  /-- A file to open and make if need be: links are followed, and a slash
  can follow none of the names on the way. -/
  | file
  deriving DecidableEq, Repr

/-- Where a path leads. -/
structure Place where
  /-- The directory in which the last component was looked up. -/
  dir : NodeId
  /-- The last component; empty for the root itself. -/
  name : Bytes
  node : Option NodeId
  /-- Does the path end in a slash? -/
  slashed : Bool
  deriving DecidableEq, Repr, Inhabited

/-- The longest name of a directory entry. -/
def nameMax : Nat := 255

/-- One less than the longest path. -/
def pathMax : Nat := 4096

/-- The most symbolic links on one walk. -/
def linkMax : Nat := 40

def dot : Bytes := [46]
def dotDot : Bytes := [46, 46]

/-- What the reader of a path holds open, by descriptor. -/
abbrev Held := Nat → Option NodeId

/-- Nothing is held open. -/
def Held.none : Held := fun _ => .none

/-- A number in decimal, without leading zeros. -/
def number? (name : Bytes) : Option Nat :=
  if name.isEmpty || (name.head? = some 48 && name.length ≠ 1) then none
  else
    name.foldlM (fun n b => if 48 ≤ b && b ≤ 57 then some (n * 10 + (b.toNat - 48)) else none) 0

/-- What a directory has under a name. -/
def lookUp (t : FileTree) (held : Held) (dir : NodeId) (name : Bytes) : Option NodeId :=
  match t.content dir with
  | .descriptors => (number? name).bind held
  | _ => t.entry? dir name

/-- Does a directory take no new names? -/
def isFixed (t : FileTree) (dir : NodeId) : Bool :=
  match t.content dir with
  | .descriptors => true
  | _ => (t.nodes[dir]?.map Node.fixed).getD false

/-- Walks from a directory along components. `follow` goes on from a symbolic
link: with its target, from a directory along what is left. -/
def walkAlong (t : FileTree) (held : Held) (last : Last)
    (follow : Bytes → NodeId → List Bytes → Bool → Except Errno Place) :
    NodeId → List Bytes → Bool → Except Errno Place
  | dir, [], slashed => .ok ⟨dir, [], some dir, slashed⟩
  | dir, name :: rest, slashed =>
      if !t.isDirectory dir then .error .ENOTDIR
      else if name = dot || name = dotDot then
        let next := if name = dot then dir else t.parent dir
        if rest.isEmpty then .ok ⟨dir, name, some next, slashed⟩
        else walkAlong t held last follow next rest slashed
      else if rest.isEmpty && slashed && last = .file then .error .EISDIR
      else if name.length > nameMax then .error .ENAMETOOLONG
      else
        match t.lookUp held dir name with
        | none =>
            if rest.isEmpty && !t.isFixed dir then .ok ⟨dir, name, none, slashed⟩
            else .error .ENOENT
        | some id =>
            match t.content id with
            | .link target =>
                if rest.isEmpty && (last = .name || (last = .self && !slashed)) then
                  .ok ⟨dir, name, some id, slashed⟩
                else follow target dir rest slashed
            | _ =>
                if rest.isEmpty then
                  if slashed && last ≠ .name && !t.isDirectory id then .error .ENOTDIR
                  else .ok ⟨dir, name, some id, slashed⟩
                else walkAlong t held last follow id rest slashed

/-- Walks from a directory along components, through so many symbolic links
at most. -/
def walk (t : FileTree) (held : Held) (last : Last) :
    Nat → NodeId → List Bytes → Bool → Except Errno Place
  | 0 => walkAlong t held last fun _ _ _ _ => .error .ELOOP
  | links + 1 => walkAlong t held last fun target dir rest slashed =>
      if target.isEmpty then .error .ENOENT
      else
        walk t held last links (if target.head? = some slash then root else dir)
          (components target ++ rest) (slashed || (rest.isEmpty && endsInSlash target))

/-- Where a path leads from a directory. -/
def resolve (t : FileTree) (held : Held) (cwd : NodeId) (path : Bytes) (last : Last) :
    Except Errno Place :=
  if path.isEmpty then .error .ENOENT
  else if path.length ≥ pathMax then .error .ENAMETOOLONG
  else
    walk t held last linkMax (if path.head? = some slash then root else cwd)
      (components path) (endsInSlash path)

/-- The node that a path leads to, links followed. -/
def find (t : FileTree) (held : Held) (cwd : NodeId) (path : Bytes) : Except Errno NodeId := do
  match (← t.resolve held cwd path .target).node with
  | some id => pure id
  | none => throw .ENOENT

/-- The names from the root down to a directory. -/
def namesTo (t : FileTree) : Nat → NodeId → List Bytes → Option (List Bytes)
  | 0, _, _ => none
  | fuel + 1, id, below =>
      if id = root then some below
      else if !(t.nodes[id]?.map Node.linked).getD false then none
      else
        match t.content (t.parent id) with
        | .directory _ entries =>
            match entries.find? (·.2 == id) with
            | some (name, _) => namesTo t fuel (t.parent id) (name :: below)
            | none => none
        | _ => none

/-- The absolute path of a directory; none where it has been removed. -/
def pathOf (t : FileTree) (dir : NodeId) : Option Bytes :=
  (namesTo t (t.nodes.size + 1) dir []).map fun names =>
    if names.isEmpty then [slash] else names.flatMap (slash :: ·)

end FileTree

end LineShell.Posix
