/-
Where a session starts: a fresh directory with given files, an
environment, and three standard streams.

The machine underneath has what shell commands need to find: programs in
`/usr/bin`, of which `/bin` is another name, the two devices, and the
directory that lists descriptors. The session's own directory lies below
a base directory of its own. Its standard input is a file that holds the
input; its output streams are files that are added to. None of the three
has a name.
-/
import LineShell.Posix.Signal
import LineShell.Posix.View

namespace LineShell.Session

open Posix

/-- What a path of the session's directory holds at the start. -/
inductive Entry where
  | file (text : String) (mode : Nat)
  | link (target : String)
  | directory
  deriving DecidableEq, Repr, Inhabited

structure Setup where
  /-- Paths below the session's directory, and what they hold. -/
  files : List (String × Entry) := []
  stdin : Bytes := []
  /-- Changes to the environment; no value removes the variable. -/
  env : List (String × Option String) := []
  umask : Nat := 0o022
  /-- The working directory, below the session's directory. -/
  cwd : String := "."
  deriving Repr, Inhabited

/-- The names of the directories down to the base. -/
def baseNames : List String := ["tmp", "session"]

/-- The base directory. -/
def basePath : String := String.join (baseNames.map ("/" ++ ·))

/-- The session's own directory. -/
def rootPath : String := basePath ++ "/w"

-- ================================================================= trees

/-- The directory of a name in a directory, made if there is none. -/
def childDirectory (t : FileTree) (dir : NodeId) (name : Bytes) : FileTree × NodeId :=
  match t.entry? dir name with
  | some id => (t, id)
  | none => t.addDirectory dir name 0o755

/-- The directory down a list of names, made as far as there is none. -/
def directoryAt (t : FileTree) (dir : NodeId) (names : List Bytes) : FileTree × NodeId :=
  names.foldl (fun (t, dir) name => childDirectory t dir name) (t, dir)

/-- Puts something at a path below a directory. -/
def place (dir : NodeId) (t : FileTree) (path : List Bytes) (mode : Nat) (c : Content) : FileTree :=
  let (t, parent) := directoryAt t dir path.dropLast
  match path.getLast? with
  | some name => (t.add parent name mode c).1
  | none => t

/-- Puts an entry at a path below a directory. -/
def placeEntry (dir : NodeId) (t : FileTree) : String × Entry → FileTree
  | (path, entry) =>
      let names := FileTree.components (Bytes.ofString path)
      match entry with
      | .file text mode => place dir t names mode (.file (Bytes.ofString text))
      | .link target => place dir t names 0o777 (.link (Bytes.ofString target))
      | .directory => (directoryAt t dir names).1

/-- Directories that are there before any session, besides those that hold
something. -/
def systemDirectories : List String :=
  ["/boot", "/dev/shm", "/etc", "/home", "/media", "/mnt", "/opt", "/root", "/run", "/srv", "/sys",
   "/usr/lib", "/usr/lib64", "/usr/local/bin", "/usr/sbin", "/usr/share", "/var/log", "/var/tmp"]

/-- What else is there, by path. -/
def systemNodes : List (String × Content) :=
  let link (target : String) : Content := .link (Bytes.ofString target)
  [("/bin", link "usr/bin"), ("/lib", link "usr/lib"), ("/lib64", link "usr/lib64"),
   ("/sbin", link "usr/sbin"), ("/var/run", link "/run"), ("/dev/null", .null),
   ("/dev/zero", .zero),
   ("/dev/full", .full), ("/dev/random", .zero), ("/dev/urandom", .zero), ("/dev/tty", .terminal),
   ("/dev/fd", link "/proc/self/fd"), ("/dev/stdin", link "/proc/self/fd/0"),
   ("/dev/stdout", link "/proc/self/fd/1"), ("/dev/stderr", link "/proc/self/fd/2"),
   ("/etc/passwd", .file (Bytes.ofLine "root:x:0:0:root:/root:/bin/sh")),
   ("/proc/self/fd", .descriptors)]

/-- The directories that take no new names. -/
def fixedDirectories : List String := ["/proc", "/proc/self"]

/-- The permission bits of what is there before any session. -/
def systemMode : Content → Nat
  | .file _ => 0o644
  | .descriptors => 0o500
  | .null | .zero | .full | .terminal => 0o666
  | _ => 0o777

/-- The part of the tree that is there before any session. -/
def systemTree (programs : List String) : FileTree :=
  let names (path : String) := FileTree.components (Bytes.ofString path)
  let t := programs.foldl
    (fun t name => place FileTree.root t (names "/usr/bin" ++ [Bytes.ofString name])
      0o755 (.program name))
    FileTree.empty
  let t := systemDirectories.foldl (fun t path => (directoryAt t FileTree.root (names path)).1) t
  let t := systemNodes.foldl
    (fun t (path, c) => place FileTree.root t (names path) (systemMode c) c) t
  fixedDirectories.foldl
    (fun t path =>
      match t.find .none FileTree.root (Bytes.ofString path) with
      | .ok id => t.setFixed id
      | .error _ => t) t

/-- The tree at the start of a session, its base directory and its own
directory. -/
def Setup.tree (s : Setup) (programs : List String) : FileTree × NodeId × NodeId :=
  let (t, base) := directoryAt (systemTree programs) FileTree.root (baseNames.map Bytes.ofString)
  let (t, root) := t.addDirectory base [119] 0o755
  (s.files.foldl (placeEntry root) t, base, root)

-- ============================================================ environment

/-- The environment at the start. -/
def Setup.environment (s : Setup) : Environment :=
  s.env.foldl
    (fun env (name, value) =>
      match value with
      | some v => env.set name v
      | none => env.unset name)
    (.ofList [("PATH", "/usr/bin:/bin"), ("HOME", rootPath)])

/-- Adds a node without a name. -/
def addUnnamed (t : FileTree) (data : Bytes) : FileTree × NodeId :=
  (⟨t.nodes.push { mode := 0o644, content := .file data, linked := false }⟩, t.nodes.size)

/-- A session ready to start. -/
structure Stage where
  view : View
  base : NodeId
  root : NodeId
  /-- The nodes behind standard output and standard error. -/
  out : NodeId
  err : NodeId
  deriving Repr, Inhabited

/-- Sets a session up: the process stands in the session's directory and
has its standard streams open. -/
def Setup.stage (s : Setup) (programs : List String) : Stage :=
  let (t, base, root) := s.tree programs
  let (t, input) := addUnnamed t s.stdin
  let (t, out) := addUnnamed t []
  let (t, err) := addUnnamed t []
  let world : World :=
    { tree := t
      files := #[{ target := .node input, readable := true, writable := false },
        { target := .node out, readable := false, writable := true, append := true },
        { target := .node err, readable := false, writable := true, append := true }] }
  let fds : FdTable := ⟨[(0, ⟨0, false⟩), (1, ⟨1, false⟩), (2, ⟨2, false⟩)]⟩
  let cwd := (t.find .none root (Bytes.ofString s.cwd)).toOption.getD root
  let process : Process :=
    { fds, cwd, env := s.environment, umask := s.umask, ignored := [Signal.pipe] }
  { view := ⟨process, world⟩, base, root, out, err }

/-- What a file holds. -/
def contentsOf (t : FileTree) (id : NodeId) : Bytes :=
  match t.content id with
  | .file data => data
  | _ => []

-- =============================================================== listings

/-- What a listing says about a path. -/
inductive Listed where
  | file (mode : Nat) (data : Bytes)
  | directory (mode : Nat)
  | link (target : Bytes)
  deriving DecidableEq, Repr, Inhabited

/-- All paths below a directory, down so many levels; directories end in a
slash. -/
def listBelow (t : FileTree) : Nat → NodeId → Bytes → List (Bytes × Listed)
  | 0, _, _ => []
  | depth + 1, dir, above =>
      match t.content dir with
      | .directory _ entries =>
          entries.flatMap fun (name, id) =>
            let path := above ++ name
            let mode := (t.nodes[id]?.map Node.mode).getD 0
            match t.content id with
            | .directory _ _ =>
                (path ++ [FileTree.slash], .directory mode) ::
                  listBelow t depth id (path ++ [FileTree.slash])
            | .link target => [(path, .link target)]
            | .file data => [(path, .file mode data)]
            | _ => []
      | _ => []

/-- All paths below a directory. -/
def list (t : FileTree) (dir : NodeId) : List (Bytes × Listed) :=
  listBelow t t.nodes.size dir []

end LineShell.Session
