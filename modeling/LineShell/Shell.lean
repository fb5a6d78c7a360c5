/-
The shell itself: starting up, and reading and executing lines until its
input ends.

A line that is no command line is reported and fails; a command that
fails leaves its status for the next prompt. Only a process primitive
that fails, or input that is no text, ends the shell with a failure. The
prompt is shown where a simple terminal asks for it.
-/
import LineShell.Command.Parse
import LineShell.Launch
import LineShell.Log.File
import LineShell.Theme
import LineShell.Text.Cluster
import LineShell.Text.Quoted

namespace LineShell.Shell

open Posix

variable {ρ : Type}

-- ================================================================ start-up

/-- The classes of errors, by number, that a failed start names. -/
def errorClasses : List (Int × String) :=
  [(1, "PermissionDenied"), (2, "NotFound"), (4, "Interrupted"), (11, "WouldBlock"),
   (12, "OutOfMemory"), (13, "PermissionDenied"), (16, "ResourceBusy"), (17, "AlreadyExists"),
   (18, "CrossesDevices"), (20, "NotADirectory"), (21, "IsADirectory"), (22, "InvalidInput"),
   (26, "ExecutableFileBusy"), (27, "FileTooLarge"), (28, "StorageFull"), (29, "NotSeekable"),
   (30, "ReadOnlyFilesystem"), (31, "TooManyLinks"), (32, "BrokenPipe"), (35, "Deadlock"),
   (36, "InvalidFilename"), (39, "DirectoryNotEmpty"), (40, "FilesystemLoop")]

/-- A record of named fields as it is shown. -/
def fieldsShown (name : String) (fields : List (String × String)) : String :=
  name ++ " \x7b " ++ String.intercalate ", " (fields.map fun (k, v) => k ++ ": " ++ v) ++ " \x7d"

/-- The full account of a file error. -/
def account : FileError → String
  | .system e =>
      fieldsShown "Os"
        [("code", toString e.number), ("kind", (errorClasses.lookup e.number).getD "Uncategorized"),
          ("message", Text.quoted e.libraryText)]
  | .nulInName =>
      fieldsShown "Error"
        [("kind", "InvalidInput"), ("message", Text.quoted FileError.nulInName.text)]

/-- Writes a line to standard error. -/
def complain (line : String) : View → View :=
  Call.after (Call.writeNow Fd.stderr (Bytes.ofLine line))

/-- What the shell shows of itself. -/
structure Appearance where
  theme : Theme
  colour : Bool
  /-- Is a prompt shown before each line? -/
  prompts : Bool
  deriving Repr

/-- Terminals that cannot edit lines, but are shown a prompt. -/
def simpleTerminals : List String := ["dumb", "cons25", "emacs"]

/-- How the environment wants the shell to look. Colours have to be asked
for, as the output is no terminal. -/
def Appearance.ofEnvironment (env : Environment) (settings : Settings) : Appearance :=
  { theme := Theme.named settings.theme
    colour := (env.get? "CLICOLOR_FORCE").any (· ≠ "0")
    prompts := (env.get? "TERM").any fun t => simpleTerminals.contains (t.map Char.toLower) }

-- ================================================================== lines

/-- How much is read at once. -/
def blockSize : Nat := 8192

/-- A line of the input. -/
inductive Input where
  | line (text : String)
  | finished
  /-- The line is no text. -/
  | invalid
  deriving DecidableEq, Repr

/-- A line without its end. -/
def trimmed (line : String) : String :=
  match line.toList.reverse with
  | '\n' :: '\r' :: rest => String.ofList rest.reverse
  | '\n' :: rest => String.ofList rest.reverse
  | _ => line

/-- Drops so many bytes off the end of a text that is given backwards. -/
def dropBytes : Nat → List Char → List Char
  | 0, cs => cs
  | _, [] => []
  | n + 1, c :: cs => dropBytes (n + 1 - c.utf8Size) cs

/-- How many bytes a backspace takes back for a cluster: its size, as far
as one byte can count it. -/
def erasable (cluster : List Char) : Nat := (String.ofList cluster).utf8ByteSize % 256

/-- The text after its backspaces, backwards, given its clusters, the text
so far and how much each cluster of it can be taken back. -/
def eraseFrom : List (List Char) → List Char → List Nat → List Char
  | [], text, _ => text
  | ['\x08'] :: rest, text, [] => eraseFrom rest text []
  | ['\x08'] :: rest, text, n :: sizes => eraseFrom rest (dropBytes n text) sizes
  | cluster :: rest, text, sizes =>
      eraseFrom rest (cluster.reverse ++ text) (erasable cluster :: sizes)

/-- A line in which every backspace has taken back the cluster before it. -/
def erased (line : String) : String :=
  if line.toList.contains '\x08' then
    String.ofList (eraseFrom (Text.clusters line.toList) [] []).reverse
  else line

/-- What the bytes of a line are. -/
def Input.ofBytes (line : Bytes) : Input :=
  if line.isEmpty then finished
  else
    match line.decode with
    | some text => .line (erased (trimmed text))
    | none => invalid

/-- Reads up to the end of a line, in so many blocks at most. `buffer` is
what was read and not used before; the line comes back in pieces, the
last one first. -/
def readLine : Nat → Bytes → List Bytes → Task ρ (Bytes × Bytes)
  | 0, buffer, seen => pure (seen.reverse.flatten, buffer)
  | n + 1, buffer, seen => do
      let line := buffer.takeWhile (· ≠ 10)
      match buffer.drop line.length with
      | newline :: rest => pure (((line ++ [newline]) :: seen).reverse.flatten, rest)
      | [] =>
          match ← Task.read Fd.stdin blockSize with
          | .error _ | .ok [] => pure ((buffer :: seen).reverse.flatten, [])
          | .ok block => readLine n block (buffer :: seen)

-- =================================================================== loop

/-- How many blocks a line, and lines the input may have. -/
def bound : Nat := 1000000000

/-- The working directory as the prompt shows it. -/
def shownDirectory : Task ρ String := do
  match ← Task.view View.cwdPath with
  | some path => pure path.decodeLossy
  | none =>
      Task.modify (View.note .error
        ("prompt: current_dir error: " ++ Errno.ENOENT.libraryText ++ " (os error 2)"))
      pure ""

/-- Writes the prompt for the status of the last line. -/
def showPrompt (look : Appearance) (status : Int) : Task ρ Unit := do
  let cwd ← shownDirectory
  if look.prompts then
    let prompt := look.theme.prompt look.colour cwd status
    Task.modify (Call.writeNow Fd.stdout (Bytes.ofString prompt)).after

/-- Parses and executes a line, after a line that left a status. -/
def handle (text : String) (status : Int) : Task ρ (Except ExecError Int) := do
  match Tree.parse text with
  | .error e =>
      Task.modify (View.note .debug ("syntax error in " ++ Text.quoted text ++ ": " ++ e.message))
      Task.modify (report ("syntax error: " ++ e.message))
      pure (.ok exitFailure)
  | .ok none => pure (.ok status)
  | .ok (some t) =>
      match ← t.perform with
      | .error e => pure (.error e)
      | .ok status =>
          Task.modify (View.note .debug ("line finished with status " ++ toString status))
          pure (.ok status)

/-- The next line of standard input, and what was read beyond it. -/
def nextLine (buffer : Bytes) : Task ρ (Input × Bytes) := do
  let (line, buffer) ← readLine bound buffer []
  pure (.ofBytes line, buffer)

/-- Reads lines from a source and executes them, so many at most; the value
is the status that the shell exits with. -/
def loop {σ : Type} (look : Appearance) (next : σ → Task ρ (Input × σ)) :
    Nat → σ → Int → Task ρ Int
  | 0, _, _ => pure 0
  | n + 1, source, status => do
      showPrompt look status
      let (line, source) ← next source
      match line with
      | .finished =>
          Task.modify (View.note .debug "EOF, leaving minish")
          pure 0
      | .invalid =>
          let message := "stream did not contain valid UTF-8"
          Task.modify (View.note .warn ("readline error: " ++ message))
          Task.modify (complain ("Error: Io(" ++
            fieldsShown "Error" [("kind", "InvalidData"), ("message", Text.quoted message)] ++ ")"))
          pure exitFailure
      | .line text =>
          match ← handle text status with
          | .ok status => loop look next n source status
          | .error e =>
              Task.modify (View.note .error ("session aborted: " ++ e.message))
              Task.modify (report e.message)
              pure exitFailure

/-- Starts the shell on a day and runs it to its end; the value is the
status that it exits with. -/
def run (build : Build) (date : String) : Task ρ Int := do
  let settings ← Task.act (Settings.load build)
  match ← Task.act (LogFile.start settings date) with
  | .error e =>
      Task.modify (complain ("Error: " ++ account e))
      pure exitFailure
  | .ok () =>
      Task.modify (View.note .debug ("config loaded, logging to " ++ settings.logDir))
      Task.modify (View.note .debug "minish ready")
      let env ← Task.view fun v => v.process.env
      loop (.ofEnvironment env settings) nextLine bound [] 0

end LineShell.Shell
