/-
Redirections of a script's statements.

What a descriptor stood for is kept under a high number while a statement
with redirections runs, and put back afterwards. A redirection that
cannot be made is complained of, and the statement is not run.
-/
import LineShell.Script.Expand

namespace LineShell.Script

open Posix

variable {ρ : Type}

-- =============================================================== messages

/-- Why a file could not be opened. -/
def openFault (e : Errno) : String :=
  if e = .ENOENT || e = .ENOTDIR then "No such file" else e.libraryText

/-- Why a file could not be created. -/
def createFault (e : Errno) : String :=
  if e = .ENOENT || e = .ENOTDIR then "Directory nonexistent" else e.libraryText

-- ============================================================ descriptors

/-- Makes one descriptor stand for another, and closes the other. -/
def moveFd (fd onto : Fd) : Call Unit := do
  if fd ≠ onto then
    Call.dup2 fd onto
    Call.close fd

/-- Descriptors from this number on keep what a redirection displaced. -/
def savedFrom : Nat := 10

/-- Descriptors and the copies of what they stood for, the latest first;
no copy where a descriptor stood for nothing. -/
abbrev Saved := List (Fd × Option Fd)

/-- Puts back what descriptors stood for. -/
def Saved.giveBack (saved : Saved) : Task ρ Unit :=
  saved.forM fun (fd, copy) =>
    match copy with
    | some copy => do
        let _ ← Task.call (moveFd copy fd)
    | none => do
        let _ ← Task.call (Call.close fd)

/-- Forgets what descriptors stood for. -/
def Saved.drop (saved : Saved) : Task ρ Unit :=
  saved.forM fun (_, copy) =>
    match copy with
    | some copy => do
        let _ ← Task.call (Call.close copy)
    | none => pure ()

-- ================================================================ targets

/-- What a redirection leads to, once its word is expanded. -/
inductive Goal where
  /-- A file to open, and what to say if that fails. `fresh`: a plain file
  must not be there yet. -/
  | file (path : Bytes) (mode : Call.Mode) (fresh : Bool) (use : String) (why : Errno → String)
  | descriptor (fd : Fd)
  | nothing
  | text (document : Bytes)

/-- How files for output are opened. -/
def outputMode (append : Bool) : Call.Mode :=
  { Call.Mode.forOutput append with bits := 0o666, closeOnExec := false }

/-- What a redirection leads to. -/
def goalOf (capture : Capture ρ) (d : Diversion Word) : Act ρ Goal := do
  match d.direction with
  | .document number => do
      let body := ((← get).documents.lookup number).getD []
      pure (.text (← expandText capture body))
  | .copy => do
      let target ← expandText capture d.target
      match target with
      | [45] => pure .nothing
      | [b] =>
          if isDigit b then pure (.descriptor (b.toNat - 48))
          else fail (Bytes.ofString "Syntax error: Bad fd number")
      | _ => fail (Bytes.ofString "Syntax error: Bad fd number")
  | direction => do
      let target ← expandText capture d.target
      let created (mode : Call.Mode) (fresh : Bool) : Goal :=
        .file target mode fresh "cannot create " createFault
      match direction with
      | .read =>
          pure (.file target { read := true, closeOnExec := false } false "cannot open " openFault)
      | .append => pure (created (outputMode true) false)
      | .readWrite => pure (created { outputMode false with read := true, truncate := false } false)
      | .write clobber => pure (created (outputMode false) (!clobber && (← get).has 'C'))
      | _ => pure .nothing

/-- A document up to this size is written at once, a longer one by a
process of its own. -/
def documentAtOnce : Nat := 4096

/-- A descriptor from which a text can be read. -/
def openText (text : Bytes) : Task ρ (Except Bytes Fd) := do
  match ← Task.call Call.pipe with
  | .error _ => pure (.error (Bytes.ofString "Pipe call failed"))
  | .ok (r, w) =>
      if text.length ≤ documentAtOnce then
        let _ ← Task.writeAll w text
      else
        let writer : Task ρ Empty := do
          let _ ← Task.call (Call.close r)
          let _ ← Task.writeAll w text
          Task.exit 0
        let _ ← Task.fork writer.run
      let _ ← Task.call (Call.close w)
      pure (.ok r)

/-- Is there a plain file at a path? -/
def isPlainFile (path : Bytes) (v : View) : Bool :=
  match (Call.nodeAt path).attempt v with
  | (.ok id, _) =>
      match v.world.tree.content id with
      | .file _ => true
      | _ => false
  | _ => false

/-- Opens what a redirection leads to; none for what is open already. -/
def Goal.open? : Goal → Task ρ (Except Bytes (Option Fd))
  | file path mode fresh use why => do
      let refuse (why : String) : Except Bytes (Option Fd) :=
        .error (Bytes.ofString use ++ path ++ Bytes.ofString (": " ++ why))
      if fresh && (← Task.view (isPlainFile path)) then pure (refuse "File exists")
      else
        match ← Task.call (Call.openFile path mode) with
        | .ok fd => pure (.ok (some fd))
        | .error e => pure (refuse (why e))
  | text document => do pure ((← openText document).map some)
  | descriptor _ | nothing => pure (.ok none)

-- =========================================================== redirections

/-- Keeps what a descriptor stands for, and closes it. -/
def save (fd : Fd) : Task ρ (Except Bytes (Fd × Option Fd)) := do
  match ← Task.call (Call.dupFrom savedFrom true fd) with
  | .ok copy => do
      let _ ← Task.call (Call.close fd)
      pure (.ok (fd, some copy))
  | .error e =>
      let _ ← Task.call (Call.close fd)
      if e = .EBADF then pure (.ok (fd, none))
      else pure (.error (Bytes.ofString (toString fd ++ ": " ++ e.libraryText)))

/-- Makes a descriptor lead to a goal; `opened` is what was opened for it. -/
def lead (fd : Fd) (goal : Goal) (opened : Option Fd) : Task ρ (Except Bytes Unit) := do
  match opened, goal with
  | some new, _ => do
      let _ ← Task.call (moveFd new fd)
      pure (.ok ())
  | none, .descriptor source =>
      match ← Task.call (Call.dup2 source fd) with
      | .ok () => pure (.ok ())
      | .error e => pure (.error (Bytes.ofString (toString source ++ ": " ++ e.libraryText)))
  | none, _ => do
      let _ ← Task.call (Call.close fd)
      pure (.ok ())

/-- Makes redirections in turn, up to one that fails, and says why that
one does. With `keep`, what they displace is kept. -/
def divertAll (keep : Bool) : List (Fd × Goal) → Saved → Task ρ (Except Bytes Unit × Saved)
  | [], saved => pure (.ok (), saved)
  | (fd, goal) :: rest, saved => do
      let itself : Bool := match goal with
        | .descriptor source => source = fd
        | _ => false
      if itself then divertAll keep rest saved
      else
        match ← goal.open? with
        | .error why => pure (.error why, saved)
        | .ok opened => do
            let kept ←
              if !keep || saved.any (·.1 = fd) then pure (.ok saved)
              else if opened = some fd then pure (.ok ((fd, none) :: saved))
              else do pure ((← save fd).map (· :: saved))
            match kept with
            | .error why => pure (.error why, saved)
            | .ok saved => do
                match ← lead fd goal opened with
                | .error why => pure (.error why, saved)
                | .ok () => divertAll keep rest saved

/-- What redirections lead to, in turn. -/
def goalsOf (capture : Capture ρ) (ds : List (Diversion Word)) : Act ρ (List (Fd × Goal)) :=
  ds.mapM fun d => do pure (d.fd, ← goalOf capture d)

/-- Does something with redirections made, given what they displaced;
whether they could be made decides what. With `forGood` they stay. -/
def diverted {α : Type} (forGood : Bool) (goals : List (Fd × Goal)) (otherwise : Act ρ α)
    (body : Saved → Act ρ α) : Act ρ α := do
  if goals.isEmpty then body []
  else
    let (made, saved) ← (divertAll true goals [] : Task ρ (Except Bytes Unit × Saved))
    let back : Act ρ Unit := do (saved.giveBack : Task ρ Unit)
    match made with
    | .ok () =>
        if forGood then
          let a ←
            try body saved
            catch e =>
              back
              throw e
          (saved.drop : Task ρ Unit)
          pure a
        else andThen (body saved) back
    | .error why => do
        warn why
        modify ({ · with status := errorStatus })
        andThen otherwise back

/-- Where a statement with redirections is shown before it is run: where
errors went without them. -/
def Saved.errors (saved : Saved) : Fd := ((saved.lookup Fd.stderr).join).getD Fd.stderr

/-- Makes redirections for good; one that fails leaves the script. -/
def divertForGood (goals : List (Fd × Goal)) : Act ρ Unit := do
  let (made, _) ← (divertAll false goals [] : Task ρ (Except Bytes Unit × Saved))
  match made with
  | .ok () => pure ()
  | .error why => fail why

end LineShell.Script
