/-
Builtins: the commands that run inside the shell process, because what
they change has to be there for the commands after them.

A builtin runs with its redirections in place and gives them up
afterwards; files are created or emptied even where nothing is written.
A builtin that fails changes neither working directory nor environment.
-/
import LineShell.Redirection
import LineShell.Text.Quoted

namespace LineShell

open Posix

inductive Builtin where
  | cd
  | exit
  | assign
  deriving DecidableEq, Repr, Inhabited

/-- How a builtin leaves off: with a status, or by ending the process. -/
inductive BuiltinEnd where
  | status (code : Int)
  | leave
  deriving DecidableEq, Repr, Inhabited

namespace Builtin

/-- The name that the log and answers use. -/
def name : Builtin → String
  | cd => "Cd"
  | exit => "Exit"
  | assign => "Assign"

/-- The builtin that a command calls for. An assignment is a word with an
equals sign that stands alone. -/
def lookup (c : Command) : Option Builtin :=
  if c.verb = "cd" then some cd
  else if c.verb = "exit" || c.verb = "quit" then some exit
  else if c.verb.toList.contains '=' && c.params.isEmpty then some assign
  else none

-- ================================================================ bodies

/-- Reports and fails. -/
def refuse (message : String) (v : View) : BuiltinEnd × View :=
  (.status exitFailure, report message v)

/-- The home directory of a user whose environment names none. -/
def defaultHome : String := "/root"

/-- A path with a leading `~`, alone or before a slash, replaced by the
home directory. -/
def expandTilde (env : Environment) (path : String) : String :=
  match path.toList with
  | '~' :: rest =>
      if rest.isEmpty || rest.head? = some '/' then
        let home := match env.get? "HOME" with
          | some h => if h.isEmpty then defaultHome else h
          | none => defaultHome
        home ++ String.ofList rest
      else path
  | _ => path

/-- Changes the working directory to the one argument. -/
def runCd (params : List String) (v : View) : BuiltinEnd × View :=
  match params with
  | [path] =>
      let expanded := expandTilde v.process.env path
      let failed (e : FileError) (v : View) := refuse ("cd: " ++ path ++ ": " ++ e.text) v
      if hasNul expanded then failed .nulInName v
      else
        match (Call.changeDir (Bytes.ofString expanded)).attempt v with
        | (.ok (), v') => (.status 0, v'.note .debug ("cd -> " ++ expanded))
        | (.error e, v') => failed (.system e) v'
  | [] => refuse "cd: too few arguments" v
  | _ => refuse "cd: too many arguments" v

/-- Ends the process, unless it is given arguments. -/
def runExit (params : List String) (v : View) : BuiltinEnd × View :=
  if params.isEmpty then
      (.leave, v.note .debug ("exit requested by pid " ++ toString v.process.pid))
  else refuse "exit: too many arguments" v

/-- A word cut at its first equals sign. -/
def splitAssignment (word : String) : Option (String × String) :=
  let cs := word.toList
  match cs.dropWhile (· ≠ '=') with
  | _ :: value => some (String.ofList (cs.takeWhile (· ≠ '=')), String.ofList value)
  | [] => none

/-- Sets a variable. -/
def runAssign (word : String) (v : View) : BuiltinEnd × View :=
  match splitAssignment word with
  | none => refuse (word ++ ": not an assignment") v
  | some (name, value) =>
      if name.isEmpty || hasNul name || hasNul value then
        refuse (word ++ ": invalid assignment") v
      else
        let v' := v.note .debug ("set " ++ name ++ "=" ++ Text.quoted value)
        (.status 0, (Call.setVar name value).after v')

/-- What the builtin does, its redirections aside. -/
def body (b : Builtin) (c : Command) : View → BuiltinEnd × View :=
  match b with
  | cd => runCd c.params
  | exit => runExit c.params
  | assign => runAssign c.verb

/-- Runs a builtin for a command, whatever the command's verb. A process
that leaves does not restore its streams. -/
def run (b : Builtin) (c : Command) (v : View) : BuiltinEnd × View :=
  match Redirection.openAll c v with
  | (.error e, v) => refuse e.message v
  | (.ok opened, v) =>
      match Redirection.attachScoped opened v with
      | (.error e, v) => refuse (c.verb ++ ": " ++ e.text) v
      | (.ok guard, v) =>
          match b.body c v with
          | (.leave, v) => (.leave, v)
          | (.status s, v) => (.status s, Redirection.restore guard v)

end Builtin

end LineShell
