/-
The installed programs: small tools for text and files, and the standard
shell. Each is a task that ends in a status.
-/
import LineShell.Script.Shell
import LineShell.Tool.Compare
import LineShell.Tool.Condition
import LineShell.Tool.Count
import LineShell.Tool.Difference
import LineShell.Tool.Dump
import LineShell.Tool.Exchange
import LineShell.Tool.Expression
import LineShell.Tool.Listing
import LineShell.Tool.Printf
import LineShell.Tool.Start

namespace LineShell.Tool

open Posix

variable {ρ : Type}

/-- A tool that has a status and nothing else. -/
def constant (status : Int) : Body ρ := fun _ => pure status

/-- The tools by their names, each with its status where what it prints
cannot be written. -/
def table : List (String × Int × Body ρ) :=
  [("true", failure, constant 0), ("false", failure, constant failure), ("echo", failure, echoTool),
   ("printf", failure, printfTool), ("yes", failure, yesTool), ("seq", failure, seqTool),
   ("factor", failure, factorTool), ("expr", expressionTrouble, exprTool),
   ("printenv", 2, printenvTool), ("env", notStarted, envTool),
   ("nohup", notStarted, nohupTool), ("nice", notStarted, niceTool),
   ("timeout", notStarted, timeoutTool),
   ("pwd", failure, pwdTool), ("sleep", failure, sleepTool), ("test", conditionFailure, testTool),
   ("[", conditionFailure, testTool), ("id", failure, idTool),
   ("whoami", failure, sayTool userName),
   ("uname", failure, unameTool), ("tty", 3, ttyTool),
   ("cat", failure, catTool), ("tac", failure, tacTool), ("head", failure, headTool),
   ("tail", failure, tailTool), ("tee", failure, teeTool), ("wc", failure, wcTool),
   ("tr", failure, trTool), ("sort", 2, sortTool), ("uniq", failure, uniqTool),
   ("comm", failure, commTool),
   ("cut", failure, cutTool), ("paste", failure, pasteTool), ("nl", failure, nlTool),
   ("fold", failure, foldTool), ("expand", failure, expandTool),
   ("unexpand", failure, unexpandTool),
   ("od", failure, odTool),
   ("cmp", trouble, cmpTool), ("diff", trouble, diffTool),
   ("touch", failure, touchTool), ("mkdir", failure, mkdirTool), ("rmdir", failure, rmdirTool),
   ("rm", failure, rmTool), ("unlink", failure, unlinkTool), ("ln", failure, lnTool),
   ("link", failure, linkTool), ("cp", failure, cpTool), ("mv", failure, mvTool),
   ("chmod", failure, chmodTool), ("truncate", failure, truncateTool),
   ("ls", listingFailure, lsTool),
   ("basename", failure, basenameTool), ("dirname", failure, dirnameTool),
   ("readlink", failure, readlinkTool), ("realpath", failure, realpathTool),
   ("stat", failure, statTool)]

/-- The names of the installed programs. -/
def names : List String := "sh" :: table.map fun (row : String × Int × Body Unit) => row.1

/-- The installed programs; the first argument is the name that the
program was called by. -/
def programs : Installed ρ := fun name argv =>
  Task.run do
    let tool := argv.headD []
    let args := argv.drop 1
    let status ←
      if name = "sh" then Script.shell tool args
      else
        match table.lookup name with
        | some (bad, body) => Job.toTask tool bad (body args)
        | none => pure exitNotFound
    Task.exit status

end LineShell.Tool
