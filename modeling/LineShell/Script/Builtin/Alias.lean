/-
The builtins about aliases: `alias`, `unalias`.

An alias is a name with a text that is read in its place from the next
command line on.
-/
import LineShell.Script.Builtin.Variables

namespace LineShell.Script

open Posix

variable {ρ : Type}

/-- An alias as a script can read it back. -/
def shownAlias (name text : Bytes) : Bytes := name ++ 61 :: inSingleQuotes text ++ [10]

/-- Aliases with one more, which keeps its place if it was there. -/
def withAlias (aliases : List (Bytes × Bytes)) (name text : Bytes) : List (Bytes × Bytes) :=
  if (aliases.lookup name).isSome then
    aliases.map fun a => if a.1 = name then (name, text) else a
  else aliases ++ [(name, text)]

/-- The name and the text in an argument that sets an alias. The first byte
belongs to the name. -/
def aliasSetting? : Bytes → Option (Bytes × Bytes)
  | [] => none
  | first :: rest =>
      if rest.contains 61 then
        some (first :: rest.takeWhile (· ≠ 61), (rest.dropWhile (· ≠ 61)).drop 1)
      else none

/-- Says of names that they are no aliases; the value is the status. -/
def missAliases (builtin : String) (names : List Bytes) : Act ρ Int := do
  names.forM fun name =>
    tell (Bytes.ofString (builtin ++ ": ") ++ name ++ Bytes.ofLine " not found")
  pure (if names.isEmpty then 0 else Tool.failure)

/-- `alias`: sets aliases and shows them. -/
def aliasBuiltin : Builtin ρ := fun args => do
  if args.isEmpty then
    let ordered := (← get).aliases.mergeSort fun a b => bucket a.1 ≤ bucket b.1
    emit (ordered.flatMap fun (name, text) => shownAlias name text)
  else
    let (shown, missing) ← args.foldlM
      (fun ((shown, missing) : Bytes × List Bytes) arg => do
        match aliasSetting? arg with
        | some (name, text) => do
            modify fun f => { f with aliases := withAlias f.aliases name text }
            pure (shown, missing)
        | none =>
            match (← get).aliases.lookup arg with
            | some text => pure (shown ++ shownAlias arg text, missing)
            | none => pure (shown, missing ++ [arg]))
      ([], [])
    let status ← missAliases "alias" missing
    let printed ← emit shown
    pure (if printed = 0 then status else printed)

/-- `unalias`: removes aliases. -/
def unaliasBuiltin : Builtin ρ := fun args => do
  let (given, names) ← optionsOf "a" "" args
  if !given.isEmpty then
    modify ({ · with aliases := [] })
    pure 0
  else
    let known := (← get).aliases
    modify fun f => { f with aliases := f.aliases.filter fun a => !names.contains a.1 }
    missAliases "unalias" (names.filter fun name => (known.lookup name).isNone)

end LineShell.Script
