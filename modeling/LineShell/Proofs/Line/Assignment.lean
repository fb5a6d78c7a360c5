/-
Assignments, from the line to the environment.

# Words

An assignment is a word with an equals sign, and the first one cuts it
(`Builtin.splitAssignment_eq_some`). However such a word is written, a line of
it alone is read as one command of one word (`Tree.parse_pieces`).

# Variables

Of most names and values the system can make a variable (`Settable`); with the
others the attempt would end the shell. The builtin checks for them before it
makes the attempt, so that it does not depend on what would happen then
(`Builtin.assignBy_of_agrees`). Here the attempt is a parameter (`Builtin.assignBy`).

# Execution

With a word that can be set, the shell acts on its own process alone
(`Task.Changes`), and changes nothing of it but the environment and the log
(`Assigned`).
-/
import Mathlib.Data.List.TakeWhile
import LineShell.Proofs.Builtin
import LineShell.Proofs.Grammar.Pieces
import LineShell.Rehearsal.Recorded
import LineShell.Shell

namespace LineShell

open Posix
open Token (Scan Piece)

variable {ρ α β : Type} {name value word : String}

-- =================================================================== lines

/-- However a word is written as a row of pieces, a line of it alone is a command
of that word. -/
theorem Tree.parse_pieces {ps : List Piece} (hne : ps ≠ []) :
    Tree.parse (String.ofList (Piece.sourceOf ps)) =
      .ok (some (.leaf (.ofWords [String.ofList (Piece.wordOf ps)]))) := by
  have hcommand : Command.ofTokens? [.word (String.ofList (Piece.wordOf ps))] =
      some (.ofWords [String.ofList (Piece.wordOf ps)]) := rfl
  have hstart : Token.startsWord (Piece.sourceOf ps) = true := by
    have := Piece.startsWord_sourceOf hne []
    rw [List.append_nil] at this
    exact this.mpr nofun
  have hclosing : Token.Closing [] := nofun
  have hread := Token.takeWord_pieces ps hclosing
  rw [List.append_nil] at hread
  have hnext : Token.next (Piece.sourceOf ps) =
      .ok (.word (String.ofList (Piece.wordOf ps)), []) := by
    rw [Token.next_of_startsWord hstart, hread]
    rfl
  have hscan : Scan.ofLine (String.ofList (Piece.sourceOf ps)) =
      ⟨[.word (String.ofList (Piece.wordOf ps))], none⟩ := by
    rw [Scan.ofLine, String.toList_ofList, Token.ofChars_of_next hnext nofun, Token.ofChars_eq]
    rfl
  rw [Tree.parse_eq_some_iff, hscan]
  exact ⟨rfl, _, .leaf hcommand, Command.proper_of_ofTokens? hcommand, .inl rfl⟩

-- =============================================================== variables

/-- The system can give a variable of this name that value. -/
structure Settable (name value : String) : Prop where
  nonempty : name ≠ ""
  noEquals : '=' ∉ name.toList
  name : '\x00' ∉ name.toList
  value : '\x00' ∉ value.toList

/-- The variable has the value, and nothing else of the process has changed but
its log. -/
structure Assigned (name value : String) (p p' : Process) : Prop where
  value : p'.env.get? name = some value
  others : ∀ other, other ≠ name → p'.env.get? other = p.env.get? other
  rest : p' = { p with env := p'.env, log := p'.log }

theorem Assigned.of_env {p p' : Process} (henv : p'.env = p.env.set name value)
    (hrest : p' = { p with env := p'.env, log := p'.log }) : Assigned name value p p' where
  value := by rw [henv, Environment.get?_set, if_pos rfl]
  others other hne := by rw [henv, Environment.get?_set, if_neg hne]
  rest := hrest

namespace Builtin

/-- A word is cut at its first equals sign. -/
theorem splitAssignment_eq_some :
    splitAssignment word = some (name, value) ↔
      word = name ++ "=" ++ value ∧ '=' ∉ name.toList := by
  constructor
  · intro h
    simp only [splitAssignment] at h
    split at h
    · next c cs hdrop =>
      cases h
      have hno : '=' ∉ word.toList.takeWhile (· ≠ '=') := fun hmem => by
        simpa using List.mem_takeWhile_imp hmem
      obtain rfl : c = '=' := by
        have := List.head?_dropWhile_not (· ≠ '=') word.toList
        rw [hdrop] at this
        simpa using this
      refine ⟨String.toList_injective ?_, by rwa [String.toList_ofList]⟩
      simp only [String.toList_append, String.toList_ofList, List.append_assoc]
      exact (List.takeWhile_append_dropWhile.symm.trans (congrArg _ hdrop))
    · cases h
  · rintro ⟨rfl, hno⟩
    have hne : ∀ c ∈ name.toList, decide (c ≠ '=') = true := fun c hc =>
      decide_eq_true fun heq => hno (heq ▸ hc)
    have htext : (name ++ "=" ++ value).toList = name.toList ++ '=' :: value.toList := by
      rw [String.toList_append, String.toList_append, List.append_assoc]
      rfl
    simp only [splitAssignment, htext]
    rw [List.dropWhile_append_of_pos hne, List.takeWhile_append_of_pos hne]
    show some (String.ofList (name.toList ++ []), String.ofList value.toList) = _
    rw [List.append_nil, String.ofList_toList, String.ofList_toList]

/-- It can be handed to the system just where it has no NUL. -/
theorem hasNul_eq_false {s : String} : hasNul s = false ↔ '\x00' ∉ s.toList := by
  rw [hasNul, List.contains_eq_mem, decide_eq_false_iff_not]

/-- The assignment of a word, with a way of setting variables. -/
def assignBy (set : String → String → View → View) (word : String) (v : View) :
    BuiltinEnd × View :=
  match splitAssignment word with
  | none => refuse (word ++ ": not an assignment") v
  | some (name, value) =>
      if name.isEmpty || hasNul name || hasNul value then
        refuse (word ++ ": invalid assignment") v
      else
        (.status 0, set name value (v.note .debug ("set " ++ name ++ "=" ++ Text.quoted value)))

/-- The run of a body, with the redirections of a command in place. -/
def runBody (body : View → BuiltinEnd × View) (c : Command) (v : View) : BuiltinEnd × View :=
  match Redirection.openAll c v with
  | (.error e, v) => refuse e.message v
  | (.ok opened, v) =>
      match Redirection.attachScoped opened v with
      | (.error e, v) => refuse (c.verb ++ ": " ++ e.text) v
      | (.ok guard, v) =>
          match body v with
          | (.leave, v) => (.leave, v)
          | (.status s, v) => (.status s, Redirection.restore guard v)

theorem run_eq (b : Builtin) (c : Command) : b.run c = runBody (b.body c) c := rfl

theorem runAssign_eq (word : String) :
    runAssign word = assignBy (fun name value => (Call.setVar name value).after) word := rfl

/-- Where no check fails, the word is cut into a name and a value that can be set. -/
theorem settable_of_split (hsplit : splitAssignment word = some (name, value))
    (hcheck : ¬ (name.isEmpty || hasNul name || hasNul value) = true) : Settable name value := by
  simp only [Bool.or_eq_true, not_or, Bool.not_eq_true] at hcheck
  obtain ⟨⟨hempty, hname⟩, hvalue⟩ := hcheck
  refine ⟨?_, (splitAssignment_eq_some.mp hsplit).2, hasNul_eq_false.mp hname,
    hasNul_eq_false.mp hvalue⟩
  rintro rfl
  cases hempty

/-- No variable is set but with a name and a value that can be. -/
theorem assignBy_of_agrees {set set' : String → String → View → View}
    (h : ∀ name value v, Settable name value → set name value v = set' name value v)
    (word : String) : assignBy set word = assignBy set' word := by
  funext v
  unfold assignBy
  split
  · rfl
  · next name value hsplit =>
    split
    · rfl
    · next hcheck => rw [h name value _ (settable_of_split hsplit hcheck)]

/-- An assignment that succeeds cuts the verb into a name and a value that can be
set. -/
theorem settable_of_run {c : Command} {v v' : View} (h : assign.run c v = (.status 0, v')) :
    ∃ name value, splitAssignment c.verb = some (name, value) ∧ Settable name value := by
  have hbody : (runAssign c.verb (staged c v)).1 = .status 0 := by
    rcases run_cases assign c v with ⟨message, hrun, -⟩ | ⟨g, -, hrun⟩
    · rw [hrun] at h
      cases h
    · rw [hrun] at h
      change (assign.body c (staged c v)).1 = .status 0
      split at h
      · cases h
      · next hb =>
        cases h
        rw [hb]
  rw [runAssign_eq] at hbody
  unfold assignBy at hbody
  split at hbody
  · cases hbody
  · next name value hsplit =>
    split at hbody
    · cases hbody
    · next hcheck => exact ⟨name, value, hsplit, settable_of_split hsplit hcheck⟩

/-- An assignment sets what the verb says, or fails and sets nothing. -/
theorem assign_cases (c : Command) (v : View) :
    (∃ name value v', c.verb = name ++ "=" ++ value ∧ Settable name value ∧
      assign.run c v = (.status 0, v') ∧ v'.process.cwd = v.process.cwd ∧
      v'.process.env = v.process.env.set name value) ∨
    ∃ v', assign.run c v = (.status exitFailure, v') ∧ v'.process.cwd = v.process.cwd ∧
      v'.process.env = v.process.env := by
  rcases hrun : assign.run c v with ⟨n | _, v'⟩
  · have hcontext := run_context hrun
    rcases run_status (congrArg Prod.fst hrun) with rfl | rfl
    · obtain ⟨name, value, hsplit, hset⟩ := settable_of_run hrun
      simp only [if_true, effect, hsplit] at hcontext
      exact .inl ⟨name, value, v', (splitAssignment_eq_some.mp hsplit).1, hset, rfl,
        congrArg Context.cwd hcontext, congrArg Context.env hcontext⟩
    · rw [if_neg (by decide)] at hcontext
      exact .inr ⟨v', rfl, congrArg Context.cwd hcontext, congrArg Context.env hcontext⟩
  · obtain ⟨hexit, -⟩ := run_leave.mp (congrArg Prod.fst hrun)
    cases hexit

/-- What an assignment alone on its line does to the process. -/
def assigned (name value : String) (p : Process) : Process :=
  { p with
    env := p.env.set name value
    log := ⟨.debug, "restored 0 standard stream(s)"⟩ ::
      ⟨.debug, "set " ++ name ++ "=" ++ Text.quoted value⟩ :: p.log }

theorem run_word (hsplit : splitAssignment word = some (name, value)) (hset : Settable name value)
    (v : View) : assign.run (.ofWords [word]) v =
      (.status 0, v.modifyProcess (assigned name value)) := by
  have hcheck : ¬ (name.isEmpty || hasNul name || hasNul value) = true := by
    rw [hasNul_eq_false.mpr hset.name, hasNul_eq_false.mpr hset.value, Bool.or_false, Bool.or_false]
    exact fun hempty => hset.nonempty (String.isEmpty_iff.mp hempty)
  have hbody : assign.body (.ofWords [word]) v = (.status 0, (Call.setVar name value).after
      (v.note .debug ("set " ++ name ++ "=" ++ Text.quoted value))) := by
    show runAssign word v = _
    simp only [runAssign, hsplit]
    exact if_neg hcheck
  have hopen : Redirection.openAll (.ofWords [word]) v = (.ok {}, v) := rfl
  have hattach : Redirection.attachScoped {} v = (.ok {}, v) := rfl
  simp only [run, hopen, hattach, hbody]
  rfl

/-- A word with an equals sign that stands alone is an assignment. -/
theorem lookup_word (h : '=' ∈ word.toList) : lookup (.ofWords [word]) = some .assign := by
  have hne : ∀ other : String, '=' ∉ other.toList → word ≠ other := by
    rintro other hno rfl
    exact hno h
  have hexit : ¬ (decide (word = "exit") || decide (word = "quit")) = true := by
    simpa using ⟨hne "exit" (by decide +kernel), hne "quit" (by decide +kernel)⟩
  have hassign : (word.toList.contains '=' && (Command.ofWords [word]).params.isEmpty) = true := by
    rw [List.contains_eq_mem, decide_eq_true h]
    rfl
  have hverb : (Command.ofWords [word]).verb = word := rfl
  rw [lookup, hverb, if_neg (hne "cd" (by decide +kernel)), if_neg hexit, if_pos hassign]

end Builtin

-- =============================================================== own process

namespace Posix

/-- The program acts on its own process alone, which it changes like that, and
goes on as the other program. -/
inductive Prog.Changes : Prog ρ → (Process → Process) → Prog ρ → Prop where
  | nil (todo : Prog ρ) : Changes todo id todo
  | act {act : View → View} {next : View → Prog ρ} {f g : Process → Process} {todo : Prog ρ}
      (hact : ∀ v, act v = v.modifyProcess f) (hnext : ∀ v, Changes (next v) g todo) :
      Changes (.step act next) (g ∘ f) todo

theorem Prog.Changes.trans {p q r : Prog ρ} {f g : Process → Process} (h : p.Changes f q)
    (h' : q.Changes g r) : p.Changes (g ∘ f) r := by
  induction h with
  | nil => exact h'
  | @act act next f g' _ hact _ ih => exact .act (g := g ∘ g') hact fun v => ih v h'

namespace Task

variable {f g : Process → Process} {a : α} {b : β}

/-- The task acts on its own process alone, and comes to that value. -/
def Changes (t : Task ρ α) (f : Process → Process) (a : α) : Prop :=
  ∀ k : α → Prog ρ, (t k).Changes f (k a)

theorem changes_pure (a : α) : Changes (pure a : Task ρ α) id a := fun k => .nil (k a)

theorem Changes.bind {t : Task ρ α} {h : α → Task ρ β} (ht : t.Changes f a)
    (hh : (h a).Changes g b) : (t >>= h).Changes (g ∘ f) b :=
  fun k => (ht fun a => h a k).trans (hh k)

theorem changes_act {act : View → α × View} (h : ∀ v, act v = (a, v.modifyProcess f)) :
    Changes (Task.act act : Task ρ α) f a := fun k => by
  refine .act (g := id) (fun v => by rw [h]) fun v => ?_
  rw [h]
  exact .nil _

theorem changes_modify {act : View → View} (h : ∀ v, act v = v.modifyProcess f) :
    Changes (modify act : Task ρ Unit) f () := fun _ => .act (g := id) h fun _ => .nil _

end Task

end Posix

-- ================================================================= execution

/-- The walk of an assignment runs the builtin, and is done. -/
theorem Walk.execute_word (h : '=' ∈ word.toList) (depth : Nat) (parent : Option Operator)
    (site : Position) : execute (.leaf (.ofWords [word])) depth parent site =
      log .debug (heading (.leaf (.ofWords [word])) depth parent)
        (log .debug ("builtin Assign: " ++ Text.quotedList [word])
          (builtin site .assign (.ofWords [word]) done)) := by
  have hverb : ¬ (Command.ofWords [word]).verb.isEmpty = true := by
    show ¬ word.isEmpty = true
    rw [String.isEmpty_iff]
    rintro rfl
    cases h
  rw [execute, ofCommand, if_neg hverb, Builtin.lookup_word h]
  rfl

section

variable (hsplit : Builtin.splitAssignment word = some (name, value)) (hset : Settable name value)
include hsplit

theorem Builtin.equals_mem : '=' ∈ word.toList := by
  rw [(splitAssignment_eq_some.mp hsplit).1, String.toList_append, String.toList_append]
  exact List.mem_append_left _ (List.mem_append_right _ List.mem_cons_self)

include hset

/-- A launcher is asked for nothing. -/
theorem Walk.rehearse_word {σ : Type} (l : Launcher σ) (st : σ) (v : View) (depth : Nat)
    (parent : Option Operator) (site : Position) :
    ∃ v', (execute (.leaf (.ofWords [word])) depth parent site).rehearse l st v =
      (.finished 0, st, v') ∧ v'.world = v.world ∧ Assigned name value v.process v'.process := by
  simp only [execute_word (Builtin.equals_mem hsplit), rehearse, Builtin.run_word hsplit hset]
  exact ⟨_, rfl, rfl, .of_env rfl rfl⟩

/-- The shell acts on its own process alone. -/
theorem Shell.changes_handle {line : String} (status : Int)
    (hparse : Tree.parse line = .ok (some (.leaf (.ofWords [word])))) :
    ∃ f, (handle line status : Task ρ (Except ExecError Int)).Changes f (.ok 0) ∧
      ∀ p, Assigned name value p (f p) := by
  let logged (text : String) (p : Process) : Process := { p with log := ⟨.debug, text⟩ :: p.log }
  have note (text : String) :
      Task.Changes (Task.modify (View.note .debug text) : Task ρ Unit) (logged text) () :=
    Task.changes_modify fun _ => rfl
  refine ⟨((id ∘ logged "line finished with status 0") ∘
    (((id ∘ Builtin.assigned name value) ∘ logged ("builtin Assign: " ++ Text.quotedList [word])) ∘
      logged (Walk.heading (.leaf (.ofWords [word])) 0 none))), ?_, fun p => .of_env rfl rfl⟩
  unfold handle Tree.perform
  simp only [hparse, Walk.execute_word (Builtin.equals_mem hsplit), Walk.perform]
  refine Task.Changes.bind (a := .ok 0) ?_ ?_
  · refine (note _).bind ?_
    refine (note _).bind ?_
    exact (Task.changes_act (Builtin.run_word hsplit hset)).bind (Task.changes_pure _)
  · exact (note _).bind (Task.changes_pure _)

end

-- ============================================================= assignments

namespace Builtin

/-- From the line to the environment: a name and a value that can be set can be
written as one word, and however that is quoted, a line of it alone sets them and
changes and starts nothing else. A launcher is asked for nothing, and the forking
shell makes no request but to act on itself. Of any command whatsoever an
assignment either sets what its verb says, cut at the first equals sign, or fails
and sets nothing; how a variable would be set with another name or value makes no
difference to it. -/
theorem assign_sets_or_fails :
    (∀ name value : String, Settable name value →
      (∃ ps, Piece.wordOf ps = (name ++ "=" ++ value).toList) ∧
      ∀ ps, Piece.wordOf ps = (name ++ "=" ++ value).toList →
        ∃ tree, Tree.parse (String.ofList (Piece.sourceOf ps)) = .ok (some tree) ∧
          (∀ {σ : Type} (l : Launcher σ) (st : σ) (v : View), ∃ v',
            (Walk.execute tree 0 none).rehearse l st v = (.finished 0, st, v') ∧
              v'.world = v.world ∧ Assigned name value v.process v'.process) ∧
          ∀ {ρ : Type} (status : Int), ∃ f,
            (Shell.handle (String.ofList (Piece.sourceOf ps)) status :
              Task ρ (Except ExecError Int)).Changes f (.ok 0) ∧
              ∀ p, Assigned name value p (f p)) ∧
    ∀ (c : Command) (v : View),
      ((∃ name value v', c.verb = name ++ "=" ++ value ∧ Settable name value ∧
          assign.run c v = (.status 0, v') ∧ v'.process.cwd = v.process.cwd ∧
          v'.process.env = v.process.env.set name value) ∨
        ∃ v', assign.run c v = (.status exitFailure, v') ∧ v'.process.cwd = v.process.cwd ∧
          v'.process.env = v.process.env) ∧
      ∀ set : String → String → View → View,
        (∀ name value v, Settable name value →
          set name value v = (Call.setVar name value).after v) →
        runBody (assignBy set c.verb) c v = assign.run c v := by
  refine ⟨fun name value hset => ⟨Piece.exists_wordOf_eq _, fun ps hword => ?_⟩,
    fun c v => ⟨assign_cases c v, fun set hagrees => ?_⟩⟩
  · have hne : ps ≠ [] := by
      rintro rfl
      have hmem : '=' ∈ (name ++ "=" ++ value).toList := by simp
      rw [← hword] at hmem
      cases hmem
    have hsplit : splitAssignment (String.ofList (Piece.wordOf ps)) = some (name, value) := by
      rw [splitAssignment_eq_some, hword, String.ofList_toList]
      exact ⟨rfl, hset.noEquals⟩
    have hparse := Tree.parse_pieces hne
    exact ⟨_, hparse, fun l st v => Walk.rehearse_word hsplit hset l st v 0 none [],
      fun status => Shell.changes_handle hsplit hset status hparse⟩
  · rw [run_eq]
    show _ = runBody (runAssign c.verb) c v
    rw [runAssign_eq, assignBy_of_agrees hagrees]

/-- A blank in the name, and in the value an equals sign, both quotes and
operators; and a word without a name. -/
theorem assign_sets_or_fails_quoted :
    let v : View := { process := {}, world := { tree := .empty } }
    Settable "X Y" "it's = \"|>" ∧
      (∃ tree v', Tree.parse "X' 'Y=\"it's = \\\"|>\"" = .ok (some tree) ∧
        (Walk.execute tree 0 none).rehearse Recorded.launcher {} v = (.finished 0, {}, v') ∧
        v'.process.env.get? "X Y" = some "it's = \"|>" ∧ v'.process.cwd = v.process.cwd) ∧
      ∃ v', assign.run { verb := "=x", argv := ["=x"] } v = (.status exitFailure, v') ∧
        v'.process.env = v.process.env := by
  intro v
  have hset : Settable "X Y" "it's = \"|>" :=
    ⟨by decide, by decide +kernel, by decide +kernel, by decide +kernel⟩
  obtain ⟨tree, hparse, hrehearse, -⟩ := (assign_sets_or_fails.1 "X Y" "it's = \"|>" hset).2
    [.bare 'X' (by decide), .single [' '] (by decide), .bare 'Y' (by decide),
      .bare '=' (by decide),
      .double [.plain 'i' (by decide), .plain 't' (by decide), .plain '\x27' (by decide),
        .plain 's' (by decide), .plain ' ' (by decide), .plain '=' (by decide),
        .plain ' ' (by decide), .escaped '"', .plain '|' (by decide), .plain '>' (by decide)]]
    (by decide +kernel)
  obtain ⟨v', hv', -, hassigned⟩ := hrehearse Recorded.launcher {} v
  refine ⟨hset, ⟨tree, v', hparse, hv', hassigned.value, by rw [hassigned.rest]⟩, ?_⟩
  have hfails : (assign.run { verb := "=x", argv := ["=x"] } v).1 = .status exitFailure := by
    decide +kernel
  rcases (assign_sets_or_fails.2 { verb := "=x", argv := ["=x"] } v).1 with
    ⟨_, _, v', -, -, hrun, -⟩ | ⟨v', hrun, -, henv⟩
  · rw [hrun] at hfails
    cases hfails
  · exact ⟨v', hrun, henv⟩

end Builtin

end LineShell
