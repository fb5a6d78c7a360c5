/-
A line without `&` is executed from left to right.

A scan of the pipelines keeps one status (`Flat.walk`). A pipeline is run if
the joint before it says so for the status at hand, which is then that of
the pipeline; otherwise it is skipped. What a pipeline fails with, the whole
scan fails with.

Walking the tree of the line is that scan (`outline_execute_flatAt`). On the
left of a joint stands a line again, of which the scan is a beginning, and on
its right one pipeline if the joint is `&&` or `||`, so that what is skipped
there is all of it. A skipped operand of `||` has the status zero by decree,
but it is not skipped at any other.
-/
import LineShell.Proofs.Grammar.Flat
import LineShell.Proofs.Launch.Unlogged

namespace LineShell

open Posix
open Token (Scan)
open Walk (execute)

-- =================================================================== scans

/-- Is the pipeline after the joint run, at this status? -/
def Joint.runs : Joint → Int → Prop
  | always, _ => True
  | success, n => n = 0
  | failure, n => n ≠ 0

instance Joint.decidableRuns : (j : Joint) → (n : Int) → Decidable (j.runs n)
  | always, _ => inferInstanceAs (Decidable True)
  | success, n => inferInstanceAs (Decidable (n = 0))
  | failure, n => inferInstanceAs (Decidable (n ≠ 0))

namespace Flat

/-- The walk of a pipeline. -/
def pipelineWalk (p : Pipeline) : Walk := execute p.tree p.depth none

/-- Goes on with these pipelines at a status. -/
def walkFrom : Int → List (Joint × Pipeline) → Walk
  | n, [] => .done n
  | n, (j, p) :: rest =>
      if j.runs n then (pipelineWalk p).bind fun m => walkFrom m rest else walkFrom n rest

/-- Scans the pipelines from left to right. -/
def walk (f : Flat) : Walk := (pipelineWalk f.first).bind fun n => walkFrom n f.rest

theorem walkFrom_append (n : Int) (xs ys : List (Joint × Pipeline)) :
    walkFrom n (xs ++ ys) = (walkFrom n xs).bind fun m => walkFrom m ys := by
  induction xs generalizing n with
  | nil => rfl
  | cons x xs ih =>
      obtain ⟨j, p⟩ := x
      rw [List.cons_append, walkFrom, walkFrom]
      split
      · rw [Walk.bind_assoc]
        exact congrArg _ (funext ih)
      · exact ih n

/-- A line of two is scanned as the first and, at a joint that lets it be
run, as the second. -/
theorem walk_append (f g : Flat) (j : Joint) :
    (f.append j g).walk =
      f.walk.bind fun n => if j.runs n then g.walk else walkFrom n g.rest := by
  rw [walk, walk, Walk.bind_assoc]
  exact congrArg _ (funext fun n => walkFrom_append n f.rest _)

end Flat

namespace Walk

-- =================================================================== trees

variable {f : Nat → Nat}

/-- A pipeline is the whole of its line. -/
theorem outline_execute_pipeline (t : Tree) (d : Nat) (p : Option Operator) (q : Position) :
    (execute t d p q).outline f = (Flat.walk ⟨⟨d, t⟩, []⟩).outline f := by
  have hwalk : Flat.walk ⟨⟨d, t⟩, []⟩ = execute t d none := bind_done _
  rw [hwalk]
  exact outline_execute t (fun _ => rfl) p none q []

/-- A tree is walked as its pipelines are scanned. -/
theorem outline_execute_flatAt {t : Tree} (h : t.Shaped) (d : Nat) (p : Option Operator)
    (q : Position) : (execute t d p q).outline f = (t.flatAt d).walk.outline f := by
  induction t generalizing d p q with
  | leaf c => exact outline_execute_pipeline (.leaf c) d p q
  | node op l r ihl ihr =>
      obtain ⟨-, hright, hshapedl, hshapedr⟩ := h
      have onLeft := ihl hshapedl (d + 1) (some op) (q ++ [.left])
      have onRight := ihr hshapedr (d + 1) (some op) (q ++ [.right])
      -- the walks are those of the left side, and then equal for every status of it
      cases op with
      | parallel => exact outline_execute_pipeline (.node .parallel l r) d p q
      | pipe => exact outline_execute_pipeline (.node .pipe l r) d p q
      | sequential =>
          have hflat : (Tree.node .sequential l r).flatAt d =
              (l.flatAt (d + 1)).append .always (r.flatAt (d + 1)) := rfl
          rw [hflat, Flat.walk_append, outline_bind, ← onLeft]
          simp only [execute, outline, outline_bind]
          exact congrArg _ (funext fun _ => onRight)
      | andThen =>
          have hflat : (Tree.node .andThen l r).flatAt d =
              (l.flatAt (d + 1)).append .success (r.flatAt (d + 1)) := rfl
          rw [hflat, Flat.walk_append, outline_bind, ← onLeft]
          simp only [execute, outline, outline_bind]
          refine congrArg _ (funext fun n => ?_)
          by_cases hn : n = 0
          · rw [if_pos hn, if_pos (show Joint.runs .success n from hn)]
            exact onRight
          · rw [if_neg hn, if_neg (show ¬ Joint.runs .success n from hn),
              Tree.flatAt_of_precedence hright]
            rfl
      | orElse =>
          have hflat : (Tree.node .orElse l r).flatAt d =
              (l.flatAt (d + 1)).append .failure (r.flatAt (d + 1)) := rfl
          rw [hflat, Flat.walk_append, outline_bind, ← onLeft]
          simp only [execute, outline, outline_bind]
          refine congrArg _ (funext fun n => ?_)
          by_cases hn : n = 0
          · subst hn
            rw [if_neg (fun h => h rfl), if_neg (show ¬ Joint.runs .failure 0 from fun h => h rfl),
              Tree.flatAt_of_precedence hright]
            rfl
          · rw [if_pos hn, if_pos (show Joint.runs .failure n from hn)]
            exact onRight

end Walk

-- ============================================================== rehearsals

namespace Flat

variable {σ : Type}

/-- Goes on with these pipelines at a status. -/
def rehearseFrom (l : Launcher σ) : Int → List (Joint × Pipeline) → σ → View → Outcome × σ × View
  | n, [], st, v => (.finished n, st, v)
  | n, (j, p) :: rest, st, v =>
      if j.runs n then
        Walk.resume (fun m st v => rehearseFrom l m rest st v) ((pipelineWalk p).rehearse l st v)
      else rehearseFrom l n rest st v

/-- Rehearses the pipelines from left to right. The first that fails, or ends
the process, is the last. -/
def rehearse (l : Launcher σ) (f : Flat) (st : σ) (v : View) : Outcome × σ × View :=
  Walk.resume (fun n st v => rehearseFrom l n f.rest st v) ((pipelineWalk f.first).rehearse l st v)

theorem rehearse_walkFrom (l : Launcher σ) (n : Int) (rest : List (Joint × Pipeline)) (st : σ)
    (v : View) : (walkFrom n rest).rehearse l st v = rehearseFrom l n rest st v := by
  induction rest generalizing n st v with
  | nil => rfl
  | cons x rest ih =>
      obtain ⟨j, p⟩ := x
      rw [walkFrom, rehearseFrom]
      split
      · rw [Walk.rehearse_bind]
        exact congrArg (fun k => Walk.resume k _) (funext fun m => funext fun st => funext fun v =>
          ih m st v)
      · exact ih n st v

theorem rehearse_walk (l : Launcher σ) (f : Flat) (st : σ) (v : View) :
    f.walk.rehearse l st v = f.rehearse l st v := by
  rw [walk, Walk.rehearse_bind]
  exact congrArg (fun k => Walk.resume k _) (funext fun m => funext fun st => funext fun v =>
    rehearse_walkFrom l m f.rest st v)

-- ============================================================ for real

variable {ρ : Type}

/-- Goes on with these pipelines at a status. -/
def performFrom : Int → List (Joint × Pipeline) → Task ρ (Except ExecError Int)
  | n, [] => pure (.ok n)
  | n, (j, p) :: rest =>
      if j.runs n then Walk.follow (pipelineWalk p).perform fun m => performFrom m rest
      else performFrom n rest

/-- Executes the pipelines from left to right in a process of the machine. -/
def perform (f : Flat) : Task ρ (Except ExecError Int) :=
  Walk.follow (pipelineWalk f.first).perform fun n => performFrom n f.rest

theorem perform_walkFrom (n : Int) (rest : List (Joint × Pipeline)) :
    ((walkFrom n rest).perform : Task ρ (Except ExecError Int)) = performFrom n rest := by
  induction rest generalizing n with
  | nil => rfl
  | cons x rest ih =>
      obtain ⟨j, p⟩ := x
      rw [walkFrom, performFrom]
      split
      · rw [Walk.perform_bind]
        exact congrArg _ (funext ih)
      · exact ih n

theorem perform_walk (f : Flat) :
    (f.walk.perform : Task ρ (Except ExecError Int)) = f.perform := by
  rw [walk, Walk.perform_bind]
  exact congrArg _ (funext fun n => perform_walkFrom n f.rest)

end Flat

namespace Walk

/-- A line without `&` is executed as its pipelines from left to right: its
tokens, cut at the joints, are a flat line, which asks what the tree asks
whatever the answers are. Its rehearsal by any launcher is that of the tree,
and by one that forks, the shell comes to the same on both. -/
theorem execute_flat {line : String} {t : Tree} (h : Tree.parse line = .ok (some t))
    (hpar : .background ∉ (Scan.ofLine line).tokens) :
    ∃ flat : Flat,
      Flat.ofTokens? (Token.withoutLastSemi (Scan.ofLine line).tokens) = some flat ∧
      (execute t 0 none).outline id = flat.walk.outline id ∧
      (∀ {σ : Type} (l : Launcher σ), l.IgnoresLogs → ∀ (st : σ) (v : View),
        SameResult ((execute t 0 none).rehearse l st v) (flat.rehearse l st v)) ∧
      SameOutcomes (fun _ => t.perform) (fun _ => flat.perform) := by
  obtain ⟨-, ts, hspelled, hshaped, htokens⟩ := Tree.parse_eq_some_iff.mp h
  have hts : Token.withoutLastSemi (Scan.ofLine line).tokens = ts :=
    Tree.withoutLastSemi_of_spelledBy hspelled htokens
  have hpar' : .background ∉ ts := by
    rcases htokens with htokens | htokens
    · rwa [← htokens]
    · rw [htokens] at hpar
      exact fun hmem => hpar (List.mem_append_left _ hmem)
  have houtline := outline_execute_flatAt (f := id) hshaped 0 none []
  refine ⟨t.flatAt 0, ?_, houtline, fun l hlog st v => ?_, ?_⟩
  · rw [hts]
    exact Tree.ofTokens?_of_spelledBy hspelled hshaped hpar'
  · rw [← Flat.rehearse_walk]
    exact rehearse_of_outline_eq hlog (fun _ _ => rfl) houtline st (.refl v)
  · have same := sameOutcomes_of_outline_eq houtline
    simp only [Flat.perform_walk] at same
    exact same

/-- Joints of all kinds, and a `;` at the end. The pipe is run since what
stands before it came to zero, and `f` is skipped since `e` did not. -/
theorem execute_flat_all_joints :
    ∃ t : Tree, ∃ flat : Flat,
      (Tree.parse "a || b && c|d; e && f;" = .ok (some t) ∧
        .background ∉ (Scan.ofLine "a || b && c|d; e && f;").tokens) ∧
      Flat.ofTokens? (Token.withoutLastSemi (Scan.ofLine "a || b && c|d; e && f;").tokens) =
        some flat ∧
      flat.rest.map (fun x => (x.1, x.2.depth)) =
        [(.failure, 3), (.success, 2), (.always, 2), (.success, 2)] ∧
      (flat.rehearse Recorded.launcher { endings := [("a", .exited 1), ("e", .signaled 9)] }
          { process := {}, world := { tree := .empty } }).2.1.lines =
        ["launch a", "wait 1", "launch b", "wait 2", "channel", "fork |", "exec c", "fork |",
          "exec d", "wait 3", "wait 4", "launch e", "wait 5"] ∧
      SameResult
        ((execute t 0 none).rehearse Recorded.launcher
          { endings := [("a", .exited 1), ("e", .signaled 9)] }
          { process := {}, world := { tree := .empty } })
        (flat.rehearse Recorded.launcher { endings := [("a", .exited 1), ("e", .signaled 9)] }
          { process := {}, world := { tree := .empty } }) := by
  have ht : Tree.parse "a || b && c|d; e && f;" = .ok (some
      (.node .sequential
        (.node .andThen
          (.node .orElse (.leaf (.ofWords ["a"])) (.leaf (.ofWords ["b"])))
          (.node .pipe (.leaf (.ofWords ["c"])) (.leaf (.ofWords ["d"]))))
        (.node .andThen (.leaf (.ofWords ["e"])) (.leaf (.ofWords ["f"]))))) := by
    decide +kernel
  have hpar : .background ∉ (Scan.ofLine "a || b && c|d; e && f;").tokens := by
    decide +kernel
  have hflat : Flat.ofTokens?
      (Token.withoutLastSemi (Scan.ofLine "a || b && c|d; e && f;").tokens) = some
        ⟨⟨3, .leaf (.ofWords ["a"])⟩,
          [(.failure, ⟨3, .leaf (.ofWords ["b"])⟩),
            (.success, ⟨2, .node .pipe (.leaf (.ofWords ["c"])) (.leaf (.ofWords ["d"]))⟩),
            (.always, ⟨2, .leaf (.ofWords ["e"])⟩), (.success, ⟨2, .leaf (.ofWords ["f"])⟩)]⟩ := by
    decide +kernel
  obtain ⟨flat, hflat', -, hsame, -⟩ := execute_flat ht hpar
  have heq := Option.some.inj (hflat.symm.trans hflat')
  rw [← heq] at hsame
  exact ⟨_, _, ⟨ht, hpar⟩, hflat, by decide +kernel, by decide +kernel,
    hsame Recorded.launcher Recorded.launcher_ignoresLogs _ _⟩

end Walk

end LineShell
