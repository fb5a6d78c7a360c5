/-
A line of two is executed as the first and then the second.

The `;` between them stands below all those of the second line, so the tree
is not the second's with something before it: the spine of the second line
is taken apart and put together around the first (`Tree.graft`). Sequences
are the same however they are grouped, so nothing but the depths of the
subtrees can tell (`outline_execute_graft`).
-/
import LineShell.Proofs.Grammar.Graft
import LineShell.Proofs.Launch.Unlogged

namespace LineShell

open Posix
open Token (Scan Mode)

namespace Walk

variable {f : Nat → Nat}

/-- Where depths make no difference, nothing about its place does. -/
theorem outline_execute_anywhere (hf : ∀ m n, f m = f n) (t : Tree) (d d' : Nat)
    (p p' : Option Operator) (q q' : Position) :
    (execute t d p q).outline f = (execute t d' p' q').outline f :=
  outline_execute t (fun n => hf (d + n) (d' + n)) p p' q q'

theorem outline_execute_sequential (hf : ∀ m n, f m = f n) (l r : Tree) (d : Nat)
    (p : Option Operator) (q : Position) :
    (execute (.node .sequential l r) d p q).outline f =
      ((execute l d p q).bind fun _ => execute r d p q).outline f := by
  have onLeft := outline_execute_anywhere hf l (d + 1) d (some .sequential) p (q ++ [.left]) q
  have onRight := outline_execute_anywhere hf r (d + 1) d (some .sequential) p (q ++ [.right]) q
  simp only [execute, outline, outline_bind, onLeft, onRight]

/-- A graft is the first tree, and then the second. -/
theorem outline_execute_graft (hf : ∀ m n, f m = f n) (t u : Tree) (d : Nat)
    (p : Option Operator) (q : Position) :
    (execute (t.graft u) d p q).outline f =
      ((execute t d p q).bind fun _ => execute u d p q).outline f := by
  induction u with
  | leaf c => exact outline_execute_sequential hf t (.leaf c) d p q
  | node op l r ihl _ =>
      cases op with
      | sequential =>
          calc (execute (.node .sequential (t.graft l) r) d p q).outline f
              = ((execute (t.graft l) d p q).outline f).bind
                  fun _ => (execute r d p q).outline f := by
                rw [outline_execute_sequential hf, outline_bind]
            _ = ((execute t d p q).outline f).bind fun _ => ((execute l d p q).outline f).bind
                  fun _ => (execute r d p q).outline f := by
                rw [ihl, outline_bind, bind_assoc]
            _ = ((execute t d p q).bind fun _ =>
                  execute (.node .sequential l r) d p q).outline f := by
                rw [outline_bind, outline_execute_sequential hf, outline_bind]
      | parallel => exact outline_execute_sequential hf t (.node .parallel l r) d p q
      | andThen => exact outline_execute_sequential hf t (.node .andThen l r) d p q
      | orElse => exact outline_execute_sequential hf t (.node .orElse l r) d p q
      | pipe => exact outline_execute_sequential hf t (.node .pipe l r) d p q

/-- A line of two is executed as the first and then the second. It is read
as the graft of their trees, which asks what the first and then the second
ask, also in branches, so it leads to the dialogues that they lead to one
after the other. By a launcher that takes no notice of depths it is
rehearsed as they are, and by one that forks, the shell comes to what it
comes to on both. -/
theorem joined_lines {line line' : String} (before after : String) {t u : Tree}
    (ht : Tree.parse line = .ok (some t)) (hu : Tree.parse line' = .ok (some u))
    (hlast : (Scan.ofLine line).tokens.getLast? ≠ some .semi)
    (hend : Mode.plain.through line.toList ≠ .escaped)
    (hbefore : ∀ c ∈ before.toList, Text.isBlank c = true)
    (hafter : ∀ c ∈ after.toList, Text.isBlank c = true) :
    Tree.parse (line ++ before ++ ";" ++ after ++ line') = .ok (some (t.graft u)) ∧
    (execute (t.graft u) 0 none).outline (fun _ => 0) =
      ((execute t 0 none).bind fun _ => execute u 0 none).outline (fun _ => 0) ∧
    (∀ zs o, ((execute (t.graft u) 0 none).outline fun _ => 0).Dialogue zs o ↔
      Follows ((execute t 0 none).outline fun _ => 0)
        (fun _ => (execute u 0 none).outline fun _ => 0) zs o) ∧
    (∀ {σ : Type} (l : Launcher σ), l.IgnoresLogs → l.IgnoresDepth (fun _ => 0) →
      ∀ (st : σ) (v : View),
        SameResult ((execute (t.graft u) 0 none).rehearse l st v)
          (resume (fun _ st v => (execute u 0 none).rehearse l st v)
            ((execute t 0 none).rehearse l st v))) ∧
    SameOutcomes (fun _ => (t.graft u).perform) (fun _ => follow t.perform fun _ => u.perform) := by
  have hgraft := outline_execute_graft (f := fun _ => 0) (fun _ _ => rfl) t u 0 none []
  refine ⟨Tree.parse_joined ht hu hlast hend hbefore hafter, hgraft, fun zs o => ?_,
    fun l hlog hdepth st v => ?_, ?_⟩
  · rw [hgraft, outline_bind]
    exact dialogue_bind
  · have same := rehearse_of_outline_eq hlog hdepth hgraft st (.refl v)
    rwa [rehearse_bind] at same
  · have same := sameOutcomes_of_outline_eq hgraft
    simp only [perform_bind] at same
    exact same

/-- The first line ends in a backslash that is protected by another, the
second in a `;`; the shell leaves before it comes to what stands there. On a
machine where no program is found it does come to it. -/
theorem joined_lines_exit_in_second :
    let word (verb : String) := Tree.leaf (.ofWords [verb])
    let t := Tree.leaf (.ofWords ["a", "x;y", "\\"])
    let u := Tree.node .sequential
      (.node .andThen (.node .pipe (word "b") (word "c")) (word "exit")) (word "d")
    let v : View := { process := {}, world := { tree := .empty } }
    let joined := (execute (t.graft u) 0 none).rehearse Recorded.launcher {} v
    let programs : Installed (Option Int) := fun _ _ => .exit (.exited 0)
    let m := Machine.start v none
    let after := m.perform programs 300
      (follow t.perform (fun _ => u.perform) fun r => .ret r.toOption)
    (Tree.parse "a 'x;y' \\\\" = .ok (some t) ∧ Tree.parse "b | c && exit; d;" = .ok (some u) ∧
      (Scan.ofLine "a 'x;y' \\\\").tokens.getLast? ≠ some .semi ∧
      Mode.plain.through "a 'x;y' \\\\".toList ≠ .escaped) ∧
    Tree.parse "a 'x;y' \\\\ ;b | c && exit; d;" = .ok (some (t.graft u)) ∧
    (joined.1 = .left ∧ joined.2.1.lines = ["launch a x;y \\", "wait 1", "channel", "fork |",
      "exec b", "fork |", "exec c", "wait 2", "wait 3"]) ∧
    SameResult joined
      (resume (fun _ st v => (execute u 0 none).rehearse Recorded.launcher st v)
        ((execute t 0 none).rehearse Recorded.launcher {} v)) ∧
    m.Ordinary programs ∧ after.standing = .result (some 127) ∧
    (m.doing ((t.graft u).perform fun r => .ret r.toOption)).ComesTo programs
      (.result (some 127)) after.view := by
  intro word t u v joined programs m after
  have ht : Tree.parse "a 'x;y' \\\\" = .ok (some t) := by decide +kernel
  have hu : Tree.parse "b | c && exit; d;" = .ok (some u) := by decide +kernel
  have hlast : (Scan.ofLine "a 'x;y' \\\\").tokens.getLast? ≠ some .semi := by decide +kernel
  have hend : Mode.plain.through "a 'x;y' \\\\".toList ≠ .escaped := by decide +kernel
  have hbefore : ∀ c ∈ " ".toList, Text.isBlank c = true :=
    List.all_eq_true.mp (by decide +kernel)
  have main := joined_lines " " "" ht hu hlast hend hbefore nofun
  have onward : ∀ name args, (programs name args).Respects .onward := fun _ _ => trivial
  have blind : ∀ name args, (programs name args).IsBlind := fun _ _ => Prog.blind_exit _
  have ordinary : m.Ordinary programs := .start onward blind v _
  have finished : after.standing = .result (some 127) := by decide +kernel
  have inTurn := Machine.comesTo_perform programs 300
    (follow t.perform (fun _ => u.perform) fun r => .ret r.toOption) m
  rw [finished] at inTurn
  have forked := main.2.2.2.2 _ programs m ordinary Except.toOption (.result (some 127)) after.view
    nofun
  exact ⟨⟨ht, hu, hlast, hend⟩, main.1, ⟨by decide +kernel, by decide +kernel⟩,
    main.2.2.2.1 Recorded.launcher Recorded.launcher_ignoresLogs
      (Recorded.launcher_ignoresDepth _) {} _,
    ordinary, finished, forked.mpr inTurn⟩

end Walk

end LineShell
