/-
Commands side by side.

# The first that fails

A tree of `&` alone runs its commands side by side, however it is bracketed.
Its status is that of the first command, from left to right, that did not
exit with zero (`firstFailing`). A group within such a tree is one branch,
which exits with the status of the group; it stands for its commands
(`Represents`), because a status of zero is that of a group in which all
exited with zero, and of no other.

# Processes

A run with processes takes the course of its tree. So the shell comes to the
same status there, and a process has been started for each of the commands
(`Watch.Endless.returns_side_by_side`).
-/
import LineShell.Proofs.Launch.Double
import LineShell.Proofs.Rehearsal.Tended

namespace LineShell

open Posix

variable {σ : Type}

-- ======================================================= the first that fails

/-- The status of the first that did not exit with zero; zero if all did. -/
def firstFailing (es : List Ending) : Int :=
  ((es.find? fun e => !e.isSuccess).map Ending.status).getD 0

/-- Who did not exit with zero has another status. -/
theorem Ending.status_eq_zero {e : Ending} : e.status = 0 ↔ e = .exited 0 := by
  cases e with
  | exited code => simp [status]
  | signaled n => simp [status, exitFailure]

theorem firstFailing_eq_zero {es : List Ending} :
    firstFailing es = 0 ↔ ∀ e ∈ es, e = .exited 0 := by
  unfold firstFailing
  cases hfind : es.find? fun e => !e.isSuccess with
  | none =>
      refine ⟨fun _ e he => ?_, fun _ => rfl⟩
      simpa [Ending.isSuccess] using List.find?_eq_none.mp hfind e he
  | some e =>
      have hfails : e ≠ .exited 0 := by simpa [Ending.isSuccess] using List.find?_some hfind
      refine ⟨fun h => absurd (Ending.status_eq_zero.mp h) hfails, fun h => ?_⟩
      exact absurd (h e (List.mem_of_find?_eq_some hfind)) hfails

theorem all_isSuccess {es : List Ending} :
    es.all Ending.isSuccess = true ↔ ∀ e ∈ es, e = .exited 0 := by
  simp [Ending.isSuccess]

theorem firstFailing_of_all {es : List Ending} (h : es.all Ending.isSuccess = true) :
    firstFailing es = 0 := firstFailing_eq_zero.mpr (all_isSuccess.mp h)

/-- What comes after counts only if nothing before it failed. -/
theorem firstFailing_append (es es' : List Ending) : firstFailing (es ++ es') =
    if es.all Ending.isSuccess then firstFailing es' else firstFailing es := by
  induction es with
  | nil => rfl
  | cons e rest ih =>
      cases he : e.isSuccess with
      | true =>
          simp only [firstFailing, List.cons_append, List.find?_cons, he, Bool.not_true,
            List.all_cons, Bool.true_and] at ih ⊢
          exact ih
      | false =>
          simp only [firstFailing, List.cons_append, List.find?_cons, he, Bool.not_false,
            List.all_cons, Bool.false_and, Bool.false_eq_true, if_false]

/-- One ending stands for several: it is a success if all of them are, and its
status is that of the first that failed. -/
structure Represents (e : Ending) (es : List Ending) : Prop where
  success : e.isSuccess = es.all Ending.isSuccess
  status : e.status = firstFailing es

namespace Represents

variable {e e' : Ending} {es es' : List Ending}

theorem one (e : Ending) : Represents e [e] := by
  refine ⟨by simp, ?_⟩
  unfold firstFailing
  by_cases h : e = .exited 0
  · subst h
    rfl
  · simp [Ending.isSuccess, h]

/-- A group exits with the status of its first that failed. -/
theorem exited (es : List Ending) : Represents (.exited (firstFailing es)) es := by
  refine ⟨?_, rfl⟩
  rw [Bool.eq_iff_iff, all_isSuccess, ← firstFailing_eq_zero]
  simp [Ending.isSuccess]

/-- Two groups side by side. -/
theorem both (h : Represents e es) (h' : Represents e' es') :
    Walk.parallelStatus e e' = firstFailing (es ++ es') := by
  rw [firstFailing_append, Walk.parallelStatus, h.success, h'.success, h.status, h'.status]
  cases hfirst : es.all Ending.isSuccess with
  | false => rfl
  | true =>
      cases hsecond : es'.all Ending.isSuccess with
      | false => rfl
      | true => exact (firstFailing_of_all hsecond).symm

end Represents

-- ========================================================== trees of `&` alone

namespace Tree

/-- Is the tree made of `&` over external commands? -/
def isParallel : Tree → Bool
  | t@(leaf _) => t.external?.isSome
  | node op l r => op == .parallel && l.isParallel && r.isParallel

theorem isParallel_node {op : Operator} {l r : Tree} : (node op l r).isParallel = true ↔
    op = .parallel ∧ l.isParallel = true ∧ r.isParallel = true := by
  simp [isParallel, and_assoc]

theorem isConcurrent_of_isParallel {t : Tree} (ht : t.isParallel = true) :
    t.isConcurrent = true := by
  induction t with
  | leaf c => exact ht
  | node op left right ihl ihr =>
      obtain ⟨rfl, hleft, hright⟩ := isParallel_node.mp ht
      exact Bool.and_eq_true_iff.mpr ⟨ihl hleft, ihr hright⟩

variable {l : Launcher σ} {g : Roster σ} {q : Position} {left right t : Tree} {c : Command}
  {kids : List Kid} {e : Ending}

/-- A tree whose rehearsals that finish tend its commands, and come to the status
of the first that failed. -/
def Groups (l : Launcher σ) (g : Roster σ) (t : Tree) : Prop :=
  ∀ depth parent q st v n st' v', g.sound st →
    (Walk.execute t depth parent q).rehearse l st v = (.finished n, st', v') →
    ∃ kids, g.Tends t q ((Walk.execute t depth parent q).events l st v) st st' kids ∧
      n = firstFailing (kids.map Kid.ending)

/-- A branch stands for its commands. -/
theorem BranchEnds.represents
    (h : t.BranchEnds (fun _ kids n => n = firstFailing (kids.map Kid.ending)) q kids e) :
    Represents e (kids.map Kid.ending) := by
  cases h with
  | program => exact .one _
  | group _ hfits =>
      rw [hfits]
      exact .exited _

theorem groups_parallel (hl : l.Tells g) (hleft : left.Groups l g) (hright : right.Groups l g) :
    (node .parallel left right).Groups l g := by
  intro depth parent q st v n st' v' hsound h
  obtain ⟨es, child, child', st₁, v₁, e, st₂, e', hstarted, hwait, hwait', rfl, hevents⟩ :=
    Walk.parallel_of_finished h
  obtain ⟨kids, kids', htends, hends, hends'⟩ := tends_both hl hleft hright .parallel rfl rfl
    hsound hstarted .refl hwait hwait'
  refine ⟨kids ++ kids', by rwa [hevents], ?_⟩
  rw [List.map_append]
  exact hends.represents.both hends'.represents

theorem groups (hl : l.Tells g) {t : Tree} (ht : t.isParallel = true) : t.Groups l g := by
  induction t with
  | leaf c => exact resolves_leaf hl ht fun _ => (Represents.one _).status
  | node op left right ihl ihr =>
      obtain ⟨rfl, hleft, hright⟩ := isParallel_node.mp ht
      exact groups_parallel hl (ihl hleft) (ihr hright)

end Tree

namespace Walk

variable {l : Launcher σ} {P : Outcome → Prop}

/-- A tree of `&` alone finishes, or fails as the launcher makes it. -/
theorem ends_parallel (hl : l.FailsWithin P) (hdone : ∀ n, P (.finished n)) {t : Tree}
    (ht : t.isParallel = true) (depth : Nat) (parent : Option Operator) (q : Position) :
    (execute t depth parent q).Ends l P := by
  induction t generalizing depth parent q with
  | leaf c =>
      rw [Tree.execute_external ht]
      exact fun _ _ => ends_program (q := q) hl hdone c _ _
  | node op left right ihl ihr =>
      obtain ⟨rfl, hleft, hright⟩ := Tree.isParallel_node.mp ht
      exact fun _ _ => ends_runParallel hl hdone (ihl hleft _ _ _) (ihr hright _ _ _) _ _ _

end Walk

-- ========================================================= the main result

namespace Tree

variable {t : Tree}

/-- Where nothing fails, each command is tended, and the first that failed
decides. -/
theorem tended_of_calm {l : Launcher σ} {g : Roster σ} (hl : l.Tells g) (ht : t.isParallel = true)
    (depth : Nat) (parent : Option Operator) (q : Position) {st : σ} (hsound : g.sound st)
    (v : View)
    (hcalls : Event.firstFailure ((Walk.execute t depth parent q).events l st v) = none) :
    ∃ kids, t.Tended q ((Walk.execute t depth parent q).events l st v) kids ∧
      List.Forall₂ g.ends t.commands (kids.map Kid.ending) ∧
      ((Walk.execute t depth parent q).rehearse l st v).1 =
        .finished (firstFailing (kids.map Kid.ending)) := by
  obtain ⟨n, st', v', hfinished⟩ := Walk.finished_of_calm hcalls
    (Walk.stays_concurrent (isConcurrent_of_isParallel ht) depth parent q st v)
  obtain ⟨kids, htends, rfl⟩ := groups hl ht _ _ _ _ _ _ _ _ hsound hfinished
  exact ⟨kids, htends.tended, htends.ends, congrArg Prod.fst hfinished⟩

/-- A recorded rehearsal does not fail. -/
theorem finished_of_recorded (ht : t.isParallel = true) (depth : Nat) (parent : Option Operator)
    (q : Position) (st : Recorded.State) (v : View) : ∃ n st' v',
      (Walk.execute t depth parent q).rehearse Recorded.launcher st v = (.finished n, st', v') := by
  have hends := Walk.ends_parallel (l := Recorded.launcher) (P := fun o => ∃ n, o = .finished n)
    ⟨(by cases ·), (by cases ·), (by cases ·)⟩ (fun n => ⟨n, rfl⟩) ht depth parent q st v
  rcases hrun : (Walk.execute t depth parent q).rehearse Recorded.launcher st v with ⟨o, st', v'⟩
  obtain ⟨n, hn⟩ := hends
  rw [hrun] at hn
  exact ⟨n, st', v', by rw [show o = .finished n from hn]⟩

/-- Commands side by side, however they are grouped, are each started once, from
left to right, and each waited for once. The status is that of the first that
did not exit with zero, and zero if there is none. So it is with the recording
launcher and all endings that it may have for the programs, where it depends on
the commands alone, and with the scripted launcher if it makes nothing fail. -/
theorem commands_side_by_side (ht : t.isParallel = true) (depth : Nat) (parent : Option Operator)
    (q : Position) (v : View) :
    (∀ st : Recorded.State,
      let w := Walk.execute t depth parent q
      let endings := t.commands.map fun c => st.ending c.verb
      (∃ kids, t.Tended q (w.events Recorded.launcher st v) kids ∧
        kids.map Kid.ending = endings) ∧
      (w.rehearse Recorded.launcher st v).1 = .finished (firstFailing endings) ∧
      (firstFailing endings = 0 ↔ ∀ e ∈ endings, e = .exited 0) ∧
      ∀ t' : Tree, t'.isParallel = true → t'.commands = t.commands → ∀ depth' parent' q' v',
        ((Walk.execute t' depth' parent' q').rehearse Recorded.launcher st v').1 =
          (w.rehearse Recorded.launcher st v).1) ∧
    ∀ st : Scripted.State,
      let w := Walk.execute t depth parent q
      Event.firstFailure (w.events Scripted.launcher st v) = none →
      ∃ kids, t.Tended q (w.events Scripted.launcher st v) kids ∧
        List.Forall₂ (fun c e => st.script.MayEnd c.verb e) t.commands (kids.map Kid.ending) ∧
        (w.rehearse Scripted.launcher st v).1 = .finished (firstFailing (kids.map Kid.ending)) ∧
        (firstFailing (kids.map Kid.ending) = 0 ↔ ∀ e ∈ kids.map Kid.ending, e = .exited 0) := by
  constructor
  · intro st w endings
    have recorded {t : Tree} (ht : t.isParallel = true) depth parent q v :
        ∃ kids, t.Tended q ((Walk.execute t depth parent q).events Recorded.launcher st v) kids ∧
          kids.map Kid.ending = t.commands.map (fun c => st.ending c.verb) ∧
          ((Walk.execute t depth parent q).rehearse Recorded.launcher st v).1 =
            .finished (firstFailing (t.commands.map fun c => st.ending c.verb)) := by
      obtain ⟨n, st', v', hfinished⟩ := finished_of_recorded ht depth parent q st v
      obtain ⟨kids, htends, rfl⟩ := groups (Recorded.launcher_tells st.endings) ht
        _ _ _ _ _ _ _ _ rfl hfinished
      have hendings : kids.map Kid.ending = t.commands.map fun c => st.ending c.verb :=
        eq_map_of_forall₂ htends.ends
      exact ⟨kids, htends.tended, hendings, by rw [hfinished, hendings]⟩
    obtain ⟨kids, htended, hendings, houtcome⟩ := recorded ht depth parent q v
    refine ⟨⟨kids, htended, hendings⟩, houtcome, firstFailing_eq_zero, fun t' ht' hsame _ _ _ _ => ?_⟩
    obtain ⟨-, -, -, houtcome'⟩ := recorded ht' _ _ _ _
    rw [houtcome, houtcome', hsame]
  · intro st w hcalls
    obtain ⟨kids, htended, hends, houtcome⟩ :=
      tended_of_calm (Scripted.launcher_tells st.script) ht depth parent q rfl v hcalls
    exact ⟨kids, htended, hends, houtcome, firstFailing_eq_zero⟩

/-- `a & (b & c) & (d & e)`, where `a` exits with zero, `c` is killed and `d` exits
with 3: the one that is killed is the first that failed. -/
theorem commands_side_by_side_nested :
    let program (verb : String) := leaf (.ofWords [verb])
    let t : Tree := node .parallel
      (node .parallel (program "a") (node .parallel (program "b") (program "c")))
      (node .parallel (program "d") (program "e"))
    let st : Recorded.State := { endings := [("c", .signaled 9), ("d", .exited 3)] }
    let v : View := { process := {}, world := { tree := .empty } }
    t.isParallel = true ∧
      ((Walk.execute t 0 none).rehearse Recorded.launcher st v).1 = .finished exitFailure := by
  intro program t st v
  obtain ⟨-, houtcome, -⟩ :=
    (commands_side_by_side (t := t) (by decide +kernel) 0 none [] v).1 st
  exact ⟨by decide +kernel, houtcome.trans (by decide +kernel)⟩

-- =============================================================== processes

variable {o : Course} {how : Command → Ending} {root : Tree}

/-- A group that nobody kills comes to the status of its first that failed. -/
theorem course_parallel (htold : ∀ c, told (how c) = .ok (how c)) (hkilled : ∀ q, o.killed q = none)
    (hprogram : ∀ q c, (root.sub? q).bind external? = some c → o.program q = how c)
    (ht : t.isParallel = true) {q : Position} (hsub : root.sub? q = some t) :
    t.course o q = some (.ok (firstFailing (t.commands.map how))) ∧
      Represents (o.ending t q (.ok (firstFailing (t.commands.map how)))) (t.commands.map how) ∧
      told (o.ending t q (.ok (firstFailing (t.commands.map how)))) =
        .ok (o.ending t q (.ok (firstFailing (t.commands.map how)))) := by
  induction t generalizing q with
  | leaf c =>
      have hx : (leaf c).external? = some c := external_leaf ht
      have hends := hprogram q c (by rw [hsub]; exact hx)
      rw [isParallel] at ht
      rw [course_external ht, Answers.ending, if_pos ht, hends]
      refine ⟨?_, .one _, htold c⟩
      rw [htold]
      exact congrArg (fun n => some (Except.ok n)) (Represents.one _).status
  | node op left right ihl ihr =>
      obtain ⟨rfl, hleft, hright⟩ := isParallel_node.mp ht
      obtain ⟨hcourse, hstands, htold'⟩ := ihl hleft (sub?_side hsub .left)
      obtain ⟨hcourse', hstands', htold''⟩ := ihr hright (sub?_side hsub .right)
      have hnode : (node .parallel left right).course o q =
          some (.ok (firstFailing ((node .parallel left right).commands.map how))) := by
        simp only [course, hcourse, hcourse', Option.getD_some, LineShell.both, htold', htold'']
        rw [commands, List.map_append, ← hstands.both hstands']
        rfl
      have hending (n : Int) : o.ending (node .parallel left right) q (.ok n) = .exited n := by
        rw [Answers.ending, if_neg (by exact Bool.false_ne_true), hkilled]
        rfl
      exact ⟨hnode, by rw [hending]; exact .exited _, by rw [hending]; rfl⟩

end Tree

namespace Watch

variable {ρ : Type} {result : Except ExecError Int → ρ} {programs : Installed ρ} {t : Tree}
  {depth : Nat} {parent : Option Operator} {m : Machine ρ} {f : Nat → Watch ρ}
  {table : List (String × Ending)} {status : Position → Int} {n : Nat} {x : ρ}

/-- Commands side by side in processes of their own: the shell comes to the status
of the first that did not exit with zero, and a process has been started for
each of them. -/
theorem Endless.returns_side_by_side
    (hprograms : ∀ name args, (programs name args).Respects .onward)
    (hb : m.Begins result t depth parent) (hf : Endless programs (begin t depth parent m) f)
    (hforeseen : Foreseen programs table status f) (hnamed : Recorded.Named table)
    (ht : t.isParallel = true) (h : (f n).machine.Returns Machine.mainPid x) :
    x = result (.ok (firstFailing
        (t.commands.map fun c => (table.lookup c.verb).getD (.exited 0)))) ∧
      (f n).started.Perm t.commands := by
  obtain ⟨⟨r, hcourse, rfl⟩, -⟩ := hf.returns_foreseen hprograms hb hforeseen h
  obtain ⟨hparallel, -⟩ := Tree.course_parallel (o := t.foreseen table status)
    (fun c => Recorded.told_of_named hnamed c.verb) (fun _ => rfl)
    (fun q c hc => by simp only [Tree.foreseen, hc, Option.elim_some]) ht (Tree.sub?_nil t)
  obtain rfl := Option.some.inj (hcourse.symm.trans hparallel)
  obtain ⟨s, hs, hp, hl⟩ := h
  have hstopped : (f n).Stopped Machine.mainPid := .inr ⟨s, hs, hp, _, Slot.of_result? hl⟩
  have hstarted := hf.started_foreseen hprograms hb hforeseen hstopped
  rw [Tree.externals_concurrent (fun _ => rfl) (Tree.isConcurrent_of_isParallel ht)
    (Tree.sub?_nil t)] at hstarted
  exact ⟨rfl, hstarted⟩

end Watch

end LineShell
