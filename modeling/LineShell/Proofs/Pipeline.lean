/-
Pipelines.

# What a pipeline comes to

A tree of `|` alone comes to the status of its last command, unless a branch is
seen to be killed. Of a branch that is a group this is never seen: it exits with
the status that the group came to. So a killed command counts where it is a
branch itself, and where the node that it is a branch of is the tree, or is
taken by right sides alone from there (`Tree.IsPipelineStatus`). A killed
command at the end counts by its status, which is a failure.

# Trees that lines have

A line has its operators grouped to the left. So where it is one pipeline, only
the last node is on the right spine of its tree, and of the commands on the left
of it only one that is alone there can count: the first of two.

# Processes

A run with processes takes the course of its tree. So the shell comes to the
same status there (`Watch.Endless.returns_pipeline`).
-/
import LineShell.Proofs.Grammar.Reader
import LineShell.Proofs.Launch.Double
import LineShell.Proofs.Rehearsal.Tended

namespace LineShell

open Posix

variable {σ : Type}

-- =============================================================== two endings

/-- Who was killed has failed. -/
theorem Ending.status_of_isAbnormal {e : Ending} (h : e.isAbnormal = true) :
    e.status = exitFailure := by
  cases e with
  | exited code => cases h
  | signaled n => rfl

/-- Of two stages the second decides, unless the first was killed. -/
theorem Walk.pipeStatus_eq (e e' : Ending) :
    pipeStatus e e' = if e.isAbnormal then exitFailure else e'.status := by
  unfold pipeStatus
  cases e.isAbnormal with
  | true => rfl
  | false =>
      cases h : e'.isAbnormal with
      | true => exact (Ending.status_of_isAbnormal h).symm
      | false => rfl

-- ========================================================== trees of `|` alone

namespace Tree

/-- Is the tree made of `|` over external commands? -/
def isPipeline : Tree → Bool
  | t@(leaf _) => t.external?.isSome
  | node op l r => op == .pipe && l.isPipeline && r.isPipeline

theorem isPipeline_node {op : Operator} {l r : Tree} : (node op l r).isPipeline = true ↔
    op = .pipe ∧ l.isPipeline = true ∧ r.isPipeline = true := by
  simp [isPipeline, and_assoc]

theorem isConcurrent_of_isPipeline {t : Tree} (ht : t.isPipeline = true) :
    t.isConcurrent = true := by
  induction t with
  | leaf c => exact ht
  | node op left right ihl ihr =>
      obtain ⟨rfl, hleft, hright⟩ := isPipeline_node.mp ht
      exact Bool.and_eq_true_iff.mpr ⟨ihl hleft, ihr hright⟩

/-- The status of a pipeline, by how the commands at its positions end: node by
node down the right spine. -/
def pipelineStatus : Tree → (Position → Ending) → Int
  | leaf _, how => (how []).status
  | node _ l r, how =>
      if l.external?.isSome && (how [.left]).isAbnormal then exitFailure
      else r.pipelineStatus fun p => how (.right :: p)

/-- A command was killed that is the left side of a node on the right spine. -/
def FeederKilled (t : Tree) (how : Position → Ending) : Prop :=
  ∃ i c, t.sub? (List.replicate i .right ++ [.left]) = some (leaf c) ∧
    (how (List.replicate i .right ++ [.left])).isAbnormal = true

/-- The status of a pipeline, as a whole: a failure if such a command was killed,
and else the status of the last command. -/
structure IsPipelineStatus (t : Tree) (how : Position → Ending) (n : Int) : Prop where
  killed : t.FeederKilled how → n = exitFailure
  spared : ¬t.FeederKilled how → ∃ k c, t.sub? (List.replicate k .right) = some (leaf c) ∧
    n = (how (List.replicate k .right)).status

variable {t left right : Tree} {how : Position → Ending} {op : Operator}

theorem feederKilled_node : (node op left right).FeederKilled how ↔
    (∃ c, left = leaf c) ∧ (how [.left]).isAbnormal = true ∨
      right.FeederKilled fun p => how (.right :: p) := by
  constructor
  · rintro ⟨i, c, hsub, hkilled⟩
    cases i with
    | zero =>
        have hleft : left.sub? [] = some (leaf c) := hsub
        rw [sub?_nil] at hleft
        exact .inl ⟨⟨c, Option.some.inj hleft⟩, hkilled⟩
    | succ i => exact .inr ⟨i, c, hsub, hkilled⟩
  · rintro (⟨⟨c, rfl⟩, hkilled⟩ | ⟨i, c, hsub, hkilled⟩)
    · exact ⟨0, c, rfl, hkilled⟩
    · exact ⟨i + 1, c, hsub, hkilled⟩

theorem isPipelineStatus_pipelineStatus (ht : t.isPipeline = true) (how : Position → Ending) :
    t.IsPipelineStatus how (t.pipelineStatus how) := by
  induction t generalizing how with
  | leaf c =>
      refine ⟨fun ⟨i, c', hsub, _⟩ => ?_, fun _ => ⟨0, c, rfl, rfl⟩⟩
      cases i with
      | zero => cases hsub
      | succ i => cases hsub
  | node op left right _ ih =>
      obtain ⟨rfl, hleft, hright⟩ := isPipeline_node.mp ht
      obtain ⟨hkilled, hspared⟩ := ih hright fun p => how (.right :: p)
      have hleaf : left.external?.isSome = true ↔ ∃ c, left = leaf c := by
        cases left with
        | leaf c => exact iff_of_true hleft ⟨c, rfl⟩
        | node => exact iff_of_false Bool.false_ne_true nofun
      rw [pipelineStatus]
      constructor
      · intro h
        rw [feederKilled_node, ← hleaf] at h
        split
        · rfl
        · next hnot => exact hkilled (h.resolve_left fun hl => hnot (by simp [hl]))
      · intro h
        rw [feederKilled_node, not_or, ← hleaf, ← Bool.and_eq_true] at h
        rw [if_neg h.1]
        obtain ⟨k, c, hsub, hn⟩ := hspared h.2
        exact ⟨k + 1, c, hsub, hn⟩

-- ============================================================== rehearsals

/-- The status fits how the commands ended that were started. -/
def FitsPipeline (t : Tree) (q : Position) (kids : List Kid) (n : Int) : Prop :=
  ∀ how : Position → Ending, (∀ k ∈ kids, how k.site = k.ending) →
    n = t.pipelineStatus fun p => how (q ++ p)

variable {l : Launcher σ} {g : Roster σ} {q : Position} {kids : List Kid} {e : Ending}

/-- A branch is seen to be killed if it is a command that was. -/
theorem BranchEnds.isAbnormal (h : t.BranchEnds t.FitsPipeline q kids e)
    (hhow : ∀ k ∈ kids, how k.site = k.ending) :
    e.isAbnormal = (t.external?.isSome && (how (q ++ [])).isAbnormal) := by
  cases h with
  | @program k hx hsite =>
      rw [hx, Bool.true_and, List.append_nil, ← hsite, hhow k (List.mem_singleton_self k)]
  | group hx => rw [hx]; rfl

/-- Its status is that of the pipeline that it runs. -/
theorem BranchEnds.status (h : t.BranchEnds t.FitsPipeline q kids e)
    (hhow : ∀ k ∈ kids, how k.site = k.ending) :
    e.status = t.pipelineStatus fun p => how (q ++ p) := by
  cases h with
  | @program k hx hsite =>
      cases t with
      | leaf c =>
          rw [pipelineStatus, List.append_nil, ← hsite, hhow k (List.mem_singleton_self k)]
      | node => cases hx
  | group _ hfits => exact hfits how hhow

theorem resolves_pipe (hl : l.Tells g) (hc : l.Connects g)
    (hleft : left.Resolves l g left.FitsPipeline) (hright : right.Resolves l g right.FitsPipeline) :
    (node .pipe left right).Resolves l g (node .pipe left right).FitsPipeline := by
  intro depth parent q st v n st' v' hsound h
  obtain ⟨ch, st₀, v₀, es, child, child', st₁, v₁, e, st₂, e', hmade, hstarted, hwait, hwait', rfl,
    hevents⟩ := Walk.pipe_of_finished h
  obtain ⟨st₃, hconnect, rfl⟩ := Launcher.of_made hmade
  have hconnected := hc.connect hsound hconnect
  have hbefore := hconnected.trans (hc.connected ch hconnected.sound)
  obtain ⟨kids, kids', htends, hends, hends'⟩ := tends_both hl hleft hright .pipe rfl rfl
    hbefore.sound hstarted (hc.released ch) hwait hwait'
  refine ⟨kids ++ kids', (htends.after hbefore).of_events ?_ (fun other => ?_) ?_,
    fun how hhow => ?_⟩
  · rw [hevents]
    simp [List.filterMap_cons, Event.start?]
  · rw [hevents]
    simp [List.filterMap_cons, Event.waitFor?]
  · rw [hevents]
    simp [List.filterMap_cons, Event.waits?]
  · have hhow₁ : ∀ k ∈ kids, how k.site = k.ending :=
      fun k hk => hhow k (List.mem_append_left _ hk)
    have hhow₂ : ∀ k ∈ kids', how k.site = k.ending :=
      fun k hk => hhow k (List.mem_append_right _ hk)
    rw [Walk.pipeStatus_eq, hends.isAbnormal hhow₁, hends'.status hhow₂, pipelineStatus]
    simp only [List.append_assoc, List.cons_append, List.nil_append]

theorem resolves_pipeline (hl : l.Tells g) (hc : l.Connects g) {t : Tree}
    (ht : t.isPipeline = true) : t.Resolves l g t.FitsPipeline := by
  induction t with
  | leaf c =>
      refine resolves_leaf hl ht fun k how hhow => ?_
      rw [pipelineStatus, List.append_nil, hhow k (List.mem_singleton_self k)]
  | node op left right ihl ihr =>
      obtain ⟨rfl, hleft, hright⟩ := isPipeline_node.mp ht
      exact resolves_pipe hl hc (ihl hleft) (ihr hright)

/-- Where nothing fails, the commands are tended, and the status is that of the
pipeline. -/
theorem pipeline_of_calm (hl : l.Tells g) (hc : l.Connects g) (ht : t.isPipeline = true)
    (depth : Nat) (parent : Option Operator) {st : σ} (hsound : g.sound st) (v : View)
    (hcalls : Event.firstFailure ((Walk.execute t depth parent).events l st v) = none) :
    ∃ kids n, t.Tended [] ((Walk.execute t depth parent).events l st v) kids ∧
      List.Forall₂ g.ends t.commands (kids.map Kid.ending) ∧
      ((Walk.execute t depth parent).rehearse l st v).1 = .finished n ∧
      ∀ how, (∀ k ∈ kids, how k.site = k.ending) → t.IsPipelineStatus how n := by
  obtain ⟨n, st', v', hfinished⟩ := Walk.finished_of_calm hcalls
    (Walk.stays_concurrent (isConcurrent_of_isPipeline ht) depth parent [] st v)
  obtain ⟨kids, htends, hfits⟩ := resolves_pipeline hl hc ht _ _ _ _ _ _ _ _ hsound hfinished
  refine ⟨kids, n, htends.tended, htends.ends, congrArg Prod.fst hfinished, fun how hhow => ?_⟩
  rw [hfits how hhow]
  exact isPipelineStatus_pipelineStatus ht how

-- =================================================================== lines

/-- The pipeline of some commands as a line has it. -/
def pipelineOf (c : Command) (cs : List Command) : Tree :=
  cs.foldl (fun t c => node .pipe t (leaf c)) (leaf c)

/-- A pipeline that needs no parentheses is grouped to the left. -/
theorem exists_pipelineOf (ht : t.isPipeline = true) (hshaped : t.Shaped) :
    ∃ c cs, t = pipelineOf c cs := by
  induction t with
  | leaf c => exact ⟨c, [], rfl⟩
  | node op left right ihl _ =>
      obtain ⟨rfl, hleft, hright⟩ := isPipeline_node.mp ht
      obtain ⟨-, htighter, hshaped, -⟩ := hshaped
      obtain ⟨c, cs, rfl⟩ := ihl hleft hshaped
      cases right with
      | leaf c' => exact ⟨c, cs ++ [c'], by rw [pipelineOf, pipelineOf, List.foldl_concat]⟩
      | node op' l r =>
          -- a second `|` on the right would need parentheses
          obtain ⟨rfl, -⟩ := isPipeline_node.mp hright
          exact absurd htighter (Nat.lt_irrefl _)

theorem pipelineOf_concat (c : Command) (cs : List Command) (c' : Command) :
    pipelineOf c (cs ++ [c']) = node .pipe (pipelineOf c cs) (leaf c') := List.foldl_concat ..

/-- Of two commands, the first counts if it was killed. -/
theorem IsPipelineStatus.of_two {c c' : Command} {n : Int}
    (h : (pipelineOf c [c']).IsPipelineStatus how n) (hkilled : (how [.left]).isAbnormal = true) :
    n = exitFailure := h.killed ⟨0, c, rfl, hkilled⟩

/-- Of more commands, the last one alone counts. -/
theorem IsPipelineStatus.of_more {c c' c'' : Command} {cs : List Command} {n : Int}
    (h : (pipelineOf c (cs ++ [c'] ++ [c''])).IsPipelineStatus how n) :
    n = (how [.right]).status := by
  rw [pipelineOf_concat, pipelineOf_concat] at h
  have hspared :
      ¬FeederKilled (node .pipe (node .pipe (pipelineOf c cs) (leaf c')) (leaf c'')) how := by
    rw [feederKilled_node]
    rintro (⟨⟨_, hleaf⟩, -⟩ | ⟨i, _, hsub, -⟩)
    · cases hleaf
    · cases i <;> cases hsub
  obtain ⟨k, d, hsub, rfl⟩ := h.spared hspared
  match k with
  | 0 => cases hsub
  | 1 => rfl
  | k + 2 => cases hsub

-- ========================================================= the main result

/-- How the commands at the positions of a tree end by a table. -/
def endings (t : Tree) (table : List (String × Ending)) (p : Position) : Ending :=
  ((t.sub? p).bind external?).elim (.exited 0) fun c => (table.lookup c.verb).getD (.exited 0)

/-- The status of a pipeline, however it is bracketed, is that of a failure if a
command was killed that is the left side of a node on the right spine, and else
that of the last command. So it is with the recording launcher and all endings
that it may have for the programs, and with the scripted launcher, if nothing
fails. If a line has the pipeline, it is grouped to the left: of two commands the
first one counts if it was killed, and of more of them the last one alone does. -/
theorem pipeline_status (ht : t.isPipeline = true) (depth : Nat) (parent : Option Operator)
    (v : View) :
    (∀ st : Recorded.State,
      let w := Walk.execute t depth parent
      Event.firstFailure (w.events Recorded.launcher st v) = none →
      ∃ n, (w.rehearse Recorded.launcher st v).1 = .finished n ∧
        t.IsPipelineStatus (t.endings st.endings) n) ∧
    (∀ st : Scripted.State,
      let w := Walk.execute t depth parent
      Event.firstFailure (w.events Scripted.launcher st v) = none →
      ∃ kids how n, t.Tended [] (w.events Scripted.launcher st v) kids ∧
        List.Forall₂ (fun c e => st.script.MayEnd c.verb e) t.commands (kids.map Kid.ending) ∧
        (∀ k ∈ kids, how k.site = k.ending) ∧
        (w.rehearse Scripted.launcher st v).1 = .finished n ∧ t.IsPipelineStatus how n) ∧
    ∀ line, Tree.parse line = .ok (some t) →
      ∃ c cs, t = pipelineOf c cs ∧ ∀ how n, t.IsPipelineStatus how n →
        (cs.length = 1 → (how [.left]).isAbnormal = true → n = exitFailure) ∧
        (2 ≤ cs.length → n = (how [.right]).status) := by
  refine ⟨?_, ?_, fun line hline => ?_⟩
  · intro st w hcalls
    obtain ⟨kids, n, htended, hends, hfinished, hstatus⟩ :=
      pipeline_of_calm (Recorded.launcher_tells st.endings) (Recorded.launcher_connects st.endings)
        ht depth parent rfl v hcalls
    refine ⟨n, hfinished, hstatus _ fun k hk => ?_⟩
    obtain ⟨r, hsite, hsub⟩ := htended.sub? hk
    have hx := external_leaf (isConcurrent_sub? (isConcurrent_of_isPipeline ht) hsub)
    rw [hsite, List.nil_append, endings, hsub, Option.bind_some, hx]
    exact (htended.ends_of hends hk).symm
  · intro st w hcalls
    obtain ⟨kids, n, htended, hends, hfinished, hstatus⟩ :=
      pipeline_of_calm (Scripted.launcher_tells st.script) (Scripted.launcher_connects st.script)
        ht depth parent rfl v hcalls
    obtain ⟨how, hhow⟩ := htended.exists_how
    exact ⟨kids, how, n, htended, hends, hhow, hfinished, hstatus how hhow⟩
  · obtain ⟨-, ts, -, hshaped, -⟩ := Tree.parse_eq_some_iff.mp hline
    obtain ⟨c, cs, rfl⟩ := exists_pipelineOf ht hshaped
    refine ⟨c, cs, rfl, fun how n h => ⟨fun hone hkilled => ?_, fun hmore => ?_⟩⟩
    · obtain ⟨c', rfl⟩ := List.length_eq_one_iff.mp hone
      exact h.of_two hkilled
    · rcases List.eq_nil_or_concat' cs with rfl | ⟨cs, c'', rfl⟩
      · cases hmore
      rcases List.eq_nil_or_concat' cs with rfl | ⟨cs, c', rfl⟩
      · exact absurd hmore (Nat.lt_irrefl 1)
      exact h.of_more

/-- `a | (b | c) | (d | e)`, where `b` is killed and so is `d`: `b` stands in a group
that is not, and `d` decides. -/
theorem pipeline_status_nested :
    let program (verb : String) := leaf (.ofWords [verb])
    let t : Tree := node .pipe
      (node .pipe (program "a") (node .pipe (program "b") (program "c")))
      (node .pipe (program "d") (program "e"))
    let st : Recorded.State :=
      { endings := [("b", .signaled 9), ("d", .signaled 13), ("e", .exited 3)] }
    let v : View := { process := {}, world := { tree := .empty } }
    t.isPipeline = true ∧
      ((Walk.execute t 0 none).rehearse Recorded.launcher st v).1 = .finished exitFailure := by
  intro program t st v
  obtain ⟨n, hfinished, hstatus⟩ :=
    (pipeline_status (t := t) (by decide +kernel) 0 none v).1 st (by decide +kernel)
  have hkilled : t.FeederKilled (t.endings st.endings) :=
    ⟨1, .ofWords ["d"], by decide +kernel, by decide +kernel⟩
  exact ⟨by decide +kernel, hfinished.trans (congrArg _ (hstatus.killed hkilled))⟩

-- =============================================================== processes

/-- The course of a pipeline in which nobody is killed but the commands. -/
theorem course_pipeline {o : Course} (htold : ∀ q, told (o.program q) = .ok (o.program q))
    (hkilled : ∀ q, o.killed q = none) (hchannel : ∀ q, o.channel q = none)
    (ht : t.isPipeline = true) (q : Position) :
    t.course o q = some (.ok (t.pipelineStatus fun p => o.program (q ++ p))) := by
  have hending (u : Tree) (q : Position) (n : Int) : o.ending u q (.ok n) =
      if u.external?.isSome then o.program q else .exited n := by
    rw [Answers.ending, hkilled]
    rfl
  induction t generalizing q with
  | leaf c =>
      rw [course_external ht, htold, pipelineStatus, List.append_nil]
      rfl
  | node op left right ihl ihr =>
      obtain ⟨rfl, hleft, hright⟩ := isPipeline_node.mp ht
      have htold' (u : Tree) (q : Position) (n : Int) :
          told (o.ending u q (.ok n)) = .ok (o.ending u q (.ok n)) := by
        rw [hending]
        split
        · exact htold q
        · rfl
      have hfirst (n : Int) : (o.ending left (q ++ [.left]) (.ok n)).isAbnormal =
          (left.external?.isSome && (o.program (q ++ [.left])).isAbnormal) := by
        rw [hending]
        cases left.external?.isSome <;> rfl
      have hsecond : (o.ending right (q ++ [.right])
            (.ok (right.pipelineStatus fun p => o.program (q ++ [.right] ++ p)))).status =
          right.pipelineStatus fun p => o.program (q ++ [.right] ++ p) := by
        rw [hending]
        cases right with
        | leaf c =>
            have hx : (leaf c).external?.isSome = true := hright
            rw [if_pos hx, pipelineStatus, List.append_nil]
        | node op' l r => rfl
      simp only [course, ihl hleft, ihr hright, Option.getD_some, hchannel, LineShell.both, htold']
      refine congrArg (fun n => some (Except.ok n)) ?_
      rw [Walk.pipeStatus_eq, hfirst, hsecond, pipelineStatus]
      simp only [List.append_assoc, List.cons_append, List.nil_append]

end Tree

namespace Watch

variable {ρ : Type} {result : Except ExecError Int → ρ} {programs : Installed ρ} {t : Tree}
  {depth : Nat} {parent : Option Operator} {m : Machine ρ} {f : Nat → Watch ρ}
  {table : List (String × Ending)} {status : Position → Int} {n : Nat} {x : ρ}

/-- A pipeline in processes of its own: the shell comes to the same status, and a
process has been started for each of the commands. -/
theorem Endless.returns_pipeline
    (hprograms : ∀ name args, (programs name args).Respects .onward)
    (hb : m.Begins result t depth parent) (hf : Endless programs (begin t depth parent m) f)
    (hforeseen : Foreseen programs table status f) (hnamed : Recorded.Named table)
    (ht : t.isPipeline = true) (h : (f n).machine.Returns Machine.mainPid x) :
    (∃ k, x = result (.ok k) ∧ t.IsPipelineStatus (t.endings table) k) ∧
      (f n).started.Perm t.commands := by
  obtain ⟨⟨r, hcourse, rfl⟩, -⟩ := hf.returns_foreseen hprograms hb hforeseen h
  have htold (q : Position) : told (t.endings table q) = .ok (t.endings table q) := by
    unfold Tree.endings
    cases (t.sub? q).bind Tree.external? with
    | none => rfl
    | some c => exact Recorded.told_of_named hnamed c.verb
  have hpipeline := Tree.course_pipeline (o := t.foreseen table status) htold (fun _ => rfl)
    (fun _ => rfl) ht []
  obtain rfl := Option.some.inj (hcourse.symm.trans hpipeline)
  obtain ⟨s, hs, hp, hl⟩ := h
  have hstopped : (f n).Stopped Machine.mainPid := .inr ⟨s, hs, hp, _, Slot.of_result? hl⟩
  have hstarted := hf.started_foreseen hprograms hb hforeseen hstopped
  rw [Tree.externals_concurrent (fun _ => rfl) (Tree.isConcurrent_of_isPipeline ht)
    (Tree.sub?_nil t)] at hstarted
  exact ⟨⟨_, rfl, Tree.isPipelineStatus_pipelineStatus ht _⟩, hstarted⟩

end Watch

end LineShell
