/-
Rehearsals that finish.

# Calls that succeed

A walk never comes to a status after a call that failed. So from the status
that a rehearsal finishes with it can be read off which calls it made, and
that each of them succeeded: of a branch, that it was started
(`Launcher.entered`) and came to a child (`Launcher.returned`); of a channel,
that it was made (`Launcher.made`); of a wait, what it was told.

# Operators

Where `&` or `|` finishes, both branches were started, one after the other
(`Walk.Started`), and both were waited for. Where `;`, `&&` or `||` finishes,
the left side did, and then the right one, or it was left out.
-/
import LineShell.Proofs.Rehearsal.Halt
import LineShell.Proofs.Walk.Course
import LineShell.Proofs.Walk.Sequence

namespace LineShell

open Posix

variable {σ : Type}

-- ================================================================ branches

namespace Launcher

variable (l : Launcher σ)

/-- Where a branch is started, if it can be. -/
def entered (request : ForkRequest) (st : σ) : Option σ :=
  match l.enter request st with
  | (.error _, _) => none
  | (.ok (), st) => some st

/-- The child that a branch came to, and where its parent goes on. -/
def returned (t : Tree) (branch : Walk) (st : σ) (v : View) : Option (Child × σ × View) :=
  match t.external? with
  | some c =>
      let (child, st) := l.exec c st
      some (child, st, v)
  | none =>
      match branch.rehearse l st v with
      | (.finished n, st, after) =>
          let (child, st) := l.finish n st
          some (child, st, l.leaveBranch v after)
      | (.failed _, _, _) | (.left, _, _) => none

/-- A channel, if it can be made, and where the process goes on. -/
def made (st : σ) (v : View) : Option (Channel × σ × View) :=
  match l.connect st with
  | (.error _, _) => none
  | (.ok (), st) =>
      match Call.pipe.attempt v with
      | (.error _, _) => none
      | (.ok (r, w), v) => some (⟨r, w⟩, l.connected ⟨r, w⟩ st, v)

theorem of_made {l : Launcher σ} {st st' : σ} {v v' : View} {ch : Channel}
    (h : l.made st v = some (ch, st', v')) :
    ∃ st₁, l.connect st = (.ok (), st₁) ∧ st' = l.connected ch st₁ := by
  unfold made at h
  split at h
  · cases h
  · next st₁ hconnect =>
    split at h
    · cases h
    · cases h
      exact ⟨st₁, hconnect, rfl⟩

theorem enter_of_entered {l : Launcher σ} {request : ForkRequest} {st st' : σ}
    (h : l.entered request st = some st') : l.enter request st = (.ok (), st') := by
  unfold entered at h
  split at h
  · cases h
  · next heq =>
    cases h
    exact heq

theorem finished_of_returned {l : Launcher σ} {t : Tree} {branch : Walk} {st : σ} {v : View} {r : Child × σ × View}
    (hx : ¬t.external?.isSome) (h : l.returned t branch st v = some r) :
    ∃ n st' v', branch.rehearse l st v = (.finished n, st', v') := by
  unfold returned at h
  rw [Option.not_isSome_iff_eq_none.mp hx] at h
  simp only at h
  split at h
  · next heq => exact ⟨_, _, _, heq⟩
  · cases h
  · cases h

end Launcher

-- ========================================================= calls that succeed

namespace Walk

variable {l : Launcher σ} {st st' : σ} {v v' : View} {n : Int} {q : Position} {t : Tree}

/-- The events of a branch: none where it is an external command. -/
def branchEvents (l : Launcher σ) (t : Tree) (branch : Walk) (st : σ) (v : View) : List Event :=
  if t.external?.isSome then [] else branch.events l st v

/-- The walk does not finish, whatever is answered. -/
def Stuck (l : Launcher σ) (w : Walk) : Prop :=
  ∀ st v n st' v', w.rehearse l st v ≠ (.finished n, st', v')

theorem stuck_failed (l : Launcher σ) (e : ExecError) : (failed e).Stuck l := nofun

theorem stuck_release {ch : Channel} {w : Walk} (h : w.Stuck l) : (release ch w).Stuck l :=
  fun _ _ => h _ _

theorem stuck_wait {child : Child} {next : Except ExecError Ending → Walk}
    (h : ∀ r, (next r).Stuck l) : (wait child next).Stuck l := fun _ _ => h _ _ _

/-- Where a rehearsal finishes, a fork that must not fail did not: a branch was
started, and came to a child. -/
theorem fork_of_finished {depth : Nat} {op : Operator} {wiring : Wiring} {branch : Walk}
    {next : Except ExecError Child → Walk} (hfails : ∀ e, (next (.error e)).Stuck l)
    (h : (fork q t depth op wiring branch next).rehearse l st v = (.finished n, st', v')) :
    ∃ st₁ child st₂ v₂, l.entered ⟨t, depth, op, wiring⟩ st = some st₁ ∧
      l.returned t branch st₁ v = some (child, st₂, v₂) ∧
      (next (.ok child)).rehearse l st₂ v₂ = (.finished n, st', v') ∧
      (fork q t depth op wiring branch next).events l st v =
        .asked q ⟨t, depth, op, wiring⟩ :: branchEvents l t branch st₁ v ++
          .answered (.fork q t depth op wiring (.ok child)) ::
            (next (.ok child)).events l st₂ v₂ := by
  rcases fork_cases l q t depth op wiring branch st v with
    ⟨within, st₀, v₀, r, st₂, v₂, hanswer, hgoes⟩ | ⟨_, _, _, -, -, -, hleft⟩
  · rw [(hgoes next).1] at h
    unfold Launcher.entered Launcher.returned branchEvents events
    rw [(hgoes next).2]
    cases hanswer with
    | refused | failed => exact absurd h (hfails _ _ _ _ _ _)
    | program henter hx =>
        refine ⟨_, _, _, _, by rw [henter], by simp only [hx], h, ?_⟩
        simp [hx]
    | finished henter hx hrun =>
        refine ⟨_, _, _, _, by rw [henter], by simp only [hx, hrun], h, ?_⟩
        simp [hx]
  · rw [(hleft next).1] at h
    cases h

/-- Likewise a channel was made. -/
theorem channel_of_finished {next : Except ExecError Channel → Walk}
    (hfails : ∀ e, (next (.error e)).Stuck l)
    (h : (channel q next).rehearse l st v = (.finished n, st', v')) :
    ∃ ch st₁ v₁, l.made st v = some (ch, st₁, v₁) ∧
      (next (.ok ch)).rehearse l st₁ v₁ = (.finished n, st', v') ∧
      (channel q next).events l st v =
        .answered (.channel q (.ok ch)) :: (next (.ok ch)).events l st₁ v₁ := by
  obtain ⟨r, st₁, v₁, hanswer, hgoes⟩ := channel_cases l q st v
  rw [(hgoes next).1] at h
  unfold Launcher.made events
  rw [(hgoes next).2]
  cases hanswer with
  | refused | unmade => exact absurd h (hfails _ _ _ _ _ _)
  | made hconnect hpipe => exact ⟨_, _, _, by simp only [hconnect, hpipe], h, rfl⟩

/-- Where a rehearsal finishes, what is waited for is told. -/
theorem wait_of_finished {child : Child} {next : Except ExecError Ending → Walk}
    (hfails : ∀ e, (next (.error e)).Stuck l)
    (h : (wait child next).rehearse l st v = (.finished n, st', v')) :
    ∃ e st₁, l.wait child st = (.ok e, st₁) ∧
      (next (.ok e)).rehearse l st₁ v = (.finished n, st', v') ∧
      (wait child next).events l st v =
        .answered (.wait child (.ok e)) :: (next (.ok e)).events l st₁ v := by
  unfold events
  simp only [rehearse, trace] at h ⊢
  cases hr : (l.wait child st).1 with
  | error e =>
      rw [hr] at h
      exact absurd h (hfails e _ _ _ _ _)
  | ok e =>
      rw [hr] at h
      exact ⟨e, (l.wait child st).2, Prod.ext hr rfl, h, rfl⟩

/-- Likewise what is launched is started. -/
theorem launch_of_finished {c : Command} {next : Except ExecError Child → Walk}
    (hfails : ∀ e, (next (.error e)).Stuck l)
    (h : (launch q c next).rehearse l st v = (.finished n, st', v')) :
    ∃ child st₁, l.launch c st = (.ok child, st₁) ∧
      (next (.ok child)).rehearse l st₁ v = (.finished n, st', v') ∧
      (launch q c next).events l st v =
        .answered (.launch q c (.ok child)) :: (next (.ok child)).events l st₁ v := by
  unfold events
  simp only [rehearse, trace] at h ⊢
  cases hr : (l.launch c st).1 with
  | error e =>
      rw [hr] at h
      exact absurd h (hfails e _ _ _ _ _)
  | ok child =>
      rw [hr] at h
      exact ⟨child, (l.launch c st).2, Prod.ext hr rfl, h, rfl⟩

/-- Where a program is run that finishes, it was started and waited for. -/
theorem program_of_finished {c : Command}
    (h : (runProgram q c).rehearse l st v = (.finished n, st', v')) :
    ∃ child st₁ e, l.launch c st = (.ok child, st₁) ∧ l.wait child st₁ = (.ok e, st') ∧
      n = e.status ∧ (runProgram q c).events l st v =
        [.answered (.launch q c (.ok child)), .answered (.wait child (.ok e))] := by
  obtain ⟨child, st₁, hlaunch, hnext, hevents⟩ :=
    launch_of_finished (fun e => stuck_failed l e) h
  obtain ⟨e, st₂, hwait, hdone, hevents'⟩ := wait_of_finished (fun e => stuck_failed l e) hnext
  cases hdone
  exact ⟨child, st₁, e, hlaunch, hwait, rfl, hevents.trans (congrArg (_ :: ·) hevents')⟩

/-- Two branches are started, one after the other, and come to children. -/
inductive Started (l : Launcher σ) (q : Position) (first second : ForkRequest)
    (onFirst onSecond : Walk) (st : σ) (v : View) :
    List Event → Child → Child → σ → View → Prop where
  | intro {st₁ st₂ st₃ st₄ : σ} {child child' : Child} {v₂ v₄ : View} :
      l.entered first st = some st₁ →
      l.returned first.tree onFirst st₁ v = some (child, st₂, v₂) →
      l.entered second st₂ = some st₃ →
      l.returned second.tree onSecond st₃ v₂ = some (child', st₄, v₄) →
      Started l q first second onFirst onSecond st v
        (.asked (q ++ [.left]) first :: branchEvents l first.tree onFirst st₁ v ++
          .answerTo (q ++ [.left]) first (.ok child) ::
            (.asked (q ++ [.right]) second :: branchEvents l second.tree onSecond st₃ v₂ ++
              [.answerTo (q ++ [.right]) second (.ok child')]))
        child child' st₄ v₄

theorem started_of_finished (first second : ForkRequest) {onFirst onSecond : Walk}
    {fails : ExecError → Walk} {fails' : Child → ExecError → Walk} {k : Child → Child → Walk}
    (hfails : ∀ e, (fails e).Stuck l) (hfails' : ∀ child e, (fails' child e).Stuck l)
    (h : (fork (q ++ [.left]) first.tree first.depth first.parent first.wiring onFirst fun
      | .error e => fails e
      | .ok child =>
          fork (q ++ [.right]) second.tree second.depth second.parent second.wiring onSecond fun
            | .error e => fails' child e
            | .ok child' => k child child').rehearse l st v = (.finished n, st', v')) :
    ∃ es child child' st₁ v₁, Started l q first second onFirst onSecond st v es child child' st₁ v₁ ∧
      (k child child').rehearse l st₁ v₁ = (.finished n, st', v') ∧
      (fork (q ++ [.left]) first.tree first.depth first.parent first.wiring onFirst fun
        | .error e => fails e
        | .ok child =>
            fork (q ++ [.right]) second.tree second.depth second.parent second.wiring onSecond fun
              | .error e => fails' child e
              | .ok child' => k child child').events l st v
        = es ++ (k child child').events l st₁ v₁ := by
  obtain ⟨st₁, child, st₂, v₂, henter, hreturn, hnext, hevents⟩ := fork_of_finished hfails h
  obtain ⟨st₃, child', st₄, v₄, henter', hreturn', hlast, hevents'⟩ :=
    fork_of_finished (hfails' child) hnext
  refine ⟨_, child, child', st₄, v₄, .intro henter hreturn henter' hreturn', hlast, ?_⟩
  rw [hevents, hevents']
  simp [Event.answerTo]

theorem waitBoth_of_finished {first second : Child} {k : Ending → Ending → Walk}
    (h : (waitBoth first second k).rehearse l st v = (.finished n, st', v')) :
    ∃ e st₁ e' st₂, l.wait first st = (.ok e, st₁) ∧ l.wait second st₁ = (.ok e', st₂) ∧
      (k e e').rehearse l st₂ v = (.finished n, st', v') ∧
      (waitBoth first second k).events l st v =
        .answered (.wait first (.ok e)) :: .answered (.wait second (.ok e')) ::
          (k e e').events l st₂ v := by
  obtain ⟨e, st₁, hwait, hnext, hevents⟩ :=
    wait_of_finished (fun e => stuck_wait fun _ => stuck_failed l e) h
  obtain ⟨e', st₂, hwait', hlast, hevents'⟩ := wait_of_finished (fun e => stuck_failed l e) hnext
  exact ⟨e, st₁, e', st₂, hwait, hwait', hlast, by rw [waitBoth, hevents, hevents']⟩

variable {left right : Tree} {depth : Nat} {parent : Option Operator}

-- =============================================================== operators

/-- Where `left & right` finishes, both branches were started and waited for. -/
theorem parallel_of_finished
    (h : (execute (.node .parallel left right) depth parent q).rehearse l st v
      = (.finished n, st', v')) :
    ∃ es child child' st₁ v₁ e st₂ e',
      Started l q ⟨left, depth + 1, .parallel, .inherit⟩ ⟨right, depth + 1, .parallel, .inherit⟩
        (execute left (depth + 1) (some .parallel) (q ++ [.left]))
        (execute right (depth + 1) (some .parallel) (q ++ [.right])) st
        (v.note .debug (heading (.node .parallel left right) depth parent)) es child child' st₁ v₁ ∧
      l.wait child st₁ = (.ok e, st₂) ∧ l.wait child' st₂ = (.ok e', st') ∧
      n = parallelStatus e e' ∧
      (execute (.node .parallel left right) depth parent q).events l st v =
        es ++ [.answered (.wait child (.ok e)), .answered (.wait child' (.ok e'))] := by
  obtain ⟨es, child, child', st₁, v₁, hstarted, hlast, hevents⟩ := started_of_finished
    ⟨left, depth + 1, .parallel, .inherit⟩ ⟨right, depth + 1, .parallel, .inherit⟩
    (fun e => stuck_failed l e) (fun child e => stuck_wait fun _ => stuck_failed l e) h
  obtain ⟨e, st₂, e', st₃, hwait, hwait', hdone, hevents'⟩ := waitBoth_of_finished hlast
  cases hdone
  exact ⟨es, child, child', st₁, v₁, e, st₂, e', hstarted, hwait, hwait', rfl,
    hevents.trans (congrArg (es ++ ·) hevents')⟩

/-- Where `left | right` finishes, a channel was made as well, and given up before
the waits. -/
theorem pipe_of_finished
    (h : (execute (.node .pipe left right) depth parent q).rehearse l st v
      = (.finished n, st', v')) :
    ∃ ch st₀ v₀ es child child' st₁ v₁ e st₂ e',
      l.made st (v.note .debug (heading (.node .pipe left right) depth parent))
        = some (ch, st₀, v₀) ∧
      Started l q ⟨left, depth + 1, .pipe, .writer ch⟩ ⟨right, depth + 1, .pipe, .reader ch⟩
        (execute left (depth + 1) (some .pipe) (q ++ [.left]))
        (execute right (depth + 1) (some .pipe) (q ++ [.right])) st₀ v₀ es child child' st₁ v₁ ∧
      l.wait child (l.released ch st₁) = (.ok e, st₂) ∧ l.wait child' st₂ = (.ok e', st') ∧
      n = pipeStatus e e' ∧
      (execute (.node .pipe left right) depth parent q).events l st v =
        .answered (.channel q (.ok ch)) :: es ++ [.answered (.release ch),
          .answered (.wait child (.ok e)), .answered (.wait child' (.ok e'))] := by
  obtain ⟨ch, st₀, v₀, hmade, hnext, hevents⟩ := channel_of_finished (fun e => stuck_failed l e) h
  obtain ⟨es, child, child', st₁, v₁, hstarted, hlast, hevents'⟩ := started_of_finished
    ⟨left, depth + 1, .pipe, .writer ch⟩ ⟨right, depth + 1, .pipe, .reader ch⟩
    (fun e => stuck_release (stuck_failed l e))
    (fun child e => stuck_release (stuck_wait fun _ => stuck_failed l e)) hnext
  obtain ⟨e, st₂, e', st₃, hwait, hwait', hdone, hevents''⟩ := waitBoth_of_finished hlast
  cases hdone
  exact ⟨ch, st₀, v₀, es, child, child', st₁, v₁, e, st₂, e', hmade, hstarted, hwait, hwait', rfl,
    hevents.trans (congrArg (_ :: ·) (hevents'.trans (congrArg (es ++ _ :: ·) hevents'')))⟩

/-- Where a sequel finishes, its left side did, and then the right one, or it is
left out. -/
theorem sequel_of_finished {op : Operator} (hseq : op.isSequel = true)
    (h : (execute (.node op left right) depth parent q).rehearse l st v = (.finished n, st', v')) :
    ∃ m st₁ v₁, (execute left (depth + 1) (some op) (q ++ [.left])).rehearse l st
        (v.note .debug (heading (.node op left right) depth parent)) = (.finished m, st₁, v₁) ∧
      (op.goesOn (some (.ok m)) = true ∧
        (execute right (depth + 1) (some op) (q ++ [.right])).rehearse l st₁ v₁
          = (.finished n, st', v') ∧
        (execute (.node op left right) depth parent q).events l st v =
          (execute left (depth + 1) (some op) (q ++ [.left])).events l st
              (v.note .debug (heading (.node op left right) depth parent)) ++
            (execute right (depth + 1) (some op) (q ++ [.right])).events l st₁ v₁ ∨
      op.goesOn (some (.ok m)) = false ∧ n = m ∧
        (execute (.node op left right) depth parent q).events l st v =
          (execute left (depth + 1) (some op) (q ++ [.left])).events l st
            (v.note .debug (heading (.node op left right) depth parent))) := by
  unfold events
  rw [execute_sequel hseq] at h ⊢
  simp only [rehearse, trace, rehearse_bind, trace_bind] at h ⊢
  cases hleft : (execute left (depth + 1) (some op) (q ++ [.left])).rehearse l st
      (v.note .debug (heading (.node op left right) depth parent)) with
  | mk o rest =>
  obtain ⟨st₁, v₁⟩ := rest
  rw [hleft] at h
  cases o with
  | failed e => cases h
  | left => cases h
  | finished m =>
      refine ⟨m, st₁, v₁, rfl, ?_⟩
      simp only [resume] at h
      simp only [followed]
      cases hgoes : op.goesOn (some (.ok m)) with
      | true =>
          rw [hgoes, if_pos rfl] at h
          exact .inl ⟨rfl, h, by rw [if_pos rfl, List.map_append]⟩
      | false =>
          rw [hgoes, if_neg Bool.false_ne_true] at h
          cases h
          exact .inr ⟨rfl, rfl, by rw [if_neg Bool.false_ne_true]; simp [trace]⟩

end Walk

/-- A rehearsal in which nothing fails and nobody leaves comes to a status. -/
theorem Walk.finished_of_calm {l : Launcher σ} {t : Tree} {depth : Nat} {parent : Option Operator}
    {q : Position} {st : σ} {v : View}
    (hcalls : Event.firstFailure ((execute t depth parent q).events l st v) = none)
    (hstays : ((execute t depth parent q).rehearse l st v).1 ≠ .left) :
    ∃ n st' v', (execute t depth parent q).rehearse l st v = (.finished n, st', v') := by
  have halts : Halts [] _ _ := halts_rehearse l st v (faithful_execute t depth parent q)
    (failing_execute t depth parent q) (childCare_execute t depth parent q) ⟨rfl, nofun⟩
  have houtcome := halts.outcome
  rw [List.nil_append, hcalls] at houtcome
  rcases hrun : (execute t depth parent q).rehearse l st v with ⟨o, st', v'⟩
  rw [hrun] at houtcome hstays
  cases o with
  | finished n => exact ⟨n, st', v', rfl⟩
  | failed e => cases houtcome
  | left => exact absurd rfl hstays

end LineShell
