/-
Walks as programs, one request at a time.

Every question of a walk is one request to the machine, and what comes
after the answer is again a walk, with its log lines before it. So the
program of a process that takes a walk is at all times `perform` of what
is left of the walk; the lemmas here say which request that is.

None of these programs does more than a process may: what is done for an
external command until it is loaded is quiet, and what is done for a walk
is onward.
-/
import LineShell.Launch
import LineShell.Proofs.Builtin
import LineShell.Proofs.Posix.Run

namespace LineShell

open Posix

variable {ρ α β : Type} {F : Frame}

-- ================================================================= tasks

namespace Posix.Task

theorem bind_apply (t : Task ρ α) (f : α → Task ρ β) (k : β → Prog ρ) :
    (t >>= f) k = t fun a => f a k := rfl

theorem act_apply (f : View → α × View) (k : α → Prog ρ) :
    act f k = .step (fun v => (f v).2) fun v => k (f v).1 := rfl

theorem wait_apply (child : Int) (k : Except Errno (Pid × Ending) → Prog ρ) :
    wait child k = .wait child k := rfl

/-- All acts of the task keep the frame. -/
def Respects (F : Frame) (t : Task ρ α) : Prop :=
  ∀ k : α → Prog ρ, (∀ a, (k a).Respects F) → Prog.Respects F (t k)

theorem respects_pure (a : α) : Respects F (pure a : Task ρ α) := fun _ hk => hk a

theorem Respects.bind {t : Task ρ α} {f : α → Task ρ β} (ht : Respects F t)
    (hf : ∀ a, Respects F (f a)) : Respects F (t >>= f) :=
  fun k hk => ht _ fun a => hf a k hk

theorem respects_modify {f : View → View} (h : ∀ v, F.holds v (f v)) :
    Respects F (modify f : Task ρ Unit) := fun _ hk => ⟨h, fun _ => hk ()⟩

theorem respects_act {f : View → α × View} (h : ∀ v, F.holds v (f v).2) :
    Respects F (act f : Task ρ α) := fun _ hk => ⟨h, fun _ => hk _⟩

theorem respects_view (f : View → α) : Respects F (view f : Task ρ α) :=
  fun _ hk => ⟨fun v => F.refl v, fun _ => hk _⟩

theorem respects_exit (code : Int) : Respects F (exit code : Task ρ α) := fun _ _ => trivial

theorem respects_exec (path : Bytes) (argv : List Bytes) :
    Respects F (exec path argv : Task ρ Errno) := fun _ hk => hk

theorem respects_write (fd : Fd) (data : Bytes) :
    Respects F (write fd data : Task ρ (Except Errno Nat)) := fun _ hk => hk

theorem respects_writeAllIn (fd : Fd) (n : Nat) (data : Bytes) :
    Respects F (writeAllIn fd n data : Task ρ (Except Errno Unit)) := by
  induction n generalizing data with
  | zero => exact respects_pure _
  | succ n ih =>
      unfold writeAllIn
      split
      · exact respects_pure _
      · refine (respects_write fd data).bind fun r => ?_
        cases r with
        | error e => exact respects_pure _
        | ok written => exact ih _

/-- A task that never ends, as a program. -/
theorem Respects.run {t : Task ρ Empty} (h : Respects F t) : Prog.Respects F t.run :=
  h _ fun e => e.elim

end Posix.Task

open Posix.Task

-- ===================================================== external commands

theorem report_quiet (message : String) (v : View) : v.Quiet (report message v) :=
  (Call.writeNow_outward _ _ v).quiet

theorem respects_dieWith (hF : F.Fits) (message : String) (status : Int) :
    Respects F (dieWith message status : Task ρ Empty) :=
  (respects_modify fun v => hF.quiet (report_quiet message v)).bind fun _ => respects_exit status

theorem respects_giveUp (message : String) (status : Int) :
    Respects F (giveUp message status : Task ρ Empty) :=
  (respects_writeAllIn _ _ _).bind fun _ => respects_exit status

theorem respects_execAt (path : Bytes) (argv : List Bytes) :
    Respects F (Search.execAt path argv : Task ρ Errno) := by
  refine (respects_exec path argv).bind fun e => ?_
  split
  · exact respects_exec _ _
  · exact respects_pure _

theorem respects_tryAll (argv : List Bytes) (paths : List Bytes) (denied : Bool) (last : Errno) :
    Respects F (Search.tryAll argv paths denied last : Task ρ Errno) := by
  induction paths generalizing denied last with
  | nil => exact respects_pure _
  | cons path rest ih =>
      refine (respects_execAt path argv).bind fun e => ?_
      split
      · exact ih _ _
      · exact respects_pure _

theorem respects_execByName (name : Bytes) (argv : List Bytes) :
    Respects F (Search.execByName name argv : Task ρ Errno) := by
  unfold Search.execByName
  split
  · exact respects_pure _
  split
  · exact respects_execAt _ _
  split
  · exact respects_pure _
  · exact (respects_view _).bind fun _ => respects_tryAll _ _ _ _

/-- Until its program is loaded, an external command changes neither
working directory nor environment. -/
theorem respects_runExternal (hF : F.Fits) (c : Command) :
    Respects F (runExternal c : Task ρ Empty) := by
  refine (respects_modify (f := defaultPipeSignal) fun v =>
    hF.quiet ⟨⟨rfl, rfl, .refl _⟩, rfl, rfl⟩).bind fun _ => ?_
  refine (respects_act fun v => hF.quiet (Redirection.openAll_quiet c v)).bind fun opened => ?_
  cases opened with
  | error e => exact respects_giveUp _ _
  | ok opened =>
      refine (respects_act fun v => hF.quiet (Redirection.attach_quiet opened v)).bind fun r => ?_
      cases r with
      | error e => exact respects_giveUp _ _
      | ok _ =>
          simp only
          split
          · exact respects_giveUp _ _
          · refine (respects_execByName _ _).bind fun e => ?_
            split
            · exact respects_giveUp _ _
            · exact respects_giveUp _ _

-- ============================================================== branches

/-- Wiring copies, moves and closes descriptors, and no more. -/
theorem Wiring.apply_keeps (hF : Call.Handling F) (w : Wiring) : w.apply.Keeps F := by
  obtain ⟨stdin, stdout, close⟩ := w
  have closing : (do
      for fd in close do
        if fd > Fd.stderr then Call.close fd : Call Unit).Keeps F := by
    refine Call.Keeps.bind (Call.keeps_forIn (fun fd _ => ?_) close _) fun _ => Call.keeps_pure _
    split
    · exact (hF.close fd).bind fun _ => Call.keeps_pure _
    · exact Call.keeps_pure _
  cases stdin with
  | none =>
      cases stdout with
      | none => exact closing
      | some w => exact (hF.dup2 w _).bind fun _ => closing
  | some r =>
      refine (hF.dup2 r _).bind fun _ => ?_
      cases stdout with
      | none => exact closing
      | some w => exact (hF.dup2 w _).bind fun _ => closing

theorem Wiring.apply_quiet (w : Wiring) : w.apply.Keeps .quiet := w.apply_keeps (.of_tolerant .quiet)

/-- A program that asks nothing of the machine, and then exits. -/
def Posix.Prog.Quits : Prog ρ → Prop
  | .exit _ => True
  | .step act next => (∀ v : View, v.Quiet (act v)) ∧ ∀ v, (next v).Quits
  | _ => False

/-- What is left to do in a branch when its walk is over. -/
def endBranch (tree : Tree) : Except ExecError Int → Prog ρ
  | .ok status => .exit (.exited status)
  | .error e =>
      (do Task.modify (View.note .error ("branch " ++ tree.label ++ " failed: " ++ e.message))
          dieWith e.message exitFailure : Task ρ Empty).run

theorem quits_dieWith (message : String) (status : Int) :
    (dieWith message status : Task ρ Empty).run.Quits := ⟨report_quiet message, fun _ => trivial⟩

theorem quits_endBranch (tree : Tree) (r : Except ExecError Int) :
    (endBranch tree r : Prog ρ).Quits := by
  cases r with
  | ok status => trivial
  | error e => exact ⟨fun v => .note v _ _, fun _ => quits_dieWith e.message exitFailure⟩

theorem respects_endBranch (hF : F.Fits) (tree : Tree) (r : Except ExecError Int) :
    (endBranch tree r : Prog ρ).Respects F := by
  cases r with
  | ok status => trivial
  | error e =>
      exact ((respects_modify fun v => hF.quiet (.note v _ _)).bind fun _ =>
        respects_dieWith hF _ _).run

/-- A branch that was wired. -/
def wired (tree : Tree) (parent : Operator) (w : Walk) : Except Errno Unit → Prog ρ
  | .error e =>
      (dieWith ("cannot wire " ++ parent.symbol ++ " branch: " ++ e.describe) exitFailure).run
  | .ok () =>
      match tree.external? with
      | some c => (runExternal c).run
      | none => w.perform (endBranch tree)

theorem respects_wired (hF : F.Fits) {tree : Tree} {w : Walk}
    (hw : Prog.Respects F (w.perform (endBranch tree) : Prog ρ)) (parent : Operator)
    (r : Except Errno Unit) : (wired tree parent w r : Prog ρ).Respects F := by
  cases r with
  | error e => exact (respects_dieWith hF _ _).run
  | ok _ =>
      simp only [wired]
      cases tree.external? with
      | some c => exact (respects_runExternal hF c).run
      | none => exact hw

/-- The life of a branch begins with one request, to wire its streams. -/
theorem run_runBranch (tree : Tree) (parent : Operator) (wiring : Wiring) (w : Walk) :
    (runBranch tree parent wiring w.perform : Task ρ Empty).run
      = .step (fun v => (wiring.apply.attempt v).2)
          fun v => wired tree parent w (wiring.apply.attempt v).1 := by
  refine congrArg (Prog.step _) (funext fun v => ?_)
  cases (wiring.apply.attempt v).1 with
  | error e => rfl
  | ok _ =>
      simp only [wired]
      cases tree.external? with
      | some c => rfl
      | none =>
          refine congrArg (Walk.perform w) (funext fun r => ?_)
          cases r <;> rfl

-- ================================================================= walks

namespace Walk

/-- The log line for a program that was started. -/
def afterLaunch (c : Command) (pid : Pid) (next : Walk) : Walk :=
  log .debug ("forked pid " ++ toString pid ++ " for `" ++ c.verb ++ "`") next

/-- The log line for a branch that was started. -/
def afterFork (tree : Tree) (parent : Operator) (pid : Pid) (next : Walk) : Walk :=
  log .debug
    ("forked pid " ++ toString pid ++ " for " ++ tree.label ++ " under `" ++ parent.symbol ++ "`")
    next

/-- What the walk is told of a call for a pipe. -/
def channelAnswer : Except Errno (Fd × Fd) → Except ExecError Channel
  | .error e => .error (.channel e)
  | .ok (r, w) => .ok ⟨r, w⟩

/-- What the walk is told of a wait. -/
def waitAnswer : Except Errno (Pid × Ending) → Except ExecError Ending
  | .error e => .error (.wait e)
  | .ok (_, .exited code) => .ok (.exited code)
  | .ok (_, .signaled n) =>
      if (Signal.name? n).isSome then .ok (.signaled n) else .error (.wait .EINVAL)

/-- The log line for a wait. -/
def afterWait (child : Int) (raw : Except Errno (Pid × Ending)) (next : Walk) : Walk :=
  let failed (e : Errno) := log .error ("waitpid(" ++ toString child ++ ") failed: " ++ e.describe)
  match raw with
  | .error e => failed e next
  | .ok (_, .exited _) => next
  | .ok (pid, .signaled n) =>
      match Signal.name? n with
      | some name => log .warn ("pid " ++ toString pid ++ " killed by " ++ name) next
      | none => failed .EINVAL next

/-- The result of a walk that asks nothing more. -/
def result? : Walk → Option (Except ExecError Int)
  | done n => some (.ok n)
  | failed e => some (.error e)
  | _ => none

variable (k : Except ExecError Int → Prog ρ)

theorem perform_result {w : Walk} {r : Except ExecError Int} (h : w.result? = some r) :
    w.perform k = k r := by
  cases w with
  | done n | failed e =>
      cases h
      rfl
  | log | builtin | launch | fork | channel | release | wait => cases h

theorem perform_log (level : Level) (text : String) (next : Walk) :
    (log level text next).perform k = .step (View.note level text) fun _ => next.perform k := rfl

theorem perform_builtin (q : Position) (b : Builtin) (c : Command) (next : Int → Walk) :
    (builtin q b c next).perform k = .step (fun v => (b.run c v).2) fun v =>
      match (b.run c v).1 with
      | .status n => (next n).perform k
      | .leave => .exit (.exited 0) := by
  simp only [perform, bind_apply, act_apply]
  refine congrArg (Prog.step _) (funext fun v => ?_)
  cases (b.run c v).1 <;> rfl

theorem perform_launch (q : Position) (c : Command) (next : Except ExecError Child → Walk) :
    (launch q c next).perform k = .fork (runExternal c).run fun pid =>
      (afterLaunch c pid (next (.ok pid))).perform k := rfl

theorem perform_fork (q : Position) (tree : Tree) (depth : Nat) (parent : Operator)
    (wiring : Wiring) (branch : Walk) (next : Except ExecError Child → Walk) :
    (fork q tree depth parent wiring branch next).perform k
      = .fork (runBranch tree parent wiring branch.perform).run fun pid =>
          (afterFork tree parent pid (next (.ok pid))).perform k := rfl

theorem perform_channel (q : Position) (next : Except ExecError Channel → Walk) :
    (channel q next).perform k = .step (fun v => (Call.pipe.attempt v).2) fun v =>
      (next (channelAnswer (Call.pipe.attempt v).1)).perform k := by
  simp only [perform, bind_apply, call, act_apply]
  refine congrArg (Prog.step _) (funext fun v => ?_)
  cases (Call.pipe.attempt v).1 <;> rfl

theorem perform_release (ch : Channel) (next : Walk) :
    (release ch next).perform k
      = .step (Redirection.closeAll [ch.read, ch.write]) fun _ => next.perform k := rfl

theorem perform_wait (child : Child) (next : Except ExecError Ending → Walk) :
    (wait child next).perform k = .wait child fun raw =>
      (afterWait child raw (next (waitAnswer raw))).perform k := by
  simp only [perform, bind_apply, waitFor, wait_apply]
  refine congrArg (Prog.wait _) (funext fun raw => ?_)
  rcases raw with e | ⟨pid, code | n⟩
  · rfl
  · rfl
  · simp only [afterWait, waitAnswer]
    cases hn : Signal.name? n <;> rfl

/-- A walk does nothing that a process may not do. -/
theorem respects_perform (w : Walk) :
    (w.perform : Task ρ (Except ExecError Int)).Respects .onward := by
  induction w with
  | done n | failed e => exact respects_pure _
  | log level text next ih =>
      exact (respects_modify (f := View.note level text) fun v =>
        (View.Quiet.note v level text).toOnward).bind fun _ => ih
  | builtin q b c next ih =>
      intro k hk
      rw [perform_builtin]
      refine ⟨Builtin.run_onward b c, fun v => ?_⟩
      beta_reduce
      cases (b.run c v).1 with
      | status n => exact ih n k hk
      | leave => trivial
  | launch q c next ih =>
      intro k hk
      rw [perform_launch]
      refine ⟨(respects_runExternal Frame.onward_fits c).run, fun pid => ?_⟩
      exact ⟨fun v => (View.Quiet.note v _ _).toOnward, fun _ => ih _ k hk⟩
  | fork q tree depth parent wiring branch next ihb ih =>
      intro k hk
      rw [perform_fork, run_runBranch]
      refine ⟨⟨fun v => (wiring.apply_quiet v).toOnward, fun v => ?_⟩, fun pid =>
        ⟨fun v => (View.Quiet.note v _ _).toOnward, fun _ => ih _ k hk⟩⟩
      have evaluating := ihb _ (respects_endBranch Frame.onward_fits tree)
      exact respects_wired Frame.onward_fits evaluating parent _
  | channel q next ih =>
      intro k hk
      rw [perform_channel]
      exact ⟨fun v => (Call.pipe_quiet v).toOnward, fun v => ih _ k hk⟩
  | release ch next ih =>
      exact (respects_modify (f := Redirection.closeAll [ch.read, ch.write]) fun v =>
        (Redirection.closeAll_quiet _ v).toOnward).bind fun _ => ih
  | wait child next ih =>
      intro k hk
      rw [perform_wait]
      intro raw
      have after := ih (waitAnswer raw) k hk
      rcases raw with e | ⟨pid, code | n⟩
      · exact ⟨fun v => (View.Quiet.note v _ _).toOnward, fun _ => after⟩
      · exact after
      · simp only [afterWait]
        cases hn : Signal.name? n with
        | none => exact ⟨fun v => (View.Quiet.note v _ _).toOnward, fun _ => after⟩
        | some name => exact ⟨fun v => (View.Quiet.note v _ _).toOnward, fun _ => after⟩

end Walk

end LineShell
