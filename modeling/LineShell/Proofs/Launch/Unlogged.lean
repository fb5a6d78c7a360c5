/-
What is launched for real, without its log lines.

The program of a walk annotates the program of its outline: it makes the
same requests in the same order, starts the same children, and logs more
(`Walk.annotates_perform`). So two walks with one outline come to the same
on a machine, up to what is logged, whatever process it is that moves
(`Walk.sameOutcomes_of_outline_eq`).
-/
import LineShell.Proofs.Blind
import LineShell.Proofs.Launch.Perform
import LineShell.Proofs.Posix.Outcomes
import LineShell.Proofs.Walk.Outline

namespace LineShell

open Posix

variable {ρ α β : Type}

-- ================================================================= tasks

namespace Posix.Task

/-- The first task does what the second does, and may log more. -/
def Annotates (t t' : Task ρ α) : Prop :=
  ∀ k k' : α → Prog ρ, (∀ a, (k a).Annotates (k' a)) → Prog.Annotates (t k) (t' k')

/-- The task does not look at the log. -/
def IsBlind (t : Task ρ α) : Prop := Annotates t t

variable {t t' : Task ρ α} {f f' : α → Task ρ β}

theorem blind_pure (a : α) : IsBlind (pure a : Task ρ α) := fun _ _ hk => hk a

theorem Annotates.bind (ht : Annotates t t') (hf : ∀ a, Annotates (f a) (f' a)) :
    Annotates (t >>= f) (t' >>= f') :=
  fun k k' hk => ht _ _ fun a => hf a k k' hk

theorem blind_modify {f : View → View} (hf : ∀ {v v' : View}, v.Same v' → (f v).Same (f v')) :
    IsBlind (modify f : Task ρ Unit) :=
  fun _ _ hk => Prog.annotates_step hf fun _ => hk ()

theorem blind_act {f : View → α × View} (hf : Blind f) : IsBlind (act f : Task ρ α) :=
  fun k k' hk => Prog.annotates_step (fun hv => (hf.same hv).2) fun {v v'} hv => by
    rw [(hf.same hv).1]
    exact hk _

theorem blind_view {f : View → α} (hf : ∀ {v v' : View}, v.Same v' → f v' = f v) :
    IsBlind (view f : Task ρ α) :=
  fun k k' hk => Prog.annotates_step id fun {v v'} hv => by
    rw [hf hv]
    exact hk _

theorem blind_note (level : Level) (text : String) :
    IsBlind (modify (View.note level text) : Task ρ Unit) :=
  blind_modify fun {v v'} hv => (View.Same.note v level text).symm.trans (hv.trans (.note v' _ _))

/-- A line before the task is one more. -/
theorem Annotates.note (h : Annotates t t') (level : Level) (text : String) :
    Annotates (do modify (View.note level text); t) t' :=
  fun k k' hk => (h k k' hk).note level text

theorem blind_exit (code : Int) : IsBlind (exit code : Task ρ α) :=
  fun _ _ _ => Prog.blind_exit _

theorem blind_exec (path : Bytes) (argv : List Bytes) : IsBlind (exec path argv : Task ρ Errno) :=
  fun _ _ hk => Prog.annotates_exec hk

theorem blind_write (fd : Fd) (data : Bytes) :
    IsBlind (write fd data : Task ρ (Except Errno Nat)) :=
  fun _ _ hk => Prog.annotates_write hk

theorem blind_writeAllIn (fd : Fd) (n : Nat) (data : Bytes) :
    IsBlind (writeAllIn fd n data : Task ρ (Except Errno Unit)) := by
  induction n generalizing data with
  | zero => exact blind_pure _
  | succ n ih =>
      unfold writeAllIn
      split
      · exact blind_pure _
      · refine Annotates.bind (blind_write fd data) fun r => ?_
        cases r with
        | error e => exact blind_pure _
        | ok written => exact ih _

theorem blind_wait (child : Int) : IsBlind (wait child : Task ρ (Except Errno (Pid × Ending))) :=
  fun _ _ hk => Prog.annotates_wait hk

theorem annotates_fork {child child' : Prog ρ} (h : child.Annotates child') :
    Annotates (fork child : Task ρ Pid) (fork child') :=
  fun _ _ hk => Prog.annotates_fork h hk

/-- Tasks that never end, as programs. -/
theorem Annotates.run {t t' : Task ρ Empty} (h : Annotates t t') : t.run.Annotates t'.run :=
  h _ _ fun e => e.elim

end Posix.Task

open Posix.Task

-- ===================================================== external commands

theorem blind_dieWith (message : String) (status : Int) :
    Task.IsBlind (dieWith message status : Task ρ Empty) :=
  Annotates.bind (blind_modify (report_same message)) fun _ => blind_exit status

theorem blind_giveUp (message : String) (status : Int) :
    Task.IsBlind (giveUp message status : Task ρ Empty) :=
  Annotates.bind (blind_writeAllIn _ _ _) fun _ => blind_exit status

theorem blind_execAt (path : Bytes) (argv : List Bytes) :
    Task.IsBlind (Search.execAt path argv : Task ρ Errno) := by
  refine Annotates.bind (blind_exec path argv) fun e => ?_
  split
  · exact blind_exec _ _
  · exact blind_pure _

theorem blind_tryAll (argv : List Bytes) (paths : List Bytes) (denied : Bool) (last : Errno) :
    Task.IsBlind (Search.tryAll argv paths denied last : Task ρ Errno) := by
  induction paths generalizing denied last with
  | nil => exact blind_pure _
  | cons path rest ih =>
      refine Annotates.bind (blind_execAt path argv) fun e => ?_
      split
      · exact ih _ _
      · exact blind_pure _

theorem blind_execByName (name : Bytes) (argv : List Bytes) :
    Task.IsBlind (Search.execByName name argv : Task ρ Errno) := by
  unfold Search.execByName
  split
  · exact blind_pure _
  split
  · exact blind_execAt _ _
  split
  · exact blind_pure _
  · refine Annotates.bind (blind_view fun hv => ?_) fun _ => blind_tryAll _ _ _ _
    rw [hv.eq_relog]
    rfl

theorem blind_runExternal (c : Command) : Task.IsBlind (runExternal c : Task ρ Empty) := by
  refine Annotates.bind (blind_modify fun {v v'} hv => ?_) fun _ => ?_
  · rw [hv.eq_relog]
    exact .relog _ _
  refine Annotates.bind (blind_act (Redirection.blind_openAll c)) fun opened => ?_
  cases opened with
  | error e => exact blind_giveUp _ _
  | ok opened =>
      refine Annotates.bind (blind_act (Redirection.blind_attach opened)) fun r => ?_
      cases r with
      | error e => exact blind_giveUp _ _
      | ok _ =>
          simp only
          split
          · exact blind_giveUp _ _
          · refine Annotates.bind (blind_execByName _ _) fun e => ?_
            split
            · exact blind_giveUp _ _
            · exact blind_giveUp _ _

-- ============================================================== branches

theorem Wiring.blind_apply (w : Wiring) : w.apply.IsBlind := by
  obtain ⟨stdin, stdout, close⟩ := w
  have closing : (do
      for fd in close do
        if fd > Fd.stderr then Call.close fd : Call Unit).IsBlind := by
    refine Call.IsBlind.bind (Call.blind_forIn (fun fd _ => ?_) close _) fun _ => Call.blind_pure _
    split
    · exact (Call.blind_close fd).bind fun _ => Call.blind_pure _
    · exact Call.blind_pure _
  cases stdin with
  | none =>
      cases stdout with
      | none => exact closing
      | some w => exact (Call.blind_dup2 w _).bind fun _ => closing
  | some r =>
      refine (Call.blind_dup2 r _).bind fun _ => ?_
      cases stdout with
      | none => exact closing
      | some w => exact (Call.blind_dup2 w _).bind fun _ => closing

/-- A branch annotates one that evaluates its subtree with less to log. -/
theorem annotates_runBranch (tree : Tree) (parent : Operator) (w : Wiring)
    {evaluate evaluate' : Task ρ (Except ExecError Int)} (h : Annotates evaluate evaluate') :
    Annotates (runBranch tree parent w evaluate) (runBranch tree parent w evaluate') := by
  refine Annotates.bind (blind_act w.blind_apply) fun r => ?_
  cases r with
  | error e => exact blind_dieWith _ _
  | ok _ =>
      simp only
      cases tree.external? with
      | some c => exact blind_runExternal c
      | none =>
          refine Annotates.bind h fun r => ?_
          cases r with
          | ok status => exact blind_exit status
          | error e => exact Annotates.bind (blind_note _ _) fun _ => blind_dieWith _ _

theorem blind_waitFor (child : Int) :
    Task.IsBlind (waitFor child : Task ρ (Except ExecError Ending)) := by
  refine Annotates.bind (blind_wait child) fun r => ?_
  have failed (e : Errno) : Task.IsBlind (do
      Task.modify (View.note .error ("waitpid(" ++ toString child ++ ") failed: " ++ e.describe))
      pure (.error (.wait e)) : Task ρ (Except ExecError Ending)) :=
    Annotates.bind (blind_note _ _) fun _ => blind_pure _
  rcases r with e | ⟨pid, code | n⟩
  · exact failed e
  · exact blind_pure _
  · simp only
    cases Signal.name? n with
    | none => exact failed _
    | some name => exact Annotates.bind (blind_note _ _) fun _ => blind_pure _

-- ================================================================= walks

namespace Walk

variable {f : Nat → Nat} {w w' : Walk}

/-- What is done for a walk is done for its outline, without the lines that
the walk logs. -/
theorem annotates_perform (w : Walk) :
    Annotates (w.perform : Task ρ (Except ExecError Int)) (w.outline f).perform := by
  induction w with
  | done n | failed e => exact blind_pure _
  | log level text next ih => exact ih.note level text
  | builtin q b c next ih =>
      simp only [outline, perform]
      refine Annotates.bind (blind_act (Builtin.blind_run b c)) fun ending => ?_
      cases ending with
      | status n => exact ih n
      | leave => exact blind_exit 0
  | launch q c next ih =>
      refine Annotates.bind (Annotates.bind (annotates_fork (blind_runExternal c).run) fun pid =>
        Annotates.bind (blind_note _ _) fun _ => blind_pure _) fun child => ?_
      exact ih (.ok child)
  | fork q tree depth parent wiring branch next ihb ih =>
      have child := (annotates_runBranch tree parent wiring ihb).run
      refine Annotates.bind (Annotates.bind (annotates_fork child) fun pid =>
        Annotates.bind (blind_note _ _) fun _ => blind_pure _) fun child => ?_
      exact ih (.ok child)
  | channel q next ih =>
      simp only [outline, perform]
      refine Annotates.bind (blind_act Call.blind_pipe) fun r => ?_
      cases r with
      | error e => exact ih _
      | ok ends => exact ih _
  | release ch next ih =>
      exact Annotates.bind (blind_modify (Redirection.closeAll_same _)) fun _ => ih
  | wait child next ih => exact Annotates.bind (blind_waitFor child) fun r => ih r

/-- By what the main process of a machine comes to the tasks cannot be told
apart. -/
def SameOutcomes (t t' : (ρ : Type) → Task ρ (Except ExecError Int)) : Prop :=
  ∀ (ρ : Type) (programs : Installed ρ) (m : Machine ρ), m.Ordinary programs →
    ∀ (result : Except ExecError Int → ρ) (st : Machine.Standing ρ) (v : View), st ≠ .busy →
      ((m.doing (t ρ fun r => .ret (result r))).ComesTo programs st v ↔
        (m.doing (t' ρ fun r => .ret (result r))).ComesTo programs st v)

/-- Walks with one outline come to the same, whoever moves. -/
theorem sameOutcomes_of_outline_eq (h : w.outline f = w'.outline f) :
    SameOutcomes (fun _ => w.perform) (fun _ => w'.perform) := by
  intro ρ programs m hm result st v hst
  have outlined (w : Walk) :
      (m.doing (w.perform fun r => .ret (result r))).ComesTo programs st v ↔
        (m.doing ((w.outline f).perform fun r => .ret (result r))).ComesTo programs st v :=
    hm.comesTo_iff (annotates_perform w _ _ fun r => Prog.blind_ret _)
      (respects_perform w _ fun _ => trivial) hst v
  rw [outlined w, outlined w', h]

-- ============================================================== sequences

/-- Goes on after a task that comes to a status. -/
def follow (t : Task ρ (Except ExecError Int)) (k : Int → Task ρ (Except ExecError Int)) :
    Task ρ (Except ExecError Int) := do
  match ← t with
  | .ok n => k n
  | .error e => pure (.error e)

/-- What is done for a sequence is done for its parts in turn. -/
theorem perform_bind (w : Walk) (k : Int → Walk) :
    ((w.bind k).perform : Task ρ (Except ExecError Int)) =
      follow w.perform fun n => (k n).perform := by
  funext κ
  induction w with
  | done n | failed e => rfl
  | log level text next ih => exact congrArg (Prog.step _) (funext fun _ => ih)
  | release ch next ih => exact congrArg (Prog.step _) (funext fun _ => ih)
  | builtin q b c next ih =>
      rw [follow, bind_apply, Walk.bind, perform_builtin, perform_builtin]
      refine congrArg (Prog.step _) (funext fun v => ?_)
      cases (b.run c v).1 with
      | status n => exact ih n
      | leave => rfl
  | launch q c next ih =>
      exact congrArg (Prog.fork _) (funext fun pid =>
        congrArg (Prog.step _) (funext fun _ => ih (.ok pid)))
  | fork q tree depth parent wiring branch next _ ih =>
      exact congrArg (Prog.fork _) (funext fun pid =>
        congrArg (Prog.step _) (funext fun _ => ih (.ok pid)))
  | channel q next ih =>
      rw [follow, bind_apply, Walk.bind, perform_channel, perform_channel]
      exact congrArg (Prog.step _) (funext fun v => ih _)
  | wait child next ih =>
      rw [follow, bind_apply, Walk.bind, perform_wait, perform_wait]
      refine congrArg (Prog.wait _) (funext fun raw => ?_)
      have after := ih (waitAnswer raw)
      rcases raw with e | ⟨pid, code | n⟩
      · exact congrArg (Prog.step _) (funext fun _ => after)
      · exact after
      · simp only [afterWait]
        cases Signal.name? n with
        | none => exact congrArg (Prog.step _) (funext fun _ => after)
        | some name => exact congrArg (Prog.step _) (funext fun _ => after)

end Walk

end LineShell
