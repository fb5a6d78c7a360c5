/-
What runs in the shell itself does not look at the log either.

Redirections and builtins write records of what they do. These are written
and no more: with another log to begin with, the same files are opened and
put in place, the same streams given back, and a builtin leaves off in the
same way with the same effect.
-/
import LineShell.Builtin
import LineShell.Proofs.Posix.Blind

namespace LineShell

open Posix

/-- A report goes to standard error, whatever the log. -/
theorem report_same (message : String) {v v' : View} (h : v.Same v') :
    (report message v).Same (report message v') :=
  ((Call.blind_writeNow _ _).same h).2

namespace Redirection

theorem closeAll_same (fds : List Fd) {v v' : View} (h : v.Same v') :
    (closeAll fds v).Same (closeAll fds v') := by
  induction fds generalizing v v' with
  | nil => exact h
  | cons fd rest ih => exact ih ((Call.blind_close fd).same h).2

theorem blind_openPath (path : String) (mode : Call.Mode) : Blind (openPath path mode) := by
  intro v records
  unfold openPath
  split
  · exact ⟨records, rfl⟩
  · obtain ⟨records', h⟩ := Call.blind_openFile (Bytes.ofString path) mode v records
    refine ⟨records', ?_⟩
    unfold Call.attempt at h
    cases hv : Call.openFile (Bytes.ofString path) mode v <;>
      cases hv' : Call.openFile (Bytes.ofString path) mode (v.relog records) <;>
      simp_all

theorem blind_openNext (o : Opened) (target : Option (String × Call.Mode))
    (record : Opened → Fd → Opened) : Blind (openNext o target record) := by
  cases target with
  | none => exact Blind.pure _
  | some target =>
      intro v records
      obtain ⟨records', h⟩ := blind_openPath target.1 target.2 v records
      simp only [openNext, h]
      cases openPath target.1 target.2 v with
      | mk r v₁ =>
          cases r with
          | ok fd => exact ⟨records', rfl⟩
          | error e =>
              have closed := closeAll_same (held o) (View.Same.relog v₁ records')
              exact ⟨_, congrArg (Prod.mk _) closed.eq_relog⟩

theorem blind_openAll (c : Command) : Blind (openAll c) := by
  intro v records
  unfold openAll
  obtain ⟨records₁, h₁⟩ := blind_openNext {} (c.input.map (·, .forReading))
    ({ · with input := some · }) v records
  rw [h₁]
  cases openNext {} (c.input.map (·, .forReading)) ({ · with input := some · }) v with
  | mk r v₁ =>
      cases r with
      | error e => exact ⟨records₁, rfl⟩
      | ok o =>
          obtain ⟨records₂, h₂⟩ := blind_openNext o (c.output.map outputTarget)
            ({ · with output := some · }) v₁ records₁
          simp only [h₂]
          cases openNext o (c.output.map outputTarget) ({ · with output := some · }) v₁ with
          | mk r v₂ =>
              cases r with
              | error e => exact ⟨records₂, rfl⟩
              | ok o =>
                  simp only
                  split
                  · exact ⟨records₂, rfl⟩
                  · exact blind_openNext _ _ _ v₂ records₂

theorem blind_replaceAll (ts : List (Fd × Fd)) : (replaceAll ts).IsBlind := by
  induction ts with
  | nil => exact Call.blind_pure _
  | cons t rest ih => exact (Call.blind_dup2 t.1 t.2).bind fun _ => ih

theorem blind_attach (o : Opened) : Blind (attach o) := by
  intro v records
  obtain ⟨records', h⟩ := blind_replaceAll (targets o) v records
  simp only [attach, h]
  have closed := closeAll_same (held o)
    (View.Same.relog ((replaceAll (targets o)).attempt v).2 records')
  exact ⟨_, congrArg (Prod.mk _) closed.eq_relog⟩

theorem restore_same (g : Guard) {v v' : View} (h : v.Same v') :
    (restore g v).Same (restore g v') := by
  have back : ∀ (saved : List (Fd × Fd)) {v v' : View}, v.Same v' →
      (saved.foldl (fun v x => (Call.close x.2).after ((Call.dup2 x.2 x.1).after v)) v).Same
        (saved.foldl (fun v x => (Call.close x.2).after ((Call.dup2 x.2 x.1).after v)) v') := by
    intro saved
    induction saved with
    | nil => exact fun h => h
    | cons x rest ih =>
        intro v v' h
        have put := ((Call.blind_dup2 x.2 x.1).same h).2
        exact ih ((Call.blind_close x.2).same put).2
  exact back _ h

theorem blind_saveAndReplace (ts : List (Fd × Fd)) (g : Guard) : Blind (saveAndReplace ts g) := by
  induction ts generalizing g with
  | nil => exact Blind.pure _
  | cons t rest ih =>
      obtain ⟨fd, stream⟩ := t
      intro v records
      obtain ⟨records₁, h₁⟩ := Call.blind_dup stream v records
      simp only [saveAndReplace, h₁]
      cases (Call.dup stream).attempt v with
      | mk r v₁ =>
          cases r with
          | error e => exact ⟨records₁, rfl⟩
          | ok copy =>
              obtain ⟨records₂, h₂⟩ := Call.blind_dup2 fd stream v₁ records₁
              simp only [h₂]
              cases (Call.dup2 fd stream).attempt v₁ with
              | mk r v₂ =>
                  cases r with
                  | error e => exact ⟨records₂, rfl⟩
                  | ok _ => exact ih _ v₂ records₂

theorem blind_attachScoped (o : Opened) : Blind (attachScoped o) := by
  intro v records
  unfold attachScoped
  obtain ⟨records₁, h₁⟩ := blind_saveAndReplace (targets o) {} v records
  rw [h₁]
  cases saveAndReplace (targets o) {} v with
  | mk r v₁ =>
      obtain ⟨g, failure⟩ := r
      have relogged := View.Same.relog v₁ records₁
      cases failure with
      | none => exact ⟨_, congrArg (Prod.mk _) (closeAll_same _ relogged).eq_relog⟩
      | some e =>
          have restored := closeAll_same (held o) (restore_same g relogged)
          exact ⟨_, congrArg (Prod.mk _) restored.eq_relog⟩

end Redirection

namespace Builtin

theorem blind_refuse (message : String) : Blind (refuse message) := fun v records =>
  ⟨_, congrArg (Prod.mk _) (report_same message (View.Same.relog v records)).eq_relog⟩

theorem blind_runCd (params : List String) : Blind (runCd params) := by
  intro v records
  match params with
  | [] => exact blind_refuse _ v records
  | _ :: _ :: _ => exact blind_refuse _ v records
  | [path] =>
      simp only [runCd]
      have home : (v.relog records).process.env = v.process.env := rfl
      rw [home]
      by_cases hnul : hasNul (expandTilde v.process.env path) = true
      · simp only [hnul, if_true]
        exact blind_refuse _ v records
      · simp only [hnul]
        obtain ⟨records', h⟩ :=
          Call.blind_changeDir (Bytes.ofString (expandTilde v.process.env path)) v records
        rw [h]
        cases (Call.changeDir (Bytes.ofString (expandTilde v.process.env path))).attempt v with
        | mk r v₁ =>
            cases r with
            | ok _ => exact ⟨_, rfl⟩
            | error e => exact blind_refuse _ v₁ records'

theorem blind_runExit (params : List String) : Blind (runExit params) := by
  intro v records
  unfold runExit
  split
  · exact ⟨_, rfl⟩
  · exact blind_refuse _ v records

theorem blind_runAssign (word : String) : Blind (runAssign word) := by
  intro v records
  unfold runAssign
  split
  · exact blind_refuse _ v records
  · split
    · exact blind_refuse _ v records
    · exact ⟨_, rfl⟩

theorem blind_body (b : Builtin) (c : Command) : Blind (b.body c) := by
  cases b with
  | cd => exact blind_runCd _
  | exit => exact blind_runExit _
  | assign => exact blind_runAssign _

/-- A builtin leaves off in the same way, and with the same effect, whatever
was logged before it. -/
theorem blind_run (b : Builtin) (c : Command) : Blind (b.run c) := by
  intro v records
  unfold run
  obtain ⟨records₁, h₁⟩ := Redirection.blind_openAll c v records
  rw [h₁]
  cases Redirection.openAll c v with
  | mk r v₁ =>
      cases r with
      | error e => exact blind_refuse _ v₁ records₁
      | ok opened =>
          obtain ⟨records₂, h₂⟩ := Redirection.blind_attachScoped opened v₁ records₁
          simp only [h₂]
          cases Redirection.attachScoped opened v₁ with
          | mk r v₂ =>
              cases r with
              | error e => exact blind_refuse _ v₂ records₂
              | ok g =>
                  obtain ⟨records₃, h₃⟩ := blind_body b c v₂ records₂
                  simp only [h₃]
                  cases b.body c v₂ with
                  | mk ending v₃ =>
                      cases ending with
                      | leave => exact ⟨records₃, rfl⟩
                      | status n =>
                          have restored :=
                            Redirection.restore_same g (View.Same.relog v₃ records₃)
                          exact ⟨_, congrArg (Prod.mk _) restored.eq_relog⟩

end Builtin

end LineShell
