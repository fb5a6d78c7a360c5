/-
What a process has come to that is to run an external command.

# Refusals

A command is refused because one of its files cannot be opened, because a
word of it can be no argument, or because no program was found for it. For
each there is a status and a message. `Command.Refused` says what the
process has done by then: in the first case the streams are the inherited
ones, as nothing stays of the openings that were made; otherwise all files
have been opened, and are in place (`Command.Redirected`).

# Reports

The message is written to standard error in as many requests as it takes,
each of which hands over some of it (`Hands`), until nothing is left, or
until a request is answered by an error, which nobody looks at (`Told`).

# Under way

At every time, the process is at one of four things (`Command.Trying`):
it acts, which it always can; it asks for the program at a path, the
redirections being in place; it is to write what is left of its report; or
it exits with the status of the refusal. This is read off the text of the
program (`trying_of_makes`), along the events that have led there; what the
process sees at each of them is what the ones before have left, but for
what others do meanwhile. That is why the streams of a report are known,
and why what was opened can be attached.
-/
import LineShell.Launch
import LineShell.Proofs.Posix.Event
import LineShell.Proofs.Redirection.Attachment

namespace LineShell

open Posix

variable {ρ α : Type}

-- ================================================================= reports

namespace Posix.Prog.Event

/-- Some bytes were taken, by a process with that table, and the rest is left. -/
inductive Hands (fd : Fd) (t : FdTable) : Bytes → List Event → Bytes → Prop where
  | nil (data : Bytes) : Hands fd t data [] data
  | cons {v v' : View} {data rest : Bytes} {taken : Nat} {ys : List Event} : v.process.fds = t →
      Hands fd t (data.drop taken) ys rest →
      Hands fd t data (.wrote v fd data taken v' :: ys) rest

/-- All was taken, or the writing has failed before that. -/
def Told (fd : Fd) (t : FdTable) (data : Bytes) (ys : List Event) : Prop :=
  Hands fd t data ys [] ∨ ∃ zs v rest cause, v.process.fds = t ∧ Hands fd t data zs rest ∧
    ys = zs ++ [.unwritten v fd rest cause]

theorem Told.cons {fd : Fd} {t : FdTable} {v v' : View} {data : Bytes} {taken : Nat}
    {ys : List Event} (hv : v.process.fds = t) (h : Told fd t (data.drop taken) ys) :
    Told fd t data (.wrote v fd data taken v' :: ys) := by
  rcases h with h | ⟨zs, u, rest, cause, hu, h, rfl⟩
  · exact .inl (.cons hv h)
  · exact .inr ⟨_, u, rest, cause, hu, .cons hv h, rfl⟩

/-- What is written, and what is left of it, in a process that does nothing else. -/
theorem told_of_makes {fd : Fd} {v v' : View} {k : Except Errno Unit → Prog ρ} {q : Prog ρ}
    {ys : List Event} (n : Nat) (data : Bytes) (hn : data.length < n)
    (h : (Task.writeAllIn fd n data k).Makes ys q) (hlinked : Linked v ys v')
    (hsound : ∀ y ∈ ys, y.Sound) :
    (∃ xs zs r, ys = xs ++ zs ∧ Told fd v.process.fds data xs ∧ (k r).Makes zs q) ∨
      ∃ rest next, rest ≠ [] ∧ Hands fd v.process.fds data ys rest ∧ q = .write fd rest next ∧
        v'.process.fds = v.process.fds := by
  induction n generalizing data v ys with
  | zero => exact absurd hn (Nat.not_lt_zero _)
  | succ n ih =>
      rw [Task.writeAllIn] at h
      split at h
      · next hempty =>
        obtain rfl := List.isEmpty_iff.mp hempty
        exact .inl ⟨[], ys, _, rfl, .inl (.nil _), h⟩
      next hempty =>
      have hne : data ≠ [] := fun he => hempty (List.isEmpty_iff.mpr he)
      cases h with
      | nil =>
          cases hlinked with
          | nil hv => exact .inr ⟨data, _, hne, .nil _, rfl, hv.fds⟩
      | @cons _ p _ y ys ha hrest =>
          obtain ⟨hy, hsound'⟩ := List.forall_mem_cons.mp hsound
          cases hlinked with
          | cons hv hlinked =>
          cases ha with
          | wrote u u' taken =>
              obtain ⟨htaken, hwrite⟩ := hy
              have kept := (Call.writeNow_outward fd (data.take taken)).of_attempt hwrite
              have same : u'.process.fds = v.process.fds :=
                (congrArg Process.fds kept.process).trans hv.fds
              have shorter : (data.drop taken).length < n := by
                rw [List.length_drop]
                have := htaken hne
                have := List.length_pos_iff.mpr hne
                omega
              rcases ih _ shorter hrest hlinked hsound' with
                ⟨xs, zs, r, rfl, htold, hk⟩ | ⟨rest, next, hnil, hhands, rfl, hnow⟩
              · exact .inl ⟨_ :: xs, zs, r, rfl, .cons hv.fds (same ▸ htold), hk⟩
              · exact .inr ⟨rest, next, hnil, .cons hv.fds (same ▸ hhands), rfl, hnow.trans same⟩
          | unwritten u cause =>
              exact .inl ⟨[_], ys, _, rfl, .inr ⟨[], u, data, cause, hv.fds, .nil _, rfl⟩, hrest⟩

end Posix.Prog.Event

open Prog.Event

-- ================================================================ searches

namespace Posix.Search

open Posix.Task

theorem looks_execAt (path : Bytes) (argv : List Bytes) :
    (execAt path argv : Task ρ Errno).Looks := by
  refine (looks_exec path argv).bind fun e => ?_
  split
  · exact looks_exec _ _
  · exact looks_pure _

theorem looks_tryAll (argv : List Bytes) (paths : List Bytes) (denied : Bool) (last : Errno) :
    (tryAll argv paths denied last : Task ρ Errno).Looks := by
  induction paths generalizing denied last with
  | nil => exact looks_pure _
  | cons path rest ih =>
      refine (looks_execAt path argv).bind fun e => ?_
      split
      · exact ih _ _
      · exact looks_pure _

/-- The search for a program only looks. -/
theorem looks_execByName (name : Bytes) (argv : List Bytes) :
    (execByName name argv : Task ρ Errno).Looks := by
  unfold execByName
  split
  · exact looks_pure _
  split
  · exact looks_execAt _ _
  split
  · exact looks_pure _
  · exact (looks_view _).bind fun _ => looks_tryAll _ _ _ _

end Posix.Search

-- ================================================================ refusals

/-- Why an external command is not run. -/
inductive Refusal where
  /-- The first of its files that cannot be opened. -/
  | unopened (e : RedirectError)
  | nul
  /-- No program was found, or none that can be run. -/
  | unfound (cause : Errno)

namespace Refusal

def status : Refusal → Int
  | unopened _ | nul => exitFailure
  | unfound cause => if cause = .ENOENT then exitNotFound else exitNotExecutable

def message (c : Command) : Refusal → String
  | unopened e => e.message
  | nul => c.verb ++ ": argument contains a NUL byte"
  | unfound cause =>
      if cause = .ENOENT then c.verb ++ ": command not found" else c.verb ++ ": " ++ cause.text

/-- The line that is to be written to standard error. -/
def line (c : Command) (r : Refusal) : Bytes := reportLine (r.message c)

end Refusal

namespace Command

/-- Some word of the command cannot be handed to a program. -/
def hasNulWord (c : Command) : Bool := hasNul c.verb || c.argv.any hasNul

/-- The search for the command's program; it comes back only with an error. -/
def search (c : Command) : Task ρ Errno :=
  Search.execByName (Bytes.ofString c.verb) (c.argv.map Bytes.ofString)

/-- The command's redirections are in place, and no other table entry has
changed. -/
inductive Redirected (c : Command) (t : FdTable) : List Prog.Event → FdTable → Prop where
  | mk {u v v' x x' : View} : v.process.fds = t → c.Attached v v' x x' →
      Redirected c t [.acted u (defaultPipeSignal u), .acted v v', .acted x x'] x'.process.fds

variable (ρ) in
/-- The command is refused, by a process that had one table and has the other
now, after these events. -/
inductive Refused (c : Command) (t : FdTable) : List Prog.Event → FdTable → Refusal → Prop where
  | unopened {u v v' : View} {e : RedirectError} : v.process.fds = t → c.Unopened e v v' →
      Refused c t [.acted u (defaultPipeSignal u), .acted v v'] v'.process.fds (.unopened e)
  | nul {ys : List Prog.Event} {t' : FdTable} : c.Redirected t ys t' → c.hasNulWord = true →
      Refused c t ys t' .nul
  | unfound {xs ys : List Prog.Event} {t' : FdTable} {cause : Errno} : c.Redirected t xs t' →
      c.hasNulWord = false → (∀ y ∈ ys, y.Idle) → (c.search : Task ρ Errno).Gives ys cause →
      Refused c t (xs ++ ys) t' (.unfound cause)

/-- What a process is about to do that is to run the command, after these
events, by which it has come from one table to another. -/
inductive Trying (c : Command) (t : FdTable) : List Prog.Event → FdTable → Prog ρ → Prop where
  | acting {ys : List Prog.Event} {t' : FdTable} {act : View → View} {next : View → Prog ρ} :
      Trying c t ys t' (.step act next)
  | asking {xs ys : List Prog.Event} {t' : FdTable} {path : Bytes} {argv : List Bytes}
      {next : (Errno → Prog ρ) → Errno → Prog ρ} {k : Errno → Prog ρ} : c.Redirected t xs t' →
      c.hasNulWord = false → (∀ y ∈ ys, y.Idle) →
      c.search.Leads ys (fun k => .exec path argv (next k)) →
      Trying c t (xs ++ ys) t' (.exec path argv (next k))
  | reporting {xs ys : List Prog.Event} {t' : FdTable} {r : Refusal} {rest : Bytes}
      {next : Except Errno Nat → Prog ρ} : c.Refused ρ t xs t' r → rest ≠ [] →
      Hands Fd.stderr t' (r.line c) ys rest → Trying c t (xs ++ ys) t' (.write Fd.stderr rest next)
  | leaving {xs ys : List Prog.Event} {t' t'' : FdTable} {r : Refusal} : c.Refused ρ t xs t' r →
      Told Fd.stderr t' (r.line c) ys → Trying c t (xs ++ ys) t'' (.exit (.exited r.status))

end Command

-- =============================================================== under way

section

variable {c : Command} {t : FdTable} {q : Prog ρ} {xs ys : List Prog.Event} {r : Refusal}
  {v v' : View}

/-- Who gives up is to report, or to exit. -/
theorem trying_of_giveUp (href : c.Refused ρ t xs v.process.fds r)
    (h : (giveUp (r.message c) r.status : Task ρ Empty).run.Makes ys q) (hlinked : Linked v ys v')
    (hsound : ∀ y ∈ ys, y.Sound) : c.Trying t (xs ++ ys) v'.process.fds q := by
  rcases told_of_makes _ _ (Nat.lt_succ_self _) h hlinked hsound with
    ⟨ws, zs, _, rfl, htold, hexit⟩ | ⟨rest, next, hne, hhands, rfl, hnow⟩
  · obtain ⟨rfl, rfl⟩ := hexit.of_exit
    rw [List.append_nil]
    exact .leaving href htold
  · rw [hnow]
    exact .reporting href hne hhands

/-- What is left to do with the redirections in place. -/
def onceAttached (c : Command) : Task ρ Empty :=
  if c.hasNulWord then giveUp (Refusal.nul.message c) Refusal.nul.status
  else do
    let cause ← c.search
    giveUp ((Refusal.unfound cause).message c) (Refusal.unfound cause).status

/-- What is left to do once the files were opened. -/
def onceOpened (c : Command) : Except RedirectError Opened → Task ρ Empty
  | .error e => giveUp ((Refusal.unopened e).message c) (Refusal.unopened e).status
  | .ok opened => do
      match ← Task.act (Redirection.attach opened) with
      | .error e => giveUp (c.verb ++ ": " ++ e.describe) exitFailure
      | .ok () => onceAttached c

theorem giveUp_unfound (c : Command) (e : Errno) :
    (if e = .ENOENT then giveUp (c.verb ++ ": command not found") exitNotFound
      else giveUp (c.verb ++ ": " ++ e.text) exitNotExecutable : Task ρ Empty)
    = giveUp ((Refusal.unfound e).message c) (Refusal.unfound e).status := by
  simp only [Refusal.message, Refusal.status]
  split <;> rfl

/-- The program as it goes on by what has come of the openings. -/
theorem run_runExternal (c : Command) : (runExternal c : Task ρ Empty).run
    = .step defaultPipeSignal fun _ => .step (fun v => (Redirection.openAll c v).2) fun v =>
        (onceOpened c (Redirection.openAll c v).1).run := by
  unfold runExternal
  simp only [giveUp_unfound]
  refine congrArg (Prog.step _) (funext fun _ => congrArg (Prog.step _) (funext fun v => ?_))
  cases (Redirection.openAll c v).1 with
  | error e => rfl
  | ok opened =>
      refine congrArg (Prog.step _) (funext fun x => ?_)
      cases (Redirection.attach opened x).1 <;> rfl

/-- Who has the redirections in place goes on like that. -/
theorem trying_of_attached (hplace : c.Redirected t xs v.process.fds)
    (h : (onceAttached c : Task ρ Empty).run.Makes ys q) (hlinked : Linked v ys v')
    (hsound : ∀ y ∈ ys, y.Sound) : c.Trying t (xs ++ ys) v'.process.fds q := by
  unfold onceAttached at h
  split at h
  · next hnul => exact trying_of_giveUp (.nul hplace hnul) h hlinked hsound
  next hnul =>
  have hnul : c.hasNulWord = false := by simpa using hnul
  rcases Search.looks_execByName _ _ _ _ _ h with
    ⟨ws, zs, cause, rfl, hgives, hidle, hrest⟩ | ⟨q', rfl, hq', hleads, hidle⟩
  · obtain ⟨u, hws, hzs⟩ := hlinked.append
    have href : c.Refused ρ t (xs ++ ws) u.process.fds (.unfound cause) := by
      rw [(hws.idle hidle).fds]
      exact .unfound hplace hnul hidle hgives
    rw [← List.append_assoc]
    exact trying_of_giveUp href hrest hzs fun y hy => hsound y (List.mem_append_right _ hy)
  · cases hq' with
    | act act next => exact .acting
    | exec path argv next =>
        rw [(hlinked.idle hidle).fds]
        exact .asking hplace hnul hidle hleads

/-- At every time the process is about to do one of these things. -/
theorem trying_of_makes (h : (runExternal c : Task ρ Empty).run.Makes ys q)
    (hlinked : Linked v ys v') (hsound : ∀ y ∈ ys, y.Sound) (hstd : v.process.fds.Standard) :
    c.Trying v.process.fds ys v'.process.fds q := by
  rw [run_runExternal] at h
  obtain ⟨rfl, rfl⟩ | ⟨u, ys₁, rfl, h₁⟩ := h.of_step
  · exact .acting
  obtain ⟨rfl, rfl⟩ | ⟨w, ys₂, rfl, h₂⟩ := h₁.of_step
  · exact .acting
  obtain _ | ⟨hu, _ | ⟨hw, hlinked₂⟩⟩ := hlinked
  have hw : w.process.fds = v.process.fds := hw.fds.trans hu.fds
  have hsound₂ := (List.forall_mem_cons.mp (List.forall_mem_cons.mp hsound).2).2
  cases hopen : Redirection.openAll c w with
  | mk opened w' =>
  simp only [hopen] at h₂ hlinked₂ ⊢
  cases opened with
  | error e =>
      exact trying_of_giveUp (.unopened hw (Redirection.unopened_of_openAll hopen)) h₂ hlinked₂ hsound₂
  | ok o =>
      obtain ⟨rfl, rfl⟩ | ⟨x, ys₃, rfl, h₃⟩ := h₂.of_step
      · exact .acting
      obtain _ | ⟨hx, hlinked₃⟩ := hlinked₂
      obtain ⟨x', hattach, hattached⟩ := Redirection.attached_of_openAll (x := x) hopen (hw ▸ hstd) hx.fds
      simp only [hattach] at h₃ hlinked₃ ⊢
      exact trying_of_attached (.mk hw hattached) h₃ hlinked₃ (List.forall_mem_cons.mp hsound₂).2

end

end LineShell
