/-
The files of a command, one after the other.

# Openings

`Command.openings` lists what is to be opened, in order, and `openEach`
opens the files of a list until one fails. Opening all files of a command
is that, and no more than that (`openAll_each`): what was opened is in
place for the streams that the command names (`Command.Fits`), or it is
closed again. So what can be said of lists by induction is said of
commands.

# In place

The files replace the streams that the command redirects, in the order
input, output, error (`targets_streams`). Replacing needs no number that is
free, and never fails (`attach_ok`).
-/
import LineShell.Proofs.Redirection

namespace LineShell

open Posix

namespace Command

/-- The files to open, in order. Where error shares output's file, there is
none to open for it. -/
def openings (c : Command) : List (String × Call.Mode) :=
  (c.input.map (·, Call.Mode.forReading)).toList ++ (c.output.map Redirection.outputTarget).toList ++
    if c.sharesOutputAndError then [] else (c.error.map Redirection.outputTarget).toList

/-- The streams that a command redirects, in order. -/
def streams (c : Command) : List Fd :=
  c.input.toList.map (fun _ => Fd.stdin) ++ c.output.toList.map (fun _ => Fd.stdout) ++
    c.error.toList.map (fun _ => Fd.stderr)

/-- A file is held for each stream that the command redirects, and no other. -/
structure Fits (c : Command) (o : Opened) : Prop where
  input : o.input.isSome = c.input.isSome
  output : o.output.isSome = c.output.isSome
  error : o.error.isSome = (c.error.isSome && !c.sharesOutputAndError)
  shared : o.shared = c.sharesOutputAndError

end Command

namespace Redirection

-- ============================================================== openings

/-- Opens files one after the other, until one cannot be opened. -/
def openEach : List (String × Call.Mode) → View → (List Fd × Option RedirectError) × View
  | [], v => (([], none), v)
  | (path, mode) :: rest, v =>
      match openPath path mode v with
      | (.error e, v) => (([], some e), v)
      | (.ok fd, v) =>
          let ((fds, e), v) := openEach rest v
          ((fd :: fds, e), v)

theorem openEach_of_error {path : String} {mode : Call.Mode} {v v' : View} {e : RedirectError}
    (h : openPath path mode v = (.error e, v')) (rest : List (String × Call.Mode)) :
    openEach ((path, mode) :: rest) v = (([], some e), v') := by
  simp only [openEach, h]

theorem openEach_of_ok {path : String} {mode : Call.Mode} {v v' : View} {fd : Fd}
    (h : openPath path mode v = (.ok fd, v')) (rest : List (String × Call.Mode)) :
    openEach ((path, mode) :: rest) v
      = ((fd :: (openEach rest v').1.1, (openEach rest v').1.2), (openEach rest v').2) := by
  simp only [openEach, h]

/-- One list after another: the second is opened if all of the first were. -/
theorem openEach_append (ts us : List (String × Call.Mode)) (v : View) :
    openEach (ts ++ us) v = match openEach ts v with
      | ((fds, some e), v') => ((fds, some e), v')
      | ((fds, none), v') =>
          ((fds ++ (openEach us v').1.1, (openEach us v').1.2), (openEach us v').2) := by
  induction ts generalizing v with
  | nil => rfl
  | cons t rest ih =>
      obtain ⟨path, mode⟩ := t
      cases hp : openPath path mode v with
      | mk r v₁ =>
          cases r with
          | error e => rw [List.cons_append, openEach_of_error hp, openEach_of_error hp]
          | ok fd =>
              rw [List.cons_append, openEach_of_ok hp, openEach_of_ok hp, ih]
              rcases openEach rest v₁ with ⟨⟨fds, _ | e⟩, v₂⟩ <;> rfl

/-- One stream's file, if it has one. -/
theorem openNext_each (o : Opened) (target : Option (String × Call.Mode))
    (record : Opened → Fd → Opened) (v : View) :
    (∃ e v', openEach target.toList v = (([], some e), v') ∧
      openNext o target record v = (.error e, closeAll (held o) v')) ∨
    ∃ (fd : Option Fd) (o' : Opened) (v' : View), fd.isSome = target.isSome ∧
      openEach target.toList v = ((fd.toList, none), v') ∧
      openNext o target record v = (.ok o', v') ∧ o' = fd.elim o (record o) := by
  cases target with
  | none => exact .inr ⟨none, o, v, rfl, rfl, rfl, rfl⟩
  | some t =>
      obtain ⟨path, mode⟩ := t
      cases hp : openPath path mode v with
      | mk r v₁ =>
          cases r with
          | error e =>
              refine .inl ⟨e, v₁, openEach_of_error hp [], ?_⟩
              simp only [openNext, hp]
          | ok fd =>
              refine .inr ⟨some fd, record o fd, v₁, rfl, openEach_of_ok hp [], ?_, rfl⟩
              simp only [openNext, hp]

/-- Opening all files of a command is opening each in turn; where one fails,
those before it are closed. -/
theorem openAll_each (c : Command) (v : View) :
    (∃ e fds v', openEach c.openings v = ((fds, some e), v') ∧
      openAll c v = (.error e, closeAll fds v')) ∨
    ∃ o v', openEach c.openings v = ((held o, none), v') ∧ openAll c v = (.ok o, v') ∧
      c.Fits o := by
  unfold openAll Command.openings
  rw [openEach_append, openEach_append]
  rcases openNext_each {} (c.input.map (·, .forReading)) ({ · with input := some · }) v with
    ⟨e, v₁, hin, hnext⟩ | ⟨input, o₁, v₁, hinput, hin, hnext, ho₁⟩
  · rw [hin, hnext]
    exact .inl ⟨e, [], v₁, rfl, rfl⟩
  obtain rfl : o₁ = { input } := by cases input <;> exact ho₁
  rw [hin, hnext]
  simp only
  rcases openNext_each { input } (c.output.map outputTarget) ({ · with output := some · }) v₁ with
    ⟨e, v₂, hout, hnext⟩ | ⟨output, o₂, v₂, houtput, hout, hnext, ho₂⟩
  · rw [hout, hnext]
    exact .inl ⟨e, input.toList, v₂, by simp, by simp [held]⟩
  obtain rfl : o₂ = { input, output } := by cases output <;> exact ho₂
  rw [hout, hnext]
  simp only
  rw [Option.isSome_map] at hinput houtput
  by_cases hshared : c.sharesOutputAndError
  · rw [if_pos hshared, if_pos hshared]
    exact .inr ⟨{ input, output, shared := true }, v₂, by simp [held, openEach], rfl,
      ⟨hinput, houtput, by simp [hshared], hshared.symm⟩⟩
  rw [if_neg hshared, if_neg hshared]
  rcases openNext_each { input, output } (c.error.map outputTarget)
      ({ · with error := some · }) v₂ with
    ⟨e, v₃, herr, hnext⟩ | ⟨error, o₃, v₃, herror, herr, hnext, ho₃⟩
  · rw [herr, hnext]
    exact .inl ⟨e, input.toList ++ output.toList, v₃, by simp, by simp [held]⟩
  · obtain rfl : o₃ = { input, output, error } := by cases error <;> exact ho₃
    rw [Option.isSome_map] at herror
    rw [herr, hnext]
    exact .inr ⟨{ input, output, error }, v₃, by simp [held], rfl,
      ⟨hinput, houtput, by simp [herror, hshared], by simp [hshared]⟩⟩

-- ============================================================== in place

/-- The streams that are replaced are those that the command redirects. -/
theorem targets_streams {c : Command} {o : Opened} (h : c.Fits o) :
    (targets o).map Prod.snd = c.streams := by
  obtain ⟨verb, argv, ci, co, ce⟩ := c
  obtain ⟨input, output, error, shared⟩ := o
  obtain ⟨hin, hout, herr, hshared⟩ := h
  cases ci <;> cases co <;> cases ce <;> cases input <;> cases output <;> cases error <;>
    simp_all [targets, Command.streams, Command.sharesOutputAndError]

theorem held_length {c : Command} {o : Opened} (h : c.Fits o) :
    (held o).length = c.openings.length := by
  obtain ⟨verb, argv, ci, co, ce⟩ := c
  obtain ⟨input, output, error, shared⟩ := o
  obtain ⟨hin, hout, herr, hshared⟩ := h
  cases ci <;> cases co <;> cases ce <;> cases input <;> cases output <;> cases error <;>
    simp_all [held, Command.openings, Command.sharesOutputAndError]

/-- Files that are open can be put in place of any streams. -/
theorem replaceAll_ok {ts : List (Fd × Fd)} {v : View}
    (hts : ∀ t ∈ ts, (v.process.fds.get? t.1).isSome) :
    ∃ v', (replaceAll ts).attempt v = (.ok ⟨⟩, v') := by
  induction ts generalizing v with
  | nil => exact ⟨v, rfl⟩
  | cons t rest ih =>
      obtain ⟨fd, stream⟩ := t
      obtain ⟨x, hx⟩ := Option.isSome_iff_exists.mp (hts _ List.mem_cons_self)
      by_cases hne : fd = stream
      · subst hne
        rw [replaceAll, Call.attempt_bind_ok (Call.dup2_self hx)]
        exact ih fun t ht => hts t (List.mem_cons_of_mem _ ht)
      · rw [replaceAll, Call.attempt_bind_ok (Call.dup2_of_open hx hne)]
        refine ih fun t ht => ?_
        change ((v.process.fds.set stream _).get? t.1).isSome
        rw [FdTable.get?_set]
        split
        · rfl
        · exact hts t (List.mem_cons_of_mem _ ht)

/-- Attaching what is open never fails. -/
theorem attach_ok {t : FdTable} {o : Opened} {v : View} (h : Adds t (held o) v.process.fds) :
    ∃ v', attach o v = (.ok ⟨⟩, v') := by
  obtain ⟨v', hv'⟩ : ∃ v', (replaceAll (targets o)).attempt v = (.ok ⟨⟩, v') :=
    replaceAll_ok fun t ht => h.isOpen t.1 (mem_targets ht).1
  exact ⟨_, by rw [attach, hv']⟩

end Redirection

end LineShell
