/-
What the redirections of a command come to.

# Openings in a row

`Opens` says what it makes of a view that files are opened one after the
other: each opening is one of `Call.Opening`, and leads to an open file of
its own, numbered in that order. Where a file cannot be opened, those
before it were, and nothing was done for it nor for those after it
(`openEach_cases`); so much is true of a command as well, whose
descriptors are then closed again (`Command.Unopened`).

# Attachments

Once the files are attached, each stream that the command redirects leads
to the open file of its opening (`Command.opening?`), and all other
descriptors are as they were before anything was opened
(`Command.Attached`). For that, the three standard streams have to be open
to begin with: a file that is opened in place of one of them is closed
again.
-/
import LineShell.Proofs.Redirection.Openings

namespace LineShell

open Posix

namespace Command

/-- Which of the openings a stream gets, for the streams that are redirected. -/
def opening? (c : Command) (fd : Fd) : Option Nat :=
  if fd = Fd.stdin then c.input.map fun _ => 0
  else if fd = Fd.stdout then c.output.map fun _ => c.input.toList.length
  else if fd = Fd.stderr then
    c.error.map fun _ =>
      if c.sharesOutputAndError then c.input.toList.length
      else c.input.toList.length + c.output.toList.length
  else none

theorem opening?_stdin {c : Command} {path : String} (h : c.input = some path) :
    ∃ i, c.opening? Fd.stdin = some i ∧ c.openings[i]? = some (path, .forReading) :=
  ⟨0, by simp [opening?, h], by simp [openings, h]⟩

theorem opening?_stdout {c : Command} {r : Redirect} (h : c.output = some r) :
    ∃ i, c.opening? Fd.stdout = some i ∧ c.openings[i]? = some (r.path, .forOutput r.append) := by
  refine ⟨c.input.toList.length, by simp [opening?, h, Fd.stdin, Fd.stdout], ?_⟩
  cases hin : c.input <;> simp [openings, Redirection.outputTarget, h, hin]

theorem opening?_stderr {c : Command} {r : Redirect} (h : c.error = some r)
    (hshared : c.sharesOutputAndError = false) :
    ∃ i, c.opening? Fd.stderr = some i ∧ c.openings[i]? = some (r.path, .forOutput r.append) := by
  refine ⟨c.input.toList.length + c.output.toList.length,
    by simp [opening?, h, hshared, Fd.stdin, Fd.stdout, Fd.stderr], ?_⟩
  cases hin : c.input <;> cases hout : c.output <;>
    simp [openings, Redirection.outputTarget, h, hin, hout, hshared]

/-- Where both name one path, error gets the opening of output. -/
theorem opening?_shared {c : Command} (h : c.sharesOutputAndError = true) :
    c.opening? Fd.stderr = c.opening? Fd.stdout := by
  unfold sharesOutputAndError at h
  split at h
  · next out err hout herr =>
    simp [opening?, sharesOutputAndError, hout, herr, h, Fd.stdin, Fd.stdout, Fd.stderr]
  · cases h

theorem opening?_lt {c : Command} {fd : Fd} {i : Nat} (h : c.opening? fd = some i) :
    i < c.openings.length := by
  obtain ⟨verb, argv, ci, co, ce⟩ := c
  rcases Fd.standard_or_above fd with rfl | rfl | rfl | above
  all_goals
    cases ci <;> cases co <;> cases ce <;>
      simp_all [opening?, openings, sharesOutputAndError, Fd.stdin, Fd.stdout, Fd.stderr] <;> grind

end Command

namespace Redirection

/-- Some descriptors more, and then some more. -/
theorem Adds.trans {t₁ t₂ t₃ : FdTable} {fds fds' : List Fd} (h : Adds t₁ fds t₂)
    (h' : Adds t₂ fds' t₃) : Adds t₁ (fds ++ fds') t₃ where
  free fd hfd := by
    rcases List.mem_append.mp hfd with hmem | hmem
    · exact h.free fd hmem
    · have hnot : fd ∉ fds := fun hmem₁ => by
        have hopen := h.isOpen fd hmem₁
        rw [h'.free fd hmem] at hopen
        cases hopen
      rw [← h.same fd hnot, h'.free fd hmem]
  isOpen fd hfd := by
    by_cases hmem : fd ∈ fds'
    · exact h'.isOpen fd hmem
    · rw [h'.same fd hmem]
      exact h.isOpen fd ((List.mem_append.mp hfd).resolve_right hmem)
  same fd hfd := by
    rw [List.mem_append, not_or] at hfd
    rw [h'.same fd hfd.2, h.same fd hfd.1]

/-- What the openings of a list make of a view, one after the other. -/
inductive Opens : List (String × Call.Mode) → View → List Fd → View → Prop where
  | nil (v : View) : Opens [] v [] v
  | cons {path : String} {mode : Call.Mode} {rest : List (String × Call.Mode)} {v u v' : View}
      {fd : Fd} {fds : List Fd} : hasNul path = false →
      Call.Opening (Bytes.ofString path) mode v fd u → Opens rest u fds v' →
      Opens ((path, mode) :: rest) v (fd :: fds) v'

/-- A path is opened, or nothing has been done. -/
theorem openPath_cases (path : String) (mode : Call.Mode) (v : View) :
    (∃ cause, openPath path mode v = (.error ⟨path, cause⟩, v)) ∨
    ∃ fd v', openPath path mode v = (.ok fd, v') ∧ hasNul path = false ∧
      Call.Opening (Bytes.ofString path) mode v fd v' := by
  unfold openPath
  split
  · exact .inl ⟨_, rfl⟩
  · next hnul =>
    rcases Call.openFile_cases (Bytes.ofString path) mode v with
      ⟨e, hopen⟩ | ⟨fd, v', hopen, hopening⟩
    · rw [hopen]
      exact .inl ⟨_, rfl⟩
    · rw [hopen]
      exact .inr ⟨fd, v', rfl, by simpa using hnul, hopening⟩

/-- All files are opened, or one is the first that cannot be, and nothing
was done for it nor for any after it. -/
theorem openEach_cases (ts : List (String × Call.Mode)) (v : View) :
    (∃ fds v', openEach ts v = ((fds, none), v') ∧ Opens ts v fds v') ∨
    ∃ before e mode after fds u, ts = before ++ (e.path, mode) :: after ∧ Opens before v fds u ∧
      openPath e.path mode u = (.error e, u) ∧ openEach ts v = ((fds, some e), u) := by
  induction ts generalizing v with
  | nil => exact .inl ⟨[], v, rfl, .nil v⟩
  | cons t rest ih =>
      obtain ⟨path, mode⟩ := t
      rcases openPath_cases path mode v with ⟨cause, hopen⟩ | ⟨fd, u, hopen, hnul, hopening⟩
      · exact .inr ⟨[], ⟨path, cause⟩, mode, rest, [], v, rfl, .nil v, hopen,
          openEach_of_error hopen rest⟩
      · rw [openEach_of_ok hopen]
        rcases ih u with ⟨fds, v', hrest, hopens⟩ | ⟨before, e, m, after, fds, w, rfl, hopens, herr, hrest⟩
        · rw [hrest]
          exact .inl ⟨fd :: fds, v', rfl, .cons hnul hopening hopens⟩
        · rw [hrest]
          exact .inr ⟨(path, mode) :: before, e, m, after, fd :: fds, w, rfl,
            .cons hnul hopening hopens, herr, rfl⟩

namespace Opens

variable {ts : List (String × Call.Mode)} {v v' : View} {fds : List Fd}

/-- Each opening makes one open file. -/
theorem size (h : Opens ts v fds v') : v'.world.files.size = v.world.files.size + ts.length := by
  induction h with
  | nil v => rfl
  | cons hnul hopening _ ih =>
      obtain ⟨id, -, hfiles⟩ := hopening.node
      rw [ih, hfiles, Array.size_push, List.length_cons]
      omega

/-- The descriptors that are new are those of the openings. -/
theorem adds (h : Opens ts v fds v') : Adds v.process.fds fds v'.process.fds := by
  induction h with
  | nil v => exact .nil _
  | @cons path mode rest v u v' fd fds hnul hopening _ ih =>
      have first : Adds v.process.fds [fd] u.process.fds := by
        rw [hopening.process]
        exact (Adds.nil _).set hopening.free _ (by simp)
      exact first.trans ih

/-- They lead to the open files of the openings, in their order. -/
theorem file? (h : Opens ts v fds v') {i : Nat} {fd : Fd} (hi : fds[i]? = some fd) :
    v'.process.fds.file? fd = some (v.world.files.size + i) := by
  induction h generalizing i with
  | nil v => cases hi
  | @cons path mode rest v u v' first fds hnul hopening hrest ih =>
      obtain ⟨id, -, hfiles⟩ := hopening.node
      cases i with
      | zero =>
          cases hi
          have hopen : u.process.fds.get? fd = some ⟨v.world.files.size, mode.closeOnExec⟩ := by
            rw [hopening.process]
            simp
          rw [FdTable.file?, hrest.adds.same fd fun hmem => ?_, hopen]
          · rfl
          · rw [hrest.adds.free fd hmem] at hopen
            cases hopen
      | succ i =>
          rw [ih hi, hfiles, Array.size_push]
          congr 1
          omega

end Opens

-- ============================================================= attachments

/-- Replacing gives each stream the open file of its source. -/
theorem replaceAll_get? {ts : List (Fd × Fd)} {v v' : View}
    (h : (replaceAll ts).attempt v = (.ok ⟨⟩, v')) (hts : ∀ t ∈ ts, Fd.stderr < t.1 ∧ t.2 ≤ Fd.stderr)
    (hnodup : (ts.map Prod.snd).Nodup) :
    (∀ t ∈ ts, ∀ n, v.process.fds.file? t.1 = some n →
      v'.process.fds.get? t.2 = some ⟨n, false⟩) ∧
    ∀ fd, fd ∉ ts.map Prod.snd → v'.process.fds.get? fd = v.process.fds.get? fd := by
  induction ts generalizing v with
  | nil =>
      cases h
      exact ⟨nofun, fun _ _ => rfl⟩
  | cons t rest ih =>
      obtain ⟨fd, stream⟩ := t
      obtain ⟨hfd, hstream⟩ := hts _ List.mem_cons_self
      have hne : fd ≠ stream := Nat.ne_of_gt (Nat.lt_of_le_of_lt hstream hfd)
      obtain ⟨hnot, hnodup⟩ := List.nodup_cons.mp hnodup
      cases hx : v.process.fds.get? fd with
      | none =>
          have hclosed : (Call.dup2 fd stream).attempt v = (.error .EBADF, v) := by
            simp only [Call.dup2, Call.attempt, bind, EStateM.bind, Call.handle, hx]
          rw [replaceAll, Call.attempt_bind_error hclosed] at h
          cases h
      | some x =>
          rw [replaceAll, Call.attempt_bind_ok (Call.dup2_of_open hx hne)] at h
          have table (other : Fd) : (v.modifyFds (·.set stream { x with closeOnExec := false })).process.fds.get? other
              = if other = stream then some { x with closeOnExec := false }
                else v.process.fds.get? other := FdTable.get?_set ..
          obtain ⟨hgets, hothers⟩ := ih h (fun t ht => hts t (List.mem_cons_of_mem _ ht)) hnodup
          refine ⟨fun t ht n hn => ?_, fun other ho => ?_⟩
          · rcases List.mem_cons.mp ht with rfl | ht
            · rw [FdTable.file?, hx] at hn
              cases hn
              rw [hothers stream hnot, table, if_pos rfl]
            · refine hgets t ht n ?_
              have hne' : t.1 ≠ stream :=
                Nat.ne_of_gt (Nat.lt_of_le_of_lt hstream (hts t (List.mem_cons_of_mem _ ht)).1)
              rw [FdTable.file?, table, if_neg hne']
              exact hn
          · rw [List.map_cons, List.mem_cons, not_or] at ho
            rw [hothers other ho.2, table, if_neg ho.1]

/-- The stream of an opening is replaced by what was opened for it, and no
other stream is replaced. -/
theorem mem_targets_iff {c : Command} {o : Opened} (h : c.Fits o) {y fd : Fd} :
    (y, fd) ∈ targets o ↔ (c.opening? fd).bind ((held o)[·]?) = some y := by
  obtain ⟨verb, argv, ci, co, ce⟩ := c
  obtain ⟨input, output, error, shared⟩ := o
  obtain ⟨hin, hout, herr, hshared⟩ := h
  rcases Fd.standard_or_above fd with rfl | rfl | rfl | above
  all_goals
    cases ci <;> cases co <;> cases ce <;> cases input <;> cases output <;> cases error <;>
      simp_all [targets, held, Command.opening?, Command.sharesOutputAndError, Fd.stdin, Fd.stdout,
        Fd.stderr] <;> grind

end Redirection

/-- A file of the command cannot be opened. Those before it were opened,
nothing was done for it nor for those after it, and no descriptor is left. -/
structure Command.Unopened (c : Command) (e : RedirectError) (v v' : View) : Prop where
  first : ∃ before mode after fds, c.openings = before ++ (e.path, mode) :: after ∧
    ∃ u, Redirection.Opens before v fds u ∧ Redirection.openPath e.path mode u = (.error e, u) ∧
      v'.world = u.world
  same : v'.process.fds.Same v.process.fds

/-- All files of the command were opened, and are in place of its streams;
the world has not changed since, and all other descriptors are as they were
before. -/
structure Command.Attached (c : Command) (v v' x x' : View) : Prop where
  opened : ∃ fds, Redirection.Opens c.openings v fds v'
  streams : ∀ fd, x'.process.fds.get? fd = match c.opening? fd with
    | some i => some ⟨v.world.files.size + i, false⟩
    | none => v.process.fds.get? fd
  world : x'.world = x.world

namespace Redirection

variable {c : Command} {v v' : View} {o : Opened} {e : RedirectError}

theorem unopened_of_openAll (h : openAll c v = (.error e, v')) : c.Unopened e v v' := by
  rcases openAll_each c v with ⟨e', fds, u, heach, hall⟩ | ⟨o, u, -, hall, -⟩
  · rw [h] at hall
    cases hall
    rcases openEach_cases c.openings v with ⟨fds', u', hcase, -⟩ |
      ⟨before, e', mode, after, fds', u', hsplit, hopens, herr, hcase⟩
    · rw [heach] at hcase
      cases hcase
    · rw [heach] at hcase
      cases hcase
      refine ⟨⟨before, mode, after, fds, hsplit, u, hopens, herr, closeAll_keeps Call.handling_inward fds u⟩, ?_⟩
      exact (closeAll_without fds u).trans hopens.adds.without_same
  · rw [h] at hall
    cases hall

theorem opens_of_openAll (h : openAll c v = (.ok o, v')) :
    Opens c.openings v (held o) v' ∧ c.Fits o := by
  rcases openAll_each c v with ⟨e', fds, u, -, hall⟩ | ⟨o', u, heach, hall, hfits⟩
  · rw [h] at hall
    cases hall
  · rw [h] at hall
    cases hall
    rcases openEach_cases c.openings v with ⟨fds', u', hcase, hopens⟩ |
      ⟨before, e', mode, after, fds', u', -, -, -, hcase⟩
    · rw [heach] at hcase
      cases hcase
      exact ⟨hopens, hfits⟩
    · rw [heach] at hcase
      cases hcase

/-- No stream is replaced twice. -/
theorem nodup_targets (o : Opened) (h : o.shared = true → o.error = none) :
    ((targets o).map Prod.snd).Nodup := by
  obtain ⟨input, output, error, shared⟩ := o
  cases input <;> cases output <;> cases error <;> cases shared <;>
    simp_all [targets, Fd.stdin, Fd.stdout, Fd.stderr]

/-- What was opened is attached, unless the table was changed meanwhile. -/
theorem attached_of_openAll (h : openAll c v = (.ok o, v')) (hstd : v.process.fds.Standard)
    {x : View} (hx : x.process.fds = v'.process.fds) :
    ∃ x', attach o x = (.ok ⟨⟩, x') ∧ c.Attached v v' x x' := by
  obtain ⟨hopens, hfits⟩ := opens_of_openAll h
  have hadds : Adds v.process.fds (held o) x.process.fds := by
    rw [hx]
    exact hopens.adds
  obtain ⟨x₁, hreplace⟩ : ∃ x₁, (replaceAll (targets o)).attempt x = (.ok ⟨⟩, x₁) :=
    replaceAll_ok fun t ht => hadds.isOpen t.1 (mem_targets ht).1
  obtain ⟨hgets, hothers⟩ := replaceAll_get? hreplace
    (fun t ht => ⟨(hadds.beyond hstd t.1 (mem_targets ht).1).1, (mem_targets ht).2⟩)
    (nodup_targets o fun hshared => by
      have := hfits.error
      rw [hfits.shared] at hshared
      simpa [hshared] using this)
  have hattach : attach o x = (.ok ⟨⟩, closeAll (held o) x₁) := by rw [attach, hreplace]
  refine ⟨_, hattach, ⟨⟨held o, hopens⟩, fun fd => ?_, ?_⟩⟩
  · rw [closeAll_without (held o) x₁ fd, get?_without]
    cases hop : c.opening? fd with
    | none =>
        have hnot : fd ∉ (targets o).map Prod.snd := fun hmem => by
          obtain ⟨⟨y, stream⟩, ht, rfl⟩ := List.mem_map.mp hmem
          have hsome := (mem_targets_iff hfits).mp ht
          rw [hop] at hsome
          cases hsome
        split
        · next hmem => exact (hadds.free fd hmem).symm
        · next hmem => exact (hothers fd hnot).trans (hadds.same fd hmem)
    | some i =>
        have hi : i < (held o).length := by
          rw [held_length hfits]
          exact Command.opening?_lt hop
        have hy := List.getElem?_eq_getElem hi
        have ht : ((held o)[i], fd) ∈ targets o := (mem_targets_iff hfits).mpr (by rw [hop]; exact hy)
        have hnot : fd ∉ held o := fun hmem =>
          Nat.not_le_of_lt (hadds.beyond hstd fd hmem).1 (mem_targets ht).2
        rw [if_neg hnot]
        exact hgets _ ht _ (by rw [hx]; exact hopens.file? hy)
  · have inward := attach_keeps Call.handling_inward o x
    rw [hattach] at inward
    exact inward

end Redirection

end LineShell
