/-
How commands come to write to their files.

# By itself

A process is by itself if each of its requests finds what the one before has
left (`Prog.Event.Alone`). What it does then is to write to some descriptors,
chunk by chunk as far as these are taken, and else what is aside of them
(`Alone.writes`).

# Programs and builtins

The process of an external command opens the command's files and puts them in
place before it does anything else (`opened_of_makes`). What it writes from then
on, as the program that it is replaced by or because no program was found, makes
it a run of the command (`Leaf.runs_of_external`). So
does what a builtin writes, in whichever process (`Leaf.runs_of_builtin`).
-/
import LineShell.Proofs.Redirection.Contents

namespace LineShell

open Posix

variable {ρ : Type}

-- ================================================================== events

namespace Posix

namespace Prog.Event

/-- What each request finds is what the one before has left. -/
inductive Alone : View → List Event → View → Prop where
  | nil (v : View) : Alone v [] v
  | cons {v v' : View} {y : Event} {ys : List Event} : y.before = v → y.Sound →
      Alone y.after ys v' → Alone v (y :: ys) v'

/-- What was written to one of the descriptors. -/
def chunk? (fds : List Fd) : Event → Option (Fd × Bytes)
  | wrote _ fd data taken _ => if fd ∈ fds then some (fd, data.take taken) else none
  | acted _ _ | unwritten _ _ _ _ | refused _ _ _ _ => none

/-- All that was written to the descriptors. -/
def chunks (fds : List Fd) (ys : List Event) : Chunks := ys.filterMap (chunk? fds)

/-- The event is no chunk for the descriptors, and is aside of them. -/
def Aside (fds : List Fd) (y : Event) : Prop :=
  y.chunk? fds = none → y.before.Aside fds y.after

namespace Alone

variable {v v' : View} {xs ys : List Event} {fds : List Fd}

theorem linked (h : Alone v ys v') : Linked v ys v' := by
  induction h with
  | nil v => exact .nil (.refl v)
  | cons hbefore _ _ ih => exact .cons (by rw [hbefore]; exact .refl _) ih

theorem sound (h : Alone v ys v') : ∀ y ∈ ys, y.Sound := by
  induction h with
  | nil => exact fun _ hy => absurd hy (List.not_mem_nil)
  | cons _ hsound _ ih => exact List.forall_mem_cons.mpr ⟨hsound, ih⟩

/-- Idle events leave everything as it was. -/
theorem idle (h : Alone v ys v') (hidle : ∀ y ∈ ys, y.Idle) : v' = v := by
  induction h with
  | nil => rfl
  | cons hbefore _ _ ih =>
      obtain ⟨hy, hys⟩ := List.forall_mem_cons.mp hidle
      rw [ih hys, hy, hbefore]

theorem writes (h : Alone v ys v') (haside : ∀ y ∈ ys, y.Aside fds) :
    v.Writes fds (chunks fds ys) v' := by
  induction h with
  | nil v => exact .nil v
  | @cons v v' y ys hbefore hsound _ ih =>
      obtain ⟨hy, hys⟩ := List.forall_mem_cons.mp haside
      cases hc : y.chunk? fds with
      | none =>
          rw [chunks, List.filterMap_cons_none hc]
          exact .aside (hbefore ▸ hy hc) (ih hys)
      | some w =>
          rw [chunks, List.filterMap_cons_some hc]
          cases y with
          | acted | unwritten | refused => cases hc
          | wrote u fd data taken u' =>
              simp only [chunk?] at hc
              split at hc
              · next hfd =>
                cases hc
                cases hbefore
                exact .chunk hfd hsound.2 (ih hys)
              · cases hc

end Alone

end Prog.Event

/-- What a process sees that has been replaced by another program. -/
def View.loaded (v : View) : View :=
  v.modifyProcess fun p => { p with fds := p.fds.afterExec, caught := [], pending := [] }

/-- A descriptor that is not to be closed is there in the other program. -/
theorem FdTable.get?_afterExec {t : FdTable} {fd : Fd} {n : Nat} (h : t.get? fd = some ⟨n, false⟩) :
    t.afterExec.get? fd = some ⟨n, false⟩ := by
  obtain ⟨rows⟩ := t
  change rows.lookup fd = some ⟨n, false⟩ at h
  change (rows.filter (!·.2.closeOnExec)).lookup fd = some ⟨n, false⟩
  induction rows with
  | nil => cases h
  | cons r rest ih =>
      obtain ⟨other, x⟩ := r
      rw [List.lookup_cons] at h
      by_cases he : fd = other
      · subst he
        simp only [beq_self_eq_true] at h
        cases h
        simp
      · have hne : (fd == other) = false := by simpa using he
        rw [hne] at h
        rw [List.filter_cons]
        split
        · rw [List.lookup_cons, hne]
          exact ih h
        · exact ih h

/-- Being replaced is aside of descriptors that stay. -/
theorem View.Aside.loaded {v : View} {fds : List Fd}
    (h : ∀ fd ∈ fds, ∃ n, v.process.fds.get? fd = some ⟨n, false⟩) : v.Aside fds v.loaded := by
  refine .of_world (fun fd hfd => ?_) rfl
  obtain ⟨n, hn⟩ := h fd hfd
  have hn' : v.loaded.process.fds.get? fd = some ⟨n, false⟩ := FdTable.get?_afterExec hn
  rw [FdTable.file?, FdTable.file?, hn, hn']

end Posix

open Prog.Event Redirection

-- ================================================================ programs

variable {c : Command} {u w : View} {q : Prog ρ} {ys : List Prog.Event}

/-- Who gives up is left to write, or to exit. -/
theorem makes_giveUp {message : String} {status : Int}
    (h : (giveUp message status : Task ρ Empty).run.Makes ys q) (halone : Alone u ys w) :
    (∃ rest next, q = .write Fd.stderr rest next) ∨ q = .exit (.exited status) := by
  rcases told_of_makes _ _ (Nat.lt_succ_self _) h halone.linked halone.sound with
    ⟨xs, zs, r, -, -, hexit⟩ | ⟨rest, next, -, -, rfl, -⟩
  · exact .inr hexit.of_exit.2
  · exact .inl ⟨rest, next, rfl⟩

/-- A process that is to run the command and has come to look for its program, or
to an end although its files could be opened, has put them in place. -/
theorem opened_of_makes (h : (runExternal c : Task ρ Empty).run.Makes ys q) (halone : Alone u ys w)
    (hstd : u.process.fds.Standard) (hq : ∀ act next, q ≠ .step act next)
    (hopened : (openAll c (defaultPipeSignal u)).1.isOk ∨
      ∃ path argv next, q = .exec path argv next) :
    ∃ o v p zs, openAll c (defaultPipeSignal u) = (.ok o, v) ∧ attach o v = (.ok ⟨⟩, p) ∧
      (onceAttached c : Task ρ Empty).run.Makes zs q ∧ Alone p zs w ∧ ys.drop 3 = zs := by
  rw [run_runExternal] at h
  obtain ⟨rfl, rfl⟩ | ⟨u₁, ys₁, rfl, h₁⟩ := h.of_step
  · exact absurd rfl (hq _ _)
  obtain ⟨rfl, rfl⟩ | ⟨u₂, ys₂, rfl, h₂⟩ := h₁.of_step
  · exact absurd rfl (hq _ _)
  obtain _ | ⟨hu, -, _ | ⟨hu', -, halone₂⟩⟩ := halone
  obtain rfl : u₁ = u := hu
  obtain rfl : u₂ = defaultPipeSignal u₁ := hu'
  rcases hopen : openAll c (defaultPipeSignal u₁) with ⟨e | o, v⟩
  · simp only [hopen] at h₂ halone₂ hopened
    rcases hopened with hopened | ⟨path, argv, next, rfl⟩
    · cases hopened
    · rcases makes_giveUp h₂ halone₂ with ⟨rest, next', heq⟩ | heq
      · cases heq
      · cases heq
  · simp only [hopen] at h₂ halone₂
    obtain ⟨rfl, rfl⟩ | ⟨x, ys₃, rfl, h₃⟩ := h₂.of_step
    · exact absurd rfl (hq _ _)
    obtain _ | ⟨hx, -, halone₃⟩ := halone₂
    obtain rfl : x = v := hx
    obtain ⟨p, hattach, -⟩ := attached_of_openAll hopen hstd (x := x) rfl
    simp only [hattach] at h₃ halone₃
    exact ⟨o, x, p, ys₃, rfl, hattach, h₃, halone₃, rfl⟩

/-- It looks for its program with everything in place, and nothing changed since. -/
theorem exec_of_onceAttached {path : Bytes} {argv : List Bytes} {next : Errno → Prog ρ}
    (h : (onceAttached c : Task ρ Empty).run.Makes ys (.exec path argv next))
    (halone : Alone u ys w) : w = u := by
  unfold onceAttached at h
  split at h
  · rcases makes_giveUp h halone with ⟨rest, next', heq⟩ | heq
    · cases heq
    · cases heq
  rcases Search.looks_execByName _ _ _ _ _ h with
    ⟨xs, zs, cause, rfl, -, -, hrest⟩ | ⟨q', -, -, -, hidle⟩
  · have hlinked := halone.linked
    obtain ⟨x, -, hzs⟩ := hlinked.append
    rcases told_of_makes _ _ (Nat.lt_succ_self _) hrest hzs
        (fun y hy => halone.sound y (List.mem_append_right _ hy)) with
      ⟨_, _, _, -, -, hexit⟩ | ⟨_, _, -, -, heq, -⟩
    · cases hexit.of_exit.2
    · cases heq
  · exact halone.idle hidle

/-- A process by itself that is to run the command, to its end: what it has done
once the files were in place, as the program that was found, or as none was. -/
inductive Command.Completes (programs : Installed ρ) (c : Command) (u : View) :
    List Prog.Event → View → Prop where
  | loaded {p w : View} {xs ys : List Prog.Event} {path : Bytes} {argv : List Bytes}
      {next : Errno → Prog ρ} {i : Machine.Image} {how : Ending} :
      (runExternal c : Task ρ Empty).run.Makes xs (.exec path argv next) → Alone u xs p →
      p.image path argv = .ok i → (programs i.program i.argv).Makes ys (.exit how) →
      Alone p.loaded ys w → Completes programs c u ys w
  | refused {w : View} {ys : List Prog.Event} {how : Ending} :
      (openAll c (defaultPipeSignal u)).1.isOk →
      (runExternal c : Task ρ Empty).run.Makes ys (.exit how) → Alone u ys w →
      Completes programs c u (ys.drop 3) w

namespace Leaf

variable {path : String} {x : Leaf path} {v v' p : View}

/-- A process that has what the shell has, and of whose writing the command's chunks
are taken, has run the command. -/
theorem runs_of_external {programs : Installed ρ} (hworld : u.world = v.world)
    (hfds : u.process.fds = v.process.fds) (hcwd : u.process.cwd = v.process.cwd)
    (hstd : v.process.fds.Standard) (h : x.command.Completes programs u ys w)
    (haside : ∀ y ∈ ys, y.Aside x.command.outlets)
    (hchunks : Prog.Event.chunks x.command.outlets ys = x.writes) :
    x.Runs v { v with world := w.world } := by
  have hstd' : u.process.fds.Standard := hfds ▸ hstd
  -- what is left once the files are in place
  have once {o : Opened} {t p : View} (hopen : openAll x.command (defaultPipeSignal u) = (.ok o, t))
      (hattach : attach o t = (.ok ⟨⟩, p)) (hwrites : p.Writes x.command.outlets x.writes w) :
      x.Runs v { v with world := w.world } :=
    .apart (u := defaultPipeSignal u) hworld hfds hcwd hopen (.inl hattach) hwrites
  cases h with
  | loaded hsearch hxs himage hprogram hys =>
      obtain ⟨o, t, p', zs, hopen, hattach, hmakes, hzs, -⟩ :=
        opened_of_makes hsearch hxs hstd' (fun _ _ heq => by cases heq) (.inr ⟨_, _, _, rfl⟩)
      obtain rfl := exec_of_onceAttached hmakes hzs
      refine once hopen hattach (.aside (.loaded fun fd hfd => ?_) (hchunks ▸ hys.writes haside))
      exact ⟨_, (streams_of_attaches hopen hstd' (.inl hattach)).2 fd (Command.outlets_le hfd) _
        (x.outputs.opening? hfd)⟩
  | refused hopened hmakes hys =>
      obtain ⟨o, t, p, zs, hopen, hattach, -, hzs, rfl⟩ :=
        opened_of_makes hmakes hys hstd' (fun _ _ heq => by cases heq) (.inl hopened)
      exact once hopen hattach (hchunks ▸ hzs.writes haside)

-- ================================================================ builtins

/-- What a builtin does is to report a failure, or it has to do with its process. -/
theorem body_cases (b : Builtin) (c : Command) (s : View) :
    (∃ message, b.body c s = Builtin.refuse message s) ∨
      ((b.body c s).2.world = s.world ∧ (b.body c s).2.process.fds = s.process.fds) := by
  cases b with
  | cd =>
      simp only [Builtin.body]
      unfold Builtin.runCd
      split
      · next path hparams =>
        simp only
        split
        · exact .inl ⟨_, rfl⟩
        rcases Builtin.changeDir_spec (Bytes.ofString (Builtin.expandTilde s.process.env path)) s with
          ⟨e, he⟩ | ⟨id, -, he⟩
        · rw [he]
          exact .inl ⟨_, rfl⟩
        · rw [he]
          exact .inr ⟨rfl, rfl⟩
      · exact .inl ⟨_, rfl⟩
      · exact .inl ⟨_, rfl⟩
  | exit =>
      simp only [Builtin.body]
      unfold Builtin.runExit
      split
      · exact .inr ⟨rfl, rfl⟩
      · exact .inl ⟨_, rfl⟩
  | assign =>
      simp only [Builtin.body]
      unfold Builtin.runAssign
      split
      · exact .inl ⟨_, rfl⟩
      · split
        · exact .inl ⟨_, rfl⟩
        · exact .inr ⟨rfl, rfl⟩

/-- A builtin writes no chunk, or it reports, and error goes to the file. -/
theorem exists_writes_body {s : View} {id : NodeId} {data : Bytes} (b : Builtin)
    (hs : s.WritesTo c.outlets id data)
    (haside : c.error = none → ∀ message, s.Aside c.outlets (report message s)) :
    ∃ ws : Chunks, (∀ w ∈ ws, w.1 ∈ c.outlets) ∧ s.Writes c.outlets ws (b.body c s).2 := by
  have none_reach : ∀ w ∈ ([] : Chunks), w.1 ∈ c.outlets := fun _ hw => absurd hw List.not_mem_nil
  rcases body_cases b c s with ⟨message, hbody⟩ | ⟨hworld, hfds⟩
  · have hafter : (b.body c s).2 = report message s := by rw [hbody]; rfl
    rw [hafter]
    cases herror : c.error with
    | none => exact ⟨[], none_reach, .aside (haside herror message) (.nil _)⟩
    | some r =>
        have hmem : Fd.stderr ∈ c.outlets := by simp [Command.outlets, herror]
        obtain ⟨s', hwrite, -⟩ := hs.write hmem (reportLine message)
        have hreport : report message s = s' := by rw [report, Call.after, hwrite]
        refine ⟨[(Fd.stderr, reportLine message)],
          fun w hw => by rw [List.mem_singleton.mp hw]; exact hmem, .chunk hmem hwrite ?_⟩
        rw [hreport]
        exact .nil _
  · exact ⟨[], none_reach, .aside (.of_world (fun _ _ => by rw [hfds]) hworld) (.nil _)⟩

/-- A builtin whose files could be opened and put in place has run, in a process that
has what the shell has, and in the shell's if that does not end with it. If it
reports and error is redirected, that is the chunk; else it has to report to a
file that is none of the command's. -/
theorem runs_of_builtin {b : Builtin} {append : Bool} {data : Bytes} {o : Opened} {g : Guard}
    {s t : View} (houtputs : c.Outputs path append) (hworld : u.world = v.world)
    (hfds : u.process.fds = v.process.fds) (hcwd : u.process.cwd = v.process.cwd)
    (hlimit : u.process.fdLimit = v.process.fdLimit)
    (hdata : v.HasData (Bytes.ofString path) data) (hstd : v.process.fds.Standard)
    (hopen : openAll c u = (.ok o, t)) (hattach : attachScoped o t = (.ok g, s))
    (haside : c.error = none → ∀ message, s.Aside c.outlets (report message s)) :
    ∃ x : Leaf path, x.command = c ∧ x.append = append ∧
      x.Runs v { v with world := (b.run c u).2.world } ∧
      ∀ n, u = v → (b.run c u).1 = .status n →
        FileTree.origin (b.run c u).2.process.cwd (Bytes.ofString path)
          = FileTree.origin v.process.cwd (Bytes.ofString path) → x.Runs v (b.run c u).2 := by
  have hu : v.Grows u := ⟨by rw [hworld]; exact .refl _, by rw [hworld]; exact .refl _,
    fun fd n hn => by rw [hfds]; exact hn⟩
  obtain ⟨id, hopened⟩ := openedFor_of_openAll houtputs hdata hu (by rw [hworld]) hcwd hopen
  obtain ⟨ws, hreaches, hwrites⟩ := exists_writes_body b
    (hopened.writesTo houtputs hopen (hfds ▸ hstd) (.inr ⟨g, hattach⟩)) haside
  have acts := Builtin.acts_body b c s
  have hlimit' : s.process.fdLimit = v.process.fdLimit := by
    have opened := openAll_keeps .limit c u
    have attached := attachScoped_keeps (.of_tolerant .limit) o t
    rw [hopen] at opened
    rw [hattach] at attached
    exact attached.trans (opened.trans hlimit)
  refine ⟨⟨c, append, houtputs, ws, hreaches⟩, rfl, rfl, ?_, fun n hsame hn horigin => ?_⟩
  · have hafter : (b.run c u).2.world = (b.body c s).2.world := by
      simp only [Builtin.run, hopen, hattach]
      split
      · next hbody => rw [hbody]
      · next n q hbody =>
        rw [hbody]
        exact restore_keeps Call.handling_inward g q
    rw [hafter]
    exact .apart hworld hfds hcwd hopen (.inr ⟨g, hattach⟩) hwrites
  · subst hsame
    rcases hbody : b.body c s with ⟨m | _, q⟩
    · have hrun : (b.run c u).2 = restore g q := by simp only [Builtin.run, hopen, hattach, hbody]
      rw [hbody] at hwrites acts
      rw [hrun, (restore_quiet g q).cwd] at horigin
      rw [hrun]
      exact .within hopen hattach hwrites acts.fds (acts.limit.trans hlimit') horigin
    · simp only [Builtin.run, hopen, hattach, hbody] at hn
      cases hn

end Leaf

end LineShell
