/-
What a builtin changes.

A builtin that returns leaves the descriptor table as it found it
(`run_alike`, and to the row by `run_leaves_no_trace`), whatever its
redirections come to, and at whichever of them it fails. Of working directory
and environment it changes what `Builtin.effect` says if it succeeded, and
nothing if it failed (`run_context`). `effect` is a function of the
directory and the environment alone, given the view in which the body
runs: the file tree that a path is resolved in, and what is held open.
-/
import LineShell.Proofs.Redirection

namespace LineShell

open Posix

-- =============================================================== contexts

/-- What later commands of a process find changed by builtins. -/
structure Context where
  cwd : NodeId
  env : Environment
  deriving DecidableEq, Repr, Inhabited

/-- The context of a process. -/
def Posix.Process.context (p : Process) : Context := ⟨p.cwd, p.env⟩

theorem Posix.View.Quiet.context {v v' : View} (h : v.Quiet v') :
    v'.process.context = v.process.context := by
  rw [Process.context, Process.context, h.cwd, h.env]

namespace Builtin

/-- The view in which the body of a builtin runs, its redirections in
place. -/
def staged (c : Command) (v : View) : View :=
  match Redirection.openAll c v with
  | (.error _, v) => v
  | (.ok opened, v) => (Redirection.attachScoped opened v).2

/-- What a builtin that succeeds makes of a context, its body running in a
view. -/
def effect (b : Builtin) (c : Command) (v : View) (ctx : Context) : Context :=
  match b, c.params with
  | cd, [path] =>
      match v.world.tree.find v.held ctx.cwd (Bytes.ofString (expandTilde ctx.env path)) with
      | .ok id => { ctx with cwd := id }
      | .error _ => ctx
  | assign, _ =>
      match splitAssignment c.verb with
      | some (name, value) => { ctx with env := ctx.env.set name value }
      | none => ctx
  | _, _ => ctx

-- ================================================================= bodies

/-- The node at a path is what the tree finds there. -/
theorem nodeAt_eq (path : Bytes) (v : View) : Call.nodeAt path .target v =
    match v.world.tree.find v.held v.process.cwd path with
    | .ok id => .ok id v
    | .error e => .error e v := by
  simp only [Call.nodeAt, FileTree.find, bind, EStateM.bind, Except.bind, Call.place,
    Call.ofExcept]
  cases v.world.tree.resolve v.held v.process.cwd path .target with
  | error e => rfl
  | ok p =>
      simp only
      cases p.node <;> rfl

/-- Going to a directory, or staying where one is. -/
theorem changeDir_spec (path : Bytes) (v : View) :
    (∃ e, (Call.changeDir path).attempt v = (.error e, v)) ∨
    ∃ id, v.world.tree.find v.held v.process.cwd path = .ok id ∧
      (Call.changeDir path).attempt v = (.ok (), v.modifyProcess ({ · with cwd := id })) := by
  unfold Call.changeDir
  rw [Call.attempt_bind, nodeAt_eq]
  cases hf : v.world.tree.find v.held v.process.cwd path with
  | error e => exact .inl ⟨e, rfl⟩
  | ok id =>
      simp only [Call.attempt_get_bind]
      cases v.world.tree.isDirectory id with
      | false => exact .inl ⟨.ENOTDIR, rfl⟩
      | true => exact .inr ⟨id, rfl, rfl⟩

theorem refuse_outward (message : String) (v : View) : v.Outward (refuse message v).2 :=
  Call.writeNow_outward _ _ v

/-- What the body of a builtin does to the view it runs in. -/
structure Acts (b : Builtin) (c : Command) (v : View) (r : BuiltinEnd × View) : Prop where
  onward : v.Onward r.2
  fds : r.2.process.fds = v.process.fds
  limit : r.2.process.fdLimit = v.process.fdLimit
  context : ∀ n, r.1 = .status n → r.2.process.context
    = if n = 0 then b.effect c v v.process.context else v.process.context

/-- A refusal is a failure without effect. -/
theorem acts_refuse (b : Builtin) (c : Command) (message : String) (v : View) :
    Acts b c v (refuse message v) where
  onward := (refuse_outward message v).quiet.toOnward
  fds := by rw [(refuse_outward message v).process]
  limit := by rw [(refuse_outward message v).process]
  context n hn := by
    have hn : n = exitFailure := (BuiltinEnd.status.inj hn).symm
    rw [(refuse_outward message v).process, hn, if_neg (by decide)]

theorem acts_cd (c : Command) (v : View) : Acts .cd c v (runCd c.params v) := by
  unfold runCd
  split
  · next path hp =>
    simp only
    split
    · exact acts_refuse _ _ _ _
    rcases changeDir_spec (Bytes.ofString (expandTilde v.process.env path)) v with
      ⟨e, he⟩ | ⟨id, hf, he⟩
    · rw [he]
      exact acts_refuse _ _ _ _
    · rw [he]
      refine ⟨⟨rfl, rfl, .refl _⟩, rfl, rfl, fun n hn => ?_⟩
      have hn : n = 0 := (BuiltinEnd.status.inj hn).symm
      simp only [hn, if_true, effect, hp, Process.context, hf]
      rfl
  · exact acts_refuse _ _ _ _
  · exact acts_refuse _ _ _ _

theorem acts_exit (c : Command) (v : View) : Acts .exit c v (runExit c.params v) := by
  unfold runExit
  split
  · exact ⟨⟨rfl, rfl, .refl _⟩, rfl, rfl, nofun⟩
  · exact acts_refuse _ _ _ _

theorem acts_assign (c : Command) (v : View) : Acts .assign c v (runAssign c.verb v) := by
  unfold runAssign
  split
  · exact acts_refuse _ _ _ _
  · next name value hs =>
    split
    · exact acts_refuse _ _ _ _
    · refine ⟨⟨rfl, rfl, .refl _⟩, rfl, rfl, fun n hn => ?_⟩
      have hn : n = 0 := (BuiltinEnd.status.inj hn).symm
      simp only [hn, if_true, effect, hs]
      rfl

theorem acts_body (b : Builtin) (c : Command) (v : View) : Acts b c v (b.body c v) := by
  cases b with
  | cd => exact acts_cd c v
  | exit => exact acts_exit c v
  | assign => exact acts_assign c v

-- =================================================================== runs

/-- How a run goes: its redirections fail, or its body runs in the staged
view and, unless the process ends there, a guard is restored that leads
back to the table from before. -/
theorem run_cases (b : Builtin) (c : Command) (v : View) :
    (∃ message, b.run c v = refuse message (staged c v) ∧
      (v.process.fds.Standard → (staged c v).process.fds.Alike v.process.fds)) ∨
    ∃ g, (v.process.fds.Standard →
        Redirection.GivesBack g.saved.reverse (staged c v).process.fds v.process.fds) ∧
      b.run c v = match b.body c (staged c v) with
        | (.leave, v') => (.leave, v')
        | (.status s, v') => (.status s, Redirection.restore g v') := by
  rcases Redirection.openAll_adds c v with ⟨e, v₁, hopen, hfds⟩ | ⟨o, v₁, hopen, hadds⟩
  · refine .inl ⟨e.message, ?_, fun _ => ?_⟩
    · simp only [run, staged, hopen]
    · simpa only [staged, hopen] using FdTable.Alike.of_get? hfds
  cases ha : Redirection.attachScoped o v₁ with
  | mk r v₂ =>
      have back (hstd : v.process.fds.Standard) := Redirection.attachScoped_givesBack hstd hadds
      rw [ha] at back
      cases r with
      | error e =>
          refine .inl ⟨c.verb ++ ": " ++ e.text, ?_, fun hstd => ?_⟩
          · simp only [run, staged, hopen, ha]
          · simp only [staged, hopen, ha]
            rcases back hstd with ⟨_, _, h, hfds⟩ | ⟨_, _, h, -⟩
            · cases h; exact hfds
            · cases h
      | ok g =>
          refine .inr ⟨g, fun hstd => ?_, ?_⟩
          · simp only [staged, hopen, ha]
            rcases back hstd with ⟨_, _, h, -⟩ | ⟨_, _, h, hback⟩
            · cases h
            · cases h; exact hback
          · rcases hbody : b.body c v₂ with ⟨_ | _, v'⟩ <;> simp only [run, staged, hopen, ha, hbody]

/-- A builtin's status says that it succeeded or that it failed. -/
theorem body_status {b : Builtin} {c : Command} {v : View} {n : Int}
    (h : (b.body c v).1 = .status n) : n = 0 ∨ n = exitFailure := by
  have refused : ∀ {message : String} {v : View}, (refuse message v).1 = .status n →
      n = 0 ∨ n = exitFailure := fun h => .inr (BuiltinEnd.status.inj h).symm
  cases b with
  | cd =>
      simp only [body, runCd] at h
      split at h
      · split at h
        · exact refused h
        · split at h
          · exact .inl (BuiltinEnd.status.inj h).symm
          · exact refused h
      · exact refused h
      · exact refused h
  | exit =>
      simp only [body, runExit] at h
      split at h
      · cases h
      · exact refused h
  | assign =>
      simp only [body, runAssign] at h
      split at h
      · exact refused h
      · split at h
        · exact refused h
        · exact .inl (BuiltinEnd.status.inj h).symm

theorem run_status {b : Builtin} {c : Command} {v : View} {n : Int}
    (h : (b.run c v).1 = .status n) : n = 0 ∨ n = exitFailure := by
  rcases run_cases b c v with ⟨message, hrun, -⟩ | ⟨g, -, hrun⟩
  · rw [hrun] at h
    exact .inr (BuiltinEnd.status.inj h).symm
  · rw [hrun] at h
    split at h
    · cases h
    · next hb =>
      cases h
      exact body_status (by rw [hb])

/-- Only `exit` ends the process, and only where it is given no arguments. -/
theorem body_leave {b : Builtin} {c : Command} {v : View} :
    (b.body c v).1 = .leave ↔ b = .exit ∧ c.params = [] := by
  have stays : ∀ {message : String} {v : View}, (refuse message v).1 ≠ .leave := nofun
  cases b with
  | cd =>
      refine ⟨fun h => ?_, fun h => absurd h.1 (by decide)⟩
      simp only [body, runCd] at h
      split at h
      · split at h
        · exact absurd h stays
        · split at h
          · cases h
          · exact absurd h stays
      · exact absurd h stays
      · exact absurd h stays
  | exit =>
      simp only [body, runExit, true_and]
      split
      · next hempty => exact ⟨fun _ => List.isEmpty_iff.mp hempty, fun _ => rfl⟩
      · next hempty =>
        exact ⟨fun h => absurd h stays, fun h => absurd (List.isEmpty_iff.mpr h) hempty⟩
  | assign =>
      refine ⟨fun h => ?_, fun h => absurd h.1 (by decide)⟩
      simp only [body, runAssign] at h
      split at h
      · exact absurd h stays
      · split at h
        · exact absurd h stays
        · cases h

/-- The redirections of the command can be opened and put in place. -/
def Redirects (c : Command) (v : View) : Prop :=
  ∃ opened v' guard v'', Redirection.openAll c v = (.ok opened, v') ∧
    Redirection.attachScoped opened v' = (.ok guard, v'')

instance {c : Command} {v : View} : Decidable (Redirects c v) :=
  match hopen : Redirection.openAll c v with
  | (.error _, _) => isFalse fun ⟨_, _, _, _, h, _⟩ => by
      rw [hopen] at h
      cases h
  | (.ok opened, v') =>
      match hattach : Redirection.attachScoped opened v' with
      | (.error _, _) => isFalse fun ⟨_, _, _, _, h, h'⟩ => by
          rw [hopen] at h
          cases h
          rw [hattach] at h'
          cases h'
      | (.ok guard, v'') => isTrue ⟨opened, v', guard, v'', hopen, hattach⟩

/-- A run ends the process just where the body does, with its redirections in
place. -/
theorem run_leave {b : Builtin} {c : Command} {v : View} :
    (b.run c v).1 = .leave ↔ b = .exit ∧ c.params = [] ∧ Redirects c v := by
  have stays : ∀ {message : String} {v : View}, (refuse message v).1 ≠ .leave := nofun
  unfold run Redirects
  split
  · next hopen =>
    refine ⟨fun h => absurd h stays, fun ⟨_, _, _, _, _, _, h, _⟩ => ?_⟩
    rw [hopen] at h
    cases h
  · next opened v₁ hopen =>
    split
    · next hattach =>
      refine ⟨fun h => absurd h stays, fun ⟨_, _, _, _, _, _, h, hattach'⟩ => ?_⟩
      rw [hopen] at h
      cases h
      rw [hattach] at hattach'
      cases hattach'
    · next guard v₂ hattach =>
      have redirects : ∃ opened v' guard v'', Redirection.openAll c v = (.ok opened, v') ∧
          Redirection.attachScoped opened v' = (.ok guard, v'') := ⟨_, _, _, _, hopen, hattach⟩
      have hbody := body_leave (b := b) (c := c) (v := v₂)
      split
      · next hleave =>
        rw [hleave] at hbody
        obtain ⟨hexit, hparams⟩ := hbody.mp rfl
        exact ⟨fun _ => ⟨hexit, hparams, redirects⟩, fun _ => rfl⟩
      · next hstatus =>
        rw [hstatus] at hbody
        exact ⟨nofun, fun ⟨hexit, hparams, _⟩ => hbody.mpr ⟨hexit, hparams⟩⟩

theorem staged_quiet (c : Command) (v : View) : v.Quiet (staged c v) := by
  have opened := Redirection.openAll_quiet c v
  unfold staged
  split
  · next h => rw [h] at opened; exact opened
  · next h =>
    rw [h] at opened
    exact opened.trans (Redirection.attachScoped_quiet _ _)

theorem run_onward (b : Builtin) (c : Command) (v : View) : v.Onward (b.run c v).2 := by
  have before := (staged_quiet c v).toOnward
  have acts := acts_body b c (staged c v)
  rcases run_cases b c v with ⟨message, h, -⟩ | ⟨g, -, h⟩
  · rw [h]
    exact before.trans (refuse_outward _ _).quiet.toOnward
  · rw [h]
    split
    · next hb => rw [hb] at acts; exact before.trans acts.onward
    · next hb =>
      rw [hb] at acts
      exact before.trans (acts.onward.trans (Redirection.restore_quiet _ _).toOnward)

/-- A builtin that returns leaves the descriptor table as it found it. -/
theorem run_alike {b : Builtin} {c : Command} {v v' : View} {n : Int}
    (hstd : v.process.fds.Standard) (h : b.run c v = (.status n, v')) :
    v'.process.fds.Alike v.process.fds := by
  have acts := acts_body b c (staged c v)
  rcases run_cases b c v with ⟨message, hrun, hfds⟩ | ⟨g, hback, hrun⟩
  · rw [hrun] at h
    obtain rfl : (refuse message (staged c v)).2 = v' := congrArg Prod.snd h
    rw [(refuse_outward _ _).process]
    exact hfds hstd
  · rw [hrun] at h
    split at h
    · cases h
    · next hb =>
      rw [hb] at acts
      cases h
      refine Redirection.restore_alike ?_
      rw [acts.fds]
      exact hback hstd

/-- No builtin changes how many descriptors the process may have. -/
theorem run_limit (b : Builtin) (c : Command) (v : View) :
    (b.run c v).2.process.fdLimit = v.process.fdLimit := by
  have opened := Redirection.openAll_keeps .limit c v
  have before : (staged c v).process.fdLimit = v.process.fdLimit := by
    unfold staged
    split
    · next h => rw [h] at opened; exact opened
    · next h =>
      rw [h] at opened
      exact (Redirection.attachScoped_keeps (.of_tolerant .limit) _ _).trans opened
  have acts := acts_body b c (staged c v)
  rcases run_cases b c v with ⟨message, hrun, -⟩ | ⟨g, -, hrun⟩
  · rw [hrun, (refuse_outward _ _).process]
    exact before
  · rw [hrun]
    split
    · next hb =>
      rw [hb] at acts
      exact acts.limit.trans before
    · next hb =>
      rw [hb] at acts
      exact (Redirection.restore_keeps (.of_tolerant .limit) g _).trans (acts.limit.trans before)

/-- Standard streams that stay open in later programs do so in the staged
view. -/
theorem staged_lasting {c : Command} {v : View} (hstd : v.process.fds.Standard)
    (hl : v.process.fds.Lasting) : (staged c v).process.fds.Lasting := by
  rcases Redirection.openAll_adds c v with ⟨e, v₁, hopen, hsame⟩ | ⟨o, v₁, hopen, hadds⟩
  · simp only [staged, hopen]
    exact .of_same hsame hl
  · have hl₁ : v₁.process.fds.Lasting := by
      intro fd hfd x hx
      exact hl fd hfd x ((hadds.stream hstd hfd).symm.trans hx)
    simp only [staged, hopen]
    exact Redirection.attachScoped_keeps Call.handling_lasting o v₁ hl₁

theorem run_lasting {b : Builtin} {c : Command} {v : View} (hstd : v.process.fds.Standard)
    (hl : v.process.fds.Lasting) : (b.run c v).2.process.fds.Lasting := by
  have before := staged_lasting (c := c) hstd hl
  have acts := acts_body b c (staged c v)
  rcases run_cases b c v with ⟨message, hrun, -⟩ | ⟨g, -, hrun⟩
  · rw [hrun, (refuse_outward _ _).process]
    exact before
  · rw [hrun]
    split
    · next hb =>
      rw [hb] at acts
      rw [acts.fds]
      exact before
    · next hb =>
      rw [hb] at acts
      refine Redirection.restore_keeps Call.handling_lasting g _ ?_
      rw [acts.fds]
      exact before

/-- A builtin that succeeds changes the context as it should, and one that
fails does not change it. -/
theorem run_context {b : Builtin} {c : Command} {v v' : View} {n : Int}
    (h : b.run c v = (.status n, v')) : v'.process.context
      = if n = 0 then b.effect c (staged c v) v.process.context else v.process.context := by
  have before := (staged_quiet c v).context
  have acts := acts_body b c (staged c v)
  rcases run_cases b c v with ⟨message, hrun, -⟩ | ⟨g, -, hrun⟩
  · rw [hrun] at h
    obtain rfl : (refuse message (staged c v)).2 = v' := congrArg Prod.snd h
    have hn : n = exitFailure := (BuiltinEnd.status.inj (congrArg Prod.fst h)).symm
    rw [(refuse_outward _ _).process, before, hn, if_neg (by decide)]
  · rw [hrun] at h
    split at h
    · cases h
    · next hb =>
      rw [hb] at acts
      cases h
      rw [(Redirection.restore_quiet _ _).context, acts.context n rfl, before]

/-- A builtin that returns leaves every descriptor as it was, and one that
fails changes neither the working directory nor the environment either.
Where a standard stream was to be closed in later programs, it may have become
one that stays, but leads to the same file. -/
theorem run_leaves_no_trace {b : Builtin} {c : Command} {v v' : View} {n : Int}
    (hstd : v.process.fds.Standard) (h : b.run c v = (.status n, v')) :
    v'.process.fds.Alike v.process.fds ∧
      (v.process.fds.Lasting → v'.process.fds.Same v.process.fds) ∧
      (n ≠ 0 → v'.process.cwd = v.process.cwd ∧ v'.process.env = v.process.env) := by
  have halike := run_alike hstd h
  refine ⟨halike, fun hl => halike.same ?_ hl, fun hn => ?_⟩
  · have := run_lasting (b := b) (c := c) hstd hl
    rwa [h] at this
  · have hcontext := run_context h
    rw [if_neg hn] at hcontext
    exact ⟨congrArg Context.cwd hcontext, congrArg Context.env hcontext⟩

/-- The file is open and output has been replaced when no number is left for
the copy of standard error. -/
theorem run_leaves_no_trace_half_replaced :
    let v := View.atTerminal.modifyProcess ({ · with fdLimit := 5 })
    let c : Command :=
      { verb := "cd", argv := ["cd", "/"], output := some ⟨"f", false⟩, error := some ⟨"f", false⟩ }
    let v' := (cd.run c v).2
    (Redirection.openAll c v).1.toOption = some { output := some 3, shared := true } ∧
      (cd.run c v).1 = .status exitFailure ∧ v'.process.fds.Same v.process.fds ∧
      v'.process.cwd = v.process.cwd ∧ v'.process.env = v.process.env := by
  intro v c v'
  have hstd : v.process.fds.Standard := View.atTerminal_standard
  have hrun : (cd.run c v).1 = .status exitFailure := by decide +kernel
  have hends : cd.run c v = (.status exitFailure, v') := Prod.ext hrun rfl
  obtain ⟨-, hsame, hkept⟩ := run_leaves_no_trace hstd hends
  exact ⟨by decide +kernel, hrun, hsame View.atTerminal_lasting, hkept (by decide)⟩

end Builtin

end LineShell
