/-
The course of a session.

# Statuses

The lines are handled in turn, and each leaves a status: a blank one that of the
line before it, one that cannot be read a failure, and a command that of its
tree (`Shell.Passed`). The prompt before a line is for the status of the line
before.

# Ends

A session that has ended did so at the end of its input, at a tree that failed,
or in a tree that left the shell, unless somebody has killed the shell
(`Shell.Concludes`). A failure is the one case in which the shell exits with one,
and then no later line has been looked at.
-/
import LineShell.Proofs.Launch.Outcome
import LineShell.Proofs.Shell.Lines

namespace LineShell.Shell

open Posix

variable {ρ : Type} {programs : Installed ρ} {look : Appearance} {m m' c d d' d'' : Machine ρ}
  {lines done rest later : List String} {line : String} {t : Tree} {status n : Int} {how : Ending}
  {k : Empty → Prog ρ}

-- ================================================================= statuses

/-- The shell may handle those lines, the last of which leaves that status, and leave the
machine like that. -/
inductive Passed (programs : Installed ρ) (look : Appearance) (m : Machine ρ) :
    List String → Int → Machine ρ → Prop where
  | start : Passed programs look m [] 0 m
  | blank {done : List String} {status : Int} {c d : Machine ρ} {line : String} :
      Passed programs look m done status c → c.Does programs (showPrompt look status) () d →
      isBlank line = true → Passed programs look m (done ++ [line]) status d
  | bad {done : List String} {status : Int} {c d d' : Machine ρ} {line : String} {e : SyntaxError} :
      Passed programs look m done status c → c.Does programs (showPrompt look status) () d →
      Tree.parse line = .error e → d.Does programs (complaint line e) () d' →
      Passed programs look m (done ++ [line]) exitFailure d'
  | command {done : List String} {status n : Int} {c d d' d'' : Machine ρ} {line : String}
      {t : Tree} :
      Passed programs look m done status c → c.Does programs (showPrompt look status) () d →
      Tree.parse line = .ok (some t) → d.Does programs t.perform (.ok n) d' →
      d'.Does programs (finish n) () d'' → Passed programs look m (done ++ [line]) n d''

/-- A session that has passed some lines is at the next, with that status. -/
theorem Passed.run (h : Passed programs look m done status c) (rest : List String) :
    Machine.Run programs (m.doing (session look (done ++ rest) 0 k))
      (c.doing (session look rest status k)) := by
  induction h generalizing rest with
  | start => exact .refl
  | @blank done status c d line hpassed hprompt hline ih =>
      have there := ih (line :: rest)
      rw [session_blank (parse_eq_none_iff.mpr hline)] at there
      rw [List.append_assoc]
      exact there.trans (hprompt _)
  | @bad done status c d d' line e hpassed hprompt hline hcomplaint ih =>
      have there := ih (line :: rest)
      rw [session_bad hline] at there
      rw [List.append_assoc]
      exact (there.trans (hprompt _)).trans (hcomplaint _)
  | @command done status n c d d' d'' line t hpassed hprompt hline hdoes hfinish ih =>
      have there := ih (line :: rest)
      rw [session_command hline] at there
      rw [List.append_assoc]
      exact ((there.trans (hprompt _)).trans (hdoes _)).trans (hfinish fun _ => session look rest n k)

/-- After those lines the shell may be about to execute the tree of the next one. -/
def Reaches (programs : Installed ρ) (look : Appearance) (m : Machine ρ) (done : List String)
    (line : String) (t : Tree) (d : Machine ρ) : Prop :=
  ∃ status c, Passed programs look m done status c ∧
    c.Does programs (showPrompt look status) () d ∧ Tree.parse line = .ok (some t)

/-- The status is that of the last line that is not blank. -/
def Latest (programs : Installed ρ) (look : Appearance) (m : Machine ρ) (done : List String)
    (status : Int) : Prop :=
  (status = 0 ∧ ∀ line ∈ done, isBlank line = true) ∨
    ∃ before line blanks, done = before ++ line :: blanks ∧ isBlank line = false ∧
      (∀ line ∈ blanks, isBlank line = true) ∧
      ((status = 1 ∧ ∃ e, Tree.parse line = .error e) ∨
        ∃ t d d', Reaches programs look m before line t d ∧ d.Does programs t.perform (.ok status) d')

theorem Passed.latest (h : Passed programs look m done status c) :
    Latest programs look m done status := by
  induction h with
  | start => exact .inl ⟨rfl, nofun⟩
  | @blank done status c d line hpassed hprompt hline ih =>
      have further {lines : List String} (hblanks : ∀ line ∈ lines, isBlank line = true) :
          ∀ l ∈ lines ++ [line], isBlank l = true := by
        rintro l hl
        rcases List.mem_append.mp hl with hl | hl
        · exact hblanks l hl
        · exact List.mem_singleton.mp hl ▸ hline
      rcases ih with ⟨hstatus, hblanks⟩ | ⟨before, l, blanks, rfl, hl, hblanks, hcase⟩
      · exact .inl ⟨hstatus, further hblanks⟩
      · exact .inr ⟨before, l, blanks ++ [line], by simp, hl, further hblanks, hcase⟩
  | @bad done status c d d' line e hpassed hprompt hline hcomplaint ih =>
      have hblank := isBlank_eq_false (by rw [hline]; exact nofun)
      exact .inr ⟨done, line, [], rfl, hblank, nofun, .inl ⟨rfl, e, hline⟩⟩
  | @command done status n c d d' d'' line t hpassed hprompt hline hdoes hfinish ih =>
      have hblank := isBlank_eq_false (by rw [hline]; exact nofun)
      exact .inr ⟨done, line, [], rfl, hblank, nofun,
        .inr ⟨t, d, d', ⟨status, c, hpassed, hprompt, hline⟩, hdoes⟩⟩

-- ===================================================================== ends

/-- How a session may have ended. -/
inductive Concludes (programs : Installed ρ) (look : Appearance) (m : Machine ρ)
    (lines : List String) (m' : Machine ρ) : Ending → Prop where
  /-- The input has. -/
  | input {status : Int} {c : Machine ρ} : Passed programs look m lines status c →
      Machine.Run programs (c.doing (session look [] status).run) m' →
      Concludes programs look m lines m' (.exited 0)
  /-- A tree has failed, and no later line is read. -/
  | failure {done later : List String} {line : String} {t : Tree} {d d' : Machine ρ}
      {e : ExecError} :
      lines = done ++ line :: later → Reaches programs look m done line t d →
      d.Does programs t.perform (.error e) d' → Machine.Run programs (d'.doing (abort e).run) m' →
      Concludes programs look m lines m' (.exited 1)
  /-- The shell was left by an `exit` in a tree. -/
  | left {done later : List String} {line : String} {t : Tree} {d : Machine ρ} :
      lines = done ++ line :: later → Reaches programs look m done line t d →
      (∃ q u v, t.sub? q = some (.leaf u) ∧ Builtin.lookup u = some .exit ∧ u.params = [] ∧
        Builtin.Redirects u v) →
      (∀ k, Machine.Run programs (d.doing (t.perform k)) m') →
      Concludes programs look m lines m' (.exited 0)
  /-- Somebody has killed the shell. -/
  | killed (n : Int) : Concludes programs look m lines m' (.signaled n)

section

variable (hprograms : ∀ name args, (programs name args).Respects .onward)
include hprograms

/-- After a tree that has failed the shell exits with one, whatever it was to read yet. -/
theorem abort_ends {e : ExecError} (hsound : (m.doing (abort e k)).Sound)
    (hrun : Machine.Run programs (m.doing (abort e k)) m') (hended : m'.standing = .ended how) :
    how = .exited 1 ∨ ∃ n, how = .signaled n := by
  have plain : (abort e : Task ρ Empty).Plain (· = .exited 1) :=
    (Task.plain_modify _).bind fun _ => (Task.plain_modify _).bind fun _ => .exit rfl
  rcases hsound.ends_of_plain hprograms plain hrun hended with ⟨x, -⟩ | ⟨-, h⟩
  · exact x.elim
  · exact h

/-- A process that has ended had done with acts of its own before, unless it was killed. -/
theorem ends_of_only {α : Type} {S : (View → View) → Prop} {t : Task ρ α} {k : α → Prog ρ}
    (ht : t.Only S) (hsound : (m.doing (t k)).Sound)
    (hrun : Machine.Run programs (m.doing (t k)) m') (hended : m'.standing = .ended how) :
    (∃ a d, m.Does programs t a d ∧ (d.doing (k a)).Sound ∧
      Machine.Run programs (d.doing (k a)) m') ∨ ∃ n, how = .signaled n := by
  rcases hsound.ends_of_plain (Q := fun _ => False) hprograms ht.plain hrun hended with
    ⟨a, d, hdoes, hrest⟩ | ⟨-, hnever | hkilled⟩
  · exact .inl ⟨a, d, hdoes, hsound.run hprograms (hdoes k), hrest⟩
  · exact hnever.elim
  · exact .inr hkilled

/-- A session that has passed some lines ends in one of these ways. -/
theorem Passed.concludes (h : Passed programs look m done status c)
    (hsound : (c.doing (session look rest status k)).Sound)
    (hrun : Machine.Run programs (c.doing (session look rest status k)) m')
    (hended : m'.standing = .ended how) : Concludes programs look m (done ++ rest) m' how := by
  have prompted (status : Int) : (showPrompt look status : Task ρ Unit).Only (Shown look) :=
    only_showPrompt look status
  have killed : (∃ n, how = .signaled n) → Concludes programs look m (done ++ rest) m' how := by
    rintro ⟨n, rfl⟩
    exact .killed n
  induction rest generalizing done status c with
  | nil =>
      have plain : (session look [] status : Task ρ Empty).Plain (· = .exited 0) := by
        rw [session_nil]
        exact (prompted status).plain.bind fun _ => (Task.plain_modify _).bind fun _ => .exit rfl
      rcases hsound.ends_of_plain hprograms plain hrun hended with ⟨x, -⟩ | ⟨-, rfl | hkilled⟩
      · exact x.elim
      · exact .input ((List.append_nil done).symm ▸ h) hrun
      · exact killed hkilled
  | cons line rest ih =>
      have advanced : done ++ line :: rest = (done ++ [line]) ++ rest := by simp
      cases hline : Tree.parse line with
      | error e =>
          rw [session_bad hline] at hsound hrun
          refine (ends_of_only hprograms (prompted status) hsound hrun hended).elim ?_ killed
          rintro ⟨⟨⟩, d, hprompt, hsound, hrun⟩
          refine (ends_of_only hprograms (only_complaint look line e) hsound hrun hended).elim ?_ killed
          rintro ⟨⟨⟩, d', hcomplaint, hsound, hrun⟩
          exact advanced ▸ ih (h.bad hprompt hline hcomplaint) hsound hrun (advanced ▸ killed)
      | ok found =>
          cases found with
          | none =>
              rw [session_blank hline] at hsound hrun
              refine (ends_of_only hprograms (prompted status) hsound hrun hended).elim ?_ killed
              rintro ⟨⟨⟩, d, hprompt, hsound, hrun⟩
              have hblank := parse_eq_none_iff.mp hline
              exact advanced ▸ ih (h.blank hprompt hblank) hsound hrun (advanced ▸ killed)
          | some t =>
              rw [session_command hline] at hsound hrun
              refine (ends_of_only hprograms (prompted status) hsound hrun hended).elim ?_ killed
              rintro ⟨⟨⟩, d, hprompt, hsound, hrun⟩
              rcases hsound.ends_of_plain (t := t.perform) (k := fun r => goOn look rest r k) hprograms
                (Walk.plain_perform _) hrun hended with ⟨r, d', hdoes, hrun⟩ | ⟨hall, ⟨rfl, hleaves⟩ | hkilled⟩
              · have hreaches : Reaches programs look m done line t d := ⟨_, c, h, hprompt, hline⟩
                have hsound := hsound.run hprograms (hdoes fun r => goOn look rest r k)
                cases r with
                | error e =>
                    rcases abort_ends hprograms hsound hrun hended with rfl | hkilled
                    · exact .failure rfl hreaches hdoes hrun
                    · exact killed hkilled
                | ok n =>
                    have only : (finish n : Task ρ Unit).Only (Shown look) :=
                      Task.only_modify (.note _ _)
                    refine (ends_of_only (k := fun _ => session look rest n k) hprograms only
                      hsound hrun hended).elim ?_ killed
                    rintro ⟨⟨⟩, d'', hfinish, hsound, hrun⟩
                    exact advanced ▸
                      ih (h.command hprompt hline hdoes hfinish) hsound hrun (advanced ▸ killed)
              · exact .left rfl ⟨_, c, h, hprompt, hline⟩ (Walk.exit_of_mayLeave hleaves) hall
              · exact killed hkilled

end

-- ========================================================== closed streams

theorem Shown.fds {act : View → View} (h : Shown look act) (v : View) :
    (act v).process.fds = v.process.fds := by
  cases h with
  | glance | note => rfl
  | complaint e => exact congrArg Process.fds (Call.writeNow_outward _ _ v).process
  | prompt cwd status _ => exact congrArg Process.fds (Call.writeNow_outward _ _ v).process

/-- A shell without streams shows nothing. -/
theorem Shown.same_of_closed {act : View → View} (h : Shown look act) {v : View}
    (hv : v.process.fds = {}) : v.Same (act v) := by
  have closed (fd : Fd) : v.file? fd = none := by
    rw [View.file?, hv]
    rfl
  have unwritten (fd : Fd) (data : Bytes) : (Call.writeNow fd data).after v = v :=
    congrArg Prod.snd (Call.writeNow_of_closed (closed fd) data)
  cases h with
  | glance => exact .refl v
  | note level text => exact .note v level text
  | complaint e => exact (congrArg v.Same (unwritten _ _)).mpr (.refl v)
  | prompt cwd status _ => exact (congrArg v.Same (unwritten _ _)).mpr (.refl v)

/-- The shell's own acts leave its descriptors as they are. -/
theorem keeps_of_only {P : FdTable → Prop} {α : Type} {t : Task ρ α} {k : α → Prog ρ}
    (h : t.Only (Shown look)) (hk : ∀ a, (k a).Keeps P) : (t k).Keeps P := by
  induction h with
  | pure a => exact hk a
  | step hact _ ih => exact .step (fun v hv => (hact.fds v).symm ▸ hv) ih

/-- So does what it does for an external command. -/
theorem keeps_external {P : FdTable → Prop} {u : Command} {k : Except ExecError Int → Prog ρ}
    (hu : (Tree.leaf u).external? = some u) (hk : ∀ r, (k r).Keeps P) :
    ((Tree.leaf u).perform k).Keeps P := by
  have hwalk : Walk.execute (.leaf u) 0 none =
      .log .debug (Walk.heading (.leaf u) 0 none) (.runProgram [] u) := by
    obtain ⟨-, hverb, hlookup⟩ := Tree.external?_eq_some.mp hu
    rw [Walk.execute, Walk.ofCommand, hverb, hlookup]
    rfl
  rw [Tree.perform, hwalk]
  refine .note (.fork fun pid => .note (.wait fun raw => ?_) _ _) _ _
  rcases raw with e | ⟨_, code | n⟩
  · exact (hk _).note _ _
  · exact (hk _).note _ _
  · cases hname : Signal.name? n with
    | none =>
        simp only [hname]
        exact (hk _).note _ _
    | some name =>
        simp only [hname]
        exact ((hk _).note _ _).note _ _

-- ================================================================ sessions

/-- Lines that are blank, or that cannot be read, make no difference to what a session does,
but for acts of the shell itself: with them and without them the shell makes the same requests
in the same order, and may come to the same ends, once such acts are done or left out. Where
they have no effect, a session comes to the same with those lines as without them.

The status that is shown before a line is that of the last line that was not blank. The shell
exits with one just where a tree has failed, and with zero at the end of its input and where
it is left by an `exit`, unless somebody kills it. -/
theorem session_course (look : Appearance) (lines : List String) (h : m.Ordinary programs) :
    let whole : Prog ρ := (session look lines 0).run
    let bare : Prog ρ := (session look (commands lines) 0).run
    whole.Tracks (Shown look) (fun _ _ => False) bare ∧
    (∀ m' how, m'.standing = .ended how →
      (Machine.Run programs (m.doing whole) m' →
        Machine.Varied (fun act _ => Shown look act) programs (m.doing bare) m') ∧
      (Machine.Run programs (m.doing bare) m' →
        Machine.Varied (fun act _ => Shown look act) programs (m.doing whole) m')) ∧
    ((∀ m₁, Machine.Run programs (m.doing whole) m₁ →
        m₁.AtMain (Machine.Heedless (Shown look))) → ∀ how v,
      (m.doing whole).ComesTo programs (.ended how) v ↔
        (m.doing bare).ComesTo programs (.ended how) v) ∧
    (∀ done rest status c, lines = done ++ rest → Passed programs look m done status c →
      Latest programs look m done status ∧
      Machine.Run programs (m.doing whole) (c.doing (session look rest status).run)) ∧
    (∀ done line later t d d' e, lines = done ++ line :: later →
      Reaches programs look m done line t d → d.Does programs t.perform (.error e) d' →
      Machine.Run programs (m.doing whole) (d'.doing (abort e).run) ∧
      ∀ m' how, Machine.Run programs (d'.doing (abort e).run) m' → m'.standing = .ended how →
        how = .exited 1 ∨ ∃ n, how = .signaled n) ∧
    ∀ m' how, Machine.Run programs (m.doing whole) m' → m'.standing = .ended how →
      Concludes programs look m lines m' how := by
  intro whole bare
  have hwhole : whole.Respects .onward := (session_respects look lines 0).run
  have hbare : bare.Respects .onward := (session_respects look (commands lines) 0).run
  have htracks : whole.Tracks (Shown look) (fun _ _ => False) bare := session_tracks look lines 0 0
  have honward (act : View → View) (v : View) (hact : Shown look act) := hact.onward v
  have reached {done : List String} {line : String} {later : List String} {t : Tree}
      {d d' : Machine ρ} {e : ExecError} (hlines : lines = done ++ line :: later)
      (hreaches : Reaches programs look m done line t d)
      (hdoes : d.Does programs t.perform (.error e) d') :
      Machine.Run programs (m.doing whole) (d'.doing (abort e).run) := by
    obtain ⟨status, c, hpassed, hprompt, hline⟩ := hreaches
    have there := hpassed.run (k := Empty.elim) (line :: later)
    rw [session_command hline, ← hlines] at there
    exact (there.trans (hprompt _)).trans (hdoes _)
  refine ⟨htracks, fun m' how hended => ⟨fun hrun => ?_, fun hrun => ?_⟩, fun hheedless how v => ?_,
    ?_, ?_, fun m' how hrun hended => ?_⟩
  · exact (h.sound.doing hwhole).varied_of_tracks h.onward honward (h.sound.doing hbare) htracks
      hrun hended
  · exact (h.sound.doing hbare).varied_of_tracks h.onward honward (h.sound.doing hwhole)
      htracks.symm hrun hended
  · exact h.comesTo_ended_iff honward (fun act hact _ _ => hact.same) hwhole hbare
      (session_blind look lines 0).run (session_blind look _ 0).run htracks hheedless how v
  · rintro done rest status c rfl hpassed
    exact ⟨hpassed.latest, hpassed.run rest⟩
  · intro done line later t d d' e hlines hreaches hdoes
    have there := reached hlines hreaches hdoes
    exact ⟨there, fun m' how hrun hended =>
      abort_ends h.onward ((h.sound.doing hwhole).run h.onward there) hrun hended⟩
  · exact Passed.start.concludes h.onward (h.sound.doing hwhole) hrun hended

/-- Nobody hears the shell complain about the second half of its third line, of which the first
half is not executed. -/
theorem session_course_closed_streams :
    let look : Appearance := { theme := .plain, colour := false, prompts := true }
    let lines := ["a", " ", "b && '"]
    let programs : Installed Unit := fun _ _ => .exit (.exited 0)
    let m : Machine Unit := .start { process := {}, world := { tree := .empty } } ()
    let whole : Prog Unit := (session look lines 0).run
    let after := m.perform programs 100 whole
    commands lines = ["a"] ∧ m.Ordinary programs ∧ after.standing = .ended (.exited 0) ∧
      (m.doing (session look ["a"] 0).run).ComesTo programs (.ended (.exited 0)) after.view ∧
      Concludes programs look m lines after (.exited 0) := by
  intro look lines programs m whole after
  have hcommands : commands lines = ["a"] := by decide +kernel
  have onward : ∀ name args, (programs name args).Respects .onward := fun _ _ => trivial
  have blind : ∀ name args, (programs name args).IsBlind := fun _ _ => Prog.blind_exit _
  have ordinary : m.Ordinary programs := .start onward blind _ ()
  have finished : after.standing = .ended (.exited 0) := by decide +kernel
  have main := session_course look lines ordinary
  have keeps : whole.Keeps (· = {}) := by
    have first : Tree.parse "a" = .ok (some (.leaf (.ofWords ["a"]))) := by decide +kernel
    have second : Tree.parse " " = .ok none := by decide +kernel
    have third : Tree.parse "b && '" = .error (.unterminated '\x27') := by decide +kernel
    have prompted {status : Int} {k : Unit → Prog Unit} (hk : ∀ u, (k u).Keeps (· = {})) :
        (showPrompt look status k).Keeps (· = {}) := keeps_of_only (only_showPrompt look status) hk
    have complained {line : String} {e : SyntaxError} {k : Unit → Prog Unit}
        (hk : ∀ u, (k u).Keeps (· = {})) : (complaint line e k).Keeps (· = {}) :=
      keeps_of_only (only_complaint look line e) hk
    have last : ((session look [] 1 : Task Unit Empty).run).Keeps (· = {}) :=
      prompted fun _ => .note (.exit _) _ _
    have rest (status : Int) :
        ((session look [" ", "b && '"] status : Task Unit Empty).run).Keeps (· = {}) := by
      rw [session_blank second, session_bad third]
      exact prompted fun _ => prompted fun _ => complained fun _ => last
    rw [show whole = (session look lines 0).run from rfl, session_command first]
    refine prompted fun _ => keeps_external rfl fun r => ?_
    cases r with
    | error e =>
        have reported (v : View) : (report e.message v).process = v.process :=
          (Call.writeNow_outward _ _ v).process
        exact .note (.step (fun v hv => (congrArg Process.fds (reported v)).trans hv)
          fun _ => .exit _) _ _
    | ok status => exact (rest status).note _ _
  have closed (m₁ : Machine Unit) (hrun : Machine.Run programs (m.doing whole) m₁) :
      m₁.AtMain (Machine.Heedless (Shown look)) := by
    intro s hs hmain halive act hact
    have sound : (m.doing whole).Sound := ordinary.sound.doing (session_respects look lines 0).run
    have initial : ∀ s ∈ m.slots, s.process.pid = Machine.mainPid → s.process.fds = {} := by
      rintro s hs -
      rw [List.mem_singleton.mp hs]
    exact hact.same_of_closed (sound.kept_of_run onward keeps initial hrun s hs hmain halive).1
  have run : Machine.Run programs (m.doing whole) after := Machine.run_settle programs 100 _
  have ended := Machine.comesTo_perform programs 100 whole m
  rw [finished] at ended
  have bare := (main.2.2.1 closed _ _).mp ended
  rw [hcommands] at bare
  exact ⟨hcommands, ordinary, finished, bare, main.2.2.2.2.2 after _ run finished⟩

/-- What the shell says of a line that cannot be read, and each of its prompts, is there to be
seen where its streams lead to a file: here by a program, on whose status it depends whether the
next command is executed. -/
theorem session_course_counterexample :
    let plain : Appearance := { theme := .plain, colour := false, prompts := false }
    let said (v : View) : Content := v.world.tree.content 2
    let programs : Installed Unit := fun _ _ =>
      .step id fun v => .exit (.exited (if said v = .file [] then 1 else 0))
    let v : View := .atTerminalWith "sh"
    let file : OpenFile := { target := .node 2, readable := false, writable := true }
    let m : Machine Unit := .start
      { process := { fds := { rows := [(0, ⟨0, false⟩), (1, ⟨1, false⟩), (2, ⟨1, false⟩)] } }
        world := { tree := v.world.tree.addUnnamed (.file []), files := v.world.files.push file } } ()
    let after (look : Appearance) (lines : List String) : Machine Unit :=
      m.perform programs 300 (session look lines 0).run
    let found (lines : List String) : Option String := (after plain lines).view.process.env.get? "x"
    let prompts (lines : List String) : Content := said (after { plain with prompts := true } lines).view
    (commands ["'", "/sh && x=1"] = ["/sh && x=1"] ∧
      (after plain ["'", "/sh && x=1"]).standing = .ended (.exited 0) ∧
      (after plain ["/sh && x=1"]).standing = .ended (.exited 0) ∧
      found ["'", "/sh && x=1"] = some "1" ∧ found ["/sh && x=1"] = none) ∧
    commands [" "] = [] ∧ prompts [" "] = .file (Bytes.ofString "minish:/$ minish:/$ ") ∧
      prompts [] = .file (Bytes.ofString "minish:/$ ") := by
  decide +kernel

end LineShell.Shell
