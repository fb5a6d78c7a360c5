/-
A session, line by line.

# Sessions

The shell is given its lines one after the other (`Shell.session`). What it does
for a line depends on what the line is read as: for a blank one nothing
(`session_blank`), for one that cannot be read a complaint (`session_bad`), and
for one that is a command its tree is executed (`session_command`). The whole
line is read before anything is done for it.

# Lines that are no commands

The prompt and the complaints are acts of the shell itself (`Shown`), between
commands. So two sessions with the same commands make the same requests in the
same order but for such acts (`session_tracks`).
-/
import LineShell.Proofs.Grammar.Seam
import LineShell.Proofs.Grammar.Segments
import LineShell.Proofs.Launch.Unlogged
import LineShell.Proofs.Posix.Stages
import LineShell.Proofs.Walk.Order
import LineShell.Shell

namespace LineShell

open Posix

variable {ρ α β : Type} {Q : Ending → Prop} {S : (View → View) → Prop}

-- ================================================================== walks

namespace Walk

theorem plain_waitFor (child : Int) :
    Task.Plain Q (waitFor child : Task ρ (Except ExecError Ending)) := by
  have logged (level : Level) (text : String) (r : Except ExecError Ending) :
      Task.Plain Q (do
        Task.modify (View.note level text)
        pure r : Task ρ (Except ExecError Ending)) :=
    (Task.plain_modify _).bind fun _ => .pure r
  refine (Task.plain_wait child).bind fun r => ?_
  rcases r with e | ⟨pid, code | n⟩
  · exact logged _ _ _
  · exact .pure _
  · simp only
    cases Signal.name? n with
    | none => exact logged _ _ _
    | some name => exact logged _ _ _

/-- The walk may come to a builtin that ends the process. -/
def MayLeave (w : Walk) : Prop :=
  ∃ xs q b c next v, w.Path xs (builtin q b c next) ∧ (b.run c v).1 = .leave

/-- A walk is taken by acts, forks and waits, and left early by an exit with zero, where it
comes to such a builtin. -/
theorem plain_perform (w : Walk) :
    Task.Plain (fun how => how = .exited 0 ∧ w.MayLeave)
      (w.perform : Task ρ (Except ExecError Int)) := by
  have along {w w' : Walk} {xs : List Exchange} (hpath : w.Path xs w')
      (h : Task.Plain (fun how => how = .exited 0 ∧ w'.MayLeave)
        (w'.perform : Task ρ (Except ExecError Int))) :
      Task.Plain (fun how => how = .exited 0 ∧ w.MayLeave)
        (w'.perform : Task ρ (Except ExecError Int)) :=
    h.mono fun how ⟨hhow, ys, q, b, c, next, v, hpath', hleave⟩ =>
      ⟨hhow, xs ++ ys, q, b, c, next, v, hpath.trans hpath', hleave⟩
  induction w with
  | done n | failed e => exact .pure _
  | log level text next ih => exact (Task.plain_modify _).bind fun _ => along (.log .here) ih
  | builtin q b c next ih =>
      simp only [perform]
      refine .step fun v => ?_
      generalize hending : (b.run c v).1 = ending
      cases ending with
      | status n => exact along (.builtin n .here) (ih n)
      | leave => exact .exit ⟨rfl, [], q, b, c, next, v, .here, hending⟩
  | launch q c next ih =>
      exact ((Task.plain_fork _).bind fun pid => (Task.plain_modify _).bind fun _ => .pure pid).bind
        fun child => along (.launch _ .here) (ih (.ok child))
  | fork q tree depth parent wiring branch next _ ih =>
      exact ((Task.plain_fork _).bind fun pid => (Task.plain_modify _).bind fun _ => .pure pid).bind
        fun child => along (.fork _ .here) (ih (.ok child))
  | channel q next ih =>
      simp only [perform]
      refine (Task.plain_act _).bind fun r => ?_
      cases r with
      | error e => exact along (.channel _ .here) (ih _)
      | ok ends => exact along (.channel _ .here) (ih _)
  | release ch next ih => exact (Task.plain_modify _).bind fun _ => along (.release .here) ih
  | wait child next ih =>
      exact (plain_waitFor child).bind fun r => along (.wait r .here) (ih r)

/-- In the walk of a tree that is an `exit` without arguments. -/
theorem exit_of_mayLeave {t : Tree} (h : (execute t 0 none).MayLeave) :
    ∃ q c v, t.sub? q = some (.leaf c) ∧ Builtin.lookup c = some .exit ∧ c.params = [] ∧
      Builtin.Redirects c v := by
  obtain ⟨xs, q, b, c, next, v, hpath, hleave⟩ := h
  obtain ⟨rfl, hparams, hredirects⟩ := Builtin.run_leave.mp hleave
  obtain ⟨_, -, hordered⟩ := (ordering_execute t 0 none []).path hpath
  obtain ⟨_, ⟨hlookup, -⟩, -⟩ := hordered 0
  obtain ⟨_, -, hsited⟩ := (siting_execute (Tree.sub?_nil t) 0 none).path hpath
  obtain ⟨_, ⟨-, -, hsub, -⟩, -⟩ := hsited 0
  exact ⟨q, c, v, hsub, hlookup, hparams, hredirects⟩

/-- Nothing that is done for a walk depends on the log. -/
theorem blind_perform (w : Walk) : Task.IsBlind (w.perform : Task ρ (Except ExecError Int)) := by
  have started (child : Prog ρ) (h : child.IsBlind) (text : Pid → String) : Task.IsBlind (do
      let pid ← Task.fork child
      Task.modify (View.note .debug (text pid))
      pure pid : Task ρ Child) :=
    Task.Annotates.bind (Task.annotates_fork h) fun pid =>
      Task.Annotates.bind (Task.blind_note _ _) fun _ => Task.blind_pure _
  induction w with
  | done n | failed e => exact Task.blind_pure _
  | log level text next ih => exact Task.Annotates.bind (Task.blind_note _ _) fun _ => ih
  | builtin q b c next ih =>
      simp only [perform]
      refine Task.Annotates.bind (Task.blind_act (Builtin.blind_run b c)) fun ending => ?_
      cases ending with
      | status n => exact ih n
      | leave => exact Task.blind_exit 0
  | launch q c next ih =>
      exact Task.Annotates.bind (started _ (blind_runExternal c).run _) fun child => ih (.ok child)
  | fork q tree depth parent wiring branch next ihb ih =>
      have child := (annotates_runBranch tree parent wiring ihb).run
      exact Task.Annotates.bind (started _ child _) fun child => ih (.ok child)
  | channel q next ih =>
      simp only [perform]
      refine Task.Annotates.bind (Task.blind_act Call.blind_pipe) fun r => ?_
      cases r with
      | error e => exact ih _
      | ok ends => exact ih _
  | release ch next ih =>
      exact Task.Annotates.bind (Task.blind_modify (Redirection.closeAll_same _)) fun _ => ih
  | wait child next ih => exact Task.Annotates.bind (blind_waitFor child) fun r => ih r

end Walk

-- =============================================================== own acts

namespace Posix.Task

/-- The task does acts of one kind alone, and comes to a value. -/
inductive Only (S : (View → View) → Prop) : Task ρ α → Prop where
  | pure (a : α) : Only S fun k => k a
  | step {act : View → View} {next : View → Task ρ α} :
      S act → (∀ v, Only S (next v)) → Only S fun k => .step act fun v => next v k

variable {t : Task ρ α} {f : α → Task ρ β} {R : Prog ρ → Prog ρ → Prop} {k : α → Prog ρ}
  {p q : Prog ρ}

theorem Only.bind (ht : t.Only S) (hf : ∀ a, (f a).Only S) : Only S (t >>= f) := by
  induction ht with
  | pure a => exact hf a
  | step hact _ ih => exact .step hact ih

theorem only_modify {act : View → View} (h : S act) : Only S (modify act : Task ρ Unit) :=
  .step h fun _ => .pure ()

theorem only_view (h : S id) (f : View → α) : Only S (view f : Task ρ α) := .step h fun _ => .pure _

theorem Only.plain (h : t.Only S) : t.Plain Q := by
  induction h with
  | pure a => exact .pure a
  | step _ _ ih => exact .step ih

theorem Only.respects {F : Frame} (h : t.Only S) (hS : ∀ act v, S act → F.holds v (act v)) :
    t.Respects F := by
  induction h with
  | pure a => exact respects_pure a
  | step hact _ ih => exact fun k hk => ⟨fun v => hS _ v hact, fun v => ih v k hk⟩

/-- The first program may do such a task besides. -/
theorem Only.left (h : t.Only S) (hk : ∀ a, (k a).Tracks S R q) : (t k).Tracks S R q := by
  induction h with
  | pure a => exact hk a
  | step hact _ ih => exact .left hact ih

/-- And so may the second. -/
theorem Only.right (h : t.Only S) (hk : ∀ a, p.Tracks S R (k a)) : p.Tracks S R (t k) := by
  induction h with
  | pure a => exact hk a
  | step hact _ ih => exact .right hact ih

end Posix.Task

namespace Shell

-- ================================================================= lines

/-- There is nothing on the line but white space. -/
def isBlank (line : String) : Bool := line.toList.all Text.isBlank

theorem scan_eq_nil_iff {line : String} :
    Token.Scan.ofLine line = ⟨[], none⟩ ↔ isBlank line = true := by
  have dropped : isBlank line = true ↔ Text.skipBlank line.toList = [] := by
    rw [isBlank, Text.skipBlank, List.all_eq_true, List.dropWhile_eq_nil_iff]
  rw [dropped, Token.Scan.ofLine, Token.ofChars_eq]
  constructor
  · intro h
    split at h
    · cases h
    · next t rest hnext =>
      split at h
      · next ht => exact Token.skipBlank_eq_nil_of_next (ht ▸ hnext)
      · cases h
  · intro h
    rw [Token.next, h]
    rfl

/-- Those lines are read as no command, and give no error. -/
theorem parse_eq_none_iff {line : String} : Tree.parse line = .ok none ↔ isBlank line = true := by
  rw [← scan_eq_nil_iff, Tree.parse_eq_ok_iff]
  constructor
  · rintro ⟨p, hp, p', hcommand⟩
    obtain ⟨rfl, hclean⟩ := Parser.ofLine_eq_ok_iff.mp hp
    have htokens := Parser.eq_nil_of_command_eq_none
      (Token.eof_notMem_ofChars line.toList) hcommand
    have hfailure := hclean htokens
    exact congrArg₂ Token.Scan.mk htokens hfailure
  · intro h
    refine ⟨_, Parser.ofLine_eq_ok_iff.mpr ⟨rfl, fun _ => by rw [h]⟩, Parser.before none [], ?_⟩
    rw [h]
    rfl

theorem isBlank_eq_false {line : String} (h : Tree.parse line ≠ .ok none) : isBlank line = false :=
  Bool.eq_false_iff.mpr (mt parse_eq_none_iff.mpr h)

/-- The line is blank, or it cannot be read. -/
def isInert (line : String) : Bool := isBlank line || !(Tree.parse line).isOk

/-- The lines without those. -/
def commands (lines : List String) : List String := lines.filter fun line => !isInert line

-- ============================================================== sessions

/-- Lines that come one after the other, and then the end of the input. -/
def deliver : List String → Task ρ (Input × List String)
  | [] => pure (.finished, [])
  | line :: rest => pure (.line line, rest)

/-- The shell reads and executes the lines, after one that left a status. -/
def session (look : Appearance) (lines : List String) (status : Int) : Task ρ Empty := do
  Task.exit (← loop look deliver (lines.length + 1) lines status)

/-- What the shell does about a line that cannot be read. -/
def complaint (line : String) (e : SyntaxError) : Task ρ Unit := do
  Task.modify (View.note .debug ("syntax error in " ++ Text.quoted line ++ ": " ++ e.message))
  Task.modify (report ("syntax error: " ++ e.message))

/-- And what about a tree that has failed: it is the end of the session. -/
def abort (e : ExecError) : Task ρ Empty := do
  Task.modify (View.note .error ("session aborted: " ++ e.message))
  Task.modify (report e.message)
  Task.exit exitFailure

/-- What comes of a tree that has not. -/
def finish (status : Int) : Task ρ Unit :=
  Task.modify (View.note .debug ("line finished with status " ++ toString status))

/-- What comes after a tree, with so many lines to go. -/
def goOn (look : Appearance) (rest : List String) : Except ExecError Int → Task ρ Empty
  | .error e => abort e
  | .ok status => do
      finish status
      session look rest status

variable {look : Appearance} {line : String} {rest lines : List String} {status status' : Int}
  {t : Tree} {e : SyntaxError}

theorem session_nil : (session look [] status : Task ρ Empty) = (do
    showPrompt look status
    Task.modify (View.note .debug "EOF, leaving minish")
    Task.exit 0) := rfl

/-- What the shell does for a line is read off it at once. -/
theorem session_cons : (session look (line :: rest) status : Task ρ Empty) = (do
    showPrompt look status
    match ← handle line status with
    | .ok status => session look rest status
    | .error e => abort e) := by
  funext k
  refine congrArg (showPrompt look status) (funext fun _ => ?_)
  refine congrArg (handle line status) (funext fun r => ?_)
  cases r <;> rfl

theorem session_blank (h : Tree.parse line = .ok none) :
    (session look (line :: rest) status : Task ρ Empty) = (do
      showPrompt look status
      session look rest status) := by
  rw [session_cons, handle, h]
  rfl

theorem session_bad (h : Tree.parse line = .error e) :
    (session look (line :: rest) status : Task ρ Empty) = (do
      showPrompt look status
      complaint line e
      session look rest exitFailure) := by
  rw [session_cons, handle, h]
  rfl

theorem session_command (h : Tree.parse line = .ok (some t)) :
    (session look (line :: rest) status : Task ρ Empty) = (do
      showPrompt look status
      goOn look rest (← t.perform)) := by
  rw [session_cons, handle, h]
  funext k
  refine congrArg (showPrompt look status) (funext fun _ => ?_)
  refine congrArg t.perform (funext fun r => ?_)
  cases r <;> rfl

-- ================================================================ own acts

/-- What the shell itself does around the lines: it looks for the working directory,
logs, says what is wrong with a line, and prompts. -/
inductive Shown (look : Appearance) : (View → View) → Prop where
  | glance : Shown look id
  | note (level : Level) (text : String) : Shown look (View.note level text)
  | complaint (e : SyntaxError) : Shown look (report ("syntax error: " ++ e.message))
  | prompt (cwd : String) (status : Int) : look.prompts = true →
      Shown look (Call.writeNow Fd.stdout
        (Bytes.ofString (look.theme.prompt look.colour cwd status))).after

theorem only_showPrompt (look : Appearance) (status : Int) :
    (showPrompt look status : Task ρ Unit).Only (Shown look) := by
  have looked : (shownDirectory : Task ρ String).Only (Shown look) := by
    refine (Task.only_view .glance _).bind fun path => ?_
    cases path with
    | some path => exact .pure _
    | none => exact (Task.only_modify (.note _ _)).bind fun _ => .pure _
  refine looked.bind fun cwd => ?_
  split
  · next h => exact Task.only_modify (.prompt cwd status h)
  · exact .pure _

theorem only_complaint (look : Appearance) (line : String) (e : SyntaxError) :
    (complaint line e : Task ρ Unit).Only (Shown look) :=
  (Task.only_modify (.note _ _)).bind fun _ => Task.only_modify (.complaint e)

/-- With the other lines a session does what it does without them, but for acts of the
shell itself. -/
theorem session_tracks (look : Appearance) (lines : List String) (status status' : Int)
    {R : Prog ρ → Prog ρ → Prop} :
    (session look lines status).run.Tracks (Shown look) R
      (session look (commands lines) status').run := by
  have prompted (status : Int) : (showPrompt look status : Task ρ Unit).Only (Shown look) :=
    only_showPrompt look status
  induction lines generalizing status status' with
  | nil => exact (prompted _).left fun _ => (prompted _).right fun _ => .step fun _ => .exit _
  | cons line rest ih =>
      cases h : Tree.parse line with
      | error e =>
          have dropped : commands (line :: rest) = commands rest := by
            simp [commands, isInert, h, Except.isOk, Except.toBool]
          rw [dropped, session_bad h]
          exact (prompted _).left fun _ => (only_complaint look line e).left fun _ => ih _ _
      | ok found =>
          cases found with
          | none =>
              have dropped : commands (line :: rest) = commands rest := by
                simp [commands, isInert, parse_eq_none_iff.mp h]
              rw [dropped, session_blank h]
              exact (prompted _).left fun _ => ih _ _
          | some t =>
              have kept : commands (line :: rest) = line :: commands rest := by
                have hblank : isBlank line = false := isBlank_eq_false (by rw [h]; exact nofun)
                simp [commands, isInert, hblank, h, Except.isOk, Except.toBool]
              rw [kept, session_command h, session_command h]
              refine (prompted _).left fun _ => (prompted _).right fun _ => ?_
              refine (Walk.plain_perform _).tracks fun r => ?_
              cases r with
              | error e => exact .step fun _ => .step fun _ => .exit _
              | ok status => exact .step fun _ => ih status status

theorem Shown.onward {act : View → View} (h : Shown look act) (v : View) : v.Onward (act v) := by
  cases h with
  | glance => exact .refl v
  | note level text => exact (View.Quiet.note v level text).toOnward
  | complaint e => exact (report_quiet _ v).toOnward
  | prompt cwd status _ => exact (Call.writeNow_outward _ _ v).quiet.toOnward

theorem Shown.same {act : View → View} (h : Shown look act) {v v' : View} (hv : v.Same v') :
    (act v).Same (act v') := by
  cases h with
  | glance => exact hv
  | note level text => exact (View.Same.note v level text).symm.trans (hv.trans (.note v' _ _))
  | complaint e => exact report_same _ hv
  | prompt cwd status _ => exact ((Call.blind_writeNow _ _).same hv).2

/-- A session does nothing that a process may not do. -/
theorem session_respects (look : Appearance) (lines : List String) (status : Int) :
    (session look lines status : Task ρ Empty).Respects .onward := by
  have noted (level : Level) (text : String) :
      (Task.modify (View.note level text) : Task ρ Unit).Respects .onward :=
    Task.respects_modify fun v => (View.Quiet.note v level text).toOnward
  have prompted (status : Int) : (showPrompt look status : Task ρ Unit).Respects .onward :=
    (only_showPrompt look status).respects fun _ v h => h.onward v
  induction lines generalizing status with
  | nil => exact (prompted _).bind fun _ => (noted _ _).bind fun _ => Task.respects_exit 0
  | cons line rest ih =>
      rw [session_cons]
      refine (prompted _).bind fun _ => Task.Respects.bind ?_ fun r => ?_
      · unfold handle
        split
        · exact ((only_complaint look line _).respects fun _ v h => h.onward v).bind
            fun _ => Task.respects_pure _
        · exact Task.respects_pure _
        · refine (Walk.respects_perform _).bind fun r => ?_
          cases r with
          | error e => exact Task.respects_pure _
          | ok status => exact (noted _ _).bind fun _ => Task.respects_pure _
      · cases r with
        | ok status => exact ih status
        | error e =>
            exact (noted _ _).bind fun _ => (Task.respects_modify fun v =>
              (report_quiet _ v).toOnward).bind fun _ => Task.respects_exit _

/-- Nothing in a session depends on the log. -/
theorem session_blind (look : Appearance) (lines : List String) (status : Int) :
    Task.IsBlind (session look lines status : Task ρ Empty) := by
  have looked : Task.IsBlind (shownDirectory : Task ρ String) := by
    refine Task.Annotates.bind (Task.blind_view fun hv => by rw [hv.eq_relog]; rfl) fun path => ?_
    cases path with
    | some path => exact Task.blind_pure _
    | none => exact Task.Annotates.bind (Task.blind_note _ _) fun _ => Task.blind_pure _
  have prompted (status : Int) : Task.IsBlind (showPrompt look status : Task ρ Unit) := by
    refine Task.Annotates.bind looked fun cwd => ?_
    split
    · exact Task.blind_modify fun hv => ((Call.blind_writeNow _ _).same hv).2
    · exact Task.blind_pure _
  induction lines generalizing status with
  | nil =>
      rw [session_nil]
      exact Task.Annotates.bind (prompted _) fun _ =>
        Task.Annotates.bind (Task.blind_note _ _) fun _ => Task.blind_exit 0
  | cons line rest ih =>
      rw [session_cons]
      refine Task.Annotates.bind (prompted _) fun _ => Task.Annotates.bind ?_ fun r => ?_
      · unfold handle
        split
        · exact Task.Annotates.bind (Task.blind_note _ _) fun _ =>
            Task.Annotates.bind (Task.blind_modify (report_same _)) fun _ => Task.blind_pure _
        · exact Task.blind_pure _
        · refine Task.Annotates.bind (Walk.blind_perform _) fun r => ?_
          cases r with
          | error e => exact Task.blind_pure _
          | ok status => exact Task.Annotates.bind (Task.blind_note _ _) fun _ => Task.blind_pure _
      · cases r with
        | ok status => exact ih status
        | error e =>
            exact Task.Annotates.bind (Task.blind_note _ _) fun _ =>
              Task.Annotates.bind (Task.blind_modify (report_same _)) fun _ => Task.blind_exit _

end Shell

end LineShell
