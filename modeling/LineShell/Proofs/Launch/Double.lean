/-
The recording launcher is a double of the one that forks.

# What has to be the same

Where programs end as a table has it for their verbs, nothing fails and
nobody is killed, a run is foreseen by the table and by the statuses of the
builtins (`Watch.Foreseen`). Such a run bears out the very course that a
rehearsal with the table takes (`Tree.foreseen`), so the shell comes to the
same status (`Endless.returns_foreseen`) or to its end
(`Endless.dead_foreseen`).

# What is started

A process is started only for what the course reaches, and once
(`Starts.taken_within`, `Single.eq_of_part`); and where the shell is done
there is one for all of it. So the processes of a run that is over
(`Watch.started`) and the lines of a rehearsal count the same commands.

# What need not be the same

A program that ends as the table has it has done something before. The
builtins after it may find it, and come to another status than in a
rehearsal, where it was never started; and a program may kill whoever
started it (`recorded_as_forked_counterexample`).
-/
import LineShell.Proofs.Launch.Exit
import LineShell.Proofs.Rehearsal.Recorded

namespace LineShell

open Posix

variable {ρ : Type} {result : Except ExecError Int → ρ}

namespace Account

/-- The command that the process was started for. -/
def command? (a : Account) : Option Command := if a.isShell then none else a.tree.external?

variable {a : Account} {root : Tree} {s : Siting}

/-- It stands where the process was started for. -/
theorem command?_eq (h : a.Sited root s) :
    a.command? = a.program?.bind fun q => (root.sub? q).bind Tree.external? := by
  unfold command? program?
  cases a.isShell with
  | true => rfl
  | false =>
      have hpart : (root.sub? a.site).bind Tree.external? = a.tree.external? := by
        rw [h.part, Option.bind_some]
      have own : (some a.site).bind (fun q => (root.sub? q).bind Tree.external?) =
          a.tree.external? := hpart
      simp only [Bool.false_eq_true, if_false]
      unfold part Tree.part
      cases a.walks with
      | false => exact own.symm
      | true =>
          cases hx : a.tree.external? with
          | none => rfl
          | some c => exact hx.symm.trans own.symm

end Account

namespace Watch

variable {programs : Installed ρ} {t : Tree} {depth : Nat} {parent : Option Operator}
  {m : Machine ρ} {w : Watch ρ} {f : Nat → Watch ρ} {table : List (String × Ending)}
  {status : Position → Int} {p : Pid} {a : Account} {n : Nat}

/-- The commands that processes were started for. -/
def started (w : Watch ρ) : List Command :=
  (List.range w.machine.nextPid).filterMap fun p => (w.accounts p).bind Account.command?

/-- What is taken for granted of a run: it is foreseen by a table of endings
and the statuses of builtins. -/
structure Foreseen (programs : Installed ρ) (table : List (String × Ending))
    (status : Position → Int) (f : Nat → Watch ρ) : Prop where
  /-- Programs end as the table has it for their verbs. -/
  ends : ∀ n p a c how, (f n).accounts p = some a → a.command? = some c →
    (f n).machine.Dead p how → how = (table.lookup c.verb).getD (.exited 0)
  done : ∀ n p a, (f n).accounts p = some a → ∀ d ∈ a.own, d.exchange.Foreseen status d.view
  /-- Nobody kills the shell or a branch that takes a walk. -/
  spared : ∀ n p a, (f n).accounts p = some a → a.command? = none →
    ¬Felled programs (f n) p (f (n + 1))

-- ================================================================== counts

section

variable (hprograms : ∀ name args, (programs name args).Respects .onward)
  (hb : m.Begins result t depth parent) (hrun : Run programs (begin t depth parent m) w)
include hprograms hb hrun

/-- Who is not the shell was started for a part of the tree. -/
theorem begotten_of_run (ha : w.accounts p = some a) (hshell : a.isShell = false) :
    a.Begotten := by
  obtain ⟨st, hplaced⟩ := (holds_placed hprograms hb hrun).all _ a ha
  intro hwalks
  rw [Account.walks, hshell, Bool.false_or] at hwalks
  obtain ⟨r, side, op, hsite, -⟩ := hplaced.branch hshell hwalks
  rw [hsite]
  exact List.append_ne_nil_of_right_ne_nil _ (List.cons_ne_nil _ _)

/-- What was asked for is what the commands name. -/
theorem named_of_run (ha : w.accounts p = some a) {d : Deed} (hd : d ∈ a.own) :
    d.exchange.Named := by
  obtain ⟨used, hordered⟩ := hb.starts.stands hprograms hrun (C := fun _ => ordering)
    (Q := fun _ _ _ => True)
    (fun a => Walk.ordering_execute a.tree a.depth a.parent a.site) (fun _ _ _ => rfl)
    (fun _ _ _ => rfl) ha
  obtain ⟨_, _, hnamed, -⟩ := hordered.led.allowed (List.mem_map_of_mem hd)
  exact hnamed

/-- Programs are started for external commands. -/
theorem command_of_program (ha : w.accounts p = some a) {q : Position}
    (hprogram : a.program? = some q) :
    ∃ c, a.command? = some c ∧ (t.sub? q).bind Tree.external? = some c := by
  obtain ⟨hshell, hpart⟩ := Account.program?_eq_some.mp hprogram
  have hbegotten := begotten_of_run hprograms hb hrun ha hshell
  obtain ⟨st, hlanded⟩ := landed_of_run hprograms hb hrun ha
  have hsite : a.site = q := by rw [← a.part_site, hpart, Part.site]
  have hx : a.tree.external?.isSome = true := by
    cases hwalks : a.walks with
    | true => exact Account.of_part_eq_program hpart hwalks
    | false =>
        obtain ⟨p', b, hb', d, hd, hbegets⟩ :=
          (single_of_run hprograms hb hrun).begotten ha hbegotten
        have hnamed := named_of_run hprograms hb hrun hb' hd
        rw [Account.Begets, if_neg (by rw [hwalks]; exact Bool.false_ne_true)] at hbegets
        obtain ⟨c, hx⟩ := hbegets
        obtain ⟨st', hlanded'⟩ := landed_of_run hprograms hb hrun hb'
        obtain ⟨_, _, hallowed⟩ := hlanded'.sited.allowed hd
        rw [hx] at hnamed hallowed
        obtain ⟨-, -, hsub, -⟩ := hallowed
        rw [hlanded.sited.part] at hsub
        rw [Option.some.inj hsub, show (Tree.leaf c).external? = some c from hnamed]
        rfl
  obtain ⟨c, hc⟩ := Option.isSome_iff_exists.mp hx
  refine ⟨c, ?_, ?_⟩
  · rw [Account.command?, hshell, if_neg Bool.false_ne_true, hc]
  · rw [← hsite, hlanded.sited.part, Option.bind_some, hc]

/-- A branch that is not one command was not started for a command. -/
theorem command_of_branch (ha : w.accounts p = some a) {q : Position} {u : Tree}
    (hpart : a.part = .branch q u) : a.command? = none := by
  obtain ⟨st, hlanded⟩ := landed_of_run hprograms hb hrun ha
  rw [Account.command?_eq hlanded.sited]
  cases hprogram : a.program? with
  | none => rfl
  | some q' =>
      obtain ⟨-, hpart'⟩ := Account.program?_eq_some.mp hprogram
      rw [hpart] at hpart'
      cases hpart'

/-- If the processes were started for what the course reaches, these are the
commands. -/
theorem started_perm {o : Course} (hwithin : ∀ q, w.Taken q → q ∈ t.reaches o [])
    (hfull : ∀ q ∈ t.reaches o [], w.Taken q) : w.started.Perm (t.externals (t.reaches o [])) := by
  have holds := holds_placed hprograms hb hrun
  let sites := (List.range w.machine.nextPid).filterMap fun p =>
    (w.accounts p).bind Account.program?
  have mem_sites (q : Position) : q ∈ sites ↔ w.Taken q := by
    simp only [sites, List.mem_filterMap, List.mem_range, Option.bind_eq_some_iff]
    refine ⟨fun ⟨p, _, a, ha, hprogram⟩ => ⟨p, a, ha, hprogram⟩, fun ⟨p, a, ha, hprogram⟩ => ?_⟩
    exact ⟨p, holds.known p a ha, a, ha, hprogram⟩
  have hnodup : sites.Nodup := by
    refine List.Nodup.filterMap (fun p p' q hp hp' => ?_) List.nodup_range
    obtain ⟨a, ha, hprogram⟩ := Option.bind_eq_some_iff.mp hp
    obtain ⟨a', ha', hprogram'⟩ := Option.bind_eq_some_iff.mp hp'
    obtain ⟨hshell, hpart⟩ := Account.program?_eq_some.mp hprogram
    obtain ⟨hshell', hpart'⟩ := Account.program?_eq_some.mp hprogram'
    exact (single_of_run hprograms hb hrun).eq_of_part holds.proper
      (fun p a ha => landed_of_run hprograms hb hrun ha)
      (fun p a ha => hb.starts.unwalked hprograms hrun ha) ha ha'
      (begotten_of_run hprograms hb hrun ha hshell) (begotten_of_run hprograms hb hrun ha' hshell')
      (hpart.trans hpart'.symm)
  have hperm : sites.Perm (t.reaches o []) :=
    (List.perm_ext_iff_of_nodup hnodup (Tree.reaches_nodup o t [])).mpr fun q =>
      ⟨fun hq => hwithin q ((mem_sites q).mp hq), fun hq => (mem_sites q).mpr (hfull q hq)⟩
  have hstarted : w.started = t.externals sites := by
    unfold started Tree.externals
    rw [List.filterMap_filterMap]
    refine List.filterMap_congr fun p _ => ?_
    cases ha : w.accounts p with
    | none => rfl
    | some a =>
        obtain ⟨st, hlanded⟩ := landed_of_run hprograms hb hrun ha
        exact Account.command?_eq hlanded.sited
  rw [hstarted]
  exact hperm.filterMap _

end

-- ================================================================= courses

section

variable (hprograms : ∀ name args, (programs name args).Respects .onward)
  (hb : m.Begins result t depth parent) (hf : Endless programs (begin t depth parent m) f)
include hprograms hb hf

/-- A branch that died of a signal was killed by another process. -/
theorem Endless.killed (ha : (f n).accounts p = some a) {q : Position} {u : Tree}
    (hpart : a.part = .branch q u) {i : Int} (hdead : (f n).machine.Dead p (.signaled i)) :
    ∃ j b, (f j).accounts p = some b ∧ b.part = .branch q u ∧
      Felled programs (f j) p (f (j + 1)) := by
  induction n generalizing a with
  | zero =>
      rw [hf.first] at ha hdead
      obtain ⟨-, hrunning⟩ := hb.starts.running ha
      obtain ⟨s, hs, hpid, hl⟩ := hdead
      obtain ⟨todo, hl'⟩ := hrunning s hs hpid
      rw [hl] at hl'
      cases hl'
  | succ n ih =>
      have holds := holds_placed hprograms hb (hf.run n)
      have sound := (holds_placed hprograms hb (hf.run (n + 1))).sound
      have hstep := hf.step n
      have felled {b : Account} (hb' : (f n).accounts p = some b) (hpart' : b.part = .branch q u)
          (h : Felled programs (f n) p (f (n + 1))) :
          ∃ j b, (f j).accounts p = some b ∧ b.part = .branch q u ∧
            Felled programs (f j) p (f (j + 1)) := ⟨n, b, hb', hpart', h⟩
      generalize f (n + 1) = w' at hstep ha hdead sound felled
      cases hstep with
      | pass clock => exact ih ha hpart hdead
      | @move s m' hs hm =>
          rcases account_before ha with ⟨b, hb', hcont⟩ | ⟨rfl, -⟩
          · have hpart' : b.part = .branch q u := hcont.part.symm.trans hpart
            rcases Machine.dead_of_move hs hm hdead with hdead' | ⟨hlives, hends⟩
            · exact ih hb' hpart' hdead'
            · obtain ⟨hne, n', next, hl, -⟩ := hb.starts.ends_by hprograms (hf.run n) hs
                (Machine.alive_of_move hm) hb' hpart' hends
              exact felled hb' hpart' ⟨hlives, sound.not_lives_of_dead hdead, s, hs, hne,
                ⟨s, hs, rfl, m', hm, rfl⟩, n', next, hl⟩
          · -- it is only being started
            have hnew : ∀ s ∈ (f n).machine.slots, s.process.pid ≠ (f n).machine.nextPid :=
              fun s hs => Nat.ne_of_lt (holds.sound.bounds s hs).2
            rcases Machine.dead_of_move hs hm hdead with ⟨s', hs', hp, -⟩ | ⟨⟨s', hs', hp, -⟩, -⟩
            · exact absurd hp (hnew s' hs')
            · exact absurd hp (hnew s' hs')

/-- What was done for a builtin. -/
theorem Endless.builtin (ha : (f n).accounts p = some a) {d : Deed} (hd : d ∈ a.own)
    {q : Position} {b : Builtin} {c : Command} {r : Int} (hx : d.exchange = .builtin q b c r) :
    Builtin.lookup c = some b ∧ t.sub? q = some (.leaf c) ∧ (b.run c d.view).1 = .status r := by
  obtain ⟨j, -, s, hs, rfl, -, a', rest, ha', hstage, hanswers⟩ := hf.done_at ha hd
  cases hanswers with
  | launch | fork | channel | release | wait => cases hx
  | builtin hstatus =>
      cases hx
      obtain ⟨hlookup, hsub, -⟩ := asked_of_walking hprograms hb (hf.run j) ha' hstage
      exact ⟨hlookup, hsub, hstatus⟩

/-- Where a process was started for a command, it stays so. -/
theorem Endless.taken_later {k : Nat} {q : Position} (hk : k ≤ n) (h : (f k).Taken q) :
    (f n).Taken q := by
  obtain ⟨p, a, ha, hprogram⟩ := h
  obtain ⟨b, hb', hcont⟩ := hf.account hprograms hb hk ha
  exact ⟨p, b, hb', hcont.program?.trans hprogram⟩

variable (hforeseen : Foreseen programs table status f)
include hforeseen

/-- What was done bears the course out. -/
theorem Endless.shows_foreseen (n : Nat) :
    (f n).Shows (t.foreseen table status).toAnswers (f n).part := by
  intro p a ha d hd
  unfold Deed.shows
  cases hx : d.exchange with
  | launch | fork | release => rfl
  | builtin q b c r =>
      obtain ⟨-, rfl⟩ := hx ▸ hforeseen.done n p a ha d hd
      exact beq_iff_eq.mpr rfl
  | channel q r =>
      have hmade : Exchange.Foreseen status d.view (.channel q r) :=
        hx ▸ hforeseen.done n p a ha d hd
      cases r with
      | error e => cases hmade
      | ok ch => rfl
  | wait c r =>
      obtain ⟨j, how, hdead, -, hending, hj, b, hb', hshell⟩ := hf.waited hprograms hb ha hd hx
      obtain ⟨later, hlater, hcont⟩ := hf.account hprograms hb (Nat.le_of_lt hj) hb'
      have hwho : (f n).part c = some b.part := by
        rw [← hcont.part]
        exact (f n).known_part.part c later hlater
      simp only [hwho, hending]
      cases hpart : b.part with
      | program q =>
          obtain ⟨c', hcommand, hsub⟩ := command_of_program hprograms hb (hf.run j) hb'
            (Account.program?_eq_some.mpr ⟨hshell, hpart⟩)
          obtain rfl := hforeseen.ends j c b c' how hb' hcommand hdead
          simp only [Tree.foreseen, hsub, Option.elim_some, beq_self_eq_true]
      | branch q u =>
          cases how with
          | exited code => rfl
          | signaled i =>
              obtain ⟨j', e, he, hpart', hfelled⟩ := hf.killed hprograms hb hb' hpart hdead
              exact absurd hfelled (hforeseen.spared j' c e he
                (command_of_branch hprograms hb (hf.run j') he hpart'))

/-- The run takes the course of the tree. -/
theorem Endless.takes_foreseen (n : Nat) :
    (f n).Concurred (t.foreseen table status) (f n).part (f n).Taken ∧
      (f n).Cut (t.foreseen table status) (f n).Taken := by
  have leaving : LeavingRun programs (fun q => (t.foreseen table status).leaves q = true)
      (begin t depth parent m) (f n) := by
    refine hf.leavingRun hprograms hb fun k _ p q htakes => ?_
    obtain ⟨⟨s, -, -, a, b, c, next, -, -, hsub, hexits⟩, -⟩ := htakes
    simp only [Tree.foreseen, hsub, Command.isExit, Builtin.lookup_eq_exit.mpr hexits.verb,
      hexits.bare]
    rfl
  have borne : (f n).Borne (t.foreseen table status) (f n).part := by
    refine ⟨hf.shows_foreseen hprograms hb hforeseen n, fun p a ha d hd q b c r hx => ?_⟩
    obtain ⟨hlookup, hsub, hstatus⟩ := hf.builtin hprograms hb ha hd hx
    obtain ⟨hredirects, -⟩ := hx ▸ hforeseen.done n p a ha d hd
    simp only [Tree.foreseen, hsub]
    refine Bool.eq_false_iff.mpr fun hexit => ?_
    simp only [Command.isExit, hlookup, Bool.and_eq_true, beq_iff_eq, Option.some.injEq,
      List.isEmpty_iff] at hexit
    have hleave := Builtin.run_leave.mpr ⟨hexit.1, hexit.2, hredirects⟩
    rw [hstatus] at hleave
    cases hleave
  obtain ⟨-, hconcurred, hcut⟩ :=
    hb.starts.takes_course hprograms (fun _ => id) leaving (f n).known_part borne
  exact ⟨hconcurred, hcut⟩

/-- The shell has the result of the course, and all is started. -/
theorem Endless.returns_foreseen {x : ρ} (h : (f n).machine.Returns Machine.mainPid x) :
    (∃ r, t.course (t.foreseen table status) [] = some r ∧ x = result r) ∧
      ∀ q ∈ t.reaches (t.foreseen table status) [], (f n).Taken q := by
  obtain ⟨hconcurred, -⟩ := hf.takes_foreseen hprograms hb hforeseen n
  obtain ⟨a, ha, hsite, htree, rest, r, hstage, hr, rfl⟩ :=
    shell_result hprograms hb (hf.run n) h
  obtain ⟨hcourse, hfull⟩ :=
    hb.starts.result_of_concurred hprograms (hf.run n) hconcurred ha hstage hr
  rw [hsite, htree] at hcourse hfull
  exact ⟨⟨r, hcourse, rfl⟩, hfull fun _ => rfl⟩

/-- A builtin has ended the shell, where the course has no result, and all is
started. -/
theorem Endless.dead_foreseen (h : ¬(f n).machine.Lives Machine.mainPid) :
    t.course (t.foreseen table status) [] = none ∧
      ∀ q ∈ t.reaches (t.foreseen table status) [], (f n).Taken q := by
  have shell (k : Nat) : ∃ a, (f k).accounts Machine.mainPid = some a ∧ a.command? = none := by
    obtain ⟨⟨a, ha⟩, hshells⟩ := shell_of_run hprograms hb (hf.run k)
    exact ⟨a, ha, by rw [Account.command?, if_pos ((hshells _ a ha).1.mpr rfl)]⟩
  rcases hf.shell_dead hprograms hb h with ⟨k, hk, q, htakes, -⟩ | ⟨k, hk, hfelled⟩
  · obtain ⟨a, ha, -⟩ := shell k
    obtain ⟨-, hleaving, -⟩ := htakes.taken hprograms hb (hf.run k) ha
    obtain ⟨s, hs, hp, m', hm, -⟩ := htakes.2
    have hlives := hf.lives_on hprograms hb htakes ha ⟨s, hs, hp, Machine.alive_of_move hm⟩
    obtain ⟨-, hcut⟩ := hf.takes_foreseen hprograms hb hforeseen (k + 1)
    obtain ⟨hcourse, hfull⟩ := hcut _ _ q hlives hleaving rfl
    obtain ⟨hsite, htree⟩ := shell_site hprograms hb (hf.run k) ha
    rw [hsite, htree] at hcourse hfull
    exact ⟨hcourse, fun u hu => hf.taken_later hprograms hb hk (hfull (fun _ => rfl) u hu)⟩
  · obtain ⟨a, ha, hcommand⟩ := shell k
    exact absurd hfelled (hforeseen.spared k _ a ha hcommand)

/-- The shell stops where the course is done, and the processes that were
started are those that the course takes up. -/
theorem Endless.started_foreseen (h : (f n).Stopped Machine.mainPid) :
    (f n).started.Perm (t.externals (t.reaches (t.foreseen table status) [])) := by
  obtain ⟨hconcurred, -⟩ := hf.takes_foreseen hprograms hb hforeseen n
  refine started_perm hprograms hb (hf.run n) ?_ ?_
  · rintro q ⟨p, a, ha, hprogram⟩
    obtain ⟨hshell, hpart⟩ := Account.program?_eq_some.mp hprogram
    exact hb.starts.taken_within hprograms (hf.run n) hconcurred ha
      (begotten_of_run hprograms hb (hf.run n) ha hshell) hpart
  · rcases h with hdead | ⟨s, hs, hp, x, hl⟩
    · exact (hf.dead_foreseen hprograms hb hforeseen hdead).2
    · refine (hf.returns_foreseen hprograms hb hforeseen (x := x) ⟨s, hs, hp, ?_⟩).2
      rw [Slot.result?, hl]

end

-- ========================================================= the main result

section

variable (hprograms : ∀ name args, (programs name args).Respects .onward)
  (hb : m.Begins result t depth parent) (hf : Endless programs (begin t depth parent m) f)
include hprograms hb hf

/-- A rehearsal with a table of endings and a run with processes agree, if no
builtin stands below a `|` or `&`, and both are foreseen by the table and the
same statuses of builtins: where the shell has a result, it is the status
that the rehearsal finished with; where it has come to its end, so has the
rehearsal; and the rehearsal has told of the start of each command as often
as a process was started for it. If the run is fair and its programs end, one
of the two comes about. -/
theorem recorded_as_forked (hkeeps : t.keepsBuiltins = true) (hnamed : Recorded.Named table)
    (hforked : Foreseen programs table status f) (v : View)
    (hrecorded : Recorded.Foreseen status
      ((Walk.execute t depth parent).trace Recorded.launcher { endings := table } v)) :
    let r := (Walk.execute t depth parent).rehearse Recorded.launcher { endings := table } v
    (∀ n x, (f n).machine.Returns Machine.mainPid x →
      ∃ k, r.1 = .finished k ∧ x = result (.ok k)) ∧
    (∀ n, ¬(f n).machine.Lives Machine.mainPid → r.1 = .left) ∧
    (∀ n, (f n).Stopped Machine.mainPid → ∀ words,
      Recorded.starts r.2.1.lines words = ((f n).started.map Recorded.spelled).count words) ∧
    (Fair programs f → (∀ n p a, (f n).accounts p = some a → a.runsProgram = true →
      ∃ k, n ≤ k ∧ ¬(f k).machine.Lives p) → ∃ n, (f n).Stopped Machine.mainPid) := by
  obtain ⟨houtcome, hrecords⟩ := Recorded.rehearse_foreseen hnamed status t depth parent []
    (Tree.sub?_nil t) hkeeps { endings := table } v rfl nofun hrecorded
  refine ⟨fun n x hreturns => ?_, fun n hdead => ?_, fun n hstopped words => ?_,
    fun hfair hends => ?_⟩
  · obtain ⟨⟨r, hcourse, rfl⟩, -⟩ := hf.returns_foreseen hprograms hb hforked hreturns
    cases r with
    | error e => exact absurd hcourse (Tree.course_ne_error hnamed t [] e)
    | ok k =>
        refine ⟨k, houtcome.trans ?_, rfl⟩
        rw [hcourse]
        rfl
  · obtain ⟨hcourse, -⟩ := hf.dead_foreseen hprograms hb hforked hdead
    rw [hcourse] at houtcome
    exact houtcome
  · rw [hrecords.lines, ((hf.started_foreseen hprograms hb hforked hstopped).map _).count_eq]
    exact Nat.zero_add _
  · obtain ⟨⟨a, ha⟩, -⟩ := shell_of_run hprograms hb (hf.run 0)
    obtain ⟨k, -, hstopped⟩ := hfair.stops hprograms hb (hf.run 0) hends ha
    exact ⟨k, hstopped⟩

end

-- ================================================================ instances

/-- A check of one moment of a run: the dead have ended as the table has it,
what was done is as foreseen, and nobody is about to kill anyone. -/
def looksForeseen (table : List (String × Ending)) (status : Position → Int) (w : Watch ρ) : Bool :=
  (w.machine.slots.all fun s =>
    match s.life with
    | .ended how => (w.accounts s.process.pid).all fun a => a.command?.all fun c =>
        how == (table.lookup c.verb).getD (.exited 0)
    | .running (.kill ..) => false
    | _ => true) &&
  (List.range w.machine.nextPid).all fun p => (w.accounts p).all fun a => a.own.all fun d =>
    decide (d.exchange.Foreseen status d.view)

theorem foreseen_of_looks (hprograms : ∀ name args, (programs name args).Respects .onward)
    (hb : m.Begins result t depth parent) (hf : Endless programs (begin t depth parent m) f)
    (h : ∀ n, (f n).looksForeseen table status = true) : Foreseen programs table status f := by
  have slots n : ∀ s ∈ (f n).machine.slots, _ :=
    List.all_eq_true.mp (Bool.and_eq_true_iff.mp (h n)).1
  refine ⟨fun n p a c how ha hcommand => ?_, fun n p a ha d hd => ?_, fun n p a ha hcommand => ?_⟩
  · rintro ⟨s, hs, rfl, hl⟩
    have hslot := slots n s hs
    rw [hl] at hslot
    simp only [ha, hcommand, Option.all_some, beq_iff_eq] at hslot
    exact hslot
  · have hdone := List.all_eq_true.mp (Bool.and_eq_true_iff.mp (h n)).2 p
      (List.mem_range.mpr ((holds_placed hprograms hb (hf.run n)).known p a ha))
    rw [ha] at hdone
    exact of_decide_eq_true (List.all_eq_true.mp hdone d hd)
  · rintro ⟨-, -, s, hs, -, -, k, next, hl⟩
    have hslot := slots n s hs
    rw [hl] at hslot
    cases hslot

/-- A builtin, and then the same program twice at once. -/
theorem recorded_as_forked_twice :
    let t : Tree := .node .sequential (.leaf (.ofWords ["cd", "/"]))
      (.node .parallel (.leaf (.ofWords ["/sh"])) (.leaf (.ofWords ["/sh"])))
    let v := View.atTerminalWith "sh"
    let m : Machine (Except ExecError Int) := .executing id t v
    let programs : Installed (Except ExecError Int) := fun _ _ => .exit (.exited 3)
    let table : List (String × Ending) := [("/sh", .exited 3)]
    let r := (Walk.execute t 0 none).rehearse Recorded.launcher { endings := table } v
    ∃ f, Fair programs f ∧ f 0 = begin t 0 none m ∧
      Foreseen programs table (fun _ => 0) f ∧
      r.1 = .finished 3 ∧ Recorded.starts r.2.1.lines "/sh" = 2 ∧
      ∃ n, (f n).machine.Returns Machine.mainPid (.ok 3) ∧
        ((f n).started.map Recorded.spelled).count "/sh" = 2 := by
  intro t v m programs table r
  have hprograms : ∀ name args, (programs name args).Respects .onward := fun _ _ => trivial
  have hb : m.Begins id t 0 none := Machine.executing_begins id t v
  have played : ((begin t 0 none m).playWhile (looksForeseen table fun _ => 0) programs
      [1, 1, 1, 1, 1, 1, 1, 1, 1, 2, 2, 2, 2, 2, 3, 3, 3, 3, 3, 0, 2, 2, 1, 3, 3, 1, 1]).any
        (fun w => decide (w.machine.Returns Machine.mainPid (.ok 3)) &&
          w.machine.slots.all fun s => (w.machine.move programs s).isNone) = true := by
    decide +kernel
  obtain ⟨w, hplay, hlast⟩ := (Option.any_eq_true _ _).mp played
  obtain ⟨hreturns, hrest⟩ := Bool.and_eq_true_iff.mp hlast
  obtain ⟨f, hfair, hfirst, hlooks, n, hn⟩ := fair_of_runWhile (runWhile_of_play hplay)
    (by decide +kernel) fun s hs => Option.isNone_iff_eq_none.mp (List.all_eq_true.mp hrest s hs)
  have hf : Endless programs (begin t 0 none m) f := ⟨hfirst, hfair.step⟩
  have hforeseen := foreseen_of_looks hprograms hb hf hlooks
  have hreturns : (f n).machine.Returns Machine.mainPid (.ok 3) := by
    rw [hn n (Nat.le_refl n)]
    exact of_decide_eq_true hreturns
  have hnamed : Recorded.Named table := fun e he n hn => by
    obtain rfl := List.mem_singleton.mp he
    cases hn
  obtain ⟨houtcome, -, hcounts, -⟩ := recorded_as_forked hprograms hb hf (by decide) hnamed
    hforeseen v (by decide +kernel)
  obtain ⟨k, hk, hstatus⟩ := houtcome n _ hreturns
  cases hstatus
  have hrecorded : Recorded.starts r.2.1.lines "/sh" = 2 := by decide +kernel
  obtain ⟨s, hs, hp, hx⟩ := hreturns
  refine ⟨f, hfair, hfirst, hforeseen, hk, hrecorded, n, ⟨s, hs, hp, hx⟩, ?_⟩
  rw [← hcounts n (.inr ⟨s, hs, hp, _, Slot.of_result? hx⟩) "/sh", hrecorded]

end Watch

-- =========================================================== the provisos

/-- Programs that make a directory below the root, and end well. -/
def Posix.makesDirectory (name : String) : Installed ρ := fun _ _ =>
  .step (·.modifyTree fun t => (t.addDirectory FileTree.root (Bytes.ofString name) 0o755).1)
    fun _ => .exit (.exited 0)

theorem Posix.makesDirectory_respects (name : String) (verb : String) (args : List Bytes) :
    (makesDirectory name verb args : Prog ρ).Respects .onward :=
  ⟨fun v => (View.Outward.ofTree v _).quiet.toOnward, fun _ => trivial⟩

namespace Watch

/-- Whoever is dead has ended well. -/
def endsWell (w : Watch ρ) : Bool :=
  w.machine.slots.all fun s => match s.life with
    | .ended how => how == .exited 0
    | _ => true

theorem ended_of_endsWell {w : Watch ρ} (h : w.endsWell = true) {p : Pid} {how : Ending}
    (hdead : w.machine.Dead p how) : how = .exited 0 := by
  obtain ⟨s, hs, -, hl⟩ := hdead
  have hslot := List.all_eq_true.mp h s hs
  rw [hl] at hslot
  exact beq_iff_eq.mp hslot

/-- A builtin may find what a program did that the recording launcher never
starts. And a program that ends as the table has it may kill the shell. -/
theorem recorded_as_forked_counterexample :
    let t : Tree := .node .sequential (.leaf (.ofWords ["/mkdir", "/d"]))
      (.leaf (.ofWords ["cd", "/d"]))
    let v := View.atTerminalWith "mkdir"
    let u : Tree := .leaf (.ofWords ["/sh"])
    let v' := View.atTerminalWith "sh"
    let killing : Installed (Except ExecError Int) := looksAround fun v =>
      .kill v.process.parent Signal.kill fun _ => .exit (.exited 0)
    (∀ name args, (makesDirectory "d" name args : Prog (Except ExecError Int)).Respects .onward) ∧
    (t.keepsBuiltins = true ∧ Recorded.Named [] ∧
      ((Walk.execute t 0 none).rehearse Recorded.launcher { endings := [] } v).1 = .finished 1 ∧
      ∃ w, RunWhile (makesDirectory "d") (fun w => ∀ p how, w.machine.Dead p how → how = .exited 0)
          (begin t 0 none (Machine.executing id t v)) w ∧
        w.machine.Returns Machine.mainPid (.ok 0)) ∧
    u.keepsBuiltins = true ∧
      ((Walk.execute u 0 none).rehearse Recorded.launcher { endings := [] } v').1 = .finished 0 ∧
      ∃ w, Run killing (begin u 0 none (Machine.executing id u v')) w ∧
        ¬w.machine.Lives Machine.mainPid := by
  intro t v u v' killing
  refine ⟨makesDirectory_respects "d", ⟨by decide, nofun, by decide +kernel, ?_⟩, by decide,
    by decide +kernel, ?_⟩
  · have played : ((begin t 0 none (Machine.executing id t v)).playWhile endsWell
        (makesDirectory "d") [1, 1, 1, 1, 2, 2, 2, 2, 0, 2, 2, 2, 1, 1, 1, 1, 1]).any
          (fun w => decide (w.machine.Returns Machine.mainPid (.ok 0))) = true := by
      decide +kernel
    obtain ⟨w, hplay, hreturns⟩ := (Option.any_eq_true _ _).mp played
    refine ⟨w, Relation.ReflTransGen.mono (fun _ _ hstep => ⟨hstep.1, ?_⟩) _ _
      (runWhile_of_play hplay), of_decide_eq_true hreturns⟩
    exact fun p how => ended_of_endsWell hstep.2
  · have played : ((begin u 0 none (Machine.executing id u v')).play killing
        [1, 1, 1, 2, 2, 2, 2, 0, 2, 2, 2]).any (fun w => w.machine.slots.all fun s =>
          s.process.pid != Machine.mainPid || !s.alive) = true := by
      decide +kernel
    obtain ⟨w, hplay, hdead⟩ := (Option.any_eq_true _ _).mp played
    refine ⟨w, run_of_play hplay, ?_⟩
    rintro ⟨s, hs, hp, halive⟩
    have hslot := List.all_eq_true.mp hdead s hs
    rw [halive, hp] at hslot
    cases hslot

end Watch

end LineShell
