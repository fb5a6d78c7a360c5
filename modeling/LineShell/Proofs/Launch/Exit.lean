/-
What ends with an `exit`, and what does not.

# The moment

A process that comes to an `exit` or `quit` takes it in one move: if the
command has no arguments, and its redirections can be opened and put in
place, then there is nothing left to do for the process but to exit with
zero (`TakesExit`). That is where its walk stops, and only there does a
builtin stop one, so the moment can be read off a run: whoever is at that
last request has taken an exit before (`Endless.taken`). From then on the
account stays as it is until the process dies (`Endless.after_exit`).

# One process

Of those who live nobody dies by the moves of the process but itself
(`EndsOne.spares`). If it is a branch, it has become the very process that
it would be if the rest of its walk were to come to zero
(`EndsOne.likeDone`), so whatever comes later, in the sibling or after the
operator, comes as if it had. Below the operators where its walk would have
turned right nobody does anything (`EndsOne.skipped`): nobody but the
process itself gets there without a fork, and it asks for things from left
to right.

# The shell

The shell ends by an exit that it takes, or because another process kills
it; nothing else ends it (`exit_ends_one`). A program may well do the latter
(`exit_ends_one_counterexample`).
-/
import LineShell.Proofs.Launch.Boundary
import LineShell.Proofs.Walk.Order

namespace LineShell

open Posix

variable {ρ : Type} {result : Except ExecError Int → ρ}

-- ================================================================ commands

/-- The command ends the process that runs it as a builtin: `exit` or `quit`,
without arguments, and with redirections that can be opened and put in
place. -/
structure Command.Exits (c : Command) (v : View) : Prop where
  verb : c.verb = "exit" ∨ c.verb = "quit"
  bare : c.params = []
  redirects : Builtin.Redirects c v

theorem Builtin.lookup_eq_exit {c : Command} :
    lookup c = some .exit ↔ c.verb = "exit" ∨ c.verb = "quit" := by
  unfold lookup
  split
  · next h => simp [h]
  · split
    · next h => simpa using h
    · next h =>
      split <;> simpa using h

/-- A builtin ends the process exactly where the command does. -/
theorem Builtin.leave_iff_exits {b : Builtin} {c : Command} {v : View}
    (h : lookup c = some b) : (b.run c v).1 = .leave ↔ c.Exits v := by
  rw [run_leave]
  refine ⟨fun ⟨hb, hparams, hredirects⟩ => ⟨?_, hparams, hredirects⟩, fun hexits => ?_⟩
  · exact lookup_eq_exit.mp (hb ▸ h)
  · have hb := lookup_eq_exit.mpr hexits.verb
    rw [h] at hb
    exact ⟨Option.some.inj hb, hexits.bare, hexits.redirects⟩

theorem Posix.Machine.Begins.starts {t : Tree} {depth : Nat} {parent : Option Operator}
    {m : Machine ρ} (h : m.Begins result t depth parent) :
    (Watch.begin t depth parent m).Starts result t :=
  Machine.Executes.starts ⟨h.sound, h.main⟩

namespace Watch

variable {programs : Installed ρ} {t : Tree} {depth : Nat} {parent : Option Operator}
  {m : Machine ρ} {w w' : Watch ρ} {p p' : Pid} {q : Position} {a b : Account} {f : Nat → Watch ρ}
  {k n : Nat}

-- ================================================================= moments

/-- The process is at a leaf that ends it. -/
def ComesToExit (t : Tree) (w : Watch ρ) (p : Pid) (q : Position) : Prop :=
  ∃ s ∈ w.machine.slots, s.process.pid = p ∧ ∃ a b c next, w.accounts p = some a ∧
    a.stage = .walking (.builtin q b c next) ∧ t.sub? q = some (.leaf c) ∧
    c.Exits ⟨s.process, w.machine.world⟩

/-- The process takes the exit that it is at. -/
def TakesExit (programs : Installed ρ) (t : Tree) (w : Watch ρ) (p : Pid) (q : Position)
    (w' : Watch ρ) : Prop :=
  w.ComesToExit t p q ∧ w.Moves programs p w'

/-- The process ends with status zero, on its own request. -/
def ExitsWithZero (programs : Installed ρ) (w : Watch ρ) (p : Pid) (w' : Watch ρ) : Prop :=
  w.Moves programs p w' ∧
    ∃ s ∈ w.machine.slots, s.process.pid = p ∧ s.life = .running (.exit (.exited 0))

/-- Another process kills this one. -/
def Felled (programs : Installed ρ) (w : Watch ρ) (p : Pid) (w' : Watch ρ) : Prop :=
  w.machine.Lives p ∧ ¬w'.machine.Lives p ∧ ∃ s ∈ w.machine.slots, s.process.pid ≠ p ∧
    w.Moves programs s.process.pid w' ∧ ∃ n next, s.life = .running (.kill p n next)

/-- An endless run. -/
structure Endless (programs : Installed ρ) (w₀ : Watch ρ) (f : Nat → Watch ρ) : Prop where
  first : f 0 = w₀
  step : ∀ n, Step programs (f n) (f (n + 1))

theorem Endless.run {w₀ : Watch ρ} (hf : Endless programs w₀ f) (n : Nat) :
    Run programs w₀ (f n) := by
  induction n with
  | zero =>
      rw [hf.first]
      exact .refl
  | succ n ih => exact .tail ih (hf.step n)

section

variable (hprograms : ∀ name args, (programs name args).Respects .onward)
  (hb : m.Begins result t depth parent)
include hprograms hb

/-- Whoever comes to an end is ended by whoever moves. -/
theorem ended_of_step (hrun : Run programs (begin t depth parent m) w)
    (hstep : Step programs w w') (hlives : w.machine.Lives p) (hdead : ¬w'.machine.Lives p) :
    ∃ s ∈ w.machine.slots, ∃ how, Machine.EndsBy s p how ∧
      w.Moves programs s.process.pid w' := by
  have holds := holds_placed hprograms hb hrun
  cases hstep with
  | pass clock => exact absurd hlives hdead
  | @move s m' hs hm =>
      obtain ⟨how, hends⟩ := (holds.sound.lives_of_move hm hlives).resolve_left hdead
      exact ⟨s, hs, how, hends, s, hs, rfl, m', hm, rfl⟩

/-- What is known of a process whose walk asks for a builtin. -/
theorem asked_of_walking (hrun : Run programs (begin t depth parent m) w)
    (ha : w.accounts p = some a) {b : Builtin} {c : Command} {next : Int → Walk}
    (hstage : a.stage = .walking (.builtin q b c next)) :
    Builtin.lookup c = some b ∧ t.sub? q = some (.leaf c) ∧ Direct t a.site q ∧
      ∀ d ∈ a.own, ∀ u, d.exchange.asks? = some u → u ≠ q ∧ ¬Before q u := by
  obtain ⟨used, hordered⟩ := hb.starts.stands hprograms hrun (C := fun _ => ordering)
    (Q := fun _ _ _ => True)
    (fun a => Walk.ordering_execute a.tree a.depth a.parent a.site) (fun _ _ _ => rfl)
    (fun _ _ _ => rfl) ha
  obtain ⟨st, hsited, -⟩ := landed_of_run hprograms hb hrun ha
  obtain ⟨_, ⟨hlookup, horder, -⟩, -⟩ := hordered.rest hstage 0
  obtain ⟨_, ⟨hunused, -, hsub, hdirect, -⟩, -⟩ := hsited.stands.rest hstage 0
  refine ⟨hlookup, hsub, hdirect, fun d hd u hu => ?_⟩
  have asked : u ∈ (a.own.map Deed.exchange).filterMap Exchange.asks? :=
    List.mem_filterMap.mpr ⟨_, List.mem_map_of_mem hd, hu⟩
  obtain ⟨hused, -⟩ := siting_used hsited.stands.led List.nodup_nil
  refine ⟨?_, horder q rfl u ?_⟩
  · rintro rfl
    refine hunused ?_
    rw [hused, List.append_nil]
    exact List.mem_reverse.mpr asked
  · rw [ordering_used hordered.led, List.append_nil]
    exact List.mem_reverse.mpr asked

/-- Whoever has taken an exit has nothing left to do but to exit with zero. -/
theorem TakesExit.taken (h : TakesExit programs t w p q w')
    (hrun : Run programs (begin t depth parent m) w) (ha : w.accounts p = some a) :
    (∃ b c next, a.stage = .walking (.builtin q b c next)) ∧
      w'.accounts p = some { a with stage := .leaving q } ∧
      ∃ s ∈ w.machine.slots, s.process.pid = p ∧
        ∃ v, w'.machine = w.machine.resume s v (.exit (.exited 0)) := by
  obtain ⟨⟨s, hs, rfl, a', b, c, next, ha', hstage, -, hexits⟩, s', hs', hpid, m', hm, rfl⟩ := h
  rw [ha] at ha'
  cases ha'
  have holds := holds_placed hprograms hb hrun
  obtain rfl := holds.sound.eq_of_pid hs' hs hpid
  obtain ⟨hlookup, -⟩ := asked_of_walking hprograms hb hrun ha hstage
  have hleave := (Builtin.leave_iff_exits hlookup).mpr hexits
  have hl : s'.life = .running ((Walk.builtin q b c next).perform (a.finish result)) :=
    (holds.drives s' hs' (Machine.alive_of_move hm) a ha).todo _
      (by simp only [Account.todo?, hstage])
  rw [Walk.perform_builtin] at hl
  rw [Machine.move_step hl] at hm
  cases hm
  refine ⟨⟨b, c, next, hstage⟩, ?_, s', hs', rfl, (b.run c ⟨s'.process, w.machine.world⟩).2, ?_⟩
  · simp only [moved, if_true, ha, Option.map_some, Account.after, hstage, Account.walked, hleave]
  · simp only [moved, hleave]

/-- A builtin is about to end a process because it was before, or because the
process has just taken an exit. -/
theorem taken_of_step (hrun : Run programs (begin t depth parent m) w)
    (hstep : Step programs w w') (h : w'.Leaving p q) :
    w.Leaving p q ∨ TakesExit programs t w p q w' := by
  obtain ⟨hlives, a, ha, hstage⟩ := h
  have holds := holds_placed hprograms hb hrun
  cases hstep with
  | pass clock => exact .inl ⟨hlives, a, ha, hstage⟩
  | @move s m' hs hm =>
      rcases accounts_moved ha with ⟨rfl, b, hb', rfl⟩ | ⟨-, -, b, -, hc⟩ | ⟨hp, hn, hb'⟩
      · obtain ⟨b', c, next, hwalking, hleave⟩ := Account.of_after_leaving hstage
        obtain ⟨hlookup, hsub, -⟩ := asked_of_walking hprograms hb hrun hb' hwalking
        exact .inr ⟨⟨s, hs, rfl, b, b', c, next, hb', hwalking, hsub,
          (Builtin.leave_iff_exits hlookup).mp hleave⟩, s, hs, rfl, m', hm, rfl⟩
      · exact absurd hstage (Account.child_not_leaving hc)
      · exact .inl ⟨(holds.sound.lives_before hprograms hs hm hlives).resolve_right hn, a, hb',
          hstage⟩

/-- The shell walks the whole tree. -/
theorem shell_site (hrun : Run programs (begin t depth parent m) w)
    (ha : w.accounts Machine.mainPid = some a) : a.site = [] ∧ a.tree = t := by
  obtain ⟨-, hshells⟩ := shell_of_run hprograms hb hrun
  obtain ⟨st, hplaced⟩ := (holds_placed hprograms hb hrun).all _ a ha
  have hsite := hplaced.shell ((hshells _ a ha).1.mpr rfl)
  have htree := hplaced.sited.part
  rw [hsite, Tree.sub?_nil] at htree
  exact ⟨hsite, (Option.some.inj htree).symm⟩

/-- The shell has its result from its walk. -/
theorem shell_result (hrun : Run programs (begin t depth parent m) w) {x : ρ}
    (hreturns : w.machine.Returns Machine.mainPid x) :
    ∃ a, w.accounts Machine.mainPid = some a ∧ a.site = [] ∧ a.tree = t ∧ ∃ rest r,
      a.stage = .walking rest ∧ rest.result? = some r ∧ x = result r := by
  obtain ⟨s, hs, hp, hresult⟩ := hreturns
  obtain ⟨⟨a, ha⟩, hshells⟩ := shell_of_run hprograms hb hrun
  obtain ⟨hsite, htree⟩ := shell_site hprograms hb hrun ha
  obtain ⟨rest, r, hstage, hr, hx⟩ := (holds_placed hprograms hb hrun).returned hs
    (Slot.of_result? hresult) (hp ▸ ha) ((hshells _ a ha).1.mpr rfl)
  exact ⟨a, ha, hsite, htree, rest, r, hstage, hr, hx⟩

/-- The shell is never about to report or to exit because its walk is over. -/
theorem not_lives_of_quitting (hrun : Run programs (begin t depth parent m) w)
    (ha : w.accounts Machine.mainPid = some a) (hquits : a.stage = .quitting) :
    ¬w.machine.Lives Machine.mainPid := by
  induction hrun generalizing a with
  | refl =>
      obtain ⟨-, rfl⟩ := begin_shell ha
      cases hquits
  | @tail w w' hrun hstep ih =>
      have holds := holds_placed hprograms hb hrun
      cases hstep with
      | pass clock => exact ih ha hquits
      | @move s m' hs hm =>
          intro hlives
          rcases accounts_moved ha with ⟨hp, b, hb', rfl⟩ | ⟨-, hn, b, -, hc⟩ | ⟨hp, hn, hb'⟩
          · have halive := Machine.alive_of_move hm
            have hdrives := holds.drives s hs halive b (hp ▸ hb')
            have hshell : b.isShell = true :=
              ((shell_of_run hprograms hb hrun).2 _ b hb').1.mpr rfl
            rcases (holds.proper _ b hb').shell hshell with ⟨rest, hstage⟩ | ⟨q, hstage⟩ | hstage
            · obtain ⟨r, hr⟩ := Account.result?_of_after_quitting hstage hquits
              have hl := hdrives.todo (rest.perform (b.finish result))
                (by simp only [Account.todo?, hstage])
              rw [Walk.perform_result _ hr, Account.finish, if_pos hshell] at hl
              rw [Machine.move_ret hl] at hm
              cases hm
            · have hl := hdrives.todo (.exit (.exited 0)) (by simp only [Account.todo?, hstage])
              rw [Machine.move_exit hl] at hm
              cases hm
              obtain ⟨u, hu, hpid, hualive⟩ := hlives
              exact (Machine.mem_terminate hu hualive).1 (hpid.trans hp)
            · exact ih hb' hstage ⟨s, hs, hp.symm, halive⟩
          · obtain ⟨⟨b, hb'⟩, -⟩ := shell_of_run hprograms hb hrun
            have hknown := holds.known _ b hb'
            rw [hn] at hknown
            exact Nat.lt_irrefl _ hknown
          · exact ih hb' hquits ((holds.sound.lives_before hprograms hs hm hlives).resolve_right hn)

/-- The shell comes to its end by an exit that it has taken, or is killed. -/
theorem shell_ends (hrun : Run programs (begin t depth parent m) w) (hstep : Step programs w w')
    (hlives : w.machine.Lives Machine.mainPid) (hdead : ¬w'.machine.Lives Machine.mainPid) :
    (∃ q, w.Leaving Machine.mainPid q) ∨ Felled programs w Machine.mainPid w' := by
  have holds := holds_placed hprograms hb hrun
  obtain ⟨⟨a, ha⟩, hshells⟩ := shell_of_run hprograms hb hrun
  have hshell := (hshells _ a ha).1.mpr rfl
  have hproper := holds.proper _ a ha
  obtain ⟨s, hs, how, hends, hmoves⟩ := ended_of_step hprograms hb hrun hstep hlives hdead
  by_cases hp : s.process.pid = Machine.mainPid
  · refine .inl ?_
    rw [← hp] at ha
    have halive : s.alive := by
      obtain ⟨s', hs', hpid, m', hm, -⟩ := hmoves
      rw [← holds.sound.eq_of_pid hs' hs hpid]
      exact Machine.alive_of_move hm
    have hdrives := holds.drives s hs halive a ha
    obtain ⟨todo, hl, hasks⟩ := hdrives.asks (hproper.runsProgram_shell hshell)
    obtain ⟨how, rfl, -⟩ := hasks.endsBy hl hends
    rcases hproper.shell hshell with ⟨rest, hstage⟩ | ⟨q, hstage⟩ | hstage
    · have hwalk := hdrives.todo (rest.perform (a.finish result))
        (by simp only [Account.todo?, hstage])
      rw [hl] at hwalk
      obtain ⟨r, -, hfinish⟩ := Walk.result?_of_exit (Life.running.inj hwalk).symm
      rw [Account.finish, if_pos hshell] at hfinish
      cases hfinish
    · exact ⟨q, hlives, a, hp ▸ ha, hstage⟩
    · exact absurd hlives (not_lives_of_quitting hprograms hb hrun (hp ▸ ha) hstage)
  · obtain ⟨n, next, hl, -⟩ := hends.of_ne hp
    exact .inr ⟨hlives, hdead, s, hs, hp, hmoves, n, next, hl⟩

end

-- ==================================================================== runs

section

variable (hprograms : ∀ name args, (programs name args).Respects .onward)
  (hb : m.Begins result t depth parent) (hf : Endless programs (begin t depth parent m) f)
include hprograms hb hf

/-- Accounts go on. -/
theorem Endless.account (hk : k ≤ n) (ha : (f k).accounts p = some a) :
    ∃ b, (f n).accounts p = some b ∧ a.Continues b := by
  induction hk with
  | refl => exact ⟨a, ha, .refl a⟩
  | @step n _ ih =>
      obtain ⟨b, hb', hcont⟩ := ih
      obtain ⟨c, hc, hcont'⟩ :=
        (hf.step n).continues (holds_placed hprograms hb (hf.run n)).nextPid_new hb'
      exact ⟨c, hc, hcont.trans hcont'⟩

/-- Whoever is dead stays dead. -/
theorem Endless.dead (hk : k ≤ n) (hknown : p < (f k).machine.nextPid)
    (hdead : ¬(f k).machine.Lives p) : p < (f n).machine.nextPid ∧ ¬(f n).machine.Lives p := by
  induction hk with
  | refl => exact ⟨hknown, hdead⟩
  | @step n _ ih =>
      obtain ⟨hknown, hdead⟩ := ih
      have holds := holds_placed hprograms hb (hf.run n)
      have hstep := hf.step n
      generalize f (n + 1) = w' at hstep ⊢
      cases hstep with
      | pass clock => exact ⟨hknown, hdead⟩
      | move hs hm =>
          refine ⟨Nat.lt_of_lt_of_le hknown (holds.sound.move_nextPid hprograms hs hm),
            fun hlives => ?_⟩
          rcases holds.sound.lives_before hprograms hs hm hlives with hlives | rfl
          · exact hdead hlives
          · exact Nat.lt_irrefl _ hknown

/-- Whoever is about to be ended by a builtin has taken an exit. -/
theorem Endless.taken (h : (f n).Leaving p q) :
    ∃ k < n, TakesExit programs t (f k) p q (f (k + 1)) := by
  induction n with
  | zero =>
      rw [hf.first] at h
      exact absurd h hb.starts.not_leaving
  | succ n ih =>
      rcases taken_of_step hprograms hb (hf.run n) (hf.step n) h with h | h
      · obtain ⟨k, hk, htakes⟩ := ih h
        exact ⟨k, Nat.lt_succ_of_lt hk, htakes⟩
      · exact ⟨n, Nat.lt_succ_self n, h⟩

/-- Builtins end processes where exits are taken. -/
theorem Endless.leavingRun {there : Position → Prop}
    (hthere : ∀ k < n, ∀ p q, TakesExit programs t (f k) p q (f (k + 1)) → there q) :
    LeavingRun programs there (begin t depth parent m) (f n) := by
  induction n with
  | zero =>
      rw [hf.first]
      exact .refl
  | succ n ih =>
      refine .tail (ih fun k hk => hthere k (Nat.lt_succ_of_lt hk))
        ⟨hf.step n, fun p q hleaving => ?_⟩
      obtain ⟨k, hk, htakes⟩ := hf.taken hprograms hb hleaving
      exact hthere k hk p q htakes

omit hprograms hb in
/-- Whatever was done, was done at some moment. -/
theorem Endless.done_at (hb' : (f n).accounts p = some b) {d : Deed} (hd : d ∈ b.own) :
    ∃ j < n, ∃ s ∈ (f j).machine.slots, s.process.pid = p ∧ s.alive ∧ ∃ a rest,
      (f j).accounts p = some a ∧ a.stage = .walking rest ∧ d.Answers (f j).machine s rest := by
  induction n generalizing b with
  | zero =>
      rw [hf.first] at hb'
      obtain ⟨-, rfl⟩ := begin_shell hb'
      cases hd
  | succ n ih =>
      have earlier {b : Account} (hb' : (f n).accounts p = some b) (hd : d ∈ b.own) :
          ∃ j < n + 1, ∃ s ∈ (f j).machine.slots, s.process.pid = p ∧ s.alive ∧ ∃ a rest,
            (f j).accounts p = some a ∧ a.stage = .walking rest ∧
              d.Answers (f j).machine s rest := by
        obtain ⟨j, hj, hdone⟩ := ih hb' hd
        exact ⟨j, Nat.lt_succ_of_lt hj, hdone⟩
      have hstep := hf.step n
      generalize f (n + 1) = w' at hstep hb'
      cases hstep with
      | pass clock => exact earlier hb' hd
      | @move s m' hs hm =>
          rcases accounts_moved hb' with ⟨rfl, a, ha, rfl⟩ | ⟨-, -, a, -, hc⟩ | ⟨-, -, ha⟩
          · rcases a.own_after (f n).machine s with hown | ⟨rest, d', hstage, hanswers, hown⟩
            · exact earlier ha (hown ▸ hd)
            rw [hown] at hd
            rcases List.mem_append.mp hd with hd | hd
            · exact earlier ha hd
            obtain rfl := List.mem_singleton.mp hd
            exact ⟨n, Nat.lt_succ_self n, s, hs, rfl, Machine.alive_of_move hm, a, rest, ha, hstage,
              hanswers⟩
          · rw [(Account.child_deeds hc).2] at hd
            cases hd
          · exact earlier ha hd

/-- Children that were waited for were dead, and whoever waited was told how
they had ended. -/
theorem Endless.waited (hb' : (f n).accounts p = some b) {d : Deed} (hd : d ∈ b.own) {c : Child}
    {r : Except ExecError Ending} (hx : d.exchange = .wait c r) :
    ∃ j how, (f j).machine.Dead c how ∧ r = told how ∧ d.ending = some how ∧
      j < n ∧ ∃ b', (f j).accounts c = some b' ∧ b'.isShell = false := by
  obtain ⟨j, hj, s, hs, rfl, halive, a, rest, ha, hstage, hanswers⟩ :=
    hf.done_at hb' hd
  cases hanswers with
  | builtin | launch | fork | channel | release => cases hx
  | @wait child next raw hraw =>
      cases hx
      obtain ⟨how, b', rfl, hdead, hb'', hserves⟩ :=
        (hb.starts.attended hprograms (hf.run j)).waited hs halive ha hstage hraw
      exact ⟨j, how, hdead, Walk.waitAnswer_ok c how, rfl, hj, b', hb'', hserves.shell⟩

-- ============================================================ after an exit

section

variable (htakes : TakesExit programs t (f k) p q (f (k + 1))) (ha : (f k).accounts p = some a)
include htakes ha

/-- From then on the process does nothing for the tree, and stays where it is
until it is dead. -/
theorem Endless.after_exit (hk : k < n) : ∃ b, (f n).accounts p = some b ∧ b.own = a.own ∧
    (b.stage = .leaving q ∨ b.stage = .quitting ∧ ¬(f n).machine.Lives p) := by
  induction hk with
  | refl =>
      obtain ⟨-, hb', -⟩ := htakes.taken hprograms hb (hf.run k) ha
      exact ⟨_, hb', rfl, .inl rfl⟩
  | @step n _ ih =>
      obtain ⟨b, hb', hown, hstage⟩ := ih
      have holds := holds_placed hprograms hb (hf.run n)
      have hknown := holds.known p b hb'
      have hstep := hf.step n
      generalize f (n + 1) = w' at hstep ⊢
      cases hstep with
      | pass clock => exact ⟨b, hb', hown, hstage⟩
      | @move s m' hs hm =>
          by_cases hp : p = s.process.pid
          · subst hp
            have halive := Machine.alive_of_move hm
            have hleaving := hstage.resolve_right fun h => h.2 ⟨s, hs, rfl, halive⟩
            have hl := (holds.drives s hs halive b hb').todo (.exit (.exited 0))
              (by simp only [Account.todo?, hleaving])
            rw [Machine.move_exit hl] at hm
            cases hm
            refine ⟨{ b with stage := .quitting }, ?_, hown, .inr ⟨rfl, ?_⟩⟩
            · simp only [moved, if_true, hb', Option.map_some, Account.after, hleaving]
            · rintro ⟨u, hu, hpid, hualive⟩
              exact (Machine.mem_terminate hu hualive).1 hpid
          · have hnew : p ≠ (f n).machine.nextPid := Nat.ne_of_lt hknown
            refine ⟨b, ?_, hown, hstage.imp_right fun h => ⟨h.1, fun hlives => h.2 ?_⟩⟩
            · simp only [moved, hp, hnew, if_false, hb']
            · exact (holds.sound.lives_before hprograms hs hm hlives).resolve_right hnew

/-- While it lives, it is about to exit with zero. -/
theorem Endless.exits (hk : k < n) {s : Slot ρ} (hs : s ∈ (f n).machine.slots)
    (hp : s.process.pid = p) (halive : s.alive) : s.life = .running (.exit (.exited 0)) := by
  obtain ⟨b, hb', -, hstage⟩ := hf.after_exit hprograms hb htakes ha hk
  have hleaving := hstage.resolve_right fun h => h.2 ⟨s, hs, hp, halive⟩
  exact ((holds_placed hprograms hb (hf.run n)).drives s hs halive b (hp ▸ hb')).todo _
    (by simp only [Account.todo?, hleaving])

/-- Taking an exit ends nobody yet. -/
theorem Endless.lives_on (hlives : (f k).machine.Lives p') : (f (k + 1)).machine.Lives p' := by
  obtain ⟨-, -, s, hs, -, v, hm⟩ := htakes.taken hprograms hb (hf.run k) ha
  rw [hm]
  exact Machine.lives_resume hlives

/-- It comes to its end by exiting with zero, or is killed. -/
theorem Endless.ends_with_zero (hk : k ≤ n) (hlives : (f n).machine.Lives p)
    (hdead : ¬(f (n + 1)).machine.Lives p) :
    ExitsWithZero programs (f n) p (f (n + 1)) ∨ Felled programs (f n) p (f (n + 1)) := by
  rcases Nat.eq_or_lt_of_le hk with rfl | hk
  · exact absurd (hf.lives_on hprograms hb htakes ha hlives) hdead
  obtain ⟨s, hs, how, hends, hmoves⟩ :=
    ended_of_step hprograms hb (hf.run n) (hf.step n) hlives hdead
  by_cases hp : s.process.pid = p
  · have halive : s.alive := by
      obtain ⟨s', hs', hpid, m', hm, -⟩ := hmoves
      rw [← (holds_placed hprograms hb (hf.run n)).sound.eq_of_pid hs' hs hpid]
      exact Machine.alive_of_move hm
    exact .inl ⟨hp ▸ hmoves, s, hs, hp, hf.exits hprograms hb htakes ha hk hs hp halive⟩
  · obtain ⟨signal, next, hl, -⟩ := hends.of_ne hp
    exact .inr ⟨hlives, hdead, s, hs, hp, hmoves, signal, next, hl⟩

/-- Its moves end nobody else. -/
theorem Endless.spares (hk : k ≤ n) (hmoves : (f n).Moves programs p (f (n + 1))) (hne : p' ≠ p)
    (hlives : (f n).machine.Lives p') : (f (n + 1)).machine.Lives p' := by
  rcases Nat.eq_or_lt_of_le hk with rfl | hk
  · exact hf.lives_on hprograms hb htakes ha hlives
  obtain ⟨s, hs, hp, m', hm, hw⟩ := hmoves
  have hl := hf.exits hprograms hb htakes ha hk hs hp (Machine.alive_of_move hm)
  rw [Machine.move_exit hl] at hm
  cases hm
  rw [hw]
  exact (Machine.lives_terminate hlives).resolve_right fun h => hne (h.trans hp)

/-- It is found to have exited with zero, or was killed. -/
theorem Endless.dead_with_zero {how : Ending} (hdead : (f n).machine.Dead p how) :
    how = .exited 0 ∨ ∃ j, Felled programs (f j) p (f (j + 1)) := by
  have sound := fun n => (holds_placed hprograms hb (hf.run n)).sound
  have hlives : (f k).machine.Lives p := by
    obtain ⟨-, s, hs, hp, m', hm, -⟩ := htakes
    exact ⟨s, hs, hp, Machine.alive_of_move hm⟩
  -- nobody is dead before
  have hk : k < n := by
    refine Nat.lt_of_not_le fun hle => ?_
    obtain ⟨t', ht', hp, -⟩ := id hdead
    exact (hf.dead hprograms hb hle (hp ▸ ((sound n).bounds t' ht').2)
      ((sound n).not_lives_of_dead hdead)).2 hlives
  induction hk generalizing how with
  | refl =>
      exact absurd (hf.lives_on hprograms hb htakes ha hlives)
        ((sound (k + 1)).not_lives_of_dead hdead)
  | @step n hk ih =>
      have hstep := hf.step n
      have hends : (f n).machine.Dead p how ∨ (f n).machine.Lives p := by
        generalize f (n + 1) = w' at hstep hdead
        cases hstep with
        | pass clock => exact .inl hdead
        | move hs hm => exact (Machine.dead_of_move hs hm hdead).imp_right And.left
      rcases hends with hbefore | hlives
      · exact ih hbefore
      rcases hf.ends_with_zero hprograms hb htakes ha (Nat.le_of_succ_le hk) hlives
          ((sound (n + 1)).not_lives_of_dead hdead) with ⟨⟨s, hs, hp, m', hm, hw⟩, -⟩ | hfelled
      · refine .inl ?_
        have hl := hf.exits hprograms hb htakes ha hk hs hp (Machine.alive_of_move hm)
        rw [hw] at hdead
        rcases Machine.dead_of_move hs hm hdead with hbefore | ⟨-, hends⟩
        · exact absurd hlives ((sound n).not_lives_of_dead hbefore)
        · generalize how = how' at hends
          cases hends with
          | exit hl' _ =>
              rw [hl] at hl'
              cases hl'
              rfl
          | kill hl' _ | write hl' _ =>
              rw [hl] at hl'
              cases hl'
      · exact .inr ⟨n, hfelled⟩

/-- All that it ever does, it has done by then. -/
theorem Endless.own_before (hb' : (f n).accounts p = some b) : b.own ⊆ a.own := by
  rcases Nat.lt_or_ge k n with hk | hk
  · obtain ⟨b', hb'', hown, -⟩ := hf.after_exit hprograms hb htakes ha hk
    rw [hb'] at hb''
    cases hb''
    rw [hown]
    exact List.Subset.refl _
  · obtain ⟨a', ha', hcont⟩ := hf.account hprograms hb hk hb'
    rw [ha] at ha'
    cases ha'
    exact hcont.own.subset

/-- Nobody else acts where it might still have acted. -/
theorem Endless.actor (hb' : (f n).accounts p' = some b) {d : Deed} (hd : d ∈ b.own) {u : Position}
    (hacts : Direct t b.site u) (hdirect : Direct t a.site u) : p' = p ∧ d ∈ a.own := by
  have holds := holds_placed hprograms hb (hf.run (max k n))
  have single := single_of_run hprograms hb (hf.run (max k n))
  obtain ⟨⟨b₀, c, next, hstage⟩, -⟩ := htakes.taken hprograms hb (hf.run k) ha
  have hwalks := ((holds_placed hprograms hb (hf.run k)).proper p a ha).walks_of_walking hstage
  have hwalks' := ((holds_placed hprograms hb (hf.run n)).proper p' b hb').walks_of_own hd
  obtain ⟨a', ha', hcont⟩ := hf.account hprograms hb (Nat.le_max_left k n) ha
  obtain ⟨b', hb'', hcont'⟩ := hf.account hprograms hb (Nat.le_max_right k n) hb'
  obtain ⟨s, hla⟩ := landed_of_run hprograms hb (hf.run _) ha'
  obtain ⟨s', hlb⟩ := landed_of_run hprograms hb (hf.run _) hb''
  rw [← hcont.walks] at hwalks
  rw [← hcont'.walks] at hwalks'
  rw [← hcont.site] at hdirect
  rw [← hcont'.site] at hacts
  obtain rfl := single.single hb'' ha' hwalks' hwalks (hlb.site_eq hla hwalks' hwalks hacts hdirect)
  exact ⟨rfl, hf.own_before hprograms hb htakes ha hb' hd⟩

/-- Nobody does anything on the right of an operator of the same process that
has the exit on its left. The induction is on the site of who would: it was
started by somebody above. -/
theorem Endless.skipped {r : Position} (hr : a.site <+: r) (hleft : r ++ [.left] <+: q)
    (hb' : (f n).accounts p' = some b) {d : Deed} (hd : d ∈ b.own) {u : Position}
    (hu : d.exchange.asks? = some u) : ¬r ++ [.right] <+: u := by
  intro hright
  have hrun := hf.run n
  have holds := holds_placed hprograms hb hrun
  obtain ⟨⟨b₀, c, next, hstage⟩, -⟩ := htakes.taken hprograms hb (hf.run k) ha
  obtain ⟨-, -, hdirect, hasked⟩ := asked_of_walking hprograms hb (hf.run k) ha hstage
  induction hlength : b.site.length using Nat.strongRecOn generalizing p' b d u with
  | ind length ih =>
      obtain ⟨st, hlanded⟩ := landed_of_run hprograms hb hrun hb'
      obtain ⟨v, hacts, hvu, hrv⟩ := d.exchange.acts_of_asks hu hright
      have hbelow := hlanded.sited.acts hd hacts
      have place : b.site <+: r ∨ r ++ [.right] <+: b.site := by
        rcases List.prefix_or_prefix_of_prefix (hbelow.below.trans hvu) hright with hpre | hpre
        · rcases List.prefix_concat_iff.mp hpre with hsite | hpre
          · exact .inr (hsite ▸ List.prefix_rfl)
          · exact .inl hpre
        · exact .inr hpre
      rcases place with hpre | hpre
      · -- it would be the process itself, which asks from left to right
        obtain ⟨-, hd⟩ := hf.actor hprograms hb htakes ha hb' hd (hbelow.above hpre hrv)
          (hdirect.above hr ((List.prefix_append _ _).trans hleft))
        exact (hasked d hd u hu).2 ⟨r, hleft, hright⟩
      · have hne : b.site ≠ [] := fun hnil => by
          rw [hnil] at hpre
          exact absurd (List.prefix_nil.mp hpre) (by simp)
        obtain ⟨p'', c', hc, d', hd', hbegets⟩ :=
          (single_of_run hprograms hb hrun).begotten hb' fun _ => hne
        have hasks := hbegets.asks
        rw [Account.Begets, if_pos ((holds.proper p' b hb').walks_of_own hd)] at hbegets
        obtain ⟨_, _, _, _, hx⟩ := hbegets
        obtain ⟨st', hlanded'⟩ := landed_of_run hprograms hb hrun hc
        have habove := hlanded'.sited.acts hd' (q := b.site.dropLast) (by rw [hx]; rfl)
        refine ih c'.site.length ?_ hc hd' hasks hpre rfl
        have hlt : b.site.dropLast.length < b.site.length := by
          rw [List.length_dropLast]
          exact Nat.sub_one_lt (fun hzero => hne (List.length_eq_zero_iff.mp hzero))
        rw [← hlength]
        exact Nat.lt_of_le_of_lt habove.below.length_le hlt

/-- In a fair run it ends. -/
theorem Endless.ends (hfair : Fair programs f) : ∃ n, ¬(f n).machine.Lives p := by
  obtain ⟨-, hb', -⟩ := htakes.taken hprograms hb (hf.run k) ha
  refine Classical.byContradiction fun hnever => ?_
  have lives : ∀ n, (f n).machine.Lives p := fun n => Classical.byContradiction fun h => hnever ⟨n, h⟩
  obtain ⟨n, hk, s, hs, hp, m', hm, hw⟩ := hfair.fair (k + 1) p fun n hk => by
    obtain ⟨s, hs, hp, halive⟩ := lives n
    have hl := hf.exits hprograms hb htakes ha hk hs hp halive
    exact ⟨s, hs, hp, by rw [Machine.move_exit hl]; rfl⟩
  have hl := hf.exits hprograms hb htakes ha hk hs hp (Machine.alive_of_move hm)
  rw [Machine.move_exit hl] at hm
  cases hm
  obtain ⟨u, hu, hpid, halive⟩ := lives (n + 1)
  rw [hw] at hu
  exact (Machine.mem_terminate hu halive).1 (hpid.trans hp.symm)

/-- Where it stands: the shell at the root, and a branch below a `|` or
`&`. -/
theorem Endless.stands : Direct t a.site q ∧
    (p = Machine.mainPid → a.site = []) ∧
    (p ≠ Machine.mainPid → a.isShell = false ∧
      ∃ r side op, a.site = r ++ [side] ∧ t.op? r = some op ∧ op.isSequel = false) := by
  have holds := holds_placed hprograms hb (hf.run k)
  obtain ⟨⟨b, c, next, hstage⟩, -⟩ := htakes.taken hprograms hb (hf.run k) ha
  obtain ⟨-, -, hdirect, -⟩ := asked_of_walking hprograms hb (hf.run k) ha hstage
  obtain ⟨s, hplaced⟩ := holds.all p a ha
  have hmain := ((shell_of_run hprograms hb (hf.run k)).2 p a ha).1
  refine ⟨hdirect, fun hp => hplaced.shell (hmain.mpr hp), fun hp => ?_⟩
  have hshell : a.isShell = false := by
    cases h : a.isShell with
    | false => rfl
    | true => exact absurd (hmain.mp h) hp
  refine ⟨hshell, hplaced.branch hshell ?_⟩
  have hwalks := (holds.proper p a ha).walks_of_walking hstage
  rwa [Account.walks, hshell, Bool.false_or] at hwalks

end

-- ================================================================= courses

/-- Every moment of the run takes a course, in which builtins leave where exits
were taken. -/
theorem Endless.takes_course (n : Nat) : ∃ o : Course, (f n).Shows o.toAnswers (f n).part ∧
    (∀ q, o.leaves q = true ↔ ∃ k < n, ∃ p, TakesExit programs t (f k) p q (f (k + 1))) ∧
    (f n).Departing (Foretold o (f n).part (f n).Taken) ∧
      (f n).Concurred o (f n).part (f n).Taken := by
  classical
  let there (q : Position) : Prop := ∃ k < n, ∃ p, TakesExit programs t (f k) p q (f (k + 1))
  obtain ⟨o, hshows⟩ := hb.starts.answered hprograms (hf.run n)
  refine ⟨{ o with leaves := fun q => decide (there q) }, hshows, fun q => decide_eq_true_iff, ?_⟩
  have stays : ∀ p b, (f n).accounts p = some b → ∀ d ∈ b.own, ∀ q b' c r,
      d.exchange = .builtin q b' c r → ¬there q := by
    rintro p' b hb' d hd q b' c r hx ⟨k, -, p, htakes⟩
    obtain ⟨s, -, rfl, a, -, -, -, ha, -⟩ := id htakes.1
    obtain ⟨⟨_, _, _, hstage⟩, -⟩ := htakes.taken hprograms hb (hf.run k) ha
    obtain ⟨-, -, hdirect, hasked⟩ := asked_of_walking hprograms hb (hf.run k) ha hstage
    obtain ⟨st, hlanded⟩ := landed_of_run hprograms hb (hf.run n) hb'
    obtain ⟨-, hown⟩ := hf.actor hprograms hb htakes ha hb' hd
      (hlanded.sited.acts hd (by rw [hx]; rfl)) hdirect
    exact (hasked d hown q (by rw [hx]; rfl)).1 rfl
  obtain ⟨hdeparting, hconcurred, -⟩ := hb.starts.takes_course hprograms
    (o := { o with leaves := fun q => decide (there q) })
    (fun q hq => decide_eq_true hq)
    (hf.leavingRun hprograms hb fun k hk p q htakes => ⟨k, hk, p, htakes⟩) (f n).known_part
    ⟨hshows, fun p b hb' d hd q b' c r hx => decide_eq_false (stays p b hb' d hd q b' c r hx)⟩
  exact ⟨hdeparting, hconcurred⟩

end

-- ========================================================= the main result

/-- What comes of an exit that a process takes in an endless run. -/
structure EndsOne (programs : Installed ρ) (result : Except ExecError Int → ρ) (t : Tree)
    (f : Nat → Watch ρ) (k : Nat) (p : Pid) (q : Position) (a : Account) : Prop where
  /-- No `|` or `&` is between the part of the process and the exit. -/
  direct : Direct t a.site q
  shell : p = Machine.mainPid → a.site = []
  branch : p ≠ Machine.mainPid →
    ∃ r side op, a.site = r ++ [side] ∧ t.op? r = some op ∧ op.isSequel = false
  /-- The process does nothing more for the tree. -/
  idle : ∀ n, k < n → ∃ b, (f n).accounts p = some b ∧ b.own = a.own
  /-- Nobody ever asks for anything that its walk would have come to later. -/
  skipped : ∀ r, a.site <+: r → r ++ [.left] <+: q → ∀ n p' b, (f n).accounts p' = some b →
    ∀ d ∈ b.own, ∀ u, d.exchange.asks? = some u → ¬r ++ [.right] <+: u
  /-- A branch is as if the rest of its walk came to zero. -/
  likeDone : p ≠ Machine.mainPid → ∃ s ∈ (f k).machine.slots, s.process.pid = p ∧
    ∃ v, (f (k + 1)).machine = (f k).machine.resume s v ((Walk.done 0).perform (a.finish result))
  ending : ∀ n, k ≤ n → (f n).machine.Lives p → ¬(f (n + 1)).machine.Lives p →
    ExitsWithZero programs (f n) p (f (n + 1)) ∨ Felled programs (f n) p (f (n + 1))
  /-- Whoever waits for the process is told so. -/
  told : ∀ n p' b, (f n).accounts p' = some b → ∀ d ∈ b.own, ∀ r, d.exchange = .wait p r →
    r = .ok (.exited 0) ∨ ∃ j, Felled programs (f j) p (f (j + 1))
  /-- Its moves end nobody else. -/
  spares : ∀ n, k ≤ n → (f n).Moves programs p (f (n + 1)) → ∀ p', p' ≠ p →
    (f n).machine.Lives p' → (f (n + 1)).machine.Lives p'
  ends : Fair programs f → ∃ n, ¬(f n).machine.Lives p

/-- Below no `|` and no `&` only the shell takes an exit. -/
theorem EndsOne.main (h : EndsOne programs result t f k p q a) (hdirect : Direct t [] q) :
    p = Machine.mainPid := by
  refine Classical.byContradiction fun hp => ?_
  obtain ⟨r, side, op, hsite, hop, hnot⟩ := h.branch hp
  obtain ⟨op', hop', hseq⟩ := hdirect.sequel r side List.nil_prefix (hsite ▸ h.direct.below)
  rw [hop] at hop'
  cases hop'
  rw [hnot] at hseq
  cases hseq

section

variable (hprograms : ∀ name args, (programs name args).Respects .onward)
  (hb : m.Begins result t depth parent) (hf : Endless programs (begin t depth parent m) f)
include hprograms hb hf

theorem Endless.ends_one (htakes : TakesExit programs t (f k) p q (f (k + 1))) :
    ∃ a, (f k).accounts p = some a ∧ EndsOne programs result t f k p q a := by
  obtain ⟨s, -, rfl, a, -, -, -, ha, -⟩ := id htakes.1
  obtain ⟨hdirect, hshell, hbranch⟩ := hf.stands hprograms hb htakes ha
  refine ⟨a, ha, hdirect, hshell, fun hp => (hbranch hp).2, fun n hk => ?_,
    fun r hr hleft n p' b hb' d hd u hu => hf.skipped hprograms hb htakes ha hr hleft hb' hd hu,
    fun hp => ?_, fun n hk => hf.ends_with_zero hprograms hb htakes ha hk,
    fun n p' b hb' d hd r hx => ?_,
    fun n hk hmoves p' hne => hf.spares hprograms hb htakes ha hk hmoves hne,
    hf.ends hprograms hb htakes ha⟩
  · obtain ⟨b, hb', hown, -⟩ := hf.after_exit hprograms hb htakes ha hk
    exact ⟨b, hb', hown⟩
  · obtain ⟨-, -, s', hs', hpid, v, hm⟩ := htakes.taken hprograms hb (hf.run k) ha
    refine ⟨s', hs', hpid, v, ?_⟩
    rw [hm, Account.finish, if_neg (by rw [(hbranch hp).1]; exact Bool.false_ne_true)]
    rfl
  · obtain ⟨j, how, hdead, rfl, -⟩ := hf.waited hprograms hb hb' hd hx
    refine (hf.dead_with_zero hprograms hb htakes ha hdead).imp_left ?_
    rintro rfl
    rfl

/-- The shell is dead only after an exit that it has taken, or after it was
killed. -/
theorem Endless.shell_dead (hdead : ¬(f n).machine.Lives Machine.mainPid) :
    (∃ k < n, ∃ q, TakesExit programs t (f k) Machine.mainPid q (f (k + 1)) ∧ Direct t [] q) ∨
      ∃ k < n, Felled programs (f k) Machine.mainPid (f (k + 1)) := by
  induction n with
  | zero =>
      obtain ⟨s, hs, hpid, hl⟩ := hb.main
      rw [hf.first] at hdead
      exact absurd ⟨s, hs, hpid, by rw [Slot.alive, hl]⟩ hdead
  | succ n ih =>
      by_cases hlives : (f n).machine.Lives Machine.mainPid
      · rcases shell_ends hprograms hb (hf.run n) (hf.step n) hlives hdead with ⟨q, hq⟩ | hfelled
        · obtain ⟨k, hk, htakes⟩ := hf.taken hprograms hb hq
          obtain ⟨a, ha, hends⟩ := hf.ends_one hprograms hb htakes
          exact .inl ⟨k, Nat.lt_succ_of_lt hk, q, htakes, hends.shell rfl ▸ hends.direct⟩
        · exact .inr ⟨n, Nat.lt_succ_self n, hfelled⟩
      · rcases ih hlives with ⟨k, hk, h⟩ | ⟨k, hk, h⟩
        · exact .inl ⟨k, Nat.lt_succ_of_lt hk, h⟩
        · exact .inr ⟨k, Nat.lt_succ_of_lt hk, h⟩

/-- An exit ends one process. The shell ends just where an exit is taken below
no `|` and no `&`, or another process kills it. Whoever takes an exit ends
alone, with status zero, and the rest of its part is skipped. And at every
moment the shell and the branches have come to what the course of the tree
has for them, in which a branch that took an exit counts as one with status
zero. -/
theorem exit_ends_one :
    (∀ n, ¬(f n).machine.Lives Machine.mainPid →
      (∃ k < n, ∃ q, TakesExit programs t (f k) Machine.mainPid q (f (k + 1)) ∧ Direct t [] q) ∨
        ∃ k < n, Felled programs (f k) Machine.mainPid (f (k + 1))) ∧
    (Fair programs f → ((∃ n, ¬(f n).machine.Lives Machine.mainPid) ↔
      (∃ k p q, TakesExit programs t (f k) p q (f (k + 1)) ∧ Direct t [] q) ∨
        ∃ k, Felled programs (f k) Machine.mainPid (f (k + 1)))) ∧
    (∀ k p q, TakesExit programs t (f k) p q (f (k + 1)) →
      ∃ a, (f k).accounts p = some a ∧ EndsOne programs result t f k p q a) ∧
    ∀ n, ∃ o : Course, (f n).Shows o.toAnswers (f n).part ∧
      (∀ q, o.leaves q = true ↔ ∃ k < n, ∃ p, TakesExit programs t (f k) p q (f (k + 1))) ∧
      (∀ x, (f n).machine.Returns Machine.mainPid x → ∃ r, t.course o [] = some r ∧ x = result r) ∧
      ∀ p a q u code, (f n).accounts p = some a → a.part = .branch q u →
        (f n).machine.Dead p (.exited code) → code = exitCode ((u.course o q).getD (.ok 0)) := by
  refine ⟨fun n => hf.shell_dead hprograms hb, fun hfair => ⟨fun ⟨n, hdead⟩ => ?_, ?_⟩,
    fun k p q => hf.ends_one hprograms hb, fun n => ?_⟩
  · rcases hf.shell_dead hprograms hb hdead with ⟨k, -, q, h⟩ | ⟨k, -, h⟩
    · exact .inl ⟨k, _, q, h⟩
    · exact .inr ⟨k, h⟩
  · rintro (⟨k, p, q, htakes, hdirect⟩ | ⟨k, -, hdead, -⟩)
    · obtain ⟨a, -, hends⟩ := hf.ends_one hprograms hb htakes
      obtain rfl := hends.main hdirect
      exact hends.ends hfair
    · exact ⟨k + 1, hdead⟩
  · obtain ⟨o, hshows, hleaves, hdeparting, hconcurred⟩ := hf.takes_course hprograms hb n
    refine ⟨o, hshows, hleaves, fun x hreturns => ?_, fun p a q u code ha hpart hdead => ?_⟩
    · obtain ⟨a, ha, hsite, htree, rest, r, hstage, hr, rfl⟩ :=
        shell_result hprograms hb (hf.run n) hreturns
      obtain ⟨hcourse, -⟩ :=
        hb.starts.result_of_concurred hprograms (hf.run n) hconcurred ha hstage hr
      rw [hsite, htree] at hcourse
      exact ⟨r, hcourse, rfl⟩
    · obtain ⟨-, hforetold⟩ := hdeparting.dead p a code ha hdead
      exact (hforetold q u (by rw [(f n).known_part.part p a ha, hpart])).1

end

/-- Both branches of a line take an exit, and then the shell does. -/
theorem exit_ends_one_by_one :
    let t : Tree := .node .sequential
      (.node .parallel (.leaf (.ofWords ["exit"])) (.leaf (.ofWords ["quit"])))
      (.leaf (.ofWords ["exit"]))
    let m : Machine (Except ExecError Int) := .executing id t .atTerminal
    ∃ f, Fair endAtOnce f ∧ f 0 = begin t 0 none m ∧
      (∃ n, ¬(f n).machine.Lives Machine.mainPid) ∧
      ((∃ k p q, TakesExit endAtOnce t (f k) p q (f (k + 1)) ∧ Direct t [] q) ∨
        ∃ k, Felled endAtOnce (f k) Machine.mainPid (f (k + 1))) := by
  intro t m
  have hb : m.Begins id t 0 none := Machine.executing_begins id t _
  have played : ((begin t 0 none m).play endAtOnce
      [1, 1, 1, 1, 1, 1, 2, 2, 2, 2, 2, 1, 3, 3, 3, 3, 3, 1, 1, 1, 1, 1, 1]).any (fun w =>
        w.machine.slots.all fun s => !s.alive && (w.machine.move endAtOnce s).isNone) = true := by
    decide +kernel
  obtain ⟨w, hplay, hends⟩ := (Option.any_eq_true _ _).mp played
  simp only [List.all_eq_true, Bool.and_eq_true, Bool.not_eq_true', Option.isNone_iff_eq_none]
    at hends
  obtain ⟨f, hf, hfirst, n, hlast⟩ := fair_of_run (run_of_play hplay) fun s hs => (hends s hs).2
  have hdead : ∃ n, ¬(f n).machine.Lives Machine.mainPid := by
    refine ⟨n, ?_⟩
    rw [hlast n (Nat.le_refl n)]
    rintro ⟨s, hs, -, halive⟩
    rw [(hends s hs).1] at halive
    cases halive
  obtain ⟨-, hshell, -⟩ := exit_ends_one endAtOnce_respects hb ⟨hfirst, hf.step⟩
  exact ⟨f, hf, hfirst, hdead, (hshell hf).mp hdead⟩

/-- A program may kill the shell that has no exit to take. -/
theorem exit_ends_one_counterexample :
    let t : Tree := .leaf (.ofWords ["/sh"])
    let m : Machine (Except ExecError Int) := .executing id t (.atTerminalWith "sh")
    let killing := looksAround fun v =>
      Prog.kill v.process.parent Signal.kill fun _ => .exit (.exited 0)
    m.Begins id t 0 none ∧
    (∀ q c, t.sub? q = some (.leaf c) → c.verb ≠ "exit" ∧ c.verb ≠ "quit") ∧
    ∃ w, Run killing (begin t 0 none m) w ∧ ¬w.machine.Lives Machine.mainPid := by
  intro t m killing
  refine ⟨Machine.executing_begins id t _, fun q c hc => ?_, ?_⟩
  · cases q with
    | nil =>
        have hleaf : some (Tree.leaf (.ofWords ["/sh"])) = some (.leaf c) := hc
        cases hleaf
        decide
    | cons side q => cases hc
  · have played : ((begin t 0 none m).play killing [1, 1, 1, 2, 2, 2, 2, 0, 2, 2, 2]).any (fun w =>
        w.machine.slots.all fun s => s.process.pid != Machine.mainPid || !s.alive) = true := by
      decide +kernel
    obtain ⟨w, hplay, hends⟩ := (Option.any_eq_true _ _).mp played
    refine ⟨w, run_of_play hplay, ?_⟩
    rintro ⟨s, hs, hp, halive⟩
    have hslot := List.all_eq_true.mp hends s hs
    rw [halive, hp] at hslot
    cases hslot

end Watch

end LineShell
