/-
A status on both sides of a fork.

# Two ways

A tree is evaluated in the process that comes to it, or in a branch that
is forked for it and waited for. The two agree as far as they can: nothing
that a program does is bound to be the same twice, and a program sees whose
child it is. So the comparison is made for runs in which the leaves come to
the same. `Deed.shows` reads off what was done in a run that it bears
certain `Answers` out, which every run does of some (`Starts.answered`). In
two runs that bear the same out the one way comes to the verdict, and so does
the other (`status_of_fork`), whatever else happens in between and wherever
the runs begin.

# What a branch ends with

A branch hands on the verdict as its code, which loses nothing, since it is
a status at all times. If it is one external command, then its end is that
of the program. Only somebody else can kill it otherwise (`Starts.killed`);
it sends no signals, and writes nothing but reports. That can happen at any
time, and does: a program may kill the branch that it was started by
(`status_of_fork_counterexample`).
-/
import LineShell.Proofs.Launch.Course
import LineShell.Proofs.Launch.Outcome

namespace LineShell

open Posix

variable {ρ : Type} {result : Except ExecError Int → ρ}

-- ================================================================== leaving

/-- A builtin is about to end the process. -/
def Account.isLeaving (a : Account) : Bool :=
  match a.stage with
  | .leaving _ => true
  | _ => false

/-- What is done for the tree ends nobody, but that a process may exit. -/
theorem Account.Asks.endsBy {a : Account} {todo : Prog ρ} {s : Slot ρ} {p : Pid} {how : Ending}
    (h : a.Asks todo) (hl : s.life = .running todo) (hends : Machine.EndsBy s p how) :
    ∃ how', todo = .exit how' ∧ p = s.process.pid ∧ how = Machine.eightBits how' := by
  cases hends with
  | @exit how' hl' hp =>
      rw [hl] at hl'
      cases hl'
      exact ⟨how', rfl, hp, rfl⟩
  | kill hl' _ | write hl' _ =>
      rw [hl] at hl'
      cases hl'
      cases h

namespace Watch

variable {root : Tree} {programs : Installed ρ} {w₀ w w' : Watch ρ} {s : Slot ρ} {m : Machine ρ}
  {p : Pid} {a : Account} {o : Answers} {who : Child → Option Part}

/-- No builtin is about to end a process. -/
def isCalm (w : Watch ρ) : Bool :=
  w.machine.slots.all fun s => (w.accounts s.process.pid).all fun a => !a.isLeaving

/-- A run in which no builtin ends a process. -/
def CalmRun (programs : Installed ρ) : Watch ρ → Watch ρ → Prop :=
  Relation.ReflTransGen fun w w' => Step programs w w' ∧ w'.isCalm = true

theorem CalmRun.run (h : CalmRun programs w₀ w) : Run programs w₀ w := by
  induction h with
  | refl => exact .refl
  | tail _ hstep ih => exact ih.tail hstep.1

theorem not_leaving_of_calm (h : w.isCalm = true) (q : Position) : ¬w.Leaving p q := by
  rintro ⟨⟨s, hs, rfl, -⟩, a, ha, hstage⟩
  have hslot := List.all_eq_true.mp h s hs
  simp [ha, Account.isLeaving, hstage] at hslot

theorem CalmRun.leaving (h : CalmRun programs w₀ w) :
    LeavingRun programs (fun _ => False) w₀ w := by
  refine Relation.ReflTransGen.mono (fun _ _ hstep => ?_) _ _ h
  exact ⟨hstep.1, fun _ q => not_leaving_of_calm hstep.2 q⟩

theorem calmRun_of_play {ps : List Pid} (h : w.playWhile isCalm programs ps = some w') :
    CalmRun programs w w' := runWhile_of_play h

-- ================================================================ verdicts

section

variable (hprograms : ∀ name args, (programs name args).Respects .onward)
  (hstart : w₀.Starts result root) (hrun : CalmRun programs w₀ w) (hshows : w.Shows o w.part)
include hprograms hstart hrun hshows

/-- Where no builtin ends a process, a run that bears the answers out takes the
course in which nobody leaves. -/
theorem Starts.takes_verdict :
    let calm : Course := { o with leaves := fun _ => false }
    w.Departing (Foretold calm w.part w.Taken) ∧ w.Concurred calm w.part w.Taken :=
  have ⟨hdeparting, hconcurred, _⟩ := hstart.takes_course hprograms
    (o := { o with leaves := fun _ => false }) (fun _ => False.elim) hrun.leaving w.known_part
    ⟨hshows, fun _ _ _ _ _ _ _ _ _ _ => rfl⟩
  ⟨hdeparting, hconcurred⟩

/-- Branches exit with their verdicts. -/
theorem Starts.code_of_calm (ha : w.accounts p = some a) {q : Position} {t : Tree}
    (hpart : a.part = .branch q t) {code : Int} (hdead : w.machine.Dead p (.exited code)) :
    code = exitCode (t.verdict o q) := by
  obtain ⟨hdeparting, -⟩ := hstart.takes_verdict hprograms hrun hshows
  obtain ⟨-, hforetold⟩ := hdeparting.dead p a code ha hdead
  obtain ⟨rfl, -⟩ := hforetold q t (by rw [w.known_part.part p a ha, hpart])
  rw [Tree.course_eq_verdict fun _ => rfl]
  rfl

/-- Walks come to their verdicts. -/
theorem Starts.result_of_calm (ha : w.accounts p = some a) {rest : Walk}
    (hstage : a.stage = .walking rest) {r : Except ExecError Int} (hr : rest.result? = some r) :
    r = a.tree.verdict o a.site := by
  obtain ⟨-, hconcurred⟩ := hstart.takes_verdict hprograms hrun hshows
  obtain ⟨hcourse, -⟩ := hstart.result_of_concurred hprograms hrun.run hconcurred ha hstage hr
  rw [Tree.course_eq_verdict fun _ => rfl] at hcourse
  exact (Option.some.inj hcourse).symm

end

-- ================================================================= exiting

/-- Whoever asks to exit, and is not its program already, asks to do so with
a status, of which the others see all. -/
def Lossless (w : Watch ρ) : Prop :=
  ∀ s ∈ w.machine.slots, ∀ a, w.accounts s.process.pid = some a → a.isTaken = false →
    ∀ how, s.life = .running (.exit how) →
      ∃ code, how = .exited code ∧ IsStatus code ∧ Machine.eightBits how = how

/-- Somebody else kills the process in the run. -/
def Kills (programs : Installed ρ) (w₀ w : Watch ρ) (p : Pid) (signal : Int) : Prop :=
  ∃ w₁ s m n next, Run programs w₀ w₁ ∧ s ∈ w₁.machine.slots ∧
    w₁.machine.move programs s = some m ∧ Run programs (w₁.moved s m) w ∧ s.process.pid ≠ p ∧
    s.life = .running (.kill p n next) ∧ signal = n

theorem Kills.step {n : Int} (h : Kills programs w₀ w p n) (hstep : Step programs w w') :
    Kills programs w₀ w' p n := by
  obtain ⟨w₁, s, m, n, next, hrun, hs, hm, hrest, hkill⟩ := h
  exact ⟨w₁, s, m, n, next, hrun, hs, hm, hrest.tail hstep, hkill⟩

section

variable (hprograms : ∀ name args, (programs name args).Respects .onward)
  (hstart : w₀.Starts result root)
include hprograms hstart

/-- By its own move a branch does not die of a signal. -/
theorem Starts.ends_by (hrun : Run programs w₀ w) (hs : s ∈ w.machine.slots) (halive : s.alive)
    (ha : w.accounts p = some a) {q : Position} {t : Tree} (hpart : a.part = .branch q t) {n : Int}
    (h : Machine.EndsBy s p (.signaled n)) :
    s.process.pid ≠ p ∧ ∃ n' next, s.life = .running (.kill p n' next) ∧ n = n' := by
  have holds := hstart.equipped hprograms hrun
  have hprogram : a.runsProgram = false := by
    cases hprogram : a.runsProgram with
    | false => rfl
    | true =>
        rw [hstart.part hprograms hrun ha hprogram] at hpart
        cases hpart
  by_cases hp : s.process.pid = p
  · -- on its own it can only exit, and does so with a code
    subst hp
    obtain ⟨todo, hl, hasks⟩ := (holds.drives s hs halive a ha).asks hprogram
    obtain ⟨how, rfl, -, hhow⟩ := hasks.endsBy hl h
    have htaken : a.isTaken = false := by
      unfold Account.runsProgram at hprogram
      unfold Account.isTaken
      split <;> simp_all
    obtain ⟨code, rfl, -⟩ := hstart.exit_status hprograms hrun hs ha htaken hl
    cases hhow
  · obtain ⟨n', next, hl, hn⟩ := h.of_ne hp
    exact ⟨hp, n', next, hl, Ending.signaled.inj hn⟩

/-- A branch that died of a signal was killed by somebody else. -/
theorem Starts.killed (hrun : Run programs w₀ w) (ha : w.accounts p = some a) {q : Position}
    {t : Tree} (hpart : a.part = .branch q t) {n : Int} (hdead : w.machine.Dead p (.signaled n)) :
    Kills programs w₀ w p n := by
  induction hrun generalizing a with
  | refl =>
      obtain ⟨-, hrunning⟩ := hstart.running ha
      obtain ⟨t, ht, hpid, hl⟩ := hdead
      obtain ⟨todo, hl'⟩ := hrunning t ht hpid
      rw [hl] at hl'
      cases hl'
  | @tail w w' hrun hstep ih =>
      have holds := hstart.equipped hprograms hrun
      cases hstep with
      | pass clock => exact (ih ha hpart hdead).step (.pass clock)
      | @move s m hs hm =>
          have bound : w.machine.Dead p (.signaled n) → p ≠ w.machine.nextPid := by
            rintro ⟨t, ht, rfl, -⟩
            exact Nat.ne_of_lt (holds.sound.bounds t ht).2
          rcases account_before ha with ⟨b, hb, hcont⟩ | ⟨rfl, b, hb, hc⟩
          · rw [hcont.part] at hpart
            rcases Machine.dead_of_move hs hm hdead with hdead | ⟨-, hends⟩
            · exact (ih hb hpart hdead).step (.move hs hm)
            · obtain ⟨hne, n', next, hl, rfl⟩ := hstart.ends_by hprograms hrun hs
                (Machine.alive_of_move hm) hb hpart hends
              exact ⟨w, s, m, n', next, hrun, hs, hm, .refl, hne, hl, rfl⟩
          · -- it is only being started
            rcases Machine.dead_of_move hs hm hdead with hdead | ⟨-, hends⟩
            · exact absurd rfl (bound hdead)
            · obtain ⟨-, prog, next, hl, -⟩ := Machine.born_of_move (holds.proper _ b hb)
                (holds.drives s hs (Machine.alive_of_move hm) b hb) hc hm
              generalize he : Ending.signaled n = how at hends
              cases hends with
              | exit hl' _ | kill hl' _ | write hl' _ =>
                  rw [hl] at hl'
                  cases hl'

/-- Of an exit nothing is cut off. -/
theorem Starts.lossless (hrun : Run programs w₀ w) : w.Lossless := by
  intro s hs a ha htaken how hl
  obtain ⟨code, rfl, hcode⟩ := hstart.exit_status hprograms hrun hs ha htaken hl
  refine ⟨code, rfl, hcode, ?_⟩
  rw [Machine.eightBits, hcode.emod]

end

end Watch

-- ============================================================== beginnings

/-- The result of a process, if it has one. -/
def Posix.Slot.result? (s : Slot ρ) : Option ρ :=
  match s.life with
  | .running (.ret x) => some x
  | _ => none

theorem Posix.Slot.of_result? {s : Slot ρ} {x : ρ} (h : s.result? = some x) :
    s.life = .running (.ret x) := by
  unfold result? at h
  split at h
  · next hl =>
    cases h
    exact hl
  · cases h

namespace Posix.Machine

variable {programs : Installed ρ} {t : Tree} {depth : Nat} {op : Operator}
  {parent : Option Operator} {m : Machine ρ} {p : Pid}

/-- A process has just forked a branch for the tree, with streams as its
own. -/
def Forked (programs : Installed ρ) (t : Tree) (depth : Nat) (op : Operator) (m : Machine ρ)
    (p : Pid) : Prop :=
  ∃ (m₀ : Machine ρ) (s : Slot ρ) (next : Child → Prog ρ), m₀.Sound ∧ s ∈ m₀.slots ∧
    s.life = .running (launchBranch t op .inherit (Walk.execute t depth (some op)).perform next) ∧
    m₀.move programs s = some m ∧ p = m₀.nextPid

/-- A process is about to evaluate the tree itself. -/
def Executes (result : Except ExecError Int → ρ) (t : Tree) (depth : Nat)
    (parent : Option Operator) (m : Machine ρ) (p : Pid) : Prop :=
  m.Sound ∧ ∃ s ∈ m.slots, s.process.pid = p ∧
    s.life = .running ((Walk.execute t depth parent).perform fun r => .ret (result r))

/-- A wait for the process succeeds, and is told how it ended. -/
def Tells (m : Machine ρ) (p : Pid) (e : Ending) : Prop :=
  ∃ s ∈ m.slots, (m.waitResult s p).map Walk.waitAnswer = some (.ok e)

/-- The process has its result. -/
def Returns (m : Machine ρ) (p : Pid) (x : ρ) : Prop :=
  ∃ s ∈ m.slots, s.process.pid = p ∧ s.result? = some x

instance {e : Ending} : Decidable (m.Tells p e) :=
  inferInstanceAs (Decidable (∃ s ∈ m.slots, _))

instance [DecidableEq ρ] {x : ρ} : Decidable (m.Returns p x) :=
  inferInstanceAs (Decidable (∃ s ∈ m.slots, _))

theorem Forked.starts (hprograms : ∀ name args, (programs name args).Respects .onward)
    (h : m.Forked programs t depth op p) :
    (Watch.alone p (.branch t depth op) m).Starts result t := by
  obtain ⟨m₀, s, next, hsound, hs, hl, hm, rfl⟩ := h
  have hsound' := hsound.move hs hprograms hm
  rw [move_fork hl] at hm
  cases hm
  refine Watch.Starts.intro hsound' (List.mem_append_right _ (List.mem_singleton_self _))
    (.branch t depth op) (.branch ?_) (.branch t depth op)
  rfl

theorem Executes.starts (h : m.Executes result t depth parent p) :
    (Watch.alone p (.evaluator t depth parent) m).Starts result t := by
  obtain ⟨hsound, s, hs, rfl, hl⟩ := h
  exact .intro hsound hs (.evaluator t depth parent) (.evaluator hl) (.evaluator t depth parent)

/-- What a wait is told is how the process ended. -/
theorem Tells.dead {e : Ending} (h : m.Tells p e) : m.Dead p e ∧ told e = .ok e := by
  obtain ⟨s, -, hs⟩ := h
  obtain ⟨raw, hraw, hanswer⟩ := Option.map_eq_some_iff.mp hs
  cases raw with
  | error e => cases hanswer
  | ok ended =>
      obtain ⟨q, how⟩ := ended
      rw [Walk.waitAnswer_ok] at hanswer
      obtain rfl := of_told hanswer
      refine ⟨?_, hanswer⟩
      obtain ⟨⟨t, ht, hpid, -, hl⟩, hneg | hchild⟩ := ended_of_waitResult hraw
      · exact absurd hneg (by omega)
      · exact ⟨t, ht, hpid.trans (Int.ofNat_inj.mp hchild).symm, hl⟩

/-- A machine whose only process takes a walk. -/
def taking (walk : Walk) (v : View) : Machine (Except ExecError Int) where
  world := v.world
  slots := [{ process := { v.process with pid := mainPid, parent := 0 },
              life := .running (walk.perform fun r => .ret r) }]
  nextPid := mainPid + 1

theorem taking_sound (walk : Walk) (v : View) : (taking walk v).Sound := by
  refine ⟨fun s hs => ?_, List.nodup_singleton _, fun s hs => ?_⟩
  · obtain rfl := List.mem_singleton.mp hs
    exact ⟨Nat.one_pos, Nat.lt_succ_self 1⟩
  · obtain rfl := List.mem_singleton.mp hs
    exact walk.respects_perform _ fun _ => trivial

theorem taking_executes (t : Tree) (v : View) :
    (taking (.execute t 0 none) v).Executes id t 0 none mainPid :=
  ⟨taking_sound _ v, _, List.mem_singleton_self _, rfl, rfl⟩

/-- A walk that starts a branch for a tree, and waits for it. -/
def attending (t : Tree) : Walk :=
  .fork [] t 0 .parallel .inherit (.execute t 0 (some .parallel)) fun started =>
    .wait (started.toOption.getD 0) fun _ => .done 0

/-- A machine whose only process has just started such a branch. -/
def forked (t : Tree) (v : View) : Machine (Except ExecError Int) :=
  let m := taking (attending t) v
  (m.slots.head?.bind (m.move endAtOnce)).getD m

theorem forked_forked (programs : Installed (Except ExecError Int)) (t : Tree) (v : View) :
    (forked t v).Forked programs t 0 .parallel 2 := by
  refine ⟨taking (attending t) v, _, _, taking_sound _ v, List.mem_singleton_self _, rfl, rfl, rfl⟩

end Posix.Machine

/-- Programs that look around, and go on as they find things. -/
def Posix.looksAround (next : View → Prog ρ) : Installed ρ := fun _ _ => .step id next

-- ======================================================== the main result

namespace Watch

variable {programs : Installed ρ} {t : Tree} {depth depth' : Nat} {op : Operator}
  {parent : Option Operator} {m m' : Machine ρ} {p p' : Pid}

/-- The branch has its account at all times, for the same part. -/
theorem part_of_forked (hprograms : ∀ name args, (programs name args).Respects .onward)
    (hstart : (alone p (.branch t depth op) m).Starts result t) {w : Watch ρ}
    (hrun : Run programs (alone p (.branch t depth op) m) w) :
    ∃ a, w.accounts p = some a ∧ a.part = t.part [] := by
  obtain ⟨a, ha, hcont⟩ := hstart.continues hprograms hrun (p := p) (if_pos rfl)
  exact ⟨a, ha, hcont.part⟩

/-- In a run that bears the answers out, a branch that exits does so with the
verdict. -/
theorem verdict_of_forked (hprograms : ∀ name args, (programs name args).Respects .onward)
    (hstart : (alone p (.branch t depth op) m).Starts result t) {w : Watch ρ}
    (hrun : CalmRun programs (alone p (.branch t depth op) m) w) {o : Answers}
    (hshows : w.Shows o w.part) (hx : t.external? = none) {code : Int}
    (hdead : w.machine.Dead p (.exited code)) : code = exitCode (t.verdict o []) := by
  obtain ⟨a, ha, hpart⟩ := part_of_forked hprograms hstart hrun.run
  refine hstart.code_of_calm hprograms hrun hshows ha (q := []) ?_ hdead
  rw [hpart, Tree.part, hx]
  rfl

/-- So does a process that evaluates the tree itself. -/
theorem verdict_of_direct (hprograms : ∀ name args, (programs name args).Respects .onward)
    (hstart : (alone p (.evaluator t depth parent) m).Starts result t) {w : Watch ρ}
    (hrun : CalmRun programs (alone p (.evaluator t depth parent) m) w) {o : Answers}
    (hshows : w.Shows o w.part) {x : ρ} (hreturns : w.machine.Returns p x) :
    x = result (t.verdict o []) := by
  obtain ⟨s, hs, rfl, hresult⟩ := hreturns
  obtain ⟨b, hb, hcont⟩ := hstart.continues hprograms hrun.run (p := s.process.pid) (if_pos rfl)
  have hshell : b.isShell = true := by
    rw [hcont.same]
    rfl
  obtain ⟨rest, r, hstage, hr, rfl⟩ :=
    (hstart.equipped hprograms hrun.run).returned hs (Slot.of_result? hresult) hb hshell
  rw [hstart.result_of_calm hprograms hrun hshows hb hstage hr, hcont.same]
  rfl

/-- Whether a tree is evaluated in a branch or in the process itself: all
codes that are handed to an exit are statuses, and what was done bears some
answers out. A wait for the branch tells of a signal only if the branch runs
one external command, or was killed by another process. And where it was
not, and no builtin ended a process, the branch ended with the status that
the other evaluation comes to, whenever the builtins, programs, pipes and
nested branches came to the same in both. -/
theorem status_of_fork (hprograms : ∀ name args, (programs name args).Respects .onward)
    (hfork : m.Forked programs t depth op p) (hdirect : m'.Executes result t depth' parent p') :
    let forked := alone p (.branch t depth op) m
    let direct := alone p' (.evaluator t depth' parent) m'
    (∀ w, Run programs forked w ∨ Run programs direct w →
      w.Lossless ∧ ∃ o, w.Shows o w.part) ∧
    (∀ w e, Run programs forked w → w.machine.Tells p e → e.isAbnormal = true →
      t.external?.isSome ∨ ∃ n, e = .signaled n ∧ Kills programs forked w p n) ∧
    ∀ w e w' x o, CalmRun programs forked w → w.machine.Tells p e →
      (t.external? = none → e.isAbnormal = false) →
      CalmRun programs direct w' → w'.machine.Returns p' x →
      w.Shows o w.part → (t.external?.isSome → o.program [] = e) → w'.Shows o w'.part →
      x = result (t.verdict o []) ∧ e.status = exitCode (t.verdict o []) := by
  intro forked direct
  have hforked : forked.Starts result t := hfork.starts hprograms
  have hdirected : direct.Starts result t := hdirect.starts
  refine ⟨fun w hrun => ?_, fun w e hrun htells habnormal => ?_,
    fun w e w' x o hrun htells hnormal hrun' hreturns hshows hprogram hshows' =>
      ⟨verdict_of_direct hprograms hdirected hrun' hshows' hreturns, ?_⟩⟩
  · rcases hrun with hrun | hrun
    · exact ⟨hforked.lossless hprograms hrun, hforked.answered hprograms hrun⟩
    · exact ⟨hdirected.lossless hprograms hrun, hdirected.answered hprograms hrun⟩
  · cases hx : t.external? with
    | some c => exact .inl rfl
    | none =>
        obtain ⟨a, ha, hpart⟩ := part_of_forked hprograms hforked hrun
        rw [Tree.part, hx] at hpart
        cases e with
        | exited code => cases habnormal
        | signaled n =>
            exact .inr ⟨n, rfl, hforked.killed hprograms hrun ha hpart htells.dead.1⟩
  · obtain ⟨hdead, htold⟩ := htells.dead
    cases hx : t.external? with
    | some c =>
        -- the branch has become the program
        rw [Tree.verdict_external (by rw [hx]; rfl), hprogram (by rw [hx]; rfl), htold]
        rfl
    | none =>
        cases e with
        | signaled n => cases hnormal hx
        | exited code => exact verdict_of_forked hprograms hforked hrun hshows hx hdead

/-- Both come to the status of the program that runs because a builtin
fails. -/
theorem status_of_fork_after_builtin :
    let t : Tree := .node .orElse (.leaf (.ofWords ["cd"])) (.leaf (.ofWords ["/sh"]))
    let v := View.atTerminalWith "sh"
    let programs := looksAround fun _ => Prog.exit (.exited 3)
    ∃ w w', CalmRun programs (alone 2 (.branch t 0 .parallel) (.forked t v)) w ∧
      CalmRun programs (alone 1 (.evaluator t 0 none) (.taking (.execute t 0 none) v)) w' ∧
      w.machine.Tells 2 (.exited 3) ∧ w'.machine.Returns 1 (.ok 3) := by
  intro t v programs
  have hprograms : ∀ name args, (programs name args).Respects .onward := fun _ _ =>
    ⟨fun v => .refl v, fun _ => trivial⟩
  let o : Answers := ⟨fun _ => 1, fun _ => .exited 3, fun _ => none, fun _ => none⟩
  have hfork := Machine.forked_forked programs t v
  have hdirect := Machine.taking_executes t v
  have played : ((alone 2 (.branch t 0 .parallel) (.forked t v)).playWhile isCalm programs
      [2, 2, 2, 2, 2, 2, 2, 2, 3, 3, 3, 3, 0, 3, 3, 3, 2, 2, 2]).any (fun w =>
        w.shows o && decide (w.machine.Tells 2 (.exited 3))) = true := by
    decide +kernel
  have played' : ((alone 1 (.evaluator t 0 none) (.taking (.execute t 0 none) v)).playWhile isCalm programs
      [1, 1, 1, 1, 1, 1, 1, 2, 2, 2, 2, 0, 2, 2, 2, 1, 1]).any (fun w =>
        w.shows o && w.machine.slots.any fun s => s.process.pid == 1 && s.result?.isSome) = true := by
    decide +kernel
  obtain ⟨w, hplay, hcheck⟩ := (Option.any_eq_true _ _).mp played
  obtain ⟨w', hplay', hcheck'⟩ := (Option.any_eq_true _ _).mp played'
  have hcalm := calmRun_of_play hplay
  have hcalm' := calmRun_of_play hplay'
  simp only [Bool.and_eq_true, decide_eq_true_eq, List.any_eq_true, beq_iff_eq,
    Option.isSome_iff_exists] at hcheck hcheck'
  obtain ⟨hshows, htells⟩ := hcheck
  obtain ⟨hshows', s, hs, hpid, x, hx⟩ := hcheck'
  have hstart : (alone 2 (.branch t 0 .parallel) (.forked t v)).Starts id t := hfork.starts hprograms
  have shown := of_shows (hstart.equipped hprograms hcalm.run).known hshows
  have shown' := of_shows (hdirect.starts.equipped hprograms hcalm'.run).known hshows'
  obtain ⟨-, -, agree⟩ := status_of_fork hprograms hfork hdirect
  obtain ⟨rfl, -⟩ := agree w (.exited 3) w' x o hcalm htells (fun _ => rfl) hcalm'
    ⟨s, hs, hpid, hx⟩ shown (fun h => by cases h) shown'
  exact ⟨w, w', hcalm, hcalm', htells, s, hs, hpid, hx⟩

/-- What comes of a program may depend on who started it, and it may kill
who did. -/
theorem status_of_fork_counterexample :
    let t : Tree := .node .sequential (.leaf (.ofWords [])) (.leaf (.ofWords ["/sh"]))
    let v := View.atTerminalWith "sh"
    let first := looksAround fun v =>
      Prog.exit (.exited (if v.process.parent = Machine.mainPid then 0 else 1))
    let killing := looksAround fun v =>
      Prog.kill v.process.parent Signal.kill fun _ => .exit (.exited 0)
    (∀ programs, (Machine.forked t v).Forked programs t 0 .parallel 2) ∧
    (Machine.taking (.execute t 0 none) v).Executes id t 0 none 1 ∧
    (∃ w w', CalmRun first (alone 2 (.branch t 0 .parallel) (.forked t v)) w ∧
      CalmRun first (alone 1 (.evaluator t 0 none) (.taking (.execute t 0 none) v)) w' ∧
      w.machine.Tells 2 (.exited 1) ∧ w'.machine.Returns 1 (.ok 0)) ∧
    t.external? = none ∧
    ∃ w, CalmRun killing (alone 2 (.branch t 0 .parallel) (.forked t v)) w ∧
      w.machine.Tells 2 (.signaled Signal.kill) := by
  intro t v first killing
  refine ⟨fun programs => Machine.forked_forked programs t v, Machine.taking_executes t v, ?_, rfl, ?_⟩
  · have played : ((alone 2 (.branch t 0 .parallel) (.forked t v)).playWhile isCalm first
        [2, 2, 2, 2, 2, 2, 3, 3, 3, 3, 0, 3, 3, 3, 2, 2, 2]).any
          (fun w => decide (w.machine.Tells 2 (.exited 1))) = true := by
      decide +kernel
    have played' : ((alone 1 (.evaluator t 0 none) (.taking (.execute t 0 none) v)).playWhile isCalm first
        [1, 1, 1, 1, 1, 2, 2, 2, 2, 0, 2, 2, 2, 1, 1]).any
          (fun w => decide (w.machine.Returns 1 (.ok 0))) = true := by
      decide +kernel
    obtain ⟨w, hplay, htells⟩ := (Option.any_eq_true _ _).mp played
    obtain ⟨w', hplay', hreturns⟩ := (Option.any_eq_true _ _).mp played'
    exact ⟨w, w', calmRun_of_play hplay, calmRun_of_play hplay', of_decide_eq_true htells,
      of_decide_eq_true hreturns⟩
  · have played : ((alone 2 (.branch t 0 .parallel) (.forked t v)).playWhile isCalm killing
        [2, 2, 2, 2, 2, 2, 3, 3, 3, 3, 0, 3, 3, 3]).any
          (fun w => decide (w.machine.Tells 2 (.signaled Signal.kill))) = true := by
      decide +kernel
    obtain ⟨w, hplay, htells⟩ := (Option.any_eq_true _ _).mp played
    exact ⟨w, calmRun_of_play hplay, of_decide_eq_true htells⟩

end Watch

end LineShell
