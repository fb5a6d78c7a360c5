/-
With which codes the processes of a run exit.

A process that is started for a part of the tree exits at four places: at
the end of its walk, with the code of its result; where its wiring fails;
where a builtin ends it; and where its program cannot be run. `Yields` says
of a set of codes that it has those of the place where a process is now. If
it does so for every process at all times, then whoever asks to exit, asks
to do so with a code of the set (`Departs.code`), and whoever is found to
have exited has such a code (`Departing.moved`). The programs that have
taken over are not bound to anything, and exit with any status.
-/
import LineShell.Proofs.Launch.Attended
import LineShell.Proofs.Posix.Event
import LineShell.Proofs.Walk.Verdict

namespace LineShell

open Posix

variable {ρ α β : Type} {S : Int → Prop}

-- =================================================================== tasks

namespace Posix.Task

/-- The task acts, writes, looks for another program, and exits with such
codes. -/
def Exits (S : Int → Prop) (t : Task ρ α) : Prop :=
  ∀ k : α → Prog ρ, (∀ a, (k a).Exits S) → Prog.Exits S (t k)

theorem exits_pure (a : α) : Exits S (pure a : Task ρ α) := fun _ hk => hk a

theorem Exits.bind {t : Task ρ α} {f : α → Task ρ β} (ht : Exits S t) (hf : ∀ a, Exits S (f a)) :
    Exits S (t >>= f) := fun k hk => ht _ fun a => hf a k hk

theorem exits_act (f : View → α × View) : Exits S (act f : Task ρ α) := fun _ hk _ => hk _

theorem exits_modify (f : View → View) : Exits S (modify f : Task ρ Unit) := fun _ hk _ => hk ()

theorem exits_view (f : View → α) : Exits S (view f : Task ρ α) := fun _ hk _ => hk _

theorem exits_write (fd : Fd) (data : Bytes) :
    Exits S (write fd data : Task ρ (Except Errno Nat)) := fun _ hk => hk

theorem exits_exec (path : Bytes) (argv : List Bytes) : Exits S (exec path argv : Task ρ Errno) :=
  fun _ hk => hk

theorem exits_exit {code : Int} (h : S code) : Exits S (exit code : Task ρ α) :=
  fun _ _ => ⟨code, rfl, h⟩

theorem Exits.run {t : Task ρ Empty} (h : Exits S t) : Prog.Exits S t.run := h _ fun e => e.elim

end Posix.Task

open Posix.Task

theorem exits_dieWith (message : String) {status : Int} (h : S status) :
    Exits S (dieWith message status : Task ρ Empty) :=
  (exits_modify _).bind fun _ => exits_exit h

theorem exits_writeAllIn (fd : Fd) (n : Nat) (data : Bytes) :
    Exits S (writeAllIn fd n data : Task ρ (Except Errno Unit)) := by
  induction n generalizing data with
  | zero => exact exits_pure _
  | succ n ih =>
      unfold writeAllIn
      split
      · exact exits_pure _
      · refine (exits_write fd data).bind fun r => ?_
        cases r with
        | error e => exact exits_pure _
        | ok written => exact ih _

theorem exits_giveUp (message : String) {status : Int} (h : S status) :
    Exits S (giveUp message status : Task ρ Empty) :=
  (exits_writeAllIn _ _ _).bind fun _ => exits_exit h

theorem exits_execAt (path : Bytes) (argv : List Bytes) :
    Exits S (Search.execAt path argv : Task ρ Errno) := by
  refine (exits_exec path argv).bind fun e => ?_
  split
  · exact exits_exec _ _
  · exact exits_pure _

theorem exits_tryAll (argv : List Bytes) (paths : List Bytes) (denied : Bool) (last : Errno) :
    Exits S (Search.tryAll argv paths denied last : Task ρ Errno) := by
  induction paths generalizing denied last with
  | nil => exact exits_pure _
  | cons path rest ih =>
      refine (exits_execAt path argv).bind fun e => ?_
      split
      · exact ih _ _
      · exact exits_pure _

theorem exits_execByName (name : Bytes) (argv : List Bytes) :
    Exits S (Search.execByName name argv : Task ρ Errno) := by
  unfold Search.execByName
  split
  · exact exits_pure _
  split
  · exact exits_execAt _ _
  split
  · exact exits_pure _
  · exact (exits_view _).bind fun _ => exits_tryAll _ _ _ _

/-- What cannot be run is reported by a status. -/
theorem exits_runExternal (h : ∀ code, IsStatus code → S code) (c : Command) :
    Exits S (runExternal c : Task ρ Empty) := by
  have failure : S exitFailure := h _ (by constructor <;> decide)
  have notFound : S exitNotFound := h _ (by constructor <;> decide)
  have notExecutable : S exitNotExecutable := h _ (by constructor <;> decide)
  refine (exits_modify _).bind fun _ => (exits_act _).bind fun opened => ?_
  cases opened with
  | error e => exact exits_giveUp _ failure
  | ok opened =>
      refine (exits_act _).bind fun r => ?_
      cases r with
      | error e => exact exits_giveUp _ failure
      | ok _ =>
          simp only
          split
          · exact exits_giveUp _ failure
          · refine (exits_execByName _ _).bind fun e => ?_
            split
            · exact exits_giveUp _ notFound
            · exact exits_giveUp _ notExecutable

/-- A branch exits with the code of its result. -/
theorem exits_endBranch (tree : Tree) {r : Except ExecError Int} (h : S (exitCode r)) :
    (endBranch tree r : Prog ρ).Exits S := by
  cases r with
  | ok status => exact ⟨status, rfl, h⟩
  | error e => exact ((exits_modify _).bind fun _ => exits_dieWith e.message h).run

/-- Only a walk that is over is followed by an exit. -/
theorem Walk.result?_of_exit {w : Walk} {k : Except ExecError Int → Prog ρ} {how : Ending}
    (h : w.perform k = .exit how) : ∃ r, w.result? = some r ∧ k r = .exit how := by
  cases w with
  | done n => exact ⟨.ok n, rfl, h⟩
  | failed e => exact ⟨.error e, rfl, h⟩
  | log | release => cases h
  | builtin q b c next =>
      rw [perform_builtin] at h
      cases h
  | launch q c next => cases h
  | fork q t d p w b next => cases h
  | channel q next =>
      rw [perform_channel] at h
      cases h
  | wait c next =>
      rw [perform_wait] at h
      cases h

-- =============================================================== processes

namespace Account

variable {a : Account} {s : Slot ρ} {m m' : Machine ρ} {programs : Installed ρ}
  {result : Except ExecError Int → ρ}

/-- Another program has taken the process over. -/
def isTaken (a : Account) : Bool :=
  match a.stage with
  | .loaded _ | .away => true
  | _ => false

/-- The codes are among these with which the process may exit where it is
now. -/
structure Yields (S : Int → Prop) (a : Account) (v : View) : Prop where
  result : ∀ rest r, a.stage = .walking rest → a.isShell = false → rest.result? = some r →
    S (exitCode r)
  wiring : ∀ p w e, a.stage = .wiring p w → (w.apply.attempt v).1 = .error e → S exitFailure
  leaving : ∀ q, a.stage = .leaving q → S 0
  program : a.runsProgram = true → ∀ code, IsStatus code → S code

/-- Who is about to report or to exit does so with such a code, and so does
who looks for its program. -/
def Departs (S : Int → Prop) (a : Account) (s : Slot ρ) : Prop :=
  a.stage = .quitting ∨ (∃ c, a.stage = .preparing c) →
    ∃ todo, s.life = .running todo ∧ todo.Exits S

/-- The code that the machine is asked to exit with. -/
theorem Departs.code (h : a.Departs S s) (hd : a.Drives result s)
    (hy : a.Yields S ⟨s.process, m.world⟩) {how : Ending} (hl : s.life = .running (.exit how))
    (htaken : a.isTaken = false) : ∃ code, how = .exited code ∧ S code := by
  have departing : a.stage = .quitting ∨ (∃ c, a.stage = .preparing c) →
      ∃ code, how = .exited code ∧ S code := fun hstage => by
    obtain ⟨todo, hlife, hexits⟩ := h hstage
    rw [hl] at hlife
    cases hlife
    exact hexits
  have known : ∀ todo, a.todo? result = some todo → todo = .exit how := fun todo htodo => by
    have hlife := hd.todo todo htodo
    rw [hl] at hlife
    cases hlife
    rfl
  cases hstage : a.stage with
  | wiring p w =>
      have htodo := known (runBranch a.tree p w a.walk.perform).run (by simp only [todo?, hstage])
      rw [run_runBranch] at htodo
      cases htodo
  | walking rest =>
      have htodo := known (rest.perform (a.finish result)) (by simp only [todo?, hstage])
      obtain ⟨r, hr, hfinish⟩ := Walk.result?_of_exit htodo
      cases hshell : a.isShell with
      | true =>
          rw [finish, if_pos hshell] at hfinish
          cases hfinish
      | false =>
          rw [finish, hshell, if_neg Bool.false_ne_true] at hfinish
          have hexits : Prog.Exits S (endBranch a.tree r : Prog ρ) :=
            exits_endBranch a.tree (hy.result rest r hstage hshell hr)
          rw [hfinish] at hexits
          exact hexits
  | program c =>
      have htodo := known (runExternal c).run (by simp only [todo?, hstage])
      cases htodo
  | preparing c => exact departing (.inr ⟨c, hstage⟩)
  | leaving q =>
      have htodo := known (.exit (.exited 0)) (by simp only [todo?, hstage])
      cases htodo
      exact ⟨0, rfl, hy.leaving q hstage⟩
  | quitting => exact departing (.inl hstage)
  | loaded c | away => simp [isTaken, hstage] at htaken

/-- What the process has left to do before it is at such a place, unless it
gets there by its wiring. -/
theorem Departs.before (h : a.Departs S s) (hd : a.Drives result s)
    (hy : a.Yields S ⟨s.process, m.world⟩) (hm : m.move programs s = some m')
    (hwiring : ∀ p w, a.stage ≠ .wiring p w)
    (hafter : (a.after m s).stage = .quitting ∨ ∃ c, (a.after m s).stage = .preparing c) :
    ∃ todo, s.life = .running todo ∧ todo.Exits S ∧ m.loads s = false := by
  cases hstage : a.stage with
  | wiring p w => exact absurd hstage (hwiring p w)
  | walking rest =>
      have hl : s.life = .running (rest.perform (a.finish result)) :=
        hd.todo _ (by simp only [todo?, hstage])
      have finished : ∀ r, rest.result? = some r → ∃ todo, s.life = .running todo ∧ todo.Exits S ∧
          m.loads s = false := fun r hr => by
        rw [Walk.perform_result _ hr] at hl
        cases hshell : a.isShell with
        | true =>
            rw [finish, if_pos hshell] at hl
            rw [Machine.move_ret hl] at hm
            cases hm
        | false =>
            rw [finish, hshell, if_neg Bool.false_ne_true] at hl
            refine ⟨_, hl, exits_endBranch a.tree (hy.result rest r hstage hshell hr), ?_⟩
            rw [Machine.loads, hl]
            cases r with
            | ok status => rfl
            | error e => rfl
      simp only [after, hstage] at hafter
      cases rest with
      | done n => exact finished _ rfl
      | failed e => exact finished _ rfl
      | log | launch | fork | channel | release => simp [walked, does] at hafter
      | builtin q b c next =>
          simp only [walked] at hafter
          split at hafter <;> simp [does] at hafter
      | wait child next =>
          simp only [walked] at hafter
          split at hafter <;> simp [does, hstage] at hafter
  | program c =>
      have hl : s.life = .running (runExternal c).run := hd.todo _ (by simp only [todo?, hstage])
      refine ⟨_, hl, (exits_runExternal (hy.program ?_) c).run, ?_⟩
      · simp only [runsProgram, hstage]
      · simp only [Machine.loads, hl]
        rfl
  | preparing c =>
      obtain ⟨todo, hl, hexits⟩ := h (.inr ⟨c, hstage⟩)
      refine ⟨todo, hl, hexits, ?_⟩
      cases hload : m.loads s with
      | false => rfl
      | true => simp [after, hstage, hload] at hafter
  | leaving q =>
      have hl : s.life = .running (.exit (.exited 0)) := hd.todo _ (by simp only [todo?, hstage])
      exact ⟨_, hl, ⟨0, rfl, hy.leaving q hstage⟩, by simp only [Machine.loads, hl]⟩
  | quitting =>
      obtain ⟨todo, hl, hexits⟩ := h (.inl hstage)
      obtain ⟨todo', hl', hquits⟩ := hd.quitting hstage
      rw [hl] at hl'
      cases hl'
      refine ⟨todo, hl, hexits, ?_⟩
      simp only [Machine.loads, hl]
      cases todo with
      | exec => exact hquits.elim
      | ret | exit | step | read | write | fork | wait | kill | sleep => rfl
  | loaded c | away => simp [after, hstage] at hafter

/-- Whoever has moved departs with such a code as well. -/
theorem Departs.after (h : a.Departs S s)
    (hprograms : ∀ name args, (programs name args).Respects .onward) (hsound : m.Sound)
    (hs : s ∈ m.slots)
    (hd : a.Drives result s) (hy : a.Yields S ⟨s.process, m.world⟩)
    (hm : m.move programs s = some m') {t' : Slot ρ} (ht' : t' ∈ m'.slots)
    (hpid : t'.process.pid = s.process.pid) (halive : t'.alive) :
    (a.after m s).Departs S t' := by
  intro hafter
  by_cases hwiring : ∃ p w, a.stage = .wiring p w
  · obtain ⟨p, w, hstage⟩ := hwiring
    have hl : s.life = .running (runBranch a.tree p w a.walk.perform).run :=
      hd.todo _ (by simp only [todo?, hstage])
    rw [run_runBranch] at hl
    rw [Machine.move_step hl] at hm
    cases hm
    obtain rfl := Machine.mem_resume (w.apply_quiet ⟨s.process, m.world⟩).pid ht' hpid
    cases hr : (w.apply.attempt ⟨s.process, m.world⟩).1 with
    | error e => exact ⟨_, rfl, (exits_dieWith _ (hy.wiring p w e hstage hr)).run⟩
    | ok _ =>
        cases hx : a.tree.external? <;>
          simp [Account.after, hstage, hr, onceWired, hx] at hafter
  · obtain ⟨todo, hl, hexits, hload⟩ := h.before hd hy hm
      (fun p w hstage => hwiring ⟨p, w, hstage⟩) hafter
    rcases Machine.exits_of_move hsound hs hl hexits hprograms hm hload ht' hpid with
      hgoes | ⟨how, hended⟩
    · exact hgoes
    · rw [Machine.alive_eq_false_of_ended hended] at halive
      cases halive

end Account

-- ================================================================ watching

namespace Watch

variable {programs : Installed ρ} {result : Except ExecError Int → ρ} {w w' : Watch ρ}
  {s : Slot ρ} {m : Machine ρ} {S : Pid → Int → Prop} {A : Account → Prop}
  {P : Account → View → Prop}

/-- All processes exit with codes that are foreseen for them. -/
structure Departing (S : Pid → Int → Prop) (w : Watch ρ) : Prop where
  living : w.Living fun a s => a.Departs (S s.process.pid) s
  dead : ∀ p a code, w.accounts p = some a → w.machine.Dead p (.exited code) → S p code

variable (hprograms : ∀ name args, (programs name args).Respects .onward)
  (hS : ∀ p code, S p code → IsStatus code)
include hprograms hS

/-- It remains so, if the process that moves exits with such a code. -/
theorem Departing.moved (h : w.Departing S) (hw : w.Holds result A P) (hs : s ∈ w.machine.slots)
    (hm : w.machine.move programs s = some m)
    (hy : ∀ a, w.accounts s.process.pid = some a →
      a.Yields (S s.process.pid) ⟨s.process, w.machine.world⟩) : (w.moved s m).Departing S := by
  have halive := Machine.alive_of_move hm
  refine ⟨h.living.moved hprograms hw hs hm (fun hut h hstage => ?_) (fun b hb h t' ht' hp ha' => ?_)
    (fun b a hb hc t' _ _ hstage => ?_), fun p a code ha hdead => ?_⟩
  · rw [hut.life, hut.pid]
    exact h hstage
  · rw [hp]
    exact h.after hprograms hw.sound hs (hw.drives s hs halive b hb) (hy b hb) hm ht' hp ha'
  · -- a new process is at none of these places
    unfold Account.child? at hc
    split at hc <;> cases hc <;> rcases hstage with hstage | ⟨c, hstage⟩ <;> cases hstage
  · rcases Machine.dead_of_move hs hm hdead with hdead | ⟨-, hends⟩
    · rcases accounts_moved ha with ⟨-, b, hb, -⟩ | ⟨-, hn, -⟩ | ⟨-, -, hb⟩
      · exact h.dead p b code hb hdead
      · obtain ⟨t, ht, hpid, -⟩ := hdead
        exact absurd (hw.sound.bounds t ht).2 (by rw [hpid, hn]; exact Nat.lt_irrefl _)
      · exact h.dead p a code hb hdead
    · obtain ⟨rfl, hstatus, code', hl, rfl⟩ := hends.exited
      rcases accounts_moved ha with ⟨-, b, hb, -⟩ | ⟨hp, -⟩ | ⟨hp, -⟩
      · cases htaken : b.isTaken with
        | true =>
            refine (hy b hb).program ?_ _ hstatus
            unfold Account.isTaken at htaken
            unfold Account.runsProgram
            split at htaken <;> simp_all
        | false =>
            obtain ⟨code, hcode, hSc⟩ := (h.living s hs halive b hb).code
              (hw.drives s hs halive b hb) (hy b hb) hl htaken
            cases hcode
            rw [(hS _ _ hSc).emod]
            exact hSc
      · exact absurd rfl hp
      · exact absurd rfl hp

end Watch

end LineShell
