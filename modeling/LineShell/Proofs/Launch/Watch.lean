/-
Watched runs, and the induction over them.

The link between machine and accounts is `Drives`: a living process
with an account is about to do what its account says. It holds at the
beginning and is preserved by every move, because what a process does
next is the program of what is left of its walk. From it every move of a
process with an account is a `Turn` (`turns_of_move`), and every process
that such a process starts has the account that was foreseen for it
(`born_of_move`). `Watch.invariant` puts both together.
-/
import LineShell.Proofs.Launch.Account

namespace LineShell

open Posix

variable {ρ : Type} {result : Except ExecError Int → ρ}

namespace Posix.Machine

variable {programs : Installed ρ} {m m' : Machine ρ} {s t' : Slot ρ}

-- ============================================================= known moves

theorem move_step {act : View → View} {next : View → Prog ρ}
    (hl : s.life = .running (.step act next)) : m.move programs s
      = some (m.resume s (act ⟨s.process, m.world⟩) (next ⟨s.process, m.world⟩)) := by
  simp only [move, hl]

theorem move_exit {how : Ending} (hl : s.life = .running (.exit how)) :
    m.move programs s = some (m.terminate s (eightBits how)) := by
  simp only [move, hl]

theorem move_fork {child : Prog ρ} {next : Pid → Prog ρ}
    (hl : s.life = .running (.fork child next)) :
    m.move programs s = some (m.answerFork s child next) := by
  simp only [move, hl]

theorem move_wait {child : Int} {next : Except Errno (Pid × Ending) → Prog ρ}
    (hl : s.life = .running (.wait child next)) :
    m.move programs s = m.answerWait s child next := by
  simp only [move, hl]

theorem move_ret {r : ρ} (hl : s.life = .running (.ret r)) : m.move programs s = none := by
  simp only [move, hl]

/-- The process that has started a child. -/
theorem mem_answerFork {child : Prog ρ} {next : Pid → Prog ρ} (hbound : s.process.pid < m.nextPid)
    (h : t' ∈ (m.answerFork s child next).slots) (hp : t'.process.pid = s.process.pid) :
    t' = { s with life := .running (next m.nextPid) } := by
  rcases List.mem_append.mp h with h | h
  · exact mem_resume (v := ⟨s.process, m.world⟩) rfl h hp
  · obtain rfl := List.mem_singleton.mp h
    exact absurd hp (Nat.ne_of_gt hbound)

/-- The process that has waited for a child. -/
theorem mem_answerWait {child : Int} {next : Except Errno (Pid × Ending) → Prog ρ}
    (hm : m.answerWait s child next = some m') (h : t' ∈ m'.slots)
    (hp : t'.process.pid = s.process.pid) :
    ∃ raw, m.waitResult s child = some raw ∧ t' = { s with life := .running (next raw) } := by
  obtain ⟨raw, hraw, rfl⟩ := Option.map_eq_some_iff.mp hm
  refine ⟨raw, hraw, ?_⟩
  split at h
  · exact mem_resume (v := ⟨s.process, m.world⟩) rfl h hp
  · exact mem_resume (v := ⟨s.process, m.world⟩) rfl (List.mem_filter.mp h).1 hp

end Posix.Machine

-- ============================================================== coherence

namespace Account

/-- The process is about to do what its account says. -/
structure Drives (result : Except ExecError Int → ρ) (a : Account) (s : Slot ρ) : Prop where
  todo : ∀ todo, a.todo? result = some todo → s.life = .running todo
  preparing : ∀ c, a.stage = .preparing c → s.life.Respects .quiet
  quitting : a.stage = .quitting → ∃ todo, s.life = .running todo ∧ todo.Quits

/-- The shell does nothing but take its walk until it leaves, and what is
left of a walk asks for the branches of its subtrees. -/
structure Proper (a : Account) : Prop where
  shell : a.isShell = true →
    (∃ rest, a.stage = .walking rest) ∨ (∃ q, a.stage = .leaving q) ∨ a.stage = .quitting
  faithful : ∀ rest, a.stage = .walking rest → rest.Faithful
  program : a.walks = false → a.runsProgram = true
  idle : a.runsProgram = true ∨ (∃ p w, a.stage = .wiring p w) → a.own = []

/-- Only who takes a walk does something for the tree. -/
theorem Proper.walks_of_own {a : Account} (h : a.Proper) {d : Deed} (hd : d ∈ a.own) :
    a.walks = true := by
  cases hw : a.walks with
  | true => rfl
  | false =>
      rw [h.idle (.inl (h.program hw))] at hd
      cases hd

theorem Proper.walks_of_walking {a : Account} (h : a.Proper) {rest : Walk}
    (hstage : a.stage = .walking rest) : a.walks = true := by
  cases hw : a.walks with
  | true => rfl
  | false =>
      have program := h.program hw
      simp only [runsProgram, hstage] at program
      cases program

/-- Only branches and programs are at other stages. -/
theorem Proper.not_shell {a : Account} (h : a.Proper) (hw : ∀ rest, a.stage ≠ .walking rest)
    (hl : ∀ q, a.stage ≠ .leaving q) (hq : a.stage ≠ .quitting) : a.isShell = false := by
  cases hs : a.isShell with
  | false => rfl
  | true =>
      rcases h.shell hs with ⟨rest, he⟩ | ⟨q, he⟩ | he
      · exact absurd he (hw rest)
      · exact absurd he (hl q)
      · exact absurd he hq

/-- Whoever executes a tree itself is proper. -/
theorem Proper.evaluator (t : Tree) (depth : Nat) (parent : Option Operator) :
    (Account.evaluator t depth parent).Proper where
  shell _ := .inl ⟨_, rfl⟩
  faithful rest hr := by
    cases hr
    exact Walk.faithful_execute _ _ _ _
  program hw := by cases hw
  idle h := by
    rcases h with h | ⟨p, w, h⟩ <;> cases h

/-- So is a branch. -/
theorem Proper.branch (t : Tree) (depth : Nat) (op : Operator) :
    (Account.branch t depth op).Proper where
  shell h := by cases h
  faithful rest hr := by cases hr
  program hw := by cases hw
  idle _ := rfl

theorem Drives.of_away {a : Account} {s : Slot ρ} (h : a.stage = .away) : a.Drives result s :=
  ⟨fun todo ht => by simp [todo?, h] at ht, fun c hc => by simp [h] at hc,
    fun hq => by simp [h] at hq⟩

theorem Drives.of_quitting {a : Account} {s : Slot ρ} (h : a.stage = .quitting) {todo : Prog ρ}
    (hl : s.life = .running todo) (hq : todo.Quits) : a.Drives result s :=
  ⟨fun todo ht => by simp [todo?, h] at ht, fun c hc => by simp [h] at hc,
    fun _ => ⟨todo, hl, hq⟩⟩

/-- A process that goes on with its walk. -/
theorem Drives.of_walking {a : Account} {s : Slot ρ} {rest : Walk} (h : a.stage = .walking rest)
    (hl : s.life = .running (rest.perform (a.finish result))) : a.Drives result s :=
  ⟨fun todo ht => by simp only [todo?, h, Option.some.injEq] at ht; rw [hl, ht],
    fun c hc => by simp [h] at hc, fun hq => by simp [h] at hq⟩

theorem Drives.evaluator {t : Tree} {depth : Nat} {parent : Option Operator} {s : Slot ρ}
    (hl : s.life = .running ((Walk.execute t depth parent).perform fun r => .ret (result r))) :
    (Account.evaluator t depth parent).Drives result s :=
  .of_walking rfl hl

theorem Drives.branch {t : Tree} {depth : Nat} {op : Operator} {s : Slot ρ}
    (hl : s.life = .running (runBranch t op .inherit
      (Walk.execute t depth (some op)).perform).run) :
    (Account.branch t depth op).Drives result s where
  todo todo ht := by
    cases ht
    exact hl
  preparing c hc := by cases hc
  quitting hq := by cases hq

end Account

namespace Posix.Machine

variable {programs : Installed ρ} {m m' : Machine ρ} {s t' : Slot ρ} {a : Account}

/-- The account after a move, and the view that led to the process as it
is then. -/
def Turns (result : Except ExecError Int → ρ) (m : Machine ρ) (s : Slot ρ) (a : Account)
    (m' : Machine ρ) : Prop :=
  (∃ v', a.Turn ⟨s.process, m.world⟩ (a.after m s) v') ∧
  ∀ t' ∈ m'.slots, t'.process.pid = s.process.pid → t'.alive →
    ∃ v', a.Turn ⟨s.process, m.world⟩ (a.after m s) v' ∧
      v'.Meanwhile ⟨t'.process, m'.world⟩ ∧ (a.after m s).Drives result t'

/-- A process that is no longer followed. -/
theorem Turns.of_away (hw : m.world.Extends m'.world)
    (hstage : (∃ c, a.stage = .loaded c) ∨ a.stage = .away)
    (h : a.after m s = { a with stage := .away }) : Turns result m s a m' := by
  unfold Turns
  rw [h]
  exact ⟨⟨⟨s.process, m.world⟩, .away hstage (.refl _)⟩,
    fun t' _ _ _ => ⟨⟨t'.process, m'.world⟩, .away hstage hw, .refl _, .of_away rfl⟩⟩

/-- A process that goes on with a view. -/
theorem Turns.of_going {v : View} {todo : Prog ρ} (hw : m'.world = v.world)
    (hslot : ∀ t' ∈ m'.slots, t'.process.pid = s.process.pid →
      t' = { process := v.process, life := .running todo })
    (hturn : a.Turn ⟨s.process, m.world⟩ (a.after m s) v)
    (hd : (a.after m s).Drives result { process := v.process, life := .running todo }) :
    Turns result m s a m' := by
  refine ⟨⟨v, hturn⟩, fun t' ht' hp _ => ?_⟩
  obtain rfl := hslot t' ht' hp
  exact ⟨v, hturn, by rw [hw]; exact .refl v, hd⟩

theorem Turns.of_resume {v : View} {todo : Prog ρ} (hv : v.process.pid = s.process.pid)
    (hturn : a.Turn ⟨s.process, m.world⟩ (a.after m s) v)
    (hd : (a.after m s).Drives result { process := v.process, life := .running todo }) :
    Turns result m s a (m.resume s v todo) :=
  .of_going rfl (fun _ ht' hp => mem_resume hv ht' hp) hturn hd

theorem Turns.of_fork (hbound : s.process.pid < m.nextPid) {child : Prog ρ} {next : Pid → Prog ρ}
    (hturn : a.Turn ⟨s.process, m.world⟩ (a.after m s) ⟨s.process, m.world⟩)
    (hd : (a.after m s).Drives result { s with life := .running (next m.nextPid) }) :
    Turns result m s a (m.answerFork s child next) := by
  exact .of_going (v := ⟨s.process, m.world⟩) rfl (fun _ ht' => mem_answerFork hbound ht') hturn hd

theorem Turns.of_wait {child : Int} {next : Except Errno (Pid × Ending) → Prog ρ}
    {raw : Except Errno (Pid × Ending)} (hraw : m.waitResult s child = some raw)
    (hm : m.answerWait s child next = some m')
    (hturn : a.Turn ⟨s.process, m.world⟩ (a.after m s) ⟨s.process, m.world⟩)
    (hd : (a.after m s).Drives result { s with life := .running (next raw) }) :
    Turns result m s a m' := by
  have hworld : m'.world = m.world := by
    obtain ⟨raw', -, rfl⟩ := Option.map_eq_some_iff.mp hm
    split <;> rfl
  refine .of_going (v := ⟨s.process, m.world⟩) hworld (fun t' ht' hp => ?_) hturn hd
  obtain ⟨raw', hraw', rfl⟩ := mem_answerWait hm ht' hp
  rw [hraw] at hraw'
  cases hraw'
  rfl

/-- A process that reports or exits. -/
theorem turns_of_quits {todo : Prog ρ} (hl : s.life = .running todo) (hq : todo.Quits)
    (hstage : a.runsProgram = false) (hw : m.world.Extends m'.world)
    (h : a.after m s = { a with stage := .quitting }) (hm : m.move programs s = some m') :
    Turns result m s a m' := by
  unfold Turns
  rw [h]
  refine ⟨⟨⟨s.process, m.world⟩, .quit hstage (.refl _)⟩, fun t' ht' hp ha =>
    ⟨⟨t'.process, m'.world⟩, .quit hstage hw, .refl _, ?_⟩⟩
  cases todo with
  | exit how =>
      rw [move_exit hl] at hm
      cases hm
      exact absurd hp (mem_terminate ht' ha).1
  | step act next =>
      rw [move_step hl] at hm
      cases hm
      obtain rfl := mem_resume (hq.1 _).pid ht' hp
      exact .of_quitting rfl rfl (hq.2 _)
  | ret | read | write | fork | wait | kill | sleep | exec => exact hq.elim

-- ============================================================ turns on walks

/-- Every move of a process on its walk is a turn. -/
theorem turns_of_walking {rest : Walk} (hstage : a.stage = .walking rest)
    (hd : a.Drives result s) (hbound : s.process.pid < m.nextPid)
    (hw : m.world.Extends m'.world) (hm : m.move programs s = some m') :
    Turns result m s a m' := by
  have hl : s.life = .running (rest.perform (a.finish result)) :=
    hd.todo _ (by simp only [Account.todo?, hstage])
  have walked : a.after m s = a.walked m s rest := by simp only [Account.after, hstage]
  cases rest with
  | done n | failed e =>
      cases hshell : a.isShell with
      | false =>
          rw [Account.finish, hshell, if_neg Bool.false_ne_true, Walk.perform_result _ rfl] at hl
          exact turns_of_quits hl (quits_endBranch _ _) (by simp only [Account.runsProgram, hstage])
            hw walked hm
      | true =>
          -- the shell's result is there, and it does not move
          rw [Account.finish, if_pos hshell] at hl
          rw [move_ret hl] at hm
          cases hm
  | log level text next =>
      rw [Walk.perform_log] at hl
      rw [move_step hl] at hm
      cases hm
      refine .of_resume rfl ?_ ?_ <;> rw [walked, Account.walked]
      · exact .log hstage
      · exact .of_walking rfl rfl
  | builtin q b c next =>
      rw [Walk.perform_builtin] at hl
      rw [move_step hl] at hm
      cases hm
      have kept := Builtin.run_onward b c ⟨s.process, m.world⟩
      cases hr : b.run c ⟨s.process, m.world⟩ with
      | mk ending v' =>
          rw [hr] at kept
          cases ending with
          | status n =>
              refine .of_resume kept.pid ?_ ?_ <;> simp only [walked, Account.walked, hr]
              · exact .builtin hstage hr
              · exact .of_walking rfl rfl
          | leave =>
              refine .of_resume kept.pid ?_ ?_ <;> simp only [walked, Account.walked, hr]
              · exact .leave hstage hr
              · exact ⟨fun todo ht => by cases ht; rfl, (fun c hc => by cases hc),
                fun hq => by cases hq⟩
  | launch q c next =>
      rw [Walk.perform_launch] at hl
      rw [move_fork hl] at hm
      cases hm
      refine .of_fork hbound ?_ ?_ <;> rw [walked, Account.walked]
      · exact .launch _ hstage
      · exact .of_walking rfl rfl
  | fork q tree depth parent wiring branch next =>
      rw [Walk.perform_fork] at hl
      rw [move_fork hl] at hm
      cases hm
      refine .of_fork hbound ?_ ?_ <;> rw [walked, Account.walked]
      · exact .fork _ hstage
      · exact .of_walking rfl rfl
  | channel q next =>
      rw [Walk.perform_channel] at hl
      rw [move_step hl] at hm
      cases hm
      have kept := (Call.pipe_quiet ⟨s.process, m.world⟩).pid
      refine .of_resume kept ?_ ?_ <;> rw [walked, Account.walked]
      · exact .channel hstage rfl
      · exact .of_walking rfl rfl
  | release ch next =>
      rw [Walk.perform_release] at hl
      rw [move_step hl] at hm
      cases hm
      have kept := (Redirection.closeAll_quiet [ch.read, ch.write] ⟨s.process, m.world⟩).pid
      refine .of_resume kept ?_ ?_ <;> rw [walked, Account.walked]
      · exact .release hstage
      · exact .of_walking rfl rfl
  | wait child next =>
      rw [Walk.perform_wait] at hl
      rw [move_wait hl] at hm
      cases hraw : m.waitResult s child with
      | none => simp [answerWait, hraw] at hm
      | some raw =>
          refine .of_wait hraw hm ?_ ?_ <;> simp only [walked, Account.walked, hraw]
          · exact .wait raw hstage
          · exact .of_walking rfl rfl

-- ============================================================ other turns

theorem turns_of_wiring {p : Operator} {w : Wiring} (hstage : a.stage = .wiring p w)
    (hshell : a.isShell = false) (hd : a.Drives result s)
    (hm : m.move programs s = some m') : Turns result m s a m' := by
  have hl : s.life = .running (runBranch a.tree p w a.walk.perform).run :=
    hd.todo _ (by simp only [Account.todo?, hstage])
  rw [run_runBranch] at hl
  rw [move_step hl] at hm
  cases hm
  have kept := (w.apply_quiet ⟨s.process, m.world⟩).pid
  cases hr : w.apply.attempt ⟨s.process, m.world⟩ with
  | mk r v' =>
      rw [Call.after, hr] at kept
      cases r with
      | error e =>
          have after : a.after m s = { a with stage := .quitting } := by
            simp only [Account.after, hstage, hr]
          have world : m.world.Extends v'.world := (w.apply_quiet.of_attempt hr).world
          refine .of_resume kept ?_ ?_ <;> rw [after]
          · exact .quit (by simp only [Account.runsProgram, hstage]) world
          · exact .of_quitting rfl rfl (quits_dieWith _ _)
      | ok _ =>
          have after : a.after m s = { a with stage := a.onceWired } := by
            simp only [Account.after, hstage, hr]
          refine .of_resume kept ?_ ?_ <;> rw [after]
          · exact .wired hstage hr
          · cases hx : a.tree.external? with
            | some c =>
                have stage : a.onceWired = .program c := by simp only [Account.onceWired, hx]
                rw [stage]
                refine ⟨fun todo ht => ?_, (fun c hc => by cases hc), fun hq => by cases hq⟩
                cases ht
                simp only [wired, hx]
            | none =>
                have stage : a.onceWired = .walking a.walk := by simp only [Account.onceWired, hx]
                refine .of_walking stage ?_
                simp only [wired, hx, Account.finish, hshell, Bool.false_eq_true, if_false]

theorem turns_of_program {c : Command} (hstage : a.stage = .program c) (hd : a.Drives result s)
    (hm : m.move programs s = some m') : Turns result m s a m' := by
  have hl : s.life = .running (runExternal c).run :=
    hd.todo _ (by simp only [Account.todo?, hstage])
  have quiet : Prog.Respects .quiet (runExternal c : Task ρ Empty).run :=
    (respects_runExternal Frame.quiet_fits c).run
  obtain ⟨next, hnext⟩ : ∃ next, (runExternal c : Task ρ Empty).run = .step defaultPipeSignal next :=
    ⟨_, rfl⟩
  rw [hnext] at hl quiet
  rw [move_step hl] at hm
  cases hm
  have after : a.after m s = { a with stage := .preparing c } := by
    simp only [Account.after, hstage]
  refine .of_resume (quiet.1 _).pid ?_ ?_ <;> rw [after]
  · exact .prepare hstage (quiet.1 _)
  · exact ⟨(fun todo ht => by cases ht), fun _ _ => quiet.2 _, fun hq => by cases hq⟩

/-- A process may remain at its preparations. -/
theorem still {c : Command} (hstage : a.stage = .preparing c) {v v' : View} (h : v.Quiet v') :
    a.Turn v a v' := by
  have turn := Account.Turn.prepared hstage h (.inl rfl)
  rwa [← hstage] at turn

theorem turns_of_preparing {c : Command} (hstage : a.stage = .preparing c)
    (hprograms : ∀ name args, (programs name args).Respects .onward) (hd : a.Drives result s)
    (hbound : s.process.pid < m.nextPid) (hm : m.move programs s = some m') :
    Turns result m s a m' := by
  rcases move_carries Frame.quiet_fits hprograms (hd.preparing c hstage) hm with
    hc | ⟨child, next, hl, rfl⟩
  · cases hload : m.loads s with
    | true =>
        have after : a.after m s = { a with stage := .loaded c } := by
          simp only [Account.after, hstage, hload, if_true]
        unfold Turns
        rw [after]
        refine ⟨⟨_, .prepared hstage (.refl _) (.inr rfl)⟩, fun t' ht' hp ha => ?_⟩
        obtain ⟨hholds, -⟩ := hc.mover t' ht' hp ha
        exact ⟨_, .prepared hstage hholds (.inr rfl), ⟨rfl, .refl _⟩,
          (fun todo ht => by cases ht), (fun c hc => by cases hc), fun hq => by cases hq⟩
    | false =>
        have after : a.after m s = a := by
          simp only [Account.after, hstage, hload, Bool.false_eq_true, if_false]
        unfold Turns
        rw [after]
        refine ⟨⟨_, still hstage (.refl _)⟩, fun t' ht' hp ha => ?_⟩
        obtain ⟨hholds, hlife⟩ := hc.mover t' ht' hp ha
        refine ⟨_, still hstage hholds, ⟨rfl, .refl _⟩, ?_⟩
        rcases hlife with hlife | ⟨hload', -⟩
        · exact ⟨fun todo ht => by simp [Account.todo?, hstage] at ht, fun _ _ => hlife,
            fun hq => by simp [hstage] at hq⟩
        · rw [hload] at hload'
          cases hload'
  · have after : a.after m s = a := by
      simp only [Account.after, hstage, loads, hl, Bool.false_eq_true, if_false]
    have quiet := hd.preparing c hstage
    rw [hl] at quiet
    refine .of_fork hbound ?_ ?_ <;> rw [after]
    · exact still hstage (.refl _)
    · exact ⟨fun todo ht => by simp [Account.todo?, hstage] at ht, fun _ _ => quiet.2 _,
        fun hq => by simp [hstage] at hq⟩

/-- Every move of a process with an account is a turn. -/
theorem turns_of_move (hprograms : ∀ name args, (programs name args).Respects .onward)
    (hp : a.Proper) (hd : a.Drives result s) (hbound : s.process.pid < m.nextPid)
    (hw : m.world.Extends m'.world) (hm : m.move programs s = some m') :
    Turns result m s a m' := by
  cases hstage : a.stage with
  | wiring p w =>
      have hshell := hp.not_shell (by simp [hstage]) (by simp [hstage]) (by simp [hstage])
      exact turns_of_wiring hstage hshell hd hm
  | walking rest => exact turns_of_walking hstage hd hbound hw hm
  | program c => exact turns_of_program hstage hd hm
  | preparing c => exact turns_of_preparing hstage hprograms hd hbound hm
  | loaded c => exact .of_away hw (.inl ⟨c, hstage⟩) (by simp only [Account.after, hstage])
  | leaving q =>
      have hl : s.life = .running (.exit (.exited 0)) :=
        hd.todo _ (by simp only [Account.todo?, hstage])
      exact turns_of_quits hl trivial (by simp only [Account.runsProgram, hstage]) hw
        (by simp only [Account.after, hstage]) hm
  | quitting =>
      obtain ⟨todo, hl, hq⟩ := hd.quitting hstage
      exact turns_of_quits hl hq (by simp only [Account.runsProgram, hstage]) hw
        (by simp only [Account.after, hstage]) hm
  | away => exact .of_away hw (.inr hstage) (by simp only [Account.after, hstage])

/-- A process that is started for a part of the tree does what its account
foresees. -/
theorem born_of_move (hp : a.Proper) (hd : a.Drives result s) {child : Account}
    (hc : a.child? = some child) (hm : m.move programs s = some m') :
    child.Proper ∧ ∃ prog next, s.life = .running (.fork prog next) ∧
      m' = m.answerFork s prog next ∧ child.Drives result (m.born s prog) := by
  unfold Account.child? at hc
  split at hc
  · next q c next hstage =>
    cases hc
    have hl : s.life = .running ((Walk.launch q c next).perform (a.finish result)) :=
      hd.todo _ (by simp only [Account.todo?, hstage])
    rw [Walk.perform_launch] at hl
    rw [move_fork hl] at hm
    cases hm
    refine ⟨⟨nofun, nofun, fun _ => rfl, fun _ => rfl⟩, _, _, hl, rfl, fun todo ht => ?_, nofun, nofun⟩
    cases ht
    rfl
  · next q tree depth parent wiring branch next hstage =>
    cases hc
    have hl : s.life = .running ((Walk.fork q tree depth parent wiring branch next).perform
        (a.finish result)) := hd.todo _ (by simp only [Account.todo?, hstage])
    obtain ⟨rfl, -⟩ := hp.faithful _ hstage
    rw [Walk.perform_fork] at hl
    rw [move_fork hl] at hm
    cases hm
    refine ⟨⟨nofun, nofun, nofun, fun _ => rfl⟩, _, _, hl, rfl, fun todo ht => ?_, nofun, nofun⟩
    cases ht
    rfl
  · cases hc

end Posix.Machine

-- ================================================================ the rule

theorem Walk.faithful_afterWait {child : Int} {raw : Except Errno (Pid × Ending)} {next : Walk}
    (h : next.Faithful) : (afterWait child raw next).Faithful := by
  rcases raw with e | ⟨pid, code | n⟩
  · exact h
  · exact h
  · simp only [afterWait]
    cases Signal.name? n <;> exact h

/-- Accounts stay proper. -/
theorem Account.Turn.proper {a a' : Account} {v v' : View} (h : a.Turn v a' v') (hp : a.Proper) :
    a'.Proper := by
  have walks : a.runsProgram = false → a'.walks ≠ false := fun hs hw => by
    have program := hp.program (by rw [← hw, h.same]; rfl)
    rw [hs] at program
    cases program
  cases h with
  | wired hs =>
      have hshell := hp.not_shell (by simp [hs]) (by simp [hs]) (by simp [hs])
      have hown := hp.idle (.inr ⟨_, _, hs⟩)
      refine ⟨fun he => absurd he (Bool.eq_false_iff.mp hshell), fun rest hr => ?_,
        fun hw => absurd hw (walks (by simp only [runsProgram, hs])), fun _ => hown⟩
      cases hx : a.tree.external? with
      | some c => simp [onceWired, hx] at hr
      | none =>
          simp only [onceWired, hx, Stage.walking.injEq] at hr
          exact hr ▸ Walk.faithful_execute _ _ _ _
  | log hs | release hs =>
      have faithful := hp.faithful _ hs
      exact ⟨fun _ => .inl ⟨_, rfl⟩, fun rest hr => by cases hr; exact faithful,
        fun hw => absurd hw (walks (by simp only [runsProgram, hs])), nofun⟩
  | builtin hs _ | channel hs _ =>
      exact ⟨fun _ => .inl ⟨_, rfl⟩, fun rest hr => by cases hr; exact hp.faithful _ hs _,
        fun hw => absurd hw (walks (by simp only [runsProgram, hs])), nofun⟩
  | launch pid hs =>
      exact ⟨fun _ => .inl ⟨_, rfl⟩, fun rest hr => by cases hr; exact hp.faithful _ hs (.ok pid),
        fun hw => absurd hw (walks (by simp only [runsProgram, hs])), nofun⟩
  | fork pid hs =>
      exact ⟨fun _ => .inl ⟨_, rfl⟩,
        fun rest hr => by cases hr; exact (hp.faithful _ hs).2 (.ok pid),
        fun hw => absurd hw (walks (by simp only [runsProgram, hs])), nofun⟩
  | wait raw hs =>
      exact ⟨fun _ => .inl ⟨_, rfl⟩,
        fun rest hr => by cases hr; exact Walk.faithful_afterWait (hp.faithful _ hs _),
        fun hw => absurd hw (walks (by simp only [runsProgram, hs])), nofun⟩
  | prepare hs _ =>
      have hshell := hp.not_shell (by simp [hs]) (by simp [hs]) (by simp [hs])
      exact ⟨fun he => absurd he (Bool.eq_false_iff.mp hshell), nofun, fun _ => rfl,
        fun _ => hp.idle (.inl (by simp only [runsProgram, hs]))⟩
  | prepared hs _ hstage =>
      have hshell := hp.not_shell (by simp [hs]) (by simp [hs]) (by simp [hs])
      have hown := hp.idle (.inl (by simp only [runsProgram, hs]))
      rcases hstage with rfl | rfl <;>
        exact ⟨fun he => absurd he (Bool.eq_false_iff.mp hshell), nofun, fun _ => rfl, fun _ => hown⟩
  | leave hs _ =>
      exact ⟨fun _ => .inr (.inl ⟨_, rfl⟩), nofun,
        fun hw => absurd hw (walks (by simp only [runsProgram, hs])), nofun⟩
  | quit hs => exact ⟨fun _ => .inr (.inr rfl), nofun, fun hw => absurd hw (walks hs), nofun⟩
  | away hs =>
      have program : a.runsProgram = true := by
        rcases hs with ⟨c, hs⟩ | hs <;> simp only [runsProgram, hs]
      have hshell : a.isShell = false := by
        rcases hs with ⟨c, hs⟩ | hs <;> exact hp.not_shell (by simp [hs]) (by simp [hs]) (by simp [hs])
      exact ⟨fun he => absurd he (Bool.eq_false_iff.mp hshell), nofun, fun _ => rfl,
        fun _ => hp.idle (.inl program)⟩

namespace Watch

/-- Machine and accounts fit together, and so do what is claimed of all
accounts and what is claimed of the accounts of the living and their
views. -/
structure Holds (result : Except ExecError Int → ρ) (A : Account → Prop)
    (P : Account → View → Prop) (w : Watch ρ) : Prop where
  sound : w.machine.Sound
  known : ∀ p a, w.accounts p = some a → p < w.machine.nextPid
  proper : ∀ p a, w.accounts p = some a → a.Proper
  drives : ∀ s ∈ w.machine.slots, s.alive → ∀ a, w.accounts s.process.pid = some a →
    a.Drives result s
  all : ∀ p a, w.accounts p = some a → A a
  living : ∀ s ∈ w.machine.slots, s.alive → ∀ a, w.accounts s.process.pid = some a →
    P a ⟨s.process, w.machine.world⟩

variable {A : Account → Prop} {P : Account → View → Prop} {programs : Installed ρ}
  {w w' : Watch ρ} {s : Slot ρ} {m : Machine ρ}

/-- The next process has no account yet. -/
theorem Holds.nextPid_new (h : w.Holds result A P) : w.accounts w.machine.nextPid = none :=
  Option.eq_none_iff_forall_ne_some.mpr fun a ha => Nat.lt_irrefl _ (h.known _ a ha)

/-- Which accounts there are after a move: that of the process that moved,
that of a process it started, and those of the others. -/
theorem accounts_moved {p : Pid} {a : Account} (h : (w.moved s m).accounts p = some a) :
    (p = s.process.pid ∧ ∃ b, w.accounts p = some b ∧ a = b.after w.machine s) ∨
    (p ≠ s.process.pid ∧ p = w.machine.nextPid ∧
      ∃ b, w.accounts s.process.pid = some b ∧ b.child? = some a) ∨
    (p ≠ s.process.pid ∧ p ≠ w.machine.nextPid ∧ w.accounts p = some a) := by
  simp only [moved] at h
  split at h
  · next hp =>
    obtain ⟨b, hb, rfl⟩ := Option.map_eq_some_iff.mp h
    exact .inl ⟨hp, b, hb, rfl⟩
  · next hp =>
    split at h
    · next hn => exact .inr (.inl ⟨hp, hn, Option.bind_eq_some_iff.mp h⟩)
    · next hn => exact .inr (.inr ⟨hp, hn, h⟩)

section

variable (hprograms : ∀ name args, (programs name args).Respects .onward)
  (hI : Account.Invariant A P)
include hprograms hI

theorem Holds.move (h : w.Holds result A P) (hs : s ∈ w.machine.slots)
    (hm : w.machine.move programs s = some m) : (w.moved s m).Holds result A P := by
  have halive := Machine.alive_of_move hm
  have hbound := (h.sound.bounds s hs).2
  have world := h.sound.move_world hprograms hs hm
  have turns : ∀ b, w.accounts s.process.pid = some b →
      Machine.Turns result w.machine s b m := fun b hb =>
    Machine.turns_of_move hprograms (h.proper _ b hb) (h.drives s hs halive b hb) hbound world hm
  have born : ∀ b child, w.accounts s.process.pid = some b → b.child? = some child →
      child.Proper ∧ ∃ prog next, s.life = .running (.fork prog next) ∧
        m = w.machine.answerFork s prog next ∧ child.Drives result (w.machine.born s prog) :=
    fun b child hb hc => Machine.born_of_move (h.proper _ b hb) (h.drives s hs halive b hb) hc hm
  have copies : ∀ prog, View.Copies ⟨s.process, w.machine.world⟩
      ⟨(w.machine.born s prog).process, w.machine.world⟩ := fun prog => ⟨⟨_, _, rfl⟩, rfl⟩
  have here : ∀ b, w.accounts s.process.pid = some b → A b ∧ P b ⟨s.process, w.machine.world⟩ :=
    fun b hb => ⟨h.all _ b hb, h.living s hs halive b hb⟩
  refine ⟨h.sound.move hs hprograms hm, ?_, ?_, ?_, ?_, ?_⟩
  · intro p a ha
    rcases accounts_moved ha with ⟨rfl, -⟩ | ⟨-, rfl, b, hb, hc⟩ | ⟨-, -, ha⟩
    · exact Nat.lt_of_lt_of_le hbound (h.sound.move_nextPid hprograms hs hm)
    · obtain ⟨-, prog, next, -, rfl, -⟩ := born b a hb hc
      exact Nat.lt_succ_self _
    · exact Nat.lt_of_lt_of_le (h.known p a ha) (h.sound.move_nextPid hprograms hs hm)
  · intro p a ha
    rcases accounts_moved ha with ⟨rfl, b, hb, rfl⟩ | ⟨-, rfl, b, hb, hc⟩ | ⟨-, -, ha⟩
    · obtain ⟨⟨v', hturn⟩, -⟩ := turns b hb
      exact hturn.proper (h.proper _ b hb)
    · exact (born b a hb hc).1
    · exact h.proper p a ha
  · intro t' ht' halive' a ha
    rcases accounts_moved ha with ⟨hp, b, hb, rfl⟩ | ⟨hp, hn, b, hb, hc⟩ | ⟨hp, hn, ha⟩
    · obtain ⟨-, hturns⟩ := turns b (hp ▸ hb)
      obtain ⟨-, -, -, hd⟩ := hturns t' ht' hp halive'
      exact hd
    · obtain ⟨child, next, hl, rfl, rfl⟩ := h.sound.move_new hprograms hs hm ht' hn
      obtain ⟨-, prog, next', hl', -, hd⟩ := born b a hb hc
      rw [hl] at hl'
      cases hl'
      exact hd
    · obtain ⟨t, ht, hut⟩ := h.sound.move_others hprograms hs hm ht' hp hn halive'
      rw [hut.pid] at ha
      obtain ⟨htodo, hprep, hquit⟩ := h.drives t ht (hut.alive ▸ halive') a ha
      exact ⟨fun todo htd => by rw [hut.life]; exact htodo todo htd,
        fun c hc => by rw [hut.life]; exact hprep c hc,
        fun hq => by rw [hut.life]; exact hquit hq⟩
  · intro p a ha
    rcases accounts_moved ha with ⟨rfl, b, hb, rfl⟩ | ⟨-, rfl, b, hb, hc⟩ | ⟨-, -, ha⟩
    · obtain ⟨⟨v', hturn⟩, -⟩ := turns b hb
      exact (hI.turn (here b hb).1 (here b hb).2 hturn).1
    · obtain ⟨-, prog, -⟩ := born b a hb hc
      exact (hI.birth (here b hb).1 (here b hb).2 hc (copies prog)).1
    · exact h.all p a ha
  · intro t' ht' halive' a ha
    rcases accounts_moved ha with ⟨hp, b, hb, rfl⟩ | ⟨hp, hn, b, hb, hc⟩ | ⟨hp, hn, ha⟩
    · have hb : w.accounts s.process.pid = some b := hp ▸ hb
      obtain ⟨-, hturns⟩ := turns b hb
      obtain ⟨v', hturn, hmean, -⟩ := hturns t' ht' hp halive'
      exact hI.meanwhile (hI.turn (here b hb).1 (here b hb).2 hturn).2 hmean
    · obtain ⟨child, next, hl, rfl, rfl⟩ := h.sound.move_new hprograms hs hm ht' hn
      exact (hI.birth (here b hb).1 (here b hb).2 hc (copies child)).2
    · obtain ⟨t, ht, hut⟩ := h.sound.move_others hprograms hs hm ht' hp hn halive'
      rw [hut.pid] at ha
      exact hI.meanwhile (h.living t ht (hut.alive ▸ halive') a ha) (hut.meanwhile world)

/-- What holds of the living, their accounts and what they are about to do. -/
def Living (J : Account → Slot ρ → Prop) (w : Watch ρ) : Prop :=
  ∀ s ∈ w.machine.slots, s.alive → ∀ a, w.accounts s.process.pid = some a → J a s

omit hI in
/-- It goes on if it does for the process that moves and for one that it starts,
and does not look at what others change. -/
theorem Living.moved {J : Account → Slot ρ → Prop} (h : w.Living J) (hw : w.Holds result A P)
    (hs : s ∈ w.machine.slots) (hm : w.machine.move programs s = some m)
    (hothers : ∀ {a t t'}, t.Undisturbed t' → J a t → J a t')
    (hmover : ∀ a, w.accounts s.process.pid = some a → J a s →
      ∀ t' ∈ m.slots, t'.process.pid = s.process.pid → t'.alive → J (a.after w.machine s) t')
    (hborn : ∀ a b, w.accounts s.process.pid = some a → a.child? = some b →
      ∀ t' ∈ m.slots, t'.process.pid = w.machine.nextPid → J b t') : (w.moved s m).Living J := by
  intro t' ht' halive a ha
  rcases accounts_moved ha with ⟨hp, b, hb, rfl⟩ | ⟨-, hn, b, hb, hc⟩ | ⟨hp, hn, ha⟩
  · have hb := hp ▸ hb
    exact hmover b hb (h s hs (Machine.alive_of_move hm) b hb) t' ht' hp halive
  · exact hborn b a hb hc t' ht' hn
  · obtain ⟨t, ht, hut⟩ := hw.sound.move_others hprograms hs hm ht' hp hn halive
    rw [hut.pid] at ha
    exact hothers hut (h t ht (hut.alive ▸ halive) a ha)

theorem Holds.step (h : w.Holds result A P) (hstep : Step programs w w') :
    w'.Holds result A P := by
  cases hstep with
  | move hs hm => exact h.move hprograms hI hs hm
  | pass clock =>
      exact ⟨⟨h.sound.bounds, h.sound.distinct, h.sound.content⟩, h.known, h.proper, h.drives,
        h.all, h.living⟩

/-- What holds at one time, and is preserved by turns, by starts of processes
and by what others do meanwhile, holds from then on. -/
theorem Holds.run (h : w.Holds result A P) (hrun : Run programs w w') : w'.Holds result A P := by
  induction hrun with
  | refl => exact h
  | tail _ hstep ih => exact ih.step hprograms hI hstep

omit hprograms hI in
/-- It holds where one process has an account, if it does of that process. -/
theorem holds_alone (hsound : m.Sound) (hs : s ∈ m.slots) {a : Account} (hproper : a.Proper)
    (hdrives : a.Drives result s) (hA : A a) (hP : P a ⟨s.process, m.world⟩) :
    (alone s.process.pid a m).Holds result A P := by
  have only : ∀ p b, (alone s.process.pid a m).accounts p = some b →
      p = s.process.pid ∧ b = a := fun p b hb => by
    simp only [alone] at hb
    split at hb
    · next hp => exact ⟨hp, (Option.some.inj hb).symm⟩
    · cases hb
  have here : ∀ t ∈ m.slots, ∀ b, (alone s.process.pid a m).accounts t.process.pid = some b →
      t = s ∧ b = a := fun t ht b hb => by
    obtain ⟨hp, rfl⟩ := only _ b hb
    exact ⟨hsound.eq_of_pid ht hs hp, rfl⟩
  refine ⟨hsound, fun p b hb => ?_, fun p b hb => ?_, fun t ht _ b hb => ?_, fun p b hb => ?_,
    fun t ht _ b hb => ?_⟩
  · obtain ⟨rfl, -⟩ := only p b hb
    exact (hsound.bounds s hs).2
  · obtain ⟨-, rfl⟩ := only p b hb
    exact hproper
  · obtain ⟨rfl, rfl⟩ := here t ht b hb
    exact hdrives
  · obtain ⟨-, rfl⟩ := only p b hb
    exact hA
  · obtain ⟨rfl, rfl⟩ := here t ht b hb
    exact hP

/-- What holds of the shell at the beginning and is preserved by turns, by
starts of processes and by what others do meanwhile, holds at all times. -/
theorem invariant {t : Tree} {depth : Nat} {parent : Option Operator}
    (hb : m.Begins result t depth parent)
    (hbegin : ∀ s ∈ m.slots, s.process.pid = Machine.mainPid → ∀ a,
      (begin t depth parent m).accounts Machine.mainPid = some a →
      A a ∧ P a ⟨s.process, m.world⟩)
    (hrun : Run programs (begin t depth parent m) w) : w.Holds result A P := by
  obtain ⟨s₀, hs₀, hpid₀, hl₀⟩ := hb.main
  have hbegins : begin t depth parent m = alone s₀.process.pid (.evaluator t depth parent) m := by
    rw [hpid₀]
    rfl
  obtain ⟨hA, hP⟩ := hbegin s₀ hs₀ hpid₀ (.evaluator t depth parent) rfl
  refine Holds.run hprograms hI ?_ hrun
  rw [hbegins]
  exact holds_alone hb.sound hs₀ (.evaluator _ _ _) (.evaluator hl₀) hA hP

end

-- ================================================================ results

end Watch

/-- Only a walk that is over has its result. -/
theorem Walk.result?_of_perform {w : Walk} {x : ρ}
    (h : w.perform (fun r => .ret (result r)) = .ret x) : ∃ r, w.result? = some r ∧ x = result r := by
  cases w with
  | done n =>
      cases h
      exact ⟨_, rfl, rfl⟩
  | failed e =>
      cases h
      exact ⟨_, rfl, rfl⟩
  | log | release => cases h
  | builtin q b c next => rw [perform_builtin] at h; cases h
  | launch q c next => cases h
  | fork q t d p w b next => cases h
  | channel q next => rw [perform_channel] at h; cases h
  | wait c next => rw [perform_wait] at h; cases h

namespace Watch

/-- Where the shell has a result, its walk is over with that result. -/
theorem Holds.returned {A : Account → Prop} {P : Account → View → Prop} {w : Watch ρ}
    (h : w.Holds result A P) {s : Slot ρ} (hs : s ∈ w.machine.slots) {x : ρ}
    (hl : s.life = .running (.ret x)) {a : Account} (ha : w.accounts s.process.pid = some a)
    (hshell : a.isShell = true) :
    ∃ rest r, a.stage = .walking rest ∧ rest.result? = some r ∧ x = result r := by
  have halive : s.alive := by simp only [Slot.alive, hl]
  have hd := h.drives s hs halive a ha
  rcases (h.proper _ a ha).shell hshell with ⟨rest, hstage⟩ | ⟨q, hstage⟩ | hstage
  · have hlife := hd.todo (rest.perform (a.finish result)) (by simp only [Account.todo?, hstage])
    rw [hl, Account.finish, if_pos hshell] at hlife
    obtain ⟨r, hr, hx⟩ := Walk.result?_of_perform (Life.running.inj hlife).symm
    exact ⟨rest, r, hstage, hr, hx⟩
  · have hlife := hd.todo (.exit (.exited 0)) (by simp only [Account.todo?, hstage])
    rw [hl] at hlife
    cases hlife
  · obtain ⟨todo, hlife, hquits⟩ := hd.quitting hstage
    rw [hl] at hlife
    cases hlife
    exact hquits.elim

-- ============================================================= schedules

/-- The watch after a move of the process with a number, or after some time,
which is nobody's number. -/
def turn? (programs : Installed ρ) (w : Watch ρ) : Pid → Option (Watch ρ)
  | 0 => some { w with machine := { w.machine with clock := w.machine.clock + Machine.loadTime } }
  | p => (w.machine.slots.find? (·.process.pid = p)).bind fun s =>
      (w.machine.move programs s).map (w.moved s)

theorem step_of_turn {p : Pid} (h : w.turn? programs p = some w') : Step programs w w' := by
  unfold turn? at h
  split at h
  · cases h
    exact .pass _
  · obtain ⟨s, hs, hmap⟩ := Option.bind_eq_some_iff.mp h
    obtain ⟨m, hm, rfl⟩ := Option.map_eq_some_iff.mp hmap
    exact .move (List.mem_of_find?_eq_some hs) hm

/-- Processes move in this order. -/
def play (programs : Installed ρ) : List Pid → Watch ρ → Option (Watch ρ)
  | [], w => some w
  | p :: ps, w => (w.turn? programs p).bind (play programs ps)

/-- What is played is a run. -/
theorem run_of_play {ps : List Pid} (h : w.play programs ps = some w') : Run programs w w' := by
  induction ps generalizing w with
  | nil =>
      cases h
      exact .refl
  | cons p ps ih =>
      obtain ⟨w₁, hturn, hrest⟩ := Option.bind_eq_some_iff.mp h
      exact .head (step_of_turn hturn) (ih hrest)

/-- A run in which something holds after each step. -/
def RunWhile (programs : Installed ρ) (good : Watch ρ → Prop) : Watch ρ → Watch ρ → Prop :=
  Relation.ReflTransGen fun w w' => Step programs w w' ∧ good w'

theorem Run.while (h : Run programs w w') : RunWhile programs (fun _ => True) w w' :=
  Relation.ReflTransGen.mono (fun _ _ hstep => ⟨hstep, trivial⟩) _ _ h

/-- Processes move in this order, and a check passes after each move. -/
def playWhile (good : Watch ρ → Bool) (programs : Installed ρ) :
    List Pid → Watch ρ → Option (Watch ρ)
  | [], w => some w
  | p :: ps, w => ((w.turn? programs p).filter good).bind (playWhile good programs ps)

theorem runWhile_of_play {good : Watch ρ → Bool} {ps : List Pid}
    (h : w.playWhile good programs ps = some w') :
    RunWhile programs (fun w => good w = true) w w' := by
  induction ps generalizing w with
  | nil =>
      cases h
      exact .refl
  | cons p ps ih =>
      obtain ⟨w₁, hfilter, hrest⟩ := Option.bind_eq_some_iff.mp h
      obtain ⟨hturn, hgood⟩ := Option.filter_eq_some_iff.mp hfilter
      exact .head ⟨step_of_turn hturn, hgood⟩ (ih hrest)

/-- Some process with an account passes a check after the moves. -/
def finds (programs : Installed ρ) (ps : List Pid) (check : Slot ρ → Account → Bool)
    (w : Watch ρ) : Bool :=
  (w.play programs ps).any fun w =>
    w.machine.slots.any fun s => (w.accounts s.process.pid).any fun a => check s a

theorem run_of_finds {ps : List Pid} {check : Slot ρ → Account → Bool}
    (h : w.finds programs ps check = true) : ∃ w', Run programs w w' ∧
      ∃ s ∈ w'.machine.slots, ∃ a, w'.accounts s.process.pid = some a ∧ check s a = true := by
  obtain ⟨w', hplay, hslot⟩ := (Option.any_eq_true _ _).mp h
  obtain ⟨s, hs, haccount⟩ := List.any_eq_true.mp hslot
  obtain ⟨a, ha, hcheck⟩ := (Option.any_eq_true _ _).mp haccount
  exact ⟨w', run_of_play hplay, s, hs, a, ha, hcheck⟩

end Watch

namespace Posix.Machine

/-- A machine with the shell alone, which is to execute a tree. -/
def executing (result : Except ExecError Int → ρ) (t : Tree) (v : View) : Machine ρ where
  world := v.world
  slots := [{ process := { v.process with pid := mainPid, parent := 0 },
              life := .running (t.perform fun r => .ret (result r)) }]
  nextPid := mainPid + 1

theorem executing_begins (result : Except ExecError Int → ρ) (t : Tree) (v : View) :
    (executing result t v).Begins result t 0 none where
  sound := by
    refine ⟨fun s hs => ?_, List.nodup_singleton _, fun s hs => ?_⟩
    · obtain rfl := List.mem_singleton.mp hs
      exact ⟨Nat.one_pos, Nat.lt_succ_self 1⟩
    · obtain rfl := List.mem_singleton.mp hs
      exact Walk.respects_perform _ _ fun _ => trivial
  main := ⟨_, List.mem_singleton_self _, rfl, rfl⟩

end Posix.Machine

/-- Programs that end at once, and well. -/
def Posix.endAtOnce : Installed ρ := fun _ _ => .exit (.exited 0)

theorem Posix.endAtOnce_respects (name : String) (args : List Bytes) :
    (endAtOnce name args : Prog ρ).Respects .onward := trivial

end LineShell
