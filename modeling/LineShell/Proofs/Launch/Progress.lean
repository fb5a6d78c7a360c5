/-
Every execution comes to an end, if its programs do.

# Fair runs

A fair run goes on without end, and in it whoever can move from some time
on does move some time. Nothing is said about when; processes that run
programs may take as long as they like, as long as each of them ends.

# The argument

A process that takes a walk can always move, but for one request: it waits
for a child (`Drives.asks`). What it waits for is a child of its own
(`Attended`), which was started for a program or for a smaller tree. So by
induction on the tree the child ends some time, from then on the wait can
be answered, and so it is (`Fair.moves`). Each move leaves less of what the
process has to do, and the second induction is on that
(`Fair.stops_from`).
-/
import LineShell.Proofs.Launch.Attended

namespace LineShell

open Posix

variable {ρ : Type} {result : Except ExecError Int → ρ}

/-- What is left to do after a request was answered. -/
inductive Posix.Prog.Next : Prog ρ → Prog ρ → Prop where
  | step (act : View → View) (next : View → Prog ρ) (v : View) : Next (.step act next) (next v)
  | fork (child : Prog ρ) (next : Pid → Prog ρ) (pid : Pid) : Next (.fork child next) (next pid)
  | wait (child : Int) (next : Except Errno (Pid × Ending) → Prog ρ)
      (raw : Except Errno (Pid × Ending)) : Next (.wait child next) (next raw)

/-- What is left to do becomes less with each answer. -/
theorem Posix.Prog.acc_next (todo : Prog ρ) : Acc (fun todo' todo => todo.Next todo') todo := by
  induction todo with
  | ret | exit | read | write | kill | sleep | exec => exact ⟨_, fun _ h => by cases h⟩
  | step act next ih | fork child next _ ih | wait child next ih =>
      refine ⟨_, fun _ h => ?_⟩
      cases h
      exact ih _

namespace Watch

variable {A : Account → Prop} {P : Account → View → Prop} {programs : Installed ρ}
  {w w' : Watch ρ} {p : Pid} {a : Account} {todo : Prog ρ}

/-- The process has an account, and is at a request. -/
def At (w : Watch ρ) (p : Pid) (a : Account) (todo : Prog ρ) : Prop :=
  w.accounts p = some a ∧ ∃ s ∈ w.machine.slots, s.process.pid = p ∧ s.life = .running todo

/-- The process is dead, or it rests with its result. -/
def Stopped (w : Watch ρ) (p : Pid) : Prop :=
  ¬w.machine.Lives p ∨ ∃ s ∈ w.machine.slots, s.process.pid = p ∧ ∃ x, s.life = .running (.ret x)

/-- The process is able to move. -/
def CanMove (programs : Installed ρ) (w : Watch ρ) (p : Pid) : Prop :=
  ∃ s ∈ w.machine.slots, s.process.pid = p ∧ (w.machine.move programs s).isSome

/-- The process moves, and nobody else does. -/
def Moves (programs : Installed ρ) (w : Watch ρ) (p : Pid) (w' : Watch ρ) : Prop :=
  ∃ s ∈ w.machine.slots, s.process.pid = p ∧
    ∃ m, w.machine.move programs s = some m ∧ w' = w.moved s m

/-- An endless run, in which whoever can move from some time on moves some
time. -/
structure Fair (programs : Installed ρ) (f : Nat → Watch ρ) : Prop where
  step : ∀ n, Step programs (f n) (f (n + 1))
  fair : ∀ n p, (∀ k, n ≤ k → (f k).CanMove programs p) →
    ∃ k, n ≤ k ∧ (f k).Moves programs p (f (k + 1))

-- ================================================================= requests

/-- Whoever does not move is where it was, if it lives. -/
theorem At.rests (hprograms : ∀ name args, (programs name args).Respects .onward)
    (hw : w.Holds result A P) (h : w.At p a todo) (hstep : Step programs w w') :
    w.Moves programs p w' ∨ ¬w'.machine.Lives p ∨ w'.At p a todo := by
  obtain ⟨ha, s, hs, rfl, hl⟩ := h
  cases hstep with
  | pass clock => exact .inr (.inr ⟨ha, s, hs, rfl, hl⟩)
  | @move t m ht hm =>
      by_cases hp : s.process.pid = t.process.pid
      · exact .inl ⟨t, ht, hp.symm, m, hm, rfl⟩
      refine .inr (Classical.or_iff_not_imp_left.mpr fun hlives => ?_)
      obtain ⟨s', hs', hpid, halive⟩ := Classical.not_not.mp hlives
      have hnew : s.process.pid ≠ w.machine.nextPid := Nat.ne_of_lt (hw.sound.bounds s hs).2
      obtain ⟨u, hu, hus⟩ := hw.sound.move_others hprograms ht hm hs' (hpid ▸ hp) (hpid ▸ hnew) halive
      obtain rfl := hw.sound.eq_of_pid hu hs (hus.pid ▸ hpid)
      refine ⟨?_, s', hs', hpid, hus.life.trans hl⟩
      simp only [moved, hp, hnew, if_false, ha]

/-- After a move the process is dead or at what comes next. -/
theorem At.moved (hw : w.Holds result A P) (h : w.At p a todo) (hasks : a.Asks todo) (hmoves : w.Moves programs p w') :
    ¬w'.machine.Lives p ∨ ∃ a' todo', todo.Next todo' ∧ a'.tree = a.tree ∧ w'.At p a' todo' := by
  obtain ⟨ha, s, hs, rfl, hl⟩ := h
  obtain ⟨t, ht, hpid, m, hm, rfl⟩ := hmoves
  obtain rfl := hw.sound.eq_of_pid ht hs hpid
  have hcontent := hw.sound.content t ht
  rw [hl] at hcontent
  refine Classical.or_iff_not_imp_left.mpr fun hlives => ?_
  obtain ⟨s', hs', hp, halive⟩ := Classical.not_not.mp hlives
  have next : ∀ todo', todo.Next todo' → s'.life = .running todo' → ∃ a' todo', todo.Next todo' ∧
      a'.tree = a.tree ∧ (w.moved t m).At t.process.pid a' todo' := fun todo' hnext hlife => by
    refine ⟨a.after w.machine t, todo', hnext, by rw [a.after_same], ?_, s', hs', hp, hlife⟩
    simp only [Watch.moved, if_true, ha, Option.map_some]
  cases hasks with
  | ret x =>
      rw [Machine.move_ret hl] at hm
      cases hm
  | exit how =>
      rw [Machine.move_exit hl] at hm
      cases hm
      exact absurd hp (Machine.mem_terminate hs' halive).1
  | step act k =>
      rw [Machine.move_step hl] at hm
      cases hm
      obtain rfl := Machine.mem_resume (hcontent.1 _).pid hs' hp
      exact next _ (.step act k _) rfl
  | fork child k =>
      rw [Machine.move_fork hl] at hm
      cases hm
      obtain rfl := Machine.mem_answerFork (hw.sound.bounds t ht).2 hs' hp
      exact next _ (.fork child k _) rfl
  | wait k =>
      rw [Machine.move_wait hl] at hm
      obtain ⟨raw, -, rfl⟩ := Machine.mem_answerWait hm hs' hp
      exact next _ (.wait _ k raw) rfl

variable (programs p) in
/-- Only who waits or rests may be unable to move. -/
theorem canMove_of_asks (hasks : a.Asks todo) : (∃ x, todo = .ret x) ∨
    (∃ c next next', a.stage = .walking (.wait c next') ∧ todo = .wait c next) ∨
    ∀ w : Watch ρ, w.At p a todo → w.CanMove programs p := by
  have can : (∀ (m : Machine ρ) s, s.life = .running todo → (m.move programs s).isSome) →
      ∀ w : Watch ρ, w.At p a todo → w.CanMove programs p := fun hm w hat => by
    obtain ⟨-, s, hs, hp, hl⟩ := hat
    exact ⟨s, hs, hp, hm w.machine s hl⟩
  cases hasks with
  | ret x => exact .inl ⟨x, rfl⟩
  | exit how => exact .inr (.inr (can fun m s hl => by rw [Machine.move_exit hl]; rfl))
  | step act k => exact .inr (.inr (can fun m s hl => by rw [Machine.move_step hl]; rfl))
  | fork child k => exact .inr (.inr (can fun m s hl => by rw [Machine.move_fork hl]; rfl))
  | wait k hstage => exact .inr (.inl ⟨_, k, _, hstage, rfl⟩)

-- ================================================================== runs

section

variable {f : Nat → Watch ρ} (hf : Fair programs f)
  (hprograms : ∀ name args, (programs name args).Respects .onward) {t : Tree} {depth : Nat}
  {parent : Option Operator} {m : Machine ρ} (hb : m.Begins result t depth parent)
  (hrun : Run programs (begin t depth parent m) (f 0))
include hf hrun

/-- An endless run is a run, at each time. -/
theorem Fair.run (n : Nat) : Run programs (begin t depth parent m) (f n) := by
  induction n with
  | zero => exact hrun
  | succ n ih => exact .tail ih (hf.step n)

include hprograms hb

/-- Accounts are kept for ever. -/
theorem Fair.account {n k : Nat} (hk : n ≤ k) (ha : (f n).accounts p = some a) :
    ∃ a', (f k).accounts p = some a' ∧ a.Continues a' := by
  induction hk with
  | refl => exact ⟨a, ha, .refl a⟩
  | @step k _ ih =>
      obtain ⟨b, hb', hcont⟩ := ih
      have hnew := (holds_placed hprograms hb (hf.run hrun k)).nextPid_new
      have hstep := hf.step k
      generalize f (k + 1) = w' at hstep ⊢
      cases hstep with
      | pass clock => exact ⟨b, hb', hcont⟩
      | move hs hm =>
          obtain ⟨a', ha', hcont', -⟩ := account_after hnew hb'
          exact ⟨a', ha', hcont.trans hcont'⟩

/-- The dead stay dead. -/
theorem Fair.dead {n k : Nat} (hk : n ≤ k) (ha : (f n).accounts p = some a)
    (hdead : ¬(f n).machine.Lives p) : ¬(f k).machine.Lives p := by
  induction hk with
  | refl => exact hdead
  | @step k hk ih =>
      have holds := holds_placed hprograms hb (hf.run hrun k)
      obtain ⟨b, hb', -⟩ := hf.account hprograms hb hrun hk ha
      have hstep := hf.step k
      generalize f (k + 1) = w' at hstep ⊢
      cases hstep with
      | pass clock => exact ih
      | move hs hm =>
          intro hlives
          rcases holds.sound.lives_before hprograms hs hm hlives with hlives | rfl
          · exact ih hlives
          · rw [holds.nextPid_new] at hb'
            cases hb'

/-- Who is able to move from some time on for as long as it is at its request
moves from there some time, if it does not die. -/
theorem Fair.moves {n : Nat} (n' : Nat) (hat : (f n).At p a todo)
    (hcan : ∀ k, n ≤ k → n' ≤ k → (f k).At p a todo → (f k).CanMove programs p) :
    ∃ k, n ≤ k ∧ (¬(f k).machine.Lives p ∨
      ((f k).At p a todo ∧ (f k).Moves programs p (f (k + 1)))) := by
  refine Classical.byContradiction fun hnever => ?_
  have rests : ∀ k, n ≤ k → (f k).At p a todo := fun k hk => by
    induction hk with
    | refl => exact hat
    | @step k hk ih =>
        have holds := holds_placed hprograms hb (hf.run hrun k)
        rcases ih.rests hprograms holds (hf.step k) with hmoves | hdead | hat
        · exact absurd ⟨k, hk, .inr ⟨ih, hmoves⟩⟩ hnever
        · exact absurd ⟨k + 1, Nat.le_succ_of_le hk, .inl hdead⟩ hnever
        · exact hat
  obtain ⟨k, hk, hmoves⟩ := hf.fair (max n n') p fun k hk =>
    hcan k (Nat.le_trans (Nat.le_max_left n n') hk) (Nat.le_trans (Nat.le_max_right n n') hk)
      (rests k (Nat.le_trans (Nat.le_max_left n n') hk))
  have hnk := Nat.le_trans (Nat.le_max_left n n') hk
  exact hnever ⟨k, hnk, .inr ⟨rests k hnk, hmoves⟩⟩

variable (hends : ∀ n p a, (f n).accounts p = some a → a.runsProgram = true →
  ∃ k, n ≤ k ∧ ¬(f k).machine.Lives p)
include hends

/-- A child that stops is dead: nobody but the shell rests with a result. -/
theorem Fair.dead_of_stopped {n : Nat} (ha : (f n).accounts p = some a) (hshell : a.isShell = false)
    (h : (f n).Stopped p) : ∃ k, n ≤ k ∧ ¬(f k).machine.Lives p := by
  rcases h with hdead | ⟨s, hs, rfl, x, hl⟩
  · exact ⟨n, Nat.le_refl n, hdead⟩
  cases hprogram : a.runsProgram with
  | true => exact hends n _ a ha hprogram
  | false =>
      have holds := holds_placed hprograms hb (hf.run hrun n)
      obtain ⟨todo, hlife, hasks⟩ :=
        (holds.drives s hs (by simp only [Slot.alive, hl]) a ha).asks hprogram
      rw [hl] at hlife
      cases hlife
      cases hasks with
      | ret _ hret =>
          rw [hshell] at hret
          cases hret

variable {size : Nat} (smaller : ∀ n c b, (f n).accounts c = some b → sizeOf b.tree < size →
  ∃ k, n ≤ k ∧ (f k).Stopped c)
include smaller

/-- Who waits can be answered from some time on. -/
theorem Fair.answered {n : Nat} {c : Child} {next' : Except ExecError Ending → Walk}
    {next : Except Errno (Pid × Ending) → Prog ρ} (hat : (f n).At p a (.wait c next))
    (hstage : a.stage = .walking (.wait c next')) (hsize : sizeOf a.tree ≤ size) :
    ∃ n', ∀ k, n ≤ k → n' ≤ k → (f k).At p a (.wait c next) → (f k).CanMove programs p := by
  have owed : ∀ k, (f k).At p a (.wait c next) → (f k).machine.HasChild p c ∧
      ∃ b, (f k).accounts c = some b ∧ a.Serves b := fun k hat => by
    obtain ⟨ha, s, hs, hp, hl⟩ := hat
    have attended := attended_of_run hprograms hb (hf.run hrun k)
    obtain ⟨owed, hattends⟩ := attended.living ha ⟨s, hs, hp, by simp only [Slot.alive, hl]⟩
    obtain ⟨-, ⟨hmem, -⟩, -⟩ := hattends.stands.rest hstage (.error (.wait .EINVAL))
    exact hattends.child c hmem
  -- the child dies some time
  obtain ⟨-, b, hbacc, hserves⟩ := owed n hat
  obtain ⟨k₁, hk₁, hdead⟩ : ∃ k, n ≤ k ∧ ¬(f k).machine.Lives c := by
    cases hprogram : b.runsProgram with
    | true => exact hends n c b hbacc hprogram
    | false =>
        have hwalks : b.walks = true := by
          cases hw : b.walks with
          | true => rfl
          | false =>
              have holds := holds_placed hprograms hb (hf.run hrun n)
              rw [(holds.proper c b hbacc).program hw] at hprogram
              cases hprogram
        obtain ⟨k, hk, hstopped⟩ :=
          smaller n c b hbacc (Nat.lt_of_lt_of_le (hserves.smaller hwalks) hsize)
        obtain ⟨b', hb', hcont⟩ := hf.account hprograms hb hrun hk hbacc
        have hshell : b'.isShell = false := by
          rw [hcont.same]
          exact hserves.shell
        obtain ⟨k', hk', hdead⟩ := hf.dead_of_stopped hprograms hb hrun hends hb' hshell hstopped
        exact ⟨k', Nat.le_trans hk hk', hdead⟩
  refine ⟨k₁, fun k _ hk hat => ?_⟩
  have holds := holds_placed hprograms hb (hf.run hrun k)
  obtain ⟨b', hb', -⟩ := hf.account hprograms hb hrun hk₁ hbacc
  have hdead := hf.dead hprograms hb hrun hk hb' hdead
  obtain ⟨hchild, -⟩ := owed k hat
  obtain ⟨-, s, hs, rfl, hl⟩ := hat
  obtain ⟨how, hended⟩ := hchild.lives_or_ended.resolve_left hdead
  refine ⟨s, hs, rfl, ?_⟩
  rw [Machine.move_wait hl, Machine.answerWait, holds.sound.waitResult_of_ended hended]
  rfl

/-- The second induction: on what the process has to do. -/
theorem Fair.stops_from {n : Nat} (hat : (f n).At p a todo) (hsize : sizeOf a.tree ≤ size) :
    ∃ k, n ≤ k ∧ (f k).Stopped p := by
  induction Prog.acc_next todo generalizing n a with
  | intro todo _ ih =>
      cases hprogram : a.runsProgram with
      | true =>
          obtain ⟨k, hk, hdead⟩ := hends n p a hat.1 hprogram
          exact ⟨k, hk, .inl hdead⟩
      | false =>
          have hasks : a.Asks todo := by
            obtain ⟨ha, s, hs, rfl, hl⟩ := hat
            have holds := holds_placed hprograms hb (hf.run hrun n)
            obtain ⟨todo', hlife, hasks⟩ :=
              (holds.drives s hs (by simp only [Slot.alive, hl]) a ha).asks hprogram
            rw [hl] at hlife
            cases hlife
            exact hasks
          -- it moves on from its request, unless it rests
          have hmoves : (∃ x, todo = .ret x) ∨ ∃ k, n ≤ k ∧ (¬(f k).machine.Lives p ∨
              ((f k).At p a todo ∧ (f k).Moves programs p (f (k + 1)))) := by
            rcases canMove_of_asks programs p hasks with
              hret | ⟨c, next, next', hstage, rfl⟩ | hcan
            · exact .inl hret
            · obtain ⟨n', hcan⟩ :=
                hf.answered hprograms hb hrun hends smaller hat hstage hsize
              exact .inr (hf.moves hprograms hb hrun n' hat hcan)
            · exact .inr (hf.moves hprograms hb hrun n hat fun k _ _ => hcan (f k))
          rcases hmoves with ⟨x, rfl⟩ | ⟨k, hk, hdead | ⟨hat', hmoves⟩⟩
          · obtain ⟨-, s, hs, hp, hl⟩ := hat
            exact ⟨n, Nat.le_refl n, .inr ⟨s, hs, hp, x, hl⟩⟩
          · exact ⟨k, hk, .inl hdead⟩
          · have holds := holds_placed hprograms hb (hf.run hrun k)
            rcases hat'.moved holds hasks hmoves with hdead | ⟨a', todo', hnext, htree, hat''⟩
            · exact ⟨k + 1, Nat.le_succ_of_le hk, .inl hdead⟩
            · obtain ⟨k', hk', hstopped⟩ := ih todo' hnext hat'' (htree ▸ hsize)
              exact ⟨k', Nat.le_trans (Nat.le_succ_of_le hk) hk', hstopped⟩

omit smaller in
/-- The first induction: on the trees. Every process of a fair run stops some
time, if those that run programs die. -/
theorem Fair.stops {n : Nat} (ha : (f n).accounts p = some a) :
    ∃ k, n ≤ k ∧ (f k).Stopped p := by
  induction hsize : sizeOf a.tree using Nat.strongRecOn generalizing n p a with
  | ind size ih =>
      cases hprogram : a.runsProgram with
      | true =>
          obtain ⟨k, hk, hdead⟩ := hends n p a ha hprogram
          exact ⟨k, hk, .inl hdead⟩
      | false =>
          by_cases hlives : (f n).machine.Lives p
          · obtain ⟨s, hs, rfl, halive⟩ := hlives
            have holds := holds_placed hprograms hb (hf.run hrun n)
            obtain ⟨todo, hl, -⟩ := (holds.drives s hs halive a ha).asks hprogram
            exact hf.stops_from hprograms hb hrun hends
              (fun n c b hb' hlt => ih _ hlt hb' rfl) ⟨ha, s, hs, rfl, hl⟩ (Nat.le_of_eq hsize)
          · exact ⟨n, Nat.le_refl n, .inl hlives⟩

end

/-- A fair run may begin one step earlier. -/
theorem Fair.cons {f : Nat → Watch ρ} (hf : Fair programs f) (hstep : Step programs w (f 0)) :
    Fair programs fun k => k.casesOn w f where
  step n := by
    cases n with
    | zero => exact hstep
    | succ n => exact hf.step n
  fair n p hcan := by
    obtain ⟨k, hk, hmoves⟩ := hf.fair n p fun k hk => hcan (k + 1) (Nat.le_succ_of_le hk)
    exact ⟨k + 1, Nat.le_succ_of_le hk, hmoves⟩

/-- What a run has led to may go on as a fair run. -/
theorem fair_after_run {g : Nat → Watch ρ} (hrun : Run programs w w') (hg : Fair programs g)
    (hfirst : g 0 = w') : ∃ f, Fair programs f ∧ f 0 = w ∧ ∃ k, ∀ n, f (k + n) = g n := by
  induction hrun using Relation.ReflTransGen.head_induction_on with
  | refl => exact ⟨g, hg, hfirst, 0, fun n => by rw [Nat.zero_add]⟩
  | head hstep _ ih =>
      obtain ⟨f, hf, rfl, k, hk⟩ := ih
      refine ⟨_, hf.cons hstep, rfl, k + 1, fun n => ?_⟩
      rw [Nat.add_right_comm]
      exact hk n

/-- A run to where nobody is able to move is part of a fair run, which stays
there. What holds all along the one holds all along the other. -/
theorem fair_of_runWhile {good : Watch ρ → Prop} (hrun : RunWhile programs good w w')
    (hgood : good w) (hrest : ∀ s ∈ w'.machine.slots, w'.machine.move programs s = none) :
    ∃ f, Fair programs f ∧ f 0 = w ∧ (∀ k, good (f k)) ∧ ∃ n, ∀ k, n ≤ k → f k = w' := by
  induction hrun using Relation.ReflTransGen.head_induction_on with
  | refl =>
      refine ⟨fun _ => w', ⟨fun _ => .pass w'.machine.clock, fun n p hcan => ?_⟩, rfl,
        fun _ => hgood, 0, fun _ _ => rfl⟩
      obtain ⟨s, hs, -, hm⟩ := hcan n (Nat.le_refl n)
      rw [hrest s hs] at hm
      cases hm
  | @head w w₁ hstep _ ih =>
      obtain ⟨f, hf, rfl, hall, n, hn⟩ := ih hstep.2
      refine ⟨_, hf.cons hstep.1, rfl, fun k => ?_, n + 1, fun k hk => ?_⟩
      · cases k with
        | zero => exact hgood
        | succ k => exact hall k
      · obtain ⟨k, rfl⟩ := Nat.exists_eq_add_of_lt (Nat.lt_of_lt_of_le (Nat.succ_pos n) hk)
        rw [Nat.zero_add] at hk ⊢
        exact hn k (Nat.le_of_succ_le_succ hk)

theorem fair_of_run (hrun : Run programs w w')
    (hrest : ∀ s ∈ w'.machine.slots, w'.machine.move programs s = none) :
    ∃ f, Fair programs f ∧ f 0 = w ∧ ∃ n, ∀ k, n ≤ k → f k = w' := by
  obtain ⟨f, hf, hfirst, -, hlast⟩ := fair_of_runWhile hrun.while trivial hrest
  exact ⟨f, hf, hfirst, hlast⟩

end Watch

end LineShell
