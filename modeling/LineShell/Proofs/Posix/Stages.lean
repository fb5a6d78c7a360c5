/-
What the main process goes through, one task after the other.

A task that acts, forks, waits and exits cannot tell what is to be done with its
value (`Task.Plain`). So it can be said what becomes of it on a machine without
saying what comes next: it comes to a value, and leaves the machine like that
(`Machine.Does`).

A process that has been at a task, and then at what was to be done with its
value, may be found at three stages (`Machine.Stage`): it is still at the task,
it has come to a value, or it has ended by then. Each step leads from a stage to
a stage, so a main process that has ended did so at the task, by an exit that is
in the task or because it was killed, or it came to a value before
(`Machine.Sound.ends_of_plain`).

What all acts of such a program keep of the descriptors is so in each of its
stages (`Machine.Sound.kept_of_run`).
-/
import LineShell.Proofs.Posix.Ended
import LineShell.Proofs.Posix.Varied

namespace LineShell.Posix

variable {ρ α β : Type} {Q : Ending → Prop}

-- ================================================================== tasks

namespace Task

/-- The task acts, forks and waits, and exits at most like that. -/
inductive Plain (Q : Ending → Prop) : Task ρ α → Prop where
  | pure (a : α) : Plain Q fun k => k a
  | exit {how : Ending} : Q (Machine.eightBits how) → Plain Q fun _ => .exit how
  | step {act : View → View} {next : View → Task ρ α} :
      (∀ v, Plain Q (next v)) → Plain Q fun k => .step act fun v => next v k
  | fork {child : Prog ρ} {next : Pid → Task ρ α} :
      (∀ pid, Plain Q (next pid)) → Plain Q fun k => .fork child fun pid => next pid k
  | wait {child : Int} {next : Except Errno (Pid × Ending) → Task ρ α} :
      (∀ r, Plain Q (next r)) → Plain Q fun k => .wait child fun r => next r k

variable {t : Task ρ α} {f : α → Task ρ β} {S : (View → View) → Prop}

theorem Plain.bind (ht : t.Plain Q) (hf : ∀ a, (f a).Plain Q) : Plain Q (t >>= f) := by
  induction ht with
  | pure a => exact hf a
  | exit hQ => exact .exit hQ
  | step _ ih => exact .step ih
  | fork _ ih => exact .fork ih
  | wait _ ih => exact .wait ih

theorem Plain.mono {Q' : Ending → Prop} (h : t.Plain Q) (hQ : ∀ how, Q how → Q' how) :
    t.Plain Q' := by
  induction h with
  | pure a => exact .pure a
  | exit h => exact .exit (hQ _ h)
  | step _ ih => exact .step ih
  | fork _ ih => exact .fork ih
  | wait _ ih => exact .wait ih

theorem plain_modify (act : View → View) : Plain Q (modify act : Task ρ Unit) :=
  .step fun _ => .pure ()

theorem plain_act (f : View → α × View) : Plain Q (act f : Task ρ α) := .step fun _ => .pure _

theorem plain_fork (child : Prog ρ) : Plain Q (fork child : Task ρ Pid) := .fork .pure

theorem plain_wait (child : Int) :
    Plain Q (wait child : Task ρ (Except Errno (Pid × Ending))) := .wait .pure

/-- Programs that go on from such a task track each other if they do so after it. -/
theorem Plain.tracks {R : Prog ρ → Prog ρ → Prop} {k k' : α → Prog ρ} (h : t.Plain Q)
    (hk : ∀ a, (k a).Tracks S R (k' a)) : (t k).Tracks S R (t k') := by
  induction h with
  | pure a => exact hk a
  | exit _ => exact .exit _
  | step _ ih => exact .step fun v => ih v
  | fork _ ih => exact .fork fun pid => ih pid
  | wait _ ih => exact .wait fun r => ih r

end Task

/-- The program acts, forks, waits and exits, and its acts keep what is known of descriptors. -/
inductive Prog.Keeps (P : FdTable → Prop) : Prog ρ → Prop where
  | exit (how : Ending) : Keeps P (.exit how)
  | step {act : View → View} {next : View → Prog ρ} :
      (∀ v, P v.process.fds → P (act v).process.fds) → (∀ v, Keeps P (next v)) →
      Keeps P (.step act next)
  | fork {child : Prog ρ} {next : Pid → Prog ρ} : (∀ pid, Keeps P (next pid)) →
      Keeps P (.fork child next)
  | wait {child : Int} {next : Except Errno (Pid × Ending) → Prog ρ} : (∀ r, Keeps P (next r)) →
      Keeps P (.wait child next)

theorem Prog.Keeps.note {P : FdTable → Prop} {p : Prog ρ} (h : p.Keeps P) (level : Level)
    (text : String) : Prog.Keeps P (.step (View.note level text) fun _ => p) :=
  .step (fun _ hv => hv) fun _ => h

namespace Machine

variable {P : FdTable → Prop} {m m' n c : Machine ρ} {t : Task ρ α} {k : α → Prog ρ} {p : Prog ρ}
  {how : Ending} {programs : Installed ρ}

-- =================================================================== values

/-- The main process may do the task, come to that value, and leave the machine like
that, whatever it is to do then. -/
def Does (programs : Installed ρ) (m : Machine ρ) (t : Task ρ α) (a : α) (n : Machine ρ) : Prop :=
  ∀ k : α → Prog ρ, Run programs (m.doing (t k)) (n.doing (k a))

-- ================================================================== the dead

/-- Whoever has ended does not come back. -/
theorem Sound.not_lives_of_step (hprograms : ∀ name args, (programs name args).Respects .onward)
    (h : m.Sound) (hdead : ¬m.Lives mainPid) (hstep : Step programs m m') : ¬m'.Lives mainPid := by
  cases hstep with
  | pass clock => exact hdead
  | move s hs hm =>
      rintro ⟨t', ht', hpid, halive⟩
      refine hdead ?_
      by_cases hmover : s.process.pid = mainPid
      · exact ⟨s, hs, hmover, alive_of_move hm⟩
      · have hnew : t'.process.pid ≠ m.nextPid := hpid ▸ (h.nextPid_ne hs).symm
        obtain ⟨t, ht, hund⟩ :=
          h.move_others hprograms hs hm ht' (hpid ▸ Ne.symm hmover) hnew halive
        exact ⟨t, ht, hund.pid.symm.trans hpid, by rw [← halive, Slot.alive, Slot.alive, hund.life]⟩

/-- A main process that is found ended is dead. -/
theorem dead_of_standing (h : m.standing = .ended how) : m.Dead mainPid how := by
  unfold standing at h
  cases hmain : m.main? with
  | none =>
      rw [hmain] at h
      cases h
  | some s =>
      have hpid : s.process.pid = mainPid := by simpa using List.find?_some hmain
      refine ⟨s, List.mem_of_find?_eq_some hmain, hpid, ?_⟩
      rw [hmain] at h
      simp only [Option.map_some] at h
      split at h
      · cases h
      · next hl =>
        cases h
        exact Option.some.inj hl
      · cases h

/-- It does not matter what those are to do that are not there. -/
theorem doing_of_not_lives (h : ¬(m.doing p).Lives mainPid) (q : Prog ρ) :
    m.doing p = m.doing q := by
  refine eq_of_slots rfl rfl rfl (List.map_congr_left fun s hs => ?_)
  split
  · next hmain =>
    refine absurd ⟨_, List.mem_map.mpr ⟨s, hs, rfl⟩, ?_, ?_⟩ h
    · rw [if_pos hmain]
      exact hmain
    · rw [if_pos hmain]
      rfl
  · rfl

-- ================================================================== stages

/-- How far the main process has come that was given a task, and then something to
do with its value. -/
inductive Stage (Q : Ending → Prop) (programs : Installed ρ) (m : Machine ρ) (t : Task ρ α)
    (k : α → Prog ρ) : Machine ρ → Prop where
  /-- It is at the task. -/
  | within {c : Machine ρ} {u : Task ρ α} : u.Plain Q →
      (∀ k', Run programs (m.doing (t k')) (c.doing (u k'))) → Stage Q programs m t k (c.doing (u k))
  | beyond {c m' : Machine ρ} {a : α} : m.Does programs t a c → Run programs (c.doing (k a)) m' →
      Stage Q programs m t k m'
  /-- It has ended by then, and would have whatever was to come. -/
  | ended {m' : Machine ρ} : (∀ k', Run programs (m.doing (t k')) m') → ¬m'.Lives mainPid →
      (∀ how, m'.Dead mainPid how → Q how ∨ ∃ n, how = .signaled n) → Stage Q programs m t k m'

/-- A move of another process may at most end the main process. -/
theorem stage_of_other {u : Task ρ α} (hu : u.Plain Q)
    (hrun : ∀ k', Run programs (m.doing (t k')) (c.doing (u k'))) (hsound : (c.doing (u k)).Sound)
    {s : Slot ρ} (hs : s ∈ (c.doing (u k)).slots) (hne : s.process.pid ≠ mainPid)
    (hmove : (c.doing (u k)).move programs s = some m') : Stage Q programs m t k m' := by
  have both (k' : α → Prog ρ) : ∃ n', Run programs (m.doing (t k')) n' ∧
      Beside (u k) (u k') m' n' := by
    have moves : Option.Rel (Beside (u k) (u k')) ((c.doing (u k)).move programs s)
        ((c.doing (u k')).move programs s) :=
      move_doing hne (hsound.nextPid_ne hs) (hsound.content s hs)
    have hs' := (mem_doing_of_ne (p := u k') hne).mpr ((mem_doing_of_ne hne).mp hs)
    rw [hmove] at moves
    generalize hn' : (c.doing (u k')).move programs s = found at moves
    cases moves with
    | some hd => exact ⟨_, (hrun k').tail (.move s hs' hn'), hd⟩
  by_cases hlives : m'.Lives mainPid
  · -- then it has still the same to do
    have placed {k'} {n' : Machine ρ} (h : Beside (u k) (u k') m' n') :
        m' = m'.doing (u k) ∧ n' = m'.doing (u k') := by
      rcases h with ⟨n, rfl, rfl⟩ | ⟨-, hdead⟩
      · exact ⟨(doing_doing _ _ _).symm, (doing_doing _ _ _).symm⟩
      · exact absurd hlives hdead
    obtain ⟨n', -, hn'⟩ := both k
    rw [(placed hn').1]
    refine .within hu fun k' => ?_
    obtain ⟨n', hrun', hn'⟩ := both k'
    exact (placed hn').2 ▸ hrun'
  · refine .ended (fun k' => ?_) hlives fun how hdead => .inr ?_
    · obtain ⟨n', hrun', ⟨n, rfl, rfl⟩ | ⟨rfl, -⟩⟩ := both k'
      · rwa [doing_of_not_lives hlives (u k')]
      · exact hrun'
    · rcases dead_of_move hs hmove hdead with ⟨x, hx, hmain, hl⟩ | ⟨-, hends⟩
      · rw [(main_doing hx hmain (u k)).1] at hl
        cases hl
      · obtain ⟨n, -, -, rfl⟩ := hends.of_ne hne
        exact ⟨n, rfl⟩

/-- The main process's own moves are those of its task. -/
theorem stage_of_main {u : Task ρ α} (hu : u.Plain Q)
    (hrun : ∀ k', Run programs (m.doing (t k')) (c.doing (u k'))) (hsound : (c.doing (u k)).Sound)
    {s : Slot ρ} (hs : s ∈ (c.doing (u k)).slots) (hmain : s.process.pid = mainPid)
    (hmove : (c.doing (u k)).move programs s = some m') : Stage Q programs m t k m' := by
  obtain ⟨process, life⟩ := s
  obtain ⟨hlife, -⟩ := main_doing hs hmain (u k)
  cases hlife
  have there (k' : α → Prog ρ) := (main_doing hs hmain (u k')).2
  have hkeeps := hsound.content _ hs
  have moved {β : Type} {next : β → Task ρ α} (b : β) (hnext : (next b).Plain Q)
      (both : ∀ k', (c.doing (u k')).move programs ⟨process, .running (u k')⟩ =
        some (m'.doing (next b k'))) : Stage Q programs m t k m' := by
    have same := Option.some.inj (hmove.symm.trans (both k))
    rw [same]
    exact .within hnext fun k' => (hrun k').tail (.move _ (there k') (both k'))
  cases hu with
  | pure a => exact .beyond hrun (.single (.move _ hs hmove))
  | @exit how hQ =>
      cases hmove
      have gone {x : Slot ρ} (hx : x ∈ ((c.doing (.exit how)).terminate
          ⟨process, .running (.exit how)⟩ (eightBits how)).slots) (hpid : x.process.pid = mainPid) :=
        mem_terminate_self hx (hpid.trans hmain.symm)
      refine .ended (fun k' => (hrun k').tail (.move _ (there k') rfl)) ?_ ?_
      · rintro ⟨x, hx, hpid, halive⟩
        rw [Slot.alive, gone hx hpid] at halive
        cases halive
      · rintro how ⟨x, hx, hpid, hl⟩
        rw [gone hx hpid] at hl
        cases hl
        exact .inl hQ
  | step hnext =>
      obtain ⟨v, both⟩ := step_main hmain (hkeeps.1 _).pid hmove
      exact moved v (hnext v) fun k' => both _
  | fork hnext =>
      have hnew : c.nextPid ≠ mainPid := hsound.nextPid_ne hs
      obtain ⟨pid, both⟩ := fork_main hmain hnew hmove
      exact moved pid (hnext pid) fun k' => both _
  | wait hnext =>
      obtain ⟨r, both⟩ := wait_main hmain hmove
      exact moved r (hnext r) fun k' => both _

section

variable (hprograms : ∀ name args, (programs name args).Respects .onward)
include hprograms

theorem Stage.step (h : Stage Q programs m t k m') (hsound : m'.Sound)
    (hstep : Step programs m' n) : Stage Q programs m t k n := by
  cases h with
  | @within c u hu hrun =>
      cases hstep with
      | pass clock =>
          exact .within (c := { c with clock }) hu fun k' => (hrun k').tail (.pass clock)
      | move s hs hmove =>
          by_cases hmain : s.process.pid = mainPid
          · exact stage_of_main hu hrun hsound hs hmain hmove
          · exact stage_of_other hu hrun hsound hs hmain hmove
  | beyond hdoes hrun => exact .beyond hdoes (hrun.tail hstep)
  | ended hrun hlives hdead =>
      refine .ended (fun k' => (hrun k').tail hstep)
        (hsound.not_lives_of_step hprograms hlives hstep) fun how hdead' => hdead how ?_
      cases hstep with
      | pass clock => exact hdead'
      | move s hs hmove =>
          exact (dead_of_move hs hmove hdead').resolve_right fun h => hlives h.1

/-- Whenever the machine is looked at, the main process is at one of the stages. -/
theorem Sound.stage (h : (m.doing (t k)).Sound) (ht : t.Plain Q)
    (hrun : Run programs (m.doing (t k)) m') : Stage Q programs m t k m' := by
  induction hrun with
  | refl => exact .within ht fun k' => .refl
  | tail hrun hstep ih => exact ih.step hprograms (h.run hprograms hrun) hstep

/-- Where the main process has ended, it was at the task until then, or the task came
to a value before. -/
theorem Sound.ends_of_plain (h : (m.doing (t k)).Sound) (ht : t.Plain Q)
    (hrun : Run programs (m.doing (t k)) m') (hended : m'.standing = .ended how) :
    (∃ a n, m.Does programs t a n ∧ Run programs (n.doing (k a)) m') ∨
      ((∀ k', Run programs (m.doing (t k')) m') ∧ (Q how ∨ ∃ n, how = .signaled n)) := by
  cases h.stage hprograms ht hrun with
  | within _ _ => exact absurd hended (standing_doing_ne _ _ how)
  | beyond hdoes hrest => exact .inl ⟨_, _, hdoes, hrest⟩
  | ended hall _ hdead => exact .inr ⟨hall, hdead how (dead_of_standing hended)⟩

end

-- ============================================================ descriptors

/-- What is known of the descriptors of the main process is so for as long as it lives, if all
its acts keep it. -/
theorem Sound.kept_of_run (hprograms : ∀ name args, (programs name args).Respects .onward)
    (hsound : (m.doing p).Sound) (hp : p.Keeps P)
    (hfds : ∀ s ∈ m.slots, s.process.pid = mainPid → P s.process.fds)
    (hrun : Run programs (m.doing p) m') :
    ∀ s ∈ m'.slots, s.process.pid = mainPid → s.alive →
      P s.process.fds ∧ ∃ q, s.life = .running q ∧ q.Keeps P := by
  induction hrun with
  | refl =>
      intro s hs hmain _
      rw [slots_doing] at hs
      obtain ⟨x, hx, rfl⟩ := List.mem_map.mp hs
      rw [Slot.doing_process] at hmain
      rw [Slot.doing_main hmain]
      exact ⟨hfds x hx hmain, p, rfl, hp⟩
  | @tail m₁ m₂ hrun hstep ih =>
      cases hstep with
      | pass clock => exact ih
      | move x hx hm =>
          intro s hs hmain halive
          have hsound₁ := hsound.run hprograms hrun
          have hnew : s.process.pid ≠ m₁.nextPid := hmain ▸ (hsound₁.nextPid_ne hx).symm
          by_cases hpid : s.process.pid = x.process.pid
          · obtain ⟨hP, q, hl, hq⟩ := ih x hx (hpid.symm.trans hmain) (alive_of_move hm)
            have resumed {v : View} {todo : Prog ρ} (hv : v.process.pid = x.process.pid)
                (hP : P v.process.fds) (htodo : todo.Keeps P) (h : s ∈ (m₁.resume x v todo).slots) :
                P s.process.fds ∧ ∃ q, s.life = .running q ∧ q.Keeps P := by
              rw [mem_resume hv h hpid]
              exact ⟨hP, todo, rfl, htodo⟩
            have proceeded {todo : Prog ρ} (htodo : todo.Keeps P)
                (h : s ∈ (m₁.proceed x todo).slots) :
                P s.process.fds ∧ ∃ q, s.life = .running q ∧ q.Keeps P :=
              resumed (v := ⟨x.process, m₁.world⟩) rfl hP htodo h
            have hcontent := hsound₁.content x hx
            simp only [Machine.move, hl] at hm
            rw [hl] at hcontent
            cases hq with
            | exit how =>
                cases hm
                exact absurd hpid (mem_terminate hs halive).1
            | step hact hnext =>
                cases hm
                exact resumed (hcontent.1 _).pid (hact _ hP) (hnext _) hs
            | fork hnext =>
                cases hm
                rcases List.mem_append.mp hs with hs | hs
                · exact proceeded (hnext _) hs
                · obtain rfl := List.mem_singleton.mp hs
                  exact absurd rfl hnew
            | wait hnext =>
                obtain ⟨r, -, rfl⟩ := Option.map_eq_some_iff.mp hm
                split at hs
                · exact proceeded (hnext _) hs
                · exact proceeded (hnext _) (List.mem_filter.mp hs).1
          · obtain ⟨x', hx', hund⟩ := hsound₁.move_others hprograms hx hm hs hpid hnew halive
            rw [hund.life, hund.process]
            exact ih x' hx' (hund.pid.symm.trans hmain) (hund.alive.symm.trans halive)

end Machine

end LineShell.Posix
