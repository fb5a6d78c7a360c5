/-
How processes come to their ends.

A slot is found ended after a move because it was before, because the
process that moved exited, because that process killed it, or because it
wrote to a pipe that nobody reads (`EndsBy`). Of an exit the others see
eight bits, so the code of a process that ended is a status
(`Ending.IsStatus`) whatever the code it handed over; where that code was
a status to begin with, it is seen as it is (`IsStatus.emod`).

The living live on for as long as nothing of that happens to them
(`Sound.lives_of_move`), and do what is left of their programs, or of
programs that they load instead (`Sound.left_of_move`).
-/
import LineShell.Proofs.Posix.Kin

namespace LineShell

/-- The codes that eight bits can say. -/
def IsStatus (c : Int) : Prop := 0 ≤ c ∧ c ≤ 255

theorem isStatus_emod (c : Int) : IsStatus (c % 256) := by
  have low := Int.emod_nonneg c (b := 256) (by decide)
  have high := Int.emod_lt_of_pos c (b := 256) (by decide)
  exact ⟨low, by omega⟩

/-- Such a code loses nothing in an exit. -/
theorem IsStatus.emod {c : Int} (h : IsStatus c) : c % 256 = c := by
  obtain ⟨low, high⟩ := h
  omega

namespace Posix

variable {ρ : Type}

namespace Machine

variable {m m' : Machine ρ} {s x : Slot ρ} {p : Pid} {how : Ending} {programs : Installed ρ}

-- ================================================================== ended

/-- The process has ended, and is still known. -/
def Dead (m : Machine ρ) (p : Pid) (how : Ending) : Prop :=
  ∃ t ∈ m.slots, t.process.pid = p ∧ t.life = .ended how

/-- What has ended does not live. -/
theorem alive_eq_false_of_ended {t : Slot ρ} (h : t.life = .ended how) : t.alive = false := by
  rw [Slot.alive, h]

theorem Sound.not_lives_of_dead (hsound : m.Sound) (h : m.Dead p how) : ¬m.Lives p := by
  rintro ⟨t', ht', hpid', halive⟩
  obtain ⟨t, ht, rfl, hl⟩ := h
  obtain rfl := hsound.eq_of_pid ht' ht hpid'
  rw [alive_eq_false_of_ended hl] at halive
  cases halive

theorem dead_put (hx : x.alive) (h : (m.put x).Dead p how) : m.Dead p how := by
  obtain ⟨t, ht, hpid, hl⟩ := h
  rcases mem_put ht with ⟨ht, -⟩ | rfl
  · exact ⟨t, ht, hpid, hl⟩
  · rw [alive_eq_false_of_ended hl] at hx
    cases hx

theorem dead_proceed {todo : Prog ρ} (h : (m.proceed s todo).Dead p how) : m.Dead p how :=
  dead_put rfl h

theorem dead_resume {v : View} {todo : Prog ρ} (h : (m.resume s v todo).Dead p how) :
    m.Dead p how :=
  dead_put (m := { m with world := v.world }) rfl h

/-- One process more has ended. -/
theorem dead_terminate {how' : Ending} (h : (m.terminate x how').Dead p how) :
    m.Dead p how ∨ (p = x.process.pid ∧ how = how') := by
  obtain ⟨t', ht', hpid, hl⟩ := h
  obtain ⟨t, ht, hf⟩ := List.mem_filterMap.mp ht'
  split at hf
  · split at hf
    · cases hf
    · cases hf
      cases hl
      exact .inr ⟨hpid.symm, rfl⟩
  · split at hf
    · split at hf
      · next halive =>
        cases hf
        rw [Slot.alive, show t.life = .ended how from hl] at halive
        cases halive
      · cases hf
    · cases hf
      exact .inl ⟨t', ht, hpid, hl⟩

theorem dead_notice {q : Pid} {signal : Nat} (h : (m.notice q signal).Dead p how) :
    m.Dead p how := by
  obtain ⟨t', ht', hpid, hl⟩ := h
  obtain ⟨t, ht, hut⟩ := mem_notice ht'
  exact ⟨t, ht, hut.pid ▸ hpid, hut.life ▸ hl⟩

theorem dead_reap {q : Pid} (h : (m.reap q).Dead p how) : m.Dead p how := by
  obtain ⟨t, ht, hpid, hl⟩ := h
  exact ⟨t, (List.mem_filter.mp ht).1, hpid, hl⟩

theorem dead_answerFork {child : Prog ρ} {next : Pid → Prog ρ}
    (h : (m.answerFork s child next).Dead p how) : m.Dead p how := by
  obtain ⟨t, ht, hpid, hl⟩ := h
  rw [slots_answerFork] at ht
  rcases List.mem_append.mp ht with ht | ht
  · exact dead_proceed ⟨t, ht, hpid, hl⟩
  · obtain rfl := List.mem_singleton.mp ht
    cases hl

-- =============================================================== requests

/-- Writing ends the writer, if anybody. -/
theorem Wrote.dead {fd : Fd} {data : Bytes} {next : Except Errno Nat → Prog ρ}
    (hm : Wrote m s fd data next m') (h : m'.Dead p how) :
    m.Dead p how ∨ (p = s.process.pid ∧ how = .signaled Signal.pipe) := by
  cases hm with
  | taken n v _ _ => exact .inl (dead_resume h)
  | refused e _ => exact .inl (dead_proceed h)
  | ignored _ _ => exact .inl (dead_proceed h)
  | caught _ _ => exact .inl (dead_proceed (dead_notice h))
  | killed _ _ => exact dead_terminate h

/-- A signal ends the process that it is sent to, if anybody, and if it
lives. -/
theorem Sent.dead {process : Int} {signal : Nat} {next : Except Errno Unit → Prog ρ}
    (hm : Sent m s process signal next m') (h : m'.Dead p how) :
    m.Dead p how ∨ ((if process = 0 then (s.process.pid : Int) else process) = p ∧
      how = .signaled signal ∧ m.Lives p) := by
  cases hm with
  | refused e => exact .inl (dead_proceed h)
  | unfelt => exact .inl (dead_proceed h)
  | caught q => exact .inl (dead_proceed (dead_notice h))
  | killed ht halive target =>
      rcases dead_terminate h with h | ⟨rfl, rfl⟩
      · exact .inl (dead_proceed h)
      · exact .inr ⟨target.symm, rfl, _, ht, rfl, halive⟩

-- ================================================================== living

theorem lives_put (hx : x.alive) (h : m.Lives p) : (m.put x).Lives p := by
  obtain ⟨t, ht, rfl, halive⟩ := h
  refine ⟨_, List.mem_map_of_mem ht, ?_⟩
  split
  · next hp => exact ⟨hp.symm, hx⟩
  · exact ⟨rfl, halive⟩

theorem lives_proceed {todo : Prog ρ} (h : m.Lives p) : (m.proceed s todo).Lives p :=
  lives_put rfl h

theorem lives_resume {v : View} {todo : Prog ρ} (h : m.Lives p) : (m.resume s v todo).Lives p :=
  lives_put (m := { m with world := v.world }) rfl h

/-- All but one live on. -/
theorem lives_terminate (h : m.Lives p) : (m.terminate x how).Lives p ∨ p = x.process.pid := by
  obtain ⟨t, ht, rfl, halive⟩ := h
  refine Classical.or_iff_not_imp_right.mpr fun hne => ?_
  by_cases hparent : t.process.parent = x.process.pid
  · refine ⟨{ t with process := { t.process with parent := 0 } }, ?_, rfl, halive⟩
    exact List.mem_filterMap.mpr ⟨t, ht, by rw [if_neg hne, if_pos hparent, if_pos halive]⟩
  · exact ⟨t, List.mem_filterMap.mpr ⟨t, ht, by rw [if_neg hne, if_neg hparent]⟩, rfl, halive⟩

theorem lives_notice {q : Pid} {signal : Nat} (h : m.Lives p) : (m.notice q signal).Lives p := by
  obtain ⟨t, ht, rfl, halive⟩ := h
  refine ⟨_, List.mem_map_of_mem ht, ?_⟩
  split <;> exact ⟨rfl, halive⟩

theorem lives_answerFork {child : Prog ρ} {next : Pid → Prog ρ} (h : m.Lives p) :
    (m.answerFork s child next).Lives p := by
  obtain ⟨t, ht, hpid, halive⟩ : (m.proceed s (next m.nextPid)).Lives p := lives_proceed h
  exact ⟨t, List.mem_append_left _ ht, hpid, halive⟩

theorem Wrote.lives {fd : Fd} {data : Bytes} {next : Except Errno Nat → Prog ρ}
    (hm : Wrote m s fd data next m') (h : m.Lives p) : m'.Lives p ∨ p = s.process.pid := by
  cases hm with
  | taken n v _ _ => exact .inl (lives_resume h)
  | refused e _ => exact .inl (lives_proceed h)
  | ignored _ _ => exact .inl (lives_proceed h)
  | caught _ _ => exact .inl (lives_notice (lives_proceed h))
  | killed _ _ => exact lives_terminate h

/-- Who is waited for has ended already. -/
theorem lives_reap {child : Int} {q : Pid} {todo : Prog ρ} (hnodup : m.pids.Nodup)
    (hresult : m.waitResult s child = some (.ok (q, how))) (h : m.Lives p) :
    ((m.proceed s todo).reap q).Lives p := by
  obtain ⟨⟨u, hu, rfl, -, hended⟩, -⟩ := ended_of_waitResult hresult
  have hne : p ≠ u.process.pid := by
    rintro rfl
    obtain ⟨t, ht, hpid, halive⟩ := h
    obtain rfl := eq_of_pid hnodup ht hu hpid
    rw [alive_eq_false_of_ended hended] at halive
    cases halive
  obtain ⟨t, ht, rfl, halive⟩ : (m.proceed s todo).Lives p := lives_proceed h
  exact ⟨t, List.mem_filter.mpr ⟨ht, decide_eq_true hne⟩, rfl, halive⟩

theorem Sent.lives {process : Int} {signal : Nat} {next : Except Errno Unit → Prog ρ}
    (hm : Sent m s process signal next m') (h : m.Lives p) :
    m'.Lives p ∨ (if process = 0 then (s.process.pid : Int) else process) = p := by
  cases hm with
  | refused e => exact .inl (lives_proceed h)
  | unfelt => exact .inl (lives_proceed h)
  | caught q => exact .inl (lives_notice (lives_proceed h))
  | killed _ _ target =>
      exact (lives_terminate (lives_proceed h)).imp_right fun hp => by rw [← target, hp]

-- ================================================================== moves

/-- How a process has come to its end that had not ended before a move. -/
inductive EndsBy (s : Slot ρ) (p : Pid) : Ending → Prop where
  | exit {how : Ending} : s.life = .running (.exit how) → p = s.process.pid →
      EndsBy s p (eightBits how)
  | kill {process : Int} {signal : Nat} {next : Except Errno Unit → Prog ρ} :
      s.life = .running (.kill process signal next) →
      (if process = 0 then (s.process.pid : Int) else process) = p → EndsBy s p (.signaled signal)
  | write {fd : Fd} {data : Bytes} {next : Except Errno Nat → Prog ρ} :
      s.life = .running (.write fd data next) → p = s.process.pid →
      EndsBy s p (.signaled Signal.pipe)

/-- Whom another process ends, that process kills. -/
theorem EndsBy.of_ne (h : EndsBy s p how) (hne : s.process.pid ≠ p) :
    ∃ n next, s.life = .running (.kill p n next) ∧ how = .signaled n := by
  cases h with
  | exit _ hp | write _ hp => exact absurd hp.symm hne
  | @kill process signal next hl htarget =>
      split at htarget
      · exact absurd (Int.ofNat_inj.mp htarget) hne
      · subst htarget
        exact ⟨signal, next, hl, rfl⟩

/-- Who is dead after a move was dead before, or came to its end by the
move. -/
theorem dead_of_move (hs : s ∈ m.slots) (hm : m.move programs s = some m')
    (h : m'.Dead p how) : m.Dead p how ∨ (m.Lives p ∧ EndsBy s p how) := by
  have mover : p = s.process.pid → m.Lives p := fun hp => ⟨s, hs, hp.symm, alive_of_move hm⟩
  cases moved_of_move hm with
  | woken _ _ => exact .inl (dead_proceed h)
  | exited hl =>
      rcases dead_terminate h with h | ⟨hp, rfl⟩
      · exact .inl h
      · exact .inr ⟨mover hp, .exit hl hp⟩
  | acted _ => exact .inl (dead_resume h)
  | read _ _ _ _ => exact .inl (dead_resume h)
  | wrote hl hwrote =>
      rcases hwrote.dead h with h | ⟨hp, rfl⟩
      · exact .inl h
      · exact .inr ⟨mover hp, .write hl hp⟩
  | forked _ => exact .inl (dead_answerFork h)
  | unwaited _ _ _ => exact .inl (dead_proceed h)
  | waited _ _ _ _ => exact .inl (dead_proceed (dead_reap h))
  | sent hl hsent =>
      rcases hsent.dead h with h | ⟨hp, rfl, hlives⟩
      · exact .inl h
      · exact .inr ⟨hlives, .kill hl hp⟩
  | slept _ => exact .inl (dead_put rfl h)
  | refused _ _ => exact .inl (dead_proceed h)
  | loaded _ _ => exact .inl (dead_put rfl h)

/-- Who lived before a move lives on, or came to its end by the move. -/
theorem Sound.lives_of_move (hsound : m.Sound) (hm : m.move programs s = some m')
    (h : m.Lives p) : m'.Lives p ∨ ∃ how, EndsBy s p how := by
  cases moved_of_move hm with
  | woken _ _ => exact .inl (lives_proceed h)
  | exited hl => exact (lives_terminate h).imp_right fun hp => ⟨_, .exit hl hp⟩
  | acted _ => exact .inl (lives_resume h)
  | read _ _ _ _ => exact .inl (lives_resume h)
  | wrote hl hwrote => exact (hwrote.lives h).imp_right fun hp => ⟨_, .write hl hp⟩
  | forked _ => exact .inl (lives_answerFork h)
  | unwaited _ _ _ => exact .inl (lives_proceed h)
  | waited _ _ _ hresult => exact .inl (lives_reap hsound.distinct hresult h)
  | sent hl hsent => exact (hsent.lives h).imp_right fun hp => ⟨_, .kill hl hp⟩
  | slept _ => exact .inl (lives_put rfl h)
  | refused _ _ => exact .inl (lives_proceed h)
  | loaded _ _ => exact .inl (lives_put rfl h)

/-- Whoever exits by a move is seen to have exited with a status. -/
theorem EndsBy.exited {c : Int} (h : EndsBy s p (.exited c)) : p = s.process.pid ∧ IsStatus c ∧
    ∃ code, s.life = .running (.exit (.exited code)) ∧ c = code % 256 := by
  generalize he : Ending.exited c = how at h
  cases h with
  | @exit how' hl hp =>
      cases how' with
      | exited code =>
          cases he
          exact ⟨hp, isStatus_emod code, code, hl, rfl⟩
      | signaled n => cases he
  | kill | write => cases he

end Machine

-- =============================================================== programs

/-- What may be left of a program, or of one that it has loaded in its place. -/
inductive Prog.Left (programs : Installed ρ) (prog : Prog ρ) : Prog ρ → Prop where
  | whole : Left programs prog prog
  | step {act : View → View} {next : View → Prog ρ} (v : View) :
      Left programs prog (.step act next) → Left programs prog (next v)
  | read {fd : Fd} {count : Nat} {next : Except Errno Bytes → Prog ρ} (r : Except Errno Bytes) :
      Left programs prog (.read fd count next) → Left programs prog (next r)
  | write {fd : Fd} {data : Bytes} {next : Except Errno Nat → Prog ρ} (r : Except Errno Nat) :
      Left programs prog (.write fd data next) → Left programs prog (next r)
  | fork {child : Prog ρ} {next : Pid → Prog ρ} (pid : Pid) :
      Left programs prog (.fork child next) → Left programs prog (next pid)
  | wait {child : Int} {next : Except Errno (Pid × Ending) → Prog ρ}
      (r : Except Errno (Pid × Ending)) :
      Left programs prog (.wait child next) → Left programs prog (next r)
  | kill {process : Int} {signal : Nat} {next : Except Errno Unit → Prog ρ} (r : Except Errno Unit) :
      Left programs prog (.kill process signal next) → Left programs prog (next r)
  | sleep {duration : Nat} {next : Prog ρ} :
      Left programs prog (.sleep duration next) → Left programs prog next
  | exec {path : Bytes} {argv : List Bytes} {next : Errno → Prog ρ} (e : Errno) :
      Left programs prog (.exec path argv next) → Left programs prog (next e)
  | load {path : Bytes} {argv : List Bytes} {next : Errno → Prog ρ} (name : String)
      (args : List Bytes) :
      Left programs prog (.exec path argv next) → Left programs prog (programs name args)

/-- The process does nothing but what is left of the program. -/
def Life.Left (programs : Installed ρ) (prog : Prog ρ) : Life ρ → Prop
  | .running todo => Prog.Left programs prog todo
  | .sleeping _ next => Prog.Left programs prog next
  | .ended _ => True

/-- What has ended does nothing. -/
theorem Slot.left_of_not_alive {programs : Installed ρ} {prog : Prog ρ} {s : Slot ρ}
    (h : s.alive = false) : s.life.Left programs prog := by
  unfold alive at h
  split at h
  · next hl =>
    rw [hl]
    trivial
  · cases h

namespace Machine

/-- A process that moves goes on with its program. -/
theorem Sound.left_of_move {programs : Installed ρ} {prog : Prog ρ} {m m' : Machine ρ}
    {s t' : Slot ρ} (hsound : m.Sound) (hs : s ∈ m.slots)
    (hleft : s.life.Left programs prog) (hm : m.move programs s = some m') (ht' : t' ∈ m'.slots)
    (hp : t'.process.pid = s.process.pid) : t'.life.Left programs prog := by
  have hcontent := hsound.content s hs
  have resumed {v : View} {todo : Prog ρ} (hv : v.process.pid = s.process.pid)
      (htodo : Prog.Left programs prog todo) (h : t' ∈ (m.resume s v todo).slots) :
      t'.life.Left programs prog := by
    rw [mem_resume hv h hp]
    exact htodo
  have proceeded {todo : Prog ρ} (htodo : Prog.Left programs prog todo)
      (h : t' ∈ (m.proceed s todo).slots) : t'.life.Left programs prog :=
    resumed (v := ⟨s.process, m.world⟩) rfl htodo h
  have noticed {todo : Prog ρ} (htodo : Prog.Left programs prog todo) {p : Pid} {signal : Nat}
      (h : t' ∈ ((m.proceed s todo).notice p signal).slots) : t'.life.Left programs prog := by
    obtain ⟨u, hu, hut⟩ := mem_notice h
    rw [hut.life, mem_put_of_pid rfl hu (hut.pid ▸ hp)]
    exact htodo
  cases halive : t'.alive with
  | false => exact Slot.left_of_not_alive halive
  | true =>
  have spared {todo : Prog ρ} (htodo : Prog.Left programs prog todo) {u : Slot ρ} {how : Ending}
      (h : t' ∈ ((m.proceed s todo).terminate u how).slots) : t'.life.Left programs prog := by
    obtain ⟨-, r, hr, hrt⟩ := mem_terminate h halive
    rw [hrt.life, mem_put_of_pid rfl hr (hrt.pid ▸ hp)]
    exact htodo
  have ended {how : Ending} (h : t' ∈ (m.terminate s how).slots) : t'.life.Left programs prog :=
    absurd hp (mem_terminate h halive).1
  cases moved_of_move hm with
  | exited _ => exact ended ht'
  | woken hl _ =>
      rw [hl] at hleft
      exact proceeded hleft ht'
  | acted hl =>
      rw [hl] at hleft hcontent
      exact resumed (hcontent.1 _).pid (.step _ hleft) ht'
  | read v r hl hv =>
      rw [hl] at hleft
      exact resumed (congrArg Process.pid hv.process) (.read r hleft) ht'
  | @wrote fd data next _ hl hwrote =>
      rw [hl] at hleft
      cases hwrote with
      | taken n v _ hv =>
          have kept := (Call.writeNow_outward fd (data.take n)).of_attempt hv
          exact resumed (congrArg Process.pid kept.process) (.write _ hleft) ht'
      | refused e _ => exact proceeded (.write _ hleft) ht'
      | ignored _ _ => exact proceeded (.write _ hleft) ht'
      | caught _ _ => exact noticed (.write _ hleft) ht'
      | killed _ _ => exact ended ht'
  | forked hl =>
      rw [hl] at hleft
      rcases List.mem_append.mp ht' with ht' | ht'
      · exact proceeded (.fork _ hleft) ht'
      · obtain rfl := List.mem_singleton.mp ht'
        exact absurd hp (Nat.ne_of_gt (hsound.bounds s hs).2)
  | unwaited e hl _ =>
      rw [hl] at hleft
      exact proceeded (.wait _ hleft) ht'
  | waited pid how hl _ =>
      rw [hl] at hleft
      exact proceeded (.wait _ hleft) (List.mem_filter.mp ht').1
  | sent hl hsent =>
      rw [hl] at hleft
      cases hsent with
      | refused e => exact proceeded (.kill _ hleft) ht'
      | unfelt => exact proceeded (.kill _ hleft) ht'
      | caught p => exact noticed (.kill _ hleft) ht'
      | killed _ _ _ => exact spared (.kill _ hleft) ht'
  | slept hl =>
      rw [hl] at hleft
      rw [mem_put_of_pid rfl ht' hp]
      exact .sleep hleft
  | refused hl _ =>
      rw [hl] at hleft
      exact proceeded (.exec _ hleft) ht'
  | loaded hl _ =>
      rw [hl] at hleft
      rw [mem_put_of_pid rfl ht' hp]
      exact .load _ _ hleft

end Machine

end Posix

end LineShell
