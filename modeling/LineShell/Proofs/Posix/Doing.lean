/-
What the machine does, whatever its main process is to do.

Let one machine be the other but for what its main process is to do. A move
of another process is then the same in both (`move_doing`): what the machine
asks of the main process's slot is its numbers, its descriptors and that it
has not ended, and what it changes there is none of its program, unless a
signal ends it. If the main processes make the same request, they get the
same answer, and each goes on with what it has for that (`step_main`,
`fork_main`, `wait_main`).
-/
import LineShell.Proofs.Posix.Outcomes

namespace LineShell.Posix

variable {ρ : Type}

-- ================================================================= slots

namespace Slot

/-- The slot, with that to do if it is the main process's. -/
def doing (todo : Prog ρ) (s : Slot ρ) : Slot ρ :=
  if s.process.pid = Machine.mainPid then { s with life := .running todo } else s

variable {s : Slot ρ} {p q : Prog ρ}

@[simp] theorem doing_process (p : Prog ρ) (s : Slot ρ) : (s.doing p).process = s.process := by
  unfold doing
  split <;> rfl

theorem doing_main (h : s.process.pid = Machine.mainPid) :
    s.doing p = { s with life := .running p } := if_pos h

theorem doing_other (h : s.process.pid ≠ Machine.mainPid) : s.doing p = s := if_neg h

@[simp] theorem doing_doing (p q : Prog ρ) (s : Slot ρ) : (s.doing p).doing q = s.doing q := by
  by_cases h : s.process.pid = Machine.mainPid
  · simp only [doing, h, if_true]
  · simp only [doing, h, if_false]

/-- Whether it has ended does not depend on what it is to do. -/
theorem alive_doing (p q : Prog ρ) (s : Slot ρ) : (s.doing p).alive = (s.doing q).alive := by
  unfold doing
  split <;> rfl

end Slot

namespace Machine

variable {m m' : Machine ρ} {s x : Slot ρ} {p : Prog ρ} {programs : Installed ρ}

theorem slots_doing (p : Prog ρ) (m : Machine ρ) : (m.doing p).slots = m.slots.map (Slot.doing p) :=
  rfl

theorem eq_of_slots (hworld : m.world = m'.world) (hnext : m.nextPid = m'.nextPid)
    (hclock : m.clock = m'.clock) (hslots : m.slots = m'.slots) : m = m' := by
  cases m
  cases m'
  simp_all

@[simp] theorem doing_doing (p q : Prog ρ) (m : Machine ρ) : (m.doing p).doing q = m.doing q :=
  eq_of_slots rfl rfl rfl (by simp [slots_doing, Function.comp_def])

/-- The slots of other processes are there whatever the main process does. -/
theorem mem_doing_of_ne (hne : s.process.pid ≠ mainPid) : s ∈ (m.doing p).slots ↔ s ∈ m.slots := by
  rw [slots_doing, List.mem_map]
  refine ⟨?_, fun h => ⟨s, h, Slot.doing_other hne⟩⟩
  rintro ⟨t, ht, rfl⟩
  rw [Slot.doing_process] at hne
  rwa [Slot.doing_other hne]

@[simp] theorem world_doing (p : Prog ρ) (m : Machine ρ) : (m.doing p).world = m.world := rfl

@[simp] theorem held_doing (p : Prog ρ) (m : Machine ρ) (pipe : Nat) :
    (m.doing p).held pipe = m.held pipe := rfl

-- =============================================================== changes

/-- The change is the same whatever the main process is to do. -/
def Aside (change : Machine ρ → Machine ρ) : Prop :=
  ∀ (m : Machine ρ) (p q : Prog ρ), (change (m.doing p)).doing q = change (m.doing q)

theorem Aside.comp {f g : Machine ρ → Machine ρ} (hf : Aside f) (hg : Aside g) :
    Aside fun m => f (g m) := fun m p q => by
  simp only
  rw [← hg m p p, hf, hg]

theorem aside_put (hx : x.process.pid ≠ mainPid) : Aside fun m => m.put x :=
  fun m p q => eq_of_slots rfl rfl rfl <| by
    simp only [slots_doing, put, List.map_map]
    refine List.map_congr_left fun t _ => ?_
    simp only [Function.comp, Slot.doing_process]
    split
    · exact Slot.doing_other hx
    · exact Slot.doing_doing p q t

theorem aside_proceed (hs : s.process.pid ≠ mainPid) (todo : Prog ρ) :
    Aside fun m => m.proceed s todo := aside_put hs

theorem aside_resume {v : View} (hv : v.process.pid ≠ mainPid) (todo : Prog ρ) :
    Aside fun m => m.resume s v todo :=
  fun m => aside_put (x := { process := v.process, life := .running todo }) hv
    { m with world := v.world }

theorem aside_notice (pid : Pid) (signal : Nat) :
    Aside fun m : Machine ρ => m.notice pid signal :=
  fun m p q => eq_of_slots rfl rfl rfl <| by
    simp only [slots_doing, notice, List.map_map]
    refine List.map_congr_left fun t _ => ?_
    simp only [Function.comp, Slot.doing_process]
    unfold Slot.doing
    grind

theorem aside_reap (pid : Pid) : Aside fun m : Machine ρ => m.reap pid :=
  fun m p q => eq_of_slots rfl rfl rfl <| by
    simp [slots_doing, reap, List.filter_map, Function.comp_def]

/-- A process enters, with the next number. -/
def enter (x : Slot ρ) (m : Machine ρ) : Machine ρ :=
  { m with slots := m.slots ++ [x], nextPid := m.nextPid + 1 }

theorem aside_enter (hx : x.process.pid ≠ mainPid) : Aside fun m => m.enter x :=
  fun m p q => eq_of_slots rfl rfl rfl <| by
    simp [slots_doing, enter, Slot.doing_other hx, Function.comp_def]

theorem aside_terminate (hs : s.process.pid ≠ mainPid) (how : Ending) :
    Aside fun m => m.terminate s how :=
  fun m p q => eq_of_slots rfl rfl rfl <| by
    simp only [slots_doing, terminate, List.filterMap_map, List.map_filterMap]
    refine List.filterMap_congr fun t _ => ?_
    simp only [Function.comp, Slot.doing_process, Slot.alive_doing p q t]
    unfold Slot.doing
    grind

/-- When the main process is ended, it does not matter what it was to do. -/
theorem terminate_main (hs : s.process.pid = mainPid) (how : Ending) (m : Machine ρ)
    (p q : Prog ρ) :
    (m.doing p).terminate (s.doing p) how = (m.doing q).terminate (s.doing q) how :=
  eq_of_slots rfl rfl rfl <| by
    simp only [slots_doing, terminate, List.filterMap_map]
    refine List.filterMap_congr fun t _ => ?_
    simp only [Function.comp, Slot.doing_process, Slot.alive_doing p q t]
    unfold Slot.doing
    grind

-- ============================================================== questions

theorem holds_doing (m : Machine ρ) (target : Target) (p q : Prog ρ) :
    (m.doing p).holds target = (m.doing q).holds target := by
  simp only [holds, slots_doing, List.any_map, Function.comp_def, Slot.doing_process,
    Slot.alive_doing p q]
  rfl

theorem waitResult_doing (m : Machine ρ) (s : Slot ρ) (child : Int) (p q : Prog ρ) :
    (m.doing p).waitResult s child = (m.doing q).waitResult s child := by
  simp only [waitResult, slots_doing, List.filter_map, Function.comp_def, Slot.doing_process,
    List.isEmpty_map, List.findSome?_map]
  congr 3
  funext t
  by_cases hmain : t.process.pid = mainPid
  · rw [Slot.doing_main hmain, Slot.doing_main hmain]
  · rw [Slot.doing_other hmain, Slot.doing_other hmain]

-- ================================================================== others

/-- Nothing is different but what the main process is to do, unless it has ended. -/
def Beside (p q : Prog ρ) (m m' : Machine ρ) : Prop :=
  (∃ n : Machine ρ, m = n.doing p ∧ m' = n.doing q) ∨ m = m' ∧ ¬m.Lives mainPid

variable {q : Prog ρ}

theorem Aside.beside {f : Machine ρ → Machine ρ} (hf : Aside f) (m : Machine ρ) :
    Beside p q (f (m.doing p)) (f (m.doing q)) :=
  .inl ⟨f (m.doing p), (hf m p p).symm, (hf m p q).symm⟩

section

variable (hne : s.process.pid ≠ mainPid)
include hne

theorem beside_put (hx : x.process.pid = s.process.pid) (m : Machine ρ) :
    Beside p q ((m.doing p).put x) ((m.doing q).put x) :=
  (aside_put (by rwa [hx])).beside m

theorem beside_proceed (m : Machine ρ) (todo : Prog ρ) :
    Option.Rel (Beside p q) (some ((m.doing p).proceed s todo))
      (some ((m.doing q).proceed s todo)) :=
  .some ((aside_proceed hne todo).beside m)

theorem beside_resume (m : Machine ρ) {v : View} (hv : v.process = s.process) (todo : Prog ρ) :
    Option.Rel (Beside p q) (some ((m.doing p).resume s v todo))
      (some ((m.doing q).resume s v todo)) :=
  .some ((aside_resume (by rwa [hv]) todo).beside m)

theorem beside_answerRead (fd : Fd) (count : Nat) (next : Except Errno Bytes → Prog ρ) :
    Option.Rel (Beside p q) ((m.doing p).answerRead s fd count next)
      ((m.doing q).answerRead s fd count next) := by
  simp only [answerRead, world_doing, held_doing, holds_doing m _ q p]
  cases View.file? ⟨s.process, m.world⟩ fd with
  | none => exact beside_proceed hne m _
  | some found =>
      obtain ⟨n, f⟩ := found
      refine rel_ite (beside_proceed hne m _) ?_
      cases f.target with
      | node id =>
          exact beside_resume hne m
            (Call.readNode_outward n f id count ⟨s.process, m.world⟩).process _
      | reader i | writer i =>
          simp only
          cases m.held i with
          | nil => exact rel_ite .none (beside_proceed hne m _)
          | cons b rest => exact beside_resume hne m (by rfl) _

theorem beside_answerWrite (fd : Fd) (data : Bytes) (next : Except Errno Nat → Prog ρ) :
    Option.Rel (Beside p q) ((m.doing p).answerWrite s fd data next)
      ((m.doing q).answerWrite s fd data next) := by
  simp only [answerWrite, world_doing, held_doing, holds_doing m _ q p]
  cases View.file? ⟨s.process, m.world⟩ fd with
  | none => exact beside_proceed hne m _
  | some found =>
      obtain ⟨n, f⟩ := found
      refine rel_ite (beside_proceed hne m _) ?_
      cases f.target with
      | node id =>
          exact beside_resume hne m
            (Call.writeNode_outward n f id data ⟨s.process, m.world⟩).process _
      | reader i | writer i =>
          simp only
          refine rel_ite (rel_ite (beside_proceed hne m _) (rel_ite ?_ ?_))
            (rel_ite (beside_resume hne m (by rfl) _) .none)
          · exact .some (((aside_notice _ _).comp (aside_proceed hne _)).beside m)
          · exact .some ((aside_terminate hne _).beside m)

theorem beside_answerFork (hnext : m.nextPid ≠ mainPid) (child : Prog ρ) (next : Pid → Prog ρ) :
    Beside p q ((m.doing p).answerFork s child next) ((m.doing q).answerFork s child next) :=
  ((aside_enter (x := m.born s child) hnext).comp (aside_proceed hne (next m.nextPid))).beside m

theorem beside_answerWait (child : Int) (next : Except Errno (Pid × Ending) → Prog ρ) :
    Option.Rel (Beside p q) ((m.doing p).answerWait s child next)
      ((m.doing q).answerWait s child next) := by
  rw [answerWait, answerWait, waitResult_doing m s child q p]
  cases (m.doing p).waitResult s child with
  | none => exact .none
  | some r =>
      refine .some ?_
      cases r with
      | error e => exact (aside_proceed hne _).beside m
      | ok found => exact ((aside_reap _).comp (aside_proceed hne _)).beside m

theorem beside_answerKill (process : Int) (signal : Nat) (next : Except Errno Unit → Prog ρ) :
    Beside p q ((m.doing p).answerKill s process signal next)
      ((m.doing q).answerKill s process signal next) := by
  have proceeded (r) := (aside_proceed hne (next r)).beside (p := p) (q := q) m
  simp only [answerKill, slots_doing, List.find?_map, Function.comp_def, Slot.doing_process]
  cases m.slots.find? fun t => (t.process.pid : Int) =
      if process = 0 then (s.process.pid : Int) else process with
  | none => exact proceeded _
  | some t =>
      simp only [Option.map_some, Slot.doing_process, Slot.alive_doing q p t]
      have killed : Beside p q
          (((m.doing p).proceed s (next (.ok ()))).terminate (t.doing p) (.signaled signal))
          (((m.doing q).proceed s (next (.ok ()))).terminate (t.doing q) (.signaled signal)) := by
        by_cases hmain : t.process.pid = mainPid
        · have gone (q : Prog ρ) : ((m.doing p).proceed s (next (.ok ()))).doing q =
              (m.doing q).proceed s (next (.ok ())) := aside_proceed hne _ m p q
          rw [← gone p, ← gone q]
          refine .inr ⟨terminate_main hmain _ _ p q, ?_⟩
          rintro ⟨x, hx, hpid, halive⟩
          have hlife := mem_terminate_self hx (by rw [Slot.doing_process, hpid, hmain])
          rw [Slot.alive, hlife] at halive
          cases halive
        · rw [Slot.doing_other hmain, Slot.doing_other hmain]
          exact ((aside_terminate hmain _).comp (aside_proceed hne _)).beside m
      refine rel_ite (proceeded _) (rel_ite (proceeded _) (rel_ite killed (rel_ite (proceeded _)
        (rel_ite ?_ (rel_ite (proceeded _) killed)))))
      exact ((aside_notice _ _).comp (aside_proceed hne _)).beside m

theorem beside_answerExec (path : Bytes) (argv : List Bytes) (next : Errno → Prog ρ) :
    Beside p q ((m.doing p).answerExec programs s path argv next)
      ((m.doing q).answerExec programs s path argv next) := by
  simp only [answerExec, world_doing]
  cases image m.world.tree (View.held ⟨s.process, m.world⟩) s.process.cwd scriptDepth path
      (if argv.isEmpty then [[]] else argv) with
  | error e => exact (aside_proceed hne _).beside m
  | ok i => exact beside_put hne (by rfl) m

/-- What another process does it does whatever the main process is to do. -/
theorem move_doing (hnext : m.nextPid ≠ mainPid) (hkeeps : s.life.Respects .onward) :
    Option.Rel (Beside p q) ((m.doing p).move programs s) ((m.doing q).move programs s) := by
  unfold move
  generalize s.life = l at hkeeps
  cases l with
  | ended how => exact .none
  | sleeping wake next => exact rel_ite (beside_proceed hne m _) .none
  | running todo =>
      cases todo with
      | ret r => exact .none
      | exit how => exact .some ((aside_terminate hne _).beside m)
      | step act next => exact .some ((aside_resume (by rwa [(hkeeps.1 _).pid]) _).beside m)
      | read fd count next => exact beside_answerRead hne fd count next
      | write fd data next => exact beside_answerWrite hne fd data next
      | fork child next => exact .some (beside_answerFork hne hnext child next)
      | wait child next => exact beside_answerWait hne child next
      | kill process signal next => exact .some (beside_answerKill hne process signal next)
      | sleep duration next => exact .some (beside_put hne (by rfl) m)
      | exec path argv next => exact .some (beside_answerExec hne path argv next)

end

-- ==================================================== the main process's own

section

variable {process : Process} (hmain : process.pid = mainPid)
include hmain

/-- The main process is given something else to do, wherever it is. -/
theorem put_main (m : Machine ρ) (p q todo todo' : Prog ρ) :
    ((m.doing p).put ⟨process, .running todo⟩).doing todo' =
      (m.doing q).put ⟨process, .running todo'⟩ := by
  refine eq_of_slots rfl rfl rfl ?_
  simp only [slots_doing, put, List.map_map]
  refine List.map_congr_left fun t _ => ?_
  simp only [Function.comp, Slot.doing_process]
  split
  · exact Slot.doing_main hmain
  · next hne =>
    rw [hmain] at hne
    rw [Slot.doing_other hne, Slot.doing_other hne, Slot.doing_other hne]

omit hmain in
theorem resume_main {v : View} (hv : v.process.pid = mainPid) (m : Machine ρ) (s s' : Slot ρ)
    (p q todo todo' : Prog ρ) :
    ((m.doing p).resume s v todo).doing todo' = (m.doing q).resume s' v todo' :=
  put_main hv { m with world := v.world } p q todo todo'

/-- And then what does not depend on that is done. -/
theorem Aside.main {f : Machine ρ → Machine ρ} (hf : Aside f) (m : Machine ρ)
    (p q todo todo' : Prog ρ) :
    (f ((m.doing p).put ⟨process, .running todo⟩)).doing todo' =
      f ((m.doing q).put ⟨process, .running todo'⟩) := by
  rw [← put_main hmain m p p todo todo, hf, put_main hmain m p q todo todo']

/-- An act shows the same and does the same whatever comes then. -/
theorem step_main {act : View → View} {next : View → Prog ρ}
    (hpid : (act ⟨process, m.world⟩).process.pid = process.pid)
    (h : (m.doing (.step act next)).move programs ⟨process, .running (.step act next)⟩ = some m') :
    ∃ v, ∀ next', (m.doing (.step act next')).move programs ⟨process, .running (.step act next')⟩ =
      some (m'.doing (next' v)) := by
  cases h
  exact ⟨⟨process, m.world⟩, fun next' =>
    congrArg some (resume_main (hpid.trans hmain) m _ _ _ _ _ _).symm⟩

/-- The same child is started, with the same number. -/
theorem fork_main (hnext : m.nextPid ≠ mainPid) {child : Prog ρ} {next : Pid → Prog ρ}
    (h : (m.doing (.fork child next)).move programs ⟨process, .running (.fork child next)⟩ =
      some m') :
    ∃ pid, ∀ next', (m.doing (.fork child next')).move programs
      ⟨process, .running (.fork child next')⟩ = some (m'.doing (next' pid)) := by
  cases h
  have entered := aside_enter (x := m.born ⟨process, .running (.fork child next)⟩ child) hnext
  exact ⟨m.nextPid, fun next' => congrArg some (entered.main hmain m _ _ _ _).symm⟩

/-- The same child is waited for. -/
theorem wait_main {child : Int} {next : Except Errno (Pid × Ending) → Prog ρ}
    (h : (m.doing (.wait child next)).move programs ⟨process, .running (.wait child next)⟩ =
      some m') :
    ∃ r, ∀ next', (m.doing (.wait child next')).move programs
      ⟨process, .running (.wait child next')⟩ = some (m'.doing (next' r)) := by
  obtain ⟨r, hr, rfl⟩ := Option.map_eq_some_iff.mp h
  refine ⟨r, fun next' => ?_⟩
  have same : (m.doing (.wait child next')).waitResult ⟨process, .running (.wait child next')⟩ child
      = some r := (waitResult_doing m _ child _ _).trans hr
  simp only [move, answerWait, same]
  cases r with
  | error e => exact congrArg some (put_main hmain m _ _ _ _).symm
  | ok found => exact congrArg some ((aside_reap found.1).main hmain m _ _ _ _).symm

end

end Machine

end LineShell.Posix
