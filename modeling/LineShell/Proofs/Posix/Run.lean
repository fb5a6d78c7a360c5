/-
What one move of the machine does to whom.

# Movers and others

A move is one request of one process. `Carries` says what comes of it: no
process gets another number and none is new, open files stay, and

- of a process that did not move, nothing but its parent and the signals
  that have come may be different, unless it ended;
- the process that moved has kept a frame, provided that all acts of its
  program keep it (`Prog.Respects`).

Each way in which the machine changes its slots has this property, and
requests are made of these (`move_carries`). Only a fork makes a new
process, which is a copy of the one that moved.

What a move can be is read off the machine once (`Moved`). Whatever else is
to be known about all moves has one case for each of its rules.

# Sound machines

Numbers are distinct and below the next one, and all programs are content
with what the machine grants them. Moves preserve that (`Sound.move`).
-/
import Mathlib.Data.List.Nodup
import LineShell.Proofs.Posix.Frame
import LineShell.Posix.Machine

namespace LineShell.Posix

variable {ρ : Type}

-- ============================================================== programs

/-- All acts of the program and of its children keep the frame. -/
def Prog.Respects (F : Frame) : Prog ρ → Prop
  | .ret _ | .exit _ => True
  | .step act next => (∀ v, F.holds v (act v)) ∧ ∀ v, (next v).Respects F
  | .read _ _ next => ∀ r, (next r).Respects F
  | .write _ _ next => ∀ r, (next r).Respects F
  | .fork child next => child.Respects F ∧ ∀ pid, (next pid).Respects F
  | .wait _ next => ∀ r, (next r).Respects F
  | .kill _ _ next => ∀ r, (next r).Respects F
  | .sleep _ next => next.Respects F
  | .exec _ _ next => ∀ e, (next e).Respects F

def Life.Respects (F : Frame) : Life ρ → Prop
  | .running todo => todo.Respects F
  | .sleeping _ next => next.Respects F
  | .ended _ => True

/-- The frames that are of use for whole programs: what the machine itself
does to a process keeps them, and they keep what it grants. -/
structure Frame.Fits (F : Frame) : Prop where
  quiet : ∀ {v v' : View}, v.Quiet v' → F.holds v v'
  onward : ∀ {v v' : View}, F.holds v v' → v.Onward v'

theorem Frame.onward_fits : Frame.onward.Fits := ⟨View.Quiet.toOnward, id⟩

theorem Frame.quiet_fits : Frame.quiet.Fits := ⟨id, View.Quiet.toOnward⟩

namespace Machine

/-- Does the process replace its program now? -/
def loads (m : Machine ρ) (s : Slot ρ) : Bool :=
  match s.life with
  | .running (.exec path argv _) =>
      (image m.world.tree (View.held ⟨s.process, m.world⟩) s.process.cwd scriptDepth path
        (if argv.isEmpty then [[]] else argv)).toOption.isSome
  | _ => false

end Machine

-- ================================================================= slots

/-- Nothing of a process is different but who its parent is and which
signals have come. -/
structure Slot.Undisturbed (t t' : Slot ρ) : Prop where
  life : t'.life = t.life
  process : t'.process =
    { t.process with parent := t'.process.parent, pending := t'.process.pending }

namespace Slot.Undisturbed

theorem refl (t : Slot ρ) : t.Undisturbed t := ⟨rfl, rfl⟩

theorem trans {t₁ t₂ t₃ : Slot ρ} (h : t₁.Undisturbed t₂) (h' : t₂.Undisturbed t₃) :
    t₁.Undisturbed t₃ := by
  refine ⟨h'.life.trans h.life, ?_⟩
  rw [h'.process, h.process]

theorem pid {t t' : Slot ρ} (h : t.Undisturbed t') : t'.process.pid = t.process.pid := by
  rw [h.process]

theorem alive {t t' : Slot ρ} (h : t.Undisturbed t') : t'.alive = t.alive := by
  rw [Slot.alive, Slot.alive, h.life]

end Slot.Undisturbed

/-- Nothing of the process is different but who its parent is and which
signals have come, whatever else happened. -/
structure View.Meanwhile (v v' : View) : Prop where
  process : v'.process =
    { v.process with parent := v'.process.parent, pending := v'.process.pending }
  world : v.world.Extends v'.world

theorem View.Meanwhile.refl (v : View) : v.Meanwhile v := ⟨rfl, .refl _⟩

theorem View.Meanwhile.trans {v₁ v₂ v₃ : View} (h : v₁.Meanwhile v₂) (h' : v₂.Meanwhile v₃) :
    v₁.Meanwhile v₃ := by
  refine ⟨?_, h.world.trans h'.world⟩
  rw [h'.process, h.process]

theorem View.Meanwhile.fds {v v' : View} (h : v.Meanwhile v') : v'.process.fds = v.process.fds := by
  rw [h.process]

theorem Slot.Undisturbed.meanwhile {t t' : Slot ρ} (h : t.Undisturbed t') {w w' : World}
    (hw : w.Extends w') : View.Meanwhile ⟨t.process, w⟩ ⟨t'.process, w'⟩ := ⟨h.process, hw⟩

namespace Machine

variable {m m' : Machine ρ} {s x t' : Slot ρ}

/-- The numbers of the processes, in order. -/
def pids (m : Machine ρ) : List Pid := m.slots.map (·.process.pid)

theorem mem_put (h : t' ∈ (m.put x).slots) :
    (t' ∈ m.slots ∧ t'.process.pid ≠ x.process.pid) ∨ t' = x := by
  obtain ⟨t, ht, rfl⟩ := List.mem_map.mp h
  split
  · exact .inr rfl
  · next hne => exact .inl ⟨ht, hne⟩

/-- The slot that was put in place. -/
theorem mem_put_of_pid (hx : x.process.pid = s.process.pid) (h : t' ∈ (m.put x).slots)
    (hp : t'.process.pid = s.process.pid) : t' = x :=
  (mem_put h).resolve_left fun ht => ht.2 (hp.trans hx.symm)

/-- The process that went on with another view. -/
theorem mem_resume {v : View} {todo : Prog ρ} (hv : v.process.pid = s.process.pid)
    (h : t' ∈ (m.resume s v todo).slots) (hp : t'.process.pid = s.process.pid) :
    t' = { process := v.process, life := .running todo } :=
  mem_put_of_pid hv h hp

theorem mem_put_self (hs : s ∈ m.slots) (hp : x.process.pid = s.process.pid) :
    x ∈ (m.put x).slots :=
  List.mem_map.mpr ⟨s, hs, if_pos hp.symm⟩

theorem pids_put (m : Machine ρ) (x : Slot ρ) : (m.put x).pids = m.pids := by
  simp only [pids, put, List.map_map]
  refine List.map_congr_left fun t _ => ?_
  simp only [Function.comp]
  split
  · next h => exact h.symm
  · rfl

/-- After the end of a process the living are as they were, but that some
have lost their parent. -/
theorem mem_terminate {how : Ending} (h : t' ∈ (m.terminate s how).slots) (ha : t'.alive) :
    t'.process.pid ≠ s.process.pid ∧ ∃ t ∈ m.slots, t.Undisturbed t' := by
  obtain ⟨t, ht, hf⟩ := List.mem_filterMap.mp h
  split at hf
  · split at hf
    · cases hf
    · cases hf
      cases ha
  · next hne =>
    split at hf
    · split at hf
      · cases hf
        exact ⟨hne, t, ht, rfl, rfl⟩
      · cases hf
    · cases hf
      exact ⟨hne, t', ht, .refl t'⟩

/-- The process that was ended. -/
theorem mem_terminate_self {how : Ending} (h : t' ∈ (m.terminate s how).slots)
    (hp : t'.process.pid = s.process.pid) : t'.life = .ended how := by
  obtain ⟨t, -, hf⟩ := List.mem_filterMap.mp h
  split at hf
  · split at hf <;> cases hf
    rfl
  · next hne =>
    split at hf
    · split at hf <;> cases hf
      exact absurd hp hne
    · cases hf
      exact absurd hp hne

theorem pids_terminate (m : Machine ρ) (s : Slot ρ) (how : Ending) :
    (m.terminate s how).pids.Sublist m.pids := by
  simp only [pids, terminate, List.map_filterMap]
  induction m.slots with
  | nil => exact .slnil
  | cons t rest ih =>
      rw [List.filterMap_cons, List.map_cons]
      split
      · exact ih.cons _
      · next b hb =>
        have hpid : b = t.process.pid := by grind
        rw [hpid]
        exact ih.cons_cons _

theorem mem_notice {pid : Pid} {signal : Nat} (h : t' ∈ (m.notice pid signal).slots) :
    ∃ t ∈ m.slots, t.Undisturbed t' := by
  obtain ⟨t, ht, rfl⟩ := List.mem_map.mp h
  refine ⟨t, ht, ?_⟩
  split
  · exact ⟨rfl, rfl⟩
  · exact .refl t

theorem pids_notice (m : Machine ρ) (pid : Pid) (signal : Nat) :
    (m.notice pid signal).pids = m.pids := by
  simp only [pids, notice, List.map_map]
  refine List.map_congr_left fun t _ => ?_
  simp only [Function.comp]
  split <;> rfl

-- ============================================================== requests

/-- A request to read is answered by something, and the process is as it was. -/
theorem read_of_answerRead {fd : Fd} {count : Nat} {next : Except Errno Bytes → Prog ρ}
    (h : m.answerRead s fd count next = some m') :
    ∃ v r, View.Outward ⟨s.process, m.world⟩ v ∧ m' = m.resume s v (next r) := by
  unfold answerRead at h
  simp only at h
  split at h
  · cases h
    exact ⟨_, _, .refl _, rfl⟩
  · next n f _ =>
    split at h
    · cases h
      exact ⟨_, _, .refl _, rfl⟩
    split at h
    · next id _ =>
      cases h
      exact ⟨_, _, Call.readNode_outward n f id count _, rfl⟩
    all_goals
      split at h
      · split at h
        · cases h
        · cases h
          exact ⟨_, _, .refl _, rfl⟩
      · cases h
        exact ⟨_, _, View.Outward.ofWorld (.of_eq rfl), rfl⟩

/-- The descriptor leads to a pipe that no living process can read from. -/
def Unread (m : Machine ρ) (s : Slot ρ) (fd : Fd) : Prop :=
  ∃ n f p, View.file? ⟨s.process, m.world⟩ fd = some (n, f) ∧
    (f.target = .reader p ∨ f.target = .writer p) ∧ m.holds (.reader p) = false

/-- How a request to write is answered. -/
inductive Wrote (m : Machine ρ) (s : Slot ρ) (fd : Fd) (data : Bytes)
    (next : Except Errno Nat → Prog ρ) : Machine ρ → Prop where
  /-- So many bytes have gone where the descriptor leads. -/
  | taken (n : Nat) (v : View) : (data ≠ [] → 0 < n) →
      (Call.writeNow fd (data.take n)).attempt ⟨s.process, m.world⟩ = (.ok (), v) →
      Wrote m s fd data next (m.resume s v (next (.ok n)))
  | refused (e : Errno) :
      (Call.writeNow fd data).attempt ⟨s.process, m.world⟩ = (.error e, ⟨s.process, m.world⟩) →
      Wrote m s fd data next (m.proceed s (next (.error e)))
  | ignored : m.Unread s fd → s.process.ignored.contains Signal.pipe →
      Wrote m s fd data next (m.proceed s (next (.error .EPIPE)))
  | caught : m.Unread s fd → s.process.ignored.contains Signal.pipe = false →
      Wrote m s fd data next
        ((m.proceed s (next (.error .EPIPE))).notice s.process.pid Signal.pipe)
  | killed : m.Unread s fd → s.process.ignored.contains Signal.pipe = false →
      Wrote m s fd data next (m.terminate s (.signaled Signal.pipe))

/-- Every answer to such a request is one of these. -/
theorem wrote_of_answerWrite {fd : Fd} {data : Bytes} {next : Except Errno Nat → Prog ρ}
    (h : m.answerWrite s fd data next = some m') : Wrote m s fd data next m' := by
  unfold answerWrite at h
  simp only at h
  split at h
  · next hfile =>
    cases h
    exact .refused _ (Call.writeNow_of_closed hfile data)
  · next n f hfile =>
    split at h
    · next hw =>
      cases h
      exact .refused _ (Call.writeNow_of_unwritable hfile (by simpa using hw) data)
    next hw =>
    have hw : f.writable = true := by simpa using hw
    split at h
    · next id ht =>
      cases h
      rcases Call.writeNode_cases n f id data ⟨s.process, m.world⟩ with ⟨v, hv⟩ | ⟨e, he⟩
      · rw [hv]
        refine .taken data.length v (fun hne => List.length_pos_iff.mpr hne) ?_
        rw [List.take_length, Call.writeNow_node hfile hw ht, hv]
      · rw [he]
        refine .refused e ?_
        rw [Call.writeNow_node hfile hw ht, he]
    all_goals
      next p ht =>
      have leads : f.target = .reader p ∨ f.target = .writer p := by simp [ht]
      split at h
      · next hholds =>
        have unread : m.Unread s fd := ⟨n, f, p, hfile, leads, by simpa using hholds⟩
        split at h
        · next hignored =>
          cases h
          exact .ignored unread hignored
        next hignored =>
        have hignored : s.process.ignored.contains Signal.pipe = false := by simpa using hignored
        split at h
        · cases h
          exact .caught unread hignored
        · cases h
          exact .killed unread hignored
      · split at h
        · next hspace =>
          cases h
          refine .taken _ _ (fun hne => ?_) ?_
          · have hlen := List.length_pos_iff.mpr hne
            simp only [Bool.or_eq_true, Bool.and_eq_true, decide_eq_true_eq] at hspace
            rw [List.length_take]
            omega
          · have whole (k : Nat) : data.take (min k data.length) = data.take k :=
              List.take_eq_take_iff.mpr (by omega)
            rw [List.length_take, whole]
            exact Call.writeNow_pipe hfile hw leads _
        · cases h

/-- How a request to send a signal is answered. -/
inductive Sent (m : Machine ρ) (s : Slot ρ) (process : Int) (signal : Nat)
    (next : Except Errno Unit → Prog ρ) : Machine ρ → Prop where
  | refused (e : Errno) : Sent m s process signal next (m.proceed s (next (.error e)))
  /-- The signal makes no difference to whom it is sent to. -/
  | unfelt : Sent m s process signal next (m.proceed s (next (.ok ())))
  | caught (p : Pid) : Sent m s process signal next ((m.proceed s (next (.ok ()))).notice p signal)
  | killed {t : Slot ρ} : t ∈ m.slots → t.alive →
      (t.process.pid : Int) = (if process = 0 then (s.process.pid : Int) else process) →
      Sent m s process signal next ((m.proceed s (next (.ok ()))).terminate t (.signaled signal))

theorem sent_answerKill (m : Machine ρ) (s : Slot ρ) (process : Int) (signal : Nat)
    (next : Except Errno Unit → Prog ρ) :
    Sent m s process signal next (m.answerKill s process signal next) := by
  unfold answerKill
  simp only
  split
  · exact .refused _
  next t ht =>
  have hmem := List.mem_of_find?_eq_some ht
  have target : (t.process.pid : Int) =
      if process = 0 then (s.process.pid : Int) else process := by simpa using List.find?_some ht
  split
  · exact .refused _
  split
  · exact .unfelt
  next halive =>
  simp only [Bool.not_eq_true', Bool.not_eq_false] at halive
  split
  · exact .killed hmem halive target
  split
  · exact .unfelt
  split
  · exact .caught _
  split
  · exact .unfelt
  · exact .killed hmem halive target

/-- What a move is: a process that slept long enough goes on, or a request is
answered. -/
inductive Moved (programs : Installed ρ) (m : Machine ρ) (s : Slot ρ) : Machine ρ → Prop where
  | woken {wake : Nat} {next : Prog ρ} : s.life = .sleeping wake next → wake ≤ m.clock →
      Moved programs m s (m.proceed s next)
  | exited {how : Ending} : s.life = .running (.exit how) →
      Moved programs m s (m.terminate s (eightBits how))
  | acted {act : View → View} {next : View → Prog ρ} : s.life = .running (.step act next) →
      Moved programs m s (m.resume s (act ⟨s.process, m.world⟩) (next ⟨s.process, m.world⟩))
  | read {fd : Fd} {count : Nat} {next : Except Errno Bytes → Prog ρ} (v : View)
      (r : Except Errno Bytes) : s.life = .running (.read fd count next) →
      View.Outward ⟨s.process, m.world⟩ v → Moved programs m s (m.resume s v (next r))
  | wrote {fd : Fd} {data : Bytes} {next : Except Errno Nat → Prog ρ} {m' : Machine ρ} :
      s.life = .running (.write fd data next) → Wrote m s fd data next m' → Moved programs m s m'
  | forked {child : Prog ρ} {next : Pid → Prog ρ} : s.life = .running (.fork child next) →
      Moved programs m s (m.answerFork s child next)
  | unwaited {child : Int} {next : Except Errno (Pid × Ending) → Prog ρ} (e : Errno) :
      s.life = .running (.wait child next) → m.waitResult s child = some (.error e) →
      Moved programs m s (m.proceed s (next (.error e)))
  | waited {child : Int} {next : Except Errno (Pid × Ending) → Prog ρ} (pid : Pid) (how : Ending) :
      s.life = .running (.wait child next) → m.waitResult s child = some (.ok (pid, how)) →
      Moved programs m s ((m.proceed s (next (.ok (pid, how)))).reap pid)
  | sent {process : Int} {signal : Nat} {next : Except Errno Unit → Prog ρ} {m' : Machine ρ} :
      s.life = .running (.kill process signal next) → Sent m s process signal next m' →
      Moved programs m s m'
  | slept {duration : Nat} {next : Prog ρ} : s.life = .running (.sleep duration next) →
      Moved programs m s (m.put { s with life := .sleeping (m.clock + duration) next })
  | refused {path : Bytes} {argv : List Bytes} {next : Errno → Prog ρ} {e : Errno} :
      s.life = .running (.exec path argv next) →
      image m.world.tree (View.held ⟨s.process, m.world⟩) s.process.cwd scriptDepth path
        (if argv.isEmpty then [[]] else argv) = .error e →
      Moved programs m s (m.proceed s (next e))
  | loaded {path : Bytes} {argv : List Bytes} {next : Errno → Prog ρ} {i : Image} :
      s.life = .running (.exec path argv next) →
      image m.world.tree (View.held ⟨s.process, m.world⟩) s.process.cwd scriptDepth path
        (if argv.isEmpty then [[]] else argv) = .ok i →
      Moved programs m s
        (m.put
          { process := { s.process with fds := s.process.fds.afterExec, caught := [], pending := [] }
            life := .sleeping (m.clock + loadTime) (programs i.program i.argv) })

/-- Every move is one of these. -/
theorem moved_of_move {programs : Installed ρ} (h : m.move programs s = some m') :
    Moved programs m s m' := by
  unfold move at h
  split at h
  · cases h
  · next wake next hl =>
    split at h
    · next hwake =>
      cases h
      exact .woken hl hwake
    · cases h
  next todo hl =>
  cases todo with
  | ret r => cases h
  | exit how =>
      cases h
      exact .exited hl
  | step act next =>
      cases h
      exact .acted hl
  | read fd count next =>
      obtain ⟨v, r, hv, rfl⟩ := read_of_answerRead h
      exact .read v r hl hv
  | write fd data next => exact .wrote hl (wrote_of_answerWrite h)
  | fork child next =>
      cases h
      exact .forked hl
  | wait child next =>
      obtain ⟨r, hr, rfl⟩ := Option.map_eq_some_iff.mp h
      cases r with
      | error e => exact .unwaited e hl hr
      | ok x => exact .waited x.1 x.2 hl hr
  | kill process signal next =>
      cases h
      exact .sent hl (sent_answerKill m s process signal next)
  | sleep duration next =>
      cases h
      exact .slept hl
  | exec path argv next =>
      cases h
      unfold answerExec
      simp only
      split
      · next he => exact .refused hl he
      · next hi => exact .loaded hl hi

-- ================================================================= moves

/-- The number is that of a living process. -/
def Lives (m : Machine ρ) (p : Pid) : Prop := ∃ t ∈ m.slots, t.process.pid = p ∧ t.alive

/-- The process waits for a child, and gets this one. -/
def Reaps (m : Machine ρ) (s : Slot ρ) (p : Pid) : Prop :=
  ∃ child next how, s.life = .running (.wait child next) ∧
    m.waitResult s child = some (.ok (p, how))

/-- After a move of another process, a child has the parent that it had,
and if it had ended, it has not changed. -/
def Stays (s : Slot ρ) (m' : Machine ρ) (t : Slot ρ) : Prop :=
  ∃ t' ∈ m'.slots, t'.process.pid = t.process.pid ∧ t'.process.parent = t.process.parent ∧
    (t.process.pid ≠ s.process.pid → t.alive = false → t'.life = t.life)

/-- Numbers tell processes apart. -/
theorem eq_of_pid (h : m.pids.Nodup) (hs : s ∈ m.slots) (ht : t' ∈ m.slots)
    (hpid : s.process.pid = t'.process.pid) : s = t' :=
  List.inj_on_of_nodup_map h hs ht hpid

/-- A change of the process that moved leaves everybody's parents. -/
theorem stays_put {t : Slot ρ} (h : m.pids.Nodup) (hs : s ∈ m.slots)
    (hpid : x.process.pid = s.process.pid) (hparent : x.process.parent = s.process.parent)
    (ht : t ∈ m.slots) : Stays s (m.put x) t := by
  refine ⟨_, List.mem_map_of_mem ht, ?_⟩
  split
  · next hx =>
    obtain rfl := eq_of_pid h ht hs (hx.trans hpid)
    exact ⟨hpid, hparent, fun hne => absurd rfl hne⟩
  · exact ⟨rfl, rfl, fun _ _ => rfl⟩

/-- After the end of a process, the children of the living are as they
were. -/
theorem stays_terminate {t : Slot ρ} {how : Ending} (ht : t ∈ m.slots)
    (hparent : t.process.parent ≠ 0)
    (hx : t.process.pid = x.process.pid → t.process.parent = x.process.parent)
    (hlives : (m.terminate x how).Lives t.process.parent) :
    ∃ t' ∈ (m.terminate x how).slots, t'.process.pid = t.process.pid ∧
      t'.process.parent = t.process.parent ∧
      (t.process.pid ≠ x.process.pid → t'.life = t.life) := by
  obtain ⟨u, hu, hup, ha⟩ := hlives
  have hne : t.process.parent ≠ x.process.pid := hup ▸ (mem_terminate hu ha).1
  by_cases hpid : t.process.pid = x.process.pid
  · refine ⟨{ x with life := .ended how, process := { x.process with fds := {} } },
      List.mem_filterMap.mpr ⟨t, ht, ?_⟩, hpid.symm, (hx hpid).symm, absurd hpid⟩
    rw [hx hpid] at hparent
    simp [hpid, hparent]
  · exact ⟨t, List.mem_filterMap.mpr ⟨t, ht, by simp [hpid, hne]⟩, rfl, rfl, fun _ => rfl⟩

/-- What comes of a move of a process that makes no new process. -/
structure Carries (F : Frame) (m : Machine ρ) (s : Slot ρ) (m' : Machine ρ) : Prop where
  nextPid : m'.nextPid = m.nextPid
  world : m.world.Extends m'.world
  pids : m'.pids.Sublist m.pids
  others : ∀ t' ∈ m'.slots, t'.process.pid ≠ s.process.pid → t'.alive →
    ∃ t ∈ m.slots, t.Undisturbed t'
  mover : ∀ t' ∈ m'.slots, t'.process.pid = s.process.pid → t'.alive →
    F.holds ⟨s.process, m.world⟩ ⟨{ t'.process with parent := s.process.parent }, m'.world⟩ ∧
      (t'.life.Respects F ∨ (m.loads s ∧ t'.life.Respects .onward))
  /-- The children of the living stay, but for one that is waited for. -/
  kin : m.pids.Nodup → s ∈ m.slots → ∀ t ∈ m.slots, t.process.parent ≠ 0 →
    m'.Lives t.process.parent → Stays s m' t ∨ m.Reaps s t.process.pid

namespace Carries

variable {F : Frame}

/-- The process is changed, and the world with it. -/
theorem put (hF : F.Fits) (w : World) (hpid : x.process.pid = s.process.pid)
    (hparent : x.process.parent = s.process.parent)
    (hholds : F.holds ⟨s.process, m.world⟩ ⟨{ x.process with parent := s.process.parent }, w⟩)
    (hlife : x.life.Respects F ∨ (m.loads s ∧ x.life.Respects .onward)) :
    Carries F m s ({ m with world := w }.put x) where
  nextPid := rfl
  world := (hF.onward hholds).world
  pids := by
    rw [pids_put]
    exact .refl _
  others t' ht' hne _ := by
    rcases mem_put ht' with ⟨ht, -⟩ | rfl
    · exact ⟨t', ht, .refl t'⟩
    · exact absurd hpid hne
  mover t' ht' hp _ := by
    rcases mem_put ht' with ⟨-, hne⟩ | rfl
    · exact absurd (hp.trans hpid.symm) hne
    · exact ⟨hholds, hlife⟩
  kin hnodup hs t ht _ _ := .inl (stays_put hnodup hs hpid hparent ht)

/-- The process goes on with another view. -/
theorem resume (hF : F.Fits) {v : View} {todo : Prog ρ} (hv : F.holds ⟨s.process, m.world⟩ v)
    (htodo : todo.Respects F) : Carries F m s (m.resume s v todo) := by
  have kept := hF.onward hv
  refine put hF v.world kept.pid kept.parent ?_ (.inl htodo)
  refine F.trans hv (hF.quiet ⟨⟨rfl, kept.parent.symm, .refl _⟩, rfl, rfl⟩)

/-- The process goes on as it is. -/
theorem proceed (hF : F.Fits) {todo : Prog ρ} (htodo : todo.Respects F) :
    Carries F m s (m.proceed s todo) :=
  put hF m.world rfl rfl (F.refl _) (.inl htodo)

/-- The process ends. -/
theorem exit (F : Frame) (m : Machine ρ) (s : Slot ρ) (how : Ending) :
    Carries F m s (m.terminate s how) where
  nextPid := rfl
  world := .refl _
  pids := pids_terminate m s how
  others _ ht' _ ha := (mem_terminate ht' ha).2
  mover _ ht' hp ha := absurd hp (mem_terminate ht' ha).1
  kin hnodup hs t ht hparent hlives := by
    obtain ⟨t', ht', hpid, hpar, hlife⟩ := stays_terminate ht hparent
      (fun hp => by rw [eq_of_pid hnodup ht hs hp]) hlives
    exact .inl ⟨t', ht', hpid, hpar, fun hne _ => hlife hne⟩

/-- Who has not been disturbed since is as after the move. -/
theorem others_of_undisturbed (h : Carries F m s m') {u : Slot ρ} (hu : u ∈ m'.slots)
    (hut : u.Undisturbed t') (hne : t'.process.pid ≠ s.process.pid) (ha : t'.alive) :
    ∃ t ∈ m.slots, t.Undisturbed t' := by
  obtain ⟨t, ht, htu⟩ := h.others u hu (hut.pid ▸ hne) (hut.alive ▸ ha)
  exact ⟨t, ht, htu.trans hut⟩

theorem mover_of_undisturbed (h : Carries F m s m') (hF : F.Fits) {u : Slot ρ} (hu : u ∈ m'.slots)
    (hut : u.Undisturbed t') (hp : t'.process.pid = s.process.pid) (ha : t'.alive) :
    F.holds ⟨s.process, m.world⟩ ⟨{ t'.process with parent := s.process.parent }, m'.world⟩ ∧
      (t'.life.Respects F ∨ (m.loads s ∧ t'.life.Respects .onward)) := by
  obtain ⟨hholds, hlife⟩ := h.mover u hu (hut.pid ▸ hp) (hut.alive ▸ ha)
  refine ⟨F.trans hholds (hF.quiet ?_), by rw [hut.life]; exact hlife⟩
  rw [hut.process]
  exact ⟨⟨rfl, rfl, .refl _⟩, rfl, rfl⟩

/-- Afterwards some process is ended. -/
theorem terminate (h : Carries F m s m') {t : Slot ρ} (ht : t ∈ m.slots) (halive : t.alive)
    (how : Ending) (hF : F.Fits) : Carries F m s (m'.terminate t how) where
  nextPid := h.nextPid
  world := h.world
  pids := (pids_terminate m' t how).trans h.pids
  others t' ht' hne ha := by
    obtain ⟨-, u, hu, hut⟩ := mem_terminate ht' ha
    exact h.others_of_undisturbed hu hut hne ha
  mover t' ht' hp ha := by
    obtain ⟨-, u, hu, hut⟩ := mem_terminate ht' ha
    exact h.mover_of_undisturbed hF hu hut hp ha
  kin hnodup hs u hu hparent hlives := by
    have before : m'.Lives u.process.parent := by
      obtain ⟨t', ht', hp, ha⟩ := hlives
      obtain ⟨-, x, hx, hxt⟩ := mem_terminate ht' ha
      exact ⟨x, hx, hxt.pid ▸ hp, hxt.alive ▸ ha⟩
    rcases h.kin hnodup hs u hu hparent before with ⟨u', hu', hpid, hpar, hlife⟩ | hreaps
    · have same : u.process.pid = t.process.pid → u = t := eq_of_pid hnodup hu ht
      obtain ⟨u'', hu'', hpid', hpar', hlife'⟩ := stays_terminate hu' (hpar ▸ hparent)
        (fun hp => by rw [hpar, same (hpid ▸ hp)]) (hpar ▸ hlives)
      refine .inl ⟨u'', hu'', hpid'.trans hpid, hpar'.trans hpar, fun hne hdead => ?_⟩
      by_cases hu : u = t
      · rw [hu, halive] at hdead
        cases hdead
      · rw [hlife' fun hp => hu (same (hpid ▸ hp)), hlife hne hdead]
    · exact .inr hreaps

/-- Afterwards some process is told of a signal. -/
theorem notice (h : Carries F m s m') (pid : Pid) (signal : Nat) (hF : F.Fits) :
    Carries F m s (m'.notice pid signal) where
  nextPid := h.nextPid
  world := h.world
  pids := by
    rw [pids_notice]
    exact h.pids
  others t' ht' hne ha := by
    obtain ⟨u, hu, hut⟩ := mem_notice ht'
    exact h.others_of_undisturbed hu hut hne ha
  mover t' ht' hp ha := by
    obtain ⟨u, hu, hut⟩ := mem_notice ht'
    exact h.mover_of_undisturbed hF hu hut hp ha
  kin hnodup hs u hu hparent hlives := by
    have before : m'.Lives u.process.parent := by
      obtain ⟨t', ht', hp, ha⟩ := hlives
      obtain ⟨x, hx, hxt⟩ := mem_notice ht'
      exact ⟨x, hx, hxt.pid ▸ hp, hxt.alive ▸ ha⟩
    refine (h.kin hnodup hs u hu hparent before).imp_left ?_
    rintro ⟨u', hu', hpid, hpar, hlife⟩
    refine ⟨_, List.mem_map_of_mem hu', ?_⟩
    split <;> exact ⟨hpid, hpar, hlife⟩

/-- Afterwards a process is gone that was waited for. -/
theorem reap (h : Carries F m s m') {pid : Pid} (hreaps : m.Reaps s pid) :
    Carries F m s (m'.reap pid) where
  nextPid := h.nextPid
  world := h.world
  pids := (List.filter_sublist.map _).trans h.pids
  others t' ht' := h.others t' (List.mem_filter.mp ht').1
  mover t' ht' := h.mover t' (List.mem_filter.mp ht').1
  kin hnodup hs u hu hparent hlives := by
    have before : m'.Lives u.process.parent := by
      obtain ⟨t', ht', hp, ha⟩ := hlives
      exact ⟨t', (List.mem_filter.mp ht').1, hp, ha⟩
    by_cases hp : u.process.pid = pid
    · exact .inr (hp ▸ hreaps)
    · refine (h.kin hnodup hs u hu hparent before).imp_left ?_
      rintro ⟨u', hu', hpid, hpar, hlife⟩
      refine ⟨u', List.mem_filter.mpr ⟨hu', ?_⟩, hpid, hpar, hlife⟩
      rw [hpid]
      exact decide_eq_true hp

end Carries

theorem Wrote.carries {F : Frame} (hF : F.Fits) {fd : Fd} {data : Bytes}
    {next : Except Errno Nat → Prog ρ} (hnext : ∀ r, (next r).Respects F)
    (h : Wrote m s fd data next m') : Carries F m s m' := by
  cases h with
  | taken n v _ hv =>
      have kept := (Call.writeNow_outward fd (data.take n)).of_attempt hv
      exact .resume hF (hF.quiet kept.quiet) (hnext _)
  | refused e _ => exact .proceed hF (hnext _)
  | ignored _ _ => exact .proceed hF (hnext _)
  | caught _ _ => exact (Carries.proceed hF (hnext _)).notice _ _ hF
  | killed _ _ => exact .exit F m s _

theorem Sent.carries {F : Frame} (hF : F.Fits) {process : Int} {signal : Nat}
    {next : Except Errno Unit → Prog ρ} (hnext : ∀ r, (next r).Respects F)
    (h : Sent m s process signal next m') : Carries F m s m' := by
  have gone := Carries.proceed (m := m) (s := s) hF (hnext (.ok ()))
  cases h with
  | refused e => exact .proceed hF (hnext _)
  | unfelt => exact gone
  | caught p => exact gone.notice _ _ hF
  | killed hmem halive _ => exact gone.terminate hmem halive _ hF

/-- What comes of a move. A fork comes with a new process; what comes of
everything else is carried. -/
theorem move_carries {F : Frame} (hF : F.Fits) {programs : Installed ρ}
    (hprograms : ∀ name args, (programs name args).Respects .onward) (hs : s.life.Respects F)
    (h : m.move programs s = some m') :
    Carries F m s m' ∨
      ∃ child next, s.life = .running (.fork child next) ∧ m' = m.answerFork s child next := by
  cases moved_of_move h with
  | woken hl _ =>
      rw [hl] at hs
      exact .inl (.proceed hF hs)
  | exited _ => exact .inl (.exit F m s _)
  | acted hl =>
      rw [hl] at hs
      exact .inl (.resume hF (hs.1 _) (hs.2 _))
  | read v r hl hv =>
      rw [hl] at hs
      exact .inl (.resume hF (hF.quiet hv.quiet) (hs r))
  | wrote hl hwrote =>
      rw [hl] at hs
      exact .inl (hwrote.carries hF hs)
  | forked hl => exact .inr ⟨_, _, hl, rfl⟩
  | unwaited e hl _ =>
      rw [hl] at hs
      exact .inl (.proceed hF (hs _))
  | waited pid how hl hresult =>
      rw [hl] at hs
      exact .inl ((Carries.proceed hF (hs _)).reap ⟨_, _, how, hl, hresult⟩)
  | sent hl hsent =>
      rw [hl] at hs
      exact .inl (hsent.carries hF hs)
  | slept hl =>
      rw [hl] at hs
      exact .inl (.put hF m.world rfl rfl (F.refl _) (.inl hs))
  | refused hl _ =>
      rw [hl] at hs
      exact .inl (.proceed hF (hs _))
  | loaded hl hi =>
      refine .inl (.put hF m.world rfl rfl (hF.quiet ⟨⟨rfl, rfl, .refl _⟩, rfl, rfl⟩)
        (.inr ⟨?_, hprograms _ _⟩))
      simp only [loads, hl, hi, Except.toOption, Option.isSome_some]

/-- What ended does not move. -/
theorem alive_of_move {programs : Installed ρ} (h : m.move programs s = some m') : s.alive := by
  unfold move at h
  unfold Slot.alive
  split
  · next hl => rw [hl] at h; cases h
  · rfl

-- ================================================================= forks

/-- The process that a fork makes. -/
def born (m : Machine ρ) (s : Slot ρ) (child : Prog ρ) : Slot ρ :=
  { process :=
      { s.process with pid := m.nextPid, parent := s.process.pid, pending := [], log := [] }
    life := .running child }

theorem slots_answerFork (m : Machine ρ) (s : Slot ρ) (child : Prog ρ) (next : Pid → Prog ρ) :
    (m.answerFork s child next).slots
      = (m.proceed s (next m.nextPid)).slots ++ [m.born s child] := rfl

-- ================================================================= sound

/-- Processes have numbers of their own, and their programs are content
with what the machine grants. -/
structure Sound (m : Machine ρ) : Prop where
  bounds : ∀ s ∈ m.slots, 0 < s.process.pid ∧ s.process.pid < m.nextPid
  distinct : m.pids.Nodup
  content : ∀ s ∈ m.slots, s.life.Respects .onward

namespace Sound

/-- Two slots with one number are one. -/
theorem eq_of_pid (h : m.Sound) (hs : s ∈ m.slots) (ht : t' ∈ m.slots)
    (hpid : s.process.pid = t'.process.pid) : s = t' :=
  Machine.eq_of_pid h.distinct hs ht hpid

/-- Other processes keep their programs, and the one that moved goes on
with its own. -/
theorem carries (h : m.Sound) (hm : Carries .onward m s m') : m'.Sound where
  bounds t' ht' := by
    have hmem : t'.process.pid ∈ m.pids := hm.pids.subset (List.mem_map_of_mem ht')
    obtain ⟨t, ht, hpid⟩ := List.mem_map.mp hmem
    rw [hm.nextPid, ← hpid]
    exact h.bounds t ht
  distinct := h.distinct.sublist hm.pids
  content t' ht' := by
    cases ha : t'.alive with
    | false =>
        unfold Slot.alive at ha
        split at ha
        · next hl => rw [hl]; trivial
        · cases ha
    | true =>
        by_cases hp : t'.process.pid = s.process.pid
        · rcases (hm.mover t' ht' hp ha).2 with hl | ⟨-, hl⟩ <;> exact hl
        · obtain ⟨t, ht, hut⟩ := hm.others t' ht' hp ha
          rw [hut.life]
          exact h.content t ht

/-- A new process has a new number. -/
theorem fork (h : m.Sound) (hs : s ∈ m.slots) {child : Prog ρ} {next : Pid → Prog ρ}
    (hl : s.life = .running (.fork child next)) : (m.answerFork s child next).Sound := by
  have hcontent := h.content s hs
  rw [hl] at hcontent
  have gone : (m.proceed s (next m.nextPid)).Sound :=
    h.carries (Carries.proceed Frame.onward_fits (hcontent.2 m.nextPid) (s := s))
  refine ⟨fun t ht => ?_, ?_, fun t ht => ?_⟩
  · rw [slots_answerFork, List.mem_append, List.mem_singleton] at ht
    rcases ht with ht | rfl
    · exact ⟨(gone.bounds t ht).1, Nat.lt_succ_of_lt (gone.bounds t ht).2⟩
    · exact ⟨Nat.zero_lt_of_lt (h.bounds s hs).2, Nat.lt_succ_self m.nextPid⟩
  · have hpids : (m.answerFork s child next).pids = m.pids ++ [m.nextPid] := by
      rw [pids, slots_answerFork, List.map_append]
      exact congrArg (· ++ [m.nextPid]) (pids_put m _)
    rw [hpids, List.nodup_append]
    refine ⟨h.distinct, List.nodup_singleton _, fun p hp q hq => ?_⟩
    obtain ⟨t, ht, rfl⟩ := List.mem_map.mp hp
    obtain rfl := List.mem_singleton.mp hq
    exact Nat.ne_of_lt (h.bounds t ht).2
  · rw [slots_answerFork, List.mem_append, List.mem_singleton] at ht
    rcases ht with ht | rfl
    · exact gone.content t ht
    · exact hcontent.1

/-- Moves preserve soundness. -/
theorem move (h : m.Sound) (hs : s ∈ m.slots) {programs : Installed ρ}
    (hprograms : ∀ name args, (programs name args).Respects .onward)
    (hm : m.move programs s = some m') : m'.Sound := by
  rcases move_carries Frame.onward_fits hprograms (h.content s hs) hm with
    hc | ⟨child, next, hl, rfl⟩
  · exact h.carries hc
  · exact h.fork hs hl

section

variable {programs : Installed ρ}
  (hprograms : ∀ name args, (programs name args).Respects .onward)
include hprograms

/-- Open files stay, whoever moves. -/
theorem move_world (h : m.Sound) (hs : s ∈ m.slots) (hm : m.move programs s = some m') :
    m.world.Extends m'.world := by
  rcases move_carries Frame.onward_fits hprograms (h.content s hs) hm with hc | ⟨_, _, -, rfl⟩
  · exact hc.world
  · exact .refl _

/-- Numbers are given out upwards. -/
theorem move_nextPid (h : m.Sound) (hs : s ∈ m.slots) (hm : m.move programs s = some m') :
    m.nextPid ≤ m'.nextPid := by
  rcases move_carries Frame.onward_fits hprograms (h.content s hs) hm with hc | ⟨_, _, -, rfl⟩
  · exact Nat.le_of_eq hc.nextPid.symm
  · exact Nat.le_succ _

/-- Processes that neither moved nor are new are as they were, as long as
they live. -/
theorem move_others (h : m.Sound) (hs : s ∈ m.slots) (hm : m.move programs s = some m')
    (ht' : t' ∈ m'.slots) (hne : t'.process.pid ≠ s.process.pid) (hnew : t'.process.pid ≠ m.nextPid)
    (ha : t'.alive) : ∃ t ∈ m.slots, t.Undisturbed t' := by
  rcases move_carries Frame.onward_fits hprograms (h.content s hs) hm with
    hc | ⟨child, next, -, rfl⟩
  · exact hc.others t' ht' hne ha
  · rcases List.mem_append.mp ht' with ht' | ht'
    · rcases mem_put ht' with ⟨ht, -⟩ | rfl
      · exact ⟨t', ht, .refl t'⟩
      · exact absurd rfl hne
    · obtain rfl := List.mem_singleton.mp ht'
      exact absurd rfl hnew

/-- Only a fork makes a process with the next number. -/
theorem move_new (h : m.Sound) (hs : s ∈ m.slots) (hm : m.move programs s = some m')
    (ht' : t' ∈ m'.slots) (hnew : t'.process.pid = m.nextPid) :
    ∃ child next, s.life = .running (.fork child next) ∧ m' = m.answerFork s child next ∧
      t' = m.born s child := by
  rcases move_carries Frame.onward_fits hprograms (h.content s hs) hm with
    hc | ⟨child, next, hl, rfl⟩
  · obtain ⟨t, ht, hpid⟩ := List.mem_map.mp (hc.pids.subset (List.mem_map_of_mem ht'))
    exact absurd (hpid.trans hnew) (Nat.ne_of_lt (h.bounds t ht).2)
  · refine ⟨child, next, hl, rfl, ?_⟩
    rcases List.mem_append.mp ht' with ht' | ht'
    · rcases mem_put ht' with ⟨ht, -⟩ | rfl
      · exact absurd hnew (Nat.ne_of_lt (h.bounds t' ht).2)
      · exact absurd hnew (Nat.ne_of_lt (h.bounds s hs).2)
    · exact List.mem_singleton.mp ht'

end

end Sound

end Machine

end LineShell.Posix
