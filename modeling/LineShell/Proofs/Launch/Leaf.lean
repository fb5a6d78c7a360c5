/-
What comes of an external command.

# The process

A process that is to run an external command was launched for it, or is a
branch whose wiring is in place. `Pending` and `Settled` say how it stands
with it at any later moment. It is pending while it is able to go on, or is
to write what is left of a report. It is settled when the command was
refused and that was reported, when its program has taken over, or when
somebody has killed it. Each comes with the history of the process, from
which it can be seen which files were opened, where they are in place, and
what was written where.

A report goes to standard error as it is then: the one that was redirected,
unless it is the redirections that have failed. If that is a pipe that
nobody reads, the report is the end of the process by the signal of broken
pipes, which the process does not ignore any more (`Settled.silenced`).

# The caller

In a fair run the command is settled some time, unless the process is kept
for ever from writing its report (`Endless.settles`). Whoever waits for the
process is told how it ended. Nothing of that changes the caller: from a
request to start a process, or to wait for one, to its next request it has
the same directory, environment and descriptors (`Account.Rests`).
-/
import Mathlib.Data.List.Chain
import LineShell.Proofs.Launch.History
import LineShell.Proofs.Launch.Refusal
import LineShell.Proofs.Launch.Topology

namespace LineShell

open Posix Prog.Event

variable {ρ : Type} {result : Except ExecError Int → ρ}

theorem Refusal.status_mod (r : Refusal) : r.status % 256 = r.status := by
  cases r with
  | unopened | nul => rfl
  | unfound cause =>
      rw [status]
      split <;> rfl

-- ================================================================= callers

/-- Working directory, environment and descriptors are the same. -/
structure Posix.Process.Alike (p p' : Process) : Prop where
  context : p'.context = p.context
  fds : p'.fds = p.fds

/-- Was a process started, or waited for? -/
def Exchange.isCalm : Exchange → Bool
  | .launch _ _ _ | .fork _ _ _ _ _ _ | .wait _ _ => true
  | .builtin _ _ _ _ | .channel _ _ | .release _ => false

/-- After the one a process was as it was before it, as the other found it. -/
def Deed.Calm (d e : Deed) : Prop :=
  d.exchange.isCalm = true → d.view.process.Alike e.view.process

namespace Account

variable {a a' b : Account} {v v' : View}

/-- By starting processes and waiting for them none that takes a walk has changed. -/
structure Steady (a : Account) : Prop where
  own : a.own.IsChain Deed.Calm
  wiring : (∃ p w, a.stage = .wiring p w) → a.own = []

/-- Nor has it changed since, if that was the last thing it did. -/
def Rests (a : Account) (v : View) : Prop :=
  ∀ d ∈ a.own.getLast?, d.exchange.isCalm = true → ∀ rest, a.stage = .walking rest →
    d.view.process.Alike v.process

/-- One deed more. -/
theorem Steady.does (hs : a.Steady) (hr : a.Rests v) {w : Walk} (hstage : a.stage = .walking w)
    {x : Exchange} {rest : Walk} {ending : Option Ending}
    (hx : x.isCalm = true → v.process.Alike v'.process) :
    (a.does x v rest ending).Steady ∧ (a.does x v rest ending).Rests v' := by
  refine ⟨⟨?_, fun ⟨p, w, h⟩ => by cases h⟩, ?_⟩
  · refine List.isChain_append.mpr ⟨hs.own, .singleton _, fun d hd e he => ?_⟩
    cases he
    exact fun hcalm => hr d hd hcalm w hstage
  · intro d hd hcalm _ _
    rw [Account.does, List.getLast?_concat] at hd
    cases hd
    exact hx hcalm

/-- A process that is not on its walk any more. -/
theorem Steady.leaves (hs : a.Steady) {stage : Stage} (hwiring : ∀ p w, stage ≠ .wiring p w)
    (hwalking : ∀ rest, stage ≠ .walking rest) :
    { a with stage }.Steady ∧ { a with stage }.Rests v' :=
  ⟨⟨hs.own, fun ⟨p, w, h⟩ => absurd h (hwiring p w)⟩,
    fun _ _ _ rest h => absurd h (hwalking rest)⟩

theorem rests_invariant : Account.Invariant Steady Rests where
  meanwhile h hv d hd hcalm rest hstage := by
    obtain ⟨hcontext, hfds⟩ := h d hd hcalm rest hstage
    rw [hv.process]
    exact ⟨hcontext, hfds⟩
  turn hs hr hturn := by
    cases hturn with
    | wired hstage _ =>
        have hown := hs.wiring ⟨_, _, hstage⟩
        refine ⟨⟨hs.own, fun _ => hown⟩, fun d hd => ?_⟩
        rw [show _ = _ from hown] at hd
        cases hd
    | log hstage =>
        exact ⟨⟨hs.own, fun ⟨p, w, h⟩ => by cases h⟩, fun d hd hcalm _ _ =>
          ⟨(hr d hd hcalm _ hstage).context, (hr d hd hcalm _ hstage).fds⟩⟩
    | builtin hstage _ => exact hs.does hr hstage nofun
    | leave hstage _ => exact hs.leaves nofun nofun
    | launch pid hstage => exact hs.does hr hstage fun _ => ⟨rfl, rfl⟩
    | fork pid hstage => exact hs.does hr hstage fun _ => ⟨rfl, rfl⟩
    | channel hstage _ => exact hs.does hr hstage nofun
    | release hstage => exact hs.does hr hstage nofun
    | wait raw hstage => exact hs.does hr hstage fun _ => ⟨rfl, rfl⟩
    | prepare hstage _ => exact hs.leaves nofun nofun
    | prepared hstage _ hnext => rcases hnext with rfl | rfl <;> exact hs.leaves nofun nofun
    | quit _ _ => exact hs.leaves nofun nofun
    | away _ _ => exact hs.leaves nofun nofun
  birth hs hr hc _ := by
    obtain ⟨-, hown⟩ := child_deeds hc
    refine ⟨⟨by rw [hown]; exact .nil, fun _ => hown⟩, fun d hd => ?_⟩
    rw [hown] at hd
    cases hd

/-- Programs are run for leaves. -/
theorem leaf_invariant :
    Account.Invariant (fun a => ∀ c, a.stage = .program c → a.tree = .leaf c) fun _ _ => True where
  meanwhile _ _ := trivial
  turn {a v a' v'} _ _ hturn := by
    refine ⟨fun c hc => ?_, trivial⟩
    cases hturn with
    | wired hstage _ =>
        change a.onceWired = _ at hc
        change a.tree = _
        unfold onceWired at hc
        split at hc
        · next c' hx =>
          cases hc
          unfold Tree.external? at hx
          split at hx
          · next c' htree =>
            split at hx <;> cases hx
            exact htree
          · cases hx
        · cases hc
    | prepared _ _ hnext => rcases hnext with rfl | rfl <;> cases hc
    | log | builtin | leave | launch | fork | channel | release | wait | prepare | quit | away =>
        cases hc
  birth _ _ hc _ := by
    refine ⟨fun c hprogram => ?_, trivial⟩
    unfold child? at hc
    split at hc <;> cases hc <;> cases hprogram
    rfl

end Account

/-- A view at a terminal, with a device that is empty and the directory of
descriptors. -/
def Posix.View.atTerminalWithDevices : View :=
  let v := View.atTerminal
  let tree := (v.world.tree.add FileTree.root (Bytes.ofString "null") 0o666 .null).1
  { v with world := { v.world with
      tree := (tree.add FileTree.root (Bytes.ofString "fd") 0o555 .descriptors).1 } }

namespace Watch

variable {programs : Installed ρ} {w₀ w w' : Watch ρ} {p : Pid} {c : Command} {t : FdTable}
  {prog : Prog ρ}

-- =================================================================== fates

/-- The process is at this point of the program for the command. -/
def AtCommand (programs : Installed ρ) (p : Pid) (c : Command) (w₀ : Watch ρ)
    (ys : List Prog.Event) (s : Slot ρ) (todo : Prog ρ) (w : Watch ρ) : Prop :=
  Under programs p (runExternal c : Task ρ Empty).run w₀ ys s todo w

/-- The command is refused, and so much is left of the report. -/
inductive Reports (programs : Installed ρ) (p : Pid) (c : Command) (t : FdTable) (w₀ : Watch ρ)
    (s : Slot ρ) (r : Refusal) (rest : Bytes) (w : Watch ρ) : Prop where
  | mk {xs ys : List Prog.Event} {next : Except Errno Nat → Prog ρ} :
      AtCommand programs p c w₀ (xs ++ ys) s (.write Fd.stderr rest next) w →
      c.Refused ρ t xs s.process.fds r → rest ≠ [] →
      Hands Fd.stderr s.process.fds (r.line c) ys rest → Reports programs p c t w₀ s r rest w

/-- The process is still busy with the command. -/
inductive Pending (programs : Installed ρ) (p : Pid) (c : Command) (t : FdTable) (w₀ w : Watch ρ) :
    Prop where
  | able {ys : List Prog.Event} {s : Slot ρ} {todo : Prog ρ} :
      AtCommand programs p c w₀ ys s todo w → (w.machine.move programs s).isSome →
      Pending programs p c t w₀ w
  | reporting {s : Slot ρ} {r : Refusal} {rest : Bytes} :
      Reports programs p c t w₀ s r rest w → Pending programs p c t w₀ w

/-- A process that is busy lives. -/
theorem Pending.lives (h : Pending programs p c t w₀ w) : w.machine.Lives p := by
  have at_command {ys : List Prog.Event} {s : Slot ρ} {todo : Prog ρ}
      (h : AtCommand programs p c w₀ ys s todo w) : w.machine.Lives p :=
    ⟨s, h.slot, h.pid, by rw [Slot.alive, h.life]⟩
  cases h with
  | able h _ => exact at_command h
  | reporting h =>
      cases h with
      | mk h _ _ _ => exact at_command h

/-- The process has died, like that if it is still known. -/
structure Gone (p : Pid) (how : Ending) (w : Watch ρ) : Prop where
  not_lives : ¬w.machine.Lives p
  dead : ∀ how', w.machine.Dead p how' → how' = how

/-- The process is done with the command. -/
inductive Settled (programs : Installed ρ) (p : Pid) (c : Command) (t : FdTable) (w₀ w : Watch ρ) :
    Prop where
  /-- It was refused, has reported that, and has exited with the status. -/
  | refused {xs ys : List Prog.Event} {t' : FdTable} {r : Refusal} {w₁ : Watch ρ} :
      History programs p w₀ (xs ++ ys) w₁ → c.Refused ρ t xs t' r →
      Told Fd.stderr t' (r.line c) ys → Run programs w₁ w → Gone p (.exited r.status) w →
      Settled programs p c t w₀ w
  /-- It was refused, and nobody can read the report. -/
  | silenced {s : Slot ρ} {r : Refusal} {rest : Bytes} {w₁ : Watch ρ} :
      Reports programs p c t w₀ s r rest w₁ → w₁.machine.Unread s Fd.stderr → Run programs w₁ w →
      Gone p (.signaled Signal.pipe) w → Settled programs p c t w₀ w
  /-- Its program was found, and has taken over; an exit is its own. -/
  | ran {xs ys : List Prog.Event} {s : Slot ρ} {path : Bytes} {argv : List Bytes}
      {next : (Errno → Prog ρ) → Errno → Prog ρ} {k : Errno → Prog ρ} {i : Machine.Image}
      {w₁ : Watch ρ} : AtCommand programs p c w₀ (xs ++ ys) s (.exec path argv (next k)) w₁ →
      c.Redirected t xs s.process.fds → c.hasNulWord = false → (∀ y ∈ ys, y.Idle) →
      c.search.Leads ys (fun k => .exec path argv (next k)) →
      View.image ⟨s.process, w₁.machine.world⟩ path argv = .ok i →
      Run programs (w₁.moved s (w₁.machine.put (w₁.machine.loaded programs s i))) w →
      (∀ code, w.machine.Dead p (.exited code) → ∃ code',
        Prog.Left programs (programs i.program i.argv) (.exit (.exited code')) ∧
          code = code' % 256) → Settled programs p c t w₀ w
  /-- Another process has killed it while it was busy with the command. -/
  | felled {ys : List Prog.Event} {s : Slot ρ} {todo : Prog ρ} {w₁ w₂ : Watch ρ} :
      AtCommand programs p c w₀ ys s todo w₁ → Felled programs w₁ p w₂ → Run programs w₂ w →
      ¬w.machine.Lives p → Settled programs p c t w₀ w

section

variable {s₀ : Slot ρ} (hprograms : ∀ name args, (programs name args).Respects .onward)
  (hsound : ∀ w, Run programs w₀ w → w.machine.Sound) (hs₀ : s₀ ∈ w₀.machine.slots)
  (hstd : s₀.process.fds.Standard)
include hprograms hsound hs₀ hstd

theorem AtCommand.trying {ys : List Prog.Event} {s : Slot ρ} {todo : Prog ρ}
    (h : AtCommand programs s₀.process.pid c w₀ ys s todo w) :
    c.Trying s₀.process.fds ys s.process.fds todo := by
  have halive : s.alive := by rw [Slot.alive, h.life]
  have hlinked := h.history.linked hprograms hsound hs₀ rfl h.slot h.pid halive
  exact trying_of_makes h.makes hlinked h.history.sound hstd

omit hs₀ hstd in
/-- Who has ended is gone for good. -/
theorem gone_of_terminate {s : Slot ρ} {how : Ending} (hrun₁ : Run programs w₀ w)
    (hs : s ∈ w.machine.slots)
    (hm : w.machine.move programs s = some (w.machine.terminate s how))
    (hrun : Run programs (w.moved s (w.machine.terminate s how)) w') :
    Gone s.process.pid how w' := by
  have hrun₂ : Run programs w₀ (w.moved s (w.machine.terminate s how)) := .tail hrun₁ (.move hs hm)
  have hknown : s.process.pid < (w.machine.terminate s how).nextPid :=
    ((hsound w hrun₁).bounds s hs).2
  obtain ⟨hnot, hback⟩ := dead_before hprograms (fun w hw => hsound w (hrun₂.trans hw)) hknown
    (fun ⟨u, hu, hp, halive⟩ => (Machine.mem_terminate hu halive).1 hp) hrun
  refine ⟨hnot, fun how' hdead => ?_⟩
  obtain ⟨u, hu, hp, hl⟩ := hback how' hdead
  have hended : u.life = .ended how := Machine.mem_terminate_self hu hp
  rw [hl] at hended
  exact Life.ended.inj hended

/-- At every later moment the command is pending or settled. -/
theorem settled_of_run (hl : s₀.life = .running (runExternal c : Task ρ Empty).run)
    (hrun : Run programs w₀ w) : Pending programs s₀.process.pid c s₀.process.fds w₀ w ∨
      Settled programs s₀.process.pid c s₀.process.fds w₀ w := by
  have hexits : Prog.Exits (fun _ => True) (runExternal c : Task ρ Empty).run :=
    (exits_runExternal (fun _ _ => trivial) c).run
  cases fares_of_run hprograms hsound hs₀ hl hexits hrun with
  | @under ys s todo h =>
      have can {m : Machine ρ} (hm : w.machine.move programs s = some m) :
          (w.machine.move programs s).isSome := by rw [hm]; rfl
      refine .inl ?_
      cases AtCommand.trying hprograms hsound hs₀ hstd h with
      | acting => exact .able h (can (Machine.move_step h.life))
      | asking _ _ _ _ => exact .able h (by rw [Machine.move, h.life]; rfl)
      | reporting href hne hhands => exact .reporting ⟨h, href, hne, hhands⟩
      | leaving _ _ => exact .able h (can (Machine.move_exit h.life))
  | @loaded ys w₁ s path argv next i h himage hrest =>
      refine .inr ?_
      have hrun₂ := h.history.run.tail (.move h.slot (Machine.move_exec h.life himage))
      cases AtCommand.trying hprograms hsound hs₀ hstd h with
      | asking hplace hnul hidle hleads =>
          refine .ran h hplace hnul hidle hleads himage hrest fun code hdead => ?_
          exact exited_of_run hprograms (fun w hw => hsound w (hrun₂.trans hw))
            (Machine.mem_put_self h.slot rfl) rfl .whole hrest (h.pid ▸ hdead)
  | exited h hm hrest =>
      refine .inr ?_
      have hgone := gone_of_terminate hprograms hsound h.history.run h.slot hm hrest
      cases AtCommand.trying hprograms hsound hs₀ hstd h with
      | @leaving xs ys t' _ r href htold =>
          rw [h.pid, r.status_mod] at hgone
          exact .refused h.history href htold (.head (.move h.slot hm) hrest) hgone
  | broken h hunread hm hrest =>
      refine .inr ?_
      have hgone := gone_of_terminate hprograms hsound h.history.run h.slot hm hrest
      cases AtCommand.trying hprograms hsound hs₀ hstd h with
      | reporting href hne hhands =>
          exact .silenced ⟨h, href, hne, hhands⟩ hunread (.head (.move h.slot hm) hrest)
            (h.pid ▸ hgone)
  | felled h hfelled hrest =>
      obtain ⟨-, hdead, r, hr, -, ⟨r', hr', -, m, hm, rfl⟩, -⟩ := id hfelled
      have hrun₂ : Run programs w₀ _ := h.history.run.tail (.move hr' hm)
      have hknown := known_of_run hprograms hsound (hsound _ .refl |>.bounds s₀ hs₀).2 hrun₂
      obtain ⟨hnot, -⟩ :=
        dead_before hprograms (fun w hw => hsound w (hrun₂.trans hw)) hknown hdead hrest
      exact .inr (.felled h hfelled hrest hnot)

end

-- ==================================================================== runs

/-- What comes of an external command, in a run, from when a process is to
run it. -/
structure External (programs : Installed ρ) (p : Pid) (c : Command) (t : FdTable)
    (f : Nat → Watch ρ) (k : Nat) : Prop where
  stands : ∀ n, k ≤ n → Pending programs p c t (f k) (f n) ∨ Settled programs p c t (f k) (f n)
  /-- It is settled some time, unless the report is kept from going on. -/
  settles : Fair programs f → (∃ n, k ≤ n ∧ Settled programs p c t (f k) (f n)) ∨
    ∀ n, ∃ j s r rest, n ≤ j ∧ Reports programs p c t (f k) s r rest (f j) ∧
      (f j).machine.move programs s = none
  /-- Whoever waits for the process is told how it has ended. -/
  told : ∀ n p' b, (f n).accounts p' = some b → ∀ d ∈ b.own, ∀ r, d.exchange = .wait p r →
    ∃ j how, k ≤ j ∧ j < n ∧ Settled programs p c t (f k) (f j) ∧
      (f j).machine.Dead p how ∧ r = told how
  /-- Who starts it or waits for it stays as it is. -/
  callers : ∀ n, (∀ p' b, (f n).accounts p' = some b → b.Steady) ∧
    ∀ s ∈ (f n).machine.slots, s.alive → ∀ b, (f n).accounts s.process.pid = some b →
      b.Rests ⟨s.process, (f n).machine.world⟩

section

variable {tree : Tree} {depth : Nat} {parent : Option Operator} {m : Machine ρ} {f : Nat → Watch ρ}
  {k : Nat} {s : Slot ρ} {a : Account}
  (hprograms : ∀ name args, (programs name args).Respects .onward)
  (hb : m.Begins result tree depth parent)
include hprograms hb

/-- The standard streams of a process are open that is to run a command. -/
theorem standard_of_program {shell : Slot ρ} (hshell : shell ∈ m.slots)
    (hmain : shell.process.pid = Machine.mainPid) (hstd : shell.process.fds.Standard)
    (hrun : Run programs (begin tree depth parent m) w) (hs : s ∈ w.machine.slots)
    (halive : s.alive) (ha : w.accounts s.process.pid = some a) (hstage : a.stage = .program c) :
    s.process.fds.Standard := by
  have holds := invariant hprograms
    (Account.connected_invariant ⟨shell.process, m.world⟩ tree hstd) hb (fun s hs hpid a ha => by
      obtain rfl := hb.sound.eq_of_pid hs hshell (hpid.trans hmain.symm)
      have hsited := begin_sited ha
      obtain ⟨-, rfl⟩ := begin_shell ha
      exact ⟨(fun d hd => by cases hd), {}, hsited, ⟨_, .ofShell tree _ _, .closed (.refl _)⟩,
        .refl _, (fun d hd => by cases hd)⟩) hrun
  obtain ⟨st, hconnected⟩ := holds.living s hs halive a ha
  have htopology := hconnected.plugged
  rw [Account.Plugged, hstage] at htopology
  exact htopology.standard hstd

variable (hf : Endless programs (begin tree depth parent m) f)
include hf

/-- What an external command comes to in the end, whatever the tree and
however its processes take turns. -/
theorem external_of_run {shell : Slot ρ} (hshell : shell ∈ m.slots)
    (hmain : shell.process.pid = Machine.mainPid) (hstd : shell.process.fds.Standard)
    (hs : s ∈ (f k).machine.slots) (halive : s.alive)
    (ha : (f k).accounts s.process.pid = some a) (hstage : a.stage = .program c) :
    tree.sub? a.site = some (.leaf c) ∧ External programs s.process.pid c s.process.fds f k := by
  have holds := fun n => holds_placed hprograms hb (hf.run n)
  have later : ∀ n, k ≤ n → Run programs (f k) (f n) := fun n hk => by
    induction hk with
    | refl => exact .refl
    | step _ ih => exact ih.tail (hf.step _)
  have hstands : ∀ n, k ≤ n → Pending programs s.process.pid c s.process.fds (f k) (f n) ∨
      Settled programs s.process.pid c s.process.fds (f k) (f n) := fun n hk =>
    settled_of_run hprograms (fun w hw => (holds_placed hprograms hb ((hf.run k).trans hw)).sound) hs
      (standard_of_program hprograms hb hshell hmain hstd (hf.run k) hs halive ha hstage)
      (((holds k).drives s hs halive a ha).todo _ (by simp only [Account.todo?, hstage])) (later n hk)
  refine ⟨?_, hstands, fun hfair => ?_, fun n p' b hb' d hd r hx => ?_, fun n => ?_⟩
  · have leaves := invariant hprograms Account.leaf_invariant hb (fun s _ _ a ha => by
      obtain ⟨-, rfl⟩ := begin_shell ha
      exact ⟨(fun c hc => by cases hc), trivial⟩) (hf.run k)
    obtain ⟨st, hplaced⟩ := (holds k).all _ a ha
    rw [hplaced.sited.part, leaves.all _ a ha c hstage]
  · refine Classical.or_iff_not_imp_left.mpr fun hnever n => Classical.byContradiction fun hfree => ?_
    obtain ⟨a', ha', -⟩ := hf.account hprograms hb (Nat.le_max_left k n) ha
    have hunder : ∀ j, max k n ≤ j → ∃ ys s' todo,
        AtCommand programs s.process.pid c (f k) ys s' todo (f j) ∧
          ((f j).machine.move programs s').isSome := fun j hj => by
      have hkj := Nat.le_trans (Nat.le_max_left k n) hj
      cases (hstands j hkj).resolve_right fun h => hnever ⟨j, hkj, h⟩ with
      | able h hmove => exact ⟨_, _, _, h, hmove⟩
      | @reporting s' r rest h =>
          have hmove : (f j).machine.move programs s' ≠ none := fun hstuck =>
            hfree ⟨j, s', r, rest, Nat.le_trans (Nat.le_max_right k n) hj, h, hstuck⟩
          cases h with
          | mk h _ _ _ => exact ⟨_, _, _, h, Option.isSome_iff_ne_none.mpr hmove⟩
    exact hfair.not_under_for_ever hprograms hb (hf.run 0)
      (exits_runExternal (S := fun _ => True) (fun _ _ => trivial) c).run ha' hunder
  · obtain ⟨j, how, hdead, htold, -, hj, -⟩ := hf.waited hprograms hb hb' hd hx
    have hnot := (holds j).sound.not_lives_of_dead hdead
    have hkj : k ≤ j := Nat.le_of_not_lt fun hlt => by
      obtain ⟨u, hu, hup, -⟩ := id hdead
      exact (hf.dead hprograms hb (Nat.le_of_lt hlt) (hup ▸ ((holds j).sound.bounds u hu).2) hnot).2
        ⟨s, hs, rfl, halive⟩
    exact ⟨j, how, hkj, hj, (hstands j hkj).resolve_left fun h => hnot h.lives, hdead, htold⟩
  · have rests := invariant hprograms Account.rests_invariant hb (fun s _ _ a ha => by
      obtain ⟨-, rfl⟩ := begin_shell ha
      exact ⟨⟨.nil, fun _ => rfl⟩, fun d hd => by cases hd⟩) (hf.run n)
    exact ⟨rests.all, rests.living⟩

end

/-- Is it this command that is to be run? -/
def looksReady (c : Command) (a : Account) : Bool :=
  match a.stage with
  | .program c' => c' == c
  | _ => false

theorem stage_of_looksReady {a : Account} (h : looksReady c a = true) : a.stage = .program c := by
  unfold looksReady at h
  split at h
  · next c' hc => rw [hc, eq_of_beq h]
  · cases h

/-- The shell has this status. -/
def looksReturned (status : Int) (s : Slot (Except ExecError Int)) : Bool :=
  match s.life with
  | .running (.ret (.ok n)) => n == status
  | _ => false

theorem life_of_looksReturned {status : Int} {s : Slot (Except ExecError Int)}
    (h : looksReturned status s = true) : s.life = .running (.ret (.ok status)) := by
  unfold looksReturned at h
  split at h
  · next n hl => rw [hl, eq_of_beq h]
  · cases h

/-- A command that is nowhere to be found. -/
theorem external_of_run_not_found :
    let c : Command := .ofWords ["nosuch"]
    let t : Tree := .leaf c
    let m : Machine (Except ExecError Int) := .executing id t .atTerminal
    ∃ f k p table, Fair endAtOnce f ∧ f 0 = begin t 0 none m ∧
      External endAtOnce p c table f k ∧
      ∃ n, ∃ s ∈ (f n).machine.slots, s.life = .running (.ret (.ok exitNotFound)) := by
  intro c t m
  have hb : m.Begins id t 0 none := Machine.executing_begins id t _
  have played : ((begin t 0 none m).play endAtOnce [1, 1]).any (fun w =>
      (w.machine.slots.any fun s => s.alive && (w.accounts s.process.pid).any (looksReady c)) &&
        (w.play endAtOnce [1, 2, 2, 2, 2, 2, 2, 2, 2, 1, 1]).any fun w' =>
          (w'.machine.slots.all fun s => (w'.machine.move endAtOnce s).isNone) &&
            w'.machine.slots.any (looksReturned exitNotFound)) = true := by
    decide +kernel
  obtain ⟨w, hplay, hcheck⟩ := (Option.any_eq_true _ _).mp played
  obtain ⟨hready, hrest⟩ := Bool.and_eq_true_iff.mp hcheck
  obtain ⟨s, hs, hready⟩ := List.any_eq_true.mp hready
  obtain ⟨halive, hready⟩ := Bool.and_eq_true_iff.mp hready
  obtain ⟨a, ha, hready⟩ := (Option.any_eq_true _ _).mp hready
  obtain ⟨w', hplay', hend⟩ := (Option.any_eq_true _ _).mp hrest
  obtain ⟨hstuck, hreturned⟩ := Bool.and_eq_true_iff.mp hend
  obtain ⟨s', hs', hreturned⟩ := List.any_eq_true.mp hreturned
  obtain ⟨g, hg, hfirst, n, hlast⟩ := fair_of_run (run_of_play hplay') fun s hs => by
    simpa using List.all_eq_true.mp hstuck s hs
  obtain ⟨f, hf, hbegin, k, hk⟩ := fair_after_run (run_of_play hplay) hg hfirst
  have here : f k = w := (hk 0).trans hfirst
  refine ⟨f, k, s.process.pid, s.process.fds, hf, hbegin, ?_, k + n, s', ?_,
    life_of_looksReturned hreturned⟩
  · exact (external_of_run endAtOnce_respects hb ⟨hbegin, hf.step⟩ (List.mem_singleton_self _) rfl
      View.atTerminal_standard (here ▸ hs) halive (here ▸ ha) (stage_of_looksReady hready)).2
  · rw [hk n, hlast n (Nat.le_refl n)]
    exact hs'

/-- The process is about to write this to standard error. -/
def looksToReport (data : Bytes) (s : Slot ρ) : Bool :=
  match s.life with
  | .running (.write fd data' _) => fd == Fd.stderr && data' == data
  | _ => false

theorem life_of_looksToReport {data : Bytes} {s : Slot ρ} (h : looksToReport data s = true) :
    ∃ next, s.life = .running (.write Fd.stderr data next) := by
  unfold looksToReport at h
  split at h
  · next fd data' next hl =>
    obtain ⟨hfd, hdata⟩ := Bool.and_eq_true_iff.mp h
    exact ⟨next, by rw [hl, eq_of_beq hfd, eq_of_beq hdata]⟩
  · cases h

/-- The process was ended by this signal. -/
def looksKilled (signal : Int) (s : Slot ρ) : Bool :=
  match s.life with
  | .ended how => how == .signaled signal
  | _ => false

theorem life_of_looksKilled {signal : Int} {s : Slot ρ} (h : looksKilled signal s = true) :
    s.life = .ended (.signaled signal) := by
  unfold looksKilled at h
  split at h
  · next how hl => rw [hl, eq_of_beq h]
  · cases h

/-- A command that cannot be found, and whose standard error is redirected to
the pipe that it was to read from, has all its redirections in place, is
about to report that, and is killed by the signal of broken pipes. The
status is one. -/
theorem external_of_run_counterexample :
    let c : Command :=
      { Command.ofWords ["nosuch"] with input := some "/null", error := some ⟨"/fd/0", false⟩ }
    let t : Tree := .node .pipe (.leaf (.ofWords ["/nothing"])) (.leaf c)
    let m : Machine (Except ExecError Int) := .executing id t .atTerminalWithDevices
    m.Begins id t 0 none ∧ c.hasNulWord = false ∧
    ∃ w₁ w₂ w₃, Run endAtOnce (begin t 0 none m) w₁ ∧ Run endAtOnce w₁ w₂ ∧ Run endAtOnce w₂ w₃ ∧
      ∃ p, (∃ a, w₁.accounts p = some a ∧ a.stage = .program c) ∧
        (∃ s ∈ w₂.machine.slots, s.process.pid = p ∧
          ∃ next, s.life = .running (.write Fd.stderr ((Refusal.unfound .ENOENT).line c) next)) ∧
        w₃.machine.Dead p (.signaled Signal.pipe) ∧
        ∃ w₄, Run endAtOnce w₃ w₄ ∧ ∃ s ∈ w₄.machine.slots, s.life = .running (.ret (.ok 1)) := by
  intro c t m
  have played : ((begin t 0 none m).play endAtOnce
      [1, 1, 1, 1, 1, 1, 1, 2, 2, 2, 2, 2, 2, 2, 3]).any (fun w₁ =>
      (w₁.accounts 3).any (looksReady c) &&
      (w₁.play endAtOnce [3, 3, 3, 3, 3, 3]).any fun w₂ =>
        (w₂.machine.slots.any fun s => s.process.pid == 3 &&
          looksToReport ((Refusal.unfound .ENOENT).line c) s) &&
        (w₂.play endAtOnce [3]).any fun w₃ =>
          (w₃.machine.slots.any fun s => s.process.pid == 3 && looksKilled Signal.pipe s) &&
          (w₃.play endAtOnce [1, 1, 1, 1]).any fun w₄ =>
            w₄.machine.slots.any (looksReturned 1)) = true := by
    decide +kernel
  refine ⟨Machine.executing_begins id t _, by decide +kernel, ?_⟩
  obtain ⟨w₁, hplay₁, hcheck⟩ := (Option.any_eq_true _ _).mp played
  obtain ⟨hready, hrest⟩ := Bool.and_eq_true_iff.mp hcheck
  obtain ⟨a, ha, hready⟩ := (Option.any_eq_true _ _).mp hready
  obtain ⟨w₂, hplay₂, hcheck⟩ := (Option.any_eq_true _ _).mp hrest
  obtain ⟨hreports, hrest⟩ := Bool.and_eq_true_iff.mp hcheck
  obtain ⟨s, hs, hreports⟩ := List.any_eq_true.mp hreports
  obtain ⟨hp, hreports⟩ := Bool.and_eq_true_iff.mp hreports
  obtain ⟨w₃, hplay₃, hcheck⟩ := (Option.any_eq_true _ _).mp hrest
  obtain ⟨hkilled, hrest⟩ := Bool.and_eq_true_iff.mp hcheck
  obtain ⟨s', hs', hkilled⟩ := List.any_eq_true.mp hkilled
  obtain ⟨hp', hkilled⟩ := Bool.and_eq_true_iff.mp hkilled
  obtain ⟨w₄, hplay₄, hreturned⟩ := (Option.any_eq_true _ _).mp hrest
  obtain ⟨s'', hs'', hreturned⟩ := List.any_eq_true.mp hreturned
  exact ⟨w₁, w₂, w₃, run_of_play hplay₁, run_of_play hplay₂, run_of_play hplay₃, 3,
    ⟨a, ha, stage_of_looksReady hready⟩, ⟨s, hs, eq_of_beq hp, life_of_looksToReport hreports⟩,
    ⟨s', hs', eq_of_beq hp', life_of_looksKilled hkilled⟩, w₄, run_of_play hplay₄, s'', hs'',
    life_of_looksReturned hreturned⟩

end Watch

end LineShell
