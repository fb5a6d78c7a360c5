/-
How an execution ends, by how its children ended.

The walk of the shell comes to its result on the answers that it was given
(`tracing`), and fails with the first failure among them (`failing`). No
start fails, and no wait is told that there is no such child; what a wait
is told is how the child ended, except that of a child killed by a signal
without a name it is told a failure (`Deed.Unnamed`). So if its pipes can be
made, the shell comes to a status exactly when none of the children that
it waited for was killed that way, and otherwise it fails with `EINVAL`. In
a fair run it comes to the one or the other, if its programs end.
-/
import LineShell.Proofs.Launch.Progress
import LineShell.Proofs.Walk.Failure

namespace LineShell

open Posix

variable {ρ : Type} {result : Except ExecError Int → ρ}

/-- A child was waited for that a signal without a name had killed. -/
def Deed.Unnamed (d : Deed) : Prop :=
  ∃ child r n, d.exchange = .wait child r ∧ d.ending = some (.signaled n) ∧ Signal.name? n = none

/-- A pipe could not be made. -/
def Deed.Unconnected (d : Deed) : Prop := ∃ q e, d.exchange = .channel q (.error e)

/-- The only failure that comes of a child is that of a signal without a
name. -/
theorem Deed.Heard.failure? {d : Deed} (h : d.Heard) (hd : ¬d.Unconnected) :
    (d.exchange.failure? = none ∧ ¬d.Unnamed) ∨
    (d.exchange.failure? = some (.wait .EINVAL) ∧ d.Unnamed) := by
  obtain ⟨x, v, ending⟩ := d
  cases x with
  | builtin | release => exact .inl ⟨rfl, fun ⟨_, _, _, hx, _⟩ => by cases hx⟩
  | launch | fork =>
      obtain ⟨child, rfl⟩ := h
      exact .inl ⟨rfl, fun ⟨_, _, _, hx, _⟩ => by cases hx⟩
  | channel q r =>
      cases r with
      | error e => exact absurd ⟨q, e, rfl⟩ hd
      | ok ch => exact .inl ⟨rfl, fun ⟨_, _, _, hx, _⟩ => by cases hx⟩
  | wait child r =>
      obtain ⟨how, rfl, rfl⟩ := h
      cases how with
      | exited code => exact .inl ⟨rfl, fun ⟨_, _, _, _, he, _⟩ => by cases he⟩
      | signaled n =>
          cases hname : Signal.name? n with
          | some name =>
              refine .inl ⟨by simp [Exchange.failure?, Walk.waitAnswer, hname], ?_⟩
              rintro ⟨_, _, _, _, he, hnone⟩
              cases he
              rw [hname] at hnone
              cases hnone
          | none =>
              refine .inr ⟨by simp [Exchange.failure?, Walk.waitAnswer, hname], ?_⟩
              exact ⟨_, _, n, rfl, rfl, hname⟩

/-- What a walk is told of a child is how it ended, and a child that was
killed counts as a failure. -/
theorem Deed.Heard.told {d : Deed} (h : d.Heard) {child : Child} {e : Ending}
    (hx : d.exchange = .wait child (.ok e)) :
    d.ending = some e ∧ (e.isAbnormal = true → e.status = exitFailure) := by
  rw [Heard, hx] at h
  obtain ⟨how, hending, htold⟩ := h
  cases how with
  | exited code =>
      cases htold
      exact ⟨hending, nofun⟩
  | signaled n =>
      simp only [Walk.waitAnswer] at htold
      split at htold
      · cases htold
        exact ⟨hending, fun _ => rfl⟩
      · cases htold

/-- A walk with such answers ends with a status, or fails with `EINVAL`. -/
theorem result_of_heard {own : List Deed} {r : Except ExecError Int}
    (hfailure : failureOf r = (own.map Deed.exchange).findSome? Exchange.failure?)
    (heard : ∀ d ∈ own, d.Heard) (hconnected : ∀ d ∈ own, ¬d.Unconnected) :
    ((∃ status, r = .ok status) ↔ ∀ d ∈ own, ¬d.Unnamed) ∧
    ∀ e, r = .error e → e = .wait .EINVAL := by
  have known := fun d hd => (heard d hd).failure? (hconnected d hd)
  rw [List.findSome?_map] at hfailure
  cases r with
  | ok status =>
      refine ⟨⟨fun _ d hd => ?_, fun _ => ⟨status, rfl⟩⟩, nofun⟩
      rcases known d hd with ⟨-, hnamed⟩ | ⟨hfailed, -⟩
      · exact hnamed
      · have hnone : d.exchange.failure? = none := List.findSome?_eq_none_iff.mp hfailure.symm d hd
        rw [hnone] at hfailed
        cases hfailed
  | error e =>
      obtain ⟨d, hd, hfailed⟩ := List.exists_of_findSome?_eq_some hfailure.symm
      rcases known d hd with ⟨hnone, -⟩ | ⟨heinval, hunnamed⟩
      · rw [Function.comp_apply, hnone] at hfailed
        cases hfailed
      · refine ⟨⟨nofun, fun hnamed => absurd hunnamed (hnamed d hd)⟩, fun e' he => ?_⟩
        rw [Function.comp_apply, heinval] at hfailed
        cases he
        cases hfailed
        rfl

/-- The shell runs no program. -/
theorem Account.Proper.runsProgram_shell {a : Account} (h : a.Proper) (hshell : a.isShell = true) :
    a.runsProgram = false := by
  rcases h.shell hshell with ⟨rest, hstage⟩ | ⟨q, hstage⟩ | hstage <;>
    simp only [Account.runsProgram, hstage]

/-- The shell keeps to one walk. -/
theorem Account.whole_invariant (walk : Walk) :
    Account.Invariant (fun a => a.isShell = true → a.walk = walk) fun _ _ => True where
  meanwhile _ _ := trivial
  turn h _ hturn := by
    rw [hturn.same]
    exact ⟨h, trivial⟩
  birth _ _ hc _ := by
    refine ⟨fun hshell => ?_, trivial⟩
    rw [Account.child_isShell hc] at hshell
    cases hshell

/-- Programs that kill themselves with a signal. -/
def Posix.killsItself (signal : Nat) : Installed ρ := fun _ _ =>
  .kill 0 signal fun _ => .exit (.exited 0)

theorem Posix.killsItself_respects (signal : Nat) (name : String) (args : List Bytes) :
    (killsItself signal name args : Prog ρ).Respects .onward := fun _ => trivial

/-- A view at a terminal, with a program in the root directory. -/
def Posix.View.atTerminalWith (program : String) : View :=
  let v := View.atTerminal
  { v with world := { v.world with
      tree := (v.world.tree.add FileTree.root (Bytes.ofString program) 0o755 (.program program)).1 } }

namespace Watch

variable {programs : Installed ρ} {w : Watch ρ} {m : Machine ρ} {t : Tree} {depth : Nat}
  {parent : Option Operator}

/-- The shell's walk is that of the whole tree. -/
theorem shell_walk_of_run (hprograms : ∀ name args, (programs name args).Respects .onward)
    (hb : m.Begins result t depth parent) (hrun : Run programs (begin t depth parent m) w) {p : Pid}
    {a : Account} (ha : w.accounts p = some a) (hshell : a.isShell = true) :
    a.walk = .execute t depth parent := by
  refine (invariant hprograms (Account.whole_invariant (.execute t depth parent)) hb
    (fun s _ _ a ha => ⟨fun _ => ?_, trivial⟩) hrun).all p a ha hshell
  obtain ⟨-, rfl⟩ := begin_shell ha
  rfl

-- ======================================================== the main result

/-- The shell's result is what its walk comes to on true answers: that of a
wait is how the child ended, and a child that was killed counts as a
failure. So if the pipes could be made, the shell has a status exactly when
no child that it waited for was killed by a signal without a name, and
otherwise it has failed with `EINVAL`. A fair run comes to the result,
unless the shell dies or a program never ends. -/
theorem result_of_run (hprograms : ∀ name args, (programs name args).Respects .onward)
    (hb : m.Begins result t depth parent) :
    (∀ w, Run programs (begin t depth parent m) w → ∀ s ∈ w.machine.slots,
      s.process.pid = Machine.mainPid → ∀ x, s.life = .running (.ret x) →
      ∃ a r, w.accounts Machine.mainPid = some a ∧ x = result r ∧
        (Walk.execute t depth parent).Dialogue (a.own.map Deed.exchange) (.ofResult r) ∧
        (∀ d ∈ a.own, d.Heard) ∧
        (∀ d ∈ a.own, ∀ child e, d.exchange = .wait child (.ok e) →
          d.ending = some e ∧ (e.isAbnormal = true → e.status = exitFailure)) ∧
        ((∀ d ∈ a.own, ¬d.Unconnected) →
          ((∃ status, r = .ok status) ↔ ∀ d ∈ a.own, ¬d.Unnamed) ∧
          ∀ e, r = .error e → e = .wait .EINVAL)) ∧
    (∀ f, Fair programs f → Run programs (begin t depth parent m) (f 0) →
      (∀ n p a, (f n).accounts p = some a → a.runsProgram = true →
        ∃ k, n ≤ k ∧ ¬(f k).machine.Lives p) →
      ∃ k, (f k).Stopped Machine.mainPid) := by
  refine ⟨fun w hrun s hs hpid x hl => ?_, fun f hf hrun hends => ?_⟩
  · obtain ⟨⟨a, ha⟩, hisShell⟩ := shell_of_run hprograms hb hrun
    have hshell := (hisShell _ a ha).1.mpr rfl
    have holds := holds_placed hprograms hb hrun
    obtain ⟨rest, r, hstage, hr, hx⟩ := holds.returned hs hl (hpid ▸ ha) hshell
    have heard := (attended_of_run hprograms hb hrun).heard ha
    obtain ⟨e, hfailing⟩ := stands_of_run (fun _ => none)
      (fun a => Walk.failing_execute a.tree a.depth a.parent a.site) hprograms hb hrun ha
    obtain ⟨w', htracing⟩ := stands_of_run id
      (fun a => Walk.obeys_tracing (s := a.walk) .here) hprograms hb hrun ha
    have hfailure : failureOf r = (a.own.map Deed.exchange).findSome? Exchange.failure? := by
      rw [← hfailing.result hstage hr, failing_leads hfailing.led, Option.none_or]
    refine ⟨a, r, ha, hx, ?_, heard, fun d hd child e he => (heard d hd).told he,
      result_of_heard hfailure heard⟩
    rw [← shell_walk_of_run hprograms hb hrun ha hshell]
    obtain ⟨w'', hpath, hend⟩ := htracing.result hstage hr
    exact ⟨w'', by simpa using (tracing_path htracing.led).trans hpath, hend⟩
  · obtain ⟨⟨a, ha⟩, -⟩ := shell_of_run hprograms hb hrun
    obtain ⟨k, -, hstopped⟩ := hf.stops hprograms hb hrun hends ha
    exact ⟨k, hstopped⟩

/-- Only the shell is left, with a result, and of its two deeds the second
was to wait for a child that signal 40 had killed. -/
def endsWithOneKilled (w : Watch ρ) : Bool :=
  match w.machine.slots, w.accounts Machine.mainPid with
  | [⟨process, .running (.ret _)⟩], some a =>
      process.pid == Machine.mainPid &&
      match a.own with
      | [⟨.launch _ _ _, _, _⟩, ⟨.wait _ _, _, some how⟩] => how == .signaled 40
      | _ => false
  | _, _ => false

theorem of_endsWithOneKilled (h : w.endsWithOneKilled = true) :
    (∃ s, w.machine.slots = [s] ∧ s.process.pid = Machine.mainPid ∧
      ∃ x, s.life = .running (.ret x)) ∧
    ∃ a, w.accounts Machine.mainPid = some a ∧ (∃ d ∈ a.own, d.Unnamed) ∧
      ∀ d ∈ a.own, ¬d.Unconnected := by
  unfold endsWithOneKilled at h
  split at h
  · next process x a hslots ha =>
    obtain ⟨hpid, hown⟩ := (Bool.and_eq_true _ _).mp h
    refine ⟨⟨_, hslots, beq_iff_eq.mp hpid, x, rfl⟩, a, ha, ?_⟩
    split at hown
    · next q c r v₁ e child r' v₂ how howns =>
      obtain rfl := beq_iff_eq.mp hown
      rw [howns]
      refine ⟨⟨_, .tail _ (.head _), _, _, 40, rfl, rfl, by decide⟩, fun d hd => ?_⟩
      rintro ⟨_, _, hx⟩
      rcases List.mem_cons.mp hd with rfl | hd
      · cases hx
      · obtain rfl := List.mem_singleton.mp hd
        cases hx
    · cases hown
  · cases h

/-- A program that kills itself with a signal that has no name: the shell
fails, in a fair run. -/
theorem result_of_run_killed_without_name :
    let t : Tree := .leaf (.ofWords ["/sh"])
    let m : Machine (Except ExecError Int) := .executing id t (.atTerminalWith "sh")
    ∃ f, Fair (killsItself 40) f ∧ f 0 = begin t 0 none m ∧
      (∃ k, (f k).Stopped Machine.mainPid) ∧
      ∃ k, ∃ s ∈ (f k).machine.slots, s.process.pid = Machine.mainPid ∧
        s.life = .running (.ret (.error (.wait .EINVAL))) := by
  intro t m
  have hb : m.Begins id t 0 none := Machine.executing_begins id t _
  have played : ((begin t 0 none m).play (killsItself 40)
      [1, 1, 1, 2, 2, 2, 2, 0, 2, 2, 1, 1]).any endsWithOneKilled = true := by
    decide +kernel
  obtain ⟨w, hplay, hends⟩ := (Option.any_eq_true _ _).mp played
  have hrun := run_of_play hplay
  obtain ⟨⟨s, hslots, hpid, x, hl⟩, a, ha, hunnamed, hconnected⟩ := of_endsWithOneKilled hends
  have only : ∀ s' ∈ w.machine.slots, s' = s := fun s' hs' => by
    rw [hslots] at hs'
    exact List.mem_singleton.mp hs'
  obtain ⟨f, hf, hfirst, n, hlast⟩ := fair_of_run hrun fun s' hs' => by
    rw [only s' hs', Machine.move_ret hl]
  have hrunf : Run (killsItself 40) (begin t 0 none m) (f 0) := by
    rw [hfirst]
    exact .refl
  obtain ⟨hresult, hstops⟩ := result_of_run (killsItself_respects 40) hb
  refine ⟨f, hf, hfirst, hstops f hf hrunf fun k p b hb' hprogram => ?_, n, s, ?_, hpid, ?_⟩
  · -- whoever else there was is dead in the end, and the shell runs no program
    refine ⟨max k n, Nat.le_max_left k n, fun ⟨s', hs', hp, _⟩ => ?_⟩
    rw [hlast _ (Nat.le_max_right k n)] at hs'
    rw [only s' hs', hpid] at hp
    have hrun' := hf.run hrunf k
    have hshell := ((shell_of_run (killsItself_respects 40) hb hrun').2 p b hb').1.mpr hp.symm
    have proper := (holds_placed (killsItself_respects 40) hb hrun').proper p b hb'
    rw [proper.runsProgram_shell hshell] at hprogram
    cases hprogram
  · rw [hlast n (Nat.le_refl n), hslots]
    exact List.mem_singleton_self s
  · obtain ⟨a', r, ha', rfl, -, -, -, hr⟩ :=
      hresult w hrun s (hslots ▸ List.mem_singleton_self s) hpid x hl
    rw [ha] at ha'
    cases ha'
    obtain ⟨hstatus, herror⟩ := hr hconnected
    cases x with
    | ok status =>
        obtain ⟨d, hd, hnamed⟩ := hunnamed
        exact absurd hnamed (hstatus.mp ⟨status, rfl⟩ d hd)
    | error e => rw [hl, herror e rfl]

end Watch

end LineShell
