/-
Two spare descriptors are enough for channels, and fewer are not.

# Enough

A process that is on its walk has as many descriptors as the shell had, but
for the two of the one channel that it has open, and its limit is the
shell's. When it asks for a channel it has none open. So there are as many
spare numbers at each channel as there were in the shell at the beginning,
however deep the tree is; and when the shell is done it has them all again.

# Not enough

Where a channel cannot be made the walk fails at once (`Walk.Brittle`): the
question for the channel is the last thing that the process does on its
walk (`Account.Breaks`). The shell has the failure for its result. A branch
has only to report it and to exit (`farewell`), and does so step by step
whatever others do (`Watch.Strands`).
-/
import LineShell.Proofs.Launch.Departure
import LineShell.Proofs.Launch.Topology
import LineShell.Proofs.Posix.Spare

namespace LineShell

open Posix

-- ================================================================== walks

namespace Walk

/-- Where a channel cannot be made the walk has failed. -/
def Brittle : Walk → Prop
  | done _ | failed _ => True
  | log _ _ next | release _ next => next.Brittle
  | builtin _ _ _ next => ∀ n, (next n).Brittle
  | launch _ _ next | fork _ _ _ _ _ _ next => ∀ r, (next r).Brittle
  | channel _ next => (∀ e, next (.error e) = failed e) ∧ ∀ ch, (next (.ok ch)).Brittle
  | wait _ next => ∀ r, (next r).Brittle

end Walk

-- =============================================================== processes

namespace Account

variable {root : Tree} {shell : View} {a a' b : Account} {s : Siting} {v v' : View}

/-- A channel that could not be made is the last thing that the process did,
and its walk has failed with that. -/
structure Breaks (a : Account) : Prop where
  rest : ∀ rest, a.stage = .walking rest → rest.Brittle
  last : ∀ d ∈ a.own, ∀ q e, d.exchange = .channel q (.error e) →
    a.own.getLast? = some d ∧ (a.stage = .walking (.failed e) ∨ a.stage = .quitting)

/-- Nothing is left of the walk but its failure. -/
def isSpent (a : Account) : Bool :=
  match a.stage with
  | .walking (.failed _) | .quitting => true
  | _ => false

/-- Who has more to do has made all channels that it asked for. -/
theorem Breaks.unbroken (h : a.Breaks) (hspent : a.isSpent = false) :
    ∀ d ∈ a.own, ∀ q e, d.exchange ≠ .channel q (.error e) := fun d hd q e hx => by
  rcases (h.last d hd q e hx).2 with hstage | hstage <;> simp [isSpent, hstage] at hspent

/-- A deed more, which is no such channel or the end of the walk. -/
theorem Breaks.does (h : a.Breaks) (hspent : a.isSpent = false) {x : Exchange} {rest : Walk}
    (hrest : rest.Brittle) (hx : ∀ q e, x = .channel q (.error e) → rest = .failed e) (v : View)
    (ending : Option Ending) : (a.does x v rest ending).Breaks where
  rest w hw := by
    cases hw
    exact hrest
  last d hd q e hd' := by
    rcases List.mem_append.mp hd with hd | hd
    · exact absurd hd' (h.unbroken hspent d hd q e)
    · obtain rfl := List.mem_singleton.mp hd
      exact ⟨List.getLast?_concat, .inl (congrArg Stage.walking (hx q e hd'))⟩

theorem Breaks.idle (h : a.Breaks) (hspent : a.isSpent = false) {stage : Stage}
    (hrest : ∀ rest, stage = .walking rest → rest.Brittle) : Breaks { a with stage } where
  rest := hrest
  last d hd q e hd' := absurd hd' (h.unbroken hspent d hd q e)

end Account

-- ================================================================ numbers

/-- Where the streams are replaced, as many numbers are free as before. -/
theorem Topology.spare {root : Tree} {shell t : FdTable} {past : List Deed} {q : Position}
    (h : Topology root shell past q t) (hstd : shell.Standard) (limit : Nat) :
    t.spare limit = shell.spare limit := by
  refine FdTable.spare_congr fun fd _ => ?_
  rcases Nat.lt_or_ge Fd.stderr fd with habove | hstream
  · rw [FdTable.isOpen, FdTable.isOpen, h.rest fd habove]
  · exact (h.standard hstd fd hstream).trans (hstd fd hstream).symm

namespace Account

variable {root : Tree} {shell : View} {a a' b : Account} {v v' : View}

/-- The process has the shell's limit as long as it has its walk to do. -/
structure Supplied (root : Tree) (shell : View) (a : Account) (v : View) : Prop where
  connected : ∃ s, a.Connected root shell s v
  limit : a.ahead?.isSome → v.process.fdLimit = shell.process.fdLimit

/-- On its walk, and without a channel open, a process can open as many
descriptors as the shell could. -/
theorem Supplied.spare (h : a.Supplied root shell v) (hstd : shell.process.fds.Standard)
    {rest : Walk} (hstage : a.stage = .walking rest)
    (hclosed : ∀ s, a.Sited root s → s.opened = none) : v.spare = shell.spare := by
  obtain ⟨s, hsited, hplugged, -⟩ := h.connected
  simp only [Plugged, hstage, hclosed s hsited] at hplugged
  obtain ⟨t, htop, hheld⟩ := hplugged
  cases hheld with
  | closed halike =>
      rw [View.spare, View.spare, h.limit (by simp [ahead?, hstage]), halike.spare, htop.spare hstd]

/-- The limit stays while there is a walk to do. -/
theorem Turn.limit (h : a.Turn v a' v') (hahead : a'.ahead?.isSome) :
    a.ahead?.isSome ∧ v'.process.fdLimit = v.process.fdLimit := by
  cases h with
  | @wired _ w _ _ hstage happly =>
      have kept := (w.apply_keeps (.of_tolerant .limit)).of_attempt happly
      exact ⟨by simp [ahead?, hstage], kept⟩
  | log hstage => exact ⟨by simp [ahead?, hstage], rfl⟩
  | @builtin _ b c _ _ _ _ hstage hrun =>
      have kept := Builtin.run_limit b c v
      rw [hrun] at kept
      exact ⟨by simp [ahead?, hstage], kept⟩
  | launch pid hstage | fork pid hstage => exact ⟨by simp [ahead?, hstage], rfl⟩
  | wait raw hstage => exact ⟨by simp [ahead?, hstage], rfl⟩
  | channel hstage hpipe =>
      have kept := (Call.pipe_keeps .limit).of_attempt hpipe
      exact ⟨by simp [ahead?, hstage], kept⟩
  | release hstage =>
      exact ⟨by simp [ahead?, hstage], Redirection.closeAll_keeps (.of_tolerant .limit) _ v⟩
  | prepared _ _ hstage => rcases hstage with rfl | rfl <;> cases hahead
  | leave | prepare | quit | away => cases hahead

/-- A side of a pipe comes with its channel. -/
theorem Connected.piped {s : Siting} (h : b.Connected root shell s v) {w : Wiring}
    (hstage : b.stage = .wiring .pipe w) : ∃ d ∈ b.inherited, ∃ q ch, d.exchange = .channel q (.ok ch) := by
  have hplugged := h.plugged
  simp only [Plugged, hstage] at hplugged
  obtain ⟨-, r, side, o, t, -, -, hwired, -, hheld⟩ := hplugged
  cases hheld with
  | closed => cases hwired.1
  | opened hd hx => exact ⟨_, hd, _, _, hx⟩

end Account

-- =============================================================== farewells

/-- What is left to do where a channel could not be made. The shell has its
result; a branch writes a record and a report, and exits. -/
def Account.farewell (result : Except ExecError Int → ρ) (a : Account) (e : ExecError) :
    List (Prog ρ) :=
  if a.isShell then [.ret (result (.error e))]
  else
    [endBranch a.tree (.error e), (dieWith e.message exitFailure : Task ρ Empty).run,
      .exit (.exited exitFailure)]

section

variable {programs : Installed ρ} {result : Except ExecError Int → ρ} {a : Account} {e : ExecError}
  {todo : Prog ρ} {m m' : Machine ρ} {s t' : Slot ρ}

theorem Account.finish_mem_farewell (result : Except ExecError Int → ρ) (a : Account)
    (e : ExecError) : a.finish result (.error e) ∈ a.farewell result e := by
  unfold finish farewell
  cases a.isShell <;> exact .head _

/-- One step on, if there is one, and the rest is still left to do. -/
theorem Account.move_farewell (htodo : todo ∈ a.farewell result e) (hl : s.life = .running todo)
    (hm : m.move programs s = some m') (ht' : t' ∈ m'.slots)
    (hpid : t'.process.pid = s.process.pid) (halive : t'.alive) :
    ∃ todo' ∈ a.farewell result e, t'.life = .running todo' := by
  unfold farewell at htodo ⊢
  cases hshell : a.isShell with
  | true =>
      simp only [hshell, if_true, List.mem_singleton] at htodo
      rw [htodo] at hl
      rw [Machine.move_ret hl] at hm
      cases hm
  | false =>
      simp only [hshell, Bool.false_eq_true, if_false, List.mem_cons, List.not_mem_nil,
        or_false] at htodo ⊢
      rcases htodo with rfl | rfl | rfl
      · rw [Machine.move_step hl] at hm
        cases hm
        obtain rfl := Machine.mem_resume rfl ht' hpid
        exact ⟨_, .inr (.inl rfl), rfl⟩
      · rw [Machine.move_step hl] at hm
        cases hm
        obtain rfl := Machine.mem_resume (report_quiet e.message _).pid ht' hpid
        exact ⟨_, .inr (.inr rfl), rfl⟩
      · rw [Machine.move_exit hl] at hm
        cases hm
        exact absurd hpid (Machine.mem_terminate ht' halive).1

/-- Whoever exits is a branch, and exits with a failure. -/
theorem Account.exit_mem_farewell {code : Int} (h : .exit (.exited code) ∈ a.farewell result e) :
    a.isShell = false ∧ code = exitFailure := by
  unfold farewell at h
  cases hshell : a.isShell with
  | true =>
      simp only [hshell, if_true, List.mem_singleton] at h
      cases h
  | false =>
      simp only [hshell, Bool.false_eq_true, if_false, List.mem_cons, List.not_mem_nil,
        or_false] at h
      rcases h with h | h | h
      · cases h
      · cases h
      · cases h
        exact ⟨rfl, rfl⟩

end

namespace Watch

variable {programs : Installed ρ} {result : Except ExecError Int → ρ} {w w' : Watch ρ}
  {s : Slot ρ} {m : Machine ρ} {P : Account → View → Prop}

/-- Who could not make a channel is on its way out, and if it is found to have
exited it was a branch and exited with a failure. -/
structure Strands (result : Except ExecError Int → ρ) (w : Watch ρ) : Prop where
  living : w.Living fun a s => ∀ d ∈ a.own, ∀ q e, d.exchange = .channel q (.error e) →
    ∃ todo ∈ a.farewell result e, s.life = .running todo
  dead : ∀ p a, w.accounts p = some a → ∀ d ∈ a.own, ∀ q e,
    d.exchange = .channel q (.error e) → ∀ code, w.machine.Dead p (.exited code) →
    a.isShell = false ∧ code = exitFailure

section

variable (hprograms : ∀ name args, (programs name args).Respects .onward)
include hprograms

theorem Strands.moved (h : w.Strands result) (hw : w.Holds result Account.Breaks P)
    (hs : s ∈ w.machine.slots) (hm : w.machine.move programs s = some m) :
    (w.moved s m).Strands result := by
  have halive := Machine.alive_of_move hm
  have unchanged (a : Account) (e : ExecError) :
      (a.after w.machine s).farewell result e = a.farewell result e := by
    rw [a.after_same w.machine s]
    rfl
  refine ⟨h.living.moved hprograms hw hs hm (fun hut h => ?_) (fun a ha h t' ht' hpid halive' => ?_)
    (fun a b _ hc _ _ _ d hd => ?_), fun p a ha d hd q e hx code hdead => ?_⟩
  · rw [hut.life]
    exact h
  · intro d hd q e hx
    rw [unchanged]
    rcases a.own_after w.machine s with hown | ⟨rest, d', hstage, hanswers, hown⟩
    · obtain ⟨todo, htodo, hl⟩ := h d (hown ▸ hd) q e hx
      exact Account.move_farewell htodo hl hm ht' hpid halive'
    · have hbreaks := hw.all _ a ha
      rw [hown] at hd
      rcases List.mem_append.mp hd with hd | hd
      · -- who has more to do has made all its channels
        refine absurd hx (hbreaks.unbroken ?_ d hd q e)
        cases hanswers <;> simp only [Account.isSpent, hstage]
      · obtain rfl := List.mem_singleton.mp hd
        cases hanswers with
        | @channel q' next =>
            have hl := (hw.drives s hs halive a ha).todo
              ((Walk.channel q' next).perform (a.finish result)) (by simp only [Account.todo?, hstage])
            rw [Walk.perform_channel] at hl
            rw [Machine.move_step hl] at hm
            cases hm
            obtain rfl := Machine.mem_resume (Call.pipe_quiet _).pid ht' hpid
            injection hx with _ hanswer
            refine ⟨a.finish result (.error e), a.finish_mem_farewell result e, ?_⟩
            simp only [hanswer, (hbreaks.rest _ hstage).1 e]
            rfl
        | builtin | launch | fork | release | wait => cases hx
  · rw [(Account.child_deeds hc).2] at hd
    cases hd
  · rcases Machine.dead_of_move hs hm hdead with hdead | ⟨-, hends⟩
    · rcases accounts_moved ha with ⟨rfl, -⟩ | ⟨-, hn, -⟩ | ⟨-, -, hb⟩
      · exact absurd ⟨s, hs, rfl, halive⟩ (hw.sound.not_lives_of_dead hdead)
      · obtain ⟨t, ht, hpid, -⟩ := hdead
        exact absurd (hw.sound.bounds t ht).2 (by rw [hpid, hn]; exact Nat.lt_irrefl _)
      · exact h.dead p a hb d hd q e hx code hdead
    · obtain ⟨rfl, -, code', hl, rfl⟩ := hends.exited
      rcases accounts_moved ha with ⟨-, b, hb, rfl⟩ | ⟨hp, -⟩ | ⟨hp, -⟩
      · rcases b.own_after w.machine s with hown | ⟨rest, d', hstage, hanswers, -⟩
        · obtain ⟨todo, htodo, hl'⟩ := h.living s hs halive b hb d (hown ▸ hd) q e hx
          rw [hl] at hl'
          cases hl'
          obtain ⟨hshell, rfl⟩ := Account.exit_mem_farewell htodo
          rw [b.after_same w.machine s]
          exact ⟨hshell, rfl⟩
        · -- who asks for something does not exit
          have hl' := (hw.drives s hs halive b hb).todo (rest.perform (b.finish result))
            (by simp only [Account.todo?, hstage])
          rw [hl] at hl'
          obtain ⟨r, hr, -⟩ := Walk.result?_of_exit (Life.running.inj hl').symm
          cases hanswers <;> cases hr
      · exact absurd rfl hp
      · exact absurd rfl hp

end

section

variable {t : Tree} {depth : Nat} {parent : Option Operator}
  (hprograms : ∀ name args, (programs name args).Respects .onward)
  (hb : m.Begins result t depth parent) (hrun : Run programs (begin t depth parent m) w)
include hprograms hb hrun

end

end Watch

end LineShell
