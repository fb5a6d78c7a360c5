/-
Runs that begin with any process of any machine.

What is known of the runs of a shell does not depend on where they begin.
`Watch.Starts` is a watch in which one process is about to evaluate a tree,
in its own place or as a branch that was just started for it; whatever else
the machine is doing, is not followed. The invariants of runs hold from
there on: where processes stand, that branches do not fail to wire their
streams, that children are there to be waited for.

The first use of it is that statuses remain statuses (`Starts.ranged`).
Builtins come to 0 or 1, a child that was waited for has exited with eight
bits, and what the operators make of such is such again. So nobody is asked
to exit with a code that would be cut.
-/
import LineShell.Proofs.Launch.Departure
import LineShell.Proofs.Launch.Wired

namespace LineShell

open Posix

variable {ρ : Type} {result : Except ExecError Int → ρ}

-- ================================================================ accounts

namespace Account

variable {root : Tree} {a a' b : Account} {s : Slot ρ} {m : Machine ρ} {v v' : View}

/-- The process is to evaluate a tree, and has done nothing for it yet. -/
structure Fresh (root : Tree) (a : Account) : Prop where
  site : a.site = []
  tree : a.tree = root
  walks : a.walks = true
  inherited : a.inherited = []
  own : a.own = []
  stage : (∃ op, a.stage = .wiring op .inherit) ∨ a.stage = .walking a.walk

theorem Fresh.evaluator (t : Tree) (depth : Nat) (parent : Option Operator) :
    (Account.evaluator t depth parent).Fresh t := ⟨rfl, rfl, rfl, rfl, rfl, .inr rfl⟩

theorem Fresh.branch (t : Tree) (depth : Nat) (op : Operator) :
    (Account.branch t depth op).Fresh t := ⟨rfl, rfl, rfl, rfl, rfl, .inl ⟨op, rfl⟩⟩

/-- What it may do is to take its walk. -/
theorem Fresh.ahead (h : a.Fresh root) (w : Walk) (hw : a.ahead? = some w) : w = a.walk := by
  rcases h.stage with ⟨op, hstage⟩ | hstage <;>
  · simp only [ahead?, hstage] at hw
    exact (Option.some.inj hw).symm

theorem Fresh.runsProgram (h : a.Fresh root) : a.runsProgram = false := by
  rcases h.stage with ⟨op, hstage⟩ | hstage <;> simp only [Account.runsProgram, hstage]

theorem Fresh.sited (h : a.Fresh root) : a.Sited root {} := by
  refine .fresh ?_ h.own h.ahead
  rw [h.site, h.tree, Tree.sub?_nil]

/-- No channel is open, and none is to be wired. -/
theorem Fresh.equipped (h : a.Fresh root) (t : FdTable) : a.Equipped {} t := by
  unfold Equipped
  rcases h.stage with ⟨op, hstage⟩ | hstage
  · rw [hstage]
    exact ⟨rfl, .inl rfl⟩
  · rw [hstage]
    exact fun q ch hch => by cases hch

/-- What the process was started for. -/
def part (a : Account) : Part := if a.walks then a.tree.part a.site else .program a.site

theorem Continues.part (h : a.Continues a') : a'.part = a.part := by
  rw [Account.part, Account.part, h.walks, h.same]

/-- Only who is there for a program comes to run one. -/
theorem part_invariant : Account.Invariant
    (fun a => a.runsProgram = true → a.part = .program a.site) fun _ _ => True where
  meanwhile _ _ := trivial
  turn {a v a' v'} h _ hturn := by
    refine ⟨fun hprogram => ?_, trivial⟩
    have kept : a'.part = a.part ∧ a'.site = a.site := by
      rw [hturn.same]
      exact ⟨rfl, rfl⟩
    rw [kept.1, kept.2]
    cases hturn with
    | wired hstage _ =>
        cases hx : a.tree.external? with
        | some c =>
            unfold Account.part
            split
            · rw [Tree.part, hx]
              rfl
            · rfl
        | none => simp [Account.runsProgram, onceWired, hx] at hprogram
    | prepare hstage _ | prepared hstage _ _ => exact h (by simp only [Account.runsProgram, hstage])
    | away hstage _ =>
        refine h ?_
        rcases hstage with ⟨c, hstage⟩ | hstage <;> simp only [Account.runsProgram, hstage]
    | log | builtin | leave | launch | fork | channel | release | wait | quit => cases hprogram
  birth _ _ hc _ := by
    refine ⟨fun hprogram => ?_, trivial⟩
    unfold child? at hc
    split at hc
    · cases hc
      rfl
    · cases hc
      cases hprogram
    · cases hc

/-- On good answers the walk comes to what it comes to on good answers. -/
theorem Stands.assumed {good : Exchange → Prop} {R : Except ExecError Int → Prop} {st : Prop}
    (h : a.Stands (assuming good) True (fun s r => s → R r) st)
    (hgood : ∀ d ∈ a.own, good d.exchange) {rest : Walk} (hstage : a.stage = .walking rest)
    {r : Except ExecError Int} (hr : rest.result? = some r) : R r := by
  refine h.result hstage hr (assuming_leads h.led trivial fun x hx => ?_)
  obtain ⟨d, hd, rfl⟩ := List.mem_map.mp hx
  exact hgood d hd

end Account

-- ================================================================ watching

namespace Watch

variable {root : Tree} {programs : Installed ρ} {w₀ w w' : Watch ρ} {s : Slot ρ} {m : Machine ρ}
  {p : Pid} {a : Account}

/-- One process of the machine is about to evaluate the tree. -/
inductive Starts (result : Except ExecError Int → ρ) (root : Tree) : Watch ρ → Prop where
  | intro {m : Machine ρ} {s : Slot ρ} {a : Account} : m.Sound → s ∈ m.slots → a.Proper →
      a.Drives result s → a.Fresh root → Starts result root (.alone s.process.pid a m)

/-- The one account there is. -/
theorem accounts_alone {p q : Pid} {a b : Account} (h : (alone p a m).accounts q = some b) :
    q = p ∧ b = a := by
  simp only [alone] at h
  split at h
  · next hq => exact ⟨hq, (Option.some.inj h).symm⟩
  · cases h

/-- The process lives that is about to evaluate the tree. -/
theorem Starts.running (h : w₀.Starts result root) (ha : w₀.accounts p = some a) :
    a.Fresh root ∧ ∀ t ∈ w₀.machine.slots, t.process.pid = p → ∃ todo, t.life = .running todo := by
  obtain @⟨m, s, a', hsound, hs, -, hdrives, hfresh⟩ := h
  obtain ⟨rfl, rfl⟩ := accounts_alone ha
  refine ⟨hfresh, fun t ht hpid => ?_⟩
  obtain rfl := hsound.eq_of_pid ht hs hpid
  obtain ⟨todo, hl, -⟩ := hdrives.asks hfresh.runsProgram
  exact ⟨todo, hl⟩

section

variable (hprograms : ∀ name args, (programs name args).Respects .onward)
  (hstart : w₀.Starts result root) (hrun : Run programs w₀ w)
include hprograms hstart hrun

/-- What holds of a process that has done nothing, and is preserved, holds
in all runs. -/
theorem Starts.holds {A : Account → Prop} {P : Account → View → Prop}
    (hI : Account.Invariant A P) (hA : ∀ a, a.Fresh root → A a)
    (hP : ∀ a v, a.Fresh root → P a v) : w.Holds result A P := by
  obtain ⟨hsound, hs, hproper, hdrives, hfresh⟩ := hstart
  exact (holds_alone hsound hs hproper hdrives (hA _ hfresh) (hP _ _ hfresh)).run hprograms hI hrun

/-- Everybody stands somewhere in the tree, and has open what it needs. -/
theorem Starts.equipped : w.Holds result (fun a => ∃ s, a.Sited root s)
    fun a v => ∃ s, a.Sited root s ∧ a.Equipped s v.process.fds :=
  hstart.holds hprograms hrun (Account.equipped_invariant root) (fun _ h => ⟨{}, h.sited⟩)
    fun _ _ h => ⟨{}, h.sited, h.equipped _⟩

/-- Only who is there for a program runs one. -/
theorem Starts.part (ha : w.accounts p = some a) (hprogram : a.runsProgram = true) :
    a.part = .program a.site := by
  refine (hstart.holds hprograms hrun Account.part_invariant (fun a h hprogram => ?_)
    fun _ _ _ => trivial).all p a ha hprogram
  rw [h.runsProgram] at hprogram
  cases hprogram

/-- What walks obey, everybody has kept to, also where the contract depends on
the walk. -/
theorem Starts.stands {σ : Type} {C : Account → Contract σ} {s₀ : σ}
    {Q : Account → σ → Except ExecError Int → Prop}
    (hobeys : ∀ a : Account, a.walk.Obeys (C a) s₀ (Q a))
    (hC : ∀ a own stage, C { a with own, stage } = C a)
    (hQ : ∀ a own stage, Q { a with own, stage } = Q a) (ha : w.accounts p = some a) :
    ∃ s, a.Stands (C a) s₀ (Q a) s := by
  have invariant : Account.Invariant (fun a => ∃ s, a.Stands (C a) s₀ (Q a) s) fun _ _ => True :=
    { meanwhile := fun _ _ => trivial
      turn := fun {a v a' v'} h _ hturn => by
        obtain ⟨s, hs⟩ := h
        obtain ⟨s', hs', -⟩ := hturn.stands hs
        have hsameC : C a' = C a := by
          rw [hturn.same]
          exact hC a _ _
        have hsameQ : Q a' = Q a := by
          rw [hturn.same]
          exact hQ a _ _
        exact ⟨⟨s', hsameC ▸ hsameQ ▸ hs'⟩, trivial⟩
      birth := fun _ _ hc _ =>
        ⟨⟨_, .fresh (hobeys _) (Account.child_deeds hc).2 (Account.child_ahead hc)⟩, trivial⟩ }
  exact (hstart.holds hprograms hrun invariant
    (fun a h => ⟨s₀, .fresh (hobeys a) h.own h.ahead⟩) fun _ _ _ => trivial).all p a ha

/-- Everybody attends to its children. -/
theorem Starts.attended : w.Attended := by
  induction hrun with
  | refl =>
      refine ⟨fun ha _ => ?_, fun ha d hd => ?_⟩
      · obtain ⟨hfresh, -⟩ := hstart.running ha
        exact ⟨[], .fresh hfresh.own hfresh.ahead⟩
      · obtain ⟨hfresh, -⟩ := hstart.running ha
        rw [hfresh.own] at hd
        cases hd
  | tail hrun hstep ih =>
      have holds := hstart.equipped hprograms hrun
      exact ih.step hprograms holds holds.all hstep

end

/-- Nobody has done anything, or ended. -/
theorem Starts.departing (hstart : w₀.Starts result root) (S : Pid → Int → Prop) :
    w₀.Departing S where
  living s hs _ a ha := by
    obtain ⟨hfresh, -⟩ := hstart.running ha
    intro hstage
    rcases hfresh.stage with ⟨op, hfirst⟩ | hfirst <;> rw [hfirst] at hstage <;>
      rcases hstage with hstage | ⟨c, hstage⟩ <;> cases hstage
  dead p a code ha hdead := by
    obtain ⟨-, hrunning⟩ := hstart.running ha
    obtain ⟨t, ht, hpid, hl⟩ := hdead
    obtain ⟨todo, hl'⟩ := hrunning t ht hpid
    rw [hl] at hl'
    cases hl'

-- =================================================================== waits

/-- Whoever waits on its walk waits for a child that was started for a part
of the tree, and is told how it ended. -/
theorem Attended.waited (h : w.Attended) (hs : s ∈ w.machine.slots) (halive : s.alive)
    (ha : w.accounts s.process.pid = some a) {child : Child}
    {next : Except ExecError Ending → Walk} (hstage : a.stage = .walking (.wait child next))
    {raw : Except Errno (Pid × Ending)} (hraw : w.machine.waitResult s child = some raw) :
    ∃ how b, raw = .ok (child, how) ∧ w.machine.Dead child how ∧ w.accounts child = some b ∧
      a.Serves b := by
  obtain ⟨owed, hattends⟩ := h.living ha ⟨s, hs, rfl, halive⟩
  obtain ⟨owed', ⟨hmem, -⟩, -⟩ := hattends.stands.rest hstage (.error (.wait .ECHILD))
  obtain ⟨hchild, b, hb, hserves⟩ := hattends.child child hmem
  obtain ⟨how, rfl, t, ht, hpid, -, hl⟩ := hchild.answer hraw
  exact ⟨how, b, rfl, ⟨t, ht, hpid, hl⟩, hb, hserves⟩

-- ================================================================ statuses

/-- In what everybody did, statuses are statuses. -/
def Ranged (w : Watch ρ) : Prop :=
  ∀ p a, w.accounts p = some a → ∀ d ∈ a.own, d.exchange.Ranged

/-- What is done more is so again. -/
theorem Ranged.moved (h : w.Ranged) (hdeparting : w.Departing fun _ => IsStatus)
    (hattended : w.Attended) (hs : s ∈ w.machine.slots) (halive : s.alive) :
    (w.moved s m).Ranged := by
  intro p a ha d hd
  rcases accounts_moved ha with ⟨rfl, b, hb, rfl⟩ | ⟨-, -, b, -, hc⟩ | ⟨-, -, hb⟩
  · rcases b.own_after w.machine s with hown | ⟨rest, d', hstage, hanswers, hown⟩
    · exact h _ b hb d (hown ▸ hd)
    rw [hown] at hd
    rcases List.mem_append.mp hd with hd | hd
    · exact h _ b hb d hd
    obtain rfl := List.mem_singleton.mp hd
    cases hanswers with
    | builtin hrun =>
        rcases Builtin.run_status hrun with rfl | rfl <;> constructor <;> decide
    | launch | fork | channel | release => trivial
    | @wait child next raw hraw =>
        obtain ⟨how, b', rfl, hdead, hb', -⟩ := hattended.waited hs halive hb hstage hraw
        cases how with
        | exited code => exact hdeparting.dead child b' code hb' hdead
        | signaled n =>
            simp only [Walk.waitAnswer]
            split <;> trivial
  · rw [(Account.child_deeds hc).2] at hd
    cases hd
  · exact h p a hb d hd

section

variable (hprograms : ∀ name args, (programs name args).Respects .onward)
  (hstart : w₀.Starts result root) (hrun : Run programs w₀ w)
include hprograms hstart hrun

/-- Where all are statuses, everybody exits with one. -/
theorem Starts.yields_status (h : w.Ranged) (ha : w.accounts p = some a) (v : View) :
    a.Yields IsStatus v where
  result rest r hstage _ hr := by
    obtain ⟨st, hstands⟩ := hstart.stands hprograms hrun (C := fun _ => assuming Exchange.Ranged)
      (Q := fun _ s r => s → IsStatus (exitCode r))
      (fun a => Walk.status_execute a.tree a.depth a.parent a.site) (fun _ _ _ => rfl)
      (fun _ _ _ => rfl) ha
    exact hstands.assumed (h p a ha) hstage hr
  wiring _ _ _ _ _ := Walk.isStatus_exitFailure
  leaving _ _ := by constructor <;> decide
  program _ _ h := h

/-- Statuses remain statuses, and everybody exits with one. -/
theorem Starts.ranged : w.Departing (fun _ => IsStatus) ∧ w.Ranged := by
  induction hrun with
  | refl =>
      refine ⟨hstart.departing _, fun p a ha d hd => ?_⟩
      obtain ⟨hfresh, -⟩ := hstart.running ha
      rw [hfresh.own] at hd
      cases hd
  | tail hrun hstep ih =>
      obtain ⟨hdeparting, hranged⟩ := ih
      have holds := hstart.equipped hprograms hrun
      cases hstep with
      | pass clock => exact ⟨⟨hdeparting.living, hdeparting.dead⟩, hranged⟩
      | move hs hm =>
          exact ⟨hdeparting.moved hprograms (fun _ _ => id) holds hs hm fun a ha =>
              hstart.yields_status hprograms hrun hranged ha _,
            hranged.moved hdeparting (hstart.attended hprograms hrun) hs
              (Machine.alive_of_move hm)⟩

/-- Whoever asks to exit asks to exit with a status, unless its program has
taken over. -/
theorem Starts.exit_status (hs : s ∈ w.machine.slots) (ha : w.accounts s.process.pid = some a)
    (htaken : a.isTaken = false) {how : Ending} (hl : s.life = .running (.exit how)) :
    ∃ code, how = .exited code ∧ IsStatus code := by
  have holds := hstart.equipped hprograms hrun
  obtain ⟨hdeparting, hranged⟩ := hstart.ranged hprograms hrun
  have halive : s.alive := by rw [Slot.alive, hl]
  exact (hdeparting.living s hs halive a ha).code (m := w.machine) (holds.drives s hs halive a ha)
    (hstart.yields_status hprograms hrun hranged ha _) hl htaken

end

end Watch

end LineShell
