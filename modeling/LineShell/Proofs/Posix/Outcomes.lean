/-
Log lines make no difference to what a machine comes to.

Let one machine annotate another. A move of the first is then a move of the
second as well, or it logs a line, and the second stays where it is
(`Annotates.step`). The other way round, a move of the second can be made
in the first once the lines before it are logged (`Annotates.ready`). Runs
are followed in both directions, so the main process may come to the same
in both machines, however moves are chosen (`Annotates.comesTo_iff`).
-/
import Mathlib.Logic.Relation
import LineShell.Proofs.Posix.Annotated

namespace LineShell.Posix

variable {ρ : Type}

namespace Machine

variable {m m' n n' : Machine ρ} {s s' : Slot ρ} {programs : Installed ρ}

-- ================================================================== runs

/-- Some process moves, or time passes. -/
inductive Step (programs : Installed ρ) : Machine ρ → Machine ρ → Prop where
  | move {m m' : Machine ρ} (s : Slot ρ) : s ∈ m.slots → m.move programs s = some m' →
      Step programs m m'
  | pass {m : Machine ρ} (clock : Nat) : Step programs m { m with clock }

/-- A run, in which any process may move that can. -/
def Run (programs : Installed ρ) : Machine ρ → Machine ρ → Prop :=
  Relation.ReflTransGen (Step programs)

/-- What the machine itself does is one of its runs. -/
theorem run_settle (programs : Installed ρ) (fuel : Nat) (m : Machine ρ) :
    Run programs m (settle programs fuel m) := by
  induction fuel generalizing m with
  | zero => exact .refl
  | succ fuel ih =>
      unfold settle
      split
      · split
        · next m' hm =>
          refine .head ?_ (ih m')
          rcases Option.or_eq_some_iff.mp hm with hmove | ⟨-, hwake⟩
          · obtain ⟨s, hs, hmove⟩ := List.exists_of_findSome?_eq_some hmove
            exact .move s hs hmove
          · obtain ⟨wake, -, rfl⟩ := Option.map_eq_some_iff.mp hwake
            exact .pass wake
        · exact .refl
      · exact .refl

section

variable (honward : ∀ name args, (programs name args).Respects .onward)
include honward

theorem Sound.step (h : m.Sound) (hstep : Step programs m m') : m'.Sound := by
  cases hstep with
  | move s hs hm => exact h.move hs honward hm
  | pass clock => exact ⟨h.bounds, h.distinct, h.content⟩

theorem Sound.run (h : m.Sound) (hrun : Run programs m m') : m'.Sound := by
  induction hrun with
  | refl => exact h
  | tail _ hstep ih => exact ih.step honward hstep

end

namespace Annotates

theorem pass (h : m.Annotates m') (clock : Nat) :
    Annotates { m with clock } { m' with clock } :=
  ⟨h.world, h.nextPid, rfl, h.slots⟩

section

variable (honward : ∀ name args, (programs name args).Respects .onward)
  (hblind : ∀ name args, (programs name args).IsBlind)
include honward hblind

omit honward in
/-- What the first machine does the second does as well, unless it is to log
a line. -/
theorem step (h : m.Annotates m') (hnodup : m.pids.Nodup) (hstep : Step programs m n) :
    ∃ n', Run programs m' n' ∧ n.Annotates n' := by
  cases hstep with
  | pass clock => exact ⟨_, .single (.pass clock), h.pass clock⟩
  | move s hs hm =>
      obtain ⟨s', hs', hann⟩ := h.partner hs
      -- unless the process begins with a line, it does in both machines the same next
      have beside (hl : s.life.Abreast s'.life) : ∃ n', Run programs m' n' ∧ n.Annotates n' := by
        have both := h.move hann hblind hl
        rw [hm] at both
        generalize hm' : m'.move programs s' = found at both
        cases both with
        | some hn => exact ⟨_, .single (.move s' hs' hm'), hn⟩
      have hlife := hann.life
      generalize he : s.life = l, he' : s'.life = l' at hlife
      cases hlife with
      | sleeping wake hp => exact beside (he ▸ he' ▸ .sleeping wake hp)
      | ended how => exact beside (he ▸ he' ▸ .ended how)
      | running hp =>
          obtain ⟨p, hn, hp⟩ := hp
          cases hn with
          | refl => exact beside (he ▸ he' ▸ .running hp)
          | note level text hn =>
              obtain ⟨n₁, hm₁, hann₁, -⟩ :=
                h.note hnodup hs hs' hann he (he' ▸ .running ⟨p, hn, hp⟩)
              obtain rfl := Option.some.inj (hm.symm.trans hm₁)
              exact ⟨m', .refl, hann₁⟩

/-- Whatever the first machine does, the second may do. -/
theorem run (h : m.Annotates m') (hsound : m.Sound) (hrun : Run programs m n) :
    ∃ n', Run programs m' n' ∧ n.Annotates n' := by
  induction hrun with
  | refl => exact ⟨m', .refl, h⟩
  | tail hrun hstep ih =>
      obtain ⟨n', hrun', hn⟩ := ih
      obtain ⟨n'', hrun'', hn⟩ := hn.step hblind (hsound.run honward hrun).distinct hstep
      exact ⟨n'', hrun'.trans hrun'', hn⟩

omit hblind in
/-- The first machine logs all lines of a process that come first. -/
theorem ready (h : m.Annotates m') (hsound : m.Sound) (hs' : s' ∈ m'.slots) :
    ∃ n, Run programs m n ∧ n.Annotates m' ∧
      ∃ t ∈ n.slots, t.Annotates s' ∧ t.life.Abreast s'.life := by
  obtain ⟨s, hs, hann⟩ := h.partner_back hs'
  have hlife := hann.life
  generalize he : s.life = l, he' : s'.life = l' at hlife
  cases hlife with
  | sleeping wake hp => exact ⟨m, .refl, h, s, hs, hann, he ▸ .sleeping wake hp⟩
  | ended how => exact ⟨m, .refl, h, s, hs, hann, he ▸ .ended how⟩
  | running hp =>
      obtain ⟨p', hn, hp⟩ := hp
      induction hn generalizing m s with
      | refl p => exact ⟨m, .refl, h, s, hs, hann, he ▸ .running hp⟩
      | note level text hn ih =>
          obtain ⟨n, hm, hann, t, ht, hl, htann⟩ :=
            h.note hsound.distinct hs hs' hann he (he' ▸ .running ⟨_, hn, hp⟩)
          obtain ⟨n', hrun, hn'⟩ := ih hann (hsound.move hs honward hm) t ht htann hl hp
          exact ⟨n', .head (.move s hs hm) hrun, hn'⟩

/-- Whatever the second machine does, the first may do. -/
theorem run_back (h : m.Annotates m') (hsound : m.Sound) (hrun : Run programs m' n') :
    ∃ n, Run programs m n ∧ n.Annotates n' := by
  induction hrun with
  | refl => exact ⟨m, .refl, h⟩
  | tail _ hstep ih =>
      obtain ⟨n, hrun, hn⟩ := ih
      cases hstep with
      | pass clock => exact ⟨_, hrun.tail (.pass clock), hn.pass clock⟩
      | move s' hs' hm' =>
          obtain ⟨n₁, hrun₁, hn₁, t, ht, htann, hl⟩ :=
            hn.ready honward (hsound.run honward hrun) hs'
          have both := hn₁.move htann hblind hl
          rw [hm'] at both
          generalize hm : n₁.move programs t = found at both
          cases both with
          | some hn₂ => exact ⟨_, (hrun.trans hrun₁).tail (.move t ht hm), hn₂⟩

end

end Annotates

-- =============================================================== outcomes

deriving instance DecidableEq for Standing

/-- The main process may come to stand like this, with this view but for
the log. -/
def ComesTo (programs : Installed ρ) (m : Machine ρ) (st : Standing ρ) (v : View) : Prop :=
  ∃ n, Run programs m n ∧ n.standing = st ∧ n.view.Same v

namespace Annotates

theorem main? (h : m.Annotates m') : Option.Rel Slot.Annotates m.main? m'.main? :=
  find?_of_forall₂ h.slots fun t t' ht => by rw [ht.pid]

theorem view (h : m.Annotates m') : m.view.Same m'.view := by
  have hmain := h.main?
  unfold Machine.view
  generalize m.main? = s, m'.main? = s' at hmain
  cases hmain with
  | none => rw [h.world]; exact .refl _
  | some hs => exact h.same hs

/-- What the first machine has come to, so has the second. -/
theorem standing (h : m.Annotates m') (hbusy : m.standing ≠ .busy) :
    m'.standing = m.standing := by
  have hmain := h.main?
  unfold Machine.standing at hbusy ⊢
  generalize m.main? = s, m'.main? = s' at hmain hbusy
  cases hmain with
  | none => rfl
  | @some s s' hs =>
      obtain ⟨process, life⟩ := s
      obtain ⟨process', life'⟩ := s'
      cases hs.life with
      | sleeping wake hp => rfl
      | ended how => rfl
      | @running p q hp =>
          cases p with
          | ret r =>
              obtain rfl := hp.of_ret
              rfl
          | exit | step | read | write | fork | wait | kill | sleep | exec =>
              exact absurd rfl hbusy

section

variable (honward : ∀ name args, (programs name args).Respects .onward)
  (hblind : ∀ name args, (programs name args).IsBlind)
include honward

/-- What the second machine has come to, the first comes to once all lines
before it are logged. -/
theorem standing_back (h : m.Annotates m') (hsound : m.Sound) (hbusy : m'.standing ≠ .busy) :
    ∃ n, Run programs m n ∧ n.Annotates m' ∧ n.standing = m'.standing := by
  cases hmain : m'.main? with
  | none =>
      refine absurd ?_ hbusy
      rw [Machine.standing, hmain]
      rfl
  | some s' =>
      obtain ⟨n, hrun, hn, t, ht, hann, hl⟩ :=
        h.ready honward hsound (List.mem_of_find?_eq_some hmain)
      refine ⟨n, hrun, hn, ?_⟩
      have both := hn.main?
      rw [hmain] at both
      generalize hmain' : n.main? = found at both
      cases both with
      | @some t' _ ht' =>
          obtain rfl := (hsound.run honward hrun).eq_of_pid ht
            (List.mem_of_find?_eq_some hmain') (hann.pid.symm.trans ht'.pid)
          unfold Machine.standing at hbusy ⊢
          rw [hmain] at hbusy
          rw [hmain, hmain']
          obtain ⟨process, life⟩ := t
          obtain ⟨process', life'⟩ := s'
          cases hl with
          | sleeping wake hp => rfl
          | ended how => rfl
          | @running p q hp =>
              cases q with
              | ret r =>
                  obtain rfl := hp
                  rfl
              | exit | step | read | write | fork | wait | kill | sleep | exec =>
                  exact absurd rfl hbusy

include hblind

/-- The main process may come to the same in both machines. -/
theorem comesTo_iff (h : m.Annotates m') (hsound : m.Sound) {st : Standing ρ}
    (hst : st ≠ .busy) (v : View) : m.ComesTo programs st v ↔ m'.ComesTo programs st v := by
  constructor
  · rintro ⟨n, hrun, rfl, hview⟩
    obtain ⟨n', hrun', hn⟩ := h.run honward hblind hsound hrun
    exact ⟨n', hrun', hn.standing hst, hn.view.symm.trans hview⟩
  · rintro ⟨n', hrun', rfl, hview⟩
    obtain ⟨n, hrun, hn⟩ := h.run_back honward hblind hsound hrun'
    obtain ⟨n₁, hrun₁, hn₁, hstanding⟩ :=
      hn.standing_back honward (hsound.run honward hrun) hst
    exact ⟨n₁, hrun.trans hrun₁, hstanding, hn₁.view.trans hview⟩

end

end Annotates

-- ================================================================ starting

/-- The machine whose main process is to do something. -/
def doing (todo : Prog ρ) (m : Machine ρ) : Machine ρ :=
  { m with
    slots := m.slots.map fun s =>
      if s.process.pid = mainPid then { s with life := .running todo } else s }

/-- Having the main process do something leads to what it may come to. -/
theorem comesTo_perform (programs : Installed ρ) (fuel : Nat) (todo : Prog ρ) (m : Machine ρ) :
    (m.doing todo).ComesTo programs (m.perform programs fuel todo).standing
      (m.perform programs fuel todo).view :=
  ⟨_, run_settle programs fuel _, rfl, .refl _⟩

theorem Sound.doing (h : m.Sound) {todo : Prog ρ} (htodo : todo.Respects .onward) :
    (m.doing todo).Sound where
  bounds s hs := by
    obtain ⟨t, ht, rfl⟩ := List.mem_map.mp hs
    split <;> exact h.bounds t ht
  distinct := by
    have same : (m.doing todo).pids = m.pids := by
      simp only [pids, Machine.doing, List.map_map]
      refine List.map_congr_left fun t _ => ?_
      simp only [Function.comp]
      split <;> rfl
    rw [same]
    exact h.distinct
  content s hs := by
    obtain ⟨t, ht, rfl⟩ := List.mem_map.mp hs
    split
    · exact htodo
    · exact h.content t ht

/-- No program and no process does more than a process may, and none but the
main process looks at its log. -/
structure Ordinary (programs : Installed ρ) (m : Machine ρ) : Prop where
  onward : ∀ name args, (programs name args).Respects .onward
  blind : ∀ name args, (programs name args).IsBlind
  sound : m.Sound
  others : ∀ s ∈ m.slots, s.process.pid ≠ mainPid → s.life.Annotates s.life

namespace Ordinary

/-- A machine that starts has no other processes. -/
theorem start (honward : ∀ name args, (programs name args).Respects .onward)
    (hblind : ∀ name args, (programs name args).IsBlind) (v : View) (idle : ρ) :
    (Machine.start v idle).Ordinary programs where
  onward := honward
  blind := hblind
  sound :=
    { bounds := fun s hs => by
        obtain rfl := List.mem_singleton.mp hs
        exact ⟨Nat.one_pos, Nat.lt_succ_self _⟩
      distinct := List.nodup_singleton _
      content := fun s hs => by
        obtain rfl := List.mem_singleton.mp hs
        trivial }
  others s hs hne := by
    obtain rfl := List.mem_singleton.mp hs
    exact absurd rfl hne

/-- The main process does what differs in log lines alone. -/
theorem doing (h : m.Ordinary programs) {p q : Prog ρ} (hp : p.Annotates q) :
    (m.doing p).Annotates (m.doing q) where
  world := rfl
  nextPid := rfl
  clock := rfl
  slots := by
    refine List.forall₂_map_left_iff.mpr (List.forall₂_map_right_iff.mpr
      (List.forall₂_same.mpr fun s hs => ?_))
    split
    · exact ⟨⟨s.process.log, rfl⟩, .running hp⟩
    · next hne => exact ⟨⟨s.process.log, rfl⟩, h.others s hs hne⟩

/-- What programs that differ in log lines alone come to is the same. -/
theorem comesTo_iff (h : m.Ordinary programs) {p q : Prog ρ} (hp : p.Annotates q)
    (honward : p.Respects .onward) {st : Standing ρ} (hst : st ≠ .busy) (v : View) :
    (m.doing p).ComesTo programs st v ↔ (m.doing q).ComesTo programs st v :=
  (h.doing hp).comesTo_iff h.onward h.blind (h.sound.doing honward) hst v

end Ordinary

end Machine

end LineShell.Posix
