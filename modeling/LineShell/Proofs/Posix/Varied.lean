/-
Runs in which the main process does more acts of a kind, or fewer.

# Programs

A program tracks another one if both make the same requests, in the same order,
but for acts of some kind that either does in between (`Prog.Tracks`). It may
look at what the machine is at such a moment, but what it asks for afterwards
does not depend on it.

# Machines

A run is varied if at some moments the main process does an act of the kind
that its program does not ask for, and at others leaves one out that it does
ask for (`Machine.Varied`). All else is a run of the machine, so the varied
run shows what can come of the program if other acts of that kind are done.

Two machines are followed whose main processes track each other (`Differ`).
What the one does the other does in a varied run: an act that only the first
program has is one more in the second machine, and one that only the second
has is left out. So whatever comes of one program comes of the other, up to
such acts (`Differ.run`).

# Traces

Where an act changes nothing but the log of the main process, it makes no
difference that it was done or left out: the varied run is then a run, up to
the logs (`Varied.unseen`).
-/
import LineShell.Proofs.Posix.Doing

namespace LineShell.Posix

variable {ρ : Type} {S : (View → View) → Prop} {R : Prog ρ → Prog ρ → Prop}

-- ============================================================== programs

namespace Prog

/-- Both programs make the same requests, but for acts of a kind that either may
do besides, until they are to each other as `R` has it. -/
inductive Tracks (S : (View → View) → Prop) (R : Prog ρ → Prog ρ → Prop) :
    Prog ρ → Prog ρ → Prop where
  | done {p q : Prog ρ} : R p q → Tracks S R p q
  | exit (how : Ending) : Tracks S R (.exit how) (.exit how)
  | step {act : View → View} {next next' : View → Prog ρ} :
      (∀ v, Tracks S R (next v) (next' v)) → Tracks S R (.step act next) (.step act next')
  | fork {child : Prog ρ} {next next' : Pid → Prog ρ} :
      (∀ pid, Tracks S R (next pid) (next' pid)) → Tracks S R (.fork child next) (.fork child next')
  | wait {child : Int} {next next' : Except Errno (Pid × Ending) → Prog ρ} :
      (∀ r, Tracks S R (next r) (next' r)) → Tracks S R (.wait child next) (.wait child next')
  /-- An act that the first program alone does, whatever it shows. -/
  | left {act : View → View} {next : View → Prog ρ} {q : Prog ρ} :
      S act → (∀ v, Tracks S R (next v) q) → Tracks S R (.step act next) q
  /-- And one that the second alone does. -/
  | right {p : Prog ρ} {act : View → View} {next : View → Prog ρ} :
      S act → (∀ v, Tracks S R p (next v)) → Tracks S R p (.step act next)

theorem Tracks.symm {p q : Prog ρ} (h : p.Tracks S R q) : q.Tracks S (fun q p => R p q) p := by
  induction h with
  | done hR => exact .done hR
  | exit how => exact .exit how
  | step _ ih => exact .step ih
  | fork _ ih => exact .fork ih
  | wait _ ih => exact .wait ih
  | left hact _ ih => exact .right hact ih
  | right hact _ ih => exact .left hact ih

end Prog

namespace Machine

variable {m m' n n' : Machine ρ} {s : Slot ρ} {p q : Prog ρ} {programs : Installed ρ}
  {T : (View → View) → View → Prop}

-- ================================================================== runs

/-- A step of a run, or the main process does one act more, or one less, where
that is of the kind. -/
inductive Varying (T : (View → View) → View → Prop) (programs : Installed ρ) :
    Machine ρ → Machine ρ → Prop where
  | step {m m' : Machine ρ} : Step programs m m' → Varying T programs m m'
  | more {m : Machine ρ} {s : Slot ρ} {todo : Prog ρ} (act : View → View) :
      T act ⟨s.process, m.world⟩ → s ∈ m.slots → s.process.pid = mainPid → s.life = .running todo →
      Varying T programs m (m.resume s (act ⟨s.process, m.world⟩) todo)
  | less {m : Machine ρ} {s : Slot ρ} {act : View → View} {next : View → Prog ρ} :
      T act ⟨s.process, m.world⟩ → s ∈ m.slots → s.process.pid = mainPid →
      s.life = .running (.step act next) →
      Varying T programs m (m.proceed s (next ⟨s.process, m.world⟩))

/-- A run in which the main process does more acts of a kind, or fewer. -/
def Varied (T : (View → View) → View → Prop) (programs : Installed ρ) :
    Machine ρ → Machine ρ → Prop :=
  Relation.ReflTransGen (Varying T programs)

section

variable (hprograms : ∀ name args, (programs name args).Respects .onward)
  (hT : ∀ act v, T act v → v.Onward (act v))
include hprograms hT

theorem Sound.varying (h : m.Sound) (hstep : Varying T programs m m') : m'.Sound := by
  cases hstep with
  | step hstep => exact h.step hprograms hstep
  | @more s todo act hact hs _ hl =>
      have content := h.content s hs
      rw [hl] at content
      exact h.carries (.resume Frame.onward_fits (hT act _ hact) content)
  | @less s act next _ hs _ hl =>
      have content := h.content s hs
      rw [hl] at content
      exact h.carries (.proceed Frame.onward_fits (content.2 _))

theorem Sound.varied (h : m.Sound) (hrun : Varied T programs m m') : m'.Sound := by
  induction hrun with
  | refl => exact h
  | tail _ hstep ih => exact ih.varying hprograms hT hstep

end

-- ============================================================ comparison

/-- Something holds of what the main process sees, if it lives. -/
def AtMain (P : View → Prop) (m : Machine ρ) : Prop :=
  ∀ s ∈ m.slots, s.process.pid = mainPid → s.alive → P ⟨s.process, m.world⟩

/-- The machines differ at most in acts of a kind that their main processes have
still to do. -/
inductive Differ (S : (View → View) → Prop) (R : Prog ρ → Prog ρ → Prop) :
    Machine ρ → Machine ρ → Prop where
  | doing {p q : Prog ρ} (h : p.Tracks S R q) (m : Machine ρ) : Differ S R (m.doing p) (m.doing q)
  | refl (m : Machine ρ) : Differ S R m m

theorem Beside.differ (h : Beside p q m n) (htracks : p.Tracks S R q) : Differ S R m n := by
  rcases h with ⟨c, rfl, rfl⟩ | ⟨rfl, -⟩
  · exact .doing htracks c
  · exact .refl m

/-- The main process, with one thing to do or another. -/
theorem main_doing (hs : s ∈ (m.doing p).slots) (hmain : s.process.pid = mainPid) (q : Prog ρ) :
    s = ⟨s.process, .running p⟩ ∧ ⟨s.process, .running q⟩ ∈ (m.doing q).slots := by
  rw [slots_doing] at hs ⊢
  obtain ⟨t, ht, rfl⟩ := List.mem_map.mp hs
  rw [Slot.doing_process] at hmain ⊢
  exact ⟨by rw [Slot.doing_main hmain], List.mem_map.mpr ⟨t, ht, Slot.doing_main hmain⟩⟩

/-- The main process sees the same. -/
theorem Differ.atMain (h : Differ S R m n) {P : View → Prop} (hn : n.AtMain P) : m.AtMain P := by
  cases h with
  | @doing p q _ c =>
      exact fun s hs hmain _ => hn ⟨s.process, .running q⟩ (main_doing hs hmain q).2 hmain rfl
  | refl => exact hn

/-- Who has something to do has not ended. -/
theorem standing_doing_ne (p : Prog ρ) (m : Machine ρ) (how : Ending) :
    (m.doing p).standing ≠ .ended how := by
  unfold standing
  cases hmain : (m.doing p).main? with
  | none => exact nofun
  | some s =>
      have hs := List.mem_of_find?_eq_some hmain
      have hpid : s.process.pid = mainPid := by simpa using List.find?_some hmain
      rw [(main_doing hs hpid p).1]
      cases p <;> exact nofun

/-- Where the main process has ended, the machines are the same. -/
theorem Differ.eq_of_dead (h : Differ S R m n) {how : Ending} (hdead : m.standing = .ended how) :
    m = n := by
  cases h with
  | doing _ c => exact absurd hdead (standing_doing_ne _ c how)
  | refl => rfl

/-- Giving the main process something to do. -/
theorem Sound.proceed_main (h : (m.doing p).Sound) (hs : s ∈ (m.doing p).slots)
    (hmain : s.process.pid = mainPid) (todo : Prog ρ) :
    (m.doing p).proceed s todo = m.doing todo := by
  refine eq_of_slots rfl rfl rfl ?_
  simp only [proceed, put, slots_doing, List.map_map]
  refine List.map_congr_left fun t ht => ?_
  have ht' : t.doing p ∈ (m.doing p).slots := List.mem_map.mpr ⟨t, ht, rfl⟩
  simp only [Function.comp, Slot.doing_process, hmain]
  split
  · next hpid =>
    have same := h.eq_of_pid ht' hs (by rw [Slot.doing_process, hpid, hmain])
    rw [← same, Slot.doing_process, Slot.doing_main hpid]
  · next hpid => rw [Slot.doing_other hpid, Slot.doing_other hpid]

/-- A number that has been given out is not the next one. -/
theorem Sound.nextPid_ne (h : m.Sound) (hs : s ∈ m.slots) : m.nextPid ≠ mainPid :=
  Nat.ne_of_gt (Nat.lt_of_le_of_lt (h.bounds s hs).1 (h.bounds s hs).2)

section

variable (hprograms : ∀ name args, (programs name args).Respects .onward)
  (hT : ∀ act v, T act v → v.Onward (act v))

include hT in
/-- A request of the main process is made in the second machine as well, once the
acts before it are left out there, unless the programs are as they should come to
be by then. -/
theorem move_tracks {process : Process} (hmain : process.pid = mainPid) (h : p.Tracks S R q)
    (hsound : (m.doing p).Sound) (hs : ⟨process, .running p⟩ ∈ (m.doing p).slots)
    (hkeeps : q.Respects .onward) (hacts : ∀ act, S act → T act ⟨process, m.world⟩)
    (hmove : (m.doing p).move programs ⟨process, .running p⟩ = some m') :
    (∃ q', R p q' ∧ Varied T programs (m.doing q) (m.doing q')) ∨
      ∃ n', Varied T programs (m.doing q) n' ∧ Differ S R m' n' := by
  have hnext : m.nextPid ≠ mainPid := hsound.nextPid_ne hs
  have mem (q : Prog ρ) : ⟨process, .running q⟩ ∈ (m.doing q).slots := (main_doing hs hmain q).2
  -- both make the request
  have level {q : Prog ρ} {α : Type} {next next' : α → Prog ρ} {a : α}
      (hn : (m.doing q).move programs ⟨process, .running q⟩ = some (m'.doing (next' a)))
      (hm' : some m' = some (m'.doing (next a))) (h : (next a).Tracks S R (next' a)) :
      ∃ n', Varied T programs (m.doing q) n' ∧ Differ S R m' n' := by
    refine ⟨_, .single (.step (.move _ (mem q) hn)), ?_⟩
    rw [Option.some.inj hm', doing_doing]
    exact .doing h m'
  induction h with
  | done hR => exact .inl ⟨_, hR, .refl⟩
  | exit how => exact .inr ⟨m', .single (.step (.move _ hs hmove)), .refl m'⟩
  | step h =>
      obtain ⟨v, both⟩ := step_main hmain (hkeeps.1 _).pid hmove
      exact .inr (level (both _) (hmove.symm.trans (both _)) (h v))
  | fork h =>
      obtain ⟨pid, both⟩ := fork_main hmain hnext hmove
      exact .inr (level (both _) (hmove.symm.trans (both _)) (h pid))
  | wait h =>
      obtain ⟨r, both⟩ := wait_main hmain hmove
      exact .inr (level (both _) (hmove.symm.trans (both _)) (h r))
  | @left act next q hact h _ =>
      cases hmove
      have hact' := hacts act hact
      refine .inr ⟨_, .single (.more act hact' (mem q) hmain rfl), ?_⟩
      have placed (s' : Slot ρ) (p todo' : Prog ρ) :=
        resume_main ((hT _ _ hact').pid.trans hmain) m ⟨process, .running (.step act next)⟩ s'
          (.step act next) p (next ⟨process, m.world⟩) todo'
      have differ := Differ.doing (h ⟨process, m.world⟩) ((m.doing (.step act next)).resume
        ⟨process, .running (.step act next)⟩ (act ⟨process, m.world⟩) (next ⟨process, m.world⟩))
      rwa [placed ⟨process, .running (.step act next)⟩ (.step act next),
        placed ⟨process, .running q⟩ q] at differ
  | @right p act next hact h ih =>
      have leaves : Varied T programs (m.doing (.step act next))
          (m.doing (next ⟨process, m.world⟩)) := by
        have hsound' : (m.doing (.step act next)).Sound := by
          have := hsound.doing hkeeps
          rwa [doing_doing] at this
        have left_out : Varying T programs (m.doing (.step act next)) _ :=
          .less (hacts act hact) (mem (.step act next)) hmain rfl
        rw [hsound'.proceed_main (mem _) hmain] at left_out
        exact .single left_out
      rcases ih ⟨process, m.world⟩ hsound hs (hkeeps.2 _) hmove with ⟨q', hR, hrun⟩ | ⟨n', hrun, hd⟩
      · exact .inl ⟨q', hR, leaves.trans hrun⟩
      · exact .inr ⟨n', leaves.trans hrun, hd⟩

include hT in
/-- What the first machine does the second does, with acts done or left out as the
first does or lacks them, unless the programs are as they should come to be. -/
theorem Differ.step (h : Differ S R m n) (hm : m.Sound) (hn : n.Sound)
    (hacts : m.AtMain fun v => ∀ act, S act → T act v) (hstep : Step programs m m') :
    (∃ (c : Machine ρ) (p q : Prog ρ), R p q ∧ m = c.doing p ∧ Varied T programs n (c.doing q)) ∨
      ∃ n', Varied T programs n n' ∧ Differ S R m' n' := by
  cases h with
  | @doing p q htracks c =>
    cases hstep with
    | pass clock =>
        exact .inr ⟨_, .single (.step (.pass clock)), .doing htracks { c with clock }⟩
    | move s hs hmove =>
        by_cases hmain : s.process.pid = mainPid
        · obtain ⟨hs', hq⟩ := main_doing hs hmain q
          have hkeeps := hn.content _ hq
          have hview := hacts s hs hmain (by rw [hs']; rfl)
          rw [hs'] at hs hmove
          rcases move_tracks hT hmain htracks hm hs hkeeps hview hmove with ⟨q', hR, hrun⟩ | h
          · exact .inl ⟨c, p, q', hR, rfl, hrun⟩
          · exact .inr h
        · have both : Option.Rel (Beside p q) ((c.doing p).move programs s)
              ((c.doing q).move programs s) :=
            move_doing hmain (hm.nextPid_ne hs) (hm.content s hs)
          have hs' : s ∈ (c.doing q).slots :=
            (mem_doing_of_ne hmain).mpr ((mem_doing_of_ne hmain).mp hs)
          rw [hmove] at both
          generalize hn' : (c.doing q).move programs s = found at both
          cases both with
          | some hd => exact .inr ⟨_, .single (.step (.move s hs' hn')), hd.differ htracks⟩
  | refl => exact .inr ⟨m', .single (.step hstep), .refl m'⟩

include hprograms hT in
/-- Whatever the first machine does the second does in a varied run, at least until
the programs are as they should come to be. -/
theorem Differ.run (h : Differ S R m n) (hm : m.Sound) (hn : n.Sound)
    (hacts : ∀ m₁, Run programs m m₁ → m₁.AtMain fun v => ∀ act, S act → T act v)
    (hrun : Run programs m m') :
    (∃ (c : Machine ρ) (p q : Prog ρ), R p q ∧ Run programs m (c.doing p) ∧ Varied T programs n (c.doing q) ∧
        Run programs (c.doing p) m') ∨
      ∃ n', Varied T programs n n' ∧ Differ S R m' n' := by
  induction hrun with
  | refl => exact .inr ⟨n, .refl, h⟩
  | @tail m₁ m₂ hrun hstep ih =>
      rcases ih with ⟨c, p, q, hR, hp, hq, hrest⟩ | ⟨n₁, hn₁, hd⟩
      · exact .inl ⟨c, p, q, hR, hp, hq, hrest.tail hstep⟩
      · rcases hd.step hT (hm.run hprograms hrun) (hn.varied hprograms hT hn₁) (hacts m₁ hrun) hstep
          with ⟨c, p, q, hR, rfl, hq⟩ | ⟨n₂, hn₂, hd⟩
        · exact .inl ⟨c, p, q, hR, hrun, hn₁.trans hq, .single hstep⟩
        · exact .inr ⟨n₂, hn₁.trans hn₂, hd⟩

end

-- ================================================================== traces

section

variable (hprograms : ∀ name args, (programs name args).Respects .onward)
  (hblind : ∀ name args, (programs name args).IsBlind)
  (hT : ∀ act v, T act v → v.Onward (act v)) (hsame : ∀ act v, T act v → v.Same (act v))

include hblind hsame in
/-- An act that is done or left out is but a difference in the log. -/
theorem Annotates.varying (h : m.Annotates n) (hm : m.Sound) (hstep : Varying T programs m m') :
    ∃ n', Run programs n n' ∧ m'.Annotates n' := by
  cases hstep with
  | step hstep => exact h.step hblind hm.distinct hstep
  | @more s todo act hact hs hmain hl =>
      obtain ⟨s', hs', hann⟩ := h.partner hs
      have same := hsame act _ hact
      have hworld : (act ⟨s.process, m.world⟩).world = m.world := same.world
      have hview : (act ⟨s.process, m.world⟩).Same ⟨s'.process, m.world⟩ :=
        same.symm.trans (hann.same m.world)
      have placed : Slot.Annotates ⟨(act ⟨s.process, m.world⟩).process, .running todo⟩ s' :=
        .of_same hview (hl ▸ hann.life)
      refine ⟨n, .refl, ?_⟩
      have hput := h.put_left hm.distinct hs' placed
      rw [Machine.resume, hworld]
      exact hput
  | @less s act next hact hs hmain hl =>
      obtain ⟨s', hs', hann⟩ := h.partner hs
      have same := hsame act _ hact
      have hlife := hann.life
      rw [hl] at hlife
      generalize hl' : s'.life = l' at hlife
      cases hlife with
      | @running _ q hp =>
      obtain ⟨p', hnotes, habreast⟩ := hp
      cases hnotes with
      | @note p₁ _ level text hnotes =>
          -- a line that the second machine does not log
          have placed : Slot.Annotates ⟨s.process, .running p₁⟩ s' :=
            ⟨hann.process, hl' ▸ .running ⟨p', hnotes, habreast⟩⟩
          exact ⟨n, .refl, h.put_left hm.distinct hs' placed⟩
      | refl =>
          cases q with
          | step act' next' =>
              obtain ⟨act₁, next₁, heq, hboth⟩ := habreast
              cases heq
              obtain ⟨hact', hnext⟩ := hboth ⟨s.process, m.world⟩ ⟨s'.process, n.world⟩ (h.same hann)
              have hmove : n.move programs s' = some (n.resume s' (act' ⟨s'.process, n.world⟩)
                  (next' ⟨s'.process, n.world⟩)) := by
                simp only [Machine.move, hl']
              exact ⟨_, .single (.move s' hs' hmove),
                h.resume (s := s) (v := ⟨s.process, m.world⟩) (same.trans hact') hnext⟩
          | ret | exit => cases habreast
          | read | write | wait | kill | sleep | exec =>
              obtain ⟨_, heq, -⟩ := habreast
              cases heq
          | fork =>
              obtain ⟨_, _, heq, -⟩ := habreast
              cases heq

include hprograms hblind hT hsame in
/-- So the varied run is a run, up to the logs. -/
theorem Varied.unseen (h : m.Annotates n) (hm : m.Sound) (hrun : Varied T programs m m') :
    ∃ n', Run programs n n' ∧ m'.Annotates n' := by
  induction hrun with
  | refl => exact ⟨n, .refl, h⟩
  | tail hrun hstep ih =>
      obtain ⟨n₁, hn₁, hann⟩ := ih
      obtain ⟨n₂, hn₂, hann⟩ :=
        hann.varying hblind hsame (hm.varied hprograms hT hrun) hstep
      exact ⟨n₂, hn₁.trans hn₂, hann⟩

/-- What the main process sees is the same but for the log. -/
theorem Annotates.atMain (h : m.Annotates n) {P : View → Prop}
    (hP : ∀ {v v' : View}, v.Same v' → P v' → P v) (hn : n.AtMain P) : m.AtMain P := by
  intro s hs hmain halive
  obtain ⟨s', hs', hann⟩ := h.partner hs
  exact hP (h.same hann) (hn s' hs' (hann.pid.trans hmain) (hann.alive.trans halive))

end

-- =============================================================== outcomes

/-- The acts of a kind have no effect there, but in the log. -/
def Heedless (S : (View → View) → Prop) (v : View) : Prop := ∀ act, S act → v.Same (act v)

section

variable (hprograms : ∀ name args, (programs name args).Respects .onward)
  (honward : ∀ act (v : View), S act → v.Onward (act v))
include hprograms honward

/-- What a main process has ended in that may have done acts of the kind, it may have ended
in with others of them. -/
theorem Sound.varied_of_tracks (hp : (m.doing p).Sound) (hq : (m.doing q).Sound)
    (h : p.Tracks S (fun _ _ => False) q) (hrun : Run programs (m.doing p) m') {how : Ending}
    (hended : m'.standing = .ended how) :
    Varied (fun act _ => S act) programs (m.doing q) m' := by
  have differ : Differ S (fun _ _ => False) (m.doing p) (m.doing q) := .doing h m
  have noted := differ.run (T := fun act _ => S act) hprograms honward hp hq
    (fun _ _ _ _ _ _ _ hact => hact) hrun
  rcases noted with ⟨_, _, _, hnever, -⟩ | ⟨n', hvaried, hn'⟩
  · exact hnever.elim
  · exact hn'.eq_of_dead hended ▸ hvaried

variable (hblind : ∀ name args, (programs name args).IsBlind)
  (hsame : ∀ act, S act → ∀ {v v' : View}, v.Same v' → (act v).Same (act v'))
include hblind hsame

/-- As long as the acts have no effect, be it in the one machine or in the other, the second
machine does what the first does, up to the logs. -/
theorem Differ.unseen (h : Differ S (fun _ _ => False) m n) (hm : m.Sound) (hn : n.Sound)
    (hann : n.Annotates n)
    (hheedless : (∀ m₁, Run programs m m₁ → m₁.AtMain (Heedless S)) ∨
      ∀ n₁, Run programs n n₁ → n₁.AtMain (Heedless S))
    (hrun : Run programs m m') :
    ∃ n' n₁, Varied (fun act v => S act ∧ v.Same (act v)) programs n n' ∧
      Differ S (fun _ _ => False) m' n' ∧ Run programs n n₁ ∧ n'.Annotates n₁ := by
  have honward' : ∀ act (v : View), (S act ∧ v.Same (act v)) → v.Onward (act v) :=
    fun act v h => honward act v h.1
  induction hrun with
  | refl => exact ⟨n, n, .refl, h, .refl, hann⟩
  | @tail m₁ m₂ hrun hstep ih =>
      obtain ⟨n', n₁, hvaried, hdiffer, hrun₁, hann₁⟩ := ih
      have heedless : m₁.AtMain (Heedless S) := by
        refine hheedless.elim (fun hm => hm m₁ hrun) fun hn => hdiffer.atMain ?_
        refine hann₁.atMain (fun {v v'} hv h act hact => ?_) (hn n₁ hrun₁)
        exact hv.trans ((h act hact).trans (hsame act hact hv.symm))
      rcases hdiffer.step honward' (hm.run hprograms hrun) (hn.varied hprograms honward' hvaried)
          (fun s hs hmain hl act hact => ⟨hact, heedless s hs hmain hl act hact⟩) hstep with
        ⟨_, _, _, hnever, -⟩ | ⟨n'', hvaried', hdiffer'⟩
      · exact hnever.elim
      · obtain ⟨n₂, hrun₂, hann₂⟩ := Varied.unseen hprograms hblind honward' (fun _ _ h => h.2) hann₁
          (hn.varied hprograms honward' hvaried) hvaried'
        exact ⟨n'', n₂, hvaried.trans hvaried', hdiffer', hrun₁.trans hrun₂, hann₂⟩

end

/-- So it may have ended in the same. -/
theorem Ordinary.comesTo_ended_iff (h : m.Ordinary programs)
    (honward : ∀ act (v : View), S act → v.Onward (act v))
    (hsame : ∀ act, S act → ∀ {v v' : View}, v.Same v' → (act v).Same (act v'))
    (hp : p.Respects .onward) (hq : q.Respects .onward) (hpblind : p.IsBlind) (hqblind : q.IsBlind)
    (htracks : p.Tracks S (fun _ _ => False) q)
    (hheedless : ∀ m₁, Run programs (m.doing p) m₁ → m₁.AtMain (Heedless S)) (how : Ending)
    (v : View) :
    (m.doing p).ComesTo programs (.ended how) v ↔ (m.doing q).ComesTo programs (.ended how) v := by
  have follow {p q : Prog ρ} (hp : p.Respects .onward) (hq : q.Respects .onward)
      (hqblind : q.IsBlind) (htracks : p.Tracks S (fun _ _ => False) q)
      (hheedless : (∀ m₁, Run programs (m.doing p) m₁ → m₁.AtMain (Heedless S)) ∨
        ∀ n₁, Run programs (m.doing q) n₁ → n₁.AtMain (Heedless S))
      (hcomes : (m.doing p).ComesTo programs (.ended how) v) :
      (m.doing q).ComesTo programs (.ended how) v := by
    obtain ⟨m', hrun, hended, hview⟩ := hcomes
    have differ : Differ S (fun _ _ => False) (m.doing p) (m.doing q) := .doing htracks m
    obtain ⟨n', n₁, -, hn', hrun', hann⟩ := differ.unseen h.onward honward h.blind hsame
      (h.sound.doing hp) (h.sound.doing hq) (h.doing hqblind) hheedless hrun
    obtain rfl := hn'.eq_of_dead hended
    refine ⟨n₁, hrun', ?_, hann.view.symm.trans hview⟩
    rw [hann.standing (by rw [hended]; exact nofun), hended]
  exact ⟨follow hp hq hqblind htracks (.inl hheedless),
    follow hq hp hpblind htracks.symm (.inr hheedless)⟩

end Machine

end LineShell.Posix
