/-
Whoever is waited for is there to be waited for.

What a process owes to its children on its walk (`childCare`) is owed to
children that the machine knows as its own (`Watch.Attends`): a child is
added to both when it is started, it stays in both while its parent lives,
and it leaves both when it is waited for. So no wait of a walk is ever told
that there is no such child. What is told is how the child ended, and what
the walk is told of that is the machine's word for it (`Deed.Heard`).
-/
import LineShell.Proofs.Launch.Once
import LineShell.Proofs.Posix.Kin
import LineShell.Proofs.Walk.Children

namespace LineShell

open Posix

variable {ρ : Type} {result : Except ExecError Int → ρ}

-- ================================================================== deeds

/-- Starts succeeded, and of a child that was waited for it is known how it
ended. -/
def Deed.Heard (d : Deed) : Prop :=
  match d.exchange with
  | .launch _ _ r | .fork _ _ _ _ _ r => ∃ child, r = .ok child
  | .wait child r => ∃ how, d.ending = some how ∧ r = Walk.waitAnswer (.ok (child, how))
  | _ => True

namespace Account

variable {root : Tree} {a a' b : Account} {s : Slot ρ}

-- =============================================================== requests

/-- What a process may ask of the machine for the tree: the shell rests with
its result, and a wait is the wait that its walk is at. -/
inductive Asks (a : Account) : Prog ρ → Prop where
  | ret (x : ρ) : a.isShell = true → Asks a (.ret x)
  | exit (how : Ending) : Asks a (.exit how)
  | step (act : View → View) (next : View → Prog ρ) : Asks a (.step act next)
  | fork (child : Prog ρ) (next : Pid → Prog ρ) : Asks a (.fork child next)
  | wait {c : Child} {next' : Except ExecError Ending → Walk}
      (next : Except Errno (Pid × Ending) → Prog ρ) :
      a.stage = .walking (.wait c next') → Asks a (.wait c next)

theorem Asks.of_quits {todo : Prog ρ} (h : todo.Quits) : a.Asks todo := by
  cases todo with
  | exit how => exact .exit how
  | step act next => exact .step act next
  | ret | read | write | fork | wait | kill | sleep | exec => exact h.elim

theorem Asks.of_walking {rest : Walk} (hstage : a.stage = .walking rest) :
    a.Asks (rest.perform (a.finish result)) := by
  cases rest with
  | done n | failed e =>
      rw [Walk.perform_result _ rfl, finish]
      split
      · next hshell => exact .ret _ hshell
      · exact .of_quits (quits_endBranch _ _)
  | log level text next => exact .step _ _
  | builtin q b c next =>
      rw [Walk.perform_builtin]
      exact .step _ _
  | launch q c next => exact .fork _ _
  | fork q t d p w branch next => exact .fork _ _
  | channel q next =>
      rw [Walk.perform_channel]
      exact .step _ _
  | release ch next => exact .step _ _
  | wait c next =>
      rw [Walk.perform_wait]
      exact .wait _ hstage

/-- A process is at such a request, unless it runs a program. -/
theorem Drives.asks (h : a.Drives result s) (hprogram : a.runsProgram = false) :
    ∃ todo, s.life = .running todo ∧ a.Asks todo := by
  cases hstage : a.stage with
  | program c | preparing c | loaded c | away => simp [runsProgram, hstage] at hprogram
  | wiring p w =>
      refine ⟨_, h.todo (runBranch a.tree p w a.walk.perform).run (by simp only [todo?, hstage]), ?_⟩
      rw [run_runBranch]
      exact .step _ _
  | walking rest =>
      exact ⟨_, h.todo (rest.perform (a.finish result)) (by simp only [todo?, hstage]),
        .of_walking hstage⟩
  | leaving q =>
      exact ⟨_, h.todo (.exit (.exited 0)) (by simp only [todo?, hstage]), .exit _⟩
  | quitting =>
      obtain ⟨todo, hlife, hquits⟩ := h.quitting hstage
      exact ⟨todo, hlife, .of_quits hquits⟩

/-- Who gets a child by waiting for it does so on its walk, or in its
program. -/
theorem Drives.reaping (h : a.Drives result s) {m : Machine ρ} {c : Pid} (hr : m.Reaps s c) :
    a.runsProgram = true ∨
    ∃ d, (a.after m s).own = a.own ++ [d] ∧ ∃ r, d.exchange = .wait c r := by
  obtain ⟨child, next, how, hl, hwait⟩ := hr
  cases hprogram : a.runsProgram with
  | true => exact .inl rfl
  | false =>
      obtain ⟨todo, hlife, hasks⟩ := h.asks hprogram
      rw [hl] at hlife
      cases hlife
      cases hasks with
      | @wait c' next' _ hstage =>
          obtain ⟨-, hneg | hchild⟩ := Machine.ended_of_waitResult hwait
          · exact absurd (hneg ▸ Int.natCast_nonneg c') (by decide)
          · obtain rfl := Int.ofNat_inj.mp hchild
            exact .inr ⟨_, by simp only [after, hstage, walked, hwait]; rfl, _, rfl⟩

/-- The second process was started by the first for a part of its tree: for
a program, or for a smaller tree. -/
structure Serves (a b : Account) : Prop where
  shell : b.isShell = false
  smaller : b.walks = true → sizeOf b.tree < sizeOf a.tree

theorem Sited.serves {st : Siting} (h : a.Sited root st) (hc : a.child? = some b) :
    a.Serves b where
  shell := child_isShell hc
  smaller hw := by
    obtain ⟨hb, hstarts⟩ := h.starts hc
    cases hstarts with
    | program hstage =>
        unfold child? at hc
        split at hc <;> cases hc
        · cases hw
        · cases hstage
    | @branch r side p w _ hsite _ _ hdirect _ =>
        obtain ⟨q, rfl⟩ := hdirect.below
        have hpart := hb.part
        rw [hsite, List.append_assoc, Tree.sub?_append, h.part, Option.bind_some] at hpart
        exact Tree.sizeOf_sub? hpart (by simp)

end Account

namespace Watch

variable {root : Tree} {programs : Installed ρ} {w : Watch ρ} {s : Slot ρ} {m : Machine ρ}

-- ================================================================ children

/-- What a process owes is owed to children of its own, which were started
for parts of its tree. -/
structure Attends (w : Watch ρ) (p : Pid) (a : Account) (owed : List Child) : Prop where
  stands : a.Stands childCare [] (fun owed _ => owed = []) owed
  nodup : owed.Nodup
  child : ∀ c ∈ owed, w.machine.HasChild p c ∧ ∃ b, w.accounts c = some b ∧ a.Serves b

/-- The living attend to what they owe, and nobody was ever told that it has
no such child. -/
structure Attended (w : Watch ρ) : Prop where
  living : ∀ {p a}, w.accounts p = some a → w.machine.Lives p → ∃ owed, w.Attends p a owed
  heard : ∀ {p a}, w.accounts p = some a → ∀ d ∈ a.own, d.Heard

/-- A process that has done nothing owes nothing. -/
theorem Attends.fresh {p : Pid} {a : Account} (hown : a.own = [])
    (hahead : ∀ w, a.ahead? = some w → w = a.walk) : w.Attends p a [] where
  stands := .fresh (Walk.childCare_execute _ _ _ _) hown hahead
  nodup := List.nodup_nil
  child c hc := by cases hc

section

variable (hprograms : ∀ name args, (programs name args).Respects .onward)
  {A : Account → Prop} {P : Account → View → Prop} (hw : w.Holds result A P)
  (hs : s ∈ w.machine.slots) (hm : w.machine.move programs s = some m)
include hprograms hw hs hm

/-- What is owed to children stays so, if none of them is waited for. -/
theorem Attends.remains {p : Pid} {a a' : Account} {owed owed' : List Child}
    (h : w.Attends p a owed) (hlives : m.Lives p) (hsub : owed' ⊆ owed)
    (hkept : ∀ c ∈ owed', p = s.process.pid → ¬w.machine.Reaps s c)
    (htree : a'.tree = a.tree) :
    ∀ c ∈ owed', m.HasChild p c ∧ ∃ b, (w.moved s m).accounts c = some b ∧ a'.Serves b := by
  intro c hc
  obtain ⟨hchild, b, hb, hserves⟩ := h.child c (hsub hc)
  refine ⟨?_, ?_⟩
  · rcases hw.sound.move_child hprograms hs hm hlives hchild with hchild | ⟨hp, hreaps⟩
    · exact hchild
    · exact absurd hreaps (hkept c hc hp)
  · obtain ⟨b', hb', hcont, -⟩ := account_after (s := s) (m := m) hw.nextPid_new hb
    refine ⟨b', hb', ?_, fun hwalks => ?_⟩
    · rw [hcont.same]
      exact hserves.shell
    · rw [htree, show b'.tree = b.tree by rw [hcont.same]]
      exact hserves.smaller (hcont.walks ▸ hwalks)

/-- What the process that moved owes afterwards, and whether it heard how
the child ended that it waited for. -/
theorem Attends.moved {a : Account} {owed : List Child}
    (ha : w.accounts s.process.pid = some a) (hsited : ∃ st, a.Sited root st)
    (h : w.Attends s.process.pid a owed) : (∀ d ∈ (a.after w.machine s).own, d ∈ a.own ∨ d.Heard) ∧
    (m.Lives s.process.pid →
      ∃ owed', (w.moved s m).Attends s.process.pid (a.after w.machine s) owed') := by
  have halive := Machine.alive_of_move hm
  have hdrives := hw.drives s hs halive a ha
  have hproper := hw.proper _ a ha
  obtain ⟨⟨v', hturn⟩, -⟩ := Machine.turns_of_move hprograms hproper hdrives
    (hw.sound.bounds s hs).2 (hw.sound.move_world hprograms hs hm) hm
  obtain ⟨owed', hstands, hfollows⟩ := hturn.stands h.stands
  have htree : (a.after w.machine s).tree = a.tree := by rw [hturn.same]
  have reaping : ∀ c ∈ owed, w.machine.Reaps s c → ∃ d,
      (a.after w.machine s).own = a.own ++ [d] ∧ ∃ r, d.exchange = .wait c r := by
    intro c hc hreaps
    refine (hdrives.reaping hreaps).resolve_left fun hprogram => ?_
    have hled := h.stands.led
    rw [hproper.idle (.inl hprogram)] at hled
    cases hled
    cases hc
  -- what was owed and still is, and is not reaped now
  have remains : ∀ {owed'}, owed' ⊆ owed → (∀ c ∈ owed', ¬w.machine.Reaps s c) →
      m.Lives s.process.pid → ∀ c ∈ owed', m.HasChild s.process.pid c ∧
        ∃ b, (w.moved s m).accounts c = some b ∧ (a.after w.machine s).Serves b :=
    fun hsub hkept hlives => h.remains hprograms hw hs hm hlives hsub (fun c hc _ => hkept c hc) htree
  rcases a.own_after w.machine s with hown | ⟨rest, d, hstage, hanswers, hown⟩
  · obtain rfl := hfollows.idle hown
    refine ⟨fun d hd => .inl (hown ▸ hd), fun hlives => ⟨owed', hstands, h.nodup,
      remains (List.Subset.refl _) (fun c hc hreaps => ?_) hlives⟩⟩
    obtain ⟨d, hown', -⟩ := reaping c hc hreaps
    rw [hown] at hown'
    simp at hown'
  · have hallows := hfollows.deed d hown
    have deeds : d.Heard → ∀ e ∈ (a.after w.machine s).own, e ∈ a.own ∨ e.Heard := by
      intro hd e he
      rw [hown] at he
      rcases List.mem_append.mp he with he | he
      · exact .inl he
      · exact .inr (List.mem_singleton.mp he ▸ hd)
    have reaped : ∀ c ∈ owed, w.machine.Reaps s c → ∃ r, d.exchange = .wait c r := by
      intro c hc hreaps
      obtain ⟨d', hown', hx⟩ := reaping c hc hreaps
      rw [hown] at hown'
      exact List.singleton_inj.mp (List.append_cancel_left hown') ▸ hx
    have started : ∀ b, a.child? = some b → owed' = w.machine.nextPid :: owed →
        (∀ c r, d.exchange ≠ .wait c r) → m.Lives s.process.pid →
        ∃ owed', (w.moved s m).Attends s.process.pid (a.after w.machine s) owed' := by
      intro b hc howed hx hlives
      subst howed
      obtain ⟨st, hsited⟩ := hsited
      obtain ⟨-, prog, next, -, rfl, -⟩ := Machine.born_of_move hproper hdrives hc hm
      refine ⟨_, hstands, List.nodup_cons.mpr ⟨fun hmem => ?_, h.nodup⟩, fun c hmem => ?_⟩
      · obtain ⟨⟨t, ht, hpid, -⟩, -⟩ := h.child _ hmem
        exact absurd (hw.sound.bounds t ht).2 (hpid ▸ Nat.lt_irrefl _)
      · rcases List.mem_cons.mp hmem with rfl | hmem
        · have hne : w.machine.nextPid ≠ s.process.pid := Nat.ne_of_gt (hw.sound.bounds s hs).2
          have hserves := hsited.serves hc
          refine ⟨Machine.born_child _ _ _ _, b, ?_, hserves.shell, htree ▸ hserves.smaller⟩
          simp only [Watch.moved, hne, if_false, if_true, ha, Option.bind_some, hc]
        · exact remains (List.Subset.refl _)
            (fun c hc hreaps => (reaped c hc hreaps).elim fun r he => hx c r he) hlives c hmem
    cases hanswers with
    | builtin =>
        obtain ⟨rfl, rfl⟩ := hallows
        exact ⟨deeds trivial, fun _ => ⟨[], hstands, List.nodup_nil, fun c hc => by cases hc⟩⟩
    | launch =>
        exact ⟨deeds ⟨_, rfl⟩, started _ (by rw [Account.child?, hstage]) hallows
          fun c r hx => by cases hx⟩
    | fork =>
        exact ⟨deeds ⟨_, rfl⟩, started _ (by rw [Account.child?, hstage]) hallows
          fun c r hx => by cases hx⟩
    | channel | release =>
        obtain rfl := hallows
        refine ⟨deeds trivial, fun hlives => ⟨_, hstands, h.nodup, remains (List.Subset.refl _)
          (fun c hc hreaps => ?_) hlives⟩⟩
        obtain ⟨r, hx⟩ := reaped c hc hreaps
        cases hx
    | @wait child next raw hraw =>
        obtain ⟨hmem, rfl⟩ := hallows
        obtain ⟨how, rfl, -⟩ := (h.child child hmem).1.answer hraw
        refine ⟨deeds ⟨how, rfl, rfl⟩, fun hlives => ⟨_, hstands, h.nodup.erase child,
          remains (List.erase_subset) (fun c hc hreaps => ?_) hlives⟩⟩
        obtain ⟨r, hx⟩ := reaped c (List.erase_subset hc) hreaps
        cases hx
        exact h.nodup.not_mem_erase hc

theorem Attended.moved (h : w.Attended)
    (hsited : ∀ p a, w.accounts p = some a → ∃ st, a.Sited root st) :
    (w.moved s m).Attended := by
  have slives : w.machine.Lives s.process.pid := ⟨s, hs, rfl, Machine.alive_of_move hm⟩
  have mover : ∀ {b}, w.accounts s.process.pid = some b →
      (∀ d ∈ (b.after w.machine s).own, d.Heard) ∧ (m.Lives s.process.pid →
        ∃ owed', (w.moved s m).Attends s.process.pid (b.after w.machine s) owed') := by
    intro b hb
    obtain ⟨owed, hattends⟩ := h.living hb slives
    obtain ⟨heard, hliving⟩ := hattends.moved hprograms hw hs hm hb (hsited _ b hb)
    exact ⟨fun d hd => (heard d hd).elim (h.heard hb d) id, hliving⟩
  refine ⟨fun {p a} ha hlives => ?_, fun {p a} ha => ?_⟩
  · rcases accounts_moved ha with ⟨rfl, b, hb, rfl⟩ | ⟨-, -, b, -, hc⟩ | ⟨hp, hn, hb⟩
    · exact (mover hb).2 hlives
    · exact ⟨[], .fresh (Account.child_deeds hc).2 (Account.child_ahead hc)⟩
    · have before := (hw.sound.lives_before hprograms hs hm hlives).resolve_right hn
      obtain ⟨owed, hattends⟩ := h.living hb before
      exact ⟨owed, hattends.stands, hattends.nodup, hattends.remains hprograms hw hs hm hlives
        (List.Subset.refl _) (fun _ _ he => absurd he hp) rfl⟩
  · rcases accounts_moved ha with ⟨rfl, b, hb, rfl⟩ | ⟨-, -, b, -, hc⟩ | ⟨-, -, hb⟩
    · exact (mover hb).1
    · intro d hd
      rw [(Account.child_deeds hc).2] at hd
      cases hd
    · exact h.heard hb

end

/-- Whatever happens, the living attend to what they owe. -/
theorem Attended.step (hprograms : ∀ name args, (programs name args).Respects .onward)
    {A : Account → Prop} {P : Account → View → Prop} (h : w.Attended) (hw : w.Holds result A P)
    (hsited : ∀ p a, w.accounts p = some a → ∃ st, a.Sited root st) {w' : Watch ρ}
    (hstep : Step programs w w') : w'.Attended := by
  cases hstep with
  | pass clock =>
      refine ⟨fun ha hlives => ?_, h.heard⟩
      obtain ⟨owed, hattends⟩ := h.living ha hlives
      exact ⟨owed, hattends.stands, hattends.nodup, hattends.child⟩
  | move hs hm => exact h.moved hprograms hw hs hm hsited

/-- In every run the living attend to what they owe. -/
theorem attended_of_run {t : Tree} {depth : Nat} {parent : Option Operator}
    (hprograms : ∀ name args, (programs name args).Respects .onward)
    (hb : m.Begins result t depth parent) (hrun : Run programs (begin t depth parent m) w) :
    w.Attended := by
  induction hrun with
  | refl =>
      refine ⟨fun ha _ => ?_, fun ha d hd => ?_⟩ <;> obtain ⟨-, rfl⟩ := begin_shell ha
      · exact ⟨[], .fresh rfl fun w hw => (Option.some.inj hw).symm⟩
      · cases hd
  | tail hrun hstep ih =>
      have holds := holds_placed hprograms hb hrun
      exact ih.step hprograms holds
        (fun p a ha => (holds.all p a ha).imp fun _ hplaced => hplaced.sited) hstep

end Watch

end LineShell
