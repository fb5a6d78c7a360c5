/-
What a process has done since some moment of a run.

`History` is the list of what a process was answered during a run, request
by request, each with what the process saw at that moment. It is told of a
process that does nothing but act for itself, write, look for another
program and exit, which is what a process does for an external command
until the command's program takes over.

At every later moment such a process fares in one of three ways
(`Fares`): it is still at its own program, which leads by what it did to
what it is about to do; it was, until a move by which it ended or loaded
another program; or another process has killed it before that. The
induction is on the run: a move of the process is its `Machine.Fate`, and a
move of another leaves it as it is or kills it. In a fair run it is not at
its own program for ever, if nothing keeps it from going on. And if it
exits after all, then it is as the program asks that it runs by then
(`exited_of_run`).
-/
import LineShell.Proofs.Launch.Exit
import LineShell.Proofs.Posix.Event

namespace LineShell

open Posix

variable {ρ : Type}

namespace Watch

variable {programs : Installed ρ} {w₀ w w' : Watch ρ} {p : Pid} {prog : Prog ρ} {S : Int → Prop}

/-- What the process was answered from one moment of a run to another. -/
inductive History (programs : Installed ρ) (p : Pid) (w₀ : Watch ρ) :
    List Prog.Event → Watch ρ → Prop where
  | nil : History programs p w₀ [] w₀
  | own {ys : List Prog.Event} {w : Watch ρ} {s : Slot ρ} {m : Machine ρ} {todo next : Prog ρ}
      {y : Prog.Event} : History programs p w₀ ys w → s ∈ w.machine.slots → s.process.pid = p →
      s.life = .running todo → w.machine.move programs s = some m →
      w.machine.Goes s todo y next m → History programs p w₀ (ys ++ [y]) (w.moved s m)
  | other {ys : List Prog.Event} {w : Watch ρ} {s : Slot ρ} {m : Machine ρ} :
      History programs p w₀ ys w → s ∈ w.machine.slots → s.process.pid ≠ p →
      w.machine.move programs s = some m → History programs p w₀ ys (w.moved s m)
  | pass {ys : List Prog.Event} {w : Watch ρ} (clock : Nat) : History programs p w₀ ys w →
      History programs p w₀ ys { w with machine := { w.machine with clock } }

theorem History.run {ys : List Prog.Event} (h : History programs p w₀ ys w) :
    Run programs w₀ w := by
  induction h with
  | nil => exact .refl
  | own _ hs _ _ hm _ ih => exact .tail ih (.move hs hm)
  | other _ hs _ hm ih => exact .tail ih (.move hs hm)
  | pass clock _ ih => exact .tail ih (.pass clock)

theorem History.sound {ys : List Prog.Event} (h : History programs p w₀ ys w) :
    ∀ y ∈ ys, y.Sound := by
  induction h with
  | nil => exact nofun
  | own _ _ _ _ _ hgoes ih =>
      intro y hy
      rcases List.mem_append.mp hy with hy | hy
      · exact ih y hy
      · obtain rfl := List.mem_singleton.mp hy
        exact hgoes.sound
  | other _ _ _ _ ih | pass _ _ ih => exact ih

section

variable (hprograms : ∀ name args, (programs name args).Respects .onward)
  (hsound : ∀ w, Run programs w₀ w → w.machine.Sound)
include hprograms hsound

/-- A process that has a number keeps it. -/
theorem known_of_run (hknown : p < w₀.machine.nextPid) (hrun : Run programs w₀ w) :
    p < w.machine.nextPid := by
  induction hrun with
  | refl => exact hknown
  | @tail w w' hrun hstep ih =>
      cases hstep with
      | pass clock => exact ih
      | move hs hm => exact Nat.lt_of_lt_of_le ih ((hsound w hrun).move_nextPid hprograms hs hm)

/-- Whoever is not alive any more was dead from the beginning, if it is found
dead. -/
theorem dead_before (hknown : p < w₀.machine.nextPid) (hdead : ¬w₀.machine.Lives p)
    (hrun : Run programs w₀ w) :
    ¬w.machine.Lives p ∧ ∀ how, w.machine.Dead p how → w₀.machine.Dead p how := by
  induction hrun with
  | refl => exact ⟨hdead, fun _ h => h⟩
  | @tail w w' hrun hstep ih =>
      obtain ⟨hnot, hback⟩ := ih
      cases hstep with
      | pass clock => exact ⟨hnot, hback⟩
      | @move s m hs hm =>
          refine ⟨fun hlives => ?_, fun how h => ?_⟩
          · rcases (hsound w hrun).lives_before hprograms hs hm hlives with hlives | rfl
            · exact hnot hlives
            · exact Nat.lt_irrefl _ (known_of_run hprograms hsound hknown hrun)
          · exact hback how ((Machine.dead_of_move hs hm h).resolve_right fun hl => hnot hl.1)

/-- Each request was made of what the process had come to see by then. -/
theorem History.linked {ys : List Prog.Event} (h : History programs p w₀ ys w)
    {s₀ s : Slot ρ} (hs₀ : s₀ ∈ w₀.machine.slots) (hp₀ : s₀.process.pid = p)
    (hs : s ∈ w.machine.slots) (hp : s.process.pid = p) (halive : s.alive) :
    Prog.Event.Linked ⟨s₀.process, w₀.machine.world⟩ ys ⟨s.process, w.machine.world⟩ := by
  induction h generalizing s with
  | nil =>
      obtain rfl := (hsound _ .refl).eq_of_pid hs hs₀ (hp.trans hp₀.symm)
      exact .nil (.refl _)
  | @own ys w r m todo next y hhist hr hrp hl hm hgoes ih =>
      have sound := hsound w hhist.run
      obtain ⟨t', ht', htp, -, hmean⟩ := hgoes.after
      obtain rfl := (sound.move hr hprograms hm).eq_of_pid hs ht' (hp.trans (htp.trans hrp).symm)
      have halive : r.alive := by rw [Slot.alive, hl]
      exact .snoc (by rw [hgoes.before]; exact ih hr hrp halive) hmean
  | @other ys w r m hhist hr hrp hm ih =>
      have sound := hsound w hhist.run
      have hknown : p < w.machine.nextPid :=
        known_of_run hprograms hsound (hp₀ ▸ ((hsound _ .refl).bounds s₀ hs₀).2) hhist.run
      have hnew : s.process.pid ≠ w.machine.nextPid := hp ▸ Nat.ne_of_lt hknown
      obtain ⟨u, hu, hut⟩ := sound.move_others hprograms hr hm hs (by rw [hp]; exact Ne.symm hrp)
        hnew halive
      exact (ih hu (hut.pid ▸ hp) (hut.alive ▸ halive)).meanwhile
        (hut.meanwhile (sound.move_world hprograms hr hm))
  | pass clock _ ih => exact ih hs hp halive

end

/-- Whoever has exited has done so as its program, or one that was loaded in its
place, asks for it. -/
theorem exited_of_run {s : Slot ρ} {code : Int} (hprograms : ∀ name args, (programs name args).Respects .onward)
    (hsound : ∀ w, Run programs w₀ w → w.machine.Sound) (hs : s ∈ w₀.machine.slots)
    (halive : s.alive) (hleft : s.life.Left programs prog) (hrun : Run programs w₀ w)
    (hdead : w.machine.Dead s.process.pid (.exited code)) :
    ∃ code', Prog.Left programs prog (.exit (.exited code')) ∧ code = code' % 256 := by
  have follows : ∀ t ∈ w.machine.slots, t.process.pid = s.process.pid → t.life.Left programs prog ∧
      ∀ code, t.life = .ended (.exited code) →
        ∃ code', Prog.Left programs prog (.exit (.exited code')) ∧ code = code' % 256 := by
    clear hdead
    induction hrun with
    | refl =>
        intro t ht hp
        obtain rfl := (hsound _ .refl).eq_of_pid ht hs hp
        refine ⟨hleft, fun code hl => ?_⟩
        rw [Slot.alive, hl] at halive
        cases halive
    | @tail w w' hrun hstep ih =>
        cases hstep with
        | pass clock => exact ih
        | @move r m hr hm =>
            intro t ht hp
            have sound := hsound w hrun
            refine ⟨?_, fun code hl => ?_⟩
            · by_cases hrp : r.process.pid = s.process.pid
              · exact sound.left_of_move hr (ih r hr hrp).1 hm ht (hp.trans hrp.symm)
              · cases ha : t.alive with
                | false => exact Slot.left_of_not_alive ha
                | true =>
                    have hknown : s.process.pid < w.machine.nextPid :=
                      known_of_run hprograms hsound ((hsound _ .refl).bounds s hs).2 hrun
                    obtain ⟨u, hu, hut⟩ := sound.move_others hprograms hr hm ht
                      (by rw [hp]; exact Ne.symm hrp) (by rw [hp]; exact Nat.ne_of_lt hknown) ha
                    rw [hut.life]
                    exact (ih u hu (hut.pid ▸ hp)).1
            · rcases Machine.dead_of_move hr hm ⟨t, ht, hp, hl⟩ with ⟨u, hu, hup, hul⟩ | ⟨-, hends⟩
              · exact (ih u hu hup).2 code hul
              · obtain ⟨hrp, -, code', hrl, rfl⟩ := hends.exited
                have hleft := (ih r hr hrp.symm).1
                rw [hrl] at hleft
                exact ⟨code', hleft, rfl⟩
  obtain ⟨t, ht, hp, hl⟩ := hdead
  exact (follows t ht hp).2 code hl

/-- The process is at what its program has led to, after all that it did. -/
structure Under (programs : Installed ρ) (p : Pid) (prog : Prog ρ) (w₀ : Watch ρ)
    (ys : List Prog.Event) (s : Slot ρ) (todo : Prog ρ) (w : Watch ρ) : Prop where
  history : History programs p w₀ ys w
  slot : s ∈ w.machine.slots
  pid : s.process.pid = p
  life : s.life = .running todo
  makes : prog.Makes ys todo

/-- How a process fares that had a program to run through. -/
inductive Fares (programs : Installed ρ) (p : Pid) (prog : Prog ρ) (w₀ w : Watch ρ) : Prop where
  | under {ys : List Prog.Event} {s : Slot ρ} {todo : Prog ρ} :
      Under programs p prog w₀ ys s todo w → Fares programs p prog w₀ w
  | loaded {ys : List Prog.Event} {w₁ : Watch ρ} {s : Slot ρ} {path : Bytes} {argv : List Bytes}
      {next : Errno → Prog ρ} {i : Machine.Image} :
      Under programs p prog w₀ ys s (.exec path argv next) w₁ →
      View.image ⟨s.process, w₁.machine.world⟩ path argv = .ok i →
      Run programs (w₁.moved s (w₁.machine.put (w₁.machine.loaded programs s i))) w →
      Fares programs p prog w₀ w
  | exited {ys : List Prog.Event} {w₁ : Watch ρ} {s : Slot ρ} {code : Int} :
      Under programs p prog w₀ ys s (.exit (.exited code)) w₁ →
      w₁.machine.move programs s = some (w₁.machine.terminate s (.exited (code % 256))) →
      Run programs (w₁.moved s (w₁.machine.terminate s (.exited (code % 256)))) w →
      Fares programs p prog w₀ w
  | broken {ys : List Prog.Event} {w₁ : Watch ρ} {s : Slot ρ} {fd : Fd} {data : Bytes}
      {next : Except Errno Nat → Prog ρ} :
      Under programs p prog w₀ ys s (.write fd data next) w₁ → w₁.machine.Unread s fd →
      w₁.machine.move programs s = some (w₁.machine.terminate s (.signaled Signal.pipe)) →
      Run programs (w₁.moved s (w₁.machine.terminate s (.signaled Signal.pipe))) w →
      Fares programs p prog w₀ w
  | felled {ys : List Prog.Event} {s : Slot ρ} {todo : Prog ρ} {w₁ w₂ : Watch ρ} :
      Under programs p prog w₀ ys s todo w₁ → Felled programs w₁ p w₂ → Run programs w₂ w →
      Fares programs p prog w₀ w

/-- The process goes on, or it has come to the end of its program. -/
theorem Under.step {ys : List Prog.Event} {s : Slot ρ} {todo : Prog ρ}
    (h : Under programs p prog w₀ ys s todo w)
    (hprograms : ∀ name args, (programs name args).Respects .onward) (hsound : w.machine.Sound)
    (hexits : prog.Exits S) (hstep : Step programs w w') : Fares programs p prog w₀ w' := by
  obtain ⟨hhist, hs, rfl, hl, hmakes⟩ := h
  cases hstep with
  | pass clock => exact .under ⟨hhist.pass clock, hs, rfl, hl, hmakes⟩
  | @move r m hr hm =>
      by_cases hp : r.process.pid = s.process.pid
      · obtain rfl := hsound.eq_of_pid hr hs hp
        have hcontent := hsound.content r hr
        rw [hl] at hcontent
        cases Machine.fate_of_move hr hl (hexits.makes hmakes) hcontent hm with
        | goes hgoes =>
            obtain ⟨t', ht', hpid, hlife, -⟩ := hgoes.after
            exact .under ⟨hhist.own hr rfl hl hm hgoes, ht', hpid, hlife, hmakes.snoc hgoes.asks⟩
        | loads hi => exact .loaded ⟨hhist, hr, rfl, hl, hmakes⟩ hi .refl
        | exits => exact .exited ⟨hhist, hr, rfl, hl, hmakes⟩ hm .refl
        | broken hunread _ => exact .broken ⟨hhist, hr, rfl, hl, hmakes⟩ hunread hm .refl
      · have halive : s.alive := by rw [Slot.alive, hl]
        have hlives : w.machine.Lives s.process.pid := ⟨s, hs, rfl, halive⟩
        by_cases hdead : m.Lives s.process.pid
        · obtain ⟨t', ht', hpid, halive'⟩ := hdead
          have hnew : t'.process.pid ≠ w.machine.nextPid := by
            rw [hpid]
            exact Nat.ne_of_lt (hsound.bounds s hs).2
          obtain ⟨u, hu, hut⟩ := hsound.move_others hprograms hr hm ht'
            (by rw [hpid]; exact Ne.symm hp) hnew halive'
          obtain rfl := hsound.eq_of_pid hu hs (hut.pid.symm.trans hpid)
          exact .under ⟨hhist.other hr hp hm, ht', hpid, hut.life.trans hl, hmakes⟩
        · obtain ⟨how, hends⟩ := (hsound.lives_of_move hm hlives).resolve_left hdead
          obtain ⟨n, next, hkill, -⟩ := hends.of_ne hp
          exact .felled ⟨hhist, hs, rfl, hl, hmakes⟩
            ⟨hlives, hdead, r, hr, hp, ⟨r, hr, rfl, m, hm, rfl⟩, n, next, hkill⟩ .refl

/-- At every later moment it fares in one of these ways. -/
theorem fares_of_run {s : Slot ρ} (hprograms : ∀ name args, (programs name args).Respects .onward)
    (hsound : ∀ w, Run programs w₀ w → w.machine.Sound) (hs : s ∈ w₀.machine.slots)
    (hl : s.life = .running prog) (hexits : prog.Exits S) (hrun : Run programs w₀ w) :
    Fares programs s.process.pid prog w₀ w := by
  induction hrun with
  | refl => exact .under ⟨.nil, hs, rfl, hl, .nil prog⟩
  | @tail w w' hrun hstep ih =>
      cases ih with
      | under h => exact h.step hprograms (hsound w hrun) hexits hstep
      | loaded h hi hrest => exact .loaded h hi (.tail hrest hstep)
      | exited h hm hrest => exact .exited h hm (.tail hrest hstep)
      | broken h hunread hm hrest => exact .broken h hunread hm (.tail hrest hstep)
      | felled h hfelled hrest => exact .felled h hfelled (.tail hrest hstep)

/-- In a fair run no process can go on with its program for ever. -/
theorem Fair.not_under_for_ever {result : Except ExecError Int → ρ} {f : Nat → Watch ρ}
    (hf : Fair programs f) (hprograms : ∀ name args, (programs name args).Respects .onward)
    {t : Tree} {depth : Nat} {parent : Option Operator} {m : Machine ρ}
    (hb : m.Begins result t depth parent) (hrun : Run programs (begin t depth parent m) (f 0))
    (hexits : prog.Exits S) {n : Nat} {a : Account} (ha : (f n).accounts p = some a)
    (hunder : ∀ k, n ≤ k → ∃ ys s todo, Under programs p prog w₀ ys s todo (f k) ∧
      ((f k).machine.move programs s).isSome) : False := by
  obtain ⟨ys, s, todo, h, -⟩ := hunder n (Nat.le_refl n)
  have hat : ∃ a, (f n).At p a todo := ⟨a, ha, s, h.slot, h.pid, h.life⟩
  clear h ha
  induction Prog.acc_asks todo generalizing n with
  | intro todo _ ih =>
      obtain ⟨a, hat⟩ := hat
      -- it moves from there some time
      obtain ⟨k, hk, hmoves⟩ := hf.moves hprograms hb hrun n hat fun k hk _ _ => by
        obtain ⟨_, s, _, h, hm⟩ := hunder k hk
        exact ⟨s, h.slot, h.pid, hm⟩
      obtain ⟨ys, s, todo', h, -⟩ := hunder k hk
      have halive : s.alive := by rw [Slot.alive, h.life]
      obtain ⟨hat, u, hu, hp, m', hm, hw⟩ :=
        hmoves.resolve_left (not_not_intro ⟨s, h.slot, h.pid, halive⟩)
      have holds := holds_placed hprograms hb (hf.run hrun k)
      obtain rfl := holds.sound.eq_of_pid hu h.slot (hp.trans h.pid.symm)
      obtain ⟨ha, r, hr, hrp, hrl⟩ := hat
      obtain rfl := holds.sound.eq_of_pid hr h.slot (hrp.trans h.pid.symm)
      have hcontent := holds.sound.content _ hr
      rw [hrl] at hcontent
      have htodo : todo' = todo := Life.running.inj (h.life.symm.trans hrl)
      -- and then it is at what comes next
      obtain ⟨_, s', _, h', -⟩ := hunder (k + 1) (Nat.le_succ_of_le hk)
      have sound := (holds_placed hprograms hb (hf.run hrun (k + 1))).sound
      rw [hw] at h' sound
      have here {t' : Slot ρ} (ht' : t' ∈ m'.slots) (hpid : t'.process.pid = r.process.pid) :
          t' = s' := sound.eq_of_pid ht' h'.slot (hpid.trans (hrp.trans h'.pid.symm))
      have running {how : Ending} (hended : s'.life = .ended how) : False := by
        rw [h'.life] at hended
        cases hended
      cases Machine.fate_of_move hr hrl (htodo ▸ hexits.makes h.makes) hcontent hm with
      | @goes _ next y _ hgoes =>
          obtain ⟨t', ht', hpid, hlife, -⟩ := hgoes.after
          refine ih next ⟨y, hgoes.asks⟩ (fun j hj => hunder j (by omega)) (n := k + 1)
            ⟨a.after (f k).machine r, ?_, ?_⟩
          · rw [hw]
            simp only [moved, hrp, if_true, ha, Option.map_some]
          · rw [hw]
            exact ⟨t', ht', hpid.trans hrp, hlife⟩
      | loads hi =>
          obtain rfl := here (Machine.mem_put_self hr rfl) rfl
          cases h'.life
      | exits | broken _ _ =>
          exact running (Machine.mem_terminate_self h'.slot (h'.pid.trans hrp.symm))

end Watch

end LineShell
