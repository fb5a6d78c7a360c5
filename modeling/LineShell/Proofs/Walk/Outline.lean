/-
What a walk asks, without what it says about it.

# Outlines

The lines that a walk logs, the sites that it names and the depths that it
hands on are there for whoever follows it. `Walk.outline` leaves out the
first two, and maps the depths, also within branches. The walk of a tree
has the same outline wherever it stands, below whatever operator, and at
whatever depth, but for a shift of the depths (`outline_execute`).

# What outlines decide

Two walks with one outline ask the same questions, in the same order and
with the same consequences, whoever answers: their dialogues are the same
up to sites and depths (`dialogue_outline`), and a rehearsal by a launcher
that does not react to what was left out comes to the same, down to the
launcher's state and to all of the view but the log (`rehearse_outline`).
-/
import LineShell.Proofs.Blind
import LineShell.Proofs.Walk.Sequence
import LineShell.Rehearsal.Recorded
import LineShell.Rehearsal.Scripted

namespace LineShell

open Posix

namespace Walk

variable {f g : Nat → Nat}

-- ================================================================ outlines

/-- The walk without its log lines and its sites, its depths mapped. -/
def outline (f : Nat → Nat) : Walk → Walk
  | done n => done n
  | failed e => failed e
  | log _ _ next => next.outline f
  | builtin _ b c next => builtin [] b c fun n => (next n).outline f
  | launch _ c next => launch [] c fun r => (next r).outline f
  | fork _ t d p w branch next =>
      fork [] t (f d) p w (branch.outline f) fun r => (next r).outline f
  | channel _ next => channel [] fun r => (next r).outline f
  | release ch next => release ch (next.outline f)
  | wait child next => wait child fun r => (next r).outline f

theorem outline_bind (w : Walk) (k : Int → Walk) :
    (w.bind k).outline f = (w.outline f).bind fun n => (k n).outline f := by
  induction w with
  | done n | failed e => rfl
  | log level text next ih => exact ih
  | release ch next ih => exact congrArg (release ch) ih
  | builtin q b c next ih => exact congrArg (builtin [] b c) (funext ih)
  | launch q c next ih => exact congrArg (launch [] c) (funext ih)
  | fork q t d p w branch next _ ih =>
      exact congrArg (fork [] t (f d) p w (branch.outline f)) (funext ih)
  | channel q next ih => exact congrArg (channel []) (funext ih)
  | wait child next ih => exact congrArg (wait child) (funext ih)

theorem outline_ofCommand (q q' : Position) (c : Command) :
    (ofCommand q c).outline f = (ofCommand q' c).outline g := by
  unfold ofCommand
  split
  · rfl
  · split
    · rfl
    · refine congrArg (launch [] c) (funext fun r => ?_)
      cases r with
      | error e => rfl
      | ok child =>
          refine congrArg (wait child) (funext fun r => ?_)
          cases r <;> rfl

theorem outline_waitBoth {first second : Child} {k k' : Ending → Ending → Walk}
    (hk : ∀ e₁ e₂, (k e₁ e₂).outline f = (k' e₁ e₂).outline g) :
    (waitBoth first second k).outline f = (waitBoth first second k').outline g := by
  refine congrArg (wait first) (funext fun r₁ => congrArg (wait second) (funext fun r₂ => ?_))
  cases r₁ with
  | error e => rfl
  | ok e₁ =>
      cases r₂ with
      | error e => rfl
      | ok e₂ => exact hk e₁ e₂

section

variable {l r : Tree} {onLeft onRight onLeft' onRight' : Walk} {d d' : Nat} {q q' : Position}

theorem outline_runParallel (hd : f d = g d') (hl : onLeft.outline f = onLeft'.outline g)
    (hr : onRight.outline f = onRight'.outline g) :
    (runParallel q ⟨l, onLeft⟩ ⟨r, onRight⟩ d).outline f
      = (runParallel q' ⟨l, onLeft'⟩ ⟨r, onRight'⟩ d').outline g := by
  unfold runParallel
  simp only [outline, hd, hl]
  refine congrArg _ (funext fun r₁ => ?_)
  cases r₁ with
  | error e => rfl
  | ok first =>
      simp only [outline, hd, hr]
      refine congrArg _ (funext fun r₂ => ?_)
      cases r₂ with
      | error e => rfl
      | ok second => exact outline_waitBoth fun _ _ => rfl

theorem outline_runPipe (hd : f d = g d') (hl : onLeft.outline f = onLeft'.outline g)
    (hr : onRight.outline f = onRight'.outline g) :
    (runPipe q ⟨l, onLeft⟩ ⟨r, onRight⟩ d).outline f
      = (runPipe q' ⟨l, onLeft'⟩ ⟨r, onRight'⟩ d').outline g := by
  unfold runPipe
  simp only [outline]
  refine congrArg _ (funext fun r₀ => ?_)
  cases r₀ with
  | error e => rfl
  | ok ch =>
      simp only [outline, hd, hl]
      refine congrArg _ (funext fun r₁ => ?_)
      cases r₁ with
      | error e => rfl
      | ok writer =>
          simp only [outline, hd, hr]
          refine congrArg _ (funext fun r₂ => ?_)
          cases r₂ with
          | error e => rfl
          | ok reader => exact congrArg (release ch) (outline_waitBoth fun _ _ => rfl)

end

/-- Where a tree stands makes no difference but for the depths. -/
theorem outline_execute (t : Tree) {d d' : Nat} (h : ∀ n, f (d + n) = g (d' + n))
    (p p' : Option Operator) (q q' : Position) :
    (execute t d p q).outline f = (execute t d' p' q').outline g := by
  induction t generalizing d d' p p' q q' with
  | leaf c => exact outline_ofCommand q q' c
  | node op l r ihl ihr =>
      have inner : ∀ n, f (d + 1 + n) = g (d' + 1 + n) := fun n => by
        have := h (1 + n)
        rwa [← Nat.add_assoc, ← Nat.add_assoc] at this
      have onLeft := ihl inner (some op) (some op) (q ++ [.left]) (q' ++ [.left])
      have onRight := ihr inner (some op) (some op) (q ++ [.right]) (q' ++ [.right])
      cases op with
      | sequential =>
          simp only [execute, outline, outline_bind, onLeft, onRight]
      | andThen =>
          simp only [execute, outline, outline_bind, onLeft]
          refine congrArg _ (funext fun n => ?_)
          split
          · exact onRight
          · rfl
      | orElse =>
          simp only [execute, outline, outline_bind, onLeft]
          refine congrArg _ (funext fun n => ?_)
          split
          · exact onRight
          · rfl
      | parallel => exact outline_runParallel (inner 0) onLeft onRight
      | pipe => exact outline_runPipe (inner 0) onLeft onRight

end Walk

-- =============================================================== dialogues

/-- The exchange without its site, its depth mapped. -/
def Exchange.outline (f : Nat → Nat) : Exchange → Exchange
  | .builtin _ b c n => .builtin [] b c n
  | .launch _ c r => .launch [] c r
  | .fork _ t d p w r => .fork [] t (f d) p w r
  | .channel _ r => .channel [] r
  | .release ch => .release ch
  | .wait child r => .wait child r

namespace Walk

variable {f g : Nat → Nat} {w w' : Walk} {xs ys : List Exchange} {o : Outcome}

/-- A path of a walk is one of its outline. -/
theorem Path.outline (h : w.Path xs w') :
    (w.outline f).Path (xs.map (Exchange.outline f)) (w'.outline f) := by
  induction h with
  | here => exact .here
  | log _ ih => exact ih
  | builtin n _ ih => exact .builtin n ih
  | launch r _ ih => exact .launch r ih
  | fork r _ ih => exact .fork r ih
  | channel r _ ih => exact .channel r ih
  | release _ ih => exact .release ih
  | wait r _ ih => exact .wait r ih

theorem LeavesOff.outline (h : w.LeavesOff o) : (w.outline f).LeavesOff o := by
  cases w with
  | done n | failed e => exact h
  | builtin q b c next =>
      cases b with
      | exit => exact h
      | cd | assign => exact h.elim
  | log | launch | fork | channel | release | wait => exact h.elim

/-- What leaves off as the outline of a walk does is led to by the walk
itself, with no questions but only log lines before it. -/
theorem path_of_leavesOff (h : (w.outline f).LeavesOff o) :
    ∃ w', w.Path [] w' ∧ w'.LeavesOff o := by
  induction w with
  | done n | failed e => exact ⟨_, .here, h⟩
  | log level text next ih =>
      obtain ⟨w', hp, hl⟩ := ih h
      exact ⟨w', .log hp, hl⟩
  | builtin q b c next =>
      cases b with
      | exit => exact ⟨_, .here, h⟩
      | cd | assign => exact h.elim
  | launch | fork | channel | release | wait => exact h.elim

/-- A dialogue of the outline is one of the walk without its sites. -/
theorem exists_dialogue_of_outline (hp : (w.outline f).Path ys w') (hl : w'.LeavesOff o) :
    ∃ xs, w.Dialogue xs o ∧ ys = xs.map (Exchange.outline f) := by
  -- the walk may log before the question that its outline begins with
  induction w generalizing ys with
  | done n | failed e =>
      cases hp
      exact ⟨[], ⟨_, .here, hl⟩, rfl⟩
  | log level text next ih =>
      obtain ⟨xs, ⟨w'', hp', hl'⟩, heq⟩ := ih hp
      exact ⟨xs, ⟨w'', .log hp', hl'⟩, heq⟩
  | builtin q b c next ih =>
      cases hp with
      | here =>
          obtain ⟨w'', hp', hl'⟩ := path_of_leavesOff hl
          exact ⟨[], ⟨w'', hp', hl'⟩, rfl⟩
      | builtin n hp =>
          obtain ⟨xs, ⟨w'', hp', hl'⟩, rfl⟩ := ih n hp
          exact ⟨.builtin q b c n :: xs, ⟨w'', .builtin n hp', hl'⟩, rfl⟩
  | launch q c next ih =>
      cases hp with
      | here => exact hl.elim
      | launch r hp =>
          obtain ⟨xs, ⟨w'', hp', hl'⟩, rfl⟩ := ih r hp
          exact ⟨.launch q c r :: xs, ⟨w'', .launch r hp', hl'⟩, rfl⟩
  | fork q t d p wiring branch next _ ih =>
      cases hp with
      | here => exact hl.elim
      | fork r hp =>
          obtain ⟨xs, ⟨w'', hp', hl'⟩, rfl⟩ := ih r hp
          exact ⟨.fork q t d p wiring r :: xs, ⟨w'', .fork r hp', hl'⟩, rfl⟩
  | channel q next ih =>
      cases hp with
      | here => exact hl.elim
      | channel r hp =>
          obtain ⟨xs, ⟨w'', hp', hl'⟩, rfl⟩ := ih r hp
          exact ⟨.channel q r :: xs, ⟨w'', .channel r hp', hl'⟩, rfl⟩
  | release ch next ih =>
      cases hp with
      | here => exact hl.elim
      | release hp =>
          obtain ⟨xs, ⟨w'', hp', hl'⟩, rfl⟩ := ih hp
          exact ⟨.release ch :: xs, ⟨w'', .release hp', hl'⟩, rfl⟩
  | wait child next ih =>
      cases hp with
      | here => exact hl.elim
      | wait r hp =>
          obtain ⟨xs, ⟨w'', hp', hl'⟩, rfl⟩ := ih r hp
          exact ⟨.wait child r :: xs, ⟨w'', .wait r hp', hl'⟩, rfl⟩

/-- The dialogues of the outline are those of the walk, without their
sites. -/
theorem dialogue_outline : (w.outline f).Dialogue ys o ↔
    ∃ xs, w.Dialogue xs o ∧ ys = xs.map (Exchange.outline f) := by
  constructor
  · rintro ⟨w', hp, hl⟩
    exact exists_dialogue_of_outline hp hl
  · rintro ⟨xs, ⟨w', hp, hl⟩, rfl⟩
    exact ⟨_, hp.outline, hl.outline⟩

end Walk

-- ============================================================== rehearsals

variable {σ : Type}

namespace Launcher

/-- What the launcher makes of the views around a branch does not depend on
their logs. -/
def IgnoresLogs (l : Launcher σ) : Prop :=
  ∀ {before before' after after' : View}, before.Same before' → after.Same after' →
    (l.leaveBranch before after).Same (l.leaveBranch before' after')

/-- The launcher does not react to depths that are mapped. -/
def IgnoresDepth (l : Launcher σ) (f : Nat → Nat) : Prop :=
  ∀ (request : ForkRequest) (st : σ),
    l.enter { request with depth := f request.depth } st = l.enter request st

end Launcher

theorem Scripted.launcher_ignoresLogs : Scripted.launcher.IgnoresLogs := by
  intro before before' after after' h h'
  rw [h.eq_relog, h'.eq_relog]
  exact .relog _ _

theorem Recorded.launcher_ignoresLogs : Recorded.launcher.IgnoresLogs := fun _ h => h

theorem Recorded.launcher_ignoresDepth (f : Nat → Nat) : Recorded.launcher.IgnoresDepth f :=
  fun _ _ => rfl

/-- Two rehearsals come to the same: one outcome, one state of the launcher,
and views that differ at most in the log. -/
structure SameResult (r r' : Outcome × σ × View) : Prop where
  outcome : r'.1 = r.1
  state : r'.2.1 = r.2.1
  view : r.2.2.Same r'.2.2

namespace SameResult

variable {r r' r'' : Outcome × σ × View}

theorem symm (h : SameResult r r') : SameResult r' r :=
  ⟨h.outcome.symm, h.state.symm, h.view.symm⟩

theorem trans (h : SameResult r r') (h' : SameResult r' r'') : SameResult r r'' :=
  ⟨h'.outcome.trans h.outcome, h'.state.trans h.state, h.view.trans h'.view⟩

theorem eq (h : SameResult r r') : ∃ o st v v', r = (o, st, v) ∧ r' = (o, st, v') ∧
    v.Same v' := by
  obtain ⟨o, st, v⟩ := r
  obtain ⟨o', st', v'⟩ := r'
  obtain ⟨rfl, rfl, hview⟩ := h
  exact ⟨_, _, v, v', rfl, rfl, hview⟩

end SameResult

namespace Walk

variable {f : Nat → Nat} {l : Launcher σ}

/-- What is left out of an outline makes no difference to a launcher that
reacts to none of it. -/
theorem rehearse_outline (hlog : l.IgnoresLogs) (hdepth : l.IgnoresDepth f) (w : Walk) :
    ∀ (st : σ) {v v' : View}, v.Same v' →
      SameResult (w.rehearse l st v) ((w.outline f).rehearse l st v') := by
  induction w with
  | done n | failed e => exact fun st v v' hv => ⟨rfl, rfl, hv⟩
  | log level text next ih =>
      intro st v v' hv
      exact ih st ((View.Same.note v level text).symm.trans hv)
  | builtin q b c next ih =>
      intro st v v' hv
      obtain ⟨ending, v₁, v₁', hb, hb', hafter⟩ := (Builtin.blind_run b c).eq hv
      simp only [outline, rehearse, hb, hb']
      cases ending with
      | status n => exact ih n st hafter
      | leave => exact ⟨rfl, rfl, hafter⟩
  | launch q c next ih => intro st v v' hv; exact ih _ _ hv
  | fork q tree depth parent wiring branch next ihb ih =>
      intro st v v' hv
      have entered := hdepth ⟨tree, depth, parent, wiring⟩ st
      simp only at entered
      simp only [outline, rehearse, entered]
      cases l.enter ⟨tree, depth, parent, wiring⟩ st with
      | mk r st₁ =>
          cases r with
          | error e => exact ih _ st₁ hv
          | ok _ =>
              cases tree.external? with
              | some c => exact ih _ _ hv
              | none =>
                  obtain ⟨o, st₂, after, after', hr, hr', hafter⟩ := (ihb st₁ hv).eq
                  simp only [hr, hr']
                  cases o with
                  | finished n => exact ih _ _ (hlog hv hafter)
                  | failed e => exact ih _ _ (hlog hv hafter)
                  | left => exact ⟨rfl, rfl, hafter⟩
  | channel q next ih =>
      intro st v v' hv
      obtain ⟨ends, v₁, v₁', hp, hp', hafter⟩ := Call.blind_pipe.eq hv
      simp only [outline, rehearse, hp, hp']
      cases l.connect st with
      | mk r st₁ =>
          cases r with
          | error e => exact ih _ st₁ hv
          | ok _ =>
              cases ends with
              | error e => exact ih _ st₁ hafter
              | ok ends => exact ih _ _ hafter
  | release ch next ih =>
      intro st v v' hv
      exact ih _ (Redirection.closeAll_same _ hv)
  | wait child next ih => intro st v v' hv; exact ih _ _ hv

/-- Walks with one outline come to the same. -/
theorem rehearse_of_outline_eq (hlog : l.IgnoresLogs) (hdepth : l.IgnoresDepth f) {w w' : Walk}
    (h : w.outline f = w'.outline f) (st : σ) {v v' : View} (hv : v.Same v') :
    SameResult (w.rehearse l st v) (w'.rehearse l st v') := by
  have first := rehearse_outline hlog hdepth w st (.refl v)
  have second := rehearse_outline hlog hdepth w' st hv.symm
  rw [h] at first
  exact first.trans second.symm

end Walk

end LineShell
