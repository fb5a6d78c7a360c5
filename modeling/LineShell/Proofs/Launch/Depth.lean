/-
The depth and the parent that an execution is given do not influence it.

# Launchers

A launcher may keep the depths that it is given, and write them down. That it
does not react to them is said by a relation on its states: in states that are
related it gives the same answers, whatever depths it is given, and goes on in
states that are related (`Launcher.Overlooks`). The recording launcher keeps no
depth; the scripted one has them in the calls that it records.

# Two rehearsals

By such a launcher walks abreast are rehearsed to the same outcome, with the
same effects, and event by event what happens in the two is the same but for
the depths of forks (`Walk.Abreast.concur`). The induction is over the walks;
the branch of a fork is evaluated in the middle of it, by walks that are
abreast too, and what it comes to is the answer to both forks.
-/
import LineShell.Proofs.Launch.Unlogged
import LineShell.Proofs.Rehearsal.Halt
import LineShell.Proofs.Walk.Abreast

namespace LineShell

open Posix

variable {σ α : Type}

-- =============================================================== launchers

/-- The same answer, with states behind it that are related. -/
def SameAnswer (R : σ → σ → Prop) (x y : α × σ) : Prop := y.1 = x.1 ∧ R x.2 y.2

theorem SameAnswer.eq {R : σ → σ → Prop} {x y : α × σ} (h : SameAnswer R x y) :
    ∃ a st st', x = (a, st) ∧ y = (a, st') ∧ R st st' := by
  obtain ⟨a, st⟩ := x
  obtain ⟨a', st'⟩ := y
  obtain ⟨rfl, hst⟩ := h
  exact ⟨_, st, st', rfl, rfl, hst⟩

/-- States that are related cannot be told apart by what the launcher answers
from them on, whatever depths it is given. -/
structure Launcher.Overlooks (l : Launcher σ) (R : σ → σ → Prop) : Prop where
  launch {st st' : σ} (c : Command) (h : R st st') : SameAnswer R (l.launch c st) (l.launch c st')
  enter {st st' : σ} (t : Tree) (n₁ n₂ : Nat) (p : Operator) (w : Wiring) (h : R st st') :
    SameAnswer R (l.enter ⟨t, n₁, p, w⟩ st) (l.enter ⟨t, n₂, p, w⟩ st')
  exec {st st' : σ} (c : Command) (h : R st st') : SameAnswer R (l.exec c st) (l.exec c st')
  finish {st st' : σ} (n : Int) (h : R st st') : SameAnswer R (l.finish n st) (l.finish n st')
  connect {st st' : σ} (h : R st st') : SameAnswer R (l.connect st) (l.connect st')
  connected {st st' : σ} (ch : Channel) (h : R st st') : R (l.connected ch st) (l.connected ch st')
  released {st st' : σ} (ch : Channel) (h : R st st') : R (l.released ch st) (l.released ch st')
  wait {st st' : σ} (child : Child) (h : R st st') :
    SameAnswer R (l.wait child st) (l.wait child st')
  leaveBranch : l.IgnoresLogs

/-- A launcher that keeps nothing of the depths: states need not be told apart. -/
theorem Launcher.overlooks_eq {l : Launcher σ} (hlog : l.IgnoresLogs)
    (hdepth : ∀ f, l.IgnoresDepth f) : l.Overlooks Eq where
  launch c h := by subst h; exact ⟨rfl, rfl⟩
  enter {st st'} t n₁ n₂ p w h := by
    subst h
    have hsame : l.enter ⟨t, n₂, p, w⟩ st = l.enter ⟨t, n₁, p, w⟩ st :=
      hdepth (fun _ => n₂) ⟨t, n₁, p, w⟩ st
    rw [hsame]
    exact ⟨rfl, rfl⟩
  exec c h := by subst h; exact ⟨rfl, rfl⟩
  finish n h := by subst h; exact ⟨rfl, rfl⟩
  connect h := by subst h; exact ⟨rfl, rfl⟩
  connected ch h := by subst h; rfl
  released ch h := by subst h; rfl
  wait child h := by subst h; exact ⟨rfl, rfl⟩
  leaveBranch := hlog

theorem Recorded.launcher_overlooks : Recorded.launcher.Overlooks Eq :=
  Launcher.overlooks_eq Recorded.launcher_ignoresLogs Recorded.launcher_ignoresDepth

namespace Scripted

/-- The call without the depth of its fork. -/
def Call.undeep : Call → Call
  | .fork p _ label w => .fork p 0 label w
  | c => c

namespace State

/-- The states differ at most in the depths of recorded calls. -/
def SameButDepths (s s' : State) : Prop :=
  ∃ calls, s' = { s with calls } ∧ calls.map Call.undeep = s.calls.map Call.undeep

variable {s s' : State}

theorem SameButDepths.refl (s : State) : s.SameButDepths s := ⟨s.calls, rfl, rfl⟩

theorem SameButDepths.record {c c' : Call} (h : s.SameButDepths s')
    (hc : c'.undeep = c.undeep) : (s.record c).SameButDepths (s'.record c') := by
  obtain ⟨calls, rfl, hcalls⟩ := h
  refine ⟨calls ++ [c'], rfl, ?_⟩
  show (calls ++ [c']).map Call.undeep = (s.calls ++ [c]).map Call.undeep
  rw [List.map_append, List.map_append, hcalls, List.map_singleton, List.map_singleton, hc]

theorem SameButDepths.ask (h : s.SameButDepths s') (p : Primitive) :
    SameAnswer SameButDepths (s.ask p) (s'.ask p) := by
  obtain ⟨calls, rfl, hcalls⟩ := h
  have hasked : SameButDepths { s with asked := p :: s.asked }
      { s with asked := p :: s.asked, calls } := ⟨calls, rfl, hcalls⟩
  simp only [State.ask]
  cases s.script.faults.find? fun f => f.primitive = p && f.nth = (p :: s.asked).count p with
  | none => exact ⟨rfl, hasked⟩
  | some fault => exact ⟨rfl, hasked.record rfl⟩

theorem SameButDepths.register (h : s.SameButDepths s') (e : Ending) :
    SameAnswer SameButDepths (s.register e) (s'.register e) := by
  obtain ⟨calls, rfl, hcalls⟩ := h
  exact ⟨rfl, calls, rfl, hcalls⟩

theorem SameButDepths.start (h : s.SameButDepths s') (verb : String) :
    SameAnswer SameButDepths (s.start verb) (s'.start verb) := by
  obtain ⟨calls, rfl, hcalls⟩ := h
  exact ⟨rfl, calls, rfl, hcalls⟩

/-- Channels have the same names. -/
theorem SameButDepths.openChannels (h : s.SameButDepths s') :
    s'.openChannels = s.openChannels := by
  obtain ⟨calls, rfl, -⟩ := h
  rfl

theorem SameButDepths.pending (h : s.SameButDepths s') : s'.pending = s.pending := by
  obtain ⟨calls, rfl, -⟩ := h
  rfl

end State

open State

theorem launcher_overlooks : launcher.Overlooks SameButDepths where
  launch {s s'} c h := by
    obtain ⟨r, s₁, s₁', hr, hr', h⟩ := (h.ask .launch).eq
    simp only [launcher, hr, hr']
    cases r with
    | error e => exact ⟨rfl, h⟩
    | ok _ =>
        obtain ⟨child, s₂, s₂', hc, hc', h⟩ := (h.start c.verb).eq
        simp only [hc, hc']
        exact ⟨rfl, h.record rfl⟩
  enter {s s'} t n₁ n₂ p w h := by
    obtain ⟨r, s₁, s₁', hr, hr', h⟩ := (h.ask .fork).eq
    simp only [launcher, hr, hr']
    cases r with
    | error e => exact ⟨rfl, h⟩
    | ok _ =>
        have hend : s₁'.endOf = s₁.endOf := by
          funext fd
          unfold State.endOf
          rw [h.openChannels]
        refine ⟨rfl, h.record ?_⟩
        unfold State.nameWiring
        rw [hend]
        rfl
  exec {s s'} c h := by
    obtain ⟨child, s₁, s₁', hc, hc', h⟩ := (h.start c.verb).eq
    simp only [launcher, hc, hc']
    exact ⟨rfl, h.record rfl⟩
  finish {s s'} n h := by
    obtain ⟨child, s₁, s₁', hc, hc', h⟩ := (h.register (.exited n)).eq
    simp only [launcher, hc, hc']
    exact ⟨rfl, h.record rfl⟩
  connect h := h.ask .channel
  connected {s s'} ch h := by
    obtain ⟨calls, rfl, hcalls⟩ := h
    have hnamed : SameButDepths
        { s with
          channels := s.channels + 1, openChannels := s.openChannels ++ [(s.channels + 1, ch)] }
        { s with
          channels := s.channels + 1, openChannels := s.openChannels ++ [(s.channels + 1, ch)]
          calls } := ⟨calls, rfl, hcalls⟩
    exact hnamed.record rfl
  released {s s'} ch h := by
    obtain ⟨calls, rfl, hcalls⟩ := h
    exact ⟨calls, rfl, hcalls⟩
  wait {s s'} child h := by
    obtain ⟨r, s₁, s₁', hr, hr', h⟩ := (h.ask .wait).eq
    simp only [launcher, hr, hr']
    cases r with
    | error e => exact ⟨rfl, h⟩
    | ok _ =>
        have hends : s₁'.openEnds = s₁.openEnds := by
          unfold State.openEnds
          rw [h.openChannels]
        simp only [hends, h.pending]
        exact ⟨rfl, h.record rfl⟩
  leaveBranch := launcher_ignoresLogs

end Scripted

-- ============================================================== rehearsals

/-- The same event, but for the depth of a fork. -/
inductive Event.Abreast (F : Position → Tree → Operator → Nat → Nat → Prop) :
    Event → Event → Prop where
  | asked {q : Position} {t : Tree} {n₁ n₂ : Nat} {p : Operator} (w : Wiring)
      (hdepth : F q t p n₁ n₂) : Abreast F (.asked q ⟨t, n₁, p, w⟩) (.asked q ⟨t, n₂, p, w⟩)
  | answered {x y : Exchange} (h : Exchange.Abreast F x y) : Abreast F (.answered x) (.answered y)

/-- The same happens in both rehearsals, but for the depths of forks, and they
come to one outcome, to states that are related, and to views that differ at
most in the log. -/
structure Concur (F : Position → Tree → Operator → Nat → Nat → Prop) (R : σ → σ → Prop)
    (es es' : List Event) (r r' : Outcome × σ × View) : Prop where
  events : List.Forall₂ (Event.Abreast F) es es'
  outcome : r'.1 = r.1
  state : R r.2.1 r'.2.1
  view : r.2.2.Same r'.2.2

namespace Concur

variable {F : Position → Tree → Operator → Nat → Nat → Prop} {R : σ → σ → Prop}
  {es es' fs fs' : List Event} {r r' : Outcome × σ × View}

theorem cons {y y' : Event} (hy : Event.Abreast F y y') (h : Concur F R es es' r r') :
    Concur F R (y :: es) (y' :: es') r r' :=
  ⟨.cons hy h.events, h.outcome, h.state, h.view⟩

theorem eq (h : Concur F R es es' r r') : ∃ o x x', r = (o, x) ∧ r' = (o, x') ∧
    R x.1 x'.1 ∧ x.2.Same x'.2 := by
  obtain ⟨o, x⟩ := r
  obtain ⟨o', x'⟩ := r'
  obtain ⟨-, rfl, hstate, hview⟩ := h
  exact ⟨_, x, x', rfl, rfl, hstate, hview⟩

theorem append (hfs : List.Forall₂ (Event.Abreast F) fs fs') (h : Concur F R es es' r r') :
    Concur F R (fs ++ es) (fs' ++ es') r r' :=
  ⟨List.rel_append hfs h.events, h.outcome, h.state, h.view⟩

end Concur

namespace Walk

variable {F : Position → Tree → Operator → Nat → Nat → Prop} {R : σ → σ → Prop} {l : Launcher σ}
  {w w' : Walk}

/-- Walks abreast are rehearsed alike. -/
theorem Abreast.concur (hl : l.Overlooks R) (h : Abreast F w w') :
    ∀ {st st' : σ} {v v' : View}, R st st' → v.Same v' →
      Concur F R (w.events l st v) (w'.events l st' v') (w.rehearse l st v)
        (w'.rehearse l st' v') := by
  induction h with
  | done n | failed e => exact fun hst hv => ⟨.nil, rfl, hst, hv⟩
  | log level text text' _ ih =>
      intro st st' v v' hst hv
      exact ih hst ((View.Same.note v level text).symm.trans (hv.trans (.note v' level text')))
  | builtin q b c _ ih =>
      intro st st' v v' hst hv
      obtain ⟨ending, v₁, v₁', hb, hb', hv⟩ := (Builtin.blind_run b c).eq hv
      simp only [events, trace, rehearse, hb, hb']
      cases ending with
      | status n => exact .cons (.answered (.builtin q b c n)) (ih n hst hv)
      | leave => exact ⟨.nil, rfl, hst, hv⟩
  | launch q c _ ih =>
      intro st st' v v' hst hv
      obtain ⟨r, st₁, st₁', hr, hr', hst⟩ := (hl.launch c hst).eq
      simp only [events, trace, rehearse, hr, hr']
      exact .cons (.answered (.launch q c r)) (ih r hst hv)
  | @fork q t n₁ n₂ p wiring branch branch' next next' hdepth _ _ ihb ih =>
      intro st st' v v' hst hv
      have answered : ∀ (r : Except ExecError Child) {st st' : σ} {v v' : View}, R st st' →
          v.Same v' →
          Concur F R (.answered (.fork q t n₁ p wiring r) :: (next r).events l st v)
            (.answered (.fork q t n₂ p wiring r) :: (next' r).events l st' v')
            ((next r).rehearse l st v) ((next' r).rehearse l st' v') := by
        intro r st st' v v' hst hv
        exact .cons (.answered (.fork wiring r hdepth)) (ih r hst hv)
      obtain ⟨r, st₁, st₁', hr, hr', hst⟩ := (hl.enter t n₁ n₂ p wiring hst).eq
      simp only [events, trace, rehearse, List.map_cons, hr, hr']
      refine .cons (.asked wiring hdepth) ?_
      cases r with
      | error e => exact answered (.error e) hst hv
      | ok _ =>
          cases hx : t.external? with
          | some c =>
              obtain ⟨child, st₂, st₂', hc, hc', hst⟩ := (hl.exec c hst).eq
              simp only [hc, hc']
              exact answered (.ok child) hst hv
          | none =>
              have within := ihb hst hv
              simp only [List.map_append]
              refine .append within.events ?_
              -- the branches come to one outcome, which decides the answers to both forks
              obtain ⟨o, rest, rest', ho, ho', hstate, hview⟩ := within.eq
              simp only [ho, ho']
              have hleft := hl.leaveBranch hv hview
              cases o with
              | finished n =>
                  obtain ⟨child, st₂, st₂', hc, hc', hst⟩ := (hl.finish n hstate).eq
                  simp only [hc, hc']
                  exact answered (.ok child) hst hleft
              | failed e => exact answered (.error e) hstate hleft
              | left => exact ⟨.nil, rfl, hstate, hview⟩
  | @channel q next next' _ ih =>
      intro st st' v v' hst hv
      have answered : ∀ (r : Except ExecError Channel) {st st' : σ} {v v' : View}, R st st' →
          v.Same v' →
          Concur F R (.answered (.channel q r) :: (next r).events l st v)
            (.answered (.channel q r) :: (next' r).events l st' v')
            ((next r).rehearse l st v) ((next' r).rehearse l st' v') := by
        intro r st st' v v' hst hv
        exact .cons (.answered (.channel q r)) (ih r hst hv)
      obtain ⟨r, st₁, st₁', hr, hr', hst⟩ := (hl.connect hst).eq
      simp only [events, trace, rehearse, hr, hr']
      cases r with
      | error e => exact answered (.error e) hst hv
      | ok _ =>
          obtain ⟨ends, v₁, v₁', hp, hp', hv⟩ := Call.blind_pipe.eq hv
          simp only [hp, hp']
          cases ends with
          | error e => exact answered (.error (.channel e)) hst hv
          | ok ends => exact answered (.ok ⟨ends.1, ends.2⟩) (hl.connected _ hst) hv
  | release ch _ ih =>
      intro st st' v v' hst hv
      exact .cons (.answered (.release ch))
        (ih (hl.released ch hst) (Redirection.closeAll_same _ hv))
  | wait child _ ih =>
      intro st st' v v' hst hv
      obtain ⟨r, st₁, st₁', hr, hr', hst⟩ := (hl.wait child hst).eq
      simp only [events, trace, rehearse, hr, hr']
      exact .cons (.answered (.wait child r)) (ih r hst hv)

-- ========================================================= the main result

/-- Neither the depth nor the parent that the execution of a tree is given has
an influence on it. Two executions ask the same, in the same order, whatever is
answered, so they lead to the same dialogues with the same outcomes; only the
depths of the branches differ, all by as much as the first ones do, also those
that branches ask for. Such a depth is the first one, one more, and one for
each node above the one that asks. By a launcher that overlooks depths both are
rehearsed to the same outcome, with the same effects and the same events. By
one that forks they come to the same. -/
theorem execute_at_any_depth (t : Tree) (d₁ d₂ : Nat) (p₁ p₂ : Option Operator) :
    (∀ q u p n₁ n₂, t.ForksAt d₁ d₂ q u p n₁ n₂ → (n₂ : Int) - n₁ = (d₂ : Int) - d₁) ∧
    Abreast (t.ForksAt d₁ d₂) (execute t d₁ p₁) (execute t d₂ p₂) ∧
    (∀ xs o, (execute t d₁ p₁).Dialogue xs o →
      ∃ ys, (execute t d₂ p₂).Dialogue ys o ∧
        List.Forall₂ (Exchange.Abreast (t.ForksAt d₁ d₂)) xs ys) ∧
    (∀ {σ : Type} (l : Launcher σ) (R : σ → σ → Prop), l.Overlooks R →
      ∀ (st st' : σ) (v : View), R st st' →
        Concur (t.ForksAt d₁ d₂) R
          ((execute t d₁ p₁).events l st v) ((execute t d₂ p₂).events l st' v)
          ((execute t d₁ p₁).rehearse l st v) ((execute t d₂ p₂).rehearse l st' v)) ∧
    SameOutcomes (fun _ => (execute t d₁ p₁).perform) (fun _ => (execute t d₂ p₂).perform) := by
  have habreast : Abreast (t.ForksAt d₁ d₂) (execute t d₁ p₁) (execute t d₂ p₂) :=
    abreast_execute d₁ d₂ (Tree.sub?_nil t) p₁ p₂
  refine ⟨fun q u p n₁ n₂ h => ?_, habreast, fun xs o hd => habreast.dialogue hd,
    fun l R hl st st' v hst => habreast.concur hl hst (.refl v), ?_⟩
  · have hdiffer : n₁ + d₂ = n₂ + d₁ := h.differ
    omega
  · exact sameOutcomes_of_outline_eq (habreast.outline_eq (f := fun _ => 0) fun _ _ => rfl)

/-- The reading side of a pipe starts two branches of its own. By the scripted
launcher, which has all four depths in its calls, the execution at the root is
the same as one seven levels down below a pipe. -/
theorem execute_at_any_depth_nested :
    let word (verb : String) := Tree.leaf (.ofWords [verb])
    let t := Tree.node .sequential (word "a")
      (.node .pipe (word "b") (.node .parallel (word "c") (word "cd")))
    let script : Scripted.State := { script := { endings := [("c", [.exited 3])] } }
    let v : View := { process := {}, world := { tree := .empty } }
    let shallow := (execute t 0 none).rehearse Scripted.launcher script v
    let deep := (execute t 7 (some .pipe)).rehearse Scripted.launcher script v
    let depths (calls : List Scripted.Call) := calls.filterMap fun
      | .fork _ depth _ _ => some depth
      | _ => none
    Scripted.launcher.Overlooks Scripted.State.SameButDepths ∧ script.SameButDepths script ∧
      Concur (t.ForksAt 0 7) Scripted.State.SameButDepths
        ((execute t 0 none).events Scripted.launcher script v)
        ((execute t 7 (some .pipe)).events Scripted.launcher script v) shallow deep ∧
      shallow.1 = .finished 3 ∧ depths shallow.2.1.calls = [2, 2, 3, 3] ∧
      depths deep.2.1.calls = [9, 9, 10, 10] := by
  intro word t script v shallow deep depths
  obtain ⟨-, -, -, hrehearse, -⟩ := execute_at_any_depth t 0 7 none (some .pipe)
  have hoverlooks := Scripted.launcher_overlooks
  have hscript : script.SameButDepths script := .refl script
  exact ⟨hoverlooks, hscript, hrehearse Scripted.launcher _ hoverlooks script script v hscript,
    by decide +kernel, by decide +kernel, by decide +kernel⟩

end Walk

end LineShell
