/-
The first failure stops the tree.

# What may still be done

After a failure channels are given up and children are waited for that were
started before it (`Exchange.Tidies`); nothing is started, asked for or run
any more. For one process this is read off `failing` and `childCare`, which
the walk of every tree obeys.

# Branches on the spot

Where branches are evaluated on the spot, a failure within a branch is the
failure of the fork that the branch was asked for by, and so on outwards.
So there is one thing more that may follow a failure: the answers to the
forks that were under way, each with that very failure (`Event.Tidies`).
The induction is over walks: the branch of a fork is the walk of a tree
again, which starts with nothing failed, and hands its failure to the walk
that asked for it.
-/
import LineShell.Proofs.Rehearsal.Trace
import LineShell.Proofs.Walk.Children
import LineShell.Proofs.Walk.Failure

namespace LineShell

open Posix

variable {σ : Type}

-- ================================================================ tidying up

/-- The failure that an execution leaves off with. -/
def Outcome.failure? : Outcome → Option ExecError
  | .failed e => some e
  | .finished _ | .left => none

/-- The child that an exchange gave. -/
def Exchange.started? : Exchange → Option Child
  | .launch _ _ (.ok child) | .fork _ _ _ _ _ (.ok child) => some child
  | _ => none

/-- A channel is given up, or a child is waited for that was started. -/
def Exchange.Tidies (past : List Exchange) : Exchange → Prop
  | .release _ => True
  | .wait child _ => child ∈ past.filterMap started?
  | _ => False

/-- Once something failed, there is nothing but tidying up. -/
def Exchange.Heeds (past : List Exchange) (x : Exchange) : Prop :=
  past.findSome? failure? ≠ none → x.Tidies past

namespace Event

/-- The answer to a fork that was asked for. -/
def answerTo (q : Position) (request : ForkRequest) (r : Except ExecError Child) : Event :=
  answered (.fork q request.tree request.depth request.parent request.wiring r)

/-- A channel is given up, a child is waited for that was started, or a fork
that was asked for fails in turn. -/
def Tidies (past : List Event) (cause : ExecError) : Event → Prop
  | asked _ _ => False
  | answered x => x.Tidies (past.filterMap exchange?) ∨
      ∃ q request, asked q request ∈ past ∧ answered x = answerTo q request (.error cause)

/-- The first failure of a list of events. -/
def firstFailure (es : List Event) : Option ExecError :=
  (es.filterMap exchange?).findSome? Exchange.failure?

/-- Once something failed, there is nothing but tidying up. -/
def Heeds (past : List Event) (y : Event) : Prop :=
  ∀ e, firstFailure past = some e → y.Tidies past e

theorem firstFailure_append (es es' : List Event) :
    firstFailure (es ++ es') = (firstFailure es).or (firstFailure es') := by
  rw [firstFailure, List.filterMap_append, List.findSome?_append]
  rfl

end Event

-- ============================================================= one process

/-- Nothing but tidying up may follow a failure. -/
theorem failing_fresh {s s' : Option ExecError} {x : Exchange} (h : failing.allows s x s')
    (hx : x.isCleanup = false) : s = none := by
  by_cases hs : s = none
  · exact hs
  · have := h.1 hs
    rw [hx] at this
    cases this

/-- The children owed a wait are among those that were started. -/
theorem childCare_started {owed owed' : List Child} {x : Exchange}
    (h : childCare.allows owed x owed') {past : List Exchange}
    (howed : ∀ child ∈ owed, child ∈ past.filterMap Exchange.started?) :
    ∀ child ∈ owed', child ∈ (past ++ [x]).filterMap Exchange.started? := by
  intro child hmem
  rw [List.filterMap_append]
  have kept : child ∈ owed → child ∈ past.filterMap Exchange.started? ++
      [x].filterMap Exchange.started? := fun hm => List.mem_append_left _ (howed child hm)
  cases x with
  | builtin q b c n =>
      obtain ⟨-, rfl⟩ := h
      cases hmem
  | launch q c r | fork q t d p w r =>
      cases r with
      | error e => exact kept ((show owed' = owed from h) ▸ hmem)
      | ok started =>
          rcases List.mem_cons.mp ((show owed' = started :: owed from h) ▸ hmem) with rfl | hm
          · exact List.mem_append_right _ (List.mem_singleton_self _)
          · exact kept hm
  | channel q r => exact kept ((show owed' = owed from h) ▸ hmem)
  | release ch => exact kept ((show owed' = owed from h) ▸ hmem)
  | wait awaited r =>
      obtain ⟨-, rfl⟩ := h
      exact kept (List.mem_of_mem_erase hmem)

/-- What is allowed after a failure tidies up. -/
theorem tidies_of_allows {s s' : Option ExecError} {owed owed' : List Child} {x : Exchange}
    (hfail : failing.allows s x s') (hcare : childCare.allows owed x owed') (hs : s ≠ none)
    {past : List Exchange} (howed : ∀ child ∈ owed, child ∈ past.filterMap Exchange.started?) :
    x.Tidies past := by
  have cleanup := hfail.1 hs
  cases x with
  | release ch => trivial
  | wait child r => exact howed child hcare.1
  | builtin | launch | fork | channel => cases cleanup

/-- Along a path of one process. -/
theorem heeds_leads {s s' : Option ExecError} {owed owed' : List Child} {xs : List Exchange}
    (hfail : failing.Leads s xs s') (hcare : childCare.Leads owed xs owed') {past : List Exchange}
    (hs : s = past.findSome? Exchange.failure?)
    (howed : ∀ child ∈ owed, child ∈ past.filterMap Exchange.started?) :
    Throughout Exchange.Heeds past xs := by
  induction hfail generalizing owed past with
  | nil => trivial
  | @cons s s₁ s' x xs hx _ ih =>
      cases hcare with
      | cons hx' hrest =>
          refine ⟨fun h => tidies_of_allows hx hx' (hs ▸ h) howed,
            ih hrest ?_ (childCare_started hx' howed)⟩
          rw [hx.2, hs, List.findSome?_append]
          congr 1
          rw [List.findSome?_cons, List.findSome?_nil]
          cases x.failure? <;> rfl

namespace Walk

/-- A dialogue leaves off with its first failure, or with none. -/
theorem Dialogue.failure? {w : Walk} {xs : List Exchange} {o : Outcome} (hd : w.Dialogue xs o)
    (hw : w.Obeys failing none fun s r => s = failureOf r) :
    xs.findSome? Exchange.failure? = o.failure? := by
  obtain ⟨w', hpath, hend⟩ := hd
  obtain ⟨s, hleads, hw'⟩ := hw.path hpath
  have hs : s = xs.findSome? Exchange.failure? := failing_leads hleads
  rw [← hs]
  cases w' with
  | done n | failed e =>
      cases (show o = _ from hend)
      exact hw'
  | builtin q b c next =>
      obtain ⟨s', ha, -⟩ := hw' 0
      rw [failing_fresh ha rfl]
      cases b with
      | exit => rw [show o = .left from hend]; rfl
      | cd | assign => exact hend.elim
  | log | launch | fork | channel | release | wait => exact hend.elim

/-- After its first failure a dialogue only tidies up. -/
theorem Dialogue.heeds {w : Walk} {xs : List Exchange} {o : Outcome} (hd : w.Dialogue xs o)
    (hfail : w.Obeys failing none fun s r => s = failureOf r)
    (hcare : w.Obeys childCare [] fun owed _ => owed = []) :
    Throughout Exchange.Heeds [] xs := by
  obtain ⟨w', hpath, -⟩ := hd
  obtain ⟨s, hleads, -⟩ := hfail.path hpath
  obtain ⟨owed, hleads', -⟩ := hcare.path hpath
  exact heeds_leads hleads hleads' rfl nofun

end Walk

-- ========================================================= branches on the spot

namespace Walk

/-- The events of a rehearsal, in order. -/
def events (l : Launcher σ) (w : Walk) (st : σ) (v : View) : List Event :=
  (w.trace l st v).map Moment.event

end Walk

/-- After the events so far, these only tidy up once something failed, and
the outcome is the first failure of all of them. -/
structure Halts (past es : List Event) (o : Outcome) : Prop where
  heeds : Throughout Event.Heeds past es
  outcome : Event.firstFailure (past ++ es) = o.failure?

namespace Halts

variable {past es es' : List Event} {o o' : Outcome}

theorem cons {y : Event} (hy : y.Heeds past) (h : Halts (past ++ [y]) es o) :
    Halts past (y :: es) o where
  heeds := ⟨hy, h.heeds⟩
  outcome := by
    rw [List.append_cons]
    exact h.outcome

theorem append (h : Halts past es o') (h' : Halts (past ++ es) es' o) :
    Halts past (es ++ es') o where
  heeds := h.heeds.append h'.heeds
  outcome := by
    rw [← List.append_assoc]
    exact h'.outcome

end Halts

/-- Whatever happens while nothing has failed. -/
theorem Event.heeds_of_none {past : List Event} (h : Event.firstFailure past = none) (y : Event) :
    y.Heeds past := by
  intro e he
  rw [h] at he
  cases he

/-- The history of a walk that is in order: what failed is the state of the
one contract, and the state of the other was started. -/
structure Recalls (past : List Event) (s : Option ExecError) (owed : List Child) : Prop where
  failure : s = Event.firstFailure past
  started : ∀ child ∈ owed, child ∈ (past.filterMap Event.exchange?).filterMap Exchange.started?

namespace Recalls

variable {past : List Event} {s s' : Option ExecError} {owed owed' : List Child}

/-- An exchange that both contracts allow. -/
theorem answered {x : Exchange} (h : Recalls past s owed) (hfail : failing.allows s x s')
    (hcare : childCare.allows owed x owed') :
    (Event.answered x).Heeds past ∧ Recalls (past ++ [.answered x]) s' owed' := by
  refine ⟨fun e he => .inl ?_, ?_, ?_⟩
  · have hs : s ≠ none := by
      rw [h.failure, he]
      exact nofun
    exact tidies_of_allows hfail hcare hs h.started
  · rw [hfail.2, h.failure, Event.firstFailure_append]
    congr 1
    change x.failure? = [x].findSome? Exchange.failure?
    rw [List.findSome?_cons, List.findSome?_nil]
    cases x.failure? <;> rfl
  · rw [List.filterMap_append]
    exact childCare_started hcare h.started

/-- Events that give their failures to the state, and leave what is owed. -/
theorem append {es : List Event} (h : Recalls past s owed)
    (hs : s' = Event.firstFailure (past ++ es)) : Recalls (past ++ es) s' owed where
  failure := hs
  started child hm := by
    rw [List.filterMap_append, List.filterMap_append]
    exact List.mem_append_left _ (h.started child hm)

end Recalls

/-- One exchange more, and what comes after it. -/
theorem Halts.step {next : Walk} {s : Option ExecError} {owed : List Child} {past es : List Event}
    {o : Outcome} {x : Exchange} {F : Option ExecError → Except ExecError Int → Prop}
    {C : List Child → Except ExecError Int → Prop} (hpast : Recalls past s owed)
    (hfail : ∃ s', failing.allows s x s' ∧ next.Obeys failing s' F)
    (hcare : ∃ owed', childCare.allows owed x owed' ∧ next.Obeys childCare owed' C)
    (hrest : ∀ {s owed past}, next.Obeys failing s F → next.Obeys childCare owed C →
      Recalls past s owed → Halts past es o) :
    Halts past (.answered x :: es) o := by
  obtain ⟨s', ha, hfail⟩ := hfail
  obtain ⟨owed', ha', hcare⟩ := hcare
  obtain ⟨heeds, hpast⟩ := hpast.answered ha ha'
  exact .cons heeds (hrest hfail hcare hpast)

namespace Walk

/-- A walk that stops at failures and takes care of its children, rehearsed
with all of its branches. -/
theorem halts_rehearse (l : Launcher σ) {w : Walk} :
    ∀ {s : Option ExecError} {owed : List Child} {past : List Event} (st : σ) (v : View),
      w.Faithful → w.Obeys failing s (fun s r => s = failureOf r) →
      w.Obeys childCare owed (fun owed _ => owed = []) → Recalls past s owed →
      Halts past (w.events l st v) (w.rehearse l st v).1 := by
  induction w with
  | done n | failed e =>
      intro s owed past st v _ hfail _ hpast
      refine ⟨trivial, ?_⟩
      have hs : s = failureOf _ := hfail
      rw [events, trace, List.map_nil, List.append_nil, ← hpast.failure, hs]
      rfl
  | log level text next ih =>
      intro s owed past st v hf hfail hcare hpast
      exact ih st (v.note level text) hf hfail hcare hpast
  | builtin q b c next ih =>
      intro s owed past st v hf hfail hcare hpast
      simp only [events, trace, rehearse]
      cases hb : b.run c v with
      | mk ending v' =>
          cases ending with
          | status n => exact .step hpast (hfail n) (hcare n) (ih n st v' (hf n))
          | leave =>
              obtain ⟨s', ha, -⟩ := hfail 0
              refine ⟨trivial, ?_⟩
              rw [List.map_nil, List.append_nil, ← hpast.failure, failing_fresh ha rfl]
              rfl
  | launch q c next ih =>
      intro s owed past st v hf hfail hcare hpast
      exact .step hpast (hfail _) (hcare _) (ih _ (l.launch c st).2 v (hf _))
  | fork q tree depth parent wiring branch next ihb ih =>
      intro s owed past st v hf hfail hcare hpast
      obtain ⟨rfl, hf⟩ := hf
      obtain ⟨s₀, ha₀, -⟩ := hfail (.error default)
      obtain rfl : s = none := failing_fresh ha₀ rfl
      -- nothing has failed when the branch is asked for
      have fresh : Event.firstFailure past = none := hpast.failure.symm
      have before : Recalls (past ++ [.asked q ⟨tree, depth, parent, wiring⟩]) none owed :=
        hpast.append (by rw [Event.firstFailure_append, fresh]; rfl)
      have answered : ∀ (r : Except ExecError Child) {past : List Event} (st : σ) (v : View),
          Recalls past none owed →
          Halts past (.answered (.fork q tree depth parent wiring r) :: (next r).events l st v)
            ((next r).rehearse l st v).1 := by
        intro r past st v hpast
        exact .step hpast (hfail r) (hcare r) (ih r st v (hf r))
      have within : ∀ st v, Halts (past ++ [.asked q ⟨tree, depth, parent, wiring⟩])
          ((execute tree depth (some parent) q).events l st v)
          ((execute tree depth (some parent) q).rehearse l st v).1 := fun st v =>
        ihb st v (faithful_execute tree depth (some parent) q) (failing_execute ..)
          (childCare_execute ..) ⟨before.failure, fun _ hm => by cases hm⟩
      rcases fork_cases l q tree depth parent wiring (execute tree depth (some parent) q) st v with
        ⟨_, _, _, _, _, _, hanswer, hgoes⟩ | ⟨st₁, _, _, _, _, hrun, hleft⟩
      · rw [events, (hgoes next).1, (hgoes next).2, List.map_cons, List.map_append, List.map_cons]
        refine .cons (Event.heeds_of_none fresh _) ?_
        cases hanswer with
        | refused | program => exact answered _ _ _ before
        | @finished n st₁ st₂ after _ _ hrun =>
            have outcome := (within st₁ v).outcome
            rw [hrun] at outcome
            exact .append (within st₁ v) (answered _ _ _ (before.append outcome.symm))
        | @failed e st₁ st₂ after _ _ hrun =>
            -- the failure is known already, and is what the fork is answered by
            have outcome := (within st₁ v).outcome
            rw [hrun, events] at outcome
            obtain ⟨s', ha, hfail⟩ := hfail (.error e)
            obtain ⟨owed', ha', hcare'⟩ := hcare (.error e)
            obtain rfl : owed' = owed := ha'
            refine .append (within st₁ v) (.cons (fun e' he' => .inr ?_)
              (ih _ _ _ (hf _) hfail hcare' ?_))
            · obtain rfl : e = e' := Option.some.inj (outcome.symm.trans he')
              exact ⟨q, ⟨tree, depth, parent, wiring⟩, by simp, rfl⟩
            · rw [List.append_assoc]
              refine before.append ?_
              rw [← List.append_assoc, Event.firstFailure_append, outcome, ha.2]
              rfl
      · rw [events, (hleft next).1, (hleft next).2]
        have ended := (within st₁ v).outcome
        rw [hrun] at ended
        exact .cons (Event.heeds_of_none fresh _) ⟨(within st₁ v).heeds, ended⟩
  | channel q next ih =>
      intro s owed past st v hf hfail hcare hpast
      obtain ⟨r, _, _, -, hgoes⟩ := channel_cases l q st v
      rw [events, (hgoes next).1, (hgoes next).2]
      exact .step hpast (hfail r) (hcare r) (ih r _ _ (hf r))
  | release ch next ih =>
      intro s owed past st v hf hfail hcare hpast
      exact .step hpast hfail hcare (ih _ _ hf)
  | wait child next ih =>
      intro s owed past st v hf hfail hcare hpast
      exact .step hpast (hfail _) (hcare _) (ih _ (l.wait child st).2 v (hf _))

-- ========================================================= the main result

/-- Whatever the tree and whatever is answered, a process leaves off with
its first failure, or without one if nothing fails; after a failure it
only gives up channels and waits for children that it had started, and what
these waits bring does not matter. Where branches are evaluated on the spot
this holds of everything that happens in any of them: the only other thing
after the first failure is that the forks under way fail with it. -/
theorem first_failure_stops (t : Tree) (depth : Nat) (parent : Option Operator) (q : Position) :
    (∀ xs o, (execute t depth parent q).Dialogue xs o →
      xs.findSome? Exchange.failure? = o.failure? ∧
      ∀ before x after, xs = before ++ x :: after →
        before.findSome? Exchange.failure? ≠ none → x.Tidies before) ∧
    (∀ {σ : Type} (l : Launcher σ) (st : σ) (v : View),
      Event.firstFailure ((execute t depth parent q).events l st v)
        = ((execute t depth parent q).rehearse l st v).1.failure? ∧
      ∀ before y after e, (execute t depth parent q).events l st v = before ++ y :: after →
        Event.firstFailure before = some e → y.Tidies before e) := by
  have failing := failing_execute t depth parent q
  have caring := childCare_execute t depth parent q
  refine ⟨fun xs o hd => ⟨hd.failure? failing, ?_⟩, fun l st v => ?_⟩
  · rintro before x after rfl hbefore
    exact (hd.heeds failing caring).at_split hbefore
  · have halts : Halts [] _ _ :=
      halts_rehearse l st v (faithful_execute t depth parent q) failing caring ⟨rfl, nofun⟩
    refine ⟨halts.outcome, fun before y after e heq he => ?_⟩
    have heeds := halts.heeds
    rw [heq] at heeds
    exact heeds.at_split e he

/-- The reading stage of a pipe is a sequence, and its second program cannot
be started; then the wait for the writing stage fails too. That wait is
made, and the pipe fails with what the program could not be started for. -/
theorem first_failure_stops_second_program_fails :
    let again : Errno := ⟨11⟩
    let program (verb : String) := Tree.leaf { verb, argv := [verb] }
    let reading := Tree.node .sequential (program "b") (program "c")
    let tree := Tree.node .pipe (program "a") reading
    let script : Scripted.State :=
      { script := { faults := [⟨.launch, 2, again⟩, ⟨.wait, 2, .ECHILD⟩] } }
    let v : View := { process := {}, world := { tree := .empty } }
    let events := (execute tree 0 none).events Scripted.launcher script v
    let ownExchanges : List Exchange := [.channel [] (.ok ⟨3, 4⟩),
      .fork [.left] (program "a") 1 .pipe (.writer ⟨3, 4⟩) (.ok 1),
      .fork [.right] reading 1 .pipe (.reader ⟨3, 4⟩) (.error (.fork again)), .release ⟨3, 4⟩]
    let lastWait := Exchange.wait 1 (.error (.wait .ECHILD))
    (((execute tree 0 none).rehearse Scripted.launcher script v).1 = .failed (.fork again) ∧
      events = events.take 9 ++ [.answered lastWait] ∧
      (Event.answered lastWait).Tidies (events.take 9) (.fork again)) ∧
    lastWait.Tidies ownExchanges := by
  intro again program reading tree script v events ownExchanges lastWait
  have main := first_failure_stops tree 0 none []
  have split : events = events.take 9 ++ [.answered lastWait] := by decide +kernel
  have dialogue : (execute tree 0 none).Dialogue (ownExchanges ++ [lastWait])
      (.failed (.fork again)) :=
    ⟨_, .log (.channel _ (.fork _ (.fork _ (.release (.wait _ .here))))), rfl⟩
  refine ⟨⟨by decide +kernel, split, ?_⟩, ?_⟩
  · exact (main.2 Scripted.launcher script v).2 _ _ [] (.fork again) split (by decide +kernel)
  · exact (main.1 _ _ dialogue).2 _ _ [] rfl nofun

end Walk

end LineShell
