/-
No child is lost, and none is waited for twice.

# The contract

`childCare` keeps the list of children that are still owed a wait. A start
that succeeds adds the child, a wait takes it off again and may only be
for a child that is owed. Builtins run while nothing is owed, and so the
process may also end there. The walk of
every tree obeys this from the empty list and ends with the empty list,
whatever fails on the way: the failing fork of the second branch leads to
the wait for the first, and a failing wait for the first leads to the wait
for the second.

# The two readings

For a launcher that is asked one question after the other, the exchanges
of a dialogue tell which children were started and waited for. Where
branches are evaluated on the spot, starts and waits of all branches are
made by one launcher; `Launcher.traced` lists them as they come, and
otherwise does what the launcher does. Both readings give a list of
`ChildEvent`s in which nothing is left owed (`Settles`), hence one in
which starts and waits match (`WaitedOnce`).
-/
import LineShell.Proofs.Walk.Contract
import LineShell.Rehearsal.Recorded
import LineShell.Rehearsal.Scripted

namespace LineShell

open Posix

-- ================================================================== events

inductive ChildEvent where
  | started (child : Child)
  | waited (child : Child)
  deriving DecidableEq, Repr

/-- What an exchange means for children. A start that failed gives none,
and a wait that failed is a wait. -/
def Exchange.childEvent? : Exchange → Option ChildEvent
  | .launch _ _ (.ok child) | .fork _ _ _ _ _ (.ok child) => some (.started child)
  | .wait child _ => some (.waited child)
  | _ => none

/-- As many waits as starts for every child, and never more of them so
far. -/
structure WaitedOnce (evs : List ChildEvent) : Prop where
  matched : ∀ child, evs.count (.waited child) = evs.count (.started child)
  inOrder : ∀ (n : Nat) (child : Child),
    (evs.take n).count (.waited child) ≤ (evs.take n).count (.started child)

/-- Given the children owed a wait before them, the events owe none after
them: each start adds a child, each wait takes one that is owed. -/
inductive Settles : List Child → List ChildEvent → Prop where
  | nil : Settles [] []
  | started {owed : List Child} {child : Child} {evs : List ChildEvent} :
      Settles (child :: owed) evs → Settles owed (.started child :: evs)
  | waited {owed : List Child} {child : Child} {evs : List ChildEvent} :
      child ∈ owed → Settles (owed.erase child) evs → Settles owed (.waited child :: evs)

namespace Settles

/-- What settles a debt of its own may come before anything else. -/
theorem append {owed owed' : List Child} {evs evs' : List ChildEvent} (h : Settles owed evs)
    (h' : Settles owed' evs') : Settles (owed ++ owed') (evs ++ evs') := by
  induction h with
  | nil => exact h'
  | started _ ih => exact .started ih
  | waited hmem _ ih =>
      refine .waited (List.mem_append_left _ hmem) ?_
      rw [List.erase_append_left _ hmem]
      exact ih

/-- Taking a child off what is owed takes one off its count. -/
private theorem count_erase_add {owed : List Child} {child c : Child} (hmem : child ∈ owed) :
    (owed.erase child).count c + (if child = c then 1 else 0) = owed.count c := by
  by_cases hc : child = c
  · subst hc
    have := List.count_pos_iff.mpr hmem
    rw [List.count_erase_self, if_pos rfl]
    omega
  · rw [List.count_erase_of_ne (Ne.symm hc), if_neg hc, Nat.add_zero]

/-- Waits pay for what was owed and for what was started. -/
theorem count_eq {owed : List Child} {evs : List ChildEvent} (h : Settles owed evs)
    (child : Child) :
    evs.count (.waited child) = owed.count child + evs.count (.started child) := by
  induction h with
  | nil => rfl
  | started _ ih =>
      simp only [List.count_cons, beq_iff_eq, reduceCtorEq, if_false,
        ChildEvent.started.injEq] at ih ⊢
      omega
  | waited hmem _ ih =>
      have := count_erase_add (c := child) hmem
      simp only [List.count_cons, beq_iff_eq, reduceCtorEq, if_false, ChildEvent.waited.injEq]
      omega

/-- No wait comes before what it waits for. -/
theorem count_take_le {owed : List Child} {evs : List ChildEvent} (h : Settles owed evs)
    (child : Child) : ∀ n, (evs.take n).count (.waited child)
      ≤ owed.count child + (evs.take n).count (.started child) := by
  induction h with
  | nil => intro n; simp
  | started _ ih =>
      intro n
      cases n with
      | zero => simp
      | succ n =>
          have := ih n
          simp only [List.take_succ_cons, List.count_cons, beq_iff_eq, reduceCtorEq, if_false,
            ChildEvent.started.injEq] at this ⊢
          omega
  | waited hmem _ ih =>
      intro n
      cases n with
      | zero => simp
      | succ n =>
          have := ih n
          have := count_erase_add (c := child) hmem
          simp only [List.take_succ_cons, List.count_cons, beq_iff_eq, reduceCtorEq, if_false,
            ChildEvent.waited.injEq]
          omega

/-- From no debt to no debt, each child is waited for once. -/
theorem waitedOnce {evs : List ChildEvent} (h : Settles [] evs) : WaitedOnce evs where
  matched child := by simpa using h.count_eq child
  inOrder n child := by simpa using h.count_take_le child n

end Settles

-- ============================================================ the contract

/-- The state is the list of children owed a wait. -/
def childCare : Contract (List Child) where
  allows owed x owed' :=
    match x with
    | .builtin .. => owed = [] ∧ owed' = []
    | .launch _ _ (.ok child) | .fork _ _ _ _ _ (.ok child) => owed' = child :: owed
    | .wait child _ => child ∈ owed ∧ owed' = owed.erase child
    | _ => owed' = owed

namespace Walk

/-- Two waits settle two children, whatever becomes of the first. -/
theorem obeys_waitBoth {first second : Child} {k : Ending → Ending → Walk}
    {Q : List Child → Except ExecError Int → Prop} (hfailed : ∀ e, Q [] (.error e))
    (hk : ∀ e₁ e₂, (k e₁ e₂).Obeys childCare [] Q) :
    (waitBoth first second k).Obeys childCare [second, first] Q := by
  intro r₁
  refine ⟨[second, first].erase first, ⟨by simp, rfl⟩, fun r₂ => ⟨[], ⟨?_, ?_⟩, ?_⟩⟩
  · by_cases h : second = first <;> simp [h]
  · by_cases h : second = first <;> simp [h]
  · cases r₁ with
    | error e => exact hfailed e
    | ok e₁ =>
        cases r₂ with
        | error e => exact hfailed e
        | ok e₂ => exact hk e₁ e₂

/-- Trees take care of their children: started from no debt, they end
with none. -/
theorem childCare_covers :
    childCare.Covers (fun _ _ owed => owed = []) (fun _ _ _ owed _ => owed = []) where
  leaf := by
    intro q c owed h
    subst h
    unfold ofCommand
    split
    · exact rfl
    · split
      · exact fun n => ⟨[], ⟨rfl, rfl⟩, rfl⟩
      · intro r
        cases r with
        | error e => exact ⟨[], rfl, rfl⟩
        | ok child =>
            refine ⟨[child], rfl, fun r => ⟨[], ⟨List.mem_singleton_self _, by simp⟩, ?_⟩⟩
            cases r with
            | error e => exact rfl
            | ok ending => exact rfl
  first := fun _ h => h
  second := fun _ _ h => h
  both := fun _ _ _ h => h
  only := fun _ _ h => h
  parallel := by
    intro q l r owed onLeft onRight depth h
    subst h
    intro r₁
    cases r₁ with
    | error e => exact ⟨[], rfl, rfl⟩
    | ok first =>
        refine ⟨[first], rfl, fun r₂ => ?_⟩
        cases r₂ with
        | error e =>
            exact ⟨[first], rfl, fun _ => ⟨[], ⟨List.mem_singleton_self _, by simp⟩, rfl⟩⟩
        | ok second =>
            exact ⟨[second, first], rfl, obeys_waitBoth (fun _ => rfl) fun _ _ => rfl⟩
  pipe := by
    intro q l r owed onLeft onRight depth h
    subst h
    intro r₀
    cases r₀ with
    | error e => exact ⟨[], rfl, rfl⟩
    | ok ch =>
        refine ⟨[], rfl, fun r₁ => ?_⟩
        cases r₁ with
        | error e => exact ⟨[], rfl, [], rfl, rfl⟩
        | ok writer =>
            refine ⟨[writer], rfl, fun r₂ => ?_⟩
            cases r₂ with
            | error e =>
                exact ⟨[writer], rfl, [writer], rfl,
                  fun _ => ⟨[], ⟨List.mem_singleton_self _, by simp⟩, rfl⟩⟩
            | ok reader =>
                exact ⟨[reader, writer], rfl, [reader, writer], rfl,
                  obeys_waitBoth (fun _ => rfl) fun _ _ => rfl⟩

/-- The walk of a tree owes nothing at its end. -/
theorem childCare_execute (t : Tree) (depth : Nat) (parent : Option Operator) (q : Position) :
    (execute t depth parent q).Obeys childCare [] fun owed _ => owed = [] :=
  obeys_execute childCare_covers t depth parent q [] rfl

end Walk

-- ============================================================= dialogues

/-- Exchanges under the contract, from a debt to none, settle it. -/
theorem childCare_settles {owed owed' : List Child} {xs : List Exchange}
    (h : childCare.Leads owed xs owed') (hend : owed' = []) :
    Settles owed (xs.filterMap Exchange.childEvent?) := by
  induction h with
  | nil => subst hend; exact .nil
  | @cons s s' s'' x xs hx _ ih =>
      have ih := ih hend
      cases x with
      | builtin q b c n =>
          obtain ⟨rfl, rfl⟩ := hx
          exact ih
      | launch q c r =>
          cases r with
          | error e => exact (show s' = s from hx) ▸ ih
          | ok child => exact .started ((show s' = child :: s from hx) ▸ ih)
      | fork q t d p w r =>
          cases r with
          | error e => exact (show s' = s from hx) ▸ ih
          | ok child => exact .started ((show s' = child :: s from hx) ▸ ih)
      | channel q r => exact (show s' = s from hx) ▸ ih
      | release ch => exact (show s' = s from hx) ▸ ih
      | wait child r =>
          obtain ⟨hmem, rfl⟩ := hx
          exact .waited hmem ih

/-- Along a dialogue that an obeying walk starts from no debt, each child
is waited for once, also where the walk ends the process. -/
theorem Walk.Dialogue.waitedOnce {w : Walk} {xs : List Exchange} {o : Outcome}
    (hd : w.Dialogue xs o) (hw : w.Obeys childCare [] fun owed _ => owed = []) :
    WaitedOnce (xs.filterMap Exchange.childEvent?) := by
  obtain ⟨w', hpath, hend⟩ := hd
  obtain ⟨owed, hleads, hw'⟩ := hw.path hpath
  refine (childCare_settles hleads ?_).waitedOnce
  cases w' with
  | done n | failed e => exact hw'
  | builtin q b c next =>
      obtain ⟨owed', ⟨rfl, -⟩, -⟩ := hw' 0
      rfl
  | log | launch | fork | channel | release | wait => exact hend.elim

-- ============================================================ rehearsals

variable {σ : Type}

namespace Launcher

/-- The launcher with a list of the children that it gave and was asked to
wait for. -/
def traced (l : Launcher σ) : Launcher (σ × List ChildEvent) where
  launch c s :=
    ((l.launch c s.1).1, (l.launch c s.1).2,
      match (l.launch c s.1).1 with
      | .ok child => s.2 ++ [.started child]
      | .error _ => s.2)
  enter q s := ((l.enter q s.1).1, (l.enter q s.1).2, s.2)
  exec c s := ((l.exec c s.1).1, (l.exec c s.1).2, s.2 ++ [.started (l.exec c s.1).1])
  finish n s := ((l.finish n s.1).1, (l.finish n s.1).2, s.2 ++ [.started (l.finish n s.1).1])
  connect s := ((l.connect s.1).1, (l.connect s.1).2, s.2)
  connected ch s := (l.connected ch s.1, s.2)
  released ch s := (l.released ch s.1, s.2)
  wait child s := ((l.wait child s.1).1, (l.wait child s.1).2, s.2 ++ [.waited child])
  leaveBranch := l.leaveBranch

end Launcher

/-- Traced from any list of events on, the rehearsal comes to what it
comes to untraced, and adds events that settle the debt, unless the
process ends on the way. -/
def Traces (owed : List Child) (bare : Outcome × σ × View)
    (traced : List ChildEvent → Outcome × (σ × List ChildEvent) × View) : Prop :=
  ∃ new, (∀ evs, traced evs = (bare.1, (bare.2.1, evs ++ new), bare.2.2)) ∧
    (bare.1 ≠ .left → Settles owed new)

namespace Traces

variable {owed : List Child} {bare : Outcome × σ × View}
  {traced : List ChildEvent → Outcome × (σ × List ChildEvent) × View}

theorem started {child : Child} (h : Traces (child :: owed) bare traced) :
    Traces owed bare fun evs => traced (evs ++ [.started child]) := by
  obtain ⟨new, heq, hs⟩ := h
  exact ⟨.started child :: new, fun evs => by simp [heq], fun ho => .started (hs ho)⟩

theorem waited {child : Child} (hmem : child ∈ owed) (h : Traces (owed.erase child) bare traced) :
    Traces owed bare fun evs => traced (evs ++ [.waited child]) := by
  obtain ⟨new, heq, hs⟩ := h
  exact ⟨.waited child :: new, fun evs => by simp [heq], fun ho => .waited hmem (hs ho)⟩

/-- Events that settle a debt of their own may come before. -/
theorem after {before : List ChildEvent} (hb : Settles [] before) (h : Traces owed bare traced) :
    Traces owed bare fun evs => traced (evs ++ before) := by
  obtain ⟨new, heq, hs⟩ := h
  exact ⟨before ++ new, fun evs => by simp [heq], fun ho => hb.append (hs ho)⟩

/-- Where the process ended, nothing more is added. -/
theorem left {st : σ} {v : View} {new : List ChildEvent} :
    Traces owed (.left, st, v) fun evs => (.left, (st, evs ++ new), v) :=
  ⟨new, fun _ => rfl, fun h => absurd rfl h⟩

end Traces

namespace Walk

/-- A branch that settles what it owes comes before the child that is
answered for it, if one is. -/
theorem traces_fork (l : Launcher σ) {q : Position} {tree : Tree} {depth : Nat}
    {parent : Operator} {wiring : Wiring} {branch : Walk} {next : Except ExecError Child → Walk}
    {owed : List Child}
    (within : ∀ (st : σ) (v : View), Traces [] (branch.rehearse l st v)
      fun evs => branch.rehearse l.traced (st, evs) v)
    (failed : ∀ (e : ExecError) (st : σ) (v : View), Traces owed
      ((next (.error e)).rehearse l st v)
      fun evs => (next (.error e)).rehearse l.traced (st, evs) v)
    (started : ∀ (child : Child) (st : σ) (v : View), Traces (child :: owed)
      ((next (.ok child)).rehearse l st v)
      fun evs => (next (.ok child)).rehearse l.traced (st, evs) v) (st : σ) (v : View) :
    Traces owed ((fork q tree depth parent wiring branch next).rehearse l st v)
      fun evs => (fork q tree depth parent wiring branch next).rehearse l.traced (st, evs) v := by
  simp only [rehearse]
  cases he : l.enter ⟨tree, depth, parent, wiring⟩ st with
  | mk r st₁ =>
      have he' : ∀ evs, l.traced.enter ⟨tree, depth, parent, wiring⟩ (st, evs)
          = (r, st₁, evs) := by
        intro evs
        simp [Launcher.traced, he]
      simp only [he']
      cases r with
      | error e => exact failed e st₁ v
      | ok _ =>
          cases hx : tree.external? with
          | some c => exact (started (l.exec c st₁).1 (l.exec c st₁).2 v).started
          | none =>
              obtain ⟨new, heq, hs⟩ := within st₁ v
              simp only [heq]
              cases hr : branch.rehearse l st₁ v with
              | mk o rest =>
                  rw [hr] at hs
                  cases o with
                  | finished n =>
                      exact (started (l.finish n rest.1).1 (l.finish n rest.1).2
                        (l.leaveBranch v rest.2)).started.after (hs nofun)
                  | failed e =>
                      exact (failed e rest.1 (l.leaveBranch v rest.2)).after (hs nofun)
                  | left => exact Traces.left

/-- Whatever is answered to a request for a channel, no child is started. -/
theorem traces_channel (l : Launcher σ) {q : Position} {next : Except ExecError Channel → Walk}
    {owed : List Child}
    (answered : ∀ (r : Except ExecError Channel) (st : σ) (v : View), Traces owed
      ((next r).rehearse l st v) fun evs => (next r).rehearse l.traced (st, evs) v)
    (st : σ) (v : View) :
    Traces owed ((channel q next).rehearse l st v)
      fun evs => (channel q next).rehearse l.traced (st, evs) v := by
  simp only [rehearse]
  cases hc : l.connect st with
  | mk r st₁ =>
      have hc' : ∀ evs, l.traced.connect (st, evs) = (r, st₁, evs) := by
        intro evs
        simp [Launcher.traced, hc]
      simp only [hc']
      cases r with
      | error e => exact answered (.error e) st₁ v
      | ok _ =>
          cases hp : Call.pipe.attempt v with
          | mk r v₁ =>
              cases r with
              | error e => exact answered (.error (.channel e)) st₁ v₁
              | ok ends => exact answered (.ok ⟨ends.1, ends.2⟩) _ v₁

/-- A walk that takes care of its children, rehearsed by a launcher that
is traced, those of its branches included. -/
theorem traces_rehearse (l : Launcher σ) {w : Walk} :
    ∀ {owed : List Child} (st : σ) (v : View), w.Faithful →
      w.Obeys childCare owed (fun owed _ => owed = []) →
      Traces owed (w.rehearse l st v) fun evs => w.rehearse l.traced (st, evs) v := by
  induction w with
  | done n =>
      intro owed st v _ h
      cases (show owed = [] from h)
      exact ⟨[], fun evs => by simp [rehearse], fun _ => .nil⟩
  | failed e =>
      intro owed st v _ h
      cases (show owed = [] from h)
      exact ⟨[], fun evs => by simp [rehearse], fun _ => .nil⟩
  | log level text next ih =>
      intro owed st v hf h
      exact ih st (v.note level text) hf h
  | builtin q b c next ih =>
      intro owed st v hf h
      simp only [rehearse]
      cases hb : b.run c v with
      | mk ending v₁ =>
          cases ending with
          | status n =>
              obtain ⟨owed', ⟨rfl, rfl⟩, h'⟩ := h n
              exact ih n st v₁ (hf n) h'
          | leave =>
              exact ⟨[], fun evs => by rw [List.append_nil], nofun⟩
  | launch q c next ih =>
      intro owed st v hf h
      obtain ⟨owed', ha, h'⟩ := h (l.launch c st).1
      have ih := ih _ (l.launch c st).2 v (hf _) h'
      simp only [rehearse, Launcher.traced] at ih ⊢
      cases hr : (l.launch c st).1 with
      | error e =>
          simp only [hr] at ha ih ⊢
          exact ha ▸ ih
      | ok child =>
          simp only [hr] at ha ih ⊢
          exact Traces.started (ha ▸ ih)
  | fork q tree depth parent wiring branch next ihb ih =>
      intro owed st v hf hnext
      obtain ⟨rfl, hf⟩ := hf
      have within := fun st v => ihb st v (faithful_execute tree depth (some parent) q)
        (childCare_execute tree depth (some parent) q)
      refine traces_fork l within (fun e st v => ?_) (fun child st v => ?_) st v
      · obtain ⟨owed', ha, h'⟩ := hnext (.error e)
        cases (show owed' = owed from ha)
        exact ih _ st v (hf _) h'
      · obtain ⟨owed', ha, h'⟩ := hnext (.ok child)
        cases (show owed' = child :: owed from ha)
        exact ih _ st v (hf _) h'
  | channel q next ih =>
      intro owed st v hf h
      refine traces_channel l (fun r st v => ?_) st v
      obtain ⟨owed', ha, h'⟩ := h r
      cases (show owed' = owed from ha)
      exact ih r st v (hf r) h'
  | release ch next ih =>
      intro owed st v hf h
      obtain ⟨owed', ha, h'⟩ := h
      cases (show owed' = owed from ha)
      exact ih (l.released ch st) (Redirection.closeAll [ch.read, ch.write] v) hf h'
  | wait child next ih =>
      intro owed st v hf h
      obtain ⟨owed', ⟨hmem, rfl⟩, h'⟩ := h (l.wait child st).1
      exact (ih _ (l.wait child st).2 v (hf _) h').waited hmem

end Walk

-- ============================================================= numbering

namespace Launcher

/-- Whatever it is asked, the launcher preserves a property of its
states. -/
structure Keeps (l : Launcher σ) (P : σ → Prop) : Prop where
  launch : ∀ c st, P st → P (l.launch c st).2
  enter : ∀ q st, P st → P (l.enter q st).2
  exec : ∀ c st, P st → P (l.exec c st).2
  finish : ∀ n st, P st → P (l.finish n st).2
  connect : ∀ st, P st → P (l.connect st).2
  connected : ∀ ch st, P st → P (l.connected ch st)
  released : ∀ ch st, P st → P (l.released ch st)
  wait : ∀ child st, P st → P (l.wait child st).2

/-- The launcher numbers children upwards: each that it gives lies beyond
the count so far, and the count covers all that it gave. -/
structure Numbers (l : Launcher σ) (count : σ → Nat) : Prop where
  launch : ∀ c st, count st ≤ count (l.launch c st).2 ∧
    ∀ child, (l.launch c st).1 = .ok child → count st < child ∧ child ≤ count (l.launch c st).2
  exec : ∀ c st, count st < (l.exec c st).1 ∧ (l.exec c st).1 ≤ count (l.exec c st).2
  finish : ∀ n st, count st < (l.finish n st).1 ∧ (l.finish n st).1 ≤ count (l.finish n st).2
  enter : ∀ q st, count st ≤ count (l.enter q st).2
  connect : ∀ st, count st ≤ count (l.connect st).2
  connected : ∀ ch st, count st ≤ count (l.connected ch st)
  released : ∀ ch st, count st ≤ count (l.released ch st)
  wait : ∀ child st, count st ≤ count (l.wait child st).2

/-- No child was given twice, nor one beyond the count. -/
def Distinct (count : σ → Nat) (s : σ × List ChildEvent) : Prop :=
  ∀ child : Nat, s.2.count (.started child) ≤ if child ≤ count s.1 then 1 else 0

namespace Distinct

variable {count : σ → Nat} {st st' : σ} {evs : List ChildEvent}

theorem mono (h : Distinct count (st, evs)) (hle : count st ≤ count st') :
    Distinct count (st', evs) := by
  intro child
  have := h child
  simp only at this ⊢
  split at this <;> split <;> omega

theorem started {child : Nat} (h : Distinct count (st, evs)) (hlt : count st < child)
    (hle : child ≤ count st') : Distinct count (st', evs ++ [.started child]) := by
  intro other
  have before := h other
  rw [List.count_append, List.count_singleton]
  by_cases hc : child = other
  · subst hc
    simp only [show ¬child ≤ count st by omega, if_false] at before
    simp only [hle, if_true, beq_self_eq_true]
    omega
  · have := h.mono (Nat.le_of_lt (Nat.lt_of_lt_of_le hlt hle)) other
    simpa [hc] using this

theorem waited {child : Child} (h : Distinct count (st, evs)) (hle : count st ≤ count st') :
    Distinct count (st', evs ++ [.waited child]) := by
  intro other
  have := h.mono hle other
  simpa using this

end Distinct

/-- A launcher that numbers children upwards never gives one twice. -/
theorem Numbers.keeps_distinct {l : Launcher σ} {count : σ → Nat} (h : l.Numbers count) :
    l.traced.Keeps (Distinct count) where
  launch c s hs := by
    obtain ⟨hle, hok⟩ := h.launch c s.1
    simp only [traced]
    cases hr : (l.launch c s.1).1 with
    | error e => exact hs.mono hle
    | ok child => exact hs.started (hok child hr).1 (hok child hr).2
  enter q s hs := hs.mono (h.enter q s.1)
  exec c s hs := hs.started (h.exec c s.1).1 (h.exec c s.1).2
  finish n s hs := hs.started (h.finish n s.1).1 (h.finish n s.1).2
  connect s hs := hs.mono (h.connect s.1)
  connected ch s hs := hs.mono (h.connected ch s.1)
  released ch s hs := hs.mono (h.released ch s.1)
  wait child s hs := hs.waited (h.wait child s.1)

end Launcher

namespace Walk

/-- What a launcher preserves holds after every rehearsal. -/
theorem rehearse_keeps {l : Launcher σ} {P : σ → Prop} (h : l.Keeps P) (w : Walk) :
    ∀ (st : σ) (v : View), P st → P (w.rehearse l st v).2.1 := by
  induction w with
  | done n | failed e => intro st v hP; exact hP
  | log level text next ih => intro st v hP; exact ih st _ hP
  | builtin q b c next ih =>
      intro st v hP
      simp only [rehearse]
      cases hb : b.run c v with
      | mk ending v₁ =>
          cases ending with
          | status n => exact ih n st v₁ hP
          | leave => exact hP
  | launch q c next ih => intro st v hP; exact ih _ _ v (h.launch c st hP)
  | fork q tree depth parent wiring branch next ihb ih =>
      intro st v hP
      have entered := h.enter ⟨tree, depth, parent, wiring⟩ st hP
      simp only [rehearse]
      cases he : l.enter ⟨tree, depth, parent, wiring⟩ st with
      | mk r st₁ =>
          rw [he] at entered
          cases r with
          | error e => exact ih _ st₁ v entered
          | ok _ =>
              cases hx : tree.external? with
              | some c => exact ih _ _ v (h.exec c st₁ entered)
              | none =>
                  have evaluated := ihb st₁ v entered
                  simp only
                  cases hr : branch.rehearse l st₁ v with
                  | mk o rest =>
                      rw [hr] at evaluated
                      cases o with
                      | finished n => exact ih _ _ _ (h.finish n rest.1 evaluated)
                      | failed e => exact ih _ rest.1 _ evaluated
                      | left => exact evaluated
  | channel q next ih =>
      intro st v hP
      have connected := h.connect st hP
      simp only [rehearse]
      cases hc : l.connect st with
      | mk r st₁ =>
          rw [hc] at connected
          cases r with
          | error e => exact ih _ st₁ v connected
          | ok _ =>
              cases hp : Call.pipe.attempt v with
              | mk r v₁ =>
                  cases r with
                  | error e => exact ih _ st₁ v₁ connected
                  | ok ends => exact ih _ _ v₁ (h.connected ⟨ends.1, ends.2⟩ st₁ connected)
  | release ch next ih => intro st v hP; exact ih _ _ (h.released ch st hP)
  | wait child next ih => intro st v hP; exact ih _ _ v (h.wait child st hP)

end Walk

/-- The scripted launcher numbers children by how many it has given. -/
theorem Scripted.launcher_numbers : Scripted.launcher.Numbers Scripted.State.children where
  launch c st := by
    simp only [launcher, State.ask]
    split <;> simp_all [State.start, State.register, State.record] <;> grind
  exec c st := by simp [launcher, State.start, State.register, State.record]
  finish n st := by simp [launcher, State.register, State.record]
  enter q st := by
    simp only [launcher, State.ask]
    split <;> grind [State.record]
  connect st := by
    simp only [launcher, State.ask]
    split <;> grind [State.record]
  connected ch st := by simp [launcher, State.record]
  released ch st := by simp [launcher]
  wait child st := by
    simp only [launcher, State.ask]
    split <;> grind [State.record]

/-- The recording launcher does so too. -/
theorem Recorded.launcher_numbers : Recorded.launcher.Numbers Recorded.State.children where
  launch c st := by
    refine ⟨by simp [launcher, State.register, State.record], fun child h => ?_⟩
    simp only [launcher, State.register, State.record, Except.ok.injEq] at h ⊢
    exact ⟨h ▸ Nat.lt_succ_self _, Nat.le_of_eq h.symm⟩
  exec c st := by simp [launcher, State.register, State.record]
  finish n st := by simp [launcher, State.register]
  enter q st := by simp [launcher, State.record]
  connect st := by simp [launcher, State.record]
  connected ch st := by simp [launcher]
  released ch st := by simp [launcher]
  wait child st := by simp [launcher, State.record]

-- ======================================================== the main result

namespace Walk

/-- What a rehearsal comes to in starts and waits, branches included. -/
def childEvents (w : Walk) (l : Launcher σ) (st : σ) (v : View) : List ChildEvent :=
  (w.rehearse l.traced (st, []) v).2.1.2

/-- A launcher that numbers children upwards gives none twice in a
rehearsal. -/
theorem childEvents_distinct {l : Launcher σ} {count : σ → Nat} (h : l.Numbers count) (w : Walk)
    (st : σ) (v : View) (child : Child) : (w.childEvents l st v).count (.started child) ≤ 1 := by
  have := rehearse_keeps h.keeps_distinct w (st, []) v (fun _ => by simp) child
  unfold childEvents
  split at this <;> omega

/-- Whatever the tree and whatever is answered, every child that was
started is waited for once, and not before it was started. So it is for
each process of its own, where the exchanges are those of one dialogue,
and where all branches are evaluated by one launcher. The scripted and
the recording launcher give no child twice, so there every number that
was registered is waited for once. -/
theorem children_waited_once (t : Tree) (depth : Nat) (parent : Option Operator) (q : Position) :
    (∀ xs o, (execute t depth parent q).Dialogue xs o →
      WaitedOnce (xs.filterMap Exchange.childEvent?)) ∧
    (∀ {σ : Type} (l : Launcher σ) (st : σ) (v : View) o st' v',
      (execute t depth parent q).rehearse l st v = (o, st', v') →
      (execute t depth parent q).rehearse l.traced (st, []) v
          = (o, (st', (execute t depth parent q).childEvents l st v), v') ∧
        (o ≠ .left → WaitedOnce ((execute t depth parent q).childEvents l st v))) ∧
    (∀ st v child,
      ((execute t depth parent q).childEvents Scripted.launcher st v).count (.started child) ≤ 1) ∧
    (∀ st v child, ((execute t depth parent q).childEvents Recorded.launcher st v).count
      (.started child) ≤ 1) := by
  have obeys := childCare_execute t depth parent q
  refine ⟨fun xs o hd => hd.waitedOnce obeys, ?_,
    childEvents_distinct Scripted.launcher_numbers _,
    childEvents_distinct Recorded.launcher_numbers _⟩
  intro σ l st v o st' v' hr
  obtain ⟨evs, heq, hs⟩ := traces_rehearse l st v (faithful_execute t depth parent q) obeys
  rw [hr] at heq hs
  rw [childEvents, show rehearse l.traced _ (st, []) v = (o, (st', evs), v') from heq []]
  exact ⟨rfl, fun ho => (hs ho).waitedOnce⟩

/-- The second branch of a pipe cannot be started, and the wait for the
first fails: the first was waited for nevertheless. -/
theorem children_waited_once_second_fork_fails :
    let again : Errno := ⟨11⟩
    let stage (verb : String) := Tree.leaf { verb, argv := [verb] }
    let walk := execute (.node .pipe (stage "a") (stage "b")) 0 none
    let script : Scripted.State :=
      { script := { faults := [⟨.fork, 2, again⟩, ⟨.wait, 1, .ECHILD⟩] } }
    let v : View := { process := {}, world := { tree := .empty } }
    ((walk.rehearse Scripted.launcher script v).1 = .failed (.fork again) ∧
      walk.childEvents Scripted.launcher script v = [.started 1, .waited 1] ∧
      WaitedOnce (walk.childEvents Scripted.launcher script v)) ∧
    WaitedOnce ([Exchange.channel [] (.ok ⟨3, 4⟩),
      .fork [.left] (stage "a") 1 .pipe (.writer ⟨3, 4⟩) (.ok 7),
      .fork [.right] (stage "b") 1 .pipe (.reader ⟨3, 4⟩) (.error (.fork again)),
      .release ⟨3, 4⟩, .wait 7 (.error (.wait .ECHILD))].filterMap Exchange.childEvent?) := by
  intro again stage walk script v
  have main := children_waited_once (.node .pipe (stage "a") (stage "b")) 0 none []
  refine ⟨⟨by rfl, by rfl, ?_⟩, ?_⟩
  · exact (main.2.1 Scripted.launcher script v (.failed (.fork again)) _ _ rfl).2 nofun
  · exact main.1 _ (.failed (.fork again))
      ⟨_, .log (.channel _ (.fork _ (.fork _ (.release (.wait _ .here))))), rfl⟩

end Walk

end LineShell
