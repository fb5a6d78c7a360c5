/-
What the recording launcher makes of a tree.

# Foresight

The recording launcher starts nothing. It answers for programs from a table
of endings by verb, and evaluates branches on the spot. So a table, and the
statuses of the builtins, say what comes of the parts of a tree
(`Tree.foreseen`): there are no failures, nobody is killed, and the
processes that builtins end are those where an `exit` or `quit` without
arguments stands.

# The rehearsal

A rehearsal that answers so takes the course of the tree
(`rehearse_foreseen`). Everything that it registers it waits for, so of its
state nothing is left but lines; among them there is one for each external
command that the course takes up (`Records`). A branch counts as a child
that exits with the status it was evaluated to. That is right as long as it
has one: a builtin on the spot would end the whole rehearsal, so there must
be none in a branch (`Tree.keepsBuiltins`).
-/
import LineShell.Rehearsal.Recorded
import LineShell.Proofs.Builtin
import LineShell.Proofs.Rehearsal.Trace
import LineShell.Proofs.Walk.Course
import LineShell.Proofs.Walk.Sequence
import LineShell.Proofs.Walk.Site

namespace LineShell

open Posix

-- =================================================================== trees

/-- The command ends the process that runs it as a builtin, if its
redirections can be put in place. -/
def Command.isExit (c : Command) : Bool := Builtin.lookup c == some .exit && c.params.isEmpty

namespace Tree

/-- Is a leaf of the tree a builtin? -/
def hasBuiltin : Tree → Bool
  | leaf c => (Builtin.lookup c).isSome
  | node _ l r => l.hasBuiltin || r.hasBuiltin

/-- No leaf below a `|` or `&` is a builtin. -/
def keepsBuiltins : Tree → Bool
  | leaf _ => true
  | node op l r =>
      if op.isSequel then l.keepsBuiltins && r.keepsBuiltins else !l.hasBuiltin && !r.hasBuiltin

/-- The external commands at some positions of the tree. -/
def externals (t : Tree) (us : List Position) : List Command :=
  us.filterMap fun u => (t.sub? u).bind external?

/-- What comes of the parts of a tree by a table of endings and the statuses
of its builtins. -/
def foreseen (t : Tree) (table : List (String × Ending)) (status : Position → Int) : Course where
  builtin := status
  program q := ((t.sub? q).bind external?).elim (.exited 0) fun c =>
    (table.lookup c.verb).getD (.exited 0)
  channel _ := none
  killed _ := none
  leaves q := match t.sub? q with
    | some (leaf c) => c.isExit
    | _ => false

theorem keepsBuiltins_of_free {t : Tree} (h : t.hasBuiltin = false) : t.keepsBuiltins = true := by
  induction t with
  | leaf c => rfl
  | node op l r ihl ihr =>
      obtain ⟨hl, hr⟩ := Bool.or_eq_false_iff.mp h
      unfold keepsBuiltins
      rw [ihl hl, ihr hr, hl, hr]
      split <;> rfl

end Tree

-- =================================================================== lines

namespace Recorded

/-- How often the lines tell of a command that it was started, by its words. -/
def starts (lines : List String) (words : String) : Nat :=
  lines.count ("launch " ++ words) + lines.count ("exec " ++ words)

/-- Signals that the table has have names. -/
def Named (table : List (String × Ending)) : Prop :=
  ∀ e ∈ table, ∀ n, e.2 = .signaled n → (Signal.name? n).isSome

theorem told_of_named {table : List (String × Ending)} (h : Named table) (verb : String) :
    told ((table.lookup verb).getD (.exited 0)) = .ok ((table.lookup verb).getD (.exited 0)) := by
  cases hlookup : table.lookup verb with
  | none => rfl
  | some how =>
      obtain ⟨before, after, rfl, -⟩ := List.lookup_eq_some_iff.mp hlookup
      cases how with
      | exited code => rfl
      | signaled n =>
          have hname := h _ (List.mem_append_right _ List.mem_cons_self) n rfl
          rw [Option.getD_some, told, if_pos hname]

section

variable (lines lines' : List String) (words : String)

theorem starts_append : starts (lines ++ lines') words = starts lines words + starts lines' words := by
  unfold starts
  rw [List.count_append, List.count_append]
  omega

theorem starts_launch (c : Command) :
    starts ["launch " ++ spelled c] words = [spelled c].count words := by
  have apart : "launch " ++ spelled c ≠ "exec " ++ words := fun h => by
    simpa using congrArg String.toList h
  have same : "launch " ++ spelled c = "launch " ++ words ↔ spelled c = words :=
    ⟨fun h => String.toList_inj.mp (by simpa using congrArg String.toList h), fun h => by rw [h]⟩
  simp only [starts, List.count_singleton, beq_iff_eq, apart, same, if_false, Nat.add_zero]

theorem starts_exec (c : Command) :
    starts ["exec " ++ spelled c] words = [spelled c].count words := by
  have apart : "exec " ++ spelled c ≠ "launch " ++ words := fun h => by
    simpa using congrArg String.toList h
  have same : "exec " ++ spelled c = "exec " ++ words ↔ spelled c = words :=
    ⟨fun h => String.toList_inj.mp (by simpa using congrArg String.toList h), fun h => by rw [h]⟩
  simp only [starts, List.count_singleton, beq_iff_eq, apart, same, if_false, Nat.zero_add]

/-- Other lines do not begin with these words. -/
theorem starts_other {line : String} (h : ∀ c ∈ line.toList.head?, c ≠ 'l' ∧ c ≠ 'e') :
    starts [line] words = 0 := by
  have launched : line ≠ "launch " ++ words := by
    rintro rfl
    exact (h 'l' (by simp)).1 rfl
  have executed : line ≠ "exec " ++ words := by
    rintro rfl
    exact (h 'e' (by simp)).2 rfl
  simp only [starts, List.count_singleton, beq_iff_eq, launched, executed, if_false, Nat.add_zero]

theorem starts_wait (child : Child) : starts ["wait " ++ toString child] words = 0 :=
  starts_other words (by simp)

theorem starts_fork (op : Operator) : starts ["fork " ++ op.symbol] words = 0 :=
  starts_other words (by simp)

theorem starts_channel : starts ["channel"] words = 0 := starts_other words (by simp)

end

-- =================================================================== state

/-- Numbers of children that are not waited for have been given. -/
def State.Fresh (st : State) : Prop := ∀ x ∈ st.pending, x.1 ≤ st.children

/-- Nothing is left to wait for but what was, and the lines tell of commands
that were started. -/
structure Records (cs : List Command) (st st' : State) : Prop where
  endings : st'.endings = st.endings
  pending : st'.pending = st.pending
  children : st.children ≤ st'.children
  lines : ∀ words, starts st'.lines words = starts st.lines words + (cs.map spelled).count words

/-- One child is left to wait for in addition. -/
structure Registers (cs : List Command) (child : Child) (how : Ending) (st st' : State) : Prop where
  endings : st'.endings = st.endings
  pending : st'.pending = (child, how) :: st.pending
  above : st.children < child
  given : child ≤ st'.children
  lines : ∀ words, starts st'.lines words = starts st.lines words + (cs.map spelled).count words

section

variable {st st' st'' : State} {cs cs' : List Command} {child child' : Child} {how how' : Ending}

theorem Records.refl (st : State) : Records [] st st := ⟨rfl, rfl, Nat.le_refl _, fun _ => rfl⟩

theorem Records.trans (h : Records cs st st') (h' : Records cs' st' st'') :
    Records (cs ++ cs') st st'' where
  endings := h'.endings.trans h.endings
  pending := h'.pending.trans h.pending
  children := Nat.le_trans h.children h'.children
  lines words := by
    rw [h'.lines, h.lines, List.map_append, List.count_append, Nat.add_assoc]

theorem Records.fresh (h : Records cs st st') (hfresh : st.Fresh) : st'.Fresh := fun x hx =>
  Nat.le_trans (hfresh x (h.pending ▸ hx)) h.children

theorem Registers.fresh (h : Registers cs child how st st') (hfresh : st.Fresh) : st'.Fresh := by
  intro x hx
  rcases List.mem_cons.mp (h.pending ▸ hx) with rfl | hx
  · exact h.given
  · exact Nat.le_trans (hfresh x hx) (Nat.le_trans (Nat.le_of_lt h.above) h.given)

/-- One line more, which tells of no start. -/
theorem records_line (st : State) {line : String} (h : ∀ words, starts [line] words = 0) :
    Records [] st (st.record line) where
  endings := rfl
  pending := rfl
  children := Nat.le_refl _
  lines words := by
    show starts (st.lines ++ [line]) words = _
    rw [starts_append, h]
    rfl

/-- A child is given the next number. -/
theorem Records.register (h : Records cs st st') (how : Ending) :
    Registers cs (st'.register how).1 how st (st'.register how).2 where
  endings := h.endings
  pending := by
    show _ :: st'.pending = _
    rw [h.pending]
    rfl
  above := Nat.lt_succ_of_le h.children
  given := Nat.le_refl _
  lines := h.lines

/-- The numbers of pending children are not given to others. -/
theorem State.Fresh.filter (h : st.Fresh) (hlt : st.children < child) :
    st.pending.filter (·.1 ≠ child) = st.pending := by
  refine List.filter_eq_self.mpr fun x hx => decide_eq_true ?_
  exact Nat.ne_of_lt (Nat.lt_of_le_of_lt (h x hx) hlt)

/-- The one child is waited for, and how it ended is told. -/
theorem Registers.wait (h : Registers cs child how st st') (hfresh : st.Fresh) :
    (launcher.wait child st').1 = .ok how ∧ Records cs st (launcher.wait child st').2 := by
  refine ⟨?_, h.endings, ?_, ?_, fun words => ?_⟩
  · show Except.ok ((st'.pending.lookup child).getD (.exited 0)) = _
    rw [h.pending, List.lookup_cons_self, Option.getD_some]
  · show st'.pending.filter (·.1 ≠ child) = _
    rw [h.pending, List.filter_cons_of_neg (by simp), hfresh.filter h.above]
  · exact Nat.le_trans (Nat.le_of_lt h.above) h.given
  · show starts (st'.lines ++ ["wait " ++ toString child]) words = _
    rw [starts_append, starts_wait, h.lines, Nat.add_zero]

/-- Of two children the first is waited for, and the second is left. -/
theorem Registers.wait_first (h : Registers cs child how st st')
    (h' : Registers cs' child' how' st' st'') (hfresh : st.Fresh) :
    (launcher.wait child st'').1 = .ok how ∧
      Registers (cs ++ cs') child' how' st (launcher.wait child st'').2 := by
  have hlt : child < child' := Nat.lt_of_le_of_lt h.given h'.above
  have hpending : st''.pending = (child', how') :: (child, how) :: st.pending := by
    rw [h'.pending, h.pending]
  refine ⟨?_, h'.endings.trans h.endings, ?_, Nat.lt_trans h.above hlt, h'.given, fun words => ?_⟩
  · show Except.ok ((st''.pending.lookup child).getD (.exited 0)) = _
    rw [hpending, List.lookup_cons, beq_false_of_ne (Nat.ne_of_lt hlt)]
    simp only [List.lookup_cons_self, Option.getD_some]
  · show st''.pending.filter (·.1 ≠ child) = _
    rw [hpending, List.filter_cons_of_pos (by simpa using Nat.ne_of_gt hlt),
      List.filter_cons_of_neg (by simp), hfresh.filter h.above]
  · show starts (st''.lines ++ ["wait " ++ toString child]) words = _
    rw [starts_append, starts_wait, h'.lines, h.lines, List.map_append, List.count_append]
    omega

end

end Recorded

-- ================================================================= courses

namespace Tree

section

variable {root : Tree} {table : List (String × Ending)} {status : Position → Int}

/-- A branch ends in a way that a wait can tell of. -/
theorem told_ending (h : Recorded.Named table) (t : Tree) (q : Position)
    (r : Except ExecError Int) : told ((root.foreseen table status).ending t q r) =
      .ok ((root.foreseen table status).ending t q r) := by
  unfold Answers.ending
  split
  · show told (Option.elim _ _ _) = .ok (Option.elim _ _ _)
    cases (root.sub? q).bind external? with
    | none => rfl
    | some c => exact Recorded.told_of_named h c.verb
  · rfl

theorem both_ending (h : Recorded.Named table) (f : Ending → Ending → Int) (t t' : Tree)
    (q q' : Position) (r r' : Except ExecError Int) :
    both f ((root.foreseen table status).ending t q r)
        ((root.foreseen table status).ending t' q' r') =
      .ok (f ((root.foreseen table status).ending t q r)
        ((root.foreseen table status).ending t' q' r')) := by
  unfold both
  rw [told_ending h, told_ending h]
  rfl

/-- Where nothing fails, no tree comes to a failure. -/
theorem course_ne_error (h : Recorded.Named table) (t : Tree) (q : Position) (e : ExecError) :
    t.course (root.foreseen table status) q ≠ some (.error e) := by
  induction t generalizing q with
  | leaf c =>
      by_cases hx : (leaf c).external?.isSome = true
      · rw [course_external hx]
        have htold : told ((root.foreseen table status).ending (leaf c) q (.ok 0)) = .ok _ :=
          told_ending h (leaf c) q (.ok 0)
        rw [Answers.ending, if_pos hx] at htold
        rw [htold]
        exact fun h => by cases h
      · unfold course
        split
        · exact fun h => by cases h
        · next hverb =>
          cases hlookup : Builtin.lookup c with
          | none =>
              simp only [external?, hverb, hlookup] at hx
              exact absurd rfl hx
          | some b =>
              simp only
              split <;> exact fun h => by cases h
  | node op l r ihl ihr =>
      cases hseq : op.isSequel with
      | true =>
          rw [course_sequel hseq]
          split
          · exact ihr _
          · exact ihl _
      | false =>
          have hchannel : (root.foreseen table status).channel q = none := rfl
          cases op with
          | parallel | pipe =>
              simp only [course, hchannel, both_ending h]
              exact fun h => by cases h
          | sequential | andThen | orElse => cases hseq

/-- A tree without builtins comes to a status. -/
theorem course_of_free (h : Recorded.Named table) {t : Tree} (hfree : t.hasBuiltin = false)
    (q : Position) : ∃ n, t.course (root.foreseen table status) q = some (.ok n) := by
  have hsome : t.course (root.foreseen table status) q ≠ none := by
    induction t generalizing q with
    | leaf c =>
        unfold course
        split
        · exact fun h => by cases h
        · rw [Option.isNone_iff_eq_none.mp (Option.isSome_eq_false_iff.mp hfree)]
          exact fun h => by cases h
    | node op l r ihl ihr =>
        obtain ⟨hl, hr⟩ := Bool.or_eq_false_iff.mp hfree
        cases hseq : op.isSequel with
        | true =>
            rw [course_sequel hseq]
            split
            · exact ihr hr _
            · exact ihl hl _
        | false =>
            have hchannel : (root.foreseen table status).channel q = none := rfl
            cases op with
            | parallel | pipe =>
                simp only [course, hchannel]
                exact fun h => by cases h
            | sequential | andThen | orElse => cases hseq
  cases hcourse : t.course (root.foreseen table status) q with
  | none => exact absurd hcourse hsome
  | some r =>
      cases r with
      | error e => exact absurd hcourse (course_ne_error h t q e)
      | ok n => exact ⟨n, rfl⟩

end

end Tree

-- ============================================================= rehearsals

/-- How a rehearsal leaves off, by the course. -/
def Outcome.ofCourse : Option (Except ExecError Int) → Outcome
  | some r => .ofResult r
  | none => .left

/-- A builtin comes to its status, with its redirections in place; a channel
can be made. -/
def Exchange.Foreseen (status : Position → Int) (v : View) : Exchange → Prop
  | .builtin q _ c n => Builtin.Redirects c v ∧ n = status q
  | .channel _ r => r.isOk
  | _ => True

instance {status : Position → Int} {v : View} : DecidablePred (Exchange.Foreseen status v)
  | .builtin .. => inferInstanceAs (Decidable (_ ∧ _))
  | .channel .. => inferInstanceAs (Decidable (_ = true))
  | .launch .. | .fork .. | .release .. | .wait .. => inferInstanceAs (Decidable True)

namespace Recorded

/-- All that happens in a rehearsal is as foreseen. -/
def Foreseen (status : Position → Int) (ms : List (Moment State)) : Prop :=
  ∀ x ∈ ms, ∀ e ∈ x.event.exchange?, e.Foreseen status x.view

instance {status : Position → Int} {ms : List (Moment State)} : Decidable (Foreseen status ms) :=
  inferInstanceAs (Decidable (∀ x ∈ ms, _))

theorem Foreseen.of_subset {status : Position → Int} {ms ms' : List (Moment State)}
    (h : Foreseen status ms) (hsub : ms' ⊆ ms) : Foreseen status ms' :=
  fun x hx => h x (hsub hx)

section

variable {root : Tree} {table : List (String × Ending)} {status : Position → Int} {q : Position}
  {st : State} {v : View}

/-- The walk comes to what the course has for the tree. -/
def Takes (root : Tree) (table : List (String × Ending)) (status : Position → Int) (t : Tree)
    (q : Position) (w : Walk) : Prop :=
  ∀ st v, st.endings = table → st.Fresh → Foreseen status (w.trace launcher st v) →
    (w.rehearse launcher st v).1 = .ofCourse (t.course (root.foreseen table status) q) ∧
      Records (root.externals (t.reaches (root.foreseen table status) q)) st
        (w.rehearse launcher st v).2.1

theorem externals_self {t : Tree} (hsub : root.sub? q = some t) {c : Command}
    (hx : t.external? = some c) : root.externals [q] = [c] := by
  rw [Tree.externals, List.filterMap_cons_some (b := c) (by rw [hsub, Option.bind_some, hx]),
    List.filterMap_nil]

theorem externals_append (us us' : List Position) :
    root.externals (us ++ us') = root.externals us ++ root.externals us' :=
  List.filterMap_append

/-- How an external command ends. -/
theorem foreseen_program {t : Tree} (hsub : root.sub? q = some t) {c : Command}
    (hx : t.external? = some c) :
    (root.foreseen table status).program q = (table.lookup c.verb).getD (.exited 0) := by
  simp only [Tree.foreseen, hsub, Option.bind_some, hx, Option.elim_some]

/-- A wait is answered by the launcher. -/
theorem rehearse_wait {child : Child} {how : Ending} (h : (launcher.wait child st).1 = .ok how)
    (next : Except ExecError Ending → Walk) : (Walk.wait child next).rehearse launcher st v =
      (next (.ok how)).rehearse launcher (launcher.wait child st).2 v := by
  rw [← h]
  rfl

/-- A program is started and waited for. -/
theorem takes_program (h : Named table) {c : Command} (hsub : root.sub? q = some (.leaf c))
    (hx : (Tree.leaf c).external? = some c) :
    Takes root table status (.leaf c) q (Walk.runProgram q c) := by
  intro st v hst hfresh _
  have started : Registers [c] (st.children + 1) (st.ending c.verb) st
      ((st.record ("launch " ++ spelled c)).register (st.ending c.verb)).2 := by
    refine ⟨rfl, rfl, Nat.lt_succ_self _, Nat.le_refl _, fun words => ?_⟩
    show starts (st.lines ++ ["launch " ++ spelled c]) words = _
    rw [starts_append, starts_launch]
    rfl
  obtain ⟨htold, hrecords⟩ := started.wait hfresh
  have hending : st.ending c.verb = (root.foreseen table status).program q := by
    rw [foreseen_program hsub hx, State.ending, hst]
  have hcourse : (Tree.leaf c).course (root.foreseen table status) q =
      some (.ok (st.ending c.verb).status) := by
    rw [Tree.course_external (by rw [hx]; rfl), ← hending, State.ending, hst, told_of_named h]
    rfl
  rw [hcourse, Tree.reaches_external (by rw [hx]; rfl), externals_self hsub hx]
  have hlaunch (next : Except ExecError Child → Walk) :
      (Walk.launch q c next).rehearse launcher st v =
        (next (.ok (st.children + 1))).rehearse launcher
          ((st.record ("launch " ++ spelled c)).register (st.ending c.verb)).2 v := rfl
  rw [Walk.runProgram, hlaunch, rehearse_wait htold]
  exact ⟨rfl, hrecords⟩

/-- A builtin comes to its status, or ends the rehearsal. -/
theorem takes_builtin {b : Builtin} {c : Command} (hsub : root.sub? q = some (.leaf c))
    (hverb : c.verb.isEmpty = false) (hlookup : Builtin.lookup c = some b) (level : Level)
    (text : String) :
    Takes root table status (.leaf c) q (.log level text (.builtin q b c .done)) := by
  intro st v _ _ hforeseen
  have hcourse : (Tree.leaf c).course (root.foreseen table status) q =
      if c.isExit then none else some (.ok (status q)) := by
    simp only [Tree.course, hverb, hlookup, Tree.foreseen, hsub, Bool.false_eq_true, if_false]
  have hreaches : root.externals ((Tree.leaf c).reaches (root.foreseen table status) q) = [] := by
    simp only [Tree.reaches, Tree.external?, hlookup, Option.isNone_some, Bool.and_false,
      Bool.false_eq_true, if_false, Option.isSome_none]
    rfl
  have hexit : c.isExit = true ↔ b = .exit ∧ c.params = [] := by
    simp only [Command.isExit, hlookup, Bool.and_eq_true, beq_iff_eq, Option.some.injEq,
      List.isEmpty_iff]
  rw [hreaches, hcourse]
  have hleave := Builtin.run_leave (b := b) (c := c) (v := v.note level text)
  simp only [Walk.rehearse]
  simp only [Walk.trace] at hforeseen
  cases hrun : b.run c (v.note level text) with
  | mk ending v' =>
      rw [hrun] at hforeseen hleave
      cases ending with
      | status n =>
          obtain ⟨hredirects, rfl⟩ := hforeseen _ List.mem_cons_self _ rfl
          have hstays : c.isExit = false := by
            refine Bool.eq_false_iff.mpr fun h => ?_
            obtain ⟨hb, hparams⟩ := hexit.mp h
            cases hleave.mpr ⟨hb, hparams, hredirects⟩
          rw [hstays]
          exact ⟨rfl, .refl st⟩
      | leave =>
          obtain ⟨hb, hparams, -⟩ := hleave.mp rfl
          rw [hexit.mpr ⟨hb, hparams⟩]
          exact ⟨rfl, .refl st⟩

theorem takes_command (h : Named table) {c : Command} (hsub : root.sub? q = some (.leaf c))
    (depth : Nat) (parent : Option Operator) :
    Takes root table status (.leaf c) q (Walk.execute (.leaf c) depth parent q) := by
  intro st v hst hfresh hforeseen
  rw [Walk.execute] at hforeseen ⊢
  show ((Walk.ofCommand q c).rehearse launcher st _).1 = _ ∧ Records _ st
    ((Walk.ofCommand q c).rehearse launcher st _).2.1
  have hforeseen : Foreseen status ((Walk.ofCommand q c).trace launcher st _) := hforeseen
  revert hforeseen
  unfold Walk.ofCommand
  split
  · next hverb =>
    intro _
    have hreaches : (Tree.leaf c).reaches (root.foreseen table status) q = [] := by
      simp only [Tree.reaches, Tree.external?, hverb, Bool.not_true, Bool.false_and,
        Bool.false_eq_true, if_false, Option.isSome_none]
    have hcourse : (Tree.leaf c).course (root.foreseen table status) q = some (.ok 0) := by
      simp only [Tree.course, hverb, if_true]
    rw [hreaches, hcourse]
    exact ⟨rfl, .refl st⟩
  · next hverb =>
    have hverb := Bool.eq_false_iff.mpr hverb
    cases hlookup : Builtin.lookup c with
    | some b => exact takes_builtin hsub hverb hlookup _ _ st _ hst hfresh
    | none =>
        refine takes_program h hsub ?_ st _ hst hfresh
        simp only [Tree.external?, hverb, hlookup, Option.isNone_none, Bool.not_false, Bool.and_true,
          if_true]

/-- A channel is made. -/
theorem rehearse_channel {next : Except ExecError Channel → Walk}
    (hforeseen : Foreseen status ((Walk.channel q next).trace launcher st v)) :
    ∃ ch v', (Walk.channel q next).rehearse launcher st v =
        (next (.ok ch)).rehearse launcher (st.record "channel") v' ∧
      Foreseen status ((next (.ok ch)).trace launcher (st.record "channel") v') := by
  simp only [Walk.trace, launcher] at hforeseen
  simp only [Walk.rehearse, launcher]
  cases hpipe : Call.pipe.attempt v with
  | mk r v' =>
      simp only [hpipe] at hforeseen
      cases r with
      | error e =>
          cases hforeseen _ List.mem_cons_self _ rfl
      | ok ends =>
          exact ⟨⟨ends.1, ends.2⟩, v', rfl, hforeseen.of_subset (List.subset_cons_self _ _)⟩

/-- A branch is evaluated on the spot, or is one external command. Either way
it is a child that ends as foreseen. -/
theorem rehearse_branch (h : Named table) {t : Tree} (hsub : root.sub? q = some t)
    (hfree : t.hasBuiltin = false) {branch : Walk}
    (hbranch : Takes root table status t q branch) (hst : st.endings = table)
    (hfresh : st.Fresh) {depth : Nat} {op : Operator} {wiring : Wiring}
    {next : Except ExecError Child → Walk}
    (hforeseen : Foreseen status
      ((Walk.fork q t depth op wiring branch next).trace launcher st v)) :
    ∃ child st' v', Registers (root.externals (t.reaches (root.foreseen table status) q)) child
        ((root.foreseen table status).ending t q
          ((t.course (root.foreseen table status) q).getD (.ok 0))) st st' ∧
      (Walk.fork q t depth op wiring branch next).rehearse launcher st v =
        (next (.ok child)).rehearse launcher st' v' ∧
      Foreseen status ((next (.ok child)).trace launcher st' v') := by
  cases hx : t.external? with
  | some c =>
      have executed : Registers [c] (st.children + 1) (st.ending c.verb) st
          (((st.record ("fork " ++ op.symbol)).record ("exec " ++ spelled c)).register
            (st.ending c.verb)).2 := by
        refine ⟨rfl, rfl, Nat.lt_succ_self _, Nat.le_refl _, fun words => ?_⟩
        show starts ((st.lines ++ ["fork " ++ op.symbol]) ++ ["exec " ++ spelled c]) words = _
        rw [starts_append, starts_append, starts_fork, starts_exec]
        rfl
      rw [Tree.reaches_external (by rw [hx]; rfl), externals_self hsub hx, Answers.ending,
        if_pos (by rw [hx]; rfl), foreseen_program hsub hx, ← hst]
      simp only [Walk.trace, launcher, hx] at hforeseen
      refine ⟨_, _, v, executed, ?_, hforeseen.of_subset fun x hmem => ?_⟩
      · simp only [Walk.rehearse, launcher, hx]
        rfl
      · exact List.mem_cons_of_mem _ (List.mem_cons_of_mem _ hmem)
  | none =>
      have asked : Records [] st (st.record ("fork " ++ op.symbol)) :=
        records_line st fun words => starts_fork words op
      simp only [Walk.trace, launcher, hx] at hforeseen
      obtain ⟨houtcome, hrecords⟩ := hbranch (st.record ("fork " ++ op.symbol)) v hst
        (asked.fresh hfresh) (hforeseen.of_subset fun x hmem =>
          List.mem_cons_of_mem _ (List.mem_append_left _ hmem))
      obtain ⟨n, hcourse⟩ : ∃ n, t.course (root.foreseen table status) q = some (.ok n) :=
        Tree.course_of_free h hfree q
      rw [hcourse] at houtcome
      rw [hcourse, Answers.ending, if_neg (by rw [hx]; exact Bool.false_ne_true)]
      cases hrun : branch.rehearse launcher (st.record ("fork " ++ op.symbol)) v with
      | mk outcome rest =>
          obtain ⟨st₂, after⟩ := rest
          rw [hrun] at houtcome hrecords
          cases houtcome
          simp only [launcher] at hrun
          simp only [hrun] at hforeseen
          refine ⟨_, _, after, (asked.trans hrecords).register (.exited n), ?_,
            hforeseen.of_subset fun x hmem => ?_⟩
          · simp only [Walk.rehearse, launcher, hx, hrun]
          · exact List.mem_cons_of_mem _ (List.mem_append_right _ (List.mem_cons_of_mem _ hmem))

/-- Two children are waited for, and a status is made of how they ended. -/
theorem rehearse_waitBoth {cs cs' : List Command} {first second : Child} {how how' : Ending}
    {st₁ st₂ : State} (hfirst : Registers cs first how st st₁)
    (hsecond : Registers cs' second how' st₁ st₂) (hfresh : st.Fresh) (level : Level)
    (text : Ending → Ending → String) (f : Ending → Ending → Int) :
    let r := (Walk.waitBoth first second fun e₁ e₂ =>
      .log level (text e₁ e₂) (.done (f e₁ e₂))).rehearse launcher st₂ v
    r.1 = .finished (f how how') ∧ Records (cs ++ cs') st r.2.1 := by
  obtain ⟨htold, hleft⟩ := hfirst.wait_first hsecond hfresh
  obtain ⟨htold', hrecords⟩ := hleft.wait hfresh
  rw [Walk.waitBoth, rehearse_wait htold, rehearse_wait htold']
  exact ⟨rfl, hrecords⟩

variable {l r : Tree} {onLeft onRight : Walk}

theorem takes_parallel (h : Named table) (hsub : root.sub? q = some (.node .parallel l r))
    (hfree : l.hasBuiltin = false ∧ r.hasBuiltin = false)
    (hleft : Takes root table status l (q ++ [.left]) onLeft)
    (hright : Takes root table status r (q ++ [.right]) onRight) (depth : Nat) :
    Takes root table status (.node .parallel l r) q
      (Walk.runParallel q ⟨l, onLeft⟩ ⟨r, onRight⟩ depth) := by
  intro st v hst hfresh hforeseen
  have hreaches : (Tree.node .parallel l r).reaches (root.foreseen table status) q =
      l.reaches (root.foreseen table status) (q ++ [.left]) ++
        r.reaches (root.foreseen table status) (q ++ [.right]) := Tree.reaches_both rfl nofun
  unfold Walk.runParallel at hforeseen ⊢
  obtain ⟨first, st₁, v₁, hfirst, heq, hforeseen⟩ := rehearse_branch h
    (Tree.sub?_side hsub .left) hfree.1 hleft hst hfresh hforeseen
  rw [heq]
  obtain ⟨second, st₂, v₂, hsecond, heq, hforeseen⟩ := rehearse_branch h
    (Tree.sub?_side hsub .right) hfree.2 hright (hfirst.endings.trans hst) (hfirst.fresh hfresh)
    hforeseen
  rw [heq, hreaches, externals_append]
  obtain ⟨houtcome, hrecords⟩ := rehearse_waitBoth (v := v₂) hfirst hsecond hfresh .debug
    (fun l r => "parallel finished: " ++ l.describe ++ " & " ++ r.describe) Walk.parallelStatus
  refine ⟨houtcome.trans ?_, hrecords⟩
  simp only [Tree.course, Tree.both_ending h]
  rfl

theorem takes_pipe (h : Named table) (hsub : root.sub? q = some (.node .pipe l r))
    (hfree : l.hasBuiltin = false ∧ r.hasBuiltin = false)
    (hleft : Takes root table status l (q ++ [.left]) onLeft)
    (hright : Takes root table status r (q ++ [.right]) onRight) (depth : Nat) :
    Takes root table status (.node .pipe l r) q
      (Walk.runPipe q ⟨l, onLeft⟩ ⟨r, onRight⟩ depth) := by
  intro st v hst hfresh hforeseen
  have hreaches : (Tree.node .pipe l r).reaches (root.foreseen table status) q =
      l.reaches (root.foreseen table status) (q ++ [.left]) ++
        r.reaches (root.foreseen table status) (q ++ [.right]) := Tree.reaches_both rfl fun _ => rfl
  have hchannel : (root.foreseen table status).channel q = none := rfl
  have connected : Records [] st (st.record "channel") := records_line st starts_channel
  unfold Walk.runPipe at hforeseen ⊢
  obtain ⟨ch, v₀, heq, hforeseen⟩ := rehearse_channel hforeseen
  rw [heq]
  obtain ⟨writer, st₁, v₁, hfirst, heq, hforeseen⟩ := rehearse_branch h
    (Tree.sub?_side hsub .left) hfree.1 hleft (connected.endings.trans hst)
    (connected.fresh hfresh) hforeseen
  rw [heq]
  obtain ⟨reader, st₂, v₂, hsecond, heq, -⟩ := rehearse_branch h
    (Tree.sub?_side hsub .right) hfree.2 hright (hfirst.endings.trans hst)
    (hfirst.fresh (connected.fresh hfresh)) hforeseen
  have hrelease (next : Walk) : (Walk.release ch next).rehearse launcher st₂ v₂ =
      next.rehearse launcher st₂ (Redirection.closeAll [ch.read, ch.write] v₂) := rfl
  rw [heq, hrelease, hreaches, externals_append]
  obtain ⟨houtcome, hrecords⟩ := rehearse_waitBoth hfirst hsecond (connected.fresh hfresh) .debug
    (fun l r => "pipe finished: " ++ l.describe ++ " | " ++ r.describe) Walk.pipeStatus
  refine ⟨houtcome.trans ?_, connected.trans hrecords⟩
  simp only [Tree.course, hchannel, Tree.both_ending h]
  rfl

end

/-- A rehearsal that is as foreseen takes the course of the tree. -/
theorem rehearse_foreseen {root : Tree} {table : List (String × Ending)}
    (h : Named table) (status : Position → Int) (t : Tree) :
    ∀ (depth : Nat) (parent : Option Operator) (q : Position), root.sub? q = some t →
      t.keepsBuiltins = true → Takes root table status t q (Walk.execute t depth parent q) := by
  induction t with
  | leaf c => exact fun depth parent q hsub _ => takes_command h hsub depth parent
  | node op l r ihl ihr =>
      intro depth parent q hsub hkeeps
      have ihl := ihl (depth + 1) (some op) (q ++ [.left]) (Tree.sub?_side hsub .left)
      have ihr := ihr (depth + 1) (some op) (q ++ [.right]) (Tree.sub?_side hsub .right)
      unfold Tree.keepsBuiltins at hkeeps
      cases hseq : op.isSequel with
      | false =>
          rw [hseq, if_neg Bool.false_ne_true, Bool.and_eq_true, Bool.not_eq_true',
            Bool.not_eq_true'] at hkeeps
          have ihl := ihl (Tree.keepsBuiltins_of_free hkeeps.1)
          have ihr := ihr (Tree.keepsBuiltins_of_free hkeeps.2)
          intro st v
          cases op with
          | parallel => exact takes_parallel h hsub hkeeps ihl ihr (depth + 1) st _
          | pipe => exact takes_pipe h hsub hkeeps ihl ihr (depth + 1) st _
          | sequential | andThen | orElse => cases hseq
      | true =>
          rw [hseq, if_pos rfl, Bool.and_eq_true] at hkeeps
          intro st v hst hfresh hforeseen
          rw [Walk.execute_sequel hseq] at hforeseen ⊢
          simp only [Walk.trace, Walk.rehearse, Walk.trace_bind, Walk.rehearse_bind] at hforeseen ⊢
          obtain ⟨houtcome, hrecords⟩ := ihl hkeeps.1 st _ hst hfresh
            (hforeseen.of_subset (List.subset_append_left _ _))
          have hforeseen := hforeseen.of_subset (List.subset_append_right _ _)
          rw [Tree.course_sequel hseq]
          cases hrun : (Walk.execute l (depth + 1) (some op) (q ++ [.left])).rehearse launcher st
              (v.note .debug (Walk.heading (.node op l r) depth parent)) with
          | mk outcome rest =>
          obtain ⟨st₁, v₁⟩ := rest
          rw [hrun] at houtcome hrecords hforeseen
          simp only at houtcome hrecords hforeseen
          subst houtcome
          cases hgoes : op.goesOn (l.course (root.foreseen table status) (q ++ [.left])) with
          | false =>
              rw [Tree.reaches_only hseq hgoes]
              -- the left side's outcome is that of the whole
              cases hcourse : l.course (root.foreseen table status) (q ++ [.left]) with
              | none => exact ⟨rfl, hrecords⟩
              | some x =>
                  cases x with
                  | error e => exact ⟨rfl, hrecords⟩
                  | ok n =>
                      rw [hcourse] at hgoes
                      simp only [Outcome.ofCourse, Outcome.ofResult, Walk.resume, hgoes]
                      exact ⟨rfl, hrecords⟩
          | true =>
              rw [Tree.reaches_both hgoes (fun hop => by rw [hop] at hseq; cases hseq),
                externals_append]
              obtain ⟨n, hcourse⟩ := Operator.of_goesOn hseq hgoes
              rw [hcourse] at hgoes hforeseen ⊢
              simp only [Outcome.ofCourse, Outcome.ofResult, Walk.followed, hgoes, if_true]
                at hforeseen
              simp only [Outcome.ofCourse, Outcome.ofResult, Walk.resume, hgoes, if_true]
              obtain ⟨houtcome, hrecords'⟩ := ihr hkeeps.2 st₁ v₁ (hrecords.endings.trans hst)
                (hrecords.fresh hfresh) hforeseen
              exact ⟨houtcome, hrecords.trans hrecords'⟩

end Recorded

end LineShell
