/-
What a tree comes to where builtins may end processes.

# Courses

A builtin that ends its process cuts through the recursion over the tree:
nothing that would have come later in that process is done. How far that
goes depends on the operators above. `;`, `&&` and `||` go on in the same
process, so nothing comes of them either. `|` and `&` have started a process
of its own for the branch, and to them it is one that has exited with zero.
`Tree.course` says that by recursion on the tree: it has no result where
the process has left, and a branch without a result counts as one with
status zero. Where nobody leaves, it is the verdict.

# Walks

The walk of a tree comes to the result of the course, if all answers on the
way concur with it (`course_execute`). A walk that stops halfway comes to
nothing; what has to be known there, is known where the builtin is asked
for: that the course has no result either. The contract says so of each
exchange in advance (`coursing`), for a claim that the trees around may
choose.
-/
import LineShell.Proofs.Walk.Site
import LineShell.Proofs.Walk.Verdict

namespace LineShell

open Posix

-- ================================================================= courses

/-- What comes of the parts of a tree, where builtins may end processes. -/
structure Course extends Answers where
  /-- Does the builtin at a position end its process? -/
  leaves : Position → Bool

/-- Goes on with a status, if there is one. -/
def goOn (r : Option (Except ExecError Int)) (k : Int → Option (Except ExecError Int)) :
    Option (Except ExecError Int) :=
  match r with
  | some (.ok s) => k s
  | some (.error e) => some (.error e)
  | none => none

namespace Tree

/-- The result of the walk of a tree at a position; none where a builtin
ends the process that takes it. -/
def course (o : Course) : Tree → Position → Option (Except ExecError Int)
  | leaf c, q =>
      if c.verb.isEmpty then some (.ok 0)
      else
        match Builtin.lookup c with
        | some _ => if o.leaves q then none else some (.ok (o.builtin q))
        | none => some ((told (o.program q)).map Ending.status)
  | node op l r, q =>
      let onLeft := l.course o (q ++ [.left])
      let onRight := r.course o (q ++ [.right])
      let first := o.ending l (q ++ [.left]) (onLeft.getD (.ok 0))
      let second := o.ending r (q ++ [.right]) (onRight.getD (.ok 0))
      match op with
      | .sequential => goOn onLeft fun _ => onRight
      | .andThen => goOn onLeft fun s => if s = 0 then onRight else some (.ok s)
      | .orElse => goOn onLeft fun s => if s ≠ 0 then onRight else some (.ok 0)
      | .parallel => some (both Walk.parallelStatus first second)
      | .pipe =>
          match o.channel q with
          | some e => some (.error e)
          | none => some (both Walk.pipeStatus first second)

/-- Where nobody leaves, a tree comes to its verdict. -/
theorem course_eq_verdict {o : Course} (h : ∀ q, o.leaves q = false) (t : Tree) (q : Position) :
    t.course o q = some (t.verdict o.toAnswers q) := by
  induction t generalizing q with
  | leaf c =>
      unfold course verdict
      split
      · rfl
      · cases Builtin.lookup c with
        | some b => simp only [h, Bool.false_eq_true, if_false]
        | none => rfl
  | node op l r ihl ihr =>
      unfold course verdict
      simp only [ihl, ihr, Option.getD_some]
      cases op with
      | sequential => cases l.verdict o.toAnswers (q ++ [.left]) <;> rfl
      | andThen | orElse =>
          cases l.verdict o.toAnswers (q ++ [.left]) with
          | error e => rfl
          | ok s =>
              simp only [goOn, Except.bind]
              split <;> rfl
      | parallel => rfl
      | pipe => cases o.channel q <;> rfl

/-- The course of an external command is the status of its program. -/
theorem course_external {o : Course} {t : Tree} (h : t.external?.isSome) (q : Position) :
    t.course o q = some ((told (o.program q)).map Ending.status) := by
  obtain ⟨c, hc⟩ := Option.isSome_iff_exists.mp h
  obtain ⟨rfl, hverb, hlookup⟩ := external?_eq_some.mp hc
  simp only [course, hverb, hlookup, Bool.false_eq_true, if_false]

end Tree

/-- Is the right side of an operator taken up, given what comes of the left
one? -/
def Operator.goesOn : Operator → Option (Except ExecError Int) → Bool
  | .pipe, _ | .parallel, _ | .sequential, some (.ok _) => true
  | .andThen, some (.ok s) => s == 0
  | .orElse, some (.ok s) => s != 0
  | _, _ => false

/-- In the same process the right side is taken up only after a status. -/
theorem Operator.of_goesOn {op : Operator} (hseq : op.isSequel = true)
    {x : Option (Except ExecError Int)} (h : op.goesOn x = true) : ∃ n, x = some (.ok n) := by
  cases op with
  | parallel | pipe => cases hseq
  | sequential | andThen | orElse =>
      rcases x with _ | e | n
      · cases h
      · cases h
      · exact ⟨n, rfl⟩

namespace Tree

/-- The external commands that the walk of a tree at a position takes up, and
its branches do, from left to right. -/
def reaches (o : Course) : Tree → Position → List Position
  | leaf c, q => if (leaf c).external?.isSome then [q] else []
  | node op l r, q =>
      if op = .pipe ∧ (o.channel q).isSome then []
      else if op.goesOn (l.course o (q ++ [.left])) then
        l.reaches o (q ++ [.left]) ++ r.reaches o (q ++ [.right])
      else l.reaches o (q ++ [.left])

/-- One external command is all that there is to take up. -/
theorem reaches_external {o : Course} {t : Tree} (h : t.external?.isSome) (q : Position) :
    t.reaches o q = [q] := by
  cases t with
  | leaf c => exact if_pos h
  | node op l r => cases h

section

variable {o : Course} {l r : Tree} {q : Position} {op : Operator}

/-- In the same process there is the right side's course, or the left one's
without it. -/
theorem course_sequel (hseq : op.isSequel = true) : (node op l r).course o q =
    if op.goesOn (l.course o (q ++ [.left])) then r.course o (q ++ [.right])
    else l.course o (q ++ [.left]) := by
  simp only [course]
  generalize l.course o (q ++ [.left]) = x
  rcases x with _ | e | n
  · cases op <;> first | rfl | cases hseq
  · cases op <;> first | rfl | cases hseq
  · cases op with
    | sequential => rfl
    | andThen => simp only [goOn, Operator.goesOn, beq_iff_eq]
    | orElse =>
        by_cases hn : n = 0
        · simp only [goOn, Operator.goesOn, hn, bne_self_eq_false, Bool.false_eq_true, ne_eq,
            not_true_eq_false, if_false]
        · simp only [goOn, Operator.goesOn, hn, bne_iff_ne, ne_eq, not_false_eq_true, if_true]
    | parallel | pipe => cases hseq

/-- The right side is left out. -/
theorem reaches_only (hseq : op.isSequel = true)
    (h : op.goesOn (l.course o (q ++ [.left])) = false) :
    (node op l r).reaches o q = l.reaches o (q ++ [.left]) := by
  rw [reaches, if_neg, h, if_neg Bool.false_ne_true]
  rintro ⟨rfl, -⟩
  cases hseq

/-- The right side follows. -/
theorem reaches_both (h : op.goesOn (l.course o (q ++ [.left])) = true)
    (hchannel : op = .pipe → o.channel q = none) :
    (node op l r).reaches o q = l.reaches o (q ++ [.left]) ++ r.reaches o (q ++ [.right]) := by
  rw [reaches, if_neg, if_pos h]
  rintro ⟨hop, hsome⟩
  rw [hchannel hop] at hsome
  cases hsome

end

/-- What is taken up stands below the position. -/
theorem reaches_below {o : Course} {t : Tree} {q u : Position} (hu : u ∈ t.reaches o q) :
    q <+: u := by
  induction t generalizing q with
  | leaf c =>
      unfold reaches at hu
      split at hu
      · exact List.mem_singleton.mp hu ▸ List.prefix_rfl
      · cases hu
  | node op l r ihl ihr =>
      have onLeft (hu : u ∈ l.reaches o (q ++ [.left])) : q <+: u :=
        (List.prefix_append _ _).trans (ihl hu)
      unfold reaches at hu
      split at hu
      · cases hu
      split at hu
      · rcases List.mem_append.mp hu with hu | hu
        · exact onLeft hu
        · exact (List.prefix_append _ _).trans (ihr hu)
      · exact onLeft hu

/-- Nothing is taken up twice. -/
theorem reaches_nodup (o : Course) (t : Tree) (q : Position) : (t.reaches o q).Nodup := by
  induction t generalizing q with
  | leaf c =>
      unfold reaches
      split
      · exact List.nodup_singleton q
      · exact List.nodup_nil
  | node op l r ihl ihr =>
      unfold reaches
      split
      · exact List.nodup_nil
      split
      · refine List.nodup_append'.mpr ⟨ihl _, ihr _, fun u hl hr => ?_⟩
        exact not_both_sides (by decide) (reaches_below hl) (reaches_below hr)
      · exact ihl _

end Tree

/-- How a process ends, by what it was started for. A branch that a builtin
ends has exited with zero. -/
def Part.comesTo (o : Course) : Part → Ending
  | .program q => o.program q
  | .branch q t =>
      match o.killed q with
      | some n => .signaled n
      | none => .exited (exitCode ((t.course o q).getD (.ok 0)))

/-- The external commands that a process takes up, and its branches do, by what
it was started for. -/
def Part.reaches (o : Course) : Part → List Position
  | .program q => [q]
  | .branch q t => t.reaches o q

theorem Part.reaches_part (o : Course) (t : Tree) (q : Position) :
    (t.part q).reaches o = t.reaches o q := by
  unfold Tree.part
  split
  · next h => exact (Tree.reaches_external h q).symm
  · rfl

theorem Part.comesTo_part (o : Course) (t : Tree) (q : Position) :
    (t.part q).comesTo o = o.ending t q ((t.course o q).getD (.ok 0)) := by
  unfold Tree.part Answers.ending
  split <;> rfl

-- =============================================================== exchanges

/-- All of the positions are taken, if no branch is killed. -/
def Course.Full (o : Course) (taken : Position → Prop) (us : List Position) : Prop :=
  (∀ q, o.killed q = none) → ∀ u ∈ us, taken u

theorem Course.Full.append {o : Course} {taken : Position → Prop} {us vs : List Position}
    (h : o.Full taken us) (h' : o.Full taken vs) : o.Full taken (us ++ vs) :=
  fun hspared u hu => (List.mem_append.mp hu).elim (h hspared u) (h' hspared u)

theorem Course.Full.nil {o : Course} {taken : Position → Prop} : o.Full taken [] := fun _ => nofun

/-- The exchange is answered as the course has it, where it is known for
what each child was started. Who was waited for has taken up what it could. -/
def Exchange.Concurs (o : Course) (who : Child → Option Part) (taken : Position → Prop) :
    Exchange → Prop
  | .builtin q _ _ n => o.leaves q = false ∧ o.builtin q = n
  | .launch q _ r => ∃ child, r = .ok child ∧ who child = some (.program q)
  | .fork q t _ _ _ r => ∃ child, r = .ok child ∧ who child = some (t.part q)
  | .channel q r => o.channel q = (Exchange.channel q r).failure?
  | .release _ => True
  | .wait child r => ∀ part, who child = some part →
      r = told (part.comesTo o) ∧ o.Full taken (part.reaches o)

/-- The question is one for a builtin that ends its process. -/
def Exchange.Leaves (o : Course) : Exchange → Prop
  | .builtin q _ _ _ => o.leaves q = true
  | _ => False

/-- The external commands that are started by an exchange, or are taken up by the
branch that is. -/
def Exchange.reaches (o : Course) : Exchange → List Position
  | .launch q _ _ => [q]
  | .fork q t _ _ _ _ => t.reaches o q
  | _ => []

/-- Everything is allowed, the state says whether all concurred, and where all
did, the claim holds if a builtin is asked for that ends the process, and what
is started is within bounds. -/
def coursing (o : Course) (who : Child → Option Part) (taken : Position → Prop) (claim : Prop)
    (within : Position → Prop) : Contract Prop where
  allows s x s' := s' = (s ∧ x.Concurs o who taken) ∧ (x.Leaves o → s → claim) ∧
    (s → ∀ u ∈ x.reaches o, within u)

theorem coursing_leads {o : Course} {who : Child → Option Part} {taken within : Position → Prop}
    {claim s s' : Prop} {xs : List Exchange} (h : (coursing o who taken claim within).Leads s xs s')
    (hs : s) (hxs : ∀ x ∈ xs, x.Concurs o who taken) : s' := by
  induction h with
  | nil => exact hs
  | cons hx _ ih =>
      obtain ⟨hfirst, hrest⟩ := List.forall_mem_cons.mp hxs
      exact ih (hx.1 ▸ ⟨hs, hfirst⟩) hrest

/-- Where all concur, all that was started is within bounds. -/
theorem coursing_within {o : Course} {who : Child → Option Part} {taken within : Position → Prop}
    {claim s s' : Prop} {xs : List Exchange} (h : (coursing o who taken claim within).Leads s xs s')
    (hs : s) (hxs : ∀ x ∈ xs, x.Concurs o who taken) :
    ∀ x ∈ xs, ∀ u ∈ x.reaches o, within u := by
  induction h with
  | nil => nofun
  | cons hx _ ih =>
      obtain ⟨hfirst, hrest⟩ := List.forall_mem_cons.mp hxs
      exact List.forall_mem_cons.mpr ⟨hx.2.2 hs, ih (hx.1 ▸ ⟨hs, hfirst⟩) hrest⟩

namespace Walk

section

variable {o : Course} {who : Child → Option Part} {taken within : Position → Prop}
  {claim s : Prop} {q : Position} {l r : Tree}

/-- If all concurred, this is the result, and what could be taken up is. -/
def Runs (o : Course) (taken : Position → Prop) (s : Prop) (t : Tree) (q : Position) (s' : Prop)
    (r : Except ExecError Int) : Prop :=
  (s' → s) ∧ (s' → t.course o q = some r ∧ o.Full taken (t.reaches o q))

/-- The two children are waited for that were started for two parts. -/
theorem course_waitBoth {first second : Child} (part part' : Part)
    (hfirst : s → who first = some part) (hsecond : s → who second = some part')
    {level : Level} {text : Ending → Ending → String} {f : Ending → Ending → Int}
    {Q : Prop → Except ExecError Int → Prop}
    (hQ : ∀ s' r, (s' → s) → (s' → both f (part.comesTo o) (part'.comesTo o) = r ∧
      o.Full taken (part.reaches o ++ part'.reaches o)) → Q s' r) :
    (waitBoth first second fun e₁ e₂ => log level (text e₁ e₂) (done (f e₁ e₂))).Obeys
      (coursing o who taken claim within) s Q := by
  intro r₁
  refine ⟨_, ⟨rfl, nofun, fun _ => nofun⟩, fun r₂ => ⟨_, ⟨rfl, nofun, fun _ => nofun⟩, ?_⟩⟩
  have heard : (s ∧ Exchange.Concurs o who taken (.wait first r₁)) ∧
      Exchange.Concurs o who taken (.wait second r₂) →
      (r₁ = told (part.comesTo o) ∧ r₂ = told (part'.comesTo o)) ∧
        o.Full taken (part.reaches o ++ part'.reaches o) := by
    rintro ⟨⟨hs, h₁⟩, h₂⟩
    obtain ⟨hr₁, hfull₁⟩ := h₁ part (hfirst hs)
    obtain ⟨hr₂, hfull₂⟩ := h₂ part' (hsecond hs)
    exact ⟨⟨hr₁, hr₂⟩, hfull₁.append hfull₂⟩
  cases r₁ with
  | error e =>
      refine hQ _ _ (fun h => h.1.1) fun h => ⟨?_, (heard h).2⟩
      rw [both, ← (heard h).1.1]
      rfl
  | ok e₁ =>
      cases r₂ with
      | error e =>
          refine hQ _ _ (fun h => h.1.1) fun h => ⟨?_, (heard h).2⟩
          rw [both, ← (heard h).1.1, ← (heard h).1.2]
          rfl
      | ok e₂ =>
          refine hQ _ _ (fun h => h.1.1) fun h => ⟨?_, (heard h).2⟩
          rw [both, ← (heard h).1.1, ← (heard h).1.2]
          rfl

theorem course_ofCommand (c : Command)
    (hclaim : s → (Tree.leaf c).course o q = none →
      o.Full taken ((Tree.leaf c).reaches o q) → claim)
    (hwithin : s → ∀ u ∈ (Tree.leaf c).reaches o q, within u) :
    (ofCommand q c).Obeys (coursing o who taken claim within) s
      (Runs o taken s (.leaf c) q) := by
  unfold ofCommand
  by_cases hverb : c.verb.isEmpty = true
  · have hreaches : (Tree.leaf c).reaches o q = [] := by
      simp only [Tree.reaches, Tree.external?, hverb, Bool.not_true, Bool.false_and,
        Bool.false_eq_true, if_false, Option.isSome_none]
    rw [if_pos hverb]
    refine ⟨id, fun _ => ⟨?_, hreaches ▸ .nil⟩⟩
    simp only [Tree.course, hverb, if_true]
  rw [if_neg hverb]
  cases hlookup : Builtin.lookup c with
  | some b =>
      have hcourse : (Tree.leaf c).course o q =
          if o.leaves q then none else some (.ok (o.builtin q)) := by
        simp only [Tree.course, hverb, hlookup]
        rfl
      have hreaches : (Tree.leaf c).reaches o q = [] := by
        simp only [Tree.reaches, Tree.external?, hlookup, Option.isNone_some, Bool.and_false,
          Bool.false_eq_true, if_false, Option.isSome_none]
      intro n
      refine ⟨_, ⟨rfl, fun hleaves hs => hclaim hs ?_ (hreaches ▸ .nil),
        fun _ u hu => by cases hu⟩, fun h => h.1, fun h => ⟨?_, hreaches ▸ .nil⟩⟩
      · rw [hcourse]
        exact if_pos hleaves
      · obtain ⟨-, hstays, hn⟩ := h
        rw [hcourse, hstays, hn]
        rfl
  | none =>
      have hexternal : (Tree.leaf c).external? = some c := by
        simp only [Tree.external?, hverb, hlookup, Option.isNone_none, Bool.not_false, Bool.and_true,
          if_true]
      have hreaches : (Tree.leaf c).reaches o q = [q] :=
        Tree.reaches_external (by rw [hexternal]; rfl) q
      have hcourse : (Tree.leaf c).course o q = some ((told (o.program q)).map Ending.status) :=
        Tree.course_external (by rw [hexternal]; rfl) q
      rw [hreaches] at hwithin
      intro r
      refine ⟨_, ⟨rfl, (fun h => by cases h), hwithin⟩, ?_⟩
      cases r with
      | error e =>
          -- no start fails
          refine ⟨fun h => h.1, fun h => ?_⟩
          obtain ⟨child, hr, -⟩ := h.2
          cases hr
      | ok child =>
          intro r
          refine ⟨_, ⟨rfl, (fun h => by cases h), fun _ u hu => by cases hu⟩, ?_⟩
          have heard : (s ∧ Exchange.Concurs o who taken (.launch q c (.ok child))) ∧
              Exchange.Concurs o who taken (.wait child r) →
              r = told (o.program q) ∧ o.Full taken [q] := by
            rintro ⟨⟨-, child', hr, hwho⟩, hwait⟩
            cases hr
            exact hwait _ hwho
          unfold Runs
          rw [hcourse, hreaches]
          cases r with
          | error e =>
              refine ⟨fun h => h.1.1, fun h => ⟨?_, (heard h).2⟩⟩
              rw [← (heard h).1]
              rfl
          | ok e =>
              refine ⟨fun h => h.1.1, fun h => ⟨?_, (heard h).2⟩⟩
              rw [← (heard h).1]
              rfl

theorem course_parallel (onLeft onRight : Walk) (depth : Nat)
    (hwithin : s → ∀ u ∈ (Tree.node .parallel l r).reaches o q, within u) :
    (runParallel q ⟨l, onLeft⟩ ⟨r, onRight⟩ depth).Obeys (coursing o who taken claim within) s
      (Runs o taken s (.node .parallel l r) q) := by
  have hreaches : (Tree.node .parallel l r).reaches o q =
      l.reaches o (q ++ [.left]) ++ r.reaches o (q ++ [.right]) := Tree.reaches_both rfl nofun
  rw [hreaches] at hwithin
  intro r₁
  refine ⟨_, ⟨rfl, nofun, fun hs u hu => hwithin hs u (List.mem_append_left _ hu)⟩, ?_⟩
  cases r₁ with
  | error e =>
      refine ⟨fun h => h.1, fun h => ?_⟩
      obtain ⟨child, hr, -⟩ := h.2
      cases hr
  | ok first =>
      intro r₂
      refine ⟨_, ⟨rfl, nofun, fun hs u hu => hwithin hs.1 u (List.mem_append_right _ hu)⟩, ?_⟩
      cases r₂ with
      | error e =>
          refine fun r => ⟨_, ⟨rfl, nofun, fun _ => nofun⟩, fun h => h.1.1.1, fun h => ?_⟩
          obtain ⟨child, hr, -⟩ := h.1.2
          cases hr
      | ok second =>
          refine course_waitBoth (l.part (q ++ [.left])) (r.part (q ++ [.right]))
            (fun h => ?_) (fun h => ?_) fun s' x hs hx => ⟨fun h => (hs h).1.1, fun h => ?_⟩
          · obtain ⟨⟨-, child, hr, hwho⟩, -⟩ := h
            cases hr
            exact hwho
          · obtain ⟨-, child, hr, hwho⟩ := h
            cases hr
            exact hwho
          · obtain ⟨hresult, hfull⟩ := hx h
            rw [Part.reaches_part, Part.reaches_part, ← hreaches] at hfull
            rw [← hresult, Part.comesTo_part, Part.comesTo_part]
            exact ⟨rfl, hfull⟩

theorem course_pipe (onLeft onRight : Walk) (depth : Nat)
    (hwithin : s → ∀ u ∈ (Tree.node .pipe l r).reaches o q, within u) :
    (runPipe q ⟨l, onLeft⟩ ⟨r, onRight⟩ depth).Obeys (coursing o who taken claim within) s
      (Runs o taken s (.node .pipe l r) q) := by
  intro r₀
  refine ⟨_, ⟨rfl, nofun, fun _ => nofun⟩, ?_⟩
  cases r₀ with
  | error e =>
      refine ⟨fun h => h.1, fun h => ?_⟩
      have hchannel : o.channel q = some e := h.2
      refine ⟨by simp only [Tree.course, hchannel], ?_⟩
      simp only [Tree.reaches, hchannel, Option.isSome_some, and_self, if_true]
      exact .nil
  | ok ch =>
      have hreaches : o.channel q = none → (Tree.node .pipe l r).reaches o q =
          l.reaches o (q ++ [.left]) ++ r.reaches o (q ++ [.right]) :=
        fun hchannel => Tree.reaches_both rfl fun _ => hchannel
      intro r₁
      refine ⟨_, ⟨rfl, nofun, fun hs u hu => hwithin hs.1 u ?_⟩, ?_⟩
      · rw [hreaches hs.2]
        exact List.mem_append_left _ hu
      cases r₁ with
      | error e =>
          refine ⟨_, ⟨rfl, nofun, fun _ => nofun⟩, fun h => h.1.1.1, fun h => ?_⟩
          obtain ⟨child, hr, -⟩ := h.1.2
          cases hr
      | ok writer =>
          intro r₂
          refine ⟨_, ⟨rfl, nofun, fun hs u hu => hwithin hs.1.1 u ?_⟩, ?_⟩
          · rw [hreaches hs.1.2]
            exact List.mem_append_right _ hu
          cases r₂ with
          | error e =>
              refine ⟨_, ⟨rfl, nofun, fun _ => nofun⟩, fun r => ⟨_, ⟨rfl, nofun, fun _ => nofun⟩,
                fun h => h.1.1.1.1.1, fun h => ?_⟩⟩
              obtain ⟨child, hr, -⟩ := h.1.1.2
              cases hr
          | ok reader =>
              refine ⟨_, ⟨rfl, nofun, fun _ => nofun⟩, ?_⟩
              refine course_waitBoth (l.part (q ++ [.left])) (r.part (q ++ [.right]))
                (fun h => ?_) (fun h => ?_)
                fun s' x hs hx => ⟨fun h => (hs h).1.1.1.1, fun h => ?_⟩
              · obtain ⟨⟨⟨-, child, hr, hwho⟩, -⟩, -⟩ := h
                cases hr
                exact hwho
              · obtain ⟨⟨-, child, hr, hwho⟩, -⟩ := h
                cases hr
                exact hwho
              · have hchannel : o.channel q = none := (hs h).1.1.1.2
                obtain ⟨hresult, hfull⟩ := hx h
                rw [Part.reaches_part, Part.reaches_part, ← hreaches hchannel] at hfull
                refine ⟨?_, hfull⟩
                simp only [Tree.course, hchannel]
                rw [← hresult, Part.comesTo_part, Part.comesTo_part]

end

/-- In the same process the walk goes on to the right side or stays with the
left one's status. -/
theorem execute_sequel {op : Operator} (hseq : op.isSequel = true) (l r : Tree) (depth : Nat)
    (parent : Option Operator) (q : Position) :
    execute (.node op l r) depth parent q =
      log .debug (heading (.node op l r) depth parent)
        ((execute l (depth + 1) (some op) (q ++ [.left])).bind fun n =>
          if op.goesOn (some (.ok n)) then execute r (depth + 1) (some op) (q ++ [.right])
          else done n) := by
  rw [execute]
  congr 1
  cases op with
  | sequential => rfl
  | andThen => simp only [Operator.goesOn, beq_iff_eq]
  | orElse =>
      refine congrArg _ (funext fun n => ?_)
      by_cases hn : n = 0
      · simp only [Operator.goesOn, hn, bne_self_eq_false, Bool.false_eq_true, ne_eq,
          not_true_eq_false, if_false]
      · simp only [Operator.goesOn, hn, bne_iff_ne, ne_eq, not_false_eq_true, if_true]
  | parallel | pipe => cases hseq

/-- The walk of every tree comes to the result of the course, and where it
asks for a builtin that ends the process, the course has none. It starts what
the course takes up. -/
theorem course_execute (o : Course) (who : Child → Option Part) (taken within : Position → Prop)
    (t : Tree) :
    ∀ (depth : Nat) (parent : Option Operator) (q : Position) (s claim : Prop),
      (s → ∀ u ∈ t.reaches o q, within u) →
      (s → t.course o q = none → o.Full taken (t.reaches o q) → claim) →
      (execute t depth parent q).Obeys (coursing o who taken claim within) s
        (Runs o taken s t q) := by
  induction t with
  | leaf c => exact fun depth parent q s claim hwithin hclaim => course_ofCommand c hclaim hwithin
  | node op l r ihl ihr =>
      intro depth parent q s claim hwithin hclaim
      cases hseq : op.isSequel with
      | false =>
          cases op with
          | parallel => exact course_parallel _ _ (depth + 1) hwithin
          | pipe => exact course_pipe _ _ (depth + 1) hwithin
          | sequential | andThen | orElse => cases hseq
      | true =>
          have hcourse := Tree.course_sequel (o := o) (l := l) (r := r) (q := q) hseq
          have stops (hl : ∀ n, l.course o (q ++ [.left]) ≠ some (.ok n)) :
              op.goesOn (l.course o (q ++ [.left])) = false :=
            Bool.eq_false_iff.mpr fun hgoes => (Operator.of_goesOn hseq hgoes).elim hl
          -- the left side has no result or failed, or its status has the right side left out
          have only (hgoes : op.goesOn (l.course o (q ++ [.left])) = false) :
              (Tree.node op l r).course o q = l.course o (q ++ [.left]) ∧
                (Tree.node op l r).reaches o q = l.reaches o (q ++ [.left]) := by
            rw [hcourse, hgoes]
            exact ⟨rfl, Tree.reaches_only hseq hgoes⟩
          -- the right side follows
          have follows (hgoes : op.goesOn (l.course o (q ++ [.left])) = true) :
              (Tree.node op l r).course o q = r.course o (q ++ [.right]) ∧
                (Tree.node op l r).reaches o q =
                  l.reaches o (q ++ [.left]) ++ r.reaches o (q ++ [.right]) := by
            rw [hcourse, hgoes]
            exact ⟨rfl, Tree.reaches_both hgoes fun hop => by rw [hop] at hseq; cases hseq⟩
          rw [execute_sequel hseq]
          refine obeys_bind ((ihl (depth + 1) (some op) (q ++ [.left]) s claim
            (fun hs u hu => hwithin hs u ?_) fun hs hnone hfull => ?_).mono fun s' x hx => ?_)
          · cases hgoes : op.goesOn (l.course o (q ++ [.left])) with
            | false => exact (only hgoes).2 ▸ hu
            | true => exact (follows hgoes).2 ▸ List.mem_append_left _ hu
          · obtain ⟨hnode, hreaches⟩ := only (stops (by rw [hnone]; nofun))
            exact hclaim hs (hnode.trans hnone) (hreaches ▸ hfull)
          cases x with
          | error e =>
              refine ⟨hx.1, fun h => ?_⟩
              obtain ⟨hl, hfull⟩ := hx.2 h
              obtain ⟨hnode, hreaches⟩ := only (stops (by rw [hl]; nofun))
              exact ⟨hnode.trans hl, hreaches ▸ hfull⟩
          | ok n =>
              cases hgoes : op.goesOn (some (.ok n)) with
              | false =>
                  simp only [hgoes, Bool.false_eq_true, if_false]
                  refine ⟨hx.1, fun h => ?_⟩
                  obtain ⟨hl, hfull⟩ := hx.2 h
                  obtain ⟨hnode, hreaches⟩ := only (hl ▸ hgoes)
                  exact ⟨hnode.trans hl, hreaches ▸ hfull⟩
              | true =>
                  simp only [hgoes, if_true]
                  refine (ihr (depth + 1) (some op) (q ++ [.right]) s' claim (fun h u hu => ?_)
                    fun h hnone hfull => ?_).mono fun s'' y hy => ?_
                  · obtain ⟨-, hreaches⟩ := follows ((hx.2 h).1 ▸ hgoes)
                    exact hwithin (hx.1 h) u (hreaches ▸ List.mem_append_right _ hu)
                  · obtain ⟨hnode, hreaches⟩ := follows ((hx.2 h).1 ▸ hgoes)
                    exact hclaim (hx.1 h) (hnode.trans hnone) (hreaches ▸ (hx.2 h).2.append hfull)
                  · refine ⟨fun h => hx.1 (hy.1 h), fun h => ?_⟩
                    obtain ⟨hl, hleft⟩ := hx.2 (hy.1 h)
                    obtain ⟨hr, hright⟩ := hy.2 h
                    obtain ⟨hnode, hreaches⟩ := follows (hl ▸ hgoes)
                    exact ⟨hnode.trans hr, hreaches ▸ hleft.append hright⟩

end Walk

end LineShell
