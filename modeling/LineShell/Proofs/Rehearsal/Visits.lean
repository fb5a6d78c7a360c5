/-
Which parts of a tree a rehearsal takes up.

# Visits

A rehearsal takes a subtree up when it comes to walk it, in the process
itself or in a branch; a branch that is one external command is taken up
when that is executed. `Tree.visits` lists the subtrees that are taken up,
in order, each with the state and the view that the rehearsal has got to:
the left operand is taken up with its node, the right one if the operator
goes on after the left, or once the left branch has been started. An empty
leaf is taken up like any other, although it asks for nothing.

# What is asked for

In a rehearsal that finishes, what is asked for is what the visits ask for
(`Tree.asks`): branches where they are forked, builtins and
programs at leaves, channels at pipes. So nothing is started for a subtree
that is left out.

# Which are taken up

`&&` and `||` alone leave anything out, and only their right operands
(`Tree.Covered`). A subtree is taken up if each `&&` that has it on its right
found its left operand come to zero, and each `||` to another status.
-/
import LineShell.Proofs.Rehearsal.Finished
import LineShell.Proofs.Walk.Site

namespace LineShell

open Posix

variable {σ : Type}

-- ================================================================== visits

/-- A subtree that is taken up, with all that the rehearsal has for it. -/
structure Visit (σ : Type) where
  site : Position
  tree : Tree
  depth : Nat
  parent : Option Operator
  /-- Was a branch started for it? -/
  forked : Bool
  state : σ
  view : View

namespace Visit

/-- The walk of the subtree. -/
def walk (x : Visit σ) : Walk := Walk.execute x.tree x.depth x.parent x.site

/-- The walk of the subtree comes to a status. -/
def ComesTo (l : Launcher σ) (x : Visit σ) (n : Int) : Prop :=
  (x.walk.rehearse l x.state x.view).1 = .finished n

/-- The subtree is an external command that a branch executes, or its walk comes
to a status. -/
def Comes (l : Launcher σ) (x : Visit σ) : Prop :=
  (x.forked = true ∧ x.tree.external?.isSome = true) ∨ ∃ n, x.ComesTo l n

end Visit

/-- What is listed for two branches, the second started after the first. -/
def Launcher.inBranches {α : Type} (l : Launcher σ) (first second : ForkRequest) (onFirst : Walk)
    (toFirst toSecond : σ → View → List α) (st : σ) (v : View) : List α :=
  (l.entered first st).elim [] fun st =>
    toFirst st v ++ (l.returned first.tree onFirst st v).elim [] fun (_, st, v) =>
      (l.entered second st).elim [] fun st => toSecond st v

namespace Tree

/-- The subtrees that the rehearsal of a tree takes up, itself included. -/
def visits (l : Launcher σ) : Tree → Nat → Option Operator → Bool → Position → σ → View →
    List (Visit σ)
  | t@(leaf _), depth, parent, forked, q, st, v => [⟨q, t, depth, parent, forked, st, v⟩]
  | t@(node op left right), depth, parent, forked, q, st, v =>
      let inner := depth + 1
      let onLeft := Walk.execute left inner (some op) (q ++ [.left])
      let toLeft := fun forked => left.visits l inner (some op) forked (q ++ [.left])
      let toRight := fun forked => right.visits l inner (some op) forked (q ++ [.right])
      let begun := v.note .debug (Walk.heading t depth parent)
      ⟨q, t, depth, parent, forked, st, v⟩ ::
        match op with
        | .sequential | .andThen | .orElse =>
            toLeft false st begun ++
              match onLeft.rehearse l st begun with
              | (.finished n, st, v) =>
                  if op.goesOn (some (.ok n)) then toRight false st v else []
              | (.failed _, _, _) | (.left, _, _) => []
        | .parallel =>
            l.inBranches ⟨left, inner, .parallel, .inherit⟩ ⟨right, inner, .parallel, .inherit⟩
              onLeft (toLeft true) (toRight true) st begun
        | .pipe =>
            (l.made st begun).elim [] fun (ch, st, v) =>
              l.inBranches ⟨left, inner, .pipe, .writer ch⟩ ⟨right, inner, .pipe, .reader ch⟩
                onLeft (toLeft true) (toRight true) st v

/-- The sites of the leaves of a tree that stands at a position, from left to
right. -/
def leafSites : Tree → Position → List Position
  | leaf _, q => [q]
  | node _ l r, q => l.leafSites (q ++ [.left]) ++ r.leafSites (q ++ [.right])

/-- Is the tree a single command? -/
def isLeaf : Tree → Bool
  | leaf _ => true
  | node .. => false

end Tree

-- =============================================================== questions

/-- What can be asked for at a site. -/
inductive Question where
  | builtin (b : Builtin) (c : Command)
  | program (c : Command)
  | branch (t : Tree)
  | channel
  deriving DecidableEq, Repr

/-- What an event says was asked for: a branch as it is asked for, everything
else as it is answered. -/
def Event.question? : Event → Option (Position × Question)
  | .asked q request => some (q, .branch request.tree)
  | .answered (.builtin q b c _) => some (q, .builtin b c)
  | .answered (.launch q c _) => some (q, .program c)
  | .answered (.channel q _) => some (q, .channel)
  | .answered (.fork ..) | .answered (.release _) | .answered (.wait ..) => none

namespace Walk

/-- What is asked for in a rehearsal, branches included. -/
def questions (l : Launcher σ) (w : Walk) (st : σ) (v : View) : List (Position × Question) :=
  (w.events l st v).filterMap Event.question?

end Walk

namespace Visit

/-- What the process asks for that takes a subtree up itself. -/
def own (x : Visit σ) : List (Position × Question) :=
  match x.tree with
  | .leaf c =>
      if c.verb.isEmpty then []
      else
        match Builtin.lookup c with
        | some b => [(x.site, .builtin b c)]
        | none => if x.forked then [] else [(x.site, .program c)]
  | .node .pipe _ _ => [(x.site, .channel)]
  | .node _ _ _ => []

/-- What is asked for when a subtree is taken up, what lies below it apart. -/
def questions (x : Visit σ) : List (Position × Question) :=
  if x.forked then (x.site, .branch x.tree) :: x.own else x.own

theorem site_of_questions (x : Visit σ) {u : Position × Question} (h : u ∈ x.questions) :
    u.1 = x.site := by
  have own {u : Position × Question} (h : u ∈ x.own) : u.1 = x.site := by
    unfold Visit.own at h
    split at h
    · split at h
      · cases h
      split at h
      · rw [List.mem_singleton.mp h]
      split at h
      · cases h
      · rw [List.mem_singleton.mp h]
    · rw [List.mem_singleton.mp h]
    · cases h
  unfold questions at h
  split at h
  · rcases List.mem_cons.mp h with rfl | h
    · rfl
    · exact own h
  · exact own h

end Visit

-- ========================================================= what is asked for

namespace Tree

variable {l : Launcher σ} {st st' : σ} {v v' : View} {n : Int} {q : Position}
  {left right : Tree} {depth : Nat} {parent : Option Operator} {forked : Bool} {op : Operator}

/-- A subtree is taken up before all that lies below it. -/
theorem visits_head (l : Launcher σ) (t : Tree) (depth : Nat) (parent : Option Operator)
    (q : Position) (st : σ) (v : View) : ∃ below, ∀ forked,
    t.visits l depth parent forked q st v = ⟨q, t, depth, parent, forked, st, v⟩ :: below := by
  cases t with
  | leaf c => exact ⟨[], fun _ => rfl⟩
  | node op left right => exact ⟨_, fun _ => rfl⟩

/-- The right side of a sequel is taken up where the left one came to, if the
operator goes on. -/
theorem visits_sequel (hseq : op.isSequel = true) {m : Int} {st₁ : σ} {v₁ : View}
    (h : (Walk.execute left (depth + 1) (some op) (q ++ [.left])).rehearse l st
      (v.note .debug (Walk.heading (.node op left right) depth parent)) = (.finished m, st₁, v₁)) :
    (node op left right).visits l depth parent forked q st v =
      ⟨q, node op left right, depth, parent, forked, st, v⟩ ::
        (left.visits l (depth + 1) (some op) false (q ++ [.left]) st
            (v.note .debug (Walk.heading (.node op left right) depth parent)) ++
          if op.goesOn (some (.ok m)) then
            right.visits l (depth + 1) (some op) false (q ++ [.right]) st₁ v₁
          else []) := by
  cases op with
  | parallel | pipe => cases hseq
  | sequential | andThen | orElse =>
      rw [visits]
      simp only [h]

end Tree

/-- Both branches are taken up where they were started. -/
theorem Walk.Started.visits {l : Launcher σ} {q : Position} {first second : ForkRequest}
    {onFirst onSecond : Walk} {st st' : σ} {v v' : View} {es : List Event} {child child' : Child}
    (h : Started l q first second onFirst onSecond st v es child child' st' v')
    {α : Type} (toFirst toSecond : σ → View → List α) :
    ∃ st₁ v₁ r st₃ v₃ r', l.returned first.tree onFirst st₁ v₁ = some r ∧
      l.returned second.tree onSecond st₃ v₃ = some r' ∧
      l.inBranches first second onFirst toFirst toSecond st v = toFirst st₁ v₁ ++ toSecond st₃ v₃ ∧
      es.filterMap Event.question? =
        (q ++ [.left], .branch first.tree) ::
          (branchEvents l first.tree onFirst st₁ v₁).filterMap Event.question? ++
        (q ++ [.right], .branch second.tree) ::
          (branchEvents l second.tree onSecond st₃ v₃).filterMap Event.question? := by
  obtain ⟨henter, hreturn, henter', hreturn'⟩ := h
  refine ⟨_, _, _, _, _, _, hreturn, hreturn', ?_, ?_⟩
  · simp only [Launcher.inBranches, henter, hreturn, henter', Option.elim_some]
  · simp [List.filterMap_cons, Event.question?, Event.answerTo]

namespace Tree

variable {l : Launcher σ} {st st' : σ} {v v' : View} {n : Int} {q : Position}
  {left right : Tree} {depth : Nat} {parent : Option Operator} {op : Operator}

/-- What is asked for in the process that takes a leaf up. -/
theorem questions_leaf {c : Command}
    (h : (Walk.execute (leaf c) depth parent q).rehearse l st v = (.finished n, st', v')) :
    (Walk.execute (leaf c) depth parent q).questions l st v =
      Visit.own ⟨q, leaf c, depth, parent, false, st, v⟩ := by
  unfold Walk.questions Walk.events Visit.own
  rw [Walk.execute] at h ⊢
  simp only [Walk.rehearse, Walk.trace] at h ⊢
  revert h
  generalize v.note .debug (Walk.heading (leaf c) depth parent) = v₀
  unfold Walk.ofCommand
  split
  · exact fun _ => rfl
  cases Builtin.lookup c with
  | some b =>
      simp only [Walk.rehearse, Walk.trace]
      rcases b.run c _ with ⟨k | _, v₁⟩
      · exact fun _ => rfl
      · exact fun h => by cases h
  | none =>
      simp only [Walk.runProgram, Walk.rehearse, Walk.trace]
      cases (l.launch c st).1 with
      | error e => exact fun h => by cases h
      | ok child =>
          intro h
          simp only [Walk.trace]
          generalize (l.wait child (l.launch c st).2).1 = r
          cases r <;> rfl

/-- Of an external command nothing is asked for but the branch; of any other
subtree the branch, and what would be asked for anyway. -/
theorem questions_forked (t : Tree) :
    (t.visits l depth parent true q st v).flatMap Visit.questions =
      (q, .branch t) ::
        if t.external?.isSome then []
        else (t.visits l depth parent false q st v).flatMap Visit.questions := by
  obtain ⟨below, hvisits⟩ := visits_head l t depth parent q st v
  rw [hvisits, hvisits, List.flatMap_cons, List.flatMap_cons]
  cases t with
  | node op left right =>
      rw [external?, Option.isSome_none, if_neg Bool.false_ne_true]
      cases op <;> rfl
  | leaf c =>
      obtain rfl : below = [] := (List.cons.inj (hvisits false)).2.symm
      simp only [Visit.questions, Visit.own, external?]
      by_cases hverb : c.verb.isEmpty = true
      · simp [hverb]
      · cases Builtin.lookup c <;> simp [hverb]

/-- In every rehearsal of the tree that finishes, what is asked for is what the
visits ask for. -/
def Asks (l : Launcher σ) (t : Tree) : Prop :=
  ∀ depth parent q st v n st' v',
    (Walk.execute t depth parent q).rehearse l st v = (.finished n, st', v') →
    (Walk.execute t depth parent q).questions l st v =
      (t.visits l depth parent false q st v).flatMap Visit.questions

/-- So it is for a branch that comes to a child. -/
theorem Asks.branch {t : Tree} (h : t.Asks l) {r : Child × σ × View}
    (hreturn : l.returned t (Walk.execute t depth (some op) q) st v = some r) :
    (q, .branch t) :: (Walk.branchEvents l t (Walk.execute t depth (some op) q) st v).filterMap
        Event.question?
      = (t.visits l depth (some op) true q st v).flatMap Visit.questions := by
  rw [questions_forked, Walk.branchEvents]
  split
  · rfl
  · next hx =>
    obtain ⟨k, st', v', hfinished⟩ := Launcher.finished_of_returned hx hreturn
    exact congrArg _ (h _ _ _ _ _ _ _ _ hfinished)

theorem asks_sequel (hseq : op.isSequel = true) (hleft : left.Asks l) (hright : right.Asks l) :
    (node op left right).Asks l := by
  intro depth parent q st v n st' v' h
  have own : Visit.questions ⟨q, node op left right, depth, parent, false, st, v⟩ = [] := by
    cases op with
    | parallel | pipe => cases hseq
    | sequential | andThen | orElse => rfl
  rw [Walk.questions]
  obtain ⟨m, st₁, v₁, hfirst, hnext⟩ := Walk.sequel_of_finished hseq h
  rw [visits_sequel hseq hfirst, List.flatMap_cons, own, List.nil_append]
  rcases hnext with ⟨hgoes, hsecond, hevents⟩ | ⟨hgoes, -, hevents⟩
  · rw [hgoes, if_pos rfl, hevents, List.filterMap_append, List.flatMap_append,
      ← hleft _ _ _ _ _ _ _ _ hfirst, ← hright _ _ _ _ _ _ _ _ hsecond]
    rfl
  · rw [hgoes, if_neg Bool.false_ne_true, hevents, List.append_nil,
      ← hleft _ _ _ _ _ _ _ _ hfirst]
    rfl

theorem asks_parallel (hleft : left.Asks l) (hright : right.Asks l) :
    (node .parallel left right).Asks l := by
  intro depth parent q st v n st' v' h
  obtain ⟨es, child, child', st₁, v₁, e, st₂, e', hstarted, -, -, -, hevents⟩ :=
    Walk.parallel_of_finished h
  obtain ⟨st₃, v₃, r, st₄, v₄, r', hreturn, hreturn', hvisits, hquestions⟩ := hstarted.visits
    (left.visits l (depth + 1) (some .parallel) true (q ++ [.left]))
    (right.visits l (depth + 1) (some .parallel) true (q ++ [.right]))
  rw [Walk.questions, hevents, List.filterMap_append, hquestions, hleft.branch hreturn,
    hright.branch hreturn', visits]
  simp only [hvisits]
  simp [List.filterMap_cons, Event.question?, Visit.questions, Visit.own]

theorem asks_pipe (hleft : left.Asks l) (hright : right.Asks l) :
    (node .pipe left right).Asks l := by
  intro depth parent q st v n st' v' h
  obtain ⟨ch, st₀, v₀, es, child, child', st₁, v₁, e, st₂, e', hmade, hstarted, -, -, -, hevents⟩ :=
    Walk.pipe_of_finished h
  obtain ⟨st₃, v₃, r, st₄, v₄, r', hreturn, hreturn', hvisits, hquestions⟩ := hstarted.visits
    (left.visits l (depth + 1) (some .pipe) true (q ++ [.left]))
    (right.visits l (depth + 1) (some .pipe) true (q ++ [.right]))
  rw [Walk.questions, hevents, List.cons_append, List.filterMap_cons_some (f := Event.question?) rfl,
    List.filterMap_append, hquestions, hleft.branch hreturn, hright.branch hreturn', visits]
  simp only [hmade, Option.elim_some, hvisits]
  simp [List.filterMap_cons, Event.question?, Visit.questions, Visit.own]

theorem asks (l : Launcher σ) (t : Tree) : t.Asks l := by
  induction t with
  | leaf c =>
      intro depth parent q st v n st' v' h
      rw [questions_leaf h]
      exact (List.append_nil _).symm
  | node op left right ihl ihr =>
      cases op with
      | sequential | andThen | orElse => exact asks_sequel rfl ihl ihr
      | parallel => exact asks_parallel ihl ihr
      | pipe => exact asks_pipe ihl ihr

end Tree

-- ======================================================== what is taken up

/-- The operator takes its right operand up, as the left one came out. -/
def Operator.Admits (l : Launcher σ) (xs : List (Visit σ)) (op : Operator) (onLeft : Position) :
    Prop :=
  (op = .andThen → ∃ x ∈ xs, x.site = onLeft ∧ x.ComesTo l 0) ∧
    (op = .orElse → ∃ x ∈ xs, x.site = onLeft ∧ ∃ n, n ≠ 0 ∧ x.ComesTo l n)

/-- It depends on what was taken up at the left operand alone. -/
theorem Operator.admits_congr {l : Launcher σ} {xs ys : List (Visit σ)} {op : Operator}
    {q : Position} (h : ∀ x, x.site = q → (x ∈ xs ↔ x ∈ ys)) :
    op.Admits l xs q ↔ op.Admits l ys q := by
  have same (P : Visit σ → Prop) :
      (∃ x ∈ xs, x.site = q ∧ P x) ↔ ∃ x ∈ ys, x.site = q ∧ P x :=
    exists_congr fun x => ⟨fun ⟨hx, hq, hP⟩ => ⟨(h x hq).mp hx, hq, hP⟩,
      fun ⟨hx, hq, hP⟩ => ⟨(h x hq).mpr hx, hq, hP⟩⟩
  unfold Admits
  rw [same, same]

/-- What there is for a side. -/
def Side.pick {α : Type} (s : Side) (onLeft onRight : α) : α :=
  match s with
  | .left => onLeft
  | .right => onRight

/-- A visit of a node, and the visits on its two sides. -/
structure Visit.Splits (q : Position) (x : Visit σ) (xs ys : List (Visit σ)) : Prop where
  here : x.site = q
  left : ∀ y ∈ xs, q ++ [.left] <+: y.site
  right : ∀ y ∈ ys, q ++ [.right] <+: y.site

namespace Visit.Splits

variable {q : Position} {x y : Visit σ} {xs ys : List (Visit σ)}

theorem not_here (h : Splits q x xs ys) (s : Side) : ¬q ++ [s] <+: x.site := fun hpre => by
  have := hpre.length_le
  rw [h.here, List.length_append, List.length_singleton] at this
  omega

/-- What is taken up on a side does not depend on the rest. -/
theorem mem_side (h : Splits q x xs ys) {s : Side} (hy : q ++ [s] <+: y.site) :
    y ∈ x :: (xs ++ ys) ↔ y ∈ (s.pick xs ys) := by
  rw [List.mem_cons, List.mem_append]
  constructor
  · rintro (rfl | hx | hx)
    · exact absurd hy (h.not_here s)
    · cases s with
      | left => exact hx
      | right => exact absurd hy (not_both_sides (by decide) (h.left y hx))
    · cases s with
      | left => exact absurd hy (not_both_sides (by decide) (h.right y hx))
      | right => exact hx
  · cases s with
    | left => exact fun hx => .inr (.inl hx)
    | right => exact fun hx => .inr (.inr hx)

theorem mem_sites (h : Splits q x xs ys) (s : Side) (r : Position) :
    q ++ s :: r ∈ (x :: (xs ++ ys)).map Visit.site ↔
      q ++ [s] ++ r ∈ (s.pick xs ys).map Visit.site := by
  rw [show q ++ s :: r = q ++ [s] ++ r by simp, List.mem_map, List.mem_map]
  exact exists_congr fun y => and_congr_left fun hy =>
    h.mem_side (hy ▸ List.prefix_append (q ++ [s]) r)

theorem admits (h : Splits q x xs ys) {l : Launcher σ} {op : Operator} (s : Side) (r : Position) :
    op.Admits l (x :: (xs ++ ys)) (q ++ s :: r ++ [.left]) ↔
      op.Admits l (s.pick xs ys) (q ++ [s] ++ r ++ [.left]) := by
  rw [show q ++ s :: r = q ++ [s] ++ r by simp]
  refine Operator.admits_congr fun y hy => h.mem_side (hy ▸ ?_)
  rw [List.append_assoc (q ++ [s])]
  exact List.prefix_append _ _

theorem admits_here (h : Splits q x xs ys) {l : Launcher σ} {op : Operator} :
    op.Admits l (x :: (xs ++ ys)) (q ++ [.left]) ↔ op.Admits l xs (q ++ [.left]) :=
  Operator.admits_congr fun _ hy => h.mem_side (s := .left) (hy ▸ List.prefix_rfl)

theorem nodup (h : Splits q x xs ys) (hleft : (xs.map Visit.site).Nodup)
    (hright : (ys.map Visit.site).Nodup) : ((x :: (xs ++ ys)).map Visit.site).Nodup := by
  rw [List.map_cons, List.map_append, List.nodup_cons]
  refine ⟨fun hmem => ?_, List.nodup_append'.mpr ⟨hleft, hright, fun u hl hr => ?_⟩⟩
  · rcases List.mem_append.mp hmem with hmem | hmem
    · obtain ⟨y, hy, hsame⟩ := List.mem_map.mp hmem
      exact h.not_here .left (hsame ▸ h.left y hy)
    · obtain ⟨y, hy, hsame⟩ := List.mem_map.mp hmem
      exact h.not_here .right (hsame ▸ h.right y hy)
  · obtain ⟨y, hy, rfl⟩ := List.mem_map.mp hl
    obtain ⟨z, hz, hsame⟩ := List.mem_map.mp hr
    exact not_both_sides (by decide) (h.left y hy) (hsame ▸ h.right z hz)

end Visit.Splits

namespace Tree

/-- Of a tree that stands at a position the subtrees are taken up that no `&&`
or `||` leaves out, each once, from left to right. -/
structure Covered (l : Launcher σ) (t : Tree) (q : Position) (xs : List (Visit σ)) : Prop where
  part : ∀ x ∈ xs, ∃ r, x.site = q ++ r ∧ t.sub? r = some x.tree
  comes : ∀ x ∈ xs, x.Comes l
  nodup : (xs.map Visit.site).Nodup
  leaves : ((xs.filter (·.tree.isLeaf)).map Visit.site).Sublist (t.leafSites q)
  mem_iff : ∀ r, q ++ r ∈ xs.map Visit.site ↔ (t.sub? r).isSome ∧
    ∀ r' op, t.op? r' = some op → r' ++ [.right] <+: r → op.Admits l xs (q ++ r' ++ [.left])

namespace Covered

variable {l : Launcher σ} {q : Position} {xs ys : List (Visit σ)} {x : Visit σ} {op : Operator}
  {left right : Tree}

theorem below {t : Tree} (h : t.Covered l q xs) (hx : x ∈ xs) : q <+: x.site := by
  obtain ⟨r, hr, -⟩ := h.part x hx
  exact ⟨r, hr.symm⟩

theorem leaf {c : Command} (hsite : x.site = q) (htree : x.tree = .leaf c) (hcomes : x.Comes l) :
    (Tree.leaf c).Covered l q [x] where
  part y hy := by
    obtain rfl := List.mem_singleton.mp hy
    exact ⟨[], by rw [hsite, List.append_nil], by rw [htree]; rfl⟩
  comes y hy := List.mem_singleton.mp hy ▸ hcomes
  nodup := List.nodup_singleton _
  leaves := by simp [htree, hsite, isLeaf, leafSites]
  mem_iff r := by
    cases r with
    | nil =>
        refine ⟨fun _ => ⟨rfl, fun r' op _ hpre => ?_⟩, fun _ => by simp [hsite]⟩
        exact absurd (List.prefix_nil.mp hpre) (by simp)
    | cons side r =>
        refine ⟨fun hmem => ?_, fun h => by cases h.1⟩
        simp [hsite] at hmem

/-- What is asked of the operators within a side of a node. -/
theorem admitted_side (h : Visit.Splits q x xs ys) {t : Tree} {s : Side} {r : Position}
    (hsub : ∀ r', (Tree.node op left right).op? (s :: r') = t.op? r') :
    (∀ r' op', t.op? r' = some op' → r' ++ [.right] <+: r →
        op'.Admits l (s.pick xs ys) (q ++ [s] ++ r' ++ [.left])) ↔
      ∀ r' op', r' ≠ [] → (Tree.node op left right).op? r' = some op' →
        r' ++ [.right] <+: s :: r → op'.Admits l (x :: (xs ++ ys)) (q ++ r' ++ [.left]) := by
  constructor
  · intro hin r' op' hne hop hpre
    match r' with
    | [] => exact absurd rfl hne
    | s' :: r' =>
        obtain ⟨hs, hrest⟩ := List.cons_prefix_cons.mp hpre
        subst hs
        exact (h.admits s' r').mpr (hin r' op' (hsub r' ▸ hop) hrest)
  · intro hin r' op' hop hpre
    exact (h.admits s r').mp (hin (s :: r') op' (List.cons_ne_nil _ _) ((hsub r').trans hop)
      (List.cons_prefix_cons.mpr ⟨rfl, hpre⟩))

/-- What is taken up of a node: itself first, then the left side, and the right
side if the operator takes it up. -/
theorem node (hsite : x.site = q) (htree : x.tree = .node op left right) (hcomes : x.Comes l)
    (hleft : left.Covered l (q ++ [.left]) xs)
    (hright : right.Covered l (q ++ [.right]) ys ∧ op.Admits l xs (q ++ [.left]) ∨
      ys = [] ∧ ¬op.Admits l xs (q ++ [.left])) :
    (Tree.node op left right).Covered l q (x :: (xs ++ ys)) := by
  have splits : Visit.Splits q x xs ys := by
    refine ⟨hsite, fun y => hleft.below, fun y hy => ?_⟩
    rcases hright with ⟨hright, -⟩ | ⟨rfl, -⟩
    · exact hright.below hy
    · cases hy
  constructor
  case part =>
    intro y hy
    rcases List.mem_cons.mp hy with rfl | hy
    · exact ⟨[], by rw [hsite, List.append_nil], by rw [htree]; rfl⟩
    rcases List.mem_append.mp hy with hy | hy
    · obtain ⟨r, hr, hsub⟩ := hleft.part y hy
      exact ⟨.left :: r, by rw [hr]; simp, hsub⟩
    · rcases hright with ⟨hright, -⟩ | ⟨rfl, -⟩
      · obtain ⟨r, hr, hsub⟩ := hright.part y hy
        exact ⟨.right :: r, by rw [hr]; simp, hsub⟩
      · cases hy
  case comes =>
    intro y hy
    rcases List.mem_cons.mp hy with rfl | hy
    · exact hcomes
    rcases List.mem_append.mp hy with hy | hy
    · exact hleft.comes y hy
    · rcases hright with ⟨hright, -⟩ | ⟨rfl, -⟩
      · exact hright.comes y hy
      · cases hy
  case nodup =>
    refine splits.nodup hleft.nodup ?_
    rcases hright with ⟨hright, -⟩ | ⟨rfl, -⟩
    · exact hright.nodup
    · exact List.nodup_nil
  case leaves =>
    rw [List.filter_cons_of_neg (by simp [htree, isLeaf]), List.filter_append, List.map_append]
    refine hleft.leaves.append ?_
    rcases hright with ⟨hright, -⟩ | ⟨rfl, -⟩
    · exact hright.leaves
    · exact List.nil_sublist _
  case mem_iff =>
    intro r
    match r with
    | [] =>
        refine ⟨fun _ => ⟨rfl, fun r' op' _ hpre => ?_⟩, fun _ => by simp [hsite]⟩
        exact absurd (List.prefix_nil.mp hpre) (by simp)
    | .left :: r =>
        refine (splits.mem_sites .left r).trans ((hleft.mem_iff r).trans ?_)
        refine and_congr_right fun _ => (admitted_side (s := .left) splits fun _ => rfl).trans ⟨fun h r' op' hop hpre => ?_, fun h r' op' _ => h r' op'⟩
        refine h r' op' (fun hnil => ?_) hop hpre
        rw [hnil] at hpre
        cases (List.cons_prefix_cons.mp hpre).1
    | .right :: r =>
        refine (splits.mem_sites .right r).trans ?_
        rcases hright with ⟨hright, hadmits⟩ | ⟨rfl, hskips⟩
        · refine (hright.mem_iff r).trans ?_
          refine and_congr_right fun _ => (admitted_side (s := .right) splits fun _ => rfl).trans
            ⟨fun h r' op' hop hpre => ?_, fun h r' op' _ => h r' op'⟩
          by_cases hnil : r' = []
          · subst hnil
            cases hop
            rw [List.append_nil]
            exact splits.admits_here.mpr hadmits
          · exact h r' op' hnil hop hpre
        · refine ⟨nofun, fun h => absurd (splits.admits_here.mp ?_) hskips⟩
          have first := h.2 [] op rfl (List.cons_prefix_cons.mpr ⟨rfl, List.nil_prefix⟩)
          rw [List.append_nil q] at first
          exact first

/-- The right operand of a sequel is taken up if it should be after the status
that the left one came to. -/
theorem admits_iff {t : Tree} {n : Int} (hseq : op.isSequel = true) (h : t.Covered l q xs) (hx : x ∈ xs)
    (hsite : x.site = q) (hcomes : x.ComesTo l n) :
    op.Admits l xs q ↔ op.goesOn (some (.ok n)) = true := by
  have only {k : Int} (hany : ∃ y ∈ xs, y.site = q ∧ y.ComesTo l k) : k = n := by
    obtain ⟨y, hy, hysite, hk⟩ := hany
    obtain rfl := List.inj_on_of_nodup_map h.nodup hy hx (hysite.trans hsite.symm)
    exact Outcome.finished.inj (hk.symm.trans hcomes)
  cases op with
  | parallel | pipe => cases hseq
  | sequential =>
      exact ⟨fun _ => rfl, fun _ => ⟨fun h => (by cases h), fun h => (by cases h)⟩⟩
  | andThen =>
      rw [Operator.goesOn, beq_iff_eq]
      refine ⟨fun hadmits => (only (hadmits.1 rfl)).symm,
        fun hn => ⟨fun _ => ⟨x, hx, hsite, hn ▸ hcomes⟩, fun h => (by cases h)⟩⟩
  | orElse =>
      rw [Operator.goesOn, bne_iff_ne]
      refine ⟨fun hadmits => ?_,
        fun hn => ⟨fun h => (by cases h), fun _ => ⟨x, hx, hsite, n, hn, hcomes⟩⟩⟩
      obtain ⟨y, hy, hysite, k, hk, hcomes'⟩ := hadmits.2 rfl
      exact only ⟨y, hy, hysite, hcomes'⟩ ▸ hk

end Covered

/-- In every rehearsal of the tree that finishes, the right subtrees are taken
up. -/
def Covers (l : Launcher σ) (t : Tree) : Prop :=
  ∀ depth parent forked q st v n st' v',
    (Walk.execute t depth parent q).rehearse l st v = (.finished n, st', v') →
    t.Covered l q (t.visits l depth parent forked q st v)

section

variable {l : Launcher σ} {q : Position} {op : Operator} {left right : Tree} {st : σ} {v : View}
  {depth : Nat}

/-- So it is for a branch that comes to a child. -/
theorem Covers.branch {t : Tree} (h : t.Covers l) {r : Child × σ × View}
    (hreturn : l.returned t (Walk.execute t depth (some op) q) st v = some r) :
    t.Covered l q (t.visits l depth (some op) true q st v) := by
  by_cases hx : t.external?.isSome = true
  · cases t with
    | leaf c => exact .leaf rfl rfl (.inl ⟨rfl, hx⟩)
    | node op left right => cases hx
  · obtain ⟨k, st', v', hfinished⟩ := Launcher.finished_of_returned hx hreturn
    exact h _ _ _ _ _ _ _ _ _ hfinished

theorem covers_sequel (hseq : op.isSequel = true) (hleft : left.Covers l) (hright : right.Covers l) :
    (node op left right).Covers l := by
  intro depth parent forked q st v n st' v' h
  obtain ⟨m, st₁, v₁, hfirst, hnext⟩ := Walk.sequel_of_finished hseq h
  have covered := hleft _ _ false _ _ _ _ _ _ hfirst
  rw [visits_sequel hseq hfirst]
  obtain ⟨below, hhead⟩ := visits_head l left (depth + 1) (some op) (q ++ [.left]) st
    (v.note .debug (Walk.heading (node op left right) depth parent))
  have comes : Visit.ComesTo l ⟨q ++ [.left], left, depth + 1, some op, false, st,
      v.note .debug (Walk.heading (node op left right) depth parent)⟩ m := congrArg Prod.fst hfirst
  have admits := covered.admits_iff hseq (hhead false ▸ List.mem_cons_self) rfl comes
  refine .node rfl rfl (.inr ⟨n, congrArg Prod.fst h⟩) covered ?_
  rcases hnext with ⟨hgoes, hsecond, -⟩ | ⟨hgoes, -⟩
  · rw [if_pos hgoes]
    exact .inl ⟨hright _ _ _ _ _ _ _ _ _ hsecond, admits.mpr hgoes⟩
  · rw [if_neg (Bool.eq_false_iff.mp hgoes)]
    exact .inr ⟨rfl, fun h => absurd (admits.mp h) (Bool.eq_false_iff.mp hgoes)⟩

theorem covers_parallel (hleft : left.Covers l) (hright : right.Covers l) :
    (node .parallel left right).Covers l := by
  intro depth parent forked q st v n st' v' h
  obtain ⟨es, child, child', st₁, v₁, e, st₂, e', hstarted, -⟩ := Walk.parallel_of_finished h
  obtain ⟨st₃, v₃, r, st₄, v₄, r', hreturn, hreturn', hvisits, -⟩ := hstarted.visits
    (left.visits l (depth + 1) (some .parallel) true (q ++ [.left]))
    (right.visits l (depth + 1) (some .parallel) true (q ++ [.right]))
  rw [visits]
  simp only [hvisits]
  exact .node rfl rfl (.inr ⟨n, congrArg Prod.fst h⟩) (hleft.branch hreturn)
    (.inl ⟨hright.branch hreturn', nofun, nofun⟩)

theorem covers_pipe (hleft : left.Covers l) (hright : right.Covers l) :
    (node .pipe left right).Covers l := by
  intro depth parent forked q st v n st' v' h
  obtain ⟨ch, st₀, v₀, es, child, child', st₁, v₁, e, st₂, e', hmade, hstarted, -⟩ :=
    Walk.pipe_of_finished h
  obtain ⟨st₃, v₃, r, st₄, v₄, r', hreturn, hreturn', hvisits, -⟩ := hstarted.visits
    (left.visits l (depth + 1) (some .pipe) true (q ++ [.left]))
    (right.visits l (depth + 1) (some .pipe) true (q ++ [.right]))
  rw [visits]
  simp only [hmade, Option.elim_some, hvisits]
  exact .node rfl rfl (.inr ⟨n, congrArg Prod.fst h⟩) (hleft.branch hreturn)
    (.inl ⟨hright.branch hreturn', nofun, nofun⟩)

end

theorem covers (l : Launcher σ) (t : Tree) : t.Covers l := by
  induction t with
  | leaf c =>
      exact fun _ _ _ _ _ _ n _ _ h => .leaf rfl rfl (.inr ⟨n, congrArg Prod.fst h⟩)
  | node op left right ihl ihr =>
      cases op with
      | sequential | andThen | orElse => exact covers_sequel rfl ihl ihr
      | parallel => exact covers_parallel ihl ihr
      | pipe => exact covers_pipe ihl ihr

/-- The leaves of a tree, by their sites. -/
theorem mem_leafSites {t : Tree} {q u : Position} :
    u ∈ t.leafSites q ↔ ∃ r c, u = q ++ r ∧ t.sub? r = some (.leaf c) := by
  induction t generalizing q with
  | leaf c =>
      rw [leafSites, List.mem_singleton]
      constructor
      · rintro rfl
        exact ⟨[], c, (List.append_nil _).symm, rfl⟩
      · rintro ⟨r, c', rfl, hsub⟩
        cases r with
        | nil => exact List.append_nil q
        | cons s r => cases hsub
  | node op left right ihl ihr =>
      rw [leafSites, List.mem_append, ihl, ihr]
      constructor
      · rintro (⟨r, c, rfl, hsub⟩ | ⟨r, c, rfl, hsub⟩)
        · exact ⟨.left :: r, c, by simp, hsub⟩
        · exact ⟨.right :: r, c, by simp, hsub⟩
      · rintro ⟨r, c, rfl, hsub⟩
        match r with
        | [] => cases hsub
        | .left :: r => exact .inl ⟨r, c, by simp, hsub⟩
        | .right :: r => exact .inr ⟨r, c, by simp, hsub⟩

end Tree

-- ========================================================= the main result

namespace Tree

/-- Where nothing fails and nobody leaves, the leaves that are taken up are
leaves of the tree from left to right, each at most once; and a leaf is taken
up if and only if each `&&` that has it on its right found its left operand
come to zero, and each `||` to another status. All that is taken up is executed
or comes to a status. What is asked for is what the visits ask for, and nothing
is asked for below a subtree that is left out. -/
theorem leaves_taken_up (l : Launcher σ) (t : Tree) (depth : Nat) (parent : Option Operator)
    (st : σ) (v : View)
    (hcalls : Event.firstFailure ((Walk.execute t depth parent).events l st v) = none)
    (hstays : ((Walk.execute t depth parent).rehearse l st v).1 ≠ .left) :
    let xs := t.visits l depth parent false [] st v
    let taken := (xs.filter (·.tree.isLeaf)).map Visit.site
    taken.Sublist (t.leafSites []) ∧ taken.Nodup ∧ (∀ x ∈ xs, x.Comes l) ∧
      (∀ q ∈ t.leafSites [], q ∈ taken ↔ ∀ r, r ++ [.right] <+: q →
        (t.op? r = some .andThen → ∃ x ∈ xs, x.site = r ++ [.left] ∧ x.ComesTo l 0) ∧
        (t.op? r = some .orElse →
          ∃ x ∈ xs, x.site = r ++ [.left] ∧ ∃ n, n ≠ 0 ∧ x.ComesTo l n)) ∧
      (Walk.execute t depth parent).questions l st v = xs.flatMap Visit.questions ∧
      ∀ q, (t.sub? q).isSome → (∀ x ∈ xs, x.site ≠ q) →
        ∀ u ∈ (Walk.execute t depth parent).questions l st v, ¬q <+: u.1 := by
  intro xs taken
  obtain ⟨n, st', v', hfinished⟩ := Walk.finished_of_calm hcalls hstays
  have covered : t.Covered l [] xs := covers l t _ _ _ _ _ _ _ _ _ hfinished
  have hquestions := asks l t _ _ _ _ _ _ _ _ hfinished
  refine ⟨covered.leaves, covered.nodup.sublist (List.filter_sublist.map _), covered.comes,
    fun q hq => ?_, hquestions, fun q hsub hskipped u hu hpre => ?_⟩
  · obtain ⟨r, c, hr, hsub⟩ := mem_leafSites.mp hq
    obtain rfl : q = r := hr
    have hleaf : q ∈ taken ↔ [] ++ q ∈ xs.map Visit.site := by
      rw [List.mem_map, List.mem_map]
      refine exists_congr fun x => and_congr_left fun hx => ?_
      rw [List.mem_filter]
      refine ⟨And.left, fun hmem => ⟨hmem, ?_⟩⟩
      obtain ⟨r', hr', htree⟩ := covered.part x hmem
      rw [← List.nil_append r', ← hr', hx, hsub] at htree
      rw [← Option.some.inj htree]
      rfl
    rw [hleaf, covered.mem_iff q, hsub, Option.isSome_some]
    constructor
    · rintro ⟨-, h⟩ r' hpre
      exact ⟨fun hop => (h r' _ hop hpre).1 rfl, fun hop => (h r' _ hop hpre).2 rfl⟩
    · intro h
      refine ⟨rfl, fun r' op hop hpre => ?_⟩
      exact ⟨fun hthen => (h r' hpre).1 (hthen ▸ hop), fun helse => (h r' hpre).2 (helse ▸ hop)⟩
  · rw [hquestions] at hu
    obtain ⟨x, hx, hmem⟩ := List.mem_flatMap.mp hu
    rw [x.site_of_questions hmem] at hpre
    -- what lets the subtree below be taken up lets this one be
    obtain ⟨-, hadmits⟩ := (covered.mem_iff x.site).mp (List.mem_map_of_mem hx)
    have hmem : [] ++ q ∈ xs.map Visit.site := (covered.mem_iff q).mpr
      ⟨hsub, fun r' op hop hpre' => hadmits r' op hop (hpre'.trans hpre)⟩
    obtain ⟨y, hy, hsite⟩ := List.mem_map.mp hmem
    exact hskipped y hy hsite

/-- `a && b & (c || d) | (e || f) ; :` in brackets, where `a` comes to 3 and `e`
is killed: `b` and `d` are left out, in the process and in a branch, and the
empty leaf is taken up. -/
theorem leaves_taken_up_nested :
    let program (verb : String) := leaf (.ofWords [verb])
    let t : Tree := node .sequential
      (node .parallel (node .andThen (program "a") (program "b"))
        (node .pipe (node .orElse (program "c") (program "d"))
          (node .orElse (program "e") (program "f"))))
      (leaf (.ofWords []))
    let st : Scripted.State :=
      { script := { endings := [("a", [.exited 3]), ("e", [.signaled 9])] } }
    let v : View := { process := {}, world := { tree := .empty } }
    let xs := t.visits Scripted.launcher 0 none false [] st v
    let taken := (xs.filter (·.tree.isLeaf)).map Visit.site
    taken = [[.left, .left, .left], [.left, .right, .left, .left], [.left, .right, .right, .left],
      [.left, .right, .right, .right], [.right]] ∧ taken.Sublist (t.leafSites []) ∧
      ∀ u ∈ (Walk.execute t 0 none).questions Scripted.launcher st v,
        ¬[.left, .left, .right] <+: u.1 := by
  intro program t st v xs taken
  obtain ⟨hsublist, -, -, -, -, hskipped⟩ := leaves_taken_up Scripted.launcher t 0 none st v
    (by decide +kernel) (by decide +kernel)
  exact ⟨by decide +kernel, hsublist, hskipped [.left, .left, .right] (by decide +kernel)
    (by decide +kernel)⟩

end Tree

end LineShell
