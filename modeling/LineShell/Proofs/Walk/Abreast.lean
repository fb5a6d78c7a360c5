/-
Two executions of one tree, abreast.

# Walks abreast

The depth and the parent that an execution is given reach its log lines, and
the depth reaches the branches that it asks for; an answer that depends on
neither can bring nothing else of them about. So two walks of one tree ask the
same questions in the same order, and go on abreast whatever is answered
(`Walk.Abreast`). The relation on depths is a parameter: a fork of the one walk
has its depth and a fork of the other its own, and what these have to do with
each other is said by the site, the subtree and the operator of the fork.

The branches of a fork are walks abreast in turn, so the relation speaks of
the depths at every level.

# Trees

A fork asks for a side of a node. The process that asks has come down from the
root to that node, with a depth that grew by one at each node above it. So the
depth of the fork is the one that the execution began with, one more, and one
for each node above the node (`Tree.ForksAt`, `Walk.abreast_execute`).
-/
import Mathlib.Data.List.Nodup
import LineShell.Proofs.Walk.Outline
import LineShell.Proofs.Walk.Site

namespace LineShell

-- ================================================================ ancestors

/-- The positions above a position, that of the root first. -/
def Position.above : Position → List Position
  | [] => []
  | side :: q => [] :: (Position.above q).map (side :: ·)

theorem Position.length_above (q : Position) : q.above.length = q.length := by
  induction q with
  | nil => rfl
  | cons side q ih => rw [above, List.length_cons, List.length_map, ih, List.length_cons]

/-- They are the positions on the way down, without the last. -/
theorem Position.mem_above {q u : Position} : u ∈ q.above ↔ u <+: q ∧ u ≠ q := by
  induction q generalizing u with
  | nil =>
      rw [above, List.prefix_nil]
      exact ⟨nofun, fun h => absurd h.1 h.2⟩
  | cons side q ih =>
      rw [above, List.mem_cons, List.mem_map]
      cases u with
      | nil => exact iff_of_true (.inl rfl) ⟨List.nil_prefix, nofun⟩
      | cons side' u =>
          rw [List.cons_prefix_cons]
          constructor
          · rintro (hnil | ⟨u', hu', heq⟩)
            · cases hnil
            · cases heq
              obtain ⟨hpre, hne⟩ := ih.mp hu'
              exact ⟨⟨rfl, hpre⟩, fun h => hne (List.cons.inj h).2⟩
          · rintro ⟨⟨rfl, hpre⟩, hne⟩
            refine .inr ⟨u, ih.mpr ⟨hpre, fun h => ?_⟩, rfl⟩
            exact hne (congrArg (side' :: ·) h)

/-- Each of them is counted once. -/
theorem Position.nodup_above (q : Position) : q.above.Nodup := by
  induction q with
  | nil => exact List.nodup_nil
  | cons side q ih =>
      rw [above, List.nodup_cons]
      refine ⟨fun hmem => ?_, ih.map List.cons_injective⟩
      obtain ⟨u, -, hu⟩ := List.mem_map.mp hmem
      cases hu

/-- How deep two executions of a tree ask for a branch, that begin at two
depths: the branch is a side of a node, and as deep as there are nodes above
that node, and one more. -/
def Tree.ForksAt (root : Tree) (d₁ d₂ : Nat) (q : Position) (t : Tree) (p : Operator)
    (n₁ n₂ : Nat) : Prop :=
  ∃ (r : Position) (side : Side), q = r ++ [side] ∧ root.sub? q = some t ∧ root.op? r = some p ∧
    n₁ = d₁ + 1 + r.above.length ∧ n₂ = d₂ + 1 + r.above.length

/-- The two depths differ as the first ones do. -/
theorem Tree.ForksAt.differ {root t : Tree} {d₁ d₂ n₁ n₂ : Nat} {q : Position} {p : Operator}
    (h : root.ForksAt d₁ d₂ q t p n₁ n₂) : n₁ + d₂ = n₂ + d₁ := by
  obtain ⟨r, side, -, -, -, rfl, rfl⟩ := h
  omega

-- ============================================================ walks abreast

namespace Walk

variable {F : Position → Tree → Operator → Nat → Nat → Prop}

/-- The two walks ask the same, and go on abreast whatever is answered. Only
the texts of log lines may differ, and the depths of forks, in a way that is
given. -/
inductive Abreast (F : Position → Tree → Operator → Nat → Nat → Prop) : Walk → Walk → Prop where
  | done (n : Int) : Abreast F (done n) (done n)
  | failed (e : ExecError) : Abreast F (failed e) (failed e)
  | log (level : Level) (text text' : String) {next next' : Walk} (h : Abreast F next next') :
      Abreast F (log level text next) (log level text' next')
  | builtin (q : Position) (b : Builtin) (c : Command) {next next' : Int → Walk}
      (h : ∀ n, Abreast F (next n) (next' n)) : Abreast F (builtin q b c next) (builtin q b c next')
  | launch (q : Position) (c : Command) {next next' : Except ExecError Child → Walk}
      (h : ∀ r, Abreast F (next r) (next' r)) : Abreast F (launch q c next) (launch q c next')
  | fork {q : Position} {t : Tree} {n₁ n₂ : Nat} {p : Operator} (w : Wiring)
      {branch branch' : Walk} {next next' : Except ExecError Child → Walk}
      (hdepth : F q t p n₁ n₂) (hbranch : Abreast F branch branch')
      (h : ∀ r, Abreast F (next r) (next' r)) :
      Abreast F (fork q t n₁ p w branch next) (fork q t n₂ p w branch' next')
  | channel (q : Position) {next next' : Except ExecError Channel → Walk}
      (h : ∀ r, Abreast F (next r) (next' r)) : Abreast F (channel q next) (channel q next')
  | release (ch : Channel) {next next' : Walk} (h : Abreast F next next') :
      Abreast F (release ch next) (release ch next')
  | wait (child : Child) {next next' : Except ExecError Ending → Walk}
      (h : ∀ r, Abreast F (next r) (next' r)) : Abreast F (wait child next) (wait child next')

theorem Abreast.bind {w w' : Walk} {k k' : Int → Walk} (h : Abreast F w w')
    (hk : ∀ n, Abreast F (k n) (k' n)) : Abreast F (w.bind k) (w'.bind k') := by
  induction h with
  | done n => exact hk n
  | failed e => exact .failed e
  | log level text text' _ ih => exact .log level text text' ih
  | builtin q b c _ ih => exact .builtin q b c ih
  | launch q c _ ih => exact .launch q c ih
  | fork wiring hdepth hbranch _ _ ih => exact .fork wiring hdepth hbranch ih
  | channel q _ ih => exact .channel q ih
  | release ch _ ih => exact .release ch ih
  | wait child _ ih => exact .wait child ih

theorem abreast_ofCommand (q : Position) (c : Command) :
    Abreast F (ofCommand q c) (ofCommand q c) := by
  unfold ofCommand
  split
  · exact .done 0
  split
  · exact .log _ _ _ (.builtin q _ c fun n => .done n)
  · refine .launch q c fun r => ?_
    cases r with
    | error e => exact .failed e
    | ok child =>
        refine .wait child fun r => ?_
        cases r with
        | error e => exact .failed e
        | ok ending => exact .log _ _ _ (.done _)

theorem abreast_waitBoth {first second : Child} {k k' : Ending → Ending → Walk}
    (hk : ∀ e₁ e₂, Abreast F (k e₁ e₂) (k' e₁ e₂)) :
    Abreast F (waitBoth first second k) (waitBoth first second k') := by
  refine .wait first fun r₁ => .wait second fun r₂ => ?_
  cases r₁ with
  | error e => exact .failed e
  | ok e₁ =>
      cases r₂ with
      | error e => exact .failed e
      | ok e₂ => exact hk e₁ e₂

section Branches

variable {q : Position} {l r : Tree} {onLeft onLeft' onRight onRight' : Walk} {n₁ n₂ : Nat}
  (hleft : Abreast F onLeft onLeft') (hright : Abreast F onRight onRight')
include hleft hright

theorem abreast_runParallel (hl : F (q ++ [.left]) l .parallel n₁ n₂)
    (hr : F (q ++ [.right]) r .parallel n₁ n₂) :
    Abreast F (runParallel q ⟨l, onLeft⟩ ⟨r, onRight⟩ n₁)
      (runParallel q ⟨l, onLeft'⟩ ⟨r, onRight'⟩ n₂) := by
  unfold runParallel
  refine .fork .inherit hl hleft fun answer => ?_
  cases answer with
  | error e => exact .failed e
  | ok first =>
      refine .fork .inherit hr hright fun answer => ?_
      cases answer with
      | error e => exact .wait first fun _ => .failed e
      | ok second => exact abreast_waitBoth fun _ _ => .log _ _ _ (.done _)

theorem abreast_runPipe (hl : F (q ++ [.left]) l .pipe n₁ n₂)
    (hr : F (q ++ [.right]) r .pipe n₁ n₂) :
    Abreast F (runPipe q ⟨l, onLeft⟩ ⟨r, onRight⟩ n₁)
      (runPipe q ⟨l, onLeft'⟩ ⟨r, onRight'⟩ n₂) := by
  unfold runPipe
  refine .channel q fun answer => ?_
  cases answer with
  | error e => exact .failed e
  | ok ch =>
      refine .fork (.writer ch) hl hleft fun answer => ?_
      cases answer with
      | error e => exact .release ch (.failed e)
      | ok writer =>
          refine .fork (.reader ch) hr hright fun answer => ?_
          cases answer with
          | error e => exact .release ch (.wait writer fun _ => .failed e)
          | ok reader => exact .release ch (abreast_waitBoth fun _ _ => .log _ _ _ (.done _))

end Branches

/-- The walks of a part of a tree are abreast, whatever stands above it. -/
theorem abreast_execute {root t : Tree} {q : Position} (d₁ d₂ : Nat)
    (hsub : root.sub? q = some t) (p₁ p₂ : Option Operator) :
    Abreast (root.ForksAt d₁ d₂) (execute t (d₁ + q.length) p₁ q)
      (execute t (d₂ + q.length) p₂ q) := by
  induction t generalizing q p₁ p₂ with
  | leaf c => exact .log _ _ _ (abreast_ofCommand q c)
  | node op l r ihl ihr =>
      have hl : root.sub? (q ++ [.left]) = some l := Tree.sub?_side hsub .left
      have hr : root.sub? (q ++ [.right]) = some r := Tree.sub?_side hsub .right
      have hop : root.op? q = some op := Tree.op?_of_sub? hsub
      -- one level further down, at a position that is longer by one
      have hinner (d : Nat) (side : Side) : d + q.length + 1 = d + (q ++ [side]).length := by
        rw [List.length_append, List.length_singleton]
        omega
      have onLeft := ihl hl (some op) (some op)
      have onRight := ihr hr (some op) (some op)
      rw [← hinner, ← hinner] at onLeft onRight
      have hforks {side : Side} {u : Tree} (hu : root.sub? (q ++ [side]) = some u) :
          root.ForksAt d₁ d₂ (q ++ [side]) u op (d₁ + q.length + 1) (d₂ + q.length + 1) := by
        refine ⟨q, side, rfl, hu, hop, ?_, ?_⟩
        · rw [Position.length_above]; omega
        · rw [Position.length_above]; omega
      cases op with
      | sequential => exact .log _ _ _ (onLeft.bind fun _ => onRight)
      | andThen =>
          refine .log _ _ _ (onLeft.bind fun n => ?_)
          by_cases hn : n = 0
          · rw [if_pos hn, if_pos hn]
            exact onRight
          · rw [if_neg hn, if_neg hn]
            exact .done n
      | orElse =>
          refine .log _ _ _ (onLeft.bind fun n => ?_)
          by_cases hn : n ≠ 0
          · rw [if_pos hn, if_pos hn]
            exact onRight
          · rw [if_neg hn, if_neg hn]
            exact .done 0
      | parallel =>
          exact .log _ _ _ (abreast_runParallel onLeft onRight (hforks hl) (hforks hr))
      | pipe => exact .log _ _ _ (abreast_runPipe onLeft onRight (hforks hl) (hforks hr))

/-- Walks abreast have one outline, where all depths are made the same. -/
theorem Abreast.outline_eq {f : Nat → Nat} {w w' : Walk} (h : Abreast F w w')
    (hf : ∀ n₁ n₂, f n₁ = f n₂) : w.outline f = w'.outline f := by
  induction h with
  | done n | failed e => rfl
  | log _ _ _ _ ih => exact ih
  | builtin q b c _ ih => exact congrArg (Walk.builtin [] b c) (funext ih)
  | launch q c _ ih => exact congrArg (Walk.launch [] c) (funext ih)
  | @fork q t n₁ n₂ p w branch branch' next next' _ _ _ ihb ih =>
      unfold outline
      rw [hf n₁ n₂, ihb, funext ih]
  | channel q _ ih => exact congrArg (Walk.channel []) (funext ih)
  | release ch _ ih => exact congrArg (Walk.release ch) ih
  | wait child _ ih => exact congrArg (Walk.wait child) (funext ih)

end Walk

-- ================================================================ dialogues

/-- The same question with the same answer, but for the depth of a fork. -/
inductive Exchange.Abreast (F : Position → Tree → Operator → Nat → Nat → Prop) :
    Exchange → Exchange → Prop where
  | builtin (q : Position) (b : Builtin) (c : Command) (n : Int) :
      Abreast F (.builtin q b c n) (.builtin q b c n)
  | launch (q : Position) (c : Command) (r : Except ExecError Child) :
      Abreast F (.launch q c r) (.launch q c r)
  | fork {q : Position} {t : Tree} {n₁ n₂ : Nat} {p : Operator} (w : Wiring)
      (r : Except ExecError Child) (hdepth : F q t p n₁ n₂) :
      Abreast F (.fork q t n₁ p w r) (.fork q t n₂ p w r)
  | channel (q : Position) (r : Except ExecError Channel) : Abreast F (.channel q r) (.channel q r)
  | release (ch : Channel) : Abreast F (.release ch) (.release ch)
  | wait (child : Child) (r : Except ExecError Ending) : Abreast F (.wait child r) (.wait child r)

namespace Walk

variable {F : Position → Tree → Operator → Nat → Nat → Prop} {w w' u : Walk} {xs : List Exchange}
  {o : Outcome}

/-- What the one walk can be asked along a path, the other can. -/
theorem Abreast.path (h : Abreast F w w') (hp : w.Path xs u) :
    ∃ ys u', w'.Path ys u' ∧ List.Forall₂ (Exchange.Abreast F) xs ys ∧ Abreast F u u' := by
  induction hp generalizing w' with
  | here => exact ⟨[], w', .here, .nil, h⟩
  | log _ ih =>
      cases h with
      | log _ _ _ h =>
          obtain ⟨ys, u', hp, hys, hu⟩ := ih h
          exact ⟨ys, u', .log hp, hys, hu⟩
  | builtin n _ ih =>
      cases h with
      | builtin _ _ _ h =>
          obtain ⟨ys, u', hp, hys, hu⟩ := ih (h n)
          exact ⟨_, u', .builtin n hp, .cons (.builtin _ _ _ n) hys, hu⟩
  | launch r _ ih =>
      cases h with
      | launch _ _ h =>
          obtain ⟨ys, u', hp, hys, hu⟩ := ih (h r)
          exact ⟨_, u', .launch r hp, .cons (.launch _ _ r) hys, hu⟩
  | fork r _ ih =>
      cases h with
      | fork _ hdepth _ h =>
          obtain ⟨ys, u', hp, hys, hu⟩ := ih (h r)
          exact ⟨_, u', .fork r hp, .cons (.fork _ r hdepth) hys, hu⟩
  | channel r _ ih =>
      cases h with
      | channel _ h =>
          obtain ⟨ys, u', hp, hys, hu⟩ := ih (h r)
          exact ⟨_, u', .channel r hp, .cons (.channel _ r) hys, hu⟩
  | release _ ih =>
      cases h with
      | release _ h =>
          obtain ⟨ys, u', hp, hys, hu⟩ := ih h
          exact ⟨_, u', .release hp, .cons (.release _) hys, hu⟩
  | wait r _ ih =>
      cases h with
      | wait _ h =>
          obtain ⟨ys, u', hp, hys, hu⟩ := ih (h r)
          exact ⟨_, u', .wait r hp, .cons (.wait _ r) hys, hu⟩

theorem Abreast.leavesOff (h : Abreast F w w') (hl : w.LeavesOff o) : w'.LeavesOff o := by
  cases h with
  | done n | failed e => exact hl
  | builtin q b c _ =>
      cases b with
      | exit => exact hl
      | cd | assign => exact hl.elim
  | log | launch | fork | channel | release | wait => exact hl.elim

/-- Every dialogue of the one walk is one of the other, but for the depths. -/
theorem Abreast.dialogue (h : Abreast F w w') (hd : w.Dialogue xs o) :
    ∃ ys, w'.Dialogue ys o ∧ List.Forall₂ (Exchange.Abreast F) xs ys := by
  obtain ⟨u, hp, hl⟩ := hd
  obtain ⟨ys, u', hp', hys, hu⟩ := h.path hp
  exact ⟨ys, ⟨u', hp', hu.leavesOff hl⟩, hys⟩

end Walk

end LineShell
