/-
Commands that are started and waited for.

# Each once

Each command is started once and waited for once, within its own group
(`Tree.Tended`): the children of a group are numbered above those that were
given before it and below those given after.

# Two branches

A branch ends as its command did, if it is one, and else exits with the status
that its subtree came to (`Tree.BranchEnds`). Of two branches that are started
and waited for, the commands are tended (`Tree.tends_both`), and how they ended
is what the operator makes its status of.

# Concurrent trees

Where each command is a program with a process of its own, nobody leaves, and
all commands are taken up. At each site of a leaf one child was started
(`Tree.Tended.sub?`).
-/
import LineShell.Proofs.Rehearsal.Finished
import LineShell.Proofs.Rehearsal.Recorded
import LineShell.Proofs.Rehearsal.Roster
import LineShell.Proofs.Rehearsal.Visits

namespace LineShell

open Posix

variable {σ : Type}

-- =============================================================== each once

/-- The commands of a tree, from left to right. -/
def Tree.commands : Tree → List Command
  | leaf c => [c]
  | node _ l r => l.commands ++ r.commands

/-- A command that was started, and how it ended. -/
structure Kid where
  site : Position
  command : Command
  child : Child
  ending : Ending

namespace Event

/-- The start of a program, by its parent or by a branch that executes it. -/
def start? : Event → Option (Position × Command × Child)
  | answered (.launch q c (.ok child)) => some (q, c, child)
  | answered (.fork q t _ _ _ (.ok child)) => t.external?.map fun c => (q, c, child)
  | _ => none

/-- The answer to a wait for the child. -/
def waitFor? (child : Child) : Event → Option (Except ExecError Ending)
  | answered (.wait other r) => if other = child then some r else none
  | _ => none

/-- The child that is waited for. -/
def waits? : Event → Option Child
  | answered (.wait child _) => some child
  | _ => none

theorem waitFor?_eq_none {e : Event} {child : Child} (h : ∀ other ∈ e.waits?, other ≠ child) :
    e.waitFor? child = none := by
  unfold waitFor?
  split
  · exact if_neg (h _ rfl)
  · rfl

/-- Nobody waits for a child in events that wait for others. -/
theorem not_waited {es : List Event} {child : Child}
    (h : ∀ other ∈ es.filterMap waits?, other ≠ child) : es.filterMap (waitFor? child) = [] := by
  refine List.filterMap_eq_nil_iff.mpr fun e he => waitFor?_eq_none fun other hother => ?_
  exact h other (List.mem_filterMap.mpr ⟨e, he, hother⟩)

end Event

/-- Each command of a tree is started once, from left to right, and each is
waited for once. -/
structure Tree.Tended (t : Tree) (q : Position) (es : List Event) (kids : List Kid) : Prop where
  sites : kids.map Kid.site = t.leafSites q
  commands : kids.map Kid.command = t.commands
  starts : es.filterMap Event.start? = kids.map fun k => (k.site, k.command, k.child)
  waits : ∀ k ∈ kids, es.filterMap (Event.waitFor? k.child) = [.ok k.ending]
  apart : (kids.map Kid.child).Nodup

/-- All this happens to children of a group. -/
structure Within (low high : Nat) (es : List Event) (kids : List Kid) : Prop where
  kids : ∀ k ∈ kids, low < k.child ∧ k.child ≤ high
  waits : ∀ child ∈ es.filterMap Event.waits?, low < child ∧ child ≤ high

namespace Tree

variable {q : Position} {left right t : Tree} {es es' : List Event} {kids kids' : List Kid}
  {low mid mid' high : Nat} {child child' : Child} {e e' : Ending}

/-- One command is started, and its child is waited for. -/
theorem Tended.one {c : Command} (hstart : es.filterMap Event.start? = [(q, c, child)])
    (hwait : es.filterMap (Event.waitFor? child) = [.ok e]) :
    (leaf c).Tended q es [⟨q, c, child, e⟩] where
  sites := rfl
  commands := rfl
  starts := hstart
  waits k hk := by
    obtain rfl := List.mem_singleton.mp hk
    exact hwait
  apart := List.nodup_singleton child

/-- A branch that evaluates a group is started before all that the group does,
and waited for after it. -/
theorem Tended.branch (h : t.Tended q es kids) (hx : t.external? = none)
    (hnew : ∀ k ∈ kids, k.child < child) (p : Position) (request : ForkRequest)
    (hrequest : request.tree = t) :
    t.Tended q ((.asked p request :: es ++ [.answerTo p request (.ok child)]) ++
      [.answered (.wait child (.ok e))]) kids where
  sites := h.sites
  commands := h.commands
  starts := by
    rw [List.cons_append, List.cons_append, List.filterMap_cons_none (f := Event.start?) rfl,
      List.append_assoc, List.filterMap_append, h.starts]
    simp [List.filterMap_cons, Event.start?, Event.answerTo, hrequest, hx]
  waits k hk := by
    rw [List.cons_append, List.cons_append,
      List.filterMap_cons_none (f := Event.waitFor? k.child) rfl, List.append_assoc,
      List.filterMap_append, h.waits k hk]
    simp [List.filterMap_cons, Event.waitFor?, Event.answerTo, (Nat.ne_of_lt (hnew k hk)).symm]
  apart := h.apart

/-- Two branches are both started before the first of them is waited for. -/
theorem Tended.both (op : Operator)
    (h : left.Tended (q ++ [.left]) (es ++ [.answered (.wait child (.ok e))]) kids)
    (h' : right.Tended (q ++ [.right]) (es' ++ [.answered (.wait child' (.ok e'))]) kids')
    (hin : Within low mid (es ++ [.answered (.wait child (.ok e))]) kids)
    (hin' : Within mid' high (es' ++ [.answered (.wait child' (.ok e'))]) kids')
    (hmid : mid ≤ mid') :
    (node op left right).Tended q (es ++ es' ++
      [.answered (.wait child (.ok e)), .answered (.wait child' (.ok e'))]) (kids ++ kids') where
  sites := by rw [List.map_append, h.sites, h'.sites, leafSites]
  commands := by rw [List.map_append, h.commands, h'.commands, Tree.commands]
  starts := by
    have hleft := h.starts
    have hright := h'.starts
    simp only [List.filterMap_append, List.filterMap_cons, Event.start?, List.filterMap_nil,
      List.append_nil, List.map_append] at hleft hright ⊢
    rw [hleft, hright]
  waits k hk := by
    have split : (es ++ es' ++ [Event.answered (.wait child (.ok e)),
          Event.answered (.wait child' (.ok e'))]).filterMap (Event.waitFor? k.child) =
        es.filterMap (Event.waitFor? k.child) ++ es'.filterMap (Event.waitFor? k.child) ++
          [Event.answered (.wait child (.ok e))].filterMap (Event.waitFor? k.child) ++
          [Event.answered (.wait child' (.ok e'))].filterMap (Event.waitFor? k.child) := by
      simp only [← List.filterMap_append, List.append_assoc, List.cons_append, List.nil_append]
    rw [split]
    rcases List.mem_append.mp hk with hk | hk
    · -- On the right nobody waits for a child of the left.
      have hout : (es' ++ [Event.answered (.wait child' (.ok e'))]).filterMap
          (Event.waitFor? k.child) = [] := Event.not_waited fun other hother =>
        Nat.ne_of_gt (Nat.lt_of_le_of_lt (Nat.le_trans (hin.kids k hk).2 hmid)
          (hin'.waits other hother).1)
      have hones := h.waits k hk
      rw [List.filterMap_append] at hout hones
      obtain ⟨hes, hlast⟩ := List.append_eq_nil_iff.mp hout
      rw [hes, hlast, List.append_nil, List.append_nil, hones]
    · have hout : (es ++ [Event.answered (.wait child (.ok e))]).filterMap
          (Event.waitFor? k.child) = [] := Event.not_waited fun other hother =>
        Nat.ne_of_lt (Nat.lt_of_le_of_lt (Nat.le_trans (hin.waits other hother).2 hmid)
          (hin'.kids k hk).1)
      have hones := h'.waits k hk
      rw [List.filterMap_append] at hout hones
      obtain ⟨hes, hlast⟩ := List.append_eq_nil_iff.mp hout
      rw [hes, hlast, List.append_nil, List.nil_append, hones]
  apart := by
    rw [List.map_append]
    refine h.apart.append h'.apart fun x hx hx' => ?_
    obtain ⟨k, hk, rfl⟩ := List.mem_map.mp hx
    obtain ⟨k', hk', heq⟩ := List.mem_map.mp hx'
    exact absurd heq (Nat.ne_of_gt
      (Nat.lt_of_le_of_lt (Nat.le_trans (hin.kids k hk).2 hmid) (hin'.kids k' hk').1))

end Tree

/-- One child, who is waited for. -/
theorem Within.one {k : Kid} {low high : Nat} {es : List Event}
    (hin : low < k.child ∧ k.child ≤ high) (hwaits : es.filterMap Event.waits? = [k.child]) :
    Within low high es [k] where
  kids _ hk := List.mem_singleton.mp hk ▸ hin
  waits other hother := by
    rw [hwaits] at hother
    exact List.mem_singleton.mp hother ▸ hin

/-- One group after the other, within what there was before and is after. -/
theorem Within.both {low mid mid' high low' high' : Nat} {es es' : List Event}
    {kids kids' : List Kid} {w w' : Event} (h : Within low mid (es ++ [w]) kids)
    (h' : Within mid' high (es' ++ [w']) kids') (hlow : low' ≤ low) (hleft : low ≤ mid)
    (hmid : mid ≤ mid') (hright : mid' ≤ high) (hhigh : high ≤ high') :
    Within low' high' (es ++ es' ++ [w, w']) (kids ++ kids') := by
  have first {x : Nat} (hx : low < x ∧ x ≤ mid) : low' < x ∧ x ≤ high' := by omega
  have second {x : Nat} (hx : mid' < x ∧ x ≤ high) : low' < x ∧ x ≤ high' := by omega
  refine ⟨fun k hk => ?_, fun other hother => ?_⟩
  · rcases List.mem_append.mp hk with hk | hk
    · exact first (h.kids k hk)
    · exact second (h'.kids k hk)
  · obtain ⟨x, hx, hwaits⟩ := List.mem_filterMap.mp hother
    have hx : x ∈ es ++ [w] ∨ x ∈ es' ++ [w'] := by
      simp only [List.mem_append, List.mem_cons, List.not_mem_nil, or_false] at hx ⊢
      tauto
    rcases hx with hx | hx
    · exact first (h.waits other (List.mem_filterMap.mpr ⟨x, hx, hwaits⟩))
    · exact second (h'.waits other (List.mem_filterMap.mpr ⟨x, hx, hwaits⟩))

/-- What comes of a tree, or of the branch for it: each command is tended, and
ends as its program may. -/
structure Roster.Tends (g : Roster σ) (t : Tree) (q : Position) (es : List Event) (st st' : σ)
    (kids : List Kid) : Prop where
  onward : g.Onward st st'
  tended : t.Tended q es kids
  within : Within (g.count st) (g.count st') es kids
  ends : List.Forall₂ g.ends t.commands (kids.map Kid.ending)

namespace Roster.Tends

variable {g : Roster σ} {t : Tree} {q : Position} {es es' : List Event} {st st' st'' : σ}
  {kids : List Kid}

/-- Events that start nothing and wait for nobody make no difference. -/
theorem of_events (h : g.Tends t q es st st' kids)
    (hstarts : es'.filterMap Event.start? = es.filterMap Event.start?)
    (hwaits : ∀ child, es'.filterMap (Event.waitFor? child) = es.filterMap (Event.waitFor? child))
    (hall : es'.filterMap Event.waits? = es.filterMap Event.waits?) :
    g.Tends t q es' st st' kids where
  onward := h.onward
  tended := { h.tended with
    starts := hstarts.trans h.tended.starts
    waits := fun k hk => (hwaits k.child).trans (h.tended.waits k hk) }
  within := { h.within with waits := fun child hchild => h.within.waits child (hall ▸ hchild) }
  ends := h.ends

/-- Nor does what happened to others before. -/
theorem after (h : g.Tends t q es st' st'' kids) (hbefore : g.Onward st st') :
    g.Tends t q es st st'' kids where
  onward := hbefore.trans h.onward
  tended := h.tended
  within := ⟨fun k hk => ⟨Nat.lt_of_le_of_lt hbefore.count (h.within.kids k hk).1,
      (h.within.kids k hk).2⟩,
    fun child hchild => ⟨Nat.lt_of_le_of_lt hbefore.count (h.within.waits child hchild).1,
      (h.within.waits child hchild).2⟩⟩
  ends := h.ends

end Roster.Tends

-- ================================================================ branches

namespace Tree

variable {l : Launcher σ} {g : Roster σ} {st st' : σ} {v v' : View} {n : Int} {q : Position}
  {left right t : Tree} {depth : Nat} {parent : Option Operator} {c : Command}

theorem external_leaf (hx : (leaf c).external?.isSome) : (leaf c).external? = some c := by
  obtain ⟨c', hc⟩ := Option.isSome_iff_exists.mp hx
  obtain ⟨heq, -⟩ := external?_eq_some.mp hc
  cases heq
  exact hc

/-- The walk of an external command runs its program. -/
theorem execute_external (hx : (leaf c).external?.isSome) (depth : Nat)
    (parent : Option Operator) (q : Position) : Walk.execute (leaf c) depth parent q =
      .log .debug (Walk.heading (leaf c) depth parent) (Walk.runProgram q c) := by
  obtain ⟨-, hverb, hlookup⟩ := external?_eq_some.mp (external_leaf hx)
  simp only [Walk.execute, Walk.ofCommand, hverb, hlookup, Bool.false_eq_true, if_false]

/-- A tree whose rehearsals that finish tend its commands, and come to a status
that fits how these ended. -/
def Resolves (l : Launcher σ) (g : Roster σ) (Fits : Position → List Kid → Int → Prop)
    (t : Tree) : Prop :=
  ∀ depth parent q st v n st' v', g.sound st →
    (Walk.execute t depth parent q).rehearse l st v = (.finished n, st', v') →
    ∃ kids, g.Tends t q ((Walk.execute t depth parent q).events l st v) st st' kids ∧
      Fits q kids n

/-- How a branch ends: as its command did, if it is one; else it has exited with
a status that fits. -/
inductive BranchEnds (Fits : Position → List Kid → Int → Prop) (t : Tree) (q : Position) :
    List Kid → Ending → Prop where
  | program {k : Kid} (hx : t.external?.isSome) (hsite : k.site = q) :
      BranchEnds Fits t q [k] k.ending
  | group {kids : List Kid} {n : Int} (hx : t.external? = none) (hfits : Fits q kids n) :
      BranchEnds Fits t q kids (.exited n)

variable {Fits Fits' : Position → List Kid → Int → Prop}

/-- An external command comes to the status of its program. -/
theorem resolves_leaf (hl : l.Tells g) (hx : (leaf c).external?.isSome)
    (hfits : ∀ k, Fits k.site [k] k.ending.status) : (leaf c).Resolves l g Fits := by
  intro depth parent q st v n st' v' hsound h
  rw [execute_external hx] at h ⊢
  obtain ⟨child, st₁, e, hlaunch, hwait, rfl, hevents⟩ := Walk.program_of_finished h
  obtain ⟨hgives, hends⟩ := hl.launch hsound hlaunch
  obtain ⟨rfl, hstrikes⟩ := hl.wait hgives.sound hwait
  have hin : g.count st < child ∧ child ≤ g.count st' :=
    ⟨hgives.new, Nat.le_trans hgives.counted hstrikes.count⟩
  rw [show Walk.events l _ st v = _ from hevents]
  refine ⟨[⟨q, c, child, g.how st₁ child⟩],
    ⟨hgives.toOnward.strikes hgives.new hstrikes, .one rfl ?_, .one hin ?_, .cons hends .nil⟩,
    hfits ⟨q, c, child, g.how st₁ child⟩⟩
  · simp [List.filterMap_cons, Event.waitFor?]
  · rfl

/-- A branch is one child. The children of the commands below it are all its own,
but for the one that it may have become. -/
theorem Resolves.branch (h : t.Resolves l g Fits) (hl : l.Tells g) (hsound : g.sound st)
    {request : ForkRequest} (hrequest : request.tree = t) {child : Child} {op : Operator}
    (hreturn : l.returned t (Walk.execute t depth (some op) q) st v = some (child, st', v')) :
    ∃ kids, g.Tends t q
        ((.asked q request :: Walk.branchEvents l t (Walk.execute t depth (some op) q) st v ++
          [.answerTo q request (.ok child)]) ++ [.answered (.wait child (.ok (g.how st' child)))])
        st st' kids ∧
      g.count st < child ∧ child ≤ g.count st' ∧ t.BranchEnds Fits q kids (g.how st' child) := by
  cases hx : t.external? with
  | some c =>
      obtain rfl : t = leaf c := by
        cases t with
        | leaf c' => rw [Option.some.inj (hx.symm.trans (external_leaf (by rw [hx]; rfl)))]
        | node op left right => cases hx
      unfold Launcher.returned at hreturn
      rw [hx] at hreturn
      cases hreturn
      obtain ⟨hgives, hends⟩ := hl.exec hsound rfl
      have hsome : (leaf c).external?.isSome := by rw [hx]; rfl
      rw [Walk.branchEvents, if_pos hsome]
      refine ⟨[⟨q, c, (l.exec c st).1, _⟩], ⟨hgives.toOnward, .one ?_ ?_,
        .one ⟨hgives.new, hgives.counted⟩ rfl, .cons hends .nil⟩, hgives.new, hgives.counted,
        .program hsome rfl⟩
      · simp [List.filterMap_cons, Event.start?, Event.answerTo, hrequest, hx]
      · simp [List.filterMap_cons, Event.waitFor?, Event.answerTo]
  | none =>
      unfold Launcher.returned at hreturn
      rw [hx] at hreturn
      rw [Walk.branchEvents, if_neg (by rw [hx]; exact Bool.false_ne_true)]
      cases hbranch : (Walk.execute t depth (some op) q).rehearse l st v with
      | mk o rest =>
      obtain ⟨st₁, after⟩ := rest
      simp only [hbranch] at hreturn
      cases o with
      | failed e => cases hreturn
      | left => cases hreturn
      | finished n =>
      cases hreturn
      obtain ⟨kids, htends, hfits⟩ := h _ _ _ _ _ _ _ _ hsound hbranch
      obtain ⟨hgives, hhow⟩ := hl.finish htends.onward.sound rfl
      have hnew : ∀ k ∈ kids, k.child < (l.finish n st₁).1 :=
        fun k hk => Nat.lt_of_le_of_lt (htends.within.kids k hk).2 hgives.new
      refine ⟨kids, ⟨htends.onward.trans hgives.toOnward, htends.tended.branch hx hnew q request
        hrequest, ⟨fun k hk => ?_, fun other hother => ?_⟩, htends.ends⟩,
        Nat.lt_of_le_of_lt htends.onward.count hgives.new, hgives.counted, ?_⟩
      · exact ⟨(htends.within.kids k hk).1,
          Nat.le_trans (htends.within.kids k hk).2 hgives.count⟩
      · have hother : other ∈ ((Walk.execute t depth (some op) q).events l st v).filterMap
            Event.waits? ∨ other = (l.finish n st₁).1 := by
          simpa [List.filterMap_cons, Event.waits?, Event.answerTo] using hother
        rcases hother with hother | rfl
        · exact ⟨(htends.within.waits other hother).1,
            Nat.le_trans (htends.within.waits other hother).2 hgives.count⟩
        · exact ⟨Nat.lt_of_le_of_lt htends.onward.count hgives.new, hgives.counted⟩
      · rw [hhow]
        exact .group hx hfits

/-- Two branches, each started and then each waited for. -/
theorem tends_both (hl : l.Tells g) (hleft : left.Resolves l g Fits)
    (hright : right.Resolves l g Fits') (op : Operator) {first second : ForkRequest}
    (hfirst : first.tree = left) (hsecond : second.tree = right) {es : List Event}
    {child child' : Child} {e e' : Ending} {st₁ st₂ st₃ : σ} {v₁ : View} (hsound : g.sound st)
    (hstarted : Walk.Started l q first second (Walk.execute left depth (some op) (q ++ [.left]))
      (Walk.execute right depth (some op) (q ++ [.right])) st v es child child' st₁ v₁)
    (hbetween : g.sound st₁ → g.Onward st₁ st₂) (hwait : l.wait child st₂ = (.ok e, st₃))
    (hwait' : l.wait child' st₃ = (.ok e', st')) :
    ∃ kids kids', g.Tends (node op left right) q
        (es ++ [.answered (.wait child (.ok e)), .answered (.wait child' (.ok e'))]) st st'
        (kids ++ kids') ∧
      left.BranchEnds Fits (q ++ [.left]) kids e ∧
      right.BranchEnds Fits' (q ++ [.right]) kids' e' := by
  subst hfirst hsecond
  obtain ⟨henter, hreturn, henter', hreturn'⟩ := hstarted
  next st₄ st₅ st₆ v₅ =>
  have hbefore := hl.enter hsound (Launcher.enter_of_entered henter)
  obtain ⟨kids, htends, hnew, hcounted, hends⟩ := hleft.branch hl hbefore.sound rfl hreturn
  have hbefore' := hl.enter htends.onward.sound (Launcher.enter_of_entered henter')
  obtain ⟨kids', htends', hnew', hcounted', hends'⟩ := hright.branch hl hbefore'.sound rfl hreturn'
  replace hbetween := hbetween htends'.onward.sound
  -- What is told of the two is what was on record when they had been started.
  have hlater : g.Onward st₅ st₂ := (hbefore'.trans htends'.onward).trans hbetween
  obtain ⟨htold, hstrikes⟩ := hl.wait hlater.sound hwait
  obtain ⟨htold', hstrikes'⟩ := hl.wait hstrikes.sound hwait'
  have hapart : g.count st₅ < child' := Nat.lt_of_le_of_lt hbefore'.count hnew'
  obtain rfl : e = g.how st₅ child := htold.trans (hlater.how child hcounted)
  obtain rfl : e' = g.how st₁ child' := htold'.trans
    ((hstrikes.how child' (Nat.le_trans hcounted' hbetween.count)
      (Nat.ne_of_gt (Nat.lt_of_le_of_lt hcounted hapart))).trans (hbetween.how child' hcounted'))
  have hall : g.Onward st st₂ := (hbefore.trans htends.onward).trans hlater
  have honward : g.Onward st st' :=
    (hall.strikes (Nat.lt_of_le_of_lt hbefore.count hnew) hstrikes).strikes
      (Nat.lt_of_le_of_lt (hbefore.trans htends.onward).count hapart) hstrikes'
  refine ⟨kids, kids', ⟨honward, ?_, ?_, ?_⟩, hends, hends'⟩
  · have htwo := htends.tended.both op htends'.tended htends.within htends'.within hbefore'.count
    simpa using htwo
  · have htwo := htends.within.both htends'.within hbefore.count htends.onward.count hbefore'.count
      htends'.onward.count
      (Nat.le_trans hbetween.count (Nat.le_trans hstrikes.count hstrikes'.count))
    simpa using htwo
  · rw [List.map_append]
    exact List.rel_append htends.ends htends'.ends

end Tree

-- ============================================================ where they end

/-- All rehearsals of the walk end so. -/
def Walk.Ends (l : Launcher σ) (P : Outcome → Prop) (w : Walk) : Prop :=
  ∀ st v, P (w.rehearse l st v).1

/-- What fails, where the launcher makes it fail, is admitted. -/
structure Launcher.FailsWithin (l : Launcher σ) (P : Outcome → Prop) : Prop where
  launch : ∀ {c st e}, (l.launch c st).1 = .error e → P (.failed e)
  enter : ∀ {request st e}, (l.enter request st).1 = .error e → P (.failed e)
  wait : ∀ {child st e}, (l.wait child st).1 = .error e → P (.failed e)

namespace Walk

variable {l : Launcher σ} {P : Outcome → Prop} {q : Position}

theorem ends_wait (hl : l.FailsWithin P) {child : Child} {next : Except ExecError Ending → Walk}
    (hfails : ∀ e, P (.failed e) → (next (.error e)).Ends l P)
    (hnext : ∀ e, (next (.ok e)).Ends l P) : (wait child next).Ends l P := by
  intro st v
  simp only [rehearse]
  cases hr : (l.wait child st).1 with
  | error e => exact hfails e (hl.wait hr) _ _
  | ok e => exact hnext e _ _

theorem ends_fork (hl : l.FailsWithin P) {t : Tree} {depth : Nat} {op : Operator}
    {wiring : Wiring} {branch : Walk} {next : Except ExecError Child → Walk}
    (hbranch : branch.Ends l P) (hfails : ∀ e, P (.failed e) → (next (.error e)).Ends l P)
    (hnext : ∀ child, (next (.ok child)).Ends l P) :
    (fork q t depth op wiring branch next).Ends l P := by
  intro st v
  rcases fork_cases l q t depth op wiring branch st v with
    ⟨_, _, _, r, _, _, hanswer, hgoes⟩ | ⟨st₁, _, _, -, -, hrun, hleft⟩
  · rw [(hgoes next).1]
    cases hanswer with
    | refused henter => exact hfails _ (hl.enter (by rw [henter])) _ _
    | program | finished => exact hnext _ _ _
    | @failed e st₁ _ _ _ _ hrun =>
        have hends := hbranch st₁ v
        rw [hrun] at hends
        exact hfails e hends _ _
  · have hends := hbranch st₁ v
    rw [hrun] at hends
    rw [(hleft next).1]
    exact hends

theorem ends_channel {next : Except ExecError Channel → Walk}
    (hfails : ∀ e, (next (.error e)).Ends l P) (hnext : ∀ ch, (next (.ok ch)).Ends l P) :
    (channel q next).Ends l P := by
  intro st v
  obtain ⟨r, st₁, v₁, -, hgoes⟩ := channel_cases l q st v
  rw [(hgoes next).1]
  cases r with
  | error e => exact hfails e st₁ v₁
  | ok ch => exact hnext ch st₁ v₁

theorem ends_program (hl : l.FailsWithin P) (hdone : ∀ n, P (.finished n)) (c : Command) :
    (runProgram q c).Ends l P := by
  intro st v
  cases hlaunch : l.launch c st with
  | mk r st₁ =>
  simp only [runProgram, rehearse, hlaunch]
  cases r with
  | error e => exact hl.launch (by rw [hlaunch])
  | ok child =>
      refine ends_wait hl ?_ ?_ st₁ v
      · exact fun _ he _ _ => he
      · exact fun _ _ _ => hdone _

theorem ends_waitBoth (hl : l.FailsWithin P) {first second : Child} {k : Ending → Ending → Walk}
    (hk : ∀ e e', (k e e').Ends l P) : (waitBoth first second k).Ends l P := by
  have fails (e : ExecError) (he : P (.failed e)) : (failed e).Ends l P := fun _ _ => he
  refine ends_wait hl (fun e he => ?_) fun e => ?_
  · exact ends_wait hl (fun _ _ => fails e he) fun _ => fails e he
  · exact ends_wait hl fails (hk e)

/-- Two branches side by side fail as the launcher makes them, or as they do. -/
theorem ends_runParallel (hl : l.FailsWithin P) (hdone : ∀ n, P (.finished n))
    {left right : Branch} (hleft : left.walk.Ends l P) (hright : right.walk.Ends l P)
    (depth : Nat) : (runParallel q left right depth).Ends l P := by
  have fails (e : ExecError) (he : P (.failed e)) : (failed e).Ends l P := fun _ _ => he
  refine ends_fork hl hleft fails fun first => ends_fork hl hright (fun e he => ?_) fun second => ?_
  · exact ends_wait hl (fun _ _ => fails e he) fun _ => fails e he
  · exact ends_waitBoth hl fun _ _ _ _ => hdone _

/-- Two branches with a channel may fail because of that too. -/
theorem ends_runPipe (hl : l.FailsWithin P) (hdone : ∀ n, P (.finished n))
    (hfails : ∀ e, P (.failed e)) {left right : Branch} (hleft : left.walk.Ends l P)
    (hright : right.walk.Ends l P) (depth : Nat) : (runPipe q left right depth).Ends l P := by
  have fails (e : ExecError) : (failed e).Ends l P := fun _ _ => hfails e
  have released {ch : Channel} {w : Walk} (h : w.Ends l P) : (release ch w).Ends l P :=
    fun _ _ => h _ _
  refine ends_channel fails fun ch => ?_
  refine ends_fork hl hleft (fun e _ => released (fails e)) fun first => ?_
  refine ends_fork hl hright (fun e _ => released ?_) fun second => released ?_
  · exact ends_wait hl (fun _ _ => fails e) fun _ => fails e
  · exact ends_waitBoth hl fun _ _ _ _ => hdone _

end Walk

-- ======================================================== concurrent trees

/-- Is each command a program in a process of its own? Only `&` and `|` see to
that. -/
def Tree.isConcurrent : Tree → Bool
  | t@(leaf _) => t.external?.isSome
  | node op l r => !op.isSequel && l.isConcurrent && r.isConcurrent

/-- Without builtins nobody leaves. -/
theorem Walk.stays_concurrent {l : Launcher σ} {t : Tree} (ht : t.isConcurrent = true) (depth : Nat)
    (parent : Option Operator) (q : Position) : (execute t depth parent q).Ends l (· ≠ .left) := by
  have fails (e : ExecError) : Outcome.failed e ≠ .left := Outcome.noConfusion
  have hdone (n : Int) : Outcome.finished n ≠ .left := Outcome.noConfusion
  have hl : l.FailsWithin (· ≠ .left) := ⟨fun _ => fails _, fun _ => fails _, fun _ => fails _⟩
  induction t generalizing depth parent q with
  | leaf c =>
      rw [Tree.execute_external ht]
      exact fun _ _ => ends_program (q := q) hl hdone c _ _
  | node op left right ihl ihr =>
      simp only [Tree.isConcurrent, Bool.and_eq_true, Bool.not_eq_true'] at ht
      obtain ⟨⟨hop, hleft⟩, hright⟩ := ht
      cases op with
      | sequential | andThen | orElse => cases hop
      | parallel =>
          exact fun _ _ => ends_runParallel hl hdone (ihl hleft _ _ _) (ihr hright _ _ _) _ _ _
      | pipe =>
          exact fun _ _ =>
            ends_runPipe hl hdone fails (ihl hleft _ _ _) (ihr hright _ _ _) _ _ _

namespace Tree

variable {t : Tree} {q : Position}

/-- All commands of the tree are taken up, if the channels can be made. -/
theorem externals_concurrent {root : Tree} {o : Course} (hchannel : ∀ q, o.channel q = none)
    (ht : t.isConcurrent = true) (hsub : root.sub? q = some t) :
    root.externals (t.reaches o q) = t.commands := by
  induction t generalizing q with
  | leaf c =>
      have hx : (leaf c).external? = some c := external_leaf ht
      rw [reaches_external ht]
      simp only [externals, List.filterMap_cons, hsub, Option.bind_some, hx, List.filterMap_nil]
      rfl
  | node op left right ihl ihr =>
      simp only [isConcurrent, Bool.and_eq_true, Bool.not_eq_true'] at ht
      obtain ⟨⟨hop, hleft⟩, hright⟩ := ht
      have hgoes (r : Option (Except ExecError Int)) : op.goesOn r = true := by
        cases op with
        | sequential | andThen | orElse => cases hop
        | parallel | pipe => rfl
      rw [reaches_both (hgoes _) fun _ => hchannel q, externals, List.filterMap_append]
      exact congrArg₂ (· ++ ·) (ihl hleft (sub?_side hsub .left))
        (ihr hright (sub?_side hsub .right))

/-- Where the tree is concurrent, so is what stands below. -/
theorem isConcurrent_sub? {u : Tree} (ht : t.isConcurrent = true) (hsub : t.sub? q = some u) :
    u.isConcurrent = true := by
  induction q generalizing t with
  | nil =>
      rw [sub?_nil] at hsub
      cases hsub
      exact ht
  | cons side q ih =>
      cases t with
      | leaf c => cases hsub
      | node op left right =>
          simp only [isConcurrent, Bool.and_eq_true] at ht
          cases side with
          | left => exact ih ht.1.2 hsub
          | right => exact ih ht.2 hsub

theorem leafSites_nodup (t : Tree) (q : Position) : (t.leafSites q).Nodup := by
  induction t generalizing q with
  | leaf c => exact List.nodup_singleton q
  | node op l r ihl ihr =>
      refine List.nodup_append'.mpr ⟨ihl _, ihr _, fun u hl hr => ?_⟩
      obtain ⟨p, -, rfl, -⟩ := mem_leafSites.mp hl
      obtain ⟨p', -, heq, -⟩ := mem_leafSites.mp hr
      exact not_both_sides (by decide) (List.prefix_append _ _) (heq ▸ List.prefix_append _ _)

/-- At the sites of a tree's leaves stand its commands. -/
theorem forall₂_leafSites (t : Tree) (q : Position) : List.Forall₂
    (fun u c => ∃ r, u = q ++ r ∧ t.sub? r = some (leaf c)) (t.leafSites q) t.commands := by
  induction t generalizing q with
  | leaf c => exact .cons ⟨[], (List.append_nil q).symm, rfl⟩ .nil
  | node op l r ihl ihr =>
      refine List.rel_append ((ihl _).imp ?_) ((ihr _).imp ?_)
      · rintro _ c ⟨p, rfl, hsub⟩
        exact ⟨.left :: p, List.append_assoc q _ p, hsub⟩
      · rintro _ c ⟨p, rfl, hsub⟩
        exact ⟨.right :: p, List.append_assoc q _ p, hsub⟩

/-- Who was started was started for the command at its site. -/
theorem Tended.sub? {es : List Event} {kids : List Kid} (h : t.Tended q es kids) {k : Kid}
    (hk : k ∈ kids) : ∃ r, k.site = q ++ r ∧ t.sub? r = some (leaf k.command) := by
  have hall := t.forall₂_leafSites q
  rw [← h.sites, ← h.commands, List.forall₂_map_left_iff, List.forall₂_map_right_iff,
    List.forall₂_same] at hall
  exact hall k hk

/-- What is known of the commands' endings is known of those who were started. -/
theorem Tended.ends_of {es : List Event} {kids : List Kid} (h : t.Tended q es kids)
    {R : Command → Ending → Prop} (hends : List.Forall₂ R t.commands (kids.map Kid.ending))
    {k : Kid} (hk : k ∈ kids) : R k.command k.ending := by
  rw [← h.commands, List.forall₂_map_left_iff, List.forall₂_map_right_iff,
    List.forall₂_same] at hends
  exact hends k hk

/-- At each site one was started, so the sites tell how they ended. -/
theorem Tended.exists_how {es : List Event} {kids : List Kid} (h : t.Tended q es kids) :
    ∃ how : Position → Ending, ∀ k ∈ kids, how k.site = k.ending := by
  refine ⟨fun p => ((kids.find? (·.site = p)).map Kid.ending).getD (.exited 0), fun k hk => ?_⟩
  cases hfind : kids.find? (·.site = k.site) with
  | none => exact absurd (decide_eq_true rfl) (List.find?_eq_none.mp hfind k hk)
  | some k' =>
      have hsite : k'.site = k.site := by simpa using List.find?_some hfind
      obtain rfl : k' = k := List.inj_on_of_nodup_map (h.sites ▸ t.leafSites_nodup q)
        (List.mem_of_find?_eq_some hfind) hk hsite
      simp only [hfind, Option.map_some, Option.getD_some]

end Tree

/-- What is related to each entry by a function is its map. -/
theorem eq_map_of_forall₂ {α β : Type} {f : α → β} {xs : List α} {ys : List β}
    (h : List.Forall₂ (fun x y => y = f x) xs ys) : ys = xs.map f := by
  induction h with
  | nil => rfl
  | cons hxy _ ih => rw [hxy, ih, List.map_cons]

end LineShell
