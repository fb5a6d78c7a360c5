/-
In which order a walk asks for the parts of its tree.

A walk goes from left to right. What stands to the left of an operator
comes before what stands to the right of it (`Before`), and a walk that has
asked for something does not ask any more for what comes before. The
contract `ordering` keeps what was asked for and forbids just that; it adds
that builtins are asked for as the commands name them, and programs where
they name none. It does not matter
whether an operator goes on in the same process: of the two branches of a
`|` or `&` the left one is started first.
-/
import LineShell.Proofs.Walk.Site

namespace LineShell

-- ============================================================== positions

/-- The one position is on the left of an operator that has the other on its
right. -/
def Before (q u : Position) : Prop := ∃ r, r ++ [.left] <+: q ∧ r ++ [.right] <+: u

section

variable {q u : Position} {side : Side}

/-- What comes after a side of an operator comes after the operator, or is on
its right. -/
theorem Before.of_side (h : Before (q ++ [side]) u) :
    Before q u ∨ (side = .left ∧ q ++ [.right] <+: u) := by
  obtain ⟨r, hleft, hright⟩ := h
  rcases List.prefix_concat_iff.mp hleft with heq | hpre
  · obtain ⟨rfl, hside⟩ := List.append_inj' heq rfl
    exact .inr ⟨(List.cons.inj hside).1.symm, hright⟩
  · exact .inl ⟨r, hpre, hright⟩

/-- What is below a position does not come after it. -/
theorem not_before_below (hpre : q <+: u) : ¬Before q u := by
  rintro ⟨r, hleft, hright⟩
  exact not_both_sides (by decide) (hleft.trans hpre) hright

end

-- ============================================================ the contract

/-- What is asked for is what the command of the leaf names. -/
def Exchange.Named : Exchange → Prop
  | .builtin _ b c _ => Builtin.lookup c = some b
  | .launch _ c _ => (Tree.leaf c).external? = some c
  | _ => True

/-- Nothing is asked for that comes before what was asked for already, and
builtins and programs as the commands name them. -/
def ordering : Contract (List Position) where
  allows used x used' :=
    x.Named ∧ (∀ q, x.asks? = some q → ∀ u ∈ used, ¬Before q u) ∧ used' = x.asks?.toList ++ used

/-- What was asked for is remembered. -/
theorem ordering_used {used used' : List Position} {xs : List Exchange}
    (h : ordering.Leads used xs used') :
    used' = (xs.filterMap Exchange.asks?).reverse ++ used := by
  induction h with
  | nil => rfl
  | @cons s s₁ s₂ x xs hx _ ih =>
      obtain ⟨-, -, rfl⟩ := hx
      rw [ih]
      cases hq : x.asks? with
      | none => rw [List.filterMap_cons_none hq, Option.toList_none, List.nil_append]
      | some q =>
          rw [List.filterMap_cons_some hq, Option.toList_some, List.reverse_cons, List.append_assoc]

/-- What was asked for is neither below the position nor comes after it. -/
def orderFrom (q : Position) (used : List Position) : Prop :=
  ∀ u ∈ used, ¬Before q u ∧ ¬q <+: u

/-- What was asked for in addition is below the position. -/
def orderTo (q : Position) (used used' : List Position) : Prop :=
  ∀ u ∈ used', u ∈ used ∨ q <+: u

section

variable {q u : Position} {used used' used'' : List Position} {side : Side}

/-- It is so of the left side as well. -/
theorem orderFrom.left (h : orderFrom q used) : orderFrom (q ++ [.left]) used := by
  intro u hu
  obtain ⟨hbefore, hbelow⟩ := h u hu
  refine ⟨fun hside => ?_, fun hpre => hbelow ((List.prefix_append _ _).trans hpre)⟩
  rcases hside.of_side with hq | ⟨-, hpre⟩
  · exact hbefore hq
  · exact hbelow ((List.prefix_append _ _).trans hpre)

/-- And of the right side, once the left one is done. -/
theorem orderFrom.right (h : orderFrom q used) (hleft : orderTo (q ++ [.left]) used used') :
    orderFrom (q ++ [.right]) used' := by
  intro u hu
  rcases hleft u hu with hu | hpre
  · obtain ⟨hbefore, hbelow⟩ := h u hu
    refine ⟨fun hside => ?_, fun hpre => hbelow ((List.prefix_append _ _).trans hpre)⟩
    rcases hside.of_side with hq | ⟨hside, -⟩
    · exact hbefore hq
    · cases hside
  · refine ⟨fun hside => ?_, not_both_sides (by decide) hpre⟩
    rcases hside.of_side with hq | ⟨hside, -⟩
    · exact not_before_below ((List.prefix_append _ _).trans hpre) hq
    · cases hside

theorem orderTo.refl (q : Position) (used : List Position) : orderTo q used used :=
  fun _ => .inl

theorem orderTo.trans (h : orderTo q used used') (h' : orderTo q used' used'') :
    orderTo q used used'' := fun u hu => (h' u hu).elim (h u) .inr

/-- What is below a side is below the operator. -/
theorem orderTo.of_side (h : orderTo (q ++ [side]) used used') : orderTo q used used' :=
  fun u hu => (h u hu).imp_right (List.prefix_append _ _).trans

/-- One position more. -/
theorem orderTo.push (h : orderTo q used used') (hu : q <+: u) : orderTo q used (u :: used') :=
  fun v hv => (List.mem_cons.mp hv).elim (fun he => .inr (he ▸ hu)) (h v)

end

namespace Walk

section

variable {q : Position} {l r : Tree} {used : List Position}

/-- Where nothing was asked for that comes after a position, it may be asked
for. -/
theorem ordering_asks {x : Exchange} (hasks : x.asks? = some q) (hx : x.Named)
    (h : orderFrom q used) : ordering.allows used x (q :: used) := by
  refine ⟨hx, fun q' hq' u hu => ?_, by rw [hasks]; rfl⟩
  rw [hasks] at hq'
  cases hq'
  exact (h u hu).1

/-- What asks for nothing is allowed. -/
theorem ordering_idle {x : Exchange} (hasks : x.asks? = none) : ordering.allows used x used := by
  refine ⟨?_, fun q hq => ?_, by rw [hasks]; rfl⟩
  · cases x with
    | builtin | launch => cases hasks
    | fork | channel | release | wait => trivial
  · rw [hasks] at hq
    cases hq

theorem ordering_waitBoth {first second : Child} {k : Ending → Ending → Walk}
    {Q : List Position → Except ExecError Int → Prop}
    (hfailed : ∀ e, Q used (.error e)) (hk : ∀ e₁ e₂, (k e₁ e₂).Obeys ordering used Q) :
    (waitBoth first second k).Obeys ordering used Q := by
  intro r₁
  refine ⟨_, ordering_idle rfl, fun r₂ => ⟨_, ordering_idle rfl, ?_⟩⟩
  cases r₁ with
  | error e => exact hfailed e
  | ok e₁ =>
      cases r₂ with
      | error e => exact hfailed e
      | ok e₂ => exact hk e₁ e₂

theorem ordering_parallel (onLeft onRight : Walk) (depth : Nat) (h : orderFrom q used) :
    (runParallel q ⟨l, onLeft⟩ ⟨r, onRight⟩ depth).Obeys ordering used
      fun used' _ => orderTo q used used' := by
  have started : orderTo (q ++ [.left]) used ((q ++ [.left]) :: used) :=
    (orderTo.refl _ _).push List.prefix_rfl
  have both : orderTo q used ((q ++ [.right]) :: (q ++ [.left]) :: used) :=
    started.of_side.push (List.prefix_append _ _)
  intro r₁
  refine ⟨_, ordering_asks rfl trivial h.left, ?_⟩
  cases r₁ with
  | error e => exact started.of_side
  | ok first =>
      intro r₂
      refine ⟨_, ordering_asks rfl trivial (h.right started), ?_⟩
      cases r₂ with
      | error e => exact fun _ => ⟨_, ordering_idle rfl, both⟩
      | ok second => exact ordering_waitBoth (fun _ => both) fun _ _ => both

theorem ordering_pipe (onLeft onRight : Walk) (depth : Nat) (h : orderFrom q used) :
    (runPipe q ⟨l, onLeft⟩ ⟨r, onRight⟩ depth).Obeys ordering used
      fun used' _ => orderTo q used used' := by
  have asked : orderTo q used (q :: used) := (orderTo.refl _ _).push List.prefix_rfl
  have started : orderTo q used ((q ++ [.left]) :: q :: used) :=
    asked.push (List.prefix_append _ _)
  have both : orderTo q used ((q ++ [.right]) :: (q ++ [.left]) :: q :: used) :=
    started.push (List.prefix_append _ _)
  -- the pipe itself is not in the way of its sides
  have beside : ∀ {side : Side}, ¬Before (q ++ [side]) q ∧ ¬q ++ [side] <+: q := by
    intro side
    have longer : ∀ side : Side, ¬q ++ [side] <+: q := fun side hpre => by
      have hlength := hpre.length_le
      rw [List.length_append, List.length_singleton] at hlength
      exact Nat.not_succ_le_self _ hlength
    refine ⟨fun hbefore => ?_, longer side⟩
    rcases hbefore.of_side with hq | ⟨-, hpre⟩
    · exact not_before_below List.prefix_rfl hq
    · exact longer _ hpre
  have onLeftSide : orderFrom (q ++ [.left]) (q :: used) :=
    List.forall_mem_cons.mpr ⟨beside, h.left⟩
  have onRightSide : orderFrom (q ++ [.right]) ((q ++ [.left]) :: q :: used) := by
    have above := h.right ((orderTo.refl (q ++ [.left]) used).push List.prefix_rfl)
    obtain ⟨hleft, hrest⟩ := List.forall_mem_cons.mp above
    exact List.forall_mem_cons.mpr ⟨hleft, List.forall_mem_cons.mpr ⟨beside, hrest⟩⟩
  intro r₀
  refine ⟨_, ordering_asks rfl trivial h, ?_⟩
  cases r₀ with
  | error e => exact asked
  | ok ch =>
      intro r₁
      refine ⟨_, ordering_asks rfl trivial onLeftSide, ?_⟩
      cases r₁ with
      | error e => exact ⟨_, ordering_idle rfl, started⟩
      | ok writer =>
          intro r₂
          refine ⟨_, ordering_asks rfl trivial onRightSide, ?_⟩
          cases r₂ with
          | error e => exact ⟨_, ordering_idle rfl, fun _ => ⟨_, ordering_idle rfl, both⟩⟩
          | ok reader =>
              exact ⟨_, ordering_idle rfl, ordering_waitBoth (fun _ => both) fun _ _ => both⟩

end

theorem ordering_covers :
    ordering.Covers (fun q _ used => orderFrom q used) fun q _ used used' _ =>
      orderTo q used used' where
  leaf := by
    intro q c used h
    have taken : orderTo q used (q :: used) := (orderTo.refl _ _).push List.prefix_rfl
    unfold ofCommand
    split
    · exact orderTo.refl _ _
    · next hverb =>
      split
      · next b hlookup => exact fun n => ⟨_, ordering_asks rfl hlookup h, taken⟩
      · next hlookup =>
        have hexternal : (Tree.leaf c).external? = some c := by
          simp only [Tree.external?, hverb, hlookup, Option.isNone_none, Bool.not_false,
            Bool.and_true, if_true]
        intro r
        refine ⟨_, ordering_asks rfl hexternal h, ?_⟩
        cases r with
        | error e => exact taken
        | ok child =>
            intro r
            refine ⟨_, ordering_idle rfl, ?_⟩
            cases r with
            | error e => exact taken
            | ok ending => exact taken
  first _ h := h.left
  second _ h hJ := h.right hJ
  both _ _ hJ hJ' := hJ.of_side.trans hJ'.of_side
  only _ _ hJ := hJ.of_side
  parallel onLeft onRight depth h := ordering_parallel onLeft onRight depth h
  pipe onLeft onRight depth h := ordering_pipe onLeft onRight depth h

/-- The walk of every tree asks for its parts from left to right. -/
theorem ordering_execute (t : Tree) (depth : Nat) (parent : Option Operator) (q : Position) :
    (execute t depth parent q).Obeys ordering [] fun _ _ => True :=
  (obeys_execute ordering_covers t depth parent q [] nofun).mono fun _ _ _ => trivial

end Walk

end LineShell
