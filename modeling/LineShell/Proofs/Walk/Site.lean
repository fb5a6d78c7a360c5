/-
Where in the tree a process does what it does.

# Positions

`Direct` says that only operators which go on in the same process lie on
the way down from one position to another. A process started for a
position acts directly below it, and starts others for the two sides of
the `|` and `&` that it meets there first. `innermostPipe` is the last
pipe on the way down to a position that has the position on a given side;
it is the same for all positions directly below one another.

# The contract

`siting` follows a walk with the pipe whose channel is open, and the
positions that channels and branches were asked for. Builtins and programs
come up with no channel open, branches of `&` likewise; branches of `|`
with the channel of that very pipe, of which the left gets the writing
side and the right the reading side. No pipe has a channel made twice, and
no branch is started twice: the positions that were asked for
(`Exchange.asks?`) are all different (`siting_used`).
-/
import Mathlib.Data.List.Induction
import LineShell.Proofs.Walk.Contract

namespace LineShell

-- ============================================================== positions

namespace Tree

@[simp] theorem sub?_nil (t : Tree) : t.sub? [] = some t := by
  cases t <;> rfl

theorem sub?_append (t : Tree) (q q' : Position) :
    t.sub? (q ++ q') = (t.sub? q).bind (·.sub? q') := by
  induction q generalizing t with
  | nil => rw [List.nil_append, sub?_nil, Option.bind_some]
  | cons side q ih =>
      cases t with
      | leaf c => rfl
      | node op l r =>
          cases side with
          | left => exact ih l
          | right => exact ih r

/-- The side of a node. -/
theorem sub?_side {t : Tree} {q : Position} {op : Operator} {l r : Tree}
    (h : t.sub? q = some (.node op l r)) (side : Side) :
    t.sub? (q ++ [side]) = some (match side with | .left => l | .right => r) := by
  rw [sub?_append, h, Option.bind_some]
  cases side <;> exact sub?_nil _

theorem op?_of_sub? {t : Tree} {q : Position} {op : Operator} {l r : Tree}
    (h : t.sub? q = some (.node op l r)) : t.op? q = some op := by
  rw [op?, h]

/-- What stands further down is smaller. -/
theorem sizeOf_sub? {t u : Tree} {q : Position} (h : t.sub? q = some u) (hq : q ≠ []) :
    sizeOf u < sizeOf t := by
  induction q generalizing t with
  | nil => exact absurd rfl hq
  | cons side q ih =>
      cases t with
      | leaf c => cases h
      | node op l r =>
          have inner : ∀ t' : Tree, t'.sub? q = some u → sizeOf u ≤ sizeOf t' := fun t' h' => by
            by_cases hnil : q = []
            · rw [hnil, sub?_nil] at h'
              exact Option.some.inj h' ▸ Nat.le_refl _
            · exact Nat.le_of_lt (ih h' hnil)
          cases side with
          | left =>
              have := inner l h
              simp only [node.sizeOf_spec]
              omega
          | right =>
              have := inner r h
              simp only [node.sizeOf_spec]
              omega

/-- The last pipe on the way down to a position that has the position on
this side. -/
def innermostPipe (side : Side) : Tree → Position → Option Position
  | .node op l r, s :: q =>
      match (match s with | .left => l.innermostPipe side q | .right => r.innermostPipe side q) with
      | some p => some (s :: p)
      | none => if op = .pipe ∧ s = side then some [] else none
  | _, _ => none

/-- It is a pipe, and has the position on this side. -/
theorem innermostPipe_spec {side : Side} {t : Tree} {q p : Position}
    (h : t.innermostPipe side q = some p) : t.op? p = some .pipe ∧ p ++ [side] <+: q := by
  induction t generalizing q p with
  | leaf c => cases q <;> cases h
  | node op l r ihl ihr =>
      cases q with
      | nil => cases h
      | cons s q =>
          simp only [innermostPipe] at h
          split at h
          · next p' hp =>
            cases h
            cases s with
            | left =>
                obtain ⟨hop, hpre⟩ := ihl hp
                exact ⟨hop, (List.cons_prefix_cons).mpr ⟨rfl, hpre⟩⟩
            | right =>
                obtain ⟨hop, hpre⟩ := ihr hp
                exact ⟨hop, (List.cons_prefix_cons).mpr ⟨rfl, hpre⟩⟩
          · split at h
            · next hop =>
              cases h
              obtain ⟨rfl, rfl⟩ := hop
              exact ⟨rfl, (List.cons_prefix_cons).mpr ⟨rfl, List.nil_prefix⟩⟩
            · cases h

/-- One step further down there is one more candidate. -/
theorem innermostPipe_side {t : Tree} {q : Position} {op : Operator} (h : t.op? q = some op)
    (side s : Side) : t.innermostPipe side (q ++ [s])
      = if op = .pipe ∧ s = side then some q else t.innermostPipe side q := by
  induction q generalizing t with
  | nil =>
      cases t with
      | leaf c => cases h
      | node op' l r =>
          cases h
          have none : ∀ u : Tree, u.innermostPipe side [] = none := fun u => by cases u <;> rfl
          cases s <;> simp only [List.nil_append, innermostPipe, none]
  | cons s' q ih =>
      cases t with
      | leaf c => cases h
      | node op' l r =>
          have inner : (match s' with | .left => l | .right => r).op? q = some op := by
            cases s' <;> exact h
          have ih := ih inner
          cases s' with
          | left =>
              simp only [List.cons_append, innermostPipe] at ih ⊢
              rw [ih]
              by_cases hp : op = .pipe ∧ s = side
              · simp only [hp, and_self, if_true]
              · simp only [hp, if_false]
          | right =>
              simp only [List.cons_append, innermostPipe] at ih ⊢
              rw [ih]
              by_cases hp : op = .pipe ∧ s = side
              · simp only [hp, and_self, if_true]
              · simp only [hp, if_false]

end Tree

/-- What lies on the one side of a node does not lie on the other. -/
theorem not_both_sides {q u : Position} {s s' : Side} (hne : s ≠ s') (h : q ++ [s] <+: u) :
    ¬q ++ [s'] <+: u := by
  intro h'
  have heq := List.prefix_of_prefix_length_le h h' (by simp)
  have := heq.eq_of_length (by simp)
  simp at this
  exact hne this

/-- From the one position down to the other, everything goes on in the
same process. -/
structure Direct (root : Tree) (origin q : Position) : Prop where
  below : origin <+: q
  sequel : ∀ r side, origin <+: r → r ++ [side] <+: q →
    ∃ op, root.op? r = some op ∧ op.isSequel = true

namespace Direct

variable {root : Tree} {origin q : Position}

theorem refl (root : Tree) (q : Position) : Direct root q q where
  below := List.prefix_rfl
  sequel r side hr hq := by
    have := hr.length_le
    have := hq.length_le
    simp at this
    omega

theorem step (h : Direct root origin q) {op : Operator} (hop : root.op? q = some op)
    (hseq : op.isSequel = true) (side : Side) : Direct root origin (q ++ [side]) where
  below := h.below.trans (List.prefix_append _ _)
  sequel r side' hr hpre := by
    rcases List.prefix_concat_iff.mp hpre with heq | hpre
    · obtain ⟨rfl, -⟩ := List.append_inj' heq rfl
      exact ⟨op, hop, hseq⟩
    · exact h.sequel r side' hr hpre

/-- What lies between is directly below as well. -/
theorem above (h : Direct root origin q) {r : Position} (hr : origin <+: r) (hq : r <+: q) :
    Direct root origin r where
  below := hr
  sequel r' side hr' hpre := h.sequel r' side hr' (hpre.trans hq)

/-- No pipe comes between. -/
theorem innermostPipe (h : Direct root origin q) (side : Side) :
    root.innermostPipe side q = root.innermostPipe side origin := by
  obtain ⟨below, sequel⟩ := h
  obtain ⟨q', rfl⟩ := below
  induction q' using List.reverseRecOn with
  | nil => rw [List.append_nil]
  | append_singleton q' s ih =>
      rw [← List.append_assoc] at sequel ⊢
      obtain ⟨op, hop, hseq⟩ := sequel _ s (List.prefix_append _ _) List.prefix_rfl
      rw [Tree.innermostPipe_side hop, if_neg, ih]
      · exact fun r side hr hpre => sequel r side hr (hpre.trans (List.prefix_append _ _))
      · rintro ⟨rfl, -⟩
        cases hseq

end Direct

-- ============================================================ the contract

/-- How a branch of a pipe is wired, by its side. -/
def Side.wiring : Side → Channel → Wiring
  | .left => .writer
  | .right => .reader

/-- What the branch on a side of a node is wired to, given the channel that
is open and the pipe it was made for: nothing under `&`, and the channel
of that very node under `|`. -/
def Side.IsWired (side : Side) (q : Position) (opened : Option (Position × Channel))
    (p : Operator) (w : Wiring) : Prop :=
  match opened with
  | none => p = .parallel ∧ w = .inherit
  | some (q', ch) => q' = q ∧ p = .pipe ∧ w = side.wiring ch

/-- What is known of a walk on its way. -/
structure Siting where
  /-- The channel that is open, with the pipe it was made for. -/
  opened : Option (Position × Channel) := none
  /-- The leaves that were taken up, the pipes that channels were asked for,
  and the branches that were. -/
  used : List Position := []

/-- A process started for a position acts directly below it, and asks for
nothing twice. -/
def siting (root : Tree) (origin : Position) : Contract Siting where
  allows s x s' :=
    match x with
    | .builtin q _ c _ | .launch q c _ =>
        q ∉ s.used ∧ s' = { s with used := q :: s.used } ∧ root.sub? q = some (.leaf c) ∧
          Direct root origin q ∧ s.opened = none
    | .fork q t _ p w _ =>
        q ∉ s.used ∧ s' = { s with used := q :: s.used } ∧ root.sub? q = some t ∧
          ∃ r side, q = r ++ [side] ∧ root.op? r = some p ∧ p.isSequel = false ∧
            Direct root origin r ∧ side.IsWired r s.opened p w
    | .channel q r =>
        q ∉ s.used ∧ s' = ⟨r.toOption.map (q, ·), q :: s.used⟩ ∧ root.op? q = some .pipe ∧
          Direct root origin q ∧ s.opened = none
    | .release ch => ∃ q, s.opened = some (q, ch) ∧ s' = { s with opened := none }
    | .wait _ _ => s.opened = none ∧ s' = s

/-- No channel is open, and nothing below the position was asked for. -/
def siteFrom (root : Tree) (origin q : Position) (t : Tree) (s : Siting) : Prop :=
  root.sub? q = some t ∧ Direct root origin q ∧ s.opened = none ∧ ∀ u ∈ s.used, ¬q <+: u

/-- No channel is open, and what was asked for is below the position. -/
def siteTo (q : Position) (s s' : Siting) : Prop :=
  s'.opened = none ∧ ∀ u ∈ s'.used, u ∈ s.used ∨ q <+: u

namespace Walk

variable {root : Tree} {origin : Position}

theorem obeys_siting_waitBoth {first second : Child} {k : Ending → Ending → Walk} {s : Siting}
    {Q : Siting → Except ExecError Int → Prop} (hs : s.opened = none)
    (hfailed : ∀ e, Q s (.error e)) (hk : ∀ e₁ e₂, (k e₁ e₂).Obeys (siting root origin) s Q) :
    (waitBoth first second k).Obeys (siting root origin) s Q := by
  intro r₁
  refine ⟨s, ⟨hs, rfl⟩, fun r₂ => ⟨s, ⟨hs, rfl⟩, ?_⟩⟩
  cases r₁ with
  | error e => exact hfailed e
  | ok e₁ =>
      cases r₂ with
      | error e => exact hfailed e
      | ok e₂ => exact hk e₁ e₂

section

variable {q : Position} {l r : Tree} {s : Siting} {op : Operator}

/-- One position more that was asked for. -/
theorem below_push {used used' : List Position} (h : ∀ u ∈ used', u ∈ used ∨ q <+: u)
    {p : Position} (hp : q <+: p) : ∀ u ∈ p :: used', u ∈ used ∨ q <+: u := by
  intro u hu
  rcases List.mem_cons.mp hu with rfl | hu
  · exact .inr hp
  · exact h u hu

/-- The branches of a node may be asked for while none of them was. -/
theorem siting_fork {used : List Position} {opened : Option (Position × Channel)}
    (h : root.sub? q = some (.node op l r)) (hop : op.isSequel = false)
    (hdirect : Direct root origin q) {side : Side} {t : Tree} (ht : root.sub? (q ++ [side]) = some t)
    (hused : q ++ [side] ∉ used) {w : Wiring} (hw : side.IsWired q opened op w) (depth : Nat)
    (answer : Except ExecError Child) : (siting root origin).allows ⟨opened, used⟩
      (.fork (q ++ [side]) t depth op w answer) ⟨opened, (q ++ [side]) :: used⟩ :=
  ⟨hused, rfl, ht, q, side, rfl, Tree.op?_of_sub? h, hop, hdirect, hw⟩

theorem siting_parallel (onLeft onRight : Walk) (depth : Nat)
    (h : siteFrom root origin q (.node .parallel l r) s) :
    (runParallel q ⟨l, onLeft⟩ ⟨r, onRight⟩ depth).Obeys (siting root origin) s
      fun s' _ => siteTo q s s' := by
  obtain ⟨hsub, hdirect, hopened, hused⟩ := h
  obtain ⟨opened, used⟩ := s
  obtain rfl : opened = none := hopened
  have started : siteTo q ⟨none, used⟩ ⟨none, (q ++ [.left]) :: used⟩ :=
    ⟨rfl, below_push (fun _ hu => .inl hu) (List.prefix_append _ _)⟩
  have both : siteTo q ⟨none, used⟩ ⟨none, (q ++ [.right]) :: (q ++ [.left]) :: used⟩ :=
    ⟨rfl, below_push started.2 (List.prefix_append _ _)⟩
  have unused : ∀ side : Side, q ++ [side] ∉ used :=
    fun side hu => hused _ hu (List.prefix_append _ _)
  have inherits : ∀ side : Side, side.IsWired q none .parallel .inherit := fun _ => ⟨rfl, rfl⟩
  intro r₁
  refine ⟨_, siting_fork hsub rfl hdirect (Tree.sub?_side hsub .left) (unused _) (inherits _)
    _ r₁, ?_⟩
  cases r₁ with
  | error e => exact started
  | ok first =>
      intro r₂
      refine ⟨_, siting_fork hsub rfl hdirect (Tree.sub?_side hsub .right) ?_ (inherits _) _
        r₂, ?_⟩
      · simpa using unused .right
      cases r₂ with
      | error e => exact fun _ => ⟨_, ⟨rfl, rfl⟩, both⟩
      | ok second => exact obeys_siting_waitBoth rfl (fun _ => both) fun _ _ => both

theorem siting_pipe (onLeft onRight : Walk) (depth : Nat)
    (h : siteFrom root origin q (.node .pipe l r) s) :
    (runPipe q ⟨l, onLeft⟩ ⟨r, onRight⟩ depth).Obeys (siting root origin) s
      fun s' _ => siteTo q s s' := by
  obtain ⟨hsub, hdirect, hopened, hused⟩ := h
  obtain ⟨opened, used⟩ := s
  obtain rfl : opened = none := hopened
  have asked : siteTo q ⟨none, used⟩ ⟨none, q :: used⟩ :=
    ⟨rfl, below_push (fun _ hu => .inl hu) List.prefix_rfl⟩
  have started : siteTo q ⟨none, used⟩ ⟨none, (q ++ [.left]) :: q :: used⟩ :=
    ⟨rfl, below_push asked.2 (List.prefix_append _ _)⟩
  have both : siteTo q ⟨none, used⟩ ⟨none, (q ++ [.right]) :: (q ++ [.left]) :: q :: used⟩ :=
    ⟨rfl, below_push started.2 (List.prefix_append _ _)⟩
  have unused : ∀ side : Side, q ++ [side] ∉ used :=
    fun side hu => hused _ hu (List.prefix_append _ _)
  intro r₀
  refine ⟨_, ⟨fun hu => hused q hu List.prefix_rfl, rfl, Tree.op?_of_sub? hsub, hdirect, rfl⟩, ?_⟩
  cases r₀ with
  | error e => exact asked
  | ok ch =>
      have plugged : ∀ side : Side, side.IsWired q (some (q, ch)) .pipe (side.wiring ch) :=
        fun _ => ⟨rfl, rfl, rfl⟩
      intro r₁
      refine ⟨_, siting_fork hsub rfl hdirect (Tree.sub?_side hsub .left) ?_ (plugged .left) _ r₁,
        ?_⟩
      · simpa using unused .left
      cases r₁ with
      | error e => exact ⟨_, ⟨q, rfl, rfl⟩, started⟩
      | ok writer =>
          intro r₂
          refine ⟨_, siting_fork hsub rfl hdirect (Tree.sub?_side hsub .right) ?_
            (plugged .right) _ r₂, ?_⟩
          · simpa using unused .right
          cases r₂ with
          | error e => exact ⟨_, ⟨q, rfl, rfl⟩, fun _ => ⟨_, ⟨rfl, rfl⟩, both⟩⟩
          | ok reader =>
              exact ⟨_, ⟨q, rfl, rfl⟩, obeys_siting_waitBoth rfl (fun _ => both) fun _ _ => both⟩

end

theorem siting_covers (root : Tree) (origin : Position) :
    (siting root origin).Covers (siteFrom root origin) fun q _ s s' _ => siteTo q s s' where
  leaf := by
    intro q c s h
    obtain ⟨hsub, hdirect, hopened, hused⟩ := h
    have fresh : q ∉ s.used := fun hu => hused q hu List.prefix_rfl
    have taken : siteTo q s { s with used := q :: s.used } :=
      ⟨hopened, below_push (fun _ hu => .inl hu) List.prefix_rfl⟩
    unfold ofCommand
    split
    · exact ⟨hopened, fun _ hu => .inl hu⟩
    · split
      · exact fun n => ⟨_, ⟨fresh, rfl, hsub, hdirect, hopened⟩, taken⟩
      · intro r
        refine ⟨_, ⟨fresh, rfl, hsub, hdirect, hopened⟩, ?_⟩
        cases r with
        | error e => exact taken
        | ok child =>
            intro r
            refine ⟨_, ⟨hopened, rfl⟩, ?_⟩
            cases r with
            | error e => exact taken
            | ok ending => exact taken
  first := by
    intro op q l r s hseq h
    obtain ⟨hsub, hdirect, hopened, hused⟩ := h
    exact ⟨Tree.sub?_side hsub .left, hdirect.step (Tree.op?_of_sub? hsub) hseq _, hopened,
      fun u hu hpre => hused u hu ((List.prefix_append _ _).trans hpre)⟩
  second := by
    intro op q l r s s' n hseq h hJ
    obtain ⟨hsub, hdirect, -, hused⟩ := h
    refine ⟨Tree.sub?_side hsub .right, hdirect.step (Tree.op?_of_sub? hsub) hseq _, hJ.1,
      fun u hu hpre => ?_⟩
    rcases hJ.2 u hu with hu | hleft
    · exact hused u hu ((List.prefix_append _ _).trans hpre)
    · exact not_both_sides (by decide) hleft hpre
  both := by
    intro op q l r s s' s'' n x hseq h hJ hJ'
    refine ⟨hJ'.1, fun u hu => ?_⟩
    rcases hJ'.2 u hu with hu | hpre
    · rcases hJ.2 u hu with hu | hpre
      · exact .inl hu
      · exact .inr ((List.prefix_append _ _).trans hpre)
    · exact .inr ((List.prefix_append _ _).trans hpre)
  only := by
    intro op q l r s s' x hseq h hJ
    refine ⟨hJ.1, fun u hu => ?_⟩
    rcases hJ.2 u hu with hu | hpre
    · exact .inl hu
    · exact .inr ((List.prefix_append _ _).trans hpre)
  parallel := fun onLeft onRight depth h => siting_parallel onLeft onRight depth h
  pipe := fun onLeft onRight depth h => siting_pipe onLeft onRight depth h

/-- The walk of every part of a tree acts directly below its position. -/
theorem siting_execute {t : Tree} (h : root.sub? origin = some t) (depth : Nat)
    (parent : Option Operator) :
    (execute t depth parent origin).Obeys (siting root origin) {} fun s _ => s.opened = none :=
  (obeys_execute (siting_covers root origin) t depth parent origin {}
    ⟨h, .refl _ _, rfl, nofun⟩).mono fun _ _ hJ => hJ.1

end Walk

-- ================================================================== askings

/-- The position that something is asked for: a leaf that is taken up, a
channel, or a branch. -/
def Exchange.asks? : Exchange → Option Position
  | .builtin q _ _ _ | .launch q _ _ | .channel q _ | .fork q _ _ _ _ _ => some q
  | .release _ | .wait _ _ => none

/-- The position where the process is that asks: a branch is asked for above
its own. -/
def Exchange.acts? : Exchange → Option Position
  | .builtin q _ _ _ | .launch q _ _ | .channel q _ => some q
  | .fork q _ _ _ _ _ => some q.dropLast
  | .release _ | .wait _ _ => none

/-- Who asks for something below a side of a position is itself at or below
the position. -/
theorem Exchange.acts_of_asks {x : Exchange} {u r : Position} {side : Side}
    (hu : x.asks? = some u) (hpre : r ++ [side] <+: u) :
    ∃ v, x.acts? = some v ∧ v <+: u ∧ r <+: v := by
  cases x with
  | builtin q b c n | launch q c answer | channel q answer =>
      cases hu
      exact ⟨u, rfl, List.prefix_rfl, (List.prefix_append _ _).trans hpre⟩
  | fork q t depth op w answer =>
      cases hu
      obtain ⟨rest, rfl⟩ := hpre
      refine ⟨_, rfl, List.dropLast_prefix _, ?_⟩
      rw [List.append_assoc, List.singleton_append,
        List.dropLast_append_of_ne_nil (List.cons_ne_nil _ _)]
      exact List.prefix_append _ _
  | release ch | wait child answer => cases hu

/-- The positions that were asked for are remembered, and all are
different. -/
theorem siting_used {root : Tree} {origin : Position} {s s' : Siting} {xs : List Exchange}
    (h : (siting root origin).Leads s xs s') (hs : s.used.Nodup) :
    s'.used = (xs.filterMap Exchange.asks?).reverse ++ s.used ∧ s'.used.Nodup := by
  induction h with
  | nil => exact ⟨rfl, hs⟩
  | @cons s s₁ _ x xs hx _ ih =>
      have idle : s₁.used = s.used → x.asks? = none →
          _ = ((x :: xs).filterMap Exchange.asks?).reverse ++ s.used ∧ _ := fun hu ha => by
        rw [List.filterMap_cons_none ha, ← hu]
        exact ih (hu ▸ hs)
      have asked : ∀ q, q ∉ s.used → s₁.used = q :: s.used → x.asks? = some q →
          _ = ((x :: xs).filterMap Exchange.asks?).reverse ++ s.used ∧ _ := fun q hq hu ha => by
        rw [List.filterMap_cons_some ha, List.reverse_cons, List.append_assoc,
          List.singleton_append, ← hu]
        exact ih (hu ▸ List.nodup_cons.mpr ⟨hq, hs⟩)
      cases x with
      | builtin q _ _ _ | launch q _ _ | fork q _ _ _ _ _ | channel q _ =>
          obtain ⟨hq, rfl, -⟩ := hx
          exact asked q hq rfl rfl
      | release ch =>
          obtain ⟨q, -, rfl⟩ := hx
          exact idle rfl rfl
      | wait child r =>
          obtain ⟨-, rfl⟩ := hx
          exact idle rfl rfl

end LineShell
