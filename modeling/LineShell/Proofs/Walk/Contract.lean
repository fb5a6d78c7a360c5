/-
What is true of every path of a walk, whoever answers it.

# Paths

A walk is a tree of questions. `Walk.Path` follows it for a while: the
exchanges (questions with their answers) that lead from one walk to what
is left of it. A `Dialogue` follows it to its end.

# Contracts

A claim about all launchers is a claim about all paths. A `Contract` keeps
a state along a path: it says which exchanges a state allows and where
they lead. `Walk.Obeys` is the weakest precondition of a walk under a
contract: whatever is answered, every exchange is allowed, and at the end
a postcondition holds of the last state and the result. An obeying walk
keeps the contract along each of its paths (`Obeys.path`).

# Trees

`obeys_execute` is the induction over trees, made once: a contract that
has rules for leaves, for the three operators that go on in the same
process, for `&` and for `|` is obeyed by the walk of every tree. The
operators `;`, `&&` and `||` differ only in which result of the left side
leads where, so they share their rules. What a branch does in its own
process is no part of a path; but its walk is that of the subtree it is
asked for (`faithful_execute`), so the same contracts hold there.
-/
import LineShell.Rehearsal

namespace LineShell

-- =============================================================== exchanges

/-- One question of a walk with its answer. What is only logged is left
out. -/
inductive Exchange where
  | builtin (site : Position) (b : Builtin) (c : Command) (status : Int)
  | launch (site : Position) (c : Command) (answer : Except ExecError Child)
  | fork (site : Position) (tree : Tree) (depth : Nat) (parent : Operator) (wiring : Wiring)
      (answer : Except ExecError Child)
  | channel (site : Position) (answer : Except ExecError Channel)
  | release (ch : Channel)
  | wait (child : Child) (answer : Except ExecError Ending)

namespace Walk

/-- The exchanges that lead from a walk to what is left of it. -/
inductive Path : Walk → List Exchange → Walk → Prop where
  | here {w : Walk} : Path w [] w
  | log {level : Level} {text : String} {next w : Walk} {xs : List Exchange} :
      Path next xs w → Path (log level text next) xs w
  | builtin {q : Position} {b : Builtin} {c : Command} {next : Int → Walk} {w : Walk}
      {xs : List Exchange} (n : Int) :
      Path (next n) xs w → Path (builtin q b c next) (.builtin q b c n :: xs) w
  | launch {q : Position} {c : Command} {next : Except ExecError Child → Walk} {w : Walk}
      {xs : List Exchange} (r : Except ExecError Child) :
      Path (next r) xs w → Path (launch q c next) (.launch q c r :: xs) w
  | fork {q : Position} {t : Tree} {d : Nat} {p : Operator} {wiring : Wiring} {branch : Walk}
      {next : Except ExecError Child → Walk} {w : Walk} {xs : List Exchange}
      (r : Except ExecError Child) :
      Path (next r) xs w → Path (fork q t d p wiring branch next) (.fork q t d p wiring r :: xs) w
  | channel {q : Position} {next : Except ExecError Channel → Walk} {w : Walk}
      {xs : List Exchange} (r : Except ExecError Channel) :
      Path (next r) xs w → Path (channel q next) (.channel q r :: xs) w
  | release {ch : Channel} {next w : Walk} {xs : List Exchange} :
      Path next xs w → Path (release ch next) (.release ch :: xs) w
  | wait {child : Child} {next : Except ExecError Ending → Walk} {w : Walk}
      {xs : List Exchange} (r : Except ExecError Ending) :
      Path (next r) xs w → Path (wait child next) (.wait child r :: xs) w

/-- Paths in sequence. -/
theorem Path.trans {w₁ w₂ w₃ : Walk} {xs ys : List Exchange} (h : Path w₁ xs w₂)
    (h' : Path w₂ ys w₃) : Path w₁ (xs ++ ys) w₃ := by
  induction h with
  | here => exact h'
  | log _ ih => exact .log (ih h')
  | builtin n _ ih => exact .builtin n (ih h')
  | launch r _ ih => exact .launch r (ih h')
  | fork r _ ih => exact .fork r (ih h')
  | channel r _ ih => exact .channel r (ih h')
  | release _ ih => exact .release (ih h')
  | wait r _ ih => exact .wait r (ih h')

/-- How a walk that asks nothing more leaves off; the builtin that ends
the process leaves off likewise. -/
def LeavesOff : Walk → Outcome → Prop
  | done n, o => o = .finished n
  | failed e, o => o = .failed e
  | builtin _ .exit _ _, o => o = .left
  | _, _ => False

/-- A walk answered to its end: the exchanges, and how it leaves off. -/
def Dialogue (w : Walk) (xs : List Exchange) (o : Outcome) : Prop :=
  ∃ w', w.Path xs w' ∧ w'.LeavesOff o

end Walk

-- =============================================================== contracts

/-- States along a path of a walk, of type `σ`: which exchange may take
place in which state, and where it leads. -/
structure Contract (σ : Type) where
  allows : σ → Exchange → σ → Prop

/-- A list of exchanges leads from one state to another. -/
inductive Contract.Leads {σ : Type} (C : Contract σ) : σ → List Exchange → σ → Prop where
  | nil {s : σ} : Leads C s [] s
  | cons {s s' s'' : σ} {x : Exchange} {xs : List Exchange} :
      C.allows s x s' → Leads C s' xs s'' → Leads C s (x :: xs) s''

namespace Contract.Leads

variable {σ : Type} {C : Contract σ} {s s' s'' : σ} {x : Exchange} {xs : List Exchange}

/-- One exchange more. -/
theorem snoc (h : C.Leads s xs s') (hx : C.allows s' x s'') : C.Leads s (xs ++ [x]) s'' := by
  induction h with
  | nil => exact .cons hx .nil
  | cons hy _ ih => exact .cons hy (ih hx)

/-- Each of the exchanges was allowed. -/
theorem allowed (h : C.Leads s xs s') (hx : x ∈ xs) : ∃ t t', C.allows t x t' := by
  induction h with
  | nil => cases hx
  | cons hy _ ih =>
      rcases List.mem_cons.mp hx with rfl | hx
      · exact ⟨_, _, hy⟩
      · exact ih hx

end Contract.Leads

namespace Walk

variable {σ : Type} {C : Contract σ}

/-- Whatever is answered, the walk keeps the contract from the state, and
the postcondition holds at its end. -/
def Obeys (C : Contract σ) : Walk → σ → (σ → Except ExecError Int → Prop) → Prop
  | done n, s, Q => Q s (.ok n)
  | failed e, s, Q => Q s (.error e)
  | log _ _ next, s, Q => next.Obeys C s Q
  | builtin q b c next, s, Q =>
      ∀ n, ∃ s', C.allows s (.builtin q b c n) s' ∧ (next n).Obeys C s' Q
  | launch q c next, s, Q =>
      ∀ r, ∃ s', C.allows s (.launch q c r) s' ∧ (next r).Obeys C s' Q
  | fork q t d p w _ next, s, Q =>
      ∀ r, ∃ s', C.allows s (.fork q t d p w r) s' ∧ (next r).Obeys C s' Q
  | channel q next, s, Q =>
      ∀ r, ∃ s', C.allows s (.channel q r) s' ∧ (next r).Obeys C s' Q
  | release ch next, s, Q =>
      ∃ s', C.allows s (.release ch) s' ∧ next.Obeys C s' Q
  | wait child next, s, Q =>
      ∀ r, ∃ s', C.allows s (.wait child r) s' ∧ (next r).Obeys C s' Q

/-- A weaker postcondition is kept as well. -/
theorem Obeys.mono {Q Q' : σ → Except ExecError Int → Prop} (hQ : ∀ s r, Q s r → Q' s r) :
    ∀ {w : Walk} {s : σ}, w.Obeys C s Q → w.Obeys C s Q' := by
  intro w
  induction w with
  | done n => intro s h; exact hQ _ _ h
  | failed e => intro s h; exact hQ _ _ h
  | log _ _ next ih => intro s h; exact ih h
  | builtin q b c next ih | launch q c next ih | fork q t d p w branch next _ ih
  | channel q next ih | wait child next ih =>
      intro s h r
      obtain ⟨s', hs', h'⟩ := h r
      exact ⟨s', hs', ih r h'⟩
  | release ch next ih =>
      intro s h
      obtain ⟨s', hs', h'⟩ := h
      exact ⟨s', hs', ih h'⟩

/-- Walks in sequence: where the first is done the second takes over, and
a failure is the failure of both. -/
theorem obeys_bind {Q : σ → Except ExecError Int → Prop} {k : Int → Walk} :
    ∀ {w : Walk} {s : σ},
      w.Obeys C s (fun s' r =>
        match r with
        | .ok n => (k n).Obeys C s' Q
        | .error e => Q s' (.error e)) →
      (w.bind k).Obeys C s Q := by
  intro w
  induction w with
  | done n => intro s h; exact h
  | failed e => intro s h; exact h
  | log _ _ next ih => intro s h; exact ih h
  | builtin q b c next ih | launch q c next ih | fork q t d p w branch next _ ih
  | channel q next ih | wait child next ih =>
      intro s h r
      obtain ⟨s', hs', h'⟩ := h r
      exact ⟨s', hs', ih r h'⟩
  | release ch next ih =>
      intro s h
      obtain ⟨s', hs', h'⟩ := h
      exact ⟨s', hs', ih h'⟩

/-- Along each of its paths an obeying walk keeps the contract, and what
is left of it obeys in turn. -/
theorem Obeys.path {Q : σ → Except ExecError Int → Prop} {w w' : Walk} {xs : List Exchange}
    (hp : w.Path xs w') :
    ∀ {s : σ}, w.Obeys C s Q → ∃ s', C.Leads s xs s' ∧ w'.Obeys C s' Q := by
  induction hp with
  | here => intro s h; exact ⟨s, .nil, h⟩
  | log _ ih => intro s h; exact ih h
  | builtin r _ ih | launch r _ ih | fork r _ ih | channel r _ ih | wait r _ ih =>
      intro s h
      obtain ⟨s', hs', h'⟩ := h r
      obtain ⟨s'', hl, hend⟩ := ih h'
      exact ⟨s'', .cons hs' hl, hend⟩
  | release _ ih =>
      intro s h
      obtain ⟨s', hs', h'⟩ := h
      obtain ⟨s'', hl, hend⟩ := ih h'
      exact ⟨s'', .cons hs' hl, hend⟩

end Walk

-- ================================================================ tracing

/-- The outcome of a walk with a result. -/
def Outcome.ofResult : Except ExecError Int → Outcome
  | .ok n => .finished n
  | .error e => .failed e

/-- The state is what is left of a walk, and each exchange leads on in it. -/
def tracing : Contract Walk where
  allows w x w' := w.Path [x] w'

theorem tracing_path {w w' : Walk} {xs : List Exchange} (h : tracing.Leads w xs w') :
    w.Path xs w' := by
  induction h with
  | nil => exact .here
  | cons hx _ ih => exact hx.trans ih

/-- Every walk follows itself, up to what it logs. -/
theorem Walk.obeys_tracing {s w : Walk} (h : s.Path [] w) :
    w.Obeys tracing s fun s r => s.Dialogue [] (.ofResult r) := by
  induction w generalizing s with
  | done n => exact ⟨_, h, rfl⟩
  | failed e => exact ⟨_, h, rfl⟩
  | log level text next ih => exact ih (h.trans (.log .here))
  | builtin q b c next ih => exact fun n => ⟨next n, h.trans (.builtin n .here), ih n .here⟩
  | launch q c next ih => exact fun r => ⟨next r, h.trans (.launch r .here), ih r .here⟩
  | fork q t d p w branch next _ ih => exact fun r => ⟨next r, h.trans (.fork r .here), ih r .here⟩
  | channel q next ih => exact fun r => ⟨next r, h.trans (.channel r .here), ih r .here⟩
  | release ch next ih => exact ⟨next, h.trans (.release .here), ih .here⟩
  | wait child next ih => exact fun r => ⟨next r, h.trans (.wait r .here), ih r .here⟩

-- ======================================================= external commands

/-- A tree that is nothing but a program is a leaf which names it. -/
theorem Tree.external?_eq_some {t : Tree} {c : Command} :
    t.external? = some c ↔ t = .leaf c ∧ c.verb.isEmpty = false ∧ Builtin.lookup c = none := by
  cases t with
  | leaf c' =>
      rw [external?, Option.ite_none_right_eq_some, Bool.and_eq_true, Bool.not_eq_true',
        Option.isNone_iff_eq_none, Option.some_inj, Tree.leaf.injEq]
      constructor
      · rintro ⟨hnamed, rfl⟩
        exact ⟨rfl, hnamed⟩
      · rintro ⟨rfl, hnamed⟩
        exact ⟨hnamed, rfl⟩
  | node op l r => exact ⟨nofun, fun h => nomatch h.1⟩

-- =================================================== the rule for trees

/-- The operators that go on in the same process. -/
def Operator.isSequel : Operator → Bool
  | sequential | andThen | orElse => true
  | parallel | pipe => false

/-- What a contract has to settle for the walks of all trees to obey it.
`I` says from which states the walk of a tree at a position may start, `J`
in which it ends, given the one from which it started. -/
structure Contract.Covers {σ : Type} (C : Contract σ) (I : Position → Tree → σ → Prop)
    (J : Position → Tree → σ → σ → Except ExecError Int → Prop) : Prop where
  leaf : ∀ {q c s}, I q (.leaf c) s → (Walk.ofCommand q c).Obeys C s (J q (.leaf c) s)
  first : ∀ {op q l r s}, op.isSequel = true → I q (.node op l r) s → I (q ++ [.left]) l s
  second : ∀ {op q l r s s' n}, op.isSequel = true → I q (.node op l r) s →
    J (q ++ [.left]) l s s' (.ok n) → I (q ++ [.right]) r s'
  both : ∀ {op q l r s s' s'' n x}, op.isSequel = true → I q (.node op l r) s →
    J (q ++ [.left]) l s s' (.ok n) → J (q ++ [.right]) r s' s'' x → J q (.node op l r) s s'' x
  /-- The left side alone: it failed, or its status has the right side left out. -/
  only : ∀ {op q l r s s' x}, op.isSequel = true → I q (.node op l r) s →
    J (q ++ [.left]) l s s' x → J q (.node op l r) s s' x
  parallel : ∀ {q l r s} (onLeft onRight : Walk) (depth : Nat), I q (.node .parallel l r) s →
    (Walk.runParallel q ⟨l, onLeft⟩ ⟨r, onRight⟩ depth).Obeys C s (J q (.node .parallel l r) s)
  pipe : ∀ {q l r s} (onLeft onRight : Walk) (depth : Nat), I q (.node .pipe l r) s →
    (Walk.runPipe q ⟨l, onLeft⟩ ⟨r, onRight⟩ depth).Obeys C s (J q (.node .pipe l r) s)

namespace Walk

/-- The walk of every tree obeys a contract that covers trees. -/
theorem obeys_execute {σ : Type} {C : Contract σ} {I : Position → Tree → σ → Prop}
    {J : Position → Tree → σ → σ → Except ExecError Int → Prop} (h : C.Covers I J) :
    ∀ (t : Tree) (depth : Nat) (parent : Option Operator) (q : Position) (s : σ),
      I q t s → (execute t depth parent q).Obeys C s (J q t s) := by
  intro t
  induction t with
  | leaf c => intro depth parent q s hI; exact h.leaf hI
  | node op l r ihl ihr =>
      intro depth parent q s hI
      have onLeft := fun s => ihl (depth + 1) (some op) (q ++ [.left]) s
      have onRight := fun s => ihr (depth + 1) (some op) (q ++ [.right]) s
      cases op with
      | sequential =>
          refine obeys_bind ((onLeft s (h.first rfl hI)).mono fun s' x hJ => ?_)
          cases x with
          | error e => exact h.only rfl hI hJ
          | ok n => exact (onRight s' (h.second rfl hI hJ)).mono fun _ _ => h.both rfl hI hJ
      | andThen =>
          refine obeys_bind ((onLeft s (h.first rfl hI)).mono fun s' x hJ => ?_)
          cases x with
          | error e => exact h.only rfl hI hJ
          | ok n =>
              by_cases hn : n = 0
              · simp only [hn, if_true] at hJ ⊢
                exact (onRight s' (h.second rfl hI hJ)).mono fun _ _ => h.both rfl hI hJ
              · simp only [hn, if_false]
                exact h.only rfl hI hJ
      | orElse =>
          refine obeys_bind ((onLeft s (h.first rfl hI)).mono fun s' x hJ => ?_)
          cases x with
          | error e => exact h.only rfl hI hJ
          | ok n =>
              by_cases hn : n = 0
              · subst hn
                exact h.only rfl hI hJ
              · simp only [ne_eq, hn, not_false_eq_true, if_true]
                exact (onRight s' (h.second rfl hI hJ)).mono fun _ _ => h.both rfl hI hJ
      | parallel => exact h.parallel _ _ (depth + 1) hI
      | pipe => exact h.pipe _ _ (depth + 1) hI

-- ================================================================ branches

/-- Each branch that is asked for has the walk of its subtree at its
site. -/
def Faithful : Walk → Prop
  | done _ | failed _ => True
  | log _ _ next => next.Faithful
  | builtin _ _ _ next => ∀ n, (next n).Faithful
  | launch _ _ next => ∀ r, (next r).Faithful
  | fork q t d p _ branch next => branch = execute t d (some p) q ∧ ∀ r, (next r).Faithful
  | channel _ next => ∀ r, (next r).Faithful
  | release _ next => next.Faithful
  | wait _ next => ∀ r, (next r).Faithful

theorem faithful_bind {k : Int → Walk} (hk : ∀ n, (k n).Faithful) :
    ∀ {w : Walk}, w.Faithful → (w.bind k).Faithful := by
  intro w
  induction w with
  | done n => intro _; exact hk n
  | failed e => intro h; exact h
  | log _ _ next ih | release _ next ih => intro h; exact ih h
  | builtin q b c next ih | launch q c next ih | channel q next ih | wait child next ih =>
      intro h r
      exact ih r (h r)
  | fork q t d p w branch next _ ih => intro h; exact ⟨h.1, fun r => ih r (h.2 r)⟩

theorem faithful_waitBoth {first second : Child} {k : Ending → Ending → Walk}
    (hk : ∀ e₁ e₂, (k e₁ e₂).Faithful) : (waitBoth first second k).Faithful := by
  intro r₁ r₂
  cases r₁ with
  | error e => trivial
  | ok e₁ =>
      cases r₂ with
      | error e => trivial
      | ok e₂ => exact hk e₁ e₂

/-- The walk of a tree asks for no other branches than those of its
subtrees. -/
theorem faithful_execute (t : Tree) (depth : Nat) (parent : Option Operator) (q : Position) :
    (execute t depth parent q).Faithful := by
  induction t generalizing depth parent q with
  | leaf c =>
      simp only [execute, Faithful]
      unfold ofCommand
      split
      · trivial
      · split
        · exact fun _ => trivial
        · intro r
          cases r with
          | error e => trivial
          | ok child =>
              intro r
              cases r with
              | error e => trivial
              | ok ending => trivial
  | node op l r ihl ihr =>
      cases op with
      | sequential => exact faithful_bind (fun _ => ihr _ _ _) (ihl _ _ _)
      | andThen =>
          refine faithful_bind (fun n => ?_) (ihl _ _ _)
          split
          · exact ihr _ _ _
          · trivial
      | orElse =>
          refine faithful_bind (fun n => ?_) (ihl _ _ _)
          split
          · exact ihr _ _ _
          · trivial
      | parallel =>
          refine ⟨rfl, fun r₁ => ?_⟩
          cases r₁ with
          | error e => trivial
          | ok first =>
              refine ⟨rfl, fun r₂ => ?_⟩
              cases r₂ with
              | error e => exact fun _ => trivial
              | ok second => exact faithful_waitBoth fun _ _ => trivial
      | pipe =>
          intro r₀
          cases r₀ with
          | error e => trivial
          | ok ch =>
              refine ⟨rfl, fun r₁ => ?_⟩
              cases r₁ with
              | error e => trivial
              | ok writer =>
                  refine ⟨rfl, fun r₂ => ?_⟩
                  cases r₂ with
                  | error e => exact fun _ => trivial
                  | ok reader =>
                      change (waitBoth writer reader _).Faithful
                      exact faithful_waitBoth fun _ _ => trivial

end Walk

end LineShell
