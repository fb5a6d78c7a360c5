/-
What a tree comes to, as a function of what comes of its parts.

# Verdicts

Nothing that a walk is told leaves it a choice. If it is known to which
statuses the builtins of a tree come, how its programs end, which of its
pipes cannot be made and which of its branches are killed (`Answers`), then
its result follows by recursion on the tree (`Tree.verdict`), in which
processes and descriptors are no longer mentioned. A branch ends with the
verdict on its subtree, unless it is killed, or is one external command and
ends as that program does.

# Statuses

`assuming` collects what is assumed of the answers on the way: no exchange
is forbidden, and the state says whether all of them were good. Under the
assumption that builtins and children come to statuses, so does the walk of
every tree (`status_execute`).
-/
import LineShell.Posix.Signal
import LineShell.Proofs.Posix.Ended
import LineShell.Proofs.Walk.Failure

namespace LineShell

open Posix

-- ================================================================ verdicts

/-- The code of a process that evaluates a tree to the result. -/
def exitCode : Except ExecError Int → Int
  | .ok status => status
  | .error _ => exitFailure

/-- What a walk is told of a child, by how it ended. A signal without a
name is a failure. -/
def told : Ending → Except ExecError Ending
  | .exited code => .ok (.exited code)
  | .signaled n => if (Signal.name? n).isSome then .ok (.signaled n) else .error (.wait .EINVAL)

/-- Who is told an ending is told the right one. -/
theorem of_told {e e' : Ending} (h : told e = .ok e') : e' = e := by
  unfold told at h
  split at h
  · cases h
    rfl
  · split at h
    · cases h
      rfl
    · cases h

/-- What comes of the parts of a tree, by their positions. -/
structure Answers where
  /-- The status of a builtin. -/
  builtin : Position → Int
  /-- How a program ends. -/
  program : Position → Ending
  /-- Why the channel of a pipe cannot be made, if it cannot. -/
  channel : Position → Option ExecError
  /-- The signal that a branch is killed by, if it is. -/
  killed : Position → Option Int

namespace Answers

/-- How the branch for a subtree ends, given the result of its walk. -/
def ending (o : Answers) (t : Tree) (q : Position) (r : Except ExecError Int) : Ending :=
  if t.external?.isSome then o.program q
  else
    match o.killed q with
    | some n => .signaled n
    | none => .exited (exitCode r)

end Answers

/-- Of two endings a status is made. -/
def both (f : Ending → Ending → Int) (first second : Ending) : Except ExecError Int := do
  let e₁ ← told first
  let e₂ ← told second
  pure (f e₁ e₂)

namespace Tree

/-- The result of the walk of a tree at a position. -/
def verdict (o : Answers) : Tree → Position → Except ExecError Int
  | leaf c, q =>
      if c.verb.isEmpty then .ok 0
      else
        match Builtin.lookup c with
        | some _ => .ok (o.builtin q)
        | none => (told (o.program q)).map Ending.status
  | node op l r, q =>
      let onLeft := l.verdict o (q ++ [.left])
      let onRight := r.verdict o (q ++ [.right])
      let first := o.ending l (q ++ [.left]) onLeft
      let second := o.ending r (q ++ [.right]) onRight
      match op with
      | .sequential => onLeft.bind fun _ => onRight
      | .andThen => onLeft.bind fun s => if s = 0 then onRight else .ok s
      | .orElse => onLeft.bind fun s => if s ≠ 0 then onRight else .ok 0
      | .parallel => both Walk.parallelStatus first second
      | .pipe =>
          match o.channel q with
          | some e => .error e
          | none => both Walk.pipeStatus first second

end Tree

/-- The verdict on an external command is the status of its program. -/
theorem Tree.verdict_external {o : Answers} {t : Tree} (h : t.external?.isSome) (q : Position) :
    t.verdict o q = (told (o.program q)).map Ending.status := by
  obtain ⟨c, hc⟩ := Option.isSome_iff_exists.mp h
  obtain ⟨rfl, hverb, hlookup⟩ := external?_eq_some.mp hc
  simp only [verdict, hverb, hlookup, Bool.false_eq_true, if_false]

-- =================================================================== parts

/-- What a process is started for. -/
inductive Part where
  | program (site : Position)
  | branch (site : Position) (tree : Tree)
  deriving DecidableEq

/-- What a branch for the subtree is there for. -/
def Tree.part (t : Tree) (q : Position) : Part :=
  if t.external?.isSome then .program q else .branch q t

-- ============================================================= assumptions

/-- Everything is allowed, and the state says whether all was good. -/
def assuming (good : Exchange → Prop) : Contract Prop where
  allows s x s' := s' = (s ∧ good x)

theorem assuming_leads {good : Exchange → Prop} {s s' : Prop} {xs : List Exchange}
    (h : (assuming good).Leads s xs s') (hs : s) (hgood : ∀ x ∈ xs, good x) : s' := by
  induction h with
  | nil => exact hs
  | cons hx _ ih =>
      obtain ⟨hfirst, hrest⟩ := List.forall_mem_cons.mp hgood
      exact ih (hx ▸ ⟨hs, hfirst⟩) hrest

/-- Where a walk is told of a status, it is one. -/
def Exchange.Ranged : Exchange → Prop
  | .builtin _ _ _ n => IsStatus n
  | .wait _ (.ok (.exited code)) => IsStatus code
  | _ => True

namespace Walk

-- ================================================================ statuses

/-- If all was good, the code of the result is a status. -/
def Ranges (s s' : Prop) (r : Except ExecError Int) : Prop :=
  (s' → s) ∧ (s' → IsStatus (exitCode r))

theorem isStatus_exitFailure : IsStatus exitFailure := by
  constructor <;> decide

/-- A child's status is one. -/
theorem isStatus_status {child : Child} {e : Ending}
    (h : Exchange.Ranged (.wait child (.ok e))) : IsStatus e.status := by
  cases e with
  | exited code => exact h
  | signaled n => exact isStatus_exitFailure

theorem isStatus_pipeStatus {e₁ e₂ : Ending} (h : IsStatus e₂.status) :
    IsStatus (pipeStatus e₁ e₂) := by
  unfold pipeStatus
  split
  · exact isStatus_exitFailure
  · exact h

theorem isStatus_parallelStatus {e₁ e₂ : Ending} (h₁ : IsStatus e₁.status)
    (h₂ : IsStatus e₂.status) : IsStatus (parallelStatus e₁ e₂) := by
  unfold parallelStatus
  split
  · exact h₁
  split
  · exact h₂
  · constructor <;> decide

theorem ranged_waitBoth {first second : Child} {level : Level} {text : Ending → Ending → String}
    {f : Ending → Ending → Int}
    (hf : ∀ e₁ e₂ : Ending, IsStatus e₁.status → IsStatus e₂.status → IsStatus (f e₁ e₂))
    {s : Prop} {Q : Prop → Except ExecError Int → Prop}
    (hQ : ∀ s' r, (s' → s) → (s' → IsStatus (exitCode r)) → Q s' r) :
    (waitBoth first second fun e₁ e₂ => log level (text e₁ e₂) (done (f e₁ e₂))).Obeys
      (assuming Exchange.Ranged) s Q := by
  intro r₁
  refine ⟨_, rfl, fun r₂ => ⟨_, rfl, ?_⟩⟩
  cases r₁ with
  | error e => exact hQ _ _ (fun h => h.1.1) fun _ => isStatus_exitFailure
  | ok e₁ =>
      cases r₂ with
      | error e => exact hQ _ _ (fun h => h.1.1) fun _ => isStatus_exitFailure
      | ok e₂ =>
          exact hQ _ _ (fun h => h.1.1)
            fun h => hf e₁ e₂ (isStatus_status h.1.2) (isStatus_status h.2)

theorem status_covers :
    (assuming Exchange.Ranged).Covers (fun _ _ _ => True) fun _ _ s s' r => Ranges s s' r where
  leaf := by
    intro q c s _
    unfold ofCommand
    split
    · exact ⟨id, fun _ => by constructor <;> decide⟩
    · split
      · exact fun n => ⟨_, rfl, fun h => h.1, fun h => h.2⟩
      · intro r
        refine ⟨_, rfl, ?_⟩
        cases r with
        | error e => exact ⟨fun h => h.1, fun _ => isStatus_exitFailure⟩
        | ok child =>
            intro r
            refine ⟨_, rfl, ?_⟩
            cases r with
            | error e => exact ⟨fun h => h.1.1, fun _ => isStatus_exitFailure⟩
            | ok e => exact ⟨fun h => h.1.1, fun h => isStatus_status h.2⟩
  first _ _ := trivial
  second _ _ _ := trivial
  both := by
    intro op q l r s s' s'' n x _ _ hJ hJ'
    exact ⟨fun h => hJ.1 (hJ'.1 h), hJ'.2⟩
  only _ _ hJ := hJ
  parallel := by
    intro q l r s onLeft onRight depth _ r₁
    refine ⟨_, rfl, ?_⟩
    cases r₁ with
    | error e => exact ⟨fun h => h.1, fun _ => isStatus_exitFailure⟩
    | ok first =>
        intro r₂
        refine ⟨_, rfl, ?_⟩
        cases r₂ with
        | error e => exact fun r => ⟨_, rfl, fun h => h.1.1.1, fun _ => isStatus_exitFailure⟩
        | ok second =>
            exact ranged_waitBoth (fun _ _ => isStatus_parallelStatus)
              fun s' x hs hx => ⟨fun h => (hs h).1.1, hx⟩
  pipe := by
    intro q l r s onLeft onRight depth _ r₀
    refine ⟨_, rfl, ?_⟩
    cases r₀ with
    | error e => exact ⟨fun h => h.1, fun _ => isStatus_exitFailure⟩
    | ok ch =>
        intro r₁
        refine ⟨_, rfl, ?_⟩
        cases r₁ with
        | error e => exact ⟨_, rfl, fun h => h.1.1.1, fun _ => isStatus_exitFailure⟩
        | ok writer =>
            intro r₂
            refine ⟨_, rfl, ?_⟩
            cases r₂ with
            | error e =>
                exact ⟨_, rfl, fun r => ⟨_, rfl, fun h => h.1.1.1.1.1, fun _ => isStatus_exitFailure⟩⟩
            | ok reader =>
                refine ⟨_, rfl, ?_⟩
                exact ranged_waitBoth (fun _ _ _ => isStatus_pipeStatus)
                  fun s' x hs hx => ⟨fun h => (hs h).1.1.1.1, hx⟩

/-- The walk of every tree comes to a status, or to a failure. -/
theorem status_execute (t : Tree) (depth : Nat) (parent : Option Operator) (q : Position) :
    (execute t depth parent q).Obeys (assuming Exchange.Ranged) True
      fun s r => s → IsStatus (exitCode r) :=
  (obeys_execute status_covers t depth parent q True trivial).mono fun _ _ hJ => hJ.2

end Walk

end LineShell
