/-
The first primitive that fails is what a walk fails with.

`failing` keeps the first failure of a path. While there is none, anything
may be done; after it, children are waited for and channels given up, and
nothing else is asked any more. Failures of these waits do not take the
place of the first one. Every walk of a tree obeys this, and at its end the
failure that is kept is that of its result (`failing_execute`): a walk ends
with a status if nothing failed, and otherwise with the first failure.
-/
import LineShell.Proofs.Walk.Contract

namespace LineShell

/-- The failure that an exchange brings. -/
def Exchange.failure? : Exchange → Option ExecError
  | .launch _ _ (.error e) | .fork _ _ _ _ _ (.error e) | .channel _ (.error e)
  | .wait _ (.error e) => some e
  | _ => none

/-- What may be asked after a failure. -/
def Exchange.isCleanup : Exchange → Bool
  | .release _ | .wait _ _ => true
  | _ => false

/-- The failure that a walk ends with. -/
def failureOf : Except ExecError Int → Option ExecError
  | .ok _ => none
  | .error e => some e

-- ============================================================ the contract

/-- The state is the first failure. -/
def failing : Contract (Option ExecError) where
  allows s x s' := (s ≠ none → x.isCleanup = true) ∧ s' = s.or x.failure?

/-- Along a path the first failure is kept. -/
theorem failing_leads {s s' : Option ExecError} {xs : List Exchange} (h : failing.Leads s xs s') :
    s' = s.or (xs.findSome? Exchange.failure?) := by
  induction h with
  | nil => rw [List.findSome?_nil, Option.or_none]
  | @cons s s₁ s' x xs hx _ ih =>
      obtain ⟨-, rfl⟩ := hx
      rw [ih, Option.or_assoc, List.findSome?_cons]
      cases x.failure? <;> rfl

namespace Walk

/-- Whatever becomes of two waits, the first failure counts. -/
theorem failing_waitBoth {first second : Child} {k : Ending → Ending → Walk}
    (hk : ∀ e₁ e₂, (k e₁ e₂).Obeys failing none fun s r => s = failureOf r) :
    (waitBoth first second k).Obeys failing none fun s r => s = failureOf r := by
  intro r₁
  cases r₁ with
  | error e =>
      refine ⟨some e, ⟨nofun, rfl⟩, fun r₂ => ⟨some e, ⟨fun _ => rfl, rfl⟩, ?_⟩⟩
      exact rfl
  | ok e₁ =>
      refine ⟨none, ⟨nofun, rfl⟩, fun r₂ => ?_⟩
      cases r₂ with
      | error e => exact ⟨some e, ⟨nofun, rfl⟩, rfl⟩
      | ok e₂ => exact ⟨none, ⟨nofun, rfl⟩, hk e₁ e₂⟩

theorem failing_covers :
    failing.Covers (fun _ _ s => s = none) (fun _ _ _ s r => s = failureOf r) where
  leaf := by
    intro q c s h
    subst h
    unfold ofCommand
    split
    · exact rfl
    split
    · exact fun n => ⟨none, ⟨nofun, rfl⟩, rfl⟩
    · intro r
      cases r with
      | error e => exact ⟨some e, ⟨nofun, rfl⟩, rfl⟩
      | ok child =>
          refine ⟨none, ⟨nofun, rfl⟩, fun r => ?_⟩
          cases r with
          | error e => exact ⟨some e, ⟨nofun, rfl⟩, rfl⟩
          | ok ending => exact ⟨none, ⟨nofun, rfl⟩, rfl⟩
  first := fun _ h => h
  second := fun _ _ h => h
  both := fun _ _ _ h => h
  only := fun _ _ h => h
  parallel := by
    intro q l r s onLeft onRight depth h
    subst h
    intro r₁
    cases r₁ with
    | error e => exact ⟨some e, ⟨nofun, rfl⟩, rfl⟩
    | ok first =>
        refine ⟨none, ⟨nofun, rfl⟩, fun r₂ => ?_⟩
        cases r₂ with
        | error e =>
            exact ⟨some e, ⟨nofun, rfl⟩, fun _ => ⟨some e, ⟨fun _ => rfl, rfl⟩, rfl⟩⟩
        | ok second => exact ⟨none, ⟨nofun, rfl⟩, failing_waitBoth fun _ _ => rfl⟩
  pipe := by
    intro q l r s onLeft onRight depth h
    subst h
    intro r₀
    cases r₀ with
    | error e => exact ⟨some e, ⟨nofun, rfl⟩, rfl⟩
    | ok ch =>
        refine ⟨none, ⟨nofun, rfl⟩, fun r₁ => ?_⟩
        cases r₁ with
        | error e =>
            exact ⟨some e, ⟨nofun, rfl⟩, some e, ⟨fun _ => rfl, rfl⟩, rfl⟩
        | ok writer =>
            refine ⟨none, ⟨nofun, rfl⟩, fun r₂ => ?_⟩
            cases r₂ with
            | error e =>
                exact ⟨some e, ⟨nofun, rfl⟩, some e, ⟨fun _ => rfl, rfl⟩,
                  fun _ => ⟨some e, ⟨fun _ => rfl, rfl⟩, rfl⟩⟩
            | ok reader =>
                exact ⟨none, ⟨nofun, rfl⟩, none, ⟨nofun, rfl⟩, failing_waitBoth fun _ _ => rfl⟩

/-- The walk of a tree ends with the first failure, or with none. -/
theorem failing_execute (t : Tree) (depth : Nat) (parent : Option Operator) (q : Position) :
    (execute t depth parent q).Obeys failing none fun s r => s = failureOf r :=
  obeys_execute failing_covers t depth parent q none rfl

end Walk

end LineShell
