/-
What a rehearsal does, moment by moment.

A dialogue lists the exchanges of one process. Where branches are evaluated
on the spot there is one process for all of them: between asking for a
branch and the answer lies all that the branch does. `Walk.trace` lists the
whole of it in the order of time, so a fork stands there twice, as it is
asked for (`Event.asked`) and as it is answered (`Event.answered`); the
branch, if it was evaluated, stands between the two. With each event goes
the launcher's state and the view right before it.

What holds of every moment in the light of those before it is stated by
`Throughout`, which follows the trace as it grows at its right end.
-/
import LineShell.Proofs.Walk.Contract

namespace LineShell

open Posix

-- ================================================================== traces

instance decidableEqExcept {ε α : Type} [DecidableEq ε] [DecidableEq α] :
    DecidableEq (Except ε α)
  | .error e, .error e' => decidable_of_iff (e = e') ⟨congrArg _, Except.error.inj⟩
  | .ok a, .ok a' => decidable_of_iff (a = a') ⟨congrArg _, Except.ok.inj⟩
  | .error _, .ok _ | .ok _, .error _ => isFalse nofun

deriving instance DecidableEq for Exchange

inductive Event where
  /-- A branch is asked for at a site. -/
  | asked (site : Position) (request : ForkRequest)
  /-- An exchange is over; that of a fork, after its branch. -/
  | answered (x : Exchange)
  deriving DecidableEq

def Event.exchange? : Event → Option Exchange
  | .asked _ _ => none
  | .answered x => some x

structure Moment (σ : Type) where
  event : Event
  /-- The launcher's state right before. -/
  state : σ
  /-- The process right before. -/
  view : View

variable {σ : Type}

namespace Walk

/-- All that happens in the rehearsal of a walk. A builtin that ends the
process is the end of the trace. -/
def trace (l : Launcher σ) : Walk → σ → View → List (Moment σ)
  | done _, _, _ | failed _, _, _ => []
  | log level text next, st, v => next.trace l st (v.note level text)
  | builtin q b c next, st, v =>
      match b.run c v with
      | (.status n, v') => ⟨.answered (.builtin q b c n), st, v⟩ :: (next n).trace l st v'
      | (.leave, _) => []
  | launch q c next, st, v =>
      let (r, st') := l.launch c st
      ⟨.answered (.launch q c r), st, v⟩ :: (next r).trace l st' v
  | fork q tree depth parent wiring branch next, st, v =>
      let request : ForkRequest := ⟨tree, depth, parent, wiring⟩
      let reply (r : Except ExecError Child) (st : σ) (v : View) : Moment σ :=
        ⟨.answered (.fork q tree depth parent wiring r), st, v⟩
      ⟨.asked q request, st, v⟩ ::
        match l.enter request st with
        | (.error e, st₁) => reply (.error e) st₁ v :: (next (.error e)).trace l st₁ v
        | (.ok (), st₁) =>
            match tree.external? with
            | some c =>
                let (child, st₂) := l.exec c st₁
                reply (.ok child) st₁ v :: (next (.ok child)).trace l st₂ v
            | none =>
                branch.trace l st₁ v ++
                  match branch.rehearse l st₁ v with
                  | (.finished n, st₂, after) =>
                      let (child, st₃) := l.finish n st₂
                      reply (.ok child) st₂ after ::
                        (next (.ok child)).trace l st₃ (l.leaveBranch v after)
                  | (.failed e, st₂, after) =>
                      reply (.error e) st₂ after ::
                        (next (.error e)).trace l st₂ (l.leaveBranch v after)
                  | (.left, _, _) => []
  | channel q next, st, v =>
      let reply (r : Except ExecError Channel) (st : σ) : Moment σ :=
        ⟨.answered (.channel q r), st, v⟩
      match l.connect st with
      | (.error e, st') => reply (.error e) st :: (next (.error e)).trace l st' v
      | (.ok (), st') =>
          match Call.pipe.attempt v with
          | (.error e, v') =>
              reply (.error (.channel e)) st :: (next (.error (.channel e))).trace l st' v'
          | (.ok (r, w), v') =>
              reply (.ok ⟨r, w⟩) st :: (next (.ok ⟨r, w⟩)).trace l (l.connected ⟨r, w⟩ st') v'
  | release ch next, st, v =>
      ⟨.answered (.release ch), st, v⟩ ::
        next.trace l (l.released ch st) (Redirection.closeAll [ch.read, ch.write] v)
  | wait child next, st, v =>
      let (r, st') := l.wait child st
      ⟨.answered (.wait child r), st, v⟩ :: (next r).trace l st' v

end Walk

-- ================================================================= answers

namespace Launcher

/-- What comes of asking for a branch, unless the process ends within it:
what happens in the branch, where the answer is given, the answer, and
where whoever asked goes on. -/
inductive AnswersFork (l : Launcher σ) (request : ForkRequest) (branch : Walk) (st : σ) (v : View) :
    List (Moment σ) → σ → View → Except ExecError Child → σ → View → Prop where
  /-- The branch cannot be started. -/
  | refused {e : ExecError} {st₁ : σ} : l.enter request st = (.error e, st₁) →
      AnswersFork l request branch st v [] st₁ v (.error e) st₁ v
  /-- The branch is nothing but a program. -/
  | program {c : Command} {st₁ : σ} : l.enter request st = (.ok (), st₁) →
      request.tree.external? = some c →
      AnswersFork l request branch st v [] st₁ v (.ok (l.exec c st₁).1) (l.exec c st₁).2 v
  | finished {n : Int} {st₁ st₂ : σ} {after : View} : l.enter request st = (.ok (), st₁) →
      request.tree.external? = none → branch.rehearse l st₁ v = (.finished n, st₂, after) →
      AnswersFork l request branch st v (branch.trace l st₁ v) st₂ after
        (.ok (l.finish n st₂).1) (l.finish n st₂).2 (l.leaveBranch v after)
  | failed {e : ExecError} {st₁ st₂ : σ} {after : View} : l.enter request st = (.ok (), st₁) →
      request.tree.external? = none → branch.rehearse l st₁ v = (.failed e, st₂, after) →
      AnswersFork l request branch st v (branch.trace l st₁ v) st₂ after
        (.error e) st₂ (l.leaveBranch v after)

/-- What comes of asking for a channel: the answer, and where whoever asked
goes on. -/
inductive AnswersChannel (l : Launcher σ) (st : σ) (v : View) :
    Except ExecError Channel → σ → View → Prop where
  | refused {e : ExecError} {st₁ : σ} : l.connect st = (.error e, st₁) →
      AnswersChannel l st v (.error e) st₁ v
  /-- The launcher agrees, but the pipe cannot be made. -/
  | unmade {e : Errno} {st₁ : σ} {v₁ : View} : l.connect st = (.ok (), st₁) →
      Call.pipe.attempt v = (.error e, v₁) → AnswersChannel l st v (.error (.channel e)) st₁ v₁
  | made {r w : Fd} {st₁ : σ} {v₁ : View} : l.connect st = (.ok (), st₁) →
      Call.pipe.attempt v = (.ok (r, w), v₁) →
      AnswersChannel l st v (.ok ⟨r, w⟩) (l.connected ⟨r, w⟩ st₁) v₁

end Launcher

namespace Walk

/-- A branch that is asked for is answered, or the process ends within it.
Neither depends on what the answer is for. -/
theorem fork_cases (l : Launcher σ) (q : Position) (tree : Tree) (depth : Nat) (parent : Operator)
    (wiring : Wiring) (branch : Walk) (st : σ) (v : View) :
    (∃ within st₀ v₀ r st₁ v₁,
      l.AnswersFork ⟨tree, depth, parent, wiring⟩ branch st v within st₀ v₀ r st₁ v₁ ∧
      ∀ next, (fork q tree depth parent wiring branch next).rehearse l st v =
          (next r).rehearse l st₁ v₁ ∧
        (fork q tree depth parent wiring branch next).trace l st v =
          ⟨.asked q ⟨tree, depth, parent, wiring⟩, st, v⟩ :: (within ++
            ⟨.answered (.fork q tree depth parent wiring r), st₀, v₀⟩ ::
              (next r).trace l st₁ v₁)) ∨
    ∃ st₁ st₂ after, l.enter ⟨tree, depth, parent, wiring⟩ st = (.ok (), st₁) ∧
      tree.external? = none ∧ branch.rehearse l st₁ v = (.left, st₂, after) ∧
      ∀ next, (fork q tree depth parent wiring branch next).rehearse l st v =
          (.left, st₂, after) ∧
        (fork q tree depth parent wiring branch next).trace l st v =
          ⟨.asked q ⟨tree, depth, parent, wiring⟩, st, v⟩ :: branch.trace l st₁ v := by
  rcases henter : l.enter ⟨tree, depth, parent, wiring⟩ st with ⟨e | _, st₁⟩
  · exact .inl ⟨_, _, _, _, _, _, .refused henter, fun next => by simp only [rehearse, trace, henter,
      List.nil_append, and_self]⟩
  cases hx : tree.external? with
  | some c =>
      exact .inl ⟨_, _, _, _, _, _, .program henter hx, fun next => by simp only [rehearse, trace,
        henter, hx, List.nil_append, and_self]⟩
  | none =>
      rcases hrun : branch.rehearse l st₁ v with ⟨n | e | _, st₂, after⟩
      · exact .inl ⟨_, _, _, _, _, _, .finished henter hx hrun, fun next => by simp only [rehearse,
          trace, henter, hx, hrun, and_self]⟩
      · exact .inl ⟨_, _, _, _, _, _, .failed henter hx hrun, fun next => by simp only [rehearse,
          trace, henter, hx, hrun, and_self]⟩
      · exact .inr ⟨st₁, st₂, after, rfl, rfl, hrun, fun next => by simp only [rehearse, trace,
          henter, hx, hrun, List.append_nil, and_self]⟩

/-- A channel that is asked for is answered. -/
theorem channel_cases (l : Launcher σ) (q : Position) (st : σ) (v : View) :
    ∃ r st₁ v₁, l.AnswersChannel st v r st₁ v₁ ∧
      ∀ next, (channel q next).rehearse l st v = (next r).rehearse l st₁ v₁ ∧
        (channel q next).trace l st v =
          ⟨.answered (.channel q r), st, v⟩ :: (next r).trace l st₁ v₁ := by
  rcases hconnect : l.connect st with ⟨e | _, st₁⟩
  · exact ⟨_, _, _, .refused hconnect, fun next => by simp only [rehearse, trace, hconnect,
      and_self]⟩
  rcases hpipe : Call.pipe.attempt v with ⟨e | ⟨r, w⟩, v₁⟩
  · exact ⟨_, _, _, .unmade hconnect hpipe, fun next => by simp only [rehearse, trace, hconnect,
      hpipe, and_self]⟩
  · exact ⟨_, _, _, .made hconnect hpipe, fun next => by simp only [rehearse, trace, hconnect, hpipe,
      and_self]⟩

/-- What follows a rehearsal that came to a status. -/
def followed (k : Int → σ → View → List (Moment σ)) : Outcome × σ × View → List (Moment σ)
  | (.finished n, st, v) => k n st v
  | (.failed _, _, _) | (.left, _, _) => []

/-- The trace of a sequence. -/
theorem trace_bind (l : Launcher σ) (w : Walk) (k : Int → Walk) (st : σ) (v : View) :
    (w.bind k).trace l st v =
      w.trace l st v ++ followed (fun n st v => (k n).trace l st v) (w.rehearse l st v) := by
  induction w generalizing st v with
  | done n | failed e => rfl
  | log level text next ih => exact ih st _
  | builtin q b c next ih =>
      simp only [Walk.bind, trace, rehearse]
      cases b.run c v with
      | mk ending v' =>
          cases ending with
          | status n => exact congrArg _ (ih n st v')
          | leave => rfl
  | launch q c next ih => exact congrArg _ (ih _ _ v)
  | fork q tree depth parent wiring branch next _ ih =>
      rw [Walk.bind]
      rcases fork_cases l q tree depth parent wiring branch st v with
        ⟨within, st₀, v₀, r, st₁, v₁, -, hanswered⟩ | ⟨st₁, st₂, after, -, -, -, hleft⟩
      · rw [(hanswered _).2, (hanswered next).1, (hanswered next).2, ih, List.cons_append,
          List.append_assoc, List.cons_append]
      · rw [(hleft _).2, (hleft next).1, (hleft next).2, followed, List.append_nil]
  | channel q next ih =>
      obtain ⟨r, st₁, v₁, -, hanswered⟩ := channel_cases l q st v
      rw [Walk.bind, (hanswered _).2, (hanswered next).1, (hanswered next).2, ih, List.cons_append]
  | release ch next ih => exact congrArg _ (ih _ _)
  | wait child next ih => exact congrArg _ (ih _ _ v)

end Walk

-- ================================================================= history

/-- Holds of every element of the second list, given what came before it,
the first list included. -/
def Throughout {α : Type} (R : List α → α → Prop) : List α → List α → Prop
  | _, [] => True
  | past, x :: xs => R past x ∧ Throughout R (past ++ [x]) xs

namespace Throughout

variable {α : Type} {R : List α → α → Prop}

theorem append {past xs ys : List α} (h : Throughout R past xs)
    (h' : Throughout R (past ++ xs) ys) : Throughout R past (xs ++ ys) := by
  induction xs generalizing past with
  | nil =>
      rw [List.append_nil] at h'
      exact h'
  | cons x xs ih =>
      refine ⟨h.1, ih h.2 ?_⟩
      rw [List.append_assoc]
      exact h'

/-- Any element in the light of all that came before it. -/
theorem at_split {past before after : List α} {x : α}
    (h : Throughout R past (before ++ x :: after)) : R (past ++ before) x := by
  induction before generalizing past with
  | nil =>
      rw [List.append_nil]
      exact h.1
  | cons y before ih =>
      have inner := ih h.2
      rw [List.append_assoc] at inner
      exact inner

end Throughout

end LineShell
