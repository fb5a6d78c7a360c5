/-
Walks one after the other.

What is done in sequence asks what the first walk asks, and then, if that
one was done, what the second asks; a failure or the end of the process
leaves the second out. So the dialogues of a sequence are told by those of
its parts, and so is its rehearsal.
-/
import LineShell.Proofs.Rehearsal.Trace

namespace LineShell

open Posix

namespace Walk

variable {w w' : Walk} {k : Int → Walk} {xs zs : List Exchange} {o : Outcome}

/-- Sequences are the same however they are grouped. -/
theorem bind_assoc (w : Walk) (k k' : Int → Walk) :
    (w.bind k).bind k' = w.bind fun n => (k n).bind k' := by
  induction w with
  | done n | failed e => rfl
  | log level text next ih => exact congrArg (log level text) ih
  | release ch next ih => exact congrArg (release ch) ih
  | builtin q b c next ih => exact congrArg (builtin q b c) (funext ih)
  | launch q c next ih => exact congrArg (launch q c) (funext ih)
  | fork q t d p w branch next _ ih => exact congrArg (fork q t d p w branch) (funext ih)
  | channel q next ih => exact congrArg (channel q) (funext ih)
  | wait child next ih => exact congrArg (wait child) (funext ih)

theorem bind_done (w : Walk) : w.bind done = w := by
  induction w with
  | done n | failed e => rfl
  | log level text next ih => exact congrArg (log level text) ih
  | release ch next ih => exact congrArg (release ch) ih
  | builtin q b c next ih => exact congrArg (builtin q b c) (funext ih)
  | launch q c next ih => exact congrArg (launch q c) (funext ih)
  | fork q t d p w branch next _ ih => exact congrArg (fork q t d p w branch) (funext ih)
  | channel q next ih => exact congrArg (channel q) (funext ih)
  | wait child next ih => exact congrArg (wait child) (funext ih)

/-- A path of the first walk is one of the sequence. -/
theorem Path.bind (h : w.Path xs w') : (w.bind k).Path xs (w'.bind k) := by
  induction h with
  | here => exact .here
  | log _ ih => exact .log ih
  | builtin n _ ih => exact .builtin n ih
  | launch r _ ih => exact .launch r ih
  | fork r _ ih => exact .fork r ih
  | channel r _ ih => exact .channel r ih
  | release _ ih => exact .release ih
  | wait r _ ih => exact .wait r ih

/-- What does not leave off with a status leaves the second walk out. -/
theorem LeavesOff.bind (h : w.LeavesOff o) (ho : ∀ n, o ≠ .finished n) :
    (w.bind k).LeavesOff o := by
  cases w with
  | done n => exact absurd h (ho n)
  | failed e => exact h
  | builtin q b c next =>
      cases b with
      | exit => exact h
      | cd | assign => exact h.elim
  | log | launch | fork | channel | release | wait => exact h.elim

/-- A walk that leaves off with a status is done. -/
theorem LeavesOff.eq_done {n : Int} (h : w.LeavesOff (.finished n)) : w = done n := by
  cases w with
  | done m =>
      cases (show Outcome.finished n = .finished m from h)
      rfl
  | failed e => cases h
  | builtin q b c next =>
      cases b with
      | exit => cases h
      | cd | assign => exact h.elim
  | log | launch | fork | channel | release | wait => exact h.elim

/-- How a sequence leaves off, given how its parts do. -/
inductive Follows (w : Walk) (k : Int → Walk) (zs : List Exchange) (o : Outcome) : Prop where
  /-- The first walk is done, and the second follows. -/
  | both {n : Int} {xs ys : List Exchange} : w.Dialogue xs (.finished n) →
      (k n).Dialogue ys o → zs = xs ++ ys → Follows w k zs o
  /-- The first walk fails, or ends the process. -/
  | only : w.Dialogue zs o → (∀ n, o ≠ .finished n) → Follows w k zs o

theorem Follows.dialogue (h : Follows w k zs o) : (w.bind k).Dialogue zs o := by
  cases h with
  | both hd hd' heq =>
      subst heq
      obtain ⟨w₁, hp, hl⟩ := hd
      obtain ⟨w₂, hp', hl'⟩ := hd'
      obtain rfl := hl.eq_done
      exact ⟨w₂, (hp.bind (k := k)).trans hp', hl'⟩
  | only hd ho =>
      obtain ⟨w', hp, hl⟩ := hd
      exact ⟨_, hp.bind, hl.bind ho⟩

/-- One more exchange before a sequence. -/
theorem Follows.cons {x : Exchange} {next : Walk}
    (hx : ∀ {xs o}, next.Dialogue xs o → w.Dialogue (x :: xs) o) (h : Follows next k zs o) :
    Follows w k (x :: zs) o := by
  cases h with
  | both hd hd' heq => exact .both (hx hd) hd' (congrArg (x :: ·) heq)
  | only hd ho => exact .only (hx hd) ho

theorem follows_of_path (hp : (w.bind k).Path zs w') (hl : w'.LeavesOff o) : Follows w k zs o := by
  induction w generalizing zs with
  | done n => exact .both ⟨_, .here, rfl⟩ ⟨w', hp, hl⟩ rfl
  | failed e =>
      cases hp
      obtain rfl : o = .failed e := hl
      exact .only ⟨_, .here, rfl⟩ nofun
  | log level text next ih =>
      cases hp with
      | here => exact hl.elim
      | log hp =>
          have logged : ∀ {xs o}, next.Dialogue xs o → (log level text next).Dialogue xs o :=
            fun ⟨w', hp, hl⟩ => ⟨w', .log hp, hl⟩
          cases ih hp with
          | both hd hd' heq => exact .both (logged hd) hd' heq
          | only hd ho => exact .only (logged hd) ho
  | builtin q b c next ih =>
      cases hp with
      | here =>
          cases b with
          | exit =>
              obtain rfl : o = .left := hl
              exact .only ⟨_, .here, rfl⟩ nofun
          | cd | assign => exact hl.elim
      | builtin n hp => exact (ih n hp).cons fun ⟨w', hp, hl⟩ => ⟨w', .builtin n hp, hl⟩
  | launch q c next ih =>
      cases hp with
      | here => exact hl.elim
      | launch r hp => exact (ih r hp).cons fun ⟨w', hp, hl⟩ => ⟨w', .launch r hp, hl⟩
  | fork q t d p wiring branch next _ ih =>
      cases hp with
      | here => exact hl.elim
      | fork r hp => exact (ih r hp).cons fun ⟨w', hp, hl⟩ => ⟨w', .fork r hp, hl⟩
  | channel q next ih =>
      cases hp with
      | here => exact hl.elim
      | channel r hp => exact (ih r hp).cons fun ⟨w', hp, hl⟩ => ⟨w', .channel r hp, hl⟩
  | release ch next ih =>
      cases hp with
      | here => exact hl.elim
      | release hp => exact (ih hp).cons fun ⟨w', hp, hl⟩ => ⟨w', .release hp, hl⟩
  | wait child next ih =>
      cases hp with
      | here => exact hl.elim
      | wait r hp => exact (ih r hp).cons fun ⟨w', hp, hl⟩ => ⟨w', .wait r hp, hl⟩

/-- The dialogues of a sequence. -/
theorem dialogue_bind : (w.bind k).Dialogue zs o ↔ Follows w k zs o :=
  ⟨fun ⟨_, hp, hl⟩ => follows_of_path hp hl, Follows.dialogue⟩

-- ============================================================== rehearsals

variable {σ : Type}

/-- Goes on after a rehearsal that came to a status. -/
def resume (k : Int → σ → View → Outcome × σ × View) :
    Outcome × σ × View → Outcome × σ × View
  | (.finished n, st, v) => k n st v
  | (.failed e, st, v) => (.failed e, st, v)
  | (.left, st, v) => (.left, st, v)

/-- The rehearsal of a sequence. -/
theorem rehearse_bind (l : Launcher σ) (w : Walk) (k : Int → Walk) (st : σ) (v : View) :
    (w.bind k).rehearse l st v
      = resume (fun n st v => (k n).rehearse l st v) (w.rehearse l st v) := by
  induction w generalizing st v with
  | done n | failed e => rfl
  | log level text next ih => exact ih st _
  | builtin q b c next ih =>
      simp only [Walk.bind, rehearse]
      cases b.run c v with
      | mk ending v' =>
          cases ending with
          | status n => exact ih n st v'
          | leave => rfl
  | launch q c next ih => exact ih _ _ v
  | fork q tree depth parent wiring branch next _ ih =>
      rw [Walk.bind]
      rcases fork_cases l q tree depth parent wiring branch st v with
        ⟨_, _, _, r, st₁, v₁, -, hanswered⟩ | ⟨_, _, _, -, -, -, hleft⟩
      · rw [(hanswered _).1, (hanswered next).1]
        exact ih r st₁ v₁
      · rw [(hleft _).1, (hleft next).1, resume]
  | channel q next ih =>
      obtain ⟨r, st₁, v₁, -, hanswered⟩ := channel_cases l q st v
      rw [Walk.bind, (hanswered _).1, (hanswered next).1]
      exact ih r st₁ v₁
  | release ch next ih => exact ih _ _
  | wait child next ih => exact ih _ _ v

end Walk

end LineShell
