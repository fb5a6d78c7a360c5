/-
No call looks at the log.

A process writes records into its log and never reads them. So two views
that differ in the log alone (`View.Same`) cannot be told apart: whatever
is done in both gives the same value, and views that again differ in the
log alone. A function of views that is like this is `Blind`. Calls are put
together from a few that are seen to be blind by evaluation, so each one's
lemma follows its text, as for frames.
-/
import LineShell.Proofs.Posix.Table

namespace LineShell.Posix

variable {α β : Type}

namespace View

/-- The view with another log. -/
def relog (records : List LogRecord) (v : View) : View :=
  v.modifyProcess fun p => { p with log := records }

/-- The views differ at most in the log. -/
def Same (v v' : View) : Prop := v.relog [] = v'.relog []

namespace Same

variable {v v' v'' : View}

theorem refl (v : View) : v.Same v := rfl

theorem symm (h : v.Same v') : v'.Same v := Eq.symm h

theorem trans (h : v.Same v') (h' : v'.Same v'') : v.Same v'' := Eq.trans h h'

theorem relog (v : View) (records : List LogRecord) : v.Same (v.relog records) := rfl

theorem note (v : View) (level : Level) (text : String) : v.Same (v.note level text) := rfl

/-- The one is the other with its own log. -/
theorem eq_relog (h : v.Same v') : v' = v.relog v'.process.log :=
  (congrArg (View.relog v'.process.log) h).symm

theorem world (h : v.Same v') : v'.world = v.world := by
  rw [h.eq_relog]
  rfl

/-- The world is changed in the same way. -/
theorem modifyWorld (h : v.Same v') (f : World → World) :
    (v.modifyWorld f).Same (v'.modifyWorld f) := by
  rw [h.eq_relog]
  exact relog _ _

end Same

end View

/-- Values are the same whatever the log, and so are views up to it. -/
def Blind (f : View → α × View) : Prop :=
  ∀ v records, ∃ records', f (v.relog records) = ((f v).1, (f v).2.relog records')

namespace Blind

/-- Views that are the same lead to the same. -/
theorem same {f : View → α × View} (h : Blind f) {v v' : View} (hv : v.Same v') :
    (f v').1 = (f v).1 ∧ (f v).2.Same (f v').2 := by
  rw [hv.eq_relog]
  obtain ⟨records, heq⟩ := h v v'.process.log
  rw [heq]
  exact ⟨rfl, .relog _ _⟩

/-- So both give one answer, and leave views that are the same. -/
theorem eq {f : View → α × View} (h : Blind f) {v v' : View} (hv : v.Same v') :
    ∃ a u u', f v = (a, u) ∧ f v' = (a, u') ∧ u.Same u' := by
  obtain ⟨hanswer, hafter⟩ := h.same hv
  exact ⟨(f v).1, (f v).2, (f v').2, rfl, Prod.ext hanswer rfl, hafter⟩

theorem pure (a : α) : Blind fun v => (a, v) := fun _ records => ⟨records, rfl⟩

end Blind

-- ================================================================= calls

namespace Call

variable {c : Call α} {f : α → Call β} {p : Prop} [Decidable p] {e : Errno}

/-- The call does not look at the log. -/
def IsBlind (c : Call α) : Prop := Blind c.attempt

theorem blind_pure (a : α) : (pure a : Call α).IsBlind := fun _ records => ⟨records, rfl⟩

theorem blind_throw (e : Errno) : (throw e : Call α).IsBlind := fun _ records => ⟨records, rfl⟩

theorem IsBlind.bind (hc : c.IsBlind) (hf : ∀ a, (f a).IsBlind) : (c >>= f).IsBlind := by
  intro v records
  obtain ⟨records₁, h₁⟩ := hc v records
  cases hcv : c.attempt v with
  | mk r v₁ =>
      rw [hcv] at h₁
      cases r with
      | ok a =>
          rw [attempt_bind_ok hcv, attempt_bind_ok h₁]
          exact hf a v₁ records₁
      | error e =>
          rw [attempt_bind_error hcv, attempt_bind_error h₁]
          exact ⟨records₁, rfl⟩

/-- A call made up from the view, by what of it is no log. -/
theorem blind_get_bind {f : View → Call α} (hlog : ∀ v records, f (v.relog records) = f v)
    (hf : ∀ v, (f v).IsBlind) : (get >>= f).IsBlind := by
  intro v records
  rw [attempt_get_bind, attempt_get_bind, hlog]
  exact hf v v records

theorem blind_modify {f : View → View}
    (hf : ∀ v records, f (v.relog records) = (f v).relog records) :
    (modify f : Call PUnit).IsBlind := by
  intro v records
  refine ⟨records, ?_⟩
  change (Except.ok PUnit.unit, f (v.relog records)) = _
  rw [hf]
  rfl

theorem blind_ite {c d : Call α} (hc : c.IsBlind) (hd : d.IsBlind) :
    (if p then c else d).IsBlind := by
  split
  · exact hc
  · exact hd

/-- A loop over a list. -/
theorem blind_forIn {f : α → β → Call (ForInStep β)} (hf : ∀ a b, (f a b).IsBlind) (as : List α)
    (b : β) : (forIn as b f).IsBlind := by
  induction as generalizing b with
  | nil => exact blind_pure b
  | cons a as ih =>
      rw [List.forIn_cons]
      refine (hf a b).bind fun r => ?_
      cases r with
      | done b => exact blind_pure b
      | yield b => exact ih b

theorem blind_guard {k : PUnit → Call α} (hk : ∀ u, (k u).IsBlind) :
    (if p then throw e >>= k else k ⟨⟩).IsBlind :=
  blind_ite ((blind_throw e).bind hk) (hk _)

theorem blind_unless {k : PUnit → Call α} (hk : ∀ u, (k u).IsBlind) :
    (if p then k ⟨⟩ else throw e >>= k).IsBlind :=
  blind_ite (hk _) ((blind_throw e).bind hk)

-- ============================================================ descriptors

theorem blind_freeFdFrom (low : Nat) : (freeFdFrom low).IsBlind := by
  intro v records
  refine ⟨records, ?_⟩
  have same : (v.relog records).process.fds.freeFrom low (v.relog records).process.fdLimit
      = v.process.fds.freeFrom low v.process.fdLimit := rfl
  simp only [attempt, freeFdFrom, same]
  cases v.process.fds.freeFrom low v.process.fdLimit <;> rfl

theorem blind_handle (fd : Fd) : (handle fd).IsBlind := by
  intro v records
  refine ⟨records, ?_⟩
  have same : (v.relog records).process.fds.get? fd = v.process.fds.get? fd := rfl
  simp only [attempt, handle, same]
  cases v.process.fds.get? fd <;> rfl

theorem blind_openFileOf (fd : Fd) : (openFileOf fd).IsBlind := by
  intro v records
  refine ⟨records, ?_⟩
  have same : (v.relog records).file? fd = v.file? fd := rfl
  simp only [attempt, openFileOf, same]
  cases v.file? fd <;> rfl

theorem blind_install (fd : Fd) (f : OpenFile) (closeOnExec : Bool) :
    (install fd f closeOnExec).IsBlind := blind_modify fun _ _ => rfl

theorem blind_close (fd : Fd) : (close fd).IsBlind :=
  (blind_handle fd).bind fun _ => blind_modify fun _ _ => rfl

theorem blind_dup (fd : Fd) : (dup fd).IsBlind :=
  (blind_handle fd).bind fun _ => (blind_freeFdFrom 0).bind fun _ =>
    IsBlind.bind (blind_modify fun _ _ => rfl) fun _ => blind_pure _

theorem blind_dup2 (fd onto : Fd) : (dup2 fd onto).IsBlind :=
  (blind_handle fd).bind fun _ => blind_ite (blind_pure _) (blind_modify fun _ _ => rfl)

theorem blind_pipe : pipe.IsBlind :=
  (blind_freeFdFrom 0).bind fun _ => (blind_freeFdFrom _).bind fun _ =>
    blind_get_bind (fun _ _ => rfl) fun _ =>
      IsBlind.bind (blind_modify fun _ _ => rfl) fun _ =>
        (blind_install _ _ _).bind fun _ => (blind_install _ _ _).bind fun _ => blind_pure _

-- ================================================================== files

theorem blind_place (path : Bytes) (last : FileTree.Last) : (place path last).IsBlind := by
  intro v records
  refine ⟨records, ?_⟩
  have same : (v.relog records).world.tree.resolve (v.relog records).held
      (v.relog records).process.cwd path last
        = v.world.tree.resolve v.held v.process.cwd path last := rfl
  simp only [attempt, place, ofExcept, same]
  cases v.world.tree.resolve v.held v.process.cwd path last <;> rfl

theorem blind_nodeAt (path : Bytes) (last : FileTree.Last) : (nodeAt path last).IsBlind := by
  refine (blind_place path last).bind fun p => ?_
  cases p.node with
  | some id => exact blind_pure id
  | none => exact blind_throw _

theorem blind_create (spot : FileTree.Place) (bits : Nat) (c : Content) :
    (create spot bits c).IsBlind := by
  intro v records
  refine ⟨records, ?_⟩
  unfold create
  rw [attempt_get_bind, attempt_get_bind]
  have same : (v.relog records).world.tree.nodes[spot.dir]? = v.world.tree.nodes[spot.dir]? := rfl
  simp only [same]
  cases (v.world.tree.nodes[spot.dir]?.map Node.linked).getD false <;> rfl

theorem blind_openNode (path : Bytes) (m : Mode) : (openNode path m).IsBlind := by
  refine (blind_place path _).bind fun found => ?_
  cases found.node with
  | none => exact blind_ite (blind_create _ _ _) (blind_throw _)
  | some id =>
      refine blind_get_bind (fun _ _ => rfl) fun v => blind_guard fun _ => ?_
      split
      · split
        · exact IsBlind.bind (blind_modify fun _ _ => rfl) fun _ => blind_pure id
        · exact blind_pure id
      · exact (blind_throw _).bind fun _ => blind_pure id
      · exact blind_pure id

theorem blind_openFile (path : Bytes) (m : Mode) : (openFile path m).IsBlind := by
  unfold openFile
  refine blind_guard fun _ => ?_
  refine blind_guard fun _ => ?_
  refine (blind_freeFdFrom 0).bind fun fd => (blind_openNode path m).bind fun id => ?_
  refine blind_get_bind (fun _ _ => rfl) fun v => ?_
  exact (blind_install _ _ _).bind fun _ => blind_pure fd

theorem blind_seekTo (file offset : Nat) : (seekTo file offset).IsBlind :=
  blind_modify fun _ _ => rfl

theorem blind_readNode (file : Nat) (f : OpenFile) (id : NodeId) (count : Nat) :
    (readNode file f id count).IsBlind := by
  refine blind_get_bind (fun _ _ => rfl) fun v => ?_
  split
  · exact (blind_seekTo _ _).bind fun _ => blind_pure _
  · exact blind_pure _
  · exact blind_pure _
  · exact blind_throw _
  · exact blind_throw _
  all_goals exact blind_pure _

theorem blind_writeNode (file : Nat) (f : OpenFile) (id : NodeId) (chunk : Bytes) :
    (writeNode file f id chunk).IsBlind := by
  refine blind_get_bind (fun _ _ => rfl) fun v => ?_
  split
  · exact IsBlind.bind (blind_modify fun _ _ => rfl) fun _ => blind_seekTo _ _
  · exact blind_throw _
  · exact blind_pure _

theorem blind_writeNow (fd : Fd) (chunk : Bytes) : (writeNow fd chunk).IsBlind := by
  refine (blind_openFileOf fd).bind fun f => blind_unless fun _ => ?_
  split
  · exact blind_writeNode _ _ _ _
  all_goals exact blind_modify fun _ _ => rfl

theorem blind_changeDir (path : Bytes) : (changeDir path).IsBlind :=
  (blind_nodeAt path _).bind fun _ => blind_get_bind (fun _ _ => rfl) fun _ =>
    blind_unless fun _ => blind_modify fun _ _ => rfl

end Call

end LineShell.Posix
