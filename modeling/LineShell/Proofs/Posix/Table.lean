/-
Descriptor tables up to what a process can tell, and what the calls do to
them.

# Likeness

Two tables are alike if every descriptor leads to the same open file in
both; beyond the standard streams the rows are the same altogether. The
one thing that may differ is whether a standard stream is closed when the
program is replaced: putting a stream back makes it one that stays. Where
they all stay anyway (`Lasting`), alike tables have the same rows.

# The calls

Each call that makes or moves a descriptor is described by one lemma for
its success, in terms of the table before it; a call that fails leaves the
table alone.
-/
import LineShell.Proofs.Posix.Frame

namespace LineShell.Posix

/-- A descriptor is one of the standard streams, or lies beyond them. -/
theorem Fd.standard_or_above (fd : Fd) :
    fd = stdin ∨ fd = stdout ∨ fd = stderr ∨ stderr < fd := by
  rcases fd with _ | _ | _ | n
  · exact .inl rfl
  · exact .inr (.inl rfl)
  · exact .inr (.inr (.inl rfl))
  · exact .inr (.inr (.inr (Nat.le_add_left 3 n)))

namespace FdTable

/-- The open file behind a descriptor, by number. -/
def file? (t : FdTable) (fd : Fd) : Option Nat := (t.get? fd).map Handle.file

/-- The three standard streams are open. A shell that is started without one
of them has the null device in its place. -/
def Standard (t : FdTable) : Prop := ∀ fd ≤ Fd.stderr, (t.get? fd).isSome

/-- The standard streams stay open when the process replaces its program. -/
def Lasting (t : FdTable) : Prop :=
  ∀ fd ≤ Fd.stderr, ∀ x, t.get? fd = some x → x.closeOnExec = false

/-- Every descriptor has the same row in both tables. -/
def Same (t t' : FdTable) : Prop := ∀ fd, t.get? fd = t'.get? fd

/-- No descriptor tells the tables apart. -/
structure Alike (t t' : FdTable) : Prop where
  files : ∀ fd, t.file? fd = t'.file? fd
  rest : ∀ fd, Fd.stderr < fd → t.get? fd = t'.get? fd

namespace Alike

theorem of_get? {t t' : FdTable} (h : t.Same t') : t.Alike t' :=
  ⟨fun fd => by rw [file?, file?, h], fun fd _ => h fd⟩

theorem refl (t : FdTable) : t.Alike t := of_get? fun _ => rfl

theorem symm {t t' : FdTable} (h : t.Alike t') : t'.Alike t :=
  ⟨fun fd => (h.files fd).symm, fun fd hfd => (h.rest fd hfd).symm⟩

theorem trans {t₁ t₂ t₃ : FdTable} (h : t₁.Alike t₂) (h' : t₂.Alike t₃) : t₁.Alike t₃ :=
  ⟨fun fd => (h.files fd).trans (h'.files fd), fun fd hfd => (h.rest fd hfd).trans (h'.rest fd hfd)⟩

/-- Alike tables stay so when a descriptor gets the same handle in both. -/
theorem set {t t' : FdTable} (h : t.Alike t') (fd : Fd) (x : Handle) :
    (t.set fd x).Alike (t'.set fd x) where
  files other := by
    simp only [file?, get?_set]
    split
    · rfl
    · exact h.files other
  rest other ho := by
    simp only [get?_set]
    split
    · rfl
    · exact h.rest other ho

/-- Alike tables stay so when a descriptor is closed in both. -/
theorem erase {t t' : FdTable} (h : t.Alike t') (fd : Fd) : (t.erase fd).Alike (t'.erase fd) where
  files other := by
    simp only [file?, get?_erase]
    split
    · rfl
    · exact h.files other
  rest other ho := by
    simp only [get?_erase]
    split
    · rfl
    · exact h.rest other ho

/-- A standard stream that is given its own file again. -/
theorem set_self {t : FdTable} {fd : Fd} {x : Handle} (h : t.get? fd = some x)
    (hfd : fd ≤ Fd.stderr) (closeOnExec : Bool) : (t.set fd { x with closeOnExec }).Alike t where
  files other := by
    simp only [file?, get?_set]
    split
    · next he => rw [he, h]; rfl
    · rfl
  rest other ho := by
    have hne : other ≠ fd := fun he => Nat.not_le_of_lt ho (he ▸ hfd)
    rw [get?_set, if_neg hne]

theorem isSome {t t' : FdTable} (h : t.Alike t') (fd : Fd) :
    (t.get? fd).isSome = (t'.get? fd).isSome := by
  have := congrArg Option.isSome (h.files fd)
  simpa [file?] using this

theorem standard {t t' : FdTable} (h : t.Alike t') (hs : t.Standard) : t'.Standard :=
  fun fd hfd => (h.isSome fd).symm.trans (hs fd hfd)

/-- Where the standard streams of both tables last, likeness is sameness. -/
theorem same {t t' : FdTable} (h : t.Alike t') (hl : t.Lasting) (hl' : t'.Lasting) :
    t.Same t' := by
  intro fd
  rcases Nat.lt_or_ge Fd.stderr fd with hlt | hle
  · exact h.rest fd hlt
  have hfile := h.files fd
  unfold file? at hfile
  cases hx : t.get? fd with
  | none =>
      rw [hx] at hfile
      exact (Option.map_eq_none_iff.mp hfile.symm).symm
  | some x =>
      rw [hx] at hfile
      obtain ⟨y, hy, hxy⟩ := Option.map_eq_some_iff.mp hfile.symm
      have hxe := hl fd hle x hx
      have hye := hl' fd hle y hy
      rw [hy]
      cases x
      cases y
      grind

end Alike

theorem Same.trans {t₁ t₂ t₃ : FdTable} (h : t₁.Same t₂) (h' : t₂.Same t₃) : t₁.Same t₃ :=
  fun fd => (h fd).trans (h' fd)

namespace Lasting

theorem of_same {t t' : FdTable} (h : t'.Same t) (hl : t.Lasting) : t'.Lasting :=
  fun fd hfd x hx => hl fd hfd x ((h fd).symm.trans hx)

theorem set {t : FdTable} (hl : t.Lasting) (fd : Fd) (x : Handle) :
    (t.set fd { x with closeOnExec := false }).Lasting := by
  intro other ho y hy
  rw [get?_set] at hy
  split at hy
  · cases hy; rfl
  · exact hl other ho y hy

theorem erase {t : FdTable} (hl : t.Lasting) (fd : Fd) : (t.erase fd).Lasting := by
  intro other ho y hy
  rw [get?_erase] at hy
  split at hy
  · cases hy
  · exact hl other ho y hy

end Lasting

/-- The lowest free descriptor is free, and not below where the search
began. -/
theorem freeFrom_spec {t : FdTable} {low limit fd : Nat} (h : t.freeFrom low limit = some fd) :
    t.get? fd = none ∧ low ≤ fd := by
  have hfree := List.find?_some h
  have hmem := List.mem_range'_1.mp (List.mem_of_find?_eq_some h)
  refine ⟨?_, hmem.1⟩
  simpa [isOpen] using hfree

/-- Where the standard streams are open, what is free lies beyond them. -/
theorem Standard.lt_of_free {t : FdTable} (hs : t.Standard) {fd : Fd} (h : t.get? fd = none) :
    Fd.stderr < fd := by
  refine Nat.lt_of_not_le fun hle => ?_
  have := hs fd hle
  rw [h] at this
  cases this

/-- Descriptors may be added. -/
theorem Standard.set {t : FdTable} (hs : t.Standard) (fd : Fd) (x : Handle) :
    (t.set fd x).Standard := by
  intro other ho
  rw [get?_set]
  split
  · rfl
  · exact hs other ho

end FdTable

namespace Frame

/-- Standard streams that stay open in later programs go on doing so. -/
def lasting : Frame where
  holds v v' := v.process.fds.Lasting → v'.process.fds.Lasting
  refl _ h := h
  trans h h' hl := h' (h hl)

/-- The world stays as it is. -/
def inward : Frame where
  holds v v' := v'.world = v.world
  refl _ := rfl
  trans h h' := h'.trans h

end Frame

namespace Call

variable {α : Type} {v v' : View}

-- ============================================================ descriptors

theorem freeFdFrom_ok {low fd : Nat} (h : freeFdFrom low v = .ok fd v') :
    v' = v ∧ v.process.fds.get? fd = none ∧ low ≤ fd := by
  unfold freeFdFrom at h
  split at h
  · next hf =>
    cases h
    exact ⟨rfl, FdTable.freeFrom_spec hf⟩
  · cases h

theorem freeFdFrom_error {low : Nat} {e : Errno} (h : freeFdFrom low v = .error e v') :
    v' = v := by
  unfold freeFdFrom at h
  split at h
  · cases h
  · cases h; rfl

theorem handle_ok {fd : Fd} {x : Handle} (h : handle fd v = .ok x v') :
    v' = v ∧ v.process.fds.get? fd = some x := by
  unfold handle at h
  split at h
  · next hx => cases h; exact ⟨rfl, hx⟩
  · cases h

theorem handle_error {fd : Fd} {e : Errno} (h : handle fd v = .error e v') :
    v' = v ∧ v.process.fds.get? fd = none := by
  unfold handle at h
  split at h
  · cases h
  · next hx => cases h; exact ⟨rfl, hx⟩

/-- The result of a sequence of calls comes from its first failure or from
its last call. -/
theorem attempt_bind {β : Type} (c : Call α) (f : α → Call β) (v : View) :
    (c >>= f).attempt v = match c v with
      | .ok a v' => (f a).attempt v'
      | .error e v' => (.error e, v') := by
  simp only [attempt, bind, EStateM.bind]
  cases c v <;> rfl

theorem attempt_bind_ok {β : Type} {c : Call α} {a : α} (h : c.attempt v = (.ok a, v'))
    (f : α → Call β) : (c >>= f).attempt v = (f a).attempt v' := by
  unfold attempt at h
  split at h
  · next hc =>
    cases h
    simp only [attempt_bind, hc]
  · cases h

theorem attempt_bind_error {β : Type} {c : Call α} {e : Errno} (h : c.attempt v = (.error e, v'))
    (f : α → Call β) : (c >>= f).attempt v = (.error e, v') := by
  unfold attempt at h
  split at h
  · cases h
  · next hc =>
    cases h
    simp only [attempt_bind, hc]

theorem attempt_get_bind {β : Type} (f : View → Call β) (v : View) :
    (get >>= f).attempt v = (f v).attempt v := rfl

theorem attempt_pure (a : α) (v : View) : (pure a : Call α).attempt v = (.ok a, v) := rfl

/-- Closing gives the table without the descriptor. -/
theorem close_get? (fd other : Fd) (v : View) : ((close fd).after v).process.fds.get? other
    = if other = fd then none else v.process.fds.get? other := by
  unfold close
  rw [after_bind]
  cases h : handle fd v with
  | ok x v₁ =>
      obtain ⟨rfl, -⟩ := handle_ok h
      exact FdTable.get?_erase v₁.process.fds fd other
  | error e v₁ =>
      obtain ⟨rfl, hx⟩ := handle_error h
      change v₁.process.fds.get? other = if other = fd then none else v₁.process.fds.get? other
      split
      · next he => rw [he, hx]
      · rfl

theorem close_alike (fd : Fd) (v : View) :
    ((close fd).after v).process.fds.Alike (v.process.fds.erase fd) :=
  .of_get? fun other => by rw [close_get?, FdTable.get?_erase]

theorem close_of_open {fd : Fd} {x : Handle} (h : v.process.fds.get? fd = some x) :
    (close fd).attempt v = (.ok ⟨⟩, v.modifyFds (·.erase fd)) := by
  unfold close
  rw [attempt_bind]
  simp only [handle, h]
  rfl

/-- A copy of a descriptor goes to a free number. -/
theorem dup_spec (fd : Fd) (v : View) :
    (∃ e, (dup fd).attempt v = (.error e, v)) ∨
    ∃ x copy, v.process.fds.get? fd = some x ∧ v.process.fds.get? copy = none ∧
      (dup fd).attempt v
        = (.ok copy, v.modifyFds (·.set copy { x with closeOnExec := false })) := by
  unfold dup dupFrom
  rw [attempt_bind]
  cases h : handle fd v with
  | error e v₁ =>
      obtain ⟨rfl, -⟩ := handle_error h
      exact .inl ⟨e, rfl⟩
  | ok x v₁ =>
      obtain ⟨rfl, hx⟩ := handle_ok h
      simp only [attempt_bind]
      cases hf : freeFdFrom 0 v₁ with
      | error e v₂ =>
          cases freeFdFrom_error hf
          exact .inl ⟨e, rfl⟩
      | ok copy v₂ =>
          obtain ⟨rfl, hfree, -⟩ := freeFdFrom_ok hf
          exact .inr ⟨x, copy, hx, hfree, rfl⟩

/-- A descriptor put in place of another. -/
theorem dup2_of_open {fd onto : Fd} {x : Handle} (h : v.process.fds.get? fd = some x)
    (hne : fd ≠ onto) : (dup2 fd onto).attempt v
      = (.ok ⟨⟩, v.modifyFds (·.set onto { x with closeOnExec := false })) := by
  unfold dup2
  rw [attempt_bind]
  simp only [handle, h, if_neg hne]
  rfl

/-- A descriptor put in place of itself. -/
theorem dup2_self {fd : Fd} {x : Handle} (h : v.process.fds.get? fd = some x) :
    (dup2 fd fd).attempt v = (.ok ⟨⟩, v) := by
  unfold dup2
  rw [attempt_bind]
  simp only [handle, h, if_true]
  rfl

/-- Copies last, whatever they are copies of. -/
theorem handling_lasting : Handling .lasting where
  close fd v hl := by
    refine .of_same (fun other => ?_) (hl.erase fd)
    rw [close_get?, FdTable.get?_erase]
  dup fd v hl := by
    rcases dup_spec fd v with ⟨e, h⟩ | ⟨x, copy, -, -, h⟩
    · rw [after, h]
      exact hl
    · rw [after, h]
      exact hl.set copy x
  dup2 fd onto v hl := by
    cases hx : v.process.fds.get? fd with
    | none =>
        have hbad : (dup2 fd onto).attempt v = (.error .EBADF, v) := by
          unfold dup2
          rw [attempt_bind]
          simp only [handle, hx]
        rw [after, hbad]
        exact hl
    | some x =>
        by_cases hne : fd = onto
        · subst hne
          rw [after, dup2_self hx]
          exact hl
        · rw [after, dup2_of_open hx hne]
          exact hl.set onto x
  note _ _ _ hl := hl

/-- Descriptors are a process's own. -/
theorem handling_inward : Handling .inward where
  close fd v := by
    unfold close
    rw [after_bind]
    cases h : handle fd v with
    | ok x v₁ => rw [(handle_ok h).1]; rfl
    | error e v₁ => rw [(handle_error h).1]; rfl
  dup fd v := by
    rcases dup_spec fd v with ⟨e, h⟩ | ⟨x, copy, -, -, h⟩
    · rw [after, h]; rfl
    · rw [after, h]; rfl
  dup2 fd onto v := by
    unfold dup2
    rw [after_bind]
    cases h : handle fd v with
    | ok x v₁ =>
        rw [(handle_ok h).1]
        simp only
        split <;> rfl
    | error e v₁ => rw [(handle_error h).1]; rfl
  note _ _ _ := rfl

-- ================================================================== pipes

/-- The two ends of a new pipe go to two free numbers, and are two new
open files that lead to one new pipe. -/
theorem pipe_spec (v : View) :
    (∃ e, pipe.attempt v = (.error e, v)) ∨
    ∃ r w v', pipe.attempt v = (.ok (r, w), v') ∧
      v.process.fds.get? r = none ∧ v.process.fds.get? w = none ∧ r < w ∧
      v'.process.fds = (v.process.fds.set r ⟨v.world.files.size, false⟩).set w
        ⟨v.world.files.size + 1, false⟩ ∧
      v'.world.files[v.world.files.size]?.map OpenFile.target
        = some (.reader v.world.pipes.size) ∧
      v'.world.files[v.world.files.size + 1]?.map OpenFile.target
        = some (.writer v.world.pipes.size) := by
  unfold pipe
  rw [attempt_bind]
  cases hr : freeFd v with
  | error e v₁ =>
      cases freeFdFrom_error hr
      exact .inl ⟨e, rfl⟩
  | ok r v₁ =>
      obtain ⟨rfl, hr, -⟩ := freeFdFrom_ok hr
      simp only [attempt_bind]
      cases hw : freeFdFrom (r + 1) v₁ with
      | error e v₂ =>
          cases freeFdFrom_error hw
          exact .inl ⟨e, rfl⟩
      | ok w v₂ =>
          obtain ⟨rfl, hw, hlt⟩ := freeFdFrom_ok hw
          refine .inr ⟨r, w, _, rfl, hr, hw, hlt, ?_, ?_, ?_⟩
          · simp [View.modifyFds, View.modifyProcess, View.modifyWorld]
          · change ((v₂.world.files.push _).push _)[v₂.world.files.size]?.map OpenFile.target = _
            rw [Array.getElem?_push_lt (by simp), Array.getElem_push_eq]
            rfl
          · change ((v₂.world.files.push _).push _)[v₂.world.files.size + 1]?.map OpenFile.target = _
            rw [← Array.size_push, Array.getElem?_push_size]
            rfl

end Call

-- ============================================================= a terminal

/-- A view with one terminal at all three standard streams. -/
def View.atTerminal : View :=
  let terminal : OpenFile := { target := .node FileTree.root, readable := true, writable := true }
  { process := { fds := { rows := [(0, ⟨0, false⟩), (1, ⟨0, false⟩), (2, ⟨0, false⟩)] } }
    world := { tree := .empty, files := #[terminal] } }

theorem View.atTerminal_standard : View.atTerminal.process.fds.Standard := by
  intro fd hfd
  match fd, hfd with
  | 0, _ | 1, _ | 2, _ => rfl

theorem View.atTerminal_lasting : View.atTerminal.process.fds.Lasting := by
  intro fd hfd
  match fd, hfd with
  | 0, _ | 1, _ | 2, _ =>
      intro x hx
      cases hx
      rfl

end LineShell.Posix
